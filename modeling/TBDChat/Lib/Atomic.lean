import Mathlib.Logic.Function.Basic

/-!
# Programs made of atomic operations

A program is a tree: it either returns, or performs one operation and goes on
with the operation's answer.  Nothing says yet what an operation does; a
`Semantics` does, on a state of its own, with failures and with an output that
is only ever appended to.

Two readings of one program follow.  `run` performs it alone, from its first
operation to its last.  The other, in which several programs take turns, one
operation at a time, is in `Interleaving`.
-/

namespace TBDChat.Atomic

/-- A program over the operations `Op`, where `Ar o` is the type of the answer
to `o`, returning an `α`. -/
inductive Prog (Op : Type) (Ar : Op → Type) (α : Type) where
  | ret (a : α)
  | act (o : Op) (k : Ar o → Prog Op Ar α)

namespace Prog
variable {Op : Type} {Ar : Op → Type} {α β γ : Type}

/-- Sequential composition: graft `f` at the leaves. -/
def bind : Prog Op Ar α → (α → Prog Op Ar β) → Prog Op Ar β
  | ret a, f => f a
  | act o k, f => act o (fun b => bind (k b) f)

instance : Monad (Prog Op Ar) where
  pure := ret
  bind := bind

/-- The program that performs one operation and returns its answer. -/
def call (o : Op) : Prog Op Ar (Ar o) := act o ret

theorem ret_bind (a : α) (f : α → Prog Op Ar β) : (ret a >>= f) = f a := rfl

theorem act_bind (o : Op) (k : Ar o → Prog Op Ar α) (f : α → Prog Op Ar β) :
    (act o k >>= f) = act o (fun b => k b >>= f) := rfl

theorem call_bind (o : Op) (f : Ar o → Prog Op Ar β) : (call o >>= f) = act o f := rfl

end Prog

/-- What a computation comes to: a failure, or a value with the state left
behind and what was output on the way. -/
abbrev Outcome (S E F α : Type) := Except F (α × S × List E)

namespace Outcome
variable {S E F α β : Type}

/-- Put `es` in front of the output. -/
def prepend (es : List E) : Outcome S E F α → Outcome S E F α
  | .error f => .error f
  | .ok (a, s, es') => .ok (a, s, es ++ es')

/-- Go on from an outcome with its value and its state. -/
def andThen (r : Outcome S E F α) (k : α → S → Outcome S E F β) : Outcome S E F β :=
  match r with
  | .error f => .error f
  | .ok (a, s, es) => (k a s).prepend es

@[simp] theorem prepend_nil (r : Outcome S E F α) : r.prepend [] = r := by
  cases r <;> rfl

@[simp] theorem prepend_error (es : List E) (f : F) :
    prepend es (.error f : Outcome S E F α) = .error f := rfl

@[simp] theorem prepend_ok (es es' : List E) (a : α) (s : S) :
    prepend es (.ok (a, s, es') : Outcome S E F α) = .ok (a, s, es ++ es') := rfl

theorem prepend_append (es es' : List E) (r : Outcome S E F α) :
    r.prepend (es ++ es') = (r.prepend es').prepend es := by
  cases r with
  | error f => rfl
  | ok x => simp [prepend]

@[simp] theorem andThen_error (f : F) (k : α → S → Outcome S E F β) :
    andThen (.error f) k = .error f := rfl

@[simp] theorem andThen_ok (a : α) (s : S) (es : List E) (k : α → S → Outcome S E F β) :
    andThen (.ok (a, s, es)) k = (k a s).prepend es := rfl

theorem andThen_prepend (es : List E) (r : Outcome S E F α) (k : α → S → Outcome S E F β) :
    (r.prepend es).andThen k = (r.andThen k).prepend es := by
  cases r with
  | error f => rfl
  | ok x => exact prepend_append es x.2.2 _

/-- A computation in two parts ends well only if both parts do. -/
theorem andThen_eq_ok {r : Outcome S E F α} {k : α → S → Outcome S E F β} {b : β} {s : S}
    {es : List E} (h : r.andThen k = .ok (b, s, es)) :
    ∃ a s₁ es₁ es₂, r = .ok (a, s₁, es₁) ∧ k a s₁ = .ok (b, s, es₂) ∧ es = es₁ ++ es₂ := by
  cases r with
  | error f => cases h
  | ok x =>
    obtain ⟨a, s₁, es₁⟩ := x
    rw [andThen_ok] at h
    cases hk : k a s₁ with
    | error f => rw [hk] at h; cases h
    | ok y =>
      obtain ⟨b', s', es₂⟩ := y
      rw [hk, prepend_ok] at h
      cases h
      exact ⟨a, s₁, es₁, es₂, rfl, hk, rfl⟩

theorem prepend_eq_ok {r : Outcome S E F α} {es₀ es : List E} {a : α} {s : S}
    (h : r.prepend es₀ = .ok (a, s, es)) : ∃ es', r = .ok (a, s, es') ∧ es = es₀ ++ es' := by
  cases r with
  | error f => cases h
  | ok x =>
    cases h
    exact ⟨_, rfl, rfl⟩

/-- How a computation fails, if it does. -/
def fault? : Outcome S E F α → Option F
  | .error f => some f
  | .ok _ => none

@[simp] theorem fault?_error (f : F) : fault? (.error f : Outcome S E F α) = some f := rfl

@[simp] theorem fault?_ok (x : α × S × List E) : fault? (.ok x : Outcome S E F α) = none := rfl

@[simp] theorem fault?_prepend (es : List E) (r : Outcome S E F α) :
    (r.prepend es).fault? = r.fault? := by
  cases r <;> rfl

/-- What a computation returns, if it ends well. -/
def value? : Outcome S E F α → Option α
  | .error _ => none
  | .ok (a, _, _) => some a

@[simp] theorem value?_error (f : F) : value? (.error f : Outcome S E F α) = none := rfl

@[simp] theorem value?_ok (a : α) (s : S) (es : List E) :
    value? (.ok (a, s, es) : Outcome S E F α) = some a := rfl

theorem fault?_eq_some {r : Outcome S E F α} {f : F} : r.fault? = some f ↔ r = .error f := by
  cases r with
  | error g => simp [fault?]
  | ok x => simp [fault?]

end Outcome

/-- A meaning for the operations: what `o` answers from a state, the state it
leaves and what it outputs, or how it fails. -/
structure Semantics (Op : Type) (Ar : Op → Type) (S E F : Type) where
  exec : (o : Op) → S → Outcome S E F (Ar o)

namespace Semantics
variable {Op : Type} {Ar : Op → Type} {S E F α β : Type} (M : Semantics Op Ar S E F)

/-- A program run alone, from its first operation to its last. -/
def run : Prog Op Ar α → S → Outcome S E F α
  | .ret a, s => .ok (a, s, [])
  | .act o k, s => (M.exec o s).andThen (fun b s' => run (k b) s')

@[simp] theorem run_ret (a : α) (s : S) : M.run (.ret a) s = .ok (a, s, []) := rfl

@[simp] theorem run_pure (a : α) (s : S) : M.run (pure a) s = .ok (a, s, []) := rfl

theorem run_act (o : Op) (k : Ar o → Prog Op Ar α) (s : S) :
    M.run (.act o k) s = (M.exec o s).andThen (fun b s' => M.run (k b) s') := rfl

@[simp] theorem run_call (o : Op) (s : S) : M.run (.call o) s = M.exec o s := by
  rw [Prog.call, run_act]
  cases M.exec o s with
  | error f => rfl
  | ok x => simp [Outcome.andThen]

@[simp] theorem run_bind (p : Prog Op Ar α) (f : α → Prog Op Ar β) (s : S) :
    M.run (p >>= f) s = (M.run p s).andThen (fun a s' => M.run (f a) s') := by
  induction p generalizing s with
  | ret a => simp [Prog.ret_bind]
  | act o k ih =>
    rw [Prog.act_bind, run_act, run_act]
    cases M.exec o s with
    | error g => rfl
    | ok x =>
      obtain ⟨b, s', es⟩ := x
      simp only [Outcome.andThen_ok, ih, Outcome.andThen_prepend]

@[simp] theorem run_ite (c : Prop) [Decidable c] (p q : Prog Op Ar α) (s : S) :
    M.run (if c then p else q) s = if c then M.run p s else M.run q s := by
  split <;> rfl

/-- Returning something else does not fail. -/
theorem fault?_run_bind_pure (p : Prog Op Ar α) (f : α → β) (s : S) :
    (M.run (p >>= fun a => pure (f a)) s).fault? = (M.run p s).fault? := by
  rw [run_bind]
  cases M.run p s with
  | error g => rfl
  | ok x => rfl

/-- A program after which only something is returned. -/
theorem run_bind_pure_eq {p : Prog Op Ar α} {f : α → β} {s s' : S} {b : β} {es : List E}
    (h : M.run (p >>= fun a => pure (f a)) s = .ok (b, s', es)) :
    ∃ a, M.run p s = .ok (a, s', es) ∧ b = f a := by
  rw [run_bind] at h
  obtain ⟨a, s₁, es₁, es₂, hp, hend, rfl⟩ := Outcome.andThen_eq_ok h
  cases hend
  rw [List.append_nil]
  exact ⟨a, hp, rfl⟩

/-- Which way a conditional went. -/
theorem run_ite_eq {c : Prop} [Decidable c] {p q : Prog Op Ar α} {s : S} {r : Outcome S E F α}
    (h : M.run (if c then p else q) s = r) : (c ∧ M.run p s = r) ∨ (¬c ∧ M.run q s = r) := by
  by_cases hc : c
  · rw [if_pos hc] at h
    exact .inl ⟨hc, h⟩
  · rw [if_neg hc] at h
    exact .inr ⟨hc, h⟩

/-- A conditional, and a statement `P` about its outcome that makes the same choice. -/
theorem run_ite_both {c : Prop} [Decidable c] {p q : Prog Op Ar α} {s : S}
    {r : Outcome S E F α} {X : Type _} {x y : X} (P : X → Prop)
    (h : M.run (if c then p else q) s = r) (hp : c → M.run p s = r → P x)
    (hq : ¬c → M.run q s = r → P y) : P (if c then x else y) := by
  by_cases hc : c
  · rw [if_pos hc] at h ⊢
    exact hp hc h
  · rw [if_neg hc] at h ⊢
    exact hq hc h

end Semantics
end TBDChat.Atomic
