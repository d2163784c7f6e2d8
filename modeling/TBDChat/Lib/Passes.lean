import TBDChat.Lib.Interleaving

/-!
# Programs that are cut off

A program may be stopped after any of its operations.  `Passes` says what it comes through on
its way: what is left of it, and the state.

`UsesThen` is a program that does one thing once, if at all: operations of one kind, then perhaps
the one that matters, then operations of another kind.  Whenever it is cut off, it has not yet
changed anything that the first kind keeps, or has nothing left to change that the last kind
keeps.
-/

namespace TBDChat.Atomic
variable {Op : Type} {Ar : Op → Type} {S E F α β : Type} {A W B : Op → Prop}

/-- What is left of a program, and the state, after some of its operations. -/
inductive Semantics.Passes (M : Semantics Op Ar S E F) :
    Prog Op Ar α → S → Prog Op Ar α → S → Prop
  | here (p : Prog Op Ar α) (s : S) : Passes M p s p s
  | step {o : Op} {k : Ar o → Prog Op Ar α} {s s₁ s' : S} {b : Ar o} {es : List E}
      {q : Prog Op Ar α} (h : M.exec o s = .ok (b, s₁, es)) (rest : Passes M (k b) s₁ q s') :
      Passes M (.act o k) s q s'

namespace Prog

/-- Operations in `A`, and then perhaps one in `W` and operations in `B`. -/
def UsesThen (A W B : Op → Prop) : Prog Op Ar α → Prop
  | .ret _ => True
  | .act o k => (W o ∧ ∀ b, (k b).Uses B) ∨ A o ∧ ∀ b, UsesThen A W B (k b)

theorem Uses.usesThen {p : Prog Op Ar α} (hp : p.Uses A) : p.UsesThen A W B := by
  induction p with
  | ret a => trivial
  | act o k ih => exact .inr ⟨hp.1, fun b => ih b (hp.2 b)⟩

theorem Uses.bind_usesThen {p : Prog Op Ar α} {f : α → Prog Op Ar β} (hp : p.Uses A)
    (hf : ∀ a, (f a).UsesThen A W B) : (p >>= f).UsesThen A W B := by
  induction p with
  | ret a => exact hf a
  | act o k ih => exact .inr ⟨hp.1, fun b => ih b (hp.2 b)⟩

theorem UsesThen.call_bind {o : Op} {f : Ar o → Prog Op Ar α} (ho : A o)
    (hf : ∀ b, (f b).UsesThen A W B) : (call o >>= f).UsesThen A W B := .inr ⟨ho, hf⟩

/-- From the one operation on there are only others to come. -/
theorem UsesThen.call_bind_uses {o : Op} {f : Ar o → Prog Op Ar α} (ho : W o)
    (hf : ∀ b, (f b).Uses B) : (call o >>= f).UsesThen A W B := .inl ⟨ho, hf⟩

/-- Something that does nothing comes behind. -/
theorem UsesThen.bind_pure {p : Prog Op Ar α} (hp : p.UsesThen A W B) (f : α → β) :
    (p >>= fun a => pure (f a)).UsesThen A W B := by
  induction p with
  | ret a => trivial
  | act o k ih =>
    obtain ⟨hw, hk⟩ | ⟨ha, hk⟩ := hp
    · exact .inl ⟨hw, fun b => (hk b).bind fun _ => trivial⟩
    · exact .inr ⟨ha, fun b => ih b (hk b)⟩

end Prog

namespace Semantics
variable {M : Semantics Op Ar S E F} {R : S → S → Prop} {p q : Prog Op Ar α} {s s' s₁ : S}
  {a : α} {es : List E}

/-- A program that comes to its end passes to there. -/
theorem passes_of_run (hrun : M.run p s = .ok (a, s', es)) : M.Passes p s (.ret a) s' := by
  induction p generalizing s es with
  | ret x =>
    cases hrun
    exact .here _ _
  | act o k ih =>
    obtain ⟨b, s₁, es₁, es₂, hexec, hrest, -⟩ := Outcome.andThen_eq_ok hrun
    exact .step hexec (ih b hrest)

/-- Operations of one kind keep what each of them keeps. -/
theorem Passes.keeps (hrefl : ∀ s, R s s) (htrans : ∀ {s s' s''}, R s s' → R s' s'' → R s s'')
    (hB : ∀ o, B o → ∀ s b s' es, M.exec o s = .ok (b, s', es) → R s s') (hp : p.Uses B)
    (h : M.Passes p s q s₁) : R s s₁ := by
  induction h with
  | here p s => exact hrefl s
  | step hexec rest ih => exact htrans (hB _ hp.1 _ _ _ _ hexec) (ih (hp.2 _))

/-- The rest of a program that is cut off comes to the end of the whole. -/
theorem Passes.run (h : M.Passes p s q s₁) (hrun : M.run p s = .ok (a, s', es)) :
    ∃ es', M.run q s₁ = .ok (a, s', es') := by
  induction h generalizing es with
  | here p s => exact ⟨es, hrun⟩
  | step hexec rest ih =>
    obtain ⟨b, s₂, es₁, es₂, hexec', hrest, -⟩ := Outcome.andThen_eq_ok hrun
    rw [hexec] at hexec'
    cases hexec'
    exact ih hrest

theorem Passes.uses (h : M.Passes p s q s₁) (hp : p.Uses B) : q.Uses B := by
  induction h with
  | here p s => exact hp
  | step _ _ ih => exact ih (hp.2 _)

/-- **A program that is cut off** has only done operations in `A`, or is through with the one in
`W` and has only operations in `B` to do. -/
theorem Passes.usesThen (hrefl : ∀ s, R s s)
    (htrans : ∀ {s s' s''}, R s s' → R s' s'' → R s s'')
    (hA : ∀ o, A o → ∀ s b s' es, M.exec o s = .ok (b, s', es) → R s s')
    (hp : p.UsesThen A W B) (h : M.Passes p s q s₁) :
    (R s s₁ ∧ q.UsesThen A W B) ∨ q.Uses B := by
  induction h with
  | here p s => exact .inl ⟨hrefl s, hp⟩
  | @step o k s s₂ s' b es q hexec rest ih =>
    obtain ⟨-, hk⟩ | ⟨ha, hk⟩ := hp
    · exact .inr (rest.uses (hk b))
    · refine (ih (hk b)).imp_left fun ⟨hR, hq⟩ => ⟨htrans (hA o ha s b s₂ es hexec) hR, hq⟩

variable (M) in
/-- What is left of a program, and the state, after its first `n` operations. -/
def operations : Nat → Prog Op Ar α → S → Prog Op Ar α × S
  | n + 1, .act o k, s =>
    match M.exec o s with
    | .error _ => (.act o k, s)
    | .ok (b, s', _) => operations n (k b) s'
  | _, p, s => (p, s)

theorem passes_operations (n : Nat) (p : Prog Op Ar α) (s : S) :
    M.Passes p s (M.operations n p s).1 (M.operations n p s).2 := by
  induction n generalizing p s with
  | zero => exact .here p s
  | succ n ih =>
    cases p with
    | ret a => exact .here _ s
    | act o k =>
      rw [operations]
      split
      · exact .here _ s
      · exact .step ‹_› (ih _ _)

end Semantics
end TBDChat.Atomic
