import TBDChat.Lib.Atomic
import Mathlib.Logic.Relation

/-!
# Programs that take turns

A `Pool` is a state shared by threads, each with what is left of its program.  A
`Turn` lets one thread perform one operation, or begin a new program when it has
come to the end of the last.  Nothing is said of who comes next, so a sequence of
turns is any interleaving of any number of threads.

An invariant of all interleavings is shown one thread at a time.  A `Pact` says
what the threads promise one another: an invariant of the shared state, and a
relation that bounds what an operation may do to it.  A program `Keeps` the pact
if each of its operations does, in whatever state the others, keeping the pact
themselves, have left behind.  Threads that keep the pact keep it together
(`Turns.keeps`).
-/

namespace TBDChat.Atomic

namespace Prog
variable {Op : Type} {Ar : Op → Type} {α β : Type} {A B : Op → Prop}

/-- Every operation the program can come to is in `A`. -/
def Uses (A : Op → Prop) : Prog Op Ar α → Prop
  | ret _ => True
  | act o k => A o ∧ ∀ b, Uses A (k b)

theorem Uses.bind {p : Prog Op Ar α} {f : α → Prog Op Ar β} (hp : p.Uses A)
    (hf : ∀ a, (f a).Uses A) : (p >>= f).Uses A := by
  induction p with
  | ret a => exact hf a
  | act o k ih => exact ⟨hp.1, fun b => ih b (hp.2 b)⟩

theorem Uses.call_bind {o : Op} {f : Ar o → Prog Op Ar β} (ho : A o)
    (hf : ∀ b, (f b).Uses A) : (call o >>= f).Uses A := ⟨ho, hf⟩

/-- Fewer operations are among more. -/
theorem Uses.mono {p : Prog Op Ar α} (hp : p.Uses A) (h : ∀ o, A o → B o) : p.Uses B := by
  induction p with
  | ret a => exact trivial
  | act o k ih => exact ⟨h o hp.1, fun b => ih b (hp.2 b)⟩

end Prog

/-- What threads promise one another. -/
structure Pact (S : Type) where
  inv : S → Prop
  rely : S → S → Prop
  refl : ∀ s, rely s s
  trans : ∀ {s s' s''}, rely s s' → rely s' s'' → rely s s''

/-- A state, and what each thread has left to do. -/
structure Pool (ι : Type) (Op : Type) (Ar : Op → Type) (S α : Type) where
  state : S
  thread : ι → Prog Op Ar α

/-- What a thread has returned, if it has come to its end. -/
def Pool.ended? {ι Op S α : Type} {Ar : Op → Type} (w : Pool ι Op Ar S α) (i : ι) : Option α :=
  match w.thread i with
  | .ret a => some a
  | .act _ _ => none

theorem Pool.ended?_eq_some {ι Op S α : Type} {Ar : Op → Type} {w : Pool ι Op Ar S α} {i : ι}
    {a : α} : w.ended? i = some a ↔ w.thread i = .ret a := by
  unfold Pool.ended?
  cases w.thread i with
  | ret b => simp
  | act o k => simp

namespace Semantics
variable {Op : Type} {Ar : Op → Type} {S E F α β ι : Type} (M : Semantics Op Ar S E F)

/-- One thread performs its next operation, or begins anew from what its last
program returned. -/
inductive Turn [DecidableEq ι] (Starts : ι → α → Prog Op Ar α → Prop) :
    Pool ι Op Ar S α → Pool ι Op Ar S α → Prop
  | act {w : Pool ι Op Ar S α} {i : ι} {o : Op} {k : Ar o → Prog Op Ar α} {b : Ar o} {s : S}
      {es : List E} (hi : w.thread i = .act o k) (he : M.exec o w.state = .ok (b, s, es)) :
      Turn Starts w ⟨s, Function.update w.thread i (k b)⟩
  | start {w : Pool ι Op Ar S α} {i : ι} {a : α} {p : Prog Op Ar α} (hi : w.thread i = .ret a)
      (hp : Starts i a p) : Turn Starts w ⟨w.state, Function.update w.thread i p⟩

/-- Any number of turns. -/
def Turns [DecidableEq ι] (Starts : ι → α → Prog Op Ar α → Prop) :
    Pool ι Op Ar S α → Pool ι Op Ar S α → Prop := Relation.ReflTransGen (M.Turn Starts)

/-! ## Schedules

A list of threads in the order of their turns, so that an interleaving can be
evaluated.
-/

/-- The pool after thread `i` has performed its next operation, if it has one and
the operation does not fail. -/
def advance [DecidableEq ι] (w : Pool ι Op Ar S α) (i : ι) : Option (Pool ι Op Ar S α) :=
  match w.thread i with
  | .ret _ => none
  | .act o k =>
    match M.exec o w.state with
    | .error _ => none
    | .ok (b, s, _) => some ⟨s, Function.update w.thread i (k b)⟩

/-- The pool after the turns of a schedule.  A thread that can do nothing lets its
turn pass. -/
def schedule [DecidableEq ι] (w : Pool ι Op Ar S α) (is : List ι) : Pool ι Op Ar S α :=
  is.foldl (fun w i => (M.advance w i).getD w) w

theorem schedule_turns [DecidableEq ι] {Starts : ι → α → Prog Op Ar α → Prop}
    (w : Pool ι Op Ar S α) (is : List ι) : M.Turns Starts w (M.schedule w is) := by
  induction is generalizing w with
  | nil => exact .refl
  | cons i is ih =>
    have hturn : M.Turns Starts w ((M.advance w i).getD w) := by
      unfold advance
      split
      · exact .refl
      · split
        · exact .refl
        · exact .single (.act ‹_› ‹_›)
    exact hturn.trans (ih _)

/-! ## Keeping a pact -/

/-- An operation keeps the pact. -/
def KeepsAt (P : Pact S) (o : Op) (s : S) : Prop :=
  ∀ b s' es, M.exec o s = .ok (b, s', es) → P.inv s' ∧ P.rely s s'

/-- A program, begun in `s`, keeps the pact, and so it does after every change
that the pact allows the others between its operations. -/
def Keeps (P : Pact S) : Prog Op Ar α → S → Prop
  | .ret _, _ => True
  | .act o k, s => ∀ s₁, P.rely s s₁ → P.inv s₁ →
      M.KeepsAt P o s₁ ∧ ∀ b s₂ es, M.exec o s₁ = .ok (b, s₂, es) → Keeps P (k b) s₂

variable {M} {P : Pact S} {p : Prog Op Ar α} {f : α → Prog Op Ar β} {s s' : S}

/-- The others may have been at work before the program begins. -/
theorem Keeps.later (hp : M.Keeps P p s) (hs : P.rely s s') : M.Keeps P p s' := by
  cases p with
  | ret a => trivial
  | act o k => exact fun s₁ hs₁ => hp s₁ (P.trans hs hs₁)

theorem Keeps.bind (hp : M.Keeps P p s) (hf : ∀ a s', P.rely s s' → M.Keeps P (f a) s') :
    M.Keeps P (p >>= f) s := by
  induction p generalizing s with
  | ret a => exact hf a s (P.refl s)
  | act o k ih =>
    intro s₁ hs₁ hi
    obtain ⟨ho, hk⟩ := hp s₁ hs₁ hi
    -- by the time the rest begins, the others have been at work, then `o`, then others again
    refine ⟨ho, fun b s₂ es he => ih b (hk b s₂ es he) fun a s' hs' => hf a s' ?_⟩
    exact P.trans (P.trans hs₁ (ho b s₂ es he).2) hs'

/-- One operation, and the rest of the program with what it answered. -/
theorem Keeps.call_bind {o : Op} {f : Ar o → Prog Op Ar β}
    (h : ∀ s₁, P.rely s s₁ → P.inv s₁ →
      M.KeepsAt P o s₁ ∧ ∀ b s₂ es, M.exec o s₁ = .ok (b, s₂, es) → M.Keeps P (f b) s₂) :
    M.Keeps P (.call o >>= f) s := h

/-- A program made of operations that keep the pact wherever they are performed. -/
theorem Keeps.of_uses {A : Op → Prop} (hA : ∀ o, A o → ∀ s, P.inv s → M.KeepsAt P o s)
    (hp : p.Uses A) (s : S) : M.Keeps P p s := by
  induction p generalizing s with
  | ret a => trivial
  | act o k ih =>
    exact fun s₁ _ hi => ⟨hA o hp.1 s₁ hi, fun b s₂ es _ => ih b (hp.2 b) s₂⟩

section Pools
variable [DecidableEq ι] {Starts : ι → α → Prog Op Ar α → Prop} {w w' : Pool ι Op Ar S α}

/-- A turn of one thread keeps the pact, and leaves every thread able to. -/
theorem Turn.keeps (hstart : ∀ i a q s, Starts i a q → M.Keeps P q s) (hi : P.inv w.state)
    (hw : ∀ i, M.Keeps P (w.thread i) w.state) (h : M.Turn Starts w w') :
    P.inv w'.state ∧ P.rely w.state w'.state ∧ ∀ i, M.Keeps P (w'.thread i) w'.state := by
  cases h with
  | @act i o k b s es hthread he =>
    have hkeep := hw i
    rw [hthread] at hkeep
    obtain ⟨ho, hk⟩ := hkeep w.state (P.refl _) hi
    obtain ⟨hinv, hrely⟩ := ho b s es he
    -- the others are where they were, and what `i` did is within the pact
    refine ⟨hinv, hrely, fun j => ?_⟩
    by_cases hj : j = i
    · subst hj
      simpa using hk b s es he
    · simpa [hj] using (hw j).later hrely
  | @start i a q hthread hq =>
    refine ⟨hi, P.refl _, fun j => ?_⟩
    by_cases hj : j = i
    · subst hj
      simpa using hstart j a q w.state hq
    · simpa [hj] using hw j

/-- **Threads that keep a pact keep it together**, however they take turns. -/
theorem Turns.keeps (hstart : ∀ i a q s, Starts i a q → M.Keeps P q s) (hi : P.inv w.state)
    (hw : ∀ i, M.Keeps P (w.thread i) w.state) (h : M.Turns Starts w w') :
    P.inv w'.state ∧ P.rely w.state w'.state ∧ ∀ i, M.Keeps P (w'.thread i) w'.state := by
  induction h with
  | refl => exact ⟨hi, P.refl _, hw⟩
  | tail _ hturn ih =>
    obtain ⟨hinv, hrely, hkeep⟩ := ih
    obtain ⟨hinv', hrely', hkeep'⟩ := hturn.keeps hstart hinv hkeep
    exact ⟨hinv', P.trans hrely hrely', hkeep'⟩

end Pools
end Semantics
end TBDChat.Atomic
