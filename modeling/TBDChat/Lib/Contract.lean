import TBDChat.Lib.Outline

/-!
# What each thread is spared

A `Pact` says of every operation the same, whoever performs it.  Under a `Contract`
a thread is spared in addition what the others could do to it alone: they leave what
it holds, and it need not leave that itself.

A thread `Fulfils` the contract if its operations keep to it and spare the others.
As in an `Outline`, what holds before an operation and what holds at the end is part
of it, and operations may be held to a condition `C`, in the runs of which they meet it.
-/

namespace TBDChat.Atomic

structure Contract (ι S : Type) extends Pact S where
  /-- What thread `i` has to expect of the others. -/
  spares : ι → S → S → Prop
  spares_refl : ∀ i s, spares i s s
  spares_trans : ∀ {i s s' s''}, spares i s s' → spares i s' s'' → spares i s s''

namespace Semantics
variable {Op : Type} {Ar : Op → Type} {S E F α β ι : Type} (M : Semantics Op Ar S E F)

/-- A turn in which an operation meets `C`, or in which a thread begins anew. -/
inductive TurnWhen [DecidableEq ι] (C : Op → S → Prop) (Starts : ι → α → Prog Op Ar α → Prop) :
    Pool ι Op Ar S α → Pool ι Op Ar S α → Prop
  | act {w w' : Pool ι Op Ar S α} (h : M.TurnIf C w w') : TurnWhen C Starts w w'
  | start {w : Pool ι Op Ar S α} {i : ι} {a : α} {p : Prog Op Ar α} (hi : w.thread i = .ret a)
      (hp : Starts i a p) : TurnWhen C Starts w ⟨w.state, Function.update w.thread i p⟩

/-- Any number of them. -/
def TurnsWhen [DecidableEq ι] (C : Op → S → Prop) (Starts : ι → α → Prog Op Ar α → Prop) :
    Pool ι Op Ar S α → Pool ι Op Ar S α → Prop := Relation.ReflTransGen (M.TurnWhen C Starts)

theorem TurnsIf.when [DecidableEq ι] {M : Semantics Op Ar S E F} {C : Op → S → Prop}
    {Starts : ι → α → Prog Op Ar α → Prop} {w w' : Pool ι Op Ar S α} (h : M.TurnsIf C w w') :
    M.TurnsWhen C Starts w w' :=
  Relation.ReflTransGen.mono (fun _ _ hturn => .act hturn) _ _ h

/-- Where every turn finds its condition met, the condition is none. -/
theorem Turn.when [DecidableEq ι] {M : Semantics Op Ar S E F} {C : Op → S → Prop}
    {Starts : ι → α → Prog Op Ar α → Prop} {w w' : Pool ι Op Ar S α}
    (hC : ∀ i o k, w.thread i = .act o k → C o w.state)
    (h : M.Turn Starts w w') : M.TurnWhen C Starts w w' := by
  cases h with
  | act hi he => exact .act (.act hi (hC _ _ _ hi) he)
  | start hi hp => exact .start hi hp

variable (K : Contract ι S)

/-- An operation of `i` keeps to the contract. -/
structure Obeys (i : ι) (o : Op) (s : S) : Prop where
  keeps : M.KeepsAt K.toPact o s
  spares : ∀ j, j ≠ i → ∀ b s' es, M.exec o s = .ok (b, s', es) → K.spares j s s'

/-- With the others within the contract, `A` holds of each operation that `i` comes to and
of the state that it comes to it in, and `Q` of what it returns and of the state that it
ends in. -/
def Fulfils (i : ι) (C A : Op → S → Prop) (Q : α → S → Prop) : Prog Op Ar α → S → Prop
  | .ret a, s => Q a s
  | .act o k, s => ∀ s₁, K.rely s s₁ → K.spares i s s₁ → K.inv s₁ → A o s₁ ∧ (C o s₁ →
      M.Obeys K i o s₁ ∧ ∀ b s₂ es, M.exec o s₁ = .ok (b, s₂, es) → Fulfils i C A Q (k b) s₂)

/-- What the others do does not undo it. -/
def Holds (i : ι) (Q : α → S → Prop) : Prop :=
  ∀ a s s', K.inv s → K.rely s s' → K.spares i s s' → Q a s → Q a s'

variable {M K} {i : ι} {C A : Op → S → Prop} {Q : α → S → Prop} {R : β → S → Prop}
  {p : Prog Op Ar α} {f : α → Prog Op Ar β} {s s' : S}

theorem Fulfils.later (hQ : Holds K i Q) (hp : M.Fulfils K i C A Q p s) (hi : K.inv s)
    (hs : K.rely s s') (hspares : K.spares i s s') : M.Fulfils K i C A Q p s' := by
  cases p with
  | ret a => exact hQ a s s' hi hs hspares hp
  | act o k =>
    intro s₁ hs₁ hspares₁
    exact hp s₁ (K.trans hs hs₁) (K.spares_trans hspares hspares₁)

/-- Less may be said of the end. -/
theorem Fulfils.mono {Q' : α → S → Prop} (hp : M.Fulfils K i C A Q p s)
    (h : ∀ a s, Q a s → Q' a s) : M.Fulfils K i C A Q' p s := by
  induction p generalizing s with
  | ret a => exact h a s hp
  | act o k ih =>
    intro s₁ hs₁ hspares hi
    obtain ⟨ho, hk⟩ := hp s₁ hs₁ hspares hi
    exact ⟨ho, fun hC => ⟨(hk hC).1, fun b s₂ es he => ih b ((hk hC).2 b s₂ es he)⟩⟩

/-- The second program begins in what the first one leaves. -/
theorem Fulfils.bind (hp : M.Fulfils K i C A Q p s)
    (hf : ∀ a s', Q a s' → M.Fulfils K i C A R (f a) s') :
    M.Fulfils K i C A R (p >>= f) s := by
  induction p generalizing s with
  | ret a => exact hf a s hp
  | act o k ih =>
    intro s₁ hs₁ hspares hi
    obtain ⟨ho, hk⟩ := hp s₁ hs₁ hspares hi
    refine ⟨ho, fun hC => ?_⟩
    obtain ⟨hobeys, hrest⟩ := hk hC
    exact ⟨hobeys, fun b s₂ es he => ih b (hrest b s₂ es he)⟩

/-- One operation, and the rest of the program with what it answered. -/
theorem Fulfils.call_bind {o : Op} {f : Ar o → Prog Op Ar β}
    (h : ∀ s₁, K.rely s s₁ → K.spares i s s₁ → K.inv s₁ → A o s₁ ∧ (C o s₁ → M.Obeys K i o s₁ ∧
      ∀ b s₂ es, M.exec o s₁ = .ok (b, s₂, es) → M.Fulfils K i C A R (f b) s₂)) :
    M.Fulfils K i C A R (.call o >>= f) s := h

/-- What holds of an operation that is performed next. -/
theorem Fulfils.next {w : Pool ι Op Ar S α} {o : Op} {k : Ar o → Prog Op Ar α}
    (hi : K.inv w.state) (hw : M.Fulfils K i C A Q (w.thread i) w.state)
    (h : w.thread i = .act o k) : A o w.state := by
  rw [h] at hw
  exact (hw w.state (K.refl _) (K.spares_refl _ _) hi).1

/-- What holds when a thread has come to its end. -/
theorem Fulfils.returned {w : Pool ι Op Ar S α} {a : α}
    (hw : M.Fulfils K i C A Q (w.thread i) w.state) (h : w.thread i = .ret a) : Q a w.state := by
  rwa [h] at hw

section Pools
variable [DecidableEq ι] {w w' : Pool ι Op Ar S α} {Q : ι → α → S → Prop}
  {Starts : ι → α → Prog Op Ar α → Prop}

theorem TurnWhen.fulfils (hQ : ∀ i, Holds K i (Q i))
    (hstart : ∀ i a p s, K.inv s → Q i a s → Starts i a p → M.Fulfils K i C A (Q i) p s)
    (hi : K.inv w.state) (hw : ∀ i, M.Fulfils K i C A (Q i) (w.thread i) w.state)
    (h : M.TurnWhen C Starts w w') :
    K.inv w'.state ∧ K.rely w.state w'.state ∧
      ∀ i, M.Fulfils K i C A (Q i) (w'.thread i) w'.state := by
  cases h with
  | act h =>
    cases h with
    | @act i o k b s es hthread hC he =>
      have hful := hw i
      rw [hthread] at hful
      obtain ⟨hobeys, hk⟩ := (hful w.state (K.refl _) (K.spares_refl _ _) hi).2 hC
      obtain ⟨hinv, hrely⟩ := hobeys.keeps b s es he
      refine ⟨hinv, hrely, fun j => ?_⟩
      by_cases hj : j = i
      · subst hj
        simpa using hk b s es he
      · simpa [hj] using (hw j).later (hQ j) hi hrely (hobeys.spares j hj b s es he)
  | @start i a p hthread hp =>
    refine ⟨hi, K.refl _, fun j => ?_⟩
    by_cases hj : j = i
    · subst hj
      simpa using hstart j a p w.state hi ((hw j).returned hthread) hp
    · simpa [hj] using hw j

/-- **Contracts hold together**, in every interleaving whose operations meet the
condition. -/
theorem TurnsWhen.fulfils (hQ : ∀ i, Holds K i (Q i))
    (hstart : ∀ i a p s, K.inv s → Q i a s → Starts i a p → M.Fulfils K i C A (Q i) p s)
    (hi : K.inv w.state) (hw : ∀ i, M.Fulfils K i C A (Q i) (w.thread i) w.state)
    (h : M.TurnsWhen C Starts w w') :
    K.inv w'.state ∧ K.rely w.state w'.state ∧
      ∀ i, M.Fulfils K i C A (Q i) (w'.thread i) w'.state := by
  induction h with
  | refl => exact ⟨hi, K.refl _, hw⟩
  | tail _ hturn ih =>
    obtain ⟨hinv, hrely, hful⟩ := ih
    obtain ⟨hinv', hrely', hful'⟩ := hturn.fulfils hQ hstart hinv hful
    exact ⟨hinv', K.trans hrely hrely', hful'⟩

end Pools
end Semantics
end TBDChat.Atomic
