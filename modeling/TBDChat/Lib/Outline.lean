import TBDChat.Lib.Interleaving

/-!
# Proof outlines

`Keeps` says of a program what it does to the shared state.  An outline says in
addition what holds whenever the program is about to perform an operation, and what
holds when it has returned, whatever the other threads have done by then within the
pact.

An outline may rest on a condition that operations meet when they are performed.  Then
it speaks of the runs in which they do: those made of `TurnIf`.
-/

namespace TBDChat.Atomic

namespace Semantics
variable {Op : Type} {Ar : Op → Type} {S E F α β ι : Type} (M : Semantics Op Ar S E F)

/-- One thread performs its next operation, which meets `C` in the state it finds. -/
inductive TurnIf [DecidableEq ι] (C : Op → S → Prop) :
    Pool ι Op Ar S α → Pool ι Op Ar S α → Prop
  | act {w : Pool ι Op Ar S α} {i : ι} {o : Op} {k : Ar o → Prog Op Ar α} {b : Ar o} {s : S}
      {es : List E} (hi : w.thread i = .act o k) (hC : C o w.state)
      (he : M.exec o w.state = .ok (b, s, es)) :
      TurnIf C w ⟨s, Function.update w.thread i (k b)⟩

/-- Any number of them. -/
def TurnsIf [DecidableEq ι] (C : Op → S → Prop) :
    Pool ι Op Ar S α → Pool ι Op Ar S α → Prop := Relation.ReflTransGen (M.TurnIf C)

/-- The operations of a schedule pass the test `B`. -/
def passes [DecidableEq ι] (B : Op → S → Bool) : Pool ι Op Ar S α → List ι → Bool
  | _, [] => true
  | w, i :: is =>
    (match w.thread i with
      | .ret _ => true
      | .act o _ => B o w.state) && passes B ((M.advance w i).getD w) is

theorem schedule_turnsIf [DecidableEq ι] {B : Op → S → Bool} {C : Op → S → Prop}
    (hB : ∀ o s, B o s = true → C o s) {w : Pool ι Op Ar S α} {is : List ι}
    (h : M.passes B w is = true) : M.TurnsIf C w (M.schedule w is) := by
  induction is generalizing w with
  | nil => exact .refl
  | cons i is ih =>
    obtain ⟨hC, hrest⟩ := Bool.and_eq_true_iff.mp h
    have hturn : M.TurnsIf C w ((M.advance w i).getD w) := by
      unfold advance
      split
      · exact .refl
      · rename_i o k hi
        split
        · exact .refl
        · rename_i b s es he
          rw [hi] at hC
          exact .single (.act hi (hB o w.state hC) he)
    exact hturn.trans (ih hrest)

/-- With the others within the pact `P`, `A` holds of each operation that the program
comes to and of the state that it comes to it in, and `Q` of what it returns and of the
state that it ends in. -/
def Outline (P : Pact S) (C A : Op → S → Prop) (Q : α → S → Prop) : Prog Op Ar α → S → Prop
  | .ret a, s => Q a s
  | .act o k, s => ∀ s₁, P.rely s s₁ → P.inv s₁ → A o s₁ ∧ (C o s₁ →
      M.KeepsAt P o s₁ ∧ ∀ b s₂ es, M.exec o s₁ = .ok (b, s₂, es) → Outline P C A Q (k b) s₂)

variable {M} {P : Pact S} {C A : Op → S → Prop} {Q : α → S → Prop} {R : β → S → Prop}
  {p : Prog Op Ar α} {f : α → Prog Op Ar β} {s s' : S}

/-- What the others do within the pact does not undo it. -/
def Stable (P : Pact S) (Q : α → S → Prop) : Prop := ∀ a s s', P.rely s s' → Q a s → Q a s'

/-- The others may have been at work before the program begins. -/
theorem Outline.later (hQ : Stable P Q) (hp : M.Outline P C A Q p s) (hs : P.rely s s') :
    M.Outline P C A Q p s' := by
  cases p with
  | ret a => exact hQ a s s' hs hp
  | act o k =>
    intro s₁ hs₁
    exact hp s₁ (P.trans hs hs₁)

/-- What the first program establishes, the second one may use. -/
theorem Outline.bind (hp : M.Outline P C A Q p s)
    (hf : ∀ a s', P.rely s s' → Q a s' → M.Outline P C A R (f a) s') :
    M.Outline P C A R (p >>= f) s := by
  induction p generalizing s with
  | ret a => exact hf a s (P.refl s) hp
  | act o k ih =>
    intro s₁ hs₁ hi
    obtain ⟨ho, hk⟩ := hp s₁ hs₁ hi
    refine ⟨ho, fun hC => ?_⟩
    obtain ⟨hkeep, hrest⟩ := hk hC
    refine ⟨hkeep, fun b s₂ es he => ih b (hrest b s₂ es he) fun a s' hs' hQ => hf a s' ?_ hQ⟩
    exact P.trans (P.trans hs₁ (hkeep b s₂ es he).2) hs'

/-- One operation, and the rest of the program with what it answered. -/
theorem Outline.call_bind {o : Op} {f : Ar o → Prog Op Ar β}
    (h : ∀ s₁, P.rely s s₁ → P.inv s₁ → A o s₁ ∧ (C o s₁ → M.KeepsAt P o s₁ ∧
      ∀ b s₂ es, M.exec o s₁ = .ok (b, s₂, es) → M.Outline P C A R (f b) s₂)) :
    M.Outline P C A R (.call o >>= f) s := h

/-- A program made of operations that keep the pact wherever they are performed. -/
theorem Outline.of_uses {B : Op → Prop}
    (hB : ∀ o, B o → ∀ s, P.inv s → A o s ∧ M.KeepsAt P o s) (hp : p.Uses B)
    (hQ : ∀ a s', P.rely s s' → Q a s') : M.Outline P C A Q p s := by
  induction p generalizing s with
  | ret a => exact hQ a s (P.refl s)
  | act o k ih =>
    intro s₁ hs₁ hi
    obtain ⟨hA, hkeep⟩ := hB o hp.1 s₁ hi
    refine ⟨hA, fun _ => ⟨hkeep, fun b s₂ es he => ih b (hp.2 b) fun a s' hs' => hQ a s' ?_⟩⟩
    exact P.trans (P.trans hs₁ (hkeep b s₂ es he).2) hs'

/-- What holds of an operation that is performed next. -/
theorem Outline.next {w : Pool ι Op Ar S α} {i : ι} {o : Op} {k : Ar o → Prog Op Ar α}
    (hi : P.inv w.state) (hw : M.Outline P C A Q (w.thread i) w.state) (h : w.thread i = .act o k) :
    A o w.state := by
  rw [h] at hw
  exact (hw w.state (P.refl _) hi).1

/-- What holds when a thread has come to its end. -/
theorem Outline.returned {w : Pool ι Op Ar S α} {i : ι} {a : α}
    (hw : M.Outline P C A Q (w.thread i) w.state) (h : w.thread i = .ret a) :
    Q a w.state := by
  rwa [h] at hw

section Pools
variable [DecidableEq ι] {w w' : Pool ι Op Ar S α} {Q : ι → α → S → Prop}

theorem TurnIf.outline (hQ : ∀ i, Stable P (Q i)) (hi : P.inv w.state)
    (hw : ∀ i, M.Outline P C A (Q i) (w.thread i) w.state) (h : M.TurnIf C w w') :
    P.inv w'.state ∧ P.rely w.state w'.state ∧
      ∀ i, M.Outline P C A (Q i) (w'.thread i) w'.state := by
  cases h with
  | @act i o k b s es hthread hC he =>
    have hout := hw i
    rw [hthread] at hout
    obtain ⟨hkeep, hk⟩ := (hout w.state (P.refl _) hi).2 hC
    obtain ⟨hinv, hrely⟩ := hkeep b s es he
    refine ⟨hinv, hrely, fun j => ?_⟩
    by_cases hj : j = i
    · subst hj
      simpa using hk b s es he
    · simpa [hj] using (hw j).later (hQ j) hrely

/-- **Outlines hold together**, in every interleaving whose operations meet the
condition. -/
theorem TurnsIf.outline (hQ : ∀ i, Stable P (Q i)) (hi : P.inv w.state)
    (hw : ∀ i, M.Outline P C A (Q i) (w.thread i) w.state) (h : M.TurnsIf C w w') :
    P.inv w'.state ∧ P.rely w.state w'.state ∧
      ∀ i, M.Outline P C A (Q i) (w'.thread i) w'.state := by
  induction h with
  | refl => exact ⟨hi, P.refl _, hw⟩
  | tail _ hturn ih =>
    obtain ⟨hinv, hrely, hout⟩ := ih
    obtain ⟨hinv', hrely', hout'⟩ := hturn.outline hQ hinv hout
    exact ⟨hinv', P.trans hrely hrely', hout'⟩

end Pools
end Semantics
end TBDChat.Atomic
