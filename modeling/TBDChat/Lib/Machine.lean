import Mathlib.Data.List.Basic
import Mathlib.Tactic.Choose

/-!
# Machines and the services they refine

A machine takes steps under labels, each with an output, and any number of steps may be
possible from one state.  A service is a function: it says of a state and a request what comes
next and what is to be seen of it.

A machine refines a service if each of its steps, its state and its label seen through an
abstraction, is what the service says.  What holds of one step then holds of whole runs
(`Refines.run`).  A step that may stand for one thing or for another `Amounts` to a sequence of
requests.
-/

namespace TBDChat.Machines

variable {S L O A C B : Type}

/-- What a machine can do from a state under a label: the next state, and the output. -/
structure Machine (S L O : Type) where
  step : S → L → S → O → Prop

/-- What a service makes of a request. -/
structure Service (A C B : Type) where
  next : A → C → A × B

namespace Service
variable (V : Service A C B)

/-- The state after some requests. -/
def after (a : A) (cs : List C) : A := cs.foldl (fun a c => (V.next a c).1) a

@[simp] theorem after_nil (a : A) : V.after a [] = a := rfl

theorem after_concat (a : A) (cs : List C) (c : C) :
    V.after a (cs ++ [c]) = (V.next (V.after a cs) c).1 := by
  simp [after]

end Service

/-- The machine does what the service says, in the states with `inv` and where a step is
`allowed`.  What it puts out `shows` what the service does. -/
structure Refines (M : Machine S L O) (V : Service A C B) where
  abs : S → A
  request : L → C
  inv : S → Prop
  allowed : S → L → Prop
  shows : S → L → S → O → B → Prop
  keeps : ∀ {s l s' o}, inv s → allowed s l → M.step s l s' o → inv s'
  step : ∀ {s l s' o}, inv s → allowed s l → M.step s l s' o →
    (V.next (abs s) (request l)).1 = abs s' ∧
      shows s l s' o (V.next (abs s) (request l)).2

namespace Refines
variable {M : Machine S L O} {V : Service A C B} (R : Refines M V)

/-- The requests before the step `t`. -/
def requests (label : Nat → L) (t : Nat) : List C := (List.range t).map fun i => R.request (label i)

theorem requests_succ (label : Nat → L) (t : Nat) :
    R.requests label (t + 1) = R.requests label t ++ [R.request (label t)] := by
  simp [requests, List.range_succ]

variable {R} {state : Nat → S} {label : Nat → L} {out : Nat → O} {n : Nat}

/-- **A run of the machine is a run of the service.**  At every time the state is, seen
through the abstraction, the one in which the requests so far leave the service, and what is
put out next shows what the service does next. -/
theorem run (hrun : ∀ t < n, M.step (state t) (label t) (state (t + 1)) (out t))
    (hallowed : ∀ t < n, R.allowed (state t) (label t)) (hstart : R.inv (state 0)) :
    (∀ t ≤ n, R.inv (state t) ∧
      R.abs (state t) = V.after (R.abs (state 0)) (R.requests label t)) ∧
    ∀ t < n, R.shows (state t) (label t) (state (t + 1)) (out t)
      (V.next (V.after (R.abs (state 0)) (R.requests label t)) (R.request (label t))).2 := by
  have hstates : ∀ t ≤ n, R.inv (state t) ∧
      R.abs (state t) = V.after (R.abs (state 0)) (R.requests label t) := by
    intro t ht
    induction t with
    | zero => exact ⟨hstart, rfl⟩
    | succ t ih =>
      obtain ⟨hinv, habs⟩ := ih (by omega)
      have hstep := hrun t ht
      refine ⟨R.keeps hinv (hallowed t ht) hstep, ?_⟩
      rw [← (R.step hinv (hallowed t ht) hstep).1, habs, requests_succ, V.after_concat]
  refine ⟨hstates, fun t ht => ?_⟩
  obtain ⟨hinv, habs⟩ := hstates t (Nat.le_of_lt ht)
  rw [← habs]
  exact (R.step hinv (hallowed t ht) (hrun t ht)).2

end Refines

/-! ## Labels that stand for several requests -/

/-- The state after the requests of one sequence and then of another. -/
theorem Service.after_append (V : Service A C B) (a : A) (cs ds : List C) :
    V.after a (cs ++ ds) = V.after (V.after a cs) ds := List.foldl_append

/-- The machine does what the service does for some sequence of requests that its label may
stand for. -/
structure Amounts (M : Machine S L O) (V : Service A C B) where
  abs : S → A
  asks : L → List C → Prop
  inv : S → Prop
  allowed : S → L → Prop
  keeps : ∀ {s l s' o}, inv s → allowed s l → M.step s l s' o → inv s'
  step : ∀ {s l s' o}, inv s → allowed s l → M.step s l s' o →
    ∃ cs, asks l cs ∧ V.after (abs s) cs = abs s'

/-- **A run of the machine comes to a run of the service**, with requests that its labels may
stand for. -/
theorem Amounts.run {M : Machine S L O} {V : Service A C B} (R : Amounts M V) {state : Nat → S}
    {label : Nat → L} {n : Nat}
    (hrun : ∀ t < n, ∃ o, M.step (state t) (label t) (state (t + 1)) o)
    (hallowed : ∀ t < n, R.allowed (state t) (label t)) (hstart : R.inv (state 0)) :
    ∃ asked : Nat → List C, (∀ t < n, R.asks (label t) (asked t)) ∧
      ∀ t ≤ n, R.abs (state t) =
        V.after (R.abs (state 0)) ((List.range t).flatMap asked) := by
  have hinv : ∀ t ≤ n, R.inv (state t) := by
    intro t ht
    induction t with
    | zero => exact hstart
    | succ t ih =>
      obtain ⟨o, hstep⟩ := hrun t ht
      exact R.keeps (ih (by omega)) (hallowed t ht) hstep
  have hstep (t : Nat) : ∃ cs, t < n →
      R.asks (label t) cs ∧ V.after (R.abs (state t)) cs = R.abs (state (t + 1)) := by
    by_cases ht : t < n
    · obtain ⟨o, hstep⟩ := hrun t ht
      obtain ⟨cs, hcs⟩ := R.step (hinv t (Nat.le_of_lt ht)) (hallowed t ht) hstep
      exact ⟨cs, fun _ => hcs⟩
    · exact ⟨[], fun h => absurd h ht⟩
  choose asked hasked using hstep
  refine ⟨asked, fun t ht => (hasked t ht).1, fun t ht => ?_⟩
  induction t with
  | zero => rfl
  | succ t ih =>
    rw [List.range_succ, List.flatMap_append, List.flatMap_singleton, Service.after_append,
      ← ih (by omega), (hasked t ht).2]

/-! ## What is seen over a time -/

section During
variable {α β : Type} {f g : Nat → List α} {t₀ t₁ : Nat}

/-- What there is to see from the time `t₀` until `t₁`, if it is `f t` at the time `t`. -/
def during (f : Nat → List α) (t₀ t₁ : Nat) : List α := (List.range' t₀ (t₁ - t₀)).flatMap f

/-- Nothing is seen in no time. -/
@[simp] theorem during_self : during f t₀ t₀ = [] := by simp [during]

theorem during_congr (h : ∀ t, t₀ ≤ t → t < t₁ → f t = g t) : during f t₀ t₁ = during g t₀ t₁ := by
  unfold during
  refine List.flatMap_congr fun t ht => ?_
  obtain ⟨hle, hlt⟩ := List.mem_range'_1.mp ht
  exact h t hle (by omega)

theorem during_map (k : α → β) : during (fun t => (f t).map k) t₀ t₁ = (during f t₀ t₁).map k :=
  List.map_flatMap.symm

theorem during_filter (p : α → Bool) :
    during (fun t => (f t).filter p) t₀ t₁ = (during f t₀ t₁).filter p := by
  unfold during
  rw [List.filter_flatMap]

/-- What is seen of one time more. -/
theorem during_succ (h : t₀ ≤ t₁) : during f t₀ (t₁ + 1) = during f t₀ t₁ ++ f t₁ := by
  have hlen : t₁ + 1 - t₀ = (t₁ - t₀) + 1 := by omega
  have hlast : t₀ + (t₁ - t₀) = t₁ := by omega
  rw [during, hlen, List.range'_concat, List.flatMap_append, Nat.one_mul, hlast]
  simp [during]

theorem during_append {t₂ : Nat} (h : t₀ ≤ t₁) (h' : t₁ ≤ t₂) :
    during f t₀ t₁ ++ during f t₁ t₂ = during f t₀ t₂ := by
  have hlen : t₂ - t₀ = (t₁ - t₀) + (t₂ - t₁) := by omega
  have hmid : t₀ + (t₁ - t₀) = t₁ := by omega
  rw [during, during, during, hlen, ← List.flatMap_append, ← List.range'_append_1, hmid]

end During

/-- What holds now and did not at some time came up at a last time and has held since. -/
theorem exists_last_change {P : Nat → Prop} {k t : Nat} (hk : k ≤ t) (hnot : ¬ P k) (h : P t) :
    ∃ i < t, ¬ P i ∧ ∀ j, i < j → j ≤ t → P j := by
  induction t with
  | zero => exact absurd h (Nat.le_zero.mp hk ▸ hnot)
  | succ t ih =>
    by_cases ht : P t
    · have hkt : k ≤ t := Nat.le_of_lt_succ (Nat.lt_of_le_of_ne hk fun he => hnot (he ▸ h))
      obtain ⟨i, hi, hnot, hsince⟩ := ih hkt ht
      refine ⟨i, by omega, hnot, fun j hij hj => ?_⟩
      rcases Nat.lt_or_eq_of_le hj with hlt | rfl
      · exact hsince j hij (by omega)
      · exact h
    · refine ⟨t, by omega, ht, fun j hij hj => ?_⟩
      obtain rfl : j = t + 1 := by omega
      exact h

end TBDChat.Machines
