import Mathlib.Logic.Function.Basic

/-!
# Mutexes that are passed by value

A mutex is kept with something it is to protect, `K`.  Where a function takes it as
an argument by value, the function has an object of its own: a copy of the bytes, which
is locked if the original was locked when the argument was evaluated, and which nobody
else can lock or unlock.  What is done to a copy does not show at the original.

`Mutexes` has all the objects there are.  A copy that was made of a locked object is
`stuck`: it is locked, and no thread is going to unlock it.
-/

namespace TBDChat

/-- A mutex object: the one that is kept with `k`, or a copy of one. -/
inductive Mutex (K : Type) where
  | shared (k : K)
  | copy (n : Nat)
  deriving DecidableEq

/-- What a mutex object is like. -/
inductive Status (ι : Type) where
  | free
  | held (i : ι)
  /-- Locked from the moment it was made. -/
  | stuck
  deriving DecidableEq

/-- What a copy of such an object is like. -/
def Status.copied {ι : Type} : Status ι → Status ι
  | .free => .free
  | .held _ => .stuck
  | .stuck => .stuck

theorem Status.copied_ne_held {ι : Type} (a : Status ι) (i : ι) : a.copied ≠ .held i := by
  cases a <;> simp [copied]

structure Mutexes (K ι : Type) where
  /-- How many copies have been made. -/
  copies : Nat
  /-- What the copied objects were kept with. -/
  source : Nat → K
  status : Mutex K → Status ι

namespace Mutexes
variable {K ι : Type} (x : Mutexes K ι)

/-- What the object was meant to protect. -/
def of : Mutex K → K
  | .shared k => k
  | .copy n => x.source n

/-- The object exists. -/
def Made : Mutex K → Prop
  | .shared _ => True
  | .copy n => n < x.copies

/-- An object that nobody has made is not locked. -/
def Tidy : Prop := ∀ m, x.status m ≠ .free → x.Made m

/-- Thread `i` has locked an object, and not unlocked it, that was meant to protect `k`. -/
def Inside (i : ι) (k : K) : Prop := ∃ m, x.Made m ∧ x.of m = k ∧ x.status m = .held i

/-- The mutex is passed by value. -/
def pass [DecidableEq K] (m : Mutex K) : Mutexes K ι where
  copies := x.copies + 1
  source := Function.update x.source x.copies (x.of m)
  status := Function.update x.status (.copy x.copies) (x.status m).copied

/-- `pthread_mutex_lock` by `i`, once the object is free. -/
def lock [DecidableEq K] (i : ι) (m : Mutex K) : Mutexes K ι :=
  { x with status := Function.update x.status m (.held i) }

/-- `pthread_mutex_unlock`. -/
def unlock [DecidableEq K] (m : Mutex K) : Mutexes K ι :=
  { x with status := Function.update x.status m .free }

/-- What can become of the objects without the doing of `i`. -/
structure Spares (i : ι) (x x' : Mutexes K ι) : Prop where
  copies : x.copies ≤ x'.copies
  source : ∀ n < x.copies, x'.source n = x.source n
  held : ∀ m, x'.status m = .held i ↔ x.status m = .held i

variable {x} {x' x'' : Mutexes K ι} {i j : ι} {m m' : Mutex K} {k : K}

theorem Spares.refl (i : ι) (x : Mutexes K ι) : Spares i x x :=
  ⟨Nat.le_refl _, fun _ _ => rfl, fun _ => Iff.rfl⟩

theorem Spares.trans (h : Spares i x x') (h' : Spares i x' x'') : Spares i x x'' where
  copies := Nat.le_trans h.copies h'.copies
  source n hn := (h'.source n (Nat.lt_of_lt_of_le hn h.copies)).trans (h.source n hn)
  held m := (h'.held m).trans (h.held m)

theorem Spares.made (h : Spares i x x') (hm : x.Made m) : x'.Made m := by
  cases m with
  | shared k => exact trivial
  | copy n => exact Nat.lt_of_lt_of_le hm h.copies

theorem Spares.of_eq (h : Spares i x x') (hm : x.Made m) : x'.of m = x.of m := by
  cases m with
  | shared k => rfl
  | copy n => exact h.source n hm

/-- Others do not bring `i` in or out. -/
theorem Spares.inside (h : Spares i x x') (hx : x.Tidy) : x'.Inside i k ↔ x.Inside i k := by
  constructor
  · rintro ⟨m, -, hof, hheld⟩
    have hheld' := (h.held m).mp hheld
    have hm : x.Made m := hx m (by rw [hheld']; simp)
    exact ⟨m, hm, by rw [← h.of_eq hm, hof], hheld'⟩
  · rintro ⟨m, hm, hof, hheld⟩
    exact ⟨m, h.made hm, by rw [h.of_eq hm, hof], (h.held m).mpr hheld⟩

section Operations
variable [DecidableEq K]

theorem made_pass : (x.pass m).Made (.copy x.copies) := Nat.lt_succ_self _

theorem of_pass : (x.pass m).of (.copy x.copies) = x.of m := Function.update_self ..

theorem status_pass_copy : (x.pass m).status (.copy x.copies) = (x.status m).copied :=
  Function.update_self ..

theorem status_pass_ne (h : m' ≠ .copy x.copies) : (x.pass m).status m' = x.status m' :=
  Function.update_of_ne h _ _

/-- The status of what was there before does not change. -/
theorem status_pass (hm : x.Made m') : (x.pass m).status m' = x.status m' := by
  refine status_pass_ne ?_
  rintro rfl
  exact Nat.lt_irrefl _ hm

/-- Nobody holds the copy. -/
theorem held_pass (h : (x.pass m).status m' = .held i) : x.status m' = .held i := by
  by_cases hm : m' = .copy x.copies
  · subst hm
    rw [status_pass_copy] at h
    exact absurd h (Status.copied_ne_held _ i)
  · rwa [status_pass_ne hm] at h

theorem tidy_pass (hx : x.Tidy) : (x.pass m).Tidy := by
  intro m' hm'
  by_cases hm : m' = .copy x.copies
  · subst hm
    exact made_pass
  · have hold := hx m' (by rwa [status_pass_ne hm] at hm')
    cases m' with
    | shared k => exact trivial
    | copy n => exact Nat.lt_succ_of_lt hold

theorem spares_pass (hx : x.Tidy) : Spares i x (x.pass m) where
  copies := Nat.le_succ _
  source n hn := Function.update_of_ne (Nat.ne_of_lt hn) _ _
  held m' := by
    refine ⟨held_pass, fun hm' => ?_⟩
    rw [status_pass (hx m' (by rw [hm']; simp)), hm']

@[simp] theorem status_lock : (x.lock i m).status m = .held i := Function.update_self ..

theorem status_lock_ne (h : m' ≠ m) : (x.lock i m).status m' = x.status m' :=
  Function.update_of_ne h _ _

@[simp] theorem of_lock : (x.lock i m).of m' = x.of m' := by
  cases m' <;> rfl

@[simp] theorem made_lock : (x.lock i m).Made m' ↔ x.Made m' := by
  cases m' <;> exact Iff.rfl

theorem tidy_lock (hx : x.Tidy) (hm : x.Made m) : (x.lock i m).Tidy := by
  intro m' hm'
  by_cases h : m' = m
  · exact made_lock.mpr (h ▸ hm)
  · exact made_lock.mpr (hx m' (by rwa [status_lock_ne h] at hm'))

theorem spares_lock (hm : x.status m = .free) (hj : j ≠ i) : Spares j x (x.lock i m) where
  copies := Nat.le_refl _
  source _ _ := rfl
  held m' := by
    by_cases h : m' = m
    · subst h
      rw [status_lock, hm]
      simp [hj.symm]
    · rw [status_lock_ne h]

/-- A lock brings in the thread that takes it. -/
theorem inside_lock (h : (x.lock i m).Inside j k) : x.Inside j k ∨ j = i ∧ x.of m = k := by
  obtain ⟨m', hm', hof, hheld⟩ := h
  rw [made_lock] at hm'
  rw [of_lock] at hof
  by_cases hne : m' = m
  · subst hne
    rw [status_lock] at hheld
    cases hheld
    exact .inr ⟨rfl, hof⟩
  · rw [status_lock_ne hne] at hheld
    exact .inl ⟨m', hm', hof, hheld⟩

@[simp] theorem status_unlock : (x.unlock m).status m = .free := Function.update_self ..

theorem status_unlock_ne (h : m' ≠ m) : (x.unlock m).status m' = x.status m' :=
  Function.update_of_ne h _ _

@[simp] theorem of_unlock : (x.unlock m).of m' = x.of m' := by
  cases m' <;> rfl

@[simp] theorem made_unlock : (x.unlock m).Made m' ↔ x.Made m' := by
  cases m' <;> exact Iff.rfl

/-- What is held after an unlock was held before it. -/
theorem held_unlock (h : (x.unlock m).status m' = .held i) : m' ≠ m ∧ x.status m' = .held i := by
  have hne : m' ≠ m := by
    rintro rfl
    rw [status_unlock] at h
    cases h
  exact ⟨hne, by rwa [status_unlock_ne hne] at h⟩

theorem tidy_unlock (hx : x.Tidy) : (x.unlock m).Tidy := by
  intro m' hm'
  have hne : m' ≠ m := by
    rintro rfl
    exact hm' status_unlock
  have hold := hx m' (by rwa [status_unlock_ne hne] at hm')
  cases m' with
  | shared k => exact trivial
  | copy n => exact hold

theorem spares_unlock (hm : x.status m ≠ .held j) : Spares j x (x.unlock m) where
  copies := Nat.le_refl _
  source _ _ := rfl
  held m' := by
    by_cases h : m' = m
    · subst h
      simp [hm]
    · rw [status_unlock_ne h]

/-- An unlock brings nobody in. -/
theorem inside_unlock (h : (x.unlock m).Inside i k) : x.Inside i k := by
  obtain ⟨m', hm', hof, hheld⟩ := h
  rw [of_unlock] at hof
  exact ⟨m', made_unlock.mp hm', hof, (held_unlock hheld).2⟩

end Operations
end Mutexes
end TBDChat
