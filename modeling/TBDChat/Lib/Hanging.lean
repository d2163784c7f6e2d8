import TBDChat.Lib.Contract
import TBDChat.Lib.Guarded

/-!
# Threads that wait in vain

A thread that waits for a mutex waits in vain where the object has been copied while it was
locked, or where who holds it is not going to unlock it.  With programs that unlock what they
lock, neither happens as long as no mutex is copied while it is locked and none is unlocked
out of turn (`orderly`).

The threads do what they would do without the mutexes, if they come to do it
(`Erased.turns`).
-/

namespace TBDChat.Atomic

section Pools
variable {K ι Op S E F α : Type} {Ar : Op → Type}

/-- Threads that share a state and mutexes. -/
abbrev GuardedPool (K ι Op : Type) (Ar : Op → Type) (S α : Type) : Type :=
  Pool ι (Guarded K ι Op) (Guarded.Answer Ar) (WithMutexes S K ι) α

namespace GuardedPool
open GuardedProg

/-- Who waits for a mutex waits for another thread, which is going to unlock it. -/
def NoneHangs (w : GuardedPool K ι Op Ar S α) : Prop :=
  ∀ i j m k, w.thread i = .act (.lock j m) k → w.state.mutexes.status m ≠ .free →
    ∃ j, j ≠ i ∧ w.state.mutexes.status m = .held j ∧
      Releases m w.state.mutexes.copies (w.thread j)

/-- Who unlocks a mutex holds it, in the steps that meet `C`. -/
def UnlocksOwn (C : Guarded K ι Op → WithMutexes S K ι → Prop)
    (w : GuardedPool K ι Op Ar S α) : Prop :=
  ∀ i o k m, w.thread i = .act o k → C o w.state → o.Unlocks m →
    w.state.mutexes.status m = .held i

/-- The mutex that a thread is about to lock. -/
def waiting? (w : GuardedPool K ι Op Ar S α) (i : ι) : Option (Mutex K) :=
  match w.thread i with
  | .act (.lock _ m) _ => some m
  | _ => none

theorem waiting?_eq_some {w : GuardedPool K ι Op Ar S α} {i : ι} {m : Mutex K} :
    w.waiting? i = some m ↔ ∃ j k, w.thread i = .act (.lock j m) k := by
  constructor
  · intro h
    unfold waiting? at h
    split at h
    · rename_i j m' k hi
      cases h
      exact ⟨j, k, hi⟩
    · cases h
  · rintro ⟨j, k, hi⟩
    unfold waiting?
    rw [hi]

/-- Who waits for it while it is locked waits for who holds it. -/
theorem NoneHangs.waits {w : GuardedPool K ι Op Ar S α} (hw : w.NoneHangs) {i : ι} {m : Mutex K}
    (hi : w.waiting? i = some m) (hm : w.state.mutexes.status m ≠ .free) :
    ∃ j, j ≠ i ∧ w.state.mutexes.status m = .held j ∧
      Releases m w.state.mutexes.copies (w.thread j) := by
  obtain ⟨j, k, hthread⟩ := waiting?_eq_some.mp hi
  exact hw i j m k hthread hm

/-- What each thread holds, and that it is going to unlock it. -/
structure Sound (w : GuardedPool K ι Op Ar S α) (held : ι → List (Mutex K)) : Prop where
  proper : ∀ i, Proper i [] w.state.mutexes.copies (held i) (w.thread i)
  holds : ∀ i m, m ∈ held i ↔ w.state.mutexes.status m = .held i
  nodup : ∀ i, (held i).Nodup
  tidy : w.state.mutexes.Tidy
  not_stuck : ∀ m, w.state.mutexes.status m ≠ .stuck

variable {w w' : GuardedPool K ι Op Ar S α} {held : ι → List (Mutex K)}

theorem Sound.noneHangs (hw : w.Sound held) : w.NoneHangs := by
  intro i j m k hi hlocked
  have hproper := hw.proper i
  rw [hi] at hproper
  obtain ⟨-, hm, -, -⟩ := hproper
  cases hstatus : w.state.mutexes.status m with
  | free => exact absurd hstatus hlocked
  | stuck => exact absurd hstatus (hw.not_stuck m)
  | held j =>
    refine ⟨j, ?_, rfl, (hw.proper j).releases ((hw.holds j m).mpr hstatus)⟩
    rintro rfl
    exact hm ((hw.holds j m).mpr hstatus)

theorem Sound.unlocksOwn (hw : w.Sound held) : w.UnlocksOwn Guarded.InTurn := by
  intro i o k m hi hC hm
  have hproper := hw.proper i
  rw [hi] at hproper
  cases o with
  | unlock m' =>
    obtain rfl : m' = m := hm
    obtain ⟨H, hH, -⟩ := hproper
    exact (hw.holds i m').mp (hH ▸ List.mem_cons_self)
  | release m' => exact absurd rfl (hC.2 m')
  | pass m' => exact absurd hm not_false
  | lock j m' => exact absurd hm not_false
  | peek o => exact absurd hm not_false
  | op o => exact absurd hm not_false

/-- A step of `i` after which it holds `H`, and the others what they held before. -/
theorem Sound.step [DecidableEq ι] (hw : w.Sound held) {i : ι} {H : List (Mutex K)}
    {s : WithMutexes S K ι} {p : GuardedProg K ι Op Ar α}
    (hspares : ∀ j, j ≠ i → w.state.mutexes.Spares j s.mutexes) (htidy : s.mutexes.Tidy)
    (hstuck : ∀ m, s.mutexes.status m ≠ .stuck)
    (hcopies : w.state.mutexes.copies ≤ s.mutexes.copies)
    (hholds : ∀ m, m ∈ H ↔ s.mutexes.status m = .held i) (hnodup : H.Nodup)
    (hp : Proper i [] s.mutexes.copies H p) :
    Sound ⟨s, Function.update w.thread i p⟩ (Function.update held i H) where
  proper j := by
    by_cases hj : j = i
    · subst hj
      simpa using hp
    · simpa [hj] using (hw.proper j).later hcopies
  holds j m := by
    by_cases hj : j = i
    · subst hj
      simpa using hholds m
    · simpa [hj] using (hw.holds j m).trans ((hspares j hj).held m).symm
  nodup j := by
    by_cases hj : j = i
    · subst hj
      simpa using hnodup
    · simpa [hj] using hw.nodup j
  tidy := htidy
  not_stuck := hstuck

/-- A step that is not one on a mutex. -/
theorem Sound.other [DecidableEq ι] (hw : w.Sound held) {i : ι} {s : WithMutexes S K ι}
    {p : GuardedProg K ι Op Ar α} (hsame : s.mutexes = w.state.mutexes)
    (hp : Proper i [] w.state.mutexes.copies (held i) p) :
    Sound ⟨s, Function.update w.thread i p⟩ (Function.update held i (held i)) := by
  refine hw.step (fun j _ => ?_) ?_ ?_ ?_ (fun m => ?_) (hw.nodup i) ?_
  · rw [hsame]
    exact .refl j _
  · rw [hsame]
    exact hw.tidy
  · rw [hsame]
    exact hw.not_stuck
  · exact Nat.le_of_eq (congrArg Mutexes.copies hsame.symm)
  · rw [hsame]
    exact hw.holds i m
  · rw [hsame]
    exact hp

/-- Nobody has begun, and no mutex is locked. -/
def Idle (w : GuardedPool K ι Op Ar S α) : Prop :=
  (∀ i, ∃ a, w.thread i = .ret a) ∧ ∀ m, w.state.mutexes.status m = .free

theorem Idle.sound (hw : w.Idle) : w.Sound fun _ => [] where
  proper i := by
    obtain ⟨a, ha⟩ := hw.1 i
    rw [ha]
    rfl
  holds i m := by simp [hw.2 m]
  nodup _ := List.nodup_nil
  tidy m hm := absurd (hw.2 m) hm
  not_stuck m := by simp [hw.2 m]

section Steps
variable [DecidableEq K] [DecidableEq ι] {i : ι} {m : Mutex K}

theorem Sound.pass {k : Nat → GuardedProg K ι Op Ar α} (hw : w.Sound held)
    (hi : w.thread i = .act (.pass m) k) (hfree : w.state.mutexes.status m = .free) :
    Sound ⟨{ w.state with mutexes := w.state.mutexes.pass m },
      Function.update w.thread i (k w.state.mutexes.copies)⟩ (Function.update held i (held i)) := by
  have hproper := hw.proper i
  rw [hi] at hproper
  refine hw.step (fun j _ => Mutexes.spares_pass hw.tidy) (Mutexes.tidy_pass hw.tidy)
    (fun m' => ?_) (Nat.le_succ _)
    (fun m' => (hw.holds i m').trans ((Mutexes.spares_pass hw.tidy).held m').symm)
    (hw.nodup i) (hproper _ (Nat.le_refl _))
  by_cases hm' : m' = .copy w.state.mutexes.copies
  · rw [hm', Mutexes.status_pass_copy, hfree]
    simp [Status.copied]
  · rw [Mutexes.status_pass_ne hm']
    exact hw.not_stuck m'

theorem Sound.lock {k : Unit → GuardedProg K ι Op Ar α} (hw : w.Sound held)
    (hi : w.thread i = .act (.lock i m) k) (hfree : w.state.mutexes.status m = .free) :
    Sound ⟨{ w.state with mutexes := w.state.mutexes.lock i m },
      Function.update w.thread i (k ())⟩ (Function.update held i (m :: held i)) := by
  have hproper := hw.proper i
  rw [hi] at hproper
  obtain ⟨-, hm, hmade, hrest⟩ := hproper
  have hmade' : w.state.mutexes.Made m := by
    cases m with
    | shared k => exact trivial
    | copy n => exact hmade n rfl
  refine hw.step (fun j hj => Mutexes.spares_lock hfree hj) (Mutexes.tidy_lock hw.tidy hmade')
    (fun m' => ?_) (Nat.le_refl _) (fun m' => ?_) (List.nodup_cons.mpr ⟨hm, hw.nodup i⟩) hrest
  · by_cases hne : m' = m
    · rw [hne, Mutexes.status_lock]
      simp
    · rw [Mutexes.status_lock_ne hne]
      exact hw.not_stuck m'
  · by_cases hne : m' = m
    · simp [hne]
    · rw [Mutexes.status_lock_ne hne, List.mem_cons, or_iff_right hne]
      exact hw.holds i m'

theorem Sound.unlock {k : Unit → GuardedProg K ι Op Ar α} (hw : w.Sound held)
    (hi : w.thread i = .act (.unlock m) k) : ∃ H,
    Sound ⟨{ w.state with mutexes := w.state.mutexes.unlock m },
      Function.update w.thread i (k ())⟩ (Function.update held i H) := by
  have hproper := hw.proper i
  rw [hi] at hproper
  obtain ⟨H, hH, hrest⟩ := hproper
  have hheld : w.state.mutexes.status m = .held i := (hw.holds i m).mp (hH ▸ List.mem_cons_self)
  have hnodup := hw.nodup i
  rw [hH] at hnodup
  obtain ⟨hnew, hnodup⟩ := List.nodup_cons.mp hnodup
  refine ⟨H, hw.step (fun j hj => Mutexes.spares_unlock fun hj' => ?_)
    (Mutexes.tidy_unlock hw.tidy) (fun m' => ?_) (Nat.le_refl _) (fun m' => ?_) hnodup hrest⟩
  · rw [hheld] at hj'
    cases hj'
    exact hj rfl
  · by_cases hne : m' = m
    · rw [hne, Mutexes.status_unlock]
      simp
    · rw [Mutexes.status_unlock_ne hne]
      exact hw.not_stuck m'
  · by_cases hne : m' = m
    · rw [hne, Mutexes.status_unlock]
      simp [hnew]
    · rw [Mutexes.status_unlock_ne hne, ← hw.holds i m', hH, List.mem_cons, or_iff_right hne]

/-- An unlock of what is not locked. -/
theorem Sound.release {k : Unit → GuardedProg K ι Op Ar α} (hw : w.Sound held)
    (hi : w.thread i = .act (.release m) k) (hfree : w.state.mutexes.status m = .free) :
    Sound ⟨{ w.state with mutexes := w.state.mutexes.unlock m },
      Function.update w.thread i (k ())⟩ (Function.update held i (held i)) := by
  have hproper := hw.proper i
  rw [hi] at hproper
  have hspares (j : ι) : w.state.mutexes.Spares j (w.state.mutexes.unlock m) :=
    Mutexes.spares_unlock (by rw [hfree]; simp)
  refine hw.step (fun j _ => hspares j) (Mutexes.tidy_unlock hw.tidy) (fun m' => ?_)
    (Nat.le_refl _) (fun m' => (hw.holds i m').trans ((hspares i).held m').symm) (hw.nodup i)
    hproper
  by_cases hne : m' = m
  · rw [hne, Mutexes.status_unlock]
    simp
  · rw [Mutexes.status_unlock_ne hne]
    exact hw.not_stuck m'

end Steps

section Turns
variable [DecidableEq K] [DecidableEq ι] {M : Semantics Op Ar S E F}
  {Starts : ι → α → GuardedProg K ι Op Ar α → Prop}

theorem Sound.turn (hstart : ∀ i a p, Starts i a p → Nested i [] p) (hw : w.Sound held)
    (h : M.guarded.TurnWhen Guarded.Undisturbed Starts w w') : ∃ held', w'.Sound held' := by
  cases h with
  | act h =>
    cases h with
    | @act i o k b s es hi hC he =>
      have hproper := hw.proper i
      rw [hi] at hproper
      cases o with
      | pass m =>
        cases he
        exact ⟨_, hw.pass hi hC⟩
      | lock j m =>
        obtain rfl : j = i := hproper.1
        obtain ⟨hfree, rfl⟩ := Semantics.guarded_lock he
        exact ⟨_, hw.lock hi hfree⟩
      | unlock m =>
        cases he
        obtain ⟨H, hsound⟩ := hw.unlock hi
        exact ⟨_, hsound⟩
      | release m =>
        cases he
        exact ⟨_, hw.release hi hC⟩
      | peek o =>
        have hexec : M.guarded.exec (.peek o) w.state = .ok (b, s, es) := he
        simp only [Semantics.guarded, Guarded.exec] at hexec
        split at hexec
        · cases hexec
        · cases hexec
          exact ⟨_, hw.other rfl (hproper _)⟩
      | op o =>
        have hexec : M.guarded.exec (.op o) w.state = .ok (b, s, es) := he
        simp only [Semantics.guarded, Guarded.exec] at hexec
        split at hexec
        · cases hexec
        · cases hexec
          exact ⟨_, hw.other rfl (hproper _)⟩
  | @start i a p hi hp =>
    have hnone := hw.proper i
    rw [hi] at hnone
    have hnone' : held i = [] := hnone
    refine ⟨_, hw.other rfl ?_⟩
    rw [hnone']
    exact hstart i a p hp _ [] (by simp) (by simp)

/-- **Nobody waits in vain**, however the threads take turns, as long as no mutex is copied
while it is locked and none that is locked is unlocked out of turn. -/
theorem orderly {w₀ : GuardedPool K ι Op Ar S α} (hw₀ : w₀.Idle)
    (hstart : ∀ i a p, Starts i a p → Nested i [] p)
    (hw : M.guarded.TurnsWhen Guarded.Undisturbed Starts w₀ w) :
    w.NoneHangs ∧ w.UnlocksOwn Guarded.InTurn := by
  have hsound : ∃ held, w.Sound held := by
    induction hw with
    | refl => exact ⟨_, hw₀.sound⟩
    | tail _ hturn ih =>
      obtain ⟨held, hsound⟩ := ih
      exact hsound.turn hstart hturn
  obtain ⟨held, hsound⟩ := hsound
  exact ⟨hsound.noneHangs, hsound.unlocksOwn⟩

/-- Runs in which no mutex at all is unlocked out of turn are among them. -/
theorem undisturbed {w₀ : GuardedPool K ι Op Ar S α}
    (hw : M.guarded.TurnsWhen Guarded.InTurn Starts w₀ w) :
    M.guarded.TurnsWhen Guarded.Undisturbed Starts w₀ w := by
  refine Relation.ReflTransGen.mono (fun w₁ w₂ h => ?_) _ _ hw
  cases h with
  | act h =>
    cases h with
    | act hi hC he => exact .act (.act hi hC.1 he)
  | start hi hp => exact .start hi hp

end Turns

/-! ### Without the mutexes -/

/-- The threads are at what is left of the same programs. -/
structure Erased (w : GuardedPool K ι Op Ar S α) (v : Pool ι Op Ar S α) : Prop where
  state : v.state = w.state.state
  thread : ∀ i, Erases (w.thread i) (v.thread i)

section Simulation
variable [DecidableEq ι] {v : Pool ι Op Ar S α}

/-- A step that is none of the program without the mutexes. -/
theorem Erased.stutter (hwv : w.Erased v) {i : ι} {s : WithMutexes S K ι}
    {p : GuardedProg K ι Op Ar α} (hs : s.state = w.state.state) (hp : Erases p (v.thread i)) :
    Erased ⟨s, Function.update w.thread i p⟩ v where
  state := hwv.state.trans hs.symm
  thread j := by
    by_cases hj : j = i
    · subst hj
      simpa using hp
    · simpa [hj] using hwv.thread j

theorem Erased.update {s : WithMutexes S K ι} {s' : S} (hs : s' = s.state) {i : ι}
    {p : GuardedProg K ι Op Ar α} {q : Prog Op Ar α} (hwv : ∀ j, Erases (w.thread j) (v.thread j))
    (hp : Erases p q) :
    Erased ⟨s, Function.update w.thread i p⟩ ⟨s', Function.update v.thread i q⟩ where
  state := hs
  thread j := by
    by_cases hj : j = i
    · subst hj
      simpa using hp
    · simpa [hj] using hwv j

variable [DecidableEq K] {M : Semantics Op Ar S E F}
  {Starts : ι → α → GuardedProg K ι Op Ar α → Prop} {Starts' : ι → α → Prog Op Ar α → Prop}

theorem Erased.turn (hstart : ∀ i a p, Starts i a p → ∃ q, Starts' i a q ∧ Erases p q)
    (hwv : w.Erased v) (h : M.guarded.Turn Starts w w') :
    ∃ v', M.Turns Starts' v v' ∧ w'.Erased v' := by
  cases h with
  | @act i o k b s es hi he =>
    have herases := hwv.thread i
    rw [hi] at herases
    cases o with
    | pass m =>
      cases he
      exact ⟨v, .refl, hwv.stutter rfl (herases _)⟩
    | lock j m =>
      obtain ⟨-, rfl⟩ := Semantics.guarded_lock he
      exact ⟨v, .refl, hwv.stutter rfl herases⟩
    | unlock m =>
      cases he
      exact ⟨v, .refl, hwv.stutter rfl herases⟩
    | release m =>
      cases he
      exact ⟨v, .refl, hwv.stutter rfl herases⟩
    | peek o =>
      have hexec : M.guarded.exec (.peek o) w.state = .ok (b, s, es) := he
      simp only [Semantics.guarded, Guarded.exec] at hexec
      split at hexec
      · cases hexec
      · cases hexec
        exact ⟨v, .refl, hwv.stutter rfl (herases _)⟩
    | op o =>
      obtain ⟨k', hk', hrest⟩ := herases
      have hexec : M.guarded.exec (.op o) w.state = .ok (b, s, es) := he
      simp only [Semantics.guarded, Guarded.exec] at hexec
      split at hexec
      · cases hexec
      · rename_i s' _ hstep
        cases hexec
        rw [← hwv.state] at hstep
        exact ⟨_, .single (.act hk' hstep), .update rfl hwv.thread (hrest _)⟩
  | @start i a p hi hp =>
    obtain ⟨q, hq, herases⟩ := hstart i a p hp
    have hreturned := hwv.thread i
    rw [hi] at hreturned
    exact ⟨_, .single (.start hreturned hq), .update hwv.state hwv.thread herases⟩

/-- **Every interleaving is one of the programs without the mutexes.** -/
theorem Erased.turns (hstart : ∀ i a p, Starts i a p → ∃ q, Starts' i a q ∧ Erases p q)
    (hwv : w.Erased v) (h : M.guarded.Turns Starts w w') :
    ∃ v', M.Turns Starts' v v' ∧ w'.Erased v' := by
  induction h with
  | refl => exact ⟨v, .refl, hwv⟩
  | tail _ hturn ih =>
    obtain ⟨v', hv', hwv'⟩ := ih
    obtain ⟨v'', hv'', hwv''⟩ := hwv'.turn hstart hturn
    exact ⟨v'', hv'.trans hv'', hwv''⟩

end Simulation
end GuardedPool
end Pools
end TBDChat.Atomic
