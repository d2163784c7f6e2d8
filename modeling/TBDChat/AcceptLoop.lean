import TBDChat.Lib.Atomic
import Mathlib.Data.List.Nodup
import Mathlib.Data.List.Count
import Mathlib.Data.List.Perm.Subperm
import Mathlib.Data.Option.Basic
import Mathlib.Algebra.Order.Group.Nat

/-!
# The accept loop

`main` has one variable `new_client`, which is in the same place in every round of its
loop.  A thread gets the address of the variable and reads it when it first runs, which may
be after `main` has accepted the next connection.
-/

namespace TBDChat.AcceptLoop

/-- `main` and the threads it has created. -/
structure State where
  new_client : Int
  /-- `main` has accepted a connection and not created its thread yet. -/
  creating : Bool
  accepted : List Int
  /-- The `client` of each thread, once it has read it. -/
  threads : List (Option Int)
  deriving DecidableEq

/-- What happens next. -/
inductive Move where
  /-- `accept` returns a descriptor. -/
  | accept (fd : Int)
  /-- `accept` fails. -/
  | accept_error
  | pthread_create
  /-- Thread `i` begins with `int client = *(int *) ptr;`. -/
  | client_receive (i : Nat)

/-- `accept` gives a descriptor that is not open, and -1 where it fails. -/
def step (s : State) : Move → Option State
  | .accept fd =>
    if s.creating = false ∧ 0 ≤ fd ∧ fd ∉ s.accepted then
      some { s with new_client := fd, creating := true, accepted := s.accepted ++ [fd] }
    else none
  | .accept_error =>
    if s.creating = false then some { s with new_client := -1 } else none
  | .pthread_create =>
    if s.creating = true then
      some { s with creating := false, threads := s.threads ++ [none] }
    else none
  | .client_receive i =>
    if s.threads[i]? = some none then
      some { s with threads := s.threads.set i (some s.new_client) }
    else none

/-- The moves one after the other. -/
def run : State → List Move → Option State
  | s, [] => some s
  | s, m :: ms => (step s m).bind fun s => run s ms

/-- At the head of the loop for the first time; the variable holds what it may. -/
def start (x : Int) : State := ⟨x, false, [], []⟩

/-- `accept` returns. -/
def Move.returns : Move → Bool
  | .accept _ | .accept_error => true
  | _ => false

/-- Whenever `accept` returns, all threads have read their descriptor. -/
def Paced : State → List Move → Prop
  | _, [] => True
  | s, m :: ms => (m.returns = true → none ∉ s.threads) ∧ ∀ s', step s m = some s' → Paced s' ms

namespace State

/-- The threads that have read a descriptor. -/
def readers (s : State) (fd : Int) : Nat := s.threads.count (some fd)

/-- No descriptor is read twice, and none but those accepted. -/
def Proper (s : State) : Prop := ∀ fd, s.readers fd ≤ if fd ∈ s.accepted then 1 else 0

/-- Each accepted descriptor is read by one thread, and no other is read. -/
def Served (s : State) : Prop := ∀ fd, s.readers fd = if fd ∈ s.accepted then 1 else 0

/-- All that was begun is done: each thread is created, and has read. -/
def Settled (s : State) : Prop := s.creating = false ∧ none ∉ s.threads

end State

section Steps
variable {s s' : State} {m : Move} {ms : List Move} {x fd : Int}

/-- What a move does. -/
inductive Moved (s : State) : Move → State → Prop
  | accept {fd : Int} (hmain : s.creating = false) (hfd : 0 ≤ fd) (hfresh : fd ∉ s.accepted) :
    Moved s (.accept fd)
      { s with new_client := fd, creating := true, accepted := s.accepted ++ [fd] }
  | accept_error (hmain : s.creating = false) : Moved s .accept_error { s with new_client := -1 }
  | pthread_create (hmain : s.creating = true) :
    Moved s .pthread_create { s with creating := false, threads := s.threads ++ [none] }
  | client_receive {i : Nat} (hi : s.threads[i]? = some none) :
    Moved s (.client_receive i) { s with threads := s.threads.set i (some s.new_client) }

theorem step_moved (h : step s m = some s') : Moved s m s' := by
  cases m with
  | accept fd =>
    rw [step, Option.ite_none_right_eq_some] at h
    obtain ⟨⟨hmain, hfd, hfresh⟩, hs⟩ := h
    rw [← Option.some.inj hs]
    exact .accept hmain hfd hfresh
  | accept_error =>
    rw [step, Option.ite_none_right_eq_some] at h
    obtain ⟨hmain, hs⟩ := h
    rw [← Option.some.inj hs]
    exact .accept_error hmain
  | pthread_create =>
    rw [step, Option.ite_none_right_eq_some] at h
    obtain ⟨hmain, hs⟩ := h
    rw [← Option.some.inj hs]
    exact .pthread_create hmain
  | client_receive i =>
    rw [step, Option.ite_none_right_eq_some] at h
    obtain ⟨hi, hs⟩ := h
    rw [← Option.some.inj hs]
    exact .client_receive hi

/-- A property that every move keeps, every run keeps. -/
theorem run_keeps {I : State → Prop} (hstep : ∀ {s m s'}, I s → Moved s m s' → I s')
    (hs : I s) (h : run s ms = some s') : I s' := by
  induction ms generalizing s with
  | nil => rwa [← Option.some.inj h]
  | cons m ms ih =>
    obtain ⟨s₁, hm, hms⟩ := Option.bind_eq_some_iff.mp h
    exact ih (hstep hs (step_moved hm)) hms

/-! ## What holds in every run -/

/-- A thread is created for each descriptor, and descriptors are accepted once. -/
structure Counted (s : State) : Prop where
  threads : s.threads.length + s.creating.toNat = s.accepted.length
  nodup : s.accepted.Nodup
  nonneg : ∀ fd ∈ s.accepted, 0 ≤ fd

theorem counted_start (x : Int) : Counted (start x) :=
  ⟨rfl, List.nodup_nil, fun _ h => nomatch h⟩

theorem Counted.moved (hs : Counted s) (h : Moved s m s') : Counted s' := by
  cases h with
  | accept hmain hfd hfresh =>
    refine ⟨?_, List.nodup_append_comm.mp (List.nodup_cons.mpr ⟨hfresh, hs.nodup⟩), ?_⟩
    · have hlen := hs.threads
      rw [hmain] at hlen
      simpa using hlen
    · intro a ha
      rcases List.mem_append.mp ha with ha | ha
      · exact hs.nonneg a ha
      · rwa [List.mem_singleton.mp ha]
  | accept_error hmain => exact ⟨hs.threads, hs.nodup, hs.nonneg⟩
  | pthread_create hmain =>
    refine ⟨?_, hs.nodup, hs.nonneg⟩
    have hlen := hs.threads
    rw [hmain] at hlen
    simpa using hlen
  | client_receive hi =>
    refine ⟨?_, hs.nodup, hs.nonneg⟩
    rw [List.length_set]
    exact hs.threads

/-! ## Where the threads keep up -/

/-- How far the connection accepted last has come, with the descriptors in the order in
which they were accepted. -/
inductive Handed (s : State) : Prop
  | read (hmain : s.creating = false) (hread : s.threads = s.accepted.map some)
  | accepted (done : List Int) (hmain : s.creating = true) (hread : s.threads = done.map some)
    (hlast : s.accepted = done ++ [s.new_client])
  | created (done : List Int) (hmain : s.creating = false)
    (hread : s.threads = done.map some ++ [none]) (hlast : s.accepted = done ++ [s.new_client])

theorem Handed.moved (hs : Handed s) (hpaced : m.returns = true → none ∉ s.threads)
    (h : Moved s m s') : Handed s' := by
  cases h with
  | accept hmain hfd hfresh =>
    cases hs with
    | read _ hread => exact .accepted s.accepted rfl hread rfl
    | accepted done hmain' _ _ => rw [hmain] at hmain'; cases hmain'
    | created done _ hread _ =>
      refine absurd ?_ (hpaced rfl)
      rw [hread]
      exact List.mem_append_right _ List.mem_cons_self
  | accept_error hmain =>
    cases hs with
    | read _ hread => exact .read hmain hread
    | accepted done hmain' _ _ => rw [hmain] at hmain'; cases hmain'
    | created done _ hread _ =>
      refine absurd ?_ (hpaced rfl)
      rw [hread]
      exact List.mem_append_right _ List.mem_cons_self
  | pthread_create hmain =>
    cases hs with
    | read hmain' _ => rw [hmain] at hmain'; cases hmain'
    | accepted done _ hread hlast => exact .created done rfl (by rw [hread]) hlast
    | created done hmain' _ _ => rw [hmain] at hmain'; cases hmain'
  | @client_receive i hi =>
    -- only the thread created last can be the one
    have hdone (done : List Int) : (done.map some)[i]? ≠ some none := by
      intro h
      obtain ⟨a, -, ha⟩ := List.mem_map.mp (List.mem_of_getElem? h)
      cases ha
    cases hs with
    | read _ hread => exact absurd (hread ▸ hi) (hdone _)
    | accepted done _ hread _ => exact absurd (hread ▸ hi) (hdone _)
    | created done hmain hread hlast =>
      have hlen : i = (done.map some).length := by
        rcases Nat.lt_trichotomy i (done.map some).length with hlt | heq | hgt
        · rw [hread, List.getElem?_append_left hlt] at hi
          exact absurd hi (hdone done)
        · exact heq
        · rw [hread, List.getElem?_eq_none (by simpa using Nat.succ_le_of_lt hgt)] at hi
          cases hi
      refine .read hmain ?_
      show s.threads.set i (some s.new_client) = s.accepted.map some
      rw [hread, hlast, hlen, List.set_append_right _ _ (Nat.le_refl _), Nat.sub_self,
        List.map_append]
      rfl

theorem handed_of_paced (hs : Handed s) (hpaced : Paced s ms) (h : run s ms = some s') :
    Handed s' := by
  induction ms generalizing s with
  | nil => rwa [← Option.some.inj h]
  | cons m ms ih =>
    obtain ⟨s₁, hm, hms⟩ := Option.bind_eq_some_iff.mp h
    exact ih (hs.moved hpaced.1 (step_moved hm)) (hpaced.2 s₁ hm) hms

/-- The threads that have read have read a front of what was accepted. -/
theorem Handed.front (hs : Handed s) : ∃ done rest, s.accepted = done ++ rest ∧
    (∀ fd, s.readers fd = done.count fd) ∧ (s.Settled → rest = []) := by
  have hcount (done : List Int) (fd : Int) : (done.map some).count (some fd) = done.count fd :=
    List.count_map_of_injective _ _ (Option.some_injective _) _
  cases hs with
  | read _ hread =>
    refine ⟨s.accepted, [], (List.append_nil _).symm, fun fd => ?_, fun _ => rfl⟩
    rw [State.readers, hread, hcount]
  | accepted done hmain hread hlast =>
    refine ⟨done, [s.new_client], hlast, fun fd => ?_, fun hset => ?_⟩
    · rw [State.readers, hread, hcount]
    · exact absurd hset.1 (by rw [hmain]; decide)
  | created done _ hread hlast =>
    refine ⟨done, [s.new_client], hlast, fun fd => ?_, fun hset => ?_⟩
    · rw [State.readers, hread, List.count_append, hcount]
      simp
    · refine absurd ?_ hset.2
      rw [hread]
      exact List.mem_append_right _ List.mem_cons_self

theorem Handed.proper (hs : Handed s) (hc : Counted s) : s.Proper := by
  intro fd
  obtain ⟨done, rest, hdone, hread, -⟩ := hs.front
  have hle : done.count fd ≤ s.accepted.count fd := by
    rw [hdone, List.count_append]
    exact Nat.le_add_right _ _
  rw [hread fd]
  rwa [hc.nodup.count] at hle

theorem Handed.served (hs : Handed s) (hc : Counted s) (hset : s.Settled) : s.Served := by
  intro fd
  obtain ⟨done, rest, hdone, hread, hrest⟩ := hs.front
  rw [hrest hset, List.append_nil] at hdone
  rw [hread fd, ← hdone, hc.nodup.count]

/-! ## Where they do not -/

/-- A descriptor that no thread can read any more. -/
structure Lost (fd : Int) (s : State) : Prop where
  accepted : fd ∈ s.accepted
  nonneg : 0 ≤ fd
  unread : some fd ∉ s.threads
  replaced : s.new_client ≠ fd

theorem Lost.moved (hs : Lost fd s) (h : Moved s m s') : Lost fd s' := by
  cases h with
  | accept hmain hfd' hfresh =>
    refine ⟨List.mem_append_left _ hs.accepted, hs.nonneg, hs.unread, ?_⟩
    rintro rfl
    exact hfresh hs.accepted
  | accept_error hmain =>
    refine ⟨hs.accepted, hs.nonneg, hs.unread, fun heq => ?_⟩
    have hpos := hs.nonneg
    rw [← heq] at hpos
    exact absurd hpos (by decide : ¬ (0 : Int) ≤ -1)
  | pthread_create hmain =>
    refine ⟨hs.accepted, hs.nonneg, fun hmem => ?_, hs.replaced⟩
    rcases List.mem_append.mp hmem with h | h
    · exact hs.unread h
    · cases List.mem_singleton.mp h
  | client_receive hi =>
    refine ⟨hs.accepted, hs.nonneg, fun hmem => ?_, hs.replaced⟩
    rcases List.mem_or_eq_of_mem_set hmem with h | h
    · exact hs.unread h
    · exact hs.replaced (Option.some.inj h).symm

/-- While a thread has not read, some descriptor is unread. -/
theorem Counted.unread (hs : Counted s) (hmain : s.creating = false) (hlate : none ∈ s.threads) :
    ∃ fd ∈ s.accepted, some fd ∉ s.threads := by
  by_contra hall
  have hsub : (none :: s.accepted.map some) ⊆ s.threads := by
    intro a ha
    rcases List.mem_cons.mp ha with rfl | ha
    · exact hlate
    · obtain ⟨fd, hfd, rfl⟩ := List.mem_map.mp ha
      by_contra hno
      exact hall ⟨fd, hfd, hno⟩
  have hnodup : (none :: s.accepted.map some).Nodup := by
    refine List.nodup_cons.mpr ⟨?_, hs.nodup.map (Option.some_injective _)⟩
    simp
  have hlen := (List.subperm_of_subset hnodup hsub).length_le
  have hthreads := hs.threads
  rw [hmain] at hthreads
  rw [List.length_cons, List.length_map] at hlen
  simp only [Bool.toNat_false, Nat.add_zero] at hthreads
  omega

/-- An `accept` that returns too early loses a descriptor. -/
theorem lost_of_early (hs : Counted s) (hret : m.returns = true) (hlate : none ∈ s.threads)
    (h : Moved s m s') : ∃ fd, Lost fd s' := by
  cases h with
  | accept hmain hfd hfresh =>
    obtain ⟨a, ha, hunread⟩ := hs.unread hmain hlate
    refine ⟨a, List.mem_append_left _ ha, hs.nonneg a ha, hunread, ?_⟩
    rintro rfl
    exact hfresh ha
  | accept_error hmain =>
    obtain ⟨a, ha, hunread⟩ := hs.unread hmain hlate
    refine ⟨a, ha, hs.nonneg a ha, hunread, fun heq => ?_⟩
    have hpos := hs.nonneg a ha
    rw [← heq] at hpos
    exact absurd hpos (by decide : ¬ (0 : Int) ≤ -1)
  | pthread_create => cases hret
  | client_receive => cases hret

theorem lost_of_not_paced (hs : Counted s) (hpaced : ¬ Paced s ms) (h : run s ms = some s') :
    ∃ fd, Lost fd s' := by
  induction ms generalizing s with
  | nil => exact absurd trivial hpaced
  | cons m ms ih =>
    obtain ⟨s₁, hm, hms⟩ := Option.bind_eq_some_iff.mp h
    by_cases hnow : m.returns = true → none ∉ s.threads
    · refine ih (hs.moved (step_moved hm)) (fun hrest => hpaced ⟨hnow, fun s' hs' => ?_⟩) hms
      rw [hm] at hs'
      rwa [← Option.some.inj hs']
    · rw [Classical.not_imp, not_not] at hnow
      obtain ⟨fd, hfd⟩ := lost_of_early hs hnow.1 hnow.2 (step_moved hm)
      exact ⟨fd, run_keeps (fun hl hmv => hl.moved hmv) hfd hms⟩

theorem Lost.not_served (hs : Lost fd s) : ¬ s.Served := by
  intro hserved
  have hzero : s.readers fd = 0 := List.count_eq_zero.mpr hs.unread
  have hone := hserved fd
  rw [hzero, if_pos hs.accepted] at hone
  cases hone

end Steps

/-- **When each connection gets its own thread**: if no `accept` returns before all threads
have read their descriptor.  Then none is read twice in any state, and once all is done
each was read by one thread; otherwise some descriptor is never read. -/
theorem each_served_iff {x : Int} {ms : List Move} {s : State} (h : run (start x) ms = some s) :
    (Paced (start x) ms → s.Proper) ∧ (s.Settled → (s.Served ↔ Paced (start x) ms)) := by
  have hcounted : Counted s := run_keeps (fun hs hm => hs.moved hm) (counted_start x) h
  have hhanded (hpaced : Paced (start x) ms) : Handed s :=
    handed_of_paced (.read rfl rfl) hpaced h
  refine ⟨fun hpaced => (hhanded hpaced).proper hcounted, fun hset => ⟨fun hserved => ?_, ?_⟩⟩
  · by_contra hpaced
    obtain ⟨fd, hlost⟩ := lost_of_not_paced (counted_start x) hpaced h
    exact hlost.not_served hserved
  · exact fun hpaced => (hhanded hpaced).served hcounted hset

/-- One connection after the other. -/
theorem each_served_apart :
    let ms := [Move.accept 4, .pthread_create, .client_receive 0, .accept 5, .pthread_create,
      .client_receive 1]
    let s : State := ⟨5, false, [4, 5], [some 4, some 5]⟩
    run (start 0) ms = some s ∧ s.Settled ∧ (s.Served ↔ Paced (start 0) ms) := by
  intro ms s
  have hrun : run (start 0) ms = some s := by decide
  have hset : s.Settled := ⟨rfl, by decide⟩
  exact ⟨hrun, hset, (each_served_iff hrun).2 hset⟩

/-- Two connections together: both threads read the second. -/
theorem served_twice : ¬ ∀ (x : Int) (ms : List Move) (s : State),
    run (start x) ms = some s → s.Proper ∧ (s.Settled → s.Served) := by
  intro h
  have hproper := (h 0 [.accept 4, .pthread_create, .accept 5, .client_receive 0, .pthread_create,
    .client_receive 1] _ rfl).1 5
  exact absurd hproper (by decide)

end TBDChat.AcceptLoop
