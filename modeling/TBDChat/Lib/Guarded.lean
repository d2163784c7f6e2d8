import TBDChat.Lib.Atomic
import TBDChat.Lib.Interleaving
import TBDChat.Lib.Mutex

/-!
# Programs with mutexes

A program over some operations, with steps on mutexes between them.

`Proper` says of a program that it unlocks what it has locked, in the reverse order.  What
it does besides is the program without the mutexes, which it `Erases` to.
-/

namespace TBDChat.Atomic

theorem Prog.bind_ret {Op α : Type} {Ar : Op → Type} (p : Prog Op Ar α) : (p >>= .ret) = p := by
  induction p with
  | ret a => rfl
  | act o k ih => exact congrArg (Prog.act o) (funext ih)

/-- An operation, or a step on a mutex by thread `i` where that matters. -/
inductive Guarded (K ι Op : Type) where
  /-- A mutex is passed by value; the answer is the number of the copy. -/
  | pass (m : Mutex K)
  | lock (i : ι) (m : Mutex K)
  | unlock (m : Mutex K)
  /-- An unlock that no lock goes before. -/
  | release (m : Mutex K)
  /-- An operation that is performed for its answer alone. -/
  | peek (o : Op)
  | op (o : Op)

/-- The state, and the mutexes. -/
structure WithMutexes (S K ι : Type) where
  state : S
  mutexes : Mutexes K ι

/-- Why a thread does not go on. -/
inductive Stop (F : Type) where
  | blocked
  | failed (f : F)

namespace Guarded
variable {K ι Op S E F : Type} {Ar : Op → Type}

abbrev Answer (Ar : Op → Type) : Guarded K ι Op → Type
  | .pass _ => Nat
  | .peek o => Ar o
  | .op o => Ar o
  | _ => Unit

/-- The step unlocks `m`. -/
def Unlocks (m : Mutex K) : Guarded K ι Op → Prop
  | .unlock m' => m' = m
  | .release m' => m' = m
  | _ => False

variable [DecidableEq K]

def exec (M : Semantics Op Ar S E F) : (o : Guarded K ι Op) → WithMutexes S K ι →
    Outcome (WithMutexes S K ι) E (Stop F) (o.Answer Ar)
  | .pass m, s => .ok (s.mutexes.copies, { s with mutexes := s.mutexes.pass m }, [])
  | .lock i m, s =>
    match s.mutexes.status m with
    | .free => .ok ((), { s with mutexes := s.mutexes.lock i m }, [])
    | _ => .error .blocked
  | .unlock m, s => .ok ((), { s with mutexes := s.mutexes.unlock m }, [])
  | .release m, s => .ok ((), { s with mutexes := s.mutexes.unlock m }, [])
  | .peek o, s =>
    match M.exec o s.state with
    | .error f => .error (.failed f)
    | .ok (b, _, _) => .ok (b, s, [])
  | .op o, s =>
    match M.exec o s.state with
    | .error f => .error (.failed f)
    | .ok (b, s', es) => .ok (b, { s with state := s' }, es)

/-- No mutex is copied while it is locked, and none that is locked is unlocked out of turn. -/
def Undisturbed : Guarded K ι Op → WithMutexes S K ι → Prop
  | .pass m, s => s.mutexes.status m = .free
  | .release m, s => s.mutexes.status m = .free
  | _, _ => True

/-- No mutex at all is unlocked out of turn. -/
def InTurn (o : Guarded K ι Op) (s : WithMutexes S K ι) : Prop :=
  o.Undisturbed s ∧ ∀ m, o ≠ .release m

/-- `InTurn` as a test. -/
def inTurn [DecidableEq ι] : Guarded K ι Op → WithMutexes S K ι → Bool
  | .pass m, s => s.mutexes.status m = .free
  | .release _, _ => false
  | _, _ => true

omit [DecidableEq K] in
theorem inTurn_spec [DecidableEq ι] (o : Guarded K ι Op) (s : WithMutexes S K ι)
    (h : o.inTurn s = true) : o.InTurn s := by
  cases o with
  | pass m =>
    have hfree : s.mutexes.status m = .free := of_decide_eq_true h
    exact ⟨hfree, fun m' hm' => by cases hm'⟩
  | release m => cases h
  | lock i m => exact ⟨trivial, fun m' hm' => by cases hm'⟩
  | unlock m => exact ⟨trivial, fun m' hm' => by cases hm'⟩
  | peek o => exact ⟨trivial, fun m' hm' => by cases hm'⟩
  | op o => exact ⟨trivial, fun m' hm' => by cases hm'⟩

end Guarded

/-- The meaning of the steps. -/
def Semantics.guarded {K ι Op S E F : Type} {Ar : Op → Type} [DecidableEq K]
    (M : Semantics Op Ar S E F) :
    Semantics (Guarded K ι Op) (Guarded.Answer Ar) (WithMutexes S K ι) E (Stop F) :=
  ⟨Guarded.exec M⟩

/-- A lock that is taken was free. -/
theorem Semantics.guarded_lock {K ι Op S E F : Type} {Ar : Op → Type} [DecidableEq K]
    {M : Semantics Op Ar S E F} {i : ι} {m : Mutex K} {s s' : WithMutexes S K ι} {b : Unit}
    {es : List E}
    (h : M.guarded.exec (.lock i m) s = .ok (b, s', es)) :
    s.mutexes.status m = .free ∧ s' = { s with mutexes := s.mutexes.lock i m } := by
  cases hstatus : s.mutexes.status m with
  | free =>
    simp [Semantics.guarded, Guarded.exec, hstatus] at h
    exact ⟨rfl, h.1.symm⟩
  | held j => simp [Semantics.guarded, Guarded.exec, hstatus] at h
  | stuck => simp [Semantics.guarded, Guarded.exec, hstatus] at h

/-! ## Programs that unlock what they lock -/

section Programs
variable {K ι Op α β : Type} {Ar : Op → Type}

/-- A program with steps on mutexes. -/
abbrev GuardedProg (K ι : Type) (Op : Type) (Ar : Op → Type) (α : Type) : Type :=
  Prog (Guarded K ι Op) (Guarded.Answer Ar) α

namespace GuardedProg

/-- Whatever the answers are, the program comes to an unlock of `m`.  There are `c` copies,
and a new one is given a number that none of them has. -/
def Releases (m : Mutex K) : Nat → GuardedProg K ι Op Ar α → Prop
  | _, .ret _ => False
  | c, .act (.pass _) k => ∀ n, c ≤ n → Releases m (n + 1) (k n)
  | c, .act (.lock _ _) k => Releases m c (k ())
  | c, .act (.unlock m') k => m' = m ∨ Releases m c (k ())
  | c, .act (.release m') k => m' = m ∨ Releases m c (k ())
  | c, .act (.peek _) k => ∀ b, Releases m c (k b)
  | c, .act (.op _) k => ∀ b, Releases m c (k b)

/-- Thread `i`, which holds `H`, the last locked first, locks nothing that it holds, unlocks
what it has locked last, and holds `H'` in the end. -/
def Proper (i : ι) (H' : List (Mutex K)) :
    Nat → List (Mutex K) → GuardedProg K ι Op Ar α → Prop
  | _, H, .ret _ => H = H'
  | c, H, .act (.pass _) k => ∀ n, c ≤ n → Proper i H' (n + 1) H (k n)
  | c, H, .act (.lock j m) k => j = i ∧ m ∉ H ∧ (∀ n, m = .copy n → n < c) ∧
      Proper i H' c (m :: H) (k ())
  | c, H, .act (.unlock m) k => ∃ H₁, H = m :: H₁ ∧ Proper i H' c H₁ (k ())
  | c, H, .act (.release _) k => Proper i H' c H (k ())
  | c, H, .act (.peek _) k => ∀ b, Proper i H' c H (k b)
  | c, H, .act (.op _) k => ∀ b, Proper i H' c H (k b)

variable {i : ι} {H H' H'' : List (Mutex K)} {c c' : Nat} {m : Mutex K}
  {p : GuardedProg K ι Op Ar α} {f : α → GuardedProg K ι Op Ar β}

/-- More copies may have been made by others. -/
theorem Proper.later (hp : Proper i H' c H p) (hc : c ≤ c') : Proper i H' c' H p := by
  induction p generalizing c c' H with
  | ret a => exact hp
  | act o k ih =>
    cases o with
    | pass m => exact fun n hn => hp n (Nat.le_trans hc hn)
    | lock j m =>
      obtain ⟨hj, hm, hmade, hrest⟩ := hp
      exact ⟨hj, hm, fun n hn => Nat.lt_of_lt_of_le (hmade n hn) hc, ih () hrest hc⟩
    | unlock m =>
      obtain ⟨H₁, hH, hrest⟩ := hp
      exact ⟨H₁, hH, ih () hrest hc⟩
    | release m => exact ih () hp hc
    | peek o => exact fun b => ih b (hp b) hc
    | op o => exact fun b => ih b (hp b) hc

theorem Proper.bind (hp : Proper i H' c H p)
    (hf : ∀ a c', c ≤ c' → Proper i H'' c' H' (f a)) : Proper i H'' c H (p >>= f) := by
  induction p generalizing c H with
  | ret a =>
    obtain rfl : H = H' := hp
    exact hf a c (Nat.le_refl c)
  | act o k ih =>
    cases o with
    | pass m =>
      exact fun n hn => ih n (hp n hn) fun a c' hc' =>
        hf a c' (Nat.le_trans hn (Nat.le_of_succ_le hc'))
    | lock j m =>
      obtain ⟨hj, hm, hmade, hrest⟩ := hp
      exact ⟨hj, hm, hmade, ih () hrest hf⟩
    | unlock m =>
      obtain ⟨H₁, hH, hrest⟩ := hp
      exact ⟨H₁, hH, ih () hrest hf⟩
    | release m => exact ih () hp hf
    | peek o => exact fun b => ih b (hp b) hf
    | op o => exact fun b => ih b (hp b) hf

/-- **What a proper program holds it is going to unlock.** -/
theorem Proper.releases (hp : Proper i [] c H p) (hm : m ∈ H) : Releases m c p := by
  induction p generalizing c H with
  | ret a =>
    obtain rfl : H = [] := hp
    cases hm
  | act o k ih =>
    cases o with
    | pass m' => exact fun n hn => ih n (hp n hn) hm
    | lock j m' => exact ih () hp.2.2.2 (List.mem_cons_of_mem _ hm)
    | unlock m' =>
      obtain ⟨H₁, rfl, hrest⟩ := hp
      rcases List.mem_cons.mp hm with rfl | hm
      · exact .inl rfl
      · exact .inr (ih () hrest hm)
    | release m' => exact .inr (ih () hp hm)
    | peek o => exact fun b => ih b (hp b) hm
    | op o => exact fun b => ih b (hp b) hm

/-! ### Calls -/

def pass (m : Mutex K) : GuardedProg K ι Op Ar Nat := .act (.pass m) .ret
def lock (i : ι) (m : Mutex K) : GuardedProg K ι Op Ar Unit := .act (.lock i m) .ret
def unlock (m : Mutex K) : GuardedProg K ι Op Ar Unit := .act (.unlock m) .ret
def release (m : Mutex K) : GuardedProg K ι Op Ar Unit := .act (.release m) .ret
def peek (o : Op) : GuardedProg K ι Op Ar (Ar o) := .act (.peek o) .ret
def op (o : Op) : GuardedProg K ι Op Ar (Ar o) := .act (.op o) .ret

/-- A program between a lock and an unlock. -/
def locked (i : ι) (m : Mutex K) (p : GuardedProg K ι Op Ar α) : GuardedProg K ι Op Ar α := do
  lock i m
  let b ← p
  unlock m
  pure b

/-- A function that is passed the mutex, and locks what it is passed. -/
def withCopy (i : ι) (m : Mutex K) (p : GuardedProg K ι Op Ar α) : GuardedProg K ι Op Ar α := do
  let n ← pass m
  locked i (.copy n) p

/-- No step on a mutex is in it. -/
def Plain : GuardedProg K ι Op Ar α → Prop := Prog.Uses fun o => ∃ o', o = .op o'

/-- Whatever copies it holds when it is called, a call leaves them held.  The copies in `D`
are its own. -/
def Nested (i : ι) (D : List Nat) (p : GuardedProg K ι Op Ar α) : Prop :=
  ∀ c H, (∀ m ∈ H, ∃ n < c, m = .copy n) → (∀ n ∈ D, n < c ∧ .copy n ∉ H) → Proper i H c H p

variable {D : List Nat} {n : Nat} {o : Op}

theorem Proper.locked (hm : m ∉ H) (hmade : ∀ n, m = .copy n → n < c)
    (hp : Proper i (m :: H) c (m :: H) p) : Proper i H c H (locked i m p) :=
  ⟨rfl, hm, hmade, hp.bind fun _ _ _ => ⟨H, rfl, rfl⟩⟩

theorem Plain.proper (hp : p.Plain) : Proper i H c H p := by
  induction p generalizing c with
  | ret a => rfl
  | act o k ih =>
    obtain ⟨⟨o', rfl⟩, hrest⟩ := hp
    exact fun b => ih b (hrest b)

namespace Nested

theorem ret (a : α) : Nested i D (.ret a : GuardedProg K ι Op Ar α) := fun _ _ _ _ => rfl

theorem op (o : Op) : Nested i D (op o : GuardedProg K ι Op Ar (Ar o)) := fun _ _ _ _ _ => rfl

theorem peek (o : Op) : Nested i D (peek o : GuardedProg K ι Op Ar (Ar o)) :=
  fun _ _ _ _ _ => rfl

theorem release (m : Mutex K) : Nested i D (release m : GuardedProg K ι Op Ar Unit) :=
  fun _ _ _ _ => rfl

theorem bind (hp : Nested i D p) (hf : ∀ a, Nested i D (f a)) :
    Nested i D (p >>= f) := by
  intro c H hH hD
  refine (hp c H hH hD).bind fun a c' hc => hf a c' H (fun m hm => ?_) fun n hn => ?_
  · obtain ⟨n, hn, rfl⟩ := hH m hm
    exact ⟨n, Nat.lt_of_lt_of_le hn hc, rfl⟩
  · exact ⟨Nat.lt_of_lt_of_le (hD n hn).1 hc, (hD n hn).2⟩

theorem ite {q : GuardedProg K ι Op Ar α} {b : Prop} [Decidable b] (hp : Nested i D p)
    (hq : Nested i D q) : Nested i D (if b then p else q) := by
  split
  · exact hp
  · exact hq

/-- The callee has a copy of its own. -/
theorem pass {f : Nat → GuardedProg K ι Op Ar β} (hf : ∀ n, Nested i (n :: D) (f n)) :
    Nested i D (pass m >>= f) := by
  intro c H hH hD n hn
  refine hf n (n + 1) H (fun m hm => ?_) fun n' hn' => ?_
  · obtain ⟨n', hn', rfl⟩ := hH m hm
    exact ⟨n', by omega, rfl⟩
  · rcases List.mem_cons.mp hn' with rfl | hn'
    · refine ⟨Nat.lt_succ_self _, fun hm => ?_⟩
      obtain ⟨n', hlt, heq⟩ := hH _ hm
      cases heq
      exact absurd hlt (Nat.not_lt_of_le hn)
    · exact ⟨by have := (hD n' hn').1; omega, (hD n' hn').2⟩

theorem locked (hn : n ∈ D) (hp : Nested i [] p) : Nested i D (locked i (.copy n) p) := by
  intro c H hH hD
  refine Proper.locked (hD n hn).2 (fun n' he => ?_) (hp c _ (fun m hm => ?_) (by simp))
  · cases he
    exact (hD n hn).1
  · rcases List.mem_cons.mp hm with rfl | hm
    · exact ⟨n, (hD n hn).1, rfl⟩
    · exact hH m hm

theorem withCopy (hp : Nested i [] p) : Nested i D (withCopy i m p) :=
  pass fun _ => locked List.mem_cons_self hp

/-- A program without mutexes, while what is shared is locked. -/
theorem shared {k : K} (hp : p.Plain) : Nested i D (GuardedProg.locked i (.shared k) p) := by
  intro c H hH _
  refine Proper.locked (fun hm => ?_) (fun n he => by cases he) hp.proper
  obtain ⟨n, -, he⟩ := hH _ hm
  cases he

end Nested

/-! ### Without the mutexes -/

/-- Without its steps on mutexes, and whatever these answer, the program is `q`. -/
def Erases : GuardedProg K ι Op Ar α → Prog Op Ar α → Prop
  | .ret a, q => q = .ret a
  | .act (.pass _) k, q => ∀ n, Erases (k n) q
  | .act (.lock _ _) k, q => Erases (k ()) q
  | .act (.unlock _) k, q => Erases (k ()) q
  | .act (.release _) k, q => Erases (k ()) q
  | .act (.peek _) k, q => ∀ b, Erases (k b) q
  | .act (.op o) k, q => ∃ k', q = .act o k' ∧ ∀ b, Erases (k b) (k' b)

namespace Erases
variable {q : Prog Op Ar α} {g : α → Prog Op Ar β}

theorem ret (a : α) : Erases (.ret a : GuardedProg K ι Op Ar α) (.ret a) := rfl

theorem op (o : Op) : Erases (op o : GuardedProg K ι Op Ar (Ar o)) (.call o) :=
  ⟨_, rfl, fun _ => rfl⟩

theorem bind (hp : Erases p q) (hf : ∀ a, Erases (f a) (g a)) : Erases (p >>= f) (q >>= g) := by
  induction p generalizing q with
  | ret a =>
    obtain rfl : q = .ret a := hp
    exact hf a
  | act o k ih =>
    cases o with
    | pass m => exact fun n => ih n (hp n)
    | lock j m => exact ih () hp
    | unlock m => exact ih () hp
    | release m => exact ih () hp
    | peek o => exact fun b => ih b (hp b)
    | op o =>
      obtain ⟨k', rfl, hk⟩ := hp
      exact ⟨_, rfl, fun b => ih b (hk b)⟩

/-- Only steps on mutexes follow. -/
theorem followed {f : α → GuardedProg K ι Op Ar α} (hp : Erases p q)
    (hf : ∀ a, Erases (f a) (.ret a)) : Erases (p >>= f) q := by
  have hbind := hp.bind hf
  rwa [Prog.bind_ret] at hbind

/-- Only steps on mutexes go before. -/
theorem after {f : α → GuardedProg K ι Op Ar β} {a : α} {q : Prog Op Ar β}
    (hp : Erases p (.ret a)) (hf : ∀ a, Erases (f a) q) : Erases (p >>= f) q := hp.bind hf

theorem locked (hp : Erases p q) : Erases (locked i m p) q := hp.followed fun _ => rfl

theorem withCopy (hp : Erases p q) : Erases (withCopy i m p) q := fun _ => hp.locked

theorem ite {p' : GuardedProg K ι Op Ar α} {q' : Prog Op Ar α} {b : Prop} [Decidable b]
    (hp : Erases p q) (hp' : Erases p' q') :
    Erases (if b then p else p') (if b then q else q') := by
  split
  · exact hp
  · exact hp'

end Erases
end GuardedProg
end Programs

end TBDChat.Atomic
