import TBDChat.Nodes
import TBDChat.Lib.Links

/-!
# List functions that run at the same time

Since a mutex argument is copied, each call of a list function locks an object of its
own, and no call waits for another one.
-/

namespace TBDChat.Nodes
open Atomic

namespace Memory
variable {L ι : Type} {s s' s'' : Memory L ι} {i j : ι} {l l' : L} {c d : List Ptr} {p q : Ptr}
  {e : Entry}

/-- The nodes of a list, in order. -/
def Chain (s : Memory L ι) (l : L) (c : List Ptr) : Prop := Path s.next (s.head l) c

/-- A node of the list has the record. -/
def Has (s : Memory L ι) (l : L) (e : Entry) : Prop := ∃ c, s.Chain l c ∧ ∃ p ∈ c, s.data p = e

/-- The node is in no list. -/
def Loose (s : Memory L ι) (p : Ptr) : Prop := ∀ l c, s.Chain l c → p ∉ c

/-- A node that `i` has made and not put into a list. -/
structure Own (s : Memory L ι) (i : ι) (p : Ptr) : Prop where
  used : p < s.used
  owner : s.owner p = some i
  loose : s.Loose p

/-- Each list comes to an end, no two share a node, and memory that has not been handed
out is NULL. -/
structure Shaped (s : Memory L ι) : Prop where
  lists : ∀ l, ∃ c, s.Chain l c
  used : ∀ l c, s.Chain l c → ∀ p ∈ c, p < s.used
  apart : ∀ l l' c c' p, s.Chain l c → s.Chain l' c' → p ∈ c → p ∈ c' → l = l'
  blank : ∀ p, s.used ≤ p → s.next p = none

theorem walk_some {test : Entry → Bool} {n : Nat} {b : Bool} (hc : Path s.next (some p) c)
    (h : s.walk test n p = some (q, b)) :
    ∃ c₁ c₂, c = c₁ ++ q :: c₂ ∧ (b = true → test (s.data q) = true) ∧ (b = false → c₂ = []) := by
  induction n generalizing p c with
  | zero => cases h
  | succ n ih =>
    cases c with
    | nil => cases hc
    | cons p' c =>
      obtain rfl : p = p' := Option.some.inj hc.1
      rw [walk] at h
      split at h
      · rename_i htest
        cases h
        exact ⟨[], c, rfl, fun _ => htest, fun hb => by cases hb⟩
      · have hrest : Path s.next (s.next p) c := hc.2
        split at h
        · rename_i hnext
          cases h
          rw [hnext] at hrest
          exact ⟨[], c, rfl, fun hb => (by cases hb), fun _ => hrest.unique rfl⟩
        · rename_i q' hnext
          rw [hnext] at hrest
          obtain ⟨c₁, c₂, hsplit, htest, hend⟩ := ih hrest h
          exact ⟨p :: c₁, c₂, by rw [hsplit]; rfl, htest, hend⟩

theorem seek_after {node : Ptr} {n : Nat} (hc : Path s.next (some p) c)
    (h : s.seek node n p = some (some q)) : ∃ c₁ c₂, c = c₁ ++ q :: node :: c₂ := by
  induction n generalizing p c with
  | zero => cases h
  | succ n ih =>
    cases c with
    | nil => cases hc
    | cons p' c =>
      obtain rfl : p = p' := Option.some.inj hc.1
      have hrest : Path s.next (s.next p) c := hc.2
      rw [seek] at h
      split at h
      · cases h
      · rename_i q' hnext
        rw [hnext] at hrest
        split at h
        · rename_i hnode
          cases h
          subst hnode
          cases c with
          | nil => cases hrest
          | cons r c₂ =>
            obtain rfl : q' = r := Option.some.inj hrest.1
            exact ⟨[], c₂, rfl⟩
        · obtain ⟨c₁, c₂, hsplit⟩ := ih hrest h
          exact ⟨p :: c₁, c₂, by rw [hsplit]; rfl⟩

/-- To write what is there. -/
theorem setNext_self {o : Option Ptr} (h : s.next p = o) :
    { s with next := Function.update s.next p o } = s := by
  rw [← h, Function.update_eq_self]

theorem Has.of_same (hhead : s'.head = s.head) (hnext : s'.next = s.next)
    (hdata : s'.data = s.data) (h : s.Has l e) : s'.Has l e := by
  obtain ⟨c, hc, hp⟩ := h
  exact ⟨c, by rwa [Chain, hhead, hnext], by rwa [hdata]⟩

end Memory

/-! ## What calls promise one another -/

section Promises
variable {L ι : Type} (may : ι → ListCall L → Prop) (s₀ : Memory L ι)

/-- The threads only make inserts. -/
def Inserting : Prop := ∀ i o, may i o → o.entry? ≠ none

/-- The memory `s`, when the threads make the calls that they `may` and it was `s₀` at
first. -/
structure Sound (s : Memory L ι) : Prop where
  shaped : s.Shaped
  tidy : s.mutexes.Tidy
  exclusive : ∀ i j l, s.mutexes.Inside i l → s.mutexes.Inside j l → i = j
  /-- Who is inside a list was called to be. -/
  called : ∀ i l, s.mutexes.Inside i l → ∃ o, may i o ∧ o.list = l
  entries : ∀ l e, s.Has l e → s₀.Has l e ∨ ∃ i o, may i o ∧ o.list = l ∧ o.entry? = some e

/-- What any step leaves as it was. -/
structure Evolves (s s' : Memory L ι) : Prop where
  used : s.used ≤ s'.used
  data : ∀ p < s.used, s'.data p = s.data p
  grows : Inserting may → ∀ l c, s.Chain l c → ∃ d, s'.Chain l (c ++ d)

/-- What the steps of the others leave to `i`. -/
structure Spares (i : ι) (s s' : Memory L ι) : Prop where
  mutexes : Mutexes.Spares i s.mutexes s'.mutexes
  chain : ∀ l c, s.mutexes.Inside i l → s.Chain l c → s'.Chain l c
  own : ∀ p, s.Own i p → s'.Own i p ∧ s'.next p = s.next p

variable {may s₀} {s s' s'' : Memory L ι} {i : ι}

theorem Evolves.refl (s : Memory L ι) : Evolves may s s :=
  ⟨Nat.le_refl _, fun _ _ => rfl, fun _ _ c hc => ⟨[], by rwa [List.append_nil]⟩⟩

theorem Evolves.trans (h : Evolves may s s') (h' : Evolves may s' s'') : Evolves may s s'' where
  used := Nat.le_trans h.used h'.used
  data p hp := (h'.data p (Nat.lt_of_lt_of_le hp h.used)).trans (h.data p hp)
  grows hgrow l c hc := by
    obtain ⟨d, hd⟩ := h.grows hgrow l c hc
    obtain ⟨d', hd'⟩ := h'.grows hgrow l _ hd
    exact ⟨d ++ d', by rwa [← List.append_assoc]⟩

theorem Spares.refl (i : ι) (s : Memory L ι) : Spares i s s :=
  ⟨.refl .., fun _ _ _ hc => hc, fun _ hp => ⟨hp, rfl⟩⟩

theorem Spares.trans (h : Spares i s s') (h' : Spares i s' s'') : Spares i s s'' where
  mutexes := h.mutexes.trans h'.mutexes
  chain l c hin hc := by
    obtain ⟨m, hm, hof, hheld⟩ := hin
    refine h'.chain l c ⟨m, h.mutexes.made hm, ?_, (h.mutexes.held m).mpr hheld⟩
      (h.chain l c ⟨m, hm, hof, hheld⟩ hc)
    rw [h.mutexes.of_eq hm, hof]
  own p hp := by
    obtain ⟨hown, hnext⟩ := h.own p hp
    obtain ⟨hown', hnext'⟩ := h'.own p hown
    exact ⟨hown', hnext'.trans hnext⟩

variable (may s₀) in
/-- The contract that calls would keep if a lock let nobody else in. -/
def contract : Contract ι (Memory L ι) where
  inv := Sound may s₀
  rely := Evolves may
  refl := .refl
  trans := .trans
  spares := Spares
  spares_refl := .refl
  spares_trans := .trans

/-- What there is in a list stays, while the threads only make inserts. -/
theorem Evolves.has {l : L} {e : Entry} (h : Evolves may s s') (hs : s.Shaped)
    (hgrow : Inserting may) (hhas : s.Has l e) : s'.Has l e := by
  obtain ⟨c, hc, p, hp, he⟩ := hhas
  obtain ⟨d, hd⟩ := h.grows hgrow l c hc
  exact ⟨c ++ d, hd, p, List.mem_append_left d hp, by rw [h.data p (hs.used l c hc p hp), he]⟩

end Promises

/-! ## What each step does -/

section StepFacts
variable {L ι : Type} {may : ι → ListCall L → Prop} {s₀ s s' : Memory L ι} {i j : ι}
  {l l' : L} {c c' d : List Ptr} {p q t : Ptr} {e : Entry} {m : Mutex L}

variable (may s₀) in
/-- A step of `i` is within the contract. -/
structure Within (i : ι) (s s' : Memory L ι) : Prop where
  sound : Sound may s₀ s'
  evolves : Evolves may s s'
  spares : ∀ j, j ≠ i → Spares j s s'

theorem Within.refl (hs : Sound may s₀ s) : Within may s₀ i s s :=
  ⟨hs, .refl s, fun j _ => .refl j s⟩

theorem Within.obeys [DecidableEq L] {o : Access L ι}
    (h : ∀ b s' es, o.exec s = .ok (b, s', es) → Within may s₀ i s s') :
    accesses.Obeys (contract may s₀) i o s where
  keeps b s' es he := ⟨(h b s' es he).sound, (h b s' es he).evolves⟩
  spares j hj b s' es he := (h b s' es he).spares j hj

/-- A step on the mutexes, which brings `i` inside at most where nobody else is. -/
theorem Within.mutexes {x : Mutexes L ι} (hs : Sound may s₀ s) (htidy : x.Tidy)
    (hspares : ∀ j, j ≠ i → Mutexes.Spares j s.mutexes x)
    (hin : ∀ l, x.Inside i l → s.mutexes.Inside i l ∨
      (∀ j, j ≠ i → ¬ s.mutexes.Inside j l) ∧ ∃ o, may i o ∧ o.list = l) :
    Within may s₀ i s { s with mutexes := x } := by
  have hother {j : ι} {l : L} (hj : j ≠ i) (h : x.Inside j l) : s.mutexes.Inside j l :=
    ((hspares j hj).inside hs.tidy).mp h
  refine ⟨⟨⟨hs.shaped.lists, hs.shaped.used, hs.shaped.apart, hs.shaped.blank⟩, htidy, ?_, ?_,
    fun l e h => hs.entries l e (h.of_same rfl rfl rfl)⟩, ?_, ?_⟩
  · intro j k l hj hk
    by_cases hji : j = i
    · by_cases hki : k = i
      · rw [hji, hki]
      · subst hji
        rcases hin l hj with h | ⟨h, -⟩
        · exact hs.exclusive j k l h (hother hki hk)
        · exact absurd (hother hki hk) (h k hki)
    · by_cases hki : k = i
      · subst hki
        rcases hin l hk with h | ⟨h, -⟩
        · exact hs.exclusive j k l (hother hji hj) h
        · exact absurd (hother hji hj) (h j hji)
      · exact hs.exclusive j k l (hother hji hj) (hother hki hk)
  · intro j l hj
    by_cases hji : j = i
    · subst hji
      rcases hin l hj with h | ⟨-, h⟩
      · exact hs.called j l h
      · exact h
    · exact hs.called j l (hother hji hj)
  · exact ⟨Nat.le_refl _, fun _ _ => rfl, fun _ _ c hc => ⟨[], by rwa [List.append_nil]⟩⟩
  · exact fun j hj => ⟨hspares j hj, fun _ _ _ hc => hc,
      fun p hp => ⟨⟨hp.used, hp.owner, hp.loose⟩, rfl⟩⟩

/-- A new node is nobody else's and in no list. -/
theorem Within.malloc (hs : Sound may s₀ s) :
    let s' : Memory L ι := { s with data := Function.update s.data s.used e
                                    used := s.used + 1
                                    owner := Function.update s.owner s.used (some i) }
    Within may s₀ i s s' ∧ (∀ j, Spares j s s') ∧
      s'.Own i s.used ∧ s'.data s.used = e ∧ s'.next s.used = none := by
  intro s'
  have hdata (p : Ptr) (hp : p < s.used) : s'.data p = s.data p :=
    Function.update_of_ne (Nat.ne_of_lt hp) _ _
  have howner (p : Ptr) (hp : p < s.used) : s'.owner p = s.owner p :=
    Function.update_of_ne (Nat.ne_of_lt hp) _ _
  have hused (l : L) (c : List Ptr) (hc : s.Chain l c) (p : Ptr) (hp : p ∈ c) : p < s'.used :=
    Nat.lt_succ_of_lt (hs.shaped.used l c hc p hp)
  have hspares (j : ι) : Spares j s s' := by
    refine ⟨.refl .., fun _ _ _ hc => hc, fun p hp => ⟨⟨?_, ?_, hp.loose⟩, rfl⟩⟩
    · exact Nat.lt_succ_of_lt hp.used
    · exact (howner p hp.used).trans hp.owner
  refine ⟨⟨⟨⟨hs.shaped.lists, hused, hs.shaped.apart, ?_⟩, hs.tidy, hs.exclusive, hs.called, ?_⟩,
    ⟨Nat.le_succ _, hdata, ?_⟩, fun j _ => hspares j⟩, hspares,
    ⟨Nat.lt_succ_self _, Function.update_self .., ?_⟩, Function.update_self ..,
    hs.shaped.blank _ (Nat.le_refl _)⟩
  · exact fun p hp => hs.shaped.blank p (Nat.le_of_succ_le hp)
  · rintro l _ ⟨c, hc, p, hp, rfl⟩
    exact hs.entries l _ ⟨c, hc, p, hp, (hdata p (hs.shaped.used l c hc p hp)).symm⟩
  · exact fun _ _ c hc => ⟨[], by rwa [List.append_nil]⟩
  · exact fun l c hc hp => Nat.lt_irrefl _ (hs.shaped.used l c hc _ hp)

variable (may) in
/-- The links `head` and `next` differ from those of `s` in the list `l`, which was `c` and is
`c'` with them.  A node that is new there is one of `i`. -/
structure Relinks (i : ι) (l : L) (s : Memory L ι) (head : L → Option Ptr)
    (next : Ptr → Option Ptr) (c c' : List Ptr) : Prop where
  chain : s.Chain l c
  path : Path next (head l) c'
  other : ∀ l' d, l' ≠ l → s.Chain l' d → Path next (head l') d
  outside : ∀ p, p ∉ c → next p = s.next p
  node : ∀ p ∈ c', p ∈ c ∨ s.Own i p ∧ ∃ o, may i o ∧ o.list = l ∧ o.entry? = some (s.data p)
  grows : Inserting may → c <+: c'

namespace Relinks
variable {head : L → Option Ptr} {next : Ptr → Option Ptr}

/-- Each list is what it was or, if it is `l`, made of `c'`. -/
theorem cases (h : Relinks may i l s head next c c') (hs : s.Shaped)
    (hd : Path next (head l') d) : (l' = l ∧ d = c') ∨ (l' ≠ l ∧ s.Chain l' d) := by
  by_cases hl : l' = l
  · subst hl
    exact .inl ⟨rfl, hd.unique h.path⟩
  · obtain ⟨d', hd'⟩ := hs.lists l'
    rw [hd.unique (h.other l' d' hl hd')]
    exact .inr ⟨hl, hd'⟩

theorem apart (h : Relinks may i l s head next c c') (hs : s.Shaped) (hl : l' ≠ l)
    (hd : s.Chain l' d) (hp : p ∈ d) : p ∉ c' := by
  intro hp'
  rcases h.node p hp' with hpc | ⟨hown, -⟩
  · exact hl (hs.apart l' l d c p hd h.chain hp hpc)
  · exact hown.loose l' d hd hp

theorem shaped (h : Relinks may i l s head next c c') (hs : s.Shaped) :
    Memory.Shaped { s with head := head, next := next } where
  lists l' := by
    by_cases hl : l' = l
    · exact ⟨c', hl ▸ h.path⟩
    · obtain ⟨d, hd⟩ := hs.lists l'
      exact ⟨d, h.other l' d hl hd⟩
  used l' d hd p hp := by
    rcases h.cases hs hd with ⟨-, rfl⟩ | ⟨-, hd⟩
    · rcases h.node p hp with hpc | ⟨hown, -⟩
      · exact hs.used l c h.chain p hpc
      · exact hown.used
    · exact hs.used l' d hd p hp
  apart l₁ l₂ d₁ d₂ p hd₁ hd₂ hp₁ hp₂ := by
    rcases h.cases hs hd₁ with ⟨rfl, rfl⟩ | ⟨hl₁, hd₁⟩
    · rcases h.cases hs hd₂ with ⟨rfl, rfl⟩ | ⟨hl₂, hd₂⟩
      · rfl
      · exact absurd hp₁ (h.apart hs hl₂ hd₂ hp₂)
    · rcases h.cases hs hd₂ with ⟨rfl, rfl⟩ | ⟨hl₂, hd₂⟩
      · exact absurd hp₂ (h.apart hs hl₁ hd₁ hp₁)
      · exact hs.apart l₁ l₂ d₁ d₂ p hd₁ hd₂ hp₁ hp₂
  blank p hp := by
    have hpc : p ∉ c := fun hpc => Nat.not_lt_of_le hp (hs.used l c h.chain p hpc)
    exact (h.outside p hpc).trans (hs.blank p hp)

/-- A record that is new in a list is one that `i` has been called to put there. -/
theorem entries (h : Relinks may i l s head next c c') (hs : s.Shaped)
    (he : Memory.Has { s with head := head, next := next } l' e) :
    s.Has l' e ∨ ∃ o, may i o ∧ o.list = l' ∧ o.entry? = some e := by
  obtain ⟨d, hd, p, hp, rfl⟩ := he
  rcases h.cases hs hd with ⟨rfl, rfl⟩ | ⟨-, hd⟩
  · rcases h.node p hp with hpc | ⟨-, hcall⟩
    · exact .inl ⟨c, h.chain, p, hpc, rfl⟩
    · exact .inr hcall
  · exact .inl ⟨d, hd, p, hp, rfl⟩

theorem evolves (h : Relinks may i l s head next c c') :
    Evolves may s { s with head := head, next := next } where
  used := Nat.le_refl _
  data _ _ := rfl
  grows hg l' d hd := by
    by_cases hl : l' = l
    · subst hl
      obtain ⟨d', rfl⟩ := h.grows hg
      rw [hd.unique h.chain]
      exact ⟨d', h.path⟩
    · exact ⟨[], by rw [List.append_nil]; exact h.other l' d hl hd⟩

/-- The others are not inside `l`, and have no node of it. -/
theorem spares (h : Relinks may i l s head next c c') (hs : Sound may s₀ s)
    (hin : s.mutexes.Inside i l) (hj : j ≠ i) :
    Spares j s { s with head := head, next := next } where
  mutexes := .refl ..
  chain l' d hin' hd := by
    have hl : l' ≠ l := by
      rintro rfl
      exact hj (hs.exclusive j i l' hin' hin)
    exact h.other l' d hl hd
  own p hp := by
    refine ⟨⟨hp.used, hp.owner, fun l' d hd hpd => ?_⟩, h.outside p (hp.loose l c h.chain)⟩
    rcases h.cases hs.shaped hd with ⟨rfl, rfl⟩ | ⟨-, hd⟩
    · rcases h.node p hpd with hpc | ⟨hown, -⟩
      · exact hp.loose l' c h.chain hpc
      · exact hj (Option.some.inj (hp.owner.symm.trans hown.owner))
    · exact hp.loose l' d hd hpd

end Relinks

/-- What `i` writes to the links of a list that it is inside of. -/
theorem Within.relink {head : L → Option Ptr} {next : Ptr → Option Ptr} (hs : Sound may s₀ s)
    (hin : s.mutexes.Inside i l) (h : Relinks may i l s head next c c') :
    Within may s₀ i s { s with head := head, next := next } where
  sound := by
    refine ⟨h.shaped hs.shaped, hs.tidy, hs.exclusive, hs.called, fun l' e he => ?_⟩
    rcases h.entries hs.shaped he with he | ⟨o, ho⟩
    · exact hs.entries l' e he
    · exact .inr ⟨i, o, ho⟩
  evolves := h.evolves
  spares _ hj := h.spares hs hin hj

section Writes
variable [DecidableEq L]

theorem Within.pass (hs : Sound may s₀ s) :
    Within may s₀ i s { s with mutexes := s.mutexes.pass m } :=
  .mutexes hs (Mutexes.tidy_pass hs.tidy) (fun _ _ => Mutexes.spares_pass hs.tidy)
    fun _ h => .inl (((Mutexes.spares_pass hs.tidy).inside hs.tidy).mp h)

theorem Within.lock (hs : Sound may s₀ s) (hm : s.mutexes.Made m)
    (hfree : s.mutexes.status m = .free)
    (halone : ∀ j, j ≠ i → ¬ s.mutexes.Inside j (s.mutexes.of m))
    (hcall : ∃ o, may i o ∧ o.list = s.mutexes.of m) :
    Within may s₀ i s { s with mutexes := s.mutexes.lock i m } := by
  refine .mutexes hs (Mutexes.tidy_lock hs.tidy hm)
    (fun j hj => Mutexes.spares_lock hfree hj) fun l h => ?_
  rcases Mutexes.inside_lock h with h | ⟨-, rfl⟩
  · exact .inl h
  · exact .inr ⟨halone, hcall⟩

theorem Within.unlock (hs : Sound may s₀ s) (hm : s.mutexes.status m = .held i) :
    Within may s₀ i s { s with mutexes := s.mutexes.unlock m } := by
  refine .mutexes hs (Mutexes.tidy_unlock hs.tidy) (fun j hj => Mutexes.spares_unlock ?_)
    fun l h => .inl (Mutexes.inside_unlock h)
  rw [hm]
  simpa using hj.symm

/-- The first node of a list. -/
theorem Within.setHead (hs : Sound may s₀ s) (hin : s.mutexes.Inside i l) (hc : s.Chain l [])
    (hp : s.Own i p) (hnext : s.next p = none)
    (hcall : ∃ o, may i o ∧ o.list = l ∧ o.entry? = some (s.data p)) :
    let s' := { s with head := Function.update s.head l (some p) }
    Within may s₀ i s s' ∧ s'.Has l (s.data p) := by
  have hc' : Path s.next (Function.update s.head l (some p) l) [p] := by
    rw [Function.update_self]
    exact ⟨rfl, hnext⟩
  refine ⟨.relink hs hin ⟨hc, hc', fun l' d hl hd => ?_, fun _ _ => rfl, fun q hq => ?_,
    fun _ => List.nil_prefix⟩, [p], hc', p, List.mem_singleton_self p, rfl⟩
  · rwa [Function.update_of_ne hl]
  · rw [List.mem_singleton.mp hq]
    exact .inr ⟨hp, hcall⟩

omit [DecidableEq L] in
/-- A node after the last. -/
theorem Within.append (hs : Sound may s₀ s) (hin : s.mutexes.Inside i l)
    (hc : s.Chain l (c ++ [t])) (hp : s.Own i p) (hnext : s.next p = none)
    (hcall : ∃ o, may i o ∧ o.list = l ∧ o.entry? = some (s.data p)) :
    let s' := { s with next := Function.update s.next t (some p) }
    Within may s₀ i s s' ∧ s'.Has l (s.data p) ∧ s'.Chain l (c ++ [t, p]) := by
  have ht : t ∈ c ++ [t] := by simp
  have htp : t ≠ p := by
    rintro rfl
    exact hp.loose l _ hc ht
  have hc' : Path (Function.update s.next t (some p)) (s.head l) (c ++ [t, p]) :=
    hc.relink ⟨rfl, hnext⟩ (by simpa using htp)
  refine ⟨.relink hs hin ⟨hc, hc', fun l' d hl hd => (Path.update fun htd => ?_).mpr hd,
    fun q hq => ?_, fun q hq => ?_, fun _ => ⟨[p], by simp⟩⟩, ⟨_, hc', p, by simp, rfl⟩, hc'⟩
  · exact hl (hs.shaped.apart l' l d _ t hd hc htd ht)
  · refine Function.update_of_ne ?_ _ _
    rintro rfl
    exact hq ht
  · have hcase : q ∈ c ++ [t] ∨ q = p := by simpa [or_assoc] using hq
    rcases hcase with h | rfl
    · exact .inl h
    · exact .inr ⟨hp, hcall⟩

/-- The first node is taken off. -/
theorem Within.dropHead (hs : Sound may s₀ s) (hin : s.mutexes.Inside i l)
    (hc : s.Chain l (p :: c)) (hno : ¬ Inserting may) :
    Within may s₀ i s { s with head := Function.update s.head l (s.next p) } := by
  have hc' : Path s.next (Function.update s.head l (s.next p) l) c := by
    rw [Function.update_self]
    exact hc.2
  refine .relink hs hin ⟨hc, hc', fun l' d hl hd => ?_, fun _ _ => rfl,
    fun q hq => .inl (List.mem_cons_of_mem _ hq), fun h => absurd h hno⟩
  rwa [Function.update_of_ne hl]

omit [DecidableEq L] in
/-- The node after another one is taken off. -/
theorem Within.dropNext (hs : Sound may s₀ s) (hin : s.mutexes.Inside i l)
    (hc : s.Chain l (c ++ t :: p :: d)) (hno : ¬ Inserting may) :
    Within may s₀ i s { s with next := Function.update s.next t (s.next p) } := by
  have ht : t ∈ c ++ t :: p :: d := by simp
  have hrest : Path s.next (s.next p) d := hc.rest.2.2
  have hnodup := (List.nodup_append.mp hc.nodup).2.1
  have htd : t ∉ d := fun h => (List.nodup_cons.mp hnodup).1 (List.mem_cons_of_mem _ h)
  have hc' : Path (Function.update s.next t (s.next p)) (s.head l) (c ++ t :: d) :=
    hc.relink hrest htd
  refine .relink hs hin ⟨hc, hc', fun l' d' hl hd => (Path.update fun htd => ?_).mpr hd,
    fun q hq => ?_, fun q hq => .inl ?_, fun h => absurd h hno⟩
  · exact hl (hs.shaped.apart l' l d' _ t hd hc htd ht)
  · refine Function.update_of_ne ?_ _ _
    rintro rfl
    exact hq ht
  · rcases List.mem_append.mp hq with h | h
    · exact List.mem_append_left _ h
    · rcases List.mem_cons.mp h with rfl | h
      · exact ht
      · simp [h]

end Writes
end StepFacts

/-! ## The outline of a call -/

section Outlines
variable {L ι : Type} {may : ι → ListCall L → Prop} {s₀ s s' : Memory L ι} {i : ι}
  {l : L} {c d : List Ptr} {p q t : Ptr} {e : Entry} {m : Mutex L} {α β : Type}

/-- A mutex argument for the list `l`. -/
structure Memory.Passed (s : Memory L ι) (l : L) (m : Mutex L) : Prop where
  made : s.mutexes.Made m
  of : s.mutexes.of m = l

/-- `i` has locked its argument. -/
structure Memory.Locked (s : Memory L ι) (i : ι) (l : L) (m : Mutex L) : Prop
    extends s.Passed l m where
  held : s.mutexes.status m = .held i

/-- A new node of `i`, with its record and without a link. -/
structure Memory.New (s : Memory L ι) (i : ι) (p : Ptr) (e : Entry) : Prop extends s.Own i p where
  data : s.data p = e
  next : s.next p = none

/-- What a walk has found. -/
def Memory.Walked (s : Memory L ι) (l : L) (test : Entry → Bool) : Option (Ptr × Bool) → Prop
  | none => s.Chain l []
  | some (_, true) => ∃ e, s.Has l e ∧ test e = true
  | some (t, false) => ∃ c, s.Chain l (c ++ [t])

/-- What the search of `removeNode` has found. -/
def Memory.Sought (s : Memory L ι) (l : L) (node : Ptr) : Place → Prop
  | .head => ∃ d, s.Chain l (node :: d)
  | .after t => ∃ c d, s.Chain l (c ++ t :: node :: d)
  | _ => True

/-- The list has the record, or one that stands in its way. -/
def Memory.Lists (s : Memory L ι) (l : L) (e : Entry) : Prop :=
  ∃ e', s.Has l e' ∧ (e' = e ∨ e.clashes e' = true)

theorem Evolves.lists (h : Evolves may s s') (hs : s.Shaped) (hgrow : Inserting may)
    (hlists : s.Lists l e) : s'.Lists l e := by
  obtain ⟨e', hhas, he⟩ := hlists
  exact ⟨e', h.has hs hgrow hhas, he⟩

variable (may) in
/-- The others have been at work, and `i` perhaps at something that does not change what
it was spared. -/
structure Later (i : ι) (s s' : Memory L ι) : Prop where
  evolves : Evolves may s s'
  spares : Spares i s s'

theorem Later.trans {s'' : Memory L ι} (h : Later may i s s') (h' : Later may i s' s'') :
    Later may i s s'' := ⟨h.evolves.trans h'.evolves, h.spares.trans h'.spares⟩

theorem Memory.Passed.later (h : s.Passed l m) (hs : Later may i s s') : s'.Passed l m :=
  ⟨hs.spares.mutexes.made h.made, (hs.spares.mutexes.of_eq h.made).trans h.of⟩

theorem Memory.Locked.later (h : s.Locked i l m) (hs : Later may i s s') : s'.Locked i l m :=
  ⟨h.toPassed.later hs, (hs.spares.mutexes.held m).mpr h.held⟩

theorem Memory.Locked.inside (h : s.Locked i l m) : s.mutexes.Inside i l :=
  ⟨m, h.made, h.of, h.held⟩

theorem Memory.New.later (h : s.New i p e) (hs : Later may i s s') : s'.New i p e := by
  obtain ⟨hown, hnext⟩ := hs.spares.own p h.toOwn
  exact ⟨hown, (hs.evolves.data p h.used).trans h.data, hnext.trans h.next⟩

theorem Memory.New.mutexes (h : s.New i p e) (x : Mutexes L ι) :
    { s with mutexes := x }.New i p e := ⟨⟨h.used, h.owner, h.loose⟩, h.data, h.next⟩

/-- What is left of a call's effect: a record of its key is in the list, as long as nothing
is removed. -/
def ListCall.Done (may : ι → ListCall L → Prop) (o : ListCall L) (s : Memory L ι) : Prop :=
  ∀ e, o.entry? = some e → Inserting may → s.Lists o.list e

theorem ListCall.Done.intro {o : ListCall L} (he : o.entry? = some e)
    (h : Inserting may → s.Lists o.list e) : o.Done may s := by
  intro e' he' hgrow
  obtain rfl : e = e' := Option.some.inj (he.symm.trans he')
  exact h hgrow

theorem ListCall.Done.of_none {o : ListCall L} (h : o.entry? = none) : o.Done may s := by
  intro e he
  cases h.symm.trans he

variable [DecidableEq L]

variable (may) in
/-- Who locks a mutex was called to change its list. -/
def Access.Called : Access L ι → Memory L ι → Prop
  | .lock i m, s => ∃ o, may i o ∧ o.list = s.mutexes.of m
  | _, _ => True

/-- A mutex is locked while nobody else is inside its list. -/
def Access.Alone : Access L ι → Memory L ι → Prop
  | .lock i m, s => ∀ j, j ≠ i → ¬ s.mutexes.Inside j (s.mutexes.of m)
  | _, _ => True

variable (may s₀) in
abbrev Fine (i : ι) (Q : α → Memory L ι → Prop) (p : Steps L ι α) (s : Memory L ι) : Prop :=
  accesses.Fulfils (contract may s₀) i Access.Alone (Access.Called may) Q p s

variable {Q : β → Memory L ι → Prop}

theorem fine_pass {f : Mutex L → Steps L ι β} (hm : s.Passed l m)
    (h : ∀ m' s', Later may i s s' → s'.Passed l m' → Fine may s₀ i Q (f m') s') :
    Fine may s₀ i Q (step (.pass m) >>= f) s := by
  refine .call_bind fun s₁ hev hsp hs => ⟨trivial, fun _ => ⟨Within.obeys ?_, ?_⟩⟩
  · intro b s' es he
    cases he
    exact .pass hs
  · intro b s' es he
    cases he
    have hlater : Later may i s s₁ := ⟨hev, hsp⟩
    have hpass : Later may i s₁ { s₁ with mutexes := s₁.mutexes.pass m } :=
      ⟨(Within.pass hs (i := i)).evolves, Mutexes.spares_pass hs.tidy, fun _ _ _ hc => hc,
        fun p hp => ⟨⟨hp.used, hp.owner, hp.loose⟩, rfl⟩⟩
    exact h _ _ (hlater.trans hpass)
      ⟨Mutexes.made_pass, Mutexes.of_pass.trans (hm.later hlater).of⟩

theorem fine_lock {f : Unit → Steps L ι β} (hm : s.Passed l m) (hcall : ∃ o, may i o ∧ o.list = l)
    (h : ∀ s', Evolves may s s' → (∀ p e, s.New i p e → s'.New i p e) → s'.Locked i l m →
      Fine may s₀ i Q (f ()) s') :
    Fine may s₀ i Q (step (.lock i m) >>= f) s := by
  refine .call_bind fun s₁ hev hsp hs => ?_
  have hlater : Later may i s s₁ := ⟨hev, hsp⟩
  have hm₁ := hm.later hlater
  have hcall₁ : ∃ o, may i o ∧ o.list = s₁.mutexes.of m := hm₁.of.symm ▸ hcall
  have hexec {b s' es} (he : (Access.lock i m).exec s₁ = .ok (b, s', es)) :
      s₁.mutexes.status m = .free ∧ s' = { s₁ with mutexes := s₁.mutexes.lock i m } := by
    rw [Access.exec] at he
    split at he
    · cases he
      exact ⟨‹_›, rfl⟩
    · cases he
  refine ⟨hcall₁, fun halone => ⟨Within.obeys ?_, ?_⟩⟩
  · intro b s' es he
    obtain ⟨hfree, rfl⟩ := hexec he
    exact .lock hs hm₁.made hfree halone hcall₁
  · intro b s' es he
    obtain ⟨hfree, rfl⟩ := hexec he
    refine h _ (hlater.evolves.trans (Within.lock hs hm₁.made hfree halone hcall₁).evolves)
      (fun p e hp => (hp.later hlater).mutexes _) ⟨⟨?_, ?_⟩, ?_⟩
    · exact Mutexes.made_lock.mpr hm₁.made
    · rw [Mutexes.of_lock, hm₁.of]
    · exact Mutexes.status_lock

theorem fine_unlock {f : Unit → Steps L ι β} (hm : s.Locked i l m)
    (h : ∀ s', Evolves may s s' → s'.Passed l m → Fine may s₀ i Q (f ()) s') :
    Fine may s₀ i Q (step (.unlock m) >>= f) s := by
  refine .call_bind fun s₁ hev hsp hs => ?_
  have hlater : Later may i s s₁ := ⟨hev, hsp⟩
  have hm₁ := hm.later hlater
  have hwithin := Within.unlock hs hm₁.held
  refine ⟨trivial, fun _ => ⟨Within.obeys ?_, ?_⟩⟩
  · intro b s' es he
    cases he
    exact hwithin
  · intro b s' es he
    cases he
    refine h _ (hlater.evolves.trans hwithin.evolves) ⟨?_, ?_⟩
    · exact Mutexes.made_unlock.mpr hm₁.made
    · rw [Mutexes.of_unlock, hm₁.of]

theorem fine_malloc {f : Ptr → Steps L ι β}
    (h : ∀ p s', Later may i s s' → s'.New i p e → Fine may s₀ i Q (f p) s') :
    Fine may s₀ i Q (step (.malloc i e) >>= f) s := by
  refine .call_bind fun s₁ hev hsp hs => ?_
  obtain ⟨hwithin, hspares, hown, hdata, hnext⟩ := Within.malloc hs (i := i) (e := e)
  refine ⟨trivial, fun _ => ⟨Within.obeys ?_, ?_⟩⟩
  · intro b s' es he
    cases he
    exact hwithin
  · intro b s' es he
    cases he
    have hlater : Later may i s s₁ := ⟨hev, hsp⟩
    exact h _ _ (hlater.trans ⟨hwithin.evolves, hspares i⟩) ⟨hown, hdata, hnext⟩

/-- A step that leaves everything as it was. -/
theorem fine_still {o : Access L ι} {f : o.Ar → Steps L ι β}
    (hcalled : ∀ s, Access.Called may o s)
    (hsame : ∀ s₁, Later may i s s₁ → ∀ b s' es, o.exec s₁ = .ok (b, s', es) → s' = s₁)
    (h : ∀ s₁ b es, Later may i s s₁ → Sound may s₀ s₁ → o.exec s₁ = .ok (b, s₁, es) →
      Fine may s₀ i Q (f b) s₁) :
    Fine may s₀ i Q (step o >>= f) s := by
  refine .call_bind fun s₁ hev hsp hs => ⟨hcalled s₁, fun _ => ⟨Within.obeys ?_, ?_⟩⟩
  · intro b s' es he
    rw [hsame s₁ ⟨hev, hsp⟩ b s' es he]
    exact .refl hs
  · intro b s' es he
    obtain rfl := hsame s₁ ⟨hev, hsp⟩ b s' es he
    exact h _ b es ⟨hev, hsp⟩ hs he

theorem fine_clear {f : Unit → Steps L ι β} (hnext : ∀ s₁, Later may i s s₁ → s₁.next p = none)
    (h : ∀ s', Later may i s s' → Fine may s₀ i Q (f ()) s') :
    Fine may s₀ i Q (step (.setNext p none) >>= f) s := by
  refine fine_still (fun _ => trivial) (fun s₁ hs₁ b s' es he => ?_) fun s₁ _ _ hs₁ _ _ => h s₁ hs₁
  cases he
  exact Memory.setNext_self (hnext s₁ hs₁)

theorem fine_walk {test : Entry → Bool} {f : Option (Ptr × Bool) → Steps L ι β}
    (h : ∀ r s', Later may i s s' → Sound may s₀ s' → s'.Walked l test r → Fine may s₀ i Q (f r) s') :
    Fine may s₀ i Q (step (.walk l test) >>= f) s := by
  refine fine_still (fun _ => trivial) (fun s₁ _ b s' es he => ?_) fun s₁ r es hs₁ hs he => ?_
  · simp only [Access.exec] at he
    split at he
    · cases he
      rfl
    · split at he <;> cases he
      rfl
  · refine h r s₁ hs₁ hs ?_
    obtain ⟨c, hc⟩ := hs.shaped.lists l
    simp only [Access.exec] at he
    split at he
    · rename_i hhead
      cases he
      exact hhead
    · rename_i p hhead
      split at he
      · cases he
      · rename_i r' hwalk
        cases he
        obtain ⟨q, b⟩ := r'
        have hpath : Path s₁.next (some p) c := hhead ▸ hc
        obtain ⟨c₁, c₂, rfl, htest, hend⟩ := Memory.walk_some hpath hwalk
        cases b with
        | true => exact ⟨_, ⟨_, hc, q, by simp, rfl⟩, htest rfl⟩
        | false => exact ⟨c₁, by rwa [← hend rfl]⟩

theorem fine_seek {node : Ptr} {f : Place → Steps L ι β}
    (h : ∀ r s', Later may i s s' → s'.Sought l node r → Fine may s₀ i Q (f r) s') :
    Fine may s₀ i Q (step (.seek l node) >>= f) s := by
  refine fine_still (fun _ => trivial) (fun s₁ _ b s' es he => ?_) fun s₁ r es hs₁ hs he => ?_
  · simp only [Access.exec] at he
    split at he
    · cases he
      rfl
    · split at he
      · cases he
        rfl
      · split at he <;> cases he <;> rfl
  · refine h r s₁ hs₁ ?_
    obtain ⟨c, hc⟩ := hs.shaped.lists l
    simp only [Access.exec] at he
    split at he
    · cases he
      exact trivial
    · rename_i p hhead
      split at he
      · rename_i hnode
        cases he
        subst hnode
        cases c with
        | nil => cases hhead.symm.trans hc
        | cons q d =>
          obtain rfl : p = q := Option.some.inj (hhead.symm.trans hc.1)
          exact ⟨d, hc⟩
      · have hpath : Path s₁.next (some p) c := hhead ▸ hc
        split at he
        · cases he
        · cases he
          exact trivial
        · rename_i q hseek
          cases he
          obtain ⟨c₁, c₂, rfl⟩ := Memory.seek_after hpath hseek
          exact ⟨c₁, c₂, hc⟩

/-- A step that writes to a list. -/
theorem fine_write {o : Access L ι} {f : o.Ar → Steps L ι β}
    (hcalled : ∀ s, Access.Called may o s)
    (h : ∀ s₁, Later may i s s₁ → Sound may s₀ s₁ → ∀ b s' es, o.exec s₁ = .ok (b, s', es) →
      Within may s₀ i s₁ s' ∧ (Sound may s₀ s' → Fine may s₀ i Q (f b) s')) :
    Fine may s₀ i Q (step o >>= f) s := by
  refine .call_bind fun s₁ hev hsp hs => ⟨hcalled s₁, fun _ => ⟨Within.obeys ?_, ?_⟩⟩
  · exact fun b s' es he => (h s₁ ⟨hev, hsp⟩ hs b s' es he).1
  · intro b s' es he
    obtain ⟨hwithin, hrest⟩ := h s₁ ⟨hev, hsp⟩ hs b s' es he
    exact hrest hwithin.sound

theorem fine_setHead {f : Unit → Steps L ι β} (hm : s.Locked i l m) (hc : s.Chain l [])
    (hp : s.New i p e) (hcall : ∃ o, may i o ∧ o.list = l ∧ o.entry? = some e)
    (h : ∀ s', Sound may s₀ s' → s'.Locked i l m → s'.Has l e → Fine may s₀ i Q (f ()) s') :
    Fine may s₀ i Q (step (.setHead l p) >>= f) s := by
  refine fine_write (fun _ => trivial) fun s₁ hs₁ hs b s' es he => ?_
  cases he
  have hm₁ := hm.later hs₁
  have hp₁ := hp.later hs₁
  obtain ⟨hwithin, hhas⟩ := Within.setHead hs hm₁.inside (hs₁.spares.chain l _ hm.inside hc)
    hp₁.toOwn hp₁.next (hp₁.data ▸ hcall)
  rw [hp₁.data] at hhas
  exact ⟨hwithin, fun hsound => h _ hsound ⟨⟨hm₁.made, hm₁.of⟩, hm₁.held⟩ hhas⟩

theorem fine_append {f : Unit → Steps L ι β} (hm : s.Locked i l m) (hc : s.Chain l (c ++ [t]))
    (hp : s.New i p e) (hcall : ∃ o, may i o ∧ o.list = l ∧ o.entry? = some e)
    (h : ∀ s', Sound may s₀ s' → s'.Locked i l m → s'.Has l e → s'.Chain l (c ++ [t, p]) →
      Fine may s₀ i Q (f ()) s') :
    Fine may s₀ i Q (step (.setNext t (some p)) >>= f) s := by
  refine fine_write (fun _ => trivial) fun s₁ hs₁ hs b s' es he => ?_
  cases he
  have hm₁ := hm.later hs₁
  have hp₁ := hp.later hs₁
  obtain ⟨hwithin, hhas, hchain⟩ := Within.append hs hm₁.inside
    (hs₁.spares.chain l _ hm.inside hc) hp₁.toOwn hp₁.next (hp₁.data ▸ hcall)
  rw [hp₁.data] at hhas
  exact ⟨hwithin, fun hsound => h _ hsound ⟨⟨hm₁.made, hm₁.of⟩, hm₁.held⟩ hhas hchain⟩

/-- A call lets go of its mutex. -/
theorem fine_return {Q : Int → Memory L ι → Prop} {r : Int} (hm : s.Locked i l m)
    (hQ : ∀ s', Evolves may s s' → Q r s') :
    Fine may s₀ i Q (step (.unlock m) >>= fun _ => pure r) s :=
  fine_unlock hm fun s' hs' _ => hQ s' hs'

theorem fine_insertNode (hm : s.Passed l m) (hp : s.New i p e) (hcall : may i (.insertNode l e)) :
    Fine may s₀ i (fun _ s => Inserting may → s.Lists l e) (insertNode i l p m) s := by
  have hdone {s s' : Memory L ι} (hs : Sound may s₀ s) (hhas : s.Has l e)
      (hev : Evolves may s s') (hgrow : Inserting may) : s'.Lists l e :=
    hev.lists hs.shaped hgrow ⟨e, hhas, .inl rfl⟩
  have hcalls : ∃ o, may i o ∧ o.list = l ∧ o.entry? = some e := ⟨_, hcall, rfl, rfl⟩
  refine fine_lock hm ⟨_, hcall, rfl⟩ fun s _ hnew hm => ?_
  have hp := hnew p e hp
  refine fine_walk fun r s' hs' hs hr => ?_
  have hm := hm.later hs'
  have hp := hp.later hs'
  rcases r with _ | ⟨t, b⟩
  · refine fine_clear (fun s₁ hs₁ => (hp.later hs₁).next) fun s' hs' => ?_
    have hempty : s'.Chain l [] := hs'.spares.chain l _ hm.inside hr
    refine fine_setHead (hm.later hs') hempty (hp.later hs') hcalls fun s' hs hm hhas => ?_
    exact fine_return hm fun s' hev => hdone hs hhas hev
  · cases b with
    | true =>
      -- no record passes a test that is never passed
      obtain ⟨_, -, hfalse⟩ := hr
      cases hfalse
    | false =>
      obtain ⟨c, hc⟩ := hr
      refine fine_append hm hc hp hcalls fun s' hs hm hhas hc => ?_
      refine fine_clear (fun s₁ hs₁ => ?_) fun s' hs' => ?_
      · have hlast : s₁.Chain l ((c ++ [t]) ++ [p]) := by
          rw [List.append_assoc]
          exact hs₁.spares.chain l _ hm.inside hc
        exact hlast.next_last
      · exact fine_return (hm.later hs') fun s'' hev => hdone hs hhas (hs'.evolves.trans hev)

theorem fine_insertUser {u : Str} (hm : s.Passed l m) (hcall : may i (.insertUser l u)) :
    Fine may s₀ i (fun _ s => Inserting may → s.Lists l (.user u)) (insertUser i l u m) s := by
  have hcalls : ∃ o, may i o ∧ o.list = l ∧ o.entry? = some (.user u) := ⟨_, hcall, rfl, rfl⟩
  refine fine_lock hm ⟨_, hcall, rfl⟩ fun s _ _ hm => ?_
  refine fine_malloc fun p s' hs' hp => ?_
  have hm := hm.later hs'
  refine fine_walk fun r s' hs' hs hr => ?_
  have hm := hm.later hs'
  have hp := hp.later hs'
  rcases r with _ | ⟨t, b⟩
  · refine fine_setHead hm hr hp hcalls fun s' hs hm hhas => ?_
    exact fine_return hm fun s' hev hgrow => hev.lists hs.shaped hgrow ⟨_, hhas, .inl rfl⟩
  · cases b with
    | true =>
      obtain ⟨e, hhas, htest⟩ := hr
      exact fine_return hm fun s' hev hgrow => hev.lists hs.shaped hgrow ⟨e, hhas, .inr htest⟩
    | false =>
      obtain ⟨c, hc⟩ := hr
      refine fine_append hm hc hp hcalls fun s' hs hm hhas _ => ?_
      exact fine_return hm fun s' hev hgrow => hev.lists hs.shaped hgrow ⟨_, hhas, .inl rfl⟩

theorem fine_insertRoom {ID : Int} {name : Str} (hm : s.Passed l m)
    (hcall : may i (.insertRoom l ID name)) :
    Fine may s₀ i (fun _ s => Inserting may → s.Lists l (.room ID name))
      (insertRoom i l ID name m) s := by
  have hcalls : ∃ o, may i o ∧ o.list = l ∧ o.entry? = some (.room ID name) :=
    ⟨_, hcall, rfl, rfl⟩
  refine fine_lock hm ⟨_, hcall, rfl⟩ fun s _ _ hm => ?_
  refine fine_walk fun r s' hs' hs hr => ?_
  have hm := hm.later hs'
  rcases r with _ | ⟨t, b⟩
  · refine fine_malloc fun p s' hs₁ hp => ?_
    refine fine_clear (fun s₁ hs₁ => (hp.later hs₁).next) fun s' hs₂ => ?_
    have hempty : s'.Chain l [] := (hs₁.trans hs₂).spares.chain l _ hm.inside hr
    refine fine_setHead (hm.later (hs₁.trans hs₂)) hempty (hp.later hs₂) hcalls
      fun s' hs hm hhas => ?_
    exact fine_return hm fun s' hev hgrow => hev.lists hs.shaped hgrow ⟨_, hhas, .inl rfl⟩
  · cases b with
    | true =>
      obtain ⟨e, hhas, htest⟩ := hr
      exact fine_return hm fun s' hev hgrow => hev.lists hs.shaped hgrow ⟨e, hhas, .inr htest⟩
    | false =>
      obtain ⟨c, hc⟩ := hr
      refine fine_malloc fun p s' hs₁ hp => ?_
      refine fine_clear (fun s₁ hs₁ => (hp.later hs₁).next) fun s' hs₂ => ?_
      have hchain : s'.Chain l (c ++ [t]) := (hs₁.trans hs₂).spares.chain l _ hm.inside hc
      refine fine_append (hm.later (hs₁.trans hs₂)) hchain (hp.later hs₂) hcalls
        fun s' hs hm hhas _ => ?_
      exact fine_return hm fun s' hev hgrow => hev.lists hs.shaped hgrow ⟨_, hhas, .inl rfl⟩

theorem fine_removeNode {node : Ptr} {Q : Int → Memory L ι → Prop} (hm : s.Passed l m)
    (hcall : ∃ o, may i o ∧ o.list = l) (hno : ¬ Inserting may) (hQ : ∀ r s, Q r s) :
    Fine may s₀ i Q (removeNode i l node m) s := by
  refine fine_lock hm hcall fun s _ _ hm => ?_
  refine fine_seek fun r s' hs' hr => ?_
  have hm := hm.later hs'
  cases r with
  | empty => exact fine_return hm fun s' _ => hQ _ s'
  | missing => exact fine_return hm fun s' _ => hQ _ s'
  | head =>
    obtain ⟨d, hd⟩ := hr
    refine fine_write (fun _ => trivial) fun s₁ hs₁ hs b s' es he => ?_
    cases he
    have hm₁ := hm.later hs₁
    refine ⟨.dropHead hs hm₁.inside (hs₁.spares.chain l _ hm.inside hd) hno, fun _ => ?_⟩
    exact fine_return ⟨⟨hm₁.made, hm₁.of⟩, hm₁.held⟩ fun s' _ => hQ _ s'
  | after t =>
    obtain ⟨c, d, hc⟩ := hr
    refine fine_write (fun _ => trivial) fun s₁ hs₁ hs b s' es he => ?_
    have hm₁ := hm.later hs₁
    have hc₁ : s₁.Chain l (c ++ t :: node :: d) := hs₁.spares.chain l _ hm.inside hc
    have hnext : s₁.next t = some node := hc₁.rest.2.1
    simp only [Access.exec, hnext] at he
    cases he
    refine ⟨.dropNext hs hm₁.inside hc₁ hno, fun _ => ?_⟩
    exact fine_return ⟨⟨hm₁.made, hm₁.of⟩, hm₁.held⟩ fun s' _ => hQ _ s'

theorem fine_removeUser {u : Str} {Q : Int → Memory L ι → Prop} (hm : s.Passed l m)
    (hcall : ∃ o, may i o ∧ o.list = l) (hno : ¬ Inserting may) (hQ : ∀ r s, Q r s) :
    Fine may s₀ i Q (removeUser i l u m) s := by
  refine fine_lock hm hcall fun s _ _ hm => ?_
  refine fine_walk fun r s' hs' hs hr => ?_
  have hm := hm.later hs'
  rcases r with _ | ⟨t, b⟩
  · exact fine_return hm fun s' _ => hQ _ s'
  · cases b with
    | true =>
      refine fine_unlock hm fun s' _ hm => fine_pass hm fun m' s' _ hm' => ?_
      exact (fine_removeNode (Q := fun _ _ => True) hm' hcall hno fun _ _ => trivial).bind
        fun _ s' _ => hQ _ s'
    | false => exact fine_return hm fun s' _ => hQ _ s'

/-- **A call does its work** where nobody is inside its list when it locks the mutex. -/
theorem fine_steps {o : ListCall L} (hcall : may i o) :
    Fine may s₀ i (fun _ s => o.Done may s) (o.steps i) s := by
  have hshared (s : Memory L ι) (l : L) : s.Passed l (.shared l) := ⟨trivial, rfl⟩
  have hno (h : o.entry? = none) : ¬ Inserting may := fun hgrow => hgrow i o hcall h
  cases o with
  | insertNode l e =>
    refine fine_malloc fun p s' _ hp => ?_
    refine fine_clear (fun s₁ hs₁ => (hp.later hs₁).next) fun s' hs₁ => ?_
    refine fine_pass (hshared _ l) fun m s' hs₂ hm => ?_
    exact (fine_insertNode hm (hp.later (hs₁.trans hs₂)) hcall).mono fun _ _ h => .intro rfl h
  | insertUser l u =>
    refine fine_pass (hshared _ l) fun m s' _ hm => ?_
    exact (fine_insertUser hm hcall).mono fun _ _ h => .intro rfl h
  | insertRoom l ID name =>
    refine fine_pass (hshared _ l) fun m s' _ hm => ?_
    exact (fine_insertRoom hm hcall).mono fun _ _ h => .intro rfl h
  | removeUser l u =>
    refine fine_pass (hshared _ l) fun m s' _ hm => ?_
    exact fine_removeUser hm ⟨_, hcall, rfl⟩ (hno rfl) fun _ _ => .of_none rfl
  | removeNode l p =>
    refine fine_pass (hshared _ l) fun m s' _ hm => ?_
    exact fine_removeNode hm ⟨_, hcall, rfl⟩ (hno rfl) fun _ _ => .of_none rfl

end Outlines

/-! ## All interleavings -/

section Races
variable {L ι : Type} (may : ι → ListCall L → Prop) (s₀ : Memory L ι)

/-- The memory while no call is under way. -/
structure Memory.Ready (s : Memory L ι) : Prop extends s.Shaped where
  free : ∀ m, s.mutexes.status m = .free

/-- A thread that has come to the end of a call keeps what it was and what it returned. -/
abbrev Threads (L ι : Type) :=
  Pool ι (Access L ι) Access.Ar (Memory L ι) (Option (ListCall L × Int))

/-- A thread begins one of the calls that it may make. -/
def Begins (i : ι) (_ : Option (ListCall L × Int))
    (p : Steps L ι (Option (ListCall L × Int))) : Prop :=
  ∃ o, may i o ∧ p = (o.steps i >>= fun r => pure (some (o, r)))

def Threads.idle : Threads L ι := ⟨s₀, fun _ => .ret none⟩

/-- At most one thread is between the lock and the unlock of a list. -/
def Exclusive (s : Memory L ι) : Prop :=
  ∀ l i j, s.mutexes.Inside i l → s.mutexes.Inside j l → i = j

/-- Inserts of pairwise different keys, none of them there already. -/
structure Distinct : Prop where
  inserting : Inserting may
  keys : ∀ i j o o' e e', may i o → may j o' → o.list = o'.list → o.entry? = some e →
    o'.entry? = some e' → e.clashes e' = true → i = j ∧ o = o'
  fresh : ∀ i o e e', may i o → o.entry? = some e → s₀.Has o.list e' → e.clashes e' = false

/-- The calls exclude one another in the interleavings `runs`: at most one thread is inside
a list, and what inserts of different keys have added is in the list from then on. -/
structure Excludes (runs : Threads L ι → Threads L ι → Prop) : Prop where
  exclusive : ∀ w, runs (.idle s₀) w → Exclusive w.state
  kept : Distinct may s₀ → ∀ w w' i o r e, runs (.idle s₀) w → runs w w' →
    w.thread i = .ret (some (o, r)) → o.entry? = some e → w'.state.Has o.list e

variable {may s₀}

/-- Where keys are different, what stands in the way of a record is the record itself. -/
theorem Distinct.has {s : Memory L ι} {i : ι} {o : ListCall L} {e : Entry}
    (h : Distinct may s₀) (hs : Sound may s₀ s) (hcall : may i o) (he : o.entry? = some e)
    (hlists : s.Lists o.list e) : s.Has o.list e := by
  obtain ⟨e', hhas, hsame | hclash⟩ := hlists
  · rwa [← hsame]
  · rcases hs.entries o.list e' hhas with hold | ⟨j, o', hcall', hlist, he'⟩
    · cases (h.fresh i o e e' hcall he hold).symm.trans hclash
    · obtain ⟨-, rfl⟩ := h.keys i j o o' e e' hcall hcall' hlist.symm he he' hclash
      rwa [Option.some.inj (he.symm.trans he')]

variable (may) in
/-- The last call of `i` was one that it may make, and it is done. -/
def LastDone (i : ι) (a : Option (ListCall L × Int)) (s : Memory L ι) : Prop :=
  ∀ o r, a = some (o, r) → may i o ∧ o.Done may s

variable [DecidableEq L] {w w' : Threads L ι}

variable (may s₀) in
/-- What holds of the threads, whatever they are about to do. -/
def Outlined (w : Threads L ι) : Prop :=
  Sound may s₀ w.state ∧ ∀ i, Fine may s₀ i (LastDone may i) (w.thread i) w.state

theorem Outlined.idle (hs₀ : s₀.Ready) : Outlined may s₀ (.idle s₀) := by
  have hnobody (i : ι) (l : L) : ¬ s₀.mutexes.Inside i l := by
    rintro ⟨m, -, -, hheld⟩
    cases (hs₀.free m).symm.trans hheld
  refine ⟨⟨hs₀.toShaped, fun m hm => absurd (hs₀.free m) hm, ?_, ?_, fun _ _ h => .inl h⟩, ?_⟩
  · exact fun i j l hi => absurd hi (hnobody i l)
  · exact fun i l hi => absurd hi (hnobody i l)
  · intro i o r ha
    cases ha

variable [DecidableEq ι]

theorem Outlined.turns (hw : Outlined may s₀ w)
    (h : accesses.TurnsWhen Access.Alone (Begins may) w w') :
    Outlined may s₀ w' ∧ Evolves may w.state w'.state := by
  have hholds (i : ι) : Semantics.Holds (contract may s₀) i (LastDone may i) := by
    intro a s s' hs hev _ hdone o r ha
    obtain ⟨hcall, hdone⟩ := hdone o r ha
    exact ⟨hcall, fun e he hgrow => Evolves.lists hev hs.shaped hgrow (hdone e he hgrow)⟩
  have hstart (i : ι) (a : Option (ListCall L × Int)) (p : Steps L ι _) (s : Memory L ι)
      (_ : Sound may s₀ s) (_ : LastDone may i a s) (hp : Begins may i a p) :
      Fine may s₀ i (LastDone may i) p s := by
    obtain ⟨o, hcall, rfl⟩ := hp
    refine (fine_steps hcall).bind fun r s' hdone o' r' ha => ?_
    cases ha
    exact ⟨hcall, hdone⟩
  obtain ⟨hs, hev, hfine⟩ := h.fulfils hholds hstart hw.1 hw.2
  exact ⟨⟨hs, hfine⟩, hev⟩

/-- **Where each call finds its list free, the calls exclude one another.** -/
theorem excludes_alone (hs₀ : s₀.Ready) :
    Excludes may s₀ (accesses.TurnsWhen Access.Alone (Begins may)) where
  exclusive w hw := by
    obtain ⟨⟨hs, -⟩, -⟩ := (Outlined.idle hs₀).turns hw
    exact fun l i j hi hj => hs.exclusive i j l hi hj
  kept hdistinct w w' i o r e hw hw' hi he := by
    obtain ⟨hout, -⟩ := (Outlined.idle hs₀).turns hw
    obtain ⟨⟨hs', -⟩, hev⟩ := hout.turns hw'
    obtain ⟨hcall, hdone⟩ := (hout.2 i).returned hi o r rfl
    have hlists := hev.lists hout.1.shaped hdistinct.inserting (hdone e he hdistinct.inserting)
    exact hdistinct.has hs' hcall he hlists

variable (may) in
/-- Each list is the business of one thread. -/
def Private : Prop := ∀ i j o o', may i o → may j o' → o.list = o'.list → i = j

/-- Threads that keep to lists of their own find them free. -/
theorem Private.alone (hprivate : Private may) (hw : Outlined may s₀ w)
    (h : accesses.Turns (Begins may) w w') :
    accesses.TurnsWhen Access.Alone (Begins may) w w' := by
  induction h with
  | refl => exact .refl
  | @tail w' w'' _ hturn ih =>
    obtain ⟨⟨hs, hfine⟩, -⟩ := hw.turns ih
    refine ih.tail (hturn.when fun i o k hi => ?_)
    cases o with
    | lock i' m =>
      obtain ⟨o, hcall, hlist⟩ := (hfine i).next hs hi
      intro j hj hin
      obtain ⟨o', hcall', hlist'⟩ := hs.called j _ hin
      exact hj (hprivate j i' o' o hcall' hcall (hlist'.trans hlist.symm))
    | _ => exact trivial

/-- Nobody has locked an object that is shared. -/
structure Unshared (x : Mutexes L ι) : Prop where
  tidy : x.Tidy
  free : ∀ l, x.status (.shared l) = .free

variable (may) in
/-- `i` can get inside the list, by itself and without a change to the others. -/
def Enters (w : Threads L ι) (i : ι) (l : L) : Prop :=
  ∃ w', accesses.Turns (Begins may) w w' ∧ w'.state.mutexes.Inside i l ∧
    (∀ j, j ≠ i → w'.thread j = w.thread j) ∧ Unshared w'.state.mutexes ∧
    ∀ j, j ≠ i → Mutexes.Spares j w.state.mutexes w'.state.mutexes

/-- The copy of a mutex that nobody has locked can be locked, whoever may have locked
another copy. -/
theorem enters_pass {i : ι} {l : L} {f : Mutex L → Steps L ι (Option (ListCall L × Int))}
    (hi : w.thread i = .act (.pass (.shared l)) f) (hf : ∀ m, ∃ k, f m = .act (.lock i m) k)
    (hw : Unshared w.state.mutexes) : Enters may w i l := by
  let x := w.state.mutexes
  obtain ⟨k, hk⟩ := hf (.copy x.copies)
  let x₁ := x.pass (.shared l)
  have htidy₁ : x₁.Tidy := Mutexes.tidy_pass hw.tidy
  have hcopy : x₁.status (.copy x.copies) = .free := by
    rw [Mutexes.status_pass_copy, hw.free]
    rfl
  let w₁ : Threads L ι := ⟨{ w.state with mutexes := x₁ }, Function.update w.thread i
    (f (.copy x.copies))⟩
  have hpass : accesses.Turn (Begins may) w w₁ := .act hi rfl
  have hi₁ : w₁.thread i = .act (.lock i (.copy x.copies)) k := by
    rw [← hk]
    exact Function.update_self ..
  let x₂ := x₁.lock i (.copy x.copies)
  let w₂ : Threads L ι := ⟨{ w₁.state with mutexes := x₂ }, Function.update w₁.thread i (k ())⟩
  have hlock : accesses.Turn (Begins may) w₁ w₂ := by
    have hexec : Access.exec (.lock i (.copy x.copies)) w₁.state = .ok ((), w₂.state, []) := by
      simp only [Access.exec]
      split
      · rfl
      · rename_i hheld
        exact absurd hcopy hheld
    exact .act hi₁ hexec
  refine ⟨w₂, (Relation.ReflTransGen.single hpass).tail hlock, ⟨.copy x.copies, ?_, ?_, ?_⟩,
    fun j hj => ?_, ⟨Mutexes.tidy_lock htidy₁ Mutexes.made_pass, fun l' => ?_⟩, fun j hj => ?_⟩
  · exact Mutexes.made_lock.mpr Mutexes.made_pass
  · exact Mutexes.of_lock.trans Mutexes.of_pass
  · exact Mutexes.status_lock
  · exact (Function.update_of_ne hj _ _).trans (Function.update_of_ne hj _ _)
  · exact (Mutexes.status_lock_ne (by simp)).trans
      ((Mutexes.status_pass_ne (by simp)).trans (hw.free l'))
  · exact (Mutexes.spares_pass hw.tidy).trans (Mutexes.spares_lock hcopy hj)

/-- Whoever may call a list function can get inside the list. -/
theorem enters {i : ι} {a : Option (ListCall L × Int)} {o : ListCall L}
    (hi : w.thread i = .ret a) (hcall : may i o) (hw : Unshared w.state.mutexes) :
    Enters may w i o.list := by
  -- where `i` has begun, and perhaps made a node, nothing has changed for the mutexes
  have hlater {w₁ : Threads L ι} {f : Mutex L → Steps L ι (Option (ListCall L × Int))}
      (hturns : accesses.Turns (Begins may) w w₁)
      (hi₁ : w₁.thread i = .act (.pass (.shared o.list)) f)
      (hf : ∀ m, ∃ k, f m = .act (.lock i m) k)
      (hothers : ∀ j, j ≠ i → w₁.thread j = w.thread j)
      (hsame : w₁.state.mutexes = w.state.mutexes) : Enters may w i o.list := by
    have henters : Enters may w₁ i o.list := enters_pass hi₁ hf (hsame.symm ▸ hw)
    obtain ⟨w', hw', hin, hthread, hopen, hspares⟩ := henters
    refine ⟨w', hturns.trans hw', hin, fun j hj => ?_, hopen, fun j hj => hsame ▸ hspares j hj⟩
    rw [hthread j hj, hothers j hj]
  let g (r : Int) : Steps L ι (Option (ListCall L × Int)) := pure (some (o, r))
  let w₁ : Threads L ι := ⟨w.state, Function.update w.thread i (o.steps i >>= g)⟩
  have hbegin : accesses.Turn (Begins may) w w₁ := .start hi ⟨o, hcall, rfl⟩
  have hi₁ : w₁.thread i = (o.steps i >>= g) := Function.update_self ..
  have hothers (j : ι) (hj : j ≠ i) : w₁.thread j = w.thread j := Function.update_of_ne hj _ _
  cases o with
  | insertNode l e =>
    let p := w₁.state.used
    let s₂ : Memory L ι := { w₁.state with data := Function.update w₁.state.data p e
                                           used := p + 1
                                           owner := Function.update w₁.state.owner p (some i) }
    let rest (m : Mutex L) := insertNode i l p m >>= g
    let w₂ : Threads L ι := ⟨s₂, Function.update w₁.thread i
      (step (.setNext p none) >>= fun _ => step (.pass (.shared l)) >>= rest)⟩
    have hmalloc : accesses.Turn (Begins may) w₁ w₂ := .act hi₁ rfl
    have hi₂ : w₂.thread i = (step (.setNext p none) >>= fun _ =>
      step (.pass (.shared l)) >>= rest) := Function.update_self ..
    let w₃ : Threads L ι := ⟨{ s₂ with next := Function.update s₂.next p none },
      Function.update w₂.thread i (step (.pass (.shared l)) >>= rest)⟩
    have hclear : accesses.Turn (Begins may) w₂ w₃ := .act hi₂ rfl
    refine hlater (((Relation.ReflTransGen.single hbegin).tail hmalloc).tail hclear)
      (Function.update_self ..) (fun m => ⟨_, rfl⟩) (fun j hj => ?_) rfl
    exact (Function.update_of_ne hj _ _).trans
      ((Function.update_of_ne hj _ _).trans (hothers j hj))
  | insertUser l u => exact hlater (.single hbegin) hi₁ (fun m => ⟨_, rfl⟩) hothers rfl
  | insertRoom l ID name => exact hlater (.single hbegin) hi₁ (fun m => ⟨_, rfl⟩) hothers rfl
  | removeUser l u => exact hlater (.single hbegin) hi₁ (fun m => ⟨_, rfl⟩) hothers rfl
  | removeNode l p => exact hlater (.single hbegin) hi₁ (fun m => ⟨_, rfl⟩) hothers rfl

/-- **Which calls exclude one another.**  Those of threads that keep to lists of their own,
and no others: of two threads that call for the same list both can be inside it.  And so
it goes in the interleavings in which each call locks its copy of the mutex while nobody
else is inside the list. -/
theorem lists_exclude {may : ι → ListCall L → Prop} {s₀ : Memory L ι} (hs₀ : s₀.Ready) :
    (Excludes may s₀ (accesses.Turns (Begins may)) ↔ Private may) ∧
      Excludes may s₀ (accesses.TurnsWhen Access.Alone (Begins may)) := by
  have halone : Excludes may s₀ (accesses.TurnsWhen Access.Alone (Begins may)) :=
    excludes_alone hs₀
  have hidle : Outlined may s₀ (Threads.idle s₀) := .idle hs₀
  refine ⟨⟨fun h i j o o' hi hj hlist => ?_, fun hprivate => ⟨?_, ?_⟩⟩, halone⟩
  · by_contra hne
    have hopen : Unshared s₀.mutexes := ⟨fun m hm => absurd (hs₀.free m) hm, fun _ => hs₀.free _⟩
    have hfirst : Enters may (Threads.idle s₀) i o.list := enters rfl hi hopen
    obtain ⟨w₁, hw₁, hin₁, hthread, hopen₁, -⟩ := hfirst
    have hj₁ : w₁.thread j = .ret none := hthread j fun h => hne h.symm
    obtain ⟨w₂, hw₂, hin₂, -, -, hspares⟩ := enters hj₁ hj hopen₁
    have hstill := ((hspares i hne).inside hopen₁.tidy).mpr hin₁
    exact hne (h.exclusive w₂ (hw₁.trans hw₂) o.list i j hstill (hlist ▸ hin₂))
  · exact fun w hw => halone.exclusive w (hprivate.alone hidle hw)
  · intro hdistinct w w' i o r e hw hw' hi he
    have hw := hprivate.alone hidle hw
    have hw' := hprivate.alone (hidle.turns hw).1 hw'
    exact halone.kept hdistinct w w' i o r e hw hw' hi he

end Races

/-! ## Two inserts -/

namespace Sample

/-- One list with a user and an empty one. -/
def memory : Memory Bool Bool where
  head l := if l then some 0 else none
  data _ := .user [99]
  next _ := none
  used := 1
  owner _ := none
  mutexes := ⟨0, fun _ => true, fun _ => .free⟩

theorem ready : memory.Ready where
  lists l := by
    cases l with
    | true => exact ⟨[0], rfl, rfl⟩
    | false => exact ⟨[], rfl⟩
  used l c hc p hp := by
    cases l with
    | true =>
      obtain rfl : c = [0] := hc.unique ⟨rfl, rfl⟩
      rw [List.mem_singleton.mp hp]
      exact Nat.one_pos
    | false =>
      obtain rfl : c = [] := hc.unique rfl
      cases hp
  apart l l' c c' p hc hc' hp hp' := by
    have hempty {c : List Ptr} (hc : memory.Chain false c) (hp : p ∈ c) : False := by
      obtain rfl : c = [] := hc.unique rfl
      cases hp
    cases l with
    | true =>
      cases l' with
      | true => rfl
      | false => exact (hempty hc' hp').elim
    | false => exact (hempty hc hp).elim
  blank _ _ := rfl
  free _ := rfl

def name (i : Bool) : Str := if i then [97] else [98]

/-- Two users come to the same list. -/
def call (i : Bool) : ListCall Bool := .insertUser true (name i)

def calls (i : Bool) (o : ListCall Bool) : Prop := o = call i

theorem distinct : Distinct calls memory where
  inserting := by
    rintro i o rfl
    simp [call, ListCall.entry?]
  keys := by
    rintro i j _ _ e e' rfl rfl - he he' hclash
    cases he
    cases he'
    have hij : i = j := by
      revert hclash
      revert i j
      decide
    exact ⟨hij, by rw [hij]⟩
  fresh := by
    rintro i _ e e' rfl he ⟨c, -, p, -, rfl⟩
    cases he
    have hold : memory.data p = .user [99] := rfl
    rw [hold]
    revert i
    decide

/-- Both have begun. -/
def begun : Threads Bool Bool :=
  ⟨memory, fun i => (call i).steps i >>= fun r => pure (some (call i, r))⟩

theorem begun_turns : accesses.Turns (Begins calls) (Threads.idle memory) begun := by
  let p (i : Bool) : Steps Bool Bool (Option (ListCall Bool × Int)) :=
    (call i).steps i >>= fun r => pure (some (call i, r))
  let one : Bool → Steps Bool Bool (Option (ListCall Bool × Int)) :=
    Function.update (fun _ => .ret none) true (p true)
  have hfirst : accesses.Turn (Begins calls) (Threads.idle memory) ⟨memory, one⟩ :=
    .start rfl ⟨call true, rfl, rfl⟩
  have hsecond : accesses.Turn (Begins calls) ⟨memory, one⟩
      ⟨memory, Function.update one false (p false)⟩ := .start rfl ⟨call false, rfl, rfl⟩
  have hboth : Function.update one false (p false) = begun.thread := by
    funext i
    cases i <;> rfl
  rw [hboth] at hsecond
  exact (Relation.ReflTransGen.single hfirst).tail hsecond

end Sample

/-- Threads with a list each. -/
theorem lists_exclude_apart : Excludes (fun (i : Bool) o => o = .insertUser i (Sample.name i))
    Sample.memory (accesses.Turns (Begins fun i o => o = .insertUser i (Sample.name i))) := by
  refine (lists_exclude Sample.ready).1.mpr ?_
  rintro i j _ _ rfl rfl hlist
  exact hlist

/-- Two inserts walk to the same last node: both threads are inside the list, and the link
that the one writes is written over by the other. -/
theorem update_lost : Sample.memory.Ready ∧ Distinct Sample.calls Sample.memory ∧
    (∃ w, accesses.Turns (Begins Sample.calls) (Threads.idle Sample.memory) w ∧
      ¬ Exclusive w.state) ∧
    ∃ w, accesses.Turns (Begins Sample.calls) (Threads.idle Sample.memory) w ∧
      (∀ i, w.thread i = .ret (some (Sample.call i, 1))) ∧
      ¬ w.state.Has true (.user [97]) := by
  let w₁ := accesses.schedule Sample.begun (List.replicate 4 [true, false]).flatten
  let w₂ := accesses.schedule Sample.begun (List.replicate 6 [true, false]).flatten
  refine ⟨Sample.ready, Sample.distinct,
    ⟨w₁, Sample.begun_turns.trans (accesses.schedule_turns _ _), fun h => ?_⟩,
    w₂, Sample.begun_turns.trans (accesses.schedule_turns _ _), fun i => ?_, ?_⟩
  · have hin (i : Bool) : w₁.state.mutexes.Inside i true :=
      ⟨.copy (if i then 0 else 1), by cases i <;> exact Nat.lt_of_sub_pos (by decide),
        by cases i <;> decide, by cases i <;> decide⟩
    exact absurd (h true true false (hin true) (hin false)) (by decide)
  · have hended : ∀ i, w₂.ended? i = some (some (Sample.call i, 1)) := by decide +kernel
    exact Pool.ended?_eq_some.mp (hended i)
  · rintro ⟨c, hc, p, hp, he⟩
    have hlinks : w₂.state.head true = some 0 ∧ w₂.state.next 0 = some 2 ∧
        w₂.state.next 2 = none := by decide +kernel
    have hchain : w₂.state.Chain true [0, 2] := hlinks
    have hdata : ∀ p ∈ [0, 2], w₂.state.data p ≠ .user [97] := by decide +kernel
    obtain rfl := hc.unique hchain
    exact hdata p hp he

end TBDChat.Nodes
