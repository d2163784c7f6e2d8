import Mathlib.Logic.Function.Basic
import Mathlib.Data.List.Nodup

/-!
# Singly linked chains

`next` has for each node the one that it links to.  A `Path` lists the nodes from a
pointer to the NULL.  It is the only one from there and passes no node twice, so what is
written to a node shows in a path at one place at most.
-/

namespace TBDChat
variable {P : Type} {next : P → Option P} {o q : Option P} {p t : P} {c c' d e : List P}

/-- The pointer leads through the nodes listed to a NULL. -/
def Path (next : P → Option P) : Option P → List P → Prop
  | o, [] => o = none
  | o, p :: c => o = some p ∧ Path next (next p) c

namespace Path

theorem unique (h : Path next o c) (h' : Path next o c') : c = c' := by
  induction c generalizing o c' with
  | nil =>
    cases c' with
    | nil => rfl
    | cons p c' => cases (h : o = none).symm.trans h'.1
  | cons p c ih =>
    cases c' with
    | nil => cases h.1.symm.trans h'
    | cons p' c' =>
      obtain rfl : p = p' := Option.some.inj (h.1.symm.trans h'.1)
      rw [ih h.2 h'.2]

/-- From a node on the way the rest of the path is a path. -/
theorem rest (h : Path next o (c ++ p :: d)) : Path next (some p) (p :: d) := by
  induction c generalizing o with
  | nil => exact ⟨rfl, h.2⟩
  | cons p' c ih => exact ih h.2

theorem next_last (h : Path next o (c ++ [t])) : next t = none := h.rest.2

theorem nodup (h : Path next o c) : c.Nodup := by
  induction c generalizing o with
  | nil => exact List.nodup_nil
  | cons p c ih =>
    refine List.nodup_cons.mpr ⟨fun hp => ?_, ih h.2⟩
    -- it would come back to `p` and never end
    obtain ⟨c₁, c₂, rfl⟩ := List.append_of_mem hp
    have hagain : Path next (some p) (p :: c₂) := rest h.2
    have hlen := congrArg List.length ((h.1 ▸ h).unique hagain)
    simp only [List.length_cons, List.length_append] at hlen
    omega

/-- Only the links of the nodes on the path matter. -/
theorem congr {next' : P → Option P} (h : Path next o c) (heq : ∀ p ∈ c, next' p = next p) :
    Path next' o c := by
  induction c generalizing o with
  | nil => exact h
  | cons p c ih =>
    refine ⟨h.1, ?_⟩
    rw [heq p List.mem_cons_self]
    exact ih h.2 fun q hq => heq q (List.mem_cons_of_mem _ hq)

/-- A path with the same links in front of a node comes to it, too. -/
theorem through {next' : P → Option P} (h : Path next o (c ++ t :: d))
    (heq : ∀ p ∈ c, next' p = next p) (h' : Path next' o c') :
    ∃ e, c' = c ++ t :: e ∧ Path next' (next' t) e := by
  induction c generalizing o c' with
  | nil =>
    cases c' with
    | nil => cases h.1.symm.trans h'
    | cons p' e =>
      obtain rfl : t = p' := Option.some.inj (h.1.symm.trans h'.1)
      exact ⟨e, rfl, h'.2⟩
  | cons p c ih =>
    cases c' with
    | nil => cases h.1.symm.trans h'
    | cons p' c' =>
      obtain rfl : p = p' := Option.some.inj (h.1.symm.trans h'.1)
      have hrest := h'.2
      rw [heq p List.mem_cons_self] at hrest
      obtain ⟨e, rfl, he⟩ := ih h.2 (fun q hq => heq q (List.mem_cons_of_mem _ hq)) hrest
      exact ⟨e, rfl, he⟩

section Writes
variable [DecidableEq P]

/-- A write to another node does not show. -/
theorem update (ht : t ∉ c) : Path (Function.update next t q) o c ↔ Path next o c := by
  induction c generalizing o with
  | nil => exact Iff.rfl
  | cons p c ih =>
    have hne : p ≠ t := by
      rintro rfl
      exact ht List.mem_cons_self
    rw [Path, Path, Function.update_of_ne hne, ih fun htc => ht (List.mem_cons_of_mem _ htc)]

/-- What comes after a node is what its link is set to. -/
theorem relink (h : Path next o (c ++ t :: d)) (hq : Path next q e) (ht : t ∉ e) :
    Path (Function.update next t q) o (c ++ t :: e) := by
  have hnodup := h.nodup
  induction c generalizing o with
  | nil =>
    refine ⟨h.1, ?_⟩
    rw [Function.update_self]
    exact (update ht).mpr hq
  | cons p c ih =>
    obtain ⟨hp, hrest⟩ := List.nodup_cons.mp hnodup
    have hne : p ≠ t := by
      rintro rfl
      exact hp (by simp)
    refine ⟨h.1, ?_⟩
    rw [Function.update_of_ne hne]
    exact ih h.2 hrest

/-- Whatever a link is set to, the paths still end if there is one from there. -/
theorem ends_update (h : Path next o c) (hq : Path (Function.update next t q) q e) :
    ∃ c', Path (Function.update next t q) o c' ∧ ∀ p ∈ c', p ∈ c ∨ p ∈ e := by
  induction c generalizing o with
  | nil => exact ⟨[], h, by simp⟩
  | cons p c ih =>
    by_cases heq : p = t
    · subst heq
      refine ⟨p :: e, ⟨h.1, ?_⟩, fun x hx => ?_⟩
      · rwa [Function.update_self]
      · rcases List.mem_cons.mp hx with rfl | hx
        · exact .inl List.mem_cons_self
        · exact .inr hx
    · obtain ⟨c', hc', hmem⟩ := ih h.2
      refine ⟨p :: c', ⟨h.1, ?_⟩, fun x hx => ?_⟩
      · rwa [Function.update_of_ne heq]
      · rcases List.mem_cons.mp hx with rfl | hx
        · exact .inl List.mem_cons_self
        · exact (hmem x hx).imp_left (List.mem_cons_of_mem _)

end Writes
end Path
end TBDChat
