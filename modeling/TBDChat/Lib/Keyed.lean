import Mathlib.Data.List.Nodup

/-!
# Lists looked up by a key

A list is searched for the first element with a given key.  Where no two elements
share a key, it does not matter that it is the first.
-/

namespace TBDChat.Keyed

variable {α κ : Type} [DecidableEq κ] {key : α → κ} {l : List α} {k : κ} {a : α} {i : Nat}

/-- The place at which a search by key finds an element. -/
theorem findIdx?_eq_some (hd : (l.map key).Nodup) :
    l.findIdx? (fun b => key b = k) = some i ↔ ∃ b, l[i]? = some b ∧ key b = k := by
  rw [List.findIdx?_eq_some_iff_getElem]
  constructor
  · rintro ⟨hi, hkey, -⟩
    exact ⟨l[i], List.getElem?_eq_getElem hi, of_decide_eq_true hkey⟩
  · rintro ⟨b, hb, rfl⟩
    obtain ⟨hi, rfl⟩ := List.getElem?_eq_some_iff.mp hb
    refine ⟨hi, by simp, fun j hj hkey => ?_⟩
    have hlt := List.pairwise_iff_getElem.mp hd j i (by rw [List.length_map]; omega)
      (by rw [List.length_map]; exact hi) hj
    rw [List.getElem_map, List.getElem_map] at hlt
    exact hlt (of_decide_eq_true hkey)

/-- The element that a search by the key of a listed element finds. -/
theorem find?_of_mem (hd : (l.map key).Nodup) (ha : a ∈ l) :
    l.find? (fun b => key b = key a) = some a := by
  induction l with
  | nil => cases ha
  | cons b l ih =>
    obtain ⟨hb, hd⟩ := List.nodup_cons.mp hd
    rcases List.mem_cons.mp ha with rfl | ha
    · exact List.find?_cons_of_pos (decide_eq_true rfl)
    · have hne : key b ≠ key a := fun h => hb (h ▸ List.mem_map_of_mem ha)
      rw [List.find?_cons_of_neg (by simpa using hne)]
      exact ih hd ha

end TBDChat.Keyed
