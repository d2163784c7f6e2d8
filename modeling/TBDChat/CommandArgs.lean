import TBDChat.ServerClients
import Mathlib.Data.List.Induction

/-!
# The loop that splits a command

Seven handlers of the server and two of the client's functions share one loop:

    args[i] = strsep(&tmp, delim);
    while ((i < sizeof(args) - 1) && (args[i] != '\0')) {
       args[++i] = strsep(&tmp, delim);
    }

`sizeof(args)` is in bytes, eight for each element of `args`.  `words` has what the loop
finds; here is what it stores, and where.
-/

namespace TBDChat

/-- A pointer that is stored in `args`, NULL or to a string, and the index. -/
abbrev ArgStore := Option Str × Nat

/-- What the loop stores from `args[i]` on; `left` is what is left of its bound. -/
def storeArgs (delim : Str) : Nat → Nat → Option Str → List ArgStore
  | 0, i, tmp => [((strsep delim tmp).1, i)]
  | left + 1, i, tmp =>
    match strsep delim tmp with
    | (none, _) => [(none, i)]
    | (some w, tmp) => (some w, i) :: storeArgs delim left (i + 1) tmp

/-- The loop for a text, with an array of `n` pointers. -/
def fillArgs (delim : Str) (n : Nat) (buf : Str) : List ArgStore :=
  storeArgs delim (8 * n - 1) 0 (some buf)

/-- What is at `args[k]` after the stores, where something is. -/
def argAt (stores : List ArgStore) (k : Nat) : Option (Option Str) :=
  (stores.reverse.find? fun st => st.2 = k).map Prod.fst

/-- The `i` that the loop ends with: where it stored last. -/
def lastIndex (stores : List ArgStore) : Nat := (stores.getLast?.map Prod.snd).getD 0

/-- The fields of a text between single separators. -/
def fields (delim : Str) (buf : Str) : List Str := buf.splitOnP delim.contains

section Loop
variable {d s w : Str} {i left n : Nat}

/-- `strsep` finds the first field and goes on behind the separator. -/
theorem strsep_fields (d s : Str) : ∃ w rest, fields d s = w :: rest ∧
    ((strsep d (some s) = (some w, none) ∧ rest = []) ∨
      ∃ t, strsep d (some s) = (some w, some t) ∧ rest = fields d t) := by
  have hsplit := List.takeWhile_append_dropWhile (p := fun c => !d.contains c) (l := s)
  have hfree : ∀ c ∈ s.takeWhile (fun c => !d.contains c), c ∉ d := by
    intro c hc
    simpa using List.mem_takeWhile_imp hc
  have hno {w : Str} (h : ∀ c ∈ w, c ∉ d) : ∀ c ∈ w, d.contains c = false := by
    intro c hc
    simpa using h c hc
  cases hdrop : s.dropWhile (fun c => !d.contains c) with
  | nil =>
    rw [hdrop, List.append_nil] at hsplit
    rw [hsplit] at hfree
    exact ⟨s, [], List.splitOnP_eq_singleton (hno hfree), .inl ⟨strsep_last hfree, rfl⟩⟩
  | cons c t =>
    have hc : c ∈ d := by
      have hhead := List.head?_dropWhile_not (fun c => !d.contains c) s
      rw [hdrop] at hhead
      simpa using hhead
    rw [hdrop] at hsplit
    have hfirst : fields d s = s.takeWhile (fun c => !d.contains c) :: fields d t := by
      rw [← congrArg (fields d) hsplit]
      exact List.splitOnP_append_cons_of_forall_mem (hno hfree) c (by simpa using hc) t
    refine ⟨_, _, hfirst, .inr ⟨t, ?_, rfl⟩⟩
    rw [← congrArg (fun x => strsep d (some x)) hsplit]
    exact strsep_first hfree hc

/-- The loop stores the fields and the NULL behind them, as far as its bound lets it. -/
theorem storeArgs_eq : storeArgs d left i (some s) =
    (((fields d s).map some ++ [none]).take (left + 1)).zipIdx i := by
  induction left generalizing i s with
  | zero =>
    obtain ⟨w, rest, hw, ⟨hsep, -⟩ | ⟨t, hsep, -⟩⟩ := strsep_fields d s <;>
      rw [storeArgs, hsep, hw] <;> rfl
  | succ left ih =>
    obtain ⟨w, rest, hw, ⟨hsep, rfl⟩ | ⟨t, hsep, rfl⟩⟩ := strsep_fields d s
    · rw [storeArgs, hsep, hw]
      cases left <;> rfl
    · rw [storeArgs, hsep, hw]
      simp only [ih, List.map_cons, List.cons_append, List.take_succ_cons, List.zipIdx_cons]

theorem fillArgs_eq (hn : 0 < n) : fillArgs d n s =
    (((fields d s).map some ++ [none]).take (8 * n)).zipIdx := by
  have hbound : 8 * n - 1 + 1 = 8 * n := by omega
  rw [fillArgs, storeArgs_eq, hbound]

/-- An array into which a list was stored in order. -/
theorem argAt_zipIdx (vs : List (Option Str)) (k : Nat) : argAt vs.zipIdx k = vs[k]? := by
  induction vs using List.reverseRecOn with
  | nil => rfl
  | append_singleton vs v ih =>
    have hback : (vs ++ [v]).zipIdx.reverse = (v, vs.length) :: vs.zipIdx.reverse := by
      rw [List.zipIdx_append, List.reverse_append, Nat.zero_add]
      rfl
    rw [argAt] at ih ⊢
    rw [hback]
    by_cases hk : vs.length = k
    · simp [hk]
    · rw [List.find?_cons_of_neg (by simpa using hk), ih]
      rcases Nat.lt_or_gt_of_ne hk with h | h
      · rw [List.getElem?_eq_none (Nat.le_of_lt h), List.getElem?_eq_none]
        simpa using Nat.succ_le_of_lt h
      · rw [List.getElem?_append_left h]

/-- The loop splits the text into an array of `n` pointers: it stores into the array only,
`i` ends as the number of fields, `args[i]` as NULL, and what is in front of it is the
fields. -/
structure Splits (delim : Str) (n : Nat) (buf : Str) : Prop where
  inside : ∀ st ∈ fillArgs delim n buf, st.2 < n
  count : lastIndex (fillArgs delim n buf) = (fields delim buf).length
  null : argAt (fillArgs delim n buf) (fields delim buf).length = some none
  words : ∀ k, (h : k < (fields delim buf).length) →
    argAt (fillArgs delim n buf) k = some (some (fields delim buf)[k])

/-- The last store goes behind the fields, as long as the bound allows it. -/
theorem fillArgs_of_le (hn : (fields d s).length < 8 * n) :
    fillArgs d n s = ((fields d s).map some ++ [none]).zipIdx := by
  rw [fillArgs_eq (by omega), List.take_of_length_le]
  simpa using Nat.succ_le_of_lt hn

/-- With `n` fields the loop comes to `args[n]`. -/
theorem inside_iff (hn : 0 < n) :
    (∀ st ∈ fillArgs d n s, st.2 < n) ↔ (fields d s).length < n := by
  constructor
  · intro h
    by_contra hlong
    have hlen : n < (((fields d s).map some ++ [none]).take (8 * n)).length := by
      simp only [List.length_take, List.length_append, List.length_map, List.length_singleton]
      omega
    have hstore : ((((fields d s).map some ++ [none]).take (8 * n))[n], n) ∈ fillArgs d n s := by
      rw [fillArgs_eq hn]
      exact List.mem_zipIdx_iff_getElem?.mpr (List.getElem?_eq_getElem hlen)
    exact Nat.lt_irrefl n (h _ hstore)
  · intro h st hst
    rw [fillArgs_of_le (by omega)] at hst
    have hlt := List.snd_lt_of_mem_zipIdx hst
    simp only [List.length_append, List.length_map, List.length_singleton] at hlt
    omega

theorem splits_iff (hn : 0 < n) : Splits d n s ↔ (fields d s).length < n := by
  refine ⟨fun h => (inside_iff hn).mp h.inside, fun h => ?_⟩
  · have hfill : fillArgs d n s = ((fields d s).map some ++ [none]).zipIdx :=
      fillArgs_of_le (by omega)
    refine ⟨(inside_iff hn).mpr h, ?_, ?_, fun k hk => ?_⟩
    · rw [hfill, lastIndex, List.zipIdx_append, List.getLast?_append]
      simp
    · rw [hfill, argAt_zipIdx, List.getElem?_append_right (by simp)]
      simp
    · rw [hfill, argAt_zipIdx, List.getElem?_append_left (by simpa using hk)]
      simp [hk]

theorem words_eq (buf : Str) : words buf = (fields delim buf).take 128 := by
  have hloop (left : Nat) (s : Str) :
      strsepLoop delim left (some s) = (fields delim s).take (left + 1) := by
    induction left generalizing s with
    | zero =>
      obtain ⟨w, rest, hw, ⟨hsep, -⟩ | ⟨t, hsep, -⟩⟩ := strsep_fields delim s <;>
        rw [strsepLoop, hsep, hw] <;> rfl
    | succ left ih =>
      obtain ⟨w, rest, hw, ⟨hsep, rfl⟩ | ⟨t, hsep, rfl⟩⟩ := strsep_fields delim s
      · rw [strsepLoop, hsep, hw]
        cases left <;> rfl
      · rw [strsepLoop, hsep, hw]
        simp only [ih, List.take_succ_cons]
  exact hloop 127 buf

theorem length_words_le (buf : Str) : (words buf).length ≤ (fields delim buf).length := by
  rw [words_eq]
  exact List.length_take_le' _ _

/-- A text whose words come to less than the bound of the loop has no other fields. -/
theorem fields_eq_words {buf : Str} (h : (words buf).length < 128) :
    fields delim buf = words buf := by
  rw [words_eq, List.length_take] at h
  rw [words_eq, List.take_of_length_le (by omega)]

end Loop

/-- **Where the splitting of a command keeps to its array**: for the texts of at most 15
fields.  It does all it should for them, and for no other. -/
theorem command_splits_iff (buf : Str) :
    Splits delim 16 buf ↔ (fields delim buf).length ≤ 15 := by
  rw [splits_iff (by decide)]
  exact Nat.lt_succ_iff

theorem length_words_le_iff (buf : Str) :
    (words buf).length ≤ 15 ↔ (fields delim buf).length ≤ 15 := by
  rw [words_eq, List.length_take]
  omega

/-- The splitting of a command stores into `args[16]` only. -/
def KeepsToArgs (buf : Str) : Prop := ∀ st ∈ fillArgs delim 16 buf, st.2 < 16

theorem keepsToArgs_iff (buf : Str) : KeepsToArgs buf ↔ (words buf).length ≤ 15 := by
  rw [KeepsToArgs, inside_iff (by decide), length_words_le_iff]
  exact Nat.lt_succ_iff

/-- The handlers go on where the splitting has kept to its array, and with the fields. -/
theorem splitArgs_eq (buf : Str) : splitArgs buf =
    if (fields delim buf).length ≤ 15 then pure (fields delim buf) else fault .overflow := by
  have hlen := length_words_le_iff buf
  rw [splitArgs]
  by_cases h : (fields delim buf).length ≤ 15
  · rw [if_pos h, if_pos (hlen.mpr h), words_eq, List.take_of_length_le (by omega)]
  · rw [if_neg h, if_neg fun hw => h (hlen.mp hw)]

/-- Sixteen words make a text of 31 characters, and `args[16]` is set to NULL. -/
theorem command_overflows : ¬ ∀ buf : Str, buf.length ≤ 127 → 0 ∉ buf → Splits delim 16 buf := by
  intro h
  let buf : Str := (List.replicate 15 [97, 32]).flatten ++ [97]
  have hstore : (none, 16) ∈ fillArgs delim 16 buf := by decide
  exact absurd ((h buf (by decide) (by decide)).inside _ hstore) (by decide)

end TBDChat
