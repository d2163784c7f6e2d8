import Mathlib.Data.List.TakeWhile
import Mathlib.Data.List.Basic
import Mathlib.Algebra.Order.Group.Nat

/-!
# Strings and records in flat memory

A C string is what lies in memory before the first zero byte, wherever the
array it was meant for may end.  `cstr` reads it, `poke` writes bytes over
memory at an offset, `pad` is what `strncpy` writes.  The one fact the proofs
live on is `cstr_eq_of_take_eq`: a string depends only on the bytes up to its
own end, so writing behind it leaves it alone.

The second half is about files of fixed-size records: `blocks` cuts a file into
as many whole blocks as it holds, `overwrite` writes over a file from its start
without shortening it.
-/

namespace TBDChat.Bytes

/-- The C string that starts at the head of `l`. -/
def cstr (l : List UInt8) : List UInt8 := l.takeWhile (· ≠ 0)

/-- `l` with `bs` written over it from offset `off`; what would fall behind the
end of `l` is dropped. -/
def poke (off : Nat) (bs l : List UInt8) : List UInt8 :=
  (l.take off ++ bs ++ l.drop (off + bs.length)).take l.length

/-- The `n` bytes `strncpy` writes for the string `s`. -/
def pad (n : Nat) (s : List UInt8) : List UInt8 :=
  s.take n ++ List.replicate (n - s.length) 0

@[simp] theorem length_poke (off : Nat) (bs l : List UInt8) : (poke off bs l).length = l.length := by
  simp only [poke, List.length_take, List.length_append, List.length_drop]
  omega

@[simp] theorem length_pad (n : Nat) (s : List UInt8) : (pad n s).length = n := by
  simp only [pad, List.length_append, List.length_take, List.length_replicate]
  omega

/-- Nothing in front of the offset changes. -/
theorem take_poke {n off : Nat} {bs l : List UInt8} (h : n ≤ off) :
    (poke off bs l).take n = l.take n := by
  rcases Nat.le_total n l.length with hn | hn
  · have hlen : n ≤ (l.take off).length := by rw [List.length_take]; omega
    rw [poke, List.take_take, List.append_assoc, Nat.min_eq_left hn,
      List.take_append_of_le_length hlen, List.take_take, Nat.min_eq_left h]
  · rw [List.take_of_length_le (by rw [length_poke]; exact hn), List.take_of_length_le hn, poke,
      List.take_of_length_le (Nat.le_trans hn h), List.append_assoc, List.take_left]

/-- Nothing behind the written bytes changes. -/
theorem drop_poke {n off : Nat} {bs l : List UInt8} (h : off + bs.length ≤ n) :
    (poke off bs l).drop n = l.drop n := by
  rcases Nat.le_total (off + bs.length) l.length with hfit | hover
  · have hlen : (l.take off ++ bs ++ l.drop (off + bs.length)).length = l.length := by
      simp only [List.length_append, List.length_take, List.length_drop]
      omega
    have hfront : (l.take off ++ bs).length = off + bs.length := by
      simp only [List.length_append, List.length_take]
      omega
    rw [poke, List.take_of_length_le (Nat.le_of_eq hlen), List.drop_append,
      List.drop_eq_nil_of_le (by omega), hfront, List.drop_drop, List.nil_append]
    congr 1
    omega
  · rw [List.drop_eq_nil_of_le (by rw [length_poke]; omega),
      List.drop_eq_nil_of_le (by omega)]

/-- The written bytes are there. -/
theorem take_drop_poke {off : Nat} {bs l : List UInt8} (h : off + bs.length ≤ l.length) :
    ((poke off bs l).drop off).take bs.length = bs := by
  have hoff : (l.take off).length = off := by rw [List.length_take]; omega
  have hlen : (l.take off ++ bs ++ l.drop (off + bs.length)).length = l.length := by
    simp only [List.length_append, List.length_take, List.length_drop]
    omega
  rw [poke, List.take_of_length_le (Nat.le_of_eq hlen), List.append_assoc,
    List.drop_append_of_le_length (Nat.le_of_eq hoff.symm),
    List.drop_eq_nil_of_le (Nat.le_of_eq hoff), List.nil_append,
    List.take_append_of_le_length (Nat.le_refl _), List.take_length]

/-- **A string depends only on the bytes up to its end.** -/
theorem cstr_eq_of_take_eq {n : Nat} : ∀ {l l' : List UInt8},
    (cstr l).length < n → l'.take n = l.take n → cstr l' = cstr l := by
  induction n with
  | zero => intro l l' h _; exact absurd h (Nat.not_lt_zero _)
  | succ n ih =>
    intro l l' h ht
    cases l with
    | nil => cases l' with
      | nil => rfl
      | cons b l' => cases ht
    | cons a l => cases l' with
      | nil => cases ht
      | cons b l' =>
        obtain ⟨rfl, htail⟩ := List.cons.inj ht
        by_cases ha : b = 0
        · simp [cstr, ha]
        · simp only [cstr, ne_eq, ha, not_false_eq_true, decide_true, List.takeWhile_cons,
            ite_true, List.length_cons, Nat.add_lt_add_iff_right] at h ⊢
          exact congrArg (b :: ·) (ih h htail)

/-! ## Where a string is read -/

section Strings
variable {bs l : List UInt8}

/-- Characters in front of a string. -/
theorem cstr_append (h : (0 : UInt8) ∉ bs) (l : List UInt8) : cstr (bs ++ l) = bs ++ cstr l :=
  List.takeWhile_append_of_pos fun c hc => by
    simpa using fun h0 : c = 0 => h (h0 ▸ hc)

theorem cstr_zero (l : List UInt8) : cstr (0 :: l) = [] := List.takeWhile_cons_of_neg (by decide)

/-- A string ends at the first NUL, if not before. -/
theorem length_cstr_le {n : Nat} (h : l.getD n 0 = 0) : (cstr l).length ≤ n := by
  induction l generalizing n with
  | nil => exact Nat.zero_le n
  | cons c l ih =>
    by_cases hc : c = 0
    · rw [hc, cstr_zero]
      exact Nat.zero_le n
    · rw [cstr, List.takeWhile_cons_of_pos (by simpa using hc)]
      cases n with
      | zero => exact absurd h hc
      | succ n => exact Nat.succ_le_succ (ih h)

/-- What `strncpy` wrote is read back, if it left room for a NUL. -/
theorem cstr_pad {n : Nat} {s : List UInt8} (h : (0 : UInt8) ∉ s) (hlen : s.length < n)
    (l : List UInt8) : cstr (pad n s ++ l) = s := by
  obtain ⟨k, hk⟩ : ∃ k, n - s.length = k + 1 := ⟨n - s.length - 1, by omega⟩
  rw [pad, List.take_of_length_le (Nat.le_of_lt hlen), hk, List.replicate_succ, List.append_assoc,
    cstr_append h, List.cons_append, cstr_zero, List.append_nil]

/-- The start of a string is decided by the start of the memory. -/
theorem take_cstr (n : Nat) (l : List UInt8) : (cstr l).take n = cstr (l.take n) := by
  induction l generalizing n with
  | nil => simp [cstr]
  | cons c l ih =>
    cases n with
    | zero => rfl
    | succ n =>
      by_cases hc : c = 0
      · rw [hc, List.take_succ_cons, cstr_zero, cstr_zero, List.take_nil]
      · have hcons (l : List UInt8) : cstr (c :: l) = c :: cstr l :=
          List.takeWhile_cons_of_pos (by simpa using hc)
        rw [List.take_succ_cons, hcons, hcons, List.take_succ_cons, ih]

/-- From the offset on, the written bytes and then what was there before. -/
theorem drop_poke_self {off : Nat} (h : off + bs.length ≤ l.length) :
    (poke off bs l).drop off = bs ++ l.drop (off + bs.length) := by
  have hfront := take_drop_poke h
  have hback : ((poke off bs l).drop off).drop bs.length = l.drop (off + bs.length) := by
    rw [List.drop_drop, drop_poke (Nat.le_refl _)]
  rw [← List.take_append_drop bs.length ((poke off bs l).drop off), hfront, hback]

theorem zero_not_mem_cstr (l : List UInt8) : (0 : UInt8) ∉ cstr l := fun h => by
  simpa using List.mem_takeWhile_imp h

/-- What `strcat` puts behind a string. -/
theorem cstr_poke_append (h0 : (0 : UInt8) ∉ bs) (h : (cstr l).length + bs.length < l.length) :
    cstr (poke (cstr l).length (bs ++ [0]) l) = cstr l ++ bs := by
  have hfit : (cstr l).length + (bs ++ [0]).length ≤ l.length := by
    rw [List.length_append, List.length_singleton]
    omega
  have htake : l.take (cstr l).length = cstr l :=
    (List.prefix_iff_eq_take.mp (List.takeWhile_prefix _)).symm
  have hsplit := List.take_append_drop (cstr l).length (poke (cstr l).length (bs ++ [0]) l)
  rw [take_poke (Nat.le_refl _), htake, drop_poke_self hfit, List.append_assoc] at hsplit
  rw [← hsplit, cstr_append (zero_not_mem_cstr l), cstr_append h0, List.singleton_append, cstr_zero,
    List.append_nil]

/-- A NUL written into a string ends it there. -/
theorem cstr_poke_nul (k : Nat) (l : List UInt8) : cstr (poke k [0] l) = (cstr l).take k := by
  rw [take_cstr]
  rcases Nat.lt_or_ge k l.length with hk | hk
  · have hsplit := List.take_append_drop k (poke k [0] l)
    rw [take_poke (Nat.le_refl k), drop_poke_self hk] at hsplit
    rw [← hsplit]
    by_cases h0 : 0 ∈ l.take k
    · obtain ⟨a, b, hab, ha⟩ := List.eq_append_cons_of_mem h0
      rw [hab, List.append_assoc, cstr_append ha, cstr_append ha, List.cons_append, cstr_zero,
        cstr_zero]
    · have hend := cstr_append h0 ([] : List UInt8)
      rw [List.append_nil] at hend
      rw [cstr_append h0, hend, List.singleton_append, cstr_zero]
      rfl
  · have hsame : poke k [0] l = l := by
      rw [poke, List.take_of_length_le hk, List.append_assoc, List.take_left]
    rw [hsame, List.take_of_length_le hk]

end Strings

/-! ## Files of fixed-size blocks -/

section Blocks
variable {β : Type}

/-- The whole blocks of `k` elements at the front of `l`, in order. -/
def blocks (k : Nat) (l : List β) : List (List β) :=
  (List.range (l.length / k)).map (fun i => (l.drop (i * k)).take k)

/-- `l` with `bs` written over its start. -/
def overwrite (bs l : List β) : List β := bs ++ l.drop bs.length

theorem length_flatten_uniform {k : Nat} {bs : List (List β)} (h : ∀ b ∈ bs, b.length = k) :
    bs.flatten.length = bs.length * k := by
  rw [List.length_flatten, List.map_congr_left h, List.map_const', List.sum_replicate_nat]

/-- The first block, and the blocks of what follows it. -/
theorem blocks_cons {k : Nat} (hk : 0 < k) {b l : List β} (hb : b.length = k) :
    blocks k (b ++ l) = b :: blocks k l := by
  have hdiv : (b ++ l).length / k = l.length / k + 1 := by
    rw [List.length_append, hb, Nat.add_div_left _ hk]
  rw [blocks, hdiv, List.range_succ_eq_map, List.map_cons, List.map_map, blocks]
  congr 1
  · rw [Nat.zero_mul, List.drop_zero, List.take_append_of_le_length (Nat.le_of_eq hb.symm),
      List.take_of_length_le (Nat.le_of_eq hb)]
  · refine List.map_congr_left fun i _ => ?_
    rw [Function.comp_apply, Nat.succ_mul, Nat.add_comm, ← hb, ← List.drop_drop,
      List.drop_left]

/-- **Cutting a file into blocks undoes writing the blocks**, with less than a
block left over. -/
theorem blocks_flatten {k : Nat} {bs : List (List β)} {rest : List β}
    (h : ∀ b ∈ bs, b.length = k) (hr : rest.length < k) : blocks k (bs.flatten ++ rest) = bs := by
  have hk : 0 < k := Nat.lt_of_le_of_lt (Nat.zero_le _) hr
  induction bs with
  | nil => simp [blocks, Nat.div_eq_of_lt hr]
  | cons b bs ih =>
    rw [List.flatten_cons, List.append_assoc, blocks_cons hk (h b List.mem_cons_self),
      ih (fun c hc => h c (List.mem_cons_of_mem _ hc))]

theorem length_blocks (k : Nat) (l : List β) : (blocks k l).length = l.length / k := by
  simp [blocks]

/-- Writing at least as many blocks as a file holds leaves no whole block of the
old file behind. -/
theorem blocks_overwrite {k : Nat} (hk : 0 < k) {bs : List (List β)} {l : List β}
    (h : ∀ b ∈ bs, b.length = k) (hl : l.length / k ≤ bs.length) :
    blocks k (overwrite bs.flatten l) = bs := by
  refine blocks_flatten h ?_
  have hlt : l.length < (l.length / k + 1) * k := Nat.lt_mul_of_div_lt (Nat.lt_succ_self _) hk
  have hle : (l.length / k + 1) * k ≤ (bs.length + 1) * k :=
    Nat.mul_le_mul_right k (Nat.succ_le_succ hl)
  rw [List.length_drop, length_flatten_uniform h]
  rw [Nat.succ_mul bs.length] at hle
  omega

/-- Without its first block, a file has the other blocks. -/
theorem blocks_drop {k : Nat} (hk : 0 < k) (l : List β) :
    blocks k (l.drop k) = (blocks k l).drop 1 := by
  rcases Nat.lt_or_ge l.length k with hlt | hge
  · have hnil : blocks k l = [] := by
      rw [blocks, Nat.div_eq_of_lt hlt, List.range_zero, List.map_nil]
    rw [List.drop_of_length_le (Nat.le_of_lt hlt), hnil, blocks, List.length_nil, Nat.zero_div]
    rfl
  · have hlen : (l.take k).length = k := by rw [List.length_take, Nat.min_eq_left hge]
    conv_rhs => rw [← List.take_append_drop k l, blocks_cons hk hlen]
    rfl

/-- Blocks that are written over a file take the place of as many of its own. -/
theorem blocks_overwrite_drop {k : Nat} (hk : 0 < k) {bs : List (List β)} {l : List β}
    (h : ∀ b ∈ bs, b.length = k) :
    blocks k (overwrite bs.flatten l) = bs ++ (blocks k l).drop bs.length := by
  induction bs generalizing l with
  | nil => rfl
  | cons b bs ih =>
    have hb := h b List.mem_cons_self
    have hover : overwrite (b :: bs).flatten l = b ++ overwrite bs.flatten (l.drop k) := by
      simp only [overwrite, List.flatten_cons, List.append_assoc, List.drop_drop,
        List.length_append, hb]
    rw [hover, blocks_cons hk hb, ih fun b hmem => h b (List.mem_cons_of_mem _ hmem),
      blocks_drop hk, List.drop_drop, List.length_cons, Nat.add_comm, List.cons_append]

/-- A list in which one element is another one, or is new. -/
inductive Revises (l : List β) : List β → Prop
  | same : Revises l l
  | append (x : β) : Revises l (l ++ [x])
  | set (i : Nat) (x : β) : Revises l (l.set i x)

namespace Revises
variable {l l' : List β}

theorem length_le (h : Revises l l') : l.length ≤ l'.length := by
  cases h with
  | same => exact Nat.le_refl _
  | append x => simp
  | set i x => rw [List.length_set]

theorem cons (h : Revises l l') (b : β) : Revises (b :: l) (b :: l') := by
  cases h with
  | same => exact .same
  | append x => exact .append x
  | set i x => exact .set (i + 1) x

/-- The list under a function that was changed at one place. -/
theorem map {α : Type} {f g : α → β} {a : α} {l : List α} (hd : l.Nodup)
    (h : ∀ b, b ≠ a → g b = f b) : Revises (l.map f) (l.map g) := by
  induction l with
  | nil => exact .same
  | cons b l ih =>
    obtain ⟨hb, hd⟩ := List.nodup_cons.mp hd
    by_cases hba : b = a
    · subst hba
      have hrest : l.map g = l.map f :=
        List.map_congr_left fun c hc => h c fun he => hb (he ▸ hc)
      rw [List.map_cons, List.map_cons, hrest]
      exact .set 0 (g b)
    · rw [List.map_cons, List.map_cons, h b hba]
      exact (ih hd).cons (f b)

/-- **A list that is written over the old one, element by element, is at any time the old one or
the new one.** -/
theorem torn (h : Revises l l') (n : Nat) :
    l'.take n ++ l.drop n = l ∨ l'.take n ++ l.drop n = l' := by
  cases h with
  | same => exact .inl (List.take_append_drop n l)
  | append x =>
    rcases Nat.lt_or_ge l.length n with hlt | hle
    · right
      have hlen : (l ++ [x]).length ≤ n := by
        rw [List.length_append, List.length_singleton]
        exact hlt
      rw [List.take_of_length_le hlen, List.drop_of_length_le (Nat.le_of_lt hlt),
        List.append_nil]
    · left
      rw [List.take_append_of_le_length hle, List.take_append_drop]
  | set i x =>
    rcases Nat.lt_or_ge i n with hlt | hle
    · right
      rw [← List.drop_set_of_lt hlt, List.take_append_drop]
    · left
      rw [List.take_set_of_le hle, List.take_append_drop]

end Revises
end Blocks
end TBDChat.Bytes
