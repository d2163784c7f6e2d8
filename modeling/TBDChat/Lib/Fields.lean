import TBDChat.Lib.Bytes

/-!
# Strings in the arrays of a record

The arrays of a record lie one behind the other in its memory.  A function that puts a
string into one of them makes `Write`s, and nothing holds it to the array.  `Keeps` says
that the string has been put there and nowhere else.  For the three ways of copying it comes
down to the same: the string is shorter than the array.
-/

namespace TBDChat.Bytes

/-- Bytes written at an offset. -/
structure Write where
  off : Nat
  bytes : List UInt8

/-- The memory after some writes. -/
def writeAll (ws : List Write) (mem : List UInt8) : List UInt8 :=
  ws.foldl (fun mem w => poke w.off w.bytes mem) mem

/-- An array: where it is, and its declared size. -/
structure Field where
  off : Nat
  size : Nat

namespace Field

/-- A write inside the array. -/
def Covers (f : Field) (w : Write) : Prop := f.off ≤ w.off ∧ w.off + w.bytes.length ≤ f.off + f.size

/-- After the writes the array holds the string, ended by a NUL, and nothing else has
changed. -/
structure Keeps (f : Field) (ws : List Write) (mem : List UInt8) (s : List UInt8) : Prop where
  inside : ∀ w ∈ ws, f.Covers w
  nul : 0 ∈ ((writeAll ws mem).drop f.off).take f.size
  reads : cstr ((writeAll ws mem).drop f.off) = s
  front : (writeAll ws mem).take f.off = mem.take f.off
  back : (writeAll ws mem).drop (f.off + f.size) = mem.drop (f.off + f.size)

end Field

section Copies
variable {f : Field} {ws : List Write} {w : Write} {mem s : List UInt8}

@[simp] theorem length_writeAll (ws : List Write) (mem : List UInt8) :
    (writeAll ws mem).length = mem.length := by
  induction ws generalizing mem with
  | nil => rfl
  | cons w ws ih =>
    show (writeAll ws (poke w.off w.bytes mem)).length = mem.length
    rw [ih, length_poke]

theorem writeAll_append_singleton :
    writeAll (ws ++ [w]) mem = poke w.off w.bytes (writeAll ws mem) := by
  rw [writeAll, List.foldl_append]
  rfl

/-- Writes inside the array leave the rest alone. -/
theorem writeAll_around (h : ∀ w ∈ ws, f.Covers w) :
    (writeAll ws mem).take f.off = mem.take f.off ∧
      (writeAll ws mem).drop (f.off + f.size) = mem.drop (f.off + f.size) := by
  induction ws generalizing mem with
  | nil => exact ⟨rfl, rfl⟩
  | cons w ws ih =>
    obtain ⟨hfront, hback⟩ := h w List.mem_cons_self
    obtain ⟨hf, hb⟩ := @ih (poke w.off w.bytes mem)
      fun v hv => h v (List.mem_cons_of_mem _ hv)
    exact ⟨hf.trans (take_poke hfront), hb.trans (drop_poke hback)⟩

/-- The memory from the array on, where the last write begins there. -/
theorem drop_writeAll {bs : List UInt8} (hmem : f.off + f.size ≤ mem.length)
    (hbs : bs.length ≤ f.size) : (writeAll (ws ++ [⟨f.off, bs⟩]) mem).drop f.off =
      bs ++ (writeAll ws mem).drop (f.off + bs.length) := by
  have hfit : f.off + bs.length ≤ (writeAll ws mem).length := by
    rw [length_writeAll]
    omega
  rw [writeAll_append_singleton]
  exact drop_poke_self hfit

/-- Where the last write puts the string at the start of the array. -/
theorem keeps_of_last {bs t : List UInt8} (hin : ∀ w ∈ ws, f.Covers w)
    (hmem : f.off + f.size ≤ mem.length) (hbs : bs.length ≤ f.size) (h0 : 0 ∉ s)
    (hs : bs = s ++ 0 :: t) : f.Keeps (ws ++ [⟨f.off, bs⟩]) mem s := by
  have hall : ∀ w ∈ ws ++ [⟨f.off, bs⟩], f.Covers w := by
    intro w hw
    rcases List.mem_append.mp hw with hw | hw
    · exact hin w hw
    · rw [List.mem_singleton.mp hw]
      exact ⟨Nat.le_refl _, Nat.add_le_add_left hbs _⟩
  obtain ⟨hfront, hback⟩ := @writeAll_around f _ mem hall
  have hdrop := @drop_writeAll f ws mem bs hmem hbs
  refine ⟨hall, ?_, ?_, hfront, hback⟩
  · rw [hdrop, List.take_append, List.take_of_length_le hbs, hs]
    simp
  · rw [hdrop, hs, List.append_assoc, cstr_append h0, List.cons_append, cstr_zero,
      List.append_nil]

/-- `strcpy(array, s)`. -/
theorem strcpy_keeps_iff (hmem : f.off + f.size ≤ mem.length) (h0 : 0 ∉ s) :
    f.Keeps [⟨f.off, s ++ [0]⟩] mem s ↔ s.length < f.size := by
  constructor
  · intro h
    have hlast : f.off + (s ++ [0]).length ≤ f.off + f.size :=
      (h.inside _ List.mem_cons_self).2
    rw [List.length_append, List.length_singleton] at hlast
    omega
  · intro h
    have hbs : (s ++ [0]).length ≤ f.size := by rwa [List.length_append]
    have hnone : ∀ w ∈ ([] : List Write), f.Covers w := fun w hw => nomatch hw
    exact keeps_of_last hnone hmem hbs h0 rfl

/-- `strncpy(array, s, sizeof(array))`, after other writes to the array. -/
theorem strncpy_keeps_iff (hin : ∀ w ∈ ws, f.Covers w) (hmem : f.off + f.size ≤ mem.length)
    (h0 : 0 ∉ s) : f.Keeps (ws ++ [⟨f.off, pad f.size s⟩]) mem s ↔ s.length < f.size := by
  have hlen : (pad f.size s).length = f.size := length_pad f.size s
  constructor
  · intro h
    by_contra hge
    have hfull : pad f.size s = s.take f.size := by
      rw [pad, Nat.sub_eq_zero_of_le (Nat.le_of_not_lt hge), List.replicate_zero, List.append_nil]
    have hnul := h.nul
    rw [drop_writeAll hmem (Nat.le_of_eq hlen), List.take_left' hlen, hfull] at hnul
    exact h0 (List.mem_of_mem_take hnul)
  · intro h
    obtain ⟨k, hk⟩ : ∃ k, f.size - s.length = k + 1 := ⟨f.size - s.length - 1, by omega⟩
    refine keeps_of_last hin hmem (Nat.le_of_eq hlen) h0 (t := List.replicate k 0) ?_
    rw [pad, List.take_of_length_le (Nat.le_of_lt h), hk, List.replicate_succ]

/-- Bytes that are there already. -/
theorem poke_same {l bs r : List UInt8} : poke l.length bs (l ++ bs ++ r) = l ++ bs ++ r := by
  have hfront : (l ++ bs ++ r).take l.length = l := by
    rw [List.append_assoc, List.take_left]
  have hback : (l ++ bs ++ r).drop (l.length + bs.length) = r := by
    rw [← List.length_append, List.drop_left]
  rw [poke, hfront, hback, List.take_length]

/-- The NUL of the string may be written once more. -/
theorem Field.Keeps.nul_again (h : f.Keeps ws mem s) (hmem : f.off ≤ mem.length)
    (hs : s.length < f.size) : f.Keeps (ws ++ [⟨f.off + s.length, [0]⟩]) mem s := by
  have hsplit := List.takeWhile_append_dropWhile (p := (· ≠ (0 : UInt8)))
    (l := (writeAll ws mem).drop f.off)
  have hread : ((writeAll ws mem).drop f.off).takeWhile (· ≠ 0) = s := h.reads
  have hend : ((writeAll ws mem).drop f.off).dropWhile (· ≠ 0) ≠ [] := by
    rw [ne_eq, List.dropWhile_eq_nil_iff]
    intro hall
    exact absurd (hall 0 (List.mem_of_mem_take h.nul)) (by decide)
  obtain ⟨c, t, ht⟩ := List.exists_cons_of_ne_nil hend
  have hc : c = 0 := by
    have hhead := List.head?_dropWhile_not (· ≠ (0 : UInt8)) ((writeAll ws mem).drop f.off)
    rw [ht] at hhead
    simpa using hhead
  rw [hread, ht, hc] at hsplit
  have hfront : ((writeAll ws mem).take f.off ++ s).length = f.off + s.length := by
    rw [List.length_append, List.length_take, length_writeAll, Nat.min_eq_left hmem]
  have hall : writeAll ws mem = (writeAll ws mem).take f.off ++ s ++ [0] ++ t := by
    rw [List.append_assoc, List.append_assoc, List.singleton_append, hsplit,
      List.take_append_drop]
  have hsame : writeAll (ws ++ [⟨f.off + s.length, [0]⟩]) mem = writeAll ws mem := by
    rw [writeAll_append_singleton]
    show poke (f.off + s.length) [0] (writeAll ws mem) = _
    rw [hall, ← hfront]
    exact poke_same
  refine ⟨fun w hw => ?_, ?_, ?_, ?_, ?_⟩
  · rcases List.mem_append.mp hw with hw | hw
    · exact h.inside w hw
    · rw [List.mem_singleton.mp hw]
      exact ⟨Nat.le_add_right _ _, Nat.add_lt_add_left hs _⟩
  · rw [hsame]
    exact h.nul
  · rw [hsame]
    exact h.reads
  · rw [hsame]
    exact h.front
  · rw [hsame]
    exact h.back

end Copies
end TBDChat.Bytes
