import TBDChat.Server
import TBDChat.Lib.Fields
import Mathlib.Data.List.Induction

/-!
# The line that the user types

`userInput` of `chat_client.c` puts each key behind the text in the packet with `strcat`, to
which it passes the address of an `int`, and counts it in `i`.  A character is a string of
one byte, so the count is the length of the text.  The code of an arrow or a function key is
one of two bytes, and a NUL has none.
-/

namespace TBDChat
open Bytes

set_option maxRecDepth 8000

/-- Values of `getch` in `curses.h`. -/
def ERR : Int := -1
def KEY_LEFT : Int := 260
def KEY_RESIZE : Int := 410

def BUFFERSIZE : Nat := 128

/-- `buf` in the memory of the packet from there on. -/
def bufArray : Field := ⟨0, BUFFERSIZE⟩

/-- The string at the address of an `int`. -/
def keyString (ch : Int) : Str := cstr (leInt ch)

/-- The packet from `buf` on, and `i`. -/
structure Input where
  mem : List UInt8
  i : Nat

namespace Input

/-- `strcat(tx_pkt->buf, (char *)&ch)`. -/
def strcat (mem : List UInt8) (ch : Int) : Write := ⟨(cstr mem).length, keyString ch ++ [0]⟩

/-- What is written for a key, and `i` afterwards. -/
def key (s : Input) (ch : Int) : List Write × Nat :=
  if ch = 8 ∨ ch = 127 ∨ ch = KEY_LEFT then
    if 0 < s.i then ([⟨s.i - 1, [0]⟩], s.i - 1) else ([], s.i)
  else if ch = KEY_RESIZE then ([], s.i)
  else if ch ≠ ERR then
    if s.i < BUFFERSIZE - 1 then ([strcat s.mem ch], s.i + 1)
    else ([⟨s.i - 1, [0]⟩, strcat (poke (s.i - 1) [0] s.mem) ch], s.i)
  else ([], s.i)

def step (s : Input) (ch : Int) : Input := ⟨writeAll (s.key ch).1 s.mem, (s.key ch).2⟩

end Input

/-- The loop of `userInput`, up to the newline that ends it: the packet and the value
returned. -/
def userInput (s : Input) : List Int → Option Input
  | [] => none
  | ch :: keys => if ch = 10 then some ⟨poke s.i [0] s.mem, s.i⟩ else userInput (s.step ch) keys

namespace Input

/-- A zeroed packet: behind `buf` there are two arrays of 64 bytes, `options` and padding. -/
def start : Input := ⟨List.replicate 264 0, 0⟩

/-- After so many keys. -/
def typed (keys : List Int) : Input := keys.foldl step start

/-- `i` is the length of the text. -/
structure Counted (s : Input) : Prop where
  length : s.i = (cstr s.mem).length
  bound : s.i ≤ 127

/-- With every key the writes keep to `buf` and the count to the text, and with the newline
it is returned. -/
structure KeepsCount (keys : List Int) : Prop where
  inside : ∀ front ch, front ++ [ch] <+: keys → ∀ w ∈ ((typed front).key ch).1, bufArray.Covers w
  counted : ∀ front, front <+: keys → (typed front).Counted
  returned : ∃ s, userInput start (keys ++ [10]) = some s ∧ s.i < BUFFERSIZE ∧
    cstr s.mem = cstr (typed keys).mem ∧ s.i = (cstr s.mem).length

/-- The key is put into the text. -/
def Appended (ch : Int) : Prop :=
  ¬ (ch = 8 ∨ ch = 127 ∨ ch = KEY_LEFT) ∧ ch ≠ KEY_RESIZE ∧ ch ≠ ERR

instance (ch : Int) : Decidable (Appended ch) := inferInstanceAs (Decidable (_ ∧ _))

/-! ## One key -/

section Key
variable {s : Input} {ch : Int} {mem bs : List UInt8}

theorem length_keyString (ch : Int) : (keyString ch).length ≤ 4 :=
  (List.takeWhile_sublist _).length_le

/-- What a key is put behind becomes longer by it. -/
theorem cstr_strcat (ch : Int) (h : (cstr mem).length + 4 < mem.length) :
    cstr (writeAll [strcat mem ch] mem) = cstr mem ++ keyString ch :=
  cstr_poke_append (zero_not_mem_cstr _) (by have hlen := length_keyString ch; omega)

@[simp] theorem length_step (s : Input) (ch : Int) : (s.step ch).mem.length = s.mem.length :=
  length_writeAll ..

/-- Where the key is put there is one character less before, if the line is full. -/
theorem key_appended (hs : s.Counted) (hmem : s.mem.length = 264) (h : Appended ch) :
    cstr (s.step ch).mem = (cstr s.mem).take 126 ++ keyString ch ∧
      (s.step ch).i = min (s.i + 1) 127 ∧
      ∀ w ∈ (s.key ch).1, w.off + w.bytes.length ≤ min s.i 126 + (keyString ch).length + 1 := by
  obtain ⟨hback, hresize, herr⟩ := h
  obtain ⟨hlen, hbound⟩ := hs
  rw [step, key, if_neg hback, if_neg hresize, if_pos herr]
  have hsize : BUFFERSIZE - 1 = 127 := rfl
  rw [hsize]
  by_cases hfull : s.i < 127
  · rw [if_pos hfull]
    refine ⟨?_, ?_, ?_⟩
    · rw [List.take_of_length_le (by omega)]
      exact cstr_strcat ch (by omega)
    · show s.i + 1 = min (s.i + 1) 127
      omega
    · intro w hw
      rw [List.mem_singleton.mp hw, strcat, List.length_append, List.length_singleton]
      dsimp only
      omega
  · rw [if_neg hfull]
    have h126 : s.i - 1 = 126 := by omega
    have hcut : cstr (poke 126 [0] s.mem) = (cstr s.mem).take 126 := cstr_poke_nul 126 s.mem
    have hcutlen : (cstr (poke 126 [0] s.mem)).length = 126 := by
      rw [hcut, List.length_take]
      omega
    rw [h126]
    refine ⟨?_, ?_, ?_⟩
    · rw [← hcut]
      exact cstr_strcat ch (by rw [length_poke, hcutlen, hmem]; decide)
    · show s.i = min (s.i + 1) 127
      omega
    · intro w hw
      rcases List.mem_pair.mp hw with rfl | rfl
      · simp only [List.length_singleton]
        omega
      · rw [strcat, hcutlen, List.length_append, List.length_singleton]
        dsimp only
        omega

/-- A key that is one character keeps the count right. -/
theorem counted_appended (hs : s.Counted) (hmem : s.mem.length = 264) (h : Appended ch)
    (hone : (keyString ch).length = 1) :
    (s.step ch).Counted ∧ ∀ w ∈ (s.key ch).1, bufArray.Covers w := by
  obtain ⟨htext, hcount, hwrites⟩ := key_appended hs hmem h
  obtain ⟨hlen, hbound⟩ := hs
  refine ⟨⟨?_, ?_⟩, fun w hw => ⟨Nat.zero_le _, ?_⟩⟩
  · rw [htext, hcount, List.length_append, List.length_take, hone]
    omega
  · rw [hcount]
    exact Nat.min_le_right _ _
  · have hend := hwrites w hw
    rw [hone] at hend
    have hsize : bufArray.off + bufArray.size = 128 := rfl
    omega

/-- A key that is none, or more than one, does not. -/
theorem not_counted_appended (hs : s.Counted) (hmem : s.mem.length = 264) (h : Appended ch)
    (hone : (keyString ch).length ≠ 1) : ¬ (s.step ch).Counted := by
  intro hafter
  obtain ⟨htext, hcount, -⟩ := key_appended hs hmem h
  have hlen := hafter.length
  rw [htext, hcount, List.length_append, List.length_take, ← hs.length] at hlen
  have hbound := hs.bound
  omega

/-- A backspace takes a character off, and the other keys that are not put into the text do
nothing. -/
theorem counted_other (hs : s.Counted) (h : ¬ Appended ch) :
    (s.step ch).Counted ∧ ∀ w ∈ (s.key ch).1, bufArray.Covers w := by
  obtain ⟨hlen, hbound⟩ := hs
  have hkey : s.key ch = ([], s.i) ∨ (0 < s.i ∧ s.key ch = ([⟨s.i - 1, [0]⟩], s.i - 1)) := by
    rw [key]
    split
    · split
      · exact .inr ⟨‹_›, rfl⟩
      · exact .inl rfl
    rename_i hback
    split
    · exact .inl rfl
    rename_i hresize
    split
    · rename_i herr
      exact absurd ⟨hback, hresize, herr⟩ h
    · exact .inl rfl
  rcases hkey with hkey | ⟨hpos, hkey⟩
  · rw [step, hkey]
    exact ⟨⟨hlen, hbound⟩, fun w hw => absurd hw List.not_mem_nil⟩
  · rw [step, hkey]
    refine ⟨⟨?_, Nat.le_trans (Nat.sub_le _ _) hbound⟩, fun w hw => ?_⟩
    · have hcut : cstr (writeAll [⟨s.i - 1, [0]⟩] s.mem) = (cstr s.mem).take (s.i - 1) :=
        cstr_poke_nul _ _
      rw [hcut, List.length_take]
      dsimp only
      omega
    · rw [List.mem_singleton.mp hw]
      refine ⟨Nat.zero_le _, ?_⟩
      have hsize : bufArray.off + bufArray.size = 128 := rfl
      rw [hsize, List.length_singleton]
      dsimp only
      omega

end Key

/-! ## All keys of a line -/

section Line
variable {keys front : List Int} {ch : Int}

theorem typed_append_singleton : typed (front ++ [ch]) = (typed front).step ch :=
  List.foldl_append ..

theorem length_typed (keys : List Int) : (typed keys).mem.length = 264 := by
  induction keys using List.reverseRecOn with
  | nil => rfl
  | append_singleton keys ch ih => rw [typed_append_singleton, length_step, ih]

theorem start_counted : start.Counted := ⟨by decide, by decide⟩

/-- Where each key that is put into the text is one character, the count is right throughout. -/
theorem typed_counted (h : ∀ ch ∈ keys, Appended ch → (keyString ch).length = 1) :
    (typed keys).Counted := by
  induction keys using List.reverseRecOn with
  | nil => exact start_counted
  | append_singleton keys ch ih =>
    have hbefore := ih fun c hc => h c (List.mem_append_left _ hc)
    rw [typed_append_singleton]
    by_cases happ : Appended ch
    · exact (counted_appended hbefore (length_typed keys) happ (h ch (by simp) happ)).1
    · exact (counted_other hbefore happ).1

/-- The loop goes on up to the newline. -/
theorem userInput_eq (s : Input) (hnl : 10 ∉ keys) : userInput s (keys ++ [10]) =
    some ⟨poke (keys.foldl step s).i [0] (keys.foldl step s).mem, (keys.foldl step s).i⟩ := by
  induction keys generalizing s with
  | nil => rfl
  | cons ch keys ih =>
    obtain ⟨hch, hkeys⟩ := not_or.mp (List.mem_cons.not.mp hnl)
    rw [List.cons_append, userInput, if_neg (Ne.symm hch)]
    exact ih (s.step ch) hkeys

/-- **When `i` is the length of the text**: in every line just if each key that is put into
the text is one character. -/
theorem keepsCount_iff (hnl : 10 ∉ keys) :
    KeepsCount keys ↔ ∀ ch ∈ keys, Appended ch → (keyString ch).length = 1 := by
  constructor
  · intro h ch hch happ
    by_contra hone
    obtain ⟨front, rest, rfl⟩ := List.append_of_mem hch
    have hbefore := h.counted front (List.prefix_append _ _)
    have hafter := h.counted (front ++ [ch]) ⟨rest, by simp⟩
    rw [typed_append_singleton] at hafter
    exact not_counted_appended hbefore (length_typed front) happ hone hafter
  · intro h
    have hcounted (front : List Int) (hfront : front <+: keys) : (typed front).Counted :=
      typed_counted fun ch hch => h ch (hfront.subset hch)
    refine ⟨fun front ch hfront => ?_, hcounted, ?_⟩
    · have hbefore := hcounted front ((List.prefix_append _ _).trans hfront)
      by_cases happ : Appended ch
      · have hone := h ch (hfront.subset (by simp)) happ
        exact (counted_appended hbefore (length_typed front) happ hone).2
      · exact (counted_other hbefore happ).2
    · obtain ⟨hlen, hbound⟩ := hcounted keys (List.prefix_refl _)
      have htext : cstr (poke (typed keys).i [0] (typed keys).mem) = cstr (typed keys).mem := by
        rw [cstr_poke_nul, List.take_of_length_le (Nat.le_of_eq hlen.symm)]
      exact ⟨_, userInput_eq start hnl, Nat.lt_succ_of_le hbound, htext,
        hlen.trans (congrArg _ htext.symm)⟩

end Line

/-- `hi` with a backspace between. -/
theorem keepsCount_hi : KeepsCount [104, 120, 127, 105] ↔
    ∀ ch ∈ ([104, 120, 127, 105] : List Int), Appended ch → (keyString ch).length = 1 :=
  keepsCount_iff (by decide)

/-- The arrow up is 259, a string of two bytes. -/
theorem arrow_miscounted : ¬ ∀ keys : List Int, 10 ∉ keys → KeepsCount keys := by
  intro h
  have hcounted := (h [259] (by decide)).counted [259] (List.prefix_refl _)
  exact absurd hcounted.length (by decide)

end Input
end TBDChat
