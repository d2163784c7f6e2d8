import TBDChat.Lib.Bytes
import Mathlib.Algebra.Group.Int.Defs

/-!
# Text: words, numbers and safe characters

The string functions the server is written with.  A string is the list of its
bytes before the NUL.  `strsep` and the loop that every command handler splits
its packet text with are here as the code runs them, together with `atoi`, the
decimal `%d`, `sanitizeInput` and the three tests on names that are one test
with different limits.
-/

namespace TBDChat

set_option maxRecDepth 8000

/-- A C string: its bytes, without the terminating NUL. -/
abbrev Str := List UInt8

/-- A string literal of the source. -/
def str (s : String) : Str := s.toList.map (fun c => c.toNat.toUInt8)

/-- The two separators of a command, `" \t"`. -/
def delim : Str := [32, 9]

/-- `strsep(&tmp, delim)`: the string up to the next separator, and what `tmp`
points to afterwards. -/
def strsep (delim : Str) : Option Str → Option Str × Option Str
  | none => (none, none)
  | some s =>
    match s.dropWhile (fun c => !delim.contains c) with
    | [] => (some s, none)
    | _ :: rest => (some (s.takeWhile (fun c => !delim.contains c)), some rest)

/-- The loop that fills `args`: `fuel` is what is left of the loop bound
`i < sizeof(args) - 1`.  The NULL that ends the loop is not in the result, whose
length is the final `i`. -/
def strsepLoop (delim : Str) : Nat → Option Str → List Str
  | 0, tmp => (strsep delim tmp).1.toList
  | fuel + 1, tmp =>
    match strsep delim tmp with
    | (none, _) => []
    | (some w, tmp) => w :: strsepLoop delim fuel tmp

/-- The words of a packet text; `sizeof(args)` is 128. -/
def words (buf : Str) : List Str := strsepLoop delim 127 (some buf)

section Words
variable {d w s : Str}

theorem dropWhile_eq_nil_of_free (h : ∀ c ∈ w, c ∉ d) :
    w.dropWhile (fun c => !d.contains c) = [] := by
  rw [List.dropWhile_eq_nil_iff]
  intro c hc
  simp [h c hc]

/-- A string without separators is one word. -/
theorem strsep_last (h : ∀ c ∈ w, c ∉ d) : strsep d (some w) = (some w, none) := by
  simp only [strsep, dropWhile_eq_nil_of_free h]

/-- A word in front of a separator is split off. -/
theorem strsep_first {c : UInt8} {rest : Str} (h : ∀ x ∈ w, x ∉ d) (hc : c ∈ d) :
    strsep d (some (w ++ c :: rest)) = (some w, some rest) := by
  have hp : ∀ x ∈ w, (!d.contains x) = true := fun x hx => by simp [h x hx]
  have hn : (!d.contains c) = false := by simp [hc]
  have hdrop : (w ++ c :: rest).dropWhile (fun x => !d.contains x) = c :: rest := by
    rw [List.dropWhile_append_of_pos hp, List.dropWhile_cons_of_neg (by simp [hc])]
  have htake : (w ++ c :: rest).takeWhile (fun x => !d.contains x) = w := by
    rw [List.takeWhile_append_of_pos hp, List.takeWhile_cons_of_neg (by simp [hc]), List.append_nil]
  simp only [strsep, hdrop, htake]

/-- The token `strsep` returns lies in the string and holds no separator, and
what it leaves is no longer than the string. -/
theorem strsep_some {tmp : Option Str} (h : strsep d (some s) = (some w, tmp)) :
    (∀ c ∈ w, c ∈ s ∧ c ∉ d) ∧ w.length ≤ s.length ∧
      ∀ t, tmp = some t → t.length ≤ s.length ∧ ∀ c ∈ t, c ∈ s := by
  have hw : w = s.takeWhile (fun c => !d.contains c) ∧
      ∀ t, tmp = some t → ∃ c, s.dropWhile (fun c => !d.contains c) = c :: t := by
    simp only [strsep] at h
    cases hcut : s.dropWhile (fun c => !d.contains c) with
    | nil =>
      rw [hcut] at h
      obtain ⟨rfl, rfl⟩ : s = w ∧ none = tmp := by simpa using h
      exact ⟨(List.takeWhile_eq_self_iff.mpr (List.dropWhile_eq_nil_iff.mp hcut)).symm, by simp⟩
    | cons c rest =>
      rw [hcut] at h
      obtain ⟨hw, rfl⟩ := Prod.mk.inj h
      exact ⟨(Option.some.inj hw).symm, fun t ht => ⟨c, by rw [Option.some.inj ht]⟩⟩
  obtain ⟨rfl, htmp⟩ := hw
  refine ⟨fun c hc => ⟨(List.takeWhile_sublist _).subset hc, ?_⟩,
    (List.takeWhile_sublist _).length_le, ?_⟩
  · simpa using List.mem_takeWhile_imp hc
  · intro t ht
    obtain ⟨c, hcons⟩ := htmp t ht
    have hsub : (c :: t).Sublist s := hcons ▸ List.dropWhile_sublist _
    exact ⟨Nat.le_of_succ_le hsub.length_le, fun x hx => hsub.subset (List.mem_cons_of_mem _ hx)⟩

theorem strsepLoop_last {fuel : Nat} (h : ∀ c ∈ w, c ∉ d) :
    strsepLoop d (fuel + 1) (some w) = [w] := by
  rw [strsepLoop, strsep_last h]
  cases fuel <;> rfl

theorem strsepLoop_first {fuel : Nat} {c : UInt8} {rest : Str} (h : ∀ x ∈ w, x ∉ d)
    (hc : c ∈ d) : strsepLoop d (fuel + 1) (some (w ++ c :: rest)) =
      w :: strsepLoop d fuel (some rest) := by
  rw [strsepLoop, strsep_first h hc]

/-- Every word lies in the string and holds no separator. -/
theorem mem_strsepLoop {fuel : Nat} (h : w ∈ strsepLoop d fuel (some s)) :
    w.length ≤ s.length ∧ ∀ c ∈ w, c ∈ s ∧ c ∉ d := by
  induction fuel generalizing s with
  | zero =>
    obtain ⟨a, ha, rfl⟩ : ∃ a, (strsep d (some s)).1 = some a ∧ a = w := by
      simpa [strsepLoop] using h
    have hsep : strsep d (some s) = (some a, (strsep d (some s)).2) := Prod.ext ha rfl
    obtain ⟨hc, hl, -⟩ := strsep_some hsep
    exact ⟨hl, hc⟩
  | succ fuel ih =>
    rw [strsepLoop] at h
    split at h
    · cases h
    · rename_i v tmp hv
      obtain ⟨hc, hl, ht⟩ := strsep_some hv
      rcases List.mem_cons.mp h with rfl | h
      · exact ⟨hl, hc⟩
      · cases tmp with
        | none => cases fuel <;> simp [strsepLoop, strsep] at h
        | some t =>
          obtain ⟨hlt, hct⟩ := ht t rfl
          obtain ⟨hl', hc'⟩ := ih h
          exact ⟨Nat.le_trans hl' hlt, fun c hcw => ⟨hct c (hc' c hcw).1, (hc' c hcw).2⟩⟩

theorem mem_words (h : w ∈ words s) : w.length ≤ s.length ∧ ∀ c ∈ w, c ∈ s ∧ c ∉ delim :=
  mem_strsepLoop h

/-- The text that `register_user` forms for `login` splits into the three words
it was made of. -/
theorem words_login {c u p : Str} (hc : ∀ x ∈ c, x ∉ delim) (hu : ∀ x ∈ u, x ∉ delim)
    (hp : ∀ x ∈ p, x ∉ delim) : words (c ++ 32 :: (u ++ 32 :: p)) = [c, u, p] := by
  have hsp : (32 : UInt8) ∈ delim := by decide
  rw [words, strsepLoop_first hc hsp, strsepLoop_first hu hsp, strsepLoop_last hp]

end Words

/-! ## Numbers -/

/-- A value of type `int` from its bits. -/
def wrap32 (n : Int) : Int := (n + 2 ^ 31) % 2 ^ 32 - 2 ^ 31

/-- `isspace` in the C locale. -/
def isspace (c : UInt8) : Bool := c == 32 || (9 ≤ c && c ≤ 13)

/-- The value of the decimal digits at the head of a string, added to `n`. -/
def decimal : Nat → Str → Nat
  | n, [] => n
  | n, c :: s => if 48 ≤ c && c ≤ 57 then decimal (10 * n + (c.toNat - 48)) s else n

/-- `strtol(s, NULL, 10)`, which saturates at the bounds of a 64-bit `long`. -/
def strtol (s : Str) : Int :=
  match s.dropWhile isspace with
  | [] => 0
  | c :: t =>
    if c = 45 then max (-(decimal 0 t)) (-2 ^ 63)
    else if c = 43 then min (decimal 0 t) (2 ^ 63 - 1)
    else min (decimal 0 (c :: t)) (2 ^ 63 - 1)

/-- `atoi`: the `long` cut down to an `int`. -/
def atoi (s : Str) : Int := wrap32 (strtol s)

/-- `%d`. -/
def dec (n : Int) : Str :=
  let digits : Str := (Nat.toDigits 10 n.natAbs).map (fun c => c.toNat.toUInt8)
  if n < 0 then 45 :: digits else digits

/-- The decimal digits of a number. -/
def digits (n : Nat) : Str := (Nat.toDigits 10 n).map (fun c => c.toNat.toUInt8)

/-- Digits read back as the number they stand for. -/
theorem decimal_digits (n : Nat) (s : Str) : decimal 0 (digits n ++ s) = decimal n s := by
  -- one digit after a number
  have hone (m d : Nat) (hd : d < 10) (s : Str) :
      decimal m (d.digitChar.toNat.toUInt8 :: s) = decimal (10 * m + d) s := by
    have hval : (d.digitChar.toNat.toUInt8).toNat = 48 + d := by
      rw [Nat.toNat_digitChar_of_lt_ten hd, UInt8.toNat_ofNat_of_lt' (by simp [UInt8.size]; omega)]
    rw [decimal, if_pos, hval, Nat.add_sub_cancel_left]
    simp only [Bool.and_eq_true, decide_eq_true_eq, UInt8.le_iff_toNat_le, hval]
    exact ⟨Nat.le_add_right 48 d, by simp; omega⟩
  induction n using Nat.strongRecOn generalizing s with
  | _ n ih =>
    rw [digits, Nat.toDigits_eq_if (by decide)]
    split
    · rename_i hlt
      rw [List.map_singleton, List.singleton_append, hone 0 n hlt, Nat.mul_zero, Nat.zero_add]
    · rename_i hge
      rw [List.map_append, List.map_singleton, List.append_assoc, List.singleton_append]
      have hrec := ih (n / 10) (by omega) ((n % 10).digitChar.toNat.toUInt8 :: s)
      rw [digits] at hrec
      rw [hrec, hone _ _ (Nat.mod_lt n (by decide)), Nat.div_add_mod]

theorem mem_digits {n : Nat} {c : UInt8} (h : c ∈ digits n) : 48 ≤ c ∧ c ≤ 57 := by
  obtain ⟨d, hd, rfl⟩ := List.mem_map.mp h
  have hdigit := Nat.isDigit_of_mem_toDigits (by decide) (by decide) hd
  simp only [Char.isDigit, Bool.and_eq_true, decide_eq_true_eq, UInt32.le_iff_toNat_le] at hdigit
  obtain ⟨hlow, hhigh⟩ : 48 ≤ d.toNat ∧ d.toNat ≤ 57 := hdigit
  have hval : (d.toNat.toUInt8).toNat = d.toNat :=
    UInt8.toNat_ofNat_of_lt' (by simp [UInt8.size]; omega)
  rw [UInt8.le_iff_toNat_le, UInt8.le_iff_toNat_le, hval]
  exact ⟨hlow, hhigh⟩

theorem dec_of_nonneg {n : Int} (h : 0 ≤ n) : dec n = digits n.natAbs :=
  if_neg (Int.not_lt.mpr h)

theorem strtol_digits (n : Nat) : strtol (digits n) = min (n : Int) (2 ^ 63 - 1) := by
  have hval : decimal 0 (digits n) = n := by
    have h := decimal_digits n []
    rwa [List.append_nil] at h
  cases hd : digits n with
  | nil => exact absurd (List.map_eq_nil_iff.mp hd) Nat.toDigits_ne_nil
  | cons c t =>
    obtain ⟨hlow, hhigh⟩ := mem_digits (hd ▸ List.mem_cons_self : c ∈ digits n)
    rw [UInt8.le_iff_toNat_le] at hlow hhigh
    have hspace : isspace c = false := by
      simp only [isspace, Bool.or_eq_false_iff, Bool.and_eq_false_iff, beq_eq_false_iff_ne,
        decide_eq_false_iff_not, ← UInt8.toNat_inj, UInt8.le_iff_toNat_le, ne_eq]
      have h48 : (48 : UInt8).toNat = 48 := rfl
      have h32 : (32 : UInt8).toNat = 32 := rfl
      have h13 : (13 : UInt8).toNat = 13 := rfl
      omega
    rw [hd] at hval
    rw [strtol, List.dropWhile_cons_of_neg (by rw [hspace]; decide)]
    simp only
    rw [if_neg, if_neg, hval]
    · rintro rfl
      exact absurd hlow (by decide)
    · rintro rfl
      exact absurd hlow (by decide)

/-- `atoi` undoes `%d` for the numbers that an `int` can hold. -/
theorem atoi_dec {n : Int} (h0 : 0 ≤ n) (h : n < 2 ^ 31) : atoi (dec n) = n := by
  rw [atoi, dec_of_nonneg h0, strtol_digits, Int.natAbs_of_nonneg h0, wrap32]
  omega

/-! ## Safe characters -/

/-- What a message may hold. -/
def safe_buf_chars : Str :=
  str "abcdefghijklmnopqrstuvwxyz" ++ str "ABCDEFGHIJKLMNOPQRSTUVWXYZ" ++
  str " _,.-/@()*~`&^%$#!?<>'\";:+=[]\x7b\x7d|" ++ str "1234567890"

/-- What a name may hold. -/
def safe_name_chars : Str :=
  str "abcdefghijklmnopqrstuvwxyz" ++ str "ABCDEFGHIJKLMNOPQRSTUVWXYZ" ++
  str " _-" ++ str "1234567890"

/-- The loop of `sanitizeInput` over the string from the current `buf` on:
`strspn` passes the safe characters, the next one becomes `'_'` and is passed
in its turn.  `fuel` bounds the number of characters written. -/
def sanitizeLoop (safe : Str) : Nat → Str → Str × Nat
  | 0, buf => (buf, 0)
  | fuel + 1, buf =>
    match buf.dropWhile safe.contains with
    | [] => (buf, 0)
    | _ :: rest =>
      let (out, i) := sanitizeLoop safe fuel (95 :: rest)
      (buf.takeWhile safe.contains ++ out, i + 1)

/-- `sanitizeInput(buf, type)`: the string afterwards and the number of
characters replaced. -/
def sanitizeInput (buf : Str) (type : Nat) : Str × Nat :=
  sanitizeLoop (if type = 0 then safe_buf_chars else safe_name_chars) buf.length buf

/-- The loop replaces nothing only in a string of safe characters. -/
theorem sanitizeLoop_eq_zero {safe : Str} {buf : Str} :
    (sanitizeLoop safe buf.length buf).2 = 0 ↔ ∀ c ∈ buf, c ∈ safe := by
  cases buf with
  | nil => simp [sanitizeLoop]
  | cons a buf =>
    have hsafe : (∀ c ∈ a :: buf, c ∈ safe) ↔ (a :: buf).dropWhile safe.contains = [] := by
      rw [List.dropWhile_eq_nil_iff]
      simp
    rw [hsafe, List.length_cons, sanitizeLoop]
    split
    · rename_i h; simp [h]
    · rename_i h; simp [h]

/-- The character that `sanitizeInput` leaves. -/
def sanitized (safe : Str) (c : UInt8) : UInt8 := if c ∈ safe then c else 95

/-- A string of safe characters stays what it is. -/
theorem map_sanitized {safe buf : Str} (h : ∀ c ∈ buf, c ∈ safe) :
    buf.map (sanitized safe) = buf := by
  have hid : buf.map (sanitized safe) = buf.map id :=
    List.map_congr_left fun c hc => if_pos (h c hc)
  rw [hid, List.map_id]

/-- The loop replaces every character that is not safe, and no other, given as
many rounds as there are such characters. -/
theorem sanitizeLoop_eq_map {safe : Str} (h95 : 95 ∈ safe) {fuel : Nat} {buf : Str}
    (hfuel : buf.countP (fun c => !safe.contains c) ≤ fuel) :
    (sanitizeLoop safe fuel buf).1 = buf.map (sanitized safe) := by
  induction fuel generalizing buf with
  | zero =>
    refine (map_sanitized fun c hc => ?_).symm
    simpa using List.countP_eq_zero.mp (Nat.le_zero.mp hfuel) c hc
  | succ fuel ih =>
    have htake : ∀ c ∈ buf.takeWhile safe.contains, c ∈ safe := fun c hc => by
      simpa using List.mem_takeWhile_imp hc
    have hsplit := List.takeWhile_append_dropWhile (p := safe.contains) (l := buf)
    rw [sanitizeLoop]
    split
    · rename_i hdrop
      rw [hdrop, List.append_nil] at hsplit
      rw [hsplit] at htake
      exact (map_sanitized htake).symm
    · rename_i c rest hdrop
      have hc : c ∉ safe := by
        have hhead := List.head_dropWhile_not safe.contains (l := buf) (by rw [hdrop]; simp)
        simpa [hdrop] using hhead
      -- the round replaces `c`, and the `'_'` in its place is safe
      have hrest : (95 :: rest).countP (fun c => !safe.contains c) ≤ fuel := by
        rw [← hsplit, hdrop, List.countP_append,
          List.countP_cons_of_pos (by simpa using hc)] at hfuel
        rw [List.countP_cons_of_neg (by simpa using h95)]
        omega
      have hmap : buf.map (sanitized safe) =
          buf.takeWhile safe.contains ++ (95 :: rest).map (sanitized safe) := by
        rw [← congrArg (List.map (sanitized safe)) hsplit, hdrop, List.map_append,
          map_sanitized htake]
        simp [sanitized, hc, h95]
      show buf.takeWhile safe.contains ++ (sanitizeLoop safe fuel (95 :: rest)).1 = _
      rw [hmap, ih hrest]

/-- `sanitizeInput` replaces just the characters that are not safe. -/
theorem sanitizeInput_eq_map (buf : Str) :
    (sanitizeInput buf 0).1 = buf.map (sanitized safe_buf_chars) :=
  sanitizeLoop_eq_map (by decide) List.countP_le_length

/-- The tests that `validUsername`, `validRealname` and `validRoomname` make of
a name: nothing to sanitize, and a length from 3 to the limit. -/
def acceptsName (limit : Nat) (name : Str) : Bool :=
  (sanitizeInput name 1).2 = 0 && 3 ≤ name.length && name.length ≤ limit

theorem acceptsName_iff {limit : Nat} {name : Str} :
    acceptsName limit name = true ↔
      (∀ c ∈ name, c ∈ safe_name_chars) ∧ 3 ≤ name.length ∧ name.length ≤ limit := by
  have hz : (sanitizeInput name 1).2 = 0 ↔ ∀ c ∈ name, c ∈ safe_name_chars :=
    sanitizeLoop_eq_zero
  simp only [acceptsName, Bool.and_eq_true, decide_eq_true_eq, hz, and_assoc]

/-- The tests that `validPassword` makes of the two passwords. -/
def acceptsPassword (pass1 pass2 : Str) : Bool :=
  pass1 = pass2 && 3 ≤ pass1.length && pass1.length ≤ 32

example : words (str "/join  Den 1000") = [str "/join", [], str "Den", str "1000"] := by decide
example : atoi (str " -12x") = -12 ∧ atoi (str "4294968296") = 1000 := by decide
example : dec 1002 = str "1002" ∧ dec (-1) = str "-1" := by decide
example : sanitizeInput (str "a\tb\nc") 1 = (str "a_b_c", 2) := by decide

end TBDChat
