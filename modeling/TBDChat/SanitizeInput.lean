import TBDChat.Execution

/-!
# `sanitizeInput` in memory

`sanitizeInput` and the three name validators, at the level of the pointers they work
with: `buf` goes over a string that the loop changes, and the loop ends when it meets the
`end` computed before.  `Text` has the same functions on strings; here is that the loop
comes to its end, that it writes inside the string only, and what it leaves there.
-/

namespace TBDChat
open Bytes Atomic

set_option maxRecDepth 8000

/-- `strlen(buf)`. -/
def strlen (mem : List UInt8) (buf : Nat) : Nat := (cstr (mem.drop buf)).length

/-- `strspn(buf, accept)`: the string ends it as well. -/
def strspn (mem : List UInt8) (buf : Nat) (accept : Str) : Nat :=
  ((cstr (mem.drop buf)).takeWhile accept.contains).length

/-- The set that `type` chooses. -/
def safeChars (type : Int) : Str := if type = 0 then safe_buf_chars else safe_name_chars

/-- The `for` loop of `sanitizeInput` from the step of `buf` on.  It has no result if it
has not met `end` after `fuel` tests, or goes on at an address that is not in the memory.
`i` is at most the length of the string, which an `int` holds for all arrays there are. -/
def sanitizeFor (safe : Str) (stop : Nat) : Nat → List UInt8 → Nat → Nat →
    Option (List UInt8 × Nat)
  | 0, _, _, _ => none
  | fuel + 1, mem, buf, i =>
    let buf := buf + strspn mem buf safe
    if buf = stop then some (mem, i)
    else if buf < mem.length then sanitizeFor safe stop fuel (mem.set buf 95) buf (i + 1)
    else none

/-- `sanitizeInput(buf, type)`: the memory afterwards and what is returned. -/
def sanitizeInputAt (fuel : Nat) (type : Int) (mem : List UInt8) (buf : Nat) :
    Option (List UInt8 × Nat) :=
  sanitizeFor (safeChars type) (buf + strlen mem buf) fuel mem buf 0

/-- A validator's tests of the name at `name`: the memory afterwards and what is returned. -/
def validNameAt (fuel limit : Nat) (mem : List UInt8) (name : Nat) :
    Option (List UInt8 × Bool) := do
  let (mem, unsafe_chars) ← sanitizeInputAt fuel 1 mem name
  if unsafe_chars ≠ 0 then pure (mem, false)
  else if strlen mem name < 3 then pure (mem, false)
  else if strlen mem name > limit then pure (mem, false)
  else pure (mem, true)

/-- The three validators. -/
inductive Validator where
  | username | realname | roomname

/-- The greatest length that a validator accepts. -/
def Validator.limit : Validator → Nat
  | .username => USERNAME_LENGTH
  | .realname => REALNAME_LENGTH
  | .roomname => ROOMNAME_LENGTH

/-- What the handlers call. -/
def Validator.call (env : Env) : Validator → Str → Int → Handler Bool
  | .username => validUsername env
  | .realname => validRealname env
  | .roomname => validRoomname env

section Scans
variable {pre s rest : List UInt8} {safe : Str}

/-- The string at an address is what lies there up to its NUL. -/
theorem cstr_at (hs : 0 ∉ s) : cstr ((pre ++ s ++ 0 :: rest).drop pre.length) = s := by
  have hpass : ∀ c ∈ s, decide (c ≠ 0) = true := by
    intro c hc
    rw [decide_eq_true_eq]
    rintro rfl
    exact hs hc
  rw [List.append_assoc, List.drop_left, cstr, List.takeWhile_append_of_pos hpass,
    List.takeWhile_cons_of_neg (by simp), List.append_nil]

theorem strlen_at (hs : 0 ∉ s) : strlen (pre ++ s ++ 0 :: rest) pre.length = s.length := by
  rw [strlen, cstr_at hs]

theorem strspn_at (hs : 0 ∉ s) : strspn (pre ++ s ++ 0 :: rest) pre.length safe =
    (s.takeWhile safe.contains).length := by
  rw [strspn, cstr_at hs]

/-- A character in the string is overwritten. -/
theorem set_at (pre : List UInt8) (c d : UInt8) (t : List UInt8) :
    (pre ++ c :: t).set pre.length d = pre ++ d :: t := by
  rw [List.set_append_right _ _ (Nat.le_refl _), Nat.sub_self, List.set_cons_zero]

end Scans

/-- The characters that are replaced. -/
def unsafeCount (safe s : Str) : Nat := s.countP fun c => !safe.contains c

section Loop
variable {pre s w t rest : List UInt8} {c : UInt8} {safe : Str} {fuel i : Nat}

theorem unsafeCount_eq_zero : unsafeCount safe s = 0 ↔ ∀ c ∈ s, c ∈ safe := by
  simp [unsafeCount, List.countP_eq_zero]

/-- A replaced character is safe afterwards. -/
theorem unsafeCount_round (h95 : 95 ∈ safe) (hw : ∀ c ∈ w, c ∈ safe) (hc : c ∉ safe) :
    unsafeCount safe (w ++ c :: t) = unsafeCount safe (95 :: t) + 1 := by
  have hfront := unsafeCount_eq_zero.mpr hw
  unfold unsafeCount at hfront ⊢
  rw [List.countP_append, hfront, List.countP_cons_of_pos (by simpa using hc),
    List.countP_cons_of_neg (by simpa using h95), Nat.zero_add]

/-- Either the rest of the string is safe, or there is a first character that is not. -/
theorem safe_or_first (safe s : Str) : (∀ c ∈ s, c ∈ safe) ∨
    ∃ w c t, s = w ++ c :: t ∧ (∀ c ∈ w, c ∈ safe) ∧ c ∉ safe := by
  cases hfind : s.find? fun c => !safe.contains c with
  | none =>
    refine .inl fun c hc => ?_
    simpa using List.find?_eq_none.mp hfind c hc
  | some c =>
    obtain ⟨hc, w, t, rfl, hw⟩ := List.find?_eq_some_iff_append.mp hfind
    refine .inr ⟨w, c, t, rfl, fun x hx => ?_, ?_⟩
    · simpa using hw x hx
    · simpa using hc

theorem sanitizeFor_last (hs : 0 ∉ s) (hsafe : ∀ c ∈ s, c ∈ safe) :
    sanitizeFor safe (pre.length + s.length) (fuel + 1) (pre ++ s ++ 0 :: rest) pre.length i =
      some (pre ++ s ++ 0 :: rest, i) := by
  have hpass : s.takeWhile safe.contains = s :=
    List.takeWhile_eq_self_iff.mpr fun c hc => by simpa using hsafe c hc
  rw [sanitizeFor, strspn_at hs, hpass, if_pos rfl]

/-- A round of the loop replaces the first character that is not safe. -/
theorem sanitizeFor_round (hs : 0 ∉ w ++ c :: t) (hw : ∀ c ∈ w, c ∈ safe) (hc : c ∉ safe) :
    sanitizeFor safe (pre.length + (w ++ c :: t).length) (fuel + 1)
        (pre ++ (w ++ c :: t) ++ 0 :: rest) pre.length i =
      sanitizeFor safe ((pre ++ w).length + (95 :: t).length) fuel
        (pre ++ w ++ 95 :: t ++ 0 :: rest) (pre ++ w).length (i + 1) := by
  have hpass : (w ++ c :: t).takeWhile safe.contains = w := by
    rw [List.takeWhile_append_of_pos fun c hc => by simpa using hw c hc,
      List.takeWhile_cons_of_neg (by simpa using hc), List.append_nil]
  have hstop : pre.length + (w ++ c :: t).length = (pre ++ w).length + (95 :: t).length := by
    simp only [List.length_append, List.length_cons]
    omega
  have hmem : pre ++ (w ++ c :: t) ++ 0 :: rest = pre ++ w ++ c :: (t ++ 0 :: rest) := by
    simp only [List.append_assoc, List.cons_append]
  have hin : (pre ++ w).length < (pre ++ w ++ c :: (t ++ 0 :: rest)).length := by
    rw [@List.length_append _ _ (c :: (t ++ 0 :: rest))]
    exact Nat.lt_add_of_pos_right (Nat.succ_pos _)
  have hnot : (pre ++ w).length ≠ (pre ++ w).length + (95 :: t).length := by
    rw [List.length_cons]
    omega
  rw [sanitizeFor, strspn_at hs, hpass, ← List.length_append, hstop, hmem,
    if_neg hnot, if_pos hin, set_at,
    List.append_assoc _ (95 :: t), List.cons_append]

/-- **The loop**, by induction on the tests that are left: what is behind `buf` is still to
be scanned. -/
theorem sanitizeFor_eq (h95 : 95 ∈ safe) (hs : 0 ∉ s) (hfuel : unsafeCount safe s < fuel) :
    sanitizeFor safe (pre.length + s.length) fuel (pre ++ s ++ 0 :: rest) pre.length i =
      some (pre ++ s.map (sanitized safe) ++ 0 :: rest, i + unsafeCount safe s) := by
  induction fuel generalizing pre s i with
  | zero => exact absurd hfuel (Nat.not_lt_zero _)
  | succ fuel ih =>
    rcases safe_or_first safe s with hsafe | ⟨w, c, t, rfl, hw, hc⟩
    · rw [sanitizeFor_last hs hsafe, map_sanitized hsafe, unsafeCount_eq_zero.mpr hsafe,
        Nat.add_zero]
    · have hround := unsafeCount_round (t := t) h95 hw hc
      have ht : 0 ∉ 95 :: t := by
        rw [List.mem_append, List.mem_cons, not_or, not_or] at hs
        rw [List.mem_cons, not_or]
        exact ⟨by decide, hs.2.2⟩
      have hmap : (w ++ c :: t).map (sanitized safe) =
          w ++ (95 :: t).map (sanitized safe) := by
        rw [List.map_append, map_sanitized hw]
        simp [sanitized, hc, h95]
      rw [sanitizeFor_round hs hw hc, ih ht (by omega), hmap, hround, Nat.add_right_comm,
        List.append_assoc pre w, Nat.add_assoc]

theorem underscore_safe (type : Int) : 95 ∈ safeChars type := by
  unfold safeChars
  split <;> decide

/-- The call on a string of memory, with a bound on the tests that does for each string. -/
theorem sanitizeInputAt_eq (type : Int) (hs : 0 ∉ s) (hfuel : s.length < fuel) :
    sanitizeInputAt fuel type (pre ++ s ++ 0 :: rest) pre.length =
      some (pre ++ s.map (sanitized (safeChars type)) ++ 0 :: rest,
        unsafeCount (safeChars type) s) := by
  have hcount : unsafeCount (safeChars type) s < fuel :=
    Nat.lt_of_le_of_lt List.countP_le_length hfuel
  rw [sanitizeInputAt, strlen_at hs, sanitizeFor_eq (underscore_safe type) hs hcount,
    Nat.zero_add]

/-- The NUL is never put into the string. -/
theorem zero_not_mem_sanitized (hs : 0 ∉ s) : 0 ∉ s.map (sanitized safe) := by
  rw [List.mem_map]
  rintro ⟨c, hc, hzero⟩
  rw [sanitized] at hzero
  split at hzero
  · exact hs (hzero ▸ hc)
  · cases hzero

theorem sanitized_safe (h95 : 95 ∈ safe) (s : Str) : ∀ c ∈ s.map (sanitized safe), c ∈ safe := by
  intro c hc
  obtain ⟨d, -, rfl⟩ := List.mem_map.mp hc
  rw [sanitized]
  split
  · assumption
  · exact h95

/-- The validators' tests in memory are those that `acceptsName` makes of the string. -/
theorem validNameAt_eq (limit : Nat) (hs : 0 ∉ s) (hfuel : s.length < fuel) :
    validNameAt fuel limit (pre ++ s ++ 0 :: rest) pre.length =
      some (pre ++ s.map (sanitized safe_name_chars) ++ 0 :: rest, acceptsName limit s) := by
  have hcall := @sanitizeInputAt_eq pre s rest fuel 1 hs hfuel
  have hlen : strlen (pre ++ s.map (sanitized safe_name_chars) ++ 0 :: rest) pre.length =
      s.length := by
    rw [strlen_at (zero_not_mem_sanitized hs), List.length_map]
  have hzero : (sanitizeInput s 1).2 = 0 ↔ unsafeCount safe_name_chars s = 0 :=
    sanitizeLoop_eq_zero.trans unsafeCount_eq_zero.symm
  change _ = some (pre ++ s.map (sanitized safe_name_chars) ++ 0 :: rest,
    unsafeCount safe_name_chars s) at hcall
  rw [validNameAt, hcall]
  show (if unsafeCount safe_name_chars s ≠ 0 then _ else _) = _
  rw [acceptsName]
  by_cases hcount : unsafeCount safe_name_chars s = 0
  · rw [if_neg (not_not.mpr hcount), hlen]
    by_cases hshort : s.length < 3
    · rw [if_pos hshort]
      simp [Nat.not_le_of_lt hshort]
    · rw [if_neg hshort]
      by_cases hlong : s.length > limit
      · rw [if_pos hlong]
        simp [Nat.not_le_of_lt hlong]
      · rw [if_neg hlong]
        simp [hzero.mpr hcount, Nat.le_of_not_lt hshort, Nat.le_of_not_lt hlong]
  · rw [if_pos hcount]
    simp [mt hzero.mp hcount]

/-- What the handlers get from a validator. -/
theorem call_eq (env : Env) (v : Validator) (name : Str) (client : Int) (σ : Server) :
    ∃ es, ops.run (v.call env name client) σ = .ok (acceptsName v.limit name, σ, es) := by
  cases v <;> exact ⟨_, run_validName ..⟩

end Loop

/-- **What `sanitizeInput` and the validators do** with the string `s` at an address. -/
structure Specified (type : Int) (pre s rest : List UInt8) : Prop where
  /-- It ends, within as many tests as the string has bytes with its NUL, it returns the
  number of characters that it replaced, and has written nowhere but in the string. -/
  returns : ∃ out : Str, 0 ∉ out ∧ out.length = s.length ∧
    (∀ k, (hk : k < s.length) → out[k]? =
      some (if s[k] ∈ safeChars type then s[k] else 95)) ∧
    (∀ fuel, s.length < fuel → sanitizeInputAt fuel type (pre ++ s ++ 0 :: rest) pre.length =
      some (pre ++ out ++ 0 :: rest, unsafeCount (safeChars type) s)) ∧
    -- a second call
    ∀ fuel, s.length < fuel → sanitizeInputAt fuel type (pre ++ out ++ 0 :: rest) pre.length =
      some (pre ++ out ++ 0 :: rest, 0)
  safe : unsafeCount (safeChars type) s = 0 ↔ ∀ c ∈ s, c ∈ safeChars type
  validates : ∀ v : Validator, ∃ (mem : List UInt8) (accepted : Bool),
    (∀ fuel, s.length < fuel →
      validNameAt fuel v.limit (pre ++ s ++ 0 :: rest) pre.length = some (mem, accepted)) ∧
    (accepted = true ↔ (∀ c ∈ s, c ∈ safe_name_chars) ∧ 3 ≤ s.length ∧ s.length ≤ v.limit) ∧
    (accepted = true → mem = pre ++ s ++ 0 :: rest) ∧
    ∀ env client σ, ∃ es, ops.run (v.call env s client) σ = .ok (accepted, σ, es)

/-- `sanitizeInput` and the validators meet their specification on every string. -/
theorem sanitize_input_spec (type : Int) (pre s rest : List UInt8) (hs : 0 ∉ s) :
    Specified type pre s rest := by
  refine ⟨⟨s.map (sanitized (safeChars type)), zero_not_mem_sanitized hs, List.length_map .., ?_,
    fun fuel hfuel => sanitizeInputAt_eq type hs hfuel, fun fuel hfuel => ?_⟩,
    unsafeCount_eq_zero, fun v => ?_⟩
  · intro k hk
    rw [List.getElem?_map, List.getElem?_eq_getElem hk]
    rfl
  · have hsafe := sanitized_safe (underscore_safe type) s
    rw [sanitizeInputAt_eq type (zero_not_mem_sanitized hs) (by rwa [List.length_map]),
      map_sanitized hsafe, unsafeCount_eq_zero.mpr hsafe]
  · refine ⟨_, _, fun fuel hfuel => validNameAt_eq v.limit hs hfuel, acceptsName_iff, ?_,
      fun env client σ => call_eq env v s client σ⟩
    intro haccepted
    rw [map_sanitized (acceptsName_iff.mp haccepted).1]

/-- A text with a tab in it. -/
theorem sanitize_input_tab : 0 ∉ str "a\tb" ∧ Specified 0 [0] (str "a\tb") [98, 0] :=
  ⟨by decide, sanitize_input_spec 0 [0] (str "a\tb") [98, 0] (by decide)⟩

end TBDChat
