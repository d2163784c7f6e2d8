import TBDChat.CommandArgs
import TBDChat.CurrentRoom

/-!
# Commands that the client turns into requests

`validInvite`, `validJoin` and `serverLogin` of `client_commands.c` split the command with
the loop of the server's handlers, but never set the `i` that it begins with.  They look for
the word behind the command at `args[9]`, where it is if `i` happened to be 8, and take the
final `i` for a sign that there is one.
-/

namespace TBDChat

set_option maxRecDepth 8000

/-- What is stored in `args`, and at which index. -/
abbrev IntStore := Option Str × Int

/-- An index that is not negative. -/
def intStore (st : ArgStore) : IntStore := (st.1, (st.2 : Int))

/-- The loop for an array of 16 pointers from the `i` that it finds.  It compares `i` as a
`size_t`, so from a negative one it does not go on. -/
def fillArgsFrom (i : Int) (buf : Str) : List IntStore :=
  match i with
  | .ofNat j => (storeArgs delim (127 - j) j (some buf)).map intStore
  | .negSucc _ => [((strsep delim (some buf)).1, i)]

/-- What is at `args[k]` after the stores, where something is. -/
def storedAt (stores : List IntStore) (k : Int) : Option (Option Str) :=
  (stores.reverse.find? fun st => st.2 = k).map Prod.fst

/-- The `i` that the loop ends with. -/
def finalIndex (stores : List IntStore) : Int := (stores.getLast?.map Prod.snd).getD 0

/-- `validInvite` and `validJoin`: the packet and what is returned.  There is no result where
`sprintf` is given a NULL or what `args[9]` held before. -/
def appendRoom (options i currentRoom : Int) (tx_pkt : Packet) : Option (Packet × Int) :=
  let args := fillArgsFrom i tx_pkt.buf
  if 8 < finalIndex args then
    (storedAt args 9).join.map fun word =>
      ({ tx_pkt with options := options, buf := word ++ str " " ++ dec currentRoom }, 1)
  else some (tx_pkt, 0)

def validInvite : Int → Int → Packet → Option (Packet × Int) := appendRoom INVITE

def validJoin : Int → Int → Packet → Option (Packet × Int) := appendRoom JOIN

/-- `cpy` has 64 elements; the text of the packet is sent as it is. -/
def serverLogin (i : Int) (tx_pkt : Packet) : Option (Packet × Int) :=
  if 63 < tx_pkt.buf.length then none
  else
    let args := fillArgsFrom i tx_pkt.buf
    if 9 < finalIndex args then
      (storedAt args 9).join.map fun word =>
        ({ tx_pkt with options := LOGIN, username := word, realname := word }, 1)
    else some (tx_pkt, 0)

/-! ## What they should do -/

/-- Only elements of `args` are written. -/
def InArgs (i : Int) (buf : Str) : Prop := ∀ st ∈ fillArgsFrom i buf, 0 ≤ st.2 ∧ st.2 < 16

/-- With a word behind the command the result is a request for it and the current room, of
which the server reads both; without one there is none. -/
def AppendsRoom (f : Int → Int → Packet → Option (Packet × Int)) (options i currentRoom : Int)
    (p : Packet) : Prop :=
  match fields delim p.buf with
  | _ :: word :: _ => ∃ q, f i currentRoom p = some (q, 1) ∧ q.options = options ∧
      q.buf = word ++ str " " ++ dec currentRoom ∧ arg (words q.buf) 0 = word ∧
      atoi (arg (words q.buf) 1) = currentRoom
  | _ => f i currentRoom p = some (p, 0)

/-- With two words behind the command the result is a login under the first, in whose text
the server finds both. -/
def LogsIn (i : Int) (p : Packet) : Prop :=
  match fields delim p.buf with
  | _ :: user :: pass :: _ => ∃ q, serverLogin i p = some (q, 1) ∧ q.options = LOGIN ∧
      q.username = user ∧ arg (words q.buf) 1 = user ∧ arg (words q.buf) 2 = pass
  | _ => serverLogin i p = some (p, 0)

/-- The three that do not set `i`. -/
inductive Encoder where
  | validInvite
  | validJoin
  | serverLogin

namespace Encoder

/-- How many words there are in a whole command. -/
def needed : Encoder → Nat
  | validInvite => 2
  | validJoin => 2
  | serverLogin => 3

/-- The command is turned into a request within the array. -/
def Encodes (i currentRoom : Int) (p : Packet) : Encoder → Prop
  | validInvite => InArgs i p.buf ∧ AppendsRoom TBDChat.validInvite INVITE i currentRoom p
  | validJoin => InArgs i p.buf ∧ AppendsRoom TBDChat.validJoin JOIN i currentRoom p
  | serverLogin => InArgs i p.buf ∧ LogsIn i p

end Encoder

/-- `i` begins where the array is long enough and, if the command is whole, the word that
comes to `args[9]` is the one behind the command; if it is not, low enough. -/
def StartsRight (needed : Nat) (i : Int) (buf : Str) : Prop :=
  0 ≤ i ∧ i + (fields delim buf).length ≤ 15 ∧
    if needed ≤ (fields delim buf).length then
      i ≤ 9 ∧ (fields delim buf)[(9 - i).toNat]? = (fields delim buf)[1]?
    else i + (fields delim buf).length ≤ 6 + needed

/-! ## The loop -/

section Loop
variable {i : Int} {buf : Str} {j : Nat}

/-- The stores are the fields and NULL, one behind the other, up to the bound. -/
theorem fillArgsFrom_ofNat (j : Nat) (buf : Str) : fillArgsFrom (j : Int) buf =
    ((((fields delim buf).map some ++ [none]).take (127 - j + 1)).zipIdx j).map intStore := by
  rw [← storeArgs_eq]
  rfl

theorem inArgs_iff : InArgs i buf ↔ 0 ≤ i ∧ i + (fields delim buf).length ≤ 15 := by
  cases i with
  | negSucc j =>
    have hneg : ¬ (0 : Int) ≤ Int.negSucc j := by omega
    refine iff_of_false (fun h => ?_) fun h => hneg h.1
    exact hneg (h ((strsep delim (some buf)).1, Int.negSucc j) List.mem_cons_self).1
  | ofNat j =>
    have hfill := fillArgsFrom_ofNat j buf
    constructor
    · intro h
      refine ⟨Int.natCast_nonneg j, ?_⟩
      by_contra hlong
      -- the last store, or the one that the bound still allows
      let k := min (fields delim buf).length (127 - j)
      have hk : k < (((fields delim buf).map some ++ [none]).take (127 - j + 1)).length := by
        simp only [List.length_take, List.length_append, List.length_map, List.length_singleton]
        omega
      have hstore : ((((fields delim buf).map some ++ [none]).take (127 - j + 1))[k],
          ((j + k : Nat) : Int)) ∈ fillArgsFrom (j : Int) buf := by
        rw [hfill]
        refine List.mem_map.mpr ⟨(_, j + k), List.mk_mem_zipIdx_iff_le_and_getElem?_sub.mpr ?_, rfl⟩
        rw [Nat.add_sub_cancel_left]
        exact ⟨Nat.le_add_right _ _, List.getElem?_eq_getElem hk⟩
      have hlast : ((j + k : Nat) : Int) < 16 := (h _ hstore).2
      have hcase : ¬ (j : Int) + (fields delim buf).length ≤ 15 := hlong
      omega
    · rintro ⟨-, hlen⟩ st hst
      have hst : st ∈ fillArgsFrom (j : Int) buf := hst
      rw [hfill] at hst
      obtain ⟨⟨v, k⟩, hmem, rfl⟩ := List.mem_map.mp hst
      have hlt := List.snd_lt_add_of_mem_zipIdx hmem
      show (0 : Int) ≤ (k : Int) ∧ (k : Int) < 16
      have hcase : (j : Int) + (fields delim buf).length ≤ 15 := hlen
      simp only [List.length_take, List.length_append, List.length_map,
        List.length_singleton] at hlt
      omega

/-- Within the array nothing is cut off. -/
theorem fillArgsFrom_of_inArgs (h : j + (fields delim buf).length ≤ 15) :
    fillArgsFrom (j : Int) buf =
      (((fields delim buf).map some ++ [none]).zipIdx j).map intStore := by
  rw [fillArgsFrom_ofNat, List.take_of_length_le]
  simp only [List.length_append, List.length_map, List.length_singleton]
  omega

/-- Reading what was stored in order. -/
theorem storedAt_zipIdx (vs : List (Option Str)) (j k : Nat) :
    storedAt ((vs.zipIdx j).map intStore) k = if j ≤ k then vs[k - j]? else none := by
  induction vs using List.reverseRecOn with
  | nil => simp [storedAt]
  | append_singleton vs v ih =>
    have hback : (((vs ++ [v]).zipIdx j).map intStore).reverse =
        (v, ((j + vs.length : Nat) : Int)) :: ((vs.zipIdx j).map intStore).reverse := by
      rw [List.zipIdx_append, List.map_append, List.reverse_append, Nat.add_comm]
      rfl
    rw [storedAt] at ih ⊢
    rw [hback]
    by_cases hk : j + vs.length = k
    · subst hk
      simp
    · rw [List.find?_cons_of_neg (by simpa using fun h => hk (by omega)), ih]
      split
      · rcases Nat.lt_or_gt_of_ne hk with hlt | hgt
        · rw [List.getElem?_eq_none (by omega), List.getElem?_eq_none]
          simp only [List.length_append, List.length_singleton]
          omega
        · rw [List.getElem?_append_left (by omega)]
      · rfl

/-- `args[9]` is a field, or it is NULL or left as it was. -/
theorem storedAt_nine (h : 0 ≤ i ∧ i + (fields delim buf).length ≤ 15) :
    (storedAt (fillArgsFrom i buf) 9).join =
      if i ≤ 9 then (fields delim buf)[(9 - i).toNat]? else none := by
  obtain ⟨j, rfl⟩ := Int.eq_ofNat_of_zero_le h.1
  have hread := storedAt_zipIdx ((fields delim buf).map some ++ [none]) j 9
  rw [fillArgsFrom_of_inArgs (by omega)]
  have hnine : ((9 : Nat) : Int) = 9 := rfl
  rw [hnine] at hread
  rw [hread]
  by_cases hj : j ≤ 9
  · have hsub : (9 - (j : Int)).toNat = 9 - j := by omega
    rw [if_pos hj, if_pos (by omega), hsub]
    rcases Nat.lt_or_ge (9 - j) (fields delim buf).length with hlt | hge
    · rw [List.getElem?_append_left (by simpa using hlt), List.getElem?_map]
      simp [hlt]
    · rw [List.getElem?_append_right (by simpa using hge), List.getElem?_eq_none hge]
      cases hdiff : 9 - j - ((fields delim buf).map some).length with
      | zero => rfl
      | succ k => rfl
  · rw [if_neg hj, if_neg (by omega)]
    rfl

theorem finalIndex_eq (h : 0 ≤ i ∧ i + (fields delim buf).length ≤ 15) :
    finalIndex (fillArgsFrom i buf) = i + (fields delim buf).length := by
  obtain ⟨j, rfl⟩ := Int.eq_ofNat_of_zero_le h.1
  rw [fillArgsFrom_of_inArgs (by omega), finalIndex, List.zipIdx_append, List.map_append,
    List.getLast?_append]
  simp [intStore]

end Loop

/-! ## When they do it -/

/-- `%d` is read back by `atoi` also with a sign. -/
theorem atoi_dec_int {n : Int} (hlow : -2 ^ 31 ≤ n) (hhigh : n < 2 ^ 31) : atoi (dec n) = n := by
  by_cases h0 : 0 ≤ n
  · exact atoi_dec h0 hhigh
  · have hdec : dec n = 45 :: digits n.natAbs := if_pos (by omega)
    have hval : decimal 0 (digits n.natAbs) = n.natAbs := by
      have h := decimal_digits n.natAbs []
      rwa [List.append_nil] at h
    have hsign : strtol (45 :: digits n.natAbs) = max (-(n.natAbs : Int)) (-2 ^ 63) := by
      rw [strtol, List.dropWhile_cons_of_neg (by decide)]
      simp only [if_true, hval]
    rw [atoi, hdec, hsign, wrap32]
    omega

section Encoders
variable {i currentRoom options : Int} {p : Packet}

/-- A field holds no separator. -/
theorem not_mem_delim_fields {word : Str} (h : word ∈ fields delim p.buf)
    (hlen : (fields delim p.buf).length ≤ 15) : ∀ c ∈ word, c ∉ delim := by
  have hwords : words p.buf = fields delim p.buf := by
    rw [words_eq, List.take_of_length_le (by omega)]
  rw [← hwords] at h
  exact fun c hc => ((mem_words h).2 c hc).2

/-- The two ways in which such a function returns. -/
theorem request_eq_one {C : Prop} [Decidable C] {word : Option Str} {g : Str → Packet}
    {q : Packet} : (if C then word.map fun w => (g w, (1 : Int)) else some (p, 0)) = some (q, 1) ↔
      C ∧ ∃ w, word = some w ∧ g w = q := by
  split
  · rename_i h
    simp [h]
  · rename_i h
    simp [h]

theorem request_eq_zero {C : Prop} [Decidable C] {word : Option Str} {g : Str → Packet} :
    (if C then word.map fun w => (g w, (1 : Int)) else some (p, 0)) = some (p, 0) ↔ ¬ C := by
  split
  · rename_i h
    simp [h]
  · rename_i h
    simp [h]

theorem appendRoom_eq (hin : 0 ≤ i ∧ i + (fields delim p.buf).length ≤ 15) :
    appendRoom options i currentRoom p =
      if 8 < i + (fields delim p.buf).length then
        (if i ≤ 9 then (fields delim p.buf)[(9 - i).toNat]? else none).map fun word =>
          ({ p with options := options, buf := word ++ str " " ++ dec currentRoom }, 1)
      else some (p, 0) := by
  rw [appendRoom, finalIndex_eq hin, storedAt_nine hin]

theorem serverLogin_eq (hlen : p.buf.length ≤ 63)
    (hin : 0 ≤ i ∧ i + (fields delim p.buf).length ≤ 15) :
    serverLogin i p =
      if 9 < i + (fields delim p.buf).length then
        (if i ≤ 9 then (fields delim p.buf)[(9 - i).toNat]? else none).map fun word =>
          ({ p with options := LOGIN, username := word, realname := word }, 1)
      else some (p, 0) := by
  rw [serverLogin, if_neg (Nat.not_lt_of_le hlen)]
  dsimp only
  rw [finalIndex_eq hin, storedAt_nine hin]

/-- What is read at `args[9]` is a field if it is anything. -/
theorem read_eq_some {fs : List Str} {word : Str} :
    (if i ≤ 9 then fs[(9 - i).toNat]? else none) = some word ↔
      i ≤ 9 ∧ fs[(9 - i).toNat]? = some word := by
  split
  · rename_i h
    exact (and_iff_right h).symm
  · rename_i h
    exact iff_of_false (fun hno => by cases hno) fun hread => h hread.1

/-- What the two commands for a room need. -/
theorem appendsRoom_iff (hin : 0 ≤ i ∧ i + (fields delim p.buf).length ≤ 15)
    (hlow : -2 ^ 31 ≤ currentRoom) (hhigh : currentRoom < 2 ^ 31) :
    AppendsRoom (appendRoom options) options i currentRoom p ↔
      if 2 ≤ (fields delim p.buf).length then
        i ≤ 9 ∧ (fields delim p.buf)[(9 - i).toNat]? = (fields delim p.buf)[1]?
      else i + (fields delim p.buf).length ≤ 8 := by
  have hresult := @appendRoom_eq i currentRoom options p hin
  have hfree := @not_mem_delim_fields p
  rw [AppendsRoom]
  obtain ⟨w, rest, hw, -⟩ := strsep_fields delim p.buf
  rw [hw] at hresult hfree hin ⊢
  cases rest with
  | nil =>
    dsimp only
    rw [hresult, request_eq_zero, Int.not_lt]
    rfl
  | cons word rest =>
    have hlen : (w :: word :: rest).length = rest.length + 2 := rfl
    have hone : (w :: word :: rest)[1]? = some word := rfl
    have hwords := @words_joined word currentRoom (hfree (by simp) (by omega))
    rw [if_pos (by omega), hone]
    dsimp only
    constructor
    · rintro ⟨q, hq, -, hbuf, -⟩
      rw [hresult, request_eq_one] at hq
      obtain ⟨-, v, hv, rfl⟩ := hq
      obtain ⟨hle, hread⟩ := read_eq_some.mp hv
      rw [List.append_assoc, List.append_assoc] at hbuf
      rw [List.append_cancel_right hbuf] at hread
      exact ⟨hle, hread⟩
    · rintro ⟨hle, hread⟩
      have hlt := (List.getElem?_eq_some_iff.mp hread).1
      refine ⟨{ p with options := options, buf := word ++ str " " ++ dec currentRoom },
        ?_, rfl, rfl, ?_, ?_⟩
      · rw [hresult, request_eq_one]
        exact ⟨by omega, word, read_eq_some.mpr ⟨hle, hread⟩, rfl⟩
      · rw [hwords]
        rfl
      · rw [hwords]
        exact atoi_dec_int hlow hhigh

/-- What a login needs. -/
theorem logsIn_iff (hlen : p.buf.length ≤ 63)
    (hin : 0 ≤ i ∧ i + (fields delim p.buf).length ≤ 15) :
    LogsIn i p ↔
      if 3 ≤ (fields delim p.buf).length then
        i ≤ 9 ∧ (fields delim p.buf)[(9 - i).toNat]? = (fields delim p.buf)[1]?
      else i + (fields delim p.buf).length ≤ 9 := by
  have hresult := serverLogin_eq hlen hin
  have hwords : words p.buf = fields delim p.buf := by
    rw [words_eq, List.take_of_length_le (by omega)]
  rw [LogsIn]
  obtain ⟨w, rest, hw, -⟩ := strsep_fields delim p.buf
  rw [hw] at hresult hin hwords ⊢
  cases rest with
  | nil =>
    dsimp only
    rw [hresult, request_eq_zero, Int.not_lt]
    rfl
  | cons user rest =>
    cases rest with
    | nil =>
      dsimp only
      rw [hresult, request_eq_zero, Int.not_lt]
      rfl
    | cons pass rest =>
      have hlen : (w :: user :: pass :: rest).length = rest.length + 3 := rfl
      have hone : (w :: user :: pass :: rest)[1]? = some user := rfl
      rw [if_pos (by omega), hone]
      dsimp only
      constructor
      · rintro ⟨q, hq, -, huser, -⟩
        rw [hresult, request_eq_one] at hq
        obtain ⟨-, v, hv, rfl⟩ := hq
        obtain ⟨hle, hread⟩ := read_eq_some.mp hv
        obtain rfl : v = user := huser
        exact ⟨hle, hread⟩
      · rintro ⟨hle, hread⟩
        have hlt := (List.getElem?_eq_some_iff.mp hread).1
        refine ⟨{ p with options := LOGIN, username := user, realname := user },
          ?_, rfl, rfl, ?_, ?_⟩
        · rw [hresult, request_eq_one]
          exact ⟨by omega, user, read_eq_some.mpr ⟨hle, hread⟩, rfl⟩
        · rw [hwords]
          rfl
        · rw [hwords]
          rfl

/-- **When a command is turned into a request**: what the loop begins with must be right. -/
theorem encodes_iff (c : Encoder) (hlen : p.buf.length ≤ 63) (hlow : -2 ^ 31 ≤ currentRoom)
    (hhigh : currentRoom < 2 ^ 31) :
    c.Encodes i currentRoom p ↔ StartsRight c.needed i p.buf := by
  have hand {P Q : Prop} (h : 0 ≤ i ∧ i + (fields delim p.buf).length ≤ 15 → (P ↔ Q)) :
      (InArgs i p.buf ∧ P) ↔ 0 ≤ i ∧ i + (fields delim p.buf).length ≤ 15 ∧ Q := by
    rw [inArgs_iff, ← and_assoc]
    exact and_congr_right h
  cases c with
  | validInvite => exact hand fun hin => appendsRoom_iff hin hlow hhigh
  | validJoin => exact hand fun hin => appendsRoom_iff hin hlow hhigh
  | serverLogin => exact hand fun hin => logsIn_iff hlen hin

end Encoders

/-- A JOIN of Alice's, where 8 is what the loop begins with. -/
theorem encodes_join :
    Encoder.validJoin.Encodes 8 1000 ⟨0, str "/join den", str "alice", str "alice", 0⟩ ↔
      StartsRight 2 8 (str "/join den") :=
  encodes_iff .validJoin (by decide) (by decide) (by decide)

/-- From 0 the final `i` is 2, and the usage is printed. -/
theorem join_refused_at_zero : ¬ ∀ (c : Encoder) (i currentRoom : Int) (p : Packet),
    p.buf.length ≤ 63 → (fields delim p.buf).length ≤ 15 → -2 ^ 31 ≤ currentRoom →
    currentRoom < 2 ^ 31 → c.Encodes i currentRoom p := by
  intro h
  let p : Packet := ⟨0, str "/join den", str "alice", str "alice", 0⟩
  obtain ⟨-, hjoin⟩ := h .validJoin 0 1000 p (by decide) (by decide) (by decide) (by decide)
  have hfields : fields delim p.buf = [str "/join", str "den"] := by decide
  rw [AppendsRoom, hfields] at hjoin
  obtain ⟨q, hq, -⟩ := hjoin
  have hrefused : validJoin 0 1000 p = some (p, 0) := by decide
  cases hrefused.symm.trans hq

end TBDChat
