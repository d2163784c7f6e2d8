import TBDChat.ConfigFile

/-!
# Reconnecting to the last server

`newServerConnection` connects with the second and the third word of a command and saves
its text from the tenth character on.  `reconnect` puts "/connect " in front of what
`fgets` reads of that, 110 characters of it at most, and with the blanks that are left of
longer entries behind it.
-/

namespace TBDChat.Config
open TextFile

set_option maxRecDepth 8000

/-- The file after commands that were all accepted. -/
inductive Saved (net : Net) : List Str → List UInt8 → Prop
  | default : Saved net [] buildDefaultConfig
  | connect (cmds : List Str) (file : List UInt8) (buf : Str) (a : Attempt)
    (hsaved : Saved net cmds file) (hbuf : IsCommand buf)
    (hcall : ∃ k, ∀ n, k ≤ n → newServerConnection net n buf file = .ok a) (hret : a.ret = 1) :
    Saved net (cmds ++ [buf]) a.config_file

/-- `reconnect` keeps to `args` and calls `get_server_connection` with the address and the
port of the command. -/
def Reconnects (net : Net) (file : List UInt8) (buf : Str) : Prop :=
  ∃ k, ∀ n, k ≤ n → ∃ a, reconnect net n file = .ok a ∧
    a.called = some (arg (words buf) 1, arg (words buf) 2)

/-- The length of the longest. -/
def longest (cmds : List Str) : Nat := (cmds.map List.length).foldr max 0

/-- What is saved of a command, as far as it is read back. -/
def readBack (buf : Str) : Str := (buf.drop 9).take 110

/-- The blanks that are read behind it, after the commands in front of it. -/
def blanks (cmds : List Str) (buf : Str) : Nat :=
  min (longest cmds - buf.length) (110 - (buf.drop 9).length)

/-- The first words of what is read back are the address and the port, and no more than
twelve come behind them. -/
def Kept (cmds : List Str) (buf : Str) : Prop :=
  ∃ rest, fields delim (readBack buf) = arg (words buf) 1 :: arg (words buf) 2 :: rest ∧
    rest.length + blanks cmds buf ≤ 12

variable {net : Net} {file : List UInt8} {cmds : List Str} {buf last : Str} {n : Nat}

/-! ## What is saved -/

theorem longest_append (cmds : List Str) (buf : Str) :
    longest (cmds ++ [buf]) = max (longest cmds) buf.length := by
  induction cmds with
  | nil => simp [longest]
  | cons c cmds ih =>
    have hcons (l : List Str) : longest (c :: l) = max c.length (longest l) := rfl
    rw [List.cons_append, hcons, hcons, ih, max_assoc]

/-- The text of an entry, and the blanks up to the longest that there was. -/
structure Holds (cmds : List Str) (buf last : Str) : Prop where
  stored : Stored last
  single : (10 : UInt8) ∉ last
  length : last.length = max (longest cmds) buf.length + 8
  text : last.take 127 = ((str "last connection: " ++ buf.drop 9) ++
    List.replicate (longest cmds - buf.length) 32).take 127

/-- What is read in front of `n` depends on what is there in front of it. -/
theorem take_drop_congr {X Y : Str} {n k : Nat} (h : X.take n = Y.take n) :
    (X.drop k).take (n - k) = (Y.drop k).take (n - k) := by
  rcases Nat.le_total k n with hk | hk
  · rw [List.take_drop, List.take_drop, Nat.add_sub_cancel' hk, h]
  · rw [Nat.sub_eq_zero_of_le hk, List.take_zero, List.take_zero]

theorem take_overwrite {X Y : Str} {n : Nat} (h : X.take n = Y.take n) (new : Str) :
    (Bytes.overwrite new X).take n = (Bytes.overwrite new Y).take n := by
  rw [Bytes.overwrite, Bytes.overwrite, List.take_append, List.take_append, take_drop_congr h]

/-- In front of where `fgets` stops the old entry is blank. -/
theorem take_blanked (hs : Stored last) :
    (List.replicate (entry last).length (32 : UInt8) ++ behind last).take 127 =
      (List.replicate last.length 32).take 127 := by
  have hentry : (entry last).length = min 127 last.length := hs.length_entry
  rcases Nat.le_total 127 last.length with hlen | hlen
  · rw [Nat.min_eq_left hlen] at hentry
    rw [hentry, List.take_left' (List.length_replicate ..), List.take_replicate,
      Nat.min_eq_left hlen]
  · rw [Nat.min_eq_right hlen] at hentry
    rw [behind, hentry, List.drop_length, List.append_nil]

/-- A new entry over what is there. -/
theorem take_save (hs : Stored last) (buf : Str) : (save buf last).take 127 =
    ((str "last connection: " ++ buf.drop 9) ++ List.replicate
      (last.length - (str "last connection: " ++ buf.drop 9).length) 32).take 127 := by
  rw [save, take_overwrite (take_blanked hs), Bytes.overwrite, List.drop_replicate]

/-- What is in front of the command's text, and the command's name with a blank. -/
theorem length_text (hbuf : IsCommand buf) (hwords : 2 < (words buf).length) :
    (str "last connection: " ++ buf.drop 9).length = buf.length + 8 := by
  have hlong := hbuf.long hwords
  rw [List.length_append, List.length_drop, length_name]
  omega

/-- The first command. -/
theorem Holds.of_unset (hbuf : IsCommand buf) (hwords : 2 < (words buf).length) :
    Holds [] buf (save buf unset) where
  stored := stored_unset.save hbuf
  single := single_save stored_unset hbuf
  length := by
    have hlong := hbuf.long hwords
    rw [length_save stored_unset, length_text hbuf hwords,
      show unset.length = 17 by decide, show longest [] = 0 from rfl]
    omega
  text := by
    have hlong := hbuf.long hwords
    have hnone : unset.length - (buf.length + 8) = longest [] - buf.length := by
      rw [show unset.length = 17 by decide, show longest [] = 0 from rfl]
      omega
    rw [take_save stored_unset, length_text hbuf hwords, hnone]

/-- A command after others. -/
theorem Holds.save {b : Str} (h : Holds cmds b last) (hbuf : IsCommand buf)
    (hwords : 2 < (words buf).length) : Holds (cmds ++ [b]) buf (save buf last) where
  stored := h.stored.save hbuf
  single := single_save h.stored hbuf
  length := by
    rw [length_save h.stored, length_text hbuf hwords, h.length, longest_append]
    omega
  text := by
    rw [take_save h.stored, length_text hbuf hwords, h.length, longest_append,
      Nat.add_sub_add_right]

/-- In every file that commands make the last one is held. -/
theorem Saved.holds (h : Saved net cmds file) :
    (cmds = [] ∧ file = text false unset) ∨ ∃ front b last, cmds = front ++ [b] ∧
      IsCommand b ∧ 2 < (words b).length ∧ file = text false last ∧ Holds front b last := by
  induction h with
  | default => exact .inl ⟨rfl, buildDefaultConfig_eq⟩
  | connect cmds file buf a hsaved hbuf hcall hret ih =>
    right
    rcases ih with ⟨rfl, rfl⟩ | ⟨front, b, last, rfl, hb, hbwords, rfl, hholds⟩
    · obtain ⟨hfile, hwords, -⟩ := accepted stored_unset hbuf hcall hret
      exact ⟨_, buf, _, rfl, hbuf, hwords, hfile, .of_unset hbuf hwords⟩
    · obtain ⟨hfile, hwords, -⟩ := accepted hholds.stored hbuf hcall hret
      exact ⟨_, buf, _, rfl, hbuf, hwords, hfile, hholds.save hbuf hwords⟩

/-! ## What is read back -/

/-- What `reconnect` takes for the command. -/
def rebuilt (cmds : List Str) (buf : Str) : Str :=
  str "/connect " ++ (readBack buf ++ List.replicate (blanks cmds buf) 32)

theorem Holds.drop_entry (h : Holds cmds buf last) : (entry last).drop 17 =
    readBack buf ++ List.replicate (blanks cmds buf) 32 := by
  have hentry : entry last = last.take 127 := by rw [entry, readLine_open h.single]; rfl
  rw [hentry, h.text, List.drop_take, List.append_assoc, List.drop_left' length_name,
    List.take_append, List.take_replicate, readBack, blanks, Nat.min_comm]

theorem reconnect_eq (net : Net) (flag : Bool) (h : Holds cmds buf last) (hbuf : 9 < buf.length)
    (hn : 16 ≤ n) :
    reconnect net n (text flag last) =
      newServerConnection net n (rebuilt cmds buf) (text flag last) := by
  obtain ⟨m, rfl⟩ := Nat.exists_eq_add_of_le' hn
  obtain ⟨eof, hread, -⟩ := h.stored.read
  have hskip := findLine_skip (m + 5) [] (entry last ++ behind last) (isLine_opening flag)
    (opening_passed flag)
  rw [findLine_line hread h.stored.entry_ne_nil, if_pos h.stored.starts_entry, h.stored.split]
    at hskip
  have htext : fopen (text flag last) = between [] ((opening flag).flatten ++ last) false := by
    rw [text_eq]
    rfl
  have hfind : findLine lineSize (startsWith (str "last connection:")) (m + 16)
      (fopen (text flag last)) = some (some (entry last)) := by
    rw [htext]
    exact hskip
  have hlong : (entry last).length > (str "last connection: ").length := by
    rw [h.stored.length_entry, h.length, length_name,
      lineSize]
    omega
  rw [reconnect, hfind]
  simp only [if_pos hlong]
  rw [length_name, h.drop_entry]
  rfl

/-- Every blank behind a text is one more word. -/
theorem fields_blanks (s : Str) (q : Nat) :
    fields delim (s ++ List.replicate q 32) = fields delim s ++ List.replicate q [] := by
  have hblank (q : Nat) : fields delim (List.replicate q 32) = List.replicate (q + 1) [] := by
    induction q with
    | zero => rfl
    | succ q ih =>
      rw [List.replicate_succ, List.replicate_succ, ← ih, fields,
        List.splitOnP_cons_eq_if_modifyHead, if_pos (by decide)]
      rfl
  cases q with
  | zero => simp
  | succ q =>
    rw [List.replicate_succ, fields, List.splitOnP_append_cons _ _ (by decide)]
    exact congrArg (fields delim s ++ ·) (hblank q)

theorem fields_rebuilt (cmds : List Str) (buf : Str) : fields delim (rebuilt cmds buf) =
    str "/connect" :: (fields delim (readBack buf) ++ List.replicate (blanks cmds buf) []) := by
  have hname : rebuilt cmds buf = str "/connect" ++ 32 ::
      (readBack buf ++ List.replicate (blanks cmds buf) 32) := rfl
  rw [hname, fields, List.splitOnP_append_cons_of_forall_mem (by decide) _ (by decide)]
  exact congrArg (str "/connect" :: ·) (fields_blanks _ _)

theorem isCommand_rebuilt (hbuf : IsCommand buf) (cmds : List Str) :
    IsCommand (rebuilt cmds buf) where
  command := userCommand_connect.mpr (List.isPrefixOf_iff_prefix.mpr
    (List.prefix_append_of_prefix (by decide)))
  short := by
    simp only [rebuilt, readBack, blanks, List.length_append, List.length_take, List.length_drop,
      List.length_replicate, show (str "/connect ").length = 9 by decide]
    omega
  single := by
    intro hmem
    rcases List.mem_append.mp hmem with hname | hmem
    · exact absurd hname (by decide)
    · rcases List.mem_append.mp hmem with htext | hblank
      · exact hbuf.single (List.mem_of_mem_drop (List.mem_of_mem_take htext))
      · exact absurd (List.eq_of_mem_replicate hblank) (by decide)

/-- With no blank in what is read back it is cut, and there is none behind it. -/
theorem blanks_of_one (hbuf : IsCommand buf) (hwords : 2 < (words buf).length) {w : Str}
    (hone : fields delim (readBack buf) = [w]) (cmds : List Str) : blanks cmds buf = 0 := by
  obtain ⟨t, rfl⟩ := List.isPrefixOf_iff_prefix.mp (userCommand_connect.mp hbuf.command)
  have hle := length_words_le (str "/connect" ++ t)
  have hname : (str "/connect").countP delim.contains = 0 := by decide
  rw [length_fields, List.countP_append, hname] at hle
  -- one of the separators may be the tenth character
  have hfirst : t.countP delim.contains ≤ 1 + (t.drop 1).countP delim.contains := by
    have hcount : (t.take 1 ++ t.drop 1).countP delim.contains =
        (t.take 1).countP delim.contains + (t.drop 1).countP delim.contains := List.countP_append
    rw [List.take_append_drop] at hcount
    have htake := List.countP_le_length (p := delim.contains) (l := t.take 1)
    have hlen := List.length_take_le 1 t
    omega
  have hdrop : (str "/connect" ++ t).drop 9 = t.drop 1 := rfl
  have hcut : 110 < (t.drop 1).length := by
    by_contra hshort
    have hnone := congrArg List.length hone
    rw [readBack, hdrop, List.take_of_length_le (Nat.le_of_not_lt hshort), length_fields] at hnone
    simp only [List.length_singleton] at hnone
    omega
  rw [blanks, hdrop, Nat.sub_eq_zero_of_le (Nat.le_of_lt hcut), Nat.min_zero]

/-- What a call of `newServerConnection` calls. -/
theorem called_iff {flag : Bool} {A P : Str} (hs : Stored last) (hbuf : IsCommand buf) :
    (∃ k, ∀ n, k ≤ n → ∃ a, newServerConnection net n buf (text flag last) = .ok a ∧
      a.called = some (A, P)) ↔
    2 < (words buf).length ∧ (words buf).length ≤ 15 ∧ arg (words buf) 1 = A ∧
      arg (words buf) 2 = P := by
  by_cases hwords : (words buf).length ≤ 15
  · obtain ⟨a, ha, hcalled⟩ : ∃ a,
        (∀ n, 15 ≤ n → newServerConnection net n buf (text flag last) = .ok a) ∧
        a.called = if 2 < (words buf).length then some (arg (words buf) 1, arg (words buf) 2)
          else none := by
      by_cases hconn : net.Connects buf
      · exact ⟨_, fun n hn => newServerConnection_eq net flag hs hbuf hwords hconn hn,
          (if_pos hconn.1).symm⟩
      · exact ⟨_, fun n _ => newServerConnection_failed net _ hwords hconn n, rfl⟩
    constructor
    · rintro ⟨k, hk⟩
      obtain ⟨a', ha', hcalled'⟩ := hk (max k 15) (Nat.le_max_left ..)
      obtain rfl := Except.ok.inj ((ha _ (Nat.le_max_right ..)).symm.trans ha')
      rw [hcalled] at hcalled'
      by_cases h2 : 2 < (words buf).length
      · rw [if_pos h2] at hcalled'
        obtain ⟨hA, hP⟩ := Prod.mk.inj (Option.some.inj hcalled')
        exact ⟨h2, hwords, hA, hP⟩
      · rw [if_neg h2] at hcalled'
        cases hcalled'
    · rintro ⟨h2, -, rfl, rfl⟩
      exact ⟨15, fun n hn => ⟨a, ha n hn, hcalled.trans (if_pos h2)⟩⟩
  · constructor
    · rintro ⟨k, hk⟩
      obtain ⟨a, ha, -⟩ := hk k (Nat.le_refl k)
      rw [newServerConnection, if_pos (Nat.lt_of_not_le hwords)] at ha
      cases ha
    · exact fun h => absurd h.2.1 hwords

/-- The words of the rebuilt command, against what was saved. -/
theorem rebuilt_iff (hbuf : IsCommand buf) (hwords : 2 < (words buf).length) (cmds : List Str) :
    (2 < (words (rebuilt cmds buf)).length ∧ (words (rebuilt cmds buf)).length ≤ 15 ∧
      arg (words (rebuilt cmds buf)) 1 = arg (words buf) 1 ∧
      arg (words (rebuilt cmds buf)) 2 = arg (words buf) 2) ↔ Kept cmds buf := by
  have hfields := fields_rebuilt cmds buf
  constructor
  · rintro ⟨h2, h15, hA, hP⟩
    have heq := fields_eq_words (Nat.lt_of_le_of_lt h15 (by decide))
    rw [← heq, hfields] at h2 h15 hA hP
    cases hread : fields delim (readBack buf) with
    | nil => exact absurd hread (List.splitOnP_ne_nil _ _)
    | cons w rest =>
      cases rest with
      | nil =>
        rw [hread, blanks_of_one hbuf hwords hread] at h2
        exact absurd h2 (by simp)
      | cons v rest =>
        rw [hread] at h15 hA hP
        refine ⟨rest, ?_, ?_⟩
        · rw [hread, ← hA, ← hP]
          rfl
        · simp only [List.length_cons, List.length_append, List.length_replicate] at h15
          omega
  · rintro ⟨rest, hread, hlen⟩
    rw [hread] at hfields
    have hcount := congrArg List.length hfields
    simp only [List.length_cons, List.length_append, List.length_replicate] at hcount
    have heq : words (rebuilt cmds buf) = fields delim (rebuilt cmds buf) := by
      rw [words_eq, List.take_of_length_le (by omega)]
    rw [heq, hcount, hfields]
    exact ⟨by omega, by omega, rfl, rfl⟩

theorem Holds.reconnects (h : Holds cmds buf last) (flag : Bool) (hbuf : IsCommand buf)
    (hwords : 2 < (words buf).length) :
    Reconnects net (Config.text flag last) buf ↔ Kept cmds buf := by
  have hlong := hbuf.long hwords
  rw [← rebuilt_iff hbuf hwords cmds, ← called_iff h.stored (isCommand_rebuilt hbuf cmds)]
  constructor
  · rintro ⟨k, hk⟩
    refine ⟨max k 16, fun n hn => ?_⟩
    rw [← reconnect_eq net flag h hlong (Nat.le_trans (Nat.le_max_right ..) hn)]
    exact hk n (Nat.le_trans (Nat.le_max_left ..) hn)
  · rintro ⟨k, hk⟩
    refine ⟨max k 16, fun n hn => ?_⟩
    rw [reconnect_eq net flag h hlong (Nat.le_trans (Nat.le_max_right ..) hn)]
    exact hk n (Nat.le_trans (Nat.le_max_left ..) hn)

/-- **When `reconnect` goes to the last server**: the text of its command has the address
and the port in front, where it is read back, and not too many words with the blanks. -/
theorem reconnects_iff (h : Saved net (cmds ++ [buf]) file) :
    Reconnects net file buf ↔ Kept cmds buf := by
  rcases h.holds with ⟨hnil, -⟩ | ⟨front, b, last, hcmds, hbuf, hwords, rfl, hholds⟩
  · exact absurd hnil (by simp)
  · obtain ⟨rfl, hb⟩ := List.append_inj' hcmds rfl
    obtain rfl : buf = b := List.head_eq_of_cons_eq hb
    exact hholds.reconnects false hbuf hwords

/-- For a command with its name as the first word, and short enough, the words count. -/
theorem kept_iff {c : UInt8} {x : Str} (hbuf : buf = str "/connect" ++ c :: x) (hc : c ∈ delim)
    (hx : x.length ≤ 110) (h2 : 2 < (words buf).length) (h15 : (words buf).length ≤ 15)
    (cmds : List Str) : Kept cmds buf ↔ (words buf).length + blanks cmds buf ≤ 15 := by
  have hread : readBack buf = x := by
    rw [hbuf]
    exact List.take_of_length_le hx
  have hwords : words buf = str "/connect" :: fields delim x := by
    rw [← fields_eq_words (Nat.lt_of_le_of_lt h15 (by decide)), hbuf, fields,
      List.splitOnP_append_cons_of_forall_mem (by decide) _ (by simpa using hc)]
    rfl
  rw [hwords] at h2
  obtain ⟨A, P, rest, hx⟩ : ∃ A P rest, fields delim x = A :: P :: rest := by
    cases hf : fields delim x with
    | nil => simp [hf] at h2
    | cons A rest =>
      cases rest with
      | nil => simp [hf] at h2
      | cons P rest => exact ⟨A, P, rest, rfl⟩
  rw [Kept, hread, hwords, hx]
  constructor
  · rintro ⟨rest', hrest, hlen⟩
    obtain rfl : rest = rest' := by simpa [arg] using hrest
    simp only [List.length_cons]
    omega
  · intro hlen
    simp only [List.length_cons] at hlen
    exact ⟨rest, rfl, by omega⟩

/-! ## Two commands -/

theorem Saved.of_connects {flag : Bool} (h : Saved net cmds (text flag last)) (hs : Stored last)
    (hbuf : IsCommand buf) (hwords : (words buf).length ≤ 15) (hconn : net.Connects buf) :
    Saved net (cmds ++ [buf]) (text flag (save buf last)) :=
  .connect cmds _ buf _ h hbuf
    ⟨15, fun _ hn => newServerConnection_eq net flag hs hbuf hwords hconn hn⟩ rfl

/-- A command on its own. -/
theorem reconnects_pi : Reconnects sampleNet
    (text false (save (str "/connect pi 4000") unset)) (str "/connect pi 4000") := by
  have hpi : IsCommand (str "/connect pi 4000") := ⟨by decide, by decide, by decide⟩
  have hdefault : Saved sampleNet [] (text false unset) := buildDefaultConfig_eq ▸ .default
  have hsaved := hdefault.of_connects stored_unset hpi (by decide) ⟨by decide, by decide, by decide⟩
  exact (reconnects_iff hsaved).mpr ⟨[], by decide, by decide⟩

/-- Behind a longer one there are nineteen blanks, and the words do not fit `args`. -/
theorem reconnect_overflows : ¬ ∀ (net : Net) (cmds : List Str) (buf : Str) (file : List UInt8),
    Saved net (cmds ++ [buf]) file → Reconnects net file buf := by
  intro h
  let long := str "/connect localhost.localdomain 4000"
  let pi := str "/connect pi 4000"
  have hlong : IsCommand long := ⟨by decide, by decide, by decide⟩
  have hpi : IsCommand pi := ⟨by decide, by decide, by decide⟩
  have hdefault : Saved sampleNet [] (text false unset) := buildDefaultConfig_eq ▸ .default
  have hfirst := hdefault.of_connects stored_unset hlong (by decide)
    ⟨by decide, by decide, by decide⟩
  have hsecond := hfirst.of_connects (stored_unset.save hlong) hpi (by decide)
    ⟨by decide, by decide, by decide⟩
  have hholds : Holds [long] pi (save pi (save long unset)) :=
    (Holds.of_unset hlong (by decide)).save hpi (by decide)
  obtain ⟨rest, -, hlen⟩ := (hholds.reconnects false hpi (by decide)).mp (h _ _ _ _ hsecond)
  have hblanks : blanks [long] pi = 19 := by decide
  omega

end TBDChat.Config
