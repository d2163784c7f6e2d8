import TBDChat.CommandArgs
import TBDChat.Lib.TextFile

/-!
# The client's configuration file

`buildDefaultConfig` writes it, `toggleAutoConnect` and `newServerConnection` change it in
place while they read it line by line, `auto_connect` and `reconnect` read it.  The file is
there, and opening it and seeking in it succeed.  A loop is given how often it may go round.
What the network does is a parameter.

The abstract view is that the file has two entries, the flag and the text from the last
line on, and that a function changes one of them.
-/

namespace TBDChat.Config
open TextFile

set_option maxRecDepth 8000

/-! ## The functions -/

/-- `strncmp(line, s, strlen(s)) == 0`. -/
def startsWith (s line : Str) : Bool := s.isPrefixOf line

/-- `sizeof(line)`. -/
def lineSize : Nat := 128

def buildDefaultConfig : List UInt8 :=
  ((((fopen []).fputs (str "###\n#\n#\tTBD Chat Configuration\n#\n###\n\n\n")).fputs
    (str "## Stores auto reconnect state\nauto-reconnect: 0\n\n")).fputs
    (str "## Stores last client connection\nlast connection:\n")).bytes

/-- What `userCommand` compares a line with, in order. -/
def commandNames : List Str := [str "/exit", str "/quit", str "/clear", str "/help", str "/debug",
  str "/connect", str "/reconnect", str "/autoconnect", str "/register", str "/login",
  str "/setname", str "/setpass", str "/motd", str "/invite", str "/join", str "/leave",
  str "/who", str "/list"]

/-- The command that `userCommand` takes a line for. -/
def userCommand (buf : Str) : Option Str := commandNames.find? fun name => startsWith name buf

def auto_connect (rounds : Nat) (config_file : List UInt8) : Option Int := do
  match ← findLine lineSize (startsWith (str "auto-reconnect:")) rounds (fopen config_file) with
  | some line =>
    if startsWith (str "0") (line.drop (str "auto-reconnect: ").length) then pure 0 else pure 1
  | none => pure 0

/-- What `toggleAutoConnect` does with a line; `ret` is not set at first. -/
def toggleLine (line : Str) : TextFile × Option Int → TextFile × Option Int
  | (configfp, ret) =>
    if startsWith (str "auto-reconnect:") line then
      let configfp := configfp.fseek (-2)
      if startsWith (str "0") (line.drop (str "auto-reconnect: ").length) then
        (configfp.fputs (str "1"), some 1)
      else (configfp.fputs (str "0"), some 0)
    else (configfp, ret)

def toggleAutoConnect (rounds : Nat) (config_file : List UInt8) :
    Option (Option Int × List UInt8) := do
  let (configfp, ret) ← eachLine lineSize toggleLine rounds (fopen config_file, none)
  pure (ret, configfp.bytes)

/-- What `newServerConnection` does with a line. -/
def saveLine (buf : Str) (line : Str) : TextFile × Unit → TextFile × Unit
  | (configfp, _) =>
    if startsWith (str "last connection:") line then
      let configfp := configfp.fseek (-line.length)
      let configfp := (fputs (str " "))^[line.length] configfp
      let configfp := configfp.fseek (-line.length)
      let configfp := configfp.fputs (str "last connection: ")
      (configfp.fputs (buf.drop (str "/connect ").length), ())
    else (configfp, ())

/-- The network, and the thread that listens to it. -/
structure Net where
  get_server_connection : Str → Str → Int
  pthread_create : Int → Int

/-- What comes of a call: what is returned, the file, and the address and the port that
`get_server_connection` was called with, if it was. -/
structure Attempt where
  ret : Int
  config_file : List UInt8
  called : Option (Str × Str)

/-- Why there is no result. -/
inductive Stuck where
  /-- The words of a command do not fit `args[16]`. -/
  | overflow
  /-- A loop is not over yet. -/
  | running
  deriving DecidableEq

def newServerConnection (net : Net) (rounds : Nat) (buf : Str) (config_file : List UInt8) :
    Except Stuck Attempt :=
  let args := words buf
  if 15 < args.length then .error .overflow
  else if args.length > 2 then
    let called := some (arg args 1, arg args 2)
    let serverfd := net.get_server_connection (arg args 1) (arg args 2)
    if serverfd = -1 then .ok ⟨0, config_file, called⟩
    else if net.pthread_create serverfd ≠ 0 then .ok ⟨0, config_file, called⟩
    else match eachLine lineSize (saveLine buf) rounds (fopen config_file, ()) with
      | none => .error .running
      | some (configfp, _) => .ok ⟨1, configfp.bytes, called⟩
  else .ok ⟨0, config_file, none⟩

def reconnect (net : Net) (rounds : Nat) (config_file : List UInt8) : Except Stuck Attempt :=
  match findLine lineSize (startsWith (str "last connection:")) rounds (fopen config_file) with
  | none => .error .running
  | some none => .ok ⟨0, config_file, none⟩
  | some (some line) =>
    if line.length > (str "last connection: ").length then
      newServerConnection net rounds
        (str "/connect " ++ line.drop (str "last connection: ").length) config_file
    else .ok ⟨0, config_file, none⟩

/-! ## The two entries -/

/-- The lines in front of the flag. -/
def front : List Str := [str "###\n", str "#\n", str "#\tTBD Chat Configuration\n", str "#\n",
  str "###\n", str "\n", str "\n", str "## Stores auto reconnect state\n"]

/-- The line of the flag. -/
def flagLine (flag : Bool) : Str :=
  str "auto-reconnect: " ++ (str (if flag then "1" else "0") ++ str "\n")

/-- The lines between it and the last. -/
def middle : List Str := [str "\n", str "## Stores last client connection\n"]

/-- The file with a flag and with `last` from the last line on. -/
def text (flag : Bool) (last : Str) : List UInt8 :=
  front.flatten ++ (flagLine flag ++ (middle.flatten ++ last))

/-- The last line before the first connection. -/
def unset : Str := str "last connection:\n"

/-- What may be there: that line, or a text of no more than a command can make it. -/
structure Stored (last : Str) : Prop where
  starts : startsWith (str "last connection:") last = true
  form : last = unset ∨ (10 : UInt8) ∉ last ∧ last.length ≤ 135

theorem stored_unset : Stored unset := ⟨by decide, .inl rfl⟩

/-- What `fgets` reads of it. -/
def entry (last : Str) : Str := (readLine (lineSize - 1) last).1

/-- What it leaves. -/
def behind (last : Str) : Str := last.drop (entry last).length

/-- What is there after `newServerConnection`: the entry is blanked and the new one written
over it. -/
def save (buf last : Str) : Str :=
  Bytes.overwrite (str "last connection: " ++ buf.drop 9)
    (List.replicate (entry last).length 32 ++ behind last)

theorem buildDefaultConfig_eq : buildDefaultConfig = text false unset := by decide +kernel

section Entries
variable {flag : Bool} {last buf : Str} {n : Nat}

theorem length_name : (str "last connection: ").length = 17 := by decide

theorem isLine_of {line : Str} (h : line.getLast? = some 10 ∧ (10 : UInt8) ∉ line.dropLast ∧
    line.length < lineSize) : IsLine lineSize line := by
  obtain ⟨hlast, hfree, hlen⟩ := h
  obtain ⟨t, ht⟩ := List.getLast?_eq_some_iff.mp hlast
  subst ht
  exact ⟨t, by simpa using hfree, rfl, hlen⟩

theorem isLine_front : ∀ line ∈ front, IsLine lineSize line :=
  fun line hline => isLine_of ((by decide : ∀ line ∈ front, line.getLast? = some 10 ∧
    (10 : UInt8) ∉ line.dropLast ∧ line.length < lineSize) line hline)

theorem isLine_middle : ∀ line ∈ middle, IsLine lineSize line :=
  fun line hline => isLine_of ((by decide : ∀ line ∈ middle, line.getLast? = some 10 ∧
    (10 : UInt8) ∉ line.dropLast ∧ line.length < lineSize) line hline)

theorem isLine_flagLine (flag : Bool) : IsLine lineSize (flagLine flag) :=
  isLine_of (by cases flag <;> decide)

/-- A text that is shorter does not start with `s`. -/
theorem startsWith_short {s line : Str} (h : line.length < s.length) :
    startsWith s line = false := by
  refine Bool.eq_false_iff.mpr fun hs => ?_
  exact Nat.not_le_of_lt h (List.isPrefixOf_iff_prefix.mp hs).length_le

/-- A text that starts with the one does not start with the other. -/
theorem startsWith_other {s t line : Str} (hs : startsWith s line = true)
    (hne : startsWith s t = false ∧ startsWith t s = false) : startsWith t line = false := by
  refine Bool.eq_false_iff.mpr fun ht => ?_
  have hprefix := List.isPrefixOf_iff_prefix.mp hs
  rcases List.prefix_or_prefix_of_prefix hprefix (List.isPrefixOf_iff_prefix.mp ht) with h | h
  · exact Bool.eq_false_iff.mp hne.1 (List.isPrefixOf_iff_prefix.mpr h)
  · exact Bool.eq_false_iff.mp hne.2 (List.isPrefixOf_iff_prefix.mpr h)

namespace Stored

theorem starts_entry (h : Stored last) :
    startsWith (str "last connection:") (entry last) = true := by
  rcases h.form with rfl | ⟨hopen, -⟩
  · decide
  · rw [entry, readLine_open hopen]
    refine List.isPrefixOf_iff_prefix.mpr (List.prefix_take_iff.mpr ⟨?_, by decide⟩)
    exact List.isPrefixOf_iff_prefix.mp h.starts

theorem entry_ne_nil (h : Stored last) : entry last ≠ [] := by
  intro hnil
  have hstarts := h.starts_entry
  rw [hnil] at hstarts
  exact absurd hstarts (by decide)

theorem split (h : Stored last) : entry last ++ behind last = last := by
  rcases h.form with rfl | ⟨hopen, -⟩
  · decide
  · rw [behind, entry, readLine_open hopen, List.length_take]
    rcases Nat.le_total (lineSize - 1) last.length with hlen | hlen
    · rw [Nat.min_eq_left hlen, List.take_append_drop]
    · rw [Nat.min_eq_right hlen, List.drop_length, List.take_of_length_le hlen, List.append_nil]

theorem read (h : Stored last) : ∃ eof, readLine (lineSize - 1) (entry last ++ behind last) =
    (entry last, eof) ∧ (eof = true → behind last = []) := by
  rw [h.split]
  refine ⟨_, rfl, ?_⟩
  rcases h.form with rfl | ⟨hopen, -⟩
  · decide
  · rw [behind, entry, readLine_open hopen]
    intro hlen
    exact List.drop_eq_nil_of_le (by simpa using Nat.le_of_lt (of_decide_eq_true hlen))

theorem behind_open (h : Stored last) : (10 : UInt8) ∉ behind last := by
  rcases h.form with rfl | ⟨hopen, -⟩
  · decide
  · exact fun hmem => hopen (List.mem_of_mem_drop hmem)

theorem length_entry (h : Stored last) :
    (entry last).length = min (lineSize - 1) last.length := by
  rcases h.form with rfl | ⟨hopen, -⟩
  · decide
  · rw [entry, readLine_open hopen, List.length_take]

/-- What is left is too short for the line to be found in it. -/
theorem length_behind (h : Stored last) : (behind last).length ≤ 8 := by
  have hlen : last.length ≤ 135 := by
    rcases h.form with rfl | ⟨-, hlen⟩
    · decide
    · exact hlen
  rw [behind, List.length_drop, h.length_entry]
  simp only [lineSize]
  omega

theorem startsWith_behind (h : Stored last) {s : Str} (hs : 8 < s.length) :
    startsWith s (behind last) = false :=
  startsWith_short (Nat.lt_of_le_of_lt h.length_behind hs)

end Stored

/-! ## Reading and toggling the flag -/

theorem front_passed : ∀ line ∈ front, startsWith (str "auto-reconnect:") line = false ∧
    startsWith (str "last connection:") line = false := by decide

theorem middle_passed : ∀ line ∈ middle, startsWith (str "auto-reconnect:") line = false ∧
    startsWith (str "last connection:") line = false := by decide

theorem auto_connect_eq (flag : Bool) (last : Str) (hn : 9 ≤ n) :
    auto_connect n (text flag last) = some (if flag then 1 else 0) := by
  obtain ⟨n, rfl⟩ := Nat.exists_eq_add_of_le' hn
  have hfind : findLine lineSize (startsWith (str "auto-reconnect:")) (n + 9)
      (fopen (text flag last)) = some (some (flagLine flag)) := by
    have hflag : startsWith (str "auto-reconnect:") (flagLine flag) = true := by
      cases flag <;> decide
    have hskip := findLine_skip (n + 1) [] (flagLine flag ++ (middle.flatten ++ last)) isLine_front
      fun line hline => (front_passed line hline).1
    refine hskip.trans ?_
    rw [findLine_line ((isLine_flagLine flag).readLine _) (isLine_flagLine flag).ne_nil,
      if_pos hflag]
  rw [auto_connect, hfind]
  cases flag <;> rfl

theorem toggleLine_passed {line : Str} (h : startsWith (str "auto-reconnect:") line = false)
    (st : TextFile × Option Int) : toggleLine line st = st := by
  simp [toggleLine, h]

/-- The digit is the last byte but one of its line. -/
theorem toggleLine_flag (flag : Bool) (before rest : Str) (ret : Option Int) :
    toggleLine (flagLine flag) (between (before ++ flagLine flag) rest false, ret) =
      (between (before ++ str "auto-reconnect: " ++ str (if !flag then "1" else "0"))
        (str "\n" ++ rest) false, some (if !flag then 1 else 0)) := by
  have hline : flagLine flag =
      str "auto-reconnect: " ++ (str (if flag then "1" else "0") ++ str "\n") := rfl
  have hstarts : startsWith (str "auto-reconnect:") (flagLine flag) = true := by
    cases flag <;> decide
  have htest : startsWith (str "0") ((flagLine flag).drop (str "auto-reconnect: ").length) =
      !flag := by
    cases flag <;> decide
  have hlen : (str (if flag then "1" else "0") ++ str "\n").length = 2 := by
    cases flag <;> decide
  have hseek : (between (before ++ flagLine flag) rest false).fseek (-2) =
      between (before ++ str "auto-reconnect: ")
        (str (if flag then "1" else "0") ++ str "\n" ++ rest) false := by
    rw [hline, ← List.append_assoc]
    exact fseek_between hlen
  have hdrop : (str (if flag then "1" else "0") ++ str "\n" ++ rest).drop 1 = str "\n" ++ rest := by
    cases flag <;> rfl
  rw [toggleLine, if_pos hstarts, htest, hseek]
  cases flag with
  | false => exact congrArg (·, some (1 : Int)) (fputs_between.trans (by rw [← hdrop]; rfl))
  | true => exact congrArg (·, some (0 : Int)) (fputs_between.trans (by rw [← hdrop]; rfl))

/-- A toggle changes the flag and nothing else, and returns what it is then. -/
theorem toggleAutoConnect_eq (flag : Bool) (hs : Stored last) (hn : 16 ≤ n) :
    toggleAutoConnect n (text flag last) =
      some (some (if !flag then 1 else 0), text (!flag) last) := by
  obtain ⟨n, rfl⟩ := Nat.exists_eq_add_of_le' hn
  obtain ⟨eof, hread, heof⟩ := hs.read
  have hpassed := startsWith_other hs.starts_entry (t := str "auto-reconnect:") (by decide)
  have hlines : ∀ line ∈ str "\n" :: middle, IsLine lineSize line :=
    List.forall_mem_cons.mpr ⟨isLine_of (by decide), isLine_middle⟩
  have hpass : ∀ line ∈ str "\n" :: middle, ∀ st, toggleLine line st = st :=
    List.forall_mem_cons.mpr ⟨toggleLine_passed (by decide),
      fun line hline => toggleLine_passed (middle_passed line hline).1⟩
  -- up to the flag
  have hfront := eachLine_skip (n + 8) [] (flagLine flag ++ (middle.flatten ++ last)) none
    isLine_front fun line hline => toggleLine_passed (front_passed line hline).1
  -- from the newline behind it
  have hmiddle := eachLine_skip (n + 4)
    (front.flatten ++ str "auto-reconnect: " ++ str (if !flag then "1" else "0"))
    (entry last ++ behind last) (some (if !flag then (1 : Int) else 0)) hlines hpass
  have hsplit : str "\n" ++ (middle.flatten ++ last) =
      (str "\n" :: middle).flatten ++ (entry last ++ behind last) := by
    rw [hs.split, List.flatten_cons, List.append_assoc]
  have hloop := hfront.trans (eachLine_line ((isLine_flagLine flag).readLine _)
    (isLine_flagLine flag).ne_nil)
  rw [List.nil_append, toggleLine_flag, hsplit] at hloop
  have hdone := (hloop.trans hmiddle).trans (eachLine_line hread hs.entry_ne_nil)
  rw [toggleLine_passed hpassed, eachLine_rest hs.behind_open
    (Nat.lt_of_le_of_lt hs.length_behind (by decide)) heof
    (toggleLine_passed (hs.startsWith_behind (by decide)))] at hdone
  have hbytes : (between (front.flatten ++ str "auto-reconnect: " ++
      str (if !flag then "1" else "0") ++ (str "\n" :: middle).flatten ++ entry last ++
      behind last) [] true).bytes = text (!flag) last := by
    rw [text, flagLine, ← hs.split]
    simp only [between, List.append_assoc, List.append_nil, List.flatten_cons, hs.split]
  rw [toggleAutoConnect, show eachLine lineSize toggleLine (n + 16) (fopen (text flag last), none) =
    _ from hdone]
  exact congrArg (fun file => some (some (if !flag then (1 : Int) else 0), file)) hbytes

/-! ## Saving a connection -/

theorem saveLine_passed {line : Str} (h : startsWith (str "last connection:") line = false)
    (st : TextFile × Unit) : saveLine buf line st = st := by
  simp [saveLine, h]

/-- The entry is written over. -/
theorem saveLine_entry (hs : Stored last) (buf before : Str) (eof : Bool) :
    saveLine buf (entry last) (between (before ++ entry last) (behind last) eof, ()) =
      (between (before ++ (str "last connection: " ++ buf.drop 9))
        ((List.replicate (entry last).length 32 ++ behind last).drop
          (str "last connection: " ++ buf.drop 9).length) false, ()) := by
  have hblank : (fputs (str " "))^[(entry last).length]
      (between before (entry last ++ behind last) false) =
      between (before ++ List.replicate (entry last).length 32) (behind last) false := by
    have hiter := fputs_iterate 32 (entry last).length before (entry last ++ behind last) false
    rwa [List.drop_left] at hiter
  rw [saveLine, if_pos hs.starts_entry]
  simp only [fseek_between, hblank, List.length_replicate, fputs_between, List.drop_drop,
    List.append_assoc, List.length_append]
  rfl

/-- What the rest of the loop finds behind the new entry is not the line again: it begins
with a blank, or is the little that the buffer did not take in. -/
theorem saved_passed (hs : Stored last) {k : Nat} (hk : 17 < k) :
    (10 : UInt8) ∉ (List.replicate (entry last).length 32 ++ behind last).drop k ∧
    ((List.replicate (entry last).length 32 ++ behind last).drop k).length < lineSize - 1 ∧
    startsWith (str "last connection:")
      ((List.replicate (entry last).length 32 ++ behind last).drop k) = false := by
  have hentry : (entry last).length ≤ 127 := hs.length_entry ▸ Nat.min_le_left _ _
  have hbehind := hs.length_behind
  have hlen : ((List.replicate (entry last).length (32 : UInt8) ++ behind last).drop k).length =
      (entry last).length + (behind last).length - k := by
    rw [List.length_drop, List.length_append, List.length_replicate]
  refine ⟨fun hmem => ?_, ?_, ?_⟩
  · rcases List.mem_append.mp (List.mem_of_mem_drop hmem) with hblank | hrest
    · exact absurd (List.eq_of_mem_replicate hblank) (by decide)
    · exact hs.behind_open hrest
  · rw [hlen, lineSize]
    omega
  · by_cases hin : k < (entry last).length
    · refine startsWith_other (s := [32]) ?_ (by decide)
      obtain ⟨m, hm⟩ := Nat.exists_eq_add_of_lt hin
      rw [List.drop_append_of_le_length (by simpa using Nat.le_of_lt hin), List.drop_replicate,
        show (entry last).length - k = m + 1 by omega]
      rfl
    · refine startsWith_short ?_
      have hshort : (str "last connection:").length = 16 := by decide
      rw [hlen, hshort]
      omega

/-- The lines in front of the last one. -/
def opening (flag : Bool) : List Str := front ++ flagLine flag :: middle

theorem text_eq (flag : Bool) (last : Str) : text flag last = (opening flag).flatten ++ last := by
  rw [text, opening, List.flatten_append, List.flatten_cons, List.append_assoc, List.append_assoc]

theorem isLine_opening (flag : Bool) : ∀ line ∈ opening flag, IsLine lineSize line := by
  intro line hline
  rcases List.mem_append.mp hline with hline | hline
  · exact isLine_front line hline
  · rcases List.mem_cons.mp hline with rfl | hline
    · exact isLine_flagLine flag
    · exact isLine_middle line hline

theorem opening_passed (flag : Bool) :
    ∀ line ∈ opening flag, startsWith (str "last connection:") line = false := by
  cases flag <;> decide

/-- The loop of `newServerConnection` puts the new entry over the old one. -/
theorem saveLoop_eq (flag : Bool) (hs : Stored last) (hbuf : 9 < buf.length) (hn : 15 ≤ n) :
    ∃ configfp, eachLine lineSize (saveLine buf) n (fopen (text flag last), ()) =
      some (configfp, ()) ∧ configfp.bytes = text flag (save buf last) := by
  obtain ⟨n, rfl⟩ := Nat.exists_eq_add_of_le' hn
  obtain ⟨eof, hread, -⟩ := hs.read
  have hlong : 17 < (str "last connection: " ++ buf.drop 9).length := by
    rw [List.length_append, List.length_drop, length_name]
    omega
  obtain ⟨hopen, hlen, hpassed⟩ := saved_passed hs hlong
  have hpass : ∀ line ∈ opening flag, ∀ st, saveLine buf line st = st :=
    fun line hline => saveLine_passed (opening_passed flag line hline)
  have hskip := eachLine_skip (n + 4) [] (entry last ++ behind last) () (isLine_opening flag) hpass
  have hloop := hskip.trans (eachLine_line hread hs.entry_ne_nil)
  rw [List.nil_append, saveLine_entry hs, eachLine_rest hopen hlen
    (fun hend => absurd hend Bool.false_ne_true) (saveLine_passed hpassed), hs.split] at hloop
  have htext : fopen (text flag last) = between [] ((opening flag).flatten ++ last) false := by
    rw [text_eq]
    rfl
  refine ⟨_, by rw [htext]; exact hloop, ?_⟩
  rw [text_eq, save, Bytes.overwrite]
  simp only [between, List.append_assoc, List.append_nil]

/-! ## The commands -/

/-- A line that `userCommand` gives to `newServerConnection`. -/
structure IsCommand (buf : Str) : Prop where
  command : userCommand buf = some (str "/connect")
  short : buf.length ≤ 127
  single : (10 : UInt8) ∉ buf

/-- Every line that starts with the name is one. -/
theorem userCommand_connect :
    userCommand buf = some (str "/connect") ↔ startsWith (str "/connect") buf = true := by
  constructor
  · intro h
    exact List.find?_some (p := fun name => startsWith name buf) h
  · intro h
    have hearlier : ∀ name ∈ commandNames.take 5, startsWith (str "/connect") name = false ∧
        startsWith name (str "/connect") = false := by decide
    refine List.find?_eq_some_iff_append.mpr ⟨h, commandNames.take 5, commandNames.drop 6, rfl, ?_⟩
    intro name hname
    rw [startsWith_other h (hearlier name hname)]
    rfl

theorem length_fields (d s : Str) : (fields d s).length = s.countP d.contains + 1 := by
  induction s with
  | nil => rfl
  | cons c s ih =>
    rw [fields, List.splitOnP_cons_eq_if_modifyHead]
    by_cases hc : d.contains c = true
    · rw [if_pos hc, List.countP_cons_of_pos hc, List.length_cons]
      exact congrArg (· + 1) ih
    · rw [if_neg hc, List.countP_cons_of_neg hc, List.length_modifyHead]
      exact ih

/-- With three words it is long enough for what `newServerConnection` skips. -/
theorem IsCommand.long (h : IsCommand buf) (hwords : 2 < (words buf).length) : 9 < buf.length := by
  obtain ⟨t, rfl⟩ := List.isPrefixOf_iff_prefix.mp (userCommand_connect.mp h.command)
  have hle := length_words_le (str "/connect" ++ t)
  have hnone : (str "/connect").countP delim.contains = 0 := by decide
  have hcount := List.countP_le_length (p := delim.contains) (l := t)
  rw [length_fields, List.countP_append, hnone] at hle
  rw [List.length_append, show (str "/connect").length = 8 by decide]
  omega

theorem length_save (hs : Stored last) (buf : Str) : (save buf last).length =
    max (str "last connection: " ++ buf.drop 9).length last.length := by
  have hsplit := congrArg List.length hs.split
  rw [List.length_append] at hsplit
  simp only [save, Bytes.overwrite, List.length_append, List.length_drop, List.length_replicate,
    hsplit]
  omega

theorem Stored.length_le (h : Stored last) : last.length ≤ 135 := by
  rcases h.form with rfl | ⟨-, hlen⟩
  · decide
  · exact hlen

/-- What is saved of a command is on one line. -/
theorem single_save (h : Stored last) (hbuf : IsCommand buf) : (10 : UInt8) ∉ save buf last := by
  intro hmem
  rcases List.mem_append.mp hmem with hnew | hold
  · rcases List.mem_append.mp hnew with hfixed | htext
    · exact absurd hfixed (by decide)
    · exact hbuf.single (List.mem_of_mem_drop htext)
  · rcases List.mem_append.mp (List.mem_of_mem_drop hold) with hblank | hrest
    · exact absurd (List.eq_of_mem_replicate hblank) (by decide)
    · exact h.behind_open hrest

/-- A command leaves a last line of this kind. -/
theorem Stored.save (h : Stored last) (hbuf : IsCommand buf) : Stored (save buf last) where
  starts := by
    refine List.isPrefixOf_iff_prefix.mpr ?_
    rw [Config.save, Bytes.overwrite, List.append_assoc]
    exact List.prefix_append_of_prefix (by decide)
  form := by
    have hshort := hbuf.short
    have hold := h.length_le
    refine .inr ⟨single_save h hbuf, ?_⟩
    rw [length_save h, List.length_append, List.length_drop,
      length_name]
    omega

/-- The connection is made. -/
def Net.Connects (net : Net) (buf : Str) : Prop :=
  2 < (words buf).length ∧ net.get_server_connection (arg (words buf) 1) (arg (words buf) 2) ≠ -1 ∧
    net.pthread_create (net.get_server_connection (arg (words buf) 1) (arg (words buf) 2)) = 0

theorem newServerConnection_eq (net : Net) (flag : Bool) (hs : Stored last) (hbuf : IsCommand buf)
    (hwords : (words buf).length ≤ 15) (hconn : net.Connects buf) (hn : 15 ≤ n) :
    newServerConnection net n buf (text flag last) =
      .ok ⟨1, text flag (save buf last), some (arg (words buf) 1, arg (words buf) 2)⟩ := by
  obtain ⟨h2, hfd, hthread⟩ := hconn
  obtain ⟨configfp, hloop, hbytes⟩ := saveLoop_eq flag hs (hbuf.long h2) hn
  simp [newServerConnection, Nat.not_lt.mpr hwords, h2, hfd, hthread, hloop, hbytes]

/-- An attempt that fails leaves the file alone. -/
theorem newServerConnection_failed (net : Net) (file : List UInt8)
    (hwords : (words buf).length ≤ 15) (hconn : ¬ net.Connects buf) (n : Nat) :
    newServerConnection net n buf file = .ok ⟨0, file,
      if 2 < (words buf).length then some (arg (words buf) 1, arg (words buf) 2) else none⟩ := by
  have hfits : ¬ 15 < (words buf).length := Nat.not_lt.mpr hwords
  by_cases h2 : 2 < (words buf).length
  · by_cases hfd : net.get_server_connection (arg (words buf) 1) (arg (words buf) 2) = -1
    · simp [newServerConnection, hfits, h2, hfd]
    · have hthread : net.pthread_create
          (net.get_server_connection (arg (words buf) 1) (arg (words buf) 2)) ≠ 0 :=
        fun h0 => hconn ⟨h2, hfd, h0⟩
      simp [newServerConnection, hfits, h2, hfd, hthread]
  · simp [newServerConnection, hfits, h2]

/-- A call that is accepted has saved its command. -/
theorem accepted {net : Net} {a : Attempt} (hs : Stored last) (hbuf : IsCommand buf)
    (hcall : ∃ k, ∀ n, k ≤ n → newServerConnection net n buf (text flag last) = .ok a)
    (hret : a.ret = 1) : a.config_file = text flag (save buf last) ∧ 2 < (words buf).length ∧
      (words buf).length ≤ 15 := by
  obtain ⟨k, hk⟩ := hcall
  have hwords : (words buf).length ≤ 15 := by
    by_contra hlong
    have hout := hk k (Nat.le_refl k)
    rw [newServerConnection, if_pos (Nat.lt_of_not_le hlong)] at hout
    cases hout
  by_cases hconn : net.Connects buf
  · have hout := (hk (max k 15) (Nat.le_max_left ..)).symm.trans
      (newServerConnection_eq net flag hs hbuf hwords hconn (Nat.le_max_right ..))
    obtain rfl := Except.ok.inj hout
    exact ⟨rfl, hconn.1, hwords⟩
  · have hout := (hk k (Nat.le_refl k)).symm.trans
      (newServerConnection_failed net _ hwords hconn k)
    obtain rfl := Except.ok.inj hout
    exact absurd hret Int.zero_ne_one

end Entries

/-! ## Runs -/

/-- A file that the calls can make of the default, and how many of them were toggles. -/
inductive Reached (net : Net) : List UInt8 → Nat → Prop
  | default : Reached net buildDefaultConfig 0
  | toggle (file file' : List UInt8) (toggles : Nat) (ret : Option Int)
    (hreached : Reached net file toggles)
    (hcall : ∃ k, ∀ n, k ≤ n → toggleAutoConnect n file = some (ret, file')) :
    Reached net file' (toggles + 1)
  | connect (file : List UInt8) (toggles : Nat) (buf : Str) (a : Attempt)
    (hreached : Reached net file toggles) (hbuf : IsCommand buf) (hwords : (words buf).length ≤ 15)
    (hcall : ∃ k, ∀ n, k ≤ n → newServerConnection net n buf file = .ok a) (hret : a.ret = 1) :
    Reached net a.config_file toggles

variable {net : Net} {file : List UInt8} {toggles : Nat}

/-- In every file there are the two entries, and the flag counts the toggles. -/
theorem Reached.text (h : Reached net file toggles) :
    ∃ last, Stored last ∧ file = text (decide (toggles % 2 = 1)) last := by
  induction h with
  | default => exact ⟨unset, stored_unset, buildDefaultConfig_eq⟩
  | toggle file file' toggles ret hreached hcall ih =>
    obtain ⟨last, hlast, rfl⟩ := ih
    obtain ⟨k, hk⟩ := hcall
    have hout := (hk (max k 16) (Nat.le_max_left ..)).symm.trans
      (toggleAutoConnect_eq _ hlast (Nat.le_max_right ..))
    obtain rfl := (Prod.mk.inj (Option.some.inj hout)).2
    refine ⟨last, hlast, congrArg (Config.text · last) ?_⟩
    rcases Nat.mod_two_eq_zero_or_one toggles with hmod | hmod
    · simp [hmod, Nat.add_mod]
    · simp [hmod, Nat.add_mod]
  | connect file toggles buf a hreached hbuf hwords hcall hret ih =>
    obtain ⟨last, hlast, rfl⟩ := ih
    rw [(accepted hlast hbuf hcall hret).1]
    exact ⟨save buf last, hlast.save hbuf, rfl⟩

/-- Where the last line starts. -/
def lastStart : Nat := (opening false).flatten.length

/-- What the calls do with a file that has been toggled so often. -/
structure Undisturbed (net : Net) (file : List UInt8) (toggles : Nat) : Prop where
  flag : ∀ n, 16 ≤ n → auto_connect n file = some (if toggles % 2 = 1 then 1 else 0)
  toggle : ∃ file' ret, (∀ n, 16 ≤ n → toggleAutoConnect n file = some (some ret, file') ∧
      auto_connect n file' = some ret) ∧
    ∃ i c, ∃ h : i < file.length, c ≠ file[i] ∧ file' = file.set i c
  last : startsWith (str "last connection:") (file.drop lastStart) = true ∧
    (file.take lastStart).getLast? = some 10
  connect : ∀ buf, IsCommand buf → (words buf).length ≤ 15 → ∃ a,
    (∀ n, 16 ≤ n → newServerConnection net n buf file = .ok a) ∧
    a.config_file.take lastStart = file.take lastStart

theorem take_text (flag : Bool) (last : Str) :
    (text flag last).take lastStart = (opening flag).flatten ∧
      (text flag last).drop lastStart = last := by
  have hlen : lastStart = (opening flag).flatten.length := by cases flag <;> decide
  rw [hlen, text_eq]
  exact ⟨List.take_left, List.drop_left⟩

theorem set_between (before rest : List UInt8) {c d : UInt8} (hne : d ≠ c) :
    ∃ i e, ∃ h : i < (before ++ c :: rest).length, e ≠ (before ++ c :: rest)[i] ∧
      before ++ d :: rest = (before ++ c :: rest).set i e :=
  ⟨before.length, d, by simp, by simpa using hne, by simp⟩

/-- The two texts differ in one byte. -/
theorem text_not (flag : Bool) (last : Str) : ∃ i c, ∃ h : i < (text flag last).length,
    c ≠ (text flag last)[i] ∧ text (!flag) last = (text flag last).set i c := by
  have hsplit (flag : Bool) : text flag last = (front.flatten ++ str "auto-reconnect: ") ++
      (if flag then 49 else 48) :: (str "\n" ++ (middle.flatten ++ last)) := by
    rw [text, flagLine, List.append_assoc, List.append_assoc, List.append_assoc]
    cases flag <;> rfl
  rw [hsplit flag, hsplit (!flag)]
  exact set_between _ _ (by cases flag <;> decide)

/-- **The two entries do not disturb each other.** -/
theorem config_undisturbed (h : Reached net file toggles) : Undisturbed net file toggles := by
  obtain ⟨last, hlast, rfl⟩ := h.text
  refine ⟨fun n hn => ?_, ?_, ?_, fun buf hbuf hwords => ?_⟩
  · rw [auto_connect_eq _ _ (Nat.le_trans (by decide) hn)]
    simp
  · refine ⟨_, _, fun n hn => ⟨toggleAutoConnect_eq _ hlast hn, ?_⟩, text_not _ last⟩
    exact auto_connect_eq _ _ (Nat.le_trans (by decide) hn)
  · rw [(take_text _ last).1, (take_text _ last).2]
    exact ⟨hlast.starts, by cases decide (toggles % 2 = 1) <;> decide⟩
  · by_cases hconn : net.Connects buf
    · refine ⟨_, fun n hn => newServerConnection_eq net _ hlast hbuf hwords hconn
        (Nat.le_trans (by decide) hn), ?_⟩
      rw [(take_text _ _).1, (take_text _ _).1]
    · exact ⟨_, fun n _ => newServerConnection_failed net _ hwords hconn n, rfl⟩

/-- A network on which every connection is made. -/
def sampleNet : Net := ⟨fun _ _ => 3, fun _ => 0⟩

/-- After a connection and a toggle. -/
theorem config_undisturbed_pi :
    Undisturbed sampleNet (text true (save (str "/connect pi 4000") unset)) 1 := by
  have hpi : IsCommand (str "/connect pi 4000") := ⟨by decide, by decide, by decide⟩
  have hconn : sampleNet.Connects (str "/connect pi 4000") := ⟨by decide, by decide, by decide⟩
  have hsaved : Reached sampleNet (text false (save (str "/connect pi 4000") unset)) 0 :=
    .connect buildDefaultConfig 0 _ _ .default hpi (by decide) ⟨15, fun n hn => by
      rw [buildDefaultConfig_eq]
      exact newServerConnection_eq sampleNet false stored_unset hpi (by decide) hconn hn⟩ rfl
  exact config_undisturbed (.toggle _ _ 0 _ hsaved
    ⟨16, fun n hn => toggleAutoConnect_eq false (stored_unset.save hpi) hn⟩)

end TBDChat.Config
