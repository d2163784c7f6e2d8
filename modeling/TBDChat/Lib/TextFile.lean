import Mathlib.Data.List.Basic
import Mathlib.Logic.Function.Iterate

/-!
# Text files with a position

What `stdio` does with a file that is read line by line and written to in between: the
bytes, the position at which they are read and written, and the end-of-file indicator.
The rules are for a position between two parts of the file, and for loops that go over
the lines.
-/

namespace TBDChat

/-- An open file. -/
structure TextFile where
  bytes : List UInt8
  pos : Nat
  eof : Bool

namespace TextFile

def fopen (bytes : List UInt8) : TextFile := ⟨bytes, 0, false⟩

/-- The bytes up to a newline, `n` at most, and whether the end was come to before that. -/
def readLine : Nat → List UInt8 → List UInt8 × Bool
  | 0, _ => ([], false)
  | _ + 1, [] => ([], true)
  | n + 1, c :: rest =>
    if c = 10 then ([c], false) else (c :: (readLine n rest).1, (readLine n rest).2)

/-- `fgets` into `size` bytes, which answers NULL if nothing was read. -/
def fgets (size : Nat) (f : TextFile) : Option (List UInt8) × TextFile :=
  let line := readLine (size - 1) (f.bytes.drop f.pos)
  (if line.1 = [] then none else some line.1,
    { f with pos := f.pos + line.1.length, eof := f.eof || line.2 })

/-- The bytes are written over the file, which they may lengthen. -/
def fputs (s : List UInt8) (f : TextFile) : TextFile :=
  { f with
    bytes := f.bytes.take f.pos ++ s ++ f.bytes.drop (f.pos + s.length)
    pos := f.pos + s.length }

/-- `fseek` from the current position. -/
def fseek (offset : Int) (f : TextFile) : TextFile :=
  if 0 ≤ f.pos + offset then { f with pos := (f.pos + offset).toNat, eof := false } else f

section Loops
variable {σ : Type} (size : Nat)

/-- `while (!feof(f)) if (fgets(line, size, f)) body`, with variables `σ`. -/
def eachLine (body : List UInt8 → TextFile × σ → TextFile × σ) :
    Nat → TextFile × σ → Option (TextFile × σ)
  | 0, _ => none
  | n + 1, (f, s) =>
    if f.eof then some (f, s)
    else match f.fgets size with
      | (none, f) => eachLine body n (f, s)
      | (some line, f) => eachLine body n (body line (f, s))

/-- The same loop where it is left at the first line that passes a test. -/
def findLine (test : List UInt8 → Bool) : Nat → TextFile → Option (Option (List UInt8))
  | 0, _ => none
  | n + 1, f =>
    if f.eof then some none
    else match f.fgets size with
      | (none, f) => findLine test n f
      | (some line, f) => if test line then some (some line) else findLine test n f

end Loops

/-! ## Lines -/

section Lines
variable {n size : Nat} {s t line rest front : List UInt8} {eof : Bool}

theorem readLine_newline (ht : (10 : UInt8) ∉ t) (hn : t.length < n) :
    readLine n (t ++ 10 :: rest) = (t ++ [10], false) := by
  induction t generalizing n with
  | nil =>
    obtain ⟨n, rfl⟩ := Nat.exists_eq_add_of_lt hn
    simp [readLine]
  | cons c t ih =>
    obtain ⟨hc, ht⟩ := not_or.mp (mt List.mem_cons.mpr ht)
    cases n with
    | zero => exact absurd hn (Nat.not_lt_zero _)
    | succ n => simp [readLine, Ne.symm hc, ih ht (Nat.lt_of_succ_lt_succ hn)]

/-- Without a newline it is what fits. -/
theorem readLine_open (hs : (10 : UInt8) ∉ s) :
    readLine n s = (s.take n, decide (s.length < n)) := by
  induction s generalizing n with
  | nil => cases n <;> rfl
  | cons c s ih =>
    obtain ⟨hc, hs⟩ := not_or.mp (mt List.mem_cons.mpr hs)
    cases n with
    | zero => rfl
    | succ n => simp [readLine, Ne.symm hc, ih hs]

/-- A line with its newline that fits a buffer. -/
def IsLine (size : Nat) (line : List UInt8) : Prop :=
  ∃ t, (10 : UInt8) ∉ t ∧ line = t ++ [10] ∧ line.length < size

theorem IsLine.readLine (h : IsLine size line) (rest : List UInt8) :
    readLine (size - 1) (line ++ rest) = (line, false) := by
  obtain ⟨t, ht, rfl, hlen⟩ := h
  rw [List.length_append, List.length_singleton] at hlen
  rw [List.append_assoc]
  exact readLine_newline ht (by omega)

theorem IsLine.ne_nil (h : IsLine size line) : line ≠ [] := by
  obtain ⟨t, -, rfl, -⟩ := h
  simp

/-! ## A position between two parts -/

/-- The file `front ++ rest` at the end of the first part. -/
def between (front rest : List UInt8) (eof : Bool) : TextFile := ⟨front ++ rest, front.length, eof⟩

theorem fgets_between (hread : readLine (size - 1) (line ++ rest) = (line, eof))
    (hne : line ≠ []) : (between front (line ++ rest) false).fgets size =
      (some line, between (front ++ line) rest eof) := by
  simp [fgets, between, hread, hne]

/-- At the end of the file nothing is read. -/
theorem fgets_end (hsize : 1 < size) :
    (between front [] false).fgets size = (none, between front [] true) := by
  obtain ⟨n, hn⟩ : ∃ n, size - 1 = n + 1 := ⟨size - 2, by omega⟩
  simp [fgets, between, hn, readLine]

theorem fputs_between : (between front rest eof).fputs s =
    between (front ++ s) (rest.drop s.length) eof := by
  simp [fputs, between]

/-- Back over what is in front. -/
theorem fseek_between {k : Nat} (hk : line.length = k) :
    (between (front ++ line) rest eof).fseek (-k) = between front (line ++ rest) false := by
  have hpos : ((front ++ line).length + -k : Int) = front.length := by
    rw [List.length_append]
    omega
  have hback : (0 : Int) ≤ ((front ++ line).length + -k : Int) := hpos ▸ Int.natCast_nonneg _
  rw [fseek, between, if_pos hback, hpos, List.append_assoc]
  rfl

/-- One byte after the other. -/
theorem fputs_iterate (c : UInt8) (k : Nat) (front rest : List UInt8) (eof : Bool) :
    (fputs [c])^[k] (between front rest eof) =
      between (front ++ List.replicate k c) (rest.drop k) eof := by
  induction k generalizing front rest with
  | zero => simp
  | succ k ih =>
    rw [Function.iterate_succ_apply, fputs_between, ih, List.append_assoc, List.drop_drop,
      List.length_singleton, Nat.add_comm 1 k]
    rfl

end Lines

/-! ## Going over the lines -/

section Loops
variable {σ : Type} {size n : Nat} {body : List UInt8 → TextFile × σ → TextFile × σ}
  {test : List UInt8 → Bool} {line rest front : List UInt8} {eof : Bool} {s : σ}

theorem eachLine_eof (f : TextFile) (hf : f.eof = true) :
    eachLine size body (n + 1) (f, s) = some (f, s) := by
  simp [eachLine, hf]

theorem eachLine_line (hread : readLine (size - 1) (line ++ rest) = (line, eof))
    (hne : line ≠ []) : eachLine size body (n + 1) (between front (line ++ rest) false, s) =
      eachLine size body n (body line (between (front ++ line) rest eof, s)) := by
  have hf : (between front (line ++ rest) false).eof = false := rfl
  simp [eachLine, fgets_between hread hne, hf]

/-- Lines that the body does nothing with are passed. -/
theorem eachLine_skip (n : Nat) (front rest : List UInt8) (s : σ) {lines : List (List UInt8)}
    (hlines : ∀ line ∈ lines, IsLine size line)
    (hbody : ∀ line ∈ lines, ∀ st, body line st = st) :
    eachLine size body (n + lines.length) (between front (lines.flatten ++ rest) false, s) =
      eachLine size body n (between (front ++ lines.flatten) rest false, s) := by
  induction lines generalizing front with
  | nil => simp
  | cons line lines ih =>
    obtain ⟨hline, hlines⟩ := List.forall_mem_cons.mp hlines
    obtain ⟨hthis, hbody⟩ := List.forall_mem_cons.mp hbody
    rw [List.length_cons, ← Nat.add_assoc, List.flatten_cons, List.append_assoc,
      eachLine_line (hline.readLine _) hline.ne_nil, hthis, ih _ hlines hbody, List.append_assoc]

/-- What is behind the last newline and does not fill the buffer is passed, and the loop ends. -/
theorem eachLine_rest (hrest : (10 : UInt8) ∉ rest) (hlen : rest.length < size - 1)
    (heof : eof = true → rest = []) (hbody : ∀ st, body rest st = st) :
    eachLine size body (n + 3) (between front rest eof, s) =
      some (between (front ++ rest) [] true, s) := by
  cases eof with
  | true =>
    rw [heof rfl, eachLine_eof _ rfl, List.append_nil]
  | false =>
    by_cases hnil : rest = []
    · subst hnil
      have hf : (between front [] false).eof = false := rfl
      rw [eachLine]
      simp only [hf, Bool.false_eq_true, if_false, fgets_end (show 1 < size by omega)]
      rw [eachLine_eof _ rfl, List.append_nil]
    · have hread : readLine (size - 1) (rest ++ []) = (rest, true) := by
        rw [List.append_nil, readLine_open hrest, List.take_of_length_le (Nat.le_of_lt hlen),
          decide_eq_true hlen]
      have hstep : eachLine size body (n + 3) (between front (rest ++ []) false, s) =
          eachLine size body (n + 2) (body rest (between (front ++ rest) [] true, s)) :=
        eachLine_line hread hnil
      rw [List.append_nil] at hstep
      rw [hstep, hbody, eachLine_eof _ rfl]

theorem findLine_line (hread : readLine (size - 1) (line ++ rest) = (line, eof))
    (hne : line ≠ []) : findLine size test (n + 1) (between front (line ++ rest) false) =
      if test line then some (some line)
      else findLine size test n (between (front ++ line) rest eof) := by
  have hf : (between front (line ++ rest) false).eof = false := rfl
  simp [findLine, fgets_between hread hne, hf]

/-- Lines that do not pass the test are passed over. -/
theorem findLine_skip (n : Nat) (front rest : List UInt8) {lines : List (List UInt8)}
    (hlines : ∀ line ∈ lines, IsLine size line)
    (htest : ∀ line ∈ lines, test line = false) :
    findLine size test (n + lines.length) (between front (lines.flatten ++ rest) false) =
      findLine size test n (between (front ++ lines.flatten) rest false) := by
  induction lines generalizing front with
  | nil => simp
  | cons line lines ih =>
    obtain ⟨hline, hlines⟩ := List.forall_mem_cons.mp hlines
    obtain ⟨hthis, htest⟩ := List.forall_mem_cons.mp htest
    rw [List.length_cons, ← Nat.add_assoc, List.flatten_cons, List.append_assoc,
      findLine_line (hline.readLine _) hline.ne_nil, hthis, ih _ hlines htest, List.append_assoc]
    rfl

end Loops
end TextFile
end TBDChat
