import TBDChat.Lib.Bytes
import Mathlib.Logic.Nontrivial.Basic

/-!
# Blocks read from a stream in pieces

A sender writes blocks of `k` elements to a stream, and the stream is read in
pieces of at most `k`.  A reader that knows no better takes each piece for a
block: the piece lands at the start of a buffer, over what the buffer held, and
the buffer is blanked after each block.  `receive` is the loop of such a reader,
which may also come to an end because of the blocks it has read.

`receive_eq_sent_iff` says when it reads what was sent, whatever the buffer held
at first.  Either every piece is a block.  Or the last block ends the loop and
nothing but blanks follows the first piece that is cut short: then every block
from there on is padded with blanks to what it was.
-/

namespace TBDChat.BlockStream
open Bytes

variable {β : Type}

/-- The blocks `sent` arrive as the pieces `chunks`. -/
structure Arrives (k : Nat) (sent chunks : List (List β)) : Prop where
  block : ∀ p ∈ sent, p.length = k
  piece : ∀ c ∈ chunks, 0 < c.length ∧ c.length ≤ k
  stream : chunks.flatten = sent.flatten

/-- The blocks that are read if the loop does not end: each piece over what the
buffer holds. -/
def assembled (blank : List β) : List β → List (List β) → List (List β)
  | _, [] => []
  | buf, c :: chunks => overwrite c buf :: assembled blank blank chunks

/-- The loop of the reader: `seen` are the blocks read so far, and `ends` says
after which of them the loop ends. -/
def receive (blank : List β) (ends : List (List β) → Bool) (seen : List (List β)) (buf : List β) :
    List (List β) → List (List β)
  | [] => seen
  | c :: chunks =>
    let seen := seen ++ [overwrite c buf]
    if ends seen then seen else receive blank ends seen blank chunks

/-- The loop does not end before the last of these blocks. -/
def Unended (ends : List (List β) → Bool) (sent : List (List β)) : Prop :=
  ∀ t, t <+: sent → t ≠ [] → t ≠ sent → ends t = false

/-- Whole pieces first; only blanks behind the first piece that may be cut short. -/
def CutBeforeBlanks (k : Nat) (z : β) (chunks : List (List β)) : Prop :=
  ∃ pre rest, chunks = pre ++ rest ∧ pre ≠ [] ∧ (∀ c ∈ pre, c.length = k) ∧
    ∀ x ∈ rest.tail.flatten, x = z

section Loop
variable {blank buf p : List β} {ends : List (List β) → Bool} {seen s chunks : List (List β)}

theorem unended_cons : Unended ends (p :: s) ↔
    (s ≠ [] → ends [p] = false) ∧ Unended (fun t => ends (p :: t)) s := by
  constructor
  · intro h
    refine ⟨fun hs => h [p] (by simp) (by simp) (by simp [hs]), fun t ht hne hnot => ?_⟩
    exact h (p :: t) (by simp [ht]) (by simp) (by simp [hnot])
  · rintro ⟨hfst, hrest⟩ t ht hne hnot
    cases t with
    | nil => exact absurd rfl hne
    | cons a t =>
      obtain ⟨rfl, hts⟩ := List.cons_prefix_cons.mp ht
      by_cases htnil : t = []
      · subst htnil
        exact hfst fun hs => hnot (by rw [hs])
      · exact hrest t hts htnil fun h => hnot (by rw [h])

theorem receive_seen : receive blank ends seen buf chunks =
    seen ++ receive blank (fun t => ends (seen ++ t)) [] buf chunks := by
  induction chunks generalizing seen buf ends with
  | nil => simp [receive]
  | cons c chunks ih =>
    simp only [receive, List.nil_append]
    split
    · rfl
    · have hseen := @ih blank ends (seen ++ [overwrite c buf])
      have hfst := @ih blank (fun t => ends (seen ++ t)) [overwrite c buf]
      rw [hseen, hfst]
      simp

theorem receive_cons (c : List β) : receive blank ends [] buf (c :: chunks) =
    if ends [overwrite c buf] then [overwrite c buf]
    else overwrite c buf ::
      receive blank (fun t => ends (overwrite c buf :: t)) [] blank chunks := by
  rw [receive, List.nil_append, receive_seen]
  rfl

/-- **What the loop reads**: the pieces as they are assembled, up to the first
that ends the loop. -/
theorem receive_eq_iff : receive blank ends [] buf chunks = s ↔
    s <+: assembled blank buf chunks ∧ Unended ends s ∧
      (s = assembled blank buf chunks ∨ s ≠ [] ∧ ends s = true) := by
  induction chunks generalizing ends buf s with
  | nil =>
    simp only [receive, assembled, List.prefix_nil]
    constructor
    · rintro rfl
      exact ⟨rfl, fun t ht hne => absurd (List.prefix_nil.mp ht) hne, .inl rfl⟩
    · exact fun h => h.1.symm
  | cons c chunks ih =>
    rw [receive_cons, assembled]
    cases s with
    | nil => by_cases hend : ends [overwrite c buf] = true <;> simp [hend]
    | cons p s =>
      rw [List.cons_prefix_cons, unended_cons]
      by_cases hend : ends [overwrite c buf] = true
      · rw [if_pos hend]
        constructor
        · intro h
          obtain ⟨rfl, rfl⟩ := List.cons.inj h
          exact ⟨⟨rfl, List.nil_prefix⟩, ⟨fun hs => absurd rfl hs,
            fun t ht hne => absurd (List.prefix_nil.mp ht) hne⟩, .inr ⟨List.cons_ne_nil _ _, hend⟩⟩
        · rintro ⟨⟨rfl, -⟩, ⟨hfst, -⟩, -⟩
          by_contra hs
          have hfalse := hfst fun h => hs (by rw [h])
          rw [hend] at hfalse
          cases hfalse
      · rw [if_neg hend]
        constructor
        · intro h
          obtain ⟨rfl, hrest⟩ := List.cons.inj h
          obtain ⟨hpre, hun, hlast⟩ := ih.mp hrest
          refine ⟨⟨rfl, hpre⟩, ⟨fun _ => by simpa using hend, hun⟩, ?_⟩
          rcases hlast with rfl | ⟨-, hlast⟩
          · exact .inl rfl
          · exact .inr ⟨List.cons_ne_nil _ _, hlast⟩
        · rintro ⟨⟨rfl, hpre⟩, ⟨-, hun⟩, hlast⟩
          refine congrArg (_ :: ·) (ih.mpr ⟨hpre, hun, ?_⟩)
          rcases hlast with hlast | ⟨-, hlast⟩
          · exact .inl (List.cons.inj hlast).2
          · exact .inr ⟨fun hs => hend (hs ▸ hlast), hlast⟩

end Loop

/-! ## Pieces and blocks -/

section Pieces
variable {k t : Nat} {z : β} {p q c r buf : List β} {chunks sent pre rest : List (List β)}

theorem overwrite_of_length (h : c.length = buf.length) : overwrite c buf = c := by
  rw [overwrite, h, List.drop_length, List.append_nil]

theorem length_flatten_le (h : ∀ c ∈ chunks, c.length ≤ k) :
    chunks.flatten.length ≤ chunks.length * k := by
  induction chunks with
  | nil => simp
  | cons c chunks ih =>
    have hc := h c List.mem_cons_self
    have hrest := ih fun c hc => h c (List.mem_cons_of_mem _ hc)
    rw [List.flatten_cons, List.length_append, List.length_cons, Nat.succ_mul]
    omega

/-- Pieces of at most `k` that hold as much as so many blocks are blocks. -/
theorem whole_of_length (h : ∀ c ∈ chunks, c.length ≤ k)
    (hlen : chunks.flatten.length = chunks.length * k) : ∀ c ∈ chunks, c.length = k := by
  induction chunks with
  | nil => simp
  | cons c chunks ih =>
    have hc := h c List.mem_cons_self
    have hle := fun c hc => h c (List.mem_cons_of_mem _ hc)
    have hrest := length_flatten_le hle
    rw [List.flatten_cons, List.length_append, List.length_cons, Nat.succ_mul] at hlen
    intro d hd
    rcases List.mem_cons.mp hd with rfl | hd
    · omega
    · exact ih hle (by omega) d hd

/-- Blocks are determined by the stream they make. -/
theorem eq_of_flatten_eq (hk : 0 < k) (hc : ∀ c ∈ chunks, c.length = k)
    (hs : ∀ p ∈ sent, p.length = k) (h : chunks.flatten = sent.flatten) : chunks = sent := by
  have hcut {l : List (List β)} (hl : ∀ c ∈ l, c.length = k) : blocks k l.flatten = l := by
    simpa using @blocks_flatten β k l [] hl hk
  rw [← hcut hc, h, hcut hs]

theorem assembled_whole (hbuf : buf.length = k) (h : ∀ c ∈ chunks, c.length = k) :
    assembled (List.replicate k z) buf chunks = chunks := by
  induction chunks generalizing buf with
  | nil => rfl
  | cons c chunks ih =>
    rw [assembled, overwrite_of_length ((h c List.mem_cons_self).trans hbuf.symm),
      ih (List.length_replicate ..) fun c hc => h c (List.mem_cons_of_mem _ hc)]

/-- A block that is its own beginning moved by some blanks is blank. -/
theorem blank_of_shift (ht : 0 < t) (hp : ∀ i, q.length ≤ i → (hi : i < p.length) → p[i] = z)
    (hpre : q <+: p) (hshift : q <+: List.replicate t z ++ (p ++ r)) : ∀ x ∈ p, x = z := by
  have hget (i : Nat) (hi : i < p.length) : p[i] = z := by
    induction i using Nat.strong_induction_on with
    | _ i ih =>
      rcases Nat.lt_or_ge i q.length with hic | hic
      · have hqi : q[i] = p[i] := hpre.getElem hic
        have hsi := hshift.getElem hic
        rw [← hqi, hsi]
        rcases Nat.lt_or_ge i t with hit | hit
        · rw [List.getElem_append_left (by simpa using hit), List.getElem_replicate]
        · rw [List.getElem_append_right (by simpa using hit)]
          simp only [List.length_replicate]
          rw [List.getElem_append_left (by omega)]
          exact ih (i - t) (by omega) (by omega)
      · exact hp i hic hi
  intro x hx
  obtain ⟨i, hi, rfl⟩ := List.mem_iff_getElem.mp hx
  exact hget i hi

/-- What is left of a run of blanks is blanks. -/
theorem drop_blanks {n : Nat} (h : n ≤ t) :
    (List.replicate t z ++ r).drop n = List.replicate (t - n) z ++ r := by
  rw [List.drop_append_of_le_length (by simpa using h), List.drop_replicate]

theorem eq_replicate (hlen : p.length = k) (h : ∀ x ∈ p, x = z) : p = List.replicate k z :=
  List.eq_replicate_iff.mpr ⟨hlen, h⟩

/-- A piece is the front of the block it begins in, and what is left of the block
comes next. -/
theorem Arrives.split (h : Arrives k (p :: sent) (c :: chunks)) :
    p.take c.length = c ∧ chunks.flatten = p.drop c.length ++ sent.flatten := by
  have hle : c.length ≤ p.length := by
    rw [h.block p List.mem_cons_self]
    exact (h.piece c List.mem_cons_self).2
  have hstream : c ++ chunks.flatten = p ++ sent.flatten := h.stream
  constructor
  · have htake := congrArg (List.take c.length) hstream
    rw [List.take_left, List.take_append_of_le_length hle] at htake
    exact htake.symm
  · have hdrop := congrArg (List.drop c.length) hstream
    rwa [List.drop_left, List.drop_append_of_le_length hle] at hdrop

/-- A whole piece is the block, and what follows arrives as the other blocks. -/
theorem Arrives.tail (h : Arrives k (p :: sent) (c :: chunks)) (hc : c.length = k) :
    c = p ∧ Arrives k sent chunks := by
  obtain ⟨hfront, hrest⟩ := h.split
  have hp : p.length = c.length := (h.block p List.mem_cons_self).trans hc.symm
  rw [← hp, List.take_length] at hfront
  rw [← hp, List.drop_length, List.nil_append] at hrest
  exact ⟨hfront.symm, fun q hq => h.block q (List.mem_cons_of_mem _ hq),
    fun d hd => h.piece d (List.mem_cons_of_mem _ hd), hrest⟩

/-- Pieces that are read as the blocks sent although they are behind the blocks
by some blanks: the blocks are blank. -/
theorem blank_of_behind (ht : 0 < t) (hblock : ∀ p ∈ sent, p.length = k)
    (hpiece : ∀ c ∈ chunks, c.length ≤ k)
    (hstream : chunks.flatten = List.replicate t z ++ sent.flatten)
    (hread : sent <+: assembled (List.replicate k z) (List.replicate k z) chunks) :
    ∀ x ∈ sent.flatten, x = z := by
  induction sent generalizing chunks t with
  | nil => simp
  | cons p sent ih =>
    cases chunks with
    | nil => simp [assembled] at hread
    | cons c chunks =>
      obtain ⟨rfl, hread'⟩ := List.cons_prefix_cons.mp hread
      have hlen : c.length ≤ k := hpiece c List.mem_cons_self
      have hplen := hblock _ List.mem_cons_self
      rw [List.flatten_cons, List.flatten_cons] at hstream
      -- the block is the piece and blanks, and the stream begins with blanks and the block
      have hblank : ∀ x ∈ overwrite c (List.replicate k z), x = z := by
        refine blank_of_shift ht (fun i hi hi' => ?_) (List.prefix_append c _)
          (hstream ▸ List.prefix_append c _)
        simp only [overwrite]
        rw [List.getElem_append_right hi, List.getElem_drop, List.getElem_replicate]
      have hrest : chunks.flatten = List.replicate (t + k - c.length) z ++ sent.flatten := by
        have hdrop := congrArg (List.drop c.length) hstream
        rwa [List.drop_left, eq_replicate hplen hblank, ← List.append_assoc,
          List.replicate_append_replicate, drop_blanks (by omega)] at hdrop
      intro x hx
      rcases List.mem_append.mp hx with hx | hx
      · exact hblank x hx
      · exact ih (by omega) (fun q hq => hblock q (List.mem_cons_of_mem _ hq))
          (fun d hd => hpiece d (List.mem_cons_of_mem _ hd)) hrest hread' x hx

/-- A piece over a blank buffer. -/
theorem overwrite_blank (c : List β) :
    overwrite c (List.replicate k z) = c ++ List.replicate (k - c.length) z := by
  rw [overwrite, List.drop_replicate]

/-- Blank pieces are read as blank blocks. -/
theorem assembled_blank (hpiece : ∀ c ∈ chunks, c.length ≤ k)
    (hblank : ∀ x ∈ chunks.flatten, x = z) :
    assembled (List.replicate k z) (List.replicate k z) chunks =
      List.replicate chunks.length (List.replicate k z) := by
  induction chunks with
  | nil => rfl
  | cons c chunks ih =>
    have hle := hpiece c List.mem_cons_self
    have hc : c = List.replicate c.length z :=
      eq_replicate rfl fun x hx => hblank x (List.mem_append_left _ hx)
    have hfst : overwrite c (List.replicate k z) = List.replicate k z := by
      rw [overwrite_blank]
      nth_rewrite 1 [hc]
      rw [List.replicate_append_replicate, Nat.add_sub_of_le hle]
    rw [assembled, hfst, ih (fun d hd => hpiece d (List.mem_cons_of_mem _ hd))
      fun x hx => hblank x (List.mem_append_right _ hx)]
    rfl

theorem prefix_of_blank (hk : 0 < k) (hblock : ∀ p ∈ sent, p.length = k)
    (hpiece : ∀ c ∈ chunks, c.length ≤ k)
    (hlen : sent.flatten.length ≤ chunks.flatten.length) (hsent : ∀ x ∈ sent.flatten, x = z)
    (hblank : ∀ x ∈ chunks.flatten, x = z) :
    sent <+: assembled (List.replicate k z) (List.replicate k z) chunks := by
  have hall : sent = List.replicate sent.length (List.replicate k z) :=
    eq_replicate rfl fun p hp =>
      eq_replicate (hblock p hp) fun x hx => hsent x (List.mem_flatten_of_mem hp hx)
  have hcount : sent.length ≤ chunks.length := by
    rw [length_flatten_uniform hblock] at hlen
    exact Nat.le_of_mul_le_mul_right (Nat.le_trans hlen (length_flatten_le hpiece)) hk
  rw [assembled_blank hpiece hblank, hall]
  exact ⟨List.replicate (chunks.length - sent.length) _, by
    rw [List.replicate_append_replicate, Nat.add_sub_of_le hcount]⟩

theorem length_assembled (blank buf : List β) (chunks : List (List β)) :
    (assembled blank buf chunks).length = chunks.length := by
  induction chunks generalizing buf with
  | nil => rfl
  | cons c chunks ih => rw [assembled, List.length_cons, ih, List.length_cons]

/-- **A piece that is cut short** is made up for only by blanks: the block must end
in them, and nothing else may follow. -/
theorem prefix_assembled_short (hk : 0 < k) (h : Arrives k (p :: sent) (c :: chunks))
    (hc : c.length < k) :
    p :: sent <+: assembled (List.replicate k z) (List.replicate k z) (c :: chunks) ↔
      ∀ x ∈ chunks.flatten, x = z := by
  obtain ⟨hfront, hrest⟩ := h.split
  have hp := h.block p List.mem_cons_self
  have hblock := fun q hq => h.block q (List.mem_cons_of_mem p hq)
  have hpiece := fun d hd => (h.piece d (List.mem_cons_of_mem c hd)).2
  rw [assembled, List.cons_prefix_cons, overwrite_blank]
  constructor
  · rintro ⟨hpad, hread⟩
    -- from here on the pieces are behind the blocks by what this one lacks
    have htail : p.drop c.length = List.replicate (k - c.length) z := by
      rw [hpad, List.drop_left]
    rw [htail] at hrest
    intro x hx
    rw [hrest] at hx
    rcases List.mem_append.mp hx with hx | hx
    · exact (List.mem_replicate.mp hx).2
    · exact blank_of_behind (Nat.sub_pos_of_lt hc) hblock hpiece hrest hread x hx
  · intro hblank
    rw [hrest] at hblank
    have htail : p.drop c.length = List.replicate (k - c.length) z :=
      eq_replicate (by rw [List.length_drop, hp]) fun x hx =>
        hblank x (List.mem_append_left _ hx)
    constructor
    · calc p = p.take c.length ++ p.drop c.length := (List.take_append_drop _ p).symm
        _ = c ++ List.replicate (k - c.length) z := by rw [hfront, htail]
    · refine prefix_of_blank hk hblock hpiece ?_
        (fun x hx => hblank x (List.mem_append_right _ hx)) (hrest ▸ hblank)
      rw [hrest, List.length_append]
      exact Nat.le_add_left _ _

/-- Whole pieces first, and only blanks behind the first of the others. -/
def WholeThenBlanks (k : Nat) (z : β) (chunks : List (List β)) : Prop :=
  ∃ pre rest, chunks = pre ++ rest ∧ (∀ c ∈ pre, c.length = k) ∧ ∀ x ∈ rest.tail.flatten, x = z

theorem wholeThenBlanks_cons (hc : c.length = k) :
    WholeThenBlanks k z (c :: chunks) ↔ WholeThenBlanks k z chunks := by
  constructor
  · rintro ⟨pre, rest, heq, hpre, hblank⟩
    cases pre with
    | nil =>
      obtain rfl : c :: chunks = rest := heq
      refine ⟨[], chunks, rfl, by simp, fun x hx => ?_⟩
      obtain ⟨d, hd, hx⟩ := List.mem_flatten.mp hx
      exact hblank x (List.mem_flatten_of_mem (List.mem_of_mem_tail hd) hx)
    | cons d pre =>
      obtain ⟨rfl, rfl⟩ := List.cons.inj heq
      exact ⟨pre, rest, rfl, fun e he => hpre e (List.mem_cons_of_mem _ he), hblank⟩
  · rintro ⟨pre, rest, rfl, hpre, hblank⟩
    refine ⟨c :: pre, rest, rfl, fun d hd => ?_, hblank⟩
    rcases List.mem_cons.mp hd with rfl | hd
    · exact hc
    · exact hpre d hd

theorem wholeThenBlanks_cons_short (hc : c.length ≠ k) :
    WholeThenBlanks k z (c :: chunks) ↔ ∀ x ∈ chunks.flatten, x = z := by
  constructor
  · rintro ⟨pre, rest, heq, hpre, hblank⟩
    cases pre with
    | nil =>
      obtain rfl : c :: chunks = rest := heq
      exact hblank
    | cons d pre =>
      obtain ⟨rfl, -⟩ := List.cons.inj heq
      exact absurd (hpre c List.mem_cons_self) hc
  · intro hblank
    exact ⟨[], c :: chunks, rfl, by simp, hblank⟩

/-- **When the pieces are read as the blocks sent**, by a reader that starts with
a blank buffer. -/
theorem prefix_assembled_iff (hk : 0 < k) (h : Arrives k sent chunks) :
    sent <+: assembled (List.replicate k z) (List.replicate k z) chunks ↔
      WholeThenBlanks k z chunks := by
  induction chunks generalizing sent with
  | nil =>
    have hnil : sent = [] := (eq_of_flatten_eq hk (by simp) h.block h.stream).symm
    subst hnil
    exact iff_of_true List.nil_prefix ⟨[], [], rfl, by simp, by simp⟩
  | cons c chunks ih =>
    obtain ⟨hpos, hle⟩ := h.piece c List.mem_cons_self
    cases sent with
    | nil =>
      rw [(List.append_eq_nil_iff.mp h.stream).1] at hpos
      exact absurd hpos (Nat.lt_irrefl 0)
    | cons p sent =>
      rcases Nat.eq_or_lt_of_le hle with hc | hc
      · obtain ⟨rfl, htail⟩ := h.tail hc
        rw [wholeThenBlanks_cons hc, ← ih htail, assembled, List.cons_prefix_cons,
          overwrite_of_length (by simpa using hc), and_iff_right rfl]
      · rw [wholeThenBlanks_cons_short (Nat.ne_of_lt hc), prefix_assembled_short hk h hc]

/-- The first piece lands on a buffer that may hold anything. -/
theorem whole_of_first [Nontrivial β] {ends : List (List β) → Bool} (hne : sent ≠ [])
    (hread : ∀ buf : List β, buf.length = k →
      receive (List.replicate k z) ends [] buf (c :: chunks) = sent) (hle : c.length ≤ k) :
    c.length = k := by
  obtain ⟨v, hv⟩ := exists_ne z
  obtain ⟨p, sent, rfl⟩ := List.exists_cons_of_ne_nil hne
  -- what the piece leaves of a buffer full of `y` must be in the block, for every `y`
  have hfst (y : β) : p = c ++ List.replicate (k - c.length) y := by
    obtain ⟨hfront, -⟩ := receive_eq_iff.mp (hread _ (List.length_replicate (a := y)))
    rw [← overwrite_blank]
    exact (List.cons_prefix_cons.mp hfront).1
  by_contra hc
  have hsame := List.append_cancel_left ((hfst v).symm.trans (hfst z))
  have hpos : 0 < k - c.length := by omega
  exact hv (List.replicate_right_injective (Nat.ne_of_gt hpos) hsame)

/-- **When the loop reads the blocks that were sent**, whatever the buffer held at
first: it does not end before the last of them, and either every piece is a
block, or the last block ends the loop and there is nothing but blanks behind the
first piece that is cut short, which is not the first of all. -/
theorem receive_eq_sent_iff [Nontrivial β] {ends : List (List β) → Bool} (hk : 0 < k)
    (h : Arrives k sent chunks) :
    (∀ buf : List β, buf.length = k →
      receive (List.replicate k z) ends [] buf chunks = sent) ↔
    Unended ends sent ∧
      ((∀ c ∈ chunks, c.length = k) ∨ ends sent = true ∧ CutBeforeBlanks k z chunks) := by
  have hpiece := fun c hc => (h.piece c hc).2
  constructor
  · intro hread
    have hblank := hread (List.replicate k z) List.length_replicate
    obtain ⟨hfront, hun, hlast⟩ := receive_eq_iff.mp hblank
    refine ⟨hun, ?_⟩
    rcases hlast with hall | ⟨hne, hend⟩
    · -- as many pieces as blocks: none of them is cut short
      refine .inl (whole_of_length hpiece ?_)
      have hcount := congrArg List.length hall
      rw [length_assembled] at hcount
      rw [h.stream, length_flatten_uniform h.block, hcount]
    · by_cases hnil : chunks = []
      · exact .inl (by simp [hnil])
      obtain ⟨c, chunks, rfl⟩ := List.exists_cons_of_ne_nil hnil
      have hc := whole_of_first hne hread (hpiece c List.mem_cons_self)
      have hrest := (prefix_assembled_iff hk h).mp hfront
      obtain ⟨pre, rest, rfl, hpre, hrest⟩ := (wholeThenBlanks_cons hc).mp hrest
      refine .inr ⟨hend, c :: pre, rest, rfl, List.cons_ne_nil _ _, fun d hd => ?_, hrest⟩
      rcases List.mem_cons.mp hd with rfl | hd
      · exact hc
      · exact hpre d hd
  · rintro ⟨hun, hwhole | ⟨hend, pre, rest, rfl, hne, hpre, hblank⟩⟩ buf hbuf
    · obtain rfl : chunks = sent := eq_of_flatten_eq hk hwhole h.block h.stream
      have hall : assembled (List.replicate k z) buf chunks = chunks :=
        assembled_whole hbuf hwhole
      refine receive_eq_iff.mpr ⟨?_, hun, .inl hall.symm⟩
      exact hall.symm ▸ List.prefix_refl chunks
    · cases pre with
      | nil => exact absurd rfl hne
      | cons c pre =>
        have hc := hpre c List.mem_cons_self
        have hread := (prefix_assembled_iff hk h).mpr
          ⟨c :: pre, rest, rfl, hpre, hblank⟩
        rw [List.cons_append, assembled, overwrite_of_length (by simpa using hc)] at hread
        refine receive_eq_iff.mpr ⟨?_, hun, .inr ⟨?_, hend⟩⟩
        · rwa [List.cons_append, assembled, overwrite_of_length (hc.trans hbuf.symm)]
        · rintro rfl
          rw [(List.append_eq_nil_iff.mp h.stream).1] at hc
          exact absurd hc (Nat.ne_of_lt hk)

end Pieces
end TBDChat.BlockStream
