import TBDChat.RoomReplies
import TBDChat.UserListings
import TBDChat.ComposedTexts

/-!
# Title bars

`wprintSeperatorTitle` of `visual.c` draws a line in front of a title and another behind it,
together with the title about two thirds of the window.  How long they are is computed as a
`size_t`, so for a title of more than two thirds it is a number near 2^64.  Titles are what
the server sends, but only the headings of its listings become titles, and those are short.
-/

namespace TBDChat
open Atomic

set_option maxRecDepth 8000

/-- `(width / 3) - ((strlen(title) + 2) / 2)`, of which the left is turned into a `size_t`
because the right is one. -/
def hlineBound (width : Int) (title : Str) : UInt64 :=
  UInt64.ofInt (width.tdiv 3) - (UInt64.ofNat title.length + 2) / 2

/-- The loop over `waddch(win, ACS_HLINE)` from `i` on, in so many rounds at most: the `i` it
ends with. -/
def hlines (bound : UInt64) : Nat → Nat → Option Nat
  | 0, _ => none
  | rounds + 1, i => if UInt64.ofNat i < bound then hlines bound rounds (i + 1) else some i

/-- What is drawn: a line, the title and a line.  Each loop has so many rounds at most. -/
def wprintSeperatorTitle (rounds : Nat) (width : Int) (title : Str) : Option (Nat × Str × Nat) := do
  let left ← hlines (hlineBound width title) rounds 0
  let right ← hlines (hlineBound width title) rounds 0
  pure (left, title, right)

/-- The title that `serverResponse` comes to draw for a packet of a listing. -/
def Packet.title? (rx_pkt : Packet) : Option Str :=
  if rx_pkt.options = GETUSERS ∨ rx_pkt.options = GETALLUSERS ∨ rx_pkt.options = GETUSER then
    match whoResponse rx_pkt.buf with
    | .title text => some text
    | .user _ _ => none
  else if rx_pkt.options = GETROOMS then
    match roomListResponse rx_pkt.buf with
    | .title text => some text
    | .room _ => none
  else none

/-! ## The loops -/

section Loops
variable {width : Int} {title : Str} {bound : UInt64} {rounds i : Nat}

/-- There are as many rounds as the bound says. -/
theorem hlines_eq (hi : i ≤ bound.toNat) (hrounds : bound.toNat < i + rounds) :
    hlines bound rounds i = some bound.toNat := by
  induction rounds generalizing i with
  | zero => omega
  | succ rounds ih =>
    have hlt := bound.toNat_lt
    have hval : (UInt64.ofNat i).toNat = i := UInt64.toNat_ofNat_of_lt' (by
      rw [UInt64.size]
      omega)
    have hmore : UInt64.ofNat i < bound ↔ i < bound.toNat := by
      rw [UInt64.lt_iff_toNat_lt, hval]
    rw [hlines]
    split
    · rename_i hless
      have hless := hmore.mp hless
      exact ih (by omega) (by omega)
    · rename_i hdone
      rw [hmore] at hdone
      rw [Nat.le_antisymm hi (by omega)]

/-- Where the title fits, the bound is the difference. -/
theorem toNat_hlineBound (h0 : 0 ≤ width) (h31 : width < 2 ^ 31)
    (htitle : (title.length + 2) / 2 ≤ width.toNat / 3) :
    (hlineBound width title).toNat = width.toNat / 3 - (title.length + 2) / 2 := by
  obtain ⟨n, rfl⟩ := Int.eq_ofNat_of_zero_le h0
  have hn : n < 2 ^ 31 := by omega
  rw [Int.toNat_natCast] at htitle ⊢
  have hthird : (UInt64.ofInt ((n : Int).tdiv 3)).toNat = n / 3 := by
    have hdiv : (n : Int).tdiv 3 = ((n / 3 : Nat) : Int) := by
      rw [Int.tdiv_eq_ediv_of_nonneg h0]
      rfl
    rw [hdiv, UInt64.ofInt]
    have hmod : (((n / 3 : Nat) : Int) % 2 ^ 64).toNat = n / 3 := by omega
    rw [hmod]
    exact UInt64.toNat_ofNat_of_lt' (by rw [UInt64.size]; omega)
  have hhalf : ((UInt64.ofNat title.length + 2) / 2).toNat = (title.length + 2) / 2 := by
    have hlen : (UInt64.ofNat title.length).toNat = title.length :=
      UInt64.toNat_ofNat_of_lt' (by rw [UInt64.size]; omega)
    have htwo : (2 : UInt64).toNat = 2 := rfl
    rw [UInt64.toNat_div, UInt64.toNat_add, hlen, htwo]
    omega
  rw [hlineBound, UInt64.toNat_sub_of_le, hthird, hhalf]
  rw [UInt64.le_iff_toNat_le, hthird, hhalf]
  exact htitle

/-- Both lines end. -/
theorem wprintSeperatorTitle_eq
    (hrounds : (hlineBound width title).toNat < rounds) : wprintSeperatorTitle rounds width title =
      some ((hlineBound width title).toNat, title, (hlineBound width title).toNat) := by
  have hline := @hlines_eq (hlineBound width title) rounds 0 (Nat.zero_le _) (by omega)
  rw [wprintSeperatorTitle, hline]
  rfl

end Loops

/-! ## The titles -/

/-- A title is a text with no separator of names in it. -/
theorem whoResponse_title {s title : Str} (h : whoResponse s = .title title) :
    45 ∉ s ∧ title = s := by
  by_cases hs : 45 ∈ s
  · obtain ⟨w, rest, hw, -, hmore⟩ := fields_cons s
    rw [whoResponse_eq, hw] at h
    cases rest with
    | nil => exact absurd rfl (hmore hs)
    | cons v rest => cases h
  · rw [whoResponse_plain hs] at h
    exact ⟨hs, (Shown.title.inj h).symm⟩

section Titles
variable {sha256 : Str → Digest} {env : Env} {p q : Packet} {fd d : Int} {s s' : Server} {w : World}
  {es : List Effect} {title : Str}

/-- The title of a packet is its text. -/
theorem title_eq (h : q.title? = some title) : title = q.buf ∧
    (q.options ≠ GETROOMS → 45 ∉ q.buf) ∧ (q.options = GETROOMS → ∃ c ∈ q.buf, c ∈ delim) := by
  unfold Packet.title? at h
  split at h
  · rename_i hopt
    split at h
    · rename_i hwho
      obtain rfl := Option.some.inj h
      obtain ⟨hdash, rfl⟩ := whoResponse_title hwho
      refine ⟨rfl, fun _ => hdash, fun hrooms => ?_⟩
      rw [hrooms] at hopt
      exact absurd hopt (by decide)
    · cases h
  split at h
  · rename_i hrooms
    split at h
    · rename_i text hlist
      have htext : q.buf = text := by
        rw [roomListResponse_eq] at hlist
        split at hlist
        · exact RoomLine.title.inj hlist
        · cases hlist
      refine ⟨(Option.some.inj h).symm.trans htext.symm, fun hne => absurd hrooms hne, fun _ => ?_⟩
      by_contra hfree
      rw [roomListResponse_name fun c hc hdelim => hfree ⟨c, hc, hdelim⟩] at hlist
      cases hlist
    · cases h
  · cases h

/-- The four handlers whose replies have headings. -/
inductive Listing where
  | get_active_users
  | get_room_users
  | user_lookup
  | get_room_list

def Listing.handler (env : Env) (p : Packet) (fd : Int) : Listing → Handler Unit
  | .get_active_users => TBDChat.get_active_users env fd
  | .get_room_users => TBDChat.get_room_users env p fd
  | .user_lookup => TBDChat.user_lookup env p fd
  | .get_room_list => TBDChat.get_room_list env fd

/-- What can be a title among the texts that are sent. -/
def Heading (s : Server) (text : Str) : Prop :=
  text = dec s.active_users_list.length ++ str " users online" ∨
  (∃ r < s.room_list.length,
    text = dec (s.members r).length ++ str " users in " ++ (s.room r).name) ∨
  text = str "User Lookup" ∨ text = dec s.room_list.length ++ str " Rooms Found"

/-- A line with the names of a user is no title. -/
theorem not_title_userLines {options : Int} {l : List Addr}
    (hopt : options ≠ GETROOMS) (hq : .send d q ∈ userLines env s options fd l) :
    q.title? = none := by
  obtain ⟨a, -, he⟩ := List.mem_map.mp hq
  cases he
  by_contra hsome
  obtain ⟨title, ht⟩ := Option.ne_none_iff_exists'.mp hsome
  exact (title_eq ht).2.1 hopt (by simp [serverPacket, str])

/-- **Only headings become titles.** -/
theorem heading_of_title (hnames : ∀ name ∈ s.names, ∀ c ∈ name, c ∉ delim) {l : Listing}
    (hrun : ops.run (l.handler env p fd) s = .ok ((), s', es)) (hq : .send d q ∈ es)
    (ht : q.title? = some title) : Heading s title := by
  obtain ⟨rfl, -, hblank⟩ := title_eq ht
  have hno {options : Int} {l : List Addr} (hopt : options ≠ GETROOMS)
      (hq : .send d q ∈ userLines env s options fd l) : False := by
    rw [not_title_userLines hopt hq] at ht
    cases ht
  cases l with
  | get_active_users =>
    rw [Listing.handler, run_get_active_users] at hrun
    cases hrun
    rcases List.mem_cons.mp hq with hq | hq
    · cases hq
      exact .inl rfl
    · exact (hno (by decide) hq).elim
  | get_room_users =>
    rw [Listing.handler, run_get_room_users] at hrun
    split at hrun
    · cases hrun
      cases hq
    split at hrun
    · cases hrun
      cases hq
    rename_i r hr
    cases hrun
    rcases List.mem_cons.mp hq with hq | hq
    · cases hq
      exact .inr (.inl ⟨r, Rget_roomFID_lt hr, rfl⟩)
    · exact (hno (by decide) hq).elim
  | user_lookup =>
    rw [Listing.handler, run_user_lookup] at hrun
    split at hrun
    · cases hrun
    split at hrun
    · cases hrun
      cases hq
    cases hrun
    dsimp only at hq
    split at hq
    · cases List.mem_singleton.mp hq
      cases ht
    · rcases List.mem_pair.mp hq with hq | hq
      · cases hq
        exact .inr (.inr (.inl rfl))
      · cases hq
        exact absurd (title_eq ht).2.1 (by simp [serverPacket, str, GETUSER, GETROOMS])
  | get_room_list =>
    rw [Listing.handler, run_get_room_list] at hrun
    cases hrun
    rcases List.mem_cons.mp hq with hq | hq
    · cases hq
      exact .inr (.inr (.inr rfl))
    · obtain ⟨room, hroom, he⟩ := List.mem_map.mp hq
      cases he
      obtain ⟨c, hc, hdelim⟩ := hblank rfl
      exact absurd hdelim (hnames room.name (List.mem_map_of_mem hroom) c hc)

/-- Room names fill their array at most. -/
theorem Reachable.names_short (hw : Reachable sha256 w) :
    ∀ name ∈ w.server.names, name.length ≤ ROOMNAME_LENGTH :=
  hw.names_all (by decide) fun _ hj => (acceptsName_iff.mp hj.name).2.2

/-- A heading is no longer than 37 characters. -/
theorem length_heading (hint : s.Ints) (hnames : ∀ name ∈ s.names, name.length ≤ ROOMNAME_LENGTH)
    (h : Heading s title) : title.length ≤ 37 := by
  have hdec {n : Nat} (hn : n < 2 ^ 31) : (dec n).length ≤ 11 := by
    rw [← decInt_eq (Int.natCast_nonneg n) (by omega)]
    exact length_decInt n
  rcases h with rfl | ⟨r, hr, rfl⟩ | rfl | rfl
  · have hphrase : (str " users online").length = 13 := by decide
    have hnum := hdec hint.active
    rw [List.length_append, hphrase]
    omega
  · have hphrase : (str " users in ").length = 10 := by decide
    have hnum := hdec (hint.members r)
    have hroom : (s.room r).name.length ≤ 16 := by
      rw [Server.room_eq hr]
      exact hnames _ (List.mem_map_of_mem (List.getElem_mem hr))
    rw [List.length_append, List.length_append, hphrase]
    omega
  · decide
  · have hphrase : (str " Rooms Found").length = 12 := by decide
    have hnum := hdec hint.rooms
    rw [List.length_append, hphrase]
    omega

/-- **Title bars end.**  In a window as wide as the client needs, what is subtracted for a
title of the server's is no more than a third of the width, and both loops end before they
have come to that. -/
theorem title_bars_end (hw : Reachable sha256 w) (hint : w.server.Ints) (l : Listing)
    (hrun : ops.run (l.handler env p fd) w.server = .ok ((), s', es)) (hq : .send d q ∈ es)
    (ht : q.title? = some title) {width : Int} (h74 : 74 ≤ width) (h31 : width < 2 ^ 31) :
    (title.length + 2) / 2 ≤ width.toNat / 3 ∧ ∃ n ≤ width.toNat / 3,
      ∀ rounds, n < rounds → wprintSeperatorTitle rounds width title = some (n, title, n) := by
  have hlen := length_heading hint hw.names_short (heading_of_title hw.names_unspaced hrun hq ht)
  have hfits : (title.length + 2) / 2 ≤ width.toNat / 3 := by omega
  refine ⟨hfits, (hlineBound width title).toNat, ?_, fun rounds => wprintSeperatorTitle_eq⟩
  rw [toNat_hlineBound (by omega) h31 hfits]
  exact Nat.sub_le _ _

end Titles

/-- The list of rooms after Alice has made one, in a window of 74 columns. -/
theorem title_bars_end_den : ∃ n ≤ 24, ∀ rounds, n < rounds →
    wprintSeperatorTitle rounds 74 (str "2 Rooms Found") = some (n, str "2 Rooms Found", n) := by
  have hreach : Reachable Sample.sha256 (Sample.alone.state 3) :=
    Sample.alone.reachable (by decide)
  have hint : (Sample.alone.state 3).server.Ints := by
    have hrooms : ∀ r < 2, ((Sample.alone.state 3).server.members r).length < 2 ^ 31 := by decide
    have hlen : (Sample.alone.state 3).server.room_list.length = 2 := by decide
    refine ⟨by decide, by decide, fun r => ?_, by decide⟩
    by_cases hr : r < 2
    · exact hrooms r hr
    · rw [Server.members_of_ge (hlen.trans_le (Nat.le_of_not_lt hr))]
      decide
  have hrun := @run_get_room_list Sample.env 4 (Sample.alone.state 3).server
  have htitle : (serverPacket Sample.env GETROOMS
      (dec (Sample.alone.state 3).server.room_list.length ++ str " Rooms Found")).title? =
        some (str "2 Rooms Found") := by decide
  exact (title_bars_end (p := Sample.request) hreach hint .get_room_list hrun List.mem_cons_self
    htitle (Int.le_refl 74) (by decide)).2

end TBDChat
