import TBDChat.CommandArgs
import TBDChat.RoomHandlers

/-!
# What the client shows of a listing

`whoResponse` of `chat_client.c` gets the lines of the three user listings and splits
them at `'-'`, which the server puts between a username and a real name.  A line with no
second part is a title.  `'-'` may also be part of a name, and the array for the parts has
two elements.
-/

namespace TBDChat

set_option maxRecDepth 8000

/-- The separator of `whoResponse`, `"-"`. -/
def dash : Str := [45]

/-- A line that the server sends for a listing. -/
inductive ListLine where
  | user (username realname : Str)
  | online (n : Nat)
  | inRoom (n : Nat) (room : Str)
  | lookup

/-- What a line is shown as. -/
inductive Shown where
  /-- By `wprintSeperatorTitle`. -/
  | title (text : Str)
  /-- By `wprintWhoseLineIsItAnyways`. -/
  | user (username realname : Str)
  deriving DecidableEq

namespace ListLine

/-- The text of the line, as the server composes it. -/
def text : ListLine → Str
  | .user username realname => username ++ str "-" ++ realname
  | .online n => dec n ++ str " users online"
  | .inRoom n room => dec n ++ str " users in " ++ room
  | .lookup => str "User Lookup"

/-- What it should be shown as. -/
def shown : ListLine → Shown
  | .user username realname => .user username realname
  | l => .title l.text

end ListLine

/-- `args[1]` is tested for NULL. -/
def whoResponse (buf : Str) : Shown :=
  let args := fillArgs dash 2 buf
  match (argAt args 1).join with
  | none => .title ((argAt args 0).join.getD [])
  | some realname => .user ((argAt args 0).join.getD []) realname

/-! ## The lines of the listings -/

section Lines
variable (env : Env) (pkt : Packet) (fd : Int) (s : Server)

/-- The lines for the users of a list. -/
def ListLine.users (l : List Addr) : List ListLine :=
  l.map fun a => .user (s.heap a).username (s.heap a).real_name

theorem get_active_users_lines : ops.run (get_active_users env fd) s = .ok ((), s,
    (.online s.active_users_list.length :: ListLine.users s s.active_users_list).map fun l =>
      .send fd (serverPacket env GETALLUSERS l.text)) := by
  rw [run_get_active_users, userLines, ListLine.users, List.map_cons, List.map_map]
  rfl

theorem get_room_users_lines {a : Addr} {r : RoomRef}
    (ha : LinkedList.get_user s.heap s.active_users_list pkt.username = some a)
    (hr : LinkedList.Rget_roomFID s.room_list (s.heap a).roomID = some r) :
    ops.run (get_room_users env pkt fd) s = .ok ((), s,
      (.inRoom (s.members r).length (s.room r).name :: ListLine.users s (s.members r)).map fun l =>
        .send fd (serverPacket env GETUSERS l.text)) := by
  rw [run_get_room_users, ha]
  simp only [hr]
  rw [userLines, ListLine.users, List.map_cons, List.map_map]
  rfl

theorem user_lookup_lines (hw : 1 < (words pkt.buf).length) (hw' : (words pkt.buf).length ≤ 15)
    (hname : LinkedList.get_real_name s.heap s.active_users_list (arg (words pkt.buf) 1) ≠ ERROR) :
    ops.run (user_lookup env pkt fd) s = .ok ((), s,
      [ListLine.lookup, .user (arg (words pkt.buf) 1)
        (LinkedList.get_real_name s.heap s.active_users_list (arg (words pkt.buf) 1))].map fun l =>
          .send fd (serverPacket env GETUSER l.text)) := by
  rw [run_user_lookup, if_neg (by omega), if_neg (by omega)]
  simp only [hname, if_false]
  rfl

end Lines

/-! ## What becomes of a line -/

section Decoding
variable {s u r : Str}

theorem contains_dash {c : UInt8} : dash.contains c = true ↔ c = 45 := by
  simp [dash, eq_comm]

/-- A text without a separator is one field. -/
theorem fields_plain (h : 45 ∉ s) : fields dash s = [s] := by
  refine List.splitOnP_eq_singleton fun c hc => ?_
  rw [Bool.eq_false_iff, ne_eq, contains_dash]
  rintro rfl
  exact h hc

/-- The first separator ends the first field. -/
theorem fields_dash (h : 45 ∉ u) : fields dash (u ++ 45 :: r) = u :: fields dash r := by
  refine List.splitOnP_append_cons_of_forall_mem (fun c hc => ?_) 45 (by decide) r
  rw [Bool.eq_false_iff, ne_eq, contains_dash]
  rintro rfl
  exact h hc

/-- No field holds a separator, and there is one. -/
theorem fields_cons (s : Str) : ∃ w rest, fields dash s = w :: rest ∧ 45 ∉ w ∧
    (45 ∈ s → rest ≠ []) := by
  by_cases h : 45 ∈ s
  · obtain ⟨u, r, rfl, hu⟩ := List.eq_append_cons_of_mem h
    obtain ⟨w, rest, hr, -⟩ := strsep_fields dash r
    refine ⟨u, fields dash r, fields_dash hu, hu, fun _ hnil => ?_⟩
    rw [hr] at hnil
    cases hnil
  · exact ⟨s, [], fields_plain h, h, fun hs => absurd hs h⟩

theorem inside_dash (s : Str) : (∀ st ∈ fillArgs dash 2 s, st.2 < 2) ↔ 45 ∉ s := by
  rw [inside_iff (by decide)]
  constructor
  · intro hlen hs
    obtain ⟨u, r, rfl, hu⟩ := List.eq_append_cons_of_mem hs
    obtain ⟨w, rest, hr, -⟩ := strsep_fields dash r
    rw [fields_dash hu, hr, List.length_cons, List.length_cons] at hlen
    omega
  · intro hs
    rw [fields_plain hs]
    exact Nat.one_lt_two

/-- What is shown goes by the first two fields. -/
theorem whoResponse_eq (s : Str) : whoResponse s =
    match fields dash s with
    | w :: v :: _ => .user w v
    | w :: [] => .title w
    | [] => .title [] := by
  rw [whoResponse, fillArgs_eq (by decide)]
  simp only [argAt_zipIdx]
  cases fields dash s with
  | nil => rfl
  | cons w rest =>
    cases rest with
    | nil => rfl
    | cons v rest => rfl

theorem whoResponse_plain (h : 45 ∉ s) : whoResponse s = .title s := by
  rw [whoResponse_eq, fields_plain h]

/-- The names come through whole if neither has the separator in it. -/
theorem whoResponse_user_iff :
    whoResponse (ListLine.user u r).text = .user u r ↔ 45 ∉ u ∧ 45 ∉ r := by
  have htext : (ListLine.user u r).text = u ++ 45 :: r := by
    rw [ListLine.text, List.append_assoc]
    rfl
  rw [htext, whoResponse_eq]
  constructor
  · intro hshown
    have hu : 45 ∉ u := by
      obtain ⟨w, rest, hw, hfree, hmore⟩ := fields_cons (u ++ 45 :: r)
      rw [hw] at hshown
      cases rest with
      | nil => cases hshown
      | cons v rest =>
        obtain ⟨rfl, -⟩ := Shown.user.inj hshown
        exact hfree
    obtain ⟨w, rest, hw, hfree, -⟩ := fields_cons r
    rw [fields_dash hu, hw] at hshown
    obtain ⟨-, rfl⟩ := Shown.user.inj hshown
    exact ⟨hu, hfree⟩
  · rintro ⟨hu, hr⟩
    rw [fields_dash hu, fields_plain hr]

theorem dash_not_mem_dec (n : Nat) : 45 ∉ dec n := by
  intro h
  rw [dec_of_nonneg (Int.natCast_nonneg n)] at h
  exact absurd (mem_digits h).1 (by decide)

end Decoding

/-- The line keeps to the two elements of the array and is shown as it should be. -/
structure Decodes (l : ListLine) : Prop where
  inside : ∀ st ∈ fillArgs dash 2 l.text, st.2 < 2
  shown : whoResponse l.text = l.shown

/-- The line is a title with no separator in it. -/
def ListLine.Plain : ListLine → Prop
  | .user _ _ => False
  | .inRoom _ room => 45 ∉ room
  | .online _ | .lookup => True

theorem decodes_iff_plain (l : ListLine) : Decodes l ↔ l.Plain := by
  have htitle (hs : l.shown = .title l.text) : Decodes l ↔ 45 ∉ l.text := by
    refine ⟨fun h => (inside_dash l.text).mp h.inside, fun h => ?_⟩
    exact ⟨(inside_dash l.text).mpr h, by rw [hs, whoResponse_plain h]⟩
  cases l with
  | user u r =>
    -- the separator that the server puts there makes a third store
    refine iff_of_false (fun h => (inside_dash _).mp h.inside ?_) id
    simp [ListLine.text, str]
  | online n =>
    rw [htitle rfl, ListLine.text, List.mem_append, not_or]
    exact iff_of_true ⟨dash_not_mem_dec n, by decide⟩ trivial
  | inRoom n room =>
    rw [htitle rfl, ListLine.text, List.mem_append, List.mem_append, not_or, not_or]
    refine ⟨fun h => h.2, fun h => ⟨⟨dash_not_mem_dec n, by decide⟩, h⟩⟩
  | lookup => exact iff_of_true ((htitle rfl).mpr (by decide)) trivial

/-- The names in the line are such as the server's validators accept. -/
def ListLine.Accepted : ListLine → Prop
  | .user username realname =>
    acceptsName USERNAME_LENGTH username = true ∧ acceptsName REALNAME_LENGTH realname = true
  | .inRoom _ room => acceptsName ROOMNAME_LENGTH room = true
  | .online _ | .lookup => True

/-- **Which lines are decoded**: only titles are, those with no `'-'` in a room's name.  A
line for a user always has `args[2]` written, and shows the two names if there is no `'-'`
in them. -/
theorem listing_decodes_iff (l : ListLine) : (Decodes l ↔ l.Plain) ∧
    ∀ u r, l = .user u r → (whoResponse l.text = l.shown ↔ 45 ∉ u ∧ 45 ∉ r) := by
  refine ⟨decodes_iff_plain l, ?_⟩
  rintro u r rfl
  exact whoResponse_user_iff

/-- The line of a user alice whose real name is not set yet has `args[2]` set to NULL. -/
theorem listing_overflows : ¬ ∀ l : ListLine, l.Accepted → Decodes l := by
  intro h
  let alice : Str := str "alice"
  have hstore : (none, 2) ∈ fillArgs dash 2 (ListLine.user alice alice).text := by decide
  have haccepted : (ListLine.user alice alice).Accepted := ⟨by decide, by decide⟩
  exact absurd ((h _ haccepted).inside _ hstore) (by decide)

end TBDChat
