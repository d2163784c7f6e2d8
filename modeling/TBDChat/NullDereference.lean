import TBDChat.Membership

/-!
# Where a handler dereferences NULL

Most lookups that can fail are tested, or cannot fail: the Lobby is always there,
and an active user's `roomID` is always the number of a room.  Three are neither.
`send_message` dereferences the room a chat packet names; `set_name` announces the
new name in the room of the record, which for a user who has not logged in since
the start of the server is -1; `join` removes the sender from the room that the
packet claims.  `NullSafe` says when none of these goes wrong.
-/

namespace TBDChat
open Atomic

set_option maxRecDepth 8000

/-- The packets on a logged-in connection that lead to no NULL dereference. -/
structure NullSafe (env : Env) (s : Server) (p : Packet) : Prop where
  /-- A chat packet names a room that there is. -/
  chat : 1000 ≤ p.options → ∃ room ∈ s.room_list, room.ID = p.options
  /-- The account to be renamed has been in a room. -/
  rename : p.options = SETNAME → acceptsName REALNAME_LENGTH (localName env p.buf) = true →
    ∀ a, LinkedList.get_user s.heap s.registered_users_list p.username = some a →
      ∃ room ∈ s.room_list, room.ID = (s.heap a).roomID
  /-- The claimed room, if it exists, holds the claimed user; and it is not the
  room that the packet creates. -/
  join : p.options = JOIN → 1 < (words p.buf).length →
    acceptsName ROOMNAME_LENGTH (arg (words p.buf) 0) = true →
    (∀ room ∈ s.room_list, room.ID = atoi (arg (words p.buf) 1) →
      ∃ a ∈ room.user_list, (s.heap a).username = p.username) ∧
    ((∀ room ∈ s.room_list, room.name ≠ arg (words p.buf) 0) →
      atoi (arg (words p.buf) 1) ≠ s.numRooms)

variable {sha256 : Str → Digest} {env : Env} {p : Packet} {fd : Int} {s : Server}

/-! ## The lookups -/

theorem Rget_roomFID_isNone {rooms : List Room} {ID : Int} :
    LinkedList.Rget_roomFID rooms ID = none ↔ ¬ ∃ room ∈ rooms, room.ID = ID := by
  rw [LinkedList.Rget_roomFID_none]
  simp

/-- A room in the table is found by its number. -/
theorem Rget_roomFID_room {r : RoomRef} (hr : r < s.room_list.length) :
    ∃ k, LinkedList.Rget_roomFID s.room_list (s.room r).ID = some k := by
  refine Option.ne_none_iff_exists'.mp fun h => ?_
  refine Rget_roomFID_isNone.mp h ⟨s.room_list[r], List.getElem_mem hr, ?_⟩
  rw [Server.room_eq hr]

/-! ## The handlers -/

theorem set_name_null : (ops.run (set_name env p fd) s).fault? = some .null ↔
    acceptsName REALNAME_LENGTH (localName env p.buf) = true ∧
    ∃ a, LinkedList.get_user s.heap s.registered_users_list p.username = some a ∧
      LinkedList.Rget_roomFID s.room_list (s.heap a).roomID = none := by
  rw [run_set_name]
  cases acceptsName REALNAME_LENGTH (localName env p.buf) with
  | false => simp
  | true =>
    cases LinkedList.get_user s.heap s.registered_users_list p.username with
    | none => simp
    | some a =>
      have hrooms : (s.rename a (localName env p.buf)).room_list = s.room_list := rfl
      cases hr : LinkedList.Rget_roomFID s.room_list (s.heap a).roomID with
      | none => simp [announce, rename_roomID, hrooms, hr]
      | some r => simp [announce, rename_roomID, hrooms, hr]

theorem join_null (ht : s.Table) (hw : (words p.buf).length ≤ 15) :
    (ops.run (join env p fd) s).fault? = some .null ↔
    1 < (words p.buf).length ∧ acceptsName ROOMNAME_LENGTH (arg (words p.buf) 0) = true ∧
    ∃ r, LinkedList.Rget_roomFID (s.openRoom env.fd (arg (words p.buf) 0)).room_list
        (atoi (arg (words p.buf) 1)) = some r ∧
      LinkedList.get_user s.heap ((s.openRoom env.fd (arg (words p.buf) 0)).members r)
        p.username = none := by
  rw [run_join, if_neg (Nat.not_lt_of_le hw)]
  by_cases h1 : (words p.buf).length ≤ 1
  · simp [h1, Nat.not_lt_of_le h1]
  rw [if_neg h1]
  cases hname : acceptsName ROOMNAME_LENGTH (arg (words p.buf) 0) with
  | false => simp
  | true =>
    have hlen := (acceptsName_iff.mp hname).2.2
    obtain ⟨r', hr'⟩ := Server.Rget_roomFNAME_openRoom env.fd ht hlen
    have hheap := s.openRoom_heap env.fd (arg (words p.buf) 0)
    -- from here on only that the new room is there matters
    generalize s.openRoom env.fd (arg (words p.buf) 0) = s₁ at hr' hheap ⊢
    simp only [Bool.true_eq_false, if_false, Outcome.fault?_prepend, run_changeRoom, hr', hheap,
      true_and, Nat.lt_of_not_le h1]
    cases hr : LinkedList.Rget_roomFID s₁.room_list (atoi (arg (words p.buf) 1)) with
    | none => simp
    | some r =>
      cases ha : LinkedList.get_user s.heap (s₁.members r) p.username with
      | none => simp [ha]
      | some a =>
        obtain ⟨room, hroom, -⟩ := LinkedList.Rget_roomFNAME_some hr'
        obtain ⟨r'', hr''⟩ := Rget_roomFID_room (List.getElem?_eq_some_iff.mp hroom).1
        simp [ha, announce, hr, hr'']

/-- LEAVE touches no NULL: the Lobby is there, and the other lookups are tested. -/
theorem leave_null (ht : s.Table) : (ops.run (leave env p fd) s).fault? ≠ some .null := by
  rw [run_leave]
  split
  · simp
  split
  · simp
  split
  · simp
  rename_i r hr
  split
  · simp
  rename_i a ha
  simp only [ht.Rget_lobby]
  have hlobby : (s.room 0).ID = DEFAULT_ROOM := Server.room_of_Rget_roomFID ht.Rget_lobby
  have hID := (SameRooms.move s a r 0 1000).ID 0
  simp [announce, hr, hID, hlobby, ht.Rget_lobby]

/-- Nor does the end of a session: an active user's room is there. -/
theorem exit_client_null (hi : s.Housed) :
    (ops.run (exit_client env p fd) s).fault? ≠ some .null := by
  rw [run_exit_client]
  split
  · simp
  rename_i a ha
  obtain ⟨k, hk, hID⟩ := hi.room a (LinkedList.get_user_some ha).1
  obtain ⟨r, hr⟩ := Rget_roomFID_room hk
  rw [hID] at hr
  simp [hr]

/-- Requests that only look and answer. -/
theorem query_null :
    (ops.run (get_active_users env fd) s).fault? = none ∧
    (ops.run (get_room_users env p fd) s).fault? = none ∧
    (ops.run (get_room_list env fd) s).fault? = none ∧
    (ops.run (sendMOTD env fd) s).fault? = none ∧
    (ops.run (user_lookup env p fd) s).fault? ≠ some .null ∧
    (ops.run (invite env p fd) s).fault? ≠ some .null := by
  refine ⟨?_, ?_, ?_, ?_, ?_, ?_⟩
  · rw [run_get_active_users, Outcome.fault?_ok]
  · rw [run_get_room_users]
    split
    · rfl
    · split <;> rfl
  · rw [run_get_room_list, Outcome.fault?_ok]
  · rw [run_sendMOTD, Outcome.fault?_ok]
  · rw [run_user_lookup]
    split
    · simp
    · split <;> simp
  · rw [run_invite]
    split <;> simp

/-- A change of password tests what it looks up. -/
theorem set_pass_null : (ops.run (set_pass sha256 env p fd) s).fault? ≠ some .null := by
  rw [run_set_pass]
  split
  · simp
  split
  · simp
  split
  · simp
  split
  · simp
  split
  · simp
  · simp

/-! ## The whole of `client_receive` -/

theorem request_null (ht : s.Table) :
    (ops.run (receiveRequest sha256 env p fd) s).fault? = some .null ↔
    (p.options = SETNAME ∧ (ops.run (set_name env p fd) s).fault? = some .null) ∨
    (p.options = JOIN ∧ (ops.run (join env p fd) s).fault? = some .null) := by
  obtain ⟨hall, hroom, hrooms, hmotd, huser, hinvite⟩ :=
    @query_null env p fd s
  constructor
  · intro h
    replace h := Outcome.fault?_eq_some.mp h
    -- one option after the other: all but two of the handlers test what they look up
    unfold receiveRequest at h
    rcases ops.run_ite_eq h with ⟨-, h⟩ | ⟨-, h⟩
    · cases h
    rcases ops.run_ite_eq h with ⟨-, h⟩ | ⟨-, h⟩
    · exact absurd (Outcome.fault?_eq_some.mpr h) set_pass_null
    rcases ops.run_ite_eq h with ⟨hopt, h⟩ | ⟨-, h⟩
    · exact .inl ⟨hopt, Outcome.fault?_eq_some.mpr h⟩
    rcases ops.run_ite_eq h with ⟨-, h⟩ | ⟨-, h⟩
    · cases h
    rcases ops.run_ite_eq h with ⟨-, h⟩ | ⟨-, h⟩
    · exact absurd (Outcome.fault?_eq_some.mpr h) hinvite
    rcases ops.run_ite_eq h with ⟨hopt, h⟩ | ⟨-, h⟩
    · exact .inr ⟨hopt, Outcome.fault?_eq_some.mpr h⟩
    rcases ops.run_ite_eq h with ⟨-, h⟩ | ⟨-, h⟩
    · exact absurd (Outcome.fault?_eq_some.mpr h) (leave_null ht)
    rcases ops.run_ite_eq h with ⟨-, h⟩ | ⟨-, h⟩
    · exact absurd (Outcome.fault?_eq_some.mpr h) (by rw [hall]; simp)
    rcases ops.run_ite_eq h with ⟨-, h⟩ | ⟨-, h⟩
    · exact absurd (Outcome.fault?_eq_some.mpr h) (by rw [hroom]; simp)
    rcases ops.run_ite_eq h with ⟨-, h⟩ | ⟨-, h⟩
    · exact absurd (Outcome.fault?_eq_some.mpr h) huser
    rcases ops.run_ite_eq h with ⟨-, h⟩ | ⟨-, h⟩
    · exact absurd (Outcome.fault?_eq_some.mpr h) (by rw [hrooms]; simp)
    rcases ops.run_ite_eq h with ⟨-, h⟩ | ⟨-, h⟩
    · exact absurd (Outcome.fault?_eq_some.mpr h) (by rw [hmotd]; simp)
    · cases h
  · rintro (⟨hopt, h⟩ | ⟨hopt, h⟩)
    · rw [receiveRequest_set_name hopt]
      exact h
    · rw [receiveRequest_join hopt]
      exact h

/-- A packet on a logged-in connection goes wrong in one of three ways. -/
theorem session_null (hi : s.Housed) (name : Str) :
    (ops.run (receiveSession sha256 env name p fd) s).fault? = some .null ↔
    (1000 ≤ p.options ∧ LinkedList.Rget_roomFID s.room_list p.options = none) ∨
    (p.options = SETNAME ∧ (ops.run (set_name env p fd) s).fault? = some .null) ∨
    (p.options = JOIN ∧ (ops.run (join env p fd) s).fault? = some .null) := by
  by_cases hlt : p.options < 1000
  · have hchat : ¬ 1000 ≤ p.options := Int.not_le.mpr hlt
    by_cases hexit : p.options = EXIT ∨ p.options = 0
    · -- the end of a session is neither a change of name nor a JOIN
      have hname : p.options ≠ SETNAME := by rcases hexit with h | h <;> rw [h] <;> decide
      have hjoin : p.options ≠ JOIN := by rcases hexit with h | h <;> rw [h] <;> decide
      rw [receiveSession, if_pos hlt, if_pos hexit, Semantics.fault?_run_bind_pure]
      simp [exit_client_null hi, hchat, hname, hjoin]
    · rw [receiveSession, if_pos hlt, if_neg hexit, Semantics.fault?_run_bind_pure,
        request_null hi.table]
      simp [hchat]
  · have hchat : 1000 ≤ p.options := Int.not_lt.mp hlt
    have hname : p.options ≠ SETNAME := by
      intro h
      rw [h] at hchat
      exact absurd hchat (by decide)
    have hjoin : p.options ≠ JOIN := by
      intro h
      rw [h] at hchat
      exact absurd hchat (by decide)
    rw [receiveSession, if_neg hlt, Semantics.fault?_run_bind_pure, run_send_message]
    simp only [hchat, hname, hjoin, true_and, false_and, or_false]
    cases LinkedList.Rget_roomFID s.room_list p.options with
    | none => simp
    | some r =>
      constructor
      · intro h
        dsimp only at h
        split at h
        · cases h
        · cases h
      · intro h
        cases h

/-- Where room numbers are distinct, looking for a user in the room of a number
fails for want of the user just if the room does not hold them. -/
theorem lookup_member (ht : s.Table) {heap : Addr → User} {ID : Int} {user : Str} :
    (∃ r, LinkedList.Rget_roomFID s.room_list ID = some r ∧
      LinkedList.get_user heap (s.members r) user = none) ↔
    ∃ room ∈ s.room_list, room.ID = ID ∧ ∀ a ∈ room.user_list, (heap a).username ≠ user := by
  have hmembers {r : RoomRef} {room : Room} (h : s.room_list[r]? = some room) :
      s.members r = room.user_list := by
    simp [Server.members, Server.room, h]
  constructor
  · rintro ⟨r, hr, hnone⟩
    obtain ⟨room, hroom, hID⟩ := LinkedList.Rget_roomFID_some hr
    rw [hmembers hroom] at hnone
    exact ⟨room, List.mem_of_getElem? hroom, hID, LinkedList.get_user_none.mp hnone⟩
  · rintro ⟨room, hmem, rfl, hnone⟩
    obtain ⟨r, hroom⟩ := List.mem_iff_getElem?.mp hmem
    refine ⟨r, LinkedList.Rget_roomFID_of_getElem? ht.ids hroom, ?_⟩
    rw [hmembers hroom]
    exact LinkedList.get_user_none.mpr hnone

/-- The same in the table `join` has made sure of: a room made for the packet
holds nobody. -/
theorem lookup_member_openRoom (ht : s.Table) {name : Str} (hname : name.length ≤ ROOMNAME_LENGTH)
    {ID : Int} {user : Str} :
    (∃ r, LinkedList.Rget_roomFID (s.openRoom fd name).room_list ID = some r ∧
      LinkedList.get_user s.heap ((s.openRoom fd name).members r) user = none) ↔
    (∃ room ∈ s.room_list, room.ID = ID ∧ ∀ a ∈ room.user_list, (s.heap a).username ≠ user) ∨
    ((∀ room ∈ s.room_list, room.name ≠ name) ∧ ID = s.numRooms) := by
  rw [lookup_member (Server.openRoom_table fd ht hname)]
  rcases Server.openRoom_cases fd ht hname with ⟨heq, hex⟩ | ⟨hnew, heq⟩
  · rw [heq]
    have hold : ¬ ∀ room ∈ s.room_list, room.name ≠ name := fun h => hex (ht.Rget_ID_eq.mpr h)
    simp only [hold, false_and, or_false]
  · rw [heq]
    have hfree := ht.Rget_ID_eq.mp hnew
    constructor
    · rintro ⟨room, hmem, hID, hnone⟩
      rcases List.mem_append.mp hmem with hmem | hmem
      · exact .inl ⟨room, hmem, hID, hnone⟩
      · rw [List.mem_singleton.mp hmem] at hID
        exact .inr ⟨hfree, hID.symm⟩
    · rintro (⟨room, hmem, hID, hnone⟩ | ⟨-, rfl⟩)
      · exact ⟨room, List.mem_append_left _ hmem, hID, hnone⟩
      · exact ⟨⟨s.numRooms, fd, name, []⟩, by simp, rfl, by simp⟩

/-- **When a handler dereferences no NULL**, in every reachable state and for
every packet on a logged-in connection. -/
theorem null_safe_iff {w : World} (hw : Reachable sha256 w) {name : Str}
    (hwords : (words p.buf).length ≤ 15) :
    (ops.run (client_receive sha256 env (some name) p fd) w.server).fault? ≠ some .null ↔
      NullSafe env w.server p := by
  have hi := hw.housed
  rw [client_receive, Ne, session_null hi, set_name_null, join_null hi.table hwords]
  constructor
  · intro h
    obtain ⟨hchat, hrename, hjoin⟩ := by simpa only [not_or] using h
    refine ⟨fun hopt => ?_, fun hopt hname a ha => ?_, fun hopt hw hname => ⟨?_, ?_⟩⟩
    · by_contra hno
      exact hchat ⟨hopt, Rget_roomFID_isNone.mpr hno⟩
    · by_contra hno
      exact hrename ⟨hopt, hname, a, ha, Rget_roomFID_isNone.mpr hno⟩
    · intro room hmem hID
      by_contra hno
      refine hjoin ⟨hopt, hw, hname, ?_⟩
      refine (lookup_member_openRoom hi.table (acceptsName_iff.mp hname).2.2).mpr (.inl ?_)
      exact ⟨room, hmem, hID, fun a ha he => hno ⟨a, ha, he⟩⟩
    · intro hfree hID
      refine hjoin ⟨hopt, hw, hname, ?_⟩
      exact (lookup_member_openRoom hi.table (acceptsName_iff.mp hname).2.2).mpr (.inr ⟨hfree, hID⟩)
  · rintro hsafe (⟨hopt, hnone⟩ | ⟨hopt, hname, a, ha, hnone⟩ | ⟨hopt, hw, hname, hnone⟩)
    · exact Rget_roomFID_isNone.mp hnone (hsafe.chat hopt)
    · exact Rget_roomFID_isNone.mp hnone (hsafe.rename hopt hname a ha)
    · obtain ⟨hmember, hnew⟩ := hsafe.join hopt hw hname
      rcases (lookup_member_openRoom hi.table (acceptsName_iff.mp hname).2.2).mp hnone with
        ⟨room, hmem, hID, hno⟩ | ⟨hfree, hID⟩
      · obtain ⟨a, ha, he⟩ := hmember room hmem hID
        exact hno a ha he
      · exact hnew hfree hID

/-- A query is safe. -/
theorem null_safe_iff_query :
    (ops.run (client_receive Sample.sha256 Sample.env (some (str "alice"))
      ⟨0, [], str "alice", str "alice", GETALLUSERS⟩ 4)
      (Sample.world (Sample.enter 4 "alice")).server).fault? ≠ some .null ∧
    NullSafe Sample.env (Sample.world (Sample.enter 4 "alice")).server
      ⟨0, [], str "alice", str "alice", GETALLUSERS⟩ := by
  have hsafe : NullSafe Sample.env (Sample.world (Sample.enter 4 "alice")).server
      ⟨0, [], str "alice", str "alice", GETALLUSERS⟩ :=
    ⟨fun h => absurd h (by decide), fun h => absurd h (by decide), fun h => absurd h (by decide)⟩
  exact ⟨(null_safe_iff (Sample.reachable _) (by decide)).mpr hsafe, hsafe⟩

/-- A chat packet for a room that was never made dereferences NULL, on the
connection of a user who is logged in. -/
theorem null_dereferenced : ¬ ∀ (sha256 : Str → Digest) (env : Env) (w : World) (name : Str)
    (p : Packet) (fd : Int), Reachable sha256 w → w.conns fd = .serving (some name) → p.Wf →
    (words p.buf).length ≤ 15 →
    (ops.run (client_receive sha256 env (some name) p fd) w.server).fault? ≠ some .null :=
  fun h => h Sample.sha256 Sample.env (Sample.world (Sample.enter 4 "alice")) (str "alice")
    ⟨0, str "hello", str "alice", str "alice", 5000⟩ 4 (Sample.reachable _) (by decide)
    (by decide) (by decide) (by decide)

end TBDChat
