import TBDChat.RoomTable

/-!
# Who is in which room

Four handlers move a record about, and each keeps three places in step: the list
of active users, a room's list and the record's own `roomID`.  `Server.Housed` is
the state of affairs they keep: a room's list holds just the active users whose
`roomID` is the room's number, each of them once.  Every list is looked up by
username, so all of it rests on the active usernames being distinct.
-/

namespace TBDChat
open Atomic

set_option maxRecDepth 8000

/-- The invariant of the lists of users. -/
structure Server.Housed (s : Server) : Prop where
  table : s.Table
  fresh : ∀ a ∈ s.registered_users_list, a < s.fresh
  known : ∀ a ∈ s.active_users_list, a ∈ s.registered_users_list
  distinct : s.active_users_list.Pairwise (fun a b => (s.heap a).username ≠ (s.heap b).username)
  /-- A room's list holds the active users who say that they are in it. -/
  member : ∀ r < s.room_list.length, ∀ a,
    a ∈ s.members r ↔ a ∈ s.active_users_list ∧ (s.heap a).roomID = (s.room r).ID
  once : ∀ r < s.room_list.length, (s.members r).Nodup
  /-- They are all in one. -/
  room : ∀ a ∈ s.active_users_list, ∃ r < s.room_list.length, (s.room r).ID = (s.heap a).roomID

namespace Server
variable {s s' : Server} {a b : Addr} {r r' k : RoomRef} {who : Str}

/-! ## The lists after a change -/

/-- Rooms are told apart by their numbers. -/
theorem Housed.room_inj (hi : s.Housed) (hr : r < s.room_list.length)
    (hr' : r' < s.room_list.length) (h : (s.room r).ID = (s.room r').ID) : r = r' := by
  have hget (k : RoomRef) (hk : k < s.room_list.length) :
      (s.room_list.map Room.ID)[k]? = some (s.room k).ID := by
    rw [List.getElem?_map, List.getElem?_eq_getElem hk, Option.map_some, room_eq hk]
  have hlen : r < (s.room_list.map Room.ID).length := by rwa [List.length_map]
  exact (List.getElem?_inj hlen hi.table.ids).mp (by rw [hget r hr, hget r' hr', h])

theorem Housed.nodup (hi : s.Housed) : s.active_users_list.Nodup :=
  hi.distinct.imp fun h he => h (congrArg (fun a => (s.heap a).username) he)

/-- Active users are told apart by their usernames. -/
theorem Housed.username_inj (hi : s.Housed) (ha : a ∈ s.active_users_list)
    (hb : b ∈ s.active_users_list) (h : (s.heap a).username = (s.heap b).username) : a = b := by
  have hget := LinkedList.get_user_of_mem hi.distinct ha
  rw [h, LinkedList.get_user_of_mem hi.distinct hb] at hget
  exact (Option.some.inj hget).symm

theorem Housed.active (hi : s.Housed) (hr : r < s.room_list.length) (ha : a ∈ s.members r) :
    a ∈ s.active_users_list := ((hi.member r hr a).mp ha).1

/-- The room of an active user's `roomID` holds them. -/
theorem Housed.member_of_roomID (hi : s.Housed)
    (ha : LinkedList.get_user s.heap s.active_users_list who = some a)
    (hr : LinkedList.Rget_roomFID s.room_list (s.heap a).roomID = some r) :
    r < s.room_list.length ∧ a ∈ s.members r := by
  have hlt := Rget_roomFID_lt hr
  obtain ⟨hmem, -⟩ := LinkedList.get_user_some ha
  exact ⟨hlt, (hi.member r hlt a).mpr ⟨hmem, (room_of_Rget_roomFID hr).symm⟩⟩

/-- Usernames are distinct in a room as well. -/
theorem Housed.distinct_members (hi : s.Housed) (hr : r < s.room_list.length) :
    (s.members r).Pairwise (fun a b => (s.heap a).username ≠ (s.heap b).username) :=
  (hi.once r hr).imp_of_mem fun ha hb hne he =>
    hne (hi.username_inj (hi.active hr ha) (hi.active hr hb) he)

/-- **Looking for a user in the room of a number** finds the active user of that
name, if that is the room they are in. -/
theorem Housed.find_member (hi : s.Housed) {ID : Int} :
    (∃ r, LinkedList.Rget_roomFID s.room_list ID = some r ∧
      LinkedList.get_user s.heap (s.members r) who = some a) ↔
    LinkedList.get_user s.heap s.active_users_list who = some a ∧ (s.heap a).roomID = ID := by
  constructor
  · rintro ⟨r, hr, ha⟩
    obtain ⟨hmem, rfl⟩ := LinkedList.get_user_some ha
    obtain ⟨hact, hroom⟩ := (hi.member r (Rget_roomFID_lt hr) a).mp hmem
    exact ⟨LinkedList.get_user_of_mem hi.distinct hact, hroom.trans (room_of_Rget_roomFID hr)⟩
  · rintro ⟨ha, rfl⟩
    obtain ⟨hact, rfl⟩ := LinkedList.get_user_some ha
    obtain ⟨k, hk, hID⟩ := hi.room a hact
    have hget : s.room_list[k]? = some (s.room k) := by
      rw [List.getElem?_eq_getElem hk, room_eq hk]
    refine ⟨k, hID ▸ LinkedList.Rget_roomFID_of_getElem? hi.table.ids hget, ?_⟩
    have hmem : a ∈ s.members k := (hi.member k hk a).mpr ⟨hact, hID.symm⟩
    exact LinkedList.get_user_of_mem (hi.distinct_members hk) hmem

/-- A user is in no second room. -/
theorem Housed.not_member (hi : s.Housed) (hr : r < s.room_list.length) (ha : a ∈ s.members r)
    (hk : k < s.room_list.length) (hne : k ≠ r) : a ∉ s.members k := by
  intro hak
  have hID := ((hi.member r hr a).mp ha).2
  rw [((hi.member k hk a).mp hak).2] at hID
  exact hne (hi.room_inj hk hr hID)

/-- Removing a listed record from a list without a second of its name. -/
theorem users_removeUser {l : ListRef} (hl : ∀ r, l = .room r → r < s.room_list.length)
    (hd : (s.users l).Pairwise (fun a b => (s.heap a).username ≠ (s.heap b).username))
    (ha : a ∈ s.users l) : (s.removeUser l a).users l = (s.users l).erase a := by
  rw [removeUser, users_setUsers _ _ _ hl, LinkedList.removeUser_snd hd ha]

theorem users_insertNode {l : ListRef} (hl : ∀ r, l = .room r → r < s.room_list.length) :
    (s.insertNode l a).users l = s.users l ++ [a] := by
  rw [insertNode, users_setUsers _ _ _ hl]
  rfl

theorem room_lt (hr : r < s.room_list.length) : ∀ k, ListRef.room r = .room k →
    k < s.room_list.length := by
  rintro k ⟨rfl⟩
  exact hr

theorem room_ne (h : k ≠ r) : ListRef.room k ≠ .room r := fun he => h (ListRef.room.inj he)

/-- The memory after `signIn`, where the name was not active. -/
theorem signIn_lists (fd : Int) (hr : r < s.room_list.length)
    (hact : LinkedList.get_user s.heap s.active_users_list (s.heap a).username = none) :
    (s.signIn a fd r).active_users_list = s.active_users_list ++ [a] ∧
    (s.signIn a fd r).members r = s.members r ++ [a] ∧
    (∀ k ≠ r, (s.signIn a fd r).members k = s.members k) ∧
    (∀ b, ((s.signIn a fd r).heap b).roomID = if b = a then 1000 else (s.heap b).roomID) := by
  have hins := s.insertUser_of_none .active a hact
  refine ⟨?_, ?_, fun k hk => ?_, fun b => ?_⟩
  · rw [signIn, hins]
    rfl
  · rw [signIn, hins]
    exact users_insertNode (s := ((s.insertNode .active a).modify a _).modify a _) (room_lt hr)
  · rw [signIn, hins]
    exact users_setUsers_ne _ _ _ (room_ne hk)
  · by_cases h : b = a
    · subst h
      simp [signIn, insertNode]
    · simp [signIn, insertNode, modify_heap_ne _ _ _ h, h, insertUser]

theorem Housed.members_removeUser (hi : s.Housed) (hr : r < s.room_list.length)
    (ha : a ∈ s.members r) (hk : k < s.room_list.length) :
    (s.removeUser (.room r) a).members k = (s.members k).erase a := by
  by_cases hkr : k = r
  · subst hkr
    exact users_removeUser (room_lt hr) (hi.distinct_members hr) ha
  · rw [List.erase_of_not_mem (hi.not_member hr ha hk hkr)]
    exact users_setUsers_ne _ _ _ (room_ne hkr)

/-- The memory after `move`. -/
theorem move_lists (ID : Int) (hi : s.Housed) (hlen : (s.heap a).username.length < 192)
    (hr : r < s.room_list.length) (hr' : r' < s.room_list.length) (ha : a ∈ s.members r) :
    (s.move a r r' ID).active_users_list = s.active_users_list ∧
    (s.move a r r' ID).members r' = (s.members r').erase a ++ [a] ∧
    (∀ k < s.room_list.length, k ≠ r' → (s.move a r r' ID).members k = (s.members k).erase a) ∧
    (∀ b, ((s.move a r r' ID).heap b).roomID = if b = a then ID else (s.heap b).roomID) := by
  let s₂ := (s.removeUser (.room r) a).modify a (fun u => { u with roomID := ID })
  have hmem (k : RoomRef) (hk : k < s.room_list.length) : s₂.members k = (s.members k).erase a :=
    hi.members_removeUser hr ha hk
  have hheap : (s.removeUser (.room r) a).heap = s.heap := setUsers_heap ..
  have huser (b : Addr) : (s₂.heap b).username = (s.heap b).username := by
    rw [modify_congr (g := User.username) (by rw [hheap]; exact User.username_roomID hlen ID),
      hheap]
  have hnone : LinkedList.get_user s₂.heap (s₂.members r') (s₂.heap a).username = none := by
    refine LinkedList.get_user_none.mpr fun b hb he => ?_
    rw [hmem r' hr'] at hb
    rw [huser, huser] at he
    obtain ⟨hne, hb⟩ := (hi.once r' hr').mem_erase_iff.mp hb
    exact hne (hi.username_inj (hi.active hr' hb) (hi.active hr ha) he)
  -- nobody in the new room has the name, so `insertUser` does insert
  have hmove : s.move a r r' ID = s₂.insertNode (.room r') a := s₂.insertUser_of_none _ a hnone
  have hlt : r' < s₂.room_list.length := by
    rw [modify_room_list, removeUser, setUsers_length]
    exact hr'
  rw [hmove]
  refine ⟨rfl, ?_, fun k hk hne => ?_, fun b => ?_⟩
  · rw [← hmem r' hr']
    exact users_insertNode (room_lt hlt)
  · rw [← hmem k hk]
    exact users_setUsers_ne _ _ _ (room_ne hne)
  · by_cases h : b = a
    · subst h
      simp [s₂, insertNode]
    · simp [s₂, insertNode, modify_heap_ne _ _ _ h, h, removeUser]

/-- The memory after `signOut`. -/
theorem signOut_lists (hi : s.Housed) (hr : r < s.room_list.length) (ha : a ∈ s.members r) :
    (s.signOut a r).active_users_list = s.active_users_list.erase a ∧
    (∀ k < s.room_list.length, (s.signOut a r).members k = (s.members k).erase a) := by
  refine ⟨?_, fun k hk => ?_⟩
  · exact users_removeUser (s := s.removeUser (.room r) a) (l := .active) (fun _ h => nomatch h)
      (by rw [removeUser, setUsers_heap]; exact hi.distinct) (hi.active hr ha)
  · rw [← hi.members_removeUser hr ha hk]
    rfl

/-! ## Every change keeps the invariant -/

/-- Updates that touch neither an active user's username or room nor a list,
other than to register more users. -/
theorem Housed.quiet (hi : s.Housed) (hrooms : s'.room_list = s.room_list)
    (hnum : s'.numRooms = s.numRooms) (hactive : s'.active_users_list = s.active_users_list)
    (hfresh : ∀ a ∈ s'.registered_users_list, a < s'.fresh)
    (hknown : ∀ a ∈ s.registered_users_list, a ∈ s'.registered_users_list)
    (huser : ∀ a ∈ s.active_users_list, (s'.heap a).username = (s.heap a).username)
    (hroom : ∀ a ∈ s.active_users_list, (s'.heap a).roomID = (s.heap a).roomID) : s'.Housed := by
  have hmem (k : RoomRef) : s'.members k = s.members k := by
    rw [members, Server.room, hrooms]
    rfl
  have hID (k : RoomRef) : (s'.room k).ID = (s.room k).ID := by
    rw [Server.room, hrooms]
    rfl
  refine ⟨?_, hfresh, ?_, ?_, ?_, ?_, ?_⟩
  · rw [Table, hrooms, hnum]
    exact hi.table
  · rw [hactive]
    exact fun a ha => hknown a (hi.known a ha)
  · rw [hactive]
    refine hi.distinct.imp_of_mem fun {a b} ha hb hne => ?_
    rwa [huser a ha, huser b hb]
  · intro r hr a
    rw [hrooms] at hr
    rw [hmem, hactive, hID, hi.member r hr a]
    exact and_congr_right fun ha => by rw [hroom a ha]
  · intro r hr
    rw [hrooms] at hr
    rw [hmem]
    exact hi.once r hr
  · intro a ha
    rw [hactive] at ha
    obtain ⟨r, hr, hIDr⟩ := hi.room a ha
    exact ⟨r, by rwa [hrooms], by rw [hID, hIDr, hroom a ha]⟩

theorem enrol_registered (s : Server) (u : User) :
    (s.enrol u).registered_users_list = s.registered_users_list ∨
    (s.enrol u).registered_users_list = s.registered_users_list ++ [s.fresh] := by
  rw [enrol_list, LinkedList.insertUser]
  split
  · exact .inl rfl
  · exact .inr rfl

/-- Which record is found by a name after a registration: an old one, or else the
new one. -/
theorem Housed.get_user_enrol (hi : s.Housed) (u : User) (name : Str) :
    LinkedList.get_user (s.enrol u).heap (s.enrol u).registered_users_list name =
      (LinkedList.get_user s.heap s.registered_users_list name).or
        (if u.username = name then some s.fresh else none) := by
  have hold (name : Str) : LinkedList.get_user (s.enrol u).heap s.registered_users_list name =
      LinkedList.get_user s.heap s.registered_users_list name := by
    refine LinkedList.get_user_congr fun a ha => ?_
    rw [enrol_heap_old (hi.fresh a ha)]
  rw [enrol_list, LinkedList.insertUser, enrol_heap_new, hold]
  split
  · rename_i hsome
    rw [hold]
    split
    · -- the record is refused for one of its name, which is the one found
      rename_i hname
      rw [hname] at hsome
      rw [Option.or_of_isSome hsome]
    · rw [Option.or_none]
  · have hlast : LinkedList.get_user (s.enrol u).heap [s.fresh] name =
        if u.username = name then some s.fresh else none := by
      simp only [LinkedList.get_user, List.find?_cons, enrol_heap_new, List.find?_nil]
      split
      · rename_i h
        rw [if_pos (of_decide_eq_true h)]
      · rename_i h
        rw [if_neg (of_decide_eq_false h)]
    rw [← hold, ← hlast]
    exact List.find?_append

theorem Housed.enrol (hi : s.Housed) (u : User) : (s.enrol u).Housed := by
  have hheap (a : Addr) (ha : a ∈ s.active_users_list) : (s.enrol u).heap a = s.heap a :=
    enrol_heap_old (hi.fresh a (hi.known a ha))
  refine hi.quiet rfl rfl rfl (fun a ha => ?_) (fun a ha => ?_) (fun a ha => by rw [hheap a ha])
    (fun a ha => by rw [hheap a ha])
  · have hfresh : (s.enrol u).fresh = s.fresh + 1 := rfl
    rw [hfresh]
    rcases s.enrol_registered u with h | h
    · exact Nat.lt_succ_of_lt (hi.fresh a (h ▸ ha))
    · rcases List.mem_append.mp (h ▸ ha) with ha | ha
      · exact Nat.lt_succ_of_lt (hi.fresh a ha)
      · rw [List.mem_singleton.mp ha]
        exact Nat.lt_succ_self _
  · rcases s.enrol_registered u with h | h
    · rwa [h]
    · rw [h]
      exact List.mem_append_left _ ha

/-- Nobody of a name that is not registered is active, also after a registration. -/
theorem Housed.enrol_inactive (hi : s.Housed) {u : User} {name : Str}
    (hfree : ∀ a ∈ s.registered_users_list, (s.heap a).username ≠ name) :
    LinkedList.get_user (s.enrol u).heap (s.enrol u).active_users_list name = none := by
  refine LinkedList.get_user_none.mpr fun a ha => ?_
  have hmem := hi.known a ha
  rw [enrol_heap_old (hi.fresh a hmem)]
  exact hfree a hmem

/-- **A user enters a room**: wherever `a` was, it is now in the list of `r` and in
no other. -/
theorem Housed.enter {ID : Int} (hi : s.Housed) (hrooms : SameRooms s s')
    (hfresh : ∀ a ∈ s'.registered_users_list, a < s'.fresh)
    (hknown : ∀ a ∈ s'.active_users_list, a ∈ s'.registered_users_list)
    (hdistinct : s'.active_users_list.Pairwise
      (fun a b => (s'.heap a).username ≠ (s'.heap b).username))
    (hactive : ∀ b, b ∈ s'.active_users_list ↔ b = a ∨ b ∈ s.active_users_list)
    (hr : r < s.room_list.length) (hID : ID = (s.room r).ID)
    (hself : s'.members r = (s.members r).erase a ++ [a])
    (hothers : ∀ k < s.room_list.length, k ≠ r → s'.members k = (s.members k).erase a)
    (hroomID : ∀ b, (s'.heap b).roomID = if b = a then ID else (s.heap b).roomID) :
    s'.Housed := by
  refine ⟨hrooms.table hi.table, hfresh, hknown, hdistinct, ?_, ?_, ?_⟩
  · intro k hk b
    rw [hrooms.length] at hk
    rw [hrooms.ID, hactive, hroomID]
    by_cases hb : b = a
    · subst hb
      by_cases hkr : k = r
      · subst hkr
        simp [hself, hID]
      · have hne : ID ≠ (s.room k).ID := fun h => hkr (hi.room_inj hk hr (h.symm.trans hID))
        simp [hothers k hk hkr, (hi.once k hk).not_mem_erase, hne]
    · -- whoever else is in the room was in it
      have hmem : b ∈ s'.members k ↔ b ∈ s.members k := by
        by_cases hkr : k = r
        · subst hkr
          simp [hself, hb, List.mem_erase_of_ne hb]
        · rw [hothers k hk hkr, List.mem_erase_of_ne hb]
      rw [hmem, hi.member k hk b, if_neg hb, or_iff_right hb]
  · intro k hk
    rw [hrooms.length] at hk
    by_cases hkr : k = r
    · subst hkr
      rw [hself]
      refine List.nodup_append.mpr ⟨(hi.once k hk).erase a, List.nodup_singleton _, ?_⟩
      intro b hb c hc
      rw [List.mem_singleton.mp hc]
      exact ((hi.once k hk).mem_erase_iff.mp hb).1
    · rw [hothers k hk hkr]
      exact (hi.once k hk).erase a
  · intro b hb
    by_cases hba : b = a
    · exact ⟨r, by rwa [hrooms.length], by rw [hrooms.ID, hroomID, if_pos hba, hID]⟩
    · obtain ⟨k, hk, hIDk⟩ := hi.room b (((hactive b).mp hb).resolve_left hba)
      exact ⟨k, by rwa [hrooms.length], by rw [hrooms.ID, hroomID, if_neg hba, hIDk]⟩

theorem Housed.signIn {fd : Int} (hi : s.Housed) (hlen : (s.heap a).username.length < 192)
    (ha : a ∈ s.registered_users_list)
    (hact : LinkedList.get_user s.heap s.active_users_list (s.heap a).username = none)
    (hr : LinkedList.Rget_roomFID s.room_list DEFAULT_ROOM = some r) :
    (s.signIn a fd r).Housed := by
  have hlt := Rget_roomFID_lt hr
  have huser := s.username_signIn hlen fd r
  -- the record was not active, so it was in no room either
  have hnew : a ∉ s.active_users_list := fun h => LinkedList.get_user_none.mp hact a h rfl
  have herase (k : RoomRef) (hk : k < s.room_list.length) : (s.members k).erase a = s.members k :=
    List.erase_of_not_mem fun h => hnew (hi.active hk h)
  obtain ⟨hactive, hself, hothers, hroomID⟩ := signIn_lists fd hlt hact
  refine hi.enter (SameRooms.signIn s a fd r) hi.fresh ?_ ?_ ?_ hlt (room_of_Rget_roomFID hr).symm
    (by rw [hself, herase r hlt]) (fun k hk hne => by rw [hothers k hne, herase k hk]) hroomID
  · rw [hactive]
    intro b hb
    rcases List.mem_append.mp hb with hb | hb
    · exact hi.known b hb
    · rw [List.mem_singleton.mp hb]
      exact ha
  · simp only [hactive, huser]
    exact LinkedList.distinct_insertNode hi.distinct hact
  · intro b
    rw [hactive, List.mem_append, List.mem_singleton, or_comm]

theorem Housed.move {ID : Int} (hi : s.Housed) (hlen : (s.heap a).username.length < 192)
    (hr : r < s.room_list.length) (hr' : r' < s.room_list.length) (hID : ID = (s.room r').ID)
    (ha : a ∈ s.members r) : (s.move a r r' ID).Housed := by
  have huser := s.username_move hlen r r' ID
  obtain ⟨hactive, hself, hothers, hroomID⟩ := move_lists ID hi hlen hr hr' ha
  refine hi.enter (SameRooms.move s a r r' ID) hi.fresh ?_ ?_ ?_ hr' hID hself hothers hroomID
  · rw [hactive]
    exact hi.known
  · simp only [hactive, huser]
    exact hi.distinct
  · intro b
    rw [hactive]
    exact (or_iff_right_of_imp fun h => h ▸ hi.active hr ha).symm

theorem Housed.signOut (hi : s.Housed) (hr : r < s.room_list.length) (ha : a ∈ s.members r) :
    (s.signOut a r).Housed := by
  have hrooms := SameRooms.signOut s a r
  have hheap : (s.signOut a r).heap = s.heap := by simp [Server.signOut, removeUser]
  obtain ⟨hactive, hmem⟩ := signOut_lists hi hr ha
  have hleft (b : Addr) : b ∈ s.active_users_list.erase a ↔ b ≠ a ∧ b ∈ s.active_users_list :=
    hi.nodup.mem_erase_iff
  refine ⟨hrooms.table hi.table, hi.fresh, ?_, ?_, ?_, ?_, ?_⟩
  · rw [hactive]
    exact fun b hb => hi.known b (List.mem_of_mem_erase hb)
  · rw [hactive, hheap]
    exact hi.distinct.sublist List.erase_sublist
  · intro k hk b
    rw [hrooms.length] at hk
    rw [hrooms.ID, hactive, hheap, hmem k hk, hleft, (hi.once k hk).mem_erase_iff, hi.member k hk b,
      and_assoc]
  · intro k hk
    rw [hrooms.length] at hk
    rw [hmem k hk]
    exact (hi.once k hk).erase a
  · intro b hb
    rw [hactive] at hb
    obtain ⟨k, hk, hID⟩ := hi.room b (List.mem_of_mem_erase hb)
    exact ⟨k, by rwa [hrooms.length], by rw [hrooms.ID, hheap, hID]⟩

/-- An active user's `roomID` is a number that has been given out. -/
theorem Housed.roomID_lt (hi : s.Housed) (ha : a ∈ s.active_users_list) :
    DEFAULT_ROOM ≤ (s.heap a).roomID ∧ (s.heap a).roomID < s.numRooms := by
  obtain ⟨k, hk, hID⟩ := hi.room a ha
  rw [← hID]
  refine hi.table.range _ (List.mem_map.mpr ⟨s.room_list[k], List.getElem_mem hk, ?_⟩)
  rw [room_eq hk]

theorem Housed.openRoom {fd : Int} {name : Str} (hi : s.Housed)
    (hname : name.length ≤ ROOMNAME_LENGTH) : (s.openRoom fd name).Housed := by
  have htable := openRoom_table fd hi.table hname
  have hmem := openRoom_members fd hi.table hname
  have hID := fun k => @openRoom_ID s name fd hi.table hname k
  rcases openRoom_cases fd hi.table hname with ⟨h, -⟩ | ⟨-, h⟩
  · rwa [h]
  rw [h] at htable hmem hID ⊢
  -- a room of the new table was there before, or is the one that was made
  have hcases (k : RoomRef)
      (hk : k < (s.room_list ++ [(⟨s.numRooms, fd, name, []⟩ : Room)]).length) :
      k < s.room_list.length ∨ k = s.room_list.length := by
    rw [List.length_append, List.length_singleton] at hk
    exact Nat.lt_succ_iff_lt_or_eq.mp hk
  -- the lists of the rooms alone are left to show
  refine ⟨htable, hi.fresh, hi.known, hi.distinct, ?_, ?_, ?_⟩
  · intro k hk b
    rw [hmem]
    rcases hcases k hk with hlt | rfl
    · rw [hID k hlt]
      exact hi.member k hlt b
    · -- nobody says yet that he is in a room of this number
      rw [members_of_ge (Nat.le_refl _)]
      constructor
      · intro hb
        exact absurd hb List.not_mem_nil
      · rintro ⟨hb, hnum⟩
        have hroom : (s.heap b).roomID = s.numRooms := by simpa [Server.room] using hnum
        exact absurd hroom (Int.ne_of_lt (hi.roomID_lt hb).2)
  · intro k hk
    rw [hmem]
    rcases hcases k hk with hlt | rfl
    · exact hi.once k hlt
    · rw [members_of_ge (Nat.le_refl _)]
      exact List.nodup_nil
  · intro b hb
    obtain ⟨k, hk, hroom⟩ := hi.room b hb
    refine ⟨k, ?_, by rw [hID k hk, hroom]⟩
    rw [List.length_append]
    exact Nat.lt_add_right _ hk

end Server

open Server in
theorem Change.housed {who : Str} {s s' : Server} (hi : s.Housed) (h : Change who s s') :
    s'.Housed := by
  cases h with
  | enrol u => exact hi.enrol u
  | free a => exact hi.quiet rfl rfl rfl hi.fresh (fun _ h => h) (fun _ _ => rfl) (fun _ _ => rfl)
  | signIn hwho ha hact hr =>
    obtain ⟨hmem, hname⟩ := LinkedList.get_user_some ha
    exact hi.signIn (by rwa [hname]) hmem (by rwa [hname]) hr
  | openRoom hname => exact hi.openRoom hname
  | move hwho hr hr' hID ha =>
    obtain ⟨hmem, hname⟩ := LinkedList.get_user_some ha
    exact hi.move (by rwa [hname]) hr hr' hID hmem
  | rename hwho ha =>
    obtain ⟨hmem, hname⟩ := LinkedList.get_user_some ha
    exact hi.quiet rfl rfl rfl hi.fresh (fun _ h => h)
      (fun b _ => s.username_rename (by rwa [hname]) _ b) (fun b _ => rename_roomID s _ _ b)
  | setPassword hwho ha =>
    obtain ⟨hmem, hname⟩ := LinkedList.get_user_some ha
    exact hi.quiet rfl rfl rfl hi.fresh (fun _ h => h)
      (fun b _ => s.username_setPassword (by rwa [hname]) _ b)
      (fun b _ => setPassword_roomID s _ _ b)
  | signOut ha hr =>
    obtain ⟨hlt, hmem⟩ := hi.member_of_roomID ha hr
    exact hi.signOut hlt hmem

theorem boot_housed (file : Option (List UInt8)) (fd : Int) : (Server.boot file fd).Housed where
  table := boot_table file fd
  fresh a ha := List.mem_range.mp ha
  known a ha := by cases ha
  distinct := .nil
  member r hr a := by
    have h0 : r = 0 := Nat.lt_one_iff.mp hr
    subst h0
    simp [Server.members, Server.room, Server.boot, LinkedList.insertRoom]
  once r hr := by
    have h0 : r = 0 := Nat.lt_one_iff.mp hr
    subst h0
    simp [Server.members, Server.room, Server.boot, LinkedList.insertRoom]
  room a ha := by cases ha

section Reachable
variable {sha256 : Str → Digest} {w : World}

/-- The server starts with the records of the file registered, in order. -/
theorem boot_registered (file : Option (List UInt8)) (fd : Int) :
    (Server.boot file fd).registered = LinkedList.readUserFile file := by
  refine List.ext_getElem (by simp [Server.registered, Server.boot]) fun i hi hi' => ?_
  simp [Server.registered, Server.boot, hi']

/-- The lists of users in every reachable state. -/
theorem Reachable.housed (hw : Reachable sha256 w) : w.server.Housed :=
  hw.induct boot_housed fun _ _ _ hi h => h.housed hi

/-- An active user is counted once over all the rooms. -/
theorem Server.Housed.count {s : Server} {a : Addr} (hi : s.Housed) (ha : a ∈ s.active_users_list) :
    (s.room_list.flatMap Room.user_list).count a = 1 := by
  have hroom (k : RoomRef) (hk : k < s.room_list.length) :
      s.room_list[k].user_list = s.members k := by simp [Server.members, Server.room, hk]
  have hnodup : (s.room_list.flatMap Room.user_list).Nodup := by
    refine List.nodup_flatMap.mpr ⟨fun room hmem => ?_, ?_⟩
    · obtain ⟨k, hk, rfl⟩ := List.mem_iff_getElem.mp hmem
      rw [hroom k hk]
      exact hi.once k hk
    · refine List.pairwise_iff_getElem.mpr fun k j hk hj hlt b hb hb' => ?_
      rw [hroom k hk] at hb
      rw [hroom j hj] at hb'
      exact hi.not_member hk hb hj (Nat.ne_of_gt hlt) hb'
  obtain ⟨k, hk, hID⟩ := hi.room a ha
  refine List.count_eq_one_of_mem hnodup (List.mem_flatMap.mpr ⟨_, List.getElem_mem hk, ?_⟩)
  rw [hroom k hk]
  exact (hi.member k hk a).mpr ⟨ha, hID.symm⟩

/-- **Room membership**, in every reachable state: no two active users have one
name and all are registered, each is in one room, once, which is the room of its
`roomID`, and nobody else is in any.  A record that is freed is taken to keep its
bytes (`Server.free`). -/
theorem room_membership (hw : Reachable sha256 w) :
    (w.server.active_users_list.Pairwise
        (fun a b => (w.server.heap a).username ≠ (w.server.heap b).username) ∧
      ∀ a ∈ w.server.active_users_list, a ∈ w.server.registered_users_list) ∧
    (∀ a ∈ w.server.active_users_list,
      (w.server.room_list.flatMap Room.user_list).count a = 1 ∧
      ∀ room ∈ w.server.room_list, a ∈ room.user_list ↔ room.ID = (w.server.heap a).roomID) ∧
    (∀ room ∈ w.server.room_list, ∀ a ∈ room.user_list, a ∈ w.server.active_users_list) := by
  have hi := hw.housed
  have hroom (room : Room) (h : room ∈ w.server.room_list) :
      ∃ k < w.server.room_list.length, w.server.room k = room := by
    obtain ⟨k, hk, rfl⟩ := List.mem_iff_getElem.mp h
    exact ⟨k, hk, Server.room_eq hk⟩
  refine ⟨⟨hi.distinct, hi.known⟩, fun a ha => ⟨hi.count ha, fun room hmem => ?_⟩,
    fun room hmem a ha => ?_⟩
  · obtain ⟨k, hk, rfl⟩ := hroom room hmem
    exact ⟨fun h => ((hi.member k hk a).mp h).2.symm, fun h => (hi.member k hk a).mpr ⟨ha, h.symm⟩⟩
  · obtain ⟨k, hk, rfl⟩ := hroom room hmem
    exact hi.active hk ha

/-- A state with somebody in it. -/
theorem room_membership_entered :
    (Sample.world (Sample.enter 4 "alice")).server.active_users_list = [0] ∧
    ((Sample.world (Sample.enter 4 "alice")).server.room_list.flatMap Room.user_list).count 0 =
      1 := by
  have hactive : (Sample.world (Sample.enter 4 "alice")).server.active_users_list = [0] := by
    decide
  have hmem := (room_membership (Sample.reachable (Sample.enter 4 "alice"))).2.1
  exact ⟨hactive, (hmem 0 (by rw [hactive]; exact List.mem_singleton_self 0)).1⟩

end Reachable
end TBDChat
