import TBDChat.Changes
import Mathlib.Data.List.Nodup

/-!
# The room table

Rooms are only ever added, each under a number and a name of its own, and the
Lobby stays the first.  `insertRoom` would refuse a room whose number or name is
taken, after `createRoom` has counted it and `join` has gone on as if it were
there; that this does not happen is what the table's invariant is for.
-/

namespace TBDChat
open Atomic

/-- A room table in which the numbers given out are those below `numRooms`. -/
structure RoomTable (rooms : List Room) (numRooms : Int) : Prop where
  ids : (rooms.map Room.ID).Nodup
  names : (rooms.map Room.name).Nodup
  range : ∀ ID ∈ rooms.map Room.ID, DEFAULT_ROOM ≤ ID ∧ ID < numRooms
  lobbyID : (rooms.map Room.ID)[0]? = some DEFAULT_ROOM
  lobbyName : (rooms.map Room.name)[0]? = some DEFAULT_ROOM_NAME

namespace RoomTable
variable {rooms rooms' : List Room} {numRooms : Int}

/-- Only the numbers and the names matter. -/
theorem congr (ht : RoomTable rooms numRooms) (hID : rooms'.map Room.ID = rooms.map Room.ID)
    (hname : rooms'.map Room.name = rooms.map Room.name) : RoomTable rooms' numRooms where
  ids := by rw [hID]; exact ht.ids
  names := by rw [hname]; exact ht.names
  range := by rw [hID]; exact ht.range
  lobbyID := by rw [hID]; exact ht.lobbyID
  lobbyName := by rw [hname]; exact ht.lobbyName

/-- More numbers may have been given out. -/
theorem mono {n : Int} (ht : RoomTable rooms numRooms) (h : numRooms ≤ n) : RoomTable rooms n where
  ids := ht.ids
  names := ht.names
  range ID hmem := ⟨(ht.range ID hmem).1, Int.lt_of_lt_of_le (ht.range ID hmem).2 h⟩
  lobbyID := ht.lobbyID
  lobbyName := ht.lobbyName

/-- A new room under a number that was given out. -/
theorem insert (ht : RoomTable rooms numRooms) {room : Room}
    (hID : DEFAULT_ROOM ≤ room.ID ∧ room.ID < numRooms) (hid : ∀ r ∈ rooms, r.ID ≠ room.ID)
    (hname : ∀ r ∈ rooms, r.name ≠ room.name) : RoomTable (rooms ++ [room]) numRooms where
  ids := by
    rw [List.map_append, List.map_singleton, List.nodup_append]
    refine ⟨ht.ids, List.nodup_singleton _, fun ID hmem ID' hmem' heq => ?_⟩
    obtain ⟨r, hr, rfl⟩ := List.mem_map.mp hmem
    exact hid r hr (heq.trans (List.mem_singleton.mp hmem'))
  names := by
    rw [List.map_append, List.map_singleton, List.nodup_append]
    refine ⟨ht.names, List.nodup_singleton _, fun name hmem name' hmem' heq => ?_⟩
    obtain ⟨r, hr, rfl⟩ := List.mem_map.mp hmem
    exact hname r hr (heq.trans (List.mem_singleton.mp hmem'))
  range := by
    intro ID hmem
    rw [List.map_append, List.map_singleton] at hmem
    rcases List.mem_append.mp hmem with hmem | hmem
    · exact ht.range ID hmem
    · exact List.mem_singleton.mp hmem ▸ hID
  lobbyID := by
    rw [List.map_append]
    exact List.getElem?_append_left (List.getElem?_eq_some_iff.mp ht.lobbyID).1 ▸ ht.lobbyID
  lobbyName := by
    rw [List.map_append]
    exact List.getElem?_append_left (List.getElem?_eq_some_iff.mp ht.lobbyName).1 ▸ ht.lobbyName

/-- The Lobby has the least number. -/
theorem lobby_lt (ht : RoomTable rooms numRooms) : DEFAULT_ROOM < numRooms :=
  (ht.range _ (List.mem_of_getElem? ht.lobbyID)).2

/-- The next number under a new name. -/
theorem append (ht : RoomTable rooms numRooms) {room : Room} (hID : room.ID = numRooms)
    (hname : ∀ r ∈ rooms, r.name ≠ room.name) : RoomTable (rooms ++ [room]) (numRooms + 1) := by
  have hlobby := ht.lobby_lt
  refine (ht.mono (by omega)).insert (by omega) (fun r hr heq => ?_) hname
  have hlt := (ht.range r.ID (List.mem_map_of_mem hr)).2
  omega

/-- `Rget_ID` answers -1 just for a name that there is not. -/
theorem Rget_ID_eq (ht : RoomTable rooms numRooms) {name : Str} :
    LinkedList.Rget_ID rooms name = -1 ↔ ∀ room ∈ rooms, room.name ≠ name := by
  unfold LinkedList.Rget_ID
  split
  · rename_i room hfind
    have hmem := List.mem_of_find?_eq_some hfind
    have hname := List.find?_some hfind
    have hrange := ht.range room.ID (List.mem_map_of_mem hmem)
    simp only [DEFAULT_ROOM] at hrange
    constructor
    · intro h
      omega
    · intro h
      exact absurd (of_decide_eq_true hname) (h room hmem)
  · rename_i hfind
    simpa using hfind

/-- The Lobby is found by its number. -/
theorem Rget_lobby (ht : RoomTable rooms numRooms) :
    LinkedList.Rget_roomFID rooms DEFAULT_ROOM = some 0 := by
  obtain ⟨room, hroom, hID⟩ := Option.map_eq_some_iff.mp (List.getElem?_map .. ▸ ht.lobbyID)
  exact hID ▸ LinkedList.Rget_roomFID_of_getElem? ht.ids hroom

end RoomTable

/-- The memory's room table. -/
abbrev Server.Table (s : Server) : Prop := RoomTable s.room_list s.numRooms

namespace Server
variable {s : Server} {fd : Int} {name : Str}

/-- **`join` gets the room it makes.** -/
theorem createRoom_room_list (ht : s.Table) (hname : name.length ≤ ROOMNAME_LENGTH)
    (hnew : LinkedList.Rget_ID s.room_list name = -1) :
    (s.createRoom fd name).room_list = s.room_list ++ [⟨s.numRooms, fd, name, []⟩] := by
  have htake : name.take ROOMNAME_LENGTH = name := List.take_of_length_le hname
  -- the name was looked for, and the number is larger than all that were given out
  have hfree : (s.room_list.any fun r => r.name = name || r.ID = s.numRooms) = false := by
    refine List.any_eq_false.mpr fun r hr => ?_
    have hne : r.name ≠ name := ht.Rget_ID_eq.mp hnew r hr
    have hlt := (ht.range r.ID (List.mem_map_of_mem hr)).2
    simp [hne, Int.ne_of_lt hlt]
  simp only [createRoom, insertRoom, LinkedList.insertRoom, htake, hfree, Bool.false_eq_true,
    if_false]

theorem openRoom_table (fd : Int) (ht : s.Table) (hname : name.length ≤ ROOMNAME_LENGTH) :
    (s.openRoom fd name).Table := by
  unfold openRoom
  split
  · rename_i hnew
    rw [Table, createRoom_room_list ht hname hnew]
    exact ht.append rfl (ht.Rget_ID_eq.mp hnew)
  · exact ht

/-- What `openRoom` adds to the table, if anything. -/
theorem openRoom_cases (fd : Int) (ht : s.Table) (hname : name.length ≤ ROOMNAME_LENGTH) :
    (s.openRoom fd name = s ∧ LinkedList.Rget_ID s.room_list name ≠ -1) ∨
    (LinkedList.Rget_ID s.room_list name = -1 ∧ s.openRoom fd name = { s with
      room_list := s.room_list ++ [⟨s.numRooms, fd, name, []⟩], numRooms := s.numRooms + 1 }) := by
  by_cases hnew : LinkedList.Rget_ID s.room_list name = -1
  · refine .inr ⟨hnew, ?_⟩
    rw [openRoom, if_pos hnew, ← createRoom_room_list ht hname hnew]
    rfl
  · exact .inl ⟨if_neg hnew, hnew⟩

/-- `join` finds the room that it made sure of. -/
theorem Rget_roomFNAME_openRoom (fd : Int) {name : Str} (ht : s.Table)
    (hname : name.length ≤ ROOMNAME_LENGTH) :
    ∃ r, LinkedList.Rget_roomFNAME (s.openRoom fd name).room_list name = some r := by
  refine Option.ne_none_iff_exists'.mp fun h => ?_
  rw [LinkedList.Rget_roomFNAME_none] at h
  rcases openRoom_cases fd ht hname with ⟨heq, hex⟩ | ⟨-, heq⟩
  · rw [heq] at h
    exact hex (ht.Rget_ID_eq.mpr h)
  · rw [heq] at h
    exact h ⟨s.numRooms, fd, name, []⟩ (by simp) rfl

theorem members_of_ge {r : RoomRef} (h : s.room_list.length ≤ r) : s.members r = [] := by
  simp [members, Server.room, List.getElem?_eq_none h]

/-- A room that is made holds nobody. -/
theorem openRoom_members (fd : Int) (ht : s.Table) (hname : name.length ≤ ROOMNAME_LENGTH)
    (r : RoomRef) : (s.openRoom fd name).members r = s.members r := by
  rcases openRoom_cases fd ht hname with ⟨h, -⟩ | ⟨-, h⟩
  · rw [h]
  rw [h]
  -- behind the table `room` answers with a room that holds nobody either
  rcases Nat.lt_trichotomy r s.room_list.length with hlt | heq | hgt
  · simp [members, Server.room, hlt, List.getElem?_append_left]
  · rw [members_of_ge (Nat.le_of_eq heq.symm)]
    simp [members, Server.room, heq]
  · rw [members_of_ge (Nat.le_of_lt hgt), members_of_ge (by rw [List.length_append]; exact hgt)]

/-- The rooms that were there keep their numbers. -/
theorem openRoom_ID (fd : Int) (ht : s.Table) (hname : name.length ≤ ROOMNAME_LENGTH)
    {r : RoomRef} (hr : r < s.room_list.length) :
    ((s.openRoom fd name).room r).ID = (s.room r).ID := by
  rcases openRoom_cases fd ht hname with ⟨h, -⟩ | ⟨-, h⟩
  · rw [h]
  · rw [h]
    simp [Server.room, hr, List.getElem?_append_left]

end Server

/-- Two memories with the same rooms, whoever is in them. -/
structure SameRooms (s s' : Server) : Prop where
  numRooms : s'.numRooms = s.numRooms
  map : ∀ {β : Type} {g : Room → β}, (∀ room l, g { room with user_list := l } = g room) →
    s'.room_list.map g = s.room_list.map g

namespace SameRooms
variable {s s' s'' : Server}

theorem refl (s : Server) : SameRooms s s := ⟨rfl, fun _ => rfl⟩

theorem trans (h : SameRooms s s') (h' : SameRooms s' s'') : SameRooms s s'' :=
  ⟨h'.numRooms.trans h.numRooms, fun hg => (h'.map hg).trans (h.map hg)⟩

theorem setUsers (s : Server) (l : ListRef) (x : List Addr) : SameRooms s (s.setUsers l x) :=
  ⟨s.setUsers_numRooms l x, fun hg => s.setUsers_rooms l x hg⟩

theorem modify (s : Server) (a : Addr) (f : User → User) : SameRooms s (s.modify a f) :=
  ⟨rfl, fun _ => rfl⟩

theorem length (h : SameRooms s s') : s'.room_list.length = s.room_list.length := by
  simpa using congrArg List.length (h.map (g := fun _ => ()) (fun _ _ => rfl))

theorem ID (h : SameRooms s s') (r : RoomRef) : (s'.room r).ID = (s.room r).ID :=
  Server.room_congr (h.map fun _ _ => rfl) r

theorem table (h : SameRooms s s') (ht : s.Table) : s'.Table := by
  rw [Server.Table, h.numRooms]
  exact ht.congr (h.map fun _ _ => rfl) (h.map fun _ _ => rfl)

theorem insertUser (s : Server) (l : ListRef) (a : Addr) : SameRooms s (s.insertUser l a) :=
  setUsers ..

theorem insertNode (s : Server) (l : ListRef) (a : Addr) : SameRooms s (s.insertNode l a) :=
  setUsers ..

theorem removeUser (s : Server) (l : ListRef) (a : Addr) : SameRooms s (s.removeUser l a) :=
  setUsers ..

theorem signIn (s : Server) (a : Addr) (fd : Int) (r : RoomRef) :
    SameRooms s (s.signIn a fd r) :=
  (insertUser s _ a).trans ((modify _ a _).trans ((modify _ a _).trans (insertNode _ _ a)))

theorem move (s : Server) (a : Addr) (r r' : RoomRef) (ID : Int) :
    SameRooms s (s.move a r r' ID) :=
  (removeUser s _ a).trans ((modify _ a _).trans (insertUser _ _ a))

theorem signOut (s : Server) (a : Addr) (r : RoomRef) : SameRooms s (s.signOut a r) :=
  (removeUser s _ a).trans (removeUser _ _ a)

end SameRooms

section Changes
variable {sha256 : Str → Digest} {who : Str} {s s' : Server}

/-- **Rooms are added, and nothing else happens to them.** -/
theorem Change.rooms (h : Change who s s') :
    (∃ fd name, name.length ≤ ROOMNAME_LENGTH ∧ s' = s.openRoom fd name) ∨ SameRooms s s' := by
  cases h with
  | openRoom hname => exact .inl ⟨_, _, hname, rfl⟩
  | enrol | free | rename | setPassword => exact .inr ⟨rfl, fun _ => rfl⟩
  | signIn => exact .inr (.signIn ..)
  | move => exact .inr (.move ..)
  | signOut => exact .inr (.signOut ..)

theorem Change.table (ht : s.Table) (h : Change who s s') : s'.Table := by
  rcases h.rooms with ⟨fd, name, hname, rfl⟩ | hrooms
  · exact Server.openRoom_table fd ht hname
  · exact hrooms.table ht

theorem boot_table (file : Option (List UInt8)) (fd : Int) : (Server.boot file fd).Table where
  ids := List.nodup_singleton _
  names := List.nodup_singleton _
  range := by simp [Server.boot, LinkedList.insertRoom, DEFAULT_ROOM]
  lobbyID := rfl
  lobbyName := rfl

/-- The room table of every reachable state. -/
theorem Reachable.table {w : World} (hw : Reachable sha256 w) : w.server.Table :=
  hw.induct boot_table fun _ _ _ ht h => h.table ht

end Changes
end TBDChat
