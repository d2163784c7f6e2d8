import TBDChat.Lib.Atomic
import TBDChat.LinkedList
import Mathlib.Logic.Function.Basic

/-!
# The server's memory and its atomic operations

The globals of `chat_server.c`, the heap of `User` records and the content of
`Users.bin` make up a `Server`.  The handlers of `server_clients.c` touch it only
through the operations listed here: the list functions, which run under a mutex,
and single reads and writes of a record, of a room or of `numRooms`.  What leaves
the server, or touches a descriptor, is an `Effect`.

`free` marks a record as freed and leaves its bytes; `malloc` never hands out an
address twice.  `int`s that only ever count up are not cut to 32 bits.
-/

namespace TBDChat
open Atomic

/-! ## The macros of `chat_server.h` -/

def USERNAME_LENGTH : Nat := 64
def REALNAME_LENGTH : Nat := 64
def ROOMNAME_LENGTH : Nat := 16
def DEFAULT_ROOM : Int := 1000
def DEFAULT_ROOM_NAME : Str := str "Lobby"
def SERVER_NAME : Str := str "SERVER"
def REGISTER : Int := 1
def SETPASS : Int := 2
def SETNAME : Int := 3
def LOGIN : Int := 4
def EXIT : Int := 5
def INVITE : Int := 6
def JOIN : Int := 7
def GETUSERS : Int := 8
def GETALLUSERS : Int := 9
def GETUSER : Int := 10
def LEAVE : Int := 11
def GETMOTD : Int := 12
def GETROOMS : Int := 13
def LOGSUC : Int := 100
def PASSSUC : Int := 102
def NAMESUC : Int := 103
def JOINSUC : Int := 104
def MOTD : Int := 105
def INVITESUC : Int := 106
def SERV_ERR : Int := 107

/-- `struct Packet`, its arrays as the strings they hold. -/
structure Packet where
  timestamp : Int
  buf : Str
  username : Str
  realname : Str
  options : Int
  deriving DecidableEq

/-- A packet whose three arrays hold NUL-terminated strings.  `debugPacket`
prints all three of every packet that arrives, so one without a NUL is read past
its array before any handler sees it. -/
structure Packet.Wf (p : Packet) : Prop where
  buf : p.buf.length ≤ 127 ∧ (0 : UInt8) ∉ p.buf
  username : p.username.length ≤ 63 ∧ (0 : UInt8) ∉ p.username
  realname : p.realname.length ≤ 63 ∧ (0 : UInt8) ∉ p.realname

/-- Why a handler does not come to its end. -/
inductive Fault where
  /-- A NULL that a lookup returned is dereferenced. -/
  | null
  /-- The words of a command do not fit `args[16]`. -/
  | overflow
  /-- `localtime` cannot break the timestamp down. -/
  | time
  deriving DecidableEq

/-- What the rest of the world sees of a handler. -/
inductive Effect where
  | send (fd : Int) (p : Packet)
  | close (fd : Int)
  /-- `open` returned `fd`. -/
  | opened (fd : Int)
  /-- A line written to the log at `fd`. -/
  | logged (fd : Int) (line : Str)
  deriving DecidableEq

/-- The memory of the server. -/
structure Server where
  heap : Addr → User
  /-- The address the next `malloc` of a record returns. -/
  fresh : Addr
  /-- The records that have been freed; their memory is not given out again. -/
  freed : List Addr
  registered_users_list : List Addr
  active_users_list : List Addr
  room_list : List Room
  numRooms : Int
  users_file : Option (List UInt8)

/-- The list an operation is given. -/
inductive ListRef where
  | registered
  | active
  | room (r : RoomRef)
  deriving DecidableEq

namespace Server
variable (s : Server)

def room (r : RoomRef) : Room := s.room_list.getD r ⟨-1, -1, [], []⟩

/-- The user list of a room. -/
def members (r : RoomRef) : List Addr := (s.room r).user_list

def users : ListRef → List Addr
  | .registered => s.registered_users_list
  | .active => s.active_users_list
  | .room r => s.members r

/-- The server with one of its user lists replaced. -/
def setUsers : ListRef → List Addr → Server
  | .registered, l => { s with registered_users_list := l }
  | .active, l => { s with active_users_list := l }
  | .room r, l =>
    { s with room_list := s.room_list.modify r (fun room => { room with user_list := l }) }

/-- The server with one record changed. -/
def modify (a : Addr) (f : User → User) : Server :=
  { s with heap := Function.update s.heap a (f (s.heap a)) }

def insertUser (l : ListRef) (a : Addr) : Server :=
  s.setUsers l (LinkedList.insertUser s.heap (s.users l) a).2

def insertNode (l : ListRef) (a : Addr) : Server :=
  s.setUsers l (LinkedList.insertNode (s.users l) a)

def removeUser (l : ListRef) (a : Addr) : Server :=
  s.setUsers l (LinkedList.removeUser s.heap (s.users l) a).2

/-- The server after `malloc` returned a record with content `u` at `fresh`. -/
def malloc (u : User) : Server :=
  { s with heap := Function.update s.heap s.fresh u, fresh := s.fresh + 1 }

/-- A record that is freed keeps its bytes, and `malloc` does not return its address again: what
rests on a state with freed records in a list holds of a `free` with no effect on them. -/
def free (a : Addr) : Server := { s with freed := a :: s.freed }

/-- The records of `registered_users_list`, in order. -/
def registered : List User := s.registered_users_list.map s.heap

def writeUserFile : Server :=
  { s with users_file := LinkedList.writeUserFile s.registered s.users_file }

def insertRoom (room : Room) : Server :=
  { s with room_list := (LinkedList.insertRoom s.room_list room).2 }

end Server

/-! ## How the updates act on the parts -/

/-- A change of one element that a function does not see. -/
theorem map_modify_of_forall {α β : Type} {g : α → β} {f : α → α} (h : ∀ a, g (f a) = g a)
    (i : Nat) (l : List α) : (l.modify i f).map g = l.map g := by
  induction l generalizing i with
  | nil => rw [List.modify_nil]
  | cons a l ih => cases i with
    | zero => rw [List.modify_zero_cons, List.map_cons, List.map_cons, h]
    | succ i => rw [List.modify_succ_cons, List.map_cons, List.map_cons, ih]

namespace Server
variable (s : Server) (l : ListRef) (x : List Addr) (a : Addr) (f : User → User) (u : User)

@[simp] theorem setUsers_heap : (s.setUsers l x).heap = s.heap := by cases l <;> rfl
@[simp] theorem setUsers_fresh : (s.setUsers l x).fresh = s.fresh := by cases l <;> rfl
@[simp] theorem setUsers_freed : (s.setUsers l x).freed = s.freed := by cases l <;> rfl
@[simp] theorem setUsers_numRooms : (s.setUsers l x).numRooms = s.numRooms := by cases l <;> rfl
@[simp] theorem setUsers_users_file : (s.setUsers l x).users_file = s.users_file := by
  cases l <;> rfl

/-- No change of a user list touches a room's own fields. -/
theorem setUsers_rooms {β : Type} {g : Room → β}
    (h : ∀ room l, g { room with user_list := l } = g room) :
    (s.setUsers l x).room_list.map g = s.room_list.map g := by
  cases l with
  | registered => rfl
  | active => rfl
  | room r => exact map_modify_of_forall (fun room => h room x) r s.room_list

theorem setUsers_length : (s.setUsers l x).room_list.length = s.room_list.length := by
  simpa using congrArg List.length (s.setUsers_rooms l x (g := fun _ => ()) (fun _ _ => rfl))

@[simp] theorem Rget_roomFID_setUsers (ID : Int) :
    LinkedList.Rget_roomFID (s.setUsers l x).room_list ID =
      LinkedList.Rget_roomFID s.room_list ID :=
  LinkedList.Rget_roomFID_congr (s.setUsers_rooms l x (fun _ _ => rfl))

@[simp] theorem Rget_roomFID_insertUser (ID : Int) :
    LinkedList.Rget_roomFID (s.insertUser l a).room_list ID =
      LinkedList.Rget_roomFID s.room_list ID := s.Rget_roomFID_setUsers ..

@[simp] theorem Rget_roomFID_insertNode (ID : Int) :
    LinkedList.Rget_roomFID (s.insertNode l a).room_list ID =
      LinkedList.Rget_roomFID s.room_list ID := s.Rget_roomFID_setUsers ..

@[simp] theorem Rget_roomFID_removeUser (ID : Int) :
    LinkedList.Rget_roomFID (s.removeUser l a).room_list ID =
      LinkedList.Rget_roomFID s.room_list ID := s.Rget_roomFID_setUsers ..

theorem room_of_getElem? {s : Server} {r : RoomRef} {room : Room}
    (h : s.room_list[r]? = some room) : s.room r = room := by
  rw [Server.room, List.getD_eq_getElem?_getD, h, Option.getD_some]

theorem room_eq {s : Server} {r : RoomRef} (h : r < s.room_list.length) :
    s.room r = s.room_list[r] :=
  room_of_getElem? (List.getElem?_eq_getElem h)

/-- What is seen of all rooms is seen of one. -/
theorem room_congr {s s' : Server} {β : Type} {g : Room → β}
    (h : s'.room_list.map g = s.room_list.map g) (r : RoomRef) : g (s'.room r) = g (s.room r) := by
  rw [room, room, List.getD_eq_getElem?_getD, List.getD_eq_getElem?_getD, ← Option.getD_map g,
    ← Option.getD_map g, ← List.getElem?_map, ← List.getElem?_map, h]

@[simp] theorem room_setUsers_ID (r : RoomRef) : ((s.setUsers l x).room r).ID = (s.room r).ID :=
  room_congr (s.setUsers_rooms l x fun _ _ => rfl) r

/-- The list that was set. -/
theorem users_setUsers (h : ∀ r, l = .room r → r < s.room_list.length) :
    (s.setUsers l x).users l = x := by
  cases l with
  | registered => rfl
  | active => rfl
  | room r => simp [setUsers, users, members, room, h r rfl]

/-- The other lists. -/
theorem users_setUsers_ne {l' : ListRef} (h : l' ≠ l) : (s.setUsers l x).users l' = s.users l' := by
  cases l with
  | registered => cases l' with
    | registered => exact absurd rfl h
    | active => rfl
    | room r => rfl
  | active => cases l' with
    | registered => rfl
    | active => exact absurd rfl h
    | room r => rfl
  | room r => cases l' with
    | registered => rfl
    | active => rfl
    | room r' =>
      have hr : r ≠ r' := fun he => h (congrArg ListRef.room he.symm)
      simp [setUsers, users, members, room, hr]

/-- Putting back the list that is there. -/
@[simp] theorem setUsers_users : s.setUsers l (s.users l) = s := by
  cases l with
  | registered => rfl
  | active => rfl
  | room r =>
    have hrooms : s.room_list.modify r (fun room => { room with user_list := s.members r }) =
        s.room_list := by
      refine List.ext_getElem (List.length_modify ..) fun i hi hi' => ?_
      rw [List.getElem_modify]
      split
      · rename_i hri
        subst hri
        simp [members, room, hi']
      · rfl
    simp only [setUsers, users, hrooms]

/-- `insertUser` leaves a list that has the username alone. -/
theorem insertUser_of_isSome
    (h : (LinkedList.get_user s.heap (s.users l) (s.heap a).username).isSome) :
    s.insertUser l a = s := by
  rw [insertUser, LinkedList.insertUser, if_pos h, setUsers_users]

/-- Otherwise it is `insertNode`. -/
theorem insertUser_of_none
    (h : LinkedList.get_user s.heap (s.users l) (s.heap a).username = none) :
    s.insertUser l a = s.insertNode l a := by
  rw [insertUser, LinkedList.insertUser, h]
  rfl

@[simp] theorem modify_room_list : (s.modify a f).room_list = s.room_list := rfl

@[simp] theorem modify_users (l' : ListRef) : (s.modify a f).users l' = s.users l' := by
  cases l' <;> rfl

@[simp] theorem modify_heap_self : (s.modify a f).heap a = f (s.heap a) :=
  Function.update_self ..

theorem modify_heap_ne {b : Addr} (h : b ≠ a) : (s.modify a f).heap b = s.heap b :=
  Function.update_of_ne h ..

/-- What an update of a record keeps of it, it keeps of every record. -/
theorem modify_congr {β : Type} {g : User → β} {s : Server} {a : Addr} {f : User → User}
    (h : g (f (s.heap a)) = g (s.heap a)) (b : Addr) :
    g ((s.modify a f).heap b) = g (s.heap b) := by
  by_cases hb : b = a
  · rw [hb, modify_heap_self, h]
  · rw [modify_heap_ne _ _ _ hb]

end Server

/-- The atomic operations of the handlers. -/
inductive Op where
  | get_real_name (l : ListRef) (user : Str)
  | get_password (l : ListRef) (user : Str)
  | get_user (l : ListRef) (user : Str)
  | insertUser (l : ListRef) (a : Addr)
  | insertNode (l : ListRef) (a : Addr)
  | removeUser (l : ListRef) (a : Addr)
  | listLength (l : ListRef)
  | walk (l : ListRef)
  | malloc (u : User)
  /-- `free`, after which the record is as before (`Server.free`). -/
  | free (a : Addr)
  | load (a : Addr)
  | store (a : Addr) (off : Nat) (bs : List UInt8)
  | setSock (a : Addr) (fd : Int)
  | setRoomID (a : Addr) (ID : Int)
  | writeUserFile (fd : Int)
  | Rget_ID (name : Str)
  | Rget_name (ID : Int)
  | Rget_roomFID (ID : Int)
  | Rget_roomFNAME (name : Str)
  | loadRoom (r : RoomRef)
  | walkRooms
  | readNumRooms
  | incNumRooms
  | insertRoom (room : Room)
  | open_log (fd : Int)
  | close (fd : Int)
  | send (fd : Int) (p : Packet)
  | write (fd : Int) (line : Str)
  | fault (f : Fault)

/-- The type of an operation's answer. -/
def Op.Ar : Op → Type
  | .get_real_name _ _ => Str
  | .get_password _ _ => Option (List UInt8)
  | .get_user _ _ => Option Addr
  | .insertUser _ _ => Bool
  | .removeUser _ _ => Bool
  | .listLength _ => Nat
  | .walk _ => List Addr
  | .malloc _ => Addr
  | .load _ => User
  | .Rget_ID _ => Int
  | .Rget_name _ => Str
  | .Rget_roomFID _ => Option RoomRef
  | .Rget_roomFNAME _ => Option RoomRef
  | .loadRoom _ => Room
  | .walkRooms => List Room
  | .readNumRooms => Int
  | .insertRoom _ => Bool
  | .fault _ => Empty
  | _ => Unit

/-- What an operation does.  `writeUserFile` closes the descriptor it opens only
where the list is empty. -/
def Op.exec : (o : Op) → Server → Outcome Server Effect Fault o.Ar
  | .get_real_name l user, s => .ok (LinkedList.get_real_name s.heap (s.users l) user, s, [])
  | .get_password l user, s => .ok (LinkedList.get_password s.heap (s.users l) user, s, [])
  | .get_user l user, s => .ok (LinkedList.get_user s.heap (s.users l) user, s, [])
  | .insertUser l a, s =>
    .ok ((LinkedList.insertUser s.heap (s.users l) a).1, s.insertUser l a, [])
  | .insertNode l a, s => .ok ((), s.insertNode l a, [])
  | .removeUser l a, s =>
    .ok ((LinkedList.removeUser s.heap (s.users l) a).1, s.removeUser l a, [])
  | .listLength l, s => .ok ((s.users l).length, s, [])
  | .walk l, s => .ok (s.users l, s, [])
  | .malloc u, s => .ok (s.fresh, s.malloc u, [])
  | .free a, s => .ok ((), s.free a, [])
  | .load a, s => .ok (s.heap a, s, [])
  | .store a off bs, s => .ok ((), s.modify a (User.store off bs), [])
  | .setSock a fd, s => .ok ((), s.modify a (fun u => { u with sock := fd }), [])
  | .setRoomID a ID, s => .ok ((), s.modify a (fun u => { u with roomID := ID }), [])
  | .writeUserFile fd, s =>
    .ok ((), s.writeUserFile,
      if s.registered_users_list = [] then [.opened fd, .close fd] else [.opened fd])
  | .Rget_ID name, s => .ok (LinkedList.Rget_ID s.room_list name, s, [])
  | .Rget_name ID, s => .ok (LinkedList.Rget_name s.room_list ID, s, [])
  | .Rget_roomFID ID, s => .ok (LinkedList.Rget_roomFID s.room_list ID, s, [])
  | .Rget_roomFNAME name, s => .ok (LinkedList.Rget_roomFNAME s.room_list name, s, [])
  | .loadRoom r, s => .ok (s.room r, s, [])
  | .walkRooms, s => .ok (s.room_list, s, [])
  | .readNumRooms, s => .ok (s.numRooms, s, [])
  | .incNumRooms, s => .ok ((), { s with numRooms := s.numRooms + 1 }, [])
  | .insertRoom room, s =>
    .ok ((LinkedList.insertRoom s.room_list room).1, s.insertRoom room, [])
  | .open_log fd, s => .ok ((), s, [.opened fd])
  | .close fd, s => .ok ((), s, [.close fd])
  | .send fd p, s => .ok ((), s, [.send fd p])
  | .write fd line, s => .ok ((), s, [.logged fd line])
  | .fault f, _ => .error f

/-- The operations on the server's memory. -/
def ops : Semantics Op Op.Ar Server Effect Fault := ⟨Op.exec⟩

/-- A piece of a handler. -/
abbrev Handler := Prog Op Op.Ar

/-! ## The operations as programs -/

def perform (o : Op) : Handler o.Ar := .call o

abbrev get_real_name (l : ListRef) (user : Str) : Handler Str := perform (.get_real_name l user)
abbrev get_password (l : ListRef) (user : Str) : Handler (Option (List UInt8)) :=
  perform (.get_password l user)
abbrev get_user (l : ListRef) (user : Str) : Handler (Option Addr) := perform (.get_user l user)
abbrev insertUser (l : ListRef) (a : Addr) : Handler Bool := perform (.insertUser l a)
abbrev insertNode (l : ListRef) (a : Addr) : Handler Unit := perform (.insertNode l a)
abbrev removeUser (l : ListRef) (a : Addr) : Handler Bool := perform (.removeUser l a)
abbrev listLength (l : ListRef) : Handler Nat := perform (.listLength l)
abbrev walk (l : ListRef) : Handler (List Addr) := perform (.walk l)
abbrev malloc (u : User) : Handler Addr := perform (.malloc u)
abbrev free (a : Addr) : Handler Unit := perform (.free a)
abbrev load (a : Addr) : Handler User := perform (.load a)
abbrev store (a : Addr) (off : Nat) (bs : List UInt8) : Handler Unit := perform (.store a off bs)
abbrev setSock (a : Addr) (fd : Int) : Handler Unit := perform (.setSock a fd)
abbrev setRoomID (a : Addr) (ID : Int) : Handler Unit := perform (.setRoomID a ID)
abbrev writeUserFile (fd : Int) : Handler Unit := perform (.writeUserFile fd)
abbrev Rget_ID (name : Str) : Handler Int := perform (.Rget_ID name)
abbrev Rget_name (ID : Int) : Handler Str := perform (.Rget_name ID)
abbrev Rget_roomFID (ID : Int) : Handler (Option RoomRef) := perform (.Rget_roomFID ID)
abbrev Rget_roomFNAME (name : Str) : Handler (Option RoomRef) := perform (.Rget_roomFNAME name)
abbrev loadRoom (r : RoomRef) : Handler Room := perform (.loadRoom r)
abbrev walkRooms : Handler (List Room) := perform .walkRooms
abbrev readNumRooms : Handler Int := perform .readNumRooms
abbrev incNumRooms : Handler Unit := perform .incNumRooms
abbrev insertRoom (room : Room) : Handler Bool := perform (.insertRoom room)
abbrev open_log (fd : Int) : Handler Unit := perform (.open_log fd)
abbrev close (fd : Int) : Handler Unit := perform (.close fd)
abbrev send (fd : Int) (p : Packet) : Handler Unit := perform (.send fd p)
abbrev write (fd : Int) (line : Str) : Handler Unit := perform (.write fd line)

/-- The handler goes no further. -/
def fault {α : Type} (f : Fault) : Handler α := .act (.fault f) (fun e => nomatch (e : Empty))

end TBDChat
