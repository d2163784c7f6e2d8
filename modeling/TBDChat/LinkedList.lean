import TBDChat.Lib.Keyed
import TBDChat.Text

/-!
# The lists of `linked_list.c`

Records, rooms and the functions over the three kinds of list, as functions on
sequences: a list is the sequence of the addresses its nodes point to, in order,
and the records themselves are in a heap that the lists share.  The lists find a
record by the string at the head of its memory, so a lookup depends on the heap
as well as on the list.

A `User` is kept as it lies in memory: the three arrays `username[64]`,
`real_name[64]` and `password[64]` are one run of 192 bytes, and the string of a
field is read up to the first NUL wherever that is.  Between two handlers every
mutex is unlocked, and the first byte of an unlocked mutex, which follows
`name[16]` in a `Room`, is zero: a room's name is a string of at most 16
characters.
-/

namespace TBDChat
open Bytes

abbrev Addr := Nat

/-- A room pointer: the position of the room in `room_list`, from which rooms
are never removed. -/
abbrev RoomRef := Nat

/-- `n` in `k` bytes, the lowest first. -/
def le : Nat → Nat → List UInt8
  | 0, _ => []
  | k + 1, n => (n % 256).toUInt8 :: le k (n / 256)

@[simp] theorem length_le (k n : Nat) : (le k n).length = k := by
  induction k generalizing n with
  | zero => rfl
  | succ k ih => rw [le, List.length_cons, ih]

/-- The number in the given bytes, the lowest first. -/
def ofLe (bs : List UInt8) : Nat := bs.foldr (fun b n => b.toNat + 256 * n) 0

/-- An `int` in memory. -/
def leInt (n : Int) : List UInt8 := le 4 (n % 2 ^ 32).toNat

/-- `struct user`. -/
structure User where
  /-- `username`, `real_name` and `password`, one after the other. -/
  chars : List UInt8
  sock : Int
  roomID : Int
  next : Nat
  size : chars.length = 192

namespace User

/-- The record as it lies in memory, `sizeof(User)` bytes. -/
def mem (u : User) : List UInt8 := u.chars ++ (leInt u.sock ++ (leInt u.roomID ++ le 8 u.next))

/-- The string at `user->username`. -/
def username (u : User) : Str := cstr u.mem

/-- The string at `user->real_name`. -/
def real_name (u : User) : Str := cstr (u.mem.drop 64)

/-- The 64 bytes of `user->password`. -/
def password (u : User) : List UInt8 := u.chars.drop 128

/-- The bytes `comparePasswords` looks at. -/
def hash (u : User) : List UInt8 := u.password.take 32

/-- The record with `bs` written at offset `off` of the three arrays. -/
def store (off : Nat) (bs : List UInt8) (u : User) : User :=
  { u with chars := poke off bs u.chars, size := by rw [length_poke, u.size] }

/-- A record as `read` brings it in. -/
def ofMem (bs : List UInt8) : User where
  chars := pad 192 bs
  sock := wrap32 (ofLe ((bs.drop 192).take 4))
  roomID := wrap32 (ofLe ((bs.drop 196).take 4))
  next := ofLe ((bs.drop 200).take 8)
  size := length_pad 192 bs

instance : Inhabited User := ⟨ofMem []⟩

@[simp] theorem length_mem (u : User) : u.mem.length = 208 := by
  simp [mem, leInt, u.size]

theorem take_mem {n : Nat} (h : n ≤ 192) (u : User) : u.mem.take n = u.chars.take n := by
  rw [mem, List.take_append_of_le_length (by rw [u.size]; exact h)]

/-- What comes before the string's end decides a username. -/
theorem username_eq_of_take {u v : User} {n : Nat} (hn : n ≤ 192) (h : u.username.length < n)
    (ht : v.chars.take n = u.chars.take n) : v.username = u.username :=
  cstr_eq_of_take_eq h (by rw [take_mem hn, take_mem hn, ht])

/-- A username that ends inside its array is not touched by writes to the other
two. -/
theorem username_store {off : Nat} {bs : List UInt8} {u : User} (h : u.username.length < 64)
    (hoff : 64 ≤ off) : (u.store off bs).username = u.username :=
  username_eq_of_take (by decide) h (take_poke hoff)

/-- A username that ends inside the three arrays does not depend on the fields
behind them. -/
theorem username_sock {u : User} (h : u.username.length < 192) (fd : Int) :
    { u with sock := fd }.username = u.username :=
  username_eq_of_take (Nat.le_refl _) h rfl

theorem username_roomID {u : User} (h : u.username.length < 192) (id : Int) :
    { u with roomID := id }.username = u.username :=
  username_eq_of_take (Nat.le_refl _) h rfl

@[simp] theorem store_sock (off : Nat) (bs : List UInt8) (u : User) :
    (u.store off bs).sock = u.sock := rfl

@[simp] theorem store_roomID (off : Nat) (bs : List UInt8) (u : User) :
    (u.store off bs).roomID = u.roomID := rfl

/-- Writes in front of the password leave it alone. -/
theorem password_store {off : Nat} {bs : List UInt8} {u : User} (h : off + bs.length ≤ 128) :
    (u.store off bs).password = u.password := drop_poke h

end User

/-- `struct room`. -/
structure Room where
  ID : Int
  fd : Int
  name : Str
  user_list : List Addr
  deriving DecidableEq

/-- The in-band failure value of `get_real_name` and `Rget_name`. -/
def ERROR : Str := str "ERROR"

namespace LinkedList

/-! ## User lists -/

section Users
variable (heap : Addr → User)

def get_user (l : List Addr) (user : Str) : Option Addr :=
  l.find? (fun a => (heap a).username = user)

def get_real_name (l : List Addr) (user : Str) : Str :=
  match get_user heap l user with
  | some a => (heap a).real_name
  | none => ERROR

def get_password (l : List Addr) (user : Str) : Option (List UInt8) :=
  (get_user heap l user).map (fun a => (heap a).password)

/-- `insertUser`, which refuses a username that is in the list. -/
def insertUser (l : List Addr) (a : Addr) : Bool × List Addr :=
  if (get_user heap l (heap a).username).isSome then (false, l) else (true, l ++ [a])

/-- `insertNode`, which looks at nothing. -/
def insertNode (l : List Addr) (a : Addr) : List Addr := l ++ [a]

/-- `removeUser`, which unlinks the first node whose record has the username of
`a`. -/
def removeUser (l : List Addr) (a : Addr) : Bool × List Addr :=
  ((get_user heap l (heap a).username).isSome,
    l.eraseP (fun b => (heap b).username = (heap a).username))

end Users

/-! ## The room list -/

def Rget_ID (rooms : List Room) (name : Str) : Int :=
  match rooms.find? (fun r => r.name = name) with
  | some r => r.ID
  | none => -1

def Rget_name (rooms : List Room) (ID : Int) : Str :=
  match rooms.find? (fun r => r.ID = ID) with
  | some r => r.name
  | none => ERROR

def Rget_roomFID (rooms : List Room) (ID : Int) : Option RoomRef :=
  rooms.findIdx? (fun r => r.ID = ID)

def Rget_roomFNAME (rooms : List Room) (name : Str) : Option RoomRef :=
  rooms.findIdx? (fun r => r.name = name)

def insertRoom (rooms : List Room) (room : Room) : Bool × List Room :=
  if rooms.any (fun r => r.name = room.name || r.ID = room.ID) then (false, rooms)
  else (true, rooms ++ [room])

/-! ## The user file -/

/-- The records `readUserFile` makes of the content of the file, `none` where
there is no file: as many as fit into its size, with the room number reset. -/
def readUserFile (file : Option (List UInt8)) : List User :=
  (blocks 208 (file.getD [])).map (fun bs => { User.ofMem bs with roomID := -1 })

/-- The content of the file after `writeUserFile`: the records written over it
from its start.  The file is created where there is none and never cut. -/
def writeUserFile (users : List User) (file : Option (List UInt8)) : Option (List UInt8) :=
  some (overwrite (users.map User.mem).flatten (file.getD []))

section Facts
variable {heap : Addr → User} {l : List Addr} {user : Str} {a : Addr}

theorem get_user_some (h : get_user heap l user = some a) :
    a ∈ l ∧ (heap a).username = user :=
  ⟨List.mem_of_find?_eq_some h, by simpa using List.find?_some h⟩

theorem get_user_none : get_user heap l user = none ↔ ∀ a ∈ l, (heap a).username ≠ user := by
  simp [get_user]

/-- A lookup sees only the usernames of the records in the list. -/
theorem get_user_congr {heap' : Addr → User}
    (h : ∀ a ∈ l, (heap' a).username = (heap a).username) :
    get_user heap' l user = get_user heap l user := by
  induction l with
  | nil => rfl
  | cons b l ih =>
    have hb := h b List.mem_cons_self
    simp only [get_user, List.find?_cons, hb]
    split
    · rfl
    · exact ih (fun a ha => h a (List.mem_cons_of_mem _ ha))

/-- Where usernames are distinct, a lookup finds the record it is asked for. -/
theorem get_user_of_mem (hd : l.Pairwise (fun a b => (heap a).username ≠ (heap b).username))
    (ha : a ∈ l) : get_user heap l (heap a).username = some a :=
  Keyed.find?_of_mem (List.pairwise_map.mpr hd) ha

/-- Where usernames are distinct, removing a listed record removes just it. -/
theorem removeUser_snd (hd : l.Pairwise (fun a b => (heap a).username ≠ (heap b).username))
    (ha : a ∈ l) : (removeUser heap l a).2 = l.erase a := by
  induction l with
  | nil => cases ha
  | cons b l ih =>
    obtain ⟨hb, hd⟩ := List.pairwise_cons.mp hd
    rcases List.mem_cons.mp ha with rfl | ha
    · simp [removeUser]
    · have hne : (heap b).username ≠ (heap a).username := hb a ha
      -- the record in front has another username, so it is another record
      have hba : b ≠ a := fun he => hne (he ▸ rfl)
      have hrec := ih hd ha
      simp only [removeUser] at hrec ⊢
      rw [List.eraseP_cons_of_neg (by simpa using hne), hrec,
        List.erase_cons_tail (by simpa using hba)]

theorem mem_insertUser {b : Addr} (h : b ∈ (insertUser heap l a).2) : b ∈ l ∨ b = a := by
  unfold insertUser at h
  split at h
  · exact .inl h
  · simpa using h

theorem prefix_insertUser : l <+: (insertUser heap l a).2 := by
  unfold insertUser
  split
  · exact List.prefix_refl l
  · exact List.prefix_append l [a]

/-- A record whose username is not in the list may be added to it. -/
theorem distinct_insertNode (hd : l.Pairwise (fun a b => (heap a).username ≠ (heap b).username))
    (hnew : get_user heap l (heap a).username = none) :
    (insertNode l a).Pairwise (fun a b => (heap a).username ≠ (heap b).username) := by
  refine List.pairwise_append.mpr ⟨hd, List.pairwise_singleton _ _, ?_⟩
  intro b hb c hc
  rw [List.mem_singleton.mp hc]
  exact get_user_none.mp hnew b hb

/-- `insertUser` makes no second entry of a username. -/
theorem insertUser_distinct (hd : l.Pairwise (fun a b => (heap a).username ≠ (heap b).username)) :
    (insertUser heap l a).2.Pairwise (fun a b => (heap a).username ≠ (heap b).username) := by
  unfold insertUser
  split
  · exact hd
  · rename_i hnew
    exact distinct_insertNode hd (Option.not_isSome_iff_eq_none.mp hnew)

theorem removeUser_sublist : (removeUser heap l a).2.Sublist l := List.eraseP_sublist

end Facts

section RoomFacts
variable {rooms rooms' : List Room} {ID : Int} {name : Str} {r : RoomRef}

/-- The lookup by number sees only the numbers. -/
theorem Rget_roomFID_congr (h : rooms'.map Room.ID = rooms.map Room.ID) :
    Rget_roomFID rooms' ID = Rget_roomFID rooms ID := by
  have hmap (l : List Room) : Rget_roomFID l ID = (l.map Room.ID).findIdx? (fun n => n = ID) := by
    rw [List.findIdx?_map]
    rfl
  rw [hmap, hmap, h]

theorem Rget_roomFID_some (h : Rget_roomFID rooms ID = some r) :
    ∃ room, rooms[r]? = some room ∧ room.ID = ID := by
  obtain ⟨hr, hid, -⟩ := List.findIdx?_eq_some_iff_getElem.mp h
  exact ⟨rooms[r], List.getElem?_eq_getElem hr, of_decide_eq_true hid⟩

theorem Rget_roomFID_none : Rget_roomFID rooms ID = none ↔ ∀ room ∈ rooms, room.ID ≠ ID := by
  simp [Rget_roomFID]

theorem Rget_roomFNAME_some (h : Rget_roomFNAME rooms name = some r) :
    ∃ room, rooms[r]? = some room ∧ room.name = name := by
  obtain ⟨hr, hname, -⟩ := List.findIdx?_eq_some_iff_getElem.mp h
  exact ⟨rooms[r], List.getElem?_eq_getElem hr, of_decide_eq_true hname⟩

theorem Rget_roomFNAME_none :
    Rget_roomFNAME rooms name = none ↔ ∀ room ∈ rooms, room.name ≠ name := by
  simp [Rget_roomFNAME]

/-- Where room numbers are distinct, a lookup by number finds the room. -/
theorem Rget_roomFID_of_getElem? {room : Room} (hd : (rooms.map Room.ID).Nodup)
    (h : rooms[r]? = some room) : Rget_roomFID rooms room.ID = some r :=
  (Keyed.findIdx?_eq_some hd).mpr ⟨room, h, rfl⟩

end RoomFacts
end LinkedList
end TBDChat
