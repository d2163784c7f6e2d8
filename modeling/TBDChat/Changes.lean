import TBDChat.Receive
import Mathlib.Logic.Relation

/-!
# The changes of the memory, and what they leave alone

Whatever a packet does to the server's memory is a sequence of the changes listed
in `Change`, each made under one username: the claimed sender of a request, or
the name that a login or a registration is for.  An invariant of the memory alone
need only be kept by each of them (`ReachableFrom.induct`).

The name under which a record is found is what protects it.  A record that is
found by a name of less than 64 characters has its username inside `username[64]`,
and no later write reaches that far down; a record found by a word of a packet
has it inside the three arrays, and the fields behind them do not matter to it.
-/

namespace TBDChat
open Atomic

/-! ## A packet as a sequence of changes -/

/-- The changes of the memory that a handler makes under the username `who`. -/
inductive Change (who : Str) (s : Server) : Server → Prop
  | enrol (u : User) : Change who s (s.enrol u)
  | free (a : Addr) : Change who s (s.free a)
  | signIn {a : Addr} {fd : Int} {r : RoomRef} (hwho : who.length < 192)
      (ha : LinkedList.get_user s.heap s.registered_users_list who = some a)
      (hact : LinkedList.get_user s.heap s.active_users_list who = none)
      (hr : LinkedList.Rget_roomFID s.room_list DEFAULT_ROOM = some r) :
      Change who s (s.signIn a fd r)
  | openRoom {fd : Int} {name : Str} (hname : name.length ≤ ROOMNAME_LENGTH) :
      Change who s (s.openRoom fd name)
  | move {a : Addr} {r r' : RoomRef} {ID : Int} (hwho : who.length < 192)
      (hr : r < s.room_list.length) (hr' : r' < s.room_list.length) (hID : ID = (s.room r').ID)
      (ha : LinkedList.get_user s.heap (s.members r) who = some a) :
      Change who s (s.move a r r' ID)
  | rename {a : Addr} {name : Str} (hwho : who.length < 64)
      (ha : LinkedList.get_user s.heap s.registered_users_list who = some a) :
      Change who s (s.rename a name)
  | setPassword {a : Addr} {hash : Digest} (hwho : who.length < 64)
      (ha : LinkedList.get_user s.heap s.registered_users_list who = some a) :
      Change who s (s.setPassword a hash)
  | signOut {a : Addr} {r : RoomRef}
      (ha : LinkedList.get_user s.heap s.active_users_list who = some a)
      (hr : LinkedList.Rget_roomFID s.room_list (s.heap a).roomID = some r) :
      Change who s (s.signOut a r)

/-- A sequence of changes under one name. -/
abbrev Changes (who : Str) : Server → Server → Prop := Relation.ReflTransGen (Change who)

/-- The name under which a packet is handled. -/
def actor (session : Option Str) (p : Packet) : Str :=
  match session with
  | none => loginName p
  | some _ => p.username

section Packets
variable {sha256 : Str → Digest} {env : Env} {p : Packet} {fd : Int} {s s' : Server}

/-- The words of a packet are shorter than its text. -/
theorem Packet.Wf.arg_length (hp : p.Wf) (i : Nat) : (arg (words p.buf) i).length ≤ 127 := by
  by_cases hi : i < (words p.buf).length
  · have hmem : arg (words p.buf) i ∈ words p.buf := by simp [arg, hi]
    exact Nat.le_trans (mem_words hmem).1 hp.buf.1
  · simp [arg, List.getElem?_eq_none (Nat.le_of_not_lt hi)]

theorem Server.account_some {user : Str} {a : Addr} (h : s.account user = some a) :
    LinkedList.get_user s.heap s.registered_users_list user = some a := by
  unfold Server.account at h
  split at h
  · split at h
    · cases h
    · rwa [← h]
  · cases h

theorem Rget_roomFID_lt {rooms : List Room} {ID : Int} {r : RoomRef}
    (h : LinkedList.Rget_roomFID rooms ID = some r) : r < rooms.length := by
  obtain ⟨room, hroom, -⟩ := LinkedList.Rget_roomFID_some h
  exact (List.getElem?_eq_some_iff.mp hroom).1

theorem Server.room_of_Rget_roomFID {ID : Int} {r : RoomRef}
    (h : LinkedList.Rget_roomFID s.room_list ID = some r) : (s.room r).ID = ID := by
  obtain ⟨room, hroom, hID⟩ := LinkedList.Rget_roomFID_some h
  rw [Server.room_of_getElem? hroom, hID]

theorem Login.changes {user pass : Str} {b : Bool} {es : List Effect} (hu : user.length < 192)
    (h : Login sha256 env user pass fd s b s' es) : Changes user s s' := by
  cases h with
  | refused => exact .refl
  | discarded => exact .single (.free _)
  | signedIn ha hp hact hr => exact .single (.signIn hu (Server.account_some ha) hact hr)

/-- **A packet is a sequence of changes** under the name it is handled under. -/
theorem Received.changes {session : Option Str} {next : Next} {es : List Effect} (hp : p.Wf)
    (h : Received sha256 env p fd s session next s' es) : Changes (actor session p) s s' := by
  have hlogin : (loginName p).length < 192 := Nat.lt_of_le_of_lt (hp.arg_length 1) (by decide)
  have huser : p.username.length < 64 := Nat.lt_succ_of_le hp.username.1
  have huser' : p.username.length < 192 := by omega
  cases h with
  | refused | hungUp | answered | chat | vanished => exact .refl
  | login _ _ hl => exact hl.changes hlogin
  | register _ hl => exact .head (.enrol _) (hl.changes hlogin)
  | renamed _ _ ha _ => exact .single (.rename huser ha)
  | passwordSet hc => exact .single (.setPassword huser hc.user)
  | opened hj _ => exact .single (.openRoom (acceptsName_iff.mp hj.name).2.2)
  | joined hj hs₁ hr ha hr' _ hs₂ =>
    -- a JOIN makes sure of the room and then moves the user: two changes
    subst hs₁ hs₂
    obtain ⟨room, hroom, -⟩ := LinkedList.Rget_roomFNAME_some hr'
    exact .head (.openRoom (acceptsName_iff.mp hj.name).2.2) (.single
      (.move huser' (Rget_roomFID_lt hr) (List.getElem?_eq_some_iff.mp hroom).1 rfl ha))
  | left _ _ _ hr ha hd hs' _ =>
    subst hs'
    exact .single (.move huser' (Rget_roomFID_lt hr) (Rget_roomFID_lt hd)
      (Server.room_of_Rget_roomFID hd).symm ha)
  | signedOut _ ha hr => exact .single (.signOut ha hr)

/-- **An invariant of the memory** holds in every state reached if it holds at
the start and each change keeps it. -/
theorem ReachableFrom.induct {I : Server → Prop} {w₀ w : World} (hw : ReachableFrom sha256 w₀ w)
    (hstart : I w₀.server) (hchange : ∀ who s s', I s → Change who s s' → I s') : I w.server := by
  have hchanges {who : Str} {s s' : Server} (hi : I s) (h : Changes who s s') : I s' := by
    induction h with
    | refl => exact hi
    | tail _ hc ih => exact hchange _ _ _ ih hc
  induction hw with
  | start => exact hstart
  | step _ hs ih =>
    cases hs with
    | accept => exact ih
    | packet _ hp hrun => exact hchanges ih ((received hrun).changes hp)

theorem Reachable.induct {I : Server → Prop} {w : World} (hw : Reachable sha256 w)
    (hboot : ∀ file fd, I (Server.boot file fd))
    (hchange : ∀ who s s', I s → Change who s s' → I s') : I w.server := by
  obtain ⟨file, fd, h⟩ := hw
  exact h.induct (hboot file fd) hchange

end Packets

/-! ## What the changes leave alone -/

namespace Server
variable (s : Server) {a : Addr}

theorem enrol_heap (u : User) : (s.enrol u).heap = Function.update s.heap s.fresh u := rfl

theorem enrol_heap_new (u : User) : (s.enrol u).heap s.fresh = u := by
  rw [enrol_heap, Function.update_self]

theorem enrol_heap_old {s : Server} {u : User} (ha : a < s.fresh) :
    (s.enrol u).heap a = s.heap a := by
  rw [enrol_heap, Function.update_of_ne (Nat.ne_of_lt ha)]

theorem enrol_list (u : User) : (s.enrol u).registered_users_list =
    (LinkedList.insertUser (s.enrol u).heap s.registered_users_list s.fresh).2 := rfl

/-- Making sure of a room touches nothing but the room table. -/
theorem openRoom_eq (fd : Int) (name : Str) :
    ∃ rooms n, s.openRoom fd name = { s with room_list := rooms, numRooms := n } := by
  unfold openRoom
  split
  · exact ⟨_, _, rfl⟩
  · exact ⟨s.room_list, s.numRooms, rfl⟩

theorem openRoom_heap (fd : Int) (name : Str) : (s.openRoom fd name).heap = s.heap := by
  obtain ⟨rooms, n, h⟩ := s.openRoom_eq fd name
  rw [h]

theorem signOut_heap (a : Addr) (r : RoomRef) : (s.signOut a r).heap = s.heap := by
  simp [signOut, removeUser]

/-- What `sock` and `roomID` do not matter to, a login keeps. -/
theorem signIn_congr {β : Type} {g : User → β} (hsock : ∀ u fd, g { u with sock := fd } = g u)
    (hroom : ∀ u ID, g { u with roomID := ID } = g u) (a : Addr) (fd : Int) (r : RoomRef)
    (b : Addr) : g ((s.signIn a fd r).heap b) = g (s.heap b) := by
  rw [signIn, insertNode, setUsers_heap, modify_congr (g := g) (hroom _ _),
    modify_congr (g := g) (hsock _ _), insertUser, setUsers_heap]

theorem move_congr {β : Type} {g : User → β} (hroom : ∀ u ID, g { u with roomID := ID } = g u)
    (a : Addr) (r r' : RoomRef) (ID : Int) (b : Addr) :
    g ((s.move a r r' ID).heap b) = g (s.heap b) := by
  rw [Server.move, insertUser, setUsers_heap, modify_congr (g := g) (hroom _ _), removeUser,
    setUsers_heap]

/-- What `setSock` and `setRoomID` see of a record keeps its username, if that
ends inside the arrays. -/
theorem username_signIn (h : (s.heap a).username.length < 192) (fd : Int) (r : RoomRef)
    (b : Addr) : ((s.signIn a fd r).heap b).username = (s.heap b).username := by
  have hheap : (s.insertUser .active a).heap = s.heap := setUsers_heap ..
  have hsock (b : Addr) : (((s.insertUser .active a).modify a
      (fun u => { u with sock := fd })).heap b).username = (s.heap b).username := by
    rw [modify_congr (g := User.username) (by rw [hheap]; exact User.username_sock h fd), hheap]
  rw [signIn, insertNode, setUsers_heap, modify_congr (g := User.username) ?_, hsock]
  exact User.username_roomID (by rw [hsock]; exact h) 1000

theorem username_move (h : (s.heap a).username.length < 192) (r r' : RoomRef) (ID : Int)
    (b : Addr) : ((s.move a r r' ID).heap b).username = (s.heap b).username := by
  have hheap : (s.removeUser (.room r) a).heap = s.heap := setUsers_heap ..
  rw [move, insertUser, setUsers_heap,
    modify_congr (g := User.username) (by rw [hheap]; exact User.username_roomID h ID), hheap]

/-- Two writes behind the username keep it. -/
theorem username_store₂ (h : (s.heap a).username.length < 64) {off : Nat} (hoff : 64 ≤ off)
    (bs bs' : List UInt8) (b : Addr) :
    (((s.modify a (User.store off bs)).modify a (User.store off bs')).heap b).username =
      (s.heap b).username := by
  have hfst := modify_congr (g := User.username) (@User.username_store off bs (s.heap a) h hoff)
  refine Eq.trans (modify_congr (User.username_store ?_ hoff) b) (hfst b)
  rw [hfst a]
  exact h

theorem username_rename (h : (s.heap a).username.length < 64) (name : Str) (b : Addr) :
    ((s.rename a name).heap b).username = (s.heap b).username :=
  s.username_store₂ h (Nat.le_refl 64) _ _ b

theorem username_setPassword (h : (s.heap a).username.length < 64) (hash : Digest) (b : Addr) :
    ((s.setPassword a hash).heap b).username = (s.heap b).username :=
  s.username_store₂ h (by decide) _ _ b

end Server

section Frames
variable {who : Str} {s s' : Server}

/-- **Usernames never change.** -/
theorem Change.username (h : Change who s s') {b : Addr} (hb : b < s.fresh) :
    (s'.heap b).username = (s.heap b).username := by
  cases h with
  | enrol u =>
    rw [Server.enrol_heap_old hb]
  | free => rfl
  | signIn hwho ha _ _ => exact s.username_signIn (by rwa [(LinkedList.get_user_some ha).2]) _ _ b
  | openRoom => rw [Server.openRoom_heap]
  | move hwho _ _ _ ha =>
    exact s.username_move (by rwa [(LinkedList.get_user_some ha).2]) _ _ _ b
  | rename hwho ha => exact s.username_rename (by rwa [(LinkedList.get_user_some ha).2]) _ b
  | setPassword hwho ha =>
    exact s.username_setPassword (by rwa [(LinkedList.get_user_some ha).2]) _ b
  | signOut => rw [Server.signOut_heap]

end Frames
end TBDChat
