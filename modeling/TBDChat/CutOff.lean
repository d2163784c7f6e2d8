import TBDChat.Lib.Passes
import TBDChat.ServiceRuns
import TBDChat.UsernameRaces

/-!
# A server that is killed at its work

The process may come to its end within a request: somebody kills it, or a handler dereferences a
NULL.  What is left is the user file.  A request writes that at most once, with one `write` for
each record, and goes on to touch nothing that is in it; a write changes one record or has one
more.  So whatever the request had come to, a restart finds the accounts from before it or those
from after it.
-/

namespace TBDChat
open Atomic Bytes ChatService

set_option maxRecDepth 8000

/-! ## What concerns the file -/

/-- The file, the list of registered users and their arrays are the same. -/
structure Server.SameRecords (s s' : Server) : Prop where
  file : s'.users_file = s.users_file
  registered : s'.registered_users_list = s.registered_users_list
  chars : ∀ a, (s'.heap a).chars = (s.heap a).chars

/-- `writeUserFile`, which alone writes to the file. -/
def Op.Writes : Op → Prop
  | .writeUserFile _ => True
  | _ => False

/-- The operations that concern no registered user. -/
def Op.Spares : Op → Prop
  | .insertUser l _ | .insertNode l _ | .removeUser l _ => l ≠ .registered
  | .malloc _ | .store _ _ _ | .writeUserFile _ => False
  | _ => True

namespace Server
variable {s s' s'' : Server}

theorem SameRecords.refl (s : Server) : s.SameRecords s := ⟨rfl, rfl, fun _ => rfl⟩

theorem SameRecords.trans (h : s.SameRecords s') (h' : s'.SameRecords s'') : s.SameRecords s'' :=
  ⟨h'.file.trans h.file, h'.registered.trans h.registered,
    fun a => (h'.chars a).trans (h.chars a)⟩

theorem SameRecords.setUsers {l : ListRef} (hl : l ≠ .registered) (x : List Addr) :
    s.SameRecords (s.setUsers l x) := by
  refine ⟨s.setUsers_users_file l x, ?_, fun a => by rw [s.setUsers_heap l x]⟩
  cases l with
  | registered => exact absurd rfl hl
  | active => rfl
  | room r => rfl

theorem SameRecords.modify {a : Addr} {f : User → User} (hf : ∀ u, (f u).chars = u.chars) :
    s.SameRecords (s.modify a f) := ⟨rfl, rfl, modify_congr (hf _)⟩

/-- The arrays of the registered users, in order. -/
theorem SameRecords.map_chars (h : s.SameRecords s') :
    s'.registered.map User.chars = s.registered.map User.chars := by
  rw [Server.registered, Server.registered, h.registered, List.map_map, List.map_map]
  exact List.map_congr_left fun a _ => h.chars a

end Server

section Operations
variable {o : Op} {s s' : Server} {b : o.Ar} {es : List Effect}

theorem Op.Spares.keeps (ho : o.Spares) (h : ops.exec o s = .ok (b, s', es)) :
    s.SameRecords s' := by
  cases o with
  | insertUser l a | insertNode l a | removeUser l a =>
    cases h
    exact .setUsers ho _
  | setSock a fd | setRoomID a ID =>
    cases h
    exact .modify fun _ => rfl
  | malloc | store | writeUserFile => cases ho
  | free | incNumRooms | insertRoom =>
    cases h
    exact ⟨rfl, rfl, fun _ => rfl⟩
  | fault f => cases h
  | _ =>
    cases h
    exact .refl s

theorem Op.Spares.not_writes (ho : o.Spares) : ¬ o.Writes := by
  cases o with
  | writeUserFile => cases ho
  | _ => exact id

/-- No other operation writes to the file. -/
theorem Op.file_of_not_writes (ho : ¬ o.Writes) (h : ops.exec o s = .ok (b, s', es)) :
    s'.users_file = s.users_file := by
  cases o with
  | insertUser | insertNode | removeUser =>
    cases h
    exact s.setUsers_users_file _ _
  | writeUserFile => exact absurd trivial ho
  | fault f => cases h
  | _ =>
    cases h
    rfl

end Operations

/-! ## The handlers -/

section Handlers
variable {α β : Type} {sha256 : Str → Digest} {env : Env} {pkt : Packet} {fd : Int}

/-- A program that does nothing about the registered users. -/
abbrev Sparing {α : Type} (p : Handler α) : Prop := p.Uses Op.Spares

/-- A program that writes the file at most once, and then leaves what is in it alone. -/
abbrev WritesOnce {α : Type} (p : Handler α) : Prop :=
  p.UsesThen (fun o => ¬ o.Writes) Op.Writes Op.Spares

theorem sparing_fault (f : Fault) : Sparing (fault f : Handler α) :=
  ⟨trivial, fun e => nomatch (e : Empty)⟩

theorem sparing_send {q : Packet} : Sparing (send fd q) := ⟨trivial, fun _ => trivial⟩

theorem sparing_refusal {error : Str} {b : α} :
    Sparing (do sendError env error fd; pure b) := .call_bind trivial fun _ => trivial

theorem sparing_ite {c : Prop} [Decidable c] {p q : Handler α} (hp : Sparing p)
    (hq : Sparing q) : Sparing (if c then p else q) := by
  split
  · exact hp
  · exact hq

theorem sparing_validName {invalid short long : String} {limit : Nat} {name : Str} :
    Sparing (validName env invalid short long limit name fd) :=
  sparing_ite sparing_refusal (sparing_ite sparing_refusal (sparing_ite sparing_refusal trivial))

theorem sparing_validPassword {pass1 pass2 : Str} :
    Sparing (validPassword env pass1 pass2 fd) :=
  sparing_ite sparing_refusal (sparing_ite sparing_refusal (sparing_ite sparing_refusal trivial))

theorem sparing_splitArgs {buf : Str} : Sparing (splitArgs buf) :=
  sparing_ite trivial (sparing_fault _)

theorem sparing_comparePasswords {password : Option (List UInt8)} {hash : Digest} :
    Sparing (comparePasswords password hash) := by
  cases password with
  | none => exact sparing_fault _
  | some password => trivial

theorem sparing_send_message : Sparing (send_message env pkt fd) := by
  refine send_message_talks.mono fun o ho => ?_
  cases o with
  | Rget_roomFID | loadRoom | walk | load | send | write | fault => trivial
  | _ => cases ho

theorem sparing_login : Sparing (login sha256 env pkt fd) := by
  refine sparing_splitArgs.bind fun args => sparing_ite ?_ trivial
  refine .call_bind trivial fun (realname : Str) => sparing_ite sparing_refusal ?_
  refine .call_bind trivial fun password => sparing_comparePasswords.bind fun b => ?_
  refine sparing_ite sparing_refusal (.call_bind trivial fun user => ?_)
  cases user with
  | none => exact sparing_fault _
  | some user =>
    refine .call_bind nofun fun (b : Bool) => sparing_ite ?_ ?_
    · refine .call_bind trivial fun _ => .call_bind trivial fun _ => .call_bind trivial fun r => ?_
      cases r with
      | none => exact sparing_fault _
      | some r =>
        refine .call_bind nofun fun _ => .call_bind trivial fun _ => .call_bind trivial fun _ => ?_
        exact .call_bind trivial fun _ => sparing_send_message.bind fun _ =>
          sparing_send.bind fun _ => trivial
    · exact .call_bind trivial fun _ => .call_bind trivial fun _ => trivial

theorem sparing_invite : Sparing (invite env pkt fd) := by
  refine sparing_splitArgs.bind fun args => sparing_ite ?_ sparing_send
  refine .call_bind trivial fun room => ?_
  cases room with
  | none => exact sparing_send
  | some room =>
    refine .call_bind trivial fun inviteUser => ?_
    cases inviteUser with
    | none => exact sparing_send
    | some inviteUser =>
      exact .call_bind trivial fun _ => .call_bind trivial fun _ => .call_bind trivial fun _ =>
        sparing_send

theorem sparing_changeRoom {args : List Str} : Sparing (changeRoom env pkt fd args) := by
  refine .call_bind trivial fun newRoom => .call_bind trivial fun currentRoom => ?_
  cases currentRoom with
  | none => trivial
  | some currentRoom =>
    refine .call_bind trivial fun currUser => ?_
    cases currUser with
    | none => exact sparing_fault _
    | some currUser =>
      refine .call_bind nofun fun _ => ?_
      cases newRoom with
      | none => exact sparing_fault _
      | some newRoom =>
        refine .call_bind trivial fun _ => .call_bind trivial fun _ => .call_bind nofun fun _ => ?_
        exact .call_bind trivial fun _ => .call_bind trivial fun _ =>
          sparing_send_message.bind fun _ => sparing_send_message

theorem sparing_createRoom {ID : Int} {name : Str} : Sparing (createRoom env ID name) :=
  .call_bind trivial fun _ => .call_bind trivial fun _ => ⟨trivial, fun _ => trivial⟩

theorem sparing_join : Sparing (join env pkt fd) := by
  refine sparing_splitArgs.bind fun args => ?_
  dsimp only
  split
  · refine sparing_validName.bind fun valid => sparing_ite (.call_bind trivial fun ID => ?_) ?_
    · split
      · exact .call_bind trivial fun _ => sparing_createRoom.bind fun _ => sparing_changeRoom
      · exact sparing_changeRoom
    · exact sparing_send
  · exact sparing_send

theorem sparing_leave : Sparing (leave env pkt fd) := by
  refine sparing_splitArgs.bind fun args => sparing_ite (sparing_ite ?_ trivial) trivial
  refine .call_bind trivial fun currRoom => ?_
  cases currRoom with
  | none => trivial
  | some currRoom =>
    refine .call_bind trivial fun currUser => ?_
    cases currUser with
    | none => trivial
    | some currUser =>
      refine .call_bind nofun fun _ => .call_bind trivial fun defaultRoom => ?_
      cases defaultRoom with
      | none => exact sparing_fault _
      | some defaultRoom =>
        refine .call_bind trivial fun _ => .call_bind nofun fun _ => .call_bind trivial fun _ => ?_
        exact sparing_send_message.bind fun _ => .call_bind trivial fun _ =>
          sparing_send.bind fun _ => sparing_send_message

theorem sparing_exit_client : Sparing (exit_client env pkt fd) := by
  refine .call_bind trivial fun current => ?_
  cases current with
  | none => trivial
  | some current =>
    refine .call_bind trivial fun u => sparing_send_message.bind fun _ => ?_
    refine .call_bind trivial fun _ => .call_bind trivial fun _ => .call_bind trivial fun room => ?_
    cases room with
    | none => exact sparing_fault _
    | some room => exact .call_bind nofun fun _ => .call_bind nofun fun _ => trivial

theorem sparing_sendUsers {options : Int} (temp : List Addr) :
    Sparing (sendUsers env options fd temp) := by
  induction temp with
  | nil => trivial
  | cons a temp ih => exact .call_bind trivial fun _ => .call_bind trivial fun _ => ih

theorem sparing_get_active_users : Sparing (get_active_users env fd) :=
  .call_bind trivial fun _ => .call_bind trivial fun _ => .call_bind trivial sparing_sendUsers

theorem sparing_user_lookup : Sparing (user_lookup env pkt fd) := by
  refine sparing_splitArgs.bind fun args => sparing_ite ?_ trivial
  refine .call_bind trivial fun (realname : Str) => sparing_ite sparing_send ?_
  exact .call_bind trivial fun _ => sparing_send

theorem sparing_get_room_users : Sparing (get_room_users env pkt fd) := by
  refine .call_bind trivial fun user => ?_
  cases user with
  | none => trivial
  | some user =>
    refine .call_bind trivial fun u => .call_bind trivial fun room => ?_
    cases room with
    | none => trivial
    | some room =>
      exact .call_bind trivial fun _ => .call_bind trivial fun _ => .call_bind trivial fun _ =>
        .call_bind trivial sparing_sendUsers

theorem sparing_sendRooms (rooms : List Room) : Sparing (sendRooms env fd rooms) := by
  induction rooms with
  | nil => trivial
  | cons room rooms ih => exact .call_bind trivial fun _ => ih

theorem sparing_get_room_list : Sparing (get_room_list env fd) :=
  .call_bind trivial fun rooms => .call_bind trivial fun _ => sparing_sendRooms rooms

/-! ## The handlers that write -/

theorem Sparing.once {p : Handler α} (hp : Sparing p) : WritesOnce p :=
  (hp.mono fun _ ho => ho.not_writes).usesThen

theorem Sparing.bind_once {p : Handler α} {f : α → Handler β} (hp : Sparing p)
    (hf : ∀ a, WritesOnce (f a)) : WritesOnce (p >>= f) :=
  (hp.mono fun _ ho => ho.not_writes).bind_usesThen hf

theorem once_ite {c : Prop} [Decidable c] {p q : Handler α} (hp : WritesOnce p)
    (hq : WritesOnce q) : WritesOnce (if c then p else q) := by
  split
  · exact hp
  · exact hq

theorem once_register_user : WritesOnce (register_user sha256 env pkt fd) := by
  refine sparing_splitArgs.bind_once fun args => once_ite ?_ trivial
  refine sparing_validName.bind_once fun b => once_ite trivial ?_
  refine .call_bind id fun (realname : Str) => once_ite sparing_refusal.once ?_
  refine sparing_validPassword.bind_once fun b => once_ite trivial ?_
  refine .call_bind id fun user => .call_bind id fun _ => ?_
  exact .call_bind_uses trivial fun _ => sparing_login

theorem once_set_name : WritesOnce (set_name env pkt fd) := by
  refine sparing_validName.bind_once fun b => once_ite trivial (.call_bind id fun user => ?_)
  cases user with
  | none => exact sparing_send.once
  | some user =>
    refine .call_bind id fun u => .call_bind id fun _ => .call_bind id fun _ => ?_
    refine .call_bind_uses trivial fun _ => .call_bind trivial fun u => ?_
    exact sparing_send_message.bind fun _ => sparing_send

theorem once_set_pass : WritesOnce (set_pass sha256 env pkt fd) := by
  refine sparing_splitArgs.bind_once fun args => once_ite ?_ sparing_send.once
  refine sparing_validPassword.bind_once fun b => once_ite trivial (.call_bind id fun user => ?_)
  cases user with
  | none => exact sparing_send.once
  | some user =>
    refine .call_bind id fun u => sparing_comparePasswords.bind_once fun b => ?_
    refine once_ite (.call_bind id fun _ => .call_bind id fun _ => ?_) sparing_send.once
    exact .call_bind_uses trivial fun _ => sparing_send

theorem sparing_receiveAnonymous (hreg : pkt.options ≠ REGISTER) :
    Sparing (receiveAnonymous sha256 env pkt fd) := by
  rw [receiveAnonymous, if_neg hreg]
  refine sparing_ite ?_ (sparing_ite ?_ sparing_refusal)
  · exact sparing_login.bind fun _ => trivial
  · exact .call_bind trivial fun _ => trivial

theorem sparing_receiveRequest (hpass : pkt.options ≠ SETPASS) (hname : pkt.options ≠ SETNAME) :
    Sparing (receiveRequest sha256 env pkt fd) := by
  rw [receiveRequest, if_neg hpass, if_neg hname]
  refine sparing_ite sparing_send (sparing_ite sparing_send (sparing_ite sparing_invite ?_))
  refine sparing_ite sparing_join (sparing_ite sparing_leave ?_)
  refine sparing_ite sparing_get_active_users (sparing_ite sparing_get_room_users ?_)
  refine sparing_ite sparing_user_lookup (sparing_ite sparing_get_room_list ?_)
  exact sparing_ite sparing_send trivial

/-- A request of a user, in terms of the one that `receiveRequest` is given. -/
theorem receiveSession_induct {P : Handler Next → Prop} {name : Str}
    (hsparing : ∀ q, Sparing q → P q)
    (hrequest : P (do
      receiveRequest sha256 env pkt fd
      pure (.receive (some name)))) : P (receiveSession sha256 env name pkt fd) := by
  unfold receiveSession
  split
  · split
    · exact hsparing _ (sparing_exit_client.bind fun _ => trivial)
    · exact hrequest
  · exact hsparing _ (sparing_send_message.bind fun _ => trivial)

/-- **A request writes the file at most once.** -/
theorem once_client_receive (session : Option Str) :
    WritesOnce (client_receive sha256 env session pkt fd) := by
  cases session with
  | none =>
    by_cases hreg : pkt.options = REGISTER
    · rw [client_receive, receiveAnonymous, if_pos hreg]
      exact once_register_user.bind_pure _
    · exact (sparing_receiveAnonymous hreg).once
  | some name =>
    refine receiveSession_induct (fun q hq => hq.once) (Prog.UsesThen.bind_pure ?_ _)
    by_cases hpass : pkt.options = SETPASS
    · rw [receiveRequest_set_pass hpass]
      exact once_set_pass
    · by_cases hname : pkt.options = SETNAME
      · rw [receiveRequest_set_name hname]
        exact once_set_name
      · exact (sparing_receiveRequest hpass hname).once

end Handlers

/-! ## Requests that come to their end -/

section Ends
variable {α : Type} {sha256 : Str → Digest} {env : Env} {p : Packet} {fd : Int} {s : Server}
  {w : World} {session : Option Str}

/-- A command of too many words is not looked at. -/
theorem sparing_overflow {f : List Str → Handler α} (h : 15 < (words p.buf).length) :
    Sparing (splitArgs p.buf >>= f) := by
  rw [splitArgs, if_neg (Nat.not_le.mpr h)]
  refine ⟨trivial, ?_⟩
  intro e
  exact Empty.elim e

/-- Where there is a Lobby, a login comes to its end. -/
theorem login_ends {r : RoomRef} (hwords : (words p.buf).length ≤ 15)
    (hlobby : LinkedList.Rget_roomFID s.room_list DEFAULT_ROOM = some r) :
    ∃ x, ops.run (login sha256 env p fd) s = .ok x := by
  rw [run_login, if_neg (Nat.not_lt.mpr hwords), hlobby]
  split
  · exact ⟨_, rfl⟩
  · split
    · exact ⟨_, rfl⟩
    · split
      · exact ⟨_, rfl⟩
      · split
        · exact ⟨_, rfl⟩
        · exact ⟨_, rfl⟩

theorem register_user_ends {r : RoomRef} (hwords : (words p.buf).length ≤ 15)
    (hlobby : LinkedList.Rget_roomFID s.room_list DEFAULT_ROOM = some r) :
    ∃ x, ops.run (register_user sha256 env p fd) s = .ok x := by
  rw [run_register_user, if_neg (Nat.not_lt.mpr hwords)]
  split
  · exact ⟨_, rfl⟩
  · split
    · exact ⟨_, rfl⟩
    · split
      · exact ⟨_, rfl⟩
      · split
        · exact ⟨_, rfl⟩
        · have hrelogin : (words (relogin p).buf).length ≤ 15 := by
            rw [words_relogin]
            exact (by decide : 3 ≤ 15)
          obtain ⟨x, hx⟩ : ∃ x, ops.run (login sha256 env (relogin p) fd)
              (s.enrol (newUser sha256 env (arg (words p.buf) 1) (arg (words p.buf) 2) fd)) =
              .ok x := login_ends hrelogin hlobby
          exact ⟨_, congrArg (Outcome.prepend _) hx⟩

theorem set_pass_ends (hwords : (words p.buf).length ≤ 15) :
    ∃ x, ops.run (set_pass sha256 env p fd) s = .ok x := by
  rw [run_set_pass, if_neg (Nat.not_lt.mpr hwords)]
  split
  · exact ⟨_, rfl⟩
  · split
    · exact ⟨_, rfl⟩
    · split
      · exact ⟨_, rfl⟩
      · split
        · exact ⟨_, rfl⟩
        · exact ⟨_, rfl⟩

/-- Whoever is in a room can be told of a new name. -/
theorem World.Settled.set_name_ends (hw : w.Settled)
    (hfd : w.conns fd = .serving (some p.username)) :
    ∃ x, ops.run (set_name env p fd) w.server = .ok x := by
  obtain ⟨a, -, ha, r, hr, hroom, -⟩ := hw.session hfd
  rw [run_set_name]
  split
  · exact ⟨_, rfl⟩
  · rw [ha]
    have hID : LinkedList.Rget_roomFID w.server.room_list (w.server.heap a).roomID = some r :=
      hw.memory.Rget_roomFID_iff.mpr ⟨hr, Server.roomOf_eq_some.mpr hroom⟩
    dsimp only
    rw [rename_roomID, announce]
    split
    · rename_i hnone
      exact absurd (hID.symm.trans hnone) (Option.some_ne_none r)
    · exact ⟨_, rfl⟩

/-- **A request that does not come to its end** would not have written. -/
theorem World.Settled.spares_or_ends (hw : w.Settled) (hfd : w.conns fd = .serving session)
    (hproper : w.Proper (.packet fd p env)) :
    Sparing (client_receive sha256 env session p fd) ∨
      ∃ x, ops.run (client_receive sha256 env session p fd) w.server = .ok x := by
  have hlobby := hw.memory.housed.table.Rget_lobby
  have hpure {β : Type} {q : Handler β} {f : β → Next} (h : ∃ x, ops.run q w.server = .ok x) :
      ∃ x, ops.run (q >>= fun b => pure (f b)) w.server = .ok x := by
    obtain ⟨x, hx⟩ := h
    rw [ops.run_bind, hx]
    exact ⟨_, rfl⟩
  cases session with
  | none =>
    by_cases hreg : p.options = REGISTER
    · rw [client_receive, receiveAnonymous, if_pos hreg]
      rcases Nat.lt_or_ge 15 (words p.buf).length with hlong | hshort
      · refine .inl (Prog.Uses.bind ?_ fun _ => trivial)
        exact sparing_overflow hlong
      · exact .inr (hpure (register_user_ends hshort hlobby))
    · exact .inl (sparing_receiveAnonymous hreg)
  | some name =>
    obtain rfl : p.username = name := by simpa only [World.ActsOwn, hfd] using hproper.own
    refine receiveSession_induct (P := fun q => Sparing q ∨ ∃ x, ops.run q w.server = .ok x)
      (fun q hq => .inl hq) ?_
    by_cases hpass : p.options = SETPASS
    · rw [receiveRequest_set_pass hpass]
      rcases Nat.lt_or_ge 15 (words p.buf).length with hlong | hshort
      · refine .inl (Prog.Uses.bind ?_ fun _ => trivial)
        exact sparing_overflow hlong
      · exact .inr (hpure (set_pass_ends hshort))
    · by_cases hname : p.options = SETNAME
      · rw [receiveRequest_set_name hname]
        exact .inr (hpure (hw.set_name_ends hfd))
      · refine .inl (Prog.Uses.bind ?_ fun _ => trivial)
        exact sparing_receiveRequest hpass hname

end Ends

/-! ## What is in the file -/

namespace LinkedList

/-- Records that are written over the start of a file leave the rest of it. -/
theorem chars_writeUserFile (users : List User) (file : Option (List UInt8)) :
    (readUserFile (writeUserFile users file)).map User.chars =
      users.map User.chars ++ ((readUserFile file).map User.chars).drop users.length := by
  have hblocks : blocks 208 (overwrite (users.map User.mem).flatten (file.getD [])) =
      users.map User.mem ++ (blocks 208 (file.getD [])).drop (users.map User.mem).length := by
    refine blocks_overwrite_drop (by decide) fun bs hbs => ?_
    obtain ⟨u, -, rfl⟩ := List.mem_map.mp hbs
    exact User.length_mem u
  rw [readUserFile, writeUserFile, Option.getD_some, hblocks, readUserFile, List.length_map,
    List.map_append, List.map_append, List.map_drop, List.map_drop, List.map_map, List.map_map]
  congr 1
  exact List.map_congr_left fun u _ => User.chars_ofMem u

end LinkedList

section Records
variable {sha256 : Str → Digest} {env : Env} {p : Packet} {fd : Int} {s s' : Server}
  {who : Str} {w w' : World}

theorem Server.SameRecords.revises (h : s.SameRecords s') :
    Revises (s.registered.map User.chars) (s'.registered.map User.chars) := by
  rw [h.map_chars]
  exact .same

theorem Server.SameRecords.signIn (a : Addr) (fd : Int) (r : RoomRef) :
    s.SameRecords (s.signIn a fd r) :=
  ⟨rfl, rfl, s.signIn_congr (fun _ _ => rfl) (fun _ _ => rfl) a fd r⟩

theorem Server.SameRecords.move (a : Addr) (r r' : RoomRef) (ID : Int) :
    s.SameRecords (s.move a r r' ID) := by
  refine ⟨?_, rfl, s.move_congr (fun _ _ => rfl) a r r' ID⟩
  simp [Server.move, Server.insertUser, Server.removeUser, Server.modify]

theorem Server.SameRecords.openRoom (fd : Int) (name : Str) :
    s.SameRecords (s.openRoom fd name) := by
  obtain ⟨rooms, n, heq⟩ := s.openRoom_eq fd name
  rw [heq]
  exact ⟨rfl, rfl, fun _ => rfl⟩

theorem Server.SameRecords.signOut (a : Addr) (r : RoomRef) : s.SameRecords (s.signOut a r) :=
  ⟨rfl, rfl, fun b => by rw [Server.signOut_heap]⟩

theorem Login.sameRecords {user pass : Str} {b : Bool} {es : List Effect}
    (h : Login sha256 env user pass fd s b s' es) : s.SameRecords s' := by
  cases h with
  | refused => exact .refl s
  | discarded => exact ⟨rfl, rfl, fun _ => rfl⟩
  | signedIn => exact .signIn _ _ _

/-- A registration adds a record, if it does anything. -/
theorem Server.Housed.revises_enrol (hi : s.Housed) (u : User) :
    Revises (s.registered.map User.chars) ((s.enrol u).registered.map User.chars) := by
  have hold : s.registered_users_list.map (User.chars ∘ (s.enrol u).heap) =
      s.registered_users_list.map (User.chars ∘ s.heap) :=
    List.map_congr_left fun a ha => congrArg User.chars (Server.enrol_heap_old (hi.fresh a ha))
  rw [Server.registered, Server.registered, List.map_map, List.map_map]
  rcases s.enrol_registered u with h | h
  · rw [h, hold]
    exact .same
  · rw [h, List.map_append, hold]
    exact .append _

/-- **A request changes one record**, or has one more, if it does anything to them. -/
theorem Received.revises {session : Option Str} {next : Next} {es : List Effect} (hi : s.Housed)
    (hd : s.registered_users_list.Nodup) (h : Received sha256 env p fd s session next s' es) :
    Revises (s.registered.map User.chars) (s'.registered.map User.chars) := by
  have hmodify (a : Addr) (s' : Server) (hreg : s'.registered_users_list = s.registered_users_list)
      (h : ∀ b, b ≠ a → s'.heap b = s.heap b) :
      Revises (s.registered.map User.chars) (s'.registered.map User.chars) := by
    rw [Server.registered, Server.registered, hreg, List.map_map, List.map_map]
    exact .map hd fun b hb => congrArg User.chars (h b hb)
  cases h with
  | refused | hungUp | answered | chat | vanished => exact .same
  | login _ _ hl => exact hl.sameRecords.revises
  | register _ hl =>
    rw [hl.sameRecords.map_chars]
    exact hi.revises_enrol _
  | renamed => exact hmodify _ _ rfl fun b hb => Server.rename_heap_ne hb
  | passwordSet => exact hmodify _ _ rfl fun b hb => Server.setPassword_ne _ _ hb
  | opened => exact (Server.SameRecords.openRoom _ _).revises
  | joined _ hs₁ _ _ _ _ hs₂ =>
    subst hs₁ hs₂
    exact ((Server.SameRecords.openRoom _ _).trans (.move _ _ _ _)).revises
  | left _ _ _ _ _ _ hs' =>
    subst hs'
    exact (Server.SameRecords.move _ _ _ _).revises
  | signedOut => exact (Server.SameRecords.signOut _ _).revises

/-- No record is registered twice. -/
theorem Change.registered_nodup (hi : s.Housed) (hd : s.registered_users_list.Nodup)
    (h : Change who s s') : s'.registered_users_list.Nodup := by
  cases h with
  | enrol u =>
    rcases s.enrol_registered u with h | h
    · rwa [h]
    · rw [h]
      refine List.nodup_append.mpr ⟨hd, List.nodup_singleton _, fun a ha b hb he => ?_⟩
      rw [List.mem_singleton.mp hb] at he
      exact absurd (hi.fresh a ha) (he ▸ Nat.lt_irrefl _)
  | openRoom =>
    rw [(Server.SameRecords.openRoom _ _).registered]
    exact hd
  | free | signIn | move | rename | setPassword | signOut => exact hd

theorem Step.registered_nodup {e : Event} {es : List Effect} (hi : w.server.Housed)
    (hd : w.server.registered_users_list.Nodup) (hs : Step sha256 w e w' es) :
    w'.server.registered_users_list.Nodup := by
  cases hs with
  | accept => exact hd
  | packet _ hp hrun =>
    have hchanges := (received hrun).changes hp
    clear hrun
    suffices h : ∀ s', Changes (actor _ _) w.server s' →
        s'.Housed ∧ s'.registered_users_list.Nodup from (h _ hchanges).2
    intro s' hc
    induction hc with
    | refl => exact ⟨hi, hd⟩
    | tail _ hc ih => exact ⟨hc.housed ih.1, hc.registered_nodup ih.1 ih.2⟩

theorem boot_registered_nodup (file : Option (List UInt8)) (fd : Int) :
    (Server.boot file fd).registered_users_list.Nodup := List.nodup_range

end Records

/-! ## Killed within a request -/

section Killed
variable {sha256 : Str → Digest} {env : Env} {p : Packet} {fd : Int} {s s' : Server}
  {session : Option Str} {w w' : World} {file : Option (List UInt8)}

/-- What may be in the user file when the server is killed while it handles a packet: between two
operations, or with `n` of the records of `writeUserFile` written. -/
inductive CutOff (sha256 : Str → Digest) (env : Env) (session : Option Str) (p : Packet)
    (fd : Int) (s : Server) : Option (List UInt8) → Prop
  | between {q : Handler Next} {s₁ : Server}
      (h : ops.Passes (client_receive sha256 env session p fd) s q s₁) :
      CutOff sha256 env session p fd s s₁.users_file
  | inside {file_fd : Int} {k : Unit → Handler Next} {s₁ : Server} (n : Nat)
      (h : ops.Passes (client_receive sha256 env session p fd) s
        (.act (.writeUserFile file_fd) k) s₁) :
      CutOff sha256 env session p fd s
        (LinkedList.writeUserFile (s₁.registered.take n) s₁.users_file)

theorem Sparing.sameRecords {q q' : Handler Next} (hq : Sparing q) (h : ops.Passes q s q' s') :
    s.SameRecords s' :=
  h.keeps (R := Server.SameRecords) .refl .trans (fun _ ho _ _ _ _ he => ho.keeps he) hq

theorem CutOff.of_sparing (hq : Sparing (client_receive sha256 env session p fd))
    (h : CutOff sha256 env session p fd s file) : file = s.users_file := by
  cases h with
  | between h => exact (hq.sameRecords h).file
  | inside n h => exact (h.uses hq).1.elim

/-- **Where the request comes to its end**, the file is the one from before it, the one from after
it, or one with a part of the records from after it. -/
theorem CutOff.of_run {next : Next} {es : List Effect}
    (hrun : ops.run (client_receive sha256 env session p fd) s = .ok (next, s', es))
    (h : CutOff sha256 env session p fd s file) :
    file = s.users_file ∨ file = s'.users_file ∨ ∃ (users : List User) (n : Nat),
      users.map User.chars = s'.registered.map User.chars ∧
      file = LinkedList.writeUserFile (users.take n) s.users_file := by
  have hpasses {q : Handler Next} {s₁ : Server}
      (h : ops.Passes (client_receive sha256 env session p fd) s q s₁) :
      (s₁.users_file = s.users_file ∧ WritesOnce q) ∨ Sparing q := by
    refine h.usesThen (R := fun s s' => s'.users_file = s.users_file) (fun _ => rfl) ?_
      (fun _ ho _ _ _ _ he => Op.file_of_not_writes ho he) (once_client_receive session)
    intro s s' s'' h h'
    exact h'.trans h
  cases h with
  | between h =>
    rcases hpasses h with ⟨hfile, -⟩ | hq
    · exact .inl hfile
    · obtain ⟨es', hrest⟩ := h.run hrun
      exact .inr (.inl (Sparing.sameRecords hq (Semantics.passes_of_run hrest)).file.symm)
  | @inside file_fd k s₁ n h =>
    rcases hpasses h with ⟨hfile, hq⟩ | hq
    · obtain ⟨es', hrest⟩ := h.run hrun
      obtain ⟨b, s₂, es₁, es₂, hexec, hrest, -⟩ := Outcome.andThen_eq_ok hrest
      cases hexec
      obtain ⟨-, hk⟩ | ⟨hno, -⟩ := hq
      · have hsame := Sparing.sameRecords (hk ()) (Semantics.passes_of_run hrest)
        exact .inr (.inr ⟨s₁.registered, n, hsame.map_chars.symm, by rw [hfile]⟩)
      · exact absurd trivial hno
    · exact hq.1.elim

/-- **A restart after a request that was cut off** finds the accounts from before the request, or
those from after it. -/
theorem World.Settled.cut_off (hw : w.Settled) (hsaved : w.server.Saved)
    (hd : w.server.registered_users_list.Nodup) (hfd : w.conns fd = .serving session)
    (hp : p.Wf) (hproper : w.Proper (.packet fd p env))
    (hcut : CutOff sha256 env session p fd w.server file) (log : Int) :
    (World.boot file log).Settled ∧
    ((World.boot file log).service = w.service.restart DEFAULT_ROOM_NAME ∨
      (World.boot file log).service =
        (w.service.next id ERROR fd (p.request sha256)).1.restart DEFAULT_ROOM_NAME) := by
  have hbefore : (LinkedList.readUserFile file).map User.chars =
      w.server.registered.map User.chars → (World.boot file log).Settled ∧
      (World.boot file log).service = w.service.restart DEFAULT_ROOM_NAME :=
    fun h => hw.restart h log
  have hends : Sparing (client_receive sha256 env session p fd) ∨
      ∃ x, ops.run (client_receive sha256 env session p fd) w.server = .ok x :=
    hw.spares_or_ends hfd hproper
  rcases hends with hq | ⟨⟨next, s', es⟩, hrun⟩
  · obtain ⟨hsettled, hservice⟩ := hbefore (by rw [hcut.of_sparing hq]; exact hsaved)
    exact ⟨hsettled, .inl hservice⟩
  have hstep := Step.packet hfd hp hrun
  have hw' := hstep.settled hw hproper
  have hsaved' := hstep.saved hsaved
  have hnext := (hstep.complies hw hproper).1
  have hafter (h : (LinkedList.readUserFile file).map User.chars = s'.registered.map User.chars) :
      (World.boot file log).Settled ∧ (World.boot file log).service =
        (w.service.next id ERROR fd (p.request sha256)).1.restart DEFAULT_ROOM_NAME := by
    rw [Event.request] at hnext
    rw [hnext]
    exact hw'.restart h log
  have hrevises := (received hrun).revises hw.memory.housed hd
  rcases hcut.of_run hrun with rfl | rfl | ⟨users, n, husers, rfl⟩
  · exact (hbefore hsaved).imp_right .inl
  · exact (hafter hsaved').imp_right .inr
  · -- the part that was written is followed by what was there before
    have hchars := LinkedList.chars_writeUserFile (users.take n) w.server.users_file
    rw [hsaved, List.length_take, ← List.length_map User.chars, List.map_take, husers,
      @List.take_eq_take_min _ (s'.registered.map User.chars)] at hchars
    rcases hrevises.torn (min n (s'.registered.map User.chars).length) with h | h
    · exact (hbefore (hchars.trans h)).imp_right .inl
    · exact (hafter (hchars.trans h)).imp_right .inr

end Killed

/-! ## Lives with sudden ends -/

section Lives
variable {sha256 : Str → Digest}

/-- What happens to a server that may be killed at its work. -/
inductive Fate where
  | happening (h : Happening)
  /-- It is killed while it handles a packet, and started again with the Lobby's log at `log`. -/
  | killed (fd : Int) (p : Packet) (env : Env) (log : Int)

inductive Befalls (sha256 : Str → Digest) : World → Fate → World → Prop
  | happening {w w' : World} {h : Happening} {es : List Effect} (hs : Happens sha256 w h w' es) :
      Befalls sha256 w (.happening h) w'
  | killed {w : World} {fd : Int} {p : Packet} {env : Env} {session : Option Str}
      {file : Option (List UInt8)} (hfd : w.conns fd = .serving session) (hp : p.Wf)
      (hcut : CutOff sha256 env session p fd w.server file) (log : Int) :
      Befalls sha256 w (.killed fd p env log) (World.boot file log)

namespace Fate

def Proper (w : World) : Fate → Prop
  | .happening h => h.Proper w
  | .killed fd p env _ => w.Proper (.packet fd p env)

/-- A request that was cut off was not made, or was made just before the restart. -/
def Asks (sha256 : Str → Digest) :
    Fate → List (Option (Int × Request Str Str (List UInt8) Str Packet)) → Prop
  | .happening h, asked => asked = [h.request sha256]
  | .killed fd p _ _, asked => asked = [none] ∨ asked = [some (fd, p.request sha256), none]

end Fate

/-- **A server that may be killed** does what the service does. -/
def hardRefinement (sha256 : Str → Digest) :
    Machines.Amounts (O := Unit) ⟨fun w f w' _ => Befalls sha256 w f w'⟩ theService where
  abs := World.service
  asks := Fate.Asks sha256
  inv w := w.Settled ∧ w.server.Saved ∧ w.server.registered_users_list.Nodup
  allowed w f := f.Proper w
  keeps := by
    rintro w f w' o ⟨hw, hsaved, hd⟩ hproper hstep
    cases hstep with
    | happening hs =>
      cases hs with
      | event hs =>
        exact ⟨hs.settled hw hproper, hs.saved hsaved, hs.registered_nodup hw.memory.housed hd⟩
      | restart fd =>
        exact ⟨(hw.restart hsaved fd).1, boot_saved _ _, boot_registered_nodup _ _⟩
    | killed hfd hp hcut log =>
      exact ⟨(hw.cut_off hsaved hd hfd hp hproper hcut log).1, boot_saved _ _,
        boot_registered_nodup _ _⟩
  step := by
    rintro w f w' o ⟨hw, hsaved, hd⟩ hproper hstep
    cases hstep with
    | happening hs =>
      cases hs with
      | event hs => exact ⟨_, rfl, (hs.complies hw hproper).1⟩
      | restart fd => exact ⟨_, rfl, (hw.restart hsaved fd).2.symm⟩
    | killed hfd hp hcut log =>
      obtain ⟨-, h | h⟩ := hw.cut_off hsaved hd hfd hp hproper hcut log
      · exact ⟨_, .inl rfl, h.symm⟩
      · exact ⟨_, .inr rfl, h.symm⟩

/-- A server that is killed now and then, wherever it is. -/
structure HardLife (sha256 : Str → Digest) where
  length : Nat
  state : Nat → World
  fate : Nat → Fate
  boot : ∃ file fd, state 0 = World.boot file fd ∧ ∀ u ∈ LinkedList.readUserFile file,
    u.username.length ≤ 63 ∧ u.real_name.length ≤ 63
  next : ∀ t < length, Befalls sha256 (state t) (fate t) (state (t + 1))
  proper : ∀ t < length, (fate t).Proper (state t)
  /-- Nobody logs in to an account that is active, so that no record is freed. -/
  exclusive : ∀ t < length, ∀ h, fate t = .happening h → h.NoSecondLogin sha256 (state t)

/-- **All or nothing.**  A server that is killed within requests goes through the states of a
service of which each such request was asked before the restart, or was not. -/
theorem HardLife.all_or_nothing (life : HardLife sha256) :
    ∃ asked : Nat → List (Option (Int × Request Str Str (List UInt8) Str Packet)),
      (∀ t < life.length, (life.fate t).Asks sha256 (asked t)) ∧
      ∀ t ≤ life.length, (life.state t).service =
        theService.after (life.state 0).service ((List.range t).flatMap asked) := by
  obtain ⟨file, fd, hboot, hfile⟩ := life.boot
  have hstart : (hardRefinement sha256).inv (life.state 0) := by
    rw [hboot]
    exact ⟨boot_settled fd hfile, boot_saved file fd, boot_registered_nodup file fd⟩
  exact (hardRefinement sha256).run (fun t ht => ⟨(), life.next t ht⟩) life.proper hstart

end Lives

namespace Sample

/-- Alice has registered. -/
def registered : Life sha256 := life ((enter 4 "alice").map .event) (by decide)

/-- Alice asks for another name. -/
def newName : Packet := ⟨0, str "Alice B", str "alice", str "alice", SETNAME⟩

/-- The server is killed when it has done `n` operations for her. -/
def killed (n : Nat) : HardLife sha256 where
  length := 3
  state t := if t ≤ 2 then registered.state t else
    World.boot (ops.operations n (client_receive sha256 env (some (str "alice")) newName 4)
      (registered.state 2).server).2.users_file 3
  fate t := if t < 2 then .happening (registered.happening t) else .killed 4 newName env 3
  boot := registered.boot
  next t ht := by
    rcases Nat.lt_succ_iff_lt_or_eq.mp ht with hlt | rfl
    · rw [if_pos (Nat.le_of_lt hlt), if_pos hlt, if_pos (Nat.succ_le_of_lt hlt)]
      exact .happening (registered.next t hlt)
    · have hfd : (registered.state 2).conns 4 = .serving (some (str "alice")) := by decide
      exact .killed hfd ⟨by decide, by decide, by decide⟩
        (.between (Semantics.passes_operations n _ _)) 3
  proper t ht := by
    rcases Nat.lt_succ_iff_lt_or_eq.mp ht with hlt | rfl
    · rw [if_pos (Nat.le_of_lt hlt), if_pos hlt]
      exact registered.proper t hlt
    · show (registered.state 2).Proper (.packet 4 newName env)
      decide
  exclusive t ht h hh := by
    have hlt : t < 2 := by
      by_contra hge
      rw [if_neg hge] at hh
      cases hh
    rw [if_pos hlt] at hh
    obtain rfl := Fate.happening.inj hh
    rw [if_pos (Nat.le_of_lt hlt)]
    exact @Life.exclusive_of_freed _ registered (by decide) t hlt

end Sample

/-- The name that Alice asked for is there after the restart, if the file was written before the
server was killed. -/
theorem all_or_nothing_alice :
    (∃ asked : Nat → List (Option (Int × Request Str Str (List UInt8) Str Packet)),
      (∀ t < 3, ((Sample.killed 4).fate t).Asks Sample.sha256 (asked t)) ∧
      ∀ t ≤ 3, ((Sample.killed 4).state t).service =
        theService.after ((Sample.killed 4).state 0).service ((List.range t).flatMap asked)) ∧
    (((Sample.killed 4).state 3).server.accounts (str "alice")).map Account.shown =
      some (str "alice") ∧
    (((Sample.killed 5).state 3).server.accounts (str "alice")).map Account.shown =
      some (str "Alice B") :=
  ⟨(Sample.killed 4).all_or_nothing, by decide, by decide⟩

end TBDChat
