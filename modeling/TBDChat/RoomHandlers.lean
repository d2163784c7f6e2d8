import TBDChat.Execution

/-!
# The handlers of rooms, run alone

`join`, `leave` and `exit_client` as equations, and the queries, which send and
change nothing.  The changes of the memory are `openRoom`, `move` and `signOut`.
-/

namespace TBDChat
open Atomic

variable {env : Env}

/-! ## Moving between rooms -/

/-- The memory after `join` found no room of that name and made one. -/
def Server.createRoom (s : Server) (fd : Int) (name : Str) : Server :=
  ({ s with numRooms := s.numRooms + 1 }).insertRoom
    { ID := s.numRooms, fd := fd, name := name.take ROOMNAME_LENGTH, user_list := [] }

/-- The memory in which `join` looks for the room it wants. -/
def Server.openRoom (s : Server) (fd : Int) (name : Str) : Server :=
  if LinkedList.Rget_ID s.room_list name = -1 then s.createRoom fd name else s

/-- The memory after `a` went from the room at `r` to the room at `r'`. -/
def Server.move (s : Server) (a : Addr) (r r' : RoomRef) (ID : Int) : Server :=
  ((s.removeUser (.room r) a).modify a (fun u => { u with roomID := ID })).insertUser (.room r') a

@[simp] theorem Rget_roomFID_move (s : Server) (a : Addr) (r r' : RoomRef) (ID n : Int) :
    LinkedList.Rget_roomFID (s.move a r r' ID).room_list n =
      LinkedList.Rget_roomFID s.room_list n := by
  simp [Server.move]

/-- The reply to a JOIN that is refused. -/
def unableToJoin (env : Env) (fd : Int) : Effect :=
  .send fd (serverPacket env SERV_ERR
    (str "We were unable to put you in that room, sorry."))

theorem run_changeRoom (pkt : Packet) (fd : Int) (args : List Str) (s : Server) :
    ops.run (changeRoom env pkt fd args) s =
      match LinkedList.Rget_roomFID s.room_list (atoi (arg args 1)) with
      | none => .ok ((), s, [])
      | some r => match LinkedList.get_user s.heap (s.members r) pkt.username with
        | none => .error .null
        | some a => match LinkedList.Rget_roomFNAME s.room_list (arg args 0) with
          | none => .error .null
          | some r' =>
            let s' := s.move a r r' (s.room r').ID
            Outcome.prepend
              [.send fd (serverPacket env JOINSUC (arg args 0 ++ str " " ++ dec (s.room r').ID))]
              ((announce env s' (atoi (arg args 1))
                (strncpy64 (s'.heap a).real_name [] ++ str " has left the room.") (-1)).andThen
                fun _ s'' => announce env s'' (s.room r').ID
                  (strncpy64 (s'.heap a).real_name [] ++ str " has joined the room.") (-1)) := by
  cases hr : LinkedList.Rget_roomFID s.room_list (atoi (arg args 1)) with
  | none => simp [changeRoom, hr]
  | some r =>
    cases hu : LinkedList.get_user s.heap (s.members r) pkt.username with
    | none => simp [changeRoom, hr, Server.users, hu]
    | some a =>
      cases hn : LinkedList.Rget_roomFNAME s.room_list (arg args 0) with
      | none => simp [changeRoom, hr, Server.users, hu, hn]
      | some r' =>
        have hID : ((s.removeUser (.room r) a).room r').ID = (s.room r').ID :=
          s.room_setUsers_ID ..
        simp [changeRoom, hr, Server.users, hu, hn, hID, run_announce, Server.move]

theorem run_createRoom (env : Env) (name : Str) (s : Server) :
    ∃ b, ops.run (createRoom env s.numRooms name) s =
      .ok (b, s.createRoom env.fd name, [.opened env.fd]) :=
  ⟨_, rfl⟩

/-- The descriptor of the log `join` opens, if it makes a room. -/
def openEffects (s : Server) (fd : Int) (name : Str) : List Effect :=
  if LinkedList.Rget_ID s.room_list name = -1 then [.opened fd] else []

theorem run_join (pkt : Packet) (fd : Int) (s : Server) :
    ops.run (join env pkt fd) s =
      if 15 < (words pkt.buf).length then .error .overflow
      else if (words pkt.buf).length ≤ 1 then .ok ((), s, [unableToJoin env fd])
      else if acceptsName ROOMNAME_LENGTH (arg (words pkt.buf) 0) = false then
        .ok ((), s, nameReply env "Invalid characters in room name."
          "Requested room name is too short." "Requested room name is too long." ROOMNAME_LENGTH
          (arg (words pkt.buf) 0) fd ++ [unableToJoin env fd])
      else
        (ops.run (changeRoom env pkt fd (words pkt.buf))
          (s.openRoom env.fd (arg (words pkt.buf) 0))).prepend
          (openEffects s env.fd (arg (words pkt.buf) 0)) := by
  rw [join, run_splitArgs]
  refine ite_congr rfl (fun _ => rfl) fun _ => ?_
  by_cases h1 : (words pkt.buf).length ≤ 1
  · rw [if_pos h1]
    simp [Nat.not_lt_of_le h1, run_sendError, unableToJoin]
  rw [if_neg h1]
  cases hname : acceptsName ROOMNAME_LENGTH (arg (words pkt.buf) 0) with
  | false =>
    simp [validRoomname, run_validName, hname, Nat.lt_of_not_le h1, run_sendError, unableToJoin]
  | true =>
    by_cases hID : LinkedList.Rget_ID s.room_list (arg (words pkt.buf) 0) = -1
    · obtain ⟨b, hb⟩ := run_createRoom env (arg (words pkt.buf) 0) s
      simp [validRoomname, run_validName, hname, Nat.lt_of_not_le h1, nameReply_of_accepts hname,
        hID, hb, Server.openRoom, openEffects]
    · simp [validRoomname, run_validName, hname, Nat.lt_of_not_le h1, nameReply_of_accepts hname,
        hID, Server.openRoom, openEffects]

theorem run_leave (pkt : Packet) (fd : Int) (s : Server) :
    ops.run (leave env pkt fd) s =
      if 15 < (words pkt.buf).length then .error .overflow
      else if (words pkt.buf).length ≤ 1 ∨ atoi (arg (words pkt.buf) 1) = DEFAULT_ROOM then
        .ok ((), s, [])
      else match LinkedList.Rget_roomFID s.room_list (atoi (arg (words pkt.buf) 1)) with
        | none => .ok ((), s, [])
        | some r => match LinkedList.get_user s.heap (s.members r) pkt.username with
          | none => .ok ((), s, [])
          | some a => match LinkedList.Rget_roomFID s.room_list DEFAULT_ROOM with
            | none => .error .null
            | some d =>
              let s' := s.move a r d 1000
              (announce env s' (atoi (arg (words pkt.buf) 1))
                (strncpy64 (s'.heap a).real_name (env.ret.buf.drop 64) ++
                  str " has left the room.") (-1)).andThen fun _ s'' =>
              Outcome.prepend [.send fd (serverPacket env JOINSUC ((s''.room d).name ++ str " " ++
                  dec (s''.room d).ID ++ str " has joined the room."))]
                (announce env s'' (s''.room d).ID
                  (strncpy64 (s'.heap a).real_name [] ++ str " has joined the room.") (-1)) := by
  rw [leave, run_splitArgs]
  refine ite_congr rfl (fun _ => rfl) fun _ => ?_
  by_cases h1 : (words pkt.buf).length ≤ 1
  · rw [if_neg (by omega), if_pos (.inl h1)]
    rfl
  by_cases hd : atoi (arg (words pkt.buf) 1) = DEFAULT_ROOM
  · simp [hd]
  cases hr : LinkedList.Rget_roomFID s.room_list (atoi (arg (words pkt.buf) 1)) with
  | none => simp [h1, hd, hr]
  | some r =>
    cases hu : LinkedList.get_user s.heap (s.members r) pkt.username with
    | none => simp [h1, hd, hr, Server.users, hu]
    | some a =>
      cases hl : LinkedList.Rget_roomFID s.room_list DEFAULT_ROOM with
      | none => simp [h1, hd, hr, Server.users, hu, hl]
      | some d =>
        simp [Nat.lt_of_not_le h1, h1, hd, hr, Server.users, hu, hl, run_announce, Server.move]

/-- The memory after `exit_client` for `a`, who was in the room at `r`. -/
def Server.signOut (s : Server) (a : Addr) (r : RoomRef) : Server :=
  (s.removeUser (.room r) a).removeUser .active a

theorem run_exit_client (pkt : Packet) (fd : Int) (s : Server) :
    ops.run (exit_client env pkt fd) s =
      match LinkedList.get_user s.heap s.active_users_list pkt.username with
      | none => .ok ((), s, [])
      | some a => match LinkedList.Rget_roomFID s.room_list (s.heap a).roomID with
        | none => .error .null
        | some r => .ok ((), s.signOut a r,
            relay env s (serverPacket env (s.heap a).roomID
              (str "User " ++ pkt.realname ++ str " has disconnected.")) (-1) r ++
            [.send fd (serverPacket env EXIT (str "Goodbye!")), .close fd]) := by
  cases hu : LinkedList.get_user s.heap s.active_users_list pkt.username with
  | none => simp [exit_client, Server.users, hu]
  | some a =>
    cases hr : LinkedList.Rget_roomFID s.room_list (s.heap a).roomID with
    | none => simp [exit_client, Server.users, hu, hr, run_announce, announce]
    | some r => simp [exit_client, Server.users, hu, hr, run_announce, announce, Server.signOut]

/-! ## The queries -/

/-- What `sendUsers` sends. -/
def userLines (env : Env) (s : Server) (options fd : Int) (l : List Addr) : List Effect :=
  l.map (fun a => .send fd (serverPacket env options
    ((s.heap a).username ++ str "-" ++ (s.heap a).real_name)))

theorem run_sendUsers (options fd : Int) (l : List Addr) (s : Server) :
    ops.run (sendUsers env options fd l) s = .ok ((), s, userLines env s options fd l) := by
  induction l with
  | nil => rfl
  | cons a l ih => simp [sendUsers, ih, userLines]

theorem run_sendRooms (fd : Int) (l : List Room) (s : Server) :
    ops.run (sendRooms env fd l) s =
      .ok ((), s, l.map (fun room => .send fd (serverPacket env GETROOMS room.name))) := by
  induction l with
  | nil => rfl
  | cons room l ih => simp [sendRooms, ih]

theorem run_get_active_users (fd : Int) (s : Server) :
    ops.run (get_active_users env fd) s = .ok ((), s,
      .send fd (serverPacket env GETALLUSERS
        (dec s.active_users_list.length ++ str " users online")) ::
      userLines env s GETALLUSERS fd s.active_users_list) := by
  simp [get_active_users, run_sendUsers, Server.users]

theorem run_get_room_users (pkt : Packet) (fd : Int) (s : Server) :
    ops.run (get_room_users env pkt fd) s =
      match LinkedList.get_user s.heap s.active_users_list pkt.username with
      | none => .ok ((), s, [])
      | some a => match LinkedList.Rget_roomFID s.room_list (s.heap a).roomID with
        | none => .ok ((), s, [])
        | some r => .ok ((), s,
            .send fd (serverPacket env GETUSERS
              (dec (s.members r).length ++ str " users in " ++ (s.room r).name)) ::
            userLines env s GETUSERS fd (s.members r)) := by
  cases hu : LinkedList.get_user s.heap s.active_users_list pkt.username with
  | none => simp [get_room_users, Server.users, hu]
  | some a =>
    cases hr : LinkedList.Rget_roomFID s.room_list (s.heap a).roomID with
    | none => simp [get_room_users, Server.users, hu, hr]
    | some r => simp [get_room_users, Server.users, hu, hr, run_sendUsers]

theorem run_get_room_list (fd : Int) (s : Server) :
    ops.run (get_room_list env fd) s = .ok ((), s,
      .send fd (serverPacket env GETROOMS (dec s.room_list.length ++ str " Rooms Found")) ::
      s.room_list.map (fun room => .send fd (serverPacket env GETROOMS room.name))) := by
  simp [get_room_list, run_sendRooms]

theorem run_user_lookup (pkt : Packet) (fd : Int) (s : Server) :
    ops.run (user_lookup env pkt fd) s =
      if 15 < (words pkt.buf).length then .error .overflow
      else if (words pkt.buf).length ≤ 1 then .ok ((), s, [])
      else .ok ((), s,
        let realname := LinkedList.get_real_name s.heap s.active_users_list (arg (words pkt.buf) 1)
        if realname = ERROR then
          [.send fd (serverPacket env SERV_ERR (arg (words pkt.buf) 1 ++ str " not found."))]
        else
          [.send fd (serverPacket env GETUSER (str "User Lookup")),
            .send fd (serverPacket env GETUSER (arg (words pkt.buf) 1 ++ str "-" ++ realname))]) := by
  rw [user_lookup, run_splitArgs]
  refine ite_congr rfl (fun _ => rfl) fun _ => ?_
  by_cases h1 : (words pkt.buf).length ≤ 1
  · rw [if_neg (by omega), if_pos h1]
    rfl
  rw [if_pos (by omega), if_neg h1]
  by_cases hn : LinkedList.get_real_name s.heap s.active_users_list (arg (words pkt.buf) 1) = ERROR
  · simp [Server.users, hn]
  · simp [Server.users, hn]

/-- The reply to an INVITE that names no room or nobody who is online. -/
def inviteFailed (env : Env) (user : Str) (fd : Int) : Effect :=
  .send fd (serverPacket env SERV_ERR
    (str "An invitation could not be sent to " ++ user ++ str "."))

theorem run_invite (pkt : Packet) (fd : Int) (s : Server) :
    ops.run (invite env pkt fd) s =
      if 15 < (words pkt.buf).length then .error .overflow
      else .ok ((), s,
        if (words pkt.buf).length ≤ 1 then [inviteFailed env (arg (words pkt.buf) 0) fd]
        else match LinkedList.Rget_roomFID s.room_list (atoi (arg (words pkt.buf) 1)),
            LinkedList.get_user s.heap s.active_users_list (arg (words pkt.buf) 0) with
          | some _, some a =>
            [.send (s.heap a).sock
              { serverPacket env INVITE (pkt.realname ++ str " has invited you to join " ++
                  LinkedList.Rget_name s.room_list (atoi (arg (words pkt.buf) 1))) with
                realname := pkt.realname },
              .send fd (serverPacket env INVITESUC [])]
          | _, _ => [inviteFailed env (arg (words pkt.buf) 0) fd]) := by
  rw [invite, run_splitArgs]
  refine ite_congr rfl (fun _ => rfl) fun _ => ?_
  by_cases h1 : (words pkt.buf).length ≤ 1
  · simp [h1, Nat.not_lt_of_le h1, inviteFailed]
  cases hr : LinkedList.Rget_roomFID s.room_list (atoi (arg (words pkt.buf) 1)) with
  | none => simp [h1, Nat.lt_of_not_le h1, inviteFailed, hr]
  | some r =>
    cases hu : LinkedList.get_user s.heap s.active_users_list (arg (words pkt.buf) 0) with
    | none => simp [h1, Nat.lt_of_not_le h1, inviteFailed, hr, Server.users, hu]
    | some a => simp [h1, Nat.lt_of_not_le h1, hr, Server.users, hu]

theorem run_sendMOTD (fd : Int) (s : Server) :
    ops.run (sendMOTD env fd) s = .ok ((), s,
      [.send fd { serverPacket env MOTD server_MOTD with username := env.ret.username }]) := rfl

end TBDChat
