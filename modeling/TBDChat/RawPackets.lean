import TBDChat.ComposedTexts
import TBDChat.Framing

/-!
# Packets as they are sent

`send` is given all `sizeof(packet)` bytes of a local variable, which begins with whatever the
memory held and is then assigned to field by field.  Here are the handlers with their
variables as bytes: what each of them sends, also before it comes to a NULL.
-/

namespace TBDChat
open Atomic Bytes

set_option maxRecDepth 8000

/-- The memory of a `packet` variable. -/
structure Raw where
  bytes : List UInt8
  size : bytes.length = sizeofPacket
  deriving DecidableEq

namespace Raw

def write (m : Raw) (off : Nat) (bs : List UInt8) : Raw :=
  ⟨poke off bs m.bytes, (length_poke ..).trans m.size⟩

def timestamp (m : Raw) (now : Int) : Raw := m.write 0 (le 8 (now % 2 ^ 64).toNat)

def options (m : Raw) (n : Int) : Raw := m.write 264 (leInt n)

/-- `strcpy` and `sprintf` to the three arrays. -/
def buf (m : Raw) (s : Str) : Raw := m.write 8 (s ++ [0])
def username (m : Raw) (s : Str) : Raw := m.write 136 (s ++ [0])
def realname (m : Raw) (s : Str) : Raw := m.write 200 (s ++ [0])

/-- `strncpy(ret.buf, s, n)`. -/
def strncpy (m : Raw) (s : Str) (n : Nat) : Raw := m.write 8 (pad n s)

/-- `strcat(ret.buf, s)`, behind the first NUL from the start of `buf` on. -/
def strcat (m : Raw) (s : Str) : Raw :=
  m.write (8 + (cstr (m.bytes.drop 8)).length) (s ++ [0])

/-- `memset(&ret, 0, sizeof(ret))`. -/
def clear (m : Raw) : Raw := m.write 0 (List.replicate sizeofPacket 0)

/-- `memset(&ret.buf, 0, sizeof(ret.buf))`. -/
def clearBuf (m : Raw) : Raw := m.write 8 (List.replicate 128 0)

end Raw

/-- The packet variables of one execution before any assignment: the handler's own, that of
`sendMOTD`, and that of `sendError` in each of its calls. -/
structure Locals where
  ret : Raw
  motd : Raw
  error : Nat → Raw

/-- A handler with packet variables of its own. -/
inductive Call where
  | sendError (error : String) (h : error ∈ serverTexts)
  | sendMOTD
  | login
  | join
  | leave
  | invite
  | set_name
  | exit_client
  | user_lookup
  | get_active_users
  | get_room_users
  | get_room_list

section Handlers
variable (sha256 : Str → Digest) (env : Env) (p : Packet) (fd : Int) (s : Server) (l : Locals)

/-! ## The handlers -/

def errorPacket (error : Str) (ret : Raw) : Raw :=
  ((((ret.timestamp env.now).options SERV_ERR).username SERVER_NAME).realname SERVER_NAME).buf error

/-- One call of `sendError` after the other. -/
def sendErrors (errors : List Str) : List (Int × Raw) :=
  errors.zipIdx.map fun e => (fd, errorPacket env e.1 (l.error e.2))

/-- The username is not assigned. -/
def motdPacket (ret : Raw) : Raw :=
  (((ret.realname SERVER_NAME).options MOTD).buf server_MOTD).timestamp env.now

/-- `send_message`, to the room at `r`. -/
def relayed (s : Server) (q : Raw) (clientfd : Int) (r : RoomRef) : List (Int × Raw) :=
  ((s.members r).filter fun a => clientfd ≠ (s.heap a).sock).map fun a => ((s.heap a).sock, q)

def loginSent : List (Int × Raw) :=
  let user := arg (words p.buf) 1
  if 15 < (words p.buf).length ∨ (words p.buf).length ≤ 2 then []
  else match s.account user with
    | none => sendErrors env fd l [str "Username not found."]
    | some a =>
      if (s.heap a).hash ≠ (sha256 (arg (words p.buf) 2)).bytes then
        sendErrors env fd l [str "Incorrect password."]
      else if (LinkedList.get_user s.heap s.active_users_list user).isSome then
        sendErrors env fd l [str "User already logged in."]
      else match LinkedList.Rget_roomFID s.room_list DEFAULT_ROOM with
        | none => []
        | some r =>
          let s' := s.signIn a fd r
          let ret := (((l.ret.realname
            (LinkedList.get_real_name s'.heap s'.registered_users_list user)).username
            user).options LOGSUC).timestamp env.now
          let note := ((((ret.clear.options DEFAULT_ROOM).realname SERVER_NAME).username
            SERVER_NAME).buf ((s'.heap a).real_name ++ str " has joined the lobby.")).timestamp
            env.now
          (fd, ret) :: (relayed s' note (-1) r ++ [(fd, motdPacket env l.motd)])

def inviteSent : List (Int × Raw) :=
  if 15 < (words p.buf).length then []
  else
    let failed := ((((l.ret.options SERV_ERR).username SERVER_NAME).realname SERVER_NAME).timestamp
      env.now).buf (str "An invitation could not be sent to " ++ arg (words p.buf) 0 ++ str ".")
    if (words p.buf).length ≤ 1 then [(fd, failed)]
    else match LinkedList.Rget_roomFID s.room_list (atoi (arg (words p.buf) 1)),
        LinkedList.get_user s.heap s.active_users_list (arg (words p.buf) 0) with
      | some _, some a =>
        let ret := (((((l.ret.options INVITE).timestamp env.now).username SERVER_NAME).realname
          p.realname).clearBuf).buf (p.realname ++ str " has invited you to join " ++
            LinkedList.Rget_name s.room_list (atoi (arg (words p.buf) 1)))
        [((s.heap a).sock, ret),
          (fd, (((ret.clear.options INVITESUC).username SERVER_NAME).realname SERVER_NAME).timestamp
            env.now)]
      | _, _ => [(fd, failed)]

/-- A notice about a user's room, in a variable that holds `ret`. -/
def notice (ret : Raw) (ID : Int) (real_name phrase : Str) : Raw :=
  (((((ret.options ID).realname SERVER_NAME).username SERVER_NAME).strncpy real_name 64).strcat
    phrase).timestamp env.now

/-- `join` from where it looks for the current room on. -/
def changeRoomSent : List (Int × Raw) :=
  match LinkedList.Rget_roomFID s.room_list (atoi (arg (words p.buf) 1)) with
  | none => []
  | some r => match LinkedList.get_user s.heap (s.members r) p.username with
    | none => []
    | some a => match LinkedList.Rget_roomFNAME s.room_list (arg (words p.buf) 0) with
      | none => []
      | some r' =>
        let s' := s.move a r r' (s.room r').ID
        let ret := ((((l.ret.options JOINSUC).realname SERVER_NAME).username SERVER_NAME).timestamp
          env.now).buf (arg (words p.buf) 0 ++ str " " ++ decInt (s.room r').ID)
        let left := notice env ret.clear (atoi (arg (words p.buf) 1)) (s'.heap a).real_name
          (str " has left the room.")
        let joined := notice env left.clear (s.room r').ID (s'.heap a).real_name
          (str " has joined the room.")
        (fd, ret) :: (relayed s' left (-1) r ++
          match LinkedList.Rget_roomFID s.room_list (s.room r').ID with
          | none => []
          | some r'' => relayed s' joined (-1) r'')

def joinSent : List (Int × Raw) :=
  let unable := str "We were unable to put you in that room, sorry."
  if 15 < (words p.buf).length then []
  else if (words p.buf).length ≤ 1 then sendErrors env fd l [unable]
  else if acceptsName ROOMNAME_LENGTH (arg (words p.buf) 0) = false then
    sendErrors env fd l (nameTexts "Invalid characters in room name."
      "Requested room name is too short." "Requested room name is too long." ROOMNAME_LENGTH
      (arg (words p.buf) 0) ++ [unable])
  else changeRoomSent env p fd (s.openRoom env.fd (arg (words p.buf) 0)) l

def leaveSent : List (Int × Raw) :=
  if 15 < (words p.buf).length ∨ (words p.buf).length ≤ 1 ∨
      atoi (arg (words p.buf) 1) = DEFAULT_ROOM then []
  else match LinkedList.Rget_roomFID s.room_list (atoi (arg (words p.buf) 1)) with
    | none => []
    | some r => match LinkedList.get_user s.heap (s.members r) p.username with
      | none => []
      | some a => match LinkedList.Rget_roomFID s.room_list DEFAULT_ROOM with
        | none => []
        | some d =>
          let s' := s.move a r d 1000
          let left := notice env l.ret (atoi (arg (words p.buf) 1)) (s'.heap a).real_name
            (str " has left the room.")
          let ret := (((((left.clear.options JOINSUC).realname SERVER_NAME).username
            SERVER_NAME).buf ((s.room d).name ++ str " " ++ decInt (s.room d).ID)).strcat
            (str " has joined the room.")).timestamp env.now
          let joined := notice env ret.clear (s.room d).ID (s'.heap a).real_name
            (str " has joined the room.")
          relayed s' left (-1) r ++ (fd, ret) :: relayed s' joined (-1) d

/-- The notice of a new name, in a variable that holds `ret`. -/
def renameNote (ret : Raw) (real_name : Str) (ID : Int) (name : Str) : Raw :=
  ((((((ret.strncpy real_name 64).options ID).realname SERVER_NAME).username SERVER_NAME).strcat
    (str " is now known as ")).strcat name).timestamp env.now

def setNameSent : List (Int × Raw) :=
  let name := localName env p.buf
  if acceptsName REALNAME_LENGTH name = false then
    sendErrors env fd l (nameTexts "Invalid characters in requested name."
      "Requested name is too short." "Requested name is too long." REALNAME_LENGTH name)
  else match LinkedList.get_user s.heap s.registered_users_list p.username with
    | none =>
      [(fd, ((((l.ret.buf (str "Name change failed, for some reason we couldn't find you.")).options
        SERV_ERR).realname SERVER_NAME).username SERVER_NAME).timestamp env.now)]
    | some a =>
      let s' := s.rename a name
      let note := renameNote env l.ret (s.heap a).real_name (s'.heap a).roomID
        (s'.heap a).real_name
      match LinkedList.Rget_roomFID s.room_list (s.heap a).roomID with
      | none => []
      | some r =>
        relayed s' note fd r ++ [(fd, ((((note.clear.strncpy name 128).options NAMESUC).realname
          SERVER_NAME).username SERVER_NAME).timestamp env.now)]

def exitSent : List (Int × Raw) :=
  match LinkedList.get_user s.heap s.active_users_list p.username with
  | none => []
  | some a => match LinkedList.Rget_roomFID s.room_list (s.heap a).roomID with
    | none => []
    | some r =>
      let note := ((((l.ret.options (s.heap a).roomID).realname SERVER_NAME).username
        SERVER_NAME).buf (str "User " ++ p.realname ++ str " has disconnected.")).timestamp env.now
      relayed s note (-1) r ++ [(fd, ((((note.clear.realname SERVER_NAME).username
        SERVER_NAME).options EXIT).strcat (str "Goodbye!")).timestamp env.now)]

def lookupSent : List (Int × Raw) :=
  if 15 < (words p.buf).length ∨ (words p.buf).length ≤ 1 then []
  else
    let user := arg (words p.buf) 1
    let ret := ((l.ret.options GETUSER).username SERVER_NAME).realname SERVER_NAME
    let realname := LinkedList.get_real_name s.heap s.active_users_list user
    if realname = ERROR then
      [(fd, ((ret.options SERV_ERR).buf (user ++ str " not found.")).timestamp env.now)]
    else
      let title := (ret.buf (str "User Lookup")).timestamp env.now
      [(fd, title),
        (fd, (title.clearBuf.buf realname).buf (user ++ str "-" ++ realname))]

/-- The loop over a list of lines, with the variable as it is between two rounds. -/
def linesSent : List Str → Raw → List (Int × Raw)
  | [], _ => []
  | line :: lines, ret =>
    let ret' := (ret.timestamp env.now).buf line
    (fd, ret') :: linesSent lines ret'.clearBuf

def activeUsersSent : List (Int × Raw) :=
  let title := ((((l.ret.options GETALLUSERS).username SERVER_NAME).realname SERVER_NAME).buf
    (decInt s.active_users_list.length ++ str " users online")).timestamp env.now
  (fd, title) :: linesSent env fd (userTexts s s.active_users_list) title.clearBuf

def roomUsersSent : List (Int × Raw) :=
  match LinkedList.get_user s.heap s.active_users_list p.username with
  | none => []
  | some a => match LinkedList.Rget_roomFID s.room_list (s.heap a).roomID with
    | none => []
    | some r =>
      let title := ((((l.ret.options GETUSERS).username SERVER_NAME).realname SERVER_NAME).buf
        (decInt (s.members r).length ++ str " users in " ++ (s.room r).name)).timestamp env.now
      (fd, title) :: linesSent env fd (userTexts s (s.members r)) title.clearBuf

def roomListSent : List (Int × Raw) :=
  let title := ((((l.ret.options GETROOMS).username SERVER_NAME).realname SERVER_NAME).timestamp
    env.now).buf (decInt s.room_list.length ++ str " Rooms Found")
  (fd, title) :: linesSent env fd (s.room_list.map Room.name) title.clearBuf

/-- The packets that it sends, with their bytes. -/
def Call.sent (l : Locals) : Call → List (Int × Raw)
  | .sendError error _ => sendErrors env fd l [str error]
  | .sendMOTD => [(fd, motdPacket env l.motd)]
  | .login => loginSent sha256 env p fd s l
  | .join => joinSent env p fd s l
  | .leave => leaveSent env p fd s l
  | .invite => inviteSent env p fd s l
  | .set_name => setNameSent env p fd s l
  | .exit_client => exitSent env p fd s l
  | .user_lookup => lookupSent env p fd s l
  | .get_active_users => activeUsersSent env fd s l
  | .get_room_users => roomUsersSent env p fd s l
  | .get_room_list => roomListSent env fd s l

/-- A run of the handler that comes to its end. -/
def Call.Ends (s' : Server) (es : List Effect) : Call → Prop
  | .sendError error _ => ops.run (TBDChat.sendError env (str error) fd) s = .ok ((), s', es)
  | .sendMOTD => ops.run (TBDChat.sendMOTD env fd) s = .ok ((), s', es)
  | .login => ∃ b, ops.run (TBDChat.login sha256 env p fd) s = .ok (b, s', es)
  | .join => ops.run (TBDChat.join env p fd) s = .ok ((), s', es)
  | .leave => ops.run (TBDChat.leave env p fd) s = .ok ((), s', es)
  | .invite => ops.run (TBDChat.invite env p fd) s = .ok ((), s', es)
  | .set_name => ops.run (TBDChat.set_name env p fd) s = .ok ((), s', es)
  | .exit_client => ops.run (TBDChat.exit_client env p fd) s = .ok ((), s', es)
  | .user_lookup => ops.run (TBDChat.user_lookup env p fd) s = .ok ((), s', es)
  | .get_active_users => ops.run (TBDChat.get_active_users env fd) s = .ok ((), s', es)
  | .get_room_users => ops.run (TBDChat.get_room_users env p fd) s = .ok ((), s', es)
  | .get_room_list => ops.run (TBDChat.get_room_list env fd) s = .ok ((), s', es)

end Handlers

/-! ## To whom they go -/

/-- The connection that a packet is sent on. -/
def Effect.receiver : Effect → Option Int
  | .send fd _ => some fd
  | .logged _ _ => none
  | .close _ => none
  | .opened _ => none

/-- The same connections, in the same order. -/
def SameReceivers (sent : List (Int × Raw)) (es : List Effect) : Prop :=
  sent.map Prod.fst = es.filterMap Effect.receiver

section Receivers
variable {sha256 : Str → Digest} {env : Env} {p : Packet} {fd : Int} {s s' : Server} {l : Locals}
  {sent sent' : List (Int × Raw)} {es es' : List Effect} {m : Raw} {q : Packet}

namespace SameReceivers

theorem nil : SameReceivers [] [] := rfl

theorem send (h : SameReceivers sent es) :
    SameReceivers ((fd, m) :: sent) (.send fd q :: es) := congrArg (fd :: ·) h

theorem one : SameReceivers [(fd, m)] [.send fd q] := nil.send

theorem append (h : SameReceivers sent es) (h' : SameReceivers sent' es') :
    SameReceivers (sent ++ sent') (es ++ es') := by
  rw [SameReceivers, List.map_append, List.filterMap_append, h, h']

/-- What is not a packet goes to nobody. -/
theorem skip (h : SameReceivers sent es) (hnone : ∀ e ∈ es', e.receiver = none) :
    SameReceivers sent (es' ++ es) := by
  rw [SameReceivers, List.filterMap_append, List.filterMap_eq_nil_iff.mpr hnone, List.nil_append, h]

theorem room {clientfd : Int} {r : RoomRef} :
    SameReceivers (relayed s m clientfd r) (relay env s q clientfd r) := by
  rw [SameReceivers, relayed, List.map_map, relay, List.filterMap_cons_none rfl, deliveries,
    List.filterMap_map]
  exact (congrFun (List.filterMap_eq_map (f := fun a => (s.heap a).sock)) _).symm

/-- Error replies go to the connection of the request, one for each text. -/
theorem errors {errors : List Str} (h : es.filterMap Effect.receiver = errors.map fun _ => fd) :
    SameReceivers (sendErrors env fd l errors) es := by
  rw [SameReceivers, h, sendErrors, List.map_map]
  have hconst : (Prod.fst ∘ fun e : Str × Nat => (fd, errorPacket env e.1 (l.error e.2))) =
      (fun _ => fd) ∘ Prod.fst := rfl
  rw [hconst, ← List.map_map, List.zipIdx_map_fst]

end SameReceivers

theorem receivers_nameReply {invalid short long : String} {limit : Nat} {name : Str} :
    (nameReply env invalid short long limit name fd).filterMap Effect.receiver =
      (nameTexts invalid short long limit name).map fun _ => fd := by
  unfold nameTexts nameReply
  split
  · rfl
  split
  · rfl
  split
  · rfl
  · rfl

theorem receiver_fileEffects {n : Int} : ∀ e ∈ fileEffects s n, e.receiver = none := by
  unfold fileEffects
  split <;> simp [Effect.receiver]

theorem receiver_openEffects {n : Int} {name : Str} :
    ∀ e ∈ openEffects s n name, e.receiver = none := by
  unfold openEffects
  split <;> simp [Effect.receiver]

open SameReceivers

theorem loginSent_receivers {b : Bool}
    (h : ops.run (login sha256 env p fd) s = .ok (b, s', es)) :
    SameReceivers (loginSent sha256 env p fd s l) es := by
  rw [run_login] at h
  unfold loginSent
  dsimp only
  split at h
  · cases h
  rename_i h15
  split at h
  · rename_i h2
    cases h
    rw [if_pos (.inr h2)]
    exact nil
  rename_i h2
  rw [if_neg (not_or.mpr ⟨h15, h2⟩)]
  rcases ha : s.account (arg (words p.buf) 1) with _ | a
  · rw [ha] at h
    cases h
    exact one
  rw [ha] at h
  dsimp only at h ⊢
  split at h
  · rename_i hpass
    cases h
    rw [if_pos hpass]
    exact one
  rename_i hpass
  rw [if_neg hpass]
  split at h
  · rename_i hactive
    cases h
    rw [if_pos hactive]
    exact one
  rename_i hactive
  rw [if_neg hactive]
  rcases hr : LinkedList.Rget_roomFID s.room_list DEFAULT_ROOM with _ | r
  · rw [hr] at h
    cases h
  rw [hr] at h
  cases h
  exact (room.append one).send

theorem setNameSent_receivers (h : ops.run (set_name env p fd) s = .ok ((), s', es)) :
    SameReceivers (setNameSent env p fd s l) es := by
  rw [run_set_name] at h
  unfold setNameSent
  dsimp only
  split at h
  · rename_i hname
    cases h
    rw [if_pos hname]
    exact errors receivers_nameReply
  rename_i hname
  rw [if_neg hname]
  rcases ha : LinkedList.get_user s.heap s.registered_users_list p.username with _ | a
  · rw [ha] at h
    cases h
    exact one
  rw [ha] at h
  dsimp only at h ⊢
  obtain ⟨es', hrun, rfl⟩ := Outcome.prepend_eq_ok h
  obtain ⟨r, es₂, hr, hend, rfl⟩ := announce_then_eq_ok hrun
  cases hend
  rw [rename_roomID] at hr
  have hroom : LinkedList.Rget_roomFID s.room_list (s.heap a).roomID = some r := hr
  rw [hroom]
  exact (room.append one).skip receiver_fileEffects

theorem inviteSent_receivers (h : ops.run (invite env p fd) s = .ok ((), s', es)) :
    SameReceivers (inviteSent env p fd s l) es := by
  rw [run_invite] at h
  unfold inviteSent
  dsimp only
  split at h
  · cases h
  rename_i h15
  cases h
  rw [if_neg h15]
  by_cases h1 : (words p.buf).length ≤ 1
  · rw [if_pos h1, if_pos h1]
    exact one
  rw [if_neg h1, if_neg h1]
  cases LinkedList.Rget_roomFID s.room_list (atoi (arg (words p.buf) 1)) with
  | none => exact one
  | some r =>
    cases LinkedList.get_user s.heap s.active_users_list (arg (words p.buf) 0) with
    | none => exact one
    | some a => exact one.send

theorem changeRoomSent_receivers
    (h : ops.run (changeRoom env p fd (words p.buf)) s = .ok ((), s', es)) :
    SameReceivers (changeRoomSent env p fd s l) es := by
  rw [run_changeRoom] at h
  unfold changeRoomSent
  rcases hr : LinkedList.Rget_roomFID s.room_list (atoi (arg (words p.buf) 1)) with _ | r
  · rw [hr] at h
    cases h
    exact nil
  rw [hr] at h
  dsimp only at h ⊢
  rcases ha : LinkedList.get_user s.heap (s.members r) p.username with _ | a
  · rw [ha] at h
    cases h
  rw [ha] at h
  dsimp only at h ⊢
  rcases hr' : LinkedList.Rget_roomFNAME s.room_list (arg (words p.buf) 0) with _ | r'
  · rw [hr'] at h
    cases h
  rw [hr'] at h
  dsimp only at h ⊢
  obtain ⟨es₁, hmoved, rfl⟩ := Outcome.prepend_eq_ok h
  obtain ⟨q, es₃, hq, hjoined, rfl⟩ := announce_then_eq_ok hmoved
  obtain ⟨q', hq', rfl, rfl⟩ := announce_eq_ok hjoined
  rw [Rget_roomFID_move] at hq hq'
  obtain rfl : r = q := Option.some.inj (hr.symm.trans hq)
  rw [hq']
  exact (room.append room).send

theorem joinSent_receivers (h : ops.run (join env p fd) s = .ok ((), s', es)) :
    SameReceivers (joinSent env p fd s l) es := by
  rw [run_join] at h
  unfold joinSent
  dsimp only
  split at h
  · cases h
  rename_i h15
  rw [if_neg h15]
  split at h
  · rename_i h1
    cases h
    rw [if_pos h1]
    exact one
  rename_i h1
  rw [if_neg h1]
  split at h
  · rename_i hname
    cases h
    rw [if_pos hname]
    refine errors ?_
    rw [List.filterMap_append, receivers_nameReply, List.map_append]
    rfl
  rename_i hname
  rw [if_neg hname]
  obtain ⟨es', hrun, rfl⟩ := Outcome.prepend_eq_ok h
  exact (changeRoomSent_receivers hrun).skip receiver_openEffects

theorem leaveSent_receivers (h : ops.run (leave env p fd) s = .ok ((), s', es)) :
    SameReceivers (leaveSent env p fd s l) es := by
  rw [run_leave] at h
  unfold leaveSent
  split at h
  · cases h
  rename_i h15
  split at h
  · rename_i h1
    cases h
    rw [if_pos (.inr h1)]
    exact nil
  rename_i h1
  rw [if_neg (not_or.mpr ⟨h15, h1⟩)]
  rcases hr : LinkedList.Rget_roomFID s.room_list (atoi (arg (words p.buf) 1)) with _ | r
  · rw [hr] at h
    cases h
    exact nil
  rw [hr] at h
  dsimp only at h ⊢
  rcases ha : LinkedList.get_user s.heap (s.members r) p.username with _ | a
  · rw [ha] at h
    cases h
    exact nil
  rw [ha] at h
  dsimp only at h ⊢
  rcases hd : LinkedList.Rget_roomFID s.room_list DEFAULT_ROOM with _ | d
  · rw [hd] at h
    cases h
  rw [hd] at h
  dsimp only at h ⊢
  obtain ⟨q, es₂, hq, hann, rfl⟩ := announce_then_eq_ok h
  obtain ⟨es₃, hjoined, rfl⟩ := Outcome.prepend_eq_ok hann
  obtain ⟨d', hd', rfl, rfl⟩ := announce_eq_ok hjoined
  have hID : ((s.move a r d 1000).room d).ID = DEFAULT_ROOM :=
    (Server.room_congr ((SameRooms.move s a r d 1000).map fun _ _ => rfl) d).trans
      (Server.room_of_Rget_roomFID hd)
  rw [Rget_roomFID_move] at hq hd'
  rw [hID] at hd'
  obtain rfl : r = q := Option.some.inj (hr.symm.trans hq)
  obtain rfl : d = d' := Option.some.inj (hd.symm.trans hd')
  exact room.append room.send

theorem exitSent_receivers (h : ops.run (exit_client env p fd) s = .ok ((), s', es)) :
    SameReceivers (exitSent env p fd s l) es := by
  rw [run_exit_client] at h
  unfold exitSent
  rcases ha : LinkedList.get_user s.heap s.active_users_list p.username with _ | a
  · rw [ha] at h
    cases h
    exact nil
  rw [ha] at h
  dsimp only at h ⊢
  rcases hr : LinkedList.Rget_roomFID s.room_list (s.heap a).roomID with _ | r
  · rw [hr] at h
    cases h
  rw [hr] at h
  cases h
  have hclosed : SameReceivers [] [.close fd] := rfl
  exact room.append hclosed.send

theorem lookupSent_receivers (h : ops.run (user_lookup env p fd) s = .ok ((), s', es)) :
    SameReceivers (lookupSent env p fd s l) es := by
  rw [run_user_lookup] at h
  unfold lookupSent
  dsimp only
  split at h
  · cases h
  rename_i h15
  split at h
  · rename_i h1
    cases h
    rw [if_pos (.inr h1)]
    exact nil
  rename_i h1
  rw [if_neg (not_or.mpr ⟨h15, h1⟩)]
  cases h
  dsimp only
  split
  · exact one
  · exact one.send

theorem linesSent_receivers {α : Type} {xs : List α} {text : α → Str} {reply : α → Packet} :
    SameReceivers (linesSent env fd (xs.map text) m) (xs.map fun x => .send fd (reply x)) := by
  induction xs generalizing m with
  | nil => exact nil
  | cons x xs ih => exact ih.send

theorem roomUsersSent_receivers (h : ops.run (get_room_users env p fd) s = .ok ((), s', es)) :
    SameReceivers (roomUsersSent env p fd s l) es := by
  rw [run_get_room_users] at h
  unfold roomUsersSent
  rcases ha : LinkedList.get_user s.heap s.active_users_list p.username with _ | a
  · rw [ha] at h
    cases h
    exact nil
  rw [ha] at h
  dsimp only at h ⊢
  rcases hr : LinkedList.Rget_roomFID s.room_list (s.heap a).roomID with _ | r
  · rw [hr] at h
    cases h
    exact nil
  rw [hr] at h
  cases h
  exact linesSent_receivers.send

/-- **The bytes go where the packets go.** -/
theorem Call.sent_receivers {c : Call} (h : c.Ends sha256 env p fd s s' es) :
    SameReceivers (c.sent sha256 env p fd s l) es := by
  cases c with
  | sendError error =>
    rw [Call.Ends, run_sendError] at h
    cases h
    exact one
  | sendMOTD =>
    rw [Call.Ends, run_sendMOTD] at h
    cases h
    exact one
  | login =>
    obtain ⟨b, h⟩ := h
    exact loginSent_receivers h
  | join => exact joinSent_receivers h
  | leave => exact leaveSent_receivers h
  | invite => exact inviteSent_receivers h
  | set_name => exact setNameSent_receivers h
  | exit_client => exact exitSent_receivers h
  | user_lookup => exact lookupSent_receivers h
  | get_active_users =>
    rw [Call.Ends, run_get_active_users] at h
    cases h
    exact linesSent_receivers.send
  | get_room_users => exact roomUsersSent_receivers h
  | get_room_list =>
    rw [Call.Ends, run_get_room_list] at h
    cases h
    exact linesSent_receivers.send

end Receivers
end TBDChat
