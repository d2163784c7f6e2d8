import TBDChat.Lib.Guarded
import TBDChat.ServerClients

/-!
# The handlers with their mutexes

The handlers of `ServerClients` once more, with what they and the list functions do to the
mutexes.  A list function is passed its mutex by value, and what it locks and unlocks is its
copy; the three listings lock the mutex itself, and `send_message` unlocks that of the room.

Without the mutexes these are the handlers of `ServerClients` (`client_receive_erases`).
-/

namespace TBDChat.Locked
open Atomic Atomic.GuardedProg

/-- What a mutex is kept with: a user list or the room list. -/
inductive Key where
  | users (l : ListRef)
  | rooms
  deriving DecidableEq

/-- A handler that thread `ι` runs, with its mutex steps. -/
abbrev Steps (ι α : Type) := GuardedProg Key ι Op Op.Ar α

/-- `registered_users_mutex`, `active_users_mutex`, and the `user_list_mutex` of a room. -/
abbrev users_mutex (l : ListRef) : Mutex Key := .shared (.users l)

abbrev rooms_mutex : Mutex Key := .shared .rooms

/-- The mutex that is passed to a function which locks it.  `listLength` does not. -/
def mutex? : Op → Option (Mutex Key)
  | .get_real_name l _ => some (users_mutex l)
  | .get_password l _ => some (users_mutex l)
  | .get_user l _ => some (users_mutex l)
  | .insertUser l _ => some (users_mutex l)
  | .insertNode l _ => some (users_mutex l)
  | .writeUserFile _ => some (users_mutex .registered)
  | .Rget_ID _ => some rooms_mutex
  | .Rget_name _ => some rooms_mutex
  | .Rget_roomFID _ => some rooms_mutex
  | .Rget_roomFNAME _ => some rooms_mutex
  | _ => none

section Handlers
variable {ι : Type} (i : ι)

/-! ## The list functions -/

/-- An operation of thread `i`. -/
def steps (o : Op) : Steps ι o.Ar :=
  match mutex? o with
  | some mutex => withCopy i mutex (op o)
  | none => op o

/-- A piece of a handler with no steps on mutexes but those of the list functions. -/
def does {α : Type} : Handler α → Steps ι α
  | .ret a => .ret a
  | .act o k => steps i o >>= fun b => does (k b)

/-- The copy is unlocked before `removeNode` is called, which is passed a copy of it.  The
list is changed where the user is looked for. -/
def removeUser (l : ListRef) (a : Addr) : Steps ι Bool := do
  let mutex ← pass (users_mutex l)
  let found : Bool ← locked i (.copy mutex) (op (Op.removeUser l a))
  if found then withCopy i (.copy mutex) (pure ()) else pure ()
  pure found

/-- The mutex that `createRoom` passes on is a copy itself. -/
def insertRoom (room : Room) (mutex : Nat) : Steps ι Bool :=
  withCopy i (.copy mutex) (op (Op.insertRoom room))

def printList (l : ListRef) : Steps ι Unit := withCopy i (users_mutex l) (pure ())

/-- The loop of `RprintList`. -/
def printLists : List RoomRef → Steps ι Unit
  | [] => pure ()
  | r :: rooms => do
    printList i (.room r)
    printLists rooms

/-- The users of the first room are not printed. -/
def RprintList : Steps ι Unit :=
  withCopy i rooms_mutex do
    let rooms : List Room ← peek Op.walkRooms
    printLists i (List.range' 1 (rooms.length - 1))

/-! ## The handlers -/

variable (sha256 : Str → Digest) (env : Env)

/-- The mutex that is unlocked in the end is not the copy that `printList` locked. -/
def send_message (pkt : Packet) (clientfd : Int) : Steps ι Unit := do
  match ← does i (Rget_roomFID pkt.options) with
  | none => does i (fault .null)
  | some r =>
    let currentRoom ← does i (loadRoom r)
    does i (log_message env pkt currentRoom.fd)
    printList i (.room r)
    let tmp ← does i (walk (.room r))
    does i (sendAll pkt clientfd tmp)
    release (users_mutex (.room r))

/-- `insertUser` takes a copy of the active users' mutex; `send_message` takes the room's. -/
def login (pkt : Packet) (fd : Int) : Steps ι Bool := do
  let args ← does i (splitArgs pkt.buf)
  if args.length > 2 then
    let realname ← does i (get_real_name .registered (arg args 1))
    if realname = ERROR then do
      does i (sendError env (str "Username not found.") fd)
      pure false
    else do
      let password ← does i (get_password .registered (arg args 1))
      let same ← does i (comparePasswords password (sha256 (arg args 2)))
      if !same then do
        does i (sendError env (str "Incorrect password.") fd)
        pure false
      else do
        match ← does i (get_user .registered (arg args 1)) with
        | none => does i (fault .null)
        | some user =>
          let inserted ← does i (insertUser .active user)
          if inserted then do
            does i (setSock user fd)
            does i (setRoomID user 1000)
            match ← does i (Rget_roomFID DEFAULT_ROOM) with
            | none => does i (fault .null)
            | some defaultRoom =>
              does i (insertNode (.room defaultRoom) user)
              let realname ← does i (get_real_name .registered (arg args 1))
              does i (send fd { env.ret with
                realname := realname, username := arg args 1, options := LOGSUC,
                timestamp := env.now })
              let u ← does i (load user)
              send_message i env
                (serverPacket env DEFAULT_ROOM (u.real_name ++ str " has joined the lobby.")) (-1)
              does i (sendMOTD env fd)
              pure true
          else do
            does i (sendError env (str "User already logged in.") fd)
            does i (free user)
            pure false
  else pure false

/-- Between the test for the name and `insertUser` no mutex is held. -/
def register_user (in_pkt : Packet) (fd : Int) : Steps ι Bool := do
  let args ← does i (splitArgs in_pkt.buf)
  if args.length > 3 then
    let valid ← does i (validUsername env (arg args 1) fd)
    if !valid then pure false
    else do
      let realname ← does i (get_real_name .registered (arg args 1))
      if realname ≠ ERROR ∨ SERVER_NAME = arg args 1 ∨ arg args 2 ≠ arg args 3 then do
        does i (sendError env (str "Username unavailable.") fd)
        pure false
      else
        let valid ← does i (validPassword env (arg args 2) (arg args 3) fd)
        if !valid then pure false
        else do
          let user ← does i (malloc (newUser sha256 env (arg args 1) (arg args 2) fd))
          let _ ← does i (insertUser .registered user)
          does i (writeUserFile env.fd)
          login i sha256 env
            { in_pkt with buf := str "/login" ++ 32 :: (arg args 1 ++ 32 :: arg args 2) } fd
  else pure false

def createRoom (ID : Int) (name : Str) (mutex : Nat) : Steps ι Bool := do
  does i (open_log env.fd)
  does i incNumRooms
  insertRoom i { ID := ID, fd := env.fd, name := name.take ROOMNAME_LENGTH, user_list := [] } mutex

/-- The second half of `join`. -/
def changeRoom (pkt : Packet) (fd : Int) (args : List Str) : Steps ι Unit := do
  let newRoom ← does i (Rget_roomFNAME (arg args 0))
  let currRoomNum := atoi (arg args 1)
  match ← does i (Rget_roomFID currRoomNum) with
  | none => pure ()
  | some currentRoom =>
    match ← does i (get_user (.room currentRoom) pkt.username) with
    | none => does i (fault .null)
    | some currUser =>
      let _ ← removeUser i (.room currentRoom) currUser
      match newRoom with
      | none => does i (fault .null)
      | some newRoom =>
        let room ← does i (loadRoom newRoom)
        does i (setRoomID currUser room.ID)
        let _ ← does i (insertUser (.room newRoom) currUser)
        RprintList i
        does i (send fd (serverPacket env JOINSUC (arg args 0 ++ str " " ++ dec room.ID)))
        let u ← does i (load currUser)
        send_message i env (serverPacket env currRoomNum
          (strncpy64 u.real_name [] ++ str " has left the room.")) (-1)
        send_message i env (serverPacket env room.ID
          (strncpy64 u.real_name [] ++ str " has joined the room.")) (-1)

/-- Between the test for the room and `insertRoom` no mutex is held. -/
def join (pkt : Packet) (fd : Int) : Steps ι Unit := do
  let args ← does i (splitArgs pkt.buf)
  let valid ← if args.length > 1 then does i (validRoomname env (arg args 0) fd) else pure false
  if valid then do
    let ID ← does i (Rget_ID (arg args 0))
    let _ ← if ID = -1 then do
        let n ← does i readNumRooms
        let mutex ← pass rooms_mutex
        createRoom i env n (arg args 0) mutex
      else pure false
    RprintList i
    changeRoom i env pkt fd args
  else does i (sendError env (str "We were unable to put you in that room, sorry.") fd)

/-- The user is in neither room between `removeUser` and `insertUser`. -/
def leave (pkt : Packet) (fd : Int) : Steps ι Unit := do
  let args ← does i (splitArgs pkt.buf)
  if args.length > 1 then do
    let roomNum := atoi (arg args 1)
    if roomNum ≠ DEFAULT_ROOM then do
      match ← does i (Rget_roomFID roomNum) with
      | none => pure ()
      | some currRoom =>
        match ← does i (get_user (.room currRoom) pkt.username) with
        | none => pure ()
        | some currUser =>
          let _ ← removeUser i (.room currRoom) currUser
          match ← does i (Rget_roomFID DEFAULT_ROOM) with
          | none => does i (fault .null)
          | some defaultRoom =>
            does i (setRoomID currUser 1000)
            let _ ← does i (insertUser (.room defaultRoom) currUser)
            let u ← does i (load currUser)
            send_message i env (serverPacket env roomNum
              (strncpy64 u.real_name (env.ret.buf.drop 64) ++ str " has left the room.")) (-1)
            let room ← does i (loadRoom defaultRoom)
            does i (send fd (serverPacket env JOINSUC
              (room.name ++ str " " ++ dec room.ID ++ str " has joined the room.")))
            send_message i env (serverPacket env room.ID
              (strncpy64 u.real_name [] ++ str " has joined the room.")) (-1)
    else pure ()
  else pure ()

/-- The record is changed with no mutex held. -/
def set_name (pkt : Packet) (fd : Int) : Steps ι Unit := do
  let name := localName env pkt.buf
  let valid ← does i (validRealname env name fd)
  if !valid then pure ()
  else do
    match ← does i (get_user .registered pkt.username) with
    | some user =>
      let u ← does i (load user)
      let old := strncpy64 u.real_name (env.ret.buf.drop 64)
      does i (store user 64 (List.replicate 64 0))
      does i (store user 64 (Bytes.pad 64 name))
      does i (writeUserFile env.fd)
      let u ← does i (load user)
      send_message i env
        (serverPacket env u.roomID (old ++ str " is now known as " ++ u.real_name)) fd
      does i (send fd (serverPacket env NAMESUC name))
    | none =>
      does i (send fd (serverPacket env SERV_ERR
        (str "Name change failed, for some reason we couldn't find you.")))

/-- The descriptor is closed before the user is taken out of the lists. -/
def exit_client (pkt : Packet) (fd : Int) : Steps ι Unit := do
  match ← does i (get_user .active pkt.username) with
  | none => pure ()
  | some current =>
    let u ← does i (load current)
    send_message i env
      (serverPacket env u.roomID (str "User " ++ pkt.realname ++ str " has disconnected.")) (-1)
    does i (send fd (serverPacket env EXIT (str "Goodbye!")))
    does i (close fd)
    match ← does i (Rget_roomFID u.roomID) with
    | none => does i (fault .null)
    | some room =>
      let _ ← removeUser i (.room room) current
      let _ ← removeUser i .active current
      pure ()

/-- The list is walked with its own mutex locked. -/
def get_active_users (fd : Int) : Steps ι Unit := do
  let num_users ← does i (listLength .active)
  does i (send fd (serverPacket env GETALLUSERS (dec num_users ++ str " users online")))
  locked i (users_mutex .active) do
    let temp : List Addr ← op (Op.walk .active)
    does i (sendUsers env GETALLUSERS fd temp)

/-- As `get_active_users`, for the room's list and its mutex. -/
def get_room_users (in_pkt : Packet) (fd : Int) : Steps ι Unit := do
  match ← does i (get_user .active in_pkt.username) with
  | none => pure ()
  | some user =>
    let u ← does i (load user)
    match ← does i (Rget_roomFID u.roomID) with
    | none => pure ()
    | some currRoom =>
      let num_users ← does i (listLength (.room currRoom))
      let room ← does i (loadRoom currRoom)
      does i (send fd
        (serverPacket env GETUSERS (dec num_users ++ str " users in " ++ room.name)))
      locked i (users_mutex (.room currRoom)) do
        let temp : List Addr ← op (Op.walk (.room currRoom))
        does i (sendUsers env GETUSERS fd temp)

/-- The rooms are those that there were when they were counted. -/
def get_room_list (fd : Int) : Steps ι Unit := do
  let rooms ← does i walkRooms
  does i (send fd (serverPacket env GETROOMS (dec rooms.length ++ str " Rooms Found")))
  locked i rooms_mutex (does i (sendRooms env fd rooms))

/-! ## The thread of a client -/

def receiveAnonymous (in_pkt : Packet) (client : Int) : Steps ι Next :=
  if in_pkt.options = REGISTER then do
    let logged_in ← register_user i sha256 env in_pkt client
    pure (.receive (if logged_in then some (loginName in_pkt) else none))
  else if in_pkt.options = LOGIN then do
    let logged_in ← login i sha256 env in_pkt client
    pure (.receive (if logged_in then some (loginName in_pkt) else none))
  else if in_pkt.options = EXIT then do
    does i (close client)
    pure .done
  else do
    does i (sendError env (str "Not logged in.") client)
    pure (.receive none)

/-- The chain of tests on the option, in the source's order. -/
def receiveRequest (in_pkt : Packet) (client : Int) : Steps ι Unit :=
  if in_pkt.options = REGISTER then
    does i (sendError env (str "You may not register while logged in.") client)
  else if in_pkt.options = SETPASS then does i (set_pass sha256 env in_pkt client)
  else if in_pkt.options = SETNAME then set_name i env in_pkt client
  else if in_pkt.options = LOGIN then
    does i (sendError env (str "Already logged in.") client)
  else if in_pkt.options = INVITE then does i (invite env in_pkt client)
  else if in_pkt.options = JOIN then join i env in_pkt client
  else if in_pkt.options = LEAVE then leave i env in_pkt client
  else if in_pkt.options = GETALLUSERS then get_active_users i env client
  else if in_pkt.options = GETUSERS then get_room_users i env in_pkt client
  else if in_pkt.options = GETUSER then does i (user_lookup env in_pkt client)
  else if in_pkt.options = GETROOMS then get_room_list i env client
  else if in_pkt.options = GETMOTD then does i (sendMOTD env client)
  else pure ()

def receiveSession (session : Str) (in_pkt : Packet) (client : Int) : Steps ι Next :=
  if in_pkt.options < 1000 then
    if in_pkt.options = EXIT ∨ in_pkt.options = 0 then do
      exit_client i env in_pkt client
      pure .done
    else do
      receiveRequest i sha256 env in_pkt client
      pure (.receive (some session))
  else do
    send_message i env { in_pkt with buf := (sanitizeInput in_pkt.buf 0).1 } client
    pure (.receive (some session))

/-- One round of the loop of `client_receive`. -/
def client_receive (session : Option Str) (in_pkt : Packet) (client : Int) : Steps ι Next :=
  match session with
  | none => receiveAnonymous i sha256 env in_pkt client
  | some name => receiveSession i sha256 env name in_pkt client

end Handlers

/-! ## Without the mutexes -/

section Erasure
variable {ι : Type} {i : ι} {sha256 : Str → Digest} {env : Env} {pkt : Packet} {fd : Int}

/-- Without its mutex steps a list function is the one atomic operation. -/
theorem steps_erases (o : Op) : Erases (steps i o) (.call o) := by
  unfold steps
  split
  · exact (Erases.op o).withCopy
  · exact Erases.op o

/-- What takes no mutex is the same in both models. -/
theorem does_erases {α : Type} (p : Handler α) : Erases (does i p) p := by
  induction p with
  | ret a => exact .ret a
  | act o k ih => exact (steps_erases o).bind ih

theorem removeUser_erases {l : ListRef} {a : Addr} :
    Erases (removeUser i l a) (TBDChat.removeUser l a) := by
  intro n
  refine (Erases.locked (Erases.op (Op.removeUser l a))).followed fun found => ?_
  cases found with
  | true => exact fun _ => rfl
  | false => rfl

theorem printList_erases {l : ListRef} : Erases (printList i l) (.ret () : Handler Unit) :=
  fun _ => rfl

theorem printLists_erases {rooms : List RoomRef} :
    Erases (printLists i rooms) (.ret () : Handler Unit) := by
  induction rooms with
  | nil => rfl
  | cons r rooms ih => exact printList_erases.after fun _ => ih

theorem RprintList_erases : Erases (RprintList i) (.ret () : Handler Unit) :=
  Erases.withCopy fun _ => printLists_erases

/-- The printing of the room's list and the stray unlock leave nothing behind. -/
theorem send_message_erases :
    Erases (send_message i env pkt fd) (TBDChat.send_message env pkt fd) := by
  refine (does_erases _).bind fun r => ?_
  cases r with
  | none => exact does_erases _
  | some r =>
    refine (does_erases _).bind fun currentRoom => (does_erases _).bind fun _ => ?_
    refine printList_erases.after fun _ => (does_erases _).bind fun tmp => ?_
    exact (does_erases _).followed fun _ => rfl

/-- The branches are those of `login`, with the same answer of `insertUser`. -/
theorem login_erases : Erases (login i sha256 env pkt fd) (TBDChat.login sha256 env pkt fd) := by
  refine (does_erases _).bind fun args => .ite ?_ rfl
  refine (does_erases _).bind fun realname => .ite ((does_erases _).bind fun _ => rfl) ?_
  refine (does_erases _).bind fun password => (does_erases _).bind fun same => ?_
  refine .ite ((does_erases _).bind fun _ => rfl) ((does_erases _).bind fun user => ?_)
  cases user with
  | none => exact does_erases _
  | some user =>
    refine (does_erases _).bind fun inserted => .ite ?_ ?_
    · refine (does_erases _).bind fun _ => (does_erases _).bind fun _ =>
        (does_erases _).bind fun defaultRoom => ?_
      cases defaultRoom with
      | none => exact does_erases _
      | some defaultRoom =>
        refine (does_erases _).bind fun _ => (does_erases _).bind fun realname =>
          (does_erases _).bind fun _ => (does_erases _).bind fun u => ?_
        exact send_message_erases.bind fun _ => (does_erases _).bind fun _ => rfl
    · exact (does_erases _).bind fun _ => (does_erases _).bind fun _ => rfl

theorem register_user_erases :
    Erases (register_user i sha256 env pkt fd) (TBDChat.register_user sha256 env pkt fd) := by
  refine (does_erases _).bind fun args => .ite ?_ rfl
  refine (does_erases _).bind fun valid => .ite rfl ((does_erases _).bind fun realname => ?_)
  refine .ite ((does_erases _).bind fun _ => rfl) ((does_erases _).bind fun valid => .ite rfl ?_)
  refine (does_erases _).bind fun user => (does_erases _).bind fun _ => ?_
  exact (does_erases _).bind fun _ => login_erases

theorem createRoom_erases {ID : Int} {name : Str} {mutex : Nat} :
    Erases (createRoom i env ID name mutex) (TBDChat.createRoom env ID name) := by
  refine (does_erases _).bind fun _ => (does_erases _).bind fun _ => ?_
  exact (Erases.op (Op.insertRoom _)).withCopy

/-- The two removals and insertions are the operations of `changeRoom`. -/
theorem changeRoom_erases {args : List Str} :
    Erases (changeRoom i env pkt fd args) (TBDChat.changeRoom env pkt fd args) := by
  refine (does_erases _).bind fun newRoom => (does_erases _).bind fun currentRoom => ?_
  cases currentRoom with
  | none => rfl
  | some currentRoom =>
    refine (does_erases _).bind fun currUser => ?_
    cases currUser with
    | none => exact does_erases _
    | some currUser =>
      refine removeUser_erases.bind fun _ => ?_
      cases newRoom with
      | none => exact does_erases _
      | some newRoom =>
        refine (does_erases _).bind fun room => (does_erases _).bind fun _ =>
          (does_erases _).bind fun _ => ?_
        refine RprintList_erases.after fun _ => (does_erases _).bind fun _ =>
          (does_erases _).bind fun u => ?_
        exact send_message_erases.bind fun _ => send_message_erases

theorem join_erases : Erases (join i env pkt fd) (TBDChat.join env pkt fd) := by
  refine (does_erases _).bind fun args => .ite ((does_erases _).bind fun valid => ?_) ?_
  · have hroom : Erases (RprintList i >>= fun _ => changeRoom i env pkt fd args)
        (TBDChat.changeRoom env pkt fd args) := RprintList_erases.after fun _ => changeRoom_erases
    refine .ite ((does_erases _).bind fun ID => .ite ?_ hroom) (does_erases _)
    exact (does_erases _).bind fun n mutex => createRoom_erases.bind fun _ => hroom
  · exact does_erases (sendError env (str "We were unable to put you in that room, sorry.") fd)

theorem leave_erases : Erases (leave i env pkt fd) (TBDChat.leave env pkt fd) := by
  refine (does_erases _).bind fun args => .ite (.ite ?_ rfl) rfl
  refine (does_erases _).bind fun currRoom => ?_
  cases currRoom with
  | none => rfl
  | some currRoom =>
    refine (does_erases _).bind fun currUser => ?_
    cases currUser with
    | none => rfl
    | some currUser =>
      refine removeUser_erases.bind fun _ => (does_erases _).bind fun defaultRoom => ?_
      cases defaultRoom with
      | none => exact does_erases _
      | some defaultRoom =>
        refine (does_erases _).bind fun _ => (does_erases _).bind fun _ =>
          (does_erases _).bind fun u => send_message_erases.bind fun _ => ?_
        exact (does_erases _).bind fun room => (does_erases _).bind fun _ => send_message_erases

theorem set_name_erases : Erases (set_name i env pkt fd) (TBDChat.set_name env pkt fd) := by
  refine (does_erases _).bind fun valid => .ite rfl ((does_erases _).bind fun user => ?_)
  cases user with
  | none => exact does_erases _
  | some user =>
    refine (does_erases _).bind fun u => (does_erases _).bind fun _ =>
      (does_erases _).bind fun _ => (does_erases _).bind fun _ => (does_erases _).bind fun u => ?_
    exact send_message_erases.bind fun _ => does_erases _

theorem exit_client_erases :
    Erases (exit_client i env pkt fd) (TBDChat.exit_client env pkt fd) := by
  refine (does_erases _).bind fun current => ?_
  cases current with
  | none => rfl
  | some current =>
    refine (does_erases _).bind fun u => send_message_erases.bind fun _ => ?_
    refine (does_erases _).bind fun _ => (does_erases _).bind fun _ =>
      (does_erases _).bind fun room => ?_
    cases room with
    | none => exact does_erases _
    | some room => exact removeUser_erases.bind fun _ => removeUser_erases.bind fun _ => rfl

/-- The walk under the mutex is the same walk. -/
theorem get_active_users_erases :
    Erases (get_active_users i env fd) (TBDChat.get_active_users env fd) := by
  refine (does_erases _).bind fun num_users => (does_erases _).bind fun _ => .locked ?_
  exact (Erases.op (Op.walk .active)).bind fun temp => does_erases _

theorem get_room_users_erases :
    Erases (get_room_users i env pkt fd) (TBDChat.get_room_users env pkt fd) := by
  refine (does_erases _).bind fun user => ?_
  cases user with
  | none => rfl
  | some user =>
    refine (does_erases _).bind fun u => (does_erases _).bind fun currRoom => ?_
    cases currRoom with
    | none => rfl
    | some currRoom =>
      refine (does_erases _).bind fun num_users => (does_erases _).bind fun room =>
        (does_erases _).bind fun _ => .locked ?_
      exact (Erases.op (Op.walk (.room currRoom))).bind fun temp => does_erases _

theorem get_room_list_erases :
    Erases (get_room_list i env fd) (TBDChat.get_room_list env fd) :=
  (does_erases _).bind fun _ => (does_erases _).bind fun _ => (does_erases _).locked

/-- Each option has its handler's lemma. -/
theorem receiveRequest_erases :
    Erases (receiveRequest i sha256 env pkt fd) (TBDChat.receiveRequest sha256 env pkt fd) := by
  refine .ite (does_erases _) (.ite (does_erases _) (.ite set_name_erases ?_))
  refine .ite (does_erases _) (.ite (does_erases _) (.ite join_erases (.ite leave_erases ?_)))
  refine .ite get_active_users_erases (.ite get_room_users_erases (.ite (does_erases _) ?_))
  exact .ite get_room_list_erases (.ite (does_erases _) rfl)

/-- **Without the mutexes a thread runs `client_receive`.** -/
theorem client_receive_erases {session : Option Str} :
    Erases (client_receive i sha256 env session pkt fd)
      (TBDChat.client_receive sha256 env session pkt fd) := by
  cases session with
  | none =>
    refine .ite (register_user_erases.bind fun _ => rfl) ?_
    refine .ite (login_erases.bind fun _ => rfl) ?_
    exact .ite ((does_erases _).bind fun _ => rfl) ((does_erases _).bind fun _ => rfl)
  | some name =>
    refine .ite (.ite (exit_client_erases.bind fun _ => rfl) ?_) ?_
    · exact receiveRequest_erases.bind fun _ => rfl
    · exact send_message_erases.bind fun _ => rfl

end Erasure
end TBDChat.Locked
