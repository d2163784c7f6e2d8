import TBDChat.Server

/-!
# The handlers of `server_clients.c`

Each handler is the C function of the same name, as a program over the atomic
operations of `Server`.  A handler is given an `Env`: the time, what `open`
returns, and what it reads from memory it has not written.  SHA-256 is a
parameter throughout.  Texts composed with `sprintf` and `strcat` are kept whole.
-/

namespace TBDChat
open Atomic Bytes

/-- A SHA-256 digest. -/
structure Digest where
  bytes : List UInt8
  size : bytes.length = 32

/-- What a handler reads that neither the packet nor the server's lists
determine. -/
structure Env where
  /-- `time(NULL)`. -/
  now : Int
  /-- `asctime(localtime(&t))`, `none` where `localtime` fails. -/
  asctime : Int → Option Str
  asctime_now : (asctime now).isSome
  /-- The descriptor `open` returns. -/
  fd : Int
  /-- A `User` as `malloc` returns it. -/
  user : User
  /-- A local `packet ret` before any assignment. -/
  ret : Packet
  /-- The bytes behind `name[64]` in `set_name`. -/
  behind : Str

variable (sha256 : Str → Digest) (env : Env)

/-- Split a command into `args`.  More than 15 words and the NULL behind them do
not fit `args[16]`. -/
def splitArgs (buf : Str) : Handler (List Str) :=
  if (words buf).length ≤ 15 then pure (words buf) else fault .overflow

/-- `args[i]` of a command that has such a word. -/
def arg (args : List Str) (i : Nat) : Str := args.getD i []

/-- The string in a buffer after `strncpy` of 64 bytes; `rest` is the string
behind them, which counts where no NUL was copied. -/
def strncpy64 (src rest : Str) : Str := if src.length < 64 then src else src.take 64 ++ rest

/-- A packet from the server itself. -/
def serverPacket (options : Int) (buf : Str) : Packet where
  timestamp := env.now
  buf := buf
  username := SERVER_NAME
  realname := SERVER_NAME
  options := options

def sendError (error : Str) (clientfd : Int) : Handler Unit :=
  send clientfd (serverPacket env SERV_ERR error)

/-- The three tests of a name and their replies. -/
def validName (invalid short long : String) (limit : Nat) (name : Str) (client : Int) :
    Handler Bool :=
  if (sanitizeInput name 1).2 ≠ 0 then do
    sendError env (str invalid) client
    pure false
  else if name.length < 3 then do
    sendError env (str short) client
    pure false
  else if name.length > limit then do
    sendError env (str long) client
    pure false
  else pure true

def validUsername (username : Str) (client : Int) : Handler Bool :=
  validName env "Invalid characters in username." "Username is too short."
    "Username is too long." USERNAME_LENGTH username client

def validRealname (realname : Str) (client : Int) : Handler Bool :=
  validName env "Invalid characters in requested name." "Requested name is too short."
    "Requested name is too long." REALNAME_LENGTH realname client

def validRoomname (roomname : Str) (client : Int) : Handler Bool :=
  validName env "Invalid characters in room name." "Requested room name is too short."
    "Requested room name is too long." ROOMNAME_LENGTH roomname client

def validPassword (pass1 pass2 : Str) (client : Int) : Handler Bool :=
  if pass1 ≠ pass2 then do
    sendError env (str "Password input does not match.") client
    pure false
  else if pass1.length < 3 then do
    sendError env (str "Requested password is too short.") client
    pure false
  else if pass1.length > 32 then do
    sendError env (str "Requested password is too long.") client
    pure false
  else pure true

/-- The line is the time with its newline replaced, the sender and the text. -/
def log_message (pkt : Packet) (fd : Int) : Handler Unit :=
  match env.asctime pkt.timestamp with
  | none => fault .time
  | some time =>
    write fd (time.dropLast ++ str " | [" ++ pkt.realname ++ str "] " ++ pkt.buf ++ str "\n")

/-- The walk of `send_message` over a room's user list. -/
def sendAll (pkt : Packet) (clientfd : Int) : List Addr → Handler Unit
  | [] => pure ()
  | a :: tmp => do
    let current ← load a
    if clientfd ≠ current.sock then send current.sock pkt else pure ()
    sendAll pkt clientfd tmp

def send_message (pkt : Packet) (clientfd : Int) : Handler Unit := do
  match ← Rget_roomFID pkt.options with
  | none => fault .null
  | some r =>
    let currentRoom ← loadRoom r
    log_message env pkt currentRoom.fd
    let tmp ← walk (.room r)
    sendAll pkt clientfd tmp

def server_MOTD : Str :=
  str "Thanks for connecting to the TBDChat Demo Server." ++ str " It's demo day!"

/-- `ret.username` is left as it was. -/
def sendMOTD (fd : Int) : Handler Unit :=
  send fd { serverPacket env MOTD server_MOTD with username := env.ret.username }

/-- `comparePasswords(password, hash, 32)`; a password that was not found is a
NULL it dereferences. -/
def comparePasswords (password : Option (List UInt8)) (hash : Digest) : Handler Bool :=
  match password with
  | none => fault .null
  | some password => pure (password.take 32 = hash.bytes)

def login (pkt : Packet) (fd : Int) : Handler Bool := do
  let args ← splitArgs pkt.buf
  if args.length > 2 then
    -- a user may have taken this very name with SETNAME
    if (← get_real_name .registered (arg args 1)) = ERROR then do
      sendError env (str "Username not found.") fd
      pure false
    else do
      let password ← get_password .registered (arg args 1)
      if !(← comparePasswords password (sha256 (arg args 2))) then do
        sendError env (str "Incorrect password.") fd
        pure false
      else do
        match ← get_user .registered (arg args 1) with
        | none => fault .null
        | some user =>
          -- nothing else asks whether the account is logged in already
          if ← insertUser .active user then do
            setSock user fd
            setRoomID user 1000
            match ← Rget_roomFID DEFAULT_ROOM with
            | none => fault .null
            | some defaultRoom =>
              insertNode (.room defaultRoom) user
              let realname ← get_real_name .registered (arg args 1)
              send fd { env.ret with
                realname := realname, username := arg args 1, options := LOGSUC,
                timestamp := env.now }
              let u ← load user
              send_message env
                (serverPacket env DEFAULT_ROOM (u.real_name ++ str " has joined the lobby.")) (-1)
              sendMOTD env fd
              pure true
          else do
            sendError env (str "User already logged in.") fd
            -- the lists go on pointing to the record
            free user
            pure false
  else pure false

/-- The record `register_user` fills in: the name in the first two arrays, each
with its NUL, the digest over the start of the third. -/
def newUser (name pass : Str) (fd : Int) : User :=
  let user := ((env.user.store 0 (name ++ [0])).store 64 (name ++ [0])).store 128 (sha256 pass).bytes
  { user with sock := fd, next := 0 }

def register_user (in_pkt : Packet) (fd : Int) : Handler Bool := do
  let args ← splitArgs in_pkt.buf
  if args.length > 3 then
    if !(← validUsername env (arg args 1) fd) then pure false
    else do
      let realname ← get_real_name .registered (arg args 1)
      if realname ≠ ERROR ∨ SERVER_NAME = arg args 1 ∨ arg args 2 ≠ arg args 3 then do
        sendError env (str "Username unavailable.") fd
        pure false
      else if !(← validPassword env (arg args 2) (arg args 3) fd) then pure false
      else do
        let user ← malloc (newUser sha256 env (arg args 1) (arg args 2) fd)
        -- where `insertUser` refuses the record, the login below finds the other one
        let _ ← insertUser .registered user
        writeUserFile env.fd
        login sha256 env
          { in_pkt with buf := str "/login" ++ 32 :: (arg args 1 ++ 32 :: arg args 2) } fd
  else pure false

def invite (in_pkt : Packet) (fd : Int) : Handler Unit := do
  let args ← splitArgs in_pkt.buf
  let failed := send fd (serverPacket env SERV_ERR
    (str "An invitation could not be sent to " ++ arg args 0 ++ str "."))
  if args.length > 1 then do
    let roomNum := atoi (arg args 1)
    match ← Rget_roomFID roomNum with
    | none => failed
    | some _ =>
      match ← get_user .active (arg args 0) with
      | none => failed
      | some inviteUser =>
        let name ← Rget_name roomNum
        let u ← load inviteUser
        send u.sock
          { serverPacket env INVITE (in_pkt.realname ++ str " has invited you to join " ++ name) with
            realname := in_pkt.realname }
        send fd (serverPacket env INVITESUC [])
  else failed

/-- The room is made and counted before `insertRoom` looks at it. -/
def createRoom (ID : Int) (name : Str) : Handler Bool := do
  open_log env.fd
  incNumRooms
  insertRoom { ID := ID, fd := env.fd, name := name.take ROOMNAME_LENGTH, user_list := [] }

/-- The second half of `join`, from where a room of the name exists. -/
def changeRoom (pkt : Packet) (fd : Int) (args : List Str) : Handler Unit := do
  let newRoom ← Rget_roomFNAME (arg args 0)
  -- the room the client says it is in
  let currRoomNum := atoi (arg args 1)
  match ← Rget_roomFID currRoomNum with
  | none => pure ()
  | some currentRoom =>
    -- `removeUser` reads `currUser->username`, and `newRoom->ID` is read after it
    match ← get_user (.room currentRoom) pkt.username with
    | none => fault .null
    | some currUser =>
      let _ ← removeUser (.room currentRoom) currUser
      match newRoom with
      | none => fault .null
      | some newRoom =>
        let room ← loadRoom newRoom
        setRoomID currUser room.ID
        let _ ← insertUser (.room newRoom) currUser
        send fd (serverPacket env JOINSUC (arg args 0 ++ str " " ++ dec room.ID))
        let u ← load currUser
        send_message env (serverPacket env currRoomNum
          (strncpy64 u.real_name [] ++ str " has left the room.")) (-1)
        send_message env (serverPacket env room.ID
          (strncpy64 u.real_name [] ++ str " has joined the room.")) (-1)

def join (pkt : Packet) (fd : Int) : Handler Unit := do
  let args ← splitArgs pkt.buf
  let valid ← if args.length > 1 then validRoomname env (arg args 0) fd else pure false
  if valid then do
    let ID ← Rget_ID (arg args 0)
    -- the number is read before `createRoom` counts
    let _ ← if ID = -1 then do createRoom env (← readNumRooms) (arg args 0) else pure false
    changeRoom env pkt fd args
  else sendError env (str "We were unable to put you in that room, sorry.") fd

def leave (pkt : Packet) (fd : Int) : Handler Unit := do
  let args ← splitArgs pkt.buf
  if args.length > 1 then do
    let roomNum := atoi (arg args 1)
    if roomNum ≠ DEFAULT_ROOM then do
      match ← Rget_roomFID roomNum with
      | none => pure ()
      | some currRoom =>
        match ← get_user (.room currRoom) pkt.username with
        | none => pure ()
        | some currUser =>
          let _ ← removeUser (.room currRoom) currUser
          match ← Rget_roomFID DEFAULT_ROOM with
          | none => fault .null
          | some defaultRoom =>
            setRoomID currUser 1000
            let _ ← insertUser (.room defaultRoom) currUser
            let u ← load currUser
            -- `ret` is not cleared before this first message
            send_message env (serverPacket env roomNum
              (strncpy64 u.real_name (env.ret.buf.drop 64) ++ str " has left the room.")) (-1)
            let room ← loadRoom defaultRoom
            send fd (serverPacket env JOINSUC
              (room.name ++ str " " ++ dec room.ID ++ str " has joined the room."))
            send_message env (serverPacket env room.ID
              (strncpy64 u.real_name [] ++ str " has joined the room.")) (-1)
    else pure ()
  else pure ()

/-- The string at the local `name[64]` of `set_name`: `strncpy` copies 64 bytes
of the packet text, and the NUL that follows is written at the length of the
text, behind the array where the text is that long. -/
def localName (buf : Str) : Str :=
  strncpy64 buf ((cstr env.behind).take (buf.length - 64))

def set_name (pkt : Packet) (fd : Int) : Handler Unit := do
  let name := localName env pkt.buf
  if !(← validRealname env name fd) then pure ()
  else do
    match ← get_user .registered pkt.username with
    | some user =>
      let u ← load user
      let old := strncpy64 u.real_name (env.ret.buf.drop 64)
      -- all 64 bytes are written: a name as long as the array has no NUL
      store user 64 (List.replicate 64 0)
      store user 64 (pad 64 name)
      writeUserFile env.fd
      let u ← load user
      -- the room of the record is -1 until its owner has logged in
      send_message env
        (serverPacket env u.roomID (old ++ str " is now known as " ++ u.real_name)) fd
      send fd (serverPacket env NAMESUC name)
    | none =>
      send fd (serverPacket env SERV_ERR
        (str "Name change failed, for some reason we couldn't find you."))

/-- The reply goes out in the request's own packet, so PASSSUC brings the text of
the request back. -/
def set_pass (pkt : Packet) (fd : Int) : Handler Unit := do
  let args ← splitArgs pkt.buf
  if args.length > 3 then
    if !(← validPassword env (arg args 2) (arg args 3) fd) then pure ()
    else do
      match ← get_user .registered pkt.username with
      | some user =>
        let u ← load user
        if ← comparePasswords (some u.password) (sha256 (arg args 1)) then do
          store user 128 (List.replicate 32 0)
          store user 128 (sha256 (arg args 2)).bytes
          writeUserFile env.fd
          send fd (serverPacket env PASSSUC pkt.buf)
        else
          send fd (serverPacket env SERV_ERR
            (str "Password change failed, password mismatch."))
      | none =>
        send fd (serverPacket env SERV_ERR
          (str "Password change failed, for some reason we couldn't find you."))
  else send fd (serverPacket env SERV_ERR (str "Password change failed, malformed request."))

def exit_client (pkt : Packet) (fd : Int) : Handler Unit := do
  match ← get_user .active pkt.username with
  | none => pure ()
  | some current =>
    let u ← load current
    send_message env
      (serverPacket env u.roomID (str "User " ++ pkt.realname ++ str " has disconnected.")) (-1)
    send fd (serverPacket env EXIT (str "Goodbye!"))
    -- the sender's connection, whoever `current` is
    close fd
    match ← Rget_roomFID u.roomID with
    | none => fault .null
    | some room =>
      let _ ← removeUser (.room room) current
      let _ ← removeUser .active current
      pure ()

/-- The loop of the two user listings, one packet for each user. -/
def sendUsers (options : Int) (fd : Int) : List Addr → Handler Unit
  | [] => pure ()
  | a :: temp => do
    let current ← load a
    send fd (serverPacket env options (current.username ++ str "-" ++ current.real_name))
    sendUsers options fd temp

def get_active_users (fd : Int) : Handler Unit := do
  let num_users ← listLength .active
  send fd (serverPacket env GETALLUSERS (dec num_users ++ str " users online"))
  let temp ← walk .active
  sendUsers env GETALLUSERS fd temp

def user_lookup (in_pkt : Packet) (fd : Int) : Handler Unit := do
  let args ← splitArgs in_pkt.buf
  if args.length > 1 then do
    let realname ← get_real_name .active (arg args 1)
    -- as in `login`, a user of this name is not found
    if realname = ERROR then
      send fd (serverPacket env SERV_ERR (arg args 1 ++ str " not found."))
    else do
      send fd (serverPacket env GETUSER (str "User Lookup"))
      send fd (serverPacket env GETUSER (arg args 1 ++ str "-" ++ realname))
  else pure ()

def get_room_users (in_pkt : Packet) (fd : Int) : Handler Unit := do
  match ← get_user .active in_pkt.username with
  | none => pure ()
  | some user =>
    let u ← load user
    match ← Rget_roomFID u.roomID with
    | none => pure ()
    | some currRoom =>
      let num_users ← listLength (.room currRoom)
      let room ← loadRoom currRoom
      send fd (serverPacket env GETUSERS (dec num_users ++ str " users in " ++ room.name))
      let temp ← walk (.room currRoom)
      sendUsers env GETUSERS fd temp

/-- The loop of `get_room_list`. -/
def sendRooms (fd : Int) : List Room → Handler Unit
  | [] => pure ()
  | current :: temp => do
    send fd (serverPacket env GETROOMS current.name)
    sendRooms fd temp

def get_room_list (fd : Int) : Handler Unit := do
  let rooms ← walkRooms
  send fd (serverPacket env GETROOMS (dec rooms.length ++ str " Rooms Found"))
  sendRooms env fd rooms

/-- What a client thread does after a packet. -/
inductive Next where
  /-- Receive again; `session` is the word the thread logged in with, `none`
  while `logged_in` is 0. -/
  | receive (session : Option Str)
  /-- Return from `client_receive`. -/
  | done
  deriving DecidableEq

/-- The name a LOGIN or REGISTER packet logs in with, word 1 of its text. -/
def loginName (pkt : Packet) : Str := arg (words pkt.buf) 1

/-- What `client_receive` does with one packet on a connection that is not
logged in. -/
def receiveAnonymous (in_pkt : Packet) (client : Int) : Handler Next :=
  if in_pkt.options = REGISTER then do
    let logged_in ← register_user sha256 env in_pkt client
    pure (.receive (if logged_in then some (loginName in_pkt) else none))
  else if in_pkt.options = LOGIN then do
    let logged_in ← login sha256 env in_pkt client
    pure (.receive (if logged_in then some (loginName in_pkt) else none))
  else if in_pkt.options = EXIT then do
    close client
    pure .done
  else do
    sendError env (str "Not logged in.") client
    pure (.receive none)

/-- A request that leaves the thread in its loop. -/
def receiveRequest (in_pkt : Packet) (client : Int) : Handler Unit :=
  if in_pkt.options = REGISTER then
    sendError env (str "You may not register while logged in.") client
  else if in_pkt.options = SETPASS then set_pass sha256 env in_pkt client
  else if in_pkt.options = SETNAME then set_name env in_pkt client
  else if in_pkt.options = LOGIN then sendError env (str "Already logged in.") client
  else if in_pkt.options = INVITE then invite env in_pkt client
  else if in_pkt.options = JOIN then join env in_pkt client
  else if in_pkt.options = LEAVE then leave env in_pkt client
  else if in_pkt.options = GETALLUSERS then get_active_users env client
  else if in_pkt.options = GETUSERS then get_room_users env in_pkt client
  else if in_pkt.options = GETUSER then user_lookup env in_pkt client
  else if in_pkt.options = GETROOMS then get_room_list env client
  else if in_pkt.options = GETMOTD then sendMOTD env client
  else pure ()

/-- What `client_receive` does with one packet on a connection that is logged
in.  Option 0 is taken for an abrupt disconnect. -/
def receiveSession (session : Str) (in_pkt : Packet) (client : Int) : Handler Next :=
  if in_pkt.options < 1000 then
    if in_pkt.options = EXIT ∨ in_pkt.options = 0 then do
      exit_client env in_pkt client
      pure .done
    else do
      receiveRequest sha256 env in_pkt client
      pure (.receive (some session))
  else do
    -- any other option is taken for the number of a room
    send_message env { in_pkt with buf := (sanitizeInput in_pkt.buf 0).1 } client
    pure (.receive (some session))

/-- One round of the loop of `client_receive`. -/
def client_receive (session : Option Str) (in_pkt : Packet) (client : Int) : Handler Next :=
  match session with
  | none => receiveAnonymous sha256 env in_pkt client
  | some name => receiveSession sha256 env name in_pkt client

end TBDChat
