import TBDChat.ClientCommands
import TBDChat.RoomReplies
import TBDChat.UserListings
import TBDChat.KeyboardInput
import TBDChat.ConfigFile

/-!
# The client

`main` of `chat_client.c` takes line after line from the user.  A line that begins with a slash
is a command, which `userCommand` obeys itself or turns into a request; any other is for the
room.  `chatRX` prints what comes from the server, in a thread of its own, and keeps the names
and the room that the server tells it.

A round of either loop is a function here, from the globals to the globals and to what is
printed, sent and logged.  There is no result where the C code has no meaning, or writes outside
of an array; what is written behind the `args` of `validInvite`, `validJoin` and `serverLogin` is
in `fillArgsFrom`.
-/

namespace TBDChat
open Config (startsWith)

def INVALID : Int := -1

/-- The globals of `chat_client.c`. -/
structure ChatClient extends Client where
  realname : Str
  serverfd : Int
  logfd : Int
  debugMode : Bool
  config_file : List UInt8

/-- What a round finds around it. -/
structure ClientEnv where
  /-- `time(NULL)`. -/
  now : Int
  /-- `asctime(localtime(..))`, NULL for times that cannot be broken down. -/
  asctime : Int → Option Str
  /-- `getenv("HOME")`. -/
  home : Str
  /-- What `open` returns. -/
  fd : Int
  /-- The string in the memory behind `realname`. -/
  behind : Str
  /-- What `i` is at the start of `validInvite`, `validJoin` and `serverLogin`. -/
  i : Int
  net : Config.Net
  /-- Enough rounds for the loops over the configuration file. -/
  rounds : Nat

/-- What a round does to the world outside. -/
inductive Output where
  /-- By `wprintFormatMessage`. -/
  | message (sender buf : Str)
  /-- By `wprintFormatNotice`. -/
  | notice (buf : Str)
  /-- By `wprintFormatError`. -/
  | error (buf : Str)
  /-- By `wprintFormatmotd`. -/
  | motd (buf : Str)
  /-- The lines of `whoResponse` and `roomListResponse`. -/
  | listed (line : Shown)
  | roomLine (line : RoomLine)
  /-- The line of `nameChange`; the name is the format of a `wprintw`. -/
  | named (format : Str)
  /-- The line of `newRoom`. -/
  | joined (room : Str)
  | splash
  | help (buf : Str)
  | dump (p : Packet)
  | opened (path : Str)
  | closed (fd : Int)
  | logged (fd : Int) (line : Str)
  | send (fd : Int) (p : Packet)

/-- The packets that are sent. -/
def sentPackets (out : List Output) : List Packet :=
  out.filterMap fun
    | .send _ p => some p
    | _ => none

namespace ChatClient
variable (env : ClientEnv) (k : ChatClient)

/-- `log_message`, in a time that is broken down as `time`. -/
def log_message (pkt : Packet) : Option (List Output) :=
  if k.logfd = 0 then some []
  else (env.asctime pkt.timestamp).map fun time =>
    [.logged k.logfd (time.dropLast ++ str " | [" ++ pkt.realname ++ str "] " ++ pkt.buf ++
      str "\n")]

/-! ## The commands -/

/-- `sprintf(tx_pkt->buf, "%s %d", tx_pkt->buf, currentRoom)`.  The text is where it is copied
to, so that only what is behind it is new. -/
def appendNumber (tx_pkt : Packet) : Option Packet :=
  let buf := tx_pkt.buf ++ str " " ++ dec k.currentRoom
  if 127 < buf.length then none else some { tx_pkt with buf := buf }

/-- `username` and `realname` of the packet have 64 elements each. -/
def serverRegistration (tx_pkt : Packet) : Option (Packet × Bool × List Output) :=
  let args := words tx_pkt.buf
  if 15 < args.length then none
  else if args.length = 4 then
    if arg args 2 = arg args 3 then
      if 63 < (arg args 1).length then none
      else some ({ tx_pkt with
        options := REGISTER, username := arg args 1, realname := arg args 1 }, true, [])
    else some (tx_pkt, false, [.error (str "Password mismatch")])
  else some (tx_pkt, false, [.error (str "Usage: /register username password password")])

def setPassword (tx_pkt : Packet) : Option (Packet × Bool × List Output) :=
  let args := words tx_pkt.buf
  if 15 < args.length then none
  else if args.length = 4 then
    if arg args 2 = arg args 3 then some ({ tx_pkt with options := SETPASS }, true, [])
    else some (tx_pkt, false, [.error (str "New password mismatch"),
      .error (str "Password mismath")])
  else some (tx_pkt, false,
    [.error (str "Usage: /setpass oldpasswprd newpassword newpassword"),
      .error (str "Password mismath")])

/-- What `memmove` takes from behind the text is zero. -/
def setName (tx_pkt : Packet) : Packet × Bool × List Output :=
  if (str "/setname ").length < tx_pkt.buf.length then
    ({ tx_pkt with
      options := SETNAME, buf := tx_pkt.buf.drop (str "/setname ").length }, true, [])
  else (tx_pkt, false, [.error (str "Usage: /setname newname")])

/-- What comes of a function that returns 1 if there is a request, and prints `usage` if not. -/
def orUsage (usage : String) (result : Packet × Int) : Packet × Bool × List Output :=
  if result.2 = 0 then (result.1, false, [.error (str usage)]) else (result.1, true, [])

def who (tx_pkt : Packet) : Option Packet :=
  if tx_pkt.buf = str "/who all" then some { tx_pkt with options := GETALLUSERS }
  else if (str "/who ").length < tx_pkt.buf.length then some { tx_pkt with options := GETUSER }
  else k.appendNumber { tx_pkt with options := GETUSERS }

/-- The commands that are not for the server. -/
def localCommand (command buf : Str) : Option (ChatClient × List Output) :=
  if command = str "/clear" then some (k, [.splash])
  else if command = str "/help" then
    if 15 < (words buf).length then none else some (k, [.help buf])
  else if command = str "/debug" then
    if k.debugMode then some ({ k with debugMode := false }, [.notice (str "Debug disabled")])
    else some ({ k with debugMode := true }, [.notice (str "Debug enabled")])
  else if command = str "/connect" then
    match Config.newServerConnection env.net env.rounds buf k.config_file with
    | .error _ => none
    | .ok a =>
      some ({ k with config_file := a.config_file, serverfd := connected a },
        if a.ret = 0 then [.error (str "Server connect failed")] else [])
  else if command = str "/reconnect" then
    match Config.reconnect env.net env.rounds k.config_file with
    | .error _ => none
    | .ok a =>
      some ({ k with config_file := a.config_file, serverfd := connected a },
        if a.ret = 0 then [.error (str "Server connect failed.")] else [])
  else if command = str "/autoconnect" then
    match Config.toggleAutoConnect env.rounds k.config_file with
    | none | some (none, _) => none
    | some (some ret, config_file) => some ({ k with config_file := config_file },
        [.notice (str (if ret = 0 then "Autoconnect disabled" else "Autoconnect enabled"))])
  else some (k, [.error (str "Invalid command")])
where
  /-- What `serverfd` is after a call. -/
  connected (a : Config.Attempt) : Int :=
    a.called.elim k.serverfd fun (hostname, port) => env.net.get_server_connection hostname port

/-- The packet after the command, whether it is to be sent, the globals, and what is printed. -/
def userCommand (tx_pkt : Packet) : Option (Packet × Bool × ChatClient × List Output) :=
  let request := fun (p : Packet) => some (p, true, k, [])
  let answer := fun (p, send_flag, out) => (p, send_flag, k, out)
  match Config.userCommand tx_pkt.buf with
  | none => some (tx_pkt, false, k, [.error (str "Invalid command")])
  | some command =>
    if command = str "/exit" ∨ command = str "/quit" then
      (k.appendNumber { tx_pkt with options := EXIT }).bind request
    else if command = str "/register" then (serverRegistration tx_pkt).map answer
    else if command = str "/login" then
      (serverLogin env.i tx_pkt).map fun r => answer (orUsage "Usage: /login username password" r)
    else if command = str "/setname" then some (answer (setName tx_pkt))
    else if command = str "/setpass" then (setPassword tx_pkt).map answer
    else if command = str "/motd" then request { tx_pkt with options := GETMOTD }
    else if command = str "/invite" then
      (validInvite env.i k.currentRoom tx_pkt).map fun r =>
        answer (orUsage "Usage: /invite username" r)
    else if command = str "/join" then
      (validJoin env.i k.currentRoom tx_pkt).map fun r =>
        answer (orUsage "Usage: /join roomname" r)
    else if command = str "/leave" then
      request { tx_pkt with options := LEAVE, buf := str "/leave " ++ dec k.currentRoom }
    else if command = str "/who" then (k.who tx_pkt).bind request
    else if command = str "/list" then request { tx_pkt with options := GETROOMS }
    else (k.localCommand env command tx_pkt.buf).map fun (k, out) => (tx_pkt, false, k, out)

/-! ## The main loop -/

/-- What is done with a packet that is flagged to be sent. -/
def transmit (tx_pkt : Packet) : Packet × List Output :=
  let tx_pkt := { tx_pkt with
    username := k.username, realname := k.realname, timestamp := env.now }
  let (tx_pkt, shown) : Packet × List Output :=
    if 1000 ≤ k.currentRoom ∧ tx_pkt.options = -1 then
      ({ tx_pkt with options := k.currentRoom }, [.message tx_pkt.realname tx_pkt.buf])
    else (tx_pkt, [])
  (tx_pkt, shown ++ if 0 < tx_pkt.options then [.send k.serverfd tx_pkt] else [])

/-- What is done with a line that is not empty: the packet, whether it is to be sent, the globals
and what is printed and logged. -/
def readLine (tx_pkt : Packet) : Option (Packet × Bool × ChatClient × List Output) :=
  if startsWith (str "/") tx_pkt.buf then k.userCommand env tx_pkt
  else
    -- the time of the packet is not set yet
    let tx_pkt := { tx_pkt with username := k.username, realname := k.realname }
    (k.log_message env tx_pkt).map fun out => (tx_pkt, true, k, out)

/-- What is done if the send flag is set. -/
def sendLine (tx_pkt : Packet) : Packet × List Output :=
  if k.serverfd ≠ 0 then k.transmit env tx_pkt
  else (tx_pkt, [.error (str "Not connected to any server")])

/-- A round of the loop of `main`, with the line that `userInput` has read.  The loop ends if
the packet's option is EXIT then. -/
def round (buf : Str) : Option (Packet × ChatClient × List Output) :=
  let tx_pkt : Packet := ⟨0, buf, [], [], INVALID⟩
  if buf.length = 0 then some (tx_pkt, k, [])
  else (k.readLine env tx_pkt).map fun (tx_pkt, send_flag, k, out) =>
    if send_flag then
      let (tx_pkt, out') := k.sendLine env tx_pkt
      (tx_pkt, k, out ++ out')
    else (tx_pkt, k, out)

/-- CTRL+C: the packet is an EXIT, if there is a connection. -/
def sigintHandler : List Output :=
  .error (str "Forced Exit.") :: if k.serverfd = 0 then [] else
    [.send k.serverfd ⟨env.now, str "/exit", k.username, k.realname, EXIT⟩, .closed k.logfd,
      .closed k.serverfd]

/-! ## What comes from the server -/

/-- `logfile` is `HOME/username_room.log`. -/
def logPath (user room : Str) : Str := env.home ++ str "/" ++ user ++ str "_" ++ room ++ str ".log"

def loggedIn (rx_pkt : Packet) : ChatClient × List Output :=
  ({ k with
      username := rx_pkt.username, realname := rx_pkt.realname, currentRoom := DEFAULT_ROOM,
      logfd := env.fd },
    [.opened (logPath env rx_pkt.username DEFAULT_ROOM_NAME),
      .message rx_pkt.realname (str "Login Successful!")])

/-- `strncpy` leaves no NUL behind a name that fills the array. -/
def nameChange (rx_pkt : Packet) : ChatClient × List Output :=
  ({ k with realname := strncpy64 rx_pkt.buf env.behind }, [.named rx_pkt.buf])

def newRoom (rx_pkt : Packet) : Option (ChatClient × List Output) :=
  let args := words rx_pkt.buf
  if args.length ≤ 1 ∨ 15 < args.length then none
  else
    let roomNumber := atoi (arg args 1)
    some (if roomNumber ≠ k.currentRoom then
      ({ k with currentRoom := roomNumber, logfd := env.fd },
        [.closed k.logfd, .opened (logPath env k.username (arg args 0)), .joined (arg args 0)])
    else (k, []))

def serverResponse (rx_pkt : Packet) : Option (ChatClient × List Output) :=
  if rx_pkt.options = SERV_ERR then some (k, [.message rx_pkt.realname rx_pkt.buf])
  else if rx_pkt.options = LOGSUC then some (k.loggedIn env rx_pkt)
  else if rx_pkt.options = GETUSERS ∨ rx_pkt.options = GETALLUSERS ∨ rx_pkt.options = GETUSER then
    some (k, [.listed (whoResponse rx_pkt.buf)])
  else if rx_pkt.options = PASSSUC then
    some (k, [.message rx_pkt.realname (str "Password change successful")])
  else if rx_pkt.options = NAMESUC then some (k.nameChange env rx_pkt)
  else if rx_pkt.options = JOINSUC then k.newRoom env rx_pkt
  else if rx_pkt.options = INVITE then some (k, [.message rx_pkt.realname rx_pkt.buf])
  else if rx_pkt.options = INVITESUC then some (k, [.message rx_pkt.realname (str "Invite sent")])
  else if rx_pkt.options = GETROOMS then some (k, [.roomLine (roomListResponse rx_pkt.buf)])
  else if rx_pkt.options = MOTD then some (k, [.motd rx_pkt.buf])
  else if rx_pkt.options = EXIT then
    some (k, [.message rx_pkt.realname (str "Server has closed its connection with you"),
      .notice (str "Closing socket connection with server"), .closed k.serverfd,
      .closed k.logfd])
  else some (k, [.error (str "Unknown message received from server")])

/-- A round of the loop of `chatRX` with a packet that was received; `true` if the loop goes
on. -/
def chatRX (rx_pkt : Packet) : Option (Bool × ChatClient × List Output) := do
  let dump := if k.debugMode then [Output.dump rx_pkt] else []
  if 1000 ≤ rx_pkt.options then
    let line ← k.log_message env rx_pkt
    pure (true, k, dump ++ [.message rx_pkt.realname rx_pkt.buf] ++ line)
  else if 0 < rx_pkt.options then
    let (k, out) ← k.serverResponse env rx_pkt
    let line ← k.log_message env rx_pkt
    pure (true, k, dump ++ out ++ line)
  else
    pure (false, k, dump ++ [.notice (str "Communication with server has terminated.")])

end ChatClient
end TBDChat
