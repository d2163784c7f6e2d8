import TBDChat.ChatServer

/-!
# What each handler comes to

The handlers run alone, as equations: `ops.run` of a handler from a memory `s`
is a fault, or its answer, the memory it leaves and its effects.  Everything
said later about a handler is read off these.
-/

namespace TBDChat
open Atomic

variable {α : Type} {sha256 : Str → Digest} {env : Env} {s : Server}

/-! ## The operations -/

section Operations
variable (s : Server)

@[simp] theorem run_get_real_name (l : ListRef) (user : Str) : ops.run (get_real_name l user) s =
    .ok (LinkedList.get_real_name s.heap (s.users l) user, s, []) := rfl

@[simp] theorem run_get_password (l : ListRef) (user : Str) : ops.run (get_password l user) s =
    .ok (LinkedList.get_password s.heap (s.users l) user, s, []) := rfl

@[simp] theorem run_get_user (l : ListRef) (user : Str) : ops.run (get_user l user) s =
    .ok (LinkedList.get_user s.heap (s.users l) user, s, []) := rfl

@[simp] theorem run_insertUser (l : ListRef) (a : Addr) : ops.run (insertUser l a) s =
    .ok ((LinkedList.insertUser s.heap (s.users l) a).1, s.insertUser l a, []) := rfl

@[simp] theorem run_insertNode (l : ListRef) (a : Addr) : ops.run (insertNode l a) s =
    .ok ((), s.insertNode l a, []) := rfl

@[simp] theorem run_removeUser (l : ListRef) (a : Addr) : ops.run (removeUser l a) s =
    .ok ((LinkedList.removeUser s.heap (s.users l) a).1, s.removeUser l a, []) := rfl

@[simp] theorem run_listLength (l : ListRef) : ops.run (listLength l) s =
    .ok ((s.users l).length, s, []) := rfl

@[simp] theorem run_walk (l : ListRef) : ops.run (walk l) s = .ok (s.users l, s, []) := rfl

@[simp] theorem run_malloc (u : User) : ops.run (malloc u) s = .ok (s.fresh, s.malloc u, []) := rfl

@[simp] theorem run_free (a : Addr) : ops.run (free a) s = .ok ((), s.free a, []) := rfl

@[simp] theorem run_load (a : Addr) : ops.run (load a) s = .ok (s.heap a, s, []) := rfl

@[simp] theorem run_store (a : Addr) (off : Nat) (bs : List UInt8) :
    ops.run (store a off bs) s = .ok ((), s.modify a (User.store off bs), []) := rfl

@[simp] theorem run_setSock (a : Addr) (fd : Int) : ops.run (setSock a fd) s =
    .ok ((), s.modify a (fun u => { u with sock := fd }), []) := rfl

@[simp] theorem run_setRoomID (a : Addr) (ID : Int) : ops.run (setRoomID a ID) s =
    .ok ((), s.modify a (fun u => { u with roomID := ID }), []) := rfl

@[simp] theorem run_writeUserFile (fd : Int) : ops.run (writeUserFile fd) s =
    .ok ((), s.writeUserFile,
      if s.registered_users_list = [] then [.opened fd, .close fd] else [.opened fd]) :=
  ops.run_call _ _

@[simp] theorem run_Rget_ID (name : Str) : ops.run (Rget_ID name) s =
    .ok (LinkedList.Rget_ID s.room_list name, s, []) := rfl

@[simp] theorem run_Rget_name (ID : Int) : ops.run (Rget_name ID) s =
    .ok (LinkedList.Rget_name s.room_list ID, s, []) := rfl

@[simp] theorem run_Rget_roomFID (ID : Int) : ops.run (Rget_roomFID ID) s =
    .ok (LinkedList.Rget_roomFID s.room_list ID, s, []) := rfl

@[simp] theorem run_Rget_roomFNAME (name : Str) : ops.run (Rget_roomFNAME name) s =
    .ok (LinkedList.Rget_roomFNAME s.room_list name, s, []) := rfl

@[simp] theorem run_loadRoom (r : RoomRef) : ops.run (loadRoom r) s = .ok (s.room r, s, []) := rfl

@[simp] theorem run_walkRooms : ops.run walkRooms s = .ok (s.room_list, s, []) := rfl

@[simp] theorem run_readNumRooms : ops.run readNumRooms s = .ok (s.numRooms, s, []) := rfl

@[simp] theorem run_incNumRooms : ops.run incNumRooms s =
    .ok ((), { s with numRooms := s.numRooms + 1 }, []) := rfl

@[simp] theorem run_insertRoom (room : Room) : ops.run (insertRoom room) s =
    .ok ((LinkedList.insertRoom s.room_list room).1, s.insertRoom room, []) := rfl

@[simp] theorem run_open_log (fd : Int) : ops.run (open_log fd) s = .ok ((), s, [.opened fd]) := rfl

@[simp] theorem run_close (fd : Int) : ops.run (close fd) s = .ok ((), s, [.close fd]) := rfl

@[simp] theorem run_send (fd : Int) (p : Packet) : ops.run (send fd p) s =
    .ok ((), s, [.send fd p]) := rfl

@[simp] theorem run_write (fd : Int) (line : Str) : ops.run (write fd line) s =
    .ok ((), s, [.logged fd line]) := rfl

end Operations

@[simp] theorem run_fault (f : Fault) (s : Server) :
    ops.run (fault f : Handler α) s = .error f := rfl

/-- A handler that begins with the words of its command. -/
theorem run_splitArgs (buf : Str) (f : List Str → Handler α) (s : Server) :
    ops.run (splitArgs buf >>= f) s =
      if 15 < (words buf).length then .error .overflow else ops.run (f (words buf)) s := by
  rw [Semantics.run_bind, splitArgs, Semantics.run_ite]
  by_cases h : (words buf).length ≤ 15
  · rw [if_pos h, if_neg (Nat.not_lt_of_le h)]
    simp
  · rw [if_neg h, if_pos (Nat.lt_of_not_le h)]
    rfl

theorem run_sendError (error : Str) (fd : Int) (s : Server) :
    ops.run (sendError env error fd) s =
      .ok ((), s, [.send fd (serverPacket env SERV_ERR error)]) := run_send _ _ _

/-! ## The validators -/

/-- The error reply of a name test, if the name fails it. -/
def nameReply (env : Env) (invalid short long : String) (limit : Nat) (name : Str) (fd : Int) :
    List Effect :=
  if (sanitizeInput name 1).2 ≠ 0 then [.send fd (serverPacket env SERV_ERR (str invalid))]
  else if name.length < 3 then [.send fd (serverPacket env SERV_ERR (str short))]
  else if name.length > limit then [.send fd (serverPacket env SERV_ERR (str long))]
  else []

theorem run_validName (invalid short long : String) (limit : Nat) (name : Str) (fd : Int)
    (s : Server) : ops.run (validName env invalid short long limit name fd) s =
      .ok (acceptsName limit name, s, nameReply env invalid short long limit name fd) := by
  unfold validName nameReply acceptsName
  by_cases h1 : (sanitizeInput name 1).2 ≠ 0
  · simp [h1, run_sendError]
  · by_cases h2 : name.length < 3
    · simp [h1, h2, run_sendError]
    · by_cases h3 : name.length > limit
      · simp [h1, h2, h3, run_sendError]
      · simp [not_not.mp h1, h2, h3, Nat.le_of_not_lt h2, Nat.le_of_not_lt h3]

theorem nameReply_of_accepts {invalid short long : String} {limit : Nat} {name : Str} {fd : Int}
    (h : acceptsName limit name = true) : nameReply env invalid short long limit name fd = [] := by
  simp only [acceptsName, Bool.and_eq_true, decide_eq_true_eq] at h
  obtain ⟨⟨h1, h2⟩, h3⟩ := h
  rw [nameReply, if_neg (not_not.mpr h1), if_neg (Nat.not_lt_of_le h2),
    if_neg (Nat.not_lt_of_le h3)]

/-- The error reply of the password test, if the passwords fail it. -/
def passwordReply (env : Env) (pass1 pass2 : Str) (fd : Int) : List Effect :=
  if pass1 ≠ pass2 then
    [.send fd (serverPacket env SERV_ERR (str "Password input does not match."))]
  else if pass1.length < 3 then
    [.send fd (serverPacket env SERV_ERR (str "Requested password is too short."))]
  else if pass1.length > 32 then
    [.send fd (serverPacket env SERV_ERR (str "Requested password is too long."))]
  else []

theorem run_validPassword (pass1 pass2 : Str) (fd : Int) (s : Server) :
    ops.run (validPassword env pass1 pass2 fd) s =
      .ok (acceptsPassword pass1 pass2, s, passwordReply env pass1 pass2 fd) := by
  unfold validPassword passwordReply acceptsPassword
  by_cases h1 : pass1 = pass2
  · subst h1
    by_cases h2 : pass1.length < 3
    · simp [h2, run_sendError]
    · by_cases h3 : pass1.length > 32
      · simp [h2, h3, run_sendError]
      · simp [h2, h3, Nat.le_of_not_lt h2, Nat.le_of_not_lt h3]
  · simp [h1, run_sendError]

theorem passwordReply_of_accepts {pass1 pass2 : Str} {fd : Int}
    (h : acceptsPassword pass1 pass2 = true) : passwordReply env pass1 pass2 fd = [] := by
  simp only [acceptsPassword, Bool.and_eq_true, decide_eq_true_eq] at h
  obtain ⟨⟨h1, h2⟩, h3⟩ := h
  rw [passwordReply, if_neg (not_not.mpr h1), if_neg (Nat.not_lt_of_le h2),
    if_neg (Nat.not_lt_of_le h3)]

/-! ## Sending to a room -/

/-- The copies `send_message` sends to the users of a list. -/
def deliveries (s : Server) (pkt : Packet) (clientfd : Int) (l : List Addr) : List Effect :=
  (l.filter (fun a => clientfd ≠ (s.heap a).sock)).map (fun a => .send (s.heap a).sock pkt)

/-- The line `log_message` writes. -/
def logLine (env : Env) (pkt : Packet) : Str :=
  ((env.asctime pkt.timestamp).getD []).dropLast ++ str " | [" ++ pkt.realname ++ str "] " ++
    pkt.buf ++ str "\n"

/-- What `send_message` does to a room: its log, then a copy for each member but
the one on `clientfd`. -/
def relay (env : Env) (s : Server) (pkt : Packet) (clientfd : Int) (r : RoomRef) : List Effect :=
  .logged (s.room r).fd (logLine env pkt) :: deliveries s pkt clientfd (s.members r)

theorem run_sendAll (pkt : Packet) (clientfd : Int) (l : List Addr) (s : Server) :
    ops.run (sendAll pkt clientfd l) s = .ok ((), s, deliveries s pkt clientfd l) := by
  induction l with
  | nil => rfl
  | cons a l ih =>
    by_cases h : clientfd = (s.heap a).sock
    · subst h
      simp [sendAll, ih, deliveries]
    · simp [sendAll, ih, deliveries, h]

theorem run_send_message (pkt : Packet) (clientfd : Int) (s : Server) :
    ops.run (send_message env pkt clientfd) s =
      match LinkedList.Rget_roomFID s.room_list pkt.options with
      | none => .error .null
      | some r =>
        if (env.asctime pkt.timestamp).isSome then .ok ((), s, relay env s pkt clientfd r)
        else .error .time := by
  cases hr : LinkedList.Rget_roomFID s.room_list pkt.options with
  | none => simp [send_message, hr]
  | some r =>
    cases ht : env.asctime pkt.timestamp with
    | none => simp [send_message, hr, log_message, ht]
    | some time =>
      simp [send_message, hr, log_message, ht, run_sendAll, relay, logLine, Server.users]

/-- What comes of `send_message` with a packet of the server's own, whose time can
be broken down: a NULL dereference where there is no room of that number. -/
def announce (env : Env) (s : Server) (ID : Int) (buf : Str) (clientfd : Int) :
    Outcome Server Effect Fault Unit :=
  match LinkedList.Rget_roomFID s.room_list ID with
  | none => .error .null
  | some r => .ok ((), s, relay env s (serverPacket env ID buf) clientfd r)

theorem run_announce (ID : Int) (buf : Str) (clientfd : Int) (s : Server) :
    ops.run (send_message env (serverPacket env ID buf) clientfd) s =
      announce env s ID buf clientfd := by
  have htime : (env.asctime (serverPacket env ID buf).timestamp).isSome := env.asctime_now
  simp only [run_send_message, htime, if_true]
  rfl

theorem announce_eq_ok {ID : Int} {buf : Str} {clientfd : Int} {s s' : Server} {u : Unit}
    {es : List Effect} (h : announce env s ID buf clientfd = .ok (u, s', es)) :
    ∃ r, LinkedList.Rget_roomFID s.room_list ID = some r ∧ s' = s ∧
      es = relay env s (serverPacket env ID buf) clientfd r := by
  unfold announce at h
  split at h
  · cases h
  · cases h
    exact ⟨_, ‹_›, rfl, rfl⟩

/-- A message to a room, and what comes after it. -/
theorem announce_then_eq_ok {α : Type} {ID : Int} {buf : Str} {clientfd : Int} {s s' : Server}
    {k : Unit → Server → Outcome Server Effect Fault α} {b : α} {es : List Effect}
    (h : (announce env s ID buf clientfd).andThen k = .ok (b, s', es)) :
    ∃ r es', LinkedList.Rget_roomFID s.room_list ID = some r ∧ k () s = .ok (b, s', es') ∧
      es = relay env s (serverPacket env ID buf) clientfd r ++ es' := by
  obtain ⟨_, s₁, es₁, es', hsent, hrest, rfl⟩ := Outcome.andThen_eq_ok h
  obtain ⟨r, hr, rfl, rfl⟩ := announce_eq_ok hsent
  exact ⟨r, es', hr, hrest, rfl⟩

end TBDChat
