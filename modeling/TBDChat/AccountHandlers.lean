import TBDChat.Execution

/-!
# The handlers of accounts, run alone

`login`, `register_user`, `set_name` and `set_pass` as equations.  Each change of
the memory has a name here: `signIn`, `enrol`, `rename`, `setPassword`.
-/

namespace TBDChat
open Atomic Bytes

variable {sha256 : Str → Digest} {env : Env}

/-! ## Login and registration -/

/-- The memory after a login: `a` is active, on the connection `fd`, and in the
room at `r`. -/
def Server.signIn (s : Server) (a : Addr) (fd : Int) (r : RoomRef) : Server :=
  ((((s.insertUser .active a).modify a (fun u => { u with sock := fd })).modify a
    (fun u => { u with roomID := 1000 })).insertNode (.room r) a)

/-- What a login sends. -/
def signInEffects (env : Env) (s : Server) (user : Str) (a : Addr) (fd : Int) (r : RoomRef) :
    List Effect :=
  .send fd { env.ret with
    realname := LinkedList.get_real_name s.heap s.registered_users_list user, username := user,
    options := LOGSUC, timestamp := env.now } ::
  (relay env s (serverPacket env DEFAULT_ROOM
      ((s.heap a).real_name ++ str " has joined the lobby.")) (-1) r ++
    [.send fd { serverPacket env MOTD server_MOTD with username := env.ret.username }])

/-- The account a login finds under a name, `none` where `get_real_name` answers
`ERROR`. -/
def Server.account (s : Server) (user : Str) : Option Addr :=
  match LinkedList.get_user s.heap s.registered_users_list user with
  | some a => if (s.heap a).real_name = ERROR then none else some a
  | none => none

/-- The move into the Lobby's list does not change which room has which number. -/
theorem Rget_roomFID_signIn (s : Server) (a : Addr) (fd : Int) (r : RoomRef) (ID : Int) :
    LinkedList.Rget_roomFID (s.signIn a fd r).room_list ID =
      LinkedList.Rget_roomFID s.room_list ID :=
  Server.Rget_roomFID_setUsers _ _ _ ID

@[simp] theorem run_comparePasswords (u : User) (hash : Digest) (s : Server) :
    ops.run (comparePasswords (some u.password) hash) s =
      .ok (decide (u.hash = hash.bytes), s, []) := rfl

theorem run_login (pkt : Packet) (fd : Int) (s : Server) :
    ops.run (login sha256 env pkt fd) s =
      if 15 < (words pkt.buf).length then .error .overflow
      else if (words pkt.buf).length ≤ 2 then .ok (false, s, [])
      else match s.account (arg (words pkt.buf) 1) with
        | none => .ok (false, s, [.send fd (serverPacket env SERV_ERR (str "Username not found."))])
        | some a =>
          if (s.heap a).hash ≠ (sha256 (arg (words pkt.buf) 2)).bytes then
            .ok (false, s, [.send fd (serverPacket env SERV_ERR (str "Incorrect password."))])
          else if (LinkedList.get_user s.heap s.active_users_list
              (arg (words pkt.buf) 1)).isSome then
            .ok (false, s.free a,
              [.send fd (serverPacket env SERV_ERR (str "User already logged in."))])
          else match LinkedList.Rget_roomFID s.room_list DEFAULT_ROOM with
            | none => .error .null
            | some r =>
              .ok (true, s.signIn a fd r,
                signInEffects env (s.signIn a fd r) (arg (words pkt.buf) 1) a fd r) := by
  rw [login, run_splitArgs]
  refine ite_congr rfl (fun _ => rfl) fun _ => ?_
  by_cases h2 : (words pkt.buf).length ≤ 2
  · rw [if_neg (by omega), if_pos h2]
    rfl
  rw [if_pos (by omega), if_neg h2]
  cases hu : LinkedList.get_user s.heap s.registered_users_list (arg (words pkt.buf) 1) with
  | none => simp [Server.account, hu, LinkedList.get_real_name, Server.users, run_sendError]
  | some a =>
    have ha := (LinkedList.get_user_some hu).2
    -- a user called `ERROR` is answered like one that is not there
    by_cases hn : (s.heap a).real_name = ERROR
    · simp [Server.account, hu, LinkedList.get_real_name, Server.users, run_sendError, hn]
    have hacc : s.account (arg (words pkt.buf) 1) = some a := by simp [Server.account, hu, hn]
    by_cases hp : (s.heap a).hash = (sha256 (arg (words pkt.buf) 2)).bytes
    · cases hact : LinkedList.get_user s.heap s.active_users_list (arg (words pkt.buf) 1) with
      | some b =>
        have hins := s.insertUser_of_isSome .active a (by rw [ha]; exact hact ▸ rfl)
        simp [hacc, hu, LinkedList.get_real_name, LinkedList.get_password, Server.users,
          run_sendError, hn, hp, hins, LinkedList.insertUser, ha, hact]
      | none =>
        simp [hacc, hu, LinkedList.get_real_name, LinkedList.get_password, Server.users,
          run_sendError, hn, hp, LinkedList.insertUser, ha, hact]
        cases hr : LinkedList.Rget_roomFID s.room_list DEFAULT_ROOM with
        | none => simp
        | some r =>
          simp [run_announce, announce, Server.signIn, signInEffects, sendMOTD, Server.users, hr]
    · simp [hacc, hu, LinkedList.get_real_name, LinkedList.get_password, Server.users,
        run_sendError, hn, hp]

/-- The memory after a registration got as far as the list: `insertUser` may
refuse the record, and its answer is not looked at. -/
def Server.enrol (s : Server) (u : User) : Server :=
  ((s.malloc u).insertUser .registered s.fresh).writeUserFile

/-- The descriptors `writeUserFile` opens and closes. -/
def fileEffects (s : Server) (fd : Int) : List Effect :=
  if s.registered_users_list = [] then [.opened fd, .close fd] else [.opened fd]

/-- The login command `register_user` forms. -/
def relogin (pkt : Packet) : Packet :=
  { pkt with
    buf := str "/login" ++ 32 :: (arg (words pkt.buf) 1 ++ 32 :: arg (words pkt.buf) 2) }

theorem run_register_user (pkt : Packet) (fd : Int) (s : Server) :
    ops.run (register_user sha256 env pkt fd) s =
      if 15 < (words pkt.buf).length then .error .overflow
      else if (words pkt.buf).length ≤ 3 then .ok (false, s, [])
      else if acceptsName USERNAME_LENGTH (arg (words pkt.buf) 1) = false then
        .ok (false, s, nameReply env "Invalid characters in username." "Username is too short."
          "Username is too long." USERNAME_LENGTH (arg (words pkt.buf) 1) fd)
      else if LinkedList.get_real_name s.heap s.registered_users_list (arg (words pkt.buf) 1) ≠ ERROR
          ∨ SERVER_NAME = arg (words pkt.buf) 1
          ∨ arg (words pkt.buf) 2 ≠ arg (words pkt.buf) 3 then
        .ok (false, s, [.send fd (serverPacket env SERV_ERR (str "Username unavailable."))])
      else if acceptsPassword (arg (words pkt.buf) 2) (arg (words pkt.buf) 3) = false then
        .ok (false, s, passwordReply env (arg (words pkt.buf) 2) (arg (words pkt.buf) 3) fd)
      else
        let s' := s.enrol (newUser sha256 env (arg (words pkt.buf) 1) (arg (words pkt.buf) 2) fd)
        (ops.run (login sha256 env (relogin pkt) fd) s').prepend (fileEffects s' env.fd) := by
  rw [register_user, run_splitArgs]
  refine ite_congr rfl (fun _ => rfl) fun _ => ?_
  by_cases h3 : (words pkt.buf).length ≤ 3
  · rw [if_neg (by omega), if_pos h3]
    rfl
  rw [if_pos (by omega), if_neg h3, Semantics.run_bind, validUsername, run_validName,
    Outcome.andThen_ok]
  cases hname : acceptsName USERNAME_LENGTH (arg (words pkt.buf) 1) with
  | false => simp
  | true =>
    rw [nameReply_of_accepts hname, Outcome.prepend_nil]
    by_cases htaken : LinkedList.get_real_name s.heap s.registered_users_list
        (arg (words pkt.buf) 1) ≠ ERROR ∨ SERVER_NAME = arg (words pkt.buf) 1 ∨
        arg (words pkt.buf) 2 ≠ arg (words pkt.buf) 3
    · simp [Server.users, htaken, run_sendError]
    cases hpass : acceptsPassword (arg (words pkt.buf) 2) (arg (words pkt.buf) 3) with
    | false => simp [Server.users, htaken, run_validPassword, hpass]
    | true =>
      simp [Server.users, htaken, run_validPassword, hpass, passwordReply_of_accepts hpass,
        Server.enrol, fileEffects, relogin]
      rfl

/-! ## Changing a name or a password -/

/-- The memory after `set_name` wrote a name. -/
def Server.rename (s : Server) (a : Addr) (name : Str) : Server :=
  ((s.modify a (User.store 64 (List.replicate 64 0))).modify a
    (User.store 64 (pad 64 name))).writeUserFile

/-- The memory after `set_pass` wrote a hash. -/
def Server.setPassword (s : Server) (a : Addr) (hash : Digest) : Server :=
  ((s.modify a (User.store 128 (List.replicate 32 0))).modify a
    (User.store 128 hash.bytes)).writeUserFile

/-- Two writes to the arrays of a record keep what the arrays do not matter to. -/
theorem Server.store₂_congr {β : Type} {g : User → β}
    (hg : ∀ off bs u, g (User.store off bs u) = g u) (s : Server) (a : Addr) (off : Nat)
    (bs bs' : List UInt8) (b : Addr) :
    g (((s.modify a (User.store off bs)).modify a (User.store off bs')).heap b) = g (s.heap b) :=
  (modify_congr (hg _ _ _) b).trans (modify_congr (hg _ _ _) b)

theorem rename_roomID (s : Server) (a : Addr) (name : Str) (b : Addr) :
    ((s.rename a name).heap b).roomID = (s.heap b).roomID :=
  s.store₂_congr (fun _ _ _ => rfl) a 64 _ _ b

theorem setPassword_roomID (s : Server) (a : Addr) (hash : Digest) (b : Addr) :
    ((s.setPassword a hash).heap b).roomID = (s.heap b).roomID :=
  s.store₂_congr (fun _ _ _ => rfl) a 128 _ _ b

theorem rename_sock (s : Server) (a : Addr) (name : Str) (b : Addr) :
    ((s.rename a name).heap b).sock = (s.heap b).sock :=
  s.store₂_congr (fun _ _ _ => rfl) a 64 _ _ b

theorem setPassword_sock (s : Server) (a : Addr) (hash : Digest) (b : Addr) :
    ((s.setPassword a hash).heap b).sock = (s.heap b).sock :=
  s.store₂_congr (fun _ _ _ => rfl) a 128 _ _ b

theorem run_set_name (pkt : Packet) (fd : Int) (s : Server) :
    ops.run (set_name env pkt fd) s =
      if acceptsName REALNAME_LENGTH (localName env pkt.buf) = false then
        .ok ((), s, nameReply env "Invalid characters in requested name."
          "Requested name is too short." "Requested name is too long." REALNAME_LENGTH
          (localName env pkt.buf) fd)
      else match LinkedList.get_user s.heap s.registered_users_list pkt.username with
        | none => .ok ((), s, [.send fd (serverPacket env SERV_ERR
            (str "Name change failed, for some reason we couldn't find you."))])
        | some a =>
          let s' := s.rename a (localName env pkt.buf)
          ((announce env s' (s'.heap a).roomID
            (strncpy64 (s.heap a).real_name (env.ret.buf.drop 64) ++ str " is now known as " ++
              (s'.heap a).real_name) fd).andThen fun _ s'' =>
            .ok ((), s'', [.send fd (serverPacket env NAMESUC (localName env pkt.buf))])).prepend
            (fileEffects s' env.fd) := by
  simp only [set_name, Semantics.run_bind, validRealname, run_validName, Outcome.andThen_ok]
  cases hname : acceptsName REALNAME_LENGTH (localName env pkt.buf) with
  | false => simp
  | true =>
    rw [nameReply_of_accepts hname, Outcome.prepend_nil]
    cases hu : LinkedList.get_user s.heap s.registered_users_list pkt.username with
    | none => simp [Server.users, hu]
    | some a =>
      simp [Server.users, hu, Server.rename, fileEffects, run_announce]
      rfl

theorem run_set_pass (pkt : Packet) (fd : Int) (s : Server) :
    ops.run (set_pass sha256 env pkt fd) s =
      if 15 < (words pkt.buf).length then .error .overflow
      else if (words pkt.buf).length ≤ 3 then
        .ok ((), s, [.send fd (serverPacket env SERV_ERR
          (str "Password change failed, malformed request."))])
      else if acceptsPassword (arg (words pkt.buf) 2) (arg (words pkt.buf) 3) = false then
        .ok ((), s, passwordReply env (arg (words pkt.buf) 2) (arg (words pkt.buf) 3) fd)
      else match LinkedList.get_user s.heap s.registered_users_list pkt.username with
        | none => .ok ((), s, [.send fd (serverPacket env SERV_ERR
            (str "Password change failed, for some reason we couldn't find you."))])
        | some a =>
          if (s.heap a).hash ≠ (sha256 (arg (words pkt.buf) 1)).bytes then
            .ok ((), s, [.send fd (serverPacket env SERV_ERR
              (str "Password change failed, password mismatch."))])
          else
            let s' := s.setPassword a (sha256 (arg (words pkt.buf) 2))
            .ok ((), s', fileEffects s' env.fd ++ [.send fd (serverPacket env PASSSUC pkt.buf)]) := by
  rw [set_pass, run_splitArgs]
  refine ite_congr rfl (fun _ => rfl) fun _ => ?_
  by_cases h3 : (words pkt.buf).length ≤ 3
  · rw [if_neg (by omega), if_pos h3]
    simp
  rw [if_pos (by omega), if_neg h3, Semantics.run_bind, run_validPassword, Outcome.andThen_ok]
  cases hpass : acceptsPassword (arg (words pkt.buf) 2) (arg (words pkt.buf) 3) with
  | false => simp
  | true =>
    rw [passwordReply_of_accepts hpass, Outcome.prepend_nil]
    cases hu : LinkedList.get_user s.heap s.registered_users_list pkt.username with
    | none => simp [Server.users, hu]
    | some a =>
      by_cases hp : (s.heap a).hash = (sha256 (arg (words pkt.buf) 1)).bytes
      · simp [Server.users, hu, hp, Server.setPassword, fileEffects]
        rfl
      · simp [Server.users, hu, hp]

end TBDChat
