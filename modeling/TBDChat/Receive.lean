import TBDChat.AccountHandlers
import TBDChat.RoomHandlers

/-!
# What one packet can do

`Received` lists the ways in which `client_receive` can come to the end of one
packet: the guard that led there, the memory it leaves and its effects.  It is
read off the equations of the handlers once, here; an invariant of the server is
then a case for each of its constructors.

Replies that change nothing are lumped together as `answered` or `refused`.  Of
them only the code of each packet sent is kept.
-/

namespace TBDChat
open Atomic

set_option maxRecDepth 8000

/-- A reply to one client: neither traffic of a room nor the end of a session,
nor the word that a login or a change of password succeeded. -/
def Effect.Reply (e : Effect) : Prop :=
  ∃ fd q, e = .send fd q ∧ q.options ∈ [NAMESUC, JOINSUC, MOTD, INVITE, INVITESUC, GETUSERS,
    GETALLUSERS, GETUSER, GETROOMS, SERV_ERR]

variable (sha256 : Str → Digest) (env : Env)

/-- How `login` ends for the credentials `user` and `pass` on the connection
`fd`. -/
inductive Login (user pass : Str) (fd : Int) (s : Server) : Bool → Server → List Effect → Prop
  | refused {es : List Effect} (hes : ∀ e ∈ es, e.Reply) : Login user pass fd s false s es
  /-- The right credentials of a user who is active. -/
  | discarded {a : Addr} (ha : s.account user = some a)
      (hp : (s.heap a).hash = (sha256 pass).bytes)
      (hact : (LinkedList.get_user s.heap s.active_users_list user).isSome) :
      Login user pass fd s false (s.free a)
        [.send fd (serverPacket env SERV_ERR (str "User already logged in."))]
  | signedIn {a : Addr} {r : RoomRef} (ha : s.account user = some a)
      (hp : (s.heap a).hash = (sha256 pass).bytes)
      (hact : LinkedList.get_user s.heap s.active_users_list user = none)
      (hr : LinkedList.Rget_roomFID s.room_list DEFAULT_ROOM = some r) :
      Login user pass fd s true (s.signIn a fd r)
        (signInEffects env (s.signIn a fd r) user a fd r)

variable (p : Packet) (fd : Int) (s : Server)

/-- A registration that gets as far as making a record. -/
structure Registers : Prop where
  options : p.options = REGISTER
  words : 3 < (words p.buf).length
  name : acceptsName USERNAME_LENGTH (arg (TBDChat.words p.buf) 1) = true
  free : LinkedList.get_real_name s.heap s.registered_users_list (arg (TBDChat.words p.buf) 1) =
    ERROR
  server : SERVER_NAME ≠ arg (TBDChat.words p.buf) 1
  pass : acceptsPassword (arg (TBDChat.words p.buf) 2) (arg (TBDChat.words p.buf) 3) = true

/-- A change of password that gets as far as writing the hash of `a`. -/
structure ChangesPassword (a : Addr) : Prop where
  options : p.options = SETPASS
  words : 3 < (words p.buf).length
  pass : acceptsPassword (arg (TBDChat.words p.buf) 2) (arg (TBDChat.words p.buf) 3) = true
  user : LinkedList.get_user s.heap s.registered_users_list p.username = some a
  hash : (s.heap a).hash = (sha256 (arg (TBDChat.words p.buf) 1)).bytes

/-- A JOIN that passes its checks, so that there is a room of the name
afterwards. -/
structure Joins : Prop where
  options : p.options = JOIN
  words : 1 < (words p.buf).length
  name : acceptsName ROOMNAME_LENGTH (arg (TBDChat.words p.buf) 0) = true

/-- The record `register_user` makes for a packet. -/
def newcomer : User := newUser sha256 env (arg (words p.buf) 1) (arg (words p.buf) 2) fd

/-- What `client_receive` does with the packet `p` on the connection `fd`, from
the memory `s`: by the session the thread is in, what it does next, the memory
it leaves and its effects. -/
inductive Received : Option Str → Next → Server → List Effect → Prop
  | refused {es : List Effect} (hes : ∀ e ∈ es, e.Reply) : Received none (.receive none) s es
  | login {b : Bool} {s' : Server} {es : List Effect} (hopt : p.options = LOGIN)
      (hw : 2 < (words p.buf).length)
      (h : Login sha256 env (loginName p) (arg (words p.buf) 2) fd s b s' es) :
      Received none (.receive (if b then some (loginName p) else none)) s' es
  | register {b : Bool} {s' : Server} {es : List Effect} (hreg : Registers p s)
      (h : Login sha256 env (loginName p) (arg (words p.buf) 2) fd
        (s.enrol (newcomer sha256 env p fd)) b s' es) :
      Received none (.receive (if b then some (loginName p) else none)) s'
        (fileEffects (s.enrol (newcomer sha256 env p fd)) env.fd ++ es)
  | hungUp (hopt : p.options = EXIT) : Received none .done s [.close fd]
  | answered {name : Str} {es : List Effect} (hopt : ¬ (p.options = EXIT ∨ p.options = 0))
      (hes : ∀ e ∈ es, e.Reply) : Received (some name) (.receive (some name)) s es
  | renamed {name : Str} {a : Addr} {r : RoomRef} (hopt : p.options = SETNAME)
      (hname : acceptsName REALNAME_LENGTH (localName env p.buf) = true)
      (ha : LinkedList.get_user s.heap s.registered_users_list p.username = some a)
      (hr : LinkedList.Rget_roomFID s.room_list (s.heap a).roomID = some r) :
      Received (some name) (.receive (some name)) (s.rename a (localName env p.buf))
        (fileEffects (s.rename a (localName env p.buf)) env.fd ++
          (relay env (s.rename a (localName env p.buf)) (serverPacket env (s.heap a).roomID
            (strncpy64 (s.heap a).real_name (env.ret.buf.drop 64) ++ str " is now known as " ++
              ((s.rename a (localName env p.buf)).heap a).real_name)) fd r ++
            [.send fd (serverPacket env NAMESUC (localName env p.buf))]))
  | passwordSet {name : Str} {a : Addr} (h : ChangesPassword sha256 p s a) :
      Received (some name) (.receive (some name))
        (s.setPassword a (sha256 (arg (words p.buf) 2)))
        (fileEffects (s.setPassword a (sha256 (arg (words p.buf) 2))) env.fd ++
          [.send fd (serverPacket env PASSSUC p.buf)])
  /-- A JOIN from a room that there is not: only the room it names may be new. -/
  | opened {name : Str} (h : Joins p)
      (hr : LinkedList.Rget_roomFID (s.openRoom env.fd (arg (words p.buf) 0)).room_list
        (atoi (arg (words p.buf) 1)) = none) :
      Received (some name) (.receive (some name)) (s.openRoom env.fd (arg (words p.buf) 0))
        (openEffects s env.fd (arg (words p.buf) 0))
  | joined {name : Str} {s₁ s₂ : Server} {a : Addr} {r r' r'' : RoomRef} (h : Joins p)
      (hs₁ : s₁ = s.openRoom env.fd (arg (words p.buf) 0))
      (hr : LinkedList.Rget_roomFID s₁.room_list (atoi (arg (words p.buf) 1)) = some r)
      (ha : LinkedList.get_user s₁.heap (s₁.members r) p.username = some a)
      (hr' : LinkedList.Rget_roomFNAME s₁.room_list (arg (words p.buf) 0) = some r')
      (hr'' : LinkedList.Rget_roomFID s₁.room_list (s₁.room r').ID = some r'')
      (hs₂ : s₂ = s₁.move a r r' (s₁.room r').ID) :
      Received (some name) (.receive (some name)) s₂
        (openEffects s env.fd (arg (words p.buf) 0) ++
          .send fd (serverPacket env JOINSUC
            (arg (words p.buf) 0 ++ str " " ++ dec (s₁.room r').ID)) ::
          (relay env s₂ (serverPacket env (atoi (arg (words p.buf) 1))
            (strncpy64 (s₂.heap a).real_name [] ++ str " has left the room.")) (-1) r ++
          relay env s₂ (serverPacket env (s₁.room r').ID
            (strncpy64 (s₂.heap a).real_name [] ++ str " has joined the room.")) (-1) r''))
  | left {name : Str} {s' : Server} {a : Addr} {r d d' : RoomRef} (hopt : p.options = LEAVE)
      (hw : 1 < (words p.buf).length) (hne : atoi (arg (words p.buf) 1) ≠ DEFAULT_ROOM)
      (hr : LinkedList.Rget_roomFID s.room_list (atoi (arg (words p.buf) 1)) = some r)
      (ha : LinkedList.get_user s.heap (s.members r) p.username = some a)
      (hd : LinkedList.Rget_roomFID s.room_list DEFAULT_ROOM = some d)
      (hs' : s' = s.move a r d 1000)
      (hd' : LinkedList.Rget_roomFID s.room_list (s'.room d).ID = some d') :
      Received (some name) (.receive (some name)) s'
        (relay env s' (serverPacket env (atoi (arg (words p.buf) 1))
            (strncpy64 (s'.heap a).real_name (env.ret.buf.drop 64) ++
              str " has left the room.")) (-1) r ++
          .send fd (serverPacket env JOINSUC ((s'.room d).name ++ str " " ++
            dec (s'.room d).ID ++ str " has joined the room.")) ::
          relay env s' (serverPacket env (s'.room d).ID
            (strncpy64 (s'.heap a).real_name [] ++ str " has joined the room.")) (-1) d')
  | chat {name : Str} {r : RoomRef} (hopt : 1000 ≤ p.options)
      (hr : LinkedList.Rget_roomFID s.room_list p.options = some r) :
      Received (some name) (.receive (some name)) s
        (relay env s { p with buf := (sanitizeInput p.buf 0).1 } fd r)
  /-- The end of a session under a name that is not active. -/
  | vanished {name : Str} (hopt : p.options = EXIT ∨ p.options = 0)
      (ha : LinkedList.get_user s.heap s.active_users_list p.username = none) :
      Received (some name) .done s []
  | signedOut {name : Str} {a : Addr} {r : RoomRef} (hopt : p.options = EXIT ∨ p.options = 0)
      (ha : LinkedList.get_user s.heap s.active_users_list p.username = some a)
      (hr : LinkedList.Rget_roomFID s.room_list (s.heap a).roomID = some r) :
      Received (some name) .done (s.signOut a r)
        (relay env s (serverPacket env (s.heap a).roomID
            (str "User " ++ p.realname ++ str " has disconnected.")) (-1) r ++
          [.send fd (serverPacket env EXIT (str "Goodbye!")), .close fd])

variable {sha256 env p fd s}

/-! ## Reading it off the equations -/

section Replies
variable {options : Int} {buf : Str} {pass1 pass2 name : Str} {es : List Effect}

theorem Effect.reply_send {q : Packet} (h : q.options ∈ [NAMESUC, JOINSUC, MOTD, INVITE, INVITESUC,
    GETUSERS, GETALLUSERS, GETUSER, GETROOMS, SERV_ERR]) : (Effect.send fd q).Reply :=
  ⟨fd, q, rfl, h⟩

/-- An error reply is a reply. -/
theorem reply_error {e : Effect} (he : e ∈ [Effect.send fd (serverPacket env SERV_ERR buf)]) :
    e.Reply := by
  rw [List.mem_singleton.mp he]
  exact Effect.reply_send (List.elem_iff.mp rfl)

theorem reply_nameReply {invalid short long : String} {limit : Nat} {e : Effect}
    (he : e ∈ nameReply env invalid short long limit name fd) : e.Reply := by
  unfold nameReply at he
  split at he
  · exact reply_error he
  split at he
  · exact reply_error he
  split at he
  · exact reply_error he
  · cases he

theorem reply_passwordReply {e : Effect} (he : e ∈ passwordReply env pass1 pass2 fd) :
    e.Reply := by
  unfold passwordReply at he
  split at he
  · exact reply_error he
  split at he
  · exact reply_error he
  split at he
  · exact reply_error he
  · cases he

end Replies

/-- A login that ends. -/
theorem login_result {b : Bool} {s' : Server} {es : List Effect}
    (h : ops.run (login sha256 env p fd) s = .ok (b, s', es)) :
    (2 < (words p.buf).length ∧
      Login sha256 env (loginName p) (arg (words p.buf) 2) fd s b s' es) ∨
    (b = false ∧ s' = s ∧ es = []) := by
  rw [run_login] at h
  split at h
  · cases h
  split at h
  · cases h
    exact .inr ⟨rfl, rfl, rfl⟩
  rename_i hw
  refine .inl ⟨Nat.lt_of_not_le hw, ?_⟩
  split at h
  · cases h
    exact .refused fun e he => reply_error he
  rename_i a ha
  split at h
  · cases h
    exact .refused fun e he => reply_error he
  rename_i hp
  split at h
  · rename_i hact
    cases h
    exact .discarded ha (not_not.mp hp) hact
  rename_i hact
  split at h
  · cases h
  · rename_i r hr
    cases h
    exact .signedIn ha (not_not.mp hp) (Option.not_isSome_iff_eq_none.mp hact) hr

/-- A word holds no separator, and one that is not there is empty. -/
theorem not_mem_delim_arg {text : Str} {i : Nat} : ∀ c ∈ arg (words text) i, c ∉ delim := by
  by_cases hi : i < (words text).length
  · have hmem : arg (words text) i ∈ words text := by simp [arg, hi]
    exact fun c hc => ((mem_words hmem).2 c hc).2
  · have hnil : arg (words text) i = [] := by
      simp [arg, List.getElem?_eq_none (Nat.le_of_not_lt hi)]
    rw [hnil]
    exact fun c hc => absurd hc List.not_mem_nil

/-- The re-formed command has the words of the request. -/
theorem words_relogin (p : Packet) :
    words (relogin p).buf = [str "/login", arg (words p.buf) 1, arg (words p.buf) 2] :=
  words_login (by decide) not_mem_delim_arg not_mem_delim_arg

/-- A registration that ends. -/
theorem register_result {b : Bool} {s' : Server} {es : List Effect} (hopt : p.options = REGISTER)
    (h : ops.run (register_user sha256 env p fd) s = .ok (b, s', es)) :
    (∃ es', Registers p s ∧
      Login sha256 env (loginName p) (arg (words p.buf) 2) fd
        (s.enrol (newcomer sha256 env p fd)) b s' es' ∧
      es = fileEffects (s.enrol (newcomer sha256 env p fd)) env.fd ++ es') ∨
    (b = false ∧ s' = s ∧ ∀ e ∈ es, e.Reply) := by
  rw [run_register_user] at h
  split at h
  · cases h
  split at h
  · cases h
    exact .inr ⟨rfl, rfl, by simp⟩
  rename_i hw
  split at h
  · cases h
    exact .inr ⟨rfl, rfl, fun e he => reply_nameReply he⟩
  rename_i hname
  split at h
  · cases h
    exact .inr ⟨rfl, rfl, fun e he => reply_error he⟩
  rename_i hfree
  split at h
  · cases h
    exact .inr ⟨rfl, rfl, fun e he => reply_passwordReply he⟩
  rename_i hpass
  obtain ⟨hfree, hserver, -⟩ := by simpa only [not_or, not_not] using hfree
  have hreg : Registers p s :=
    ⟨hopt, Nat.lt_of_not_le hw, by simpa using hname, hfree, hserver, by simpa using hpass⟩
  obtain ⟨es', hlogin, rfl⟩ := Outcome.prepend_eq_ok h
  -- the login that follows is for the name and password of the request
  have hwords := words_relogin p
  rcases login_result hlogin with ⟨-, hl⟩ | ⟨rfl, rfl, rfl⟩
  · rw [loginName, hwords] at hl
    exact .inl ⟨es', hreg, hl, rfl⟩
  · exact .inl ⟨[], hreg, .refused (by simp), rfl⟩

/-- A change of name that ends. -/
theorem set_name_result {s' : Server} {es : List Effect} {name : Str} (hopt : p.options = SETNAME)
    (hexit : ¬ (p.options = EXIT ∨ p.options = 0))
    (h : ops.run (set_name env p fd) s = .ok ((), s', es)) :
    Received sha256 env p fd s (some name) (.receive (some name)) s' es := by
  rw [run_set_name] at h
  split at h
  · cases h
    exact .answered hexit fun e he => reply_nameReply he
  rename_i hname
  split at h
  · cases h
    exact .answered hexit fun e he => reply_error he
  rename_i a ha
  obtain ⟨es', hrun, rfl⟩ := Outcome.prepend_eq_ok h
  obtain ⟨r, es₂, hr, hend, rfl⟩ := announce_then_eq_ok hrun
  cases hend
  rw [rename_roomID] at hr ⊢
  exact .renamed hopt (by simpa using hname) ha hr

/-- A change of password that ends. -/
theorem set_pass_result {s' : Server} {es : List Effect} {name : Str} (hopt : p.options = SETPASS)
    (hexit : ¬ (p.options = EXIT ∨ p.options = 0))
    (h : ops.run (set_pass sha256 env p fd) s = .ok ((), s', es)) :
    Received sha256 env p fd s (some name) (.receive (some name)) s' es := by
  rw [run_set_pass] at h
  split at h
  · cases h
  split at h
  · cases h
    exact .answered hexit fun e he => reply_error he
  rename_i hw
  split at h
  · cases h
    exact .answered hexit fun e he => reply_passwordReply he
  rename_i hpass
  split at h
  · cases h
    exact .answered hexit fun e he => reply_error he
  rename_i a ha
  split at h
  · cases h
    exact .answered hexit fun e he => reply_error he
  rename_i hp
  cases h
  exact .passwordSet ⟨hopt, Nat.lt_of_not_le hw, by simpa using hpass, ha, not_not.mp hp⟩

/-- A JOIN that ends. -/
theorem join_result {s' : Server} {es : List Effect} {name : Str} (hopt : p.options = JOIN)
    (hexit : ¬ (p.options = EXIT ∨ p.options = 0))
    (h : ops.run (join env p fd) s = .ok ((), s', es)) :
    Received sha256 env p fd s (some name) (.receive (some name)) s' es := by
  rw [run_join] at h
  split at h
  · cases h
  split at h
  · cases h
    exact .answered hexit fun e he => reply_error he
  rename_i hw
  split at h
  · cases h
    refine .answered hexit fun e he => ?_
    rcases List.mem_append.mp he with he | he
    · exact reply_nameReply he
    · exact reply_error he
  rename_i hname
  have hjoin : Joins p := ⟨hopt, Nat.lt_of_not_le hw, by simpa using hname⟩
  obtain ⟨es', hrun, rfl⟩ := Outcome.prepend_eq_ok h
  rw [run_changeRoom] at hrun
  split at hrun
  · cases hrun
    rw [List.append_nil]
    exact .opened hjoin ‹_›
  rename_i r hr
  split at hrun
  · cases hrun
  rename_i a ha
  split at hrun
  · cases hrun
  rename_i r' hr'
  obtain ⟨es₁, hmoved, rfl⟩ := Outcome.prepend_eq_ok hrun
  obtain ⟨q, es₃, hq, hjoined, rfl⟩ := announce_then_eq_ok hmoved
  obtain ⟨r'', hr'', rfl, rfl⟩ := announce_eq_ok hjoined
  rw [Rget_roomFID_move] at hq hr''
  -- the message to the room that was left finds the room the user was removed from
  obtain rfl : q = r := Option.some.inj (hq.symm.trans hr)
  exact .joined hjoin rfl hr ha hr' hr'' rfl

/-- A LEAVE that ends. -/
theorem leave_result {s' : Server} {es : List Effect} {name : Str} (hopt : p.options = LEAVE)
    (hexit : ¬ (p.options = EXIT ∨ p.options = 0))
    (h : ops.run (leave env p fd) s = .ok ((), s', es)) :
    Received sha256 env p fd s (some name) (.receive (some name)) s' es := by
  rw [run_leave] at h
  split at h
  · cases h
  split at h
  · cases h
    exact .answered hexit (by simp)
  rename_i hw
  obtain ⟨hw, hne⟩ := not_or.mp hw
  split at h
  · cases h
    exact .answered hexit (by simp)
  rename_i r hr
  split at h
  · cases h
    exact .answered hexit (by simp)
  rename_i a ha
  split at h
  · cases h
  rename_i d hd
  obtain ⟨q, es₂, hq, hann, rfl⟩ := announce_then_eq_ok h
  obtain ⟨es₃, hjoined, rfl⟩ := Outcome.prepend_eq_ok hann
  obtain ⟨d', hd', rfl, rfl⟩ := announce_eq_ok hjoined
  rw [Rget_roomFID_move] at hq hd'
  obtain rfl : q = r := Option.some.inj (hq.symm.trans hr)
  exact .left hopt (Nat.lt_of_not_le hw) hne hr ha hd rfl hd'

/-- The end of a session. -/
theorem exit_client_result {s' : Server} {es : List Effect} {name : Str}
    (hopt : p.options = EXIT ∨ p.options = 0)
    (h : ops.run (exit_client env p fd) s = .ok ((), s', es)) :
    Received sha256 env p fd s (some name) .done s' es := by
  rw [run_exit_client] at h
  split at h
  · cases h
    exact .vanished hopt ‹_›
  split at h
  · cases h
  · cases h
    exact .signedOut hopt ‹_› ‹_›

section Queries
variable {s' : Server} {es : List Effect}

/-- A query leaves the memory alone and only replies. -/
def Answers (s s' : Server) (es : List Effect) : Prop := s' = s ∧ ∀ e ∈ es, e.Reply

theorem reply_userLines {options : Int} {l : List Addr} {e : Effect}
    (h : options ∈ [GETUSERS, GETALLUSERS]) (he : e ∈ userLines env s options fd l) : e.Reply := by
  obtain ⟨a, -, rfl⟩ := List.mem_map.mp he
  refine Effect.reply_send (q := serverPacket env options _) ?_
  rcases List.mem_pair.mp h with rfl | rfl
  · exact List.elem_iff.mp rfl
  · exact List.elem_iff.mp rfl

theorem get_active_users_result (h : ops.run (get_active_users env fd) s = .ok ((), s', es)) :
    Answers s s' es := by
  rw [run_get_active_users] at h
  cases h
  refine ⟨rfl, fun e he => ?_⟩
  rcases List.mem_cons.mp he with rfl | he
  · exact Effect.reply_send (List.elem_iff.mp rfl)
  · exact reply_userLines (by simp) he

theorem get_room_users_result (h : ops.run (get_room_users env p fd) s = .ok ((), s', es)) :
    Answers s s' es := by
  rw [run_get_room_users] at h
  split at h
  · cases h
    exact ⟨rfl, by simp⟩
  split at h
  · cases h
    exact ⟨rfl, by simp⟩
  cases h
  refine ⟨rfl, fun e he => ?_⟩
  rcases List.mem_cons.mp he with rfl | he
  · exact Effect.reply_send (List.elem_iff.mp rfl)
  · exact reply_userLines (by simp) he

theorem get_room_list_result (h : ops.run (get_room_list env fd) s = .ok ((), s', es)) :
    Answers s s' es := by
  rw [run_get_room_list] at h
  cases h
  refine ⟨rfl, fun e he => ?_⟩
  rcases List.mem_cons.mp he with rfl | he
  · exact Effect.reply_send (List.elem_iff.mp rfl)
  · obtain ⟨room, -, rfl⟩ := List.mem_map.mp he
    exact Effect.reply_send (List.elem_iff.mp rfl)

theorem user_lookup_result (h : ops.run (user_lookup env p fd) s = .ok ((), s', es)) :
    Answers s s' es := by
  rw [run_user_lookup] at h
  split at h
  · cases h
  split at h
  · cases h
    exact ⟨rfl, by simp⟩
  cases h
  refine ⟨rfl, fun e he => ?_⟩
  dsimp only at he
  split at he
  · exact reply_error he
  · rcases List.mem_pair.mp he with rfl | rfl
    · exact Effect.reply_send (List.elem_iff.mp rfl)
    · exact Effect.reply_send (List.elem_iff.mp rfl)

theorem invite_result (h : ops.run (invite env p fd) s = .ok ((), s', es)) :
    Answers s s' es := by
  rw [run_invite] at h
  split at h
  · cases h
  cases h
  refine ⟨rfl, fun e he => ?_⟩
  split at he
  · exact reply_error he
  split at he
  · rcases List.mem_pair.mp he with rfl | rfl
    · exact Effect.reply_send (List.elem_iff.mp rfl)
    · exact Effect.reply_send (List.elem_iff.mp rfl)
  · exact reply_error he

theorem sendMOTD_result (h : ops.run (sendMOTD env fd) s = .ok ((), s', es)) :
    Answers s s' es := by
  rw [run_sendMOTD] at h
  cases h
  refine ⟨rfl, fun e he => ?_⟩
  rw [List.mem_singleton.mp he]
  exact Effect.reply_send (List.elem_iff.mp rfl)

theorem sendError_result {error : Str}
    (h : ops.run (sendError env error fd) s = .ok ((), s', es)) : Answers s s' es := by
  rw [run_sendError] at h
  cases h
  exact ⟨rfl, fun e he => reply_error he⟩

/-- A query answers. -/
theorem Answers.received {name : Str} (hexit : ¬ (p.options = EXIT ∨ p.options = 0))
    (h : Answers s s' es) :
    Received sha256 env p fd s (some name) (.receive (some name)) s' es := by
  obtain ⟨rfl, hes⟩ := h
  exact .answered hexit hes

/-! ### Which handler a request comes to -/

/-- A request on a connection that is logged in, without what `client_receive` adds to it. -/
theorem request_of_receive {name : Str} {next : Next} (hlt : p.options < 1000)
    (hexit : ¬ (p.options = EXIT ∨ p.options = 0))
    (h : ops.run (client_receive sha256 env (some name) p fd) s = .ok (next, s', es)) :
    ops.run (receiveRequest sha256 env p fd) s = .ok ((), s', es) := by
  rw [client_receive, receiveSession, if_pos hlt, if_neg hexit] at h
  obtain ⟨_, hrequest, -⟩ := ops.run_bind_pure_eq h
  exact hrequest

theorem receiveRequest_set_pass (hopt : p.options = SETPASS) :
    receiveRequest sha256 env p fd = set_pass sha256 env p fd := by
  rw [receiveRequest, hopt, if_neg (by decide), if_pos rfl]

theorem receiveRequest_set_name (hopt : p.options = SETNAME) :
    receiveRequest sha256 env p fd = set_name env p fd := by
  rw [receiveRequest, hopt, if_neg (by decide), if_neg (by decide), if_pos rfl]

theorem receiveRequest_join (hopt : p.options = JOIN) :
    receiveRequest sha256 env p fd = join env p fd := by
  rw [receiveRequest, hopt, if_neg (by decide), if_neg (by decide), if_neg (by decide),
    if_neg (by decide), if_neg (by decide), if_pos rfl]

/-- A request that ends. -/
theorem request_result {name : Str} (hexit : ¬ (p.options = EXIT ∨ p.options = 0))
    (h : ops.run (receiveRequest sha256 env p fd) s = .ok ((), s', es)) :
    Received sha256 env p fd s (some name) (.receive (some name)) s' es := by
  unfold receiveRequest at h
  rcases ops.run_ite_eq h with ⟨-, h⟩ | ⟨-, h⟩
  · exact (sendError_result h).received hexit
  rcases ops.run_ite_eq h with ⟨hopt, h⟩ | ⟨-, h⟩
  · exact set_pass_result hopt hexit h
  rcases ops.run_ite_eq h with ⟨hopt, h⟩ | ⟨-, h⟩
  · exact set_name_result hopt hexit h
  rcases ops.run_ite_eq h with ⟨-, h⟩ | ⟨-, h⟩
  · exact (sendError_result h).received hexit
  rcases ops.run_ite_eq h with ⟨-, h⟩ | ⟨-, h⟩
  · exact (invite_result h).received hexit
  rcases ops.run_ite_eq h with ⟨hopt, h⟩ | ⟨-, h⟩
  · exact join_result hopt hexit h
  rcases ops.run_ite_eq h with ⟨hopt, h⟩ | ⟨-, h⟩
  · exact leave_result hopt hexit h
  rcases ops.run_ite_eq h with ⟨-, h⟩ | ⟨-, h⟩
  · exact (get_active_users_result h).received hexit
  rcases ops.run_ite_eq h with ⟨-, h⟩ | ⟨-, h⟩
  · exact (get_room_users_result h).received hexit
  rcases ops.run_ite_eq h with ⟨-, h⟩ | ⟨-, h⟩
  · exact (user_lookup_result h).received hexit
  rcases ops.run_ite_eq h with ⟨-, h⟩ | ⟨-, h⟩
  · exact (get_room_list_result h).received hexit
  rcases ops.run_ite_eq h with ⟨-, h⟩ | ⟨-, h⟩
  · exact (sendMOTD_result h).received hexit
  · cases h
    exact .answered hexit (by simp)

end Queries

/-- A packet on a connection that is not logged in. -/
theorem anonymous_result {next : Next} {s' : Server} {es : List Effect}
    (h : ops.run (receiveAnonymous sha256 env p fd) s = .ok (next, s', es)) :
    Received sha256 env p fd s none next s' es := by
  unfold receiveAnonymous at h
  rcases ops.run_ite_eq h with ⟨hopt, h⟩ | ⟨-, h⟩
  · obtain ⟨b, hreg, rfl⟩ := ops.run_bind_pure_eq h
    rcases register_result hopt hreg with ⟨es', hr, hl, rfl⟩ | ⟨rfl, rfl, hes⟩
    · exact .register hr hl
    · exact .refused hes
  rcases ops.run_ite_eq h with ⟨hopt, h⟩ | ⟨-, h⟩
  · obtain ⟨b, hlogin, rfl⟩ := ops.run_bind_pure_eq h
    rcases login_result hlogin with ⟨hw, hl⟩ | ⟨rfl, rfl, rfl⟩
    · exact .login hopt hw hl
    · exact .refused (by simp)
  rcases ops.run_ite_eq h with ⟨hopt, h⟩ | ⟨-, h⟩
  · cases h
    exact .hungUp hopt
  · cases h
    exact .refused fun e he => reply_error he

/-- A packet on a connection that is logged in. -/
theorem session_result {name : Str} {next : Next} {s' : Server} {es : List Effect}
    (h : ops.run (receiveSession sha256 env name p fd) s = .ok (next, s', es)) :
    Received sha256 env p fd s (some name) next s' es := by
  unfold receiveSession at h
  rcases ops.run_ite_eq h with ⟨-, h⟩ | ⟨hopt, h⟩
  · rcases ops.run_ite_eq h with ⟨hopt, h⟩ | ⟨hexit, h⟩
    · obtain ⟨_, hexit, rfl⟩ := ops.run_bind_pure_eq h
      exact exit_client_result hopt hexit
    · obtain ⟨_, hreq, rfl⟩ := ops.run_bind_pure_eq h
      exact request_result hexit hreq
  · obtain ⟨_, hsend, rfl⟩ := ops.run_bind_pure_eq h
    rw [run_send_message] at hsend
    split at hsend
    · cases hsend
    split at hsend
    · cases hsend
      exact .chat (Int.not_lt.mp hopt) ‹_›
    · cases hsend

/-- **What one packet can do.** -/
theorem received {session : Option Str} {next : Next} {s' : Server} {es : List Effect}
    (h : ops.run (client_receive sha256 env session p fd) s = .ok (next, s', es)) :
    Received sha256 env p fd s session next s' es := by
  cases session with
  | none => exact anonymous_result h
  | some name => exact session_result h

/-! ## What is sent -/

/-- The connection `d` is stored with a member of the room of that number. -/
def Server.Hears (s : Server) (d ID : Int) : Prop :=
  ∃ room ∈ s.room_list, room.ID = ID ∧ ∃ a ∈ room.user_list, (s.heap a).sock = d

section Sends
variable {s' : Server} {es : List Effect} {d : Int} {q : Packet}

/-- What `send_message` sends goes to the members of its room. -/
theorem relay_hears {pkt : Packet} {c : Int} {r : RoomRef}
    (h : Effect.send d q ∈ relay env s pkt c r)
    (hr : LinkedList.Rget_roomFID s.room_list pkt.options = some r) : s.Hears d q.options := by
  rcases List.mem_cons.mp h with h | h
  · cases h
  · obtain ⟨a, ha, he⟩ := List.mem_map.mp h
    cases he
    obtain ⟨room, hroom, hID⟩ := LinkedList.Rget_roomFID_some hr
    refine ⟨room, List.mem_of_getElem? hroom, hID, a, ?_, rfl⟩
    simpa [Server.members, Server.room, hroom] using (List.mem_filter.mp ha).1

theorem not_send_fileEffects : Effect.send d q ∉ fileEffects s fd := by
  unfold fileEffects
  split <;> simp

theorem not_send_openEffects {name : Str} : Effect.send d q ∉ openEffects s fd name := by
  unfold openEffects
  split <;> simp

theorem options_of_send {q' : Packet} {d' : Int} (h : Effect.send d q = .send d' q') :
    q.options = q'.options := by
  cases h
  rfl

/-- What a packet `q` sent to `d` is, between the memories `s` and `s'`: a reply,
the word that a login, a change of password or the end of a session succeeded, or
traffic of a room for one of its members, as they are before or after. -/
inductive Sent (sha256 : Str → Digest) (p : Packet) (session : Option Str) (s s' : Server)
    (d : Int) (q : Packet) : Prop
  | reply (h : (Effect.send d q).Reply)
  | loggedIn (h : q.options = LOGSUC)
  | passwordSet {a : Addr} (h : q.options = PASSSUC) (hsession : session.isSome)
      (hc : ChangesPassword sha256 p s a)
  | goodbye (h : q.options = EXIT)
  | before (h : s.Hears d q.options)
  | after (h : s'.Hears d q.options)

theorem Login.sends {session : Option Str} {s₀ : Server} {user pass : Str} {b : Bool}
    (h : Login sha256 env user pass fd s b s' es) (hq : Effect.send d q ∈ es) :
    Sent sha256 p session s₀ s' d q := by
  cases h with
  | refused hes => exact .reply (hes _ hq)
  | discarded => exact .reply (reply_error hq)
  | signedIn _ _ _ hr =>
    rcases List.mem_cons.mp hq with hq | hq
    · exact .loggedIn (options_of_send hq)
    rcases List.mem_append.mp hq with hq | hq
    · exact .after (relay_hears hq ((Rget_roomFID_signIn ..).trans hr))
    · rw [List.mem_singleton] at hq
      exact .reply (hq ▸ Effect.reply_send (List.elem_iff.mp rfl))

/-- **Every packet that is sent** is of one of these kinds. -/
theorem Received.sends {session : Option Str} {next : Next}
    (h : Received sha256 env p fd s session next s' es) (hq : Effect.send d q ∈ es) :
    Sent sha256 p session s s' d q := by
  cases h with
  | refused hes | answered _ hes => exact .reply (hes _ hq)
  | login _ _ hl => exact hl.sends hq
  | register _ hl =>
    rcases List.mem_append.mp hq with hq | hq
    · exact absurd hq not_send_fileEffects
    · exact hl.sends hq
  | hungUp => simp at hq
  | renamed _ _ _ hr =>
    rcases List.mem_append.mp hq with hq | hq
    · exact absurd hq not_send_fileEffects
    rcases List.mem_append.mp hq with hq | hq
    · exact .after (relay_hears hq hr)
    · rw [List.mem_singleton] at hq
      exact .reply (hq ▸ Effect.reply_send (List.elem_iff.mp rfl))
  | passwordSet hc =>
    rcases List.mem_append.mp hq with hq | hq
    · exact absurd hq not_send_fileEffects
    · exact .passwordSet (options_of_send (List.mem_singleton.mp hq)) rfl hc
  | opened => exact absurd hq not_send_openEffects
  | joined _ hs₁ hr _ _ hr'' hs₂ =>
    subst hs₁ hs₂
    rcases List.mem_append.mp hq with hq | hq
    · exact absurd hq not_send_openEffects
    rcases List.mem_cons.mp hq with hq | hq
    · exact .reply (hq ▸ Effect.reply_send (List.elem_iff.mp rfl))
    rcases List.mem_append.mp hq with hq | hq
    · exact .after (relay_hears hq ((Rget_roomFID_move ..).trans hr))
    · exact .after (relay_hears hq ((Rget_roomFID_move ..).trans hr''))
  | left _ _ _ hr _ _ hs' hd' =>
    subst hs'
    rcases List.mem_append.mp hq with hq | hq
    · exact .after (relay_hears hq ((Rget_roomFID_move ..).trans hr))
    rcases List.mem_cons.mp hq with hq | hq
    · exact .reply (hq ▸ Effect.reply_send (List.elem_iff.mp rfl))
    · exact .after (relay_hears hq ((Rget_roomFID_move ..).trans hd'))
  | chat _ hr => exact .before (relay_hears hq hr)
  | vanished => cases hq
  | signedOut _ _ hr =>
    rcases List.mem_append.mp hq with hq | hq
    · exact .before (relay_hears hq hr)
    · rcases List.mem_pair.mp hq with hq | hq
      · exact .goodbye (options_of_send hq)
      · cases hq

end Sends
end TBDChat
