import TBDChat.ServiceState

/-!
# The server refines the service

Every packet is a request to the service, or nothing it needs to know of.  `Packet.request` says
which, from the texts alone; what becomes of the request then depends on the state of the
service and on nothing else.  What the handlers do is that, and the room packets they send and
the lines they log are the posts of the service: every connection gets those it is to hear, in
their order, and the log of a room gets all of them.

This holds as long as clients act under their own names and no name fills its array.  Replies
to one client alone are no posts, and the service says nothing of them.
-/

namespace TBDChat
open Atomic Bytes ChatService

set_option maxRecDepth 8000

/-! ## Packets as requests -/

/-- The request a packet makes. -/
def Packet.request (sha256 : Str → Digest) (p : Packet) :
    Request Str Str (List UInt8) Str Packet :=
  let args := words p.buf
  if DEFAULT_ROOM ≤ p.options then .say (p.options - DEFAULT_ROOM).toNat p.relayed
  else if p.options = EXIT ∨ p.options = 0 then .quit p.realname
  else if p.options = REGISTER ∧ 3 < args.length ∧ acceptsName USERNAME_LENGTH (arg args 1) ∧
      SERVER_NAME ≠ arg args 1 ∧ acceptsPassword (arg args 2) (arg args 3) then
    .register (arg args 1) (sha256 (arg args 2)).bytes
  else if p.options = LOGIN ∧ 2 < args.length then .login (arg args 1) (sha256 (arg args 2)).bytes
  else if p.options = SETPASS ∧ 3 < args.length ∧ acceptsPassword (arg args 2) (arg args 3) then
    .changeSecret (sha256 (arg args 1)).bytes (sha256 (arg args 2)).bytes
  else if p.options = SETNAME ∧ acceptsName REALNAME_LENGTH p.buf then .rename p.buf
  else if p.options = JOIN ∧ 1 < args.length ∧ acceptsName ROOMNAME_LENGTH (arg args 0) then
    .join (arg args 0) (roomOf (atoi (arg args 1)))
  else if p.options = LEAVE ∧ 1 < args.length then .leave (roomOf (atoi (arg args 1)))
  else .other

/-- The connection and the request of an event. -/
def Event.request (sha256 : Str → Digest) : Event →
    Int × Request Str Str (List UInt8) Str Packet
  | .accept fd => (fd, .other)
  | .packet fd p _ => (fd, p.request sha256)

/-- The packet that a post is sent as. -/
def posted (env : Env) (q : Post Int Str Packet) : Packet :=
  match q.notice with
  | .arrived n => serverPacket env (DEFAULT_ROOM + q.room) (n ++ str " has joined the lobby.")
  | .left n => serverPacket env (DEFAULT_ROOM + q.room) (n ++ str " has left the room.")
  | .joined n => serverPacket env (DEFAULT_ROOM + q.room) (n ++ str " has joined the room.")
  | .renamed old new =>
    serverPacket env (DEFAULT_ROOM + q.room) (old ++ str " is now known as " ++ new)
  | .gone n =>
    serverPacket env (DEFAULT_ROOM + q.room) (str "User " ++ n ++ str " has disconnected.")
  | .said t => t

/-- The packets of rooms that go out on a connection, in order. -/
def heardOn (d : Int) (es : List Effect) : List Packet :=
  es.filterMap fun
    | .send fd q => if fd = d ∧ DEFAULT_ROOM ≤ q.options then some q else none
    | _ => none

/-- What is written to logs, in order. -/
def logLines (es : List Effect) : List (Int × Str) :=
  es.filterMap fun
    | .logged fd line => some (fd, line)
    | _ => none

/-- What is sent and logged are the posts: every connection gets those it is to hear, in their
order, and the log of a room gets all of them. -/
structure Tells (env : Env) (s : Server) (es : List Effect) (posts : List (Post Int Str Packet)) :
    Prop where
  rooms : ∀ q ∈ posts, q.room < s.room_list.length
  heard : ∀ d, heardOn d es = (posts.filter (·.hears d)).map (posted env)
  logged : logLines es = posts.map fun q => ((s.room q.room).fd, logLine env (posted env q))

/-- What has come of a request is what the service makes of it. -/
structure Complies (env : Env) (w' : World) (es : List Effect)
    (next : ServiceState × List (Post Int Str Packet)) : Prop where
  state : w'.service = next.1
  tells : Tells env w'.server es next.2

/-! ## Effects -/

section Effects
variable {env : Env} {d : Int} {e : Effect} {es es' : List Effect}

@[simp] theorem heardOn_nil : heardOn d [] = [] := rfl

@[simp] theorem logLines_nil : logLines [] = [] := rfl

@[simp] theorem heardOn_append : heardOn d (es ++ es') = heardOn d es ++ heardOn d es' :=
  List.filterMap_append ..

@[simp] theorem logLines_append : logLines (es ++ es') = logLines es ++ logLines es' :=
  List.filterMap_append ..

theorem heardOn_cons : heardOn d (e :: es) = heardOn d [e] ++ heardOn d es :=
  @heardOn_append d [e] es

theorem logLines_cons : logLines (e :: es) = logLines [e] ++ logLines es :=
  @logLines_append [e] es

@[simp] theorem heardOn_send {fd : Int} {q : Packet} : heardOn d [.send fd q] =
    if fd = d ∧ DEFAULT_ROOM ≤ q.options then [q] else [] := by
  simp only [heardOn, List.filterMap_cons, List.filterMap_nil]
  split
  · rename_i h
    split at h
    · cases h
    · rw [if_neg ‹_›]
  · rename_i h
    split at h
    · cases h
      rw [if_pos ‹_›]
    · cases h

/-- Effects that are neither traffic of a room nor lines of a log. -/
def Silent (es : List Effect) : Prop := (∀ d, heardOn d es = []) ∧ logLines es = []

theorem silent_nil : Silent [] := ⟨fun _ => rfl, rfl⟩

theorem Silent.append (h : Silent es) (h' : Silent es') : Silent (es ++ es') :=
  ⟨fun d => by rw [heardOn_append, h.1 d, h'.1 d, List.append_nil],
    by rw [logLines_append, h.2, h'.2, List.append_nil]⟩

theorem silent_send {fd : Int} {q : Packet} (h : q.options < DEFAULT_ROOM) :
    Silent [.send fd q] :=
  ⟨fun d => by rw [heardOn_send, if_neg fun hc => absurd hc.2 (Int.not_le.mpr h)], rfl⟩

theorem silent_reply (h : ∀ e ∈ es, e.Reply) : Silent es := by
  induction es with
  | nil => exact silent_nil
  | cons e es ih =>
    obtain ⟨fd, q, rfl, hq⟩ := h _ List.mem_cons_self
    have hreply : (Effect.send fd q).Reply := Effect.reply_send hq
    have hlt : q.options < DEFAULT_ROOM := hreply.options_lt
    exact (silent_send hlt).append (ih fun e he => h e (List.mem_cons_of_mem _ he))

theorem silent_packet {fd options : Int} {buf : Str} (h : options < DEFAULT_ROOM) :
    Silent [.send fd (serverPacket env options buf)] := silent_send h

theorem silent_error {fd : Int} {buf : Str} :
    Silent [.send fd (serverPacket env SERV_ERR buf)] := silent_packet (by decide)

theorem silent_file {s : Server} {fd : Int} : Silent (fileEffects s fd) := by
  unfold fileEffects
  split
  · exact ⟨fun _ => rfl, rfl⟩
  · exact ⟨fun _ => rfl, rfl⟩

theorem silent_open {s : Server} {fd : Int} {name : Str} : Silent (openEffects s fd name) := by
  unfold openEffects
  split
  · exact ⟨fun _ => rfl, rfl⟩
  · exact silent_nil

theorem Silent.tells {s : Server} (h : Silent es) : Tells env s es [] :=
  ⟨fun _ hq => (List.not_mem_nil hq).elim, h.1, h.2⟩

theorem Tells.append {s : Server} {posts posts' : List (Post Int Str Packet)}
    (h : Tells env s es posts) (h' : Tells env s es' posts') :
    Tells env s (es ++ es') (posts ++ posts') where
  rooms q hq := (List.mem_append.mp hq).elim (h.rooms q) (h'.rooms q)
  heard d := by rw [heardOn_append, h.heard, h'.heard, List.filter_append, List.map_append]
  logged := by rw [logLines_append, h.logged, h'.logged, List.map_append]

/-- What is silent may come in between. -/
theorem Silent.append_tells {s : Server} {posts : List (Post Int Str Packet)} (h : Silent es)
    (h' : Tells env s es' posts) : Tells env s (es ++ es') posts := h.tells.append h'

theorem Tells.append_silent {s : Server} {posts : List (Post Int Str Packet)}
    (h : Tells env s es posts) (h' : Silent es') : Tells env s (es ++ es') posts := by
  simpa using h.append h'.tells

end Effects

/-! ## Posts -/

theorem Conn.user_eq_some {c : Conn} {u : Str} : c.user = some u ↔ c = .serving (some u) := by
  cases c with
  | serving session => simp [Conn.user]
  | closed => simp [Conn.user]
  | abandoned => simp [Conn.user]

section Posts
variable {w w' : World} {env : Env} {es : List Effect} {d : Int} {q : Packet} {r : RoomRef}
  {but : Option Int}

/-- A connection hears what is sent to a room if its user is there and it is not left out. -/
theorem World.Settled.hearers_iff (hw : w.Settled) : w.service.hearers r but d = true ↔
    but ≠ some d ∧ ∃ a ∈ w.server.active_users_list,
      (w.server.heap a).roomID = DEFAULT_ROOM + r ∧ (w.server.heap a).sock = d := by
  have hi := hw.memory.housed
  rw [State.hearers, Bool.and_eq_true, decide_eq_true_eq, Option.any_eq_true]
  refine and_congr_right fun _ => ?_
  constructor
  · rintro ⟨u, hu, hplace⟩
    obtain ⟨a, ha, hroom⟩ := hi.place_eq_some.mp (of_decide_eq_true hplace)
    obtain ⟨hact, rfl⟩ := LinkedList.get_user_some ha
    exact ⟨a, hact, hroom, (hw.linked.sock_eq_iff hi hact).mpr (Conn.user_eq_some.mp hu)⟩
  · rintro ⟨a, ha, hroom, hsock⟩
    refine ⟨(w.server.heap a).username, ?_, decide_eq_true ?_⟩
    · exact Conn.user_eq_some.mpr ((hw.linked.sock_eq_iff hi ha).mp hsock)
    · exact hi.place_eq_some.mpr ⟨a, LinkedList.get_user_of_mem hi.distinct ha, hroom⟩

/-- A connection has at most one member of a room. -/
theorem World.Settled.filter_sock (hw : w.Settled) (hr : r < w.server.room_list.length) {a : Addr}
    (ha : a ∈ w.server.members r) : (w.server.members r).filter
      (fun b => (w.server.heap b).sock = (w.server.heap a).sock) = [a] := by
  have hi := hw.memory.housed
  have hsame : ∀ b ∈ w.server.members r,
      decide ((w.server.heap b).sock = (w.server.heap a).sock) = decide (b = a) := by
    intro b hb
    refine decide_eq_decide.mpr ⟨fun h => ?_, fun h => by rw [h]⟩
    exact hw.linked.sock_inj hi (hi.active hr hb) (hi.active hr ha) h
  rw [List.filter_congr hsame, List.filter_eq, List.count_eq_one_of_mem (hi.once r hr) ha]
  rfl

/-- The copies of a packet that go out on a connection. -/
theorem heardOn_deliveries {s : Server} {c : Int} {l : List Addr}
    (hopt : DEFAULT_ROOM ≤ q.options) : heardOn d (deliveries s q c l) =
      ((l.filter fun a => (s.heap a).sock = d).filter fun a => c ≠ (s.heap a).sock).map
        fun _ => q := by
  induction l with
  | nil => rfl
  | cons a l ih =>
    by_cases hc : c ≠ (s.heap a).sock
    · have hcons : deliveries s q c (a :: l) = .send (s.heap a).sock q :: deliveries s q c l := by
        simp [deliveries, hc]
      rw [hcons, heardOn_cons, ih, heardOn_send]
      by_cases hd : (s.heap a).sock = d
      · simp [hd, hopt, hd ▸ hc]
      · simp [hd]
    · have hcons : deliveries s q c (a :: l) = deliveries s q c l := by
        simp [deliveries, hc]
      rw [hcons, ih]
      by_cases hd : (s.heap a).sock = d
      · simp [hd, not_not.mp hc]
      · simp [hd]

/-- **What `send_message` sends is heard** by those who are to hear it, once. -/
theorem World.Settled.heardOn_relay (hw : w.Settled) (hr : r < w.server.room_list.length)
    (hopt : DEFAULT_ROOM ≤ q.options) : heardOn d (relay env w.server q (but.getD (-1)) r) =
      if w.service.hearers r but d then [q] else [] := by
  have hi := hw.memory.housed
  have hlog : heardOn d (relay env w.server q (but.getD (-1)) r) =
      heardOn d (deliveries w.server q (but.getD (-1)) (w.server.members r)) := rfl
  rw [hlog, heardOn_deliveries hopt]
  by_cases h : ∃ a ∈ w.server.members r, (w.server.heap a).sock = d
  · obtain ⟨a, ha, rfl⟩ := h
    have hact := hi.active hr ha
    have hin : ∃ b ∈ w.server.active_users_list, (w.server.heap b).roomID = DEFAULT_ROOM + r ∧
        (w.server.heap b).sock = (w.server.heap a).sock :=
      ⟨a, hact, by rw [((hi.member r hr a).mp ha).2, hw.memory.numbered r hr], rfl⟩
    -- the marker for nobody is no descriptor
    have hnonneg : 0 ≤ (w.server.heap a).sock := by
      refine hw.descriptors _ ?_
      rw [hw.linked.serving a hact]
      exact Conn.noConfusion
    have hbut : but.getD (-1) ≠ (w.server.heap a).sock ↔ but ≠ some (w.server.heap a).sock := by
      cases but with
      | none => simp; omega
      | some c => simp
    rw [hw.filter_sock hr ha]
    by_cases hc : but ≠ some (w.server.heap a).sock
    · rw [if_pos (hw.hearers_iff.mpr ⟨hc, hin⟩)]
      simp [hbut.mpr hc]
    · rw [if_neg fun hh => hc (hw.hearers_iff.mp hh).1]
      simp [not_not.mp (mt hbut.mp hc)]
  · have hnone : (w.server.members r).filter (fun a => (w.server.heap a).sock = d) = [] := by
      refine List.filter_eq_nil_iff.mpr fun a ha => ?_
      simpa using fun hd => h ⟨a, ha, hd⟩
    rw [hnone, if_neg]
    · rfl
    · intro hh
      obtain ⟨-, a, ha, hroom, hd⟩ := hw.hearers_iff.mp hh
      refine h ⟨a, (hi.member r hr a).mpr ⟨ha, ?_⟩, hd⟩
      rw [hroom, hw.memory.numbered r hr]

/-- A message to a room is a post. -/
theorem World.Settled.tells_relay (hw : w.Settled) {s' : Server} {n : Notice Str Packet} {c : Int}
    {hears : Int → Bool} (hr : r < w.server.room_list.length) (hq : posted env ⟨r, n, hears⟩ = q)
    (hopt : DEFAULT_ROOM ≤ q.options) (hhears : hears = w.service.hearers r but)
    (hc : but.getD (-1) = c) (hfd : (s'.room r).fd = (w.server.room r).fd)
    (hlen : s'.room_list.length = w.server.room_list.length) :
    Tells env s' (relay env w.server q c r) [⟨r, n, hears⟩] where
  rooms q hq := by
    rw [List.mem_singleton.mp hq, hlen]
    exact hr
  heard d := by
    rw [← hc, hw.heardOn_relay hr hopt, ← hhears]
    by_cases h : hears d
    · simp [h, hq]
    · simp [h]
  logged := by
    have hsends : logLines (deliveries w.server q c (w.server.members r)) = [] := by
      simp [logLines, deliveries]
    rw [relay, logLines_cons, hsends, List.map_singleton, hfd, hq]
    rfl

/-- The user of a session is active, under the first record of the name and in a room. -/
theorem World.Settled.session (hw : w.Settled) {fd : Int} {u : Str}
    (hfd : w.conns fd = .serving (some u)) : ∃ a,
    LinkedList.get_user w.server.heap w.server.active_users_list u = some a ∧
    LinkedList.get_user w.server.heap w.server.registered_users_list u = some a ∧
    ∃ r < w.server.room_list.length, (w.server.heap a).roomID = DEFAULT_ROOM + r ∧
      a ∈ w.server.members r ∧ w.server.place u = some r := by
  have hi := hw.memory.housed
  obtain ⟨a, ha, rfl, -⟩ := hw.linked.attended fd u hfd
  have hact := LinkedList.get_user_of_mem hi.distinct ha
  obtain ⟨r, hr, hID⟩ := hi.room a ha
  rw [hw.memory.numbered r hr] at hID
  exact ⟨a, hact, hw.memory.first a ha, r, hr, hID.symm,
    (hi.member r hr a).mpr ⟨ha, by rw [hw.memory.numbered r hr, hID]⟩,
    hi.place_eq_some.mpr ⟨a, hact, hID.symm⟩⟩

theorem World.accounts_eq {u : Str} {a : Addr}
    (ha : LinkedList.get_user w.server.heap w.server.registered_users_list u = some a) :
    w.service.accounts u = some (w.server.heap a).account := by
  show w.server.accounts u = _
  rw [Server.accounts, ha, Option.map_some]

/-- Where only records changed, accounts are what there is to compare. -/
theorem World.service_eq {s' : Server} {conns : Int → Conn} {v : ServiceState}
    (haccounts : s'.accounts = v.accounts) (hsession : ∀ fd, (conns fd).user = v.session fd)
    (hplace : s'.place = v.place) (hnames : s'.names = v.rooms) :
    World.service ⟨s', conns⟩ = v := by
  rw [World.service, haccounts, hplace, hnames, funext hsession]

end Posts

/-! ## The handlers of accounts -/

section Handlers
variable {sha256 : Str → Digest} {w : World} {env : Env} {p : Packet} {fd : Int} {u : Str}
  {s' : Server} {es : List Effect}

theorem World.Settled.username (hw : w.Settled) {a : Addr}
    (ha : LinkedList.get_user w.server.heap w.server.registered_users_list u = some a) :
    (w.server.heap a).username.length < 64 :=
  Nat.lt_succ_of_le (hw.memory.short.username a (LinkedList.get_user_some ha).1)

theorem World.Settled.real_name (hw : w.Settled) {a : Addr}
    (ha : LinkedList.get_user w.server.heap w.server.registered_users_list u = some a) :
    (w.server.heap a).real_name.length < 64 :=
  Nat.lt_succ_of_le (hw.memory.short.real_name a (LinkedList.get_user_some ha).1)

theorem Packet.request_set_pass (hopt : p.options = SETPASS) : p.request sha256 =
    if 3 < (words p.buf).length ∧
        acceptsPassword (arg (words p.buf) 2) (arg (words p.buf) 3) = true then
      .changeSecret (sha256 (arg (words p.buf) 1)).bytes (sha256 (arg (words p.buf) 2)).bytes
    else .other := by
  simp [Packet.request, hopt, DEFAULT_ROOM, EXIT, REGISTER, LOGIN, SETPASS, SETNAME, JOIN, LEAVE]

theorem set_pass_complies (hw : w.Settled) (hopt : p.options = SETPASS)
    (h : ops.run (set_pass sha256 env p fd) w.server = .ok ((), s', es))
    (hfd : w.conns fd = .serving (some p.username)) :
    Complies env ⟨s', w.conns⟩ es (w.service.member fd p.username (p.request sha256)) := by
  obtain ⟨a, -, ha, -⟩ := hw.session hfd
  have hacc := World.accounts_eq ha
  rw [run_set_pass] at h
  rw [Packet.request_set_pass hopt]
  split at h
  · cases h
  split at h
  · rename_i h3
    cases h
    rw [if_neg fun hc => absurd hc.1 (Nat.not_lt_of_le h3)]
    exact ⟨rfl, silent_error.tells⟩
  rename_i h3
  split at h
  · rename_i hpass
    cases h
    rw [if_neg fun hc => absurd hc.2 (by rw [hpass]; decide)]
    exact ⟨rfl, (silent_reply fun e he => reply_passwordReply he).tells⟩
  rename_i hpass
  rw [if_pos ⟨Nat.lt_of_not_le h3, by simpa using hpass⟩]
  rw [ha] at h
  dsimp only at h
  rw [State.member_changeSecret hacc, User.account_secret, User.account_shown]
  split at h
  · rename_i hp
    cases h
    rw [if_neg hp]
    exact ⟨rfl, silent_error.tells⟩
  · rename_i hp
    cases h
    rw [if_pos (not_not.mp hp)]
    have hlen := hw.username ha
    refine ⟨World.service_eq ?_ (fun _ => rfl) ?_ rfl, ?_⟩
    · have hreal := Server.real_name_setPassword (hw.real_name ha) (sha256 (arg (words p.buf) 2)) a
      have hhash := (User.setPassword (w.server.heap a) (sha256 (arg (words p.buf) 2))).1
      rw [← Server.setPassword_self] at hhash
      rw [Server.accounts_modify (w.server.username_setPassword hlen _) rfl
        (fun b hb => w.server.setPassword_ne _ hb) ha, User.account, hreal, hhash]
      rfl
    · exact Server.place_congr rfl (fun b _ => w.server.username_setPassword hlen _ b)
        fun b _ => setPassword_roomID w.server a _ b
    · exact (silent_file.append (silent_packet (by decide))).tells

theorem Packet.request_set_name (hopt : p.options = SETNAME) : p.request sha256 =
    if acceptsName REALNAME_LENGTH p.buf = true then .rename p.buf else .other := by
  simp [Packet.request, hopt, DEFAULT_ROOM, EXIT, REGISTER, LOGIN, SETPASS, SETNAME, JOIN, LEAVE]

/-- Where no name fills its array, `strncpy` copies all of it. -/
theorem strncpy64_of_lt {src : Str} (h : src.length < 64) (rest : Str) :
    strncpy64 src rest = src := if_pos h

/-- After a change of name the sessions are as they were. -/
theorem World.Settled.rename (hw : w.Settled) {a : Addr} {name : Str}
    (ha : LinkedList.get_user w.server.heap w.server.registered_users_list u = some a)
    (h0 : (0 : UInt8) ∉ name) (hlen : name.length < 64) :
    World.Settled ⟨w.server.rename a name, w.conns⟩ := by
  have huser := hw.username ha
  have hi := hw.memory.housed
  have hname := (LinkedList.get_user_some ha).2
  have hc : Change u w.server (w.server.rename a name) := .rename (hname ▸ huser) ha
  exact ⟨⟨hc.ordered hi hw.memory.toOrdered, hc.housed hi, hw.memory.short.rename h0 hlen huser⟩,
    (SameSessions.rename huser name).linked hw.linked, hw.descriptors⟩

theorem set_name_complies (hw : w.Settled) (hopt : p.options = SETNAME) (h0 : (0 : UInt8) ∉ p.buf)
    (hlen : p.buf.length < 64) (hfd : w.conns fd = .serving (some p.username))
    (h : ops.run (set_name env p fd) w.server = .ok ((), s', es)) :
    Complies env ⟨s', w.conns⟩ es (w.service.member fd p.username (p.request sha256)) := by
  obtain ⟨a, hact, ha, r, hr, hroom, -, hplace⟩ := hw.session hfd
  have hacc := World.accounts_eq ha
  have htext : localName env p.buf = p.buf := strncpy64_of_lt hlen _
  rw [run_set_name, htext] at h
  rw [Packet.request_set_name hopt]
  split at h
  · rename_i hname
    cases h
    rw [if_neg (by rw [hname]; decide)]
    exact ⟨rfl, (silent_reply fun e he => reply_nameReply he).tells⟩
  rename_i hname
  rw [if_pos (by simpa using hname), State.member_rename hacc hplace, User.account_secret,
    User.account_shown]
  rw [ha] at h
  obtain ⟨es', hrun, rfl⟩ := Outcome.prepend_eq_ok h
  obtain ⟨k, es₂, hk, hend, rfl⟩ := announce_then_eq_ok hrun
  cases hend
  have hw' := hw.rename ha h0 hlen
  have huser := w.server.username_rename (hw.username ha) p.buf
  -- the room of the record is the one the user is in
  rw [rename_roomID, hroom] at hk ⊢
  obtain rfl : k = r := Option.some.inj ((hw'.memory.Rget_roomFID_iff.mp hk).2.symm.trans
    (Server.roomOf_eq_some.mpr rfl))
  have hreal : ((w.server.rename a p.buf).heap a).real_name = p.buf :=
    Server.real_name_rename_self h0 hlen
  have hplaces : (w.server.rename a p.buf).place = w.server.place :=
    Server.place_congr rfl (fun b _ => huser b) fun b _ => rename_roomID w.server a _ b
  rw [hreal, strncpy64_of_lt (hw.real_name ha)]
  refine ⟨World.service_eq ?_ (fun _ => rfl) hplaces rfl, silent_file.append_tells ?_⟩
  · have hhash : ((w.server.rename a p.buf).heap a).hash = (w.server.heap a).hash :=
      congrArg (List.take 32) (w.server.password_rename p.buf)
    rw [Server.accounts_modify huser rfl (fun b hb => Server.rename_heap_ne hb) ha, User.account,
      hreal, hhash]
    rfl
  · refine Tells.append_silent ?_ (silent_packet (by decide))
    have hhears : w.service.hearers = (World.service ⟨w.server.rename a p.buf, w.conns⟩).hearers :=
      State.hearers_congr rfl hplaces.symm
    rw [hhears]
    exact hw'.tells_relay hr rfl (Int.le_add_of_nonneg_right (Int.natCast_nonneg k)) rfl rfl rfl
      rfl

end Handlers

/-! ## The handlers of rooms -/

section Handlers
variable {sha256 : Str → Digest} {w : World} {env : Env} {p : Packet} {fd : Int} {u : Str}
  {s' : Server} {es : List Effect} {a : Addr} {r r' : RoomRef}

/-- The state after a room was made sure of. -/
theorem World.Settled.openRoom (hw : w.Settled) (fd : Int) {name : Str}
    (hname : name.length ≤ ROOMNAME_LENGTH) :
    World.Settled ⟨w.server.openRoom fd name, w.conns⟩ ∧
    World.service ⟨w.server.openRoom fd name, w.conns⟩ = w.service.openRoom name := by
  have hi := hw.memory.housed
  have hc : Change name w.server (w.server.openRoom fd name) := .openRoom hname
  obtain ⟨rooms, n, heq⟩ := w.server.openRoom_eq fd name
  have hplace : (w.server.openRoom fd name).place = w.server.place := by
    rw [heq]
    rfl
  have haccounts : (w.server.openRoom fd name).accounts = w.server.accounts := by
    rw [heq]
    rfl
  refine ⟨⟨⟨hc.ordered hi hw.memory.toOrdered, hc.housed hi,
    hw.memory.short.openRoom hi.table fd hname⟩,
    (SameSessions.openRoom w.server fd name).linked hw.linked, hw.descriptors⟩,
    World.service_eq haccounts (fun _ => rfl) hplace ?_⟩
  rw [Server.names_openRoom hi.table fd hname, State.openRoom]
  congr

/-- The state after somebody went to another room. -/
theorem World.Settled.move (hw : w.Settled) (hr : r < w.server.room_list.length)
    (hr' : r' < w.server.room_list.length) (hlen : u.length < 64)
    (ha : LinkedList.get_user w.server.heap (w.server.members r) u = some a) :
    World.Settled ⟨w.server.move a r r' (DEFAULT_ROOM + r'), w.conns⟩ ∧
    World.service ⟨w.server.move a r r' (DEFAULT_ROOM + r'), w.conns⟩ =
      { w.service with place := Function.update w.service.place u (some r') } := by
  have hi := hw.memory.housed
  obtain ⟨hmem, rfl⟩ := LinkedList.get_user_some ha
  have hlen' : (w.server.heap a).username.length < 192 := by omega
  have hc : Change (w.server.heap a).username w.server
      (w.server.move a r r' (DEFAULT_ROOM + r')) :=
    .move hlen' hr hr' (hw.memory.numbered r' hr').symm ha
  have hchars (b : Addr) : ((w.server.move a r r' (DEFAULT_ROOM + r')).heap b).chars =
      (w.server.heap b).chars := w.server.move_congr (fun _ _ => rfl) a r r' _ b
  have hnames : (w.server.move a r r' (DEFAULT_ROOM + r')).names = w.server.names :=
    (SameRooms.move ..).names
  refine ⟨⟨⟨hc.ordered hi hw.memory.toOrdered, hc.housed hi,
    hw.memory.short.of_chars rfl (fun b _ => hchars b) hnames⟩,
    (SameSessions.move hlen' r r' _).linked hw.linked, hw.descriptors⟩,
    World.service_eq ?_ (fun _ => rfl) ?_ hnames⟩
  · exact hw.memory.short.accounts_eq rfl fun b _ => hchars b
  · exact hi.place_move hlen' hr hr' hmem rfl

/-- Going to another room, and what the two rooms are told. -/
theorem World.Settled.move_complies (hw : w.Settled) (hr : r < w.server.room_list.length)
    (hr' : r' < w.server.room_list.length) (hlen : u.length < 64)
    (ha : LinkedList.get_user w.server.heap (w.server.members r) u = some a)
    {es₁ es₂ : List Effect} (h₁ : Silent es₁) (h₂ : Silent es₂) (rest rest' : Str)
    (hs' : s' = w.server.move a r r' (DEFAULT_ROOM + r')) :
    Complies env ⟨s', w.conns⟩ (es₁ ++ (relay env s' (serverPacket env (DEFAULT_ROOM + r)
        (strncpy64 (s'.heap a).real_name rest ++ str " has left the room.")) (-1) r ++
      (es₂ ++ relay env s' (serverPacket env (DEFAULT_ROOM + r')
        (strncpy64 (s'.heap a).real_name rest' ++ str " has joined the room.")) (-1) r')))
      (w.service.move u r r') := by
  have hi := hw.memory.housed
  obtain ⟨hmem, hname⟩ := LinkedList.get_user_some ha
  have hreg := hw.memory.first a (hi.active hr hmem)
  rw [hname] at hreg
  obtain ⟨hw', hv'⟩ := hw.move hr hr' hlen ha
  have hreal := hw.real_name hreg
  have hrooms : SameRooms w.server s' := hs' ▸ .move ..
  have hkeep : (s'.heap a).real_name = (w.server.heap a).real_name := by
    rw [hs']
    exact User.real_name_of_chars (w.server.move_congr (fun _ _ => rfl) a r r' _ a) (by omega)
  rw [← hs'] at hw' hv'
  rw [hkeep, strncpy64_of_lt hreal, strncpy64_of_lt hreal, State.move_some (World.accounts_eq hreg),
    ← hv']
  refine ⟨rfl, h₁.append_tells (@Tells.append _ _ _ _ [_] _ ?_ (h₂.append_tells ?_))⟩
  · exact hw'.tells_relay (hrooms.length ▸ hr) rfl
      (Int.le_add_of_nonneg_right (Int.natCast_nonneg r)) rfl rfl rfl rfl
  · exact hw'.tells_relay (hrooms.length ▸ hr') rfl
      (Int.le_add_of_nonneg_right (Int.natCast_nonneg r')) rfl rfl rfl rfl

theorem Packet.request_join (hopt : p.options = JOIN) : p.request sha256 =
    if 1 < (words p.buf).length ∧ acceptsName ROOMNAME_LENGTH (arg (words p.buf) 0) = true then
      .join (arg (words p.buf) 0) (roomOf (atoi (arg (words p.buf) 1)))
    else .other := by
  simp [Packet.request, hopt, DEFAULT_ROOM, EXIT, REGISTER, LOGIN, SETPASS, SETNAME, JOIN, LEAVE]

/-- The position of a name on the doors. -/
theorem Server.findIdx_names {s : Server} {name : Str}
    (h : LinkedList.Rget_roomFNAME s.room_list name = some r) :
    r < s.room_list.length ∧ s.names.findIdx (fun n => decide (n = name)) = r := by
  obtain ⟨hlt, hidx⟩ := List.findIdx?_eq_some_iff_findIdx_eq.mp h
  refine ⟨hlt, ?_⟩
  rw [Server.names, List.findIdx_map]
  exact hidx

theorem join_complies (hw : w.Settled) (hp : p.Wf) (hopt : p.options = JOIN)
    (hfd : w.conns fd = .serving (some p.username))
    (h : ops.run (join env p fd) w.server = .ok ((), s', es)) :
    Complies env ⟨s', w.conns⟩ es (w.service.member fd p.username (p.request sha256)) := by
  have hlen : p.username.length < 64 := Nat.lt_succ_of_le hp.username.1
  obtain ⟨a, hact, ha, k, hk, hroom, -, hplace⟩ := hw.session hfd
  rw [run_join] at h
  rw [Packet.request_join hopt]
  split at h
  · cases h
  split at h
  · rename_i h1
    cases h
    rw [if_neg fun hc => absurd hc.1 (Nat.not_lt_of_le h1)]
    exact ⟨rfl, silent_error.tells⟩
  rename_i h1
  split at h
  · rename_i hname
    cases h
    rw [if_neg fun hc => absurd hc.2 (by rw [hname]; decide)]
    exact ⟨rfl, ((silent_reply fun e he => reply_nameReply he).append silent_error).tells⟩
  rename_i hname
  have hname : acceptsName ROOMNAME_LENGTH (arg (words p.buf) 0) = true := by simpa using hname
  rw [if_pos ⟨Nat.lt_of_not_le h1, hname⟩]
  obtain ⟨es', hrun, rfl⟩ := Outcome.prepend_eq_ok h
  obtain ⟨hw₁, hv₁⟩ := hw.openRoom env.fd (acceptsName_iff.mp hname).2.2
  -- where the user is, it is after the room was made sure of
  have hplace₁ : (w.server.openRoom env.fd (arg (words p.buf) 0)).place p.username = some k := by
    rw [← hplace]
    exact congrFun (congrArg State.place hv₁) p.username
  rw [State.member_join hplace, ← hv₁]
  generalize w.server.openRoom env.fd (arg (words p.buf) 0) = s₁ at hrun hw₁ hv₁ hplace₁ ⊢
  have hsilent : Silent (openEffects w.server env.fd (arg (words p.buf) 0)) := silent_open
  have hk₁ := hw₁.memory.place_lt hplace₁
  rw [run_changeRoom] at hrun
  split at hrun
  · -- no room has the number, so it is not where the user is
    rename_i hnone
    cases hrun
    have hne : roomOf (atoi (arg (words p.buf) 1)) ≠ some k := by
      intro hk
      rw [hw₁.memory.Rget_roomFID_iff.mpr ⟨hk₁, hk⟩] at hnone
      cases hnone
    rw [if_neg hne, List.append_nil]
    exact ⟨rfl, hsilent.tells⟩
  rename_i r hr
  split at hrun
  · cases hrun
  rename_i b hb
  split at hrun
  · cases hrun
  rename_i r' hr'
  have hb : LinkedList.get_user s₁.heap (s₁.members r) p.username = some b := hb
  obtain ⟨hnum, hplace₂⟩ := hw₁.memory.find_member.mp ⟨b, hr, hb⟩
  obtain rfl : k = r := Option.some.inj (hplace₁.symm.trans hplace₂)
  obtain ⟨hlt, hidx⟩ := Server.findIdx_names hr'
  rw [hw₁.memory.numbered r' hlt, Server.roomOf_eq_some.mp hnum] at hrun
  obtain ⟨es₁, hmoved, rfl⟩ := Outcome.prepend_eq_ok hrun
  obtain ⟨q, es₃, hq, hjoined, rfl⟩ := announce_then_eq_ok hmoved
  obtain ⟨q', hq', rfl, rfl⟩ := announce_eq_ok hjoined
  rw [Rget_roomFID_move] at hq hq'
  obtain rfl : k = q := Option.some.inj ((Server.roomOf_eq_some.mpr rfl).symm.trans
    (hw₁.memory.Rget_roomFID_iff.mp hq).2)
  obtain rfl : r' = q' := Option.some.inj ((Server.roomOf_eq_some.mpr rfl).symm.trans
    (hw₁.memory.Rget_roomFID_iff.mp hq').2)
  have hjoinsuc : Silent [.send fd (serverPacket env JOINSUC
      (arg (words p.buf) 0 ++ str " " ++ dec (DEFAULT_ROOM + r')))] := silent_packet (by decide)
  have hmove := @World.Settled.move_complies _ env _ _ _ _ _ hw₁ hk₁ hlt hlen hb _ _
    (hsilent.append hjoinsuc) silent_nil [] [] rfl
  rw [if_pos hnum]
  simpa only [World.service, hidx, List.append_assoc, List.nil_append] using hmove

theorem Packet.request_leave (hopt : p.options = LEAVE) : p.request sha256 =
    if 1 < (words p.buf).length then .leave (roomOf (atoi (arg (words p.buf) 1))) else .other := by
  simp [Packet.request, hopt, DEFAULT_ROOM, EXIT, REGISTER, LOGIN, SETPASS, SETNAME, JOIN, LEAVE]

theorem leave_complies (hw : w.Settled) (hp : p.Wf) (hopt : p.options = LEAVE)
    (hfd : w.conns fd = .serving (some p.username))
    (h : ops.run (leave env p fd) w.server = .ok ((), s', es)) :
    Complies env ⟨s', w.conns⟩ es (w.service.member fd p.username (p.request sha256)) := by
  have hlen : p.username.length < 64 := Nat.lt_succ_of_le hp.username.1
  obtain ⟨a, hact, ha, k, hk, hroom, -, hplace⟩ := hw.session hfd
  rw [run_leave] at h
  rw [Packet.request_leave hopt]
  split at h
  · cases h
  by_cases h1 : (words p.buf).length ≤ 1
  · rw [if_pos (.inl h1)] at h
    cases h
    rw [if_neg (Nat.not_lt_of_le h1)]
    exact ⟨rfl, silent_nil.tells⟩
  rw [if_pos (Nat.lt_of_not_le h1), State.member_leave hplace]
  -- the Lobby is not left
  have hlobby : roomOf (atoi (arg (words p.buf) 1)) = some k →
      (k = 0 ↔ atoi (arg (words p.buf) 1) = DEFAULT_ROOM) := by
    intro hk
    rw [Server.roomOf_eq_some.mp hk]
    omega
  split at h
  · rename_i hor
    have hdef := hor.resolve_left h1
    cases h
    rw [if_neg fun hc => hc.2 ((hlobby hc.1).mpr hdef)]
    exact ⟨rfl, silent_nil.tells⟩
  rename_i hor
  have hdef := (not_or.mp hor).2
  split at h
  · rename_i hnone
    cases h
    have hne : roomOf (atoi (arg (words p.buf) 1)) ≠ some k := by
      intro hnum
      rw [hw.memory.Rget_roomFID_iff.mpr ⟨hk, hnum⟩] at hnone
      cases hnone
    rw [if_neg fun hc => hne hc.1]
    exact ⟨rfl, silent_nil.tells⟩
  rename_i r hr
  split at h
  · -- the user is not in the room, by `place` either
    rename_i hnone
    cases h
    rw [if_neg]
    · exact ⟨rfl, silent_nil.tells⟩
    · rintro ⟨hnum, -⟩
      obtain ⟨b, hr', hb⟩ := hw.memory.find_member.mpr ⟨hnum, hplace⟩
      obtain rfl := Option.some.inj (hr.symm.trans hr')
      rw [hnone] at hb
      cases hb
  rename_i b hb
  obtain ⟨hnum, hplace₂⟩ := hw.memory.find_member.mp ⟨b, hr, hb⟩
  obtain rfl : k = r := Option.some.inj (hplace.symm.trans hplace₂)
  rw [hw.memory.housed.table.Rget_lobby] at h
  obtain ⟨q, es₂, hq, hann, rfl⟩ := announce_then_eq_ok h
  obtain ⟨es₃, hjoined, rfl⟩ := Outcome.prepend_eq_ok hann
  have h0 := Rget_roomFID_lt hw.memory.housed.table.Rget_lobby
  have hID : ((w.server.move b k 0 1000).room 0).ID = 1000 := by
    rw [(SameRooms.move ..).ID, hw.memory.numbered 0 h0]
    rfl
  rw [hID] at hjoined
  obtain ⟨d', hd', rfl, rfl⟩ := announce_eq_ok hjoined
  rw [Rget_roomFID_move] at hq hd'
  obtain rfl : d' = 0 := Option.some.inj (hd'.symm.trans hw.memory.housed.table.Rget_lobby)
  rw [Server.roomOf_eq_some.mp hnum] at hq ⊢
  obtain rfl : k = q := Option.some.inj ((Server.roomOf_eq_some.mpr rfl).symm.trans
    (hw.memory.Rget_roomFID_iff.mp hq).2)
  rw [if_pos ⟨Server.roomOf_eq_some.mpr rfl, fun hz => hdef ((hlobby hnum).mp hz)⟩]
  have hjoinsuc : Silent [.send fd (serverPacket env JOINSUC
      (((w.server.move b k 0 1000).room 0).name ++ str " " ++ dec 1000 ++
        str " has joined the room."))] := silent_packet (by decide)
  rw [hID]
  exact hw.move_complies hk h0 hlen hb silent_nil hjoinsuc _ [] rfl

theorem Packet.request_exit (hopt : p.options = EXIT ∨ p.options = 0) :
    p.request sha256 = .quit p.realname := by
  have hlt : ¬ DEFAULT_ROOM ≤ p.options := by
    rcases hopt with h | h
    · rw [h]
      decide
    · rw [h]
      decide
  rw [Packet.request, if_neg hlt, if_pos hopt]

/-- One connection gets another session. -/
theorem Conn.user_update {conns : Int → Conn} {c : Conn} {session : Option Str}
    (hc : c.user = session) (d : Int) : (Function.update conns fd c d).user =
      Function.update (fun d => (conns d).user) fd session d := by
  by_cases hd : d = fd
  · rw [hd, Function.update_self, Function.update_self, hc]
  · rw [Function.update_of_ne hd, Function.update_of_ne hd]

/-- A connection of which nothing is seen. -/
theorem Conn.user_quiet {conns : Int → Conn} {c : Conn} (hc : c.user = (conns fd).user) (d : Int) :
    (Function.update conns fd c d).user = (conns d).user := by
  rw [Conn.user_update hc, Function.update_eq_self fd fun d => (conns d).user]

/-- A thread that has returned serves nobody. -/
theorem Next.user_done (es : List Effect) (fd : Int) : (Next.conn es fd .done).user = none := by
  rw [Next.conn]
  split
  · rfl
  · rfl

/-- The end of a session, by its own name. -/
theorem exit_client_complies (hw : w.Settled) (hopt : p.options = EXIT ∨ p.options = 0)
    (hfd : w.conns fd = .serving (some p.username)) {c : Conn} (hc : c.user = none)
    (h : ops.run (exit_client env p fd) w.server = .ok ((), s', es)) :
    Complies env ⟨s', Function.update w.conns fd c⟩ es
      (w.service.member fd p.username (p.request sha256)) := by
  have hi := hw.memory.housed
  obtain ⟨a, hact, ha, k, hk, hroom, hmem, hplace⟩ := hw.session hfd
  have hname := (LinkedList.get_user_some ha).2
  rw [run_exit_client, hact] at h
  rw [Packet.request_exit hopt, State.member_quit hplace]
  dsimp only at h
  have hr := hw.memory.Rget_roomFID_iff.mpr ⟨hk, Server.roomOf_eq_some.mpr hroom⟩
  rw [hr] at h
  cases h
  have haccounts : (w.server.signOut a k).accounts = w.server.accounts :=
    hw.memory.short.accounts_eq rfl fun b _ => by rw [Server.signOut_heap]
  refine ⟨World.service_eq haccounts (Conn.user_update hc) ?_ (SameRooms.signOut ..).names, ?_⟩
  · rw [← hname]
    exact hi.place_signOut hk hmem
  · have hbye : Silent [.send fd (serverPacket env EXIT (str "Goodbye!"))] :=
      silent_packet (by decide)
    have hclose : Silent [.close fd] := ⟨fun _ => rfl, rfl⟩
    rw [hroom]
    refine Tells.append_silent ?_ (hbye.append hclose)
    exact hw.tells_relay hk rfl (Int.le_add_of_nonneg_right (Int.natCast_nonneg k)) rfl rfl
      (Server.room_congr ((SameRooms.signOut w.server a k).map fun _ _ => rfl) k)
      (SameRooms.signOut ..).length

theorem Packet.request_chat (hopt : DEFAULT_ROOM ≤ p.options) :
    p.request sha256 = .say (p.options - DEFAULT_ROOM).toNat p.relayed := by
  rw [Packet.request, if_pos hopt]

theorem chat_complies (hw : w.Settled) (hopt : DEFAULT_ROOM ≤ p.options)
    (h : ops.run (send_message env p.relayed fd) w.server = .ok ((), s', es)) :
    Complies env ⟨s', w.conns⟩ es (w.service.member fd u (p.request sha256)) := by
  rw [run_send_message] at h
  split at h
  · cases h
  rename_i r hr
  split at h
  · cases h
    obtain ⟨hlt, hnum⟩ := hw.memory.Rget_roomFID_iff.mp hr
    have hroom : (p.options - DEFAULT_ROOM).toNat = r := by
      rw [show p.options = DEFAULT_ROOM + r from Server.roomOf_eq_some.mp hnum]
      omega
    rw [Packet.request_chat hopt, hroom]
    have hbut : (some fd).getD (-1) = fd := rfl
    exact ⟨rfl, hw.tells_relay hlt rfl hopt rfl hbut rfl rfl⟩
  · cases h

/-- Other requests are none of the service's. -/
theorem Packet.request_other (hopt : p.options < DEFAULT_ROOM) (hexit : p.options ≠ EXIT)
    (h0 : p.options ≠ 0) (hpass : p.options ≠ SETPASS) (hname : p.options ≠ SETNAME)
    (hjoin : p.options ≠ JOIN) (hleave : p.options ≠ LEAVE) {v : ServiceState} :
    v.member fd u (p.request sha256) = (v, []) := by
  rw [Packet.request, if_neg (Int.not_le.mpr hopt), if_neg (not_or.mpr ⟨hexit, h0⟩)]
  simp only [hpass, hname, hjoin, hleave, false_and, if_false]
  -- nobody who is logged in registers or logs in
  split
  · rfl
  split
  · rfl
  · rfl

theorem receiveRequest_leave (hopt : p.options = LEAVE) :
    receiveRequest sha256 env p fd = leave env p fd := by
  rw [receiveRequest, hopt, if_neg (by decide), if_neg (by decide), if_neg (by decide),
    if_neg (by decide), if_neg (by decide), if_neg (by decide), if_pos rfl]

theorem query_answers {s : Server} (hpass : p.options ≠ SETPASS) (hname : p.options ≠ SETNAME)
    (hjoin : p.options ≠ JOIN) (hleave : p.options ≠ LEAVE)
    (h : ops.run (receiveRequest sha256 env p fd) s = .ok ((), s', es)) : Answers s s' es := by
  unfold receiveRequest at h
  rw [if_neg hpass, if_neg hname, if_neg hjoin, if_neg hleave] at h
  rcases ops.run_ite_eq h with ⟨-, h⟩ | ⟨-, h⟩
  · exact sendError_result h
  rcases ops.run_ite_eq h with ⟨-, h⟩ | ⟨-, h⟩
  · exact sendError_result h
  rcases ops.run_ite_eq h with ⟨-, h⟩ | ⟨-, h⟩
  · exact invite_result h
  rcases ops.run_ite_eq h with ⟨-, h⟩ | ⟨-, h⟩
  · exact get_active_users_result h
  rcases ops.run_ite_eq h with ⟨-, h⟩ | ⟨-, h⟩
  · exact get_room_users_result h
  rcases ops.run_ite_eq h with ⟨-, h⟩ | ⟨-, h⟩
  · exact user_lookup_result h
  rcases ops.run_ite_eq h with ⟨-, h⟩ | ⟨-, h⟩
  · exact get_room_list_result h
  rcases ops.run_ite_eq h with ⟨-, h⟩ | ⟨-, h⟩
  · exact sendMOTD_result h
  · cases h
    exact ⟨rfl, by simp⟩

theorem request_complies (hw : w.Settled) (hp : p.Wf) (hopt : p.options < DEFAULT_ROOM)
    (hexit : ¬ (p.options = EXIT ∨ p.options = 0))
    (hrename : p.options = SETNAME → p.buf.length < 64)
    (hfd : w.conns fd = .serving (some p.username))
    (h : ops.run (receiveRequest sha256 env p fd) w.server = .ok ((), s', es)) :
    Complies env ⟨s', w.conns⟩ es (w.service.member fd p.username (p.request sha256)) := by
  by_cases hpass : p.options = SETPASS
  · rw [receiveRequest_set_pass hpass] at h
    exact set_pass_complies hw hpass h hfd
  by_cases hname : p.options = SETNAME
  · rw [receiveRequest_set_name hname] at h
    exact set_name_complies hw hname hp.buf.2 (hrename hname) hfd h
  by_cases hjoin : p.options = JOIN
  · rw [receiveRequest_join hjoin] at h
    exact join_complies hw hp hjoin hfd h
  by_cases hleave : p.options = LEAVE
  · rw [receiveRequest_leave hleave] at h
    exact leave_complies hw hp hleave hfd h
  obtain ⟨hexit, h0⟩ := not_or.mp hexit
  rw [Packet.request_other hopt hexit h0 hpass hname hjoin hleave]
  obtain ⟨rfl, hes⟩ := query_answers hpass hname hjoin hleave h
  exact ⟨rfl, (silent_reply hes).tells⟩

end Handlers
/-! ## Login and registration -/

section Guests
variable {sha256 : Str → Digest} {w : World} {env : Env} {p : Packet} {fd : Int} {u : Str}
  {s' : Server} {es : List Effect} {a : Addr} {r : RoomRef}

/-- The state after a login. -/
theorem World.Settled.signIn (hw : w.Settled) (hfd : w.conns fd = .serving none)
    (ha : LinkedList.get_user w.server.heap w.server.registered_users_list u = some a)
    (hact : LinkedList.get_user w.server.heap w.server.active_users_list u = none)
    (hr : LinkedList.Rget_roomFID w.server.room_list DEFAULT_ROOM = some r) :
    World.Settled ⟨w.server.signIn a fd r, Function.update w.conns fd (.serving (some u))⟩ ∧
    World.service ⟨w.server.signIn a fd r, Function.update w.conns fd (.serving (some u))⟩ =
      { w.service with
        session := Function.update w.service.session fd (some u)
        place := Function.update w.service.place u (some 0) } := by
  have hi := hw.memory.housed
  have huser := hw.username ha
  obtain ⟨hmem, rfl⟩ := LinkedList.get_user_some ha
  have hlen : (w.server.heap a).username.length < 192 := by omega
  have hlt := Rget_roomFID_lt hr
  have hc : Change (w.server.heap a).username w.server (w.server.signIn a fd r) :=
    .signIn hlen ha hact hr
  have hchars (b : Addr) : ((w.server.signIn a fd r).heap b).chars = (w.server.heap b).chars :=
    w.server.signIn_congr (fun _ _ => rfl) (fun _ _ => rfl) a fd r b
  have hnames : (w.server.signIn a fd r).names = w.server.names := (SameRooms.signIn ..).names
  have hopen : w.conns fd ≠ .closed := by
    rw [hfd]
    exact Conn.noConfusion
  refine ⟨⟨⟨hc.ordered hi hw.memory.toOrdered, hc.housed hi,
    hw.memory.short.of_chars rfl (fun b _ => hchars b) hnames⟩,
    hw.linked.signIn hlen rfl hfd hlt hact, nonneg_update hw.descriptors (hw.descriptors fd hopen)⟩,
    World.service_eq ?_ (Conn.user_update rfl) ?_ hnames⟩
  · exact hw.memory.short.accounts_eq rfl fun b _ => hchars b
  · exact Server.place_signIn hlen fd hlt hact

/-- A login that is refused leaves the service as it is. -/
theorem World.guest_refused (hfd : w.conns fd = .serving none) (hes : Silent es)
    (hs' : World.service ⟨s', w.conns⟩ = w.service) :
    Complies env ⟨s', Function.update w.conns fd (.serving none)⟩ es (w.service, []) := by
  rw [← hfd, Function.update_eq_self]
  exact ⟨hs', hes.tells⟩

theorem login_complies (hw : w.Settled) (hfd : w.conns fd = .serving none)
    (hthree : 2 < (words p.buf).length) {b : Bool}
    (h : ops.run (login sha256 env p fd) w.server = .ok (b, s', es)) :
    Complies env
      ⟨s', Function.update w.conns fd (.serving (if b then some (loginName p) else none))⟩ es
      (w.service.letIn ERROR fd (loginName p) (sha256 (arg (words p.buf) 2)).bytes) := by
  rw [run_login, if_neg (Nat.not_le_of_lt hthree)] at h
  rw [show arg (words p.buf) 1 = loginName p from rfl] at h
  split at h
  · cases h
  cases ha : LinkedList.get_user w.server.heap w.server.registered_users_list (loginName p) with
  | none =>
    have hnone : w.server.account (loginName p) = none := by
      rw [Server.account, ha]
    have hacc : w.service.accounts (loginName p) = none := by
      show w.server.accounts (loginName p) = none
      rw [Server.accounts, ha, Option.map_none]
    rw [hnone] at h
    cases h
    rw [State.letIn_none hacc]
    exact World.guest_refused hfd silent_error rfl
  | some a =>
    have hacc := World.accounts_eq ha
    by_cases hERROR : (w.server.heap a).real_name = ERROR
    · have hnone : w.server.account (loginName p) = none := by
        rw [Server.account, ha]
        exact if_pos hERROR
      rw [hnone] at h
      cases h
      rw [State.letIn_refused hacc fun hc => hc.1 hERROR]
      exact World.guest_refused hfd silent_error rfl
    have hsome : w.server.account (loginName p) = some a := by
      rw [Server.account, ha]
      exact if_neg hERROR
    rw [hsome] at h
    dsimp only at h
    split at h
    · rename_i hp
      cases h
      rw [State.letIn_refused hacc fun hc => hp hc.2.1]
      exact World.guest_refused hfd silent_error rfl
    rename_i hp
    split at h
    · rename_i hact
      cases h
      rw [State.letIn_refused hacc]
      · exact World.guest_refused hfd silent_error rfl
      · rintro ⟨-, -, hplace⟩
        rw [Server.place_eq_none.mp hplace] at hact
        cases hact
    rename_i hact
    have hact := Option.not_isSome_iff_eq_none.mp hact
    have hlobby := hw.memory.housed.table.Rget_lobby
    rw [hlobby] at h
    cases h
    obtain ⟨hw', hv'⟩ := hw.signIn hfd ha hact hlobby
    rw [State.letIn_some hacc ⟨hERROR, not_not.mp hp, Server.place_eq_none.mpr hact⟩, ← hv']
    have hreal : ((w.server.signIn a fd 0).heap a).real_name = (w.server.heap a).real_name := by
      refine User.real_name_of_chars ?_ (Nat.lt_trans (hw.real_name ha) (by decide))
      exact w.server.signIn_congr (fun _ _ => rfl) (fun _ _ => rfl) a fd 0 a
    refine ⟨rfl, ?_⟩
    rw [signInEffects, hreal, ← List.singleton_append]
    have hlogsuc : LOGSUC < DEFAULT_ROOM := by decide
    have hmotd : MOTD < DEFAULT_ROOM := by decide
    refine (silent_send hlogsuc).append_tells (Tells.append_silent ?_ (silent_send hmotd))
    exact hw'.tells_relay (Rget_roomFID_lt (Rget_roomFID_signIn _ _ _ _ _ ▸ hlobby)) rfl
      (Int.le_refl _) rfl rfl rfl rfl

/-- The state after a record was made: there is an account more, if there was none of the
name. -/
theorem World.Settled.enrol (hw : w.Settled) {v : User}
    (hv : v.username.length ≤ 63 ∧ v.real_name.length ≤ 63) :
    World.Settled ⟨w.server.enrol v, w.conns⟩ ∧
    World.service ⟨w.server.enrol v, w.conns⟩ =
      if (w.service.accounts v.username).isSome then w.service
      else { w.service with
        accounts := Function.update w.service.accounts v.username (some v.account) } := by
  have hi := hw.memory.housed
  have hc : Change [] w.server (w.server.enrol v) := .enrol v
  refine ⟨⟨⟨hc.ordered hi hw.memory.toOrdered, hc.housed hi, hw.memory.short.enrol hi hv⟩,
    (SameSessions.enrol hi v).linked hw.linked, hw.descriptors⟩, ?_⟩
  split
  · rename_i hsome
    refine World.service_eq ?_ (fun _ => rfl) (hi.place_enrol v) rfl
    rw [hi.accounts_enrol]
    funext u
    by_cases hu : v.username = u
    · exact Option.or_of_isSome (hu ▸ hsome)
    · rw [if_neg hu, Option.or_none]
      rfl
  · rename_i hnone
    have hno : w.server.accounts v.username = none := Option.not_isSome_iff_eq_none.mp hnone
    have haccounts : (w.server.enrol v).accounts =
        Function.update w.server.accounts v.username (some v.account) := by
      rw [hi.accounts_enrol]
      funext u
      by_cases hu : u = v.username
      · rw [hu, Function.update_self, hno, if_pos rfl, Option.none_or]
      · rw [Function.update_of_ne hu, if_neg (Ne.symm hu), Option.or_none]
    exact World.service_eq haccounts (fun _ => rfl) (hi.place_enrol v) rfl

theorem Packet.request_register (hopt : p.options = REGISTER) : p.request sha256 =
    if 3 < (words p.buf).length ∧ acceptsName USERNAME_LENGTH (arg (words p.buf) 1) = true ∧
        SERVER_NAME ≠ arg (words p.buf) 1 ∧
        acceptsPassword (arg (words p.buf) 2) (arg (words p.buf) 3) = true then
      .register (arg (words p.buf) 1) (sha256 (arg (words p.buf) 2)).bytes
    else .other := by
  simp [Packet.request, hopt, DEFAULT_ROOM, EXIT, REGISTER, LOGIN, SETPASS, SETNAME, JOIN, LEAVE]

theorem register_complies (hw : w.Settled) (hfd : w.conns fd = .serving none)
    (hopt : p.options = REGISTER) (hlen : (loginName p).length < 64) {b : Bool}
    (h : ops.run (register_user sha256 env p fd) w.server = .ok (b, s', es)) :
    Complies env
      ⟨s', Function.update w.conns fd (.serving (if b then some (loginName p) else none))⟩ es
      (w.service.guest id ERROR fd (p.request sha256)) := by
  rw [run_register_user] at h
  have hrequest := @Packet.request_register sha256 _ hopt
  split at h
  · cases h
  split at h
  · rename_i h3
    cases h
    rw [hrequest.trans (if_neg fun hc => absurd hc.1 (Nat.not_lt_of_le h3))]
    exact World.guest_refused hfd silent_nil rfl
  rename_i h3
  split at h
  · rename_i hname
    cases h
    rw [hrequest.trans (if_neg fun hc => absurd hc.2.1 (by rw [hname]; decide))]
    exact World.guest_refused hfd (silent_reply fun e he => reply_nameReply he) rfl
  rename_i hname
  have hname : acceptsName USERNAME_LENGTH (arg (words p.buf) 1) = true := by simpa using hname
  split at h
  · rename_i htaken
    cases h
    by_cases hc : 3 < (words p.buf).length ∧
        acceptsName USERNAME_LENGTH (arg (words p.buf) 1) = true ∧
        SERVER_NAME ≠ arg (words p.buf) 1 ∧
        acceptsPassword (arg (words p.buf) 2) (arg (words p.buf) 3) = true
    · rw [hrequest.trans (if_pos hc)]
      -- all that is left is that the name is taken
      obtain ⟨-, -, hserver, hpass⟩ := hc
      have hsame : arg (words p.buf) 2 = arg (words p.buf) 3 := by
        simp only [acceptsPassword, Bool.and_eq_true, decide_eq_true_eq] at hpass
        exact hpass.1.1
      have hfound := htaken.resolve_right (not_or.mpr ⟨hserver, not_not.mpr hsame⟩)
      cases ha : LinkedList.get_user w.server.heap w.server.registered_users_list
          (arg (words p.buf) 1) with
      | none =>
        rw [LinkedList.get_real_name, ha] at hfound
        exact absurd rfl hfound
      | some a =>
        rw [State.guest_register_taken (World.accounts_eq ha)]
        exact World.guest_refused hfd silent_error rfl
    · rw [hrequest.trans (if_neg hc)]
      exact World.guest_refused hfd silent_error rfl
  rename_i htaken
  split at h
  · rename_i hpass
    cases h
    rw [hrequest.trans (if_neg fun hc => absurd hc.2.2.2 (by rw [hpass]; decide))]
    exact World.guest_refused hfd (silent_reply fun e he => reply_passwordReply he) rfl
  rename_i hpass
  obtain ⟨hfree, hserver, -⟩ := by simpa only [not_or, not_not] using htaken
  rw [hrequest.trans (if_pos ⟨Nat.lt_of_not_le h3, hname, hserver, by simpa using hpass⟩)]
  obtain ⟨es', hlogin, rfl⟩ := Outcome.prepend_eq_ok h
  have hword : arg (words p.buf) 1 = loginName p := rfl
  obtain ⟨huser, hreal⟩ := @newcomer_names sha256 env p fd
    (zero_not_mem_name hname) hlen
  have hhash : (newcomer sha256 env p fd).hash = (sha256 (arg (words p.buf) 2)).bytes :=
    newUser_hash
  obtain ⟨hw₁, hv₁⟩ := hw.enrol (v := newcomer sha256 env p fd)
    ⟨by rw [huser]; omega, by rw [hreal]; omega⟩
  have hwords := words_relogin p
  have hcomplies := login_complies hw₁ hfd (by rw [hwords]; exact Nat.lt_succ_self 2) hlogin
  rw [hv₁, loginName, hwords, User.account, huser, hreal, hhash] at hcomplies
  rw [hword] at hfree ⊢
  cases ha : LinkedList.get_user w.server.heap w.server.registered_users_list (loginName p) with
  | none =>
    have hacc : w.service.accounts (loginName p) = none := by
      show w.server.accounts (loginName p) = none
      rw [Server.accounts, ha, Option.map_none]
    rw [hacc, Option.isSome_none, if_neg Bool.false_ne_true] at hcomplies
    rw [State.guest_register hacc]
    exact ⟨hcomplies.state, silent_file.append_tells hcomplies.tells⟩
  | some a =>
    -- the name is that of somebody called `ERROR`, whom the login does not find
    have hacc := World.accounts_eq ha
    have hERROR : (w.server.heap a).real_name = ERROR := by
      rwa [LinkedList.get_real_name, ha] at hfree
    rw [hacc, Option.isSome_some, if_pos rfl] at hcomplies
    rw [State.guest_register_taken hacc]
    have hrefused := State.letIn_refused (T := Packet) (c := fd)
      (d := (sha256 (arg (words p.buf) 2)).bytes) hacc fun hc => hc.1 hERROR
    rw [← hrefused]
    exact ⟨hcomplies.state, silent_file.append_tells hcomplies.tells⟩

/-- Where nobody is logged in, the service does nothing about other requests. -/
theorem Packet.request_guest (hreg : p.options ≠ REGISTER) (hlogin : p.options ≠ LOGIN)
    {v : ServiceState} : v.guest id ERROR fd (p.request sha256) = (v, []) := by
  rw [Packet.request]
  simp only [hreg, hlogin, false_and, if_false]
  split
  · rfl
  split
  · rfl
  split
  · rfl
  split
  · rfl
  split
  · rfl
  split
  · rfl
  · rfl

theorem Packet.request_login (hopt : p.options = LOGIN) : p.request sha256 =
    if 2 < (words p.buf).length then
      .login (arg (words p.buf) 1) (sha256 (arg (words p.buf) 2)).bytes
    else .other := by
  simp [Packet.request, hopt, DEFAULT_ROOM, EXIT, REGISTER, LOGIN, SETPASS, SETNAME, JOIN, LEAVE]

theorem anonymous_complies (hw : w.Settled) (hfd : w.conns fd = .serving none)
    (hreg : p.options = REGISTER → (loginName p).length < 64) {next : Next}
    (h : ops.run (receiveAnonymous sha256 env p fd) w.server = .ok (next, s', es)) :
    Complies env ⟨s', Function.update w.conns fd (next.conn es fd)⟩ es
      (w.service.guest id ERROR fd (p.request sha256)) := by
  unfold receiveAnonymous at h
  rcases ops.run_ite_eq h with ⟨hopt, h⟩ | ⟨hnreg, h⟩
  · obtain ⟨b, hrun, rfl⟩ := ops.run_bind_pure_eq h
    exact register_complies hw hfd hopt (hreg hopt) hrun
  rcases ops.run_ite_eq h with ⟨hopt, h⟩ | ⟨hnlogin, h⟩
  · obtain ⟨b, hrun, rfl⟩ := ops.run_bind_pure_eq h
    by_cases hthree : 2 < (words p.buf).length
    · rw [(Packet.request_login hopt).trans (if_pos hthree)]
      exact login_complies hw hfd hthree hrun
    · rw [(Packet.request_login hopt).trans (if_neg hthree)]
      rw [run_login, if_neg (by omega), if_pos (Nat.le_of_not_lt hthree)] at hrun
      cases hrun
      exact World.guest_refused hfd silent_nil rfl
  rw [Packet.request_guest hnreg hnlogin]
  rcases ops.run_ite_eq h with ⟨hopt, h⟩ | ⟨-, h⟩
  · cases h
    have hquiet : (Next.conn [.close fd] fd .done).user = (w.conns fd).user := by
      rw [Next.user_done, hfd]
      rfl
    exact ⟨World.service_eq rfl (Conn.user_quiet hquiet) rfl rfl,
      (show Silent [.close fd] from ⟨fun _ => rfl, rfl⟩).tells⟩
  · cases h
    exact World.guest_refused hfd silent_error rfl

end Guests

/-! ## The refinement -/

section Refinement
variable {sha256 : Str → Digest} {w w' : World} {e : Event} {es : List Effect}

theorem session_complies {env : Env} {p : Packet} {fd : Int} {s' : Server} {next : Next}
    (hw : w.Settled) (hp : p.Wf) (hfd : w.conns fd = .serving (some p.username))
    (hrename : p.options = SETNAME → p.buf.length < 64)
    (h : ops.run (receiveSession sha256 env p.username p fd) w.server = .ok (next, s', es)) :
    Complies env ⟨s', Function.update w.conns fd (next.conn es fd)⟩ es
      (w.service.member fd p.username (p.request sha256)) := by
  unfold receiveSession at h
  have hstay : Function.update w.conns fd (.serving (some p.username)) = w.conns := by
    rw [← hfd, Function.update_eq_self]
  rcases ops.run_ite_eq h with ⟨hopt, h⟩ | ⟨hopt, h⟩
  · rcases ops.run_ite_eq h with ⟨hexit, h⟩ | ⟨hexit, h⟩
    · obtain ⟨_, hrun, rfl⟩ := ops.run_bind_pure_eq h
      exact exit_client_complies hw hexit hfd (Next.user_done _ _) hrun
    · obtain ⟨_, hrun, rfl⟩ := ops.run_bind_pure_eq h
      rw [Next.conn, hstay]
      exact request_complies hw hp hopt hexit hrename hfd hrun
  · obtain ⟨_, hrun, rfl⟩ := ops.run_bind_pure_eq h
    rw [sanitizeInput_eq_map] at hrun
    rw [Next.conn, hstay]
    exact chat_complies hw (Int.not_lt.mp hopt) hrun

/-- What an event puts out shows the posts. -/
def Event.Shows (e : Event) (s' : Server) (es : List Effect)
    (posts : List (Post Int Str Packet)) : Prop :=
  match e with
  | .accept _ => es = [] ∧ posts = []
  | .packet _ _ env => Tells env s' es posts

/-- **A step is what the service says.** -/
theorem Step.complies (hw : w.Settled) (hproper : w.Proper e) (hs : Step sha256 w e w' es) :
    (w.service.next id ERROR (e.request sha256).1 (e.request sha256).2).1 = w'.service ∧
    e.Shows w'.server es (w.service.next id ERROR (e.request sha256).1 (e.request sha256).2).2 := by
  cases hs with
  | @accept fd hfd =>
    have hnone : w.service.session fd = none := congrArg Conn.user hfd
    have hquiet : (Conn.serving none).user = (w.conns fd).user := hnone.symm
    rw [Event.request, State.next, hnone]
    exact ⟨(World.service_eq rfl (Conn.user_quiet hquiet) rfl rfl).symm, rfl, rfl⟩
  | @packet fd p env session next s' es hfd hp hrun =>
    have hsession : w.service.session fd = session := congrArg Conn.user hfd
    rw [Event.request, State.next, hsession]
    cases session with
    | none =>
      have h := anonymous_complies hw hfd (hproper.register _ _ _ rfl) hrun
      exact ⟨h.state.symm, h.tells⟩
    | some u =>
      obtain rfl : p.username = u := by simpa only [World.ActsOwn, hfd] using hproper.own
      have h := session_complies hw hp hfd (hproper.rename _ _ _ rfl) hrun
      exact ⟨h.state.symm, h.tells⟩

end Refinement
end TBDChat
