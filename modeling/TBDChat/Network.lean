import TBDChat.TypedLines
import TBDChat.ServiceRuns

/-!
# Clients and the server together

Any number of shipped clients, each on a connection of its own, and between each of them and the
server two channels, each in order.  Users type what they like when they like.  The results are
about users who are `Disciplined`: whoever asks to be let in waits for the answer, and nobody
asks for a name that fills its array, goes over to another connection or logs in to an account
that is active.

What the clients assume of each other is then true: every packet is under the name of its
session, so that the server and its clients are a `SafeLife`, and a client is given, in order,
what is said in its rooms.
-/

namespace TBDChat
open Atomic

set_option maxRecDepth 8000

/-! ## The word that a login succeeded -/

/-- The replies that make a client take a name. -/
def loginReplies (qs : List Packet) : List Packet := qs.filter fun q => q.options = LOGSUC

section Replies
variable {sha256 : Str → Digest} {env : Env} {p q : Packet} {fd d : Int} {s s' : Server}
  {next : Next} {es es' : List Effect} {u : Str} {qs qs' : List Packet}

@[simp] theorem loginReplies_append :
    loginReplies (qs ++ qs') = loginReplies qs ++ loginReplies qs' := List.filter_append ..

/-- Nothing among the effects is such a reply. -/
def Wordless (es : List Effect) : Prop := ∀ d q, Effect.send d q ∈ es → q.options ≠ LOGSUC

theorem Wordless.loginReplies (h : Wordless es) : loginReplies (sentTo d es) = [] := by
  refine List.filter_eq_nil_iff.mpr fun q hq => ?_
  simpa using h d q (mem_sentTo.mp hq)

theorem Wordless.append (h : Wordless es) (h' : Wordless es') : Wordless (es ++ es') :=
  fun d q hq => (List.mem_append.mp hq).elim (h d q) (h' d q)

theorem Wordless.send (hq : q.options ≠ LOGSUC) (h : Wordless es) :
    Wordless (.send fd q :: es) := by
  intro d q' hmem
  rcases List.mem_cons.mp hmem with he | hmem
  · cases he
    exact hq
  · exact h d q' hmem

theorem AllQuiet.wordless (h : AllQuiet es) : Wordless es := by
  intro d q hq hopt
  have hquiet : q.Quiet := h _ hq
  exact hquiet.2 (by simp [hopt])

theorem wordless_replies (h : ∀ e ∈ es, e.Reply) : Wordless es := by
  intro d q hq
  obtain ⟨fd, q', he, hmem⟩ := h _ hq
  cases he
  have hall : ∀ n ∈ [NAMESUC, JOINSUC, MOTD, INVITE, INVITESUC, GETUSERS, GETALLUSERS, GETUSER,
    GETROOMS, SERV_ERR], n ≠ LOGSUC := by decide
  exact hall _ hmem

/-- Nobody who is in a session is let in. -/
theorem Received.wordless (ht : s.Table)
    (h : Received sha256 env p fd s (some u) next s' es) : Wordless es := by
  have hnil : Wordless [] := fun _ _ hq => absurd hq List.not_mem_nil
  have hfile {s₁ : Server} {fd : Int} : Wordless (fileEffects s₁ fd) :=
    allQuiet_fileEffects.wordless
  have hopen {fd : Int} {name : Str} : Wordless (openEffects s fd name) :=
    allQuiet_openEffects.wordless
  have hrelay {s₁ : Server} {q : Packet} {c : Int} {r : RoomRef} (hq : 1000 ≤ q.options) :
      Wordless (relay env s₁ q c r) := (allQuiet_relay hq).wordless
  cases h with
  | answered _ hes => exact wordless_replies hes
  | renamed _ _ _ hr =>
    exact hfile.append ((hrelay (ht.le_of_find hr)).append
      (hnil.send (show NAMESUC ≠ LOGSUC by decide)))
  | passwordSet => exact hfile.append (hnil.send (show PASSSUC ≠ LOGSUC by decide))
  | opened => exact hopen
  | joined hj hs₁ hr _ _ hr'' _ =>
    subst hs₁
    have ht' : (s.openRoom env.fd (arg (words p.buf) 0)).Table :=
      Server.openRoom_table env.fd ht (acceptsName_iff.mp hj.name).2.2
    exact hopen.append (((hrelay (ht'.le_of_find hr)).append (hrelay (ht'.le_of_find hr''))).send
      (show JOINSUC ≠ LOGSUC by decide))
  | left _ _ _ hr _ _ _ hd' =>
    exact (hrelay (ht.le_of_find hr)).append ((hrelay (ht.le_of_find hd')).send
      (show JOINSUC ≠ LOGSUC by decide))
  | chat hopt => exact hrelay hopt
  | vanished => exact hnil
  | signedOut _ _ hr =>
    refine (hrelay (ht.le_of_find hr)).append (Wordless.send (show EXIT ≠ LOGSUC by decide) ?_)
    exact fun d q hq => absurd hq (by simp)

theorem Login.word {user pass : Str} {b : Bool}
    (h : Login sha256 env user pass fd s b s' es) :
    (b = true ∧ ∃ q, loginReplies (sentTo fd es) = [q] ∧ q.username = user) ∨
      b = false ∧ Wordless es := by
  cases h with
  | refused hes => exact .inr ⟨rfl, wordless_replies hes⟩
  | discarded => exact .inr ⟨rfl, wordless_replies fun e he => reply_error he⟩
  | @signedIn a r =>
    have hnil : Wordless [] := fun _ _ hq => absurd hq List.not_mem_nil
    have hrest : Wordless (relay env (s.signIn a fd r) (serverPacket env DEFAULT_ROOM
        (((s.signIn a fd r).heap a).real_name ++ str " has joined the lobby.")) (-1) r ++
        [.send fd { serverPacket env MOTD server_MOTD with username := env.ret.username }]) :=
      (allQuiet_relay (Int.le_refl 1000)).wordless.append
        (hnil.send (show MOTD ≠ LOGSUC by decide))
    refine .inl ⟨rfl, ?_⟩
    rw [signInEffects, sentTo_send]
    -- the word itself comes first
    exact ⟨_, (List.filter_cons_of_pos (by rfl)).trans (congrArg _ hrest.loginReplies), rfl⟩

/-- **A session begins with the word that it does**, for its connection. -/
theorem Received.word (h : Received sha256 env p fd s none next s' es) :
    (next = .receive (some (loginName p)) ∧ (p.options = REGISTER ∨ p.options = LOGIN) ∧
        ∃ q, loginReplies (sentTo fd es) = [q] ∧ q.username = loginName p) ∨
      (next = .receive none ∨ next = .done) ∧ loginReplies (sentTo fd es) = [] := by
  cases h with
  | refused hes => exact .inr ⟨.inl rfl, (wordless_replies hes).loginReplies⟩
  | login hopt _ hl =>
    obtain ⟨rfl, hword⟩ | ⟨rfl, hword⟩ := hl.word
    · exact .inl ⟨rfl, .inr hopt, hword⟩
    · exact .inr ⟨.inl rfl, hword.loginReplies⟩
  | register hr hl =>
    obtain ⟨rfl, q, hword, hname⟩ | ⟨rfl, hword⟩ := hl.word
    · refine .inl ⟨rfl, .inl hr.options, q, ?_, hname⟩
      rw [sentTo_append, loginReplies_append, allQuiet_fileEffects.wordless.loginReplies, hword,
        List.nil_append]
    · exact .inr ⟨.inl rfl, (allQuiet_fileEffects.wordless.append hword).loginReplies⟩
  | hungUp => exact .inr ⟨.inr rfl, rfl⟩

end Replies

/-! ## Terminals -/

/-- A client on its connection, and what is under way to and from the server. -/
structure Terminal where
  client : ChatClient
  up : List Packet
  down : List Packet
  /-- What the client has printed of the server, in order. -/
  seen : List Packet
  /-- The main loop goes on. -/
  running : Bool

namespace Terminal
variable (t : Terminal)

/-- A client that has just connected, which may have been in sessions before. -/
def fresh (k : ChatClient) : Terminal := ⟨k, [], [], [], true⟩

/-- No login is waiting for its answer. -/
def Patient : Prop :=
  (∀ p ∈ t.up, p.options ≠ REGISTER ∧ p.options ≠ LOGIN) ∧ loginReplies t.down = []

def deliver (qs : List Packet) : Terminal := { t with down := t.down ++ qs }

/-- What was sent to the client. -/
def given : List Packet := t.seen ++ t.down

end Terminal

/-- The server and the clients, each under the descriptor that the server has for it. -/
structure Network where
  world : World
  terminal : Int → Terminal

/-- The packets that are said in rooms. -/
def roomPackets (qs : List Packet) : List Packet := qs.filter fun q => DEFAULT_ROOM ≤ q.options

namespace Network
variable (sha256 : Str → Digest)

/-- With what a step of the server sends under way. -/
def deliver (terminal : Int → Terminal) (es : List Effect) : Int → Terminal :=
  fun d => (terminal d).deliver (sentTo d es)

/-- What happens next, and at whose descriptor. -/
inductive Act where
  | connect (fd : Int)
  /-- The user types a line. -/
  | type (fd : Int) (line : Str)
  /-- The user types CTRL+C. -/
  | interrupt (fd : Int)
  /-- The server takes the packet that is next. -/
  | serve (fd : Int) (p : Packet) (env : Env)
  /-- The client takes the packet that is next. -/
  | receive (fd : Int)
  /-- The server is killed and started again. -/
  | restart

/-- A step of the server, of a client or of a channel. -/
inductive Step : Network → Act → Network → Prop
  | connect {n : Network} {fd : Int} {w' : World} {es : List Effect} (k : ChatClient)
      (hfd : 0 ≤ fd) (hs : TBDChat.Step sha256 n.world (.accept fd) w' es) :
      Step n (.connect fd) ⟨w', Function.update n.terminal fd (.fresh k)⟩
  /-- What a client that has gone over to another connection sends there is not followed. -/
  | type {n : Network} {fd : Int} {t : Terminal} {env : ClientEnv} {line : Str} {q : Packet}
      {k' : ChatClient} {out : List Output} (ht : n.terminal fd = t) (hrunning : t.running)
      (h : t.client.round env line = some (q, k', out)) :
      Step n (.type fd line) ⟨n.world, Function.update n.terminal fd { t with
        client := k', up := t.up ++ sentPackets out, running := q.options ≠ EXIT }⟩
  | interrupt {n : Network} {fd : Int} {t : Terminal} {env : ClientEnv} (ht : n.terminal fd = t)
      (hrunning : t.running) :
      Step n (.interrupt fd) ⟨n.world, Function.update n.terminal fd { t with
        up := t.up ++ sentPackets (t.client.sigintHandler env), running := false }⟩
  | serve {n : Network} {fd : Int} {p : Packet} {rest : List Packet} {env : Env} {w' : World}
      {es : List Effect} (hup : (n.terminal fd).up = p :: rest)
      (hs : TBDChat.Step sha256 n.world (.packet fd p env) w' es) :
      Step n (.serve fd p env)
        ⟨w', deliver (Function.update n.terminal fd { n.terminal fd with up := rest }) es⟩
  | receive {n : Network} {fd : Int} {t : Terminal} {env : ClientEnv} {q : Packet}
      {rest : List Packet} {k' : ChatClient} {out : List Output} (ht : n.terminal fd = t)
      (hdown : t.down = q :: rest) (h : t.client.chatRX env q = some (true, k', out)) :
      Step n (.receive fd) ⟨n.world, Function.update n.terminal fd { t with
        client := k', down := rest, seen := t.seen ++ [q] }⟩
  | restart {n : Network} (fd : Int) :
      Step n .restart ⟨World.boot n.world.server.users_file fd, n.terminal⟩

/-- What the C code does not check and the results below rest on.  A user waits for the answer to
a REGISTER or LOGIN before the next line or CTRL+C, asks for no name that fills its array, stays
with the connection and logs in to no account that is active; and `numRooms` does not overflow. -/
def Disciplined (n n' : Network) : Act → Prop
  | .type fd line => (n.terminal fd).Patient ∧
      (Config.userCommand line = some (str "/setname") → line.length < 73) ∧
      (n'.terminal fd).client.serverfd = (n.terminal fd).client.serverfd
  | .interrupt fd => (n.terminal fd).Patient
  | .serve fd p env => n.world.NoSecondLogin sha256 (.packet fd p env) ∧
      n'.world.server.numRooms < 2 ^ 31
  | _ => True

/-- What can come of a start from a user file whose names fit into their arrays, with disciplined
users. -/
inductive Reaches : Network → Prop
  | boot (file : Option (List UInt8)) (fd : Int) (terminal : Int → Terminal)
      (hfile : ∀ u ∈ LinkedList.readUserFile file,
        u.username.length ≤ 63 ∧ u.real_name.length ≤ 63) : Reaches ⟨World.boot file fd, terminal⟩
  | step {n n' : Network} {act : Act} (hn : Reaches n) (hs : Step sha256 n act n')
      (hact : n.Disciplined sha256 n' act) : Reaches n'

/-! ## What holds of each client -/

/-- What holds of the server and of every client that is connected. -/
def Each (P : Server → Option Str → Terminal → Prop) (n : Network) : Prop :=
  ∀ d session, n.world.conns d = .serving session → P n.world.server session (n.terminal d)

section Each
variable {sha256 : Str → Digest} {P : Server → Option Str → Terminal → Prop} {n : Network}
  {fd : Int} {w' : World} {es : List Effect} {t : Terminal}

/-- A step of a client or of its user. -/
theorem Each.update (h : n.Each P) (ht : ∀ session, n.world.conns fd = .serving session →
      P n.world.server session (n.terminal fd) → P n.world.server session t) :
    Each P ⟨n.world, Function.update n.terminal fd t⟩ := by
  intro d session hd
  show P n.world.server session (Function.update n.terminal fd t d)
  by_cases hdfd : d = fd
  · subst hdfd
    rw [Function.update_self]
    exact ht session hd (h d session hd)
  · rw [Function.update_of_ne hdfd]
    exact h d session hd

/-- A client comes. -/
theorem Each.connect (h : n.Each P) (hs : TBDChat.Step sha256 n.world (.accept fd) w' es)
    (ht : P n.world.server none t) : Each P ⟨w', Function.update n.terminal fd t⟩ := by
  intro d session hd
  cases hs with
  | accept =>
    have hd : Function.update n.world.conns fd (.serving none) d = .serving session := hd
    show P n.world.server session (Function.update n.terminal fd t d)
    by_cases hdfd : d = fd
    · subst hdfd
      rw [Function.update_self] at hd ⊢
      obtain rfl := Conn.serving.inj hd
      exact ht
    · rw [Function.update_of_ne hdfd] at hd ⊢
      exact h d session hd

/-- A packet is served: for the client that sent it, and for each of the others. -/
theorem Each.serve (h : n.Each P) {p : Packet} {env : Env}
    (hs : TBDChat.Step sha256 n.world (.packet fd p env) w' es)
    (hown : ∀ session next session', n.world.conns fd = .serving session → p.Wf →
      ops.run (client_receive sha256 env session p fd) n.world.server =
        .ok (next, w'.server, es) → next.conn es fd = .serving session' →
      P w'.server session' (t.deliver (sentTo fd es)))
    (hothers : ∀ d session, d ≠ fd → n.world.conns d = .serving session →
      P n.world.server session (n.terminal d) →
      P w'.server session ((n.terminal d).deliver (sentTo d es))) :
    Each P ⟨w', deliver (Function.update n.terminal fd t) es⟩ := by
  intro d session hd
  show P w'.server session ((Function.update n.terminal fd t d).deliver (sentTo d es))
  cases hs with
  | @packet _ _ _ _ next s' _ hfd hp hrun =>
    have hd : Function.update n.world.conns fd (next.conn es fd) d = .serving session := hd
    by_cases hdfd : d = fd
    · subst hdfd
      rw [Function.update_self] at hd ⊢
      exact hown _ next session hfd hp hrun hd
    · rw [Function.update_of_ne hdfd] at hd ⊢
      exact hothers d session hdfd hd (h d session hd)

end Each

end Network
/-! ## What the clients keep to -/

/-- A client whose connection has the session. -/
structure Terminal.Attended (session : Option Str) (t : Terminal) : Prop where
  names : ∀ p ∈ t.up, (p.options = REGISTER → (loginName p).length < 64) ∧
    (p.options = SETNAME → p.buf.length < 64)
  /-- Nothing is sent after a request to be let in. -/
  waits : ∀ p ∈ t.up.dropLast, p.options ≠ REGISTER ∧ p.options ≠ LOGIN
  guest : session = none → loginReplies t.down = []
  /-- The client has its name, or has sent nothing since it was let in and is yet to hear of
  it. -/
  member : ∀ u, session = some u →
    (t.client.username = u ∧ loginReplies t.down = [] ∧ ∀ p ∈ t.up, p.username = u) ∨
      t.up = [] ∧ ∃ q, loginReplies t.down = [q] ∧ q.username = u

section Rounds
variable {sha256 : Str → Digest} {env : ClientEnv} {k k' : ChatClient} {line : Str}
  {p q : Packet} {out : List Output} {go : Bool} {session : Option Str} {t : Terminal}
  {qs up : List Packet}

@[simp] theorem roomPackets_append :
    roomPackets (qs ++ up) = roomPackets qs ++ roomPackets up := List.filter_append ..

/-- Those of the packets for a connection that are said in rooms. -/
theorem roomPackets_sentTo {d : Int} {es : List Effect} :
    roomPackets (sentTo d es) = heardOn d es := by
  induction es with
  | nil => rfl
  | cons e es ih =>
    rw [heardOn_cons, ← ih, ← List.singleton_append, sentTo_append, roomPackets_append]
    congr 1
    cases e with
    | send fd q =>
      rw [heardOn_send]
      by_cases hfd : fd = d
      · by_cases hq : DEFAULT_ROOM ≤ q.options
        · simp [sentTo, roomPackets, hfd, hq]
        · simp [sentTo, roomPackets, hfd, hq]
      · simp [sentTo, roomPackets, hfd]
    | close | opened | logged => rfl

theorem ChatClient.newRoom_username (h : k.newRoom env q = some (k', out)) :
    k'.username = k.username := by
  unfold newRoom at h
  dsimp only at h
  split at h
  · cases h
  split at h
  · cases h
    rfl
  · cases h
    rfl

/-- Only the word that a login succeeded changes whom a client takes its user to be. -/
theorem ChatClient.chatRX_username (h : k.chatRX env q = some (go, k', out)) :
    k'.username = if q.options = LOGSUC then q.username else k.username := by
  unfold chatRX at h
  dsimp only at h
  split at h
  · rename_i hroom
    obtain ⟨line, -, heq⟩ := Option.bind_eq_some_iff.mp h
    cases heq
    rw [if_neg fun hopt => absurd (hopt ▸ hroom) (by decide)]
  split at h
  · obtain ⟨⟨k₁, out₁⟩, hresponse, h⟩ := Option.bind_eq_some_iff.mp h
    obtain ⟨line, -, heq⟩ := Option.bind_eq_some_iff.mp h
    cases heq
    unfold serverResponse at hresponse
    by_cases hword : q.options = LOGSUC
    · have herr : ¬ LOGSUC = SERV_ERR := by decide
      simp only [hword, herr, if_true, if_false, Option.some.injEq] at hresponse
      rw [if_pos hword, ← congrArg Prod.fst hresponse]
      rfl
    · rw [if_neg hword] at hresponse ⊢
      repeat' split at hresponse
      all_goals first
        | exact newRoom_username hresponse
        | cases hresponse; rfl
  · rename_i hlow
    cases h
    rw [if_neg fun hopt => hlow (by rw [hopt]; decide)]

namespace Terminal

theorem attended_fresh : (fresh k).Attended none where
  names := fun _ hp => absurd hp List.not_mem_nil
  waits := fun _ hp => absurd hp List.not_mem_nil
  guest _ := rfl
  member := fun _ h => by cases h

/-- One more packet of a client that has its name. -/
theorem Attended.send (ha : t.Attended session) (hpatient : t.Patient) {t' : Terminal}
    (hdown : t'.down = t.down) (hclient : t'.client.username = t.client.username)
    (hup : t'.up = t.up ∨ ∃ p, t'.up = t.up ++ [p] ∧ p.username = t.client.username ∧
      (p.options = REGISTER → (loginName p).length < 64) ∧
      (p.options = SETNAME → p.buf.length < 64)) : t'.Attended session := by
  have hmember : ∀ u, session = some u → t.client.username = u ∧ loginReplies t.down = [] ∧
      ∀ p ∈ t.up, p.username = u := by
    intro u hu
    obtain hnamed | ⟨-, q, hword, -⟩ := ha.member u hu
    · exact hnamed
    · -- the client would still wait
      rw [hpatient.2] at hword
      cases hword
  obtain hup | ⟨p, hup, hname, hnames⟩ := hup
  · refine ⟨hup ▸ ha.names, hup ▸ ha.waits, hdown ▸ ha.guest, fun u hu => .inl ?_⟩
    rw [hclient, hdown, hup]
    exact hmember u hu
  · refine ⟨?_, ?_, hdown ▸ ha.guest, fun u hu => .inl ?_⟩
    · rw [hup]
      exact List.forall_mem_append.mpr ⟨ha.names, List.forall_mem_singleton.mpr hnames⟩
    · rw [hup, List.dropLast_concat]
      exact hpatient.1
    · obtain ⟨huser, hword, hall⟩ := hmember u hu
      rw [hclient, hdown, hup]
      exact ⟨huser, hword, List.forall_mem_append.mpr
        ⟨hall, List.forall_mem_singleton.mpr (hname.trans huser)⟩⟩

theorem Attended.type (ha : t.Attended session) (hpatient : t.Patient)
    (hname : Config.userCommand line = some (str "/setname") → line.length < 73)
    (h : t.client.round env line = some (q, k', out)) {b : Bool} :
    ({ t with client := k', up := t.up ++ sentPackets out, running := b } :
      Terminal).Attended session := by
  obtain ⟨hclient, hsent⟩ := ChatClient.round_signed h
  refine ha.send hpatient rfl (congrArg Client.username hclient) ?_
  obtain hsent | ⟨p, hsent, hsigned⟩ := hsent
  · exact .inl (by rw [hsent, List.append_nil])
  · refine .inr ⟨p, by rw [hsent], hsigned.username, hsigned.register, fun hopt => ?_⟩
    obtain ⟨hcommand, hbuf⟩ := hsigned.rename hopt
    have hline := hname hcommand
    rw [hbuf, List.length_drop]
    omega

theorem Attended.interrupt (ha : t.Attended session) (hpatient : t.Patient) {b : Bool} :
    ({ t with up := t.up ++ sentPackets (t.client.sigintHandler env), running := b } :
      Terminal).Attended session := by
  refine ha.send hpatient rfl rfl ?_
  by_cases hserver : t.client.serverfd = 0
  · exact .inl (by simp [ChatClient.sigintHandler, hserver, sentPackets])
  · refine .inr ⟨⟨env.now, str "/exit", t.client.username, t.client.realname, EXIT⟩, ?_, rfl,
      fun hopt => absurd hopt (show EXIT ≠ REGISTER by decide),
      fun hopt => absurd hopt (show EXIT ≠ SETNAME by decide)⟩
    simp [ChatClient.sigintHandler, hserver, sentPackets]

/-- A packet that does not let the client in. -/
theorem Attended.deliver (ha : t.Attended session) (hqs : loginReplies qs = []) :
    (t.deliver qs).Attended session := by
  refine ⟨ha.names, ha.waits, fun h => ?_, fun u hu => ?_⟩
  · rw [Terminal.deliver, loginReplies_append, ha.guest h, hqs]
    rfl
  · rw [Terminal.deliver, loginReplies_append, hqs, List.append_nil]
    exact ha.member u hu

theorem Attended.receive (ha : t.Attended session) (hdown : t.down = q :: qs)
    (h : t.client.chatRX env q = some (go, k', out)) :
    ({ t with client := k', down := qs, seen := t.seen ++ [q] } : Terminal).Attended session := by
  have hname := ChatClient.chatRX_username h
  have hguest := ha.guest
  have hmember := ha.member
  rw [hdown] at hguest hmember
  by_cases hword : q.options = LOGSUC
  · have hcons : loginReplies (q :: qs) = q :: loginReplies qs :=
      List.filter_cons_of_pos (by simpa using hword)
    rw [if_pos hword] at hname
    rw [hcons] at hguest hmember
    refine ⟨ha.names, ha.waits, fun hs => (List.cons_ne_nil _ _ (hguest hs)).elim,
      fun u hu => .inl ?_⟩
    obtain ⟨-, hnil, -⟩ | ⟨hup, q', hone, hq'⟩ := hmember u hu
    · exact (List.cons_ne_nil _ _ hnil).elim
    · obtain ⟨rfl, hnil⟩ := List.cons_eq_cons.mp hone
      refine ⟨hname.trans hq', hnil, fun p hp => ?_⟩
      rw [show t.up = [] from hup] at hp
      exact absurd hp List.not_mem_nil
  · have hcons : loginReplies (q :: qs) = loginReplies qs :=
      List.filter_cons_of_neg (by simpa using hword)
    rw [if_neg hword] at hname
    rw [hcons] at hguest hmember
    exact ⟨ha.names, ha.waits, hguest, fun u hu => hname ▸ hmember u hu⟩

end Terminal

end Rounds
/-! ## A packet is served -/

section Served
variable {sha256 : Str → Digest} {env : Env} {p : Packet} {fd : Int} {s s' : Server} {next : Next}
  {es : List Effect} {session session' : Option Str} {t : Terminal} {rest qs : List Packet}

/-- A connection is served further by the thread that goes on. -/
theorem Next.of_conn (h : next.conn es fd = .serving session') : next = .receive session' := by
  cases next with
  | receive session => rw [Conn.serving.inj h]
  | done =>
    rw [Next.conn] at h
    split at h
    · cases h
    · cases h

/-- A session lasts until it is done. -/
theorem Received.lasts {u : Str} (h : Received sha256 env p fd s (some u) next s' es) :
    next = .receive (some u) ∨ next = .done := by
  cases h with
  | vanished | signedOut => exact .inr rfl
  | answered | renamed | passwordSet | opened | joined | left | chat => exact .inl rfl

/-- A client sends under the name of its session. -/
theorem Terminal.Attended.own {u : Str} (ha : t.Attended (some u)) (hup : t.up = p :: rest) :
    p.username = u := by
  obtain ⟨-, -, hall⟩ | ⟨hnil, -⟩ := ha.member u rfl
  · exact hall p (hup ▸ List.mem_cons_self)
  · rw [hup] at hnil
    cases hnil

/-- **A client and its session stay together**: when its packet has been served, the client has
the name of the session or is to hear of it next. -/
theorem Terminal.Attended.serve (ha : t.Attended session) (hup : t.up = p :: rest) (ht : s.Table)
    (h : Received sha256 env p fd s session next s' es)
    (hnext : next.conn es fd = .serving session') :
    (({ t with up := rest } : Terminal).deliver (sentTo fd es)).Attended session' := by
  have hreceive := Next.of_conn hnext
  have hnames := ha.names
  have hwaits := ha.waits
  have hmember := ha.member
  rw [hup] at hnames hwaits hmember
  have hwaits' : ∀ p ∈ rest.dropLast, p.options ≠ REGISTER ∧ p.options ≠ LOGIN := by
    intro p' hp'
    cases rest with
    | nil => exact absurd hp' List.not_mem_nil
    | cons p₁ rest => exact hwaits p' (List.mem_cons_of_mem _ hp')
  cases session with
  | some u =>
    have hword : loginReplies (sentTo fd es) = [] := (h.wordless ht).loginReplies
    obtain rfl : some u = session' := by
      obtain hl | hl := h.lasts
      · exact Next.receive.inj (hl.symm.trans hreceive)
      · cases hl.symm.trans hreceive
    refine Attended.deliver ⟨fun p' hp' => hnames p' (List.mem_cons_of_mem _ hp'), hwaits',
      ha.guest, fun v hv => ?_⟩ hword
    obtain ⟨huser, hnone, hall⟩ | ⟨hnil, -⟩ := hmember v hv
    · exact .inl ⟨huser, hnone, fun p' hp' => hall p' (List.mem_cons_of_mem _ hp')⟩
    · cases hnil
  | none =>
    obtain ⟨hin, hopt, q, hword, hq⟩ | ⟨hout, hword⟩ := h.word
    · -- nothing was sent after the request
      have hrest : rest = [] := by
        cases rest with
        | nil => rfl
        | cons p₁ rest =>
          obtain ⟨hreg, hlogin⟩ := hwaits p List.mem_cons_self
          exact (hopt.elim hreg hlogin).elim
      obtain rfl : some (loginName p) = session' := Next.receive.inj (hin.symm.trans hreceive)
      refine ⟨fun p' hp' => hnames p' (List.mem_cons_of_mem _ hp'), hwaits',
        fun hs => (Option.some_ne_none _ hs).elim, fun u hu => .inr ⟨hrest, q, ?_, ?_⟩⟩
      · rw [Terminal.deliver, loginReplies_append, ha.guest rfl, hword]
        rfl
      · rw [hq, Option.some.inj hu]
    · obtain rfl : none = session' := by
        obtain hl | hl := hout
        · exact Next.receive.inj (hl.symm.trans hreceive)
        · cases hl.symm.trans hreceive
      exact Attended.deliver ⟨fun p' hp' => hnames p' (List.mem_cons_of_mem _ hp'), hwaits',
        ha.guest, fun u hu => (Option.some_ne_none _ hu.symm).elim⟩ hword

/-- Nobody else is told that a login succeeded. -/
theorem loginReplies_elsewhere {d : Int} (ht : s.Table) (hd : d ≠ fd)
    (h : ops.run (client_receive sha256 env session p fd) s = .ok (next, s', es)) :
    loginReplies (sentTo d es) = [] := by
  refine List.filter_eq_nil_iff.mpr fun q hq => ?_
  have hquiet : q.Quiet := receive_elsewhere ht h d q hd (mem_sentTo.mp hq)
  exact fun hopt => hquiet.2 (by simp [of_decide_eq_true hopt])

end Served

/-! ## The server and its clients -/

/-- `accept` returns a descriptor that is not in use. -/
theorem Step.closed {sha256 : Str → Digest} {w w' : World} {fd : Int} {es : List Effect}
    (hs : Step sha256 w (.accept fd) w' es) : w.conns fd = .closed := by
  cases hs with
  | accept hfd => exact hfd

namespace Network
variable {sha256 : Str → Digest} {n n' : Network} {life : Life sha256} {d fd : Int}

/-- A life that has led to the state of the network. -/
structure Sound (n : Network) (life : Life sha256) : Prop where
  now : life.state life.length = n.world
  settled : n.world.Settled
  saved : n.world.server.Saved
  exclusive : ∀ t < life.length, (life.happening t).NoSecondLogin sha256 (life.state t)
  attended : ∀ d session, n.world.conns d = .serving session → (n.terminal d).Attended session
  given : ∀ d, n.world.conns d ≠ .closed → ∃ t₀ < life.length,
    life.happening t₀ = .event (.accept d) ∧
      (∀ t, t₀ < t → t ≤ life.length → (life.state t).conns d ≠ .closed) ∧
      life.heard d t₀ life.length = roomPackets (n.terminal d).given

/-- A step of a client or of its user. -/
theorem Sound.update (hn : n.Sound life) {t : Terminal}
    (hgiven : t.given = (n.terminal fd).given)
    (ha : ∀ session, (n.terminal fd).Attended session → t.Attended session) :
    Sound ⟨n.world, Function.update n.terminal fd t⟩ life := by
  refine ⟨hn.now, hn.settled, hn.saved, hn.exclusive, fun d session hd => ?_, fun d hd => ?_⟩
  · by_cases hdfd : d = fd
    · subst hdfd
      show Terminal.Attended session (Function.update n.terminal d t d)
      rw [Function.update_self]
      exact ha session (hn.attended d session hd)
    · show Terminal.Attended session (Function.update n.terminal fd t d)
      rw [Function.update_of_ne hdfd]
      exact hn.attended d session hd
  · have hsame : (Function.update n.terminal fd t d).given = (n.terminal d).given := by
      by_cases hdfd : d = fd
      · rw [hdfd, Function.update_self, hgiven]
      · rw [Function.update_of_ne hdfd]
    show ∃ t₀ < life.length, _ ∧ _ ∧ _ = roomPackets (Function.update n.terminal fd t d).given
    rw [hsame]
    exact hn.given d hd

/-- A step of the server. -/
theorem Sound.extend (hn : n.Sound life) {h : Happening} {w' : World} {es : List Effect}
    {terminal : Int → Terminal} (hs : Happens sha256 n.world h w' es) (hproper : h.Proper n.world)
    (hno : h.NoSecondLogin sha256 n.world)
    (ha : ∀ d session, w'.conns d = .serving session → (terminal d).Attended session)
    (hgiven : ∀ d, w'.conns d ≠ .closed →
      h = .event (.accept d) ∧ es = [] ∧ (terminal d).given = [] ∨
        n.world.conns d ≠ .closed ∧
          (terminal d).given = (n.terminal d).given ++ sentTo d es) :
    ∃ life' : Life sha256, Sound ⟨w', terminal⟩ life' := by
  obtain ⟨hsettled, hsaved⟩ := (refinement sha256).keeps ⟨hn.settled, hn.saved⟩ hproper hs
  rw [← hn.now] at hs hproper hno
  refine ⟨life.extend h w' es hs hproper, Life.extend_last, hsettled, hsaved,
    Life.extend_exclusive hn.exclusive hno, ha, fun d hd => ?_⟩
  obtain ⟨rfl, rfl, hnil⟩ | ⟨hopen, hmore⟩ := hgiven d hd
  · refine ⟨life.length, Nat.lt_succ_self _, Function.update_self .., fun t hlt hle => ?_, ?_⟩
    · obtain rfl : t = life.length + 1 := Nat.le_antisymm hle hlt
      rw [Life.extend_last]
      exact hd
    · rw [Life.extend_length, Life.extend_heard (Nat.le_refl _), hnil, Life.heard,
        Machines.during_self]
      rfl
  · obtain ⟨t₀, hlt₀, haccept, hsince, hheard⟩ := hn.given d hopen
    refine ⟨t₀, Nat.lt_succ_of_lt hlt₀, ?_, fun t hlt hle => ?_, ?_⟩
    · rw [Life.extend_happening hlt₀]
      exact haccept
    · rcases Nat.lt_or_eq_of_le hle with hold | rfl
      · rw [Life.extend_state (Nat.le_of_lt_succ hold)]
        exact hsince t hlt (Nat.le_of_lt_succ hold)
      · rw [Life.extend_length, Life.extend_last]
        exact hd
    · rw [Life.extend_length, Life.extend_heard (Nat.le_of_lt hlt₀), hheard, hmore,
        roomPackets_append, roomPackets_sentTo]

/-- A client that has just connected. -/
theorem Sound.connect (hn : n.Sound life) {w' : World} {es : List Effect} (k : ChatClient)
    (hfd : 0 ≤ fd) (hs : TBDChat.Step sha256 n.world (.accept fd) w' es) :
    ∃ life' : Life sha256, Sound ⟨w', Function.update n.terminal fd (.fresh k)⟩ life' := by
  have hproper : n.world.Proper (.accept fd) :=
    ⟨trivial, fun d h => Event.accept.inj h ▸ hfd, nofun, nofun⟩
  refine hn.extend (.event hs) hproper nofun (fun d session hd => ?_) fun d hd => ?_
  · cases hs with
    | accept =>
      have hd : Function.update n.world.conns fd (.serving none) d = .serving session := hd
      by_cases hdfd : d = fd
      · subst hdfd
        rw [Function.update_self] at hd ⊢
        obtain rfl := Conn.serving.inj hd
        exact Terminal.attended_fresh
      · rw [Function.update_of_ne hdfd] at hd ⊢
        exact hn.attended d session hd
  · cases hs with
    | accept =>
      have hd : Function.update n.world.conns fd (.serving none) d ≠ .closed := hd
      by_cases hdfd : d = fd
      · subst hdfd
        rw [Function.update_self]
        exact .inl ⟨rfl, rfl, rfl⟩
      · rw [Function.update_of_ne hdfd] at hd ⊢
        exact .inr ⟨hd, (List.append_nil _).symm⟩

/-- A client acts under its own name. -/
theorem Sound.own (hn : n.Sound life) {p : Packet} {rest : List Packet} {env : Env} {w' : World}
    {es : List Effect} (hup : (n.terminal fd).up = p :: rest)
    (hs : TBDChat.Step sha256 n.world (.packet fd p env) w' es) :
    n.world.ActsOwn (.packet fd p env) := by
  cases hs with
  | @packet _ _ _ session next s' _ hfd hp hrun =>
    cases session with
    | none => simp only [World.ActsOwn, hfd]
    | some u =>
      simp only [World.ActsOwn, hfd]
      exact (hn.attended fd _ hfd).own hup

/-- A packet that has arrived. -/
theorem Sound.serve (hn : n.Sound life) {p : Packet} {rest : List Packet} {env : Env} {w' : World}
    {es : List Effect} (hup : (n.terminal fd).up = p :: rest)
    (hs : TBDChat.Step sha256 n.world (.packet fd p env) w' es)
    (hno : n.world.NoSecondLogin sha256 (.packet fd p env)) : ∃ life' : Life sha256, Sound
      ⟨w', deliver (Function.update n.terminal fd { n.terminal fd with up := rest }) es⟩ life' := by
  have hhappens := Happens.event hs
  have hown := hn.own hup hs
  cases hs with
  | @packet _ _ _ session next s' _ hfd hp hrun =>
    have hattended := hn.attended fd session hfd
    have htable := hn.settled.memory.housed.table
    have hproper : n.world.Proper (.packet fd p env) := by
      obtain ⟨hreg, hname⟩ := hattended.names p (hup ▸ List.mem_cons_self)
      refine ⟨hown, nofun, fun _ _ _ h => ?_, fun _ _ _ h => ?_⟩
      · cases h
        exact hreg
      · cases h
        exact hname
    refine hn.extend hhappens hproper hno (fun d session' hd => ?_) fun d hd => .inr ⟨?_, ?_⟩
    · have hd : Function.update n.world.conns fd (next.conn es fd) d = .serving session' := hd
      by_cases hdfd : d = fd
      · subst hdfd
        rw [Function.update_self] at hd
        rw [deliver, Function.update_self]
        exact hattended.serve hup htable (received hrun) hd
      · rw [Function.update_of_ne hdfd] at hd
        rw [deliver, Function.update_of_ne hdfd]
        exact (hn.attended d session' hd).deliver (loginReplies_elsewhere htable hdfd hrun)
    · have hd : Function.update n.world.conns fd (next.conn es fd) d ≠ .closed := hd
      by_cases hdfd : d = fd
      · rw [hdfd, hfd]
        exact Conn.noConfusion
      · rwa [Function.update_of_ne hdfd] at hd
    · by_cases hdfd : d = fd
      · rw [deliver, hdfd, Function.update_self]
        exact (List.append_assoc ..).symm
      · rw [deliver, Function.update_of_ne hdfd]
        exact (List.append_assoc ..).symm

/-- **A step of any of them keeps the network sound.** -/
theorem Sound.step (hn : n.Sound life) {act : Act} (hs : Step sha256 n act n')
    (hact : n.Disciplined sha256 n' act) : ∃ life' : Life sha256, n'.Sound life' := by
  cases hs with
  | connect k hfd hs => exact hn.connect k hfd hs
  | serve hup hs => exact hn.serve hup hs hact.1
  | type ht hrunning h =>
    obtain ⟨hpatient, hname, -⟩ := hact
    subst ht
    exact ⟨life, hn.update rfl fun session ha => ha.type hpatient hname h⟩
  | interrupt ht hrunning =>
    subst ht
    exact ⟨life, hn.update rfl fun session ha => ha.interrupt hact⟩
  | receive ht hdown h =>
    subst ht
    refine ⟨life, hn.update ?_ fun session ha => ha.receive hdown h⟩
    rw [Terminal.given, Terminal.given, hdown, List.append_assoc]
    rfl
  | restart fd =>
    refine hn.extend (.restart fd) trivial trivial (fun d session hd => ?_) fun d hd => ?_
    · cases hd
    · exact absurd rfl hd

/-- What a client was given last is what was in the room where its user stayed. -/
theorem Sound.transcript (hn : n.Sound life) {u : Str} {r t₁ : Nat} (ht : t₁ ≤ life.length)
    (hstay : ∀ t, t₁ ≤ t → t ≤ life.length → (life.state t).conns d = .serving (some u) ∧
      (life.state t).server.place u = some r) :
    ∃ before, roomPackets (n.terminal d).given = before ++
      ((life.transcript r t₁ life.length).filter fun x => x.but ≠ some d).map Entry.packet := by
  have hnow := (hstay life.length ht (Nat.le_refl _)).1
  have hopen : n.world.conns d ≠ .closed := by
    rw [← hn.now, hnow]
    exact Conn.noConfusion
  obtain ⟨t₀, hlt₀, haccept, -, hheard⟩ := hn.given d hopen
  have hlt : t₀ < t₁ := by
    by_contra hge
    have hconn := (hstay t₀ (Nat.le_of_not_lt hge) (Nat.le_of_lt hlt₀)).1
    have hnext := life.next t₀ hlt₀
    rw [haccept] at hnext
    cases hnext with
    | event hs =>
      rw [hs.closed] at hconn
      cases hconn
  refine ⟨life.heard d t₀ t₁, ?_⟩
  rw [← hheard, ← Life.heard_of_stay (Nat.le_refl _) hstay, Life.heard, Life.heard, Life.heard,
    Machines.during_append (Nat.le_of_lt hlt) ht]

theorem Reaches.sound (hn : Reaches sha256 n) : ∃ life : Life sha256, n.Sound life := by
  induction hn with
  | boot file fd terminal hfile =>
    let life : Life sha256 := {
      length := 0
      state := fun _ => World.boot file fd
      happening := fun _ => .restart fd
      out := fun _ => []
      boot := ⟨file, fd, rfl, hfile⟩
      next := fun _ ht => absurd ht (Nat.not_lt_zero _)
      proper := fun _ ht => absurd ht (Nat.not_lt_zero _) }
    exact ⟨life, rfl, boot_settled fd hfile, boot_saved file fd,
      fun _ ht => absurd ht (Nat.not_lt_zero _), fun d session hd => Conn.noConfusion hd,
      fun d hd => absurd rfl hd⟩
  | step _ hs hact ih =>
    obtain ⟨life, hsound⟩ := ih
    exact hsound.step hs hact

end Network

namespace Sample

/-- Alice comes and registers. -/
def arrival : Run sha256 := run (enter 4 "alice") (by decide)

end Sample

end TBDChat
