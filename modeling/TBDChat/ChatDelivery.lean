import TBDChat.OwnNames

/-!
# Where a chat packet goes

`client_receive` hands a chat packet, its text sanitized, to `send_message`, which
looks for the room whose number is the packet's option and sends the packet to
every member but the one on the sender's connection.  Room, username and real name
are what the packet says.  That each member of the room gets one copy, and nobody
else any, rests on the invariants of the lists and of the sessions.
-/

namespace TBDChat
open Atomic

set_option maxRecDepth 8000

/-- A chat packet as it is passed on. -/
def Packet.relayed (p : Packet) : Packet :=
  { p with buf := p.buf.map (sanitized safe_buf_chars) }

/-- An active user in the room of that number is logged in on the connection
`d`. -/
def World.InRoom (w : World) (d ID : Int) : Prop :=
  ∃ a ∈ w.server.active_users_list, (w.server.heap a).roomID = ID ∧
    w.conns d = .serving (some (w.server.heap a).username)

instance (w : World) (d ID : Int) : Decidable (w.InRoom d ID) := by
  unfold World.InRoom
  infer_instance

variable {sha256 : Str → Digest} {env : Env} {p : Packet} {s : Server} {w : World} {c : Int}

/-- The equation of a chat packet. -/
theorem run_chat (name : Str) (hopt : 1000 ≤ p.options) :
    ops.run (client_receive sha256 env (some name) p c) s =
      match LinkedList.Rget_roomFID s.room_list p.options with
      | none => .error .null
      | some r =>
        if (env.asctime p.timestamp).isSome then
          .ok (.receive (some name), s, relay env s p.relayed c r)
        else .error .time := by
  rw [client_receive, receiveSession, if_neg (Int.not_lt.mpr hopt), Semantics.run_bind,
    run_send_message, sanitizeInput_eq_map]
  cases LinkedList.Rget_roomFID s.room_list p.options with
  | none => rfl
  | some r =>
    by_cases ht : (env.asctime p.timestamp).isSome
    · simp [ht, Packet.relayed]
    · simp [ht]

/-- Who gets a copy. -/
theorem send_mem_relay {d : Int} {q : Packet} {r : RoomRef} :
    Effect.send d q ∈ relay env s p c r ↔
      q = p ∧ d ≠ c ∧ ∃ a ∈ s.members r, (s.heap a).sock = d := by
  simp only [relay, deliveries, List.mem_cons, List.mem_map, List.mem_filter, reduceCtorEq,
    false_or, Effect.send.injEq, decide_eq_true_eq]
  constructor
  · rintro ⟨a, ⟨ha, hne⟩, rfl, rfl⟩
    exact ⟨rfl, Ne.symm hne, a, ha, rfl⟩
  · rintro ⟨rfl, hne, a, ha, rfl⟩
    exact ⟨a, ⟨ha, Ne.symm hne⟩, rfl, rfl⟩

/-! ## Members and their connections -/

theorem Server.Linked.sock_inj (hl : w.server.Linked w.conns) (hi : w.server.Housed) {a b : Addr}
    (ha : a ∈ w.server.active_users_list) (hb : b ∈ w.server.active_users_list)
    (h : (w.server.heap a).sock = (w.server.heap b).sock) : a = b := by
  have hconn := hl.serving a ha
  rw [h, hl.serving b hb] at hconn
  exact hi.username_inj ha hb (Option.some.inj (Conn.serving.inj hconn)).symm

/-- The connection in an active user's record is the one it is logged in on. -/
theorem Server.Linked.sock_eq_iff (hl : w.server.Linked w.conns) (hi : w.server.Housed) {a : Addr}
    (ha : a ∈ w.server.active_users_list) {d : Int} :
    (w.server.heap a).sock = d ↔ w.conns d = .serving (some (w.server.heap a).username) := by
  constructor
  · rintro rfl
    exact hl.serving a ha
  · intro h
    obtain ⟨b, hb, hname, hsock⟩ := hl.attended d _ h
    rw [← hi.username_inj hb ha hname]
    exact hsock

/-- The connections stored with the members of a room are those of the users in
it. -/
theorem Server.Linked.member_iff (hl : w.server.Linked w.conns) (hi : w.server.Housed)
    {r : RoomRef} {ID d : Int} (hr : LinkedList.Rget_roomFID w.server.room_list ID = some r) :
    (∃ a ∈ w.server.members r, (w.server.heap a).sock = d) ↔ w.InRoom d ID := by
  have hlt := Rget_roomFID_lt hr
  have hID := Server.room_of_Rget_roomFID hr
  constructor
  · rintro ⟨a, ha, hsock⟩
    obtain ⟨hact, hroom⟩ := (hi.member r hlt a).mp ha
    exact ⟨a, hact, hroom.trans hID, (hl.sock_eq_iff hi hact).mp hsock⟩
  · rintro ⟨a, hact, hroom, hconn⟩
    exact ⟨a, (hi.member r hlt a).mpr ⟨hact, hroom.trans hID.symm⟩,
      (hl.sock_eq_iff hi hact).mpr hconn⟩

/-- No copy is sent twice. -/
theorem nodup_relay (hl : w.server.Linked w.conns) (hi : w.server.Housed) {r : RoomRef}
    (hr : r < w.server.room_list.length) : (relay env w.server p c r).Nodup := by
  have hsocks : (w.server.members r).Pairwise
      (fun a b => (w.server.heap a).sock ≠ (w.server.heap b).sock) :=
    (hi.once r hr).imp_of_mem fun ha hb hne he =>
      hne (hl.sock_inj hi (hi.active hr ha) (hi.active hr hb) he)
  refine List.nodup_cons.mpr ⟨by simp [deliveries], ?_⟩
  refine List.pairwise_map.mpr ((hsocks.filter _).imp fun hne he => hne ?_)
  exact (Effect.send.inj he).1

/-- **A chat packet reaches every member of its room once**, and nobody else, while all clients
act under their own names, just if its time can be broken down: a copy goes to the connection of
each active user in the room of the packet's number, other than the sender's, and differs from the
packet in the characters of the text that are not safe.  A record that is freed is taken to keep
its bytes (`Server.free`). -/
theorem chat_exactly_once (hw : OwnReachable sha256 w) (name : Str)
    (hroom : ∃ room ∈ w.server.room_list, room.ID = p.options) :
    (∃ es, ops.run (client_receive sha256 env (some name) p c) w.server =
        .ok (.receive (some name), w.server, es) ∧
      ∀ d q, es.count (.send d q) =
        if q = p.relayed ∧ d ≠ c ∧ w.InRoom d p.options then 1 else 0) ↔
      env.asctime p.timestamp ≠ none := by
  have hi := hw.reachable.housed
  have hl := hw.linked
  obtain ⟨room, hmem, hID⟩ := hroom
  have hopt : 1000 ≤ p.options := hID ▸ (hi.table.range _ (List.mem_map_of_mem hmem)).1
  obtain ⟨r, hr⟩ : ∃ r, LinkedList.Rget_roomFID w.server.room_list p.options = some r :=
    Option.ne_none_iff_exists'.mp fun h => LinkedList.Rget_roomFID_none.mp h room hmem hID
  rw [run_chat name hopt, hr]
  cases ht : env.asctime p.timestamp with
  | none =>
    -- the line for the room's log is made before the first copy is sent
    refine iff_of_false ?_ fun hne => hne rfl
    rintro ⟨es, hrun, -⟩
    cases hrun
  | some time =>
    refine iff_of_true ⟨relay env w.server p.relayed c r, rfl, fun d q => ?_⟩
      (Option.some_ne_none time)
    rw [(nodup_relay hl hi (Rget_roomFID_lt hr)).count]
    simp only [send_mem_relay, hl.member_iff hi hr]

/-- Alice says hello in the Lobby: Bob hears it, and she does not. -/
theorem chat_exactly_once_hello : ∃ es,
    ops.run (client_receive Sample.sha256 Sample.env (some (str "alice"))
      ⟨0, str "hello\t", str "alice", str "alice", 1000⟩ 4)
      (Sample.world (Sample.enter 4 "alice" ++ Sample.enter 5 "bob")).server =
        .ok (.receive (some (str "alice")),
          (Sample.world (Sample.enter 4 "alice" ++ Sample.enter 5 "bob")).server, es) ∧
    es.count (.send 5 ⟨0, str "hello_", str "alice", str "alice", 1000⟩) = 1 ∧
    es.count (.send 4 ⟨0, str "hello_", str "alice", str "alice", 1000⟩) = 0 := by
  have hw := Sample.ownReachable (Sample.enter 4 "alice" ++ Sample.enter 5 "bob")
    (by decide)
  obtain ⟨es, hrun, hcount⟩ := (@chat_exactly_once _ Sample.env
    ⟨0, str "hello\t", str "alice", str "alice", 1000⟩ _ 4 hw (str "alice") (by decide)).mpr
      (by decide)
  refine ⟨es, hrun, ?_, ?_⟩
  · rw [hcount]
    exact if_pos (by decide)
  · rw [hcount]
    exact if_neg (by decide)

/-- A server whose `localtime` has the years that an `int` can count. -/
def Sample.years : Env :=
  { Sample.env with asctime := fun t => if t ≤ 67768036191676799 then some (str "now\n") else none }

/-- Alice's hello is from a year that no `int` counts, and Bob does not hear it. -/
theorem chat_ends_server : ¬ ∀ (sha256 : Str → Digest) (env : Env) (w : World) (c : Int)
    (name : Str) (p : Packet), OwnReachable sha256 w → w.conns c = .serving (some name) → p.Wf →
    p.username = name → (words p.buf).length ≤ 15 →
    (∃ room ∈ w.server.room_list, room.ID = p.options) →
    ∃ es, ops.run (client_receive sha256 env (some name) p c) w.server =
        .ok (.receive (some name), w.server, es) ∧
      ∀ d q, es.count (.send d q) =
        if q = p.relayed ∧ d ≠ c ∧ w.InRoom d p.options then 1 else 0 := by
  intro h
  let w := Sample.world (Sample.enter 4 "alice" ++ Sample.enter 5 "bob")
  let p : Packet := ⟨2 ^ 60, str "hello", str "alice", str "alice", 1000⟩
  have hw : OwnReachable Sample.sha256 w := Sample.ownReachable _ (by decide)
  obtain ⟨es, hrun, -⟩ := h Sample.sha256 Sample.years w 4 (str "alice") p hw (by decide)
    ⟨by decide, by decide, by decide⟩ rfl (by decide) (by decide)
  have hfault : (ops.run (client_receive Sample.sha256 Sample.years (some (str "alice")) p 4)
      w.server).fault? = some .time := by decide
  rw [hrun] at hfault
  cases hfault

/-! ## What the server takes from the packet -/

/-- **A chat packet that is relayed** goes to the room that the packet names,
whoever sends it, and carries the username and the real name that the packet
carries: there is a room of that number, and the packet is sent, with no field
changed but the text, to just the connections stored with the active users in it,
but for the sender's. -/
theorem chat_as_claimed (hw : Reachable sha256 w) (name : Str) (hopt : 1000 ≤ p.options)
    {next : Next} {s' : Server} {es : List Effect}
    (hrun : ops.run (client_receive sha256 env (some name) p c) w.server = .ok (next, s', es)) :
    (∃ room ∈ w.server.room_list, room.ID = p.options) ∧
    ∀ d q, Effect.send d q ∈ es ↔ q = p.relayed ∧ d ≠ c ∧
      ∃ a ∈ w.server.active_users_list,
        (w.server.heap a).roomID = p.options ∧ (w.server.heap a).sock = d := by
  rw [run_chat name hopt] at hrun
  split at hrun
  · cases hrun
  rename_i r hr
  split at hrun
  · cases hrun
    obtain ⟨room, hroom, hID⟩ := LinkedList.Rget_roomFID_some hr
    refine ⟨⟨room, List.mem_of_getElem? hroom, hID⟩, fun d q => ?_⟩
    have hmember := hw.housed.member r (Rget_roomFID_lt hr)
    simp only [send_mem_relay, hmember, Server.room_of_Rget_roomFID hr, and_assoc]
  · cases hrun

/-- Alice is in a room of her own. -/
def Sample.apart : World :=
  Sample.world (Sample.enter 4 "alice" ++ Sample.enter 5 "bob" ++
    [Sample.packet 4 JOIN "alice" "Den 1000"])

/-- A word in the Lobby from Bob. -/
def Sample.hello : Packet := ⟨0, str "hello", str "bob", str "Bob", 1000⟩

/-- It comes from Alice. -/
theorem chat_as_claimed_impostor : ∃ w' es,
    Step Sample.sha256 Sample.apart (.packet 4 Sample.hello Sample.env) w' es ∧
    Effect.send 5 Sample.hello ∈ es := by
  obtain ⟨w', es, hs⟩ : ∃ w' es,
      Step Sample.sha256 Sample.apart (.packet 4 Sample.hello Sample.env) w' es :=
    Sample.exists_step _ _ (by decide)
  have hconn : Sample.apart.conns 4 = .serving (some (str "alice")) := by decide
  obtain ⟨next, -, hrun, -⟩ := hs.handled hconn
  have hsent := (chat_as_claimed (Sample.reachable _) (str "alice") (by decide) hrun).2
  exact ⟨w', es, hs, (hsent 5 Sample.hello).mpr
    ⟨by decide, by decide, 1, by decide, by decide, by decide⟩⟩

/-- So chat is neither from the user of the connection nor in that user's room. -/
theorem chat_impersonates : ¬ ∀ (sha256 : Str → Digest) (w w' : World) (c : Int) (name : Str)
    (p : Packet) (env : Env) (es : List Effect), Reachable sha256 w →
    w.conns c = .serving (some name) → 1000 ≤ p.options →
    Step sha256 w (.packet c p env) w' es →
    ∀ d q, Effect.send d q ∈ es → ∀ a ∈ w.server.active_users_list,
      (w.server.heap a).username = name →
      q.options = (w.server.heap a).roomID ∧ q.username = name ∧
        q.realname = (w.server.heap a).real_name := by
  intro h
  have hsent : ((Sample.apart.step Sample.sha256 (.packet 4 Sample.hello Sample.env)).map
      (fun x => x.2.any (fun e => decide (e = .send 5 Sample.hello)))) = some true := by
    decide
  obtain ⟨⟨w', es⟩, hstep, hany⟩ := Option.map_eq_some_iff.mp hsent
  obtain ⟨e, he, heq⟩ := List.any_eq_true.mp hany
  obtain rfl := of_decide_eq_true heq
  have hname := (h Sample.sha256 Sample.apart w' 4 (str "alice") _ _ es (Sample.reachable _)
    (by decide) (by decide) (World.step_eq_some.mp hstep) _ _ he 0 (by decide)
    (by decide)).2.1
  exact absurd hname (by decide)

end TBDChat
