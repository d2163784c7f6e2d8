import TBDChat.ClientServer

/-!
# The room a client takes itself to be in

Whenever the server moves a user, by a JOIN or by a LEAVE, it sends one JOINSUC
that gives the number of the new room as its second word, and it sends none
otherwise.  So what is in flight to the client always leads it to the room that the
server has for it.
-/

namespace TBDChat
open Atomic

set_option maxRecDepth 8000

variable {sha256 : Str → Digest} {env : Env} {p : Packet} {c : Int} {s s' : Server}
  {w w' : World} {e : Event} {es : List Effect} {a : Addr} {u : Str}

/-! ## Reading a JOINSUC -/

theorem not_mem_delim_dec {n : Int} : ∀ x ∈ dec n, x ∉ delim := by
  have hdigits (m : Nat) : ∀ x ∈ digits m, x ∉ delim := by
    intro x hx hdelim
    have hlow := (mem_digits hx).1
    rcases List.mem_pair.mp hdelim with rfl | rfl
    · exact absurd hlow (by decide)
    · exact absurd hlow (by decide)
  unfold dec
  split
  · exact List.forall_mem_cons.mpr ⟨by decide, hdigits _⟩
  · exact hdigits _

section Read
variable {k : Client} {q : Packet} {name : Str} {n : Int}

/-- The text of `join`. -/
theorem words_joined (hname : ∀ x ∈ name, x ∉ delim) :
    words (name ++ str " " ++ dec n) = [name, dec n] := by
  have htext : name ++ str " " ++ dec n = name ++ 32 :: dec n := by
    rw [List.append_assoc]
    rfl
  rw [htext, words, strsepLoop_first hname (by decide), strsepLoop_last not_mem_delim_dec]

/-- The text of `leave` has more words behind the number. -/
theorem words_left (hname : ∀ x ∈ name, x ∉ delim) :
    words (name ++ str " " ++ dec n ++ str " has joined the room.") =
      name :: dec n :: [str "has", str "joined", str "the", str "room."] := by
  have htext : name ++ str " " ++ dec n ++ str " has joined the room." =
      name ++ 32 :: (dec n ++ 32 :: str "has joined the room.") := by
    rw [List.append_assoc, List.append_assoc]
    rfl
  rw [htext, words, strsepLoop_first hname (by decide),
    strsepLoop_first not_mem_delim_dec (by decide)]
  rfl

/-- The client reads the second word. -/
theorem Client.chatRX_joinsuc {rest : List Str} (hopt : q.options = JOINSUC)
    (hwords : words q.buf = name :: dec n :: rest) (hrest : rest.length ≤ 13) (h0 : 0 ≤ n)
    (h31 : n < 2 ^ 31) : k.chatRX q = some { k with currentRoom := n } := by
  have harg : arg (words q.buf) 1 = dec n := by
    rw [hwords]
    rfl
  have hlen : (words q.buf).length = rest.length + 2 := by rw [hwords, List.length_cons,
    List.length_cons]
  rw [chatRX, serverResponse, hopt, if_neg (by decide), if_pos (by decide), if_neg (by decide),
    if_pos rfl, newRoom, if_neg (by omega), harg, atoi_dec h0 h31]
  dsimp only
  split
  · rfl
  · rename_i h
    rw [not_not.mp h]

end Read

/-! ## Steps of others -/

/-- A login leaves alone whoever is active. -/
theorem Login.leaves {user pass : Str} {fd : Int} {b : Bool} (ha : a ∈ s.active_users_list)
    (h : Login sha256 env user pass fd s b s' es) : s.Leaves s' a := by
  cases h with
  | refused | discarded => exact .of_lists rfl rfl rfl
  | signedIn hb _ hact hr =>
    have hname := (LinkedList.get_user_some (Server.account_some hb)).2
    refine Server.signIn_leaves ?_ (Rget_roomFID_lt hr) (by rwa [hname])
    rintro rfl
    exact LinkedList.get_user_none.mp hact _ ha hname

/-- What others do leaves a user alone who is active under another name. -/
theorem Received.leaves_active {session : Option Str} {next : Next} {fd : Int} (hi : s.Housed)
    (hp : p.Wf) (h : Received sha256 env p fd s session next s' es)
    (ha : a ∈ s.active_users_list)
    (hown : ∀ name, session = some name → (s.heap a).username ≠ p.username) : s.Leaves s' a := by
  have hreg := hi.known a ha
  cases session with
  | some name => exact (h.changes hp).leaves hi hreg (hown name rfl)
  | none =>
    cases h with
    | refused | hungUp => exact .of_lists rfl rfl rfl
    | login _ _ hl => exact hl.leaves ha
    | register _ hl =>
      have henrol : s.Leaves (s.enrol (newcomer sha256 env p fd)) a := by
        refine .of_lists ?_ rfl rfl
        rw [Server.enrol_heap_old (hi.fresh a hreg)]
      exact henrol.trans (hl.leaves (henrol.active.mpr ha))

/-- An event that is no packet of a logged-in connection, or one that names somebody
other than `u`. -/
def World.Spares (u : Str) (w : World) : Event → Prop
  | .accept _ => True
  | .packet fd p _ => ∀ name, w.conns fd = .serving (some name) → p.username ≠ u

/-- Whoever acts under its own name on another connection does so. -/
theorem World.ActsOwn.spares (hi : w.server.Housed) (hl : w.server.Linked w.conns)
    (hc : w.conns c = .serving (some u)) (he : e.fd ≠ c) (h : w.ActsOwn e) : w.Spares u e := by
  cases e with
  | accept => exact trivial
  | packet fd p env =>
    intro name hfd hname
    simp only [World.ActsOwn, hfd] at h
    -- two connections under one name would have one user between them
    obtain ⟨b, hb, hbname, hbsock⟩ := hl.attended fd name hfd
    obtain ⟨b', hb', hbname', hbsock'⟩ := hl.attended c u hc
    obtain rfl : b = b' := hi.username_inj hb hb' (by rw [hbname, hbname', ← h, hname])
    exact he (hbsock.symm.trans hbsock')

/-- The user whose client is on `c`, as other clients leave it. -/
theorem Step.others_leave (hi : w.server.Housed) (hc : w.conns c = .serving (some u))
    (ha : LinkedList.get_user w.server.heap w.server.active_users_list u = some a)
    (he : e.fd ≠ c) (hspares : w.Spares u e) (hs : Step sha256 w e w' es) :
    w'.conns c = .serving (some u) ∧ w.server.Leaves w'.server a ∧
      ∀ q ∈ sentTo c es, q.Quiet := by
  obtain ⟨hact, hname⟩ := LinkedList.get_user_some ha
  cases hs with
  | accept =>
    refine ⟨?_, .of_lists rfl rfl rfl, fun q hq => absurd hq List.not_mem_nil⟩
    exact (Function.update_of_ne (Ne.symm he) ..).trans hc
  | @packet fd p env session next s' es hfd hp hrun =>
    refine ⟨(Function.update_of_ne (Ne.symm he) ..).trans hc, ?_, fun q hq => ?_⟩
    · refine (received hrun).leaves_active hi hp hact fun name hsession heq => ?_
      exact hspares name (hsession ▸ hfd) (heq.symm.trans hname)
    · exact receive_elsewhere hi.table hrun c q (Ne.symm he) (mem_sentTo.mp hq)

/-! ## Steps of the client's own -/

/-- Whoever is active and found by a name stays so if no session changes. -/
theorem SameSessions.get_user (h : SameSessions s s')
    (ha : LinkedList.get_user s.heap s.active_users_list u = some a) :
    LinkedList.get_user s'.heap s'.active_users_list u = some a := by
  rw [h.active, ← ha]
  exact LinkedList.get_user_congr h.username

/-- The Lobby is called `Lobby`. -/
theorem Server.Table.lobby_name (ht : s.Table) : (s.room 0).name = DEFAULT_ROOM_NAME := by
  obtain ⟨room, hroom, hname⟩ := Option.map_eq_some_iff.mp (List.getElem?_map .. ▸ ht.lobbyName)
  rw [Server.room_of_getElem? hroom, hname]

theorem SameRooms.name (h : SameRooms s s') (r : RoomRef) : (s'.room r).name = (s.room r).name :=
  Server.room_congr (h.map fun _ _ => rfl) r

/-- One reply that counts, before others. -/
theorem Client.catchUp_first {k k' : Client} {q : Packet} (hq : k.chatRX q = some k')
    (h : AllQuiet es) : k.catchUp (sentTo c (.send c q :: es)) = some k' := by
  have hcons : k.catchUp (q :: sentTo c es) = (k.chatRX q).bind (·.catchUp (sentTo c es)) := rfl
  rw [sentTo_send, hcons, hq, Option.bind_some, catchUp_sentTo h]

/-- The same among others. -/
theorem Client.catchUp_around {k k' : Client} {q : Packet} {es' : List Effect} (h : AllQuiet es)
    (h' : AllQuiet es') (hq : k.chatRX q = some k') :
    k.catchUp (sentTo c (es ++ .send c q :: es')) = some k' := by
  rw [sentTo_append, catchUp_append, catchUp_sentTo h, Option.bind_some, catchUp_first hq h']

/-- The packet takes `a` out of the room that it names: a JOIN of a room of another
name, or a LEAVE of a room other than the Lobby. -/
def Server.Moves (s : Server) (a : Addr) (p : Packet) : Prop :=
  1 < (words p.buf).length ∧ atoi (arg (words p.buf) 1) = (s.heap a).roomID ∧
    ((p.options = JOIN ∧ acceptsName ROOMNAME_LENGTH (arg (words p.buf) 0) = true ∧
        ∀ room ∈ s.room_list, room.ID = (s.heap a).roomID → room.name ≠ arg (words p.buf) 0) ∨
      p.options = LEAVE ∧ (s.heap a).roomID ≠ DEFAULT_ROOM)

/-- The client on `c` comes from the room of `a` before its packet `p` to the room of `a`
after it; `a` is still found by its name `u`, and is moved only where the packet says so. -/
structure Follows (c : Int) (u : Str) (p : Packet) (a : Addr) (s s' : Server)
    (es : List Effect) : Prop where
  active : LinkedList.get_user s'.heap s'.active_users_list u = some a
  room : ∀ k : Client, k.currentRoom = (s.heap a).roomID →
    k.catchUp (sentTo c es) = some { k with currentRoom := (s'.heap a).roomID }
  moves : (s'.heap a).roomID ≠ (s.heap a).roomID → s.Moves a p

/-- A packet that does not move the user and sends no word of a new room. -/
theorem Follows.stay (ha : LinkedList.get_user s.heap s.active_users_list u = some a)
    (hsame : SameSessions s s') (hroom : (s'.heap a).roomID = (s.heap a).roomID)
    (hes : AllQuiet es) : Follows c u p a s s' es where
  active := hsame.get_user ha
  room k hk := by
    rw [hroom, ← hk]
    exact Client.catchUp_sentTo hes
  moves hne := absurd hroom hne

/-- A packet that moves the user to the room of number `n`, of which `q` tells the client. -/
theorem Follows.moved {s₁ : Server} {r d : RoomRef} {n : Int} {q : Packet} {es' : List Effect}
    (ha : LinkedList.get_user s.heap s.active_users_list u = some a) (hsame : SameSessions s s₁)
    (hi₁ : s₁.Housed) (hlen : (s₁.heap a).username.length < 192) (hr : r < s₁.room_list.length)
    (hd : d < s₁.room_list.length) (hmem : a ∈ s₁.members r) (hs' : s' = s₁.move a r d n)
    (hq : ∀ k : Client, k.chatRX q = some { k with currentRoom := n }) (hes : AllQuiet es)
    (hes' : AllQuiet es') (hmoves : n ≠ (s.heap a).roomID → s.Moves a p) :
    Follows c u p a s s' (es ++ .send c q :: es') := by
  have hmove := (Server.move_lists n hi₁ hlen hr hd hmem).2.2.2 a
  rw [if_pos rfl, ← hs'] at hmove
  refine ⟨(hsame.trans (hs' ▸ .move hlen ..)).get_user ha, fun k _ => ?_, fun hne => ?_⟩
  · rw [hmove]
    exact Client.catchUp_around hes hes' (hq k)
  · exact hmoves (hmove ▸ hne)

/-- A JOIN that takes the user to a room of another number takes it to one of another name. -/
theorem moves_of_join {fd : Int} {r : RoomRef} {room : Room} (ht : s.Table) (hj : Joins p)
    (hroom : (s.openRoom fd (arg (words p.buf) 0)).room_list[r]? = some room)
    (hname : room.name = arg (words p.buf) 0)
    (hnumber : atoi (arg (words p.buf) 1) = (s.heap a).roomID)
    (hne : room.ID ≠ (s.heap a).roomID) : s.Moves a p := by
  refine ⟨hj.words, hnumber, .inl ⟨hj.options, hj.name, fun old hold hID hold' => ?_⟩⟩
  -- a room of that name is the one that is joined
  have hthere : LinkedList.Rget_ID s.room_list (arg (words p.buf) 0) ≠ -1 := fun h =>
    ht.Rget_ID_eq.mp h old hold hold'
  rw [Server.openRoom, if_neg hthere] at hroom
  have hsameroom : old = room := List.inj_on_of_nodup_map ht.names hold
    (List.mem_of_getElem? hroom) (hold'.trans hname.symm)
  exact hne (by rw [← hsameroom, hID])

/-- **A packet of the client's own** leads the client from the room of the user
before it to the room after it, whether it moves the user or not.  Only a JOIN or a
LEAVE moves the user. -/
theorem own_room {name : Str} {next : Next} (hi : s.Housed) (hp : p.Wf)
    (hrun : ops.run (client_receive sha256 env (some name) p c) s = .ok (next, s', es))
    (hint : s'.numRooms < 2 ^ 31) (hopt : ¬ (p.options = EXIT ∨ p.options = 0))
    (ha : LinkedList.get_user s.heap s.active_users_list u = some a)
    (hown : p.options = JOIN ∨ p.options = LEAVE →
      p.username = u ∨ atoi (arg (words p.buf) 1) < 1000) :
    next = .receive (some name) ∧ Follows c u p a s s' es := by
  have hlen : p.username.length < 64 := Nat.lt_succ_of_le hp.username.1
  -- whoever is moved is the user
  have hwho {s' : Server} {b : Addr} (hopt : p.options = JOIN ∨ p.options = LEAVE)
      (hnum : 1000 ≤ atoi (arg (words p.buf) 1)) (hsame : SameSessions s s')
      (hb : LinkedList.get_user s'.heap s'.active_users_list p.username = some b) : b = a := by
    rcases hown hopt with heq | hlow
    · exact Option.some.inj (hb.symm.trans (heq ▸ hsame.get_user ha))
    · omega
  cases received hrun with
  | answered _ hes =>
    exact ⟨rfl, .stay ha (.of_heap rfl rfl) rfl (allQuiet_of_replies hrun hes)⟩
  | renamed _ _ hb hr =>
    have hname := (LinkedList.get_user_some hb).2
    refine ⟨rfl, .stay ha (.rename (by rwa [hname]) _) (rename_roomID ..) ?_⟩
    exact allQuiet_append.mpr ⟨allQuiet_fileEffects, allQuiet_append.mpr
      ⟨allQuiet_relay (hi.table.le_of_find hr), allQuiet_message (by decide)⟩⟩
  | passwordSet hc =>
    have hname := (LinkedList.get_user_some hc.user).2
    refine ⟨rfl, .stay ha (.setPassword (by rwa [hname]) _) (setPassword_roomID ..) ?_⟩
    exact allQuiet_append.mpr ⟨allQuiet_fileEffects, allQuiet_message (by decide)⟩
  | opened =>
    exact ⟨rfl, .stay ha (.openRoom s _ _) (by rw [Server.openRoom_heap]) allQuiet_openEffects⟩
  | chat hopt _ =>
    exact ⟨rfl, .stay ha (.of_heap rfl rfl) rfl
      (allQuiet_relay (q := { p with buf := (sanitizeInput p.buf 0).1 }) hopt)⟩
  | vanished hexit | signedOut hexit => exact absurd hexit hopt
  | @joined _ s₁ s₂ b r r' r'' hj hs₁ hr hb hr' hr'' hs₂ =>
    have hsame : SameSessions s s₁ := hs₁ ▸ .openRoom s _ _
    have hi₁ : s₁.Housed := hs₁ ▸ hi.openRoom (acceptsName_iff.mp hj.name).2.2
    obtain ⟨room, hroom, hroomname⟩ := LinkedList.Rget_roomFNAME_some hr'
    obtain ⟨hfound, hnumber⟩ := hi₁.find_member.mp ⟨r, hr, hb⟩
    obtain rfl : b = a := hwho (.inl hj.options) (hi₁.table.le_of_find hr) hsame hfound
    obtain ⟨hmem, hname⟩ := LinkedList.get_user_some hb
    rw [← hname] at hlen
    have heq : s₁.room r' = room := Server.room_of_getElem? hroom
    have hrange := hi₁.table.range room.ID (List.mem_map_of_mem (List.mem_of_getElem? hroom))
    have hnum : s'.numRooms = s₁.numRooms := hs₂ ▸ (SameRooms.move ..).numRooms
    have hheap : s₁.heap = s.heap := by rw [hs₁, Server.openRoom_heap]
    refine ⟨rfl, .moved ha hsame hi₁ (by omega) (Rget_roomFID_lt hr)
      (List.getElem?_eq_some_iff.mp hroom).1 hmem hs₂ (fun k => ?_) allQuiet_openEffects
      (allQuiet_append.mpr ⟨allQuiet_relay (hi₁.table.le_of_find hr),
        allQuiet_relay (hi₁.table.le_of_find hr'')⟩) fun hne => ?_⟩
    · rw [heq]
      have h0 : 0 ≤ room.ID := Int.le_trans (by decide) hrange.1
      exact Client.chatRX_joinsuc rfl (words_joined not_mem_delim_arg) (by decide) h0 (by omega)
    · rw [hheap] at hnumber
      exact moves_of_join hi.table hj (hs₁ ▸ hroom) hroomname hnumber.symm (heq ▸ hne)
  | @left _ _ b r d d' hleave hw hne hr hb hd hs' hd' =>
    obtain ⟨hfound, hnumber⟩ := hi.find_member.mp ⟨r, hr, hb⟩
    obtain rfl : b = a := hwho (.inr hleave) (hi.table.le_of_find hr) (.of_heap rfl rfl) hfound
    obtain ⟨hmem, hname⟩ := LinkedList.get_user_some hb
    rw [← hname] at hlen
    -- the Lobby, which the reply names
    have hsame : SameRooms s s' := hs' ▸ .move ..
    have hID : (s'.room d).ID = 1000 := (hsame.ID d).trans (Server.room_of_Rget_roomFID hd)
    obtain rfl : d = 0 := Option.some.inj (hd.symm.trans hi.table.Rget_lobby)
    have hlobby : (s'.room 0).name = DEFAULT_ROOM_NAME :=
      (hsame.name 0).trans hi.table.lobby_name
    have htext : words ((s'.room 0).name ++ str " " ++ dec (s'.room 0).ID ++
        str " has joined the room.") = DEFAULT_ROOM_NAME :: dec 1000 ::
          [str "has", str "joined", str "the", str "room."] := by
      rw [hlobby, hID]
      exact words_left (by decide)
    refine ⟨rfl, .moved ha (.of_heap rfl rfl) hi (by omega) (Rget_roomFID_lt hr)
      (Rget_roomFID_lt hd) hmem hs' (fun k => ?_) (allQuiet_relay (hi.table.le_of_find hr))
      (allQuiet_relay (hi.table.le_of_find hd')) fun _ =>
        ⟨hw, hnumber.symm, .inr ⟨hleave, hnumber.symm ▸ hne⟩⟩⟩
    exact Client.chatRX_joinsuc rfl htext (by decide) (by decide) (by decide)

/-! ## Both sides -/

/-- What is in flight to the client on `c` leads it to the name `u` and to the room
that the server has for `u`. -/
structure Joint.Agrees (sha256 : Str → Digest) (c : Int) (u : Str) (j : Joint) : Prop where
  reachable : Reachable sha256 j.world
  session : j.world.conns c = .serving (some u)
  room : ∃ a, LinkedList.get_user j.world.server.heap j.world.server.active_users_list u = some a ∧
    j.client.catchUp j.down = some ⟨u, (j.world.server.heap a).roomID⟩

/-- Whoever is left alone is still found. -/
theorem Server.Leaves.get_user (h : s.Leaves s' a) (hi : s'.Housed)
    (ha : LinkedList.get_user s.heap s.active_users_list u = some a) :
    LinkedList.get_user s'.heap s'.active_users_list u = some a := by
  obtain ⟨hact, hname⟩ := LinkedList.get_user_some ha
  have hget := LinkedList.get_user_of_mem hi.distinct (h.active.mpr hact)
  rwa [h.heap, hname] at hget

section Login
variable {user pass : Str} {fd : Int} {k : Client}

/-- A login that succeeds leads the client to the Lobby. -/
theorem Login.room (hu : user.length < 192) (hi : s'.Housed)
    (h : Login sha256 env user pass c s true s' es) :
    ∃ a, LinkedList.get_user s'.heap s'.active_users_list user = some a ∧
      k.catchUp (sentTo c es) = some ⟨user, (s'.heap a).roomID⟩ := by
  cases h with
  | @signedIn a r ha _ hact hr =>
    have hname := (LinkedList.get_user_some (Server.account_some ha)).2
    rw [← hname] at hact
    obtain ⟨hactive, -, -, hroom⟩ := Server.signIn_lists c (Rget_roomFID_lt hr) hact
    have hmem : a ∈ (s.signIn a c r).active_users_list := by
      rw [hactive]
      exact List.mem_append_right _ (List.mem_singleton_self a)
    have hget := LinkedList.get_user_of_mem hi.distinct hmem
    have huser : ((s.signIn a c r).heap a).username = user := by
      rw [← hname, s.username_signIn (by rw [hname]; exact hu) c r a]
    rw [huser] at hget
    refine ⟨a, hget, ?_⟩
    rw [hroom, if_pos rfl]
    -- the word that it succeeded comes first
    have hcode : 0 < MOTD ∧ MOTD ∉ [LOGSUC, JOINSUC, EXIT] := by decide
    exact Client.catchUp_first rfl (allQuiet_append.mpr ⟨allQuiet_relay (Int.le_refl 1000),
      allQuiet_cons.mpr ⟨Effect.quiet_of_options hcode rfl, allQuiet_nil⟩⟩)

/-- It is a login that begins a session, also after a registration. -/
theorem Received.room (hp : p.Wf) (hi : s'.Housed)
    (h : Received sha256 env p c s none (.receive (some u)) s' es) :
    ∃ a, LinkedList.get_user s'.heap s'.active_users_list u = some a ∧
      k.catchUp (sentTo c es) = some ⟨u, (s'.heap a).roomID⟩ := by
  have hlogin {s₀ : Server} {b : Bool} {es₀ : List Effect}
      (hb : some u = if b then some (loginName p) else none)
      (hl : Login sha256 env (loginName p) (arg (words p.buf) 2) c s₀ b s' es₀) :
      ∃ a, LinkedList.get_user s'.heap s'.active_users_list u = some a ∧
        k.catchUp (sentTo c es₀) = some ⟨u, (s'.heap a).roomID⟩ := by
    cases b with
    | false => cases hb
    | true =>
      obtain rfl := Option.some.inj hb
      exact hl.room (Nat.lt_of_le_of_lt (hp.arg_length 1) (by decide)) hi
  generalize hnext : Next.receive (some u) = next at h
  cases h with
  | refused | hungUp => cases hnext
  | login _ _ hl => exact hlogin (Next.receive.inj hnext) hl
  | register _ hl =>
    rw [sentTo_append, Client.catchUp_append, Client.catchUp_sentTo allQuiet_fileEffects,
      Option.bind_some]
    exact hlogin (Next.receive.inj hnext) hl

theorem Joint.Start.agrees {j : Joint} (h : Joint.Start sha256 c u j) : j.Agrees sha256 c u := by
  obtain ⟨w, p, env, es, hw, hconn, hs, hdown⟩ := h.login
  have hreach := hw.step hs
  refine ⟨hreach, h.session, ?_⟩
  obtain ⟨next, hp, hrun, hconns⟩ := hs.handled hconn
  have hsession := h.session
  rw [hconns, Function.update_self] at hsession
  rw [hdown]
  cases next with
  | receive session =>
    obtain rfl := Conn.serving.inj hsession
    exact (received hrun).room hp hreach.housed
  | done =>
    rw [Next.conn] at hsession
    split at hsession
    · cases hsession
    · cases hsession

end Login

section Steps
variable {rule : Client → Packet → Prop} {others : World → Event → Prop} {j j₀ j' : Joint}

/-- **A step keeps both sides in agreement**, if others spare the user and a JOIN or
LEAVE of the client names the user, or no room. -/
theorem Joint.Agrees.step (hj : j.Agrees sha256 c u) (h : Joint.Step sha256 rule others c j j')
    (hspares : ∀ e, e.fd ≠ c → others j.world e → j.world.Spares u e)
    (hown : ∀ p ∈ j.up.head?, p.options = JOIN ∨ p.options = LEAVE →
      p.username = u ∨ atoi (arg (words p.buf) 1) < 1000) : j'.Agrees sha256 c u := by
  obtain ⟨hreach, hc, a, ha, hk⟩ := hj
  have hi := hreach.housed
  cases h with
  | send => exact ⟨hreach, hc, a, ha, hk⟩
  | @serve w w' k up down p env es hopt hs hint =>
    obtain ⟨next, hp, hrun, hconns⟩ := hs.handled hc
    obtain ⟨rfl, hget, hroom, -⟩ := own_room hi hp hrun hint hopt ha (hown p rfl)
    refine ⟨hreach.step hs, ?_, a, hget, ?_⟩
    · rw [hconns]
      exact Function.update_self ..
    · have hk : k.catchUp down = some ⟨u, (w.server.heap a).roomID⟩ := hk
      rw [Client.catchUp_append, hk, Option.bind_some]
      exact hroom _ rfl
  | @other w w' k up down e es he hother hs =>
    obtain ⟨hconns, hleaves, hquiet⟩ := hs.others_leave hi hc ha he (hspares e he hother)
    have hreach' := hreach.step hs
    have hk : k.catchUp down = some ⟨u, (w.server.heap a).roomID⟩ := hk
    refine ⟨hreach', hconns, a, hleaves.get_user hreach'.housed ha, ?_⟩
    rw [Client.catchUp_append, hk, Option.bind_some, hleaves.heap]
    exact Client.catchUp_quiet hquiet
  | @deliver w k k' up down q hq =>
    refine ⟨hreach, hc, a, ha, ?_⟩
    have hk : (k.chatRX q).bind (·.catchUp down) = some ⟨u, (w.server.heap a).roomID⟩ := hk
    rwa [hq, Option.bind_some] at hk

/-- The sessions of others stay linked to their users as well. -/
theorem Joint.Step.linked (hj : j.Agrees sha256 c u)
    (hl : j.world.server.Linked j.world.conns)
    (h : Joint.Step sha256 rule World.ActsOwn c j j') :
    j'.world.server.Linked j'.world.conns := by
  have hi := hj.reachable.housed
  cases h with
  | send | deliver => exact hl
  | serve hopt hs =>
    refine hs.linked hi hl fun fd p' env' name he _ hexit => ?_
    cases he
    exact absurd hexit hopt
  | other _ hown hs => exact hs.linked hi hl hown.endsOwn

/-- Only LOGSUC and JOINSUC change what a client knows. -/
theorem Client.catchUp_eq {k k' : Client} {l : List Packet}
    (h : ∀ q ∈ l, q.options ≠ LOGSUC ∧ q.options ≠ JOINSUC) (hk : k.catchUp l = some k') :
    k' = k := by
  induction l generalizing k with
  | nil => exact (Option.some.inj hk).symm
  | cons q l ih =>
    obtain ⟨hlogsuc, hjoinsuc⟩ := h q List.mem_cons_self
    have hk : (k.chatRX q).bind (·.catchUp l) = some k' := hk
    obtain ⟨k₁, hone, hrest⟩ := Option.bind_eq_some_iff.mp hk
    have hk₁ : k₁ = k := by
      rw [chatRX, serverResponse, if_neg hlogsuc, if_neg hjoinsuc] at hone
      split at hone
      · exact (Option.some.inj hone).symm
      split at hone
      · split at hone
        · cases hone
        · exact (Option.some.inj hone).symm
      · cases hone
    subst hk₁
    exact ih (fun q hq => h q (List.mem_cons_of_mem _ hq)) hrest

/-- **Client and server agree on the current room.**  Whatever the client sends
under its own name and however the server, the other clients and the delivery of
replies interleave, the replies in flight lead the client to the room that the
server has for the user, and where none of them sets a room it is there. -/
theorem current_room (hstart : Joint.Start sha256 c u j₀) (hown : OwnReachable sha256 j₀.world)
    (hrun : Relation.ReflTransGen
      (Joint.Step sha256 (fun _ p => p.username = u) World.ActsOwn c) j₀ j) :
    ∃ a, LinkedList.get_user j.world.server.heap j.world.server.active_users_list u = some a ∧
      ((j.client.catchUp j.down).map Client.currentRoom = some (j.world.server.heap a).roomID) ∧
      ((∀ q ∈ j.down, q.options ≠ LOGSUC ∧ q.options ≠ JOINSUC) →
        j.client.currentRoom = (j.world.server.heap a).roomID) := by
  have hj : j.Agrees sha256 c u ∧ j.world.server.Linked j.world.conns ∧
      ∀ p ∈ j.up, p.username = u := by
    induction hrun with
    | refl =>
      refine ⟨hstart.agrees, hown.linked, fun p hp => ?_⟩
      rw [hstart.up] at hp
      exact absurd hp List.not_mem_nil
    | tail _ h ih =>
      obtain ⟨hj, hl, hup⟩ := ih
      refine ⟨hj.step h (fun e he hact => ?_) fun p hp _ => ?_, h.linked hj hl, ?_⟩
      · exact hact.spares hj.reachable.housed hl hj.session he
      · exact .inl (hup p (List.mem_of_mem_head? hp))
      cases h with
      | send hp => exact List.forall_mem_append.mpr ⟨hup, List.forall_mem_singleton.mpr hp⟩
      | serve => exact fun p hp => hup p (List.mem_cons_of_mem _ hp)
      | other => exact hup
      | deliver => exact hup
  obtain ⟨a, ha, hk⟩ := hj.1.room
  refine ⟨a, ha, by rw [hk, Option.map_some], fun h => ?_⟩
  rw [← Client.catchUp_eq h hk]

end Steps

/-- Alice's request for a room. -/
def Sample.request : Packet := ⟨0, str "den 1000", str "alice", str "alice", JOIN⟩

/-- Alice enters, and then asks for the room. -/
def Sample.alone : Run Sample.sha256 :=
  Sample.run (Sample.enter 4 "alice" ++ [Sample.packet 4 JOIN "alice" "den 1000"]) (by decide)

theorem Sample.alone_start : Joint.Start Sample.sha256 4 (str "alice")
    ⟨Sample.alone.state 2, ⟨[], 0⟩, [], sentTo 4 (Sample.alone.out 1)⟩ where
  login := ⟨Sample.alone.state 1, _, _, _, Sample.reachable [.accept 4], by decide,
    Sample.alone.next 1 (by decide), rfl⟩
  session := by decide
  up := rfl
  int := by decide

/-- Her client has heard of nothing yet. -/
theorem current_room_alice : ∃ a,
    LinkedList.get_user (Sample.alone.state 3).server.heap
      (Sample.alone.state 3).server.active_users_list (str "alice") = some a ∧
    (Client.catchUp ⟨[], 0⟩ (sentTo 4 (Sample.alone.out 1) ++ sentTo 4 (Sample.alone.out 2))).map
      Client.currentRoom = some ((Sample.alone.state 3).server.heap a).roomID := by
  have hsend : Joint.Step Sample.sha256 (fun _ p => p.username = str "alice") World.ActsOwn 4
      ⟨Sample.alone.state 2, ⟨[], 0⟩, [], sentTo 4 (Sample.alone.out 1)⟩
      ⟨Sample.alone.state 2, ⟨[], 0⟩, [Sample.request], sentTo 4 (Sample.alone.out 1)⟩ := .send rfl
  have hserve : Joint.Step Sample.sha256 (fun _ p => p.username = str "alice") World.ActsOwn 4
      ⟨Sample.alone.state 2, ⟨[], 0⟩, [Sample.request], sentTo 4 (Sample.alone.out 1)⟩
      ⟨Sample.alone.state 3, ⟨[], 0⟩, [],
        sentTo 4 (Sample.alone.out 1) ++ sentTo 4 (Sample.alone.out 2)⟩ :=
    .serve (by decide) (Sample.alone.next 2 (by decide)) (by decide)
  obtain ⟨a, ha, hroom, -⟩ := current_room Sample.alone_start
    (Sample.ownReachable (Sample.enter 4 "alice") (by decide))
    ((Relation.ReflTransGen.single hsend).tail hserve)
  exact ⟨a, ha, hroom⟩

end TBDChat
