import TBDChat.KnownRooms
import TBDChat.CutOff
import TBDChat.NullDereference

/-!
# What a client can kill the server with

A handler that has no result is the end of the server, and of everybody's session.  The shipped
client checks what it sends: most requests cannot do harm, because they have few words, because
the room that they name is one the server told the client of, or because the user is in a room.
Four are left, and they are all that can go wrong between the server and its own clients,
whatever the users do and however the network delays it.
-/

namespace TBDChat
open Atomic

set_option maxRecDepth 8000

/-- A number of a room, as long as rooms are numbered as they come. -/
def Server.HasRoom (s : Server) (ID : Int) : Prop := DEFAULT_ROOM ≤ ID ∧ ID < s.numRooms

/-! ## How requests end -/

section Ends
variable {sha256 : Str → Digest} {env : Env} {p : Packet} {fd : Int} {s : Server} {w : World}
  {u : Str}

theorem Server.HasRoom.find {ID : Int} (ho : s.Orderly) (h : s.HasRoom ID) :
    ∃ r, LinkedList.Rget_roomFID s.room_list ID = some r := by
  have hcounted := ho.counted
  obtain ⟨hlow, hhigh⟩ := h
  obtain ⟨r, hr⟩ := Int.eq_ofNat_of_zero_le (Int.sub_nonneg_of_le hlow)
  have hlt : (r : Int) < s.room_list.length := by omega
  exact ⟨r, ho.Rget_roomFID_iff.mpr ⟨Int.ofNat_lt.mp hlt, Server.roomOf_eq_some.mpr (by omega)⟩⟩

theorem Server.Orderly.hasRoom (ho : s.Orderly) {r : RoomRef} (hr : r < s.room_list.length) :
    s.HasRoom (s.room r).ID := by
  have hcounted := ho.counted
  have hnumber := ho.numbered r hr
  have hlt : (r : Int) < s.room_list.length := Int.ofNat_lt.mpr hr
  constructor
  · omega
  · omega

/-- What the handlers take for granted of the number of words. -/
structure Packet.Brief (p : Packet) : Prop where
  words : p.options ∈ [REGISTER, SETPASS, INVITE, LEAVE] → (words p.buf).length ≤ 15
  join : p.options = JOIN → (TBDChat.words p.buf).length = 2

/-- The rooms that are named are there. -/
structure Packet.Placed (s : Server) (p : Packet) : Prop where
  chat : DEFAULT_ROOM ≤ p.options → s.HasRoom p.options
  join : p.options = JOIN → s.HasRoom (atoi (arg (words p.buf) 1))

end Ends

/-! ## What the client makes -/

/-- What `args[k]` is, where something was stored, is a word of the text. -/
theorem mem_words_of_stored {i k : Int} {buf word : Str}
    (h : (storedAt (fillArgsFrom i buf) k).join = some word) : word ∈ words buf := by
  rw [storedAt, Option.join_eq_some_iff, Option.map_eq_some_iff] at h
  obtain ⟨⟨v, j⟩, hfind, hv⟩ := h
  obtain rfl : v = some word := hv
  have hmem := List.mem_reverse.mp (List.mem_of_find?_eq_some hfind)
  rw [words_eq]
  cases i with
  | negSucc n =>
    obtain ⟨w, rest, hw, hsep⟩ := strsep_fields delim buf
    have hfirst : (strsep delim (some buf)).1 = some w := by
      obtain ⟨h, -⟩ | ⟨t, h, -⟩ := hsep
      · rw [h]
      · rw [h]
    have hone := congrArg Prod.fst (List.mem_singleton.mp hmem)
    rw [hfirst] at hone
    obtain rfl := Option.some.inj hone
    rw [hw]
    exact List.mem_cons_self
  | ofNat n =>
    have hmem : (some word, j) ∈ fillArgsFrom (n : Int) buf := hmem
    rw [fillArgsFrom_ofNat] at hmem
    obtain ⟨⟨v, m⟩, hstore, heq⟩ := List.mem_map.mp hmem
    obtain rfl : v = some word := congrArg Prod.fst heq
    have hlow : 127 - n + 1 ≤ 128 := by omega
    have hin := List.take_subset_take_left _ hlow (List.fst_mem_of_mem_zipIdx hstore)
    rw [List.take_append] at hin
    rcases List.mem_append.mp hin with hin | hin
    · rw [← List.map_take] at hin
      obtain ⟨w, hw, heq⟩ := List.mem_map.mp hin
      exact Option.some.inj heq ▸ hw
    · cases List.mem_singleton.mp (List.mem_of_mem_take hin)

namespace ChatClient
variable {env : ClientEnv} {k k' : ChatClient} {line command : Str} {p q : Packet} {flag : Bool}
  {out : List Output}

/-- A packet that the client has made. -/
structure Composed (k : ChatClient) (p : Packet) : Prop where
  brief : p.Brief
  chat : DEFAULT_ROOM ≤ p.options → p.options = k.currentRoom
  join : p.options = JOIN → arg (words p.buf) 1 = dec k.currentRoom

theorem Composed.of_same (h : k.Composed p) (hopt : q.options = p.options) (hbuf : q.buf = p.buf) :
    k.Composed q := by
  obtain ⟨⟨hwords, htwo⟩, hchat, hjoin⟩ := h
  rw [← hopt, ← hbuf] at hwords htwo hjoin
  rw [← hopt] at hchat
  exact ⟨⟨hwords, htwo⟩, hchat, hjoin⟩

/-- Of some requests nothing is asked. -/
theorem composed_of_options {n : Int} (hopt : p.options = n)
    (hn : n ∉ [REGISTER, SETPASS, INVITE, LEAVE, JOIN]) (hlow : n < DEFAULT_ROOM) :
    k.Composed p := by
  have hjoin : n ≠ JOIN := by
    intro h
    rw [h] at hn
    exact hn (by decide)
  subst hopt
  refine ⟨⟨fun h => ?_, fun h => absurd h hjoin⟩, fun h => ?_, fun h => absurd h hjoin⟩
  · exact absurd (List.mem_append_left [JOIN] h) hn
  · exact absurd h (Int.not_le.mpr hlow)

/-- Of others the text is short. -/
theorem composed_of_words {n : Int} (hopt : p.options = n) (hn : n ≠ JOIN)
    (hlow : n < DEFAULT_ROOM) (hwords : (words p.buf).length ≤ 15) : k.Composed p := by
  subst hopt
  exact ⟨⟨fun _ => hwords, fun h => absurd h hn⟩, fun h => absurd h (Int.not_le.mpr hlow),
    fun h => absurd h hn⟩

/-- The text of an INVITE or a JOIN is a word and the number of the room. -/
theorem appendRoom_words {n i room : Int} {r : Packet × Int} (h : appendRoom n i room p = some r)
    (hr : r.2 ≠ 0) : ∃ word, words r.1.buf = [word, dec room] := by
  unfold appendRoom at h
  dsimp only at h
  split at h
  · obtain ⟨word, hstored, rfl⟩ := Option.map_eq_some_iff.mp h
    have hfree := (mem_words (mem_words_of_stored hstored)).2
    exact ⟨word, words_joined fun c hc => (hfree c hc).2⟩
  · cases h
    exact absurd rfl hr

theorem serverRegistration_words (h : serverRegistration p = some (q, true, out)) :
    q.options = REGISTER ∧ (words q.buf).length = 4 := by
  unfold serverRegistration at h
  dsimp only at h
  split at h
  · cases h
  split at h
  · rename_i hfour
    split at h
    · split at h
      · cases h
      · cases h
        exact ⟨rfl, hfour⟩
    · cases h
  · cases h

theorem setPassword_words (h : setPassword p = some (q, true, out)) :
    q.options = SETPASS ∧ (words q.buf).length = 4 := by
  unfold setPassword at h
  dsimp only at h
  split at h
  · cases h
  split at h
  · rename_i hfour
    split at h
    · cases h
      exact ⟨rfl, hfour⟩
    · cases h
  · cases h

theorem appendNumber_options (h : k.appendNumber p = some q) : q.options = p.options := by
  unfold appendNumber at h
  dsimp only at h
  split at h
  · cases h
  · cases h
    rfl

/-- **A command makes a packet that the server has room for**, of the room where the client is. -/
theorem Commanded.composed (h : Commanded env k p command q true k' out) : k.Composed q := by
  cases h with
  | exit _ hcall =>
    exact composed_of_options (n := EXIT) (appendNumber_options hcall) (by decide) (by decide)
  | register hcall =>
    obtain ⟨hopt, hfour⟩ := serverRegistration_words hcall
    exact composed_of_words hopt (by decide) (by decide) (by omega)
  | login hcall hr =>
    obtain ⟨rfl, hone⟩ := orUsage_flagged hr
    exact composed_of_options (serverLogin_options hcall hone) (by decide) (by decide)
  | setname hcall =>
    unfold setName at hcall
    split at hcall
    · cases hcall
      exact composed_of_options (n := SETNAME) rfl (by decide) (by decide)
    · cases hcall
  | setpass hcall =>
    obtain ⟨hopt, hfour⟩ := setPassword_words hcall
    exact composed_of_words hopt (by decide) (by decide) (by omega)
  | motd => exact composed_of_options (n := GETMOTD) rfl (by decide) (by decide)
  | invite hcall hr =>
    obtain ⟨rfl, hone⟩ := orUsage_flagged hr
    obtain ⟨word, hwords⟩ := appendRoom_words hcall hone
    refine composed_of_words (appendRoom_options hcall hone) (by decide) (by decide) ?_
    rw [hwords]
    exact (by decide : 2 ≤ 15)
  | join hcall hr =>
    obtain ⟨rfl, hone⟩ := orUsage_flagged hr
    obtain ⟨word, hwords⟩ := appendRoom_words hcall hone
    have hopt := appendRoom_options hcall hone
    refine ⟨⟨fun _ => ?_, fun _ => ?_⟩, fun hroom => ?_, fun _ => ?_⟩
    · rw [hwords]
      exact (by decide : 2 ≤ 15)
    · rw [hwords]
      rfl
    · rw [hopt] at hroom
      exact absurd hroom (by decide)
    · rw [hwords]
      rfl
  | leave =>
    refine composed_of_words (n := LEAVE) rfl (by decide) (by decide) ?_
    have hwords : words (str "/leave" ++ str " " ++ dec k.currentRoom) =
        [str "/leave", dec k.currentRoom] := words_joined (by decide)
    show (words (str "/leave" ++ str " " ++ dec k.currentRoom)).length ≤ 15
    rw [hwords]
    exact (by decide : 2 ≤ 15)
  | who hcall =>
    unfold ChatClient.who at hcall
    split at hcall
    · cases hcall
      exact composed_of_options (n := GETALLUSERS) rfl (by decide) (by decide)
    split at hcall
    · cases hcall
      exact composed_of_options (n := GETUSER) rfl (by decide) (by decide)
    · exact composed_of_options (n := GETUSERS) (appendNumber_options hcall) (by decide) (by decide)
  | list => exact composed_of_options (n := GETROOMS) rfl (by decide) (by decide)

/-- What a round sends is made by the client. -/
theorem round_composed (h : k.round env line = some (q, k', out)) :
    ∀ p ∈ sentPackets out, k.Composed p := by
  have hnone : ∀ p ∈ ([] : List Packet), k.Composed p := fun p hp => absurd hp List.not_mem_nil
  by_cases hline : line = []
  · subst hline
    cases h
    exact hnone
  obtain ⟨p, flag, out', hread, hsend⟩ := round_eq_some h hline
  unfold readLine at hread
  by_cases hslash : Config.startsWith (str "/") line = true
  · rw [if_pos hslash] at hread
    cases hcommand : Config.userCommand line with
    | none =>
      rw [userCommand, hcommand] at hread
      cases hread
      obtain ⟨-, -, rfl⟩ | ⟨hf, -⟩ := hsend
      · exact hnone
      · cases hf
    | some command =>
      have hcases := userCommand_cases hread hcommand
      obtain ⟨rfl, -, rfl⟩ | ⟨rfl, -, rfl⟩ := hsend
      · rw [hcases.silent]
        exact hnone
      · obtain ⟨rfl, hpos, -, -⟩ := hcases.names
        rw [sentPackets_append, hcases.silent, List.nil_append, sendLine]
        split
        · rw [(transmit_request hpos).2]
          exact List.forall_mem_singleton.mpr (hcases.composed.of_same rfl rfl)
        · exact hnone
  · rw [if_neg hslash] at hread
    obtain ⟨out₁, hlog, heq⟩ := Option.map_eq_some_iff.mp hread
    cases heq
    obtain ⟨hf, -⟩ | ⟨-, -, rfl⟩ := hsend
    · cases hf
    rw [sentPackets_append, log_message_silent hlog, List.nil_append, sendLine]
    split
    · rw [transmit_chat rfl]
      split
      · rename_i hroom
        have hother {n : Int} (hn : n < DEFAULT_ROOM) : k.currentRoom ≠ n := by omega
        have hbrief : k.currentRoom ∉ [REGISTER, SETPASS, INVITE, LEAVE] := by
          simp only [List.mem_cons, List.not_mem_nil, or_false, not_or]
          exact ⟨hother (by decide), hother (by decide), hother (by decide), hother (by decide)⟩
        refine List.forall_mem_singleton.mpr ⟨⟨fun h => absurd h hbrief, fun h => ?_⟩,
          fun _ => rfl, fun h => ?_⟩
        · exact absurd h (hother (by decide))
        · exact absurd h (hother (by decide))
      · exact hnone
    · exact hnone

theorem sigintHandler_sent (k : ChatClient) (env : ClientEnv) :
    sentPackets (k.sigintHandler env) = [] ∨
      ∃ p, sentPackets (k.sigintHandler env) = [p] ∧ p.options = EXIT := by
  by_cases hserver : k.serverfd = 0
  · exact .inl (by simp [sigintHandler, hserver, sentPackets])
  · exact .inr ⟨⟨env.now, str "/exit", k.username, k.realname, EXIT⟩,
      by simp [sigintHandler, hserver, sentPackets], rfl⟩

theorem sigintHandler_composed : ∀ p ∈ sentPackets (k.sigintHandler env), k.Composed p := by
  intro p hp
  obtain hnone | ⟨q, hone, hopt⟩ := sigintHandler_sent k env
  · rw [hnone] at hp
    exact absurd hp List.not_mem_nil
  · rw [hone] at hp
    obtain rfl := List.mem_singleton.mp hp
    exact composed_of_options hopt (by decide) (by decide)

/-- Where a client takes its user to be. -/
theorem chatRX_room {go : Bool} (h : k.chatRX env q = some (go, k', out)) :
    q.options = LOGSUC ∧ k'.currentRoom = DEFAULT_ROOM ∨
      q.options = JOINSUC ∧ k.toClient.newRoom q = some k'.toClient ∨
      q.options ≠ LOGSUC ∧ k'.currentRoom = k.currentRoom := by
  unfold chatRX at h
  dsimp only at h
  split at h
  · rename_i hroom
    obtain ⟨line, -, heq⟩ := Option.bind_eq_some_iff.mp h
    cases heq
    exact .inr (.inr ⟨fun hopt => absurd (hopt ▸ hroom) (by decide), rfl⟩)
  split at h
  · obtain ⟨⟨k₁, out₁⟩, hresponse, h⟩ := Option.bind_eq_some_iff.mp h
    obtain ⟨line, -, heq⟩ := Option.bind_eq_some_iff.mp h
    cases heq
    unfold serverResponse at hresponse
    by_cases hword : q.options = LOGSUC
    · have herr : ¬ LOGSUC = SERV_ERR := by decide
      simp only [hword, herr, if_true, if_false, Option.some.injEq] at hresponse
      exact .inl ⟨hword, by rw [← congrArg Prod.fst hresponse]; rfl⟩
    rw [if_neg hword] at hresponse
    by_cases hjoin : q.options = JOINSUC
    · have hother : ∀ n ∈ [SERV_ERR, GETUSERS, GETALLUSERS, GETUSER, PASSSUC, NAMESUC],
          q.options ≠ n := by
        rw [hjoin]
        decide
      simp only [List.mem_cons, List.not_mem_nil, or_false, forall_eq_or_imp, forall_eq] at hother
      obtain ⟨herr, husers, hall, huser, hpass, hname⟩ := hother
      rw [if_neg herr, if_neg (by simp [husers, hall, huser]), if_neg hpass, if_neg hname,
        if_pos hjoin] at hresponse
      exact .inr (.inl ⟨hjoin, newRoom_client hresponse⟩)
    · rw [if_neg hjoin] at hresponse
      refine .inr (.inr ⟨hword, ?_⟩)
      repeat' split at hresponse
      all_goals
        cases hresponse
        rfl
  · rename_i hlow
    cases h
    exact .inr (.inr ⟨fun hopt => hlow (by rw [hopt]; decide), rfl⟩)

end ChatClient

/-! ## What the server tells of its rooms -/

section Told
variable {sha256 : Str → Digest} {env : Env} {p q : Packet} {fd d : Int} {s s' : Server}
  {session : Option Str} {next : Next} {es : List Effect} {who : Str}

/-- A JOINSUC leads a client to a room that there is. -/
def Packet.Leads (s : Server) (q : Packet) : Prop :=
  q.options = JOINSUC → ∀ k c : Client, k.newRoom q = some c → s.HasRoom c.currentRoom

theorem Packet.Quiet.leads (hq : q.Quiet) : q.Leads s := by
  intro hopt
  exact absurd (by rw [hopt]; decide) hq.2

theorem Server.HasRoom.mono {ID : Int} (h : s.HasRoom ID) (hle : s.numRooms ≤ s'.numRooms) :
    s'.HasRoom ID := ⟨h.1, Int.lt_of_lt_of_le h.2 hle⟩

theorem Packet.Leads.mono (h : q.Leads s) (hle : s.numRooms ≤ s'.numRooms) : q.Leads s' :=
  fun hopt k c hc => (h hopt k c hc).mono hle

theorem Packet.Placed.mono (h : p.Placed s) (hle : s.numRooms ≤ s'.numRooms) : p.Placed s' :=
  ⟨fun hopt => (h.chat hopt).mono hle, fun hopt => (h.join hopt).mono hle⟩

theorem Change.numRooms_le (h : Change who s s') : s.numRooms ≤ s'.numRooms := by
  rcases h.rooms with ⟨fd, name, -, rfl⟩ | hrooms
  · unfold Server.openRoom
    split
    · show s.numRooms ≤ s.numRooms + 1
      omega
    · exact Int.le_refl _
  · rw [hrooms.numRooms]

/-- Rooms are never taken away. -/
theorem Changes.numRooms_le (h : Changes who s s') : s.numRooms ≤ s'.numRooms := by
  induction h with
  | refl => exact Int.le_refl _
  | tail _ hc ih => exact Int.le_trans ih hc.numRooms_le

/-- A JOINSUC tells of a room that there is. -/
theorem leads_of_session {name : Str} (hi : s.Housed) (hp : p.Wf) (ho' : s'.Orderly)
    (hrun : ops.run (client_receive sha256 env (some name) p fd) s = .ok (next, s', es))
    (hint : s'.numRooms < 2 ^ 31) (hq : .send d q ∈ es) : q.Leads s' := by
  intro hopt k c hc
  obtain ⟨r, htells⟩ := joinsuc_tells hi hp hrun hint hq hopt
  rw [Client.newRoom_eq htells.splits, htells.decoded] at hc
  cases hc
  exact ho'.hasRoom htells.room

/-- Whoever is let in is not told of another room. -/
theorem Login.not_joinsuc {user pass : Str}
    (h : Login sha256 env user pass fd s true s' es) (hq : .send d q ∈ es) :
    q.options ≠ JOINSUC := by
  cases h with
  | signedIn =>
    rcases List.mem_cons.mp hq with hq | hq
    · cases hq
      exact (by decide : LOGSUC ≠ JOINSUC)
    · have hcode : 0 < MOTD ∧ MOTD ∉ [LOGSUC, JOINSUC, EXIT] := by decide
      exact TBDChat.not_joinsuc hq (allQuiet_append.mpr ⟨allQuiet_relay (Int.le_refl 1000),
        allQuiet_cons.mpr ⟨Effect.quiet_of_options hcode rfl, allQuiet_nil⟩⟩)

theorem leads_of_guest
    (hrun : ops.run (client_receive sha256 env none p fd) s = .ok (.receive session, s', es))
    (hq : .send d q ∈ es) : q.Leads s' := by
  cases session with
  | none => exact Packet.Quiet.leads (guest_quiet hrun _ hq)
  | some u =>
    have hreceived := received hrun
    generalize hnext : Next.receive (some u) = next at hreceived
    intro hopt
    cases hreceived with
    | refused | hungUp => cases hnext
    | @login b _ _ _ _ hlogin =>
      cases b with
      | false => cases hnext
      | true => exact absurd hopt (hlogin.not_joinsuc hq)
    | @register b _ _ _ hlogin =>
      cases b with
      | false => cases hnext
      | true =>
        rcases List.mem_append.mp hq with hq | hq
        · exact absurd hopt (not_joinsuc hq allQuiet_fileEffects)
        · exact absurd hopt (hlogin.not_joinsuc hq)

end Told

/-! ## Clients on firm ground -/

/-- What a client has made and what it is told is of rooms that there are. -/
structure Terminal.Grounded (s : Server) (session : Option Str) (t : Terminal) : Prop where
  brief : ∀ p ∈ t.up, p.Brief
  leads : ∀ q ∈ t.down, q.Leads s
  placed : ∀ u, session = some u → ∀ p ∈ t.up, p.Placed s
  /-- A client that knows of its session has a number of a room. -/
  current : ∀ u, session = some u → loginReplies t.down = [] → s.HasRoom t.client.currentRoom

namespace Terminal
variable {sha256 : Str → Digest} {s s' : Server} {session session' : Option Str} {t t' : Terminal}
  {qs : List Packet}

theorem grounded_fresh (k : ChatClient) : (fresh k).Grounded s none where
  brief := fun _ hp => absurd hp List.not_mem_nil
  leads := fun _ hq => absurd hq List.not_mem_nil
  placed := fun _ hu => (Option.some_ne_none _ hu.symm).elim
  current := fun _ hu => (Option.some_ne_none _ hu.symm).elim

/-- Packets that do not let the client in. -/
theorem Grounded.deliver (hg : t.Grounded s session) (hle : s.numRooms ≤ s'.numRooms)
    (hqs : ∀ q ∈ qs, q.Leads s') (hword : loginReplies qs = []) :
    (t.deliver qs).Grounded s' session := by
  refine ⟨hg.brief, ?_, fun u hu p hp => (hg.placed u hu p hp).mono hle, fun u hu hnone => ?_⟩
  · exact List.forall_mem_append.mpr ⟨fun q hq => (hg.leads q hq).mono hle, hqs⟩
  · rw [Terminal.deliver, loginReplies_append, hword, List.append_nil] at hnone
    exact (hg.current u hu hnone).mono hle

/-- One more packet that the client has made. -/
theorem Grounded.send (hg : t.Grounded s session) (hpatient : t.Patient)
    (hint : s.numRooms < 2 ^ 31) (hclient : t'.client.toClient = t.client.toClient)
    (hdown : t'.down = t.down) {ps : List Packet} (hup : t'.up = t.up ++ ps)
    (hps : ∀ p ∈ ps, t.client.Composed p) : t'.Grounded s session := by
  have hroom : t'.client.currentRoom = t.client.currentRoom := congrArg Client.currentRoom hclient
  refine ⟨?_, hdown ▸ hg.leads, fun u hu => ?_, fun u hu hnone => ?_⟩
  · rw [hup]
    exact List.forall_mem_append.mpr ⟨hg.brief, fun p hp => (hps p hp).brief⟩
  · have hcurrent := hg.current u hu hpatient.2
    rw [hup]
    refine List.forall_mem_append.mpr ⟨hg.placed u hu, fun p hp => ⟨fun hopt => ?_, fun hopt => ?_⟩⟩
    · rw [(hps p hp).chat hopt]
      exact hcurrent
    · obtain ⟨hlow, hhigh⟩ := hcurrent
      have hlobby : DEFAULT_ROOM = 1000 := rfl
      rw [(hps p hp).join hopt, atoi_dec_int (by omega) (by omega)]
      exact ⟨hlow, hhigh⟩
  · rw [hdown] at hnone
    rw [hroom]
    exact hg.current u hu hnone

theorem Grounded.receive {env : ClientEnv} {q : Packet} {k' : ChatClient} {out : List Output}
    {go : Bool} (hg : t.Grounded s session) (ho : s.Orderly) (hdown : t.down = q :: qs)
    (h : t.client.chatRX env q = some (go, k', out)) :
    ({ t with client := k', down := qs, seen := t.seen ++ [q] } : Terminal).Grounded s session := by
  have hleads := hg.leads
  have hcurrent := hg.current
  rw [hdown] at hleads hcurrent
  refine ⟨hg.brief, fun q' hq' => hleads q' (List.mem_cons_of_mem _ hq'), hg.placed,
    fun u hu hnone => ?_⟩
  have hnone : loginReplies qs = [] := hnone
  show s.HasRoom k'.currentRoom
  obtain ⟨-, hlobby⟩ | ⟨hopt, hnew⟩ | ⟨hopt, hsame⟩ := ChatClient.chatRX_room h
  · have hfind := ho.housed.table.Rget_lobby
    have hID : (s.room 0).ID = DEFAULT_ROOM := Server.room_of_Rget_roomFID hfind
    rw [hlobby, ← hID]
    exact ho.hasRoom (Rget_roomFID_lt hfind)
  · exact hleads q List.mem_cons_self hopt _ _ hnew
  · have hcons : loginReplies (q :: qs) = loginReplies qs :=
      List.filter_cons_of_neg (by simpa using hopt)
    rw [hsame]
    exact hcurrent u hu (hcons.trans hnone)

/-- The client's own packet is served. -/
theorem Grounded.serve {env : Env} {p : Packet} {rest : List Packet} {fd : Int} {next : Next}
    {es : List Effect} (hg : t.Grounded s session) (ha : t.Attended session)
    (hi : s.Housed) (ho' : s'.Orderly) (hup : t.up = p :: rest) (hp : p.Wf)
    (hrun : ops.run (client_receive sha256 env session p fd) s = .ok (next, s', es))
    (hint : s'.numRooms < 2 ^ 31) (hnext : next = .receive session') :
    (({ t with up := rest } : Terminal).deliver (sentTo fd es)).Grounded s' session' := by
  subst hnext
  have hreceived := received hrun
  have hle := (hreceived.changes hp).numRooms_le
  have hbrief := hg.brief
  have hplaced := hg.placed
  have hwaits := ha.waits
  rw [hup] at hbrief hplaced hwaits
  have hrest : ({ t with up := rest } : Terminal).Grounded s session :=
    ⟨fun p' hp' => hbrief p' (List.mem_cons_of_mem _ hp'), hg.leads,
      fun u hu p' hp' => hplaced u hu p' (List.mem_cons_of_mem _ hp'), hg.current⟩
  cases session with
  | some u =>
    obtain ⟨rfl, -⟩ := hreceived.goes_on
    refine hrest.deliver hle (fun q hq => ?_) (hreceived.wordless hi.table).loginReplies
    exact leads_of_session hi hp ho' hrun hint (mem_sentTo.mp hq)
  | none =>
    have hleads : ∀ q ∈ sentTo fd es, q.Leads s' := fun q hq =>
      leads_of_guest hrun (mem_sentTo.mp hq)
    obtain ⟨hin, hopt, q, hword, -⟩ | ⟨hout, hword⟩ := hreceived.word
    · -- nothing was sent after the request, and the client is yet to hear of its session
      have hnil : rest = [] := by
        cases rest with
        | nil => rfl
        | cons p₁ rest =>
          obtain ⟨hreg, hlogin⟩ := hwaits p List.mem_cons_self
          exact (hopt.elim hreg hlogin).elim
      subst hnil
      refine ⟨hrest.brief, ?_, fun u hu p' hp' => absurd hp' List.not_mem_nil, fun u hu hnone => ?_⟩
      · exact List.forall_mem_append.mpr ⟨fun q hq => (hg.leads q hq).mono hle, hleads⟩
      · rw [Terminal.deliver, loginReplies_append, hword] at hnone
        exact absurd (List.append_eq_nil_iff.mp hnone).2 (List.cons_ne_nil q [])
    · obtain rfl : session' = none := by
        obtain hl | hl := hout
        · exact Next.receive.inj hl
        · cases hl
      exact hrest.deliver hle hleads hword

end Terminal

namespace Network
variable {sha256 : Str → Digest} {n n' : Network} {life : Life sha256}

/-- No number of a room has overflowed, and no client has a wrong one. -/
structure Grounded (n : Network) : Prop where
  numRooms : n.world.server.numRooms < 2 ^ 31
  each : n.Each Terminal.Grounded

theorem grounded_boot (file : Option (List UInt8)) (fd : Int) (terminal : Int → Terminal) :
    Grounded ⟨World.boot file fd, terminal⟩ := by
  refine ⟨?_, fun d session hd => Conn.noConfusion hd⟩
  show (1001 : Int) < 2 ^ 31
  decide

theorem Grounded.step (hg : n.Grounded) (hn : n.Sound life) {life' : Life sha256}
    (hn' : n'.Sound life') {act : Act} (hs : Step sha256 n act n')
    (hact : n.Disciplined sha256 n' act) : n'.Grounded := by
  obtain ⟨hint, heach⟩ := hg
  have hhoused := hn.settled.memory.housed
  cases hs with
  | connect k hfd hs =>
    refine ⟨?_, heach.connect hs (Terminal.grounded_fresh k)⟩
    cases hs with
    | accept => exact hint
  | type ht hrunning h =>
    subst ht
    exact ⟨hint, heach.update fun session _ hg => hg.send hact.1 hint
      (ChatClient.round_signed h).1 rfl rfl (ChatClient.round_composed h)⟩
  | interrupt ht hrunning =>
    subst ht
    exact ⟨hint, heach.update fun session _ hg => hg.send hact hint rfl rfl rfl
      ChatClient.sigintHandler_composed⟩
  | receive ht hdown h =>
    subst ht
    exact ⟨hint, heach.update fun session _ hg => hg.receive hn.settled.memory hdown h⟩
  | @serve fd p rest env w' es hup hs =>
    obtain ⟨-, hint'⟩ := hact
    have ho' : w'.server.Orderly := hn'.settled.memory
    refine ⟨hint', heach.serve hs (fun session next session' hfd hp hrun hnext => ?_)
      fun d session hne hd hg => ?_⟩
    · exact (heach fd session hfd).serve (hn.attended fd session hfd) hhoused ho' hup hp hrun hint'
        (Next.of_conn hnext)
    · have hquiet : ∀ q ∈ sentTo d es, q.Quiet := quiet_elsewhere hhoused.table hs hne
      refine hg.deliver ?_ (fun q hq => (hquiet q hq).leads) ?_
      · cases hs with
        | packet _ hp hrun => exact ((received hrun).changes hp).numRooms_le
      · cases hs with
        | packet _ _ hrun => exact loginReplies_elsewhere hhoused.table hne hrun
  | restart fd => exact grounded_boot _ fd _

end Network

/-! ## A lookup of sixteen words -/

namespace Sample

def lookup : Packet :=
  ⟨0, str "/who a b c d e f g h i j k l m n o", str "alice", str "alice", GETUSER⟩

end Sample

end TBDChat
