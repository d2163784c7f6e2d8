import TBDChat.Network
import TBDChat.CurrentRoom

/-!
# What the clients know of their rooms

A client learns where its user is from what the server tells it, some time after the server has
moved the user.  What is under way to a client then leads it to the room that the server has for
its user, whoever else does what on the server in between, and a client with nothing of that kind
under way is right.  What its user types is for the room that the user is in.
-/

namespace TBDChat
open Atomic

set_option maxRecDepth 8000

/-! ## The packets that count -/

section Client
variable {sha256 : Str → Digest} {env : ClientEnv} {k k' : ChatClient} {q : Packet} {c : Client}
  {out : List Output} {go : Bool}

theorem ChatClient.newRoom_client (h : k.newRoom env q = some (k', out)) :
    k.toClient.newRoom q = some k'.toClient := by
  unfold newRoom at h
  unfold Client.newRoom
  dsimp only at h ⊢
  split at h
  · cases h
  · rename_i hargs
    rw [if_neg hargs]
    split at h
    · rename_i hne
      cases h
      rw [if_pos hne]
    · rename_i hsame
      cases h
      rw [if_neg hsame]

theorem ChatClient.serverResponse_client (h : k.serverResponse env q = some (k', out))
    (hc : k.toClient.serverResponse q = some c) : k'.toClient = c := by
  unfold serverResponse at h
  unfold Client.serverResponse at hc
  by_cases hword : q.options = LOGSUC
  · have herr : ¬ LOGSUC = SERV_ERR := by decide
    simp only [hword, herr, if_true, if_false, Option.some.injEq] at h hc
    rw [loggedIn] at h
    cases h
    exact hc
  by_cases hjoin : q.options = JOINSUC
  · have hlist : ∀ n ∈ [SERV_ERR, LOGSUC, GETUSERS, GETALLUSERS, GETUSER, PASSSUC, NAMESUC],
        JOINSUC ≠ n := by decide
    simp only [List.forall_mem_cons, List.not_mem_nil, false_imp_iff, implies_true] at hlist
    simp only [hjoin, hlist, if_true, if_false, or_self] at h hc
    exact Option.some.inj ((newRoom_client h).symm.trans hc)
  rw [if_neg hword, if_neg hjoin] at hc
  by_cases hexit : q.options = EXIT
  · rw [if_pos hexit] at hc
    cases hc
  rw [if_neg hexit] at hc
  rw [← Option.some.inj hc]
  rw [if_neg hword, if_neg hjoin, if_neg hexit] at h
  repeat' split at h
  all_goals cases h
  all_goals rfl

/-- `chatRX` does with the name and the room what it does in `Client`, as long as there is no end
to it. -/
theorem ChatClient.chatRX_client (h : k.chatRX env q = some (go, k', out))
    (hc : k.toClient.chatRX q = some c) : k'.toClient = c := by
  unfold chatRX at h
  unfold Client.chatRX at hc
  dsimp only at h
  split at h
  · rename_i hroom
    obtain ⟨line, -, heq⟩ := Option.bind_eq_some_iff.mp h
    cases heq
    rw [if_pos hroom] at hc
    exact Option.some.inj hc
  rename_i hroom
  rw [if_neg hroom] at hc
  split at h
  · rename_i hpos
    obtain ⟨⟨k₁, out₁⟩, hresponse, h⟩ := Option.bind_eq_some_iff.mp h
    obtain ⟨line, -, heq⟩ := Option.bind_eq_some_iff.mp h
    cases heq
    rw [if_pos hpos] at hc
    exact serverResponse_client hresponse hc
  · rename_i hneg
    rw [if_neg hneg] at hc
    cases hc

end Client
/-! ## Guests -/

section Guests
variable {sha256 : Str → Digest} {env : Env} {p : Packet} {fd : Int} {s s' : Server} {next : Next}
  {es : List Effect}

theorem login_quiet (h : ops.run (login sha256 env p fd) s = .ok (false, s', es)) :
    AllQuiet es := by
  rw [run_login] at h
  split at h
  · cases h
  split at h
  · cases h
    exact allQuiet_nil
  split at h
  · cases h
    exact allQuiet_error
  split at h
  · cases h
    exact allQuiet_error
  split at h
  · cases h
    exact allQuiet_error
  split at h
  · cases h
  · cases h

theorem register_quiet (h : ops.run (register_user sha256 env p fd) s = .ok (false, s', es)) :
    AllQuiet es := by
  rw [run_register_user] at h
  split at h
  · cases h
  split at h
  · cases h
    exact allQuiet_nil
  split at h
  · cases h
    exact allQuiet_nameReply
  split at h
  · cases h
    exact allQuiet_error
  split at h
  · cases h
    exact allQuiet_passwordReply
  obtain ⟨es', hlogin, rfl⟩ := Outcome.prepend_eq_ok h
  exact allQuiet_append.mpr ⟨allQuiet_fileEffects, login_quiet hlogin⟩

/-- Whoever is not let in is told nothing that counts. -/
theorem guest_quiet
    (h : ops.run (client_receive sha256 env none p fd) s = .ok (.receive none, s', es)) :
    AllQuiet es := by
  rw [client_receive] at h
  unfold receiveAnonymous at h
  rcases ops.run_ite_eq h with ⟨-, h⟩ | ⟨-, h⟩
  · obtain ⟨b, hreg, hb⟩ := ops.run_bind_pure_eq h
    cases b with
    | false => exact register_quiet hreg
    | true => cases hb
  rcases ops.run_ite_eq h with ⟨-, h⟩ | ⟨-, h⟩
  · obtain ⟨b, hlogin, hb⟩ := ops.run_bind_pure_eq h
    cases b with
    | false => exact login_quiet hlogin
    | true => cases hb
  rcases ops.run_ite_eq h with ⟨-, h⟩ | ⟨-, h⟩
  · cases h
  · cases h
    exact allQuiet_error

/-- A session goes on after every packet but EXIT. -/
theorem Received.goes_on {u : Str} {session : Option Str}
    (h : Received sha256 env p fd s (some u) (.receive session) s' es) :
    session = some u ∧ ¬ (p.options = EXIT ∨ p.options = 0) := by
  have hother {n : Int} (hopt : p.options = n) (hexit : n ≠ EXIT) (hzero : n ≠ 0) :
      ¬ (p.options = EXIT ∨ p.options = 0) := fun h => h.elim (hopt ▸ hexit) (hopt ▸ hzero)
  generalize hnext : Next.receive session = next at h
  cases h with
  | vanished | signedOut => cases hnext
  | answered hopt => exact ⟨Next.receive.inj hnext, hopt⟩
  | renamed hopt => exact ⟨Next.receive.inj hnext, hother hopt (by decide) (by decide)⟩
  | passwordSet h => exact ⟨Next.receive.inj hnext, hother h.options (by decide) (by decide)⟩
  | opened h | joined h => exact ⟨Next.receive.inj hnext, hother h.options (by decide) (by decide)⟩
  | left hopt => exact ⟨Next.receive.inj hnext, hother hopt (by decide) (by decide)⟩
  | chat hopt =>
    refine ⟨Next.receive.inj hnext, ?_⟩
    have hexit : EXIT = 5 := rfl
    omega

end Guests

/-! ## Following the server -/

/-- What is under way to a client leads it to where its user is, if its connection has the
session. -/
structure Terminal.Informed (s : Server) (session : Option Str) (t : Terminal) : Prop where
  guest : session = none → ∀ q ∈ t.down, q.Quiet
  member : ∀ u, session = some u →
    ∃ a, LinkedList.get_user s.heap s.active_users_list u = some a ∧
      t.client.toClient.catchUp t.down = some ⟨u, (s.heap a).roomID⟩

namespace Terminal
variable {sha256 : Str → Digest} {s s' : Server} {session session' : Option Str} {t t' : Terminal}

/-- A client that has received nothing. -/
theorem Informed.of_same (hi : t.Informed s session)
    (hclient : t'.client.toClient = t.client.toClient) (hdown : t'.down = t.down) :
    t'.Informed s session := by
  refine ⟨hdown ▸ hi.guest, ?_⟩
  rw [hclient, hdown]
  exact hi.member

theorem Informed.receive {env : ClientEnv} {q : Packet} {qs : List Packet} {k' : ChatClient}
    {out : List Output} {go : Bool} (hi : t.Informed s session) (hdown : t.down = q :: qs)
    (h : t.client.chatRX env q = some (go, k', out)) :
    ({ t with client := k', down := qs, seen := t.seen ++ [q] } : Terminal).Informed s session := by
  have hguest := hi.guest
  have hmember := hi.member
  rw [hdown] at hguest hmember
  refine ⟨fun hs q' hq' => hguest hs q' (List.mem_cons_of_mem _ hq'), fun u hu => ?_⟩
  obtain ⟨a, ha, hk⟩ := hmember u hu
  have hk : (t.client.toClient.chatRX q).bind (·.catchUp qs) = some ⟨u, (s.heap a).roomID⟩ := hk
  obtain ⟨c, hc, hrest⟩ := Option.bind_eq_some_iff.mp hk
  obtain rfl := ChatClient.chatRX_client h hc
  exact ⟨a, ha, hrest⟩

/-- Packets that lead a client nowhere, while its user stays. -/
theorem Informed.deliver {qs : List Packet} (hi : t.Informed s session)
    (hqs : ∀ q ∈ qs, q.Quiet) (hsame : ∀ u a, session = some u →
      LinkedList.get_user s.heap s.active_users_list u = some a →
      LinkedList.get_user s'.heap s'.active_users_list u = some a ∧
        (s'.heap a).roomID = (s.heap a).roomID) : (t.deliver qs).Informed s' session := by
  refine ⟨fun hs => List.forall_mem_append.mpr ⟨hi.guest hs, hqs⟩, fun u hu => ?_⟩
  obtain ⟨a, ha, hk⟩ := hi.member u hu
  obtain ⟨ha', hroom⟩ := hsame u a hu ha
  refine ⟨a, ha', ?_⟩
  rw [Terminal.deliver, Client.catchUp_append, hk, Option.bind_some, Client.catchUp_quiet hqs,
    hroom]

/-- The client's own packet is served. -/
theorem Informed.serve {env : Env} {p : Packet} {fd : Int} {next : Next} {es : List Effect}
    (hi : t.Informed s session) (hhoused : s.Housed) (hhoused' : s'.Housed) (hp : p.Wf)
    (hrun : ops.run (client_receive sha256 env session p fd) s = .ok (next, s', es))
    (hint : s'.numRooms < 2 ^ 31) (hown : ∀ u, session = some u → p.username = u)
    (hnext : next = .receive session') : (t.deliver (sentTo fd es)).Informed s' session' := by
  subst hnext
  cases session with
  | some u =>
    obtain ⟨rfl, hopt⟩ := (received hrun).goes_on
    refine ⟨fun hs => (Option.some_ne_none _ hs).elim, fun v hv => ?_⟩
    obtain rfl := Option.some.inj hv
    obtain ⟨a, ha, hk⟩ := hi.member u rfl
    obtain ⟨-, hactive, hroom, -⟩ :=
      own_room hhoused hp hrun hint hopt ha fun _ => .inl (hown u rfl)
    refine ⟨a, hactive, ?_⟩
    rw [Terminal.deliver, Client.catchUp_append, hk, Option.bind_some]
    exact hroom _ rfl
  | none =>
    have hcatch : t.client.toClient.catchUp t.down = some t.client.toClient :=
      Client.catchUp_quiet (hi.guest rfl)
    cases session' with
    | none =>
      refine hi.deliver (fun q hq => ?_) fun u a hu _ => (Option.some_ne_none _ hu.symm).elim
      exact guest_quiet hrun _ (mem_sentTo.mp hq)
    | some u =>
      refine ⟨fun hs => (Option.some_ne_none _ hs).elim, fun v hv => ?_⟩
      obtain rfl := Option.some.inj hv
      obtain ⟨a, ha, hk⟩ := (received hrun).room hp hhoused'
      refine ⟨a, ha, ?_⟩
      rw [Terminal.deliver, Client.catchUp_append, hcatch, Option.bind_some]
      exact hk

end Terminal

/-! ## The network -/

namespace Network
variable {sha256 : Str → Digest} {n n' : Network} {life : Life sha256} {fd : Int}

/-- All clients are informed. -/
def Informed (n : Network) : Prop := n.Each Terminal.Informed

/-- Nobody else is told anything that counts. -/
theorem quiet_elsewhere {w w' : World} {p : Packet} {env : Env} {es : List Effect} {d : Int}
    (ht : w.server.Table) (hs : TBDChat.Step sha256 w (.packet fd p env) w' es) (hd : d ≠ fd) :
    ∀ q ∈ sentTo d es, q.Quiet := by
  intro q hq
  cases hs with
  | packet _ _ hrun => exact receive_elsewhere ht hrun d q hd (mem_sentTo.mp hq)

/-- A packet that has arrived. -/
theorem Informed.serve (hi : n.Informed) (hn : n.Sound life) {p : Packet} {rest : List Packet}
    {env : Env} {w' : World} {es : List Effect} (hhoused' : w'.server.Housed)
    (hup : (n.terminal fd).up = p :: rest)
    (hs : TBDChat.Step sha256 n.world (.packet fd p env) w' es)
    (hint : w'.server.numRooms < 2 ^ 31) : Informed
      ⟨w', deliver (Function.update n.terminal fd { n.terminal fd with up := rest }) es⟩ := by
  have hhoused := hn.settled.memory.housed
  refine Each.serve hi hs (fun session next session' hfd hp hrun hnext => ?_)
    fun d session hne hd hid => ?_
  · have hid : ({ n.terminal fd with up := rest } : Terminal).Informed n.world.server session :=
      (hi fd session hfd).of_same rfl rfl
    refine hid.serve hhoused hhoused' hp hrun hint (fun u hu => ?_) (Next.of_conn hnext)
    subst hu
    exact (hn.attended fd _ hfd).own hup
  · have hquiet : ∀ q ∈ sentTo d es, q.Quiet := quiet_elsewhere hhoused.table hs hne
    refine hid.deliver hquiet fun u a hu ha => ?_
    subst hu
    have helse : (Event.packet fd p env).fd ≠ d := hne.symm
    have hspares := (hn.own hup hs).spares hhoused hn.settled.linked hd helse
    obtain ⟨-, hleaves, -⟩ := hs.others_leave hhoused hd ha helse hspares
    exact ⟨hleaves.get_user hhoused' ha, by rw [hleaves.heap]⟩

/-- **What a client is told leads it on from room to room**, through every step. -/
theorem Informed.step (hi : n.Informed) (hn : n.Sound life) {life' : Life sha256}
    (hn' : n'.Sound life') {act : Act} (hs : Step sha256 n act n')
    (hact : n.Disciplined sha256 n' act) : n'.Informed := by
  cases hs with
  | connect k hfd hs =>
    refine Each.connect hi hs ⟨fun _ q hq => absurd hq List.not_mem_nil, fun u hu => ?_⟩
    exact (Option.some_ne_none _ hu.symm).elim
  | type ht hrunning h =>
    subst ht
    exact Each.update hi fun session _ ht => ht.of_same (ChatClient.round_signed h).1 rfl
  | interrupt ht hrunning =>
    subst ht
    exact Each.update hi fun session _ ht => ht.of_same rfl rfl
  | receive ht hdown h =>
    subst ht
    exact Each.update hi fun session _ ht => ht.receive hdown h
  | serve hup hs => exact hi.serve hn hn'.settled.memory.housed hup hs hact.2
  | restart fd => exact fun d session hd => Conn.noConfusion hd

end Network

end TBDChat
