import TBDChat.FatalPackets

/-!
# Nothing gets stuck

A client can always take what the server has sent it.  The server can always take what a client
has sent it if the users are careful: they log in and look for each other in few words, and they
ask for another room when they know in which they are.
-/

namespace TBDChat
open Atomic

set_option maxRecDepth 8000

/-! ## What a client is sent -/

namespace ChatClient
variable {env : ClientEnv} {k : ChatClient} {q : Packet} {c : Client}

end ChatClient

/-! ## Careful users -/

/-- A JOIN that is under way is from the room where the user is, and nothing that is before it
takes the user elsewhere. -/
structure Terminal.Mindful (s : Server) (session : Option Str) (t : Terminal) : Prop where
  words : ∀ p ∈ t.up, p.options = LOGIN ∨ p.options = GETUSER → (words p.buf).length ≤ 15
  apart : t.up.Pairwise fun p p' => p'.options = JOIN → p.options ≠ JOIN ∧ p.options ≠ LEAVE
  there : ∀ u, session = some u → ∀ p ∈ t.up, p.options = JOIN →
    roomOf (atoi (arg (TBDChat.words p.buf) 1)) = s.place u

section Places
variable {sha256 : Str → Digest} {env : Env} {p : Packet} {fd : Int} {s s' : Server} {u : Str}
  {next : Next} {es : List Effect} {a : Addr}

theorem Server.place_of_same (ha : LinkedList.get_user s.heap s.active_users_list u = some a)
    (ha' : LinkedList.get_user s'.heap s'.active_users_list u = some a)
    (hroom : (s'.heap a).roomID = (s.heap a).roomID) : s'.place u = s.place u := by
  rw [place, place, ha, ha', Option.map_some, Option.map_some, hroom]

/-- Only a JOIN or a LEAVE moves the user. -/
theorem place_of_own (hi : s.Housed) (hp : p.Wf)
    (hrun : ops.run (client_receive sha256 env (some u) p fd) s = .ok (next, s', es))
    (hint : s'.numRooms < 2 ^ 31) (hopt : ¬ (p.options = EXIT ∨ p.options = 0))
    (ha : LinkedList.get_user s.heap s.active_users_list u = some a) (hjoin : p.options ≠ JOIN)
    (hleave : p.options ≠ LEAVE) : s'.place u = s.place u := by
  obtain ⟨-, hactive, -, hmoves⟩ :=
    own_room hi hp hrun hint hopt ha fun h => (h.elim hjoin hleave).elim
  refine Server.place_of_same ha hactive ?_
  by_contra hne
  obtain ⟨-, -, ⟨hopt, -⟩ | ⟨hopt, -⟩⟩ := hmoves hne
  · exact hjoin hopt
  · exact hleave hopt

end Places

namespace Terminal
variable {sha256 : Str → Digest} {s s' : Server} {session session' : Option Str} {t t' : Terminal}

theorem Mindful.of_same (hm : t.Mindful s session) (hup : t'.up = t.up)
    (hplace : ∀ u, session = some u → s'.place u = s.place u) : t'.Mindful s' session := by
  refine ⟨hup ▸ hm.words, hup ▸ hm.apart, fun u hu => ?_⟩
  rw [hup, hplace u hu]
  exact hm.there u hu

/-- A client that is told of no other room knows the room of its user. -/
theorem Informed.current {u : Str} (hi : t.Informed s (some u)) (hhoused : s.Housed)
    (hpatient : t.Patient) (hjoin : ∀ q ∈ t.down, q.options ≠ JOINSUC) :
    roomOf t.client.currentRoom = s.place u := by
  obtain ⟨a, ha, hk⟩ := hi.member u rfl
  have hword : ∀ q ∈ t.down, q.options ≠ LOGSUC ∧ q.options ≠ JOINSUC := by
    intro q hq
    refine ⟨fun hopt => ?_, hjoin q hq⟩
    exact List.filter_eq_nil_iff.mp hpatient.2 q hq (by simpa using hopt)
  have hcurrent : (s.heap a).roomID = t.client.currentRoom :=
    congrArg Client.currentRoom (Client.catchUp_eq hword hk)
  obtain ⟨hge, -⟩ := hhoused.roomID_lt (LinkedList.get_user_some ha).1
  rw [Server.place, ha, Option.map_some, hcurrent, roomOf, if_pos (hcurrent ▸ hge)]

/-- At most one more packet, made with care. -/
theorem Mindful.send (hm : t.Mindful s session) (hi : t.Informed s session)
    (hg : t.Grounded s session) (hhoused : s.Housed) (hint : s.numRooms < 2 ^ 31)
    (hpatient : t.Patient)
    (hup : t'.up = t.up ∨ ∃ p, t'.up = t.up ++ [p] ∧ t.client.Composed p)
    (hcare : ∀ p, t'.up = t.up ++ [p] →
      (p.options = LOGIN ∨ p.options = GETUSER → (TBDChat.words p.buf).length ≤ 15) ∧
      (p.options = JOIN → (∀ p' ∈ t.up, p'.options ≠ JOIN ∧ p'.options ≠ LEAVE) ∧
        ∀ q ∈ t.down, q.options ≠ JOINSUC)) : t'.Mindful s session := by
  obtain hsame | ⟨p, hone, hcomposed⟩ := hup
  · exact hm.of_same hsame fun u hu => rfl
  obtain ⟨hwords, hjoin⟩ := hcare p hone
  refine ⟨?_, ?_, fun u hu => ?_⟩
  · rw [hone]
    exact List.forall_mem_append.mpr ⟨hm.words, List.forall_mem_singleton.mpr hwords⟩
  · rw [hone]
    refine List.pairwise_append.mpr ⟨hm.apart, List.pairwise_singleton _ _, ?_⟩
    intro p' hp' q hq hopt
    obtain rfl := List.mem_singleton.mp hq
    exact (hjoin hopt).1 p' hp'
  · rw [hone]
    refine List.forall_mem_append.mpr ⟨hm.there u hu, List.forall_mem_singleton.mpr fun hopt => ?_⟩
    subst hu
    obtain ⟨hlow, hhigh⟩ := hg.current u rfl hpatient.2
    have hlobby : DEFAULT_ROOM = 1000 := rfl
    rw [hcomposed.join hopt, atoi_dec_int (by omega) (by omega)]
    exact hi.current hhoused hpatient (hjoin hopt).2

/-- The client's own packet is served. -/
theorem Mindful.serve {env : Env} {p : Packet} {rest : List Packet} {fd : Int} {next : Next}
    {es : List Effect} (hm : t.Mindful s session) (ha : t.Attended session)
    (hi : t.Informed s session) (hhoused : s.Housed) (hup : t.up = p :: rest) (hp : p.Wf)
    (hrun : ops.run (client_receive sha256 env session p fd) s = .ok (next, s', es))
    (hint : s'.numRooms < 2 ^ 31) (hnext : next = .receive session') :
    (({ t with up := rest } : Terminal).deliver (sentTo fd es)).Mindful s' session' := by
  subst hnext
  have hreceived := received hrun
  have hwords := hm.words
  have hapart := hm.apart
  have hthere := hm.there
  have hwaits := ha.waits
  rw [hup] at hwords hapart hthere hwaits
  obtain ⟨hfirst, hapart⟩ := List.pairwise_cons.mp hapart
  refine ⟨fun p' hp' => hwords p' (List.mem_cons_of_mem _ hp'), hapart, fun u hu p' hp' hopt => ?_⟩
  have hp' : p' ∈ rest := hp'
  cases session with
  | some v =>
    obtain ⟨rfl, hexit⟩ := hreceived.goes_on
    obtain rfl := Option.some.inj hu
    obtain ⟨a, hact, -⟩ := hi.member v rfl
    obtain ⟨hjoin, hleave⟩ := hfirst p' hp' hopt
    rw [place_of_own hhoused hp hrun hint hexit hact hjoin hleave]
    exact hthere v rfl p' (List.mem_cons_of_mem _ hp') hopt
  | none =>
    -- nothing is sent after a request to be let in
    obtain ⟨-, hreq, -⟩ | ⟨hout, -⟩ := hreceived.word
    · cases rest with
      | nil => exact absurd hp' List.not_mem_nil
      | cons p₁ rest =>
        obtain ⟨hreg, hlogin⟩ := hwaits p List.mem_cons_self
        exact (hreq.elim hreg hlogin).elim
    · obtain hl | hl := hout
      · rw [Next.receive.inj hl] at hu
        cases hu
      · cases hl

end Terminal

namespace Network
variable {sha256 : Str → Digest} {n n' : Network} {life : Life sha256}

end Network

end TBDChat
