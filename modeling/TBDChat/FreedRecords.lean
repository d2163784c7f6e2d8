import TBDChat.ActorFrame

/-!
# Rejected logins and freed records

A login that is rejected changes no list and no record.  But one of its four ways
out frees the record it has looked up: the one for a user who is logged in
already.  The record is the one in `registered_users_list`, which no handler ever
takes a record out of, so from then on the list refers to freed memory.
-/

namespace TBDChat
open Atomic

set_option maxRecDepth 8000

/-- Every record that a list refers to has been allocated and not been freed. -/
def Server.Allocated (s : Server) : Prop :=
  ∀ l, ∀ a ∈ s.users l, a < s.fresh ∧ a ∉ s.freed

/-- Nothing in the lists, the records or the rooms is different. -/
structure Server.Same (s s' : Server) : Prop where
  registered : s'.registered_users_list = s.registered_users_list
  records : s'.registered = s.registered
  active : s'.active_users_list = s.active_users_list
  rooms : s'.room_list = s.room_list
  numRooms : s'.numRooms = s.numRooms

/-- A LOGIN with the right credentials of a user who is active. -/
structure LoginOfActive (sha256 : Str → Digest) (w : World) (fd : Int) (p : Packet) : Prop where
  conn : w.conns fd = .serving none
  options : p.options = LOGIN
  words : 2 < (words p.buf).length
  account : ∃ a, w.server.account (loginName p) = some a ∧
    (w.server.heap a).hash = (sha256 (arg (TBDChat.words p.buf) 2)).bytes
  active : (LinkedList.get_user w.server.heap w.server.active_users_list (loginName p)).isSome

variable {sha256 : Str → Digest} {env : Env} {p : Packet} {fd : Int} {s s' : Server}

/-- A login that is rejected changes nothing but what is freed. -/
theorem Login.same {user pass : Str} {es : List Effect}
    (h : Login sha256 env user pass fd s false s' es) : s.Same s' := by
  cases h with
  | refused => exact ⟨rfl, rfl, rfl, rfl, rfl⟩
  | discarded => exact ⟨rfl, rfl, rfl, rfl, rfl⟩

/-- Registering a record does not get in front of one that is there. -/
theorem get_user_enrol (hi : s.Housed) {u : User} {user : Str} {c : Addr}
    (h : LinkedList.get_user s.heap s.registered_users_list user = some c) :
    LinkedList.get_user (s.enrol u).heap (s.enrol u).registered_users_list user = some c := by
  rw [hi.get_user_enrol, h, Option.some_or]

/-- A registration never finds its user active. -/
theorem Registers.not_active (hi : s.Housed) (hreg : Registers p s) {u : User} {a : Addr}
    (ha : (s.enrol u).account (loginName p) = some a) :
    LinkedList.get_user (s.enrol u).heap (s.enrol u).active_users_list (loginName p) = none := by
  refine LinkedList.get_user_none.mpr fun b hb hname => ?_
  have hbreg := hi.known b hb
  rw [Server.enrol_heap_old (hi.fresh b hbreg)] at hname
  have hfree := hreg.free
  cases hc : LinkedList.get_user s.heap s.registered_users_list (loginName p) with
  | none => exact LinkedList.get_user_none.mp hc b hbreg hname
  | some c =>
    have hlt := hi.fresh c (LinkedList.get_user_some hc).1
    have hreal : ((s.enrol u).heap c).real_name = ERROR := by
      rw [Server.enrol_heap_old hlt]
      rw [LinkedList.get_real_name] at hfree
      rw [loginName] at hc
      rwa [hc] at hfree
    simp [Server.account, get_user_enrol hi hc, hreal] at ha

/-- A record is freed by a login of an active user, and by nothing else. -/
theorem Received.freed {session : Option Str} {next : Next} {es : List Effect} (hi : s.Housed)
    (h : Received sha256 env p fd s session next s' es) :
    s'.freed = s.freed ∨
    (session = none ∧ p.options = LOGIN ∧ 2 < (words p.buf).length ∧
      (∃ a, s.account (loginName p) = some a ∧
        (s.heap a).hash = (sha256 (arg (words p.buf) 2)).bytes) ∧
      (LinkedList.get_user s.heap s.active_users_list (loginName p)).isSome) := by
  cases h with
  | refused | hungUp | answered | chat | vanished | renamed | passwordSet => exact .inl rfl
  | login hopt hw hl =>
    cases hl with
    | refused => exact .inl rfl
    | discarded ha hp hact => exact .inr ⟨rfl, hopt, hw, ⟨_, ha, hp⟩, hact⟩
    | signedIn => exact .inl rfl
  | register hreg hl =>
    cases hl with
    | refused => exact .inl rfl
    | discarded ha hp hact =>
      rw [hreg.not_active hi ha] at hact
      cases hact
    | signedIn => exact .inl rfl
  | opened =>
    obtain ⟨rooms, n, heq⟩ := s.openRoom_eq env.fd (arg (words p.buf) 0)
    exact .inl (by rw [heq])
  | joined hj hs₁ _ _ _ _ hs₂ =>
    subst hs₁ hs₂
    obtain ⟨rooms, n, heq⟩ := s.openRoom_eq env.fd (arg (words p.buf) 0)
    refine .inl ?_
    rw [heq]
    rfl
  | left _ _ _ _ _ _ hs' _ =>
    subst hs'
    exact .inl rfl
  | signedOut => exact .inl rfl

/-- The other lists refer to no record that is not registered. -/
theorem Server.Housed.allocated_registered (hi : s.Housed) :
    s.Allocated ↔ ∀ a ∈ s.registered_users_list, a ∉ s.freed := by
  constructor
  · intro hall a ha
    exact (hall .registered a ha).2
  · intro hreg l a ha
    have hknown : a ∈ s.registered_users_list := by
      cases l with
      | registered => exact ha
      | active => exact hi.known a ha
      | room r =>
        rcases Nat.lt_or_ge r s.room_list.length with hr | hr
        · exact hi.known a (hi.active hr ha)
        · rw [Server.users, Server.members_of_ge hr] at ha
          cases ha
    exact ⟨hi.fresh a hknown, hreg a hknown⟩

/-- Until a record is freed, the lists are in order. -/
theorem Server.Housed.allocated (hi : s.Housed) (hfreed : s.freed = []) : s.Allocated :=
  hi.allocated_registered.mpr fun _ _ => hfreed ▸ List.not_mem_nil

/-- What a login of an active user does. -/
theorem run_login_of_active {w : World} {next : Next} {es : List Effect}
    (h : LoginOfActive sha256 w fd p)
    (hrun : ops.run (client_receive sha256 env none p fd) w.server = .ok (next, s', es)) :
    ∃ a ∈ w.server.registered_users_list, s' = w.server.free a := by
  obtain ⟨a, ha, hhash⟩ := h.account
  rw [client_receive, receiveAnonymous, h.options, if_neg (by decide), if_pos rfl,
    Semantics.run_bind, run_login] at hrun
  by_cases h15 : 15 < (words p.buf).length
  · rw [if_pos h15] at hrun
    cases hrun
  rw [loginName] at ha
  rw [if_neg h15, if_neg (Nat.not_le_of_lt h.words)] at hrun
  simp only [ha, hhash, ne_eq, not_true_eq_false, if_false] at hrun
  have hact := h.active
  rw [loginName] at hact
  rw [if_pos hact] at hrun
  cases hrun
  exact ⟨a, (LinkedList.get_user_some (Server.account_some ha)).1, rfl⟩

theorem LoginOfActive.not_allocated {w w' : World} {es : List Effect}
    (h : LoginOfActive sha256 w fd p) (hs : Step sha256 w (.packet fd p env) w' es) :
    ¬ w'.server.Allocated := by
  obtain ⟨next, -, hrun, -⟩ := hs.handled h.conn
  obtain ⟨a, ha, hfree⟩ := run_login_of_active h hrun
  rw [hfree]
  intro hall
  exact (hall .registered a ha).2 List.mem_cons_self

/-- An event that is no LOGIN with the right credentials of a user who is active: the only one
after which the lists may refer to freed memory. -/
def World.NoSecondLogin (sha256 : Str → Digest) (w : World) (e : Event) : Prop :=
  ∀ fd p env, e = .packet fd p env → ¬ LoginOfActive sha256 w fd p

/-- One step of a run in which nobody logs in to an account that is active. -/
theorem Step.freed {w w' : World} {e : Event} {es : List Effect} (hi : w.server.Housed)
    (hs : Step sha256 w e w' es) (hno : w.NoSecondLogin sha256 e) :
    w'.server.freed = w.server.freed := by
  cases hs with
  | accept => rfl
  | packet hfd hp hrun =>
    rcases (received hrun).freed hi with h | ⟨rfl, hopt, hw, ha, hact⟩
    · exact h
    · exact absurd ⟨hfd, hopt, hw, ha, hact⟩ (hno _ _ _ rfl)

theorem Step.noSecondLogin {w w' : World} {e : Event} {es : List Effect}
    (hs : Step sha256 w e w' es) (hall : w'.server.Allocated) : w.NoSecondLogin sha256 e := by
  intro fd p env he hlogin
  subst he
  exact hlogin.not_allocated hs hall

/-- What is freed has been registered, and still is. -/
theorem Step.freed_registered {w w' : World} {e : Event} {es : List Effect}
    (hi : w.server.Housed) (hs : Step sha256 w e w' es)
    (h : w.server.freed ⊆ w.server.registered_users_list) :
    w'.server.freed ⊆ w'.server.registered_users_list := by
  by_cases hno : w.NoSecondLogin sha256 e
  · rw [hs.freed hi hno]
    cases hs with
    | accept => exact h
    | packet _ hp hrun => exact List.Subset.trans h ((received hrun).changes hp).registered
  · obtain ⟨fd, p, env, rfl, hlogin⟩ : ∃ fd p env, e = .packet fd p env ∧
        LoginOfActive sha256 w fd p := by simpa [World.NoSecondLogin] using hno
    obtain ⟨next, -, hrun, -⟩ := hs.handled hlogin.conn
    obtain ⟨a, ha, hfree⟩ := run_login_of_active hlogin hrun
    rw [hfree]
    exact List.cons_subset.mpr ⟨ha, h⟩

theorem Reachable.freed_registered {w : World} (hw : Reachable sha256 w) :
    w.server.freed ⊆ w.server.registered_users_list := by
  obtain ⟨file, fd, h⟩ := hw
  induction h with
  | start => exact List.nil_subset _
  | step hw hs ih => exact hs.freed_registered (Reachable.housed ⟨file, fd, hw⟩) ih

/-- Where no list refers to freed memory none has been freed. -/
theorem Reachable.freed_eq_nil {w : World} (hw : Reachable sha256 w) (hall : w.server.Allocated) :
    w.server.freed = [] :=
  List.eq_nil_iff_forall_not_mem.mpr fun a ha => (hall .registered a (hw.freed_registered ha)).2 ha

theorem Run.freed_nil (run : Run sha256)
    (hno : ∀ t < run.length, (run.state t).NoSecondLogin sha256 (run.event t)) {t : Nat}
    (ht : t ≤ run.length) : (run.state t).server.freed = [] := by
  induction t with
  | zero =>
    obtain ⟨file, fd, h⟩ := run.boot
    rw [h]
    rfl
  | succ t ih =>
    have hi := (run.reachable (t := t) (by omega)).housed
    rw [(run.next t ht).freed hi (hno t ht), ih (by omega)]

/-- In such a run all records that are listed are there. -/
theorem Run.allocated (run : Run sha256)
    (hno : ∀ t < run.length, (run.state t).NoSecondLogin sha256 (run.event t)) {t : Nat}
    (ht : t ≤ run.length) : (run.state t).server.Allocated :=
  (run.reachable ht).housed.allocated (run.freed_nil hno ht)

/-- A LOGIN after which the connection is not logged in changed nothing. -/
theorem Step.rejected {w w' : World} {fd : Int} {p : Packet} {env : Env} {es : List Effect}
    (hs : Step sha256 w (.packet fd p env) w' es) (hfd : w.conns fd = .serving none)
    (hopt : p.options = LOGIN) (hfd' : w'.conns fd = .serving none) : w.server.Same w'.server := by
  obtain ⟨next, -, hrun, hconns⟩ := hs.handled hfd
  rw [hconns, Function.update_self] at hfd'
  generalize w'.server = s' at hrun
  cases received hrun with
  | refused => exact ⟨rfl, rfl, rfl, rfl, rfl⟩
  | hungUp hexit =>
    rw [hopt] at hexit
    exact absurd hexit (by decide)
  | register hreg =>
    have hreg' := hreg.options
    rw [hopt] at hreg'
    exact absurd hreg' (by decide)
  | @login b _ _ _ _ hl =>
    cases b with
    | false => exact hl.same
    | true => cases hfd'

/-- **No list ever refers to a freed record, and a rejected login changes
nothing**, in the runs in which nobody logs in to an account that is active, and
in no others. -/
theorem allocated_iff (run : Run sha256) :
    ((∀ t < run.length, ∀ fd p env, run.event t = .packet fd p env →
        (run.state t).conns fd = .serving none → p.options = LOGIN →
        (run.state (t + 1)).conns fd = .serving none →
        (run.state t).server.Same (run.state (t + 1)).server) ∧
      ∀ t ≤ run.length, (run.state t).server.Allocated) ↔
    ∀ t < run.length, ∀ fd p env, run.event t = .packet fd p env →
      ¬ LoginOfActive sha256 (run.state t) fd p := by
  constructor
  · rintro ⟨-, hall⟩ t ht fd p env he hlogin
    have hs := run.next t ht
    rw [he] at hs
    exact hlogin.not_allocated hs (hall (t + 1) ht)
  · intro hno
    refine ⟨fun t ht fd p env he hfd hopt hfd' => ?_, fun t ht => run.allocated hno ht⟩
    have hs := run.next t ht
    rw [he] at hs
    exact hs.rejected hfd hopt hfd'

/-- Alice is logged in on one connection and logs in on another. -/
theorem freed_record_listed : ¬ ∀ sha256 : Str → Digest,
    (∀ w fd p env w' es, Reachable sha256 w → w.conns fd = .serving none → p.options = LOGIN →
      Step sha256 w (.packet fd p env) w' es → w'.conns fd = .serving none →
      w.server.Same w'.server) ∧
    ∀ w, Reachable sha256 w → w.server.Allocated := by
  intro h
  let events := Sample.enter 4 "alice" ++
    [.accept 5, Sample.packet 5 LOGIN "" "/login alice secret"]
  have hlisted : 0 ∈ (Sample.world events).server.users .registered := by decide
  have hfreed : 0 ∈ (Sample.world events).server.freed := by decide
  exact ((h Sample.sha256).2 (Sample.world events) (Sample.reachable events) .registered 0
    hlisted).2 hfreed

end TBDChat
