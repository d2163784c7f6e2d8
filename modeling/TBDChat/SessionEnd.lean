import TBDChat.Credentials
import TBDChat.ActorFrame
import TBDChat.PasswordChange
import TBDChat.OwnNames

/-!
# What the end of a session leaves behind

A thread learns of the end of its session from an EXIT packet, or from `recv`: 0
when the peer has closed the connection, -1 when it failed.  `client_receive` tests
the result of `recv` as a truth value, so that 0 is no end at all, and -1 is handled
as the packet that was cleared before: option 0, which is taken for an abrupt
disconnect, and no username.  `exit_client` signs out whoever the packet names.
-/

namespace TBDChat
open Atomic

set_option maxRecDepth 8000

/-! ## Ways to end -/

/-- The packet variable after `memset`. -/
def Packet.cleared : Packet := ⟨0, [], [], [], 0⟩

/-- How a session ends. -/
inductive Ending where
  | exit (p : Packet) (hopt : p.options = EXIT)
  /-- `recv` returns 0. -/
  | closed
  /-- `recv` returns -1. -/
  | failed

namespace Ending

/-- What `client_receive` does when a session ends. -/
def handle (sha256 : Str → Digest) (env : Env) (name : Str) (fd : Int) : Ending → Handler Next
  | exit p _ => client_receive sha256 env (some name) p fd
  -- `if (received)` fails, and the loop goes on
  | closed => pure (.receive (some name))
  | failed => client_receive sha256 env (some name) .cleared fd

/-- The username in the packet that is handled, if one is. -/
def sender : Ending → Option Str
  | exit p _ => some p.username
  | closed => none
  | failed => some []

end Ending

section Statement
variable (sha256 : Str → Digest)

/-- A LOGIN under the name with the password of its record is accepted. -/
def Server.CanLogin (s : Server) (name : Str) : Prop :=
  ∀ env p fd, p.options = LOGIN → 3 ≤ (words p.buf).length → (words p.buf).length ≤ 15 →
    loginName p = name →
    (∃ a, LinkedList.get_user s.heap s.registered_users_list name = some a ∧
      (s.heap a).hash = (sha256 (arg (words p.buf) 2)).bytes) →
    (ops.run (client_receive sha256 env none p fd) s).value? = some (.receive (some name))

/-- The user is gone, all others are as they were, and the user may come back. -/
structure CleanedUp (s s' : Server) (name : Str) : Prop where
  inactive : ∀ a ∈ s'.active_users_list, (s'.heap a).username ≠ name
  nowhere : ∀ room ∈ s'.room_list, ∀ a ∈ room.user_list, (s'.heap a).username ≠ name
  others : ∀ a ∈ s.registered_users_list, (s.heap a).username ≠ name → s.Leaves s' a
  returns : s'.CanLogin sha256 name

end Statement

variable {sha256 : Str → Digest} {env : Env} {p : Packet} {fd : Int} {s s' : Server}
  {user name : Str}

/-! ## The password of a session is known -/

/-- There is a password for the record that is found by the name, and both can be
written in a LOGIN. -/
structure Server.Known (sha256 : Str → Digest) (s : Server) (user : Str) : Prop where
  name : ∀ c ∈ user, c ∉ delim
  password : ∃ a pass, LinkedList.get_user s.heap s.registered_users_list user = some a ∧
    (∀ c ∈ pass, c ∉ delim) ∧ (s.heap a).hash = (sha256 pass).bytes

/-- Whoever is found by a name stays so. -/
theorem Change.get_user_registered {who : Str} {a : Addr} (hi : s.Housed) (h : Change who s s')
    (ha : LinkedList.get_user s.heap s.registered_users_list user = some a) :
    LinkedList.get_user s'.heap s'.registered_users_list user = some a := by
  have hold : LinkedList.get_user s'.heap s.registered_users_list user = some a := by
    rw [← ha]
    exact LinkedList.get_user_congr fun b hb => h.username (hi.fresh b hb)
  cases h with
  | enrol u =>
    rw [hi.get_user_enrol u, ha, Option.some_or]
  | @openRoom fd name =>
    obtain ⟨rooms, n, heq⟩ := s.openRoom_eq fd name
    rw [heq] at hold ⊢
    exact hold
  | free | signIn | move | rename | setPassword | signOut => exact hold

theorem Changes.get_user_registered {who : Str} {a : Addr} (hi : s.Housed) (h : Changes who s s')
    (ha : LinkedList.get_user s.heap s.registered_users_list user = some a) :
    LinkedList.get_user s'.heap s'.registered_users_list user = some a := by
  induction h using Relation.ReflTransGen.head_induction_on with
  | refl => exact ha
  | head hc _ ih => exact ih (hc.housed hi) (hc.get_user_registered hi ha)

/-- A packet keeps passwords known: who changes one knows the new one. -/
theorem Received.known {session : Option Str} {next : Next} {es : List Effect} (hi : s.Housed)
    (hp : p.Wf) (h : Received sha256 env p fd s session next s' es)
    (hk : s.Known sha256 user) : s'.Known sha256 user := by
  obtain ⟨a, pass, ha, hpass, hhash⟩ := hk.password
  have ha' := (h.changes hp).get_user_registered hi ha
  refine ⟨hk.name, ?_⟩
  rcases h.password (hi.fresh a (LinkedList.get_user_some ha).1) with hsame | ⟨b, -, hc, rfl⟩
  · exact ⟨a, pass, ha', hpass, (congrArg (List.take 32) hsame).trans hhash⟩
  · by_cases hab : a = b
    · subst hab
      refine ⟨a, arg (words p.buf) 2, ha', not_mem_delim_arg, ?_⟩
      rw [s.setPassword_self]
      exact (User.setPassword (s.heap a) (sha256 (arg (words p.buf) 2))).1
    · refine ⟨a, pass, ha', hpass, ?_⟩
      rw [s.setPassword_ne _ hab]
      exact hhash

/-- Who has logged in knows the password. -/
theorem Login.known {pass : Str} {es : List Effect} (hi : s.Housed) (hu : user.length < 192)
    (hname : ∀ c ∈ user, c ∉ delim) (hpass : ∀ c ∈ pass, c ∉ delim)
    (h : Login sha256 env user pass fd s true s' es) : s'.Known sha256 user := by
  have hchanges := h.changes hu
  cases h with
  | signedIn ha hp =>
    refine ⟨hname, _, pass, hchanges.get_user_registered hi (Server.account_some ha), hpass, ?_⟩
    exact (congrArg (List.take 32) (s.password_signIn _)).trans hp

/-- A session that goes on is the old one or that of a login. -/
theorem Received.session_known {session : Option Str} {next : Next} {es : List Effect}
    (hi : s.Housed) (hp : p.Wf) (h : Received sha256 env p fd s session next s' es)
    (hk : ∀ name, session = some name → s.Known sha256 name)
    (hnext : next = .receive (some user)) : s'.Known sha256 user := by
  have hlen : (loginName p).length < 192 := Nat.lt_of_le_of_lt (hp.arg_length 1) (by decide)
  cases session with
  | some name =>
    have hname : name = user := by
      cases h with
      | vanished | signedOut => cases hnext
      | answered | renamed | passwordSet | opened | joined | left | chat =>
        exact Option.some.inj (Next.receive.inj hnext)
    exact hname ▸ h.known hi hp (hk name rfl)
  | none =>
    have hlogin {s₀ : Server} {b : Bool} {es : List Effect} (hi : s₀.Housed)
        (hb : (if b then some (loginName p) else none) = some user)
        (hl : Login sha256 env (loginName p) (arg (words p.buf) 2) fd s₀ b s' es) :
        s'.Known sha256 user := by
      cases b with
      | false => cases hb
      | true =>
        cases hb
        exact hl.known hi hlen not_mem_delim_arg not_mem_delim_arg
    cases h with
    | refused | hungUp => cases hnext
    | login _ _ hl => exact hlogin hi (Next.receive.inj hnext) hl
    | register _ hl => exact hlogin (hi.enrol _) (Next.receive.inj hnext) hl

/-- A step keeps the passwords of sessions known. -/
theorem Step.known {w w' : World} {e : Event} {es : List Effect} (hi : w.server.Housed)
    (hs : Step sha256 w e w' es)
    (hk : ∀ fd name, w.conns fd = .serving (some name) → w.server.Known sha256 name)
    (fd : Int) (name : Str) (hfd : w'.conns fd = .serving (some name)) :
    w'.server.Known sha256 name := by
  cases hs with
  | @accept fd' hclosed =>
    have hfd : Function.update w.conns fd' (.serving none) fd = .serving (some name) := hfd
    by_cases h : fd = fd'
    · rw [h, Function.update_self] at hfd
      cases hfd
    · rw [Function.update_of_ne h] at hfd
      exact hk fd name hfd
  | @packet fd' p env session next s' es hconn hp hrun =>
    have hfd : Function.update w.conns fd' (next.conn es fd') fd = .serving (some name) := hfd
    have hrec := received hrun
    by_cases h : fd = fd'
    · rw [h, Function.update_self] at hfd
      refine hrec.session_known hi hp (fun name hname => hk fd' name (hname ▸ hconn)) ?_
      cases next with
      | receive session => exact congrArg Next.receive (Conn.serving.inj hfd)
      | done =>
        rw [Next.conn] at hfd
        split at hfd
        · cases hfd
        · cases hfd
    · rw [Function.update_of_ne h] at hfd
      exact hrec.known hi hp (hk fd name hfd)

/-- **Every session has a password** that leads back to it. -/
theorem Reachable.known {w : World} (hw : Reachable sha256 w) (fd : Int) (name : Str)
    (hfd : w.conns fd = .serving (some name)) : w.server.Known sha256 name := by
  obtain ⟨file, fd₀, h⟩ := hw
  induction h generalizing fd name with
  | start => cases hfd
  | step hreach hs ih =>
    exact hs.known (Reachable.housed ⟨file, fd₀, hreach⟩) ih fd name hfd

/-! ## Coming back -/

/-- What a LOGIN comes to is what `login` answers. -/
theorem receive_login (env : Env) (fd : Int) (s : Server) (hopt : p.options = LOGIN) :
    (ops.run (client_receive sha256 env none p fd) s).value? =
      (ops.run (login sha256 env p fd) s).value?.map
        (fun b => Next.receive (if b then some (loginName p) else none)) := by
  have hrun : client_receive sha256 env none p fd = login sha256 env p fd >>= fun logged_in =>
      pure (.receive (if logged_in then some (loginName p) else none)) := by
    rw [client_receive, receiveAnonymous, hopt, if_neg (by decide), if_pos rfl]
  rw [hrun, Semantics.run_bind]
  cases ops.run (login sha256 env p fd) s with
  | error f => rfl
  | ok r => rfl

/-- Which account is found under a name that is not active, to be logged in. -/
theorem accepts_iff {hash : Digest} (hact : ∀ a ∈ s.active_users_list, (s.heap a).username ≠ name) :
    s.Accepts name hash ↔ ∃ a, LinkedList.get_user s.heap s.registered_users_list name = some a ∧
      (s.heap a).real_name ≠ ERROR ∧ (s.heap a).hash = hash.bytes := by
  rw [Server.Accepts, and_iff_left (LinkedList.get_user_none.mpr hact)]
  refine exists_congr fun a => ?_
  rw [← and_assoc]
  refine and_congr_left fun _ => ?_
  unfold Server.account
  cases LinkedList.get_user s.heap s.registered_users_list name with
  | none => simp
  | some b =>
    by_cases hreal : (s.heap b).real_name = ERROR
    · simp only [if_pos hreal, Option.some.injEq]
      exact iff_of_false (by simp) fun h => h.2 (h.1 ▸ hreal)
    · simp only [if_neg hreal, Option.some.injEq]
      exact (and_iff_left_of_imp fun he => he ▸ hreal).symm

/-- Who is not active can log in again just if not called `ERROR`. -/
theorem Server.Known.canLogin_iff (hk : s.Known sha256 name) (ht : s.Table)
    (hact : ∀ a ∈ s.active_users_list, (s.heap a).username ≠ name) :
    s.CanLogin sha256 name ↔ ∀ a,
      LinkedList.get_user s.heap s.registered_users_list name = some a →
        (s.heap a).real_name ≠ ERROR := by
  constructor
  · intro hcan a ha hreal
    obtain ⟨b, pass, hb, hpass, hhash⟩ := hk.password
    obtain rfl := Option.some.inj (ha.symm.trans hb)
    let p : Packet := ⟨0, str "/login" ++ 32 :: (name ++ 32 :: pass), [], [], LOGIN⟩
    have hwords : words p.buf = [str "/login", name, pass] :=
      words_login (by decide) hk.name hpass
    have hname : loginName p = name := by
      rw [loginName, hwords]
      rfl
    have hpass : arg (words p.buf) 2 = pass := by
      rw [hwords]
      rfl
    have hlen : (words p.buf).length = 3 := by
      rw [hwords]
      rfl
    have hvalue := hcan Sample.env p 0 rfl (by omega) (by omega) hname ⟨a, ha, by rwa [hpass]⟩
    obtain ⟨b, hb, haccepts⟩ := login_value sha256 Sample.env 0 ht (p := p) (by omega) (by omega)
    rw [receive_login _ _ _ rfl, hb] at hvalue
    cases b with
    | false => cases hvalue
    | true =>
      obtain ⟨c, hc, hne, -⟩ := (accepts_iff (hname ▸ hact)).mp (haccepts.mp rfl)
      rw [hname, ha] at hc
      exact hne (Option.some.inj hc ▸ hreal)
  · rintro hreal env p fd hopt hw hw' hname ⟨a, ha, hhash⟩
    obtain ⟨b, hb, haccepts⟩ := login_value sha256 env fd ht (p := p) hw hw'
    have hb' : b = true := haccepts.mpr ((accepts_iff (hname ▸ hact)).mpr
      ⟨a, hname ▸ ha, hreal a ha, hhash⟩)
    rw [receive_login env fd s hopt, hb, hb', Option.map_some, if_pos rfl, hname]

/-! ## The handling of the end -/

/-- A packet that ends a session signs out the active user it names, if there is
one. -/
theorem run_ending (hi : s.Housed) (sha256 : Str → Digest) (env : Env) (name : Str) (fd : Int)
    (hopt : p.options = EXIT ∨ p.options = 0) :
    ∃ s' es, ops.run (client_receive sha256 env (some name) p fd) s = .ok (.done, s', es) ∧
      ((LinkedList.get_user s.heap s.active_users_list p.username = none ∧ s' = s) ∨
        ∃ a r, LinkedList.get_user s.heap s.active_users_list p.username = some a ∧
          LinkedList.Rget_roomFID s.room_list (s.heap a).roomID = some r ∧
          s' = s.signOut a r) := by
  have hlt : p.options < 1000 := by
    rcases hopt with h | h
    · rw [h]
      decide
    · rw [h]
      decide
  rw [client_receive, receiveSession, if_pos hlt, if_pos hopt, Semantics.run_bind, run_exit_client]
  cases ha : LinkedList.get_user s.heap s.active_users_list p.username with
  | none => exact ⟨s, [], rfl, .inl ⟨rfl, rfl⟩⟩
  | some a =>
    obtain ⟨r, hr, -⟩ := hi.find_member.mpr ⟨ha, rfl⟩
    simp only [hr]
    exact ⟨_, _, rfl, .inr ⟨a, r, rfl, hr, rfl⟩⟩

/-- The owner of the record that is found by the name is not called `ERROR`. -/
def Server.Presentable (s : Server) (name : Str) : Prop :=
  ∀ a, LinkedList.get_user s.heap s.registered_users_list name = some a →
    (s.heap a).real_name ≠ ERROR

/-- Without a change the user is gone just if gone before. -/
theorem cleaned_unchanged (hi : s.Housed) (hk : s.Known sha256 name) :
    CleanedUp sha256 s s name ↔
      (∀ a ∈ s.active_users_list, (s.heap a).username ≠ name) ∧ s.Presentable name := by
  constructor
  · intro h
    exact ⟨h.inactive, (hk.canLogin_iff hi.table h.inactive).mp h.returns⟩
  · rintro ⟨hact, hreal⟩
    refine ⟨hact, fun room hroom a ha => ?_, fun a _ _ => .of_lists rfl rfl rfl,
      (hk.canLogin_iff hi.table hact).mpr hreal⟩
    obtain ⟨k, hlt, rfl⟩ := List.mem_iff_getElem.mp hroom
    have hmember : a ∈ s.members k := by simpa [Server.members, Server.room, hlt] using ha
    exact hact a (hi.active hlt hmember)

/-- The one who is signed out is gone, and nobody else may be. -/
theorem cleaned_signOut {a : Addr} {r : RoomRef} (hi : s.Housed) (hk : s.Known sha256 name)
    (ha : LinkedList.get_user s.heap s.active_users_list user = some a)
    (hr : LinkedList.Rget_roomFID s.room_list (s.heap a).roomID = some r) :
    CleanedUp sha256 s (s.signOut a r) name ↔ user = name ∧ s.Presentable name := by
  obtain ⟨hact, hname⟩ := LinkedList.get_user_some ha
  obtain ⟨hlt, hmem⟩ := hi.member_of_roomID ha hr
  have hchange : Change user s (s.signOut a r) := .signOut ha hr
  have hi' := hchange.housed hi
  have hheap := s.signOut_heap a r
  obtain ⟨hactive, -⟩ := Server.signOut_lists hi hlt hmem
  have hpresentable : (s.signOut a r).Presentable name ↔ s.Presentable name := by
    have hlist : (s.signOut a r).registered_users_list = s.registered_users_list := rfl
    rw [Server.Presentable, Server.Presentable, hheap, hlist]
  have hk' : (s.signOut a r).Known sha256 name := by
    obtain ⟨b, pass, hb, hpass, hhash⟩ := hk.password
    exact ⟨hk.name, b, pass, hchange.get_user_registered hi hb, hpass, by rwa [hheap]⟩
  constructor
  · intro h
    refine ⟨?_, hpresentable.mp ((hk'.canLogin_iff hi'.table h.inactive).mp h.returns)⟩
    -- anybody else would have been signed out for nothing
    by_contra hne
    have hleaves := h.others a (hi.known a hact) (by rwa [hname])
    have herase := hleaves.active.mpr hact
    rw [hactive] at herase
    exact (hi.nodup.mem_erase_iff.mp herase).1 rfl
  · rintro ⟨rfl, hreal⟩
    have hinactive : ∀ b ∈ (s.signOut a r).active_users_list,
        ((s.signOut a r).heap b).username ≠ user := by
      intro b hb he
      rw [hactive] at hb
      rw [hheap] at he
      obtain ⟨hne, hb⟩ := hi.nodup.mem_erase_iff.mp hb
      exact hne (hi.username_inj hb hact (he.trans hname.symm))
    obtain ⟨-, hnowhere, -, hreturns⟩ :=
      (cleaned_unchanged hi' hk').mpr ⟨hinactive, hpresentable.mpr hreal⟩
    exact ⟨hinactive, hnowhere, fun b hb hne => hchange.leaves hi hb hne, hreturns⟩

/-- The end of a session frees nothing. -/
theorem allocated_signOut {a : Addr} {r : RoomRef} (hi : s.Housed)
    (ha : LinkedList.get_user s.heap s.active_users_list user = some a)
    (hr : LinkedList.Rget_roomFID s.room_list (s.heap a).roomID = some r) :
    (s.signOut a r).Allocated ↔ s.Allocated := by
  have hchange : Change user s (s.signOut a r) := .signOut ha hr
  rw [(hchange.housed hi).allocated_registered, hi.allocated_registered]
  exact Iff.rfl

/-- **The end of a session cleans up**, on lists that refer to no freed record, just if there is
none in them before, the packet that is handled names its user, or there is nothing to clean up and
nobody for whom the packet could be; and if the user is not called `ERROR`. -/
theorem session_end_iff {w : World} (hw : Reachable sha256 w)
    (hfd : w.conns fd = .serving (some name)) (env : Env) (e : Ending) :
    ∃ next s' es, ops.run (e.handle sha256 env name fd) w.server = .ok (next, s', es) ∧
      (s'.Allocated ∧ CleanedUp sha256 w.server s' name ↔
        w.server.Allocated ∧
        (e.sender = some name ∨
          (∀ a ∈ w.server.active_users_list, (w.server.heap a).username ≠ name) ∧
          ∀ a ∈ w.server.active_users_list, e.sender ≠ some (w.server.heap a).username) ∧
        w.server.Presentable name) := by
  have hi := hw.housed
  have hk := hw.known fd name hfd
  -- the three ways come to one packet, or to none
  have hpacket (p : Packet) (hopt : p.options = EXIT ∨ p.options = 0) :
      ∃ next s' es,
        ops.run (client_receive sha256 env (some name) p fd) w.server = .ok (next, s', es) ∧
        (s'.Allocated ∧ CleanedUp sha256 w.server s' name ↔
          w.server.Allocated ∧
          (p.username = name ∨
            (∀ a ∈ w.server.active_users_list, (w.server.heap a).username ≠ name) ∧
            ∀ a ∈ w.server.active_users_list, p.username ≠ (w.server.heap a).username) ∧
          w.server.Presentable name) := by
    obtain ⟨s', es, hrun, h⟩ := run_ending hi sha256 env name fd hopt
    refine ⟨.done, s', es, hrun, ?_⟩
    rcases h with ⟨hnone, rfl⟩ | ⟨a, r, ha, hr, rfl⟩
    · have hno := LinkedList.get_user_none.mp hnone
      rw [cleaned_unchanged hi hk]
      refine and_congr_right fun _ => and_congr_left fun _ =>
        ⟨fun hact => .inr ⟨hact, fun a ha he => hno a ha he.symm⟩, ?_⟩
      rintro (rfl | ⟨hact, -⟩)
      · exact hno
      · exact hact
    · obtain ⟨hact, hname⟩ := LinkedList.get_user_some ha
      rw [cleaned_signOut hi hk ha hr, allocated_signOut hi ha hr]
      refine and_congr_right fun _ => and_congr_left fun _ => (or_iff_left ?_).symm
      rintro ⟨-, hno⟩
      exact hno a hact hname.symm
  cases e with
  | exit p hopt =>
    obtain ⟨next, s', es, hrun, h⟩ := hpacket p (.inl hopt)
    refine ⟨next, s', es, hrun, h.trans ?_⟩
    simp only [Ending.sender, Option.some.injEq, ne_eq]
  | failed =>
    obtain ⟨next, s', es, hrun, h⟩ := hpacket .cleared (.inr rfl)
    refine ⟨next, s', es, hrun, h.trans ?_⟩
    simp only [Ending.sender, Option.some.injEq, ne_eq, Packet.cleared]
  | closed =>
    refine ⟨_, _, [], rfl, (and_congr_right fun _ => cleaned_unchanged hi hk).trans ?_⟩
    simp [Ending.sender]

/-- Alice's client knows her name when it sends its EXIT. -/
theorem session_end_iff_alice : ∃ next s' es,
    ops.run (client_receive Sample.sha256 Sample.env (some (str "alice"))
      ⟨0, [], str "alice", str "alice", EXIT⟩ 4) (Sample.world (Sample.enter 4 "alice")).server =
        .ok (next, s', es) ∧
    s'.Allocated ∧
    CleanedUp Sample.sha256 (Sample.world (Sample.enter 4 "alice")).server s' (str "alice") := by
  have hconn : (Sample.world (Sample.enter 4 "alice")).conns 4 =
      .serving (some (str "alice")) := by decide
  have hfreed : (Sample.world (Sample.enter 4 "alice")).server.freed = [] := by decide
  obtain ⟨next, s', es, hrun, h⟩ := session_end_iff (Sample.reachable _) hconn Sample.env
    (.exit ⟨0, [], str "alice", str "alice", EXIT⟩ rfl)
  have hrecord : LinkedList.get_user (Sample.world (Sample.enter 4 "alice")).server.heap
        (Sample.world (Sample.enter 4 "alice")).server.registered_users_list (str "alice") =
          some 0 ∧
      ((Sample.world (Sample.enter 4 "alice")).server.heap 0).real_name ≠ ERROR := by decide
  refine ⟨next, s', es, hrun, h.mpr ⟨?_, .inl rfl, fun a ha => ?_⟩⟩
  · exact (Sample.reachable _).housed.allocated hfreed
  · obtain rfl := Option.some.inj (hrecord.1.symm.trans ha)
    exact hrecord.2

/-- Her EXIT overtakes the reply to her login, and she stays active. -/
theorem early_exit_leaves : ¬ ∀ (sha256 : Str → Digest) (env : Env) (w : World) (fd : Int)
    (name : Str) (e : Ending), OwnReachable sha256 w → w.conns fd = .serving (some name) →
    (∀ q, e.sender = some q → q = [] ∨ q = name) →
    ∃ next s' es, ops.run (e.handle sha256 env name fd) w.server = .ok (next, s', es) ∧
      CleanedUp sha256 w.server s' name := by
  intro h
  let w := Sample.world (Sample.enter 4 "alice")
  let p : Packet := ⟨0, [], [], [], EXIT⟩
  have hown : OwnReachable Sample.sha256 w := Sample.ownReachable _ (by decide)
  obtain ⟨next, s', es, hrun, hclean⟩ := h Sample.sha256 Sample.env w 4 (str "alice") (.exit p rfl)
    hown (by decide) (fun q hq => .inl (Option.some.inj hq).symm)
  have hactive : (ops.run (client_receive Sample.sha256 Sample.env (some (str "alice")) p 4)
      w.server).map (fun r => r.2.1.active_users_list.map fun a => (r.2.1.heap a).username) =
        .ok [str "alice"] := by decide
  have hrun : ops.run (client_receive Sample.sha256 Sample.env (some (str "alice")) p 4) w.server =
      .ok (next, s', es) := hrun
  rw [hrun] at hactive
  have hnames : (s'.active_users_list.map fun a => (s'.heap a).username) = [str "alice"] :=
    Except.ok.inj hactive
  have hmem : str "alice" ∈ s'.active_users_list.map fun a => (s'.heap a).username := by
    rw [hnames]
    exact List.mem_singleton_self _
  obtain ⟨a, ha, hname⟩ := List.mem_map.mp hmem
  exact hclean.inactive a ha hname

end TBDChat
