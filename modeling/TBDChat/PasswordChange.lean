import TBDChat.Membership

/-!
# How a password changes

`set_pass` blanks the stored hash before it writes the new one, but only when all
its checks have passed, and no other handler writes that far into a record: a name
that is set is 64 bytes long and ends where the password begins.
-/

namespace TBDChat
open Atomic Bytes

set_option maxRecDepth 8000

/-- No two registered users have one name. -/
def Server.DistinctUsers (s : Server) : Prop :=
  s.registered_users_list.Pairwise (fun a b => (s.heap a).username ≠ (s.heap b).username)

/-- The packet is a request to change the password of `a`, from a connection that
is logged in, by someone who knows it. -/
structure Authorized (sha256 : Str → Digest) (session : Option Str) (p : Packet) (s : Server)
    (a : Addr) : Prop where
  session : session.isSome
  options : p.options = SETPASS
  words : 4 ≤ (words p.buf).length
  equal : arg (TBDChat.words p.buf) 2 = arg (TBDChat.words p.buf) 3
  length : 3 ≤ (arg (TBDChat.words p.buf) 2).length ∧ (arg (TBDChat.words p.buf) 2).length ≤ 32
  user : p.username = (s.heap a).username
  old : (sha256 (arg (TBDChat.words p.buf) 1)).bytes = (s.heap a).hash

variable {sha256 : Str → Digest} {env : Env} {p : Packet} {fd : Int} {s s' : Server} {a b : Addr}

/-! ## Distinct usernames -/

theorem Change.distinctUsers {who : Str} (hi : s.Housed) (hd : s.DistinctUsers)
    (h : Change who s s') : s'.DistinctUsers := by
  -- whatever the change, the users who were registered keep their names
  have hlisted : s.registered_users_list.Pairwise
      (fun a b => (s'.heap a).username ≠ (s'.heap b).username) := by
    refine hd.imp_of_mem fun {a b} ha hb hne => ?_
    rwa [h.username (hi.fresh a ha), h.username (hi.fresh b hb)]
  cases h with
  | enrol u => exact LinkedList.insertUser_distinct hlisted
  | @openRoom fd name =>
    obtain ⟨rooms, n, heq⟩ := s.openRoom_eq fd name
    rw [heq] at hlisted ⊢
    exact hlisted
  | free | signIn | move | rename | setPassword | signOut => exact hlisted

/-- A server that starts from a user file without duplicates never has any. -/
theorem ReachableFrom.distinctUsers {file : Option (List UInt8)} {fd₀ : Int} {w : World}
    (hfile : (LinkedList.readUserFile file).Pairwise (fun u v => u.username ≠ v.username))
    (hw : ReachableFrom sha256 (World.boot file fd₀) w) : w.server.DistinctUsers := by
  have hboot : (Server.boot file fd₀).DistinctUsers := by
    rw [← boot_registered file fd₀] at hfile
    simpa [Server.DistinctUsers, Server.registered, List.pairwise_map] using hfile
  exact (hw.induct (I := fun s => s.Housed ∧ s.DistinctUsers) ⟨boot_housed file fd₀, hboot⟩
    fun _ _ _ h hc => ⟨hc.housed h.1, hc.distinctUsers h.1 h.2⟩).2

/-! ## What writes to the password -/

namespace Server
variable (s : Server)

theorem password_enrol {s : Server} (hb : b < s.fresh) (u : User) :
    ((s.enrol u).heap b).password = (s.heap b).password := by
  rw [enrol_heap_old hb]

theorem password_signIn (r : RoomRef) :
    ((s.signIn a fd r).heap b).password = (s.heap b).password :=
  s.signIn_congr (fun _ _ => rfl) (fun _ _ => rfl) a fd r b

theorem password_openRoom (name : Str) :
    ((s.openRoom fd name).heap b).password = (s.heap b).password := by
  rw [openRoom_heap]

theorem password_move (r r' : RoomRef) (ID : Int) :
    ((s.move a r r' ID).heap b).password = (s.heap b).password :=
  s.move_congr (fun _ _ => rfl) a r r' ID b

/-- A name ends where the password begins. -/
theorem password_rename (name : Str) :
    ((s.rename a name).heap b).password = (s.heap b).password := by
  have hzero : 64 + (List.replicate 64 (0 : UInt8)).length ≤ 128 := by decide
  have hname : 64 + (pad 64 name).length ≤ 128 := by rw [length_pad]
  exact (modify_congr (g := User.password) (User.password_store hname) b).trans
    (modify_congr (g := User.password) (User.password_store hzero) b)

theorem password_signOut (r : RoomRef) :
    ((s.signOut a r).heap b).password = (s.heap b).password := by
  rw [signOut_heap]

end Server

theorem Login.password {user pass : Str} {c : Bool} {es : List Effect}
    (h : Login sha256 env user pass fd s c s' es) :
    (s'.heap b).password = (s.heap b).password := by
  cases h with
  | refused | discarded => rfl
  | signedIn => exact s.password_signIn _

/-- **Only a change of password touches a password.** -/
theorem Received.password {session : Option Str} {next : Next} {es : List Effect}
    (h : Received sha256 env p fd s session next s' es) (hb : b < s.fresh) :
    (s'.heap b).password = (s.heap b).password ∨
    ∃ a, session.isSome ∧ ChangesPassword sha256 p s a ∧
      s' = s.setPassword a (sha256 (arg (words p.buf) 2)) := by
  cases h with
  | refused | hungUp | answered | chat | vanished => exact .inl rfl
  | login _ _ hl => exact .inl hl.password
  | register _ hl => exact .inl (hl.password.trans (Server.password_enrol hb _))
  | renamed => exact .inl (s.password_rename _)
  | passwordSet hc => exact .inr ⟨_, rfl, hc, rfl⟩
  | opened => exact .inl (s.password_openRoom _)
  | joined _ hs₁ _ _ _ _ hs₂ =>
    subst hs₁ hs₂
    exact .inl ((Server.password_move _ _ _ _).trans (s.password_openRoom _))
  | left _ _ _ _ _ _ hs' _ =>
    subst hs'
    exact .inl (s.password_move _ _ _)
  | signedOut => exact .inl (s.password_signOut _)

/-! ## What a change of password does -/

/-- The record after its hash was blanked and written. -/
theorem User.setPassword (u : User) (h : Digest) :
    let u' := (u.store 128 (List.replicate 32 0)).store 128 h.bytes
    u'.hash = h.bytes ∧ u'.chars.take 128 = u.chars.take 128 ∧
    u'.chars.drop 160 = u.chars.drop 160 ∧ u'.sock = u.sock ∧ u'.roomID = u.roomID ∧
    u'.next = u.next := by
  have hzero : 128 + (List.replicate 32 (0 : UInt8)).length ≤ 160 := by decide
  have hhash : 128 + h.bytes.length ≤ 160 := by rw [h.size]
  have hlen : 128 + h.bytes.length ≤ (u.store 128 (List.replicate 32 0)).chars.length := by
    rw [h.size, (u.store 128 _).size]
    decide
  refine ⟨?_, ?_, ?_, rfl, rfl, rfl⟩
  · have htake := take_drop_poke hlen
    rwa [h.size] at htake
  · exact (take_poke (Nat.le_refl 128)).trans (take_poke (Nat.le_refl 128))
  · exact (drop_poke hhash).trans (drop_poke hzero)

theorem Server.setPassword_self (s : Server) (a : Addr) (h : Digest) : (s.setPassword a h).heap a =
    ((s.heap a).store 128 (List.replicate 32 0)).store 128 h.bytes := by
  simp [Server.setPassword, Server.writeUserFile]

theorem Server.setPassword_ne (s : Server) (h : Digest) (hba : b ≠ a) :
    (s.setPassword a h).heap b = s.heap b := by
  simp [Server.setPassword, Server.writeUserFile, modify_heap_ne _ _ _ hba]

/-- What makes a request authorized, where usernames are distinct, is what
`set_pass` checks. -/
theorem authorized_iff (hd : s.DistinctUsers) {session : Option Str}
    (ha : a ∈ s.registered_users_list) :
    Authorized sha256 session p s a ↔ session.isSome ∧ ChangesPassword sha256 p s a := by
  have hpass : acceptsPassword (arg (words p.buf) 2) (arg (words p.buf) 3) = true ↔
      arg (words p.buf) 2 = arg (words p.buf) 3 ∧
      3 ≤ (arg (words p.buf) 2).length ∧ (arg (words p.buf) 2).length ≤ 32 := by
    simp only [acceptsPassword, Bool.and_eq_true, decide_eq_true_eq, and_assoc]
  constructor
  · intro h
    refine ⟨h.session, h.options, h.words, hpass.mpr ⟨h.equal, h.length⟩, ?_, h.old.symm⟩
    rw [h.user]
    exact LinkedList.get_user_of_mem hd ha
  · rintro ⟨hs, hc⟩
    obtain ⟨heq, hlen⟩ := hpass.mp hc.pass
    exact ⟨hs, hc.options, hc.words, heq, hlen, (LinkedList.get_user_some hc.user).2.symm,
      hc.hash.symm⟩

/-- An authorized request that ends has its effect. -/
theorem run_authorized {name : Str} {next : Next} {es : List Effect}
    (hc : ChangesPassword sha256 p s a)
    (hrun : ops.run (client_receive sha256 env (some name) p fd) s = .ok (next, s', es)) :
    s' = s.setPassword a (sha256 (arg (words p.buf) 2)) ∧
      Effect.send fd (serverPacket env PASSSUC p.buf) ∈ es := by
  have hopt := hc.options
  have hset := request_of_receive (by rw [hopt]; decide) (by rw [hopt]; decide) hrun
  rw [receiveRequest_set_pass hopt, run_set_pass] at hset
  by_cases h15 : 15 < (words p.buf).length
  · rw [if_pos h15] at hset
    cases hset
  rw [if_neg h15, if_neg (Nat.not_le_of_lt hc.words)] at hset
  simp only [hc.pass, hc.user, hc.hash, ne_eq, not_true_eq_false, if_false, Bool.true_eq_false]
    at hset
  cases hset
  exact ⟨rfl, by simp⟩

theorem Effect.Reply.not_passsuc {d : Int} {q : Packet} (h : (Effect.send d q).Reply) :
    q.options ≠ PASSSUC := by
  obtain ⟨fd, q', he, hmem⟩ := h
  cases he
  have hall : ∀ n ∈ [NAMESUC, JOINSUC, MOTD, INVITE, INVITESUC, GETUSERS, GETALLUSERS, GETUSER,
      GETROOMS, SERV_ERR], n ≠ PASSSUC := by decide
  exact hall _ hmem

/-- The number of a room is no code of a reply. -/
theorem Server.Hears.not_passsuc {d ID : Int} (ht : s.Table) (h : s.Hears d ID) :
    ID ≠ PASSSUC := by
  obtain ⟨room, hmem, rfl, -⟩ := h
  have hrange := (ht.range room.ID (List.mem_map_of_mem hmem)).1
  intro h
  rw [h] at hrange
  exact absurd hrange (by decide)

/-- PASSSUC is the answer to a change of password and to nothing else. -/
theorem Received.passsuc {session : Option Str} {next : Next} {es : List Effect} {d : Int}
    {q : Packet} (ht : s.Table) (ht' : s'.Table)
    (h : Received sha256 env p fd s session next s' es) (hq : Effect.send d q ∈ es)
    (hopt : q.options = PASSSUC) : session.isSome ∧ ∃ a, ChangesPassword sha256 p s a := by
  have hcode {n : Int} (hn : PASSSUC ≠ n) (h : q.options = n) : False := hn (hopt.symm.trans h)
  cases h.sends hq with
  | reply h => exact absurd hopt h.not_passsuc
  | loggedIn h => exact (hcode (by decide) h).elim
  | passwordSet _ hsession hc => exact ⟨hsession, _, hc⟩
  | goodbye h => exact (hcode (by decide) h).elim
  | before h => exact absurd hopt (Server.Hears.not_passsuc ht h)
  | after h => exact absurd hopt (Server.Hears.not_passsuc ht' h)

/-- A hash that is not what it was was changed by someone who was authorized. -/
theorem Received.hash_ne {session : Option Str} {next : Next} {es : List Effect} (hi : s.Housed)
    (h : Received sha256 env p fd s session next s' es) (ha : a ∈ s.registered_users_list)
    (hne : (s'.heap a).hash ≠ (s.heap a).hash) :
    session.isSome ∧ ChangesPassword sha256 p s a := by
  -- either no password was touched, or that of one record
  rcases h.password (hi.fresh a ha) with h | ⟨b, hsession, hc, rfl⟩
  · exact absurd (congrArg (List.take 32) h) hne
  · by_cases hab : a = b
    · subst hab
      exact ⟨hsession, hc⟩
    · exact absurd (congrArg User.hash (s.setPassword_ne _ hab)) hne

/-- **Passwords change only with the old password.**  For a server that started
from a user file without duplicates and any packet on any connection: a stored
hash changes only if the packet is an authorized request for it; then it becomes
the hash of word 2, nothing else of any record changes, and the user file is
rewritten; and PASSSUC is sent just if the packet is authorized for some record.
A record that is freed is taken to keep its bytes (`Server.free`). -/
theorem password_changes {file : Option (List UInt8)} {fd₀ : Int} {w w' : World}
    {session : Option Str} {es : List Effect}
    (hfile : (LinkedList.readUserFile file).Pairwise (fun u v => u.username ≠ v.username))
    (hw : ReachableFrom sha256 (World.boot file fd₀) w) (hfd : w.conns fd = .serving session)
    (hs : Step sha256 w (.packet fd p env) w' es) :
    (∀ a ∈ w.server.registered_users_list, (w'.server.heap a).hash ≠ (w.server.heap a).hash →
      Authorized sha256 session p w.server a) ∧
    (∀ a ∈ w.server.registered_users_list, Authorized sha256 session p w.server a →
      (w'.server.heap a).hash = (sha256 (arg (words p.buf) 2)).bytes ∧
      ((w'.server.heap a).chars.take 128 = (w.server.heap a).chars.take 128 ∧
        (w'.server.heap a).chars.drop 160 = (w.server.heap a).chars.drop 160 ∧
        (w'.server.heap a).sock = (w.server.heap a).sock ∧
        (w'.server.heap a).roomID = (w.server.heap a).roomID ∧
        (w'.server.heap a).next = (w.server.heap a).next) ∧
      (∀ b ≠ a, w'.server.heap b = w.server.heap b) ∧
      w'.server.users_file =
        LinkedList.writeUserFile w'.server.registered w.server.users_file) ∧
    ((∃ d q, Effect.send d q ∈ es ∧ q.options = PASSSUC) ↔
      ∃ a ∈ w.server.registered_users_list, Authorized sha256 session p w.server a) := by
  have hd := hw.distinctUsers hfile
  have hreach : Reachable sha256 w := ⟨file, fd₀, hw⟩
  have hi := hreach.housed
  have htable' : w'.server.Table := (hreach.step hs).table
  obtain ⟨next, -, hrun, -⟩ := hs.handled hfd
  have hrec := received hrun
  have heffect (a : Addr) (ha : a ∈ w.server.registered_users_list)
      (hauth : Authorized sha256 session p w.server a) :
      w'.server = w.server.setPassword a (sha256 (arg (words p.buf) 2)) ∧
        Effect.send fd (serverPacket env PASSSUC p.buf) ∈ es := by
    obtain ⟨hsession, hc⟩ := (authorized_iff hd ha).mp hauth
    obtain ⟨name, rfl⟩ := Option.isSome_iff_exists.mp hsession
    exact run_authorized hc hrun
  refine ⟨fun a ha hne => ?_, fun a ha hauth => ?_, ?_⟩
  · exact (authorized_iff hd ha).mpr (hrec.hash_ne hi ha hne)
  · rw [(heffect a ha hauth).1]
    have hset := User.setPassword (w.server.heap a) (sha256 (arg (words p.buf) 2))
    rw [← w.server.setPassword_self a] at hset
    exact ⟨hset.1, hset.2, fun b hb => w.server.setPassword_ne _ hb, rfl⟩
  · constructor
    · rintro ⟨d, q, hq, hopt⟩
      obtain ⟨hsession, a, hc⟩ := hrec.passsuc hi.table htable' hq hopt
      have ha := (LinkedList.get_user_some hc.user).1
      exact ⟨a, ha, (authorized_iff hd ha).mpr ⟨hsession, hc⟩⟩
    · rintro ⟨a, ha, hauth⟩
      exact ⟨fd, _, (heffect a ha hauth).2, rfl⟩

/-- Alice changes her password. -/
theorem password_changes_alice : ∃ w' es,
    Step Sample.sha256 (Sample.world (Sample.enter 4 "alice"))
      (Sample.packet 4 SETPASS "alice" "/setpass secret new new") w' es ∧
    (w'.server.heap 0).hash = (Sample.sha256 (str "new")).bytes := by
  obtain ⟨w', es, hs⟩ := Sample.exists_step (Sample.enter 4 "alice")
    (Sample.packet 4 SETPASS "alice" "/setpass secret new new") (by decide)
  have hconn : (Sample.world (Sample.enter 4 "alice")).conns 4 =
      .serving (some (str "alice")) := by decide
  have hauth : Authorized Sample.sha256 (some (str "alice"))
      ⟨0, str "/setpass secret new new", str "alice", str "alice", SETPASS⟩
      (Sample.world (Sample.enter 4 "alice")).server 0 :=
    ⟨rfl, rfl, by decide, by decide, by decide, by decide, by decide⟩
  exact ⟨w', es, hs, ((password_changes .nil (Sample.reachableFrom _) hconn hs).2.1 0
    (by decide) hauth).1⟩

end TBDChat
