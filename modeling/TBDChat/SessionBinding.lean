import TBDChat.FreedRecords

/-!
# Whose connection is whose

A login stores the connection in the user's record, and `send_message` sends to
whatever descriptor is stored there.  The end of a session closes the connection
the packet came on, but signs out the user whom the packet names.  As long as the
two belong together, sessions and active users are in one-to-one correspondence
(`Server.Linked`); after the first packet for which they do not, the record of the
user whose connection it was points to a descriptor that nobody serves, and which
the next connection may be given.
-/

namespace TBDChat
open Atomic

set_option maxRecDepth 8000

/-- Every active user's `sock` is a connection that is being served and is logged
in by that username, and no two of them share one. -/
structure World.Bound (w : World) : Prop where
  serving : ∀ a ∈ w.server.active_users_list,
    w.conns (w.server.heap a).sock = .serving (some (w.server.heap a).username)
  distinct : w.server.active_users_list.Pairwise
    (fun a b => (w.server.heap a).sock ≠ (w.server.heap b).sock)

/-- Active users and sessions belong together, one to one. -/
structure Server.Linked (s : Server) (conns : Int → Conn) : Prop where
  serving : ∀ a ∈ s.active_users_list,
    conns (s.heap a).sock = .serving (some (s.heap a).username)
  attended : ∀ fd name, conns fd = .serving (some name) →
    ∃ a ∈ s.active_users_list, (s.heap a).username = name ∧ (s.heap a).sock = fd

theorem Server.Linked.bound {w : World} (hl : w.server.Linked w.conns) (hi : w.server.Housed) :
    w.Bound where
  serving := hl.serving
  distinct := by
    refine hi.distinct.imp_of_mem fun {a b} ha hb hne hsock => hne ?_
    have hconn := hl.serving a ha
    rw [hsock, hl.serving b hb] at hconn
    exact (Option.some.inj (Conn.serving.inj hconn)).symm

/-! ## Changes that no session notices -/

/-- The same users are active, under the same names and on the same
connections. -/
structure SameSessions (s s' : Server) : Prop where
  active : s'.active_users_list = s.active_users_list
  username : ∀ a ∈ s.active_users_list, (s'.heap a).username = (s.heap a).username
  sock : ∀ a ∈ s.active_users_list, (s'.heap a).sock = (s.heap a).sock

namespace SameSessions
variable {s s' s'' : Server}

theorem of_heap (hactive : s'.active_users_list = s.active_users_list) (hheap : s'.heap = s.heap) :
    SameSessions s s' :=
  ⟨hactive, fun _ _ => by rw [hheap], fun _ _ => by rw [hheap]⟩

theorem trans (h : SameSessions s s') (h' : SameSessions s' s'') : SameSessions s s'' where
  active := h'.active.trans h.active
  username a ha := (h'.username a (h.active ▸ ha)).trans (h.username a ha)
  sock a ha := (h'.sock a (h.active ▸ ha)).trans (h.sock a ha)

theorem enrol (hi : s.Housed) (u : User) : SameSessions s (s.enrol u) := by
  have hheap (a : Addr) (ha : a ∈ s.active_users_list) : (s.enrol u).heap a = s.heap a :=
    Server.enrol_heap_old (hi.fresh a (hi.known a ha))
  exact ⟨rfl, fun a ha => by rw [hheap a ha], fun a ha => by rw [hheap a ha]⟩

theorem openRoom (s : Server) (fd : Int) (name : Str) : SameSessions s (s.openRoom fd name) := by
  obtain ⟨rooms, n, h⟩ := s.openRoom_eq fd name
  rw [h]
  exact of_heap rfl rfl

theorem move {a : Addr} (hlen : (s.heap a).username.length < 192) (r r' : RoomRef) (ID : Int) :
    SameSessions s (s.move a r r' ID) where
  active := rfl
  username b _ := s.username_move hlen r r' ID b
  sock b _ := by
    rw [Server.move, Server.insertUser, Server.setUsers_heap,
      Server.modify_congr (g := User.sock) rfl, Server.removeUser, Server.setUsers_heap]

theorem rename {a : Addr} (hlen : (s.heap a).username.length < 64) (name : Str) :
    SameSessions s (s.rename a name) :=
  ⟨rfl, fun b _ => s.username_rename hlen name b, fun b _ => rename_sock s a name b⟩

theorem setPassword {a : Addr} (hlen : (s.heap a).username.length < 64) (hash : Digest) :
    SameSessions s (s.setPassword a hash) :=
  ⟨rfl, fun b _ => s.username_setPassword hlen hash b, fun b _ => setPassword_sock s a hash b⟩

/-- The correspondence does not notice either. -/
theorem linked {conns : Int → Conn} (h : SameSessions s s') (hl : s.Linked conns) :
    s'.Linked conns where
  serving a ha := by
    have ha' : a ∈ s.active_users_list := h.active ▸ ha
    rw [h.sock a ha', h.username a ha']
    exact hl.serving a ha'
  attended fd name hfd := by
    obtain ⟨a, ha, hname, hsock⟩ := hl.attended fd name hfd
    refine ⟨a, h.active.symm ▸ ha, ?_, ?_⟩
    · exact (h.username a ha).trans hname
    · exact (h.sock a ha).trans hsock

end SameSessions

/-! ## The sessions that begin and end -/

namespace Server.Linked
variable {s : Server} {conns : Int → Conn} {fd : Int} {a : Addr} {r : RoomRef}

/-- A connection without a session, before or after. -/
theorem idle {c : Conn} (hl : s.Linked conns)
    (hfd : ∀ name, conns fd ≠ .serving (some name)) (hc : ∀ name, c ≠ .serving (some name)) :
    s.Linked (Function.update conns fd c) where
  serving b hb := by
    have hne : (s.heap b).sock ≠ fd := fun h => hfd _ (h ▸ hl.serving b hb)
    rw [Function.update_of_ne hne]
    exact hl.serving b hb
  attended d name hd := by
    by_cases h : d = fd
    · subst h
      rw [Function.update_self] at hd
      exact absurd hd (hc name)
    · rw [Function.update_of_ne h] at hd
      exact hl.attended d name hd

/-- A login on a connection without a session. -/
theorem signIn {user : Str} (hl : s.Linked conns)
    (hlen : (s.heap a).username.length < 192) (hname : (s.heap a).username = user)
    (hfd : conns fd = .serving none) (hr : r < s.room_list.length)
    (hact : LinkedList.get_user s.heap s.active_users_list user = none) :
    (s.signIn a fd r).Linked (Function.update conns fd (.serving (some user))) := by
  subst hname
  have huser := s.username_signIn hlen fd r
  have hactive := (Server.signIn_lists fd hr hact).1
  have hsock (b : Addr) :
      ((s.signIn a fd r).heap b).sock = if b = a then fd else (s.heap b).sock := by
    by_cases h : b = a
    · subst h
      simp [Server.signIn, Server.insertNode]
    · simp [Server.signIn, Server.insertNode, Server.modify_heap_ne _ _ _ h, h, Server.insertUser]
  have hnew : a ∉ s.active_users_list := fun h => LinkedList.get_user_none.mp hact a h rfl
  refine ⟨fun b hb => ?_, fun d name hd => ?_⟩
  · rw [hsock, huser]
    -- the one who logs in has `fd`, and no other active user had it
    by_cases hba : b = a
    · rw [if_pos hba, Function.update_self, hba]
    · rw [hactive] at hb
      rcases List.mem_append.mp hb with hb | hb
      · have hconn := hl.serving b hb
        have hne : (s.heap b).sock ≠ fd := by
          intro h
          rw [h, hfd] at hconn
          cases hconn
        rw [if_neg hba, Function.update_of_ne hne]
        exact hconn
      · exact absurd (List.mem_singleton.mp hb) hba
  · rw [hactive]
    by_cases h : d = fd
    · subst h
      rw [Function.update_self] at hd
      refine ⟨a, List.mem_append_right _ (List.mem_singleton_self a), ?_, ?_⟩
      · rw [huser]
        exact Option.some.inj (Conn.serving.inj hd)
      · rw [hsock, if_pos rfl]
    · rw [Function.update_of_ne h] at hd
      obtain ⟨b, hb, hname, hbsock⟩ := hl.attended d name hd
      have hba : b ≠ a := fun he => hnew (he ▸ hb)
      refine ⟨b, List.mem_append_left _ hb, ?_, ?_⟩
      · rw [huser]
        exact hname
      · rw [hsock, if_neg hba]
        exact hbsock

/-- The end of a session by its own name. -/
theorem signOut {c : Conn} (hl : s.Linked conns) (hi : s.Housed)
    (hr : r < s.room_list.length) (ha : a ∈ s.members r)
    (hfd : conns fd = .serving (some (s.heap a).username))
    (hc : ∀ name, c ≠ .serving (some name)) :
    (s.signOut a r).Linked (Function.update conns fd c) := by
  have hheap : (s.signOut a r).heap = s.heap := by simp [Server.signOut, Server.removeUser]
  have hactive := (Server.signOut_lists hi hr ha).1
  have haa := hi.active hr ha
  -- the session on `fd` has one user, and it is the one who is signed out
  have hsock : (s.heap a).sock = fd := by
    obtain ⟨b, hb, hname, hbsock⟩ := hl.attended fd _ hfd
    rw [← hi.username_inj hb haa hname]
    exact hbsock
  refine ⟨fun b hb => ?_, fun d name hd => ?_⟩
  · rw [hactive] at hb
    obtain ⟨hne, hb⟩ := hi.nodup.mem_erase_iff.mp hb
    have hconn := hl.serving b hb
    have hfd' : (s.heap b).sock ≠ fd := by
      intro h
      rw [h, hfd] at hconn
      exact hne (hi.username_inj hb haa (Option.some.inj (Conn.serving.inj hconn)).symm)
    rw [hheap, Function.update_of_ne hfd']
    exact hconn
  · by_cases h : d = fd
    · subst h
      rw [Function.update_self] at hd
      exact absurd hd (hc name)
    · rw [Function.update_of_ne h] at hd
      obtain ⟨b, hb, hname, hbsock⟩ := hl.attended d name hd
      refine ⟨b, ?_, ?_, ?_⟩
      · rw [hactive]
        refine hi.nodup.mem_erase_iff.mpr ⟨fun he => h ?_, hb⟩
        rw [he, hsock] at hbsock
        exact hbsock.symm
      · rw [hheap]
        exact hname
      · rw [hheap]
        exact hbsock

end Server.Linked

/-! ## One packet -/

section Packets
variable {sha256 : Str → Digest} {env : Env} {p : Packet} {fd : Int} {s s' : Server}
  {conns : Int → Conn}

/-- A login keeps the correspondence. -/
theorem Login.linked {user pass : Str} {b : Bool} {es : List Effect} (hu : user.length < 192)
    (hl : s.Linked conns) (hfd : conns fd = .serving none)
    (h : Login sha256 env user pass fd s b s' es) :
    s'.Linked (Function.update conns fd (.serving (if b then some user else none))) := by
  have hquiet : Function.update conns fd (.serving none) = conns := by
    rw [← hfd, Function.update_eq_self]
  cases h with
  | refused =>
    rw [if_neg Bool.false_ne_true, hquiet]
    exact hl
  | discarded =>
    rw [if_neg Bool.false_ne_true, hquiet]
    exact ⟨hl.serving, hl.attended⟩
  | signedIn ha hp hact hr =>
    rw [if_pos rfl]
    have hname := (LinkedList.get_user_some (Server.account_some ha)).2
    exact hl.signIn (by rwa [hname]) hname hfd (Rget_roomFID_lt hr) hact

/-- A packet keeps the correspondence, unless it ends a session under another
name. -/
theorem Received.linked {session : Option Str} {next : Next} {es : List Effect} (hp : p.Wf)
    (hi : s.Housed) (hl : s.Linked conns) (hfd : conns fd = .serving session)
    (h : Received sha256 env p fd s session next s' es)
    (hown : ∀ name, session = some name → p.options = EXIT ∨ p.options = 0 →
      p.username = name) :
    s'.Linked (Function.update conns fd (next.conn es fd)) := by
  have hlogin : (loginName p).length < 192 := Nat.lt_of_le_of_lt (hp.arg_length 1) (by decide)
  have hlen : p.username.length < 64 := Nat.lt_succ_of_le hp.username.1
  -- a request that ends no session and begins none leaves the connection as it is
  have hstay {s' : Server} (h : SameSessions s s') :
      s'.Linked (Function.update conns fd (.serving session)) := by
    rw [← hfd, Function.update_eq_self]
    exact h.linked hl
  cases h with
  | refused | answered | chat => exact hstay (.of_heap rfl rfl)
  | login _ _ hlog => exact hlog.linked hlogin hl hfd
  | register _ hlog => exact hlog.linked hlogin ((SameSessions.enrol hi _).linked hl) hfd
  | hungUp =>
    rw [Next.conn, if_pos List.mem_cons_self]
    exact hl.idle (by simp [hfd]) (by simp)
  | renamed _ _ ha _ => exact hstay (.rename (by rwa [(LinkedList.get_user_some ha).2]) _)
  | passwordSet hc => exact hstay (.setPassword (by rwa [(LinkedList.get_user_some hc.user).2]) _)
  | opened => exact hstay (.openRoom s _ _)
  | joined _ hs₁ _ ha _ _ hs₂ =>
    subst hs₁ hs₂
    refine hstay ((SameSessions.openRoom s _ _).trans (.move ?_ _ _ _))
    rw [(LinkedList.get_user_some ha).2]
    omega
  | left _ _ _ _ ha _ hs' _ =>
    subst hs'
    refine hstay (.move ?_ _ _ _)
    rw [(LinkedList.get_user_some ha).2]
    omega
  | @vanished name hopt ha =>
    -- the user of the session is active, so its own name is found
    obtain ⟨a, hact, hname, -⟩ := hl.attended fd name hfd
    rw [← hown name rfl hopt] at hname
    exact absurd hname (LinkedList.get_user_none.mp ha a hact)
  | @signedOut name a r hopt ha hr =>
    have hname := (LinkedList.get_user_some ha).2
    rw [← hown name rfl hopt, ← hname] at hfd
    obtain ⟨hlt, hmem⟩ := hi.member_of_roomID ha hr
    rw [Next.conn, if_pos (by simp)]
    exact hl.signOut hi hlt hmem hfd (by simp)

/-- A packet that ends a session under another name leaves the user of the
session behind. -/
theorem Received.unbound {name : Str} {next : Next} {es : List Effect}
    (hi : s.Housed) (hl : s.Linked conns) (hfd : conns fd = .serving (some name))
    (h : Received sha256 env p fd s (some name) next s' es)
    (hopt : p.options = EXIT ∨ p.options = 0) (hne : p.username ≠ name) :
    ¬ World.Bound ⟨s', Function.update conns fd (next.conn es fd)⟩ := by
  obtain ⟨a, ha, hname, hsock⟩ := hl.attended fd name hfd
  -- the user of the session is active still, and nobody serves `fd`
  have hend {s' : Server} {c : Conn} (hact : a ∈ s'.active_users_list) (hheap : s'.heap = s.heap)
      (hc : ∀ name, c ≠ .serving (some name)) : ¬ World.Bound ⟨s', Function.update conns fd c⟩ := by
    intro hb
    have hconn := hb.serving a hact
    simp only [hheap, hsock, Function.update_self] at hconn
    exact hc _ hconn
  have hno (options : Int) (ho : p.options = options) (hE : options ≠ EXIT) (h0 : options ≠ 0) :
      False := by
    rw [ho] at hopt
    exact hopt.elim hE h0
  cases h with
  | answered hexit => exact absurd hopt hexit
  | renamed ho => exact (hno _ ho (by decide) (by decide)).elim
  | passwordSet hc => exact (hno _ hc.options (by decide) (by decide)).elim
  | opened hj | joined hj => exact (hno _ hj.options (by decide) (by decide)).elim
  | left ho => exact (hno _ ho (by decide) (by decide)).elim
  | chat ho =>
    rcases hopt with h | h
    · rw [h] at ho
      exact absurd ho (by decide)
    · rw [h] at ho
      exact absurd ho (by decide)
  | vanished => exact hend ha rfl (by simp [Next.conn])
  | @signedOut _ b r _ hb hr =>
    have hbname := (LinkedList.get_user_some hb).2
    obtain ⟨hlt, hmem⟩ := hi.member_of_roomID hb hr
    refine hend ?_ (by simp [Server.signOut, Server.removeUser]) (by simp [Next.conn])
    rw [(Server.signOut_lists hi hlt hmem).1]
    refine hi.nodup.mem_erase_iff.mpr ⟨fun he => hne ?_, ha⟩
    rw [← hbname, ← hname, he]

theorem Effect.Reply.options_lt {d : Int} {q : Packet} (h : (Effect.send d q).Reply) :
    q.options < 1000 := by
  obtain ⟨fd, q', he, hmem⟩ := h
  cases he
  have hall : ∀ n ∈ [NAMESUC, JOINSUC, MOTD, INVITE, INVITESUC, GETUSERS, GETALLUSERS, GETUSER,
      GETROOMS, SERV_ERR], n < 1000 := by decide
  exact hall _ hmem

/-- **Room traffic goes to the members of the room**, as they are before the
packet or after it. -/
theorem Received.traffic {session : Option Str} {next : Next} {es : List Effect} {d : Int}
    {q : Packet} (h : Received sha256 env p fd s session next s' es) (hq : Effect.send d q ∈ es)
    (hopt : 1000 ≤ q.options) : s.Hears d q.options ∨ s'.Hears d q.options := by
  have hcode {n : Int} (hn : n < 1000) (h : q.options = n) : False := by omega
  cases h.sends hq with
  | reply hreply => exact absurd hreply.options_lt (Int.not_lt.mpr hopt)
  | loggedIn h => exact (hcode (by decide) h).elim
  | passwordSet h => exact (hcode (by decide) h).elim
  | goodbye h => exact (hcode (by decide) h).elim
  | before h => exact .inl h
  | after h => exact .inr h

end Packets

/-! ## Runs -/

section Runs
variable {sha256 : Str → Digest} {w w' : World} {e : Event} {es : List Effect}

/-- An event that ends no session under a name it was not begun with. -/
def World.EndsOwn (w : World) (e : Event) : Prop :=
  ∀ fd p env name, e = .packet fd p env → w.conns fd = .serving (some name) →
    p.options = EXIT ∨ p.options = 0 → p.username = name

theorem Step.linked (hi : w.server.Housed) (hl : w.server.Linked w.conns)
    (hs : Step sha256 w e w' es) (hown : w.EndsOwn e) : w'.server.Linked w'.conns := by
  cases hs with
  | accept hfd => exact hl.idle (by simp [hfd]) (by simp)
  | packet hfd hp hrun =>
    exact (received hrun).linked hp hi hl hfd fun name hname hopt =>
      hown _ _ _ name rfl (hname ▸ hfd) hopt

theorem Step.endsOwn (hi : w.server.Housed) (hl : w.server.Linked w.conns)
    (hs : Step sha256 w e w' es) (hb : w'.Bound) : w.EndsOwn e := by
  intro fd p env name he hfd hopt
  subst he
  obtain ⟨next, -, hrun, hconns⟩ := hs.handled hfd
  have hbound : World.Bound ⟨w'.server, w'.conns⟩ := hb
  rw [hconns] at hbound
  by_contra hne
  exact (received hrun).unbound hi hl hfd hopt hne hbound

/-- A member of the room of that number is logged in on the connection `d`. -/
def World.Member (w : World) (d ID : Int) : Prop :=
  ∃ room ∈ w.server.room_list, room.ID = ID ∧
    ∃ a ∈ room.user_list, w.conns d = .serving (some (w.server.heap a).username)

theorem Server.Hears.member {d ID : Int} (h : w.server.Hears d ID) (hi : w.server.Housed)
    (hl : w.server.Linked w.conns) : w.Member d ID := by
  obtain ⟨room, hmem, hID, a, ha, rfl⟩ := h
  obtain ⟨k, hk, rfl⟩ := List.mem_iff_getElem.mp hmem
  have hmember : a ∈ w.server.members k := by
    simpa [Server.members, Server.room, hk] using ha
  exact ⟨_, hmem, hID, a, ha, hl.serving a (hi.active hk hmember)⟩

theorem Step.traffic {d : Int} {q : Packet} (hi : w.server.Housed)
    (hl : w.server.Linked w.conns) (hi' : w'.server.Housed) (hl' : w'.server.Linked w'.conns)
    (hs : Step sha256 w e w' es) (hq : Effect.send d q ∈ es) (hopt : 1000 ≤ q.options) :
    w.Member d q.options ∨ w'.Member d q.options := by
  cases hs with
  | accept => cases hq
  | packet hfd hp hrun =>
    rcases (received hrun).traffic hq hopt with h | h
    · exact .inl (h.member hi hl)
    · exact .inr (Server.Hears.member h hi' hl')

theorem boot_linked (file : Option (List UInt8)) (fd : Int) :
    (World.boot file fd).server.Linked (World.boot file fd).conns :=
  ⟨fun _ ha => (List.not_mem_nil ha).elim, fun _ _ h => nomatch h⟩

/-- **Every active user's connection is its own**, in a record that has not been freed, and room
traffic goes to connections on which a member of the room is logged in, in the runs in which
every session is ended under the name it was begun with and nobody logs in to an account that is
active, and in no others. -/
theorem session_binding_iff (run : Run sha256) :
    ((∀ t ≤ run.length, (run.state t).server.Allocated ∧ (run.state t).Bound) ∧
      ∀ t < run.length, ∀ d q, Effect.send d q ∈ run.out t → 1000 ≤ q.options →
        (run.state t).Member d q.options ∨ (run.state (t + 1)).Member d q.options) ↔
    ∀ t < run.length, (run.state t).EndsOwn (run.event t) ∧
      (run.state t).NoSecondLogin sha256 (run.event t) := by
  have hstart : (run.state 0).server.Linked (run.state 0).conns := by
    obtain ⟨file, fd, h⟩ := run.boot
    rw [h]
    exact boot_linked file fd
  constructor
  · rintro ⟨hbound, -⟩
    -- the correspondence holds up to every state, as no event before it can break it
    have hlinked (t : Nat) (ht : t ≤ run.length) :
        (run.state t).server.Linked (run.state t).conns := by
      induction t with
      | zero => exact hstart
      | succ t ih =>
        have hi := (run.reachable (t := t) (by omega)).housed
        have hl := ih (by omega)
        have hs := run.next t ht
        exact hs.linked hi hl (hs.endsOwn hi hl (hbound (t + 1) ht).2)
    intro t ht
    have hi := (run.reachable (t := t) (by omega)).housed
    obtain ⟨hall, hb⟩ := hbound (t + 1) ht
    exact ⟨(run.next t ht).endsOwn hi (hlinked t (by omega)) hb, (run.next t ht).noSecondLogin hall⟩
  · intro hno
    have hlinked (t : Nat) (ht : t ≤ run.length) :
        (run.state t).server.Linked (run.state t).conns := by
      induction t with
      | zero => exact hstart
      | succ t ih =>
        have hi := (run.reachable (t := t) (by omega)).housed
        exact (run.next t ht).linked hi (ih (by omega)) (hno t ht).1
    refine ⟨fun t ht => ⟨?_, (hlinked t ht).bound (run.reachable ht).housed⟩,
      fun t ht d q hq hopt => ?_⟩
    · exact run.allocated (fun t ht => (hno t ht).2) ht
    · exact (run.next t ht).traffic (run.reachable (Nat.le_of_lt ht)).housed
        (hlinked t (Nat.le_of_lt ht)) (run.reachable (t := t + 1) ht).housed (hlinked (t + 1) ht)
        hq hopt

/-- Alice ends her session as nobody; her record keeps a connection that is not
hers any more. -/
theorem session_unbound : ¬ ∀ (sha256 : Str → Digest) (w : World), Reachable sha256 w → w.Bound := by
  intro h
  let events := Sample.enter 4 "alice" ++ [Sample.packet 4 EXIT "" ""]
  have hactive : 0 ∈ (Sample.world events).server.active_users_list := by decide
  have hconn : (Sample.world events).conns ((Sample.world events).server.heap 0).sock =
      .abandoned := by decide
  have hbound := (h Sample.sha256 (Sample.world events) (Sample.reachable events)).serving 0 hactive
  rw [hconn] at hbound
  cases hbound

end Runs
end TBDChat
