import TBDChat.ServiceRefinement
import TBDChat.UserFile

/-!
# The lives of the server

A server runs until it is killed, between two packets, and is started again from the user file
that it left.  `Life` is any number of such runs, one after the other.  The service goes on:
a restart loses the sessions and the rooms but no account.

What is posted in a room is heard by everybody who is there, the same posts in the same order,
and its log has all of them.
-/

namespace TBDChat
open Atomic Bytes ChatService

set_option maxRecDepth 8000

section Lives
variable {sha256 : Str → Digest}

/-! ## A restart -/

theorem Step.saved {w w' : World} {e : Event} {es : List Effect} (hs : Step sha256 w e w' es)
    (hsaved : w.server.Saved) : w'.server.Saved := by
  cases hs with
  | accept => exact hsaved
  | packet _ hp hrun =>
    have hchanges := (received hrun).changes hp
    clear hrun
    induction hchanges with
    | refl => exact hsaved
    | tail _ hc ih => exact hc.saved ih

/-- The accounts are in the records, whatever their addresses. -/
theorem Server.accounts_registered (s : Server) (u : Str) : s.accounts u =
    ((s.registered.map fun v => (v.username, v.account)).find? fun x => x.1 = u).map Prod.snd := by
  rw [accounts, LinkedList.get_user, registered, List.map_map, List.find?_map, Option.map_map]
  rfl

/-- A file of the same records is read back with the same names and digests. -/
theorem Server.Short.read_back {s : Server} {file : Option (List UInt8)} (hshort : s.Short)
    (hfile : (LinkedList.readUserFile file).map User.chars = s.registered.map User.chars) :
    (∀ u ∈ LinkedList.readUserFile file, u.username.length ≤ 63 ∧ u.real_name.length ≤ 63) ∧
    (LinkedList.readUserFile file).map (fun u => (u.username, u.account)) =
      s.registered.map fun u => (u.username, u.account) := by
  have hlen : (LinkedList.readUserFile file).length = s.registered.length := by
    simpa using congrArg List.length hfile
  have hback (i : Nat) (hi : i < (LinkedList.readUserFile file).length)
      (hi' : i < s.registered.length) :
      ((LinkedList.readUserFile file)[i].username = s.registered[i].username ∧
        (LinkedList.readUserFile file)[i].account = s.registered[i].account) ∧
      s.registered[i].username.length ≤ 63 ∧ s.registered[i].real_name.length ≤ 63 := by
    have hchars : (LinkedList.readUserFile file)[i].chars = s.registered[i].chars := by
      have hget := congrArg (fun l => l[i]?) hfile
      simpa [hi, hi'] using hget
    obtain ⟨a, ha, heq⟩ := List.mem_map.mp (List.getElem_mem hi')
    have hname : s.registered[i].username.length ≤ 63 := heq ▸ hshort.username a ha
    have hreal : s.registered[i].real_name.length ≤ 63 := heq ▸ hshort.real_name a ha
    refine ⟨⟨User.username_of_chars hchars (by omega), ?_⟩, hname, hreal⟩
    rw [User.account, User.account, User.real_name_of_chars hchars (by omega), User.hash,
      User.password, hchars]
    rfl
  constructor
  · intro u hu
    obtain ⟨i, hi, rfl⟩ := List.mem_iff_getElem.mp hu
    obtain ⟨⟨hname, hacc⟩, hlen', hlen''⟩ := hback i hi (hlen ▸ hi)
    refine ⟨hname ▸ hlen', ?_⟩
    rw [← User.account_shown, hacc]
    exact hlen''
  · refine List.ext_getElem (by simpa using hlen) fun i hi hi' => ?_
    rw [List.getElem_map, List.getElem_map]
    rw [List.length_map] at hi hi'
    exact Prod.ext (hback i hi hi').1.1 (hback i hi hi').1.2

/-- **A restart keeps the accounts** that are in the file, and nothing else. -/
theorem World.Settled.restart {w : World} {file : Option (List UInt8)} (hw : w.Settled)
    (hfile : (LinkedList.readUserFile file).map User.chars = w.server.registered.map User.chars)
    (fd : Int) : (World.boot file fd).Settled ∧
      (World.boot file fd).service = w.service.restart DEFAULT_ROOM_NAME := by
  obtain ⟨hshort, hread⟩ := hw.memory.short.read_back hfile
  refine ⟨boot_settled fd hshort, World.service_eq ?_ (fun _ => rfl) rfl rfl⟩
  funext u
  show (Server.boot file fd).accounts u = w.server.accounts u
  rw [Server.accounts_registered, Server.accounts_registered, boot_registered, hread]

/-! ## Lives -/

section Requests
variable {p : Packet} {u : Str} {secret old : List UInt8}

theorem Packet.of_request_register (h : p.request sha256 = .register u secret) :
    p.options = REGISTER ∧ arg (words p.buf) 1 = u ∧
      secret = (sha256 (arg (words p.buf) 2)).bytes := by
  unfold Packet.request at h
  dsimp only at h
  split_ifs at h with _ _ hreg
  cases h
  exact ⟨hreg.1, rfl, rfl⟩

theorem Packet.of_request_login (h : p.request sha256 = .login u secret) :
    p.options = LOGIN ∧ arg (words p.buf) 1 = u ∧
      secret = (sha256 (arg (words p.buf) 2)).bytes := by
  unfold Packet.request at h
  dsimp only at h
  split_ifs at h with _ _ _ hlogin
  cases h
  exact ⟨hlogin.1, rfl, rfl⟩

theorem Packet.of_request_changeSecret (h : p.request sha256 = .changeSecret old secret) :
    p.options = SETPASS ∧ old = (sha256 (arg (words p.buf) 1)).bytes ∧
      secret = (sha256 (arg (words p.buf) 2)).bytes := by
  unfold Packet.request at h
  dsimp only at h
  split_ifs at h with _ _ _ _ hset
  cases h
  exact ⟨hset.1, rfl, rfl⟩

end Requests

/-- What happens to a server. -/
inductive Happening where
  | event (e : Event)
  /-- It is killed and started again, with the Lobby's log at `fd`. -/
  | restart (fd : Int)

/-- A restart has nothing but the user file. -/
inductive Happens (sha256 : Str → Digest) : World → Happening → World → List Effect → Prop
  | event {w w' : World} {e : Event} {es : List Effect} (hs : Step sha256 w e w' es) :
      Happens sha256 w (.event e) w' es
  | restart {w : World} (fd : Int) :
      Happens sha256 w (.restart fd) (World.boot w.server.users_file fd) []

namespace Happening

def request (sha256 : Str → Digest) :
    Happening → Option (Int × Request Str Str (List UInt8) Str Packet)
  | .event e => some (e.request sha256)
  | .restart _ => none

def Proper (w : World) : Happening → Prop
  | .event e => w.Proper e
  | .restart _ => True

/-- It is no LOGIN to an account that is active. -/
def NoSecondLogin (sha256 : Str → Digest) (w : World) : Happening → Prop
  | .event e => w.NoSecondLogin sha256 e
  | .restart _ => True

def Shows (s' : Server) (es : List Effect) (posts : List (Post Int Str Packet)) :
    Happening → Prop
  | .event e => e.Shows s' es posts
  | .restart _ => es = [] ∧ posts = []

end Happening

theorem Happens.freed_eq_nil {w w' : World} {h : Happening} {es : List Effect}
    (hi : w.server.Housed) (hs : Happens sha256 w h w' es) (hno : h.NoSecondLogin sha256 w)
    (hfreed : w.server.freed = []) : w'.server.freed = [] := by
  cases hs with
  | event hs => rw [hs.freed hi hno, hfreed]
  | restart => rfl

theorem Happens.noSecondLogin {w w' : World} {h : Happening} {es : List Effect}
    (hs : Happens sha256 w h w' es) (hall : w'.server.Allocated) : h.NoSecondLogin sha256 w := by
  cases hs with
  | event hs => exact Step.noSecondLogin hs hall
  | restart => trivial

/-- The server as a machine. -/
def machine (sha256 : Str → Digest) : Machines.Machine World Happening (List Effect) :=
  ⟨Happens sha256⟩

/-- The service that is meant: a user is first called by the username, and the name that
`get_real_name` has for nobody is nobody's. -/
def theService : Machines.Service ServiceState
    (Option (Int × Request Str Str (List UInt8) Str Packet)) (List (Post Int Str Packet)) :=
  service id ERROR DEFAULT_ROOM_NAME

/-- **The server refines the service.** -/
def refinement (sha256 : Str → Digest) : Machines.Refines (machine sha256) theService where
  abs := World.service
  request := Happening.request sha256
  inv w := w.Settled ∧ w.server.Saved
  allowed w h := h.Proper w
  shows _ h w' es posts := h.Shows w'.server es posts
  keeps := by
    rintro w h w' es ⟨hw, hsaved⟩ hproper hstep
    cases hstep with
    | event hs => exact ⟨hs.settled hw hproper, hs.saved hsaved⟩
    | restart fd => exact ⟨(hw.restart hsaved fd).1, boot_saved _ _⟩
  step := by
    rintro w h w' es ⟨hw, hsaved⟩ hproper hstep
    cases hstep with
    | event hs => exact hs.complies hw hproper
    | restart fd => exact ⟨(hw.restart hsaved fd).2.symm, rfl, rfl⟩

/-- A server with any number of restarts, from a user file whose names fit into their arrays,
with clients that act under their own names and ask for no name that fills its array. -/
structure Life (sha256 : Str → Digest) where
  length : Nat
  state : Nat → World
  happening : Nat → Happening
  out : Nat → List Effect
  boot : ∃ file fd, state 0 = World.boot file fd ∧ ∀ u ∈ LinkedList.readUserFile file,
    u.username.length ≤ 63 ∧ u.real_name.length ≤ 63
  next : ∀ t < length, Happens sha256 (state t) (happening t) (state (t + 1)) (out t)
  proper : ∀ t < length, (happening t).Proper (state t)

/-- A life in which nobody logs in to an account that is active.  `login` would free a record that
the lists refer to, and what is in it and who is given the memory next is for nobody to say. -/
structure SafeLife (sha256 : Str → Digest) extends Life sha256 where
  exclusive : ∀ t < length, (happening t).NoSecondLogin sha256 (state t)

/-- What is kept of a post: whom it is not for, its packet and its line in a log. -/
structure Entry where
  but : Option Int
  packet : Packet
  line : Str

/-- What happens in a room at one time. -/
def Happening.entries (sha256 : Str → Digest) (r : Nat) (posts : List (Post Int Str Packet)) :
    Happening → List Entry
  | .event (.packet fd p env) => (posts.filter (·.room = r)).map fun q =>
      ⟨(p.request sha256).but fd, posted env q, logLine env (posted env q)⟩
  | _ => []

namespace Life
variable (life : Life sha256)

/-- The service after the first `t` requests of a life. -/
def serviceAt (t : Nat) : ServiceState :=
  theService.after (life.state 0).service
    ((List.range t).map fun i => (life.happening i).request sha256)

/-- What is posted at the time `t`. -/
def posts (t : Nat) : List (Post Int Str Packet) :=
  (theService.next (life.serviceAt t) ((life.happening t).request sha256)).2

theorem posts_eq (t : Nat) : life.posts t =
    (theService.next (life.serviceAt t) ((life.happening t).request sha256)).2 := rfl

theorem starts : (refinement sha256).inv (life.state 0) := by
  obtain ⟨file, fd, hboot, hfile⟩ := life.boot
  rw [hboot]
  exact ⟨boot_settled fd hfile, boot_saved file fd⟩

theorem service_eq {t : Nat} (ht : t ≤ life.length) :
    (life.state t).service = life.serviceAt t := by
  obtain ⟨hstates, -⟩ := Machines.Refines.run life.next life.proper life.starts
  exact (hstates t ht).2

theorem settled {t : Nat} (ht : t ≤ life.length) : (life.state t).Settled := by
  obtain ⟨hstates, -⟩ := Machines.Refines.run life.next life.proper life.starts
  exact (hstates t ht).1.1

theorem shows {t : Nat} (ht : t < life.length) :
    (life.happening t).Shows (life.state (t + 1)).server (life.out t) (life.posts t) := by
  obtain ⟨-, hshows⟩ := Machines.Refines.run life.next life.proper life.starts
  exact hshows t ht

/-- Each state is what the service makes of the one before. -/
theorem service_succ {t : Nat} (ht : t < life.length) : (life.state (t + 1)).service =
    (theService.next (life.state t).service ((life.happening t).request sha256)).1 := by
  rw [life.service_eq ht, life.service_eq (Nat.le_of_lt ht), serviceAt, serviceAt,
    List.range_succ, List.map_append, List.map_singleton, Machines.Service.after_concat]

/-! ## What is heard and logged -/

/-- The packets of rooms that go out on a connection from the time `t₀` until `t₁`. -/
def heard (d : Int) (t₀ t₁ : Nat) : List Packet :=
  Machines.during (fun t => heardOn d (life.out t)) t₀ t₁

/-- The lines that are written to a log from the time `t₀` until `t₁`. -/
def logged (fd : Int) (t₀ t₁ : Nat) : List Str :=
  Machines.during (fun t => ((logLines (life.out t)).filter (·.1 = fd)).map Prod.snd) t₀ t₁

/-- What is posted in a room from the time `t₀` until `t₁`. -/
def transcript (r : Nat) (t₀ t₁ : Nat) : List Entry :=
  Machines.during (fun t => (life.happening t).entries sha256 r (life.posts t)) t₀ t₁

variable {life} {r t : Nat} {d fd : Int} {u : Str}

/-- What is heard at one time by whoever is in a room before and after it. -/
theorem heardOn_of_stay (ht : t < life.length)
    (hd : (life.state t).conns d = .serving (some u))
    (hr : (life.state t).server.place u = some r)
    (hd' : (life.state (t + 1)).conns d = .serving (some u))
    (hr' : (life.state (t + 1)).server.place u = some r) : heardOn d (life.out t) =
      (((life.happening t).entries sha256 r (life.posts t)).filter fun x => x.but ≠ some d).map
        Entry.packet := by
  have hshow := life.shows ht
  have hnext := life.service_succ ht
  have hposts := life.posts_eq t
  rw [← life.service_eq (Nat.le_of_lt ht)] at hposts
  cases hh : life.happening t with
  | restart fd =>
    rw [hh] at hshow
    rw [hshow.1]
    rfl
  | event e =>
    rw [hh] at hshow hnext hposts
    cases e with
    | accept fd =>
      rw [hshow.1]
      rfl
    | packet c p env =>
      have hsession : (life.state t).service.session d = some u := Conn.user_eq_some.mpr hd
      have hsession' : (life.state (t + 1)).service.session d = some u :=
        Conn.user_eq_some.mpr hd'
      rw [hnext] at hsession'
      have hplace' : (life.state (t + 1)).service.place u = some r := hr'
      rw [hnext] at hplace'
      have hhears : ∀ q ∈ life.posts t, q.hears d =
          (decide (q.room = r) && decide ((p.request sha256).but c ≠ some d)) := by
        rw [hposts]
        exact State.hears_of_stay hsession hr hsession' hplace'
      rw [hshow.heard, List.filter_congr hhears, Happening.entries, List.filter_map, List.map_map,
        ← List.filter_filter]
      by_cases hbut : (p.request sha256).but c ≠ some d
      · simp [hbut, Function.comp_def]
      · simp [hbut]

/-- What is logged at one time, if the log is that of one room. -/
theorem logged_once (ht : t < life.length)
    (hfd : ((life.state (t + 1)).server.room r).fd = fd)
    (honly : ∀ k < (life.state (t + 1)).server.room_list.length,
      ((life.state (t + 1)).server.room k).fd = fd → k = r) :
    ((logLines (life.out t)).filter (·.1 = fd)).map Prod.snd =
      ((life.happening t).entries sha256 r (life.posts t)).map Entry.line := by
  have hshow := life.shows ht
  cases hh : life.happening t with
  | restart => 
    rw [hh] at hshow
    rw [hshow.1]
    rfl
  | event e =>
    rw [hh] at hshow
    cases e with
    | accept =>
      rw [hshow.1]
      rfl
    | packet c p env =>
      have hroom : ∀ q ∈ life.posts t,
          decide (((life.state (t + 1)).server.room q.room).fd = fd) = decide (q.room = r) := by
        intro q hq
        refine decide_eq_decide.mpr ⟨honly _ (hshow.rooms q hq), fun h => ?_⟩
        rw [h, hfd]
      rw [hshow.logged, List.filter_map, List.map_map, Happening.entries, List.map_map,
        ← List.filter_congr hroom]
      rfl

theorem heard_of_stay {t₀ t₁ : Nat} (ht : t₁ ≤ life.length)
    (hstay : ∀ t, t₀ ≤ t → t ≤ t₁ → (life.state t).conns d = .serving (some u) ∧
      (life.state t).server.place u = some r) :
    life.heard d t₀ t₁ =
      ((life.transcript r t₀ t₁).filter fun x => x.but ≠ some d).map Entry.packet := by
  rw [heard, transcript, ← Machines.during_filter, ← Machines.during_map]
  refine Machines.during_congr fun t hle hlt => ?_
  obtain ⟨hd, hr⟩ := hstay t hle (Nat.le_of_lt hlt)
  obtain ⟨hd', hr'⟩ := hstay (t + 1) (by omega) hlt
  exact heardOn_of_stay (by omega) hd hr hd' hr'

theorem logged_alone {t₀ t₁ : Nat} (ht : t₁ ≤ life.length)
    (hlog : ∀ t, t₀ < t → t ≤ t₁ → ((life.state t).server.room r).fd = fd ∧
      ∀ k < (life.state t).server.room_list.length,
        ((life.state t).server.room k).fd = fd → k = r) :
    life.logged fd t₀ t₁ = (life.transcript r t₀ t₁).map Entry.line := by
  rw [logged, transcript, ← Machines.during_map]
  refine Machines.during_congr fun t hle hlt => ?_
  obtain ⟨hfd, honly⟩ := hlog (t + 1) (by omega) hlt
  exact logged_once (by omega) hfd honly

/-! ## One more step -/

/-- A life that goes on for one step. -/
def extend (life : Life sha256) (h : Happening) (w' : World) (es : List Effect)
    (hs : Happens sha256 (life.state life.length) h w' es)
    (hproper : h.Proper (life.state life.length)) : Life sha256 where
  length := life.length + 1
  state := Function.update life.state (life.length + 1) w'
  happening := Function.update life.happening life.length h
  out := Function.update life.out life.length es
  boot := by
    rw [Function.update_of_ne (Nat.succ_ne_zero _).symm]
    exact life.boot
  next t ht := by
    rw [Function.update_of_ne (Nat.ne_of_lt ht)]
    rcases Nat.lt_succ_iff_lt_or_eq.mp ht with hlt | rfl
    · rw [Function.update_of_ne (Nat.ne_of_lt hlt), Function.update_of_ne (by omega),
        Function.update_of_ne (Nat.ne_of_lt hlt)]
      exact life.next t hlt
    · rw [Function.update_self, Function.update_self, Function.update_self]
      exact hs
  proper t ht := by
    rw [Function.update_of_ne (Nat.ne_of_lt ht)]
    rcases Nat.lt_succ_iff_lt_or_eq.mp ht with hlt | rfl
    · rw [Function.update_of_ne (Nat.ne_of_lt hlt)]
      exact life.proper t hlt
    · rw [Function.update_self]
      exact hproper

section Extend
variable {h : Happening} {w' : World} {es : List Effect}
  {hs : Happens sha256 (life.state life.length) h w' es}
  {hproper : h.Proper (life.state life.length)}

@[simp] theorem extend_length : (life.extend h w' es hs hproper).length = life.length + 1 := rfl

theorem extend_last : (life.extend h w' es hs hproper).state (life.length + 1) = w' :=
  Function.update_self ..

theorem extend_state (ht : t ≤ life.length) :
    (life.extend h w' es hs hproper).state t = life.state t :=
  Function.update_of_ne (by omega) ..

theorem extend_happening (ht : t < life.length) :
    (life.extend h w' es hs hproper).happening t = life.happening t :=
  Function.update_of_ne (by omega) ..

theorem extend_exclusive (he : ∀ t < life.length, (life.happening t).NoSecondLogin sha256
      (life.state t)) (hno : h.NoSecondLogin sha256 (life.state life.length)) :
    ∀ t < life.length + 1, ((life.extend h w' es hs hproper).happening t).NoSecondLogin sha256
      ((life.extend h w' es hs hproper).state t) := by
  intro t ht
  rw [extend_state (Nat.le_of_lt_succ ht)]
  rcases Nat.lt_succ_iff_lt_or_eq.mp ht with hlt | rfl
  · rw [extend_happening hlt]
    exact he t hlt
  · have hnow : (life.extend h w' es hs hproper).happening life.length = h :=
      Function.update_self ..
    rw [hnow]
    exact hno

theorem extend_heard {t₀ : Nat} (ht : t₀ ≤ life.length) :
    (life.extend h w' es hs hproper).heard d t₀ (life.length + 1) =
      life.heard d t₀ life.length ++ heardOn d es := by
  have hnow : (life.extend h w' es hs hproper).out life.length = es := Function.update_self ..
  rw [heard, Machines.during_succ ht, hnow, heard]
  congr 1
  refine Machines.during_congr fun t _ hlt => ?_
  exact congrArg (heardOn d) (Function.update_of_ne (Nat.ne_of_lt hlt) ..)

end Extend

/-! ## Sessions and passwords -/

/-- **Whoever is logged in knew the password.**  A session began with a REGISTER or LOGIN packet
on its connection that has the account's password in it, when the user was nowhere else, and has
gone on since. -/
theorem authenticated (ht : t ≤ life.length) (hd : (life.state t).conns d = .serving (some u)) :
    ∃ i < t, ∃ p env, life.happening i = .event (.packet d p env) ∧
      (p.options = REGISTER ∨ p.options = LOGIN) ∧ arg (words p.buf) 1 = u ∧
      (∃ acc, (life.state (i + 1)).server.accounts u = some acc ∧
        acc.secret = (sha256 (arg (words p.buf) 2)).bytes) ∧
      (life.state i).server.place u = none ∧
      ∀ j, i < j → j ≤ t → (life.state j).conns d = .serving (some u) := by
  have hstart : ¬ (life.state 0).conns d = .serving (some u) := by
    obtain ⟨file, fd, hboot, -⟩ := life.boot
    rw [hboot]
    exact Conn.noConfusion
  obtain ⟨i, hi, hnot, hsince⟩ := Machines.exists_last_change
    (P := fun t => (life.state t).conns d = .serving (some u)) (Nat.zero_le t) hstart hd
  have hnext := life.service_succ (t := i) (by omega)
  have hin : (life.state (i + 1)).service.session d = some u :=
    Conn.user_eq_some.mpr (hsince (i + 1) (by omega) hi)
  have hout : ¬ (life.state i).service.session d = some u := fun h => hnot (Conn.user_eq_some.mp h)
  cases hh : life.happening i with
  | restart fd =>
    rw [hnext, hh] at hin
    cases hin
  | event e =>
    rw [hh] at hnext
    have hnext : (life.state (i + 1)).service = ((life.state i).service.next id ERROR
      (e.request sha256).1 (e.request sha256).2).1 := hnext
    rw [hnext] at hin
    obtain hin | ⟨rfl, secret, hrequest, hplace, acc, hacc, hsecret⟩ := State.next_session hin
    · exact absurd hin hout
    · rw [← hnext] at hacc
      cases e with
      | accept fd => simp [Event.request] at hrequest
      | packet fd p env =>
        rcases hrequest with hrequest | hrequest
        · obtain ⟨hopt, huser, hpass⟩ := Packet.of_request_register hrequest
          exact ⟨i, hi, p, env, hh, .inl hopt, huser, ⟨acc, hacc, hsecret.trans hpass⟩, hplace,
            hsince⟩
        · obtain ⟨hopt, huser, hpass⟩ := Packet.of_request_login hrequest
          exact ⟨i, hi, p, env, hh, .inr hopt, huser, ⟨acc, hacc, hsecret.trans hpass⟩, hplace,
            hsince⟩

end Life

/-! ## Where nothing is freed -/

namespace SafeLife
variable (life : SafeLife sha256)

/-- No record is freed. -/
theorem freed_eq_nil {t : Nat} (ht : t ≤ life.length) : (life.state t).server.freed = [] := by
  induction t with
  | zero =>
    obtain ⟨file, fd, hboot, -⟩ := life.boot
    rw [hboot]
    rfl
  | succ t ih =>
    have hhoused := (life.settled (t := t) (by omega)).memory.housed
    exact (life.next t ht).freed_eq_nil hhoused (life.exclusive t ht) (ih (by omega))

theorem allocated {t : Nat} (ht : t ≤ life.length) : (life.state t).server.Allocated :=
  (life.settled ht).memory.housed.allocated (life.freed_eq_nil ht)

/-- **A life of the server is a run of the service**, and no list refers to freed memory. -/
theorem is_service_run :
    (∀ t ≤ life.length, (life.state t).server.Allocated ∧
      (life.state t).service = life.serviceAt t) ∧
    ∀ t < life.length, (life.happening t).Shows (life.state (t + 1)).server (life.out t)
      (life.posts t) :=
  ⟨fun _ ht => ⟨life.allocated ht, life.service_eq ht⟩, fun _ ht => life.shows ht⟩

variable {life} {u : Str} {t : Nat}

/-- **A room has one transcript.**  Whoever is in the room all the time hears what is in it, in
its order and but for what was said or asked for on the same connection, and nothing of another
room.  The log of the room gets all of it, as long as no other room has the same log. -/
theorem room_transcript (r t₀ t₁ : Nat) (ht : t₁ ≤ life.length) :
    (∀ d u, (∀ t, t₀ ≤ t → t ≤ t₁ → (life.state t).conns d = .serving (some u) ∧
        (life.state t).server.place u = some r) →
      life.heard d t₀ t₁ =
        ((life.transcript r t₀ t₁).filter fun x => x.but ≠ some d).map Entry.packet) ∧
    ∀ fd, (∀ t, t₀ < t → t ≤ t₁ → ((life.state t).server.room r).fd = fd ∧
        ∀ k < (life.state t).server.room_list.length,
          ((life.state t).server.room k).fd = fd → k = r) →
      life.logged fd t₀ t₁ = (life.transcript r t₀ t₁).map Entry.line :=
  ⟨fun _ _ hstay => Life.heard_of_stay ht hstay, fun _ hlog => Life.logged_alone ht hlog⟩

/-- **Where a password comes from.**  The digest of an account was there at the start, or is that
of the password of the last REGISTER for the name, when there was no such account, or of the last
SETPASS in a session of the user, with the password before it. -/
theorem secret_since (ht : t ≤ life.length) {acc : Account (List UInt8) Str}
    (hacc : (life.state t).server.accounts u = some acc) :
    (∀ j ≤ t, ∃ acc', (life.state j).server.accounts u = some acc' ∧
      acc'.secret = acc.secret) ∨
    ∃ i < t, ∃ d p env, life.happening i = .event (.packet d p env) ∧
      acc.secret = (sha256 (arg (words p.buf) 2)).bytes ∧
      (p.options = REGISTER ∧ arg (words p.buf) 1 = u ∧
          (life.state i).server.accounts u = none ∨
        p.options = SETPASS ∧ (life.state i).conns d = .serving (some u) ∧
          ∃ acc', (life.state i).server.accounts u = some acc' ∧
            acc'.secret = (sha256 (arg (words p.buf) 1)).bytes) ∧
      ∀ j, i < j → j ≤ t → ∃ acc', (life.state j).server.accounts u = some acc' ∧
        acc'.secret = acc.secret := by
  by_cases hall : ∀ j ≤ t, ∃ acc', (life.state j).server.accounts u = some acc' ∧
      acc'.secret = acc.secret
  · exact .inl hall
  · right
    push Not at hall
    obtain ⟨k, hk, hnone⟩ := hall
    obtain ⟨i, hi, hnot, hsince⟩ := Machines.exists_last_change
      (P := fun t => ∃ acc', (life.state t).server.accounts u = some acc' ∧
        acc'.secret = acc.secret) hk (fun ⟨acc', h, hs⟩ => hnone acc' h hs) ⟨acc, hacc, rfl⟩
    obtain ⟨acc₁, hacc₁, hsecret⟩ := hsince (i + 1) (by omega) hi
    have hacc₁ : (life.state (i + 1)).service.accounts u = some acc₁ := hacc₁
    rw [life.service_succ (by omega)] at hacc₁
    cases hh : life.happening i with
    | restart fd =>
      rw [hh] at hacc₁
      exact absurd ⟨acc₁, hacc₁, hsecret⟩ hnot
    | event e =>
      rw [hh] at hacc₁
      obtain ⟨acc', hacc', hs⟩ | ⟨hnew, -, hrequest⟩ | ⟨acc', hacc', hsession, hrequest⟩ :=
        State.next_secret hacc₁
      · exact absurd ⟨acc', hacc', hs.trans hsecret⟩ hnot
      · cases e with
        | accept fd => cases hrequest
        | packet fd p env =>
          obtain ⟨hopt, huser, hpass⟩ := Packet.of_request_register hrequest
          exact ⟨i, hi, fd, p, env, hh, hsecret ▸ hpass, .inl ⟨hopt, huser, hnew⟩, hsince⟩
      · cases e with
        | accept fd => cases hrequest
        | packet fd p env =>
          obtain ⟨hopt, hold, hpass⟩ := Packet.of_request_changeSecret hrequest
          exact ⟨i, hi, fd, p, env, hh, hsecret ▸ hpass, .inr ⟨hopt, Conn.user_eq_some.mp hsession,
            acc', hacc', hold⟩, hsince⟩

end SafeLife

/-- Where nothing has been freed, no event has freed anything. -/
theorem Life.exclusive_of_freed {life : Life sha256}
    (h : ∀ t < life.length, (life.state (t + 1)).server.freed = []) :
    ∀ t < life.length, (life.happening t).NoSecondLogin sha256 (life.state t) := by
  intro t ht
  have hhoused := (life.settled (t := t + 1) ht).memory.housed
  exact (life.next t ht).noSecondLogin (hhoused.allocated (h t ht))

/-! ## Lives as functions -/

instance (w : World) (e : Event) : Decidable (w.Proper e) :=
  match e with
  | .accept fd => decidable_of_iff (0 ≤ fd)
      ⟨fun h => ⟨trivial, fun _ he => Event.accept.inj he ▸ h, by simp, by simp⟩,
        fun h => h.fd fd rfl⟩
  | .packet fd p env => decidable_of_iff (w.ActsOwn (.packet fd p env) ∧
        (p.options = REGISTER → (loginName p).length < 64) ∧
        (p.options = SETNAME → p.buf.length < 64))
      ⟨fun ⟨hown, hreg, hname⟩ => ⟨hown, by simp, by rintro _ _ _ ⟨⟩; exact hreg,
        by rintro _ _ _ ⟨⟩; exact hname⟩,
        fun h => ⟨h.own, h.register _ _ _ rfl, h.rename _ _ _ rfl⟩⟩

/-- What comes of a happening, if it can happen and is proper. -/
def World.happen (sha256 : Str → Digest) (w : World) : Happening → Option (World × List Effect)
  | .event e => if w.Proper e then w.step sha256 e else none
  | .restart fd => some (World.boot w.server.users_file fd, [])

theorem World.happen_eq_some {w w' : World} {h : Happening} {es : List Effect}
    (heq : w.happen sha256 h = some (w', es)) : h.Proper w ∧ Happens sha256 w h w' es := by
  cases h with
  | event e =>
    rw [happen] at heq
    split at heq
    · exact ⟨‹_›, .event (World.step_eq_some.mp heq)⟩
    · cases heq
  | restart fd =>
    cases heq
    exact ⟨trivial, .restart fd⟩

end Lives

namespace Sample

/-- The state after some happenings, from a start without a user file. -/
def after (hs : List Happening) : World :=
  hs.foldl (fun w h => (w.happen sha256 h).elim w Prod.fst) (World.boot none 3)

/-- The life of some happenings, if each of them can happen. -/
def life (hs : List Happening)
    (h : ∀ t : Fin hs.length, ((after (hs.take t)).happen sha256 hs[t]).isSome) :
    Life sha256 where
  length := hs.length
  state t := after (hs.take t)
  happening t := hs.getD t (.restart 3)
  out t := ((after (hs.take t)).happen sha256 (hs.getD t (.restart 3))).elim [] Prod.snd
  boot := ⟨none, 3, rfl, fun _ hu => (List.not_mem_nil hu).elim⟩
  next t ht := by
    obtain ⟨⟨w, es⟩, hsome⟩ := Option.isSome_iff_exists.mp (h ⟨t, ht⟩)
    have hget : hs.getD t (.restart 3) = hs[t] := by simp [ht]
    have hsome : (after (hs.take t)).happen sha256 hs[t] = some (w, es) := hsome
    have hnext : after (hs.take (t + 1)) = w := by
      rw [List.take_succ_eq_append_getElem ht, after, List.foldl_append, ← after]
      simp [hsome]
    rw [hnext, hget, hsome]
    exact (World.happen_eq_some hsome).2
  proper t ht := by
    obtain ⟨⟨w, es⟩, hsome⟩ := Option.isSome_iff_exists.mp (h ⟨t, ht⟩)
    have hget : hs.getD t (.restart 3) = hs[t] := by simp [ht]
    rw [hget]
    exact (World.happen_eq_some hsome).1

/-- Alice and Bob register, Bob says hello, and after a restart Alice comes back. -/
def comeback : Life sha256 :=
  life (((enter 4 "alice" ++ enter 5 "bob").map .event) ++
    [.event (packet 5 1000 "bob" "hello"), .restart 3, .event (.accept 4),
      .event (packet 4 LOGIN "" "/login alice secret")]) (by decide)

/-- Nobody has logged in twice in it. -/
def safeComeback : SafeLife sha256 where
  toLife := comeback
  exclusive := Life.exclusive_of_freed (by decide)

end Sample

/-- What Alice and Bob have asked for is what has become of the service. -/
theorem is_service_run_alice :
    (∀ t ≤ 8, (Sample.comeback.state t).server.Allocated ∧
      (Sample.comeback.state t).service = Sample.comeback.serviceAt t) ∧
    ∀ t < 8, (Sample.comeback.happening t).Shows (Sample.comeback.state (t + 1)).server
      (Sample.comeback.out t) (Sample.comeback.posts t) :=
  SafeLife.is_service_run Sample.safeComeback

/-- Alice hears what is said in the Lobby after she came. -/
theorem room_transcript_alice : Sample.comeback.heard 4 2 5 =
    ((Sample.comeback.transcript 0 2 5).filter fun x => x.but ≠ some 4).map Entry.packet := by
  refine (@SafeLife.room_transcript _ Sample.safeComeback 0 2 5 (by decide)).1 4 (str "alice")
    fun t ht ht' => ?_
  obtain rfl | rfl | rfl | rfl : t = 2 ∨ t = 3 ∨ t = 4 ∨ t = 5 := by omega
  · decide
  · decide
  · decide
  · decide

/-- Alice has come back with her password. -/
theorem authenticated_alice : ∃ i < 8, ∃ p env,
    Sample.comeback.happening i = .event (.packet 4 p env) ∧
      (p.options = REGISTER ∨ p.options = LOGIN) ∧ arg (words p.buf) 1 = str "alice" ∧
      (∃ acc, (Sample.comeback.state (i + 1)).server.accounts (str "alice") = some acc ∧
        acc.secret = (Sample.sha256 (arg (words p.buf) 2)).bytes) ∧
      (Sample.comeback.state i).server.place (str "alice") = none ∧
      ∀ j, i < j → j ≤ 8 → (Sample.comeback.state j).conns 4 = .serving (some (str "alice")) :=
  @Life.authenticated _ Sample.comeback 8 4 (str "alice") (by decide) (by decide)

/-- She has the one she registered with. -/
theorem secret_since_alice :
    let secret := (Sample.sha256 (str "secret")).bytes
    (∀ j ≤ 8, ∃ acc', (Sample.comeback.state j).server.accounts (str "alice") = some acc' ∧
      acc'.secret = secret) ∨
    ∃ i < 8, ∃ d p env, Sample.comeback.happening i = .event (.packet d p env) ∧
      secret = (Sample.sha256 (arg (words p.buf) 2)).bytes ∧
      (p.options = REGISTER ∧ arg (words p.buf) 1 = str "alice" ∧
          (Sample.comeback.state i).server.accounts (str "alice") = none ∨
        p.options = SETPASS ∧
          (Sample.comeback.state i).conns d = .serving (some (str "alice")) ∧
          ∃ acc', (Sample.comeback.state i).server.accounts (str "alice") = some acc' ∧
            acc'.secret = (Sample.sha256 (arg (words p.buf) 1)).bytes) ∧
      ∀ j, i < j → j ≤ 8 → ∃ acc',
        (Sample.comeback.state j).server.accounts (str "alice") = some acc' ∧
          acc'.secret = secret :=
  @SafeLife.secret_since _ Sample.safeComeback (str "alice") 8 (by decide)
    ⟨(Sample.sha256 (str "secret")).bytes, str "alice"⟩ (by decide)

end TBDChat
