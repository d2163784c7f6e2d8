import TBDChat.Lib.Handles
import TBDChat.RegisterOutcome

/-!
# The descriptors that are open

`accept`, `createRoom` and the functions for the user file open descriptors; a session and
`exit_client` close them.  `writeUserFile` closes its descriptor only where the list is empty,
which it never is when a handler calls it; and `exit_client` closes nothing where it does not
find the user of the packet, though the thread returns.
-/

namespace TBDChat
open Atomic Handles

set_option maxRecDepth 8000

/-- What an effect does to the descriptors. -/
def Effect.move : Effect → Option (Move Int)
  | .opened fd => some (.opened fd)
  | .close fd => some (.closed fd)
  | .send _ _ => none
  | .logged _ _ => none

/-- `accept` opens the descriptor that it returns. -/
def Event.moves : Event → List (Move Int)
  | .accept fd => [.opened fd]
  | .packet _ _ _ => []

def moves (es : List Effect) : List (Move Int) := es.filterMap Effect.move

/-- The start of `main`: the log of the Lobby, the user file if there is one, and the socket
that it listens on. -/
def bootMoves (file : Option (List UInt8)) (lobby tmp listen : Int) : List (Move Int) :=
  .opened lobby :: ((if file.isSome then [.opened tmp, .closed tmp] else []) ++ [.opened listen])

/-- The descriptors that are open in each state of a run. -/
def Run.fds {sha256 : Str → Digest} (run : Run sha256) (boot : List (Move Int)) : Nat → Finset Int
  | 0 => after boot ∅
  | t + 1 => after ((run.event t).moves ++ moves (run.out t)) (run.fds boot t)

/-- `open`, `socket` and `accept` return a descriptor that is not open. -/
structure Run.Fresh {sha256 : Str → Digest} (run : Run sha256) (file : Option (List UInt8))
    (lobby tmp listen : Int) : Prop where
  boot : run.state 0 = World.boot file lobby
  start : Handles.Fresh (bootMoves file lobby tmp listen) ∅
  next : ∀ t < run.length, Handles.Fresh ((run.event t).moves ++ moves (run.out t))
    (run.fds (bootMoves file lobby tmp listen) t)

/-- The descriptors of the rooms' logs. -/
def Server.logs (s : Server) : List Int := s.room_list.map Room.fd

/-- A thread is in its receive loop for the connection. -/
def World.Serving (w : World) (fd : Int) : Prop := ∃ session, w.conns fd = .serving session

/-- The descriptors that are open are the socket that `main` listens on, one for each
connection with a thread, and one for each room. -/
structure Balanced (listen : Int) (serving : Int → Prop) (logs : List Int) (fds : Finset Int) :
    Prop where
  open_iff : ∀ fd, fd ∈ fds ↔ fd = listen ∨ serving fd ∨ fd ∈ logs
  nodup : logs.Nodup
  listen : listen ∉ logs ∧ ¬ serving listen
  apart : ∀ fd ∈ logs, ¬ serving fd

/-- The packets that leave a descriptor open that nobody will close. -/
inductive Leaks (sha256 : Str → Digest) (env : Env) (s : Server) (p : Packet) :
    Option Str → Prop
  | register (h : Registers p s) : Leaks sha256 env s p none
  | rename {name : Str} {a : Addr} (hopt : p.options = SETNAME)
      (hname : acceptsName REALNAME_LENGTH (localName env p.buf) = true)
      (ha : LinkedList.get_user s.heap s.registered_users_list p.username = some a) :
      Leaks sha256 env s p (some name)
  | setPassword {name : Str} {a : Addr} (h : ChangesPassword sha256 p s a) :
      Leaks sha256 env s p (some name)
  /-- The end of a session under a name that is not active. -/
  | vanish {name : Str} (hopt : p.options = EXIT ∨ p.options = 0)
      (ha : LinkedList.get_user s.heap s.active_users_list p.username = none) :
      Leaks sha256 env s p (some name)

/-- What a packet on `fd` comes to, for the descriptors; and whether it is one of them. -/
inductive Moved (env : Env) (fd : Int) (s s' : Server) (es : List Effect) (leaks : Prop) :
    Next → Prop
  | quiet {session : Option Str} (hes : moves es = []) (hlogs : s'.logs = s.logs)
      (hno : ¬ leaks) : Moved env fd s s' es leaks (.receive session)
  | wrote {session : Option Str} (hes : moves es = [.opened env.fd]) (hlogs : s'.logs = s.logs)
      (h : leaks) : Moved env fd s s' es leaks (.receive session)
  | made {session : Option Str} (hes : moves es = [.opened env.fd])
      (hlogs : s'.logs = s.logs ++ [env.fd]) (hno : ¬ leaks) :
      Moved env fd s s' es leaks (.receive session)
  | closed (hes : moves es = [.closed fd]) (hlogs : s'.logs = s.logs) (hclose : .close fd ∈ es)
      (hno : ¬ leaks) : Moved env fd s s' es leaks .done
  | vanished (hes : es = []) (hlogs : s'.logs = s.logs) (h : leaks) :
      Moved env fd s s' es leaks .done

/-- The step is one of them. -/
def World.Leaks (sha256 : Str → Digest) (w : World) : Event → Prop
  | .accept _ => False
  | .packet fd p env => ∃ session, w.conns fd = .serving session ∧
      TBDChat.Leaks sha256 env w.server p session

/-! ## Balance -/

namespace Balanced
variable {listen fd : Int} {serving : Int → Prop} {logs : List Int} {fds : Finset Int}

theorem accept (h : Balanced listen serving logs fds) (hfd : fd ∉ fds) :
    Balanced listen (fun d => d = fd ∨ serving d) logs (insert fd fds) := by
  obtain ⟨hlisten, hserving, hlog⟩ : fd ≠ listen ∧ ¬ serving fd ∧ fd ∉ logs := by
    simpa only [h.open_iff, not_or] using hfd
  refine ⟨fun d => ?_, h.nodup, ⟨h.listen.1, ?_⟩, fun d hd hserve => ?_⟩
  · rw [Finset.mem_insert, h.open_iff]
    tauto
  · exact not_or.mpr ⟨Ne.symm hlisten, h.listen.2⟩
  · rcases hserve with rfl | hserve
    · exact hlog hd
    · exact h.apart d hd hserve

theorem open_log (h : Balanced listen serving logs fds) (hfd : fd ∉ fds) :
    Balanced listen serving (logs ++ [fd]) (insert fd fds) := by
  obtain ⟨hlisten, hserving, hlog⟩ : fd ≠ listen ∧ ¬ serving fd ∧ fd ∉ logs := by
    simpa only [h.open_iff, not_or] using hfd
  refine ⟨fun d => ?_, ?_, ⟨?_, h.listen.2⟩, fun d hd => ?_⟩
  · rw [Finset.mem_insert, h.open_iff, List.mem_append, List.mem_singleton]
    tauto
  · exact List.nodup_append_comm.mp (List.nodup_cons.mpr ⟨hlog, h.nodup⟩)
  · rw [List.mem_append, List.mem_singleton]
    exact not_or.mpr ⟨h.listen.1, Ne.symm hlisten⟩
  · rcases List.mem_append.mp hd with hd | hd
    · exact h.apart d hd
    · rwa [List.mem_singleton.mp hd]

theorem close (h : Balanced listen serving logs fds) (hfd : serving fd) :
    Balanced listen (fun d => d ≠ fd ∧ serving d) logs (fds.erase fd) := by
  refine ⟨fun d => ?_, h.nodup, ⟨h.listen.1, fun hl => h.listen.2 hl.2⟩,
    fun d hd hserve => h.apart d hd hserve.2⟩
  rw [Finset.mem_erase, h.open_iff]
  constructor
  · tauto
  · rintro (rfl | hserve | hlog)
    · exact ⟨fun he => h.listen.2 (he ▸ hfd), .inl rfl⟩
    · exact ⟨hserve.1, .inr (.inl hserve.2)⟩
    · exact ⟨fun he => h.apart d hlog (he ▸ hfd), .inr (.inr hlog)⟩

/-- A descriptor more. -/
theorem not_opened (h : Balanced listen serving logs fds) (hfd : fd ∉ fds) :
    ¬ Balanced listen serving logs (insert fd fds) := fun h' =>
  hfd ((h.open_iff fd).mpr ((h'.open_iff fd).mp (Finset.mem_insert_self fd fds)))

/-- A thread less. -/
theorem not_vanished (h : Balanced listen serving logs fds) (hfd : serving fd) :
    ¬ Balanced listen (fun d => d ≠ fd ∧ serving d) logs fds := by
  intro h'
  rcases (h'.open_iff fd).mp ((h.open_iff fd).mpr (.inr (.inl hfd))) with rfl | ⟨hne, -⟩ | hlog
  · exact h.listen.2 hfd
  · exact hne rfl
  · exact h.apart fd hlog hfd

end Balanced

section Handling
variable {sha256 : Str → Digest} {env : Env} {p : Packet} {fd : Int} {s s' : Server}
  {session : Option Str} {next : Next} {es es' : List Effect}

/-! ## What the effects open and close -/

@[simp] theorem moves_append : moves (es ++ es') = moves es ++ moves es' := List.filterMap_append

@[simp] theorem moves_nil : moves [] = [] := rfl

@[simp] theorem moves_send {q : Packet} : moves (.send fd q :: es) = moves es := rfl

@[simp] theorem moves_opened : moves (.opened fd :: es) = .opened fd :: moves es := rfl

@[simp] theorem moves_close : moves (.close fd :: es) = .closed fd :: moves es := rfl

@[simp] theorem moves_logged {line : Str} : moves (.logged fd line :: es) = moves es := rfl

theorem moves_replies (h : ∀ e ∈ es, e.Reply) : moves es = [] := by
  refine List.filterMap_eq_nil_iff.mpr fun e he => ?_
  obtain ⟨d, q, rfl, -⟩ := h e he
  rfl

@[simp] theorem moves_relay {q : Packet} {r : RoomRef} : moves (relay env s q fd r) = [] := by
  refine List.filterMap_eq_nil_iff.mpr fun e he => ?_
  rcases List.mem_cons.mp he with rfl | he
  · rfl
  · obtain ⟨a, -, rfl⟩ := List.mem_map.mp he
    rfl

theorem moves_fileEffects (h : s.registered_users_list ≠ []) :
    moves (fileEffects s fd) = [.opened fd] := by
  rw [fileEffects, if_neg h]
  rfl

theorem moves_login {user pass : Str} {b : Bool} (h : Login sha256 env user pass fd s b s' es) :
    moves es = [] := by
  cases h with
  | refused hes => exact moves_replies hes
  | discarded => rfl
  | signedIn =>
    rw [signInEffects, moves_send, moves_append, moves_relay]
    rfl

/-! ## What a packet opens and closes -/

theorem logs_same (h : SameRooms s s') : s'.logs = s.logs := h.map fun _ _ => rfl

theorem enrol_ne_nil {u : User} : (s.enrol u).registered_users_list ≠ [] := by
  rw [Server.enrol_list, LinkedList.insertUser]
  split
  · rename_i hsome
    intro hnil
    rw [show s.registered_users_list = [] from hnil] at hsome
    cases hsome
  · exact List.append_ne_nil_of_right_ne_nil _ (List.cons_ne_nil _ _)

/-- The user file is written, and its descriptor stays open. -/
theorem Leaks.opens (hrun : ops.run (client_receive sha256 env session p fd) s = .ok (next, s', es))
    (h : Leaks sha256 env s p session) (hnext : next ≠ .done) : .opened env.fd ∈ moves es := by
  cases h with
  | register h =>
    rw [client_receive, receiveAnonymous, if_pos h.options] at hrun
    obtain ⟨b, hregister, -⟩ := ops.run_bind_pure_eq hrun
    by_cases hw : (words p.buf).length ≤ 15
    · rw [register_accepted hw h] at hregister
      obtain ⟨es', -, rfl⟩ := Outcome.prepend_eq_ok hregister
      simp [moves_fileEffects enrol_ne_nil]
    · rw [run_register_user, if_pos (Nat.lt_of_not_le hw)] at hregister
      cases hregister
  | rename hname haccepts ha =>
    have hset := request_of_receive (by rw [hname]; decide) (by rw [hname]; decide) hrun
    rw [receiveRequest_set_name hname, run_set_name, if_neg (by rw [haccepts]; decide)] at hset
    simp only [ha] at hset
    obtain ⟨es', -, rfl⟩ := Outcome.prepend_eq_ok hset
    have hne := List.ne_nil_of_mem (LinkedList.get_user_some ha).1
    simp [moves_fileEffects (s := s.rename _ _) hne]
  | setPassword h =>
    have hopt := h.options
    have hset := request_of_receive (by rw [hopt]; decide) (by rw [hopt]; decide) hrun
    rw [receiveRequest_set_pass hopt, run_set_pass] at hset
    split at hset
    · cases hset
    rw [if_neg (Nat.not_le_of_lt h.words), if_neg (by rw [h.pass]; decide)] at hset
    simp only [h.user] at hset
    rw [if_neg (not_not.mpr h.hash)] at hset
    cases hset
    have hne := List.ne_nil_of_mem (LinkedList.get_user_some h.user).1
    simp [moves_fileEffects (s := s.setPassword _ _) hne]
  | vanish hexit =>
    have hlt : p.options < 1000 := by rcases hexit with h | h <;> rw [h] <;> decide
    rw [client_receive, receiveSession, if_pos hlt, if_pos hexit] at hrun
    obtain ⟨_, -, hend⟩ := ops.run_bind_pure_eq hrun
    exact absurd hend hnext

theorem not_leaks_of_join {name : Str} (hopt : p.options = JOIN) :
    ¬ Leaks sha256 env s p (some name) := by
  intro h
  cases h with
  | rename hname => exact absurd (hopt.symm.trans hname) (by decide)
  | setPassword h => exact absurd (hopt.symm.trans h.options) (by decide)
  | vanish hexit =>
    rw [hopt] at hexit
    exact absurd hexit (by decide)

theorem openEffects_moves (ht : s.Table) {name : Str} (hname : name.length ≤ ROOMNAME_LENGTH) :
    moves (openEffects s env.fd name) = [] ∧ (s.openRoom env.fd name).logs = s.logs ∨
    moves (openEffects s env.fd name) = [.opened env.fd] ∧
      (s.openRoom env.fd name).logs = s.logs ++ [env.fd] := by
  rcases Server.openRoom_cases env.fd ht hname with ⟨h, hold⟩ | ⟨hnew, h⟩
  · refine .inl ⟨?_, by rw [h]⟩
    rw [openEffects, if_neg hold]
    rfl
  · refine .inr ⟨?_, ?_⟩
    · rw [openEffects, if_pos hnew]
      rfl
    · rw [h, Server.logs, List.map_append]
      rfl

theorem login_logs {user pass : Str} {b : Bool} (h : Login sha256 env user pass fd s b s' es) :
    s'.logs = s.logs := by
  cases h with
  | refused | discarded => rfl
  | signedIn => exact logs_same (.signIn ..)

/-- Each way to the end of a packet. -/
theorem moved (ht : s.Table)
    (hrun : ops.run (client_receive sha256 env session p fd) s = .ok (next, s', es)) :
    Moved env fd s s' es (Leaks sha256 env s p session) next := by
  -- a thread that goes on and has opened nothing has not written the file
  have hquiet (hes : moves es = []) (hnext : next ≠ .done) : ¬ Leaks sha256 env s p session := by
    intro h
    have hmem := h.opens hrun hnext
    rw [hes] at hmem
    cases hmem
  cases received hrun with
  | refused hes => exact .quiet (moves_replies hes) rfl (hquiet (moves_replies hes) (by simp))
  | login hopt hw h =>
    exact .quiet (moves_login h) (login_logs h) (hquiet (moves_login h) (by simp))
  | register hreg h =>
    have hlogs : s'.logs = (s.enrol (newcomer sha256 env p fd)).logs := login_logs h
    refine .wrote ?_ hlogs (.register hreg)
    rw [moves_append, moves_fileEffects enrol_ne_nil, moves_login h]
    rfl
  | hungUp hopt =>
    refine .closed rfl rfl List.mem_cons_self fun h => ?_
    cases h with
    | register h => exact absurd (hopt.symm.trans h.options) (by decide)
  | answered hopt hes =>
    exact .quiet (moves_replies hes) rfl (hquiet (moves_replies hes) (by simp))
  | renamed hopt hname ha hr =>
    have hne := List.ne_nil_of_mem (LinkedList.get_user_some ha).1
    refine .wrote ?_ rfl (.rename hopt hname ha)
    simp [moves_fileEffects (s := s.rename _ _) hne]
  | passwordSet h =>
    have hne := List.ne_nil_of_mem (LinkedList.get_user_some h.user).1
    refine .wrote ?_ rfl (.setPassword h)
    simp [moves_fileEffects (s := s.setPassword _ _) hne]
  | opened hj hr =>
    rcases openEffects_moves ht (acceptsName_iff.mp hj.name).2.2 with ⟨hes, hlogs⟩ | ⟨hes, hlogs⟩
    · exact .quiet hes hlogs (hquiet hes (by simp))
    · exact .made hes hlogs (not_leaks_of_join hj.options)
  | @joined name s₁ s₂ a r r' r'' hj hs₁ hr ha hr' hr'' hs₂ =>
    have hsame : s'.logs = s₁.logs := logs_same (hs₂ ▸ .move ..)
    rw [hs₁] at hsame
    have hno : ¬ Leaks sha256 env s p (some name) := not_leaks_of_join hj.options
    rcases openEffects_moves ht (acceptsName_iff.mp hj.name).2.2 with ⟨hes, hlogs⟩ | ⟨hes, hlogs⟩
    · exact .quiet (by simp [hes]) (hsame.trans hlogs) hno
    · exact .made (by simp [hes]) (hsame.trans hlogs) hno
  | left hopt hw hne hr ha hd hs' hd' =>
    subst hs'
    exact .quiet (by simp) (logs_same (.move ..)) (hquiet (by simp) (by simp))
  | chat => exact .quiet moves_relay rfl (hquiet moves_relay (by simp))
  | vanished hopt ha => exact .vanished rfl rfl (.vanish hopt ha)
  | signedOut hopt ha hr =>
    refine .closed (by simp) (logs_same (.signOut ..)) (by simp) fun h => ?_
    cases h with
    | rename hname =>
      rw [hname] at hopt
      exact absurd hopt (by decide)
    | setPassword h =>
      rw [h.options] at hopt
      exact absurd hopt (by decide)
    | vanish _ hnone =>
      rw [ha] at hnone
      cases hnone

end Handling

/-! ## Steps and runs -/

section Runs
variable {sha256 : Str → Digest} {w w' : World} {e : Event} {es : List Effect} {listen : Int}
  {fds : Finset Int}

/-- A connection whose thread goes on. -/
theorem serving_receive {s' : Server} {fd : Int} {session session' : Option Str}
    (hfd : w.conns fd = .serving session) :
    World.Serving ⟨s', Function.update w.conns fd (.serving session')⟩ = w.Serving := by
  funext d
  by_cases hd : d = fd
  · subst hd
    simp [World.Serving, hfd]
  · simp [World.Serving, hd]

/-- A connection whose thread has returned. -/
theorem serving_done {s' : Server} {fd : Int} {c : Conn} (hc : ∀ session, c ≠ .serving session) :
    World.Serving ⟨s', Function.update w.conns fd c⟩ = fun d => d ≠ fd ∧ w.Serving d := by
  funext d
  by_cases hd : d = fd
  · subst hd
    simp [World.Serving, hc]
  · simp [World.Serving, hd]

theorem serving_accept {s' : Server} {fd : Int} :
    World.Serving ⟨s', Function.update w.conns fd (.serving none)⟩ =
      fun d => d = fd ∨ w.Serving d := by
  funext d
  by_cases hd : d = fd
  · subst hd
    simp [World.Serving]
  · simp [World.Serving, hd]

/-- A balanced state is left unbalanced by the packets that leak, and by no others. -/
theorem Step.balanced_iff (hi : w.server.Housed) (hs : Step sha256 w e w' es)
    (hb : Balanced listen w.Serving w.server.logs fds) (hfresh : Fresh (e.moves ++ moves es) fds) :
    Balanced listen w'.Serving w'.server.logs (after (e.moves ++ moves es) fds) ↔
      ¬ w.Leaks sha256 e := by
  cases hs with
  | accept hfd =>
    refine iff_of_true ?_ id
    rw [serving_accept]
    exact hb.accept hfresh.1
  | @packet fd p env session next s' _ hfd hp hrun =>
    have hleaks : w.Leaks sha256 (.packet fd p env) ↔ Leaks sha256 env w.server p session := by
      constructor
      · rintro ⟨session', hfd', h⟩
        rw [hfd] at hfd'
        rwa [Conn.serving.inj hfd']
      · exact fun h => ⟨session, hfd, h⟩
    have hserving : w.Serving fd := ⟨session, hfd⟩
    rw [hleaks]
    rw [Event.moves, List.nil_append] at hfresh ⊢
    cases moved hi.table hrun with
    | quiet hes hlogs hno =>
      rw [hes, hlogs, Next.conn, serving_receive hfd]
      exact iff_of_true hb hno
    | wrote hes hlogs h =>
      rw [hes] at hfresh ⊢
      rw [hlogs, Next.conn, serving_receive hfd]
      exact iff_of_false (hb.not_opened hfresh.1) (not_not.mpr h)
    | made hes hlogs hno =>
      rw [hes] at hfresh ⊢
      rw [hlogs, Next.conn, serving_receive hfd]
      exact iff_of_true (hb.open_log hfresh.1) hno
    | closed hes hlogs hclose hno =>
      rw [hes, hlogs, Next.conn, if_pos hclose, serving_done (by simp)]
      exact iff_of_true (hb.close hserving) hno
    | vanished hes hlogs h =>
      rw [hes, hlogs, Next.conn, if_neg List.not_mem_nil, serving_done (by simp)]
      exact iff_of_false (hb.not_vanished hserving) (not_not.mpr h)

/-- The Lobby's log and the socket are open when `main` begins to accept. -/
theorem boot_balanced {file : Option (List UInt8)} {lobby tmp : Int}
    (hfresh : Fresh (bootMoves file lobby tmp listen) ∅) :
    Balanced listen (World.boot file lobby).Serving (World.boot file lobby).server.logs
      (after (bootMoves file lobby tmp listen) ∅) := by
  have hlogs : (World.boot file lobby).server.logs = [lobby] := rfl
  have hserving : ∀ fd, ¬ (World.boot file lobby).Serving fd := fun fd h => nomatch h
  -- the user file is closed again
  have hopen : after (bootMoves file lobby tmp listen) ∅ = {listen, lobby} ∧ listen ≠ lobby := by
    cases file with
    | none =>
      simp only [bootMoves, Fresh, Option.isSome_none, Bool.false_eq_true, if_false,
        List.nil_append, Finset.mem_insert, not_or] at hfresh
      exact ⟨rfl, hfresh.2.1.1⟩
    | some bytes =>
      simp only [bootMoves, Fresh, Option.isSome_some, if_true, List.cons_append, List.nil_append]
        at hfresh
      obtain ⟨-, htmp, hlisten, -⟩ := hfresh
      have herase := Finset.erase_insert htmp
      rw [herase] at hlisten
      refine ⟨?_, by simpa using hlisten⟩
      show insert listen (Finset.erase (insert tmp (insert lobby ∅)) tmp) = _
      rw [herase]
      rfl
  rw [hopen.1, hlogs]
  refine ⟨fun fd => ?_, List.nodup_singleton lobby, ⟨?_, hserving listen⟩, fun fd _ => hserving fd⟩
  · simp [hserving]
  · simpa using hopen.2

/-- **When the descriptors are balanced**: in all states of the runs in which nothing leaks. -/
theorem descriptors_balanced_iff (run : Run sha256) {file : Option (List UInt8)}
    {lobby tmp : Int} (h : run.Fresh file lobby tmp listen) :
    (∀ t ≤ run.length, Balanced listen (run.state t).Serving (run.state t).server.logs
      (run.fds (bootMoves file lobby tmp listen) t)) ↔
    ∀ t < run.length, ¬ (run.state t).Leaks sha256 (run.event t) := by
  have hstep (t : Nat) (ht : t < run.length)
      (hb : Balanced listen (run.state t).Serving (run.state t).server.logs
        (run.fds (bootMoves file lobby tmp listen) t)) :=
    (run.next t ht).balanced_iff (run.reachable (Nat.le_of_lt ht)).housed hb (h.next t ht)
  constructor
  · intro hall t ht
    exact (hstep t ht (hall t (Nat.le_of_lt ht))).mp (hall (t + 1) ht)
  · intro hno t ht
    induction t with
    | zero =>
      rw [h.boot]
      exact boot_balanced h.start
    | succ t ih => exact (hstep t ht (ih (Nat.le_of_lt ht))).mpr (hno t ht)

end Runs

/-- A client that connects and leaves at once. -/
theorem descriptors_balanced_visit :
    let run := Sample.run [.accept 4, Sample.packet 4 EXIT "" ""] (by decide)
    ∀ t ≤ run.length, Balanced 6 (run.state t).Serving (run.state t).server.logs
      (run.fds (bootMoves none 3 5 6) t) := by
  intro run
  have hfresh : run.Fresh none 3 5 6 := ⟨rfl, by decide, by decide⟩
  refine (descriptors_balanced_iff run hfresh).mpr fun t ht => ?_
  have hlt : t < 2 := ht
  obtain rfl | rfl : t = 0 ∨ t = 1 := by omega
  · exact id
  · rintro ⟨session, hfd, hleaks⟩
    have hnew : (run.state 1).conns 4 = .serving none := by decide
    rw [hnew] at hfd
    obtain rfl := Conn.serving.inj hfd
    cases hleaks with
    | register h => exact absurd h.options (by decide)

/-- Alice registers, and the user file stays open. -/
theorem user_file_left_open : ¬ ∀ (sha256 : Str → Digest) (run : Run sha256)
    (file : Option (List UInt8)) (lobby tmp listen : Int), run.Fresh file lobby tmp listen →
    ∀ t ≤ run.length, Balanced listen (run.state t).Serving (run.state t).server.logs
      (run.fds (bootMoves file lobby tmp listen) t) := by
  intro h
  let run := Sample.run (Sample.enter 4 "alice") (by decide)
  have hbalanced := h Sample.sha256 run none 3 5 6 ⟨rfl, by decide, by decide⟩ 2 (Nat.le_refl 2)
  have hopen : 9 ∈ run.fds (bootMoves none 3 5 6) 2 := by decide
  rcases (hbalanced.open_iff 9).mp hopen with hlisten | ⟨session, hserving⟩ | hlog
  · exact absurd hlisten (by decide)
  · have hclosed : (run.state 2).conns 9 = .closed := by decide
    rw [hclosed] at hserving
    cases hserving
  · exact absurd hlog (by decide)

end TBDChat
