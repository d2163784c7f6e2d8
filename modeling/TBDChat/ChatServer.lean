import TBDChat.ServerClients

/-!
# The server as a system

`main` makes the Lobby, reads the user file and then accepts connections, each
served by a thread of its own.  Here the threads' handlers run one at a time: a
step of the system is a connection being accepted, or one packet on one
connection handled from receipt to reply.  A step whose handler faults does not
exist, so a run ends there.

A connection is known by its descriptor, which `accept` may use again once it is
closed.  A thread that returns without closing its descriptor leaves the
connection open and unserved.
-/

namespace TBDChat
open Atomic

/-- What stands behind a descriptor. -/
inductive Conn where
  | closed
  /-- Open, with a thread in its receive loop. -/
  | serving (session : Option Str)
  /-- Open, but its thread has returned. -/
  | abandoned
  deriving DecidableEq

/-- The server's memory and its connections. -/
structure World where
  server : Server
  conns : Int → Conn

/-- The state of the connection on `fd` after its thread handled a packet. -/
def Next.conn (es : List Effect) (fd : Int) : Next → Conn
  | .receive session => .serving session
  | .done => if Effect.close fd ∈ es then .closed else .abandoned

/-- The memory when `main` has made the Lobby, with its log at `fd`, and read the
user file. -/
def Server.boot (file : Option (List UInt8)) (fd : Int) : Server where
  heap a := (LinkedList.readUserFile file).getD a default
  fresh := (LinkedList.readUserFile file).length
  freed := []
  registered_users_list := List.range (LinkedList.readUserFile file).length
  active_users_list := []
  room_list := (LinkedList.insertRoom [] ⟨DEFAULT_ROOM, fd, DEFAULT_ROOM_NAME, []⟩).2
  numRooms := DEFAULT_ROOM + 1
  users_file := file

def World.boot (file : Option (List UInt8)) (fd : Int) : World :=
  ⟨Server.boot file fd, fun _ => .closed⟩

/-- What happens in a step. -/
inductive Event where
  | accept (fd : Int)
  | packet (fd : Int) (p : Packet) (env : Env)

section System
variable (sha256 : Str → Digest)

/-- One step of the system, with what it sends, logs and closes. -/
inductive Step : World → Event → World → List Effect → Prop
  | accept {w : World} {fd : Int} (hfd : w.conns fd = .closed) :
      Step w (.accept fd) ⟨w.server, Function.update w.conns fd (.serving none)⟩ []
  | packet {w : World} {fd : Int} {p : Packet} {env : Env} {session : Option Str} {next : Next}
      {s' : Server} {es : List Effect} (hfd : w.conns fd = .serving session) (hp : p.Wf)
      (hrun : ops.run (client_receive sha256 env session p fd) w.server = .ok (next, s', es)) :
      Step w (.packet fd p env) ⟨s', Function.update w.conns fd (next.conn es fd)⟩ es

/-- The states the system can reach from `w₀`. -/
inductive ReachableFrom (w₀ : World) : World → Prop
  | start : ReachableFrom w₀ w₀
  | step {w w' : World} {e : Event} {es : List Effect} (hw : ReachableFrom w₀ w)
      (hs : Step sha256 w e w' es) : ReachableFrom w₀ w'

/-- The states the system can reach, from any user file. -/
def Reachable (w : World) : Prop :=
  ∃ file fd, ReachableFrom sha256 (World.boot file fd) w

/-- A run of the system over `length` steps. -/
structure Run where
  length : Nat
  state : Nat → World
  event : Nat → Event
  out : Nat → List Effect
  boot : ∃ file fd, state 0 = World.boot file fd
  next : ∀ t < length, Step sha256 (state t) (event t) (state (t + 1)) (out t)

variable {sha256}

theorem Reachable.boot (file : Option (List UInt8)) (fd : Int) :
    Reachable sha256 (World.boot file fd) := ⟨file, fd, .start⟩

theorem Reachable.step {w w' : World} {e : Event} {es : List Effect} (hw : Reachable sha256 w)
    (hs : Step sha256 w e w' es) : Reachable sha256 w' := by
  obtain ⟨file, fd, h⟩ := hw
  exact ⟨file, fd, .step h hs⟩

/-- A packet is handled in the session of its connection. -/
theorem Step.handled {w w' : World} {fd : Int} {p : Packet} {env : Env} {session : Option Str}
    {es : List Effect} (hs : Step sha256 w (.packet fd p env) w' es)
    (hfd : w.conns fd = .serving session) :
    ∃ next, p.Wf ∧
      ops.run (client_receive sha256 env session p fd) w.server = .ok (next, w'.server, es) ∧
      w'.conns = Function.update w.conns fd (next.conn es fd) := by
  cases hs with
  | packet hconn hp hrun =>
    rw [hfd] at hconn
    obtain rfl := Conn.serving.inj hconn
    exact ⟨_, hp, hrun, rfl⟩

/-- Every state of a run is reachable. -/
theorem Run.reachable (run : Run sha256) {t : Nat} (ht : t ≤ run.length) :
    Reachable sha256 (run.state t) := by
  induction t with
  | zero =>
    obtain ⟨file, fd, h⟩ := run.boot
    rw [h]
    exact .boot file fd
  | succ t ih => exact .step (ih (by omega)) (run.next t (by omega))

/-! ## Steps as a function

`World.step` computes the step, so that a run can be evaluated from its events.
-/

instance (p : Packet) : Decidable p.Wf :=
  decidable_of_iff ((p.buf.length ≤ 127 ∧ (0 : UInt8) ∉ p.buf) ∧
    (p.username.length ≤ 63 ∧ (0 : UInt8) ∉ p.username) ∧
    (p.realname.length ≤ 63 ∧ (0 : UInt8) ∉ p.realname))
    ⟨fun ⟨h, h', h''⟩ => ⟨h, h', h''⟩, fun ⟨h, h', h''⟩ => ⟨h, h', h''⟩⟩

/-- The state after an event and what went out, if there is such a step. -/
def World.step (sha256 : Str → Digest) (w : World) : Event → Option (World × List Effect)
  | .accept fd =>
    match w.conns fd with
    | .closed => some (⟨w.server, Function.update w.conns fd (.serving none)⟩, [])
    | _ => none
  | .packet fd p env =>
    match w.conns fd with
    | .serving session =>
      -- `debugPacket` prints the strings of a packet before anything is done with it
      if p.Wf then
        match ops.run (client_receive sha256 env session p fd) w.server with
        | .ok (next, s', es) => some (⟨s', Function.update w.conns fd (next.conn es fd)⟩, es)
        | .error _ => none
      else none
    | _ => none

theorem World.step_eq_some {w w' : World} {e : Event} {es : List Effect} :
    w.step sha256 e = some (w', es) ↔ Step sha256 w e w' es := by
  constructor
  · intro h
    cases e with
    | accept fd =>
      cases hfd : w.conns fd with
      | closed =>
        simp only [World.step, hfd, Option.some.injEq, Prod.mk.injEq] at h
        obtain ⟨rfl, rfl⟩ := h
        exact .accept hfd
      | serving session => simp [World.step, hfd] at h
      | abandoned => simp [World.step, hfd] at h
    | packet fd p env =>
      cases hfd : w.conns fd with
      | closed => simp [World.step, hfd] at h
      | abandoned => simp [World.step, hfd] at h
      | serving session =>
        simp only [World.step, hfd] at h
        split at h
        · rename_i hp
          split at h
          · rename_i hrun
            cases h
            exact .packet hfd hp hrun
          · cases h
        · cases h
  · intro h
    cases h with
    | accept hfd => simp only [World.step, hfd]
    | packet hfd hp hrun => simp only [World.step, hfd, hp, hrun, if_true]

/-- The state after a sequence of events. -/
def World.exec (sha256 : Str → Digest) : World → List Event → Option World
  | w, [] => some w
  | w, e :: events => (w.step sha256 e).bind fun (w', _) => w'.exec sha256 events

theorem World.exec_append (w : World) (events rest : List Event) :
    w.exec sha256 (events ++ rest) = (w.exec sha256 events).bind (·.exec sha256 rest) := by
  induction events generalizing w with
  | nil => rfl
  | cons e events ih =>
    rw [List.cons_append, exec, exec, Option.bind_assoc]
    exact congrArg _ (funext fun x => ih x.1)

theorem World.exec_reachable {w₀ w w' : World} {events : List Event}
    (hw : ReachableFrom sha256 w₀ w) (h : w.exec sha256 events = some w') :
    ReachableFrom sha256 w₀ w' := by
  induction events generalizing w with
  | nil =>
    cases h
    exact hw
  | cons e events ih =>
    obtain ⟨⟨w₁, es⟩, hstep, hrest⟩ := Option.bind_eq_some_iff.mp h
    exact ih (hw.step (World.step_eq_some.mp hstep)) hrest

end System

/-! ## Sample runs

What concrete runs are made of: a stand-in for SHA-256, a surrounding with
nothing in it, and the packets of a user.
-/

namespace Sample

/-- The first 32 bytes of the input, in place of a digest. -/
def sha256 (s : Str) : Digest := ⟨Bytes.pad 32 s, Bytes.length_pad 32 s⟩

def env : Env := ⟨0, fun _ => some (str "now\n"), rfl, 9, default, ⟨0, [], [], [], 0⟩, []⟩

/-- A packet on `fd` that claims to be from `username`. -/
def packet (fd options : Int) (username text : String) : Event :=
  .packet fd ⟨0, str text, str username, str username, options⟩ env

/-- The connection on `fd` is opened, and a user registers on it. -/
def enter (fd : Int) (user : String) : List Event :=
  [.accept fd, packet fd REGISTER "" ("/register " ++ user ++ " secret secret")]

/-- The state after some events, from a start without a user file. -/
def world (events : List Event) : World :=
  ((World.boot none 3).exec sha256 events).getD (World.boot none 3)

theorem reachableFrom (events : List Event) :
    ReachableFrom sha256 (World.boot none 3) (world events) := by
  unfold world
  cases h : (World.boot none 3).exec sha256 events with
  | none => exact .start
  | some w => exact World.exec_reachable .start h

theorem reachable (events : List Event) : Reachable sha256 (world events) :=
  ⟨none, 3, reachableFrom events⟩

/-- The step after some events, if there is one. -/
theorem exists_step (events : List Event) (e : Event)
    (h : ((world events).step sha256 e).isSome) : ∃ w' es, Step sha256 (world events) e w' es := by
  obtain ⟨⟨w', es⟩, hstep⟩ := Option.isSome_iff_exists.mp h
  exact ⟨w', es, World.step_eq_some.mp hstep⟩

/-- The run over some events, if each of them can happen. -/
def run (events : List Event) (h : ((World.boot none 3).exec sha256 events).isSome) :
    Run sha256 where
  length := events.length
  state t := world (events.take t)
  event t := events.getD t (.accept 0)
  out t := ((world (events.take t)).step sha256 (events.getD t (.accept 0))).elim [] Prod.snd
  boot := ⟨none, 3, rfl⟩
  next t ht := by
    obtain ⟨w, hw⟩ := Option.isSome_iff_exists.mp h
    have hget : events.getD t (.accept 0) = events[t] := by simp [ht]
    -- the events so far, the next one, and the rest
    rw [← List.take_append_drop t events, List.drop_eq_getElem_cons ht, World.exec_append] at hw
    obtain ⟨w₁, hw₁, hrest⟩ := Option.bind_eq_some_iff.mp hw
    obtain ⟨⟨w₂, es⟩, hstep, -⟩ := Option.bind_eq_some_iff.mp hrest
    have hw₂ : (World.boot none 3).exec sha256 (events.take (t + 1)) = some w₂ := by
      rw [List.take_succ_eq_append_getElem ht, World.exec_append, hw₁, Option.bind_some,
        World.exec, hstep]
      rfl
    have hst₁ : world (events.take t) = w₁ := by rw [world, hw₁, Option.getD_some]
    have hst₂ : world (events.take (t + 1)) = w₂ := by rw [world, hw₂, Option.getD_some]
    rw [hst₁, hst₂, hget, hstep]
    exact World.step_eq_some.mp hstep

end Sample
end TBDChat
