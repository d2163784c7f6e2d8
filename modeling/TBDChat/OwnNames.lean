import TBDChat.SessionBinding

/-!
# Clients that act under their own names

The shipped client learns its username from the reply to its login and writes it
into every packet from then on.  As long as all clients do, sessions and active
users stay in one-to-one correspondence.
-/

namespace TBDChat

/-- An event that is no packet of a logged-in connection, or one that carries the
name the connection logged in with. -/
def World.ActsOwn (w : World) : Event → Prop
  | .accept _ => True
  | .packet fd p _ =>
    match w.conns fd with
    | .serving (some name) => p.username = name
    | _ => True

instance (w : World) (e : Event) : Decidable (w.ActsOwn e) :=
  match e with
  | .accept _ => isTrue trivial
  | .packet fd p _ =>
    match h : w.conns fd with
    | .serving (some name) => decidable_of_iff (p.username = name) (by simp [World.ActsOwn, h])
    | .serving none => isTrue (by simp [World.ActsOwn, h])
    | .closed => isTrue (by simp [World.ActsOwn, h])
    | .abandoned => isTrue (by simp [World.ActsOwn, h])

theorem World.ActsOwn.endsOwn {w : World} {e : Event} (h : w.ActsOwn e) : w.EndsOwn e := by
  rintro fd p env name rfl hfd -
  simpa only [World.ActsOwn, hfd] using h

section System
variable (sha256 : Str → Digest)

/-- The states the system can reach while every client acts under its own name. -/
inductive OwnReachable : World → Prop
  | boot (file : Option (List UInt8)) (fd : Int) : OwnReachable (World.boot file fd)
  | step {w w' : World} {e : Event} {es : List Effect} (hw : OwnReachable w)
      (hs : Step sha256 w e w' es) (hown : w.ActsOwn e) : OwnReachable w'

variable {sha256} {w : World}

theorem OwnReachable.reachable (hw : OwnReachable sha256 w) : Reachable sha256 w := by
  induction hw with
  | boot file fd => exact .boot file fd
  | step _ hs _ ih => exact ih.step hs

theorem OwnReachable.linked (hw : OwnReachable sha256 w) : w.server.Linked w.conns := by
  induction hw with
  | boot file fd => exact boot_linked file fd
  | step hw hs hown ih => exact hs.linked hw.reachable.housed ih hown.endsOwn

end System

/-- Every event of a sequence carries its own name. -/
def World.allOwn (sha256 : Str → Digest) : World → List Event → Bool
  | _, [] => true
  | w, e :: events =>
    w.ActsOwn e && (w.step sha256 e).all (fun (w', _) => w'.allOwn sha256 events)

theorem World.exec_ownReachable {sha256 : Str → Digest} {w w' : World} {events : List Event}
    (hw : OwnReachable sha256 w) (hown : w.allOwn sha256 events = true)
    (h : w.exec sha256 events = some w') : OwnReachable sha256 w' := by
  induction events generalizing w with
  | nil =>
    cases h
    exact hw
  | cons e events ih =>
    obtain ⟨⟨w₁, es⟩, hstep, hrest⟩ := Option.bind_eq_some_iff.mp h
    rw [World.allOwn, hstep, Bool.and_eq_true] at hown
    exact ih (hw.step (World.step_eq_some.mp hstep) (of_decide_eq_true hown.1)) hown.2 hrest

theorem Sample.ownReachable (events : List Event)
    (hown : (World.boot none 3).allOwn Sample.sha256 events = true) :
    OwnReachable Sample.sha256 (Sample.world events) := by
  unfold Sample.world
  cases h : (World.boot none 3).exec Sample.sha256 events with
  | none => exact .boot none 3
  | some w => exact World.exec_ownReachable (.boot none 3) hown h

end TBDChat
