import TBDChat.CleanReplies

/-!
# When everything that goes out is safe

Room names are validated when a room is made, so in every state they are safe.
The rest of what the server copies need not be, and a run sends and logs nothing
but safe characters just if no packet makes it copy anything else.
-/

namespace TBDChat

set_option maxRecDepth 8000

/-- The times that a step prints are as `asctime` makes them. -/
def Event.Clock : Event → Prop
  | .accept _ => True
  | .packet _ _ env => env.Clock

/-- What the event makes the server copy is safe. -/
def World.HarmlessEvent (sha256 : Str → Digest) (w : World) : Event → Prop
  | .accept _ => True
  | .packet fd p env =>
    ∀ session, w.conns fd = .serving session → Harmless sha256 env w.server p fd session

variable {sha256 : Str → Digest} {w w' : World} {e : Event} {es : List Effect}

/-- **Room names are safe.** -/
theorem Reachable.safe_names (hw : Reachable sha256 w) : ∀ name ∈ w.server.names, Safe name :=
  hw.names_all (safe_text (by simp [serverTexts])) fun _ hj => safe_of_name hj.name

/-- What a step sends and logs is safe just if what it copies is. -/
theorem Step.clean (hw : Reachable sha256 w) (hc : e.Clock) (hs : Step sha256 w e w' es) :
    Clean es ↔ w.HarmlessEvent sha256 e := by
  cases hs with
  | accept => exact iff_of_true clean_nil trivial
  | packet hfd hp hrun =>
    have hclean := received_clean hc hp hw.housed hw.safe_names hrun
    constructor
    · intro hes session hfd'
      obtain rfl := Conn.serving.inj (hfd.symm.trans hfd')
      exact hclean.mp hes
    · exact fun h => hclean.mpr (h _ hfd)

/-- **Everything that is sent and logged in a run is safe** just if every packet
of it is harmless in the state that it finds. -/
theorem sanitized_iff (run : Run sha256) (hclock : ∀ t < run.length, (run.event t).Clock) :
    (∀ t < run.length, Clean (run.out t)) ↔
      ∀ t < run.length, (run.state t).HarmlessEvent sha256 (run.event t) :=
  forall₂_congr fun t ht =>
    (run.next t ht).clean (run.reachable (Nat.le_of_lt ht)) (hclock t ht)

/-- Alice registers, and is sent nothing else. -/
theorem sanitized_iff_alice : ∃ run : Run Sample.sha256, run.length = 2 ∧
    ∀ t < run.length, Clean (run.out t) := by
  let run := Sample.run (Sample.enter 4 "alice") (by decide)
  have hclock : ∀ t < run.length, (run.event t).Clock := by
    have hasctime : Sample.env.Clock := by
      rintro t time ⟨⟩
      decide
    intro t ht
    match t, ht with
    | 0, _ => exact trivial
    | 1, _ => exact hasctime
  refine ⟨run, rfl, (sanitized_iff run hclock).mpr fun t ht => ?_⟩
  match t, ht with
  | 0, _ => exact trivial
  | 1, _ =>
    intro session hfd
    have hconn : (run.state 1).conns 4 = .serving none := by decide
    obtain rfl := Conn.serving.inj (hconn.symm.trans hfd)
    -- nothing is left in the packet variable of the sample surrounding
    exact fun _ _ _ _ => safe_nil

/-- Alice chats under a real name with an escape sequence in it, and Bob's terminal
gets it. -/
theorem realname_escapes : ¬ ∀ (sha256 : Str → Digest) (w w' : World) (e : Event)
    (es : List Effect), Reachable sha256 w → e.Clock → Step sha256 w e w' es → Clean es := by
  intro h
  let q : Packet := ⟨0, str "hi", str "alice", 27 :: str "[2J", 1000⟩
  let w := Sample.world (Sample.enter 4 "alice" ++ Sample.enter 5 "bob")
  have hsent : ((w.step Sample.sha256 (.packet 4 q Sample.env)).map
      (fun x => x.2.any (fun e => decide (e = .send 5 q)))) = some true := by decide
  obtain ⟨⟨w', es⟩, hstep, hany⟩ := Option.map_eq_some_iff.mp hsent
  obtain ⟨e, he, heq⟩ := List.any_eq_true.mp hany
  obtain rfl := of_decide_eq_true heq
  have hclock : (Event.packet 4 q Sample.env).Clock := by
    rintro t time ⟨⟩
    decide
  have hclean := h Sample.sha256 w w' _ es (Sample.reachable _) hclock
    (World.step_eq_some.mp hstep) _ he
  exact absurd hclean.1 (by decide)

end TBDChat
