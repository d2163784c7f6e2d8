import TBDChat.RoomTable

/-!
# Finding a room

Four loops search the room table, two by number and two by name.  On every table
that the server can have they agree, and each says in its own way that there is
no such room: two answer NULL and one -1, which is no room's number.  The fourth
answers the string `ERROR`, and that is a name a room may have.
-/

namespace TBDChat
open Atomic

set_option maxRecDepth 8000

/-- The four lookups are inverse to one another on the table, and each fails just
for what is not in it. -/
structure Lookups (rooms : List Room) : Prop where
  roomFID : ∀ ID r, LinkedList.Rget_roomFID rooms ID = some r ↔
    ∃ room, rooms[r]? = some room ∧ room.ID = ID
  roomFNAME : ∀ name r, LinkedList.Rget_roomFNAME rooms name = some r ↔
    ∃ room, rooms[r]? = some room ∧ room.name = name
  getID : ∀ room ∈ rooms, LinkedList.Rget_ID rooms room.name = room.ID
  getName : ∀ room ∈ rooms, LinkedList.Rget_name rooms room.ID = room.name
  noRoomFID : ∀ ID, LinkedList.Rget_roomFID rooms ID = none ↔ ∀ room ∈ rooms, room.ID ≠ ID
  noRoomFNAME : ∀ name, LinkedList.Rget_roomFNAME rooms name = none ↔
    ∀ room ∈ rooms, room.name ≠ name
  noID : ∀ name, LinkedList.Rget_ID rooms name = -1 ↔ ∀ room ∈ rooms, room.name ≠ name
  noName : ∀ ID, LinkedList.Rget_name rooms ID = ERROR ↔ ∀ room ∈ rooms, room.ID ≠ ID

/-- `join` up to the lookup of the room it made sure of. -/
def lookupOrCreate (env : Env) (name : Str) : Handler (Option RoomRef) := do
  let ID ← Rget_ID name
  let _ ← if ID = -1 then do createRoom env (← readNumRooms) name else pure false
  Rget_roomFNAME name

/-- What is painted on the doors: the number and the name of each room. -/
def Server.nameplates (s : Server) : List (Int × Str) :=
  s.room_list.map (fun room => (room.ID, room.name))

/-- The names alone. -/
def Server.names (s : Server) : List Str := s.room_list.map Room.name

variable {sha256 : Str → Digest} {env : Env} {p : Packet} {fd : Int} {s s' : Server}

/-! ## The lookups on a table -/

namespace RoomTable
variable {rooms : List Room} {numRooms : Int}

/-- A lookup by number answers `ERROR` for no room and for the room of that
name. -/
theorem Rget_name_eq (ht : RoomTable rooms numRooms) {ID : Int} :
    LinkedList.Rget_name rooms ID = ERROR ↔
      (∀ room ∈ rooms, room.ID ≠ ID) ∨ ∃ room ∈ rooms, room.ID = ID ∧ room.name = ERROR := by
  by_cases hex : ∃ room ∈ rooms, room.ID = ID
  · obtain ⟨room, hmem, rfl⟩ := hex
    have hfind := Keyed.find?_of_mem ht.ids hmem
    simp only [LinkedList.Rget_name, hfind]
    constructor
    · intro h
      exact .inr ⟨room, hmem, rfl, h⟩
    · rintro (h | ⟨room', hmem', hID, hname⟩)
      · exact absurd rfl (h room hmem)
      · obtain rfl := List.inj_on_of_nodup_map ht.ids hmem' hmem hID
        exact hname
  · have hno : ∀ room ∈ rooms, room.ID ≠ ID := fun room hmem hID => hex ⟨room, hmem, hID⟩
    have hfind : rooms.find? (fun room => room.ID = ID) = none := by simpa using hno
    simp only [LinkedList.Rget_name, hfind, true_iff]
    exact .inl hno

/-- **The lookups are right** on a table without a room called `ERROR`, and on no
other. -/
theorem lookups_iff (ht : RoomTable rooms numRooms) :
    Lookups rooms ↔ ∀ room ∈ rooms, room.name ≠ ERROR := by
  constructor
  · intro h room hmem hname
    refine (h.noName room.ID).mp ?_ room hmem rfl
    exact ht.Rget_name_eq.mpr (.inr ⟨room, hmem, rfl, hname⟩)
  · intro hno
    refine ⟨fun ID r => Keyed.findIdx?_eq_some ht.ids,
      fun name r => Keyed.findIdx?_eq_some ht.names, ?_, ?_,
      fun ID => LinkedList.Rget_roomFID_none, fun name => LinkedList.Rget_roomFNAME_none,
      fun name => ht.Rget_ID_eq, ?_⟩
    · intro room hmem
      simp only [LinkedList.Rget_ID, Keyed.find?_of_mem ht.names hmem]
    · intro room hmem
      simp only [LinkedList.Rget_name, Keyed.find?_of_mem ht.ids hmem]
    · intro ID
      rw [ht.Rget_name_eq, or_iff_left]
      rintro ⟨room, hmem, -, hname⟩
      exact hno room hmem hname

end RoomTable

/-- The equation of `lookupOrCreate`. -/
theorem run_lookupOrCreate (env : Env) (name : Str) (s : Server) : ∃ es,
    ops.run (lookupOrCreate env name) s =
      .ok (LinkedList.Rget_roomFNAME (s.openRoom env.fd name).room_list name,
        s.openRoom env.fd name, es) := by
  unfold lookupOrCreate Server.openRoom
  by_cases hID : LinkedList.Rget_ID s.room_list name = -1
  · obtain ⟨b, hb⟩ := run_createRoom env name s
    simp [hID, hb]
  · simp [hID]

/-- **`join` gets the room it asks for**: there is one after the lookup-or-create
step. -/
theorem lookupOrCreate_some (env : Env) (ht : s.Table) {name : Str}
    (hname : acceptsName ROOMNAME_LENGTH name = true) :
    ∃ r s' es, ops.run (lookupOrCreate env name) s = .ok (some r, s', es) := by
  obtain ⟨es, hrun⟩ := run_lookupOrCreate env name s
  obtain ⟨r, hr⟩ := Server.Rget_roomFNAME_openRoom env.fd ht (acceptsName_iff.mp hname).2.2
  exact ⟨r, _, es, by rw [hrun, hr]⟩

/-! ## The rooms before and after a packet -/

/-- Rooms keep their nameplates, and a room that is made comes last. -/
theorem Server.nameplates_openRoom (fd : Int) {name : Str} (ht : s.Table)
    (hname : name.length ≤ ROOMNAME_LENGTH) :
    s.nameplates <+: (s.openRoom fd name).nameplates := by
  rcases openRoom_cases fd ht hname with ⟨h, -⟩ | ⟨-, h⟩
  · exact ⟨[], by rw [h, List.append_nil]⟩
  · rw [h, nameplates, nameplates, List.map_append]
    exact List.prefix_append _ _

theorem Server.nameplates_names (s : Server) : s.nameplates.map Prod.snd = s.names := by
  rw [nameplates, names, List.map_map]
  rfl

/-- After the lookup-or-create step there is just one more name, if it is new. -/
theorem Server.mem_names_openRoom (fd : Int) {name n : Str} (ht : s.Table)
    (hname : name.length ≤ ROOMNAME_LENGTH) :
    n ∈ (s.openRoom fd name).names ↔ n ∈ s.names ∨ n = name := by
  rcases openRoom_cases fd ht hname with ⟨h, hex⟩ | ⟨-, h⟩
  · have hold : name ∈ s.names := by
      by_contra hno
      exact hex (ht.Rget_ID_eq.mpr fun room hmem heq => hno (heq ▸ List.mem_map_of_mem hmem))
    rw [h]
    exact (or_iff_left_of_imp fun heq => heq ▸ hold).symm
  · rw [h, names, names, List.map_append, List.mem_append, List.map_singleton, List.mem_singleton]

theorem SameRooms.names (h : SameRooms s s') : s'.names = s.names := h.map fun _ _ => rfl

theorem SameRooms.nameplates (h : SameRooms s s') : s'.nameplates = s.nameplates :=
  h.map fun _ _ => rfl

theorem Change.nameplates {who : Str} (ht : s.Table) (h : Change who s s') :
    s.nameplates <+: s'.nameplates := by
  rcases h.rooms with ⟨fd, name, hname, rfl⟩ | hrooms
  · exact Server.nameplates_openRoom fd ht hname
  · exact ⟨[], by rw [hrooms.nameplates, List.append_nil]⟩

theorem Changes.nameplates {who : Str} (ht : s.Table) (h : Changes who s s') :
    s.nameplates <+: s'.nameplates := by
  induction h using Relation.ReflTransGen.head_induction_on with
  | refl => exact List.prefix_refl _
  | head hc _ ih => exact (hc.nameplates ht).trans (ih (hc.table ht))

theorem Login.sameRooms {user pass : Str} {b : Bool} {es : List Effect}
    (h : Login sha256 env user pass fd s b s' es) : SameRooms s s' := by
  cases h with
  | refused => exact .refl s
  | discarded => exact ⟨rfl, fun _ => rfl⟩
  | signedIn => exact .signIn ..

/-- **Only a JOIN makes a room**, and it is the one it names. -/
theorem Received.sameRooms {session : Option Str} {next : Next} {es : List Effect}
    (h : Received sha256 env p fd s session next s' es) :
    SameRooms s s' ∨ (session.isSome ∧ Joins p ∧
      SameRooms (s.openRoom env.fd (arg (words p.buf) 0)) s') := by
  cases h with
  | refused | hungUp | answered | chat | vanished => exact .inl (.refl s)
  | login _ _ hl => exact .inl hl.sameRooms
  | register _ hl =>
    have henrol : SameRooms s (s.enrol (newcomer sha256 env p fd)) := ⟨rfl, fun _ => rfl⟩
    exact .inl (henrol.trans hl.sameRooms)
  | renamed | passwordSet => exact .inl ⟨rfl, fun _ => rfl⟩
  | opened hj _ => exact .inr ⟨rfl, hj, .refl _⟩
  | joined hj hs₁ _ _ _ _ hs₂ =>
    subst hs₁ hs₂
    exact .inr ⟨rfl, hj, .move ..⟩
  | left _ _ _ _ _ _ hs' _ =>
    subst hs'
    exact .inl (.move ..)
  | signedOut => exact .inl (.signOut ..)

/-- The rooms a JOIN leaves, if its words are in order. -/
theorem join_rooms {es : List Effect} (hj : Joins p)
    (h : ops.run (join env p fd) s = .ok ((), s', es)) :
    SameRooms (s.openRoom env.fd (arg (words p.buf) 0)) s' := by
  rw [run_join] at h
  split at h
  · cases h
  rw [if_neg (Nat.not_le_of_lt hj.words), if_neg (by simp [hj.name])] at h
  obtain ⟨es', hrun, -⟩ := Outcome.prepend_eq_ok h
  generalize s.openRoom env.fd (arg (words p.buf) 0) = s₁ at hrun ⊢
  rw [run_changeRoom] at hrun
  split at hrun
  · cases hrun
    exact .refl _
  split at hrun
  · cases hrun
  split at hrun
  · cases hrun
  obtain ⟨es₁, hmoved, -⟩ := Outcome.prepend_eq_ok hrun
  obtain ⟨_, s₂, es₂, es₃, hleft, hjoined, -⟩ := Outcome.andThen_eq_ok hmoved
  obtain ⟨q, -, rfl, -⟩ := announce_eq_ok hleft
  obtain ⟨q', -, rfl, -⟩ := announce_eq_ok hjoined
  exact .move ..

/-- A JOIN on a logged-in connection is handled by `join`. -/
theorem receive_join {name : Str} {next : Next} {es : List Effect} (hopt : p.options = JOIN)
    (h : ops.run (client_receive sha256 env (some name) p fd) s = .ok (next, s', es)) :
    ops.run (join env p fd) s = .ok ((), s', es) := by
  have hreq := request_of_receive (by rw [hopt]; decide) (by rw [hopt]; decide) h
  rwa [receiveRequest_join hopt] at hreq

/-! ## Runs -/

/-- A JOIN for a room called `ERROR`. -/
def World.JoinsERROR (w : World) (e : Event) : Prop :=
  ∃ fd p env name, e = .packet fd p env ∧ w.conns fd = .serving (some name) ∧
    p.options = JOIN ∧ 1 < (words p.buf).length ∧ arg (words p.buf) 0 = ERROR

section Runs
variable {w w' : World} {e : Event} {es : List Effect}

theorem Step.nameplates (ht : w.server.Table) (hs : Step sha256 w e w' es) :
    w.server.nameplates <+: w'.server.nameplates := by
  cases hs with
  | accept => exact List.prefix_refl _
  | packet _ hp hrun => exact ((received hrun).changes hp).nameplates ht

/-- What holds of the Lobby's name and of every name that a JOIN may make a room under holds
of the names of all rooms. -/
theorem Reachable.names_all {P : Str → Prop} (hw : Reachable sha256 w)
    (hlobby : P DEFAULT_ROOM_NAME) (hjoin : ∀ p, Joins p → P (arg (words p.buf) 0)) :
    ∀ name ∈ w.server.names, P name := by
  obtain ⟨file, fd, h⟩ := hw
  induction h with
  | start =>
    have hnames : (World.boot file fd).server.names = [DEFAULT_ROOM_NAME] := rfl
    rw [hnames]
    exact List.forall_mem_singleton.mpr hlobby
  | step hreach hs ih =>
    cases hs with
    | accept => exact ih
    | packet _ hp hrun =>
      rcases (received hrun).sameRooms with hrooms | ⟨-, hj, hrooms⟩
      · rw [hrooms.names]
        exact ih
      · intro name hmem
        have ht := Reachable.table ⟨file, fd, hreach⟩
        rw [hrooms.names, Server.mem_names_openRoom _ ht (acceptsName_iff.mp hj.name).2.2] at hmem
        rcases hmem with hmem | rfl
        · exact ih name hmem
        · exact hjoin _ hj

/-- There is a room called `ERROR` after a step if there was one, or if it was
asked for. -/
theorem Step.room_ERROR (ht : w.server.Table) (hs : Step sha256 w e w' es) :
    ERROR ∈ w'.server.names ↔ ERROR ∈ w.server.names ∨ w.JoinsERROR e := by
  constructor
  · intro h
    cases hs with
    | accept => exact .inl h
    | @packet fd p env session next s' es hfd hp hrun =>
      rcases (received hrun).sameRooms with hrooms | ⟨hsome, hj, hrooms⟩
      · exact .inl (hrooms.names ▸ h)
      · obtain ⟨name, rfl⟩ := Option.isSome_iff_exists.mp hsome
        rw [hrooms.names, Server.mem_names_openRoom _ ht (acceptsName_iff.mp hj.name).2.2] at h
        exact h.imp_right fun hname =>
          ⟨fd, p, env, name, rfl, hfd, hj.options, hj.words, hname.symm⟩
  · rintro (h | ⟨fd, p, env, name, rfl, hfd, hopt, hw, hname⟩)
    · -- the door of the room is still there
      have hsub := (hs.nameplates ht).sublist.map Prod.snd
      rw [Server.nameplates_names, Server.nameplates_names] at hsub
      exact hsub.subset h
    · obtain ⟨next, -, hrun, -⟩ := hs.handled hfd
      have hj : Joins p := ⟨hopt, hw, by rw [hname]; decide⟩
      have hrooms := join_rooms hj (receive_join hopt hrun)
      rw [hrooms.names, Server.mem_names_openRoom _ ht (acceptsName_iff.mp hj.name).2.2, hname]
      exact .inr rfl

/-- **The room table** of a run: in every state the numbers and the names are
distinct and below `numRooms`, the Lobby comes first and `join` gets its room; no
nameplate is ever taken down or changed; and the four lookups agree and fail as
they should, in the runs in which nobody asks for a room called `ERROR` and in no
others. -/
theorem room_table_iff (run : Run sha256) :
    ((∀ t ≤ run.length, (run.state t).server.Table ∧ Lookups (run.state t).server.room_list ∧
        ∀ env name, acceptsName ROOMNAME_LENGTH name = true →
          ∃ r s' es, ops.run (lookupOrCreate env name) (run.state t).server = .ok (some r, s', es)) ∧
      ∀ t u, t ≤ u → u ≤ run.length →
        (run.state t).server.nameplates <+: (run.state u).server.nameplates) ↔
    ∀ t < run.length, ¬ (run.state t).JoinsERROR (run.event t) := by
  have htable (t : Nat) (ht : t ≤ run.length) := (run.reachable ht).table
  have hlookups (t : Nat) (ht : t ≤ run.length) :
      Lookups (run.state t).server.room_list ↔ ERROR ∉ (run.state t).server.names := by
    rw [(htable t ht).lookups_iff, Server.names, List.mem_map, not_exists]
    exact forall_congr' fun room => not_and.symm
  constructor
  · rintro ⟨hall, -⟩ t ht hjoin
    have hno := (hlookups (t + 1) ht).mp (hall (t + 1) ht).2.1
    exact hno (((run.next t ht).room_ERROR (htable t (Nat.le_of_lt ht))).mpr (.inr hjoin))
  · intro hjoin
    have hno (t : Nat) (ht : t ≤ run.length) : ERROR ∉ (run.state t).server.names := by
      induction t with
      | zero =>
        obtain ⟨file, fd, h⟩ := run.boot
        have hlobby : (World.boot file fd).server.names = [DEFAULT_ROOM_NAME] := rfl
        rw [h, hlobby]
        decide
      | succ t ih =>
        rw [(run.next t ht).room_ERROR (htable t (Nat.le_of_lt ht)), not_or]
        exact ⟨ih (Nat.le_of_lt ht), hjoin t ht⟩
    refine ⟨fun t ht => ⟨htable t ht, (hlookups t ht).mpr (hno t ht), fun env name hname =>
      lookupOrCreate_some env (htable t ht) hname⟩, fun t u htu hu => ?_⟩
    induction u, htu using Nat.le_induction with
    | base => exact List.prefix_refl _
    | succ u _ ih =>
      exact (ih (Nat.le_of_lt hu)).trans ((run.next u hu).nameplates (htable u (Nat.le_of_lt hu)))

/-- Alice makes a room called `ERROR`, and looking for its name by its number
answers as if there were no such room. -/
theorem room_called_ERROR : ¬ ∀ (sha256 : Str → Digest) (w : World), Reachable sha256 w →
    Lookups w.server.room_list := by
  intro h
  let events := Sample.enter 4 "alice" ++ [Sample.packet 4 JOIN "alice" "ERROR 1000"]
  have hplates : (Sample.world events).server.nameplates =
      [(1000, str "Lobby"), (1001, str "ERROR")] := by decide
  have hname : LinkedList.Rget_name (Sample.world events).server.room_list 1001 = ERROR := by
    decide
  have hno := ((h Sample.sha256 _ (Sample.reachable events)).noName 1001).mp hname
  have hmem : (1001, str "ERROR") ∈ (Sample.world events).server.nameplates := by
    rw [hplates]
    exact List.mem_cons_of_mem _ List.mem_cons_self
  obtain ⟨room, hroom, heq⟩ := List.mem_map.mp hmem
  exact hno room hroom (congrArg Prod.fst heq)

end Runs
end TBDChat
