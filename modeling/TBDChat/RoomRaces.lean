import TBDChat.UsernameRaces
import TBDChat.Lib.Outline

/-!
# Rooms that are made at the same time

`join` looks for the name, reads `numRooms` for the number, counts it up and inserts
the room, and other threads may come between any two of these.  Two that read the same
number make two rooms of it, and `insertRoom` silently refuses the second.  The table
stays one of distinct names and numbers all the same, and it only grows, so that a
JOIN finds its room if its own `insertRoom` was not refused for the number.
-/

namespace TBDChat
open Atomic

set_option maxRecDepth 8000

namespace Server
variable {s s' s'' : Server} {name : Str}

/-- A room of the name is listed. -/
def Lists (s : Server) (name : Str) : Prop := name ∈ s.room_list.map Room.name

/-- It is listed once, and no other room has its number. -/
def ListsOnce (s : Server) (name : Str) : Prop :=
  ∃ room ∈ s.room_list, room.name = name ∧ (s.room_list.map Room.name).count name = 1 ∧
    (s.room_list.map Room.ID).count room.ID = 1

/-- What a JOIN may do to the table. -/
structure Grows (s s' : Server) : Prop where
  names : s.room_list.map Room.name <+: s'.room_list.map Room.name
  numRooms : s.numRooms ≤ s'.numRooms

theorem Grows.refl (s : Server) : s.Grows s := ⟨List.prefix_refl _, Int.le_refl _⟩

theorem Grows.trans (h : s.Grows s') (h' : s'.Grows s'') : s.Grows s'' :=
  ⟨h.names.trans h'.names, Int.le_trans h.numRooms h'.numRooms⟩

/-- What JOINs promise one another. -/
def roomPact : Pact Server := ⟨Table, Grows, Grows.refl, Grows.trans⟩

/-- No room is ever taken off. -/
theorem Lists.later (h : s.Lists name) (hs : s.Grows s') : s'.Lists name := hs.names.subset h

theorem Table.listsOnce (ht : s.Table) (h : s.Lists name) : s.ListsOnce name := by
  obtain ⟨room, hroom, hname⟩ := List.mem_map.mp h
  refine ⟨room, hroom, hname, List.count_eq_one_of_mem ht.names h, ?_⟩
  exact List.count_eq_one_of_mem ht.ids (List.mem_map_of_mem hroom)

/-- A lookup by name finds what is listed. -/
theorem Lists.find (h : s.Lists name) : ∃ r room,
    LinkedList.Rget_roomFNAME s.room_list name = some r ∧ s.room_list[r]? = some room ∧
      room.name = name := by
  cases hr : LinkedList.Rget_roomFNAME s.room_list name with
  | none =>
    obtain ⟨room, hroom, hname⟩ := List.mem_map.mp h
    exact absurd hname (LinkedList.Rget_roomFNAME_none.mp hr room hroom)
  | some r =>
    obtain ⟨room, hroom, hname⟩ := LinkedList.Rget_roomFNAME_some hr
    exact ⟨r, room, rfl, hroom, hname⟩

/-- A room that is inserted is there afterwards, unless its number was given to
another. -/
theorem Table.insertRoom (ht : s.Table) (room : Room)
    (hID : DEFAULT_ROOM ≤ room.ID ∧ room.ID < s.numRooms)
    (hfree : (∀ r ∈ s.room_list, r.ID ≠ room.ID) ∨ s.Lists room.name) :
    (s.insertRoom room).Table ∧ s.Grows (s.insertRoom room) ∧
      (s.insertRoom room).Lists room.name := by
  by_cases hdup : (s.room_list.any fun r => r.name = room.name || r.ID = room.ID) = true
  · have heq : s.insertRoom room = s := by
      simp only [Server.insertRoom, LinkedList.insertRoom, hdup, if_true]
    rw [heq]
    refine ⟨ht, .refl s, ?_⟩
    rcases hfree with hfree | hthere
    · -- refused, but not for the number
      obtain ⟨r, hr, hsame⟩ := List.any_eq_true.mp hdup
      have hname : r.name = room.name := by simpa [hfree r hr] using hsame
      exact List.mem_map.mpr ⟨r, hr, hname⟩
    · exact hthere
  · have heq : s.insertRoom room = { s with room_list := s.room_list ++ [room] } := by
      simp only [Server.insertRoom, LinkedList.insertRoom, hdup]
      rfl
    have hnew (r : Room) (hr : r ∈ s.room_list) : r.name ≠ room.name ∧ r.ID ≠ room.ID := by
      simpa using List.any_eq_false.mp (Bool.eq_false_of_not_eq_true hdup) r hr
    rw [heq]
    refine ⟨ht.insert hID (fun r hr => (hnew r hr).2) fun r hr => (hnew r hr).1, ⟨?_, ?_⟩, ?_⟩
    · rw [List.map_append]
      exact List.prefix_append ..
    · exact Int.le_refl _
    · simp [Server.Lists]

end Server

namespace Op
variable {o : Op} {s : Server}

/-- Where a JOIN inserts a room, its number is still free or the name is there
already. -/
def NumberFree : Op → Server → Prop
  | .insertRoom room, s => (∀ r ∈ s.room_list, r.ID ≠ room.ID) ∨ s.Lists room.name
  | _, _ => True

/-- Where a JOIN looks its room up by name, there is one. -/
def FindsRoom : Op → Server → Prop
  | .Rget_roomFNAME name, s => s.Lists name
  | _, _ => True

/-- The operations that add no room and do not look for one by its name. -/
def Tame : Op → Prop
  | .insertRoom _ => False
  | .Rget_roomFNAME _ => False
  | _ => True

theorem Talks.tame (ho : o.Talks) : o.Tame := by
  cases o with
  | insertRoom => cases ho
  | Rget_roomFNAME => cases ho
  | _ => trivial

/-- The table can do without whatever is tame. -/
theorem Tame.keepsAt (ho : o.Tame) (ht : s.Table) :
    o.FindsRoom s ∧ ops.KeepsAt Server.roomPact o s := by
  have hsame {s' : Server} (h : SameRooms s s') : s'.Table ∧ s.Grows s' :=
    ⟨h.table ht, h.map (g := Room.name) (fun _ _ => rfl) ▸ List.prefix_refl _,
      Int.le_of_eq h.numRooms.symm⟩
  have hrefl : s.Table ∧ s.Grows s := ⟨ht, .refl s⟩
  have hmemory {s' : Server} (hrooms : s'.room_list = s.room_list)
      (hnum : s'.numRooms = s.numRooms) : s'.Table ∧ s.Grows s' :=
    hsame ⟨hnum, fun _ => by rw [hrooms]⟩
  cases o with
  | insertRoom room => cases ho
  | Rget_roomFNAME name => cases ho
  | incNumRooms =>
    refine ⟨trivial, fun b s' es he => ?_⟩
    cases he
    exact ⟨ht.mono (Int.le_add_one (Int.le_refl _)), List.prefix_refl _,
      Int.le_add_one (Int.le_refl _)⟩
  | insertUser l a => exact ⟨trivial, fun b s' es he => by cases he; exact hsame (.insertUser ..)⟩
  | insertNode l a => exact ⟨trivial, fun b s' es he => by cases he; exact hsame (.insertNode ..)⟩
  | removeUser l a => exact ⟨trivial, fun b s' es he => by cases he; exact hsame (.removeUser ..)⟩
  | malloc | free | store | setSock | setRoomID | writeUserFile =>
    exact ⟨trivial, fun b s' es he => by cases he; exact hmemory rfl rfl⟩
  | fault f => exact ⟨trivial, fun b s' es he => by cases he⟩
  | _ => exact ⟨trivial, fun b s' es he => by cases he; exact hrefl⟩

end Op

/-! ## The outline of a JOIN -/

section Outline
variable {α β : Type} {env : Env} {pkt : Packet} {fd : Int} {s : Server} {name : Str}

/-- The JOIN has an acceptable name for a room. -/
def Packet.Requests (pkt : Packet) (name : Str) : Prop :=
  1 < (words pkt.buf).length ∧ arg (words pkt.buf) 0 = name ∧
    acceptsName ROOMNAME_LENGTH name = true

abbrev RoomOutline {α : Type} (Q : α → Server → Prop) (p : Handler α) (s : Server) : Prop :=
  ops.Outline Server.roomPact Op.NumberFree Op.FindsRoom Q p s

theorem outline_tame {p : Handler α} {Q : α → Server → Prop} (hp : p.Uses Op.Tame)
    (hQ : ∀ a s', s.Grows s' → Q a s') : RoomOutline Q p s :=
  .of_uses (fun _ ho _ ht => Op.Tame.keepsAt ho ht) hp hQ

/-- A tame operation, and the rest with what it answered. -/
theorem outline_call {o : Op} {f : o.Ar → Handler β} {Q : β → Server → Prop} (ho : o.Tame)
    (hf : ∀ s₁ b s₂ es, s.Grows s₁ → s₁.Table → o.exec s₁ = .ok (b, s₂, es) →
      RoomOutline Q (f b) s₂) : RoomOutline Q (perform o >>= f) s := by
  refine .call_bind fun s₁ hs ht => ?_
  obtain ⟨hA, hkeep⟩ := ho.keepsAt ht
  exact ⟨hA, fun _ => ⟨hkeep, fun b s₂ es he => hf s₁ b s₂ es hs ht he⟩⟩

/-- The rest of a JOIN whose room is there. -/
theorem outline_changeRoom {Q : Unit → Server → Prop} (hlists : s.Lists (arg (words pkt.buf) 0))
    (hQ : ∀ s', s.Grows s' → Q () s') :
    RoomOutline Q (changeRoom env pkt fd (words pkt.buf)) s := by
  have hfault (f : Fault) : (fault f : Handler Unit).Uses Op.Tame :=
    ⟨trivial, fun e => nomatch (e : Empty)⟩
  have hmessage {q : Packet} : (send_message env q (-1)).Uses Op.Tame :=
    send_message_talks.mono fun _ ho => ho.tame
  refine .call_bind fun s₁ hs ht => ⟨hlists.later hs, fun _ => ⟨fun b s₂ es he => ?_, ?_⟩⟩
  · cases he
    exact ⟨ht, .refl _⟩
  intro newRoom s₂ es he
  obtain rfl : s₂ = s₁ := by
    cases he
    rfl
  refine outline_tame ?_ fun _ s' hs' => hQ s' (hs.trans hs')
  refine .call_bind trivial fun currentRoom => ?_
  cases currentRoom with
  | none => trivial
  | some currentRoom =>
    refine .call_bind trivial fun currUser => ?_
    cases currUser with
    | none => exact hfault _
    | some currUser =>
      refine .call_bind trivial fun _ => ?_
      cases newRoom with
      | none => exact hfault _
      | some newRoom =>
        refine .call_bind trivial fun room => .call_bind trivial fun _ => ?_
        refine .call_bind trivial fun _ => .call_bind trivial fun _ => ?_
        exact .call_bind trivial fun u => hmessage.bind fun _ => hmessage

/-- A room is made of a number that was read before. -/
theorem outline_createRoom {n : Int} {Q : Bool → Server → Prop} (hlow : DEFAULT_ROOM ≤ n)
    (hhigh : n ≤ s.numRooms) (hname : name.length ≤ ROOMNAME_LENGTH)
    (hQ : ∀ b s', s.Grows s' → s'.Lists name → Q b s') :
    RoomOutline Q (createRoom env n name) s := by
  have htake : name.take ROOMNAME_LENGTH = name := List.take_of_length_le hname
  refine outline_call trivial fun s₁ _ s₁' es hs₁ _ he => ?_
  cases he
  refine outline_call trivial fun s₂ _ s₃ es hs₂ _ he => ?_
  cases he
  -- the number has been counted, whatever it is by now
  intro s₃ hs₃ ht₃
  have hn₁ := hs₁.numRooms
  have hn₂ := hs₂.numRooms
  have hn₃ : s₂.numRooms + 1 ≤ s₃.numRooms := hs₃.numRooms
  have hs : s.Grows s₃ := ⟨(hs₁.names.trans hs₂.names).trans hs₃.names, by omega⟩
  refine ⟨trivial, fun hC => ?_⟩
  rw [htake] at hC ⊢
  have hinsert := Server.Table.insertRoom ht₃ ⟨n, env.fd, name, []⟩
    ⟨hlow, by dsimp only; omega⟩ hC
  refine ⟨fun b s₄ es he => ?_, fun b s₄ es he => ?_⟩
  · cases he
    exact ⟨hinsert.1, hinsert.2.1⟩
  · cases he
    exact hQ _ _ (hs.trans hinsert.2.1) hinsert.2.2

/-- What `validName` answers. -/
theorem outline_validName {invalid short long : String} {limit : Nat} :
    RoomOutline (fun b _ => b = acceptsName limit name)
      (validName env invalid short long limit name fd) s := by
  have hrefused {error : Str} (h : acceptsName limit name = false) :
      RoomOutline (fun b _ => b = acceptsName limit name)
        (do sendError env error fd; pure false) s :=
    outline_call trivial fun _ _ _ _ _ _ _ => h.symm
  unfold validName
  split
  · rename_i hsafe
    exact hrefused (by simp [acceptsName, hsafe])
  split
  · rename_i hshort
    exact hrefused (by simp [acceptsName]; omega)
  split
  · rename_i hlong
    exact hrefused (by simp [acceptsName]; omega)
  · rename_i hsafe hshort hlong
    have haccepts : acceptsName limit name = true := by simp [acceptsName]; omega
    exact haccepts.symm

theorem outline_splitArgs {buf : Str} :
    RoomOutline (fun args _ => args = words buf) (splitArgs buf) s := by
  unfold splitArgs
  split
  · exact rfl
  · intro s₁ _ ht
    exact ⟨trivial, fun _ => ⟨(Op.Tame.keepsAt (o := .fault .overflow) trivial ht).2,
      fun b _ _ he => by cases he⟩⟩

/-- **A JOIN leaves its room listed** and finds it on the way. -/
theorem outline_join : RoomOutline (fun _ s => ∀ name, pkt.Requests name → s.Lists name)
    (join env pkt fd) s := by
  have herror {Q : Unit → Server → Prop} {text : Str} {s : Server} (hQ : ∀ s', Q () s') :
      RoomOutline Q (sendError env text fd) s :=
    outline_tame (.call_bind trivial fun _ => trivial) fun _ s' _ => hQ s'
  refine outline_splitArgs.bind fun args s _ hargs => ?_
  subst hargs
  dsimp only
  split
  · refine outline_validName.bind fun valid s _ hvalid => ?_
    split
    · rename_i htrue
      have hlen := (acceptsName_iff.mp (hvalid.symm.trans htrue)).2.2
      -- from where the room is listed
      have hrest {s : Server} (hlists : s.Lists (arg (words pkt.buf) 0)) :
          RoomOutline (fun _ s => ∀ name, pkt.Requests name → s.Lists name)
            (changeRoom env pkt fd (words pkt.buf)) s :=
        outline_changeRoom hlists fun s' hs' name hname => hname.2.1 ▸ hlists.later hs'
      refine outline_call trivial fun s₁ ID s₂ es hs₁ ht₁ he => ?_
      cases he
      split
      · refine outline_call trivial fun s₂ n s₃ es hs₂ ht₂ he => ?_
        cases he
        exact (outline_createRoom (Int.le_of_lt ht₂.lobby_lt) (Int.le_refl _) hlen
          fun _ _ _ hlists => hlists).bind fun _ s _ hlists => hrest hlists
      · rename_i hfound
        refine hrest ?_
        by_contra hno
        exact hfound (ht₁.Rget_ID_eq.mpr fun room hroom hname =>
          hno (List.mem_map.mpr ⟨room, hroom, hname⟩))
    · rename_i hfalse
      refine herror fun s' name hname => absurd ?_ hfalse
      rw [hvalid, hname.2.1]
      exact hname.2.2
  · rename_i hwords
    exact herror fun s' name hname => absurd hname.1 hwords

end Outline

/-! ## All interleavings -/

section Races
variable {ι : Type} [DecidableEq ι]

/-- A thread for every JOIN, on the memory `s`. -/
def Threads.joining (s : Server) (env : ι → Env) (pkt : ι → Packet) (fd : ι → Int) :
    Pool ι Op Op.Ar Server Unit :=
  ⟨s, fun i => join (env i) (pkt i) (fd i)⟩

/-- **No room is lost** in the interleavings in which no JOIN inserts a room whose
number has been given to another one by then, unless the name is there too: every JOIN
that looks its room up by name finds it, it stays listed once and with a number of its
own, and so it is when the JOIN has ended. -/
theorem rooms_survive {sha256 : Str → Digest} {w₀ : World} {env : ι → Env} {pkt : ι → Packet}
    {fd : ι → Int} {w : Pool ι Op Op.Ar Server Unit} (hw₀ : Reachable sha256 w₀)
    (hw : ops.TurnsIf Op.NumberFree (Threads.joining w₀.server env pkt fd) w) :
    (∀ i name k, w.thread i = .act (.Rget_roomFNAME name) k →
      (∃ r room, LinkedList.Rget_roomFNAME w.state.room_list name = some r ∧
        w.state.room_list[r]? = some room ∧ room.name = name) ∧
      ∀ w', ops.TurnsIf Op.NumberFree w w' → w'.state.ListsOnce name) ∧
    ∀ i name, (pkt i).Requests name → w.thread i = .ret () → w.state.ListsOnce name := by
  let Q (i : ι) (_ : Unit) (s : Server) : Prop := ∀ name, (pkt i).Requests name → s.Lists name
  have hQ (i : ι) : Semantics.Stable Server.roomPact (Q i) :=
    fun _ _ _ hs h name hname => (h name hname).later hs
  have hboot (i : ι) : RoomOutline (Q i) (join (env i) (pkt i) (fd i)) w₀.server := outline_join
  have ht₀ : Server.roomPact.inv (Threads.joining w₀.server env pkt fd).state := hw₀.table
  obtain ⟨ht, -, hout⟩ := hw.outline hQ ht₀ hboot
  refine ⟨fun i name k hi => ?_, fun i name hname hi =>
    ht.listsOnce ((hout i).returned hi name hname)⟩
  have hlists : w.state.Lists name := (hout i).next ht hi
  refine ⟨hlists.find, fun w' hw' => ?_⟩
  obtain ⟨ht', hs, -⟩ := hw'.outline hQ ht hout
  exact ht'.listsOnce (hlists.later hs)

end Races

/-! ## Two requests -/

/-- `NumberFree` as a test. -/
def Op.numberFree : Op → Server → Bool
  | .insertRoom room, s => (s.room_list.all fun r => r.ID ≠ room.ID) ||
      (s.room_list.map Room.name).contains room.name
  | _, _ => true

theorem Op.numberFree_spec (o : Op) (s : Server) (h : o.numberFree s = true) : o.NumberFree s := by
  cases o with
  | insertRoom room =>
    rcases Bool.or_eq_true_iff.mp h with h | h
    · exact .inl (by simpa using h)
    · exact .inr (List.contains_iff_mem.mp h)
  | _ => trivial

namespace Sample

/-- Two JOINs for rooms that there are not yet. -/
def rooms : Pool Bool Op Op.Ar Server Unit :=
  Threads.joining (world []).server (fun _ => env)
    (fun i => ⟨0, str (if i then "den 1000" else "pub 1000"), [], [], JOIN⟩) (fun _ => 4)

end Sample

/-- One after the other they get what they ask for. -/
theorem rooms_survive_two :
    let w := ops.schedule Sample.rooms (List.replicate 5 true ++ List.replicate 5 false)
    (∃ k, w.thread false = .act (.Rget_roomFNAME (str "pub")) k) ∧
      w.state.ListsOnce (str "pub") := by
  intro w
  have hturns : ops.TurnsIf Op.NumberFree Sample.rooms w :=
    ops.schedule_turnsIf Op.numberFree_spec (by decide)
  have hnext : ∃ k, w.thread false = .act (.Rget_roomFNAME (str "pub")) k := ⟨_, rfl⟩
  obtain ⟨k, hk⟩ := hnext
  exact ⟨⟨k, hk⟩, ((rooms_survive (Sample.reachable []) hturns).1 false _ k hk).2 w .refl⟩

/-- When they take turns the second room is refused, and its JOIN does not find it. -/
theorem room_lost : ¬ ∀ (sha256 : Str → Digest) (w₀ : World) (env : Bool → Env)
    (pkt : Bool → Packet) (fd : Bool → Int) (w : Pool Bool Op Op.Ar Server Unit),
    Reachable sha256 w₀ → (∀ i, ∃ name, (pkt i).Requests name) →
    ops.Turns (fun _ _ _ => False) (Threads.joining w₀.server env pkt fd) w →
    ∀ i name k, w.thread i = .act (.Rget_roomFNAME name) k →
      ∃ r, LinkedList.Rget_roomFNAME w.state.room_list name = some r := by
  intro h
  let w := ops.schedule Sample.rooms (List.replicate 5 [true, false]).flatten
  have hnext : ∃ k, w.thread false = .act (.Rget_roomFNAME (str "pub")) k := ⟨_, rfl⟩
  have hlost : LinkedList.Rget_roomFNAME w.state.room_list (str "pub") = none := by decide
  have hrequests (i : Bool) : ∃ name, (⟨0, str (if i then "den 1000" else "pub 1000"), [], [],
      JOIN⟩ : Packet).Requests name := by
    cases i with
    | true => exact ⟨str "den", by decide, by decide, by decide⟩
    | false => exact ⟨str "pub", by decide, by decide, by decide⟩
  obtain ⟨k, hk⟩ := hnext
  obtain ⟨r, hr⟩ := h Sample.sha256 _ _ _ _ w (Sample.reachable []) hrequests
    (ops.schedule_turns Sample.rooms _) false _ k hk
  rw [hlost] at hr
  cases hr

end TBDChat
