import TBDChat.CurrentRoom

/-!
# Requests that name a room the user has left

The client writes the number of its room into a JOIN, a LEAVE and chat, and the
server takes it from there, where `exit_client` and `get_room_users` go by the room
of the user's record.  Between the two lies what is in flight.  A request names the
right room as long as the client does not send one while a reply is about to move
it, nor has one behind another that is about to move its user.
-/

namespace TBDChat
open Atomic

set_option maxRecDepth 8000

/-! ## The numbers in requests -/

/-- The number of the room in a JOIN, a LEAVE or chat. -/
def Packet.roomNumber (p : Packet) : Option Int :=
  if p.options = JOIN ∨ p.options = LEAVE then some (atoi (arg (words p.buf) 1))
  else if 1000 ≤ p.options then some p.options
  else none

/-- The packet is one of these from a client that has been logged in: before that its
`currentRoom` is 0. -/
def Packet.NamesRoom (p : Packet) : Prop := ∃ n, p.roomNumber = some n ∧ n ≠ 0

/-- What the shipped client sends: `main` gives the packet its username and makes chat
of what is no command, `validJoin` appends the room to the first word behind `/join`,
and `userCommand` writes a LEAVE anew. -/
structure Client.Sends (k : Client) (p : Packet) : Prop where
  username : p.username = k.username
  join : p.options = JOIN →
    ∃ name, (∀ x ∈ name, x ∉ delim) ∧ p.buf = name ++ str " " ++ dec k.currentRoom
  leave : p.options = LEAVE → p.buf = str "/leave" ++ str " " ++ dec k.currentRoom
  chat : 1000 ≤ p.options → p.options = k.currentRoom

/-- The server reads the number that the client wrote. -/
theorem Client.Sends.roomNumber {k : Client} {p : Packet} {n : Int} (h : k.Sends p)
    (h0 : 0 ≤ k.currentRoom) (h31 : k.currentRoom < 2 ^ 31) (hn : p.roomNumber = some n) :
    n = k.currentRoom := by
  have hread {name : Str} (hname : ∀ x ∈ name, x ∉ delim)
      (hbuf : p.buf = name ++ str " " ++ dec k.currentRoom) :
      atoi (arg (words p.buf) 1) = k.currentRoom := by
    have harg : arg (words p.buf) 1 = dec k.currentRoom := by
      rw [hbuf, words_joined hname]
      rfl
    rw [harg, atoi_dec h0 h31]
  unfold Packet.roomNumber at hn
  split at hn
  · rename_i hopt
    obtain rfl := Option.some.inj hn
    rcases hopt with hjoin | hleave
    · obtain ⟨name, hname, hbuf⟩ := h.join hjoin
      exact hread hname hbuf
    · exact hread (by decide) (h.leave hleave)
  split at hn
  · rename_i hchat
    obtain rfl := Option.some.inj hn
    exact h.chat hchat
  · cases hn

/-- `n` is the number of the room whose list holds a user called `u`, and of no
other. -/
def Server.RoomOf (s : Server) (u : Str) (n : Int) : Prop :=
  (∃ room ∈ s.room_list, room.ID = n) ∧
    ∀ room ∈ s.room_list, (∃ a ∈ room.user_list, (s.heap a).username = u) ↔ room.ID = n

/-- A user is where the user's record says. -/
theorem Server.Housed.roomOf {s : Server} {u : Str} {a : Addr} (hi : s.Housed)
    (ha : LinkedList.get_user s.heap s.active_users_list u = some a) :
    s.RoomOf u (s.heap a).roomID := by
  obtain ⟨hact, hname⟩ := LinkedList.get_user_some ha
  have hmem (k : RoomRef) (hk : k < s.room_list.length) (b : Addr) :
      b ∈ s.room_list[k].user_list ↔ b ∈ s.members k := by
    rw [Server.members, Server.room_eq hk]
  have hID (k : RoomRef) (hk : k < s.room_list.length) : s.room_list[k].ID = (s.room k).ID := by
    rw [Server.room_eq hk]
  obtain ⟨r, hr, hroom⟩ := hi.room a hact
  refine ⟨⟨s.room_list[r], List.getElem_mem hr, (hID r hr).trans hroom⟩, fun room hlisted => ?_⟩
  obtain ⟨k, hk, rfl⟩ := List.mem_iff_getElem.mp hlisted
  constructor
  · rintro ⟨b, hb, hbname⟩
    obtain ⟨hbact, hbroom⟩ := (hi.member k hk b).mp ((hmem k hk b).mp hb)
    have hba : b = a := hi.username_inj hbact hact (by rw [hbname, hname])
    rw [hID k hk, ← hbroom, hba]
  · intro h
    refine ⟨a, (hmem k hk a).mpr ((hi.member k hk a).mpr ⟨hact, ?_⟩), hname⟩
    rw [← hID k hk, h]

/-! ## One step -/

section Steps
variable {sha256 : Str → Digest} {c : Int} {u : Str} {j j₀ j' : Joint}

/-- The client sends no request naming a room while a reply in flight is about to move
it, and the server moves `u` only when no such request is behind. -/
structure Joint.Unhurried (u : Str) (j j' : Joint) : Prop where
  send : ∀ p, j'.up = j.up ++ [p] → p.NamesRoom → j.client.catchUp j.down = some j.client
  serve : ∀ p, j.up = p :: j'.up →
    ∀ a, LinkedList.get_user j.world.server.heap j.world.server.active_users_list u = some a →
      j.world.server.Moves a p → ∀ q ∈ j'.up, ¬ q.NamesRoom

/-- Every request in flight names `u` and the room that `u` is in. -/
structure Joint.Fresh (sha256 : Str → Digest) (c : Int) (u : Str) (j : Joint) : Prop where
  agrees : j.Agrees sha256 c u
  int : j.world.server.numRooms < 2 ^ 31
  up : ∀ p ∈ j.up, ∀ n, p.roomNumber = some n → n ≠ 0 → p.username = u ∧
    ∀ a, LinkedList.get_user j.world.server.heap j.world.server.active_users_list u = some a →
      (j.world.server.heap a).roomID = n

theorem Joint.Fresh.step (hj : j.Fresh sha256 c u)
    (h : Joint.Step sha256 Client.Sends (World.Spares u) c j j') (hslow : j.Unhurried u j') :
    j'.Fresh sha256 c u := by
  have hown : ∀ p ∈ j.up.head?, p.options = JOIN ∨ p.options = LEAVE →
      p.username = u ∨ atoi (arg (words p.buf) 1) < 1000 := by
    intro p hp hopt
    have hnumber : p.roomNumber = some (atoi (arg (words p.buf) 1)) := if_pos hopt
    by_cases h0 : atoi (arg (words p.buf) 1) = 0
    · exact .inr (by omega)
    · exact .inl (hj.up p (List.mem_of_mem_head? hp) _ hnumber h0).1
  have hagrees' := hj.agrees.step h (fun e _ hspares => hspares) hown
  obtain ⟨hreach, hc, a, ha, hk⟩ := hj.agrees
  have hi := hreach.housed
  cases h with
  | @send w k up down p hp =>
    refine ⟨hagrees', hj.int, List.forall_mem_append.mpr ⟨hj.up, ?_⟩⟩
    refine List.forall_mem_singleton.mpr fun n hn h0 => ?_
    -- what the client has in hand is what the server has for it
    have hnow : k.catchUp down = some k := hslow.send p rfl ⟨n, hn, h0⟩
    have hk : k.catchUp down = some ⟨u, (w.server.heap a).roomID⟩ := hk
    obtain rfl : k = ⟨u, (w.server.heap a).roomID⟩ := Option.some.inj (hnow.symm.trans hk)
    obtain ⟨hlow, hhigh⟩ := hi.roomID_lt (LinkedList.get_user_some ha).1
    have h0 : 0 ≤ (w.server.heap a).roomID := Int.le_trans (by decide) hlow
    refine ⟨hp.username, fun b hb => ?_⟩
    obtain rfl := Option.some.inj (ha.symm.trans hb)
    exact (hp.roomNumber h0 (Int.lt_trans hhigh hj.int) hn).symm
  | @serve w w' k up down p env es hopt hs hint =>
    obtain ⟨next, hp, hrun, -⟩ := hs.handled hc
    obtain ⟨-, hget, -, hmoves⟩ := own_room hi hp hrun hint hopt ha (hown p rfl)
    refine ⟨hagrees', hint, fun q hq n hn h0 => ?_⟩
    obtain ⟨hname, hroom⟩ := hj.up q (List.mem_cons_of_mem _ hq) n hn h0
    refine ⟨hname, fun b hb => ?_⟩
    obtain rfl := Option.some.inj (hget.symm.trans hb)
    rw [← hroom a ha]
    by_contra hne
    exact hslow.serve p rfl a ha (hmoves hne) q hq ⟨n, hn, h0⟩
  | @other w w' k up down e es he hspares hs hint =>
    obtain ⟨-, hleaves, -⟩ := hs.others_leave hi hc ha he hspares
    have hget := hleaves.get_user hagrees'.reachable.housed ha
    refine ⟨hagrees', hint, fun q hq n hn h0 => ?_⟩
    obtain ⟨hname, hroom⟩ := hj.up q hq n hn h0
    refine ⟨hname, fun b hb => ?_⟩
    obtain rfl := Option.some.inj (hget.symm.trans hb)
    rw [hleaves.heap]
    exact hroom a ha
  | deliver => exact ⟨hagrees', hj.int, hj.up⟩

/-- **Requests in flight name the room that the user is in**, in the runs in which
client and server take their time. -/
theorem requests_current (hstart : Joint.Start sha256 c u j₀)
    (hrun : Relation.ReflTransGen (fun j j' =>
      Joint.Step sha256 Client.Sends (World.Spares u) c j j' ∧ j.Unhurried u j') j₀ j) :
    ∀ p ∈ j.up, ∀ n, p.roomNumber = some n → n ≠ 0 → j.world.server.RoomOf u n := by
  have hj : j.Fresh sha256 c u := by
    induction hrun with
    | refl =>
      refine ⟨hstart.agrees, hstart.int, fun p hp => ?_⟩
      rw [hstart.up] at hp
      exact absurd hp List.not_mem_nil
    | tail _ h ih => exact ih.step h.1 h.2
  intro p hp n hn h0
  obtain ⟨a, ha, -⟩ := hj.agrees.room
  rw [← (hj.up p hp n hn h0).2 a ha]
  exact hj.agrees.reachable.housed.roomOf ha

/-- The delivery of all that is in flight is no hurry. -/
theorem Joint.delivered {w : World} {k k' : Client} {up down : List Packet}
    (h : k.catchUp down = some k') : Relation.ReflTransGen (fun j j' =>
      Joint.Step sha256 Client.Sends (World.Spares u) c j j' ∧ j.Unhurried u j')
      ⟨w, k, up, down⟩ ⟨w, k', up, []⟩ := by
  induction down generalizing k with
  | nil =>
    obtain rfl := Option.some.inj h
    exact .refl
  | cons q down ih =>
    have h : (k.chatRX q).bind (·.catchUp down) = some k' := h
    obtain ⟨k₁, hone, hrest⟩ := Option.bind_eq_some_iff.mp h
    refine .head ⟨.deliver hone, fun p hp => ?_, fun p hp => ?_⟩ (ih hrest)
    · simp at hp
    · simp at hp

end Steps

namespace Sample

/-- What she says in the Lobby. -/
def remark : Packet := ⟨0, str "hi", str "alice", str "alice", 1000⟩

/-- The replies to the login tell her where she is. -/
theorem alone_told :
    Client.catchUp ⟨[], 0⟩ (sentTo 4 (alone.out 1)) = some ⟨str "alice", 1000⟩ := by
  decide

theorem sends_request : Client.Sends ⟨str "alice", 1000⟩ request where
  username := rfl
  join _ := ⟨str "den", by decide, by decide⟩
  leave h := absurd h (by decide)
  chat h := absurd h (by decide)

theorem sends_remark : Client.Sends ⟨str "alice", 1000⟩ remark where
  username := rfl
  join h := absurd h (by decide)
  leave h := absurd h (by decide)
  chat _ := rfl

end Sample

/-- Alice asks for a room when she has been told where she is. -/
theorem requests_current_alice : (Sample.alone.state 2).server.RoomOf (str "alice") 1000 := by
  have hunhurried : Joint.Unhurried (str "alice")
      ⟨Sample.alone.state 2, ⟨str "alice", 1000⟩, [], []⟩
      ⟨Sample.alone.state 2, ⟨str "alice", 1000⟩, [Sample.request], []⟩ :=
    ⟨fun _ _ _ => rfl, fun p hp => by cases hp⟩
  exact requests_current Sample.alone_start
    ((Joint.delivered Sample.alone_told).tail ⟨.send Sample.sends_request, hunhurried⟩)
    Sample.request List.mem_cons_self 1000 (by decide) (by decide)

/-- She does not wait for the answer before she speaks, and is heard of in the room
that she has left. -/
theorem request_stale : ¬ ∀ (sha256 : Str → Digest) (c : Int) (u : Str) (j₀ j : Joint),
    Joint.Start sha256 c u j₀ → j₀.client = ⟨[], 0⟩ →
    Relation.ReflTransGen (Joint.Step sha256 Client.Sends (World.Spares u) c) j₀ j →
    ∀ p rest, j.up = p :: rest → ∀ n, p.roomNumber = some n → n ≠ 0 →
      j.world.server.RoomOf u n := by
  intro h
  let w := Sample.alone.state 2
  let w' := Sample.alone.state 3
  let k : Client := ⟨str "alice", 1000⟩
  have hdelivered : Relation.ReflTransGen
      (Joint.Step Sample.sha256 Client.Sends (World.Spares (str "alice")) 4)
      ⟨w, ⟨[], 0⟩, [], sentTo 4 (Sample.alone.out 1)⟩ ⟨w, k, [], []⟩ :=
    (Joint.delivered Sample.alone_told).lift id fun _ _ h => h.1
  have hrequest : Joint.Step Sample.sha256 Client.Sends (World.Spares (str "alice")) 4
      ⟨w, k, [], []⟩ ⟨w, k, [Sample.request], []⟩ := .send Sample.sends_request
  have hremark : Joint.Step Sample.sha256 Client.Sends (World.Spares (str "alice")) 4
      ⟨w, k, [Sample.request], []⟩ ⟨w, k, [Sample.request, Sample.remark], []⟩ :=
    .send Sample.sends_remark
  have hserve : Joint.Step Sample.sha256 Client.Sends (World.Spares (str "alice")) 4
      ⟨w, k, [Sample.request, Sample.remark], []⟩
      ⟨w', k, [Sample.remark], sentTo 4 (Sample.alone.out 2)⟩ :=
    .serve (by decide) (Sample.alone.next 2 (by decide)) (by decide)
  obtain ⟨⟨room, hroom, hID⟩, hmember⟩ := h Sample.sha256 4 (str "alice") _ _ Sample.alone_start rfl
    (((hdelivered.tail hrequest).tail hremark).tail hserve) Sample.remark [] rfl 1000
    (by decide) (by decide)
  have hempty : ∀ room ∈ w'.server.room_list, room.ID = 1000 → room.user_list = [] := by decide
  obtain ⟨a, ha, -⟩ := (hmember room hroom).mpr hID
  rw [hempty room hroom hID] at ha
  exact absurd ha List.not_mem_nil

end TBDChat
