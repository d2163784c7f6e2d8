import TBDChat.Membership

/-!
# Whom a packet can act on

No handler asks which user a connection is logged in as: each looks the acting
user up by the username in the packet.  So a session is not confined to its own
account.  It is confined to the one account that the packet names: every other
user's record, presence and room are left as they are.
-/

namespace TBDChat
open Atomic

set_option maxRecDepth 8000

namespace Server
variable {s : Server} {a b : Addr} {r k : RoomRef}

/-- Nothing of `a` differs between the two: not its record, not whether it is
active, not where it is. -/
structure Leaves (s s' : Server) (a : Addr) : Prop where
  heap : s'.heap a = s.heap a
  active : a ∈ s'.active_users_list ↔ a ∈ s.active_users_list
  member : ∀ r, a ∈ s'.members r ↔ a ∈ s.members r

theorem Leaves.trans {s s' s'' : Server} (h : s.Leaves s' a) (h' : s'.Leaves s'' a) :
    s.Leaves s'' a where
  heap := h'.heap.trans h.heap
  active := h'.active.trans h.active
  member r := (h'.member r).trans (h.member r)

/-- A change of the records alone. -/
theorem Leaves.of_lists {s s' : Server} (hheap : s'.heap a = s.heap a)
    (hactive : s'.active_users_list = s.active_users_list) (hrooms : s'.room_list = s.room_list) :
    s.Leaves s' a where
  heap := hheap
  active := by rw [hactive]
  member r := by
    rw [members, members, Server.room, Server.room, hrooms]

theorem signIn_leaves {fd : Int} (hne : a ≠ b) (hr : r < s.room_list.length)
    (hact : LinkedList.get_user s.heap s.active_users_list (s.heap b).username = none) :
    s.Leaves (s.signIn b fd r) a := by
  obtain ⟨hactive, hself, hothers, -⟩ := signIn_lists fd hr hact
  refine ⟨?_, by simp [hactive, hne], fun k => ?_⟩
  · simp [signIn, insertNode, modify_heap_ne _ _ _ hne, insertUser]
  · by_cases hk : k = r
    · rw [hk, hself]
      simp [hne]
    · rw [hothers k hk]

theorem move_leaves {r' : RoomRef} {ID : Int} (hi : s.Housed) (hne : a ≠ b)
    (hlen : (s.heap b).username.length < 192) (hr : r < s.room_list.length)
    (hr' : r' < s.room_list.length) (hb : b ∈ s.members r) : s.Leaves (s.move b r r' ID) a := by
  obtain ⟨hactive, hself, hothers, -⟩ := move_lists ID hi hlen hr hr' hb
  refine ⟨?_, by rw [hactive], fun k => ?_⟩
  · simp [Server.move, insertUser, modify_heap_ne _ _ _ hne, removeUser]
  · by_cases hk : k = r'
    · rw [hk, hself]
      simp [hne, List.mem_erase_of_ne hne]
    · rcases Nat.lt_or_ge k s.room_list.length with hlt | hge
      · rw [hothers k hlt hk, List.mem_erase_of_ne hne]
      · rw [members_of_ge hge, members_of_ge (by rwa [(SameRooms.move ..).length])]

theorem signOut_leaves (hi : s.Housed) (hne : a ≠ b) (hr : r < s.room_list.length)
    (hb : b ∈ s.members r) : s.Leaves (s.signOut b r) a := by
  obtain ⟨hactive, hmem⟩ := signOut_lists hi hr hb
  refine ⟨?_, by rw [hactive, List.mem_erase_of_ne hne], fun k => ?_⟩
  · simp [signOut, removeUser]
  · rcases Nat.lt_or_ge k s.room_list.length with hlt | hge
    · rw [hmem k hlt, List.mem_erase_of_ne hne]
    · rw [members_of_ge hge, members_of_ge (by rwa [(SameRooms.signOut ..).length])]

theorem openRoom_leaves {fd : Int} {name : Str} (hi : s.Housed)
    (hname : name.length ≤ ROOMNAME_LENGTH) : s.Leaves (s.openRoom fd name) a := by
  obtain ⟨rooms, n, heq⟩ := s.openRoom_eq fd name
  have hmem := openRoom_members fd hi.table hname
  rw [heq] at hmem ⊢
  exact ⟨rfl, Iff.rfl, fun k => by rw [hmem]⟩

end Server

section Frames
variable {sha256 : Str → Digest} {who : Str} {s s' : Server} {a : Addr}

/-- Nobody is ever taken off the list of registered users. -/
theorem Change.registered (h : Change who s s') :
    s.registered_users_list ⊆ s'.registered_users_list := by
  cases h with
  | enrol u =>
    rcases s.enrol_registered u with h | h
    · rw [h]
      exact List.Subset.refl _
    · rw [h]
      exact List.subset_append_left ..
  | @openRoom fd name =>
    obtain ⟨rooms, n, heq⟩ := s.openRoom_eq fd name
    rw [heq]
    exact List.Subset.refl _
  | free | signIn | move | rename | setPassword | signOut => exact List.Subset.refl _

theorem Changes.registered (h : Changes who s s') :
    s.registered_users_list ⊆ s'.registered_users_list := by
  induction h with
  | refl => exact List.Subset.refl _
  | tail _ hc ih => exact List.Subset.trans ih hc.registered

theorem Changes.housed (hi : s.Housed) (h : Changes who s s') : s'.Housed := by
  induction h with
  | refl => exact hi
  | tail _ hc ih => exact hc.housed ih

/-- **A change leaves alone every user but the one under whose name it is made.** -/
theorem Change.leaves (hi : s.Housed) (h : Change who s s') (ha : a ∈ s.registered_users_list)
    (hne : (s.heap a).username ≠ who) : s.Leaves s' a := by
  -- whatever record is found by the name is not `a`
  have hother {l : List Addr} {b : Addr} (hb : LinkedList.get_user s.heap l who = some b) :
      a ≠ b := by
    intro h
    rw [h] at hne
    exact hne (LinkedList.get_user_some hb).2
  cases h with
  | enrol u =>
    refine .of_lists ?_ rfl rfl
    rw [Server.enrol_heap_old (hi.fresh a ha)]
  | free => exact .of_lists rfl rfl rfl
  | signIn hwho hb hact hr =>
    have hname := (LinkedList.get_user_some hb).2
    exact Server.signIn_leaves (hother hb) (Rget_roomFID_lt hr) (by rwa [hname])
  | openRoom hname => exact Server.openRoom_leaves hi hname
  | move hwho hr hr' hID hb =>
    obtain ⟨hmem, hname⟩ := LinkedList.get_user_some hb
    exact Server.move_leaves hi (hother hb) (by rwa [hname]) hr hr' hmem
  | rename hwho hb =>
    refine .of_lists ?_ rfl rfl
    simp [Server.rename, Server.writeUserFile, Server.modify_heap_ne _ _ _ (hother hb)]
  | setPassword hwho hb =>
    refine .of_lists ?_ rfl rfl
    simp [Server.setPassword, Server.writeUserFile, Server.modify_heap_ne _ _ _ (hother hb)]
  | signOut hb hr =>
    obtain ⟨hlt, hmem⟩ := hi.member_of_roomID hb hr
    exact Server.signOut_leaves hi (hother hb) hlt hmem

theorem Changes.leaves (hi : s.Housed) (h : Changes who s s') (ha : a ∈ s.registered_users_list)
    (hne : (s.heap a).username ≠ who) : s.Leaves s' a := by
  induction h using Relation.ReflTransGen.head_induction_on with
  | refl => exact .of_lists rfl rfl rfl
  | head hc _ ih =>
    have hstep := hc.leaves hi ha hne
    exact hstep.trans (ih (hc.housed hi) (hc.registered ha) (by rwa [hstep.heap]))

/-- **A packet on a logged-in connection acts on no account but the one it
names**: the record of every other user, its presence among the active users and
its place in the rooms are as they were. -/
theorem other_users_untouched {w w' : World} {fd : Int} {p : Packet} {env : Env}
    {name : Str} {es : List Effect} (hw : Reachable sha256 w)
    (hfd : w.conns fd = .serving (some name)) (hs : Step sha256 w (.packet fd p env) w' es)
    (ha : a ∈ w.server.registered_users_list) (hne : (w.server.heap a).username ≠ p.username) :
    w'.server.heap a = w.server.heap a ∧
    (a ∈ w'.server.active_users_list ↔ a ∈ w.server.active_users_list) ∧
    ∀ r, a ∈ w'.server.members r ↔ a ∈ w.server.members r := by
  obtain ⟨next, hp, hrun, -⟩ := hs.handled hfd
  have h := ((received hrun).changes hp).leaves hw.housed ha hne
  exact ⟨h.heap, h.active, h.member⟩

/-- Alice changes her name, and Bob's record stays what it was. -/
theorem other_users_untouched_bob : ∃ w' es,
    Step Sample.sha256 (Sample.world (Sample.enter 4 "alice" ++ Sample.enter 5 "bob"))
      (Sample.packet 4 SETNAME "alice" "Alice B") w' es ∧
    w'.server.heap 1 =
      (Sample.world (Sample.enter 4 "alice" ++ Sample.enter 5 "bob")).server.heap 1 := by
  obtain ⟨w', es, hs⟩ := Sample.exists_step (Sample.enter 4 "alice" ++ Sample.enter 5 "bob")
    (Sample.packet 4 SETNAME "alice" "Alice B") (by decide)
  have hconn : (Sample.world (Sample.enter 4 "alice" ++ Sample.enter 5 "bob")).conns 4 =
      .serving (some (str "alice")) := by decide
  exact ⟨w', es, hs, (other_users_untouched (Sample.reachable _) hconn hs (by decide)
    (by decide)).1⟩

/-- On Alice's connection, a SETNAME in Bob's name renames Bob. -/
theorem session_renames_another : ¬ ∀ (sha256 : Str → Digest) (w w' : World) (fd : Int)
    (name : Str) (p : Packet) (env : Env) (es : List Effect) (a : Addr), Reachable sha256 w →
    w.conns fd = .serving (some name) → Step sha256 w (.packet fd p env) w' es →
    a ∈ w.server.registered_users_list → (w.server.heap a).username ≠ name →
    ((w'.server.heap a).real_name = (w.server.heap a).real_name ∧
      (w'.server.heap a).password = (w.server.heap a).password ∧
      (w'.server.heap a).roomID = (w.server.heap a).roomID) ∧
    (a ∈ w'.server.active_users_list ↔ a ∈ w.server.active_users_list) ∧
    ∀ r, a ∈ w'.server.members r ↔ a ∈ w.server.members r := by
  intro h
  let w := Sample.world (Sample.enter 4 "alice" ++ Sample.enter 5 "bob")
  have hname : (w.step Sample.sha256 (Sample.packet 4 SETNAME "bob" "Robert")).map
      (fun x => (x.1.server.heap 1).real_name) = some (str "Robert") := by decide
  obtain ⟨⟨w', es⟩, hstep, hreal⟩ := Option.map_eq_some_iff.mp hname
  have hsame := (h Sample.sha256 w w' 4 (str "alice") _ _ es 1 (Sample.reachable _)
    (by decide) (World.step_eq_some.mp hstep) (by decide) (by decide)).1.1
  rw [hreal] at hsame
  exact absurd hsame (by decide)

end Frames
end TBDChat
