import TBDChat.NullDereference
import TBDChat.RoomLookups

/-!
# A JOIN as a whole

`join` checks the name, makes the room if there is none, and only then looks for the room
the client says it is in and for the user there.  When that room is not there nothing is
sent, and the new room stays; when the user is not in it, a NULL is dereferenced.
-/

namespace TBDChat
open Atomic

set_option maxRecDepth 8000

/-- The user is in the room at `r` and in no other. -/
def Server.OnlyIn (s : Server) (user : Str) (r : RoomRef) : Prop :=
  ∀ k < s.room_list.length, (∃ a ∈ s.members k, (s.heap a).username = user) ↔ k = r

/-- From `s` to `s'` the user went to the room of the name, which was made under a number
of its own if it was not there, and `fd` has been told. -/
structure JoinedAt (s s' : Server) (user name : Str) (fd : Int) (es : List Effect)
    (r : RoomRef) : Prop where
  room : r < s'.room_list.length
  named : (s'.room r).name = name
  only : s'.OnlyIn user r
  /-- No other room is new. -/
  rooms : s'.nameplates =
    if name ∈ s.names then s.nameplates else s.nameplates ++ [((s'.room r).ID, name)]
  fresh : name ∉ s.names → (s'.room r).ID ∉ s.room_list.map Room.ID
  told : ∃ q, .send fd q ∈ es ∧ q.options = JOINSUC ∧ q.buf = name ++ str " " ++ dec (s'.room r).ID

/-- The rooms are as they were, and `fd` has been sent an error. -/
structure JoinRefused (s s' : Server) (fd : Int) (es : List Effect) : Prop where
  room_list : s'.room_list = s.room_list
  numRooms : s'.numRooms = s.numRooms
  told : ∃ q, .send fd q ∈ es ∧ q.options = SERV_ERR

/-- The packet is handled, and the JOIN is done or refused as a whole. -/
def AllOrNothing (sha256 : Str → Digest) (env : Env) (s : Server) (session : Str) (p : Packet)
    (fd : Int) : Prop :=
  ∃ next s' es, ops.run (client_receive sha256 env (some session) p fd) s = .ok (next, s', es) ∧
    ((∃ r, JoinedAt s s' p.username (arg (words p.buf) 0) fd es r) ∨ JoinRefused s s' fd es)

/-- The user named in the packet is in the room that it gives as the current one. -/
def Server.InClaimed (s : Server) (p : Packet) : Prop :=
  ∃ a, LinkedList.get_user s.heap s.active_users_list p.username = some a ∧
    (s.heap a).roomID = atoi (arg (words p.buf) 1)

section Handling
variable {sha256 : Str → Digest} {env : Env} {p : Packet} {fd : Int} {s s' : Server}

/-- A JOIN on a connection that is logged in, as an equation. -/
theorem run_receive_join (session : Str) (hopt : p.options = JOIN) :
    ops.run (client_receive sha256 env (some session) p fd) s =
      (ops.run (join env p fd) s).andThen fun _ s' => .ok (.receive (some session), s', []) := by
  rw [client_receive, receiveSession, if_pos (by rw [hopt]; decide),
    if_neg (by rw [hopt]; decide), receiveRequest_join hopt, Semantics.run_bind]
  rfl

/-- After `join` has made sure of the room there is just one more nameplate, if any. -/
theorem nameplates_opened (ht : s.Table) {name : Str} (hname : name.length ≤ ROOMNAME_LENGTH)
    {r : RoomRef} (hr : LinkedList.Rget_roomFNAME (s.openRoom fd name).room_list name = some r) :
    (s.openRoom fd name).nameplates =
        (if name ∈ s.names then s.nameplates
          else s.nameplates ++ [(((s.openRoom fd name).room r).ID, name)]) ∧
      (name ∉ s.names → ((s.openRoom fd name).room r).ID ∉ s.room_list.map Room.ID) := by
  have hmem : name ∈ s.names ↔ LinkedList.Rget_ID s.room_list name ≠ -1 := by
    rw [ne_eq, ht.Rget_ID_eq, Server.names, List.mem_map]
    simp
  rcases Server.openRoom_cases fd ht hname with ⟨h, hold⟩ | ⟨hnew, h⟩
  · rw [h, if_pos (hmem.mpr hold)]
    exact ⟨rfl, fun hno => absurd (hmem.mpr hold) hno⟩
  · have hno : name ∉ s.names := fun hin => hmem.mp hin hnew
    -- the room found is the one that was made
    have hID : ((s.openRoom fd name).room r).ID = s.numRooms := by
      obtain ⟨room, hroom, hrname⟩ := LinkedList.Rget_roomFNAME_some hr
      have hroom' : (s.openRoom fd name).room r = room := Server.room_of_getElem? hroom
      rw [hroom']
      have hin := List.mem_of_getElem? hroom
      rw [h] at hin
      rcases List.mem_append.mp hin with hin | hin
      · exact absurd (List.mem_map.mpr ⟨room, hin, hrname⟩) hno
      · rw [List.mem_singleton.mp hin]
    refine ⟨?_, fun _ hin => ?_⟩
    · rw [if_neg hno, hID, h, Server.nameplates, Server.nameplates, List.map_append]
      rfl
    · rw [hID] at hin
      exact absurd (ht.range _ hin).2 (Int.lt_irrefl _)

/-- The user is where the move has put them, and nowhere else. -/
theorem onlyIn_move (hi : s.Housed) {a : Addr} {r r' : RoomRef}
    (hlen : (s.heap a).username.length < 192) (hr : r < s.room_list.length)
    (hr' : r' < s.room_list.length) (ha : a ∈ s.members r) :
    (s.move a r r' (s.room r').ID).OnlyIn (s.heap a).username r' := by
  have hi' : (s.move a r r' (s.room r').ID).Housed := hi.move hlen hr hr' rfl ha
  have hrooms := SameRooms.move s a r r' (s.room r').ID
  obtain ⟨hactive, hself, hothers, -⟩ := Server.move_lists (s.room r').ID hi hlen hr hr' ha
  have huser (b : Addr) : ((s.move a r r' (s.room r').ID).heap b).username =
      (s.heap b).username := s.username_move hlen r r' (s.room r').ID b
  have hin : a ∈ (s.move a r r' (s.room r').ID).members r' := by
    rw [hself]
    exact List.mem_append_right _ List.mem_cons_self
  intro k hk
  constructor
  · rintro ⟨b, hb, hname⟩
    -- whoever has the name is the user
    have hact := hi'.active hk hb
    have hba : b = a := by
      rw [hactive] at hact
      rw [huser] at hname
      exact hi.username_inj hact (hi.active hr ha) hname
    subst hba
    by_contra hne
    exact hi'.not_member (by rwa [hrooms.length]) hin hk hne hb
  · rintro rfl
    exact ⟨a, hin, huser a⟩

/-- Too few words, or a name that is not one: the rooms stay, and the client is told. -/
theorem join_refused {session : Str} (hopt : p.options = JOIN) (hw : (words p.buf).length ≤ 15)
    (h : (words p.buf).length ≤ 1 ∨ acceptsName ROOMNAME_LENGTH (arg (words p.buf) 0) = false) :
    AllOrNothing sha256 env s session p fd := by
  have hrun := @run_receive_join sha256 env p fd s session hopt
  rw [run_join, if_neg (Nat.not_lt_of_le hw)] at hrun
  by_cases h1 : (words p.buf).length ≤ 1
  · rw [if_pos h1] at hrun
    exact ⟨_, _, _, hrun, .inr ⟨rfl, rfl, _, List.mem_cons_self, rfl⟩⟩
  · have hname := h.resolve_left h1
    rw [if_neg h1, if_pos hname] at hrun
    refine ⟨_, _, _, hrun, .inr ⟨rfl, rfl, ?_⟩⟩
    exact ⟨_, List.mem_append_left _ (List.mem_append_right _ List.mem_cons_self), rfl⟩

/-- With an acceptable name all depends on the room that is claimed. -/
theorem run_join_accepted (session : Str) (hopt : p.options = JOIN)
    (hw : (words p.buf).length ≤ 15) (h1 : 1 < (words p.buf).length)
    (hname : acceptsName ROOMNAME_LENGTH (arg (words p.buf) 0) = true) :
    ops.run (client_receive sha256 env (some session) p fd) s =
      (((ops.run (changeRoom env p fd (words p.buf))
        (s.openRoom env.fd (arg (words p.buf) 0))).prepend
        (openEffects s env.fd (arg (words p.buf) 0))).andThen
        fun _ s' => .ok (.receive (some session), s', [])) := by
  rw [run_receive_join session hopt, run_join, if_neg (Nat.not_lt_of_le hw),
    if_neg (Nat.not_le_of_lt h1), hname]
  rfl

theorem inClaimed_openRoom (fd : Int) (name : Str) :
    (s.openRoom fd name).InClaimed p ↔ s.InClaimed p := by
  obtain ⟨rooms, n, heq⟩ := s.openRoom_eq fd name
  rw [heq]
  rfl

/-- From the room the client says it is in, the user is moved. -/
theorem join_done {session : Str} (hi : s.Housed) (hwf : p.Wf) (hopt : p.options = JOIN)
    (hw : (words p.buf).length ≤ 15) (h1 : 1 < (words p.buf).length)
    (hname : acceptsName ROOMNAME_LENGTH (arg (words p.buf) 0) = true) (hin : s.InClaimed p) :
    AllOrNothing sha256 env s session p fd := by
  have hlen := (acceptsName_iff.mp hname).2.2
  have hrun := @run_join_accepted sha256 env p fd s session hopt hw h1 hname
  obtain ⟨r', hr'⟩ := Server.Rget_roomFNAME_openRoom env.fd hi.table hlen
  obtain ⟨hplates, hfresh⟩ := nameplates_opened hi.table hlen hr'
  have hi₁ : (s.openRoom env.fd (arg (words p.buf) 0)).Housed := hi.openRoom hlen
  rw [← inClaimed_openRoom env.fd (arg (words p.buf) 0)] at hin
  generalize s.openRoom env.fd (arg (words p.buf) 0) = s₁ at hrun hr' hplates hfresh hi₁ hin
  -- the claimed room, the user in it and the room to go to are all there
  obtain ⟨a, hact, hroomID⟩ := hin
  obtain ⟨r, hr, ha⟩ := hi₁.find_member.mpr ⟨hact, hroomID⟩
  obtain ⟨hmem, huser⟩ := LinkedList.get_user_some ha
  obtain ⟨room, hroom, hroomname⟩ := LinkedList.Rget_roomFNAME_some hr'
  have hr'lt := (List.getElem?_eq_some_iff.mp hroom).1
  have hrlt := Rget_roomFID_lt hr
  obtain ⟨k, hk⟩ := Rget_roomFID_room hr'lt
  have hshort : (s₁.heap a).username.length < 192 := by
    rw [huser]
    exact Nat.lt_of_le_of_lt hwf.username.1 (by decide)
  have hsame := SameRooms.move s₁ a r r' (s₁.room r').ID
  have honly := onlyIn_move hi₁ hshort hrlt hr'lt hmem
  rw [huser] at honly
  rw [run_changeRoom, hr] at hrun
  simp [ha, hr', announce, hr, hk] at hrun
  refine ⟨_, _, _, hrun, .inl ⟨r', ?_⟩⟩
  have hID := hsame.ID r'
  refine ⟨?_, ?_, honly, ?_, ?_, ?_⟩
  · rwa [hsame.length]
  · have hkept : ((s₁.move a r r' (s₁.room r').ID).room r').name = (s₁.room r').name :=
      Server.room_congr (hsame.map fun _ _ => rfl) r'
    rw [hkept, Server.room_of_getElem? hroom, hroomname]
  · rw [hsame.nameplates, hID, hplates]
  · rw [hID]
    exact hfresh
  · refine ⟨_, List.mem_append_right _ List.mem_cons_self, rfl, ?_⟩
    rw [hID, List.append_assoc]
    rfl

/-- And from anywhere else nobody is told anything. -/
theorem join_lost {session : Str} (hi : s.Housed) (hopt : p.options = JOIN)
    (hw : (words p.buf).length ≤ 15) (h1 : 1 < (words p.buf).length)
    (hname : acceptsName ROOMNAME_LENGTH (arg (words p.buf) 0) = true) (hin : ¬ s.InClaimed p) :
    ¬ AllOrNothing sha256 env s session p fd := by
  rintro ⟨next, s', es, hrun, hwhole⟩
  rw [run_join_accepted session hopt hw h1 hname] at hrun
  have hi₁ : (s.openRoom env.fd (arg (words p.buf) 0)).Housed :=
    hi.openRoom (acceptsName_iff.mp hname).2.2
  rw [← inClaimed_openRoom env.fd (arg (words p.buf) 0)] at hin
  generalize s.openRoom env.fd (arg (words p.buf) 0) = s₁ at hrun hi₁ hin
  -- the only thing that has been done is to open a room
  have hopened : es = openEffects s env.fd (arg (words p.buf) 0) := by
    rw [run_changeRoom] at hrun
    cases hr : LinkedList.Rget_roomFID s₁.room_list (atoi (arg (words p.buf) 1)) with
    | none =>
      rw [hr] at hrun
      cases hrun
      simp
    | some r =>
      cases ha : LinkedList.get_user s₁.heap (s₁.members r) p.username with
      | none =>
        simp only [hr, ha] at hrun
        cases hrun
      | some a => exact absurd ⟨a, hi₁.find_member.mp ⟨r, hr, ha⟩⟩ hin
  have hquiet (q : Packet) : .send fd q ∉ es := by
    rw [hopened, openEffects]
    split <;> simp
  rcases hwhole with ⟨r, h⟩ | h
  · obtain ⟨q, hq, -⟩ := h.told
    exact hquiet q hq
  · obtain ⟨q, hq, -⟩ := h.told
    exact hquiet q hq

/-- A JOIN with an acceptable name is all or nothing just when the user is in the room that
the packet claims. -/
theorem join_outcome_iff {w : World} {session : Str} (hw : Reachable sha256 w) (hwf : p.Wf)
    (hopt : p.options = JOIN) (hwords : (words p.buf).length ≤ 15) :
    AllOrNothing sha256 env w.server session p fd ↔
      (words p.buf).length ≤ 1 ∨ acceptsName ROOMNAME_LENGTH (arg (words p.buf) 0) = false ∨
        w.server.InClaimed p := by
  have hi := hw.housed
  constructor
  · intro h
    by_contra hno
    simp only [not_or] at hno
    obtain ⟨h1, hname, hin⟩ := hno
    exact join_lost hi hopt hwords (Nat.lt_of_not_le h1) (Bool.eq_true_of_not_eq_false hname)
      hin h
  · rintro (h1 | hname | hin)
    · exact join_refused hopt hwords (.inl h1)
    · exact join_refused hopt hwords (.inr hname)
    · by_cases h1 : (words p.buf).length ≤ 1
      · exact join_refused hopt hwords (.inl h1)
      cases hname : acceptsName ROOMNAME_LENGTH (arg (words p.buf) 0) with
      | false => exact join_refused hopt hwords (.inr hname)
      | true => exact join_done hi hwf hopt hwords (Nat.lt_of_not_le h1) hname hin

end Handling

namespace Sample

/-- Alice, who is in the Lobby, asks for a room called den. -/
def toDen (claimed : String) : Packet :=
  ⟨0, str ("den " ++ claimed), str "alice", str "alice", JOIN⟩

theorem toDen_wf : (toDen "1000").Wf ∧ (toDen "5000").Wf :=
  ⟨⟨by decide, by decide, by decide⟩, by decide, by decide, by decide⟩

end Sample

theorem join_outcome_alice :
    AllOrNothing Sample.sha256 Sample.env (Sample.world (Sample.enter 4 "alice")).server
      (str "alice") (Sample.toDen "1000") 4 := by
  refine (join_outcome_iff (Sample.reachable _) Sample.toDen_wf.1 rfl (by decide)).mpr ?_
  exact .inr (.inr ⟨0, by decide, by decide⟩)

/-- She is wrong about the room that she is in: the new room stays, and nobody tells her. -/
theorem join_unanswered : ¬ ∀ (sha256 : Str → Digest) (env : Env) (w : World) (p : Packet)
    (fd : Int), Reachable sha256 w → w.conns fd = .serving (some p.username) → p.Wf →
    p.options = JOIN → (words p.buf).length ≤ 15 →
    AllOrNothing sha256 env w.server p.username p fd := by
  intro h
  have hconn : (Sample.world (Sample.enter 4 "alice")).conns 4 = .serving (some (str "alice")) := by
    decide
  have hwhole := h Sample.sha256 Sample.env _ (Sample.toDen "5000") 4 (Sample.reachable _) hconn
    Sample.toDen_wf.2 rfl (by decide)
  refine join_lost (Sample.reachable _).housed rfl (by decide) (by decide) (by decide) ?_ hwhole
  rintro ⟨a, ha, hroom⟩
  have hactive : LinkedList.get_user (Sample.world (Sample.enter 4 "alice")).server.heap
      (Sample.world (Sample.enter 4 "alice")).server.active_users_list (str "alice") = some 0 := by
    decide
  obtain rfl : (0 : Addr) = a := Option.some.inj (hactive.symm.trans ha)
  exact absurd hroom (by decide)

end TBDChat
