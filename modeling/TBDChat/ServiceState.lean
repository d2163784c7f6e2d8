import TBDChat.ChatService
import TBDChat.ChatDelivery
import TBDChat.CleanReplies
import TBDChat.PasswordChange
import TBDChat.TextLengths

/-!
# The memory seen as the state of the service

Behind the lists, the records and the descriptors there are accounts, places and sessions.
`World.service` is what is left of the server when it is looked at through its own lookups: an
account is the record that a username finds, a place is the number that an active record
carries, and a session is the name that a thread goes by.

Each change of the memory is one change of that state, or none.
-/

namespace TBDChat
open Atomic Bytes ChatService

set_option maxRecDepth 8000

/-- The service over the server's usernames, room names, digests, real names and
descriptors. -/
abbrev ServiceState := ChatService.State Str Str (List UInt8) Str Int

/-- What a record says of its user. -/
def User.account (u : User) : Account (List UInt8) Str := ⟨u.hash, u.real_name⟩

@[simp] theorem User.account_secret (u : User) : u.account.secret = u.hash := rfl
@[simp] theorem User.account_shown (u : User) : u.account.shown = u.real_name := rfl

/-- The name a connection is logged in with. -/
def Conn.user : Conn → Option Str
  | .serving session => session
  | _ => none

namespace Server
variable (s : Server)

/-- The account that a username finds. -/
def accounts (u : Str) : Option (Account (List UInt8) Str) :=
  (LinkedList.get_user s.heap s.registered_users_list u).map fun a => (s.heap a).account

/-- The room of an active user, counted from the Lobby. -/
def place (u : Str) : Option Nat :=
  (LinkedList.get_user s.heap s.active_users_list u).map fun a =>
    ((s.heap a).roomID - DEFAULT_ROOM).toNat

end Server

/-- The server as the state of a service. -/
def World.service (w : World) : ServiceState :=
  ⟨w.server.accounts, fun fd => (w.conns fd).user, w.server.place, w.server.names⟩

/-- The room of a number, counted from the Lobby. -/
def roomOf (ID : Int) : Option Nat :=
  if DEFAULT_ROOM ≤ ID then some (ID - DEFAULT_ROOM).toNat else none

/-- The first record of a name is the one that is used, and rooms are numbered as they come. -/
structure Server.Ordered (s : Server) : Prop where
  first : ∀ a ∈ s.active_users_list,
    LinkedList.get_user s.heap s.registered_users_list (s.heap a).username = some a
  numbered : ∀ r < s.room_list.length, (s.room r).ID = DEFAULT_ROOM + r
  counted : s.numRooms = DEFAULT_ROOM + s.room_list.length

/-- A memory in good order, with names that fit into their arrays. -/
structure Server.Orderly (s : Server) : Prop extends s.Ordered where
  housed : s.Housed
  short : s.Short

/-! ## Rooms and places -/

namespace Server
variable {s s' : Server} {a : Addr} {r : RoomRef} {u : Str} {ID : Int}

theorem roomOf_eq_some : roomOf ID = some r ↔ ID = DEFAULT_ROOM + r := by
  unfold roomOf
  split
  · rw [Option.some.injEq]
    omega
  · simp only [reduceCtorEq, false_iff]
    omega

/-- Numbers are positions. -/
theorem Orderly.Rget_roomFID_iff (ho : s.Orderly) :
    LinkedList.Rget_roomFID s.room_list ID = some r ↔
      r < s.room_list.length ∧ roomOf ID = some r := by
  rw [roomOf_eq_some]
  constructor
  · intro h
    have hlt := Rget_roomFID_lt h
    exact ⟨hlt, by rw [← room_of_Rget_roomFID h, ho.numbered r hlt]⟩
  · rintro ⟨hlt, rfl⟩
    have hget : s.room_list[r]? = some (s.room r) := by
      rw [List.getElem?_eq_getElem hlt, room_eq hlt]
    rw [← ho.numbered r hlt]
    exact LinkedList.Rget_roomFID_of_getElem? ho.housed.table.ids hget

/-- Where somebody is. -/
theorem Housed.place_eq_some (hi : s.Housed) : s.place u = some r ↔
    ∃ a, LinkedList.get_user s.heap s.active_users_list u = some a ∧
      (s.heap a).roomID = DEFAULT_ROOM + r := by
  rw [place, Option.map_eq_some_iff]
  refine exists_congr fun a => and_congr_right fun ha => ?_
  have hge := (hi.roomID_lt (LinkedList.get_user_some ha).1).1
  omega

theorem place_eq_none : s.place u = none ↔
    LinkedList.get_user s.heap s.active_users_list u = none := by
  rw [place, Option.map_eq_none_iff]

/-- **Looking for somebody in the room of a number** finds who is there. -/
theorem Orderly.find_member (ho : s.Orderly) : (∃ a,
    LinkedList.Rget_roomFID s.room_list ID = some r ∧
      LinkedList.get_user s.heap (s.members r) u = some a) ↔
    roomOf ID = some r ∧ s.place u = some r := by
  rw [ho.housed.place_eq_some, roomOf_eq_some]
  constructor
  · rintro ⟨a, hr, ha⟩
    obtain ⟨-, hID⟩ := ho.Rget_roomFID_iff.mp hr
    rw [roomOf_eq_some] at hID
    exact ⟨hID, a, hID ▸ ho.housed.find_member.mp ⟨r, hr, ha⟩⟩
  · rintro ⟨rfl, a, ha, hroom⟩
    obtain ⟨k, hk, hmem⟩ := ho.housed.find_member.mpr ⟨ha, hroom⟩
    have hkr := (ho.Rget_roomFID_iff.mp hk).2
    rw [roomOf_eq_some, Int.add_right_inj, Int.natCast_inj] at hkr
    subst hkr
    exact ⟨a, hk, hmem⟩

/-- A user who is in a room is not in another. -/
theorem Orderly.place_lt (ho : s.Orderly) (h : s.place u = some r) :
    r < s.room_list.length := by
  obtain ⟨a, ha, hroom⟩ := ho.housed.place_eq_some.mp h
  obtain ⟨k, hk, hID⟩ := ho.housed.room a (LinkedList.get_user_some ha).1
  rw [ho.numbered k hk, hroom, Int.add_right_inj, Int.natCast_inj] at hID
  exact hID ▸ hk

/-! ## The state after a change -/

/-- Records whose arrays stay as they are keep their accounts. -/
theorem Short.account_eq (hs : s.Short) (ha : a ∈ s.registered_users_list)
    (hchars : (s'.heap a).chars = (s.heap a).chars) :
    (s'.heap a).username = (s.heap a).username ∧ (s'.heap a).account = (s.heap a).account := by
  have hname := hs.username a ha
  have hreal := hs.real_name a ha
  refine ⟨User.username_of_chars hchars (by omega), ?_⟩
  rw [User.account, User.account, User.real_name_of_chars hchars (by omega), User.hash,
    User.password, hchars]
  rfl

theorem Short.accounts_eq (hs : s.Short)
    (hreg : s'.registered_users_list = s.registered_users_list)
    (hchars : ∀ a ∈ s.registered_users_list, (s'.heap a).chars = (s.heap a).chars) :
    s'.accounts = s.accounts := by
  funext u
  have hfind : LinkedList.get_user s'.heap s.registered_users_list u =
      LinkedList.get_user s.heap s.registered_users_list u :=
    LinkedList.get_user_congr fun a ha => (hs.account_eq ha (hchars a ha)).1
  rw [accounts, accounts, hreg, hfind]
  refine Option.map_congr fun a ha => ?_
  have hmem := (LinkedList.get_user_some ha).1
  exact (hs.account_eq hmem (hchars a hmem)).2

/-- Places do not change where nobody comes, goes or moves. -/
theorem place_congr (hactive : s'.active_users_list = s.active_users_list)
    (huser : ∀ a ∈ s.active_users_list, (s'.heap a).username = (s.heap a).username)
    (hroom : ∀ a ∈ s.active_users_list, (s'.heap a).roomID = (s.heap a).roomID) :
    s'.place = s.place := by
  funext u
  rw [place, place, hactive, LinkedList.get_user_congr huser]
  refine Option.map_congr fun a ha => ?_
  rw [hroom a (LinkedList.get_user_some ha).1]

/-- One record is written to, and its username stays. -/
theorem accounts_modify (huser : ∀ b, (s'.heap b).username = (s.heap b).username)
    (hreg : s'.registered_users_list = s.registered_users_list)
    (hothers : ∀ b, b ≠ a → s'.heap b = s.heap b)
    (ha : LinkedList.get_user s.heap s.registered_users_list u = some a) :
    s'.accounts = Function.update s.accounts u (some (s'.heap a).account) := by
  funext v
  rw [accounts, hreg, LinkedList.get_user_congr fun b _ => huser b]
  by_cases hv : v = u
  · rw [hv, Function.update_self, ha, Option.map_some]
  · rw [Function.update_of_ne hv, accounts]
    refine Option.map_congr fun b hb => ?_
    -- another name finds another record
    have hba : b ≠ a := by
      rintro rfl
      exact hv ((LinkedList.get_user_some hb).2.symm.trans (LinkedList.get_user_some ha).2)
    rw [hothers b hba]

theorem Housed.accounts_enrol (hi : s.Housed) (v : User) :
    (s.enrol v).accounts = fun u =>
      (s.accounts u).or (if v.username = u then some v.account else none) := by
  funext u
  rw [accounts, hi.get_user_enrol, accounts]
  cases h : LinkedList.get_user s.heap s.registered_users_list u with
  | some a =>
    have hlt := hi.fresh a (LinkedList.get_user_some h).1
    simp [enrol_heap_old hlt]
  | none =>
    by_cases hv : v.username = u
    · simp [hv, enrol_heap_new]
    · simp [hv]

theorem Housed.place_enrol (hi : s.Housed) (v : User) : (s.enrol v).place = s.place := by
  have hheap (a : Addr) (ha : a ∈ s.active_users_list) : (s.enrol v).heap a = s.heap a :=
    enrol_heap_old (hi.fresh a (hi.known a ha))
  exact place_congr rfl (fun a ha => by rw [hheap a ha]) (fun a ha => by rw [hheap a ha])

/-- A user who was not there is in the Lobby after a login. -/
theorem place_signIn (hlen : (s.heap a).username.length < 192) (fd : Int)
    (hr : r < s.room_list.length)
    (hact : LinkedList.get_user s.heap s.active_users_list (s.heap a).username = none) :
    (s.signIn a fd r).place = Function.update s.place (s.heap a).username (some 0) := by
  have huser := s.username_signIn hlen fd r
  obtain ⟨hactive, -, -, hroom⟩ := signIn_lists fd hr hact
  have hnew : a ∉ s.active_users_list := fun h => LinkedList.get_user_none.mp hact a h rfl
  funext u
  have hold : LinkedList.get_user (s.signIn a fd r).heap s.active_users_list u =
      LinkedList.get_user s.heap s.active_users_list u :=
    LinkedList.get_user_congr fun b _ => huser b
  have hfind : LinkedList.get_user (s.signIn a fd r).heap (s.signIn a fd r).active_users_list u =
      (LinkedList.get_user s.heap s.active_users_list u).or
        (if (s.heap a).username = u then some a else none) := by
    rw [hactive, LinkedList.get_user, List.find?_append]
    congr 1
    simp only [List.find?_cons, huser, List.find?_nil]
    split
    · rw [if_pos (of_decide_eq_true ‹_›)]
    · rw [if_neg (of_decide_eq_false ‹_›)]
  rw [place, hfind]
  by_cases hu : u = (s.heap a).username
  · rw [hu, Function.update_self, hact, if_pos rfl, Option.none_or, Option.map_some, hroom,
      if_pos rfl]
    rfl
  · rw [if_neg (Ne.symm hu), Option.or_none, Function.update_of_ne hu, place]
    refine Option.map_congr fun b hb => ?_
    have hba : b ≠ a := fun h => hnew (h ▸ (LinkedList.get_user_some hb).1)
    rw [hroom, if_neg hba]

theorem Housed.place_move {r' : RoomRef} (hi : s.Housed) (hlen : (s.heap a).username.length < 192)
    (hr : r < s.room_list.length) (hr' : r' < s.room_list.length) (ha : a ∈ s.members r)
    {k : Nat} (hID : ID = DEFAULT_ROOM + k) :
    (s.move a r r' ID).place = Function.update s.place (s.heap a).username (some k) := by
  have huser := s.username_move hlen r r' ID
  obtain ⟨hactive, -, -, hroom⟩ := move_lists ID hi hlen hr hr' ha
  funext u
  rw [place, hactive, LinkedList.get_user_congr fun b _ => huser b]
  by_cases hu : u = (s.heap a).username
  · rw [hu, Function.update_self, LinkedList.get_user_of_mem hi.distinct (hi.active hr ha),
      Option.map_some, hroom, if_pos rfl, hID]
    congr 1
    omega
  · rw [Function.update_of_ne hu, place]
    refine Option.map_congr fun b hb => ?_
    have hba : b ≠ a := fun h => hu (h ▸ (LinkedList.get_user_some hb).2.symm)
    rw [hroom, if_neg hba]

theorem Housed.place_signOut (hi : s.Housed) (hr : r < s.room_list.length)
    (ha : a ∈ s.members r) :
    (s.signOut a r).place = Function.update s.place (s.heap a).username none := by
  obtain ⟨hactive, -⟩ := signOut_lists hi hr ha
  have haa := hi.active hr ha
  funext u
  by_cases hu : u = (s.heap a).username
  · rw [hu, Function.update_self, place_eq_none, hactive, signOut_heap]
    refine LinkedList.get_user_none.mpr fun b hb he => ?_
    obtain ⟨hne, hb⟩ := hi.nodup.mem_erase_iff.mp hb
    exact hne (hi.username_inj hb haa he)
  · rw [Function.update_of_ne hu]
    have hiff (k : Nat) : (s.signOut a r).place u = some k ↔ s.place u = some k := by
      rw [(hi.signOut hr ha).place_eq_some, hi.place_eq_some, signOut_heap, hactive]
      refine exists_congr fun b => and_congr_left fun _ => ?_
      constructor
      · intro h
        obtain ⟨hmem, rfl⟩ := LinkedList.get_user_some h
        exact LinkedList.get_user_of_mem hi.distinct (List.mem_of_mem_erase hmem)
      · intro h
        obtain ⟨hmem, rfl⟩ := LinkedList.get_user_some h
        have hba : b ≠ a := fun h => hu (h ▸ rfl)
        exact LinkedList.get_user_of_mem (hi.distinct.sublist List.erase_sublist)
          ((List.mem_erase_of_ne hba).mpr hmem)
    exact Option.ext hiff

/-! ## Good order is kept -/

/-- Short names stay short where no array is written to. -/
theorem Short.of_chars (hs : s.Short) (hreg : s'.registered_users_list = s.registered_users_list)
    (hchars : ∀ a ∈ s.registered_users_list, (s'.heap a).chars = (s.heap a).chars)
    (hnames : s'.names = s.names) : s'.Short where
  username a ha := by
    rw [hreg] at ha
    rw [(hs.account_eq ha (hchars a ha)).1]
    exact hs.username a ha
  real_name a ha := by
    rw [hreg] at ha
    exact real_name_length (hchars a ha) (hs.real_name a ha)
  room room hmem := by
    have hname : room.name ∈ s.names := hnames ▸ List.mem_map_of_mem hmem
    obtain ⟨room', hmem', hname'⟩ := List.mem_map.mp hname
    exact hname' ▸ hs.room room' hmem'

theorem Short.enrol {v : User} (hs : s.Short) (hi : s.Housed)
    (hv : v.username.length ≤ 63 ∧ v.real_name.length ≤ 63) : (s.enrol v).Short := by
  have hcases (a : Addr) (ha : a ∈ (s.enrol v).registered_users_list) :
      (a ∈ s.registered_users_list ∧ (s.enrol v).heap a = s.heap a) ∨
      (s.enrol v).heap a = v := by
    have hold (ha : a ∈ s.registered_users_list) :
        a ∈ s.registered_users_list ∧ (s.enrol v).heap a = s.heap a :=
      ⟨ha, enrol_heap_old (hi.fresh a ha)⟩
    rcases s.enrol_registered v with h | h
    · exact .inl (hold (h ▸ ha))
    · rcases List.mem_append.mp (h ▸ ha) with ha | ha
      · exact .inl (hold ha)
      · rw [List.mem_singleton.mp ha]
        exact .inr (s.enrol_heap_new v)
  refine ⟨fun a ha => ?_, fun a ha => ?_, hs.room⟩
  · rcases hcases a ha with ⟨ha, h⟩ | h
    · rw [h]
      exact hs.username a ha
    · rw [h]
      exact hv.1
  · rcases hcases a ha with ⟨ha, h⟩ | h
    · rw [h]
      exact hs.real_name a ha
    · rw [h]
      exact hv.2

theorem Short.openRoom {name : Str} (hs : s.Short) (ht : s.Table) (fd : Int)
    (hname : name.length ≤ ROOMNAME_LENGTH) : (s.openRoom fd name).Short := by
  rcases openRoom_cases fd ht hname with ⟨h, -⟩ | ⟨-, h⟩
  · rwa [h]
  · rw [h]
    refine ⟨hs.username, hs.real_name, fun room hmem => ?_⟩
    rcases List.mem_append.mp hmem with hmem | hmem
    · exact hs.room room hmem
    · rw [List.mem_singleton.mp hmem]
      exact hname

/-- The names on the doors after a room was made sure of. -/
theorem names_openRoom {name : Str} (ht : s.Table) (fd : Int)
    (hname : name.length ≤ ROOMNAME_LENGTH) :
    (s.openRoom fd name).names = if name ∈ s.names then s.names else s.names ++ [name] := by
  have hmem : name ∈ s.names ↔ LinkedList.Rget_ID s.room_list name ≠ -1 := by
    rw [ne_eq, ht.Rget_ID_eq, names, List.mem_map, not_forall]
    exact exists_congr fun room => by simp
  rcases openRoom_cases fd ht hname with ⟨h, hID⟩ | ⟨hID, h⟩
  · rw [h, if_pos (hmem.mpr hID)]
  · rw [h, if_neg fun hc => hmem.mp hc hID, names, names, List.map_append]
    rfl

/-- The real name after a change of name that fits. -/
theorem real_name_rename_self {name : Str} (h0 : (0 : UInt8) ∉ name) (hlen : name.length < 64) :
    ((s.rename a name).heap a).real_name = name := by
  have h := User.real_name_rename h0 (Nat.le_of_lt hlen) (s.heap a)
  rw [if_pos hlen] at h
  simpa [rename, writeUserFile] using h

theorem rename_heap_ne {name : Str} {b : Addr} (h : b ≠ a) :
    (s.rename a name).heap b = s.heap b := by
  simp [rename, writeUserFile, modify_heap_ne _ _ _ h]

theorem Short.rename {name : Str} (hs : s.Short) (h0 : (0 : UInt8) ∉ name)
    (hlen : name.length < 64) (ha : (s.heap a).username.length < 64) :
    (s.rename a name).Short := by
  refine ⟨fun b hb => ?_, fun b hb => ?_, hs.room⟩
  · rw [s.username_rename ha]
    exact hs.username b hb
  · by_cases hba : b = a
    · rw [hba, real_name_rename_self h0 hlen]
      omega
    · rw [rename_heap_ne hba]
      exact hs.real_name b hb

/-- A change of password leaves a real name that fits. -/
theorem real_name_setPassword (h : (s.heap a).real_name.length < 64) (hash : Digest) (b : Addr) :
    ((s.setPassword a hash).heap b).real_name = (s.heap b).real_name := by
  by_cases hba : b = a
  · rw [hba, setPassword_self]
    have hblank : ((s.heap a).store 128 (List.replicate 32 0)).real_name = (s.heap a).real_name :=
      User.real_name_store h (Nat.le_refl 128)
    exact (User.real_name_store (by rwa [hblank]) (Nat.le_refl 128)).trans hblank
  · rw [setPassword_ne _ _ hba]

theorem Short.setPassword (hs : s.Short) (hash : Digest) (ha : a ∈ s.registered_users_list) :
    (s.setPassword a hash).Short := by
  refine ⟨fun b hb => ?_, fun b hb => ?_, hs.room⟩
  · rw [s.username_setPassword (Nat.lt_succ_of_le (hs.username a ha))]
    exact hs.username b hb
  · rw [real_name_setPassword (Nat.lt_succ_of_le (hs.real_name a ha))]
    exact hs.real_name b hb

end Server

section Order
variable {sha256 : Str → Digest} {env : Env} {p : Packet} {fd : Int} {s s' : Server}

/-- Whoever a name finds, it goes on finding. -/
theorem Change.found {who name : Str} {a : Addr} (hi : s.Housed) (h : Change who s s')
    (ha : LinkedList.get_user s.heap s.registered_users_list name = some a) :
    LinkedList.get_user s'.heap s'.registered_users_list name = some a := by
  have hsame (hreg : s'.registered_users_list = s.registered_users_list) :
      LinkedList.get_user s'.heap s'.registered_users_list name = some a := by
    rw [hreg, LinkedList.get_user_congr fun b hb => h.username (hi.fresh b hb), ha]
  cases h with
  | enrol u => rw [hi.get_user_enrol, ha, Option.some_or]
  | openRoom =>
    obtain ⟨rooms, n, heq⟩ := s.openRoom_eq _ _
    exact hsame (by rw [heq])
  | free | signIn | move | rename | setPassword | signOut => exact hsame rfl

/-- An active user was active, or is the first of the name. -/
theorem Change.active_first {who : Str} (hi : s.Housed) (h : Change who s s') {a : Addr}
    (ha : a ∈ s'.active_users_list) : a ∈ s.active_users_list ∨
      LinkedList.get_user s.heap s.registered_users_list (s.heap a).username = some a := by
  cases h with
  | signIn hwho hb hact hr =>
    have hname := (LinkedList.get_user_some hb).2
    rw [(Server.signIn_lists _ (Rget_roomFID_lt hr) (hname ▸ hact)).1] at ha
    rcases List.mem_append.mp ha with ha | ha
    · exact .inl ha
    · rw [List.mem_singleton.mp ha, hname]
      exact .inr hb
  | signOut hb hr =>
    obtain ⟨hlt, hmem⟩ := hi.member_of_roomID hb hr
    rw [(Server.signOut_lists hi hlt hmem).1] at ha
    exact .inl (List.mem_of_mem_erase ha)
  | openRoom =>
    obtain ⟨rooms, n, heq⟩ := s.openRoom_eq _ _
    rw [heq] at ha
    exact .inl ha
  | enrol | free | move | rename | setPassword => exact .inl ha

theorem Change.ordered {who : Str} (hi : s.Housed) (ho : s.Ordered) (h : Change who s s') :
    s'.Ordered := by
  have hfirst (a : Addr) (ha : a ∈ s'.active_users_list) :
      LinkedList.get_user s'.heap s'.registered_users_list (s'.heap a).username = some a := by
    have hold : LinkedList.get_user s.heap s.registered_users_list (s.heap a).username = some a :=
      (h.active_first hi ha).elim (ho.first a) id
    rw [h.username (hi.fresh a (LinkedList.get_user_some hold).1)]
    exact h.found hi hold
  rcases h.rooms with ⟨fd, name, hname, rfl⟩ | hrooms
  · rcases Server.openRoom_cases fd hi.table hname with ⟨heq, -⟩ | ⟨-, heq⟩
    · rw [heq]
      exact ho
    · refine ⟨hfirst, fun r hr => ?_, ?_⟩
      · rw [heq, List.length_append, List.length_singleton] at hr
        rcases Nat.lt_succ_iff_lt_or_eq.mp hr with hlt | rfl
        · rw [Server.openRoom_ID fd hi.table hname hlt]
          exact ho.numbered r hlt
        · rw [heq]
          simpa [Server.room] using ho.counted
      · rw [heq]
        simp only [List.length_append, List.length_singleton, ho.counted]
        omega
  · refine ⟨hfirst, fun r hr => ?_, ?_⟩
    · rw [hrooms.ID]
      exact ho.numbered r (hrooms.length ▸ hr)
    · rw [hrooms.numRooms, hrooms.length]
      exact ho.counted

theorem Login.short {user pass : Str} {b : Bool} {es : List Effect} (hs : s.Short)
    (h : Login sha256 env user pass fd s b s' es) : s'.Short := by
  cases h with
  | refused => exact hs
  | discarded => exact ⟨hs.username, hs.real_name, hs.room⟩
  | signedIn =>
    exact hs.of_chars rfl (fun b _ => s.signIn_congr (fun _ _ => rfl) (fun _ _ => rfl) _ _ _ b)
      (SameRooms.signIn ..).names

/-- **Names stay short** while those that are asked for are. -/
theorem Received.short {session : Option Str} {next : Next} {es : List Effect} (hp : p.Wf)
    (hi : s.Housed) (hs : s.Short) (hreg : p.options = REGISTER → (loginName p).length < 64)
    (hname : p.options = SETNAME → p.buf.length < 64)
    (h : Received sha256 env p fd s session next s' es) : s'.Short := by
  have hopen (fd : Int) (name : Str) (hn : name.length ≤ ROOMNAME_LENGTH) :
      (s.openRoom fd name).Short := hs.openRoom hi.table fd hn
  cases h with
  | refused | hungUp | answered | chat | vanished => exact hs
  | login _ _ hl => exact hl.short hs
  | register hr hl =>
    have hlen := hreg hr.options
    obtain ⟨huser, hreal⟩ := @newcomer_names sha256 env p fd
      (zero_not_mem_name hr.name) hlen
    refine hl.short (hs.enrol hi ⟨?_, ?_⟩)
    · rw [huser]
      omega
    · rw [hreal]
      omega
  | renamed hopt hacc ha hr =>
    have htext : localName env p.buf = p.buf := by
      rw [localName, strncpy64, if_pos (hname hopt)]
    rw [htext]
    refine hs.rename hp.buf.2 (hname hopt) ?_
    have := hs.username _ (LinkedList.get_user_some ha).1
    omega
  | passwordSet hc => exact hs.setPassword _ (LinkedList.get_user_some hc.user).1
  | opened hj _ => exact hopen _ _ (acceptsName_iff.mp hj.name).2.2
  | joined hj hs₁ _ _ _ _ hs₂ =>
    subst hs₁ hs₂
    exact (hopen _ _ (acceptsName_iff.mp hj.name).2.2).of_chars rfl
      (fun b _ => Server.move_congr _ (fun _ _ => rfl) _ _ _ _ b) (SameRooms.move ..).names
  | left _ _ _ _ _ _ hs' _ =>
    subst hs'
    exact hs.of_chars rfl (fun b _ => s.move_congr (fun _ _ => rfl) _ _ _ _ b)
      (SameRooms.move ..).names
  | signedOut =>
    exact hs.of_chars rfl (fun b _ => by rw [Server.signOut_heap]) (SameRooms.signOut ..).names

end Order

/-! ## Runs in good order -/

/-- What the clients and `accept` keep to: a client acts under its own name and asks for no
name that fills its array, and a descriptor is not negative. -/
structure World.Proper (w : World) (e : Event) : Prop where
  own : w.ActsOwn e
  fd : ∀ fd, e = .accept fd → 0 ≤ fd
  register : ∀ fd p env, e = .packet fd p env → p.options = REGISTER → (loginName p).length < 64
  rename : ∀ fd p env, e = .packet fd p env → p.options = SETNAME → p.buf.length < 64

/-- A state whose memory is in good order and belongs to its connections. -/
structure World.Settled (w : World) : Prop where
  memory : w.server.Orderly
  linked : w.server.Linked w.conns
  descriptors : ∀ fd, w.conns fd ≠ .closed → 0 ≤ fd

section Runs
variable {sha256 : Str → Digest} {w w' : World} {e : Event} {es : List Effect}

theorem Changes.ordered {who : Str} {s s' : Server} (hi : s.Housed) (ho : s.Ordered)
    (h : Changes who s s') : s'.Ordered := by
  induction h using Relation.ReflTransGen.head_induction_on with
  | refl => exact ho
  | head hc _ ih => exact ih (hc.housed hi) (hc.ordered hi ho)

theorem nonneg_update {conns : Int → Conn} {fd : Int} {c : Conn}
    (h : ∀ d, conns d ≠ .closed → 0 ≤ d) (hfd : 0 ≤ fd) (d : Int)
    (hd : Function.update conns fd c d ≠ .closed) : 0 ≤ d := by
  by_cases hdfd : d = fd
  · rwa [hdfd]
  · rw [Function.update_of_ne hdfd] at hd
    exact h d hd

/-- **Good order is kept.** -/
theorem Step.settled (hw : w.Settled) (hproper : w.Proper e) (hs : Step sha256 w e w' es) :
    w'.Settled := by
  have hlinked := hs.linked hw.memory.housed hw.linked hproper.own.endsOwn
  cases hs with
  | @accept fd hfd =>
    exact ⟨hw.memory, hlinked, nonneg_update hw.descriptors (hproper.fd _ rfl)⟩
  | @packet fd p env session next s' es hfd hp hrun =>
    have hrec := received hrun
    have hchanges := hrec.changes hp
    have hi := hw.memory.housed
    have hshort := hrec.short hp hi hw.memory.short (hproper.register _ _ _ rfl)
      (hproper.rename _ _ _ rfl)
    have hopen : w.conns fd ≠ .closed := by
      rw [hfd]
      exact Conn.noConfusion
    exact ⟨⟨hchanges.ordered hi hw.memory.toOrdered, hchanges.housed hi, hshort⟩, hlinked,
      nonneg_update hw.descriptors (hw.descriptors fd hopen)⟩

/-- The server starts in good order from a file of names that fit. -/
theorem boot_settled {file : Option (List UInt8)} (fd : Int)
    (hfile : ∀ u ∈ LinkedList.readUserFile file,
      u.username.length ≤ 63 ∧ u.real_name.length ≤ 63) : (World.boot file fd).Settled where
  memory := by
    have hnames (a : Addr) (ha : a ∈ (Server.boot file fd).registered_users_list) :
        (Server.boot file fd).heap a ∈ LinkedList.readUserFile file := by
      have hmem : (Server.boot file fd).heap a ∈ (Server.boot file fd).registered :=
        List.mem_map_of_mem ha
      rwa [boot_registered] at hmem
    refine ⟨⟨fun a ha => (List.not_mem_nil ha).elim, fun r hr => ?_, rfl⟩, boot_housed file fd,
      fun a ha => (hfile _ (hnames a ha)).1, fun a ha => (hfile _ (hnames a ha)).2, ?_⟩
    · have h0 : r = 0 := Nat.lt_one_iff.mp hr
      rw [h0]
      rfl
    · intro room hmem
      rw [List.mem_singleton.mp hmem]
      show DEFAULT_ROOM_NAME.length ≤ 16
      decide
  linked := boot_linked file fd
  descriptors fd h := absurd rfl h

end Runs
end TBDChat
