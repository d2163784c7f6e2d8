import TBDChat.CommandArgs
import TBDChat.RawPackets

/-!
# What was in the memory of a packet before

A packet that is sent from a variable which has not been cleared takes along what the memory
held: the bytes behind the NUL of each array, a field that is not assigned, the padding
behind the last field.  Only what is sent after a `memset` of the whole variable does not, so
that a handler keeps its memory to itself just where its first packet reaches nobody.
-/

namespace TBDChat
open Atomic Bytes

set_option maxRecDepth 8000

/-- Somebody in the list is sent what is relayed for the connection. -/
def Server.Reaches (s : Server) (clientfd : Int) (l : List Addr) : Prop :=
  ∃ a ∈ l, clientfd ≠ (s.heap a).sock

/-- There is no room of that name, and the number of the next one is taken. -/
def Server.CannotOpen (s : Server) (name : Str) : Prop :=
  (∀ room ∈ s.room_list, room.name ≠ name) ∧ ∃ room ∈ s.room_list, room.ID = s.numRooms

section Handlers
variable (sha256 : Str → Digest) (env : Env) (p : Packet) (fd : Int) (s : Server)

/-- What it sends does not depend on what was in its variables. -/
def Call.KeepsMemory (c : Call) : Prop :=
  ∀ l l' : Locals, c.sent sha256 env p fd s l = c.sent sha256 env p fd s l'

/-- Nothing is sent before the variable is cleared. -/
def Call.Silent : Call → Prop
  | .sendError _ _ => False
  | .sendMOTD => False
  | .login => 15 < (words p.buf).length ∨ (words p.buf).length ≤ 2 ∨
      (LinkedList.Rget_roomFID s.room_list DEFAULT_ROOM = none ∧
        ∃ a, s.account (arg (words p.buf) 1) = some a ∧
          (s.heap a).hash = (sha256 (arg (words p.buf) 2)).bytes ∧
          LinkedList.get_user s.heap s.active_users_list (arg (words p.buf) 1) = none)
  -- The JOIN is not carried out, and the client is not told.
  | .join => 15 < (words p.buf).length ∨
      (1 < (words p.buf).length ∧ acceptsName ROOMNAME_LENGTH (arg (words p.buf) 0) = true ∧
        (s.CannotOpen (arg (words p.buf) 0) ∨
          ∀ r, LinkedList.Rget_roomFID s.room_list (atoi (arg (words p.buf) 1)) = some r →
            LinkedList.get_user s.heap (s.members r) p.username = none))
  -- Nobody else is left in the room.
  | .leave => 15 < (words p.buf).length ∨ (words p.buf).length ≤ 1 ∨
      atoi (arg (words p.buf) 1) = DEFAULT_ROOM ∨
      LinkedList.Rget_roomFID s.room_list DEFAULT_ROOM = none ∨
      ∀ r a, LinkedList.Rget_roomFID s.room_list (atoi (arg (words p.buf) 1)) = some r →
        LinkedList.get_user s.heap (s.members r) p.username = some a →
        ¬ s.Reaches (-1) (LinkedList.removeUser s.heap (s.members r) a).2
  | .invite => 15 < (words p.buf).length
  -- Nobody is in the room but the user.
  | .set_name => acceptsName REALNAME_LENGTH (localName env p.buf) = true ∧
      ∃ a, LinkedList.get_user s.heap s.registered_users_list p.username = some a ∧
        ∀ r, LinkedList.Rget_roomFID s.room_list (s.heap a).roomID = some r →
          ¬ s.Reaches fd (s.members r)
  | .exit_client => ∀ a r,
      LinkedList.get_user s.heap s.active_users_list p.username = some a →
      LinkedList.Rget_roomFID s.room_list (s.heap a).roomID = some r →
      ¬ s.Reaches (-1) (s.members r)
  | .user_lookup => 15 < (words p.buf).length ∨ (words p.buf).length ≤ 1
  | .get_active_users => False
  | .get_room_users => ∀ a,
      LinkedList.get_user s.heap s.active_users_list p.username = some a →
      LinkedList.Rget_roomFID s.room_list (s.heap a).roomID = none
  | .get_room_list => False

end Handlers

/-! ## What an assignment leaves alone -/

namespace Raw
variable {m : Raw} {off k n : Nat} {bs : List UInt8} {s : Str} {b : UInt8}

/-- One byte of the variable. -/
def byte (m : Raw) (k : Nat) : UInt8 := m.bytes.getD k 0

/-- A write leaves the bytes before it and behind it. -/
theorem byte_write (h : k < off ∨ off + bs.length ≤ k) : (m.write off bs).byte k = m.byte k := by
  have hbytes : (m.write off bs).bytes = poke off bs m.bytes := rfl
  rw [byte, byte, List.getD_eq_getElem?_getD, List.getD_eq_getElem?_getD, hbytes]
  rcases h with h | h
  · have hfront : (poke off bs m.bytes).take (k + 1) = m.bytes.take (k + 1) :=
      take_poke (Nat.succ_le_of_lt h)
    have htake := congrArg (·[k]?) hfront
    simp only [List.getElem?_take, if_pos (Nat.lt_succ_self k)] at htake
    rw [htake]
  · have hdrop := congrArg (·[0]?) (drop_poke (l := m.bytes) h)
    simp only [List.getElem?_drop, Nat.add_zero] at hdrop
    rw [hdrop]

theorem byte_timestamp {now : Int} (h : 8 ≤ k) : (m.timestamp now).byte k = m.byte k :=
  byte_write (.inr (by simpa using h))

theorem byte_options {n : Int} (h : k < 264 ∨ 268 ≤ k) : (m.options n).byte k = m.byte k :=
  byte_write (h.imp_right fun h => by simpa [leInt] using h)

theorem byte_buf (h : s.length + 9 ≤ k) : (m.buf s).byte k = m.byte k :=
  byte_write (.inr (by simp; omega))

theorem byte_username (h : k < 136 ∨ s.length + 137 ≤ k) : (m.username s).byte k = m.byte k :=
  byte_write (h.imp_right fun h => by simp; omega)

theorem byte_realname (h : k < 200 ∨ s.length + 201 ≤ k) : (m.realname s).byte k = m.byte k :=
  byte_write (h.imp_right fun h => by simp; omega)

theorem byte_strncpy (h : n + 8 ≤ k) : (m.strncpy s n).byte k = m.byte k :=
  byte_write (.inr (by simp; omega))

theorem byte_clearBuf (h : 136 ≤ k) : m.clearBuf.byte k = m.byte k :=
  byte_write (.inr (by simpa using h))

/-- `strcat` starts no later than at the next NUL. -/
theorem byte_strcat (h0 : m.byte (8 + n) = 0) (h : n + s.length + 9 ≤ k) :
    (m.strcat s).byte k = m.byte k := by
  have hstart : (cstr (m.bytes.drop 8)).length ≤ n := length_cstr_le (by
    rw [List.getD_eq_getElem?_getD, List.getElem?_drop, ← List.getD_eq_getElem?_getD]
    exact h0)
  exact byte_write (.inr (by simp; omega))

/-- Memory that is zero but for the byte at `k`. -/
def marked (k : Nat) (b : UInt8) : Raw :=
  ⟨poke k [b] (List.replicate sizeofPacket 0), (length_poke ..).trans List.length_replicate⟩

theorem byte_marked (h : k < sizeofPacket) : (marked k b).byte k = b := by
  have hself : (marked k b).bytes.drop k = [b] ++ (List.replicate sizeofPacket 0).drop (k + 1) :=
    drop_poke_self (by simpa using Nat.succ_le_of_lt h)
  have hhead := congrArg (·[0]?) hself
  simp only [List.getElem?_drop, Nat.add_zero, List.singleton_append,
    List.getElem?_cons_zero] at hhead
  rw [byte, List.getD_eq_getElem?_getD, hhead, Option.getD_some]

theorem byte_marked_ne (h : n ≠ k) : (marked k b).byte n = 0 := by
  have hzero : (⟨List.replicate sizeofPacket 0, List.length_replicate⟩ : Raw).byte n = 0 := by
    simp only [byte, List.getD_eq_getElem?_getD, List.getElem?_replicate]
    split <;> rfl
  exact (byte_write (by simp; omega)).trans hzero

end Raw

/-- Each variable of the handler is marked at the same byte. -/
def Locals.marked (k : Nat) (b : UInt8) : Locals := ⟨.marked k b, .marked k b, fun _ => .marked k b⟩

/-- The byte at `k` of the first packet is what was in the memory. -/
def Carries (sent : Locals → List (Int × Raw)) (k : Nat) : Prop :=
  ∀ b, ∃ user q rest, sent (.marked k b) = (user, q) :: rest ∧ q.byte k = b

/-- Two contents that differ in the byte give two packets. -/
theorem Carries.differ {sent : Locals → List (Int × Raw)} {k : Nat} (h : Carries sent k) :
    ¬ ∀ l l', sent l = sent l' := by
  intro hsame
  obtain ⟨user, q, rest, hsent, hbyte⟩ := h 0
  obtain ⟨user', q', rest', hsent', hbyte'⟩ := h 1
  have heq := hsame (.marked k 0) (.marked k 1)
  rw [hsent, hsent'] at heq
  obtain ⟨-, rfl⟩ := Prod.mk.inj (List.cons.inj heq).1
  exact absurd (hbyte.symm.trans hbyte') (by decide)

/-- The last byte of the variable is padding. -/
def padding : Nat := 271

/-- A cleared variable is all zeros, whatever it held. -/
theorem Raw.clear_eq (m m' : Raw) : m.clear = m'.clear := by
  have hzero (m : Raw) : m.clear.bytes = List.replicate sizeofPacket 0 := by
    have hsize : (List.replicate sizeofPacket (0 : UInt8)).length = sizeofPacket :=
      List.length_replicate
    have hfits : 0 + (List.replicate sizeofPacket (0 : UInt8)).length ≤ m.bytes.length := by
      rw [hsize, m.size, Nat.zero_add]
    have hall := drop_poke_self hfits
    rw [List.drop_zero, hsize, Nat.zero_add, List.drop_of_length_le (Nat.le_of_eq m.size),
      List.append_nil] at hall
    exact hall
  rw [Raw.mk.injEq, hzero, hzero]

/-! ## The packets that go out first -/

section Packets
variable {env : Env} {fd : Int} {s : Server} {m : Raw} {errors : List Str}

/-- An error text of at most 127 characters ends before the padding, which goes out as it was. -/
theorem sendErrors_carries (hne : errors ≠ []) (hfit : Fit errors) :
    ∃ k, Carries (fun l => sendErrors env fd l errors) k := by
  obtain ⟨e, errors, rfl⟩ := List.exists_cons_of_ne_nil hne
  refine ⟨padding, fun b => ?_⟩
  have hlen := (fit_cons.mp hfit).1
  refine ⟨fd, errorPacket env e (.marked padding b), _, rfl, ?_⟩
  rw [errorPacket, Raw.byte_buf (by unfold padding; omega), Raw.byte_realname (by decide),
    Raw.byte_username (by decide), Raw.byte_options (by decide), Raw.byte_timestamp (by decide),
    Raw.byte_marked (by decide)]

theorem sendError_carries {error : String} (h : error ∈ serverTexts) :
    ∃ k, Carries (fun l => sendErrors env fd l [str error]) k :=
  sendErrors_carries (List.cons_ne_nil _ _) (fit_text h)

/-- `sendMOTD` assigns all but the padding and the username. -/
theorem byte_motdPacket : (motdPacket env m).byte padding = m.byte padding := by
  rw [motdPacket, Raw.byte_timestamp (by decide), Raw.byte_buf (by decide),
    Raw.byte_options (by decide), Raw.byte_realname (by decide)]

/-- The text of a notice ends within the 64 bytes of the name and the phrase. -/
theorem byte_notice {ID : Int} {real_name phrase : Str} (h0 : m.byte 72 = 0)
    (hlen : phrase.length ≤ 127) :
    (notice env m ID real_name phrase).byte padding = m.byte padding := by
  have hend : (((((m.options ID).realname SERVER_NAME).username SERVER_NAME).strncpy
      real_name 64)).byte (8 + 64) = 0 := by
    rw [Raw.byte_strncpy (by decide), Raw.byte_username (by decide), Raw.byte_realname (by decide),
      Raw.byte_options (by decide), h0]
  rw [notice, Raw.byte_timestamp (by decide),
    Raw.byte_strcat hend (by unfold padding; omega), Raw.byte_strncpy (by decide),
    Raw.byte_username (by decide), Raw.byte_realname (by decide), Raw.byte_options (by decide)]

/-- The notice of a new name ends before the padding, too, as both `strcat` start early. -/
theorem byte_renameNote {real_name name : Str} {ID : Int} (h72 : m.byte 72 = 0)
    (h100 : m.byte 100 = 0) (hlen : name.length ≤ 144) :
    (renameNote env m real_name ID name).byte padding = m.byte padding := by
  let named := (((m.strncpy real_name 64).options ID).realname SERVER_NAME).username SERVER_NAME
  have hnamed {k : Nat} (h : 72 ≤ k ∧ k < 136 ∨ 268 ≤ k) : named.byte k = m.byte k := by
    rw [Raw.byte_username (h.imp (·.2) (by simp [SERVER_NAME, str]; omega)),
      Raw.byte_realname (h.imp (by omega) (by simp [SERVER_NAME, str]; omega)),
      Raw.byte_options (h.imp (by omega) id), Raw.byte_strncpy (by omega)]
  have hend : named.byte (8 + 64) = 0 := (hnamed (.inl (by decide))).trans h72
  -- the first phrase ends before byte 100, where the memory is zero
  have hend' : (named.strcat (str " is now known as ")).byte (8 + 92) = 0 :=
    (Raw.byte_strcat hend (by decide)).trans ((hnamed (.inl (by decide))).trans h100)
  rw [renameNote, Raw.byte_timestamp (by decide), Raw.byte_strcat hend' (by unfold padding; omega),
    Raw.byte_strcat hend (by decide), hnamed (.inr (by decide))]

/-- A string in a record ends with the record. -/
theorem User.length_real_name (u : User) : u.real_name.length ≤ 144 := by
  have hmem : u.mem.length = 208 := by simp [User.mem, u.size, leInt]
  refine Nat.le_trans (List.takeWhile_sublist _).length_le ?_
  rw [List.length_drop, hmem]

/-- With nobody to hear it a notice is not sent, and nothing of it is seen. -/
theorem relayed_eq_nil {q : Raw} {clientfd : Int} {r : RoomRef}
    (h : ¬ s.Reaches clientfd (s.members r)) : relayed s q clientfd r = [] := by
  rw [relayed, List.map_eq_nil_iff, List.filter_eq_nil_iff]
  exact fun a ha hne => h ⟨a, ha, of_decide_eq_true hne⟩

theorem relayed_eq_cons {q : Raw} {clientfd : Int} {r : RoomRef}
    (h : s.Reaches clientfd (s.members r)) :
    ∃ user rest, relayed s q clientfd r = (user, q) :: rest := by
  obtain ⟨a, ha, hne⟩ := h
  have hmem : a ∈ (s.members r).filter fun a => clientfd ≠ (s.heap a).sock :=
    List.mem_filter.mpr ⟨ha, decide_eq_true hne⟩
  obtain ⟨b, rest, hcons⟩ := List.exists_cons_of_ne_nil (List.ne_nil_of_mem hmem)
  exact ⟨_, _, by rw [relayed, hcons]; rfl⟩

end Packets

/-! ## The handlers one by one -/

section Handlers
variable {sha256 : Str → Digest} {env : Env} {p : Packet} {fd : Int} {s : Server}

/-- LOGSUC has the first byte of `buf` as it was, an error its padding. -/
theorem login_carries (h : ¬ Call.Silent sha256 env p fd s .login) :
    ∃ k, Carries (fun l => loginSent sha256 env p fd s l) k := by
  unfold loginSent
  by_cases hlen : 15 < (words p.buf).length ∨ (words p.buf).length ≤ 2
  · exact absurd (hlen.imp_right Or.inl) h
  simp only [if_neg hlen]
  rcases ha : s.account (arg (words p.buf) 1) with _ | a
  · exact sendError_carries (by simp [serverTexts])
  dsimp only
  by_cases hpass : (s.heap a).hash ≠ (sha256 (arg (words p.buf) 2)).bytes
  · simp only [if_pos hpass]
    exact sendError_carries (by simp [serverTexts])
  simp only [if_neg hpass]
  by_cases hactive :
      (LinkedList.get_user s.heap s.active_users_list (arg (words p.buf) 1)).isSome = true
  · simp only [if_pos hactive]
    exact sendError_carries (by simp [serverTexts])
  simp only [if_neg hactive]
  rcases hlobby : LinkedList.Rget_roomFID s.room_list DEFAULT_ROOM with _ | r
  · exact absurd (.inr (.inr ⟨hlobby, a, ha, not_not.mp hpass, by simpa using hactive⟩)) h
  -- LOGSUC has no text, so that the first byte of `buf` is left
  refine ⟨8, fun b => ⟨fd, _, _, rfl, ?_⟩⟩
  rw [Raw.byte_timestamp (by decide), Raw.byte_options (by decide),
    Raw.byte_username (.inl (by decide)), Raw.byte_realname (.inl (by decide))]
  exact Raw.byte_marked (by decide)

/-- With too few words `login` says nothing, with too many or without a Lobby it does not come
to it. -/
theorem login_silent (h : Call.Silent sha256 env p fd s .login) (l : Locals) :
    loginSent sha256 env p fd s l = [] := by
  unfold loginSent
  rcases h with hlen | hlen | ⟨hlobby, a, ha, hpass, hactive⟩
  · rw [if_pos (.inl hlen)]
  · rw [if_pos (.inr hlen)]
  · simp [ha, hpass, hactive, hlobby]

/-- The room list once `join` has made sure of the room, or tried to. -/
theorem room_list_openRoom (s : Server) (fd : Int) (name : Str) :
    (s.openRoom fd name).room_list = s.room_list ∨
      ∃ ID, (s.openRoom fd name).room_list =
        s.room_list ++ [⟨ID, fd, name.take ROOMNAME_LENGTH, []⟩] := by
  unfold Server.openRoom
  split
  · simp only [Server.createRoom, Server.insertRoom, LinkedList.insertRoom]
    split
    · exact .inl rfl
    · exact .inr ⟨s.numRooms, rfl⟩
  · exact .inl rfl

theorem found_room {ID : Int} {F : Room → Prop} :
    (∃ r, LinkedList.Rget_roomFID s.room_list ID = some r ∧ F (s.room r)) ↔
      ∃ room, s.room_list.find? (fun room => room.ID = ID) = some room ∧ F room := by
  rw [List.find?_eq_bind_findIdx?_getElem?]
  rcases hr : LinkedList.Rget_roomFID s.room_list ID with _ | r
  · rw [LinkedList.Rget_roomFID] at hr
    simp [hr]
  · obtain ⟨room, hroom, -⟩ := LinkedList.Rget_roomFID_some hr
    rw [LinkedList.Rget_roomFID] at hr
    have hget : s.room r = room := Server.room_of_getElem? hroom
    simp [hr, hroom, hget]

/-- A room that `join` makes holds nobody, so that the user is found where he was. -/
theorem member_openRoom {name user : Str} {fd ID : Int} {a : Addr} :
    (∃ r, LinkedList.Rget_roomFID (s.openRoom fd name).room_list ID = some r ∧
      LinkedList.get_user s.heap ((s.openRoom fd name).members r) user = some a) ↔
    ∃ r, LinkedList.Rget_roomFID s.room_list ID = some r ∧
      LinkedList.get_user s.heap (s.members r) user = some a := by
  let hasUser (room : Room) : Prop := LinkedList.get_user s.heap room.user_list user = some a
  refine Iff.trans (found_room (F := hasUser)) (Iff.trans ?_ (found_room (F := hasUser)).symm)
  rcases room_list_openRoom s fd name with hsame | ⟨ID', hnew⟩
  · rw [hsame]
  rw [hnew, List.find?_append]
  rcases hold : s.room_list.find? (fun room => room.ID = ID) with _ | room
  · have hempty : LinkedList.get_user s.heap [] user = none := rfl
    by_cases hID : ID' = ID
    · simp [hasUser, hID, hempty, hold]
    · simp [hID, hold]
  · simp [hold]

/-- After `join` has tried to open it, a room of the name is missing just if it cannot be opened. -/
theorem Rget_roomFNAME_openRoom_none {name : Str} {fd : Int}
    (hlen : name.length ≤ ROOMNAME_LENGTH) :
    LinkedList.Rget_roomFNAME (s.openRoom fd name).room_list name = none ↔ s.CannotOpen name := by
  have htake : name.take ROOMNAME_LENGTH = name := List.take_of_length_le hlen
  rw [LinkedList.Rget_roomFNAME_none, Server.CannotOpen]
  by_cases habsent : ∀ room ∈ s.room_list, room.name ≠ name
  · have hfind : s.room_list.find? (fun r => r.name = name) = none :=
      List.find?_eq_none.mpr (by simpa using habsent)
    have hID : LinkedList.Rget_ID s.room_list name = -1 := by rw [LinkedList.Rget_ID, hfind]
    have hany : (s.room_list.any fun r => r.name = name || r.ID = s.numRooms) = true ↔
        ∃ room ∈ s.room_list, room.ID = s.numRooms := by
      rw [List.any_eq_true]
      refine exists_congr fun room => and_congr_right fun hroom => ?_
      simp [habsent room hroom]
    rw [Server.openRoom, if_pos hID]
    simp only [Server.createRoom, Server.insertRoom, LinkedList.insertRoom, htake]
    by_cases htaken : ∃ room ∈ s.room_list, room.ID = s.numRooms
    · rw [if_pos (hany.mpr htaken)]
      exact ⟨fun _ => ⟨habsent, htaken⟩, fun _ => habsent⟩
    · rw [if_neg (mt hany.mp htaken)]
      exact ⟨fun h => absurd rfl (h ⟨s.numRooms, fd, name, []⟩ (by simp)),
        fun h => absurd h.2 htaken⟩
  · refine ⟨fun h => absurd (fun room hroom => h room ?_) habsent, fun h => absurd h.1 habsent⟩
    rcases room_list_openRoom s fd name with hsame | ⟨ID', hnew⟩
    · rw [hsame]
      exact hroom
    · rw [hnew]
      exact List.mem_append_left _ hroom

/-- A user who cannot go to the room is not told, because a NULL is dereferenced before. -/
theorem changeRoom_silent {l : Locals}
    (h : ∀ r a, LinkedList.Rget_roomFID s.room_list (atoi (arg (words p.buf) 1)) = some r →
      LinkedList.get_user s.heap (s.members r) p.username = some a →
      LinkedList.Rget_roomFNAME s.room_list (arg (words p.buf) 0) = none) :
    changeRoomSent env p fd s l = [] := by
  unfold changeRoomSent
  rcases hr : LinkedList.Rget_roomFID s.room_list (atoi (arg (words p.buf) 1)) with _ | r
  · rfl
  rcases ha : LinkedList.get_user s.heap (s.members r) p.username with _ | a
  · simp only [ha]
  · simp only [ha, h r a hr ha]

/-- JOINSUC and the two error texts are sent from a variable that has not been cleared. -/
theorem join_carries (hp : p.Wf) (h : ¬ Call.Silent sha256 env p fd s .join) :
    ∃ k, Carries (fun l => joinSent env p fd s l) k := by
  unfold joinSent
  by_cases hmany : 15 < (words p.buf).length
  · exact absurd (.inl hmany) h
  simp only [if_neg hmany]
  by_cases hfew : (words p.buf).length ≤ 1
  · simp only [if_pos hfew]
    exact sendError_carries (by simp [serverTexts])
  simp only [if_neg hfew]
  by_cases hname : acceptsName ROOMNAME_LENGTH (arg (words p.buf) 0) = false
  · simp only [if_pos hname]
    exact sendErrors_carries (by simp) (fit_append.mpr
      ⟨fit_nameTexts (by simp [serverTexts]), fit_text (by simp [serverTexts])⟩)
  simp only [if_neg hname]
  have haccepts := Bool.eq_true_of_not_eq_false hname
  have hopen : ¬ s.CannotOpen (arg (words p.buf) 0) := fun hno =>
    h (.inr ⟨Nat.lt_of_not_le hfew, haccepts, .inl hno⟩)
  have hmember : ∃ a r,
      LinkedList.Rget_roomFID s.room_list (atoi (arg (words p.buf) 1)) = some r ∧
        LinkedList.get_user s.heap (s.members r) p.username = some a := by
    by_contra hnone
    refine h (.inr ⟨Nat.lt_of_not_le hfew, haccepts, .inr fun r hr => ?_⟩)
    by_contra ha
    obtain ⟨a, ha⟩ := Option.ne_none_iff_exists'.mp ha
    exact hnone ⟨a, r, hr, ha⟩
  obtain ⟨a, hmember⟩ := hmember
  obtain ⟨r, hr, ha⟩ := (@member_openRoom s (arg (words p.buf) 0) _ env.fd _ a).mpr hmember
  have hshort := (acceptsName_iff.mp haccepts).2.2
  obtain ⟨r', hr'⟩ := Option.ne_none_iff_exists'.mp
    (mt (@Rget_roomFNAME_openRoom_none s _ env.fd hshort).mp hopen)
  rw [← s.openRoom_heap env.fd (arg (words p.buf) 0)] at ha
  have hlen := hp.arg_length 0
  have hID := length_decInt ((s.openRoom env.fd (arg (words p.buf) 0)).room r').ID
  refine ⟨padding, fun b => ?_⟩
  simp only [changeRoomSent, hr, ha, hr']
  refine ⟨fd, _, _, rfl, ?_⟩
  rw [Raw.byte_buf (by simp [str, padding]; omega), Raw.byte_timestamp (by decide),
    Raw.byte_username (by decide), Raw.byte_realname (by decide), Raw.byte_options (by decide)]
  exact Raw.byte_marked (by decide)

theorem join_silent (h : Call.Silent sha256 env p fd s .join) (l : Locals) :
    joinSent env p fd s l = [] := by
  unfold joinSent
  rcases h with hlen | ⟨hlen, hname, hroom⟩
  · rw [if_pos hlen]
  · by_cases hmany : 15 < (words p.buf).length
    · rw [if_pos hmany]
    · rw [if_neg hmany, if_neg (Nat.not_le_of_lt hlen), if_neg (by simp [hname])]
      refine changeRoom_silent fun r a hr ha => ?_
      rw [s.openRoom_heap] at ha
      rcases hroom with hno | hnobody
      · exact (Rget_roomFNAME_openRoom_none (acceptsName_iff.mp hname).2.2).mpr hno
      · obtain ⟨r, hr, ha⟩ := member_openRoom.mp ⟨r, hr, ha⟩
        rw [hnobody r hr] at ha
        cases ha

/-- A room's name fills its array at most. -/
def Server.ShortRooms (s : Server) : Prop := ∀ room ∈ s.room_list, room.name.length ≤ 16

theorem Server.ShortRooms.Rget_name (hs : s.ShortRooms) (ID : Int) :
    (LinkedList.Rget_name s.room_list ID).length ≤ 16 := by
  unfold LinkedList.Rget_name
  split
  · rename_i room hfind
    exact hs room (List.mem_of_find?_eq_some hfind)
  · decide

theorem Server.ShortRooms.room (hs : s.ShortRooms) {ID : Int} {r : RoomRef}
    (hr : LinkedList.Rget_roomFID s.room_list ID = some r) : (s.room r).name.length ≤ 16 := by
  obtain ⟨room, hroom, -⟩ := LinkedList.Rget_roomFID_some hr
  have hget : s.room r = room := Server.room_of_getElem? hroom
  rw [hget]
  exact hs room (List.mem_of_getElem? hroom)

/-- The invitation itself or the word that it failed is the first packet. -/
theorem invite_carries (hp : p.Wf) (hs : s.ShortRooms)
    (h : ¬ Call.Silent sha256 env p fd s .invite) :
    ∃ k, Carries (fun l => inviteSent env p fd s l) k := by
  unfold inviteSent
  simp only [if_neg (show ¬ 15 < (words p.buf).length from h)]
  have harg := hp.arg_length 0
  have hfailed : Carries (fun l => [(fd, ((((l.ret.options SERV_ERR).username SERVER_NAME).realname
      SERVER_NAME).timestamp env.now).buf (str "An invitation could not be sent to " ++
        arg (words p.buf) 0 ++ str "."))]) padding := by
    intro b
    refine ⟨fd, _, [], rfl, ?_⟩
    rw [Raw.byte_buf (by simp [str, padding]; omega), Raw.byte_timestamp (by decide),
      Raw.byte_realname (by decide), Raw.byte_username (by decide), Raw.byte_options (by decide)]
    exact Raw.byte_marked (by decide)
  refine ⟨padding, ?_⟩
  by_cases hfew : (words p.buf).length ≤ 1
  · simp only [if_pos hfew]
    exact hfailed
  simp only [if_neg hfew]
  rcases LinkedList.Rget_roomFID s.room_list (atoi (arg (words p.buf) 1)) with _ | r
  · exact hfailed
  rcases LinkedList.get_user s.heap s.active_users_list (arg (words p.buf) 0) with _ | a
  · exact hfailed
  have hreal := hp.realname.1
  have hroom := hs.Rget_name (atoi (arg (words p.buf) 1))
  intro b
  refine ⟨(s.heap a).sock, _, _, rfl, ?_⟩
  rw [Raw.byte_buf (by simp [str, padding]; omega), Raw.byte_clearBuf (by decide),
    Raw.byte_realname (by unfold padding; omega), Raw.byte_username (by decide),
    Raw.byte_timestamp (by decide), Raw.byte_options (by decide)]
  exact Raw.byte_marked (by decide)

theorem invite_silent (h : Call.Silent sha256 env p fd s .invite) (l : Locals) :
    inviteSent env p fd s l = [] := by
  unfold inviteSent
  rw [if_pos (show 15 < (words p.buf).length from h)]

/-- The reply to a lookup is cleared in `buf` only. -/
theorem lookup_carries (hp : p.Wf) (h : ¬ Call.Silent sha256 env p fd s .user_lookup) :
    ∃ k, Carries (fun l => lookupSent env p fd s l) k := by
  unfold lookupSent
  simp only [if_neg (show ¬ (15 < (words p.buf).length ∨ (words p.buf).length ≤ 1) from h)]
  have harg := hp.arg_length 1
  refine ⟨padding, ?_⟩
  by_cases hknown :
      LinkedList.get_real_name s.heap s.active_users_list (arg (words p.buf) 1) = ERROR
  · simp only [if_pos hknown]
    intro b
    refine ⟨fd, _, [], rfl, ?_⟩
    rw [Raw.byte_timestamp (by decide), Raw.byte_buf (by simp [str, padding]; omega),
      Raw.byte_options (by decide), Raw.byte_realname (by decide), Raw.byte_username (by decide),
      Raw.byte_options (by decide)]
    exact Raw.byte_marked (by decide)
  · simp only [if_neg hknown]
    intro b
    refine ⟨fd, _, _, rfl, ?_⟩
    rw [Raw.byte_timestamp (by decide), Raw.byte_buf (by decide), Raw.byte_realname (by decide),
      Raw.byte_username (by decide), Raw.byte_options (by decide)]
    exact Raw.byte_marked (by decide)

theorem lookup_silent (h : Call.Silent sha256 env p fd s .user_lookup) (l : Locals) :
    lookupSent env p fd s l = [] := by
  unfold lookupSent
  rw [if_pos (show 15 < (words p.buf).length ∨ (words p.buf).length ≤ 1 from h)]

/-! ### Leaving, renaming, going -/

/-- The room that is left keeps the others. -/
theorem members_move {a : Addr} {r d : RoomRef} {ID : Int} (hr : r < s.room_list.length)
    (hne : r ≠ d) :
    (s.move a r d ID).members r = (LinkedList.removeUser s.heap (s.members r) a).2 := by
  have hlist : ListRef.room r ≠ .room d := by simpa using hne
  have hinsert : (s.move a r d ID).users (.room r) = (s.removeUser (.room r) a).users (.room r) :=
    Server.users_setUsers_ne _ _ _ hlist
  exact hinsert.trans (Server.users_setUsers _ _ _ (Server.room_lt hr))

/-- Who is left in the room is the same before and after the move. -/
theorem reaches_move {a : Addr} {r d : RoomRef} {ID : Int} (hr : r < s.room_list.length)
    (hne : r ≠ d) :
    (s.move a r d ID).Reaches (-1) ((s.move a r d ID).members r) ↔
      s.Reaches (-1) (LinkedList.removeUser s.heap (s.members r) a).2 := by
  rw [members_move hr hne, Server.Reaches, Server.Reaches]
  have hsock (b : Addr) : ((s.move a r d ID).heap b).sock = (s.heap b).sock :=
    s.move_congr (g := User.sock) (fun _ _ => rfl) a r d ID b
  simp only [hsock]

/-- The notice to the room that is left goes out first, and it goes to somebody. -/
theorem leave_carries (h : ¬ Call.Silent sha256 env p fd s .leave) :
    Carries (fun l => leaveSent env p fd s l) padding := by
  rw [Call.Silent] at h
  push Not at h
  obtain ⟨hmany, hfew, hlobby, hd, r, a, hr, ha, hhears⟩ := h
  obtain ⟨d, hd⟩ := Option.ne_none_iff_exists'.mp hd
  have hne : r ≠ d := by
    rintro rfl
    exact hlobby ((Server.room_of_Rget_roomFID hr).symm.trans (Server.room_of_Rget_roomFID hd))
  intro b
  have hleave : ¬ (15 < (words p.buf).length ∨ (words p.buf).length ≤ 1 ∨
      atoi (arg (words p.buf) 1) = DEFAULT_ROOM) := by
    rintro (h | h | h)
    · exact absurd h (Nat.not_lt_of_le hmany)
    · exact absurd h (Nat.not_le_of_lt hfew)
    · exact hlobby h
  simp only [leaveSent, if_neg hleave, hr, ha, hd]
  obtain ⟨user, rest, hfirst⟩ := relayed_eq_cons (q := notice env (Locals.marked padding b).ret
    (atoi (arg (words p.buf) 1)) ((s.move a r d 1000).heap a).real_name
    (str " has left the room.")) ((reaches_move (Rget_roomFID_lt hr) hne).mpr hhears)
  rw [hfirst, List.cons_append]
  refine ⟨user, _, _, rfl, ?_⟩
  have hbyte : (notice env (.marked padding b) (atoi (arg (words p.buf) 1))
      ((s.move a r d 1000).heap a).real_name (str " has left the room.")).byte padding =
        (Raw.marked padding b).byte padding :=
    byte_notice (Raw.byte_marked_ne (by decide)) (by decide)
  exact hbyte.trans (Raw.byte_marked (by decide))

/-- If nobody is left to hear the first notice, all that is sent comes after a `memset`. -/
theorem leave_silent (h : Call.Silent sha256 env p fd s .leave) (l l' : Locals) :
    leaveSent env p fd s l = leaveSent env p fd s l' := by
  unfold leaveSent
  by_cases hnot : 15 < (words p.buf).length ∨ (words p.buf).length ≤ 1 ∨
      atoi (arg (words p.buf) 1) = DEFAULT_ROOM
  · rw [if_pos hnot, if_pos hnot]
  rw [if_neg hnot, if_neg hnot]
  rcases hr : LinkedList.Rget_roomFID s.room_list (atoi (arg (words p.buf) 1)) with _ | r
  · rfl
  rcases ha : LinkedList.get_user s.heap (s.members r) p.username with _ | a
  · simp only [ha]
  rcases hd : LinkedList.Rget_roomFID s.room_list DEFAULT_ROOM with _ | d
  · simp only [ha]
  have hne : r ≠ d := by
    rintro rfl
    exact hnot (.inr (.inr
      ((Server.room_of_Rget_roomFID hr).symm.trans (Server.room_of_Rget_roomFID hd))))
  have halone : ¬ s.Reaches (-1) (LinkedList.removeUser s.heap (s.members r) a).2 := by
    rcases h with h | h | h | h | h
    · exact absurd (.inl h) hnot
    · exact absurd (.inr (.inl h)) hnot
    · exact absurd (.inr (.inr h)) hnot
    · rw [hd] at h
      cases h
    · exact h r a hr ha
  have hnobody := mt (@reaches_move s a r d 1000 (Rget_roomFID_lt hr) hne).mp halone
  simp only [ha, relayed_eq_nil hnobody, List.nil_append]
  rw [Raw.clear_eq (notice env l.ret _ _ _) (notice env l'.ret _ _ _)]

/-- The notice of the departure goes out first, and it goes to somebody. -/
theorem exit_carries (hp : p.Wf) (h : ¬ Call.Silent sha256 env p fd s .exit_client) :
    Carries (fun l => exitSent env p fd s l) padding := by
  rw [Call.Silent] at h
  push Not at h
  obtain ⟨a, r, ha, hr, hhears⟩ := h
  intro b
  have hreal := hp.realname.1
  simp only [exitSent, ha, hr]
  obtain ⟨user, rest, hfirst⟩ := relayed_eq_cons
    (q := (((((Locals.marked padding b).ret.options (s.heap a).roomID).realname
      SERVER_NAME).username SERVER_NAME).buf (str "User " ++ p.realname ++
        str " has disconnected.")).timestamp env.now) hhears
  rw [hfirst, List.cons_append]
  refine ⟨user, _, _, rfl, ?_⟩
  rw [Raw.byte_timestamp (by decide), Raw.byte_buf (by simp [str, padding]; omega),
    Raw.byte_username (by decide), Raw.byte_realname (by decide), Raw.byte_options (by decide)]
  exact Raw.byte_marked (by decide)

/-- "Goodbye!" comes after a `memset`. -/
theorem exit_silent (h : Call.Silent sha256 env p fd s .exit_client) (l l' : Locals) :
    exitSent env p fd s l = exitSent env p fd s l' := by
  unfold exitSent
  rcases ha : LinkedList.get_user s.heap s.active_users_list p.username with _ | a
  · rfl
  rcases hr : LinkedList.Rget_roomFID s.room_list (s.heap a).roomID with _ | r
  · simp only [hr]
  simp only [hr, relayed_eq_nil (h a r ha hr), List.nil_append]
  rw [Raw.clear_eq (Raw.timestamp _ _) (Raw.timestamp (Raw.buf (Raw.username (Raw.realname
    (l'.ret.options (s.heap a).roomID) _) _) _) _)]

/-- A name that is not accepted is always answered. -/
theorem nameTexts_ne_nil {invalid short long : String} {limit : Nat} {name : Str}
    (h : acceptsName limit name = false) : nameTexts invalid short long limit name ≠ [] := by
  intro hnil
  unfold nameTexts at hnil
  by_cases h1 : (sanitizeInput name 1).2 ≠ 0
  · simp [h1] at hnil
  · by_cases h2 : name.length < 3
    · simp [h1, h2] at hnil
    · by_cases h3 : name.length > limit
      · simp [h1, h2, h3] at hnil
      · simp [acceptsName, not_not.mp h1, Nat.le_of_not_lt h2, Nat.le_of_not_lt h3] at h

theorem reaches_rename {a : Addr} {name : Str} {clientfd : Int} {r : RoomRef} :
    (s.rename a name).Reaches clientfd ((s.rename a name).members r) ↔
      s.Reaches clientfd (s.members r) := by
  simp only [Server.Reaches, rename_sock]
  rfl

/-- The answer to a bad name or to a stranger, or else the notice to the room, goes out first. -/
theorem set_name_carries (h : ¬ Call.Silent sha256 env p fd s .set_name) :
    ∃ k, Carries (fun l => setNameSent env p fd s l) k := by
  unfold setNameSent
  by_cases hname : acceptsName REALNAME_LENGTH (localName env p.buf) = false
  · simp only [if_pos hname]
    exact sendErrors_carries (nameTexts_ne_nil hname) (fit_nameTexts (by simp [serverTexts]))
  simp only [if_neg hname]
  refine ⟨padding, ?_⟩
  rcases ha : LinkedList.get_user s.heap s.registered_users_list p.username with _ | a
  · intro b
    refine ⟨fd, _, [], rfl, ?_⟩
    rw [Raw.byte_timestamp (by decide), Raw.byte_username (by decide),
      Raw.byte_realname (by decide), Raw.byte_options (by decide), Raw.byte_buf (by decide)]
    exact Raw.byte_marked (by decide)
  have hhears : ∃ r, LinkedList.Rget_roomFID s.room_list (s.heap a).roomID = some r ∧
      s.Reaches fd (s.members r) := by
    by_contra hnone
    exact h ⟨Bool.eq_true_of_not_eq_false hname, a, ha, fun r hr hreach => hnone ⟨r, hr, hreach⟩⟩
  obtain ⟨r, hr, hreach⟩ := hhears
  intro b
  simp only [hr]
  obtain ⟨user, rest, hfirst⟩ := relayed_eq_cons
    (q := renameNote env (.marked padding b) (s.heap a).real_name
      ((s.rename a (localName env p.buf)).heap a).roomID
      ((s.rename a (localName env p.buf)).heap a).real_name)
    (reaches_rename.mpr hreach)
  refine ⟨user, _, _, congrArg (· ++ _) hfirst, ?_⟩
  rw [byte_renameNote (Raw.byte_marked_ne (by decide)) (Raw.byte_marked_ne (by decide))
    (User.length_real_name _)]
  exact Raw.byte_marked (by decide)

/-- NAMESUC comes after a `memset`, and the notice reaches nobody. -/
theorem set_name_silent (h : Call.Silent sha256 env p fd s .set_name) (l l' : Locals) :
    setNameSent env p fd s l = setNameSent env p fd s l' := by
  obtain ⟨hname, a, ha, halone⟩ := h
  unfold setNameSent
  rw [if_neg (by simp [hname]), if_neg (by simp [hname]), ha]
  rcases hr : LinkedList.Rget_roomFID s.room_list (s.heap a).roomID with _ | r
  · simp only [hr]
  have hnobody : ¬ (s.rename a (localName env p.buf)).Reaches fd
      ((s.rename a (localName env p.buf)).members r) := mt reaches_rename.mp (halone r hr)
  simp only [hr, relayed_eq_nil hnobody, List.nil_append]
  rw [Raw.clear_eq (renameNote env l.ret _ _ _) (renameNote env l'.ret _ _ _)]

/-! ### The listings -/

/-- The first line of a listing is cleared in `buf` only. -/
theorem active_users_carries : Carries (fun l => activeUsersSent env fd s l) padding := by
  intro b
  have hcount := length_decInt s.active_users_list.length
  refine ⟨fd, _, _, rfl, ?_⟩
  rw [Raw.byte_timestamp (by decide), Raw.byte_buf (by simp [str, padding]; omega),
    Raw.byte_realname (by decide), Raw.byte_username (by decide), Raw.byte_options (by decide)]
  exact Raw.byte_marked (by decide)

theorem room_list_carries : Carries (fun l => roomListSent env fd s l) padding := by
  intro b
  have hcount := length_decInt s.room_list.length
  refine ⟨fd, _, _, rfl, ?_⟩
  rw [Raw.byte_buf (by simp [str, padding]; omega), Raw.byte_timestamp (by decide),
    Raw.byte_realname (by decide), Raw.byte_username (by decide), Raw.byte_options (by decide)]
  exact Raw.byte_marked (by decide)

theorem room_users_carries (hs : s.ShortRooms)
    (h : ¬ Call.Silent sha256 env p fd s .get_room_users) :
    Carries (fun l => roomUsersSent env p fd s l) padding := by
  unfold roomUsersSent
  rcases ha : LinkedList.get_user s.heap s.active_users_list p.username with _ | a
  · exact absurd (fun a ha' => by rw [ha] at ha'; cases ha') h
  rcases hr : LinkedList.Rget_roomFID s.room_list (s.heap a).roomID with _ | r
  · refine absurd (fun a' ha' => ?_) h
    rw [ha] at ha'
    cases ha'
    exact hr
  intro b
  simp only [hr]
  have hname := hs.room hr
  have hcount := length_decInt (s.members r).length
  refine ⟨fd, _, _, rfl, ?_⟩
  rw [Raw.byte_timestamp (by decide), Raw.byte_buf (by simp [str, padding]; omega),
    Raw.byte_realname (by decide), Raw.byte_username (by decide), Raw.byte_options (by decide)]
  exact Raw.byte_marked (by decide)

theorem room_users_silent (h : Call.Silent sha256 env p fd s .get_room_users) (l : Locals) :
    roomUsersSent env p fd s l = [] := by
  unfold roomUsersSent
  rcases ha : LinkedList.get_user s.heap s.active_users_list p.username with _ | a
  · rfl
  · simp only [h a ha]

/-! ### Every handler -/

/-- A handler that sends nothing before the first `memset` keeps its memory to itself. -/
theorem Call.keeps_of_silent {c : Call} (h : c.Silent sha256 env p fd s) :
    c.KeepsMemory sha256 env p fd s := by
  intro l l'
  cases c with
  | sendError => exact absurd h not_false
  | sendMOTD => exact absurd h not_false
  | login => exact (login_silent h l).trans (login_silent h l').symm
  | join => exact (join_silent h l).trans (join_silent h l').symm
  | leave => exact leave_silent h l l'
  | invite => exact (invite_silent h l).trans (invite_silent h l').symm
  | set_name => exact set_name_silent h l l'
  | exit_client => exact exit_silent h l l'
  | user_lookup => exact (lookup_silent h l).trans (lookup_silent h l').symm
  | get_active_users => exact absurd h not_false
  | get_room_users => exact (room_users_silent h l).trans (room_users_silent h l').symm
  | get_room_list => exact absurd h not_false

/-- Any other handler sends a byte of what was there. -/
theorem Call.carries_of_not_silent (hp : p.Wf) (hs : s.ShortRooms) {c : Call}
    (h : ¬ c.Silent sha256 env p fd s) :
    ∃ k, Carries (fun l => c.sent sha256 env p fd s l) k := by
  cases c with
  | sendError error htext => exact sendError_carries htext
  | sendMOTD => exact ⟨padding, fun b => ⟨fd, _, [], rfl,
      byte_motdPacket.trans (Raw.byte_marked (by decide))⟩⟩
  | login => exact login_carries h
  | join => exact join_carries hp h
  | leave => exact ⟨padding, leave_carries h⟩
  | invite => exact invite_carries hp hs h
  | set_name => exact set_name_carries h
  | exit_client => exact ⟨padding, exit_carries hp h⟩
  | user_lookup => exact lookup_carries hp h
  | get_active_users => exact ⟨padding, active_users_carries⟩
  | get_room_users => exact ⟨padding, room_users_carries hs h⟩
  | get_room_list => exact ⟨padding, room_list_carries⟩

/-- The handlers that split the text of the packet. -/
def Call.SplitsText : Call → Prop
  | .login | .join | .leave | .invite | .user_lookup => True
  | _ => False

/-- **A handler keeps its memory to itself**, and what it stores in its own, if and only if the
text has at most 15 words where it splits it, and nothing is sent before its variable is
cleared. -/
theorem keeps_memory_iff (hp : p.Wf) (hs : s.ShortRooms) (c : Call) :
    (c.SplitsText → KeepsToArgs p.buf) ∧ c.KeepsMemory sha256 env p fd s ↔
      (c.SplitsText → (words p.buf).length ≤ 15) ∧ c.Silent sha256 env p fd s := by
  refine and_congr (imp_congr_right fun _ => keepsToArgs_iff p.buf) ?_
  refine ⟨fun hkeeps => ?_, Call.keeps_of_silent⟩
  by_contra hsilent
  obtain ⟨k, hcarries⟩ := Call.carries_of_not_silent hp hs hsilent
  exact hcarries.differ hkeeps

end Handlers

/-! ## Alice, alone in the Lobby -/

/-- Nobody is told of her new name but she, from a variable that has been cleared; of her going
she is told herself, from one that has not. -/
theorem keeps_memory_alice :
    let s := (Sample.world (Sample.enter 4 "alice")).server
    let p : Packet := ⟨0, str "Alicia", str "alice", str "alice", SETNAME⟩
    Call.set_name.KeepsMemory Sample.sha256 Sample.env p 4 s ∧
      ¬ Call.exit_client.KeepsMemory Sample.sha256 Sample.env p 4 s := by
  intro s p
  have hp : p.Wf := ⟨by decide, by decide, by decide⟩
  have hs : s.ShortRooms := by
    unfold Server.ShortRooms
    decide
  have hroom : s.members 0 = [0] := by decide
  have hname : ¬ Call.set_name.SplitsText := not_false
  have hexit : ¬ Call.exit_client.SplitsText := not_false
  refine ⟨((keeps_memory_iff hp hs .set_name).mpr ⟨fun h => absurd h hname, by decide, 0,
    by decide, fun r hr => ?_⟩).2, fun hkeeps => ?_⟩
  · have hlobby : LinkedList.Rget_roomFID s.room_list (s.heap 0).roomID = some 0 := by decide
    obtain rfl : 0 = r := Option.some.inj (hlobby.symm.trans hr)
    rintro ⟨a, ha, hne⟩
    rw [hroom, List.mem_singleton] at ha
    rw [ha] at hne
    exact hne (by decide)
  · have hsilent := ((keeps_memory_iff hp hs .exit_client).mp ⟨fun h => absurd h hexit, hkeeps⟩).2
    exact hsilent 0 0 (by decide) (by decide) ⟨0, hroom ▸ List.mem_singleton_self 0, by decide⟩

/-- The username in a MOTD packet is what the memory held before. -/
theorem motd_username_left : ¬ ∀ (sha256 : Str → Digest) (env : Env) (p : Packet) (fd : Int)
    (s : Server) (c : Call), p.Wf → s.ShortRooms → c.KeepsMemory sha256 env p fd s := by
  intro h
  have hkeeps := h Sample.sha256 Sample.env ⟨0, [], [], [], GETMOTD⟩ 4 (World.boot none 3).server
    .sendMOTD ⟨by decide, by decide, by decide⟩ (by unfold Server.ShortRooms; decide)
  have hcarries : Carries (fun l => [((4 : Int), motdPacket Sample.env l.motd)]) 136 := by
    intro b
    refine ⟨4, _, [], rfl, ?_⟩
    rw [motdPacket, Raw.byte_timestamp (by decide), Raw.byte_buf (by decide),
      Raw.byte_options (by decide), Raw.byte_realname (by decide)]
    exact Raw.byte_marked (by decide)
  exact hcarries.differ hkeeps

end TBDChat
