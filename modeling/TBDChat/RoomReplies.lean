import TBDChat.JoinOutcome
import TBDChat.CommandArgs
import TBDChat.CurrentRoom

/-!
# What the client makes of replies about rooms

`roomListResponse` of `chat_client.c` takes a text of more than one word for the heading of
the list and any other for the name of a room, and `newRoom` takes a room's name and number
from the first two words of a JOINSUC.  The validator lets a blank into a name, but the
server only ever sees one word of a JOIN, so no room has such a name.
-/

namespace TBDChat
open Atomic

set_option maxRecDepth 8000

/-- What a line of the list of rooms is shown as. -/
inductive RoomLine where
  /-- By `wprintSeperatorTitle`. -/
  | title (text : Str)
  /-- By `wprintFormatMessage`, as from `ROOM`. -/
  | room (name : Str)
  deriving DecidableEq

/-- `args[1]` is tested for NULL. -/
def roomListResponse (buf : Str) : RoomLine :=
  match (argAt (fillArgs delim 16 buf) 1).join with
  | none => .room buf
  | some _ => .title buf

/-- The name and the number that `newRoom` finds in a JOINSUC.  There is no result where it
prints its error, nor where `atoi` is given the NULL of a text of one word. -/
def joinedRoom (buf : Str) : Option (Str × Int) :=
  let args := fillArgs delim 16 buf
  if 1 ≤ lastIndex args then
    match (argAt args 0).join, (argAt args 1).join with
    | some name, some number => some (name, atoi number)
    | _, _ => none
  else none

/-! ## Decoding -/

section Decoding
variable {buf name w v : Str} {n : Int} {rest : List Str}

/-- `args[1]` is the second field, or NULL. -/
theorem roomListResponse_eq (buf : Str) : roomListResponse buf =
    match fields delim buf with
    | _ :: _ :: _ => .title buf
    | _ => .room buf := by
  rw [roomListResponse, fillArgs_eq (by decide), argAt_zipIdx]
  cases fields delim buf with
  | nil => rfl
  | cons w rest =>
    cases rest with
    | nil => rfl
    | cons v rest => rfl

/-- A text without a blank is one field. -/
theorem fields_word (h : ∀ c ∈ name, c ∉ delim) : fields delim name = [name] := by
  refine List.splitOnP_eq_singleton fun c hc => ?_
  simpa using h c hc

theorem roomListResponse_name (h : ∀ c ∈ name, c ∉ delim) :
    roomListResponse name = .room name := by
  rw [roomListResponse_eq, fields_word h]

/-- The first two fields are what is found in the text. -/
theorem joinedRoom_eq (h : fields delim buf = w :: v :: rest) (hrest : rest.length ≤ 13) :
    Splits delim 16 buf ∧ joinedRoom buf = some (w, atoi v) := by
  have hlen : (fields delim buf).length = rest.length + 2 := by
    rw [h, List.length_cons, List.length_cons]
  have hsplits : Splits delim 16 buf := (splits_iff (by decide)).mpr (by omega)
  refine ⟨hsplits, ?_⟩
  have hw := hsplits.words 0 (by omega)
  have hv := hsplits.words 1 (by omega)
  simp only [h, List.getElem_cons_zero, List.getElem_cons_succ] at hw hv
  rw [joinedRoom, hsplits.count, if_pos (by omega), hw, hv]
  rfl

/-- What `newRoom` keeps is the number. -/
theorem Client.newRoom_eq {q : Packet} {k : Client} (h : Splits delim 16 q.buf) :
    k.newRoom q = (joinedRoom q.buf).map fun x => { k with currentRoom := x.2 } := by
  have hlen : (fields delim q.buf).length < 16 := (splits_iff (by decide)).mp h
  have hwords : words q.buf = fields delim q.buf := by
    rw [words_eq, List.take_of_length_le (by omega)]
  obtain ⟨w, rest, hw, -⟩ := strsep_fields delim q.buf
  cases rest with
  | nil =>
    have hnull := h.null
    rw [hw] at hnull
    have hone : argAt (fillArgs delim 16 q.buf) 1 = some none := hnull
    have hnone : joinedRoom q.buf = none := by
      simp [joinedRoom, hone]
    rw [newRoom, hwords, hw, hnone, Option.map_none]
    exact if_pos (.inl (Nat.le_refl 1))
  | cons v rest =>
    rw [hw] at hlen
    simp only [List.length_cons] at hlen
    have harg : arg (w :: v :: rest) 1 = v := rfl
    rw [newRoom, hwords, hw, (joinedRoom_eq hw (by omega)).2, Option.map_some, harg,
      if_neg (by simp only [List.length_cons]; omega)]
    dsimp only
    split
    · rfl
    · rename_i hsame
      rw [not_not.mp hsame]

end Decoding

/-! ## The names of the rooms -/

/-- **No room has a blank in its name.** -/
theorem Reachable.names_unspaced {sha256 : Str → Digest} {w : World} (hw : Reachable sha256 w) :
    ∀ name ∈ w.server.names, ∀ c ∈ name, c ∉ delim :=
  hw.names_all (by decide) fun _ _ => not_mem_delim_arg

/-! ## What the server sends -/

section Replies
variable {sha256 : Str → Digest} {env : Env} {p q : Packet} {c d : Int} {s s' : Server} {w : World}
  {es : List Effect}

/-- The texts of the reply to a GETROOMS. -/
def Server.roomTexts (s : Server) : List Str :=
  (dec s.room_list.length ++ str " Rooms Found") :: s.names

theorem get_room_list_texts (env : Env) (fd : Int) (s : Server) :
    ops.run (get_room_list env fd) s = .ok ((), s,
      s.roomTexts.map fun text => .send fd (serverPacket env GETROOMS text)) := by
  rw [run_get_room_list, Server.roomTexts, Server.names, List.map_cons, List.map_map]
  rfl

/-- The heading has three words. -/
theorem fields_heading (n : Int) : fields delim (dec n ++ str " Rooms Found") =
    [dec n, str "Rooms", str "Found"] := by
  have hfirst : fields delim (dec n ++ 32 :: str "Rooms Found") =
      dec n :: fields delim (str "Rooms Found") := by
    refine List.splitOnP_append_cons_of_forall_mem (fun x hx => ?_) 32 (by decide) _
    simpa using not_mem_delim_dec x hx
  have hrest : fields delim (str "Rooms Found") = [str "Rooms", str "Found"] := by decide
  rw [← hrest, ← hfirst]
  rfl

/-- The list of rooms is shown under one heading, each by its name. -/
theorem roomTexts_shown (h : ∀ name ∈ s.names, ∀ c ∈ name, c ∉ delim) :
    (∀ text ∈ s.roomTexts, Splits delim 16 text) ∧ s.roomTexts.map roomListResponse =
      .title (dec s.room_list.length ++ str " Rooms Found") :: s.names.map .room := by
  constructor
  · refine List.forall_mem_cons.mpr ⟨?_, fun name hname => ?_⟩
    · rw [splits_iff (by decide), fields_heading]
      simp
    · rw [splits_iff (by decide), fields_word (h name hname)]
      simp
  · rw [Server.roomTexts, List.map_cons, roomListResponse_eq, fields_heading]
    exact congrArg _ (List.map_congr_left fun name hname => roomListResponse_name (h name hname))

/-- The reply tells of the room that the user has been moved to. -/
structure TellsOfRoom (s' : Server) (user : Str) (buf : Str) (r : RoomRef) : Prop where
  room : r < s'.room_list.length
  only : s'.OnlyIn user r
  splits : Splits delim 16 buf
  decoded : joinedRoom buf = some ((s'.room r).name, (s'.room r).ID)

/-- A JOINSUC is not among packets that are quiet. -/
theorem not_joinsuc (hq : .send d q ∈ es) (h : AllQuiet es) : q.options ≠ JOINSUC := by
  intro hopt
  have hquiet : q.Quiet := h _ hq
  exact hquiet.2 (by rw [hopt]; decide)

/-- Of one packet among quiet ones, it is that one. -/
theorem joinsuc_eq {q' : Packet} {es₁ es₂ : List Effect}
    (hq : .send d q ∈ es₁ ++ .send c q' :: es₂) (hopt : q.options = JOINSUC)
    (h₁ : AllQuiet es₁) (h₂ : AllQuiet es₂) : q = q' := by
  rcases List.mem_append.mp hq with hq | hq
  · exact absurd hopt (not_joinsuc hq h₁)
  rcases List.mem_cons.mp hq with hq | hq
  · cases hq
    rfl
  · exact absurd hopt (not_joinsuc hq h₂)

/-- The text of `join`. -/
theorem tells_joined {name : Str} {r : RoomRef} (hr : r < s'.room_list.length)
    (honly : s'.OnlyIn p.username r) (hname : (s'.room r).name = name)
    (hword : ∀ c ∈ name, c ∉ delim) (h0 : 0 ≤ (s'.room r).ID) (h31 : (s'.room r).ID < 2 ^ 31) :
    TellsOfRoom s' p.username (name ++ str " " ++ dec (s'.room r).ID) r := by
  have hwords := @words_joined name (s'.room r).ID hword
  have hfields := fields_eq_words (by rw [hwords]; simp)
  obtain ⟨hsplits, hread⟩ := joinedRoom_eq (hfields.trans hwords) (by decide)
  exact ⟨hr, honly, hsplits, by rw [hread, hname, atoi_dec h0 h31]⟩

/-- The text of `leave` goes on behind the number. -/
theorem tells_left {name : Str} {r : RoomRef} (hr : r < s'.room_list.length)
    (honly : s'.OnlyIn p.username r) (hname : (s'.room r).name = name)
    (hword : ∀ c ∈ name, c ∉ delim) (h0 : 0 ≤ (s'.room r).ID) (h31 : (s'.room r).ID < 2 ^ 31) :
    TellsOfRoom s' p.username
      (name ++ str " " ++ dec (s'.room r).ID ++ str " has joined the room.") r := by
  have hwords := @words_left name (s'.room r).ID hword
  have hfields := fields_eq_words (by rw [hwords]; simp)
  obtain ⟨hsplits, hread⟩ := joinedRoom_eq (hfields.trans hwords) (by decide)
  exact ⟨hr, honly, hsplits, by rw [hread, hname, atoi_dec h0 h31]⟩

/-- **Every JOINSUC tells of the room** that the user of the packet is in afterwards. -/
theorem joinsuc_tells {name : Str} {next : Next} (hi : s.Housed) (hp : p.Wf)
    (hrun : ops.run (client_receive sha256 env (some name) p c) s = .ok (next, s', es))
    (hint : s'.numRooms < 2 ^ 31) (hq : .send d q ∈ es) (hopt : q.options = JOINSUC) :
    ∃ r, TellsOfRoom s' p.username q.buf r := by
  have hlen : p.username.length < 192 := by
    have hwf := hp.username.1
    omega
  cases received hrun with
  | answered _ hes => exact absurd hopt (not_joinsuc hq (allQuiet_of_replies hrun hes))
  | renamed _ _ _ hr =>
    exact absurd hopt (not_joinsuc hq (allQuiet_append.mpr ⟨allQuiet_fileEffects,
      allQuiet_append.mpr ⟨allQuiet_relay (hi.table.le_of_find hr), allQuiet_message (by decide)⟩⟩))
  | passwordSet =>
    exact absurd hopt (not_joinsuc hq
      (allQuiet_append.mpr ⟨allQuiet_fileEffects, allQuiet_message (by decide)⟩))
  | opened => exact absurd hopt (not_joinsuc hq allQuiet_openEffects)
  | chat hchat _ =>
    exact absurd hopt (not_joinsuc hq
      (allQuiet_relay (q := { p with buf := (sanitizeInput p.buf 0).1 }) hchat))
  | vanished => cases hq
  | signedOut _ _ hr =>
    rcases List.mem_append.mp hq with hq | hq
    · exact absurd hopt (not_joinsuc hq (allQuiet_relay (hi.table.le_of_find hr)))
    · rcases List.mem_pair.mp hq with hq | hq
      · cases hq
        exact absurd hopt (by simp [serverPacket, EXIT, JOINSUC])
      · cases hq
  | @joined _ s₁ _ b r r' r'' hj hs₁ hr hb hr' hr'' hs₂ =>
    have hi₁ : s₁.Housed := hs₁ ▸ hi.openRoom (acceptsName_iff.mp hj.name).2.2
    obtain rfl := joinsuc_eq hq hopt allQuiet_openEffects (allQuiet_append.mpr
      ⟨allQuiet_relay (hi₁.table.le_of_find hr), allQuiet_relay (hi₁.table.le_of_find hr'')⟩)
    obtain ⟨room, hroom, hroomname⟩ := LinkedList.Rget_roomFNAME_some hr'
    obtain ⟨hmem, huser⟩ := LinkedList.get_user_some hb
    have hlt := (List.getElem?_eq_some_iff.mp hroom).1
    have hrooms : SameRooms s₁ s' := hs₂ ▸ .move ..
    have hget : s₁.room r' = room := Server.room_of_getElem? hroom
    have hrange := hi₁.table.range room.ID (List.mem_map_of_mem (List.mem_of_getElem? hroom))
    have h1000 : (1000 : Int) ≤ room.ID := hrange.1
    have hnum := hrooms.numRooms
    have hID : (s'.room r').ID = room.ID := by rw [hrooms.ID, hget]
    have honly := onlyIn_move hi₁ (by rwa [huser]) (Rget_roomFID_lt hr) hlt hmem
    rw [huser, ← hs₂] at honly
    refine ⟨r', ?_⟩
    have htells := tells_joined (by rwa [hrooms.length]) honly
      ((hrooms.name r').trans (by rw [hget, hroomname])) not_mem_delim_arg (by omega) (by omega)
    rwa [hrooms.ID] at htells
  | @left _ _ b r l l' _ _ _ hr hb hl hs' hl' =>
    obtain rfl := joinsuc_eq hq hopt (allQuiet_relay (hi.table.le_of_find hr))
      (allQuiet_relay (hi.table.le_of_find hl'))
    obtain ⟨hmem, huser⟩ := LinkedList.get_user_some hb
    have hrooms : SameRooms s s' := hs' ▸ .move ..
    have hlobby : (s.room l).ID = 1000 := Server.room_of_Rget_roomFID hl
    obtain rfl : l = 0 := Option.some.inj (hl.symm.trans hi.table.Rget_lobby)
    have honly := onlyIn_move hi (by rwa [huser]) (Rget_roomFID_lt hr) (Rget_roomFID_lt hl) hmem
    rw [huser, hlobby, ← hs'] at honly
    have hID : (s'.room 0).ID = 1000 := (hrooms.ID 0).trans hlobby
    have hname : (s'.room 0).name = DEFAULT_ROOM_NAME := (hrooms.name 0).trans hi.table.lobby_name
    exact ⟨0, tells_left (by rw [hrooms.length]; exact Rget_roomFID_lt hl) honly rfl
      (by rw [hname]; decide) (by omega) (by omega)⟩

/-- **Replies about rooms are decoded to what was encoded.**  The list of rooms is shown as
one heading and the names in order, and every JOINSUC gives the name and the number of the
room that the user has been moved to. -/
theorem room_replies_decode (hw : Reachable sha256 w) :
    (∀ env fd, ∃ texts : List Str,
      ops.run (get_room_list env fd) w.server = .ok ((), w.server,
        texts.map fun text => .send fd (serverPacket env GETROOMS text)) ∧
      (∀ text ∈ texts, Splits delim 16 text) ∧
      texts.map roomListResponse =
        .title (dec w.server.room_list.length ++ str " Rooms Found") ::
          w.server.names.map .room) ∧
    ∀ name c p env w' es, w.conns c = .serving (some name) →
      Step sha256 w (.packet c p env) w' es → w'.server.numRooms < 2 ^ 31 →
      ∀ d q, .send d q ∈ es → q.options = JOINSUC →
        ∃ r, TellsOfRoom w'.server p.username q.buf r := by
  refine ⟨fun env fd => ?_, fun name c p env w' es hc hs hint d q hq hopt => ?_⟩
  · exact ⟨w.server.roomTexts, get_room_list_texts env fd w.server,
      roomTexts_shown hw.names_unspaced⟩
  · obtain ⟨next, hp, hrun, -⟩ := hs.handled hc
    exact joinsuc_tells hw.housed hp hrun hint hq hopt

end Replies

/-- Alice, who is in the Lobby, asks for another room. -/
theorem room_replies_decode_alice :
    (∃ texts : List Str, texts.map roomListResponse =
      .title (dec 1 ++ str " Rooms Found") :: [.room (str "Lobby")]) ∧
    ∃ r, TellsOfRoom (Sample.alone.state 3).server (str "alice") (str "den 1001") r := by
  have hreach : Reachable Sample.sha256 (Sample.alone.state 2) :=
    Sample.alone.reachable (by decide)
  have hsent : .send 4 (serverPacket Sample.env JOINSUC (str "den 1001")) ∈
      Sample.alone.out 2 := by decide
  obtain ⟨hlist, hjoinsuc⟩ := room_replies_decode hreach
  obtain ⟨texts, -, -, hshown⟩ := hlist Sample.env 4
  have hrooms : (Sample.alone.state 2).server.names = [str "Lobby"] := by decide
  have hcount : (Sample.alone.state 2).server.room_list.length = 1 := by decide
  rw [hrooms, hcount] at hshown
  refine ⟨⟨texts, hshown⟩, ?_⟩
  exact hjoinsuc (str "alice") 4 Sample.request Sample.env _ _ (by decide)
    (Sample.alone.next 2 (by decide)) (by decide) 4 _ hsent rfl

end TBDChat
