import TBDChat.CleanReplies

/-!
# The texts that the handlers compose

The handlers put the text of a packet together in its `buf[128]` with `strcpy`, `sprintf`
and `strcat`, out of stored names, words of the request and fixed phrases.  Here are the
texts of each handler, also those that it composes before it comes to a NULL, and their
lengths.
-/

namespace TBDChat
open Atomic Bytes

set_option maxRecDepth 8000

/-- `%d` of an `int`. -/
def decInt (n : Int) : Str := dec (wrap32 n)

/-- The reply to a name that is not accepted. -/
def nameTexts (invalid short long : String) (limit : Nat) (name : Str) : List Str :=
  if (sanitizeInput name 1).2 ≠ 0 then [str invalid]
  else if name.length < 3 then [str short]
  else if name.length > limit then [str long]
  else []

/-- The reply to a new password that is not accepted. -/
def passwordTexts (pass1 pass2 : Str) : List Str :=
  if pass1 ≠ pass2 then [str "Password input does not match."]
  else if pass1.length < 3 then [str "Requested password is too short."]
  else if pass1.length > 32 then [str "Requested password is too long."]
  else []

/-! ## The handlers -/

section Handlers
variable (sha256 : Str → Digest) (env : Env) (p : Packet) (fd : Int) (s : Server)

/-- What `login` composes; its LOGSUC packet is left with the text it has. -/
def loginTexts : List Str :=
  if 15 < (words p.buf).length ∨ (words p.buf).length ≤ 2 then []
  else match s.account (arg (words p.buf) 1) with
    | none => [str "Username not found."]
    | some a =>
      if (s.heap a).hash ≠ (sha256 (arg (words p.buf) 2)).bytes then [str "Incorrect password."]
      else if (LinkedList.get_user s.heap s.active_users_list (arg (words p.buf) 1)).isSome then
        [str "User already logged in."]
      else match LinkedList.Rget_roomFID s.room_list DEFAULT_ROOM with
        | none => []
        | some r =>
          [((s.signIn a fd r).heap a).real_name ++ str " has joined the lobby.", server_MOTD]

/-- What `register_user` composes, the text for `login` included. -/
def registerTexts : List Str :=
  if 15 < (words p.buf).length ∨ (words p.buf).length ≤ 3 then []
  else if acceptsName USERNAME_LENGTH (arg (words p.buf) 1) = false then
    nameTexts "Invalid characters in username." "Username is too short." "Username is too long."
      USERNAME_LENGTH (arg (words p.buf) 1)
  else if LinkedList.get_real_name s.heap s.registered_users_list (arg (words p.buf) 1) ≠ ERROR
      ∨ SERVER_NAME = arg (words p.buf) 1 ∨ arg (words p.buf) 2 ≠ arg (words p.buf) 3 then
    [str "Username unavailable."]
  else if acceptsPassword (arg (words p.buf) 2) (arg (words p.buf) 3) = false then
    passwordTexts (arg (words p.buf) 2) (arg (words p.buf) 3)
  else
    (relogin p).buf :: loginTexts sha256 (relogin p) fd
      (s.enrol (newUser sha256 env (arg (words p.buf) 1) (arg (words p.buf) 2) fd))

/-- The text of a request goes back with PASSSUC. -/
def setPassTexts : List Str :=
  if 15 < (words p.buf).length then []
  else if (words p.buf).length ≤ 3 then [str "Password change failed, malformed request."]
  else if acceptsPassword (arg (words p.buf) 2) (arg (words p.buf) 3) = false then
    passwordTexts (arg (words p.buf) 2) (arg (words p.buf) 3)
  else match LinkedList.get_user s.heap s.registered_users_list p.username with
    | none => [str "Password change failed, for some reason we couldn't find you."]
    | some a =>
      if (s.heap a).hash ≠ (sha256 (arg (words p.buf) 1)).bytes then
        [str "Password change failed, password mismatch."]
      else [p.buf]

/-- The notice has the old name and the new one in it. -/
def setNameTexts : List Str :=
  if acceptsName REALNAME_LENGTH (localName env p.buf) = false then
    nameTexts "Invalid characters in requested name." "Requested name is too short."
      "Requested name is too long." REALNAME_LENGTH (localName env p.buf)
  else match LinkedList.get_user s.heap s.registered_users_list p.username with
    | none => [str "Name change failed, for some reason we couldn't find you."]
    | some a =>
      (strncpy64 (s.heap a).real_name (env.ret.buf.drop 64) ++ str " is now known as " ++
          ((s.rename a (localName env p.buf)).heap a).real_name) ::
        if (LinkedList.Rget_roomFID s.room_list (s.heap a).roomID).isSome then
          [localName env p.buf]
        else []

/-- The second packet of an invitation has an empty text. -/
def inviteTexts : List Str :=
  if 15 < (words p.buf).length then []
  else
    let failed := str "An invitation could not be sent to " ++ arg (words p.buf) 0 ++ str "."
    if (words p.buf).length ≤ 1 then [failed]
    else match LinkedList.Rget_roomFID s.room_list (atoi (arg (words p.buf) 1)),
        LinkedList.get_user s.heap s.active_users_list (arg (words p.buf) 0) with
      | some _, some _ =>
        [p.realname ++ str " has invited you to join " ++
          LinkedList.Rget_name s.room_list (atoi (arg (words p.buf) 1)), []]
      | _, _ => [failed]

/-- What a user who goes from one room to another causes. -/
def changeRoomTexts : List Str :=
  match LinkedList.Rget_roomFID s.room_list (atoi (arg (words p.buf) 1)) with
  | none => []
  | some r => match LinkedList.get_user s.heap (s.members r) p.username with
    | none => []
    | some a => match LinkedList.Rget_roomFNAME s.room_list (arg (words p.buf) 0) with
      | none => []
      | some r' =>
        let real_name := ((s.move a r r' (s.room r').ID).heap a).real_name
        [arg (words p.buf) 0 ++ str " " ++ decInt (s.room r').ID,
          strncpy64 real_name [] ++ str " has left the room.",
          strncpy64 real_name [] ++ str " has joined the room."]

/-- A name that is not accepted is answered twice. -/
def joinTexts : List Str :=
  let unable := str "We were unable to put you in that room, sorry."
  if 15 < (words p.buf).length then []
  else if (words p.buf).length ≤ 1 then [unable]
  else if acceptsName ROOMNAME_LENGTH (arg (words p.buf) 0) = false then
    nameTexts "Invalid characters in room name." "Requested room name is too short."
      "Requested room name is too long." ROOMNAME_LENGTH (arg (words p.buf) 0) ++ [unable]
  else changeRoomTexts p (s.openRoom env.fd (arg (words p.buf) 0))

/-- The Lobby is not left, and no text says so. -/
def leaveTexts : List Str :=
  if 15 < (words p.buf).length ∨ (words p.buf).length ≤ 1 ∨
      atoi (arg (words p.buf) 1) = DEFAULT_ROOM then []
  else match LinkedList.Rget_roomFID s.room_list (atoi (arg (words p.buf) 1)) with
    | none => []
    | some r => match LinkedList.get_user s.heap (s.members r) p.username with
      | none => []
      | some a => match LinkedList.Rget_roomFID s.room_list DEFAULT_ROOM with
        | none => []
        | some d =>
          let real_name := ((s.move a r d 1000).heap a).real_name
          [strncpy64 real_name (env.ret.buf.drop 64) ++ str " has left the room.",
            (s.room d).name ++ str " " ++ decInt (s.room d).ID ++ str " has joined the room.",
            strncpy64 real_name [] ++ str " has joined the room."]

/-- The name in the notice is the one in the packet. -/
def exitTexts : List Str :=
  match LinkedList.get_user s.heap s.active_users_list p.username with
  | none => []
  | some a =>
    (str "User " ++ p.realname ++ str " has disconnected.") ::
      if (LinkedList.Rget_roomFID s.room_list (s.heap a).roomID).isSome then [str "Goodbye!"]
      else []

/-- The lines for the users of a list. -/
def userTexts (l : List Addr) : List Str :=
  l.map fun a => (s.heap a).username ++ str "-" ++ (s.heap a).real_name

def activeUsersTexts : List Str :=
  (decInt s.active_users_list.length ++ str " users online") :: userTexts s s.active_users_list

def roomUsersTexts : List Str :=
  match LinkedList.get_user s.heap s.active_users_list p.username with
  | none => []
  | some a => match LinkedList.Rget_roomFID s.room_list (s.heap a).roomID with
    | none => []
    | some r =>
      (decInt (s.members r).length ++ str " users in " ++ (s.room r).name) ::
        userTexts s (s.members r)

/-- The word that is looked for is repeated, whether it is found or not. -/
def lookupTexts : List Str :=
  if 15 < (words p.buf).length ∨ (words p.buf).length ≤ 1 then []
  else
    let realname := LinkedList.get_real_name s.heap s.active_users_list (arg (words p.buf) 1)
    if realname = ERROR then [arg (words p.buf) 1 ++ str " not found."]
    else [str "User Lookup", arg (words p.buf) 1 ++ str "-" ++ realname]

/-- The count, and then a line for each room. -/
def roomListTexts : List Str :=
  (decInt s.room_list.length ++ str " Rooms Found") :: s.room_list.map Room.name

/-- For a request on a connection that is logged in. -/
def requestTexts : List Str :=
  if p.options = REGISTER then [str "You may not register while logged in."]
  else if p.options = SETPASS then setPassTexts sha256 p s
  else if p.options = SETNAME then setNameTexts env p s
  else if p.options = LOGIN then [str "Already logged in."]
  else if p.options = INVITE then inviteTexts p s
  else if p.options = JOIN then joinTexts env p s
  else if p.options = LEAVE then leaveTexts env p s
  else if p.options = GETALLUSERS then activeUsersTexts s
  else if p.options = GETUSERS then roomUsersTexts p s
  else if p.options = GETUSER then lookupTexts p s
  else if p.options = GETROOMS then roomListTexts s
  else if p.options = GETMOTD then [server_MOTD]
  else []

/-- What is composed for a packet; a chat packet is relayed with its own text. -/
def composedTexts : Option Str → List Str
  | none =>
    if p.options = REGISTER then registerTexts sha256 env p fd s
    else if p.options = LOGIN then loginTexts sha256 p fd s
    else if p.options = EXIT then []
    else [str "Not logged in."]
  | some _ =>
    if 1000 ≤ p.options then [(sanitizeInput p.buf 0).1]
    else if p.options = EXIT ∨ p.options = 0 then exitTexts p s
    else requestTexts sha256 env p s

end Handlers

/-! ## What is sent is composed -/

/-- The text in a packet or in a line of a log is one of the texts; LOGSUC has none. -/
def Effect.From (ts : List Str) : Effect → Prop
  | .send _ q => q.buf ∈ ts ∨ q.options = LOGSUC
  | .logged _ line => ∃ front, ∃ t ∈ ts, line = front ++ t ++ str "\n"
  | .close _ => True
  | .opened _ => True

/-- All texts that are sent or logged are among `ts`. -/
def From (ts : List Str) (es : List Effect) : Prop := ∀ e ∈ es, e.From ts

/-- The numbers that are printed fit an `int`. -/
structure Server.Ints (s : Server) : Prop where
  active : s.active_users_list.length < 2 ^ 31
  rooms : s.room_list.length < 2 ^ 31
  members : ∀ r, (s.members r).length < 2 ^ 31
  numRooms : s.numRooms < 2 ^ 31

section Sending
variable {sha256 : Str → Digest} {env : Env} {p : Packet} {fd : Int} {s s' : Server}
  {ts ts' : List Str} {es es' : List Effect} {e : Effect} {options : Int} {t : Str}

theorem decInt_eq {n : Int} (h0 : 0 ≤ n) (h : n < 2 ^ 31) : decInt n = dec n := by
  have hwrap : wrap32 n = n := by
    unfold wrap32
    omega
  rw [decInt, hwrap]

@[simp] theorem from_nil : From ts [] := fun _ h => nomatch h

@[simp] theorem from_cons : From ts (e :: es) ↔ e.From ts ∧ From ts es := List.forall_mem_cons

@[simp] theorem from_append : From ts (es ++ es') ↔ From ts es ∧ From ts es' :=
  List.forall_mem_append

/-- A packet of the server's own. -/
theorem from_serverPacket (h : t ∈ ts) : (Effect.send fd (serverPacket env options t)).From ts :=
  .inl h

/-- Writing the user file sends nothing. -/
theorem from_fileEffects : From ts (fileEffects s fd) := by
  intro e he
  unfold fileEffects at he
  split at he
  · rcases List.mem_cons.mp he with rfl | he
    · trivial
    · rw [List.mem_singleton.mp he]
      trivial
  · rw [List.mem_singleton.mp he]
    trivial

theorem from_openEffects {name : Str} : From ts (openEffects s fd name) := by
  intro e he
  unfold openEffects at he
  split at he
  · rw [List.mem_singleton.mp he]
    trivial
  · cases he

/-- A packet that goes to a room is logged with the same text. -/
theorem from_relay {q : Packet} {r : RoomRef} (h : q.buf ∈ ts) : From ts (relay env s q fd r) := by
  rw [relay, from_cons]
  refine ⟨⟨_, q.buf, h, rfl⟩, fun e he => ?_⟩
  obtain ⟨a, -, rfl⟩ := List.mem_map.mp he
  exact .inl h

theorem from_nameReply {invalid short long : String} {limit : Nat} {name : Str} :
    From (nameTexts invalid short long limit name)
      (nameReply env invalid short long limit name fd) := by
  unfold nameTexts nameReply
  split
  · exact from_cons.mpr ⟨from_serverPacket List.mem_cons_self, from_nil⟩
  split
  · exact from_cons.mpr ⟨from_serverPacket List.mem_cons_self, from_nil⟩
  split
  · exact from_cons.mpr ⟨from_serverPacket List.mem_cons_self, from_nil⟩
  · exact from_nil

theorem from_passwordReply {pass1 pass2 : Str} :
    From (passwordTexts pass1 pass2) (passwordReply env pass1 pass2 fd) := by
  unfold passwordTexts passwordReply
  split
  · exact from_cons.mpr ⟨from_serverPacket List.mem_cons_self, from_nil⟩
  split
  · exact from_cons.mpr ⟨from_serverPacket List.mem_cons_self, from_nil⟩
  split
  · exact from_cons.mpr ⟨from_serverPacket List.mem_cons_self, from_nil⟩
  · exact from_nil

/-- More texts may have been composed than were sent. -/
theorem From.mono (h : From ts es) (hsub : ∀ t ∈ ts, t ∈ ts') : From ts' es := by
  intro e he
  have hfrom := h e he
  cases e with
  | send d q => exact hfrom.imp_left (hsub _)
  | logged d line =>
    obtain ⟨front, t, ht, rfl⟩ := hfrom
    exact ⟨front, t, hsub t ht, rfl⟩
  | close d => trivial
  | opened d => trivial

/-- One reply. -/
theorem from_one : From [t] [.send fd (serverPacket env options t)] :=
  from_cons.mpr ⟨from_serverPacket List.mem_cons_self, from_nil⟩

/-- What `login` sends has one of its texts, LOGSUC apart. -/
theorem login_from {b : Bool} (h : ops.run (login sha256 env p fd) s = .ok (b, s', es)) :
    From (loginTexts sha256 p fd s) es := by
  rw [run_login] at h
  unfold loginTexts
  split at h
  · cases h
  rename_i h15
  split at h
  · cases h
    exact from_nil
  rename_i h2
  rw [if_neg (by omega)]
  rcases ha : s.account (arg (words p.buf) 1) with _ | a
  · rw [ha] at h
    cases h
    exact from_one
  rw [ha] at h
  dsimp only at h ⊢
  split at h
  · rename_i hpass
    cases h
    rw [if_pos hpass]
    exact from_one
  rename_i hpass
  rw [if_neg hpass]
  split at h
  · rename_i hact
    cases h
    rw [if_pos hact]
    exact from_one
  rename_i hact
  rw [if_neg hact]
  rcases hr : LinkedList.Rget_roomFID s.room_list DEFAULT_ROOM with _ | r
  · rw [hr] at h
    cases h
  rw [hr] at h
  cases h
  refine from_cons.mpr ⟨.inr rfl, from_append.mpr ⟨from_relay ?_, ?_⟩⟩
  · exact List.mem_cons_self
  · exact from_cons.mpr ⟨.inl (List.mem_cons_of_mem _ List.mem_cons_self), from_nil⟩

/-- The texts of `login` come with those of `register_user`, which calls it. -/
theorem register_from {b : Bool}
    (h : ops.run (register_user sha256 env p fd) s = .ok (b, s', es)) :
    From (registerTexts sha256 env p fd s) es := by
  rw [run_register_user] at h
  unfold registerTexts
  split at h
  · cases h
  rename_i h15
  split at h
  · cases h
    exact from_nil
  rename_i h3
  rw [if_neg (by omega)]
  split at h
  · rename_i hname
    cases h
    rw [if_pos hname]
    exact from_nameReply
  rename_i hname
  rw [if_neg hname]
  split at h
  · rename_i hfree
    cases h
    rw [if_pos hfree]
    exact from_one
  rename_i hfree
  rw [if_neg hfree]
  split at h
  · rename_i hpass
    cases h
    rw [if_pos hpass]
    exact from_passwordReply
  rename_i hpass
  rw [if_neg hpass]
  obtain ⟨es', hlogin, rfl⟩ := Outcome.prepend_eq_ok h
  exact from_append.mpr ⟨from_fileEffects,
    (login_from hlogin).mono fun t ht => List.mem_cons_of_mem _ ht⟩

theorem set_pass_from (h : ops.run (set_pass sha256 env p fd) s = .ok ((), s', es)) :
    From (setPassTexts sha256 p s) es := by
  rw [run_set_pass] at h
  unfold setPassTexts
  split at h
  · cases h
  rename_i h15
  rw [if_neg h15]
  split at h
  · rename_i h3
    cases h
    rw [if_pos h3]
    exact from_one
  rename_i h3
  rw [if_neg h3]
  split at h
  · rename_i hpass
    cases h
    rw [if_pos hpass]
    exact from_passwordReply
  rename_i hpass
  rw [if_neg hpass]
  rcases ha : LinkedList.get_user s.heap s.registered_users_list p.username with _ | a
  · rw [ha] at h
    cases h
    exact from_one
  rw [ha] at h
  dsimp only at h ⊢
  split at h
  · rename_i hhash
    cases h
    rw [if_pos hhash]
    exact from_one
  rename_i hhash
  cases h
  rw [if_neg hhash]
  exact from_append.mpr ⟨from_fileEffects, from_one⟩

/-- The notice is composed before the room is looked for, and sent after. -/
theorem set_name_from (h : ops.run (set_name env p fd) s = .ok ((), s', es)) :
    From (setNameTexts env p s) es := by
  rw [run_set_name] at h
  unfold setNameTexts
  split at h
  · rename_i hname
    cases h
    rw [if_pos hname]
    exact from_nameReply
  rename_i hname
  rw [if_neg hname]
  rcases ha : LinkedList.get_user s.heap s.registered_users_list p.username with _ | a
  · rw [ha] at h
    cases h
    exact from_one
  rw [ha] at h
  dsimp only at h ⊢
  obtain ⟨es', hrun, rfl⟩ := Outcome.prepend_eq_ok h
  obtain ⟨r, es₂, hr, hend, rfl⟩ := announce_then_eq_ok hrun
  cases hend
  have hroom : (LinkedList.Rget_roomFID s.room_list (s.heap a).roomID).isSome = true := by
    rw [rename_roomID] at hr
    rw [show s.room_list = (s.rename a (localName env p.buf)).room_list from rfl, hr]
    rfl
  rw [if_pos hroom]
  refine from_append.mpr ⟨from_fileEffects, from_append.mpr
    ⟨from_relay List.mem_cons_self, from_cons.mpr ⟨from_serverPacket ?_, from_nil⟩⟩⟩
  exact List.mem_cons_of_mem _ List.mem_cons_self

theorem invite_from (h : ops.run (invite env p fd) s = .ok ((), s', es)) :
    From (inviteTexts p s) es := by
  rw [run_invite] at h
  unfold inviteTexts
  split at h
  · cases h
  rename_i h15
  cases h
  rw [if_neg h15]
  dsimp only
  by_cases h1 : (words p.buf).length ≤ 1
  · rw [if_pos h1, if_pos h1]
    exact from_one
  rw [if_neg h1, if_neg h1]
  cases hr : LinkedList.Rget_roomFID s.room_list (atoi (arg (words p.buf) 1)) with
  | none => exact from_one
  | some r =>
    cases ha : LinkedList.get_user s.heap s.active_users_list (arg (words p.buf) 0) with
    | none => exact from_one
    | some a =>
      refine from_cons.mpr ⟨.inl List.mem_cons_self, from_cons.mpr ⟨from_serverPacket ?_, from_nil⟩⟩
      exact List.mem_cons_of_mem _ List.mem_cons_self

/-- The numbers of the rooms fit an `int` if the next one does. -/
theorem decInt_ID {n : Int} (ht : s.Table) {r : RoomRef} (hr : r < s.room_list.length)
    (hn : s.numRooms ≤ n) (h : n ≤ 2 ^ 31) : decInt (s.room r).ID = dec (s.room r).ID := by
  have hget : s.room r = s.room_list[r] := Server.room_eq hr
  obtain ⟨hlow, hhigh⟩ := ht.range (s.room r).ID
    (hget ▸ List.mem_map_of_mem (List.getElem_mem hr))
  unfold DEFAULT_ROOM at hlow
  exact decInt_eq (by omega) (by omega)

/-- The room's number is printed with `%d`, so that the rooms have to be fewer than `2 ^ 31`. -/
theorem changeRoom_from (ht : s.Table) (hint : s.numRooms ≤ 2 ^ 31)
    (h : ops.run (changeRoom env p fd (words p.buf)) s = .ok ((), s', es)) :
    From (changeRoomTexts p s) es := by
  rw [run_changeRoom] at h
  unfold changeRoomTexts
  rcases hr : LinkedList.Rget_roomFID s.room_list (atoi (arg (words p.buf) 1)) with _ | r
  · rw [hr] at h
    cases h
    exact from_nil
  rw [hr] at h
  dsimp only at h ⊢
  rcases ha : LinkedList.get_user s.heap (s.members r) p.username with _ | a
  · rw [ha] at h
    cases h
  rw [ha] at h
  dsimp only at h ⊢
  rcases hr' : LinkedList.Rget_roomFNAME s.room_list (arg (words p.buf) 0) with _ | r'
  · rw [hr'] at h
    cases h
  rw [hr'] at h
  dsimp only at h ⊢
  obtain ⟨es₁, hmoved, rfl⟩ := Outcome.prepend_eq_ok h
  obtain ⟨q, es₃, hq, hjoined, rfl⟩ := announce_then_eq_ok hmoved
  obtain ⟨q', hq', rfl, rfl⟩ := announce_eq_ok hjoined
  obtain ⟨room, hroom, -⟩ := LinkedList.Rget_roomFNAME_some hr'
  rw [decInt_ID ht (List.getElem?_eq_some_iff.mp hroom).1 (Int.le_refl _) hint]
  refine from_append.mpr ⟨from_cons.mpr ⟨from_serverPacket List.mem_cons_self, from_nil⟩,
    from_append.mpr ⟨from_relay ?_, from_relay ?_⟩⟩
  · exact List.mem_cons_of_mem _ List.mem_cons_self
  · exact List.mem_cons_of_mem _ (List.mem_cons_of_mem _ List.mem_cons_self)

/-- The room that `join` opens has a number within the range as well. -/
theorem join_from (ht : s.Table) (hint : s.Ints)
    (h : ops.run (join env p fd) s = .ok ((), s', es)) : From (joinTexts env p s) es := by
  rw [run_join] at h
  unfold joinTexts
  dsimp only
  split at h
  · cases h
  rename_i h15
  rw [if_neg h15]
  split at h
  · rename_i h1
    cases h
    rw [if_pos h1]
    exact from_one
  rename_i h1
  rw [if_neg h1]
  split at h
  · rename_i hname
    cases h
    rw [if_pos hname]
    refine from_append.mpr ⟨from_nameReply.mono fun t ht => List.mem_append_left _ ht, ?_⟩
    exact from_one.mono fun t ht => List.mem_append_right _ ht
  rename_i hname
  rw [if_neg hname]
  have hlen : (arg (words p.buf) 0).length ≤ ROOMNAME_LENGTH :=
    (acceptsName_iff.mp (by simpa using hname)).2.2
  have hnum : (s.openRoom env.fd (arg (words p.buf) 0)).numRooms ≤ 2 ^ 31 := by
    have hlt := hint.numRooms
    rcases Server.openRoom_cases env.fd ht hlen with ⟨heq, -⟩ | ⟨-, heq⟩
    · rw [heq]
      exact Int.le_of_lt hlt
    · rw [heq]
      exact hlt
  obtain ⟨es', hrun, rfl⟩ := Outcome.prepend_eq_ok h
  exact from_append.mpr ⟨from_openEffects,
    changeRoom_from (Server.openRoom_table env.fd ht hlen) hnum hrun⟩

theorem leave_from (ht : s.Table) (hint : s.Ints)
    (h : ops.run (leave env p fd) s = .ok ((), s', es)) : From (leaveTexts env p s) es := by
  rw [run_leave] at h
  unfold leaveTexts
  split at h
  · cases h
  rename_i h15
  split at h
  · cases h
    exact from_nil
  rename_i h1
  rw [if_neg (not_or.mpr ⟨h15, h1⟩)]
  rcases hr : LinkedList.Rget_roomFID s.room_list (atoi (arg (words p.buf) 1)) with _ | r
  · rw [hr] at h
    cases h
    exact from_nil
  rw [hr] at h
  dsimp only at h ⊢
  rcases ha : LinkedList.get_user s.heap (s.members r) p.username with _ | a
  · rw [ha] at h
    cases h
    exact from_nil
  rw [ha] at h
  dsimp only at h ⊢
  rcases hd : LinkedList.Rget_roomFID s.room_list DEFAULT_ROOM with _ | d
  · rw [hd] at h
    cases h
  rw [hd] at h
  dsimp only at h ⊢
  obtain ⟨q, es₂, hq, hann, rfl⟩ := announce_then_eq_ok h
  obtain ⟨es₃, hjoined, rfl⟩ := Outcome.prepend_eq_ok hann
  obtain ⟨d', hd', rfl, rfl⟩ := announce_eq_ok hjoined
  have hroom : ((s.move a r d 1000).room d).ID = (s.room d).ID ∧
      ((s.move a r d 1000).room d).name = (s.room d).name := by
    have hsame := SameRooms.move s a r d 1000
    exact ⟨Server.room_congr (hsame.map fun _ _ => rfl) d,
      Server.room_congr (hsame.map fun _ _ => rfl) d⟩
  rw [decInt_ID ht (Rget_roomFID_lt hd) (Int.le_refl _) (Int.le_of_lt hint.numRooms), hroom.1,
    hroom.2]
  refine from_append.mpr ⟨from_relay List.mem_cons_self, from_append.mpr
    ⟨from_cons.mpr ⟨from_serverPacket ?_, from_nil⟩, from_relay ?_⟩⟩
  · exact List.mem_cons_of_mem _ List.mem_cons_self
  · exact List.mem_cons_of_mem _ (List.mem_cons_of_mem _ List.mem_cons_self)

/-- The notice to the room and the last word to the user. -/
theorem exit_from (h : ops.run (exit_client env p fd) s = .ok ((), s', es)) :
    From (exitTexts p s) es := by
  rw [run_exit_client] at h
  unfold exitTexts
  rcases ha : LinkedList.get_user s.heap s.active_users_list p.username with _ | a
  · rw [ha] at h
    cases h
    exact from_nil
  rw [ha] at h
  dsimp only at h ⊢
  rcases hr : LinkedList.Rget_roomFID s.room_list (s.heap a).roomID with _ | r
  · rw [hr] at h
    cases h
  rw [hr] at h
  cases h
  refine from_append.mpr ⟨from_relay List.mem_cons_self, from_cons.mpr
    ⟨from_serverPacket ?_, from_cons.mpr ⟨trivial, from_nil⟩⟩⟩
  exact List.mem_cons_of_mem _ List.mem_cons_self

theorem userLines_from {l : List Addr} : From (userTexts s l) (userLines env s options fd l) := by
  intro e he
  obtain ⟨a, ha, rfl⟩ := List.mem_map.mp he
  exact from_serverPacket (List.mem_map_of_mem ha)

theorem active_users_from (hint : s.Ints)
    (h : ops.run (get_active_users env fd) s = .ok ((), s', es)) :
    From (activeUsersTexts s) es := by
  rw [run_get_active_users] at h
  cases h
  have hnum := hint.active
  rw [activeUsersTexts, decInt_eq (by omega) (by omega)]
  exact from_cons.mpr ⟨from_serverPacket List.mem_cons_self,
    userLines_from.mono fun t ht => List.mem_cons_of_mem _ ht⟩

theorem room_users_from (hint : s.Ints)
    (h : ops.run (get_room_users env p fd) s = .ok ((), s', es)) :
    From (roomUsersTexts p s) es := by
  rw [run_get_room_users] at h
  unfold roomUsersTexts
  rcases ha : LinkedList.get_user s.heap s.active_users_list p.username with _ | a
  · rw [ha] at h
    cases h
    exact from_nil
  rw [ha] at h
  dsimp only at h ⊢
  rcases hr : LinkedList.Rget_roomFID s.room_list (s.heap a).roomID with _ | r
  · rw [hr] at h
    cases h
    exact from_nil
  rw [hr] at h
  cases h
  have hnum := hint.members r
  dsimp only
  rw [decInt_eq (by omega) (by omega)]
  exact from_cons.mpr ⟨from_serverPacket List.mem_cons_self,
    userLines_from.mono fun t ht => List.mem_cons_of_mem _ ht⟩

theorem lookup_from (h : ops.run (user_lookup env p fd) s = .ok ((), s', es)) :
    From (lookupTexts p s) es := by
  rw [run_user_lookup] at h
  unfold lookupTexts
  split at h
  · cases h
  rename_i h15
  split at h
  · cases h
    exact from_nil
  rename_i h1
  cases h
  rw [if_neg (not_or.mpr ⟨h15, h1⟩)]
  dsimp only
  split
  · exact from_one
  · exact from_cons.mpr ⟨from_serverPacket List.mem_cons_self, from_cons.mpr
      ⟨from_serverPacket (List.mem_cons_of_mem _ List.mem_cons_self), from_nil⟩⟩

theorem room_list_from (hint : s.Ints)
    (h : ops.run (get_room_list env fd) s = .ok ((), s', es)) : From (roomListTexts s) es := by
  rw [run_get_room_list] at h
  cases h
  have hnum := hint.rooms
  rw [roomListTexts, decInt_eq (by omega) (by omega)]
  refine from_cons.mpr ⟨from_serverPacket List.mem_cons_self, fun e he => ?_⟩
  obtain ⟨room, hroom, rfl⟩ := List.mem_map.mp he
  exact from_serverPacket (List.mem_cons_of_mem _ (List.mem_map_of_mem hroom))

/-- The texts of a request are those of the handler that is called for it. -/
theorem request_from (ht : s.Table) (hint : s.Ints)
    (h : ops.run (receiveRequest sha256 env p fd) s = .ok ((), s', es)) :
    From (requestTexts sha256 env p s) es := by
  have herror {error : Str} (h : ops.run (sendError env error fd) s = .ok ((), s', es)) :
      From [error] es := by
    rw [run_sendError] at h
    cases h
    exact from_one
  unfold receiveRequest at h
  unfold requestTexts
  refine ops.run_ite_both (From · es) h (fun _ h => herror h) fun _ h => ?_
  refine ops.run_ite_both (From · es) h (fun _ h => set_pass_from h) fun _ h => ?_
  refine ops.run_ite_both (From · es) h (fun _ h => set_name_from h) fun _ h => ?_
  refine ops.run_ite_both (From · es) h (fun _ h => herror h) fun _ h => ?_
  refine ops.run_ite_both (From · es) h (fun _ h => invite_from h) fun _ h => ?_
  refine ops.run_ite_both (From · es) h (fun _ h => join_from ht hint h) fun _ h => ?_
  refine ops.run_ite_both (From · es) h (fun _ h => leave_from ht hint h) fun _ h => ?_
  refine ops.run_ite_both (From · es) h (fun _ h => active_users_from hint h) fun _ h => ?_
  refine ops.run_ite_both (From · es) h (fun _ h => room_users_from hint h) fun _ h => ?_
  refine ops.run_ite_both (From · es) h (fun _ h => lookup_from h) fun _ h => ?_
  refine ops.run_ite_both (From · es) h (fun _ h => room_list_from hint h) fun _ h => ?_
  refine ops.run_ite_both (From · es) h (fun _ h => ?_) fun _ h => ?_
  · rw [run_sendMOTD] at h
    cases h
    exact from_cons.mpr ⟨.inl List.mem_cons_self, from_nil⟩
  · cases h
    exact from_nil

/-- **What a packet makes the server send and log has a text from the list.** -/
theorem received_from (ht : s.Table) (hint : s.Ints) {session : Option Str} {next : Next}
    (h : ops.run (client_receive sha256 env session p fd) s = .ok (next, s', es)) :
    From (composedTexts sha256 env p fd s session) es := by
  cases session with
  | none =>
    rw [client_receive, receiveAnonymous] at h
    rw [composedTexts]
    refine ops.run_ite_both (From · es) h (fun _ h => ?_) fun _ h => ?_
    · obtain ⟨_, hrun, -⟩ := ops.run_bind_pure_eq h
      exact register_from hrun
    refine ops.run_ite_both (From · es) h (fun _ h => ?_) fun _ h => ?_
    · obtain ⟨_, hrun, -⟩ := ops.run_bind_pure_eq h
      exact login_from hrun
    refine ops.run_ite_both (From · es) h (fun _ h => ?_) fun _ h => ?_
    · cases h
      exact from_cons.mpr ⟨trivial, from_nil⟩
    · cases h
      exact from_one
  | some name =>
    rw [composedTexts]
    by_cases hchat : 1000 ≤ p.options
    · rw [if_pos hchat]
      rw [run_chat name hchat] at h
      split at h
      · cases h
      split at h
      · cases h
        exact from_relay (List.mem_singleton.mpr (sanitizeInput_eq_map p.buf).symm)
      · cases h
    rw [if_neg hchat]
    rw [client_receive, receiveSession, if_pos (Int.not_le.mp hchat)] at h
    refine ops.run_ite_both (From · es) h (fun _ h => ?_) fun _ h => ?_
    · obtain ⟨_, hrun, -⟩ := ops.run_bind_pure_eq h
      exact exit_from hrun
    · obtain ⟨_, hrun, -⟩ := ops.run_bind_pure_eq h
      exact request_from ht hint hrun

end Sending

/-! ## Their lengths -/

/-- The names in the state are as long as their arrays allow. -/
structure Server.Short (s : Server) : Prop where
  username : ∀ a ∈ s.registered_users_list, (s.heap a).username.length ≤ 63
  real_name : ∀ a ∈ s.registered_users_list, (s.heap a).real_name.length ≤ 63
  room : ∀ room ∈ s.room_list, room.name.length ≤ 16

/-- The texts fit into `buf[128]`. -/
def Fit (ts : List Str) : Prop := ∀ t ∈ ts, t.length ≤ 127

section Lengths
variable {ts ts' : List Str} {t u v : Str} {text : String}

@[simp] theorem fit_nil : Fit [] := fun _ h => nomatch h

@[simp] theorem fit_cons : Fit (t :: ts) ↔ t.length ≤ 127 ∧ Fit ts := List.forall_mem_cons

@[simp] theorem fit_append : Fit (ts ++ ts') ↔ Fit ts ∧ Fit ts' := List.forall_mem_append

/-- Both branches have to fit, each where it is taken. -/
theorem fit_ite {c : Prop} [Decidable c] (h : c → Fit ts) (h' : ¬ c → Fit ts') :
    Fit (if c then ts else ts') := by
  split
  · exact h ‹c›
  · exact h' ‹¬ c›

/-- A fixed text is short. -/
theorem length_text (h : text ∈ serverTexts) : (str text).length ≤ 62 := by
  have hall : serverTexts.all (fun text => decide ((str text).length ≤ 62)) = true := by
    decide +kernel
  exact of_decide_eq_true (List.all_eq_true.mp hall text h)

theorem fit_text (h : text ∈ serverTexts) : Fit [str text] :=
  fit_cons.mpr ⟨Nat.le_trans (length_text h) (by decide), fit_nil⟩

/-- Each of the three answers is a fixed phrase. -/
theorem fit_nameTexts {invalid short long : String} {limit : Nat} {name : Str}
    (h : invalid ∈ serverTexts ∧ short ∈ serverTexts ∧ long ∈ serverTexts) :
    Fit (nameTexts invalid short long limit name) := by
  unfold nameTexts
  split
  · exact fit_text h.1
  split
  · exact fit_text h.2.1
  split
  · exact fit_text h.2.2
  · exact fit_nil

theorem fit_passwordTexts {pass1 pass2 : Str} : Fit (passwordTexts pass1 pass2) := by
  unfold passwordTexts
  split
  · exact fit_text (by simp [serverTexts])
  split
  · exact fit_text (by simp [serverTexts])
  split
  · exact fit_text (by simp [serverTexts])
  · exact fit_nil

/-- An `int` has at most ten digits and a sign. -/
theorem length_decInt (n : Int) : (decInt n).length ≤ 11 := by
  have hsmall : (wrap32 n).natAbs < 10 ^ 10 := by
    unfold wrap32
    omega
  have hdigits := (Nat.length_toDigits_le_iff (b := 10) (by decide) (by decide)).mpr hsmall
  unfold decInt dec
  dsimp only
  split
  · rw [List.length_cons, List.length_map]
    omega
  · rw [List.length_map]
    omega

end Lengths
end TBDChat
