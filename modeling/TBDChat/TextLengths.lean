import TBDChat.CommandArgs
import TBDChat.ComposedTexts

/-!
# Which texts fit into a packet

The names in the state and the words of a request are bounded, and with them almost all
texts.  Three are not: the notice of a new name has two real names in it, and the replies to
an INVITE that fails and to a lookup that fails repeat a word of the request.
-/

namespace TBDChat
open Atomic Bytes

set_option maxRecDepth 8000

variable {sha256 : Str → Digest} {env : Env} {p : Packet} {fd : Int} {s : Server}

/-! ## Names -/

section Names
variable {a : Addr} {r : RoomRef}

/-- An active user is registered, and has the names of a registered user. -/
theorem Server.Short.active (hs : s.Short) (hi : s.Housed) (ha : a ∈ s.active_users_list) :
    (s.heap a).username.length ≤ 63 ∧ (s.heap a).real_name.length ≤ 63 :=
  ⟨hs.username a (hi.known a ha), hs.real_name a (hi.known a ha)⟩

theorem Server.Short.member (hs : s.Short) (hi : s.Housed) (hr : r < s.room_list.length)
    (ha : a ∈ s.members r) : (s.heap a).username.length ≤ 63 ∧ (s.heap a).real_name.length ≤ 63 :=
  hs.active hi ((hi.member r hr a).mp ha).1

theorem Server.Short.room_name (hs : s.Short) (hr : r < s.room_list.length) :
    (s.room r).name.length ≤ 16 := by
  rw [Server.room_eq hr]
  exact hs.room _ (List.getElem_mem hr)

theorem Server.Short.Rget_name (hs : s.Short) (ID : Int) :
    (LinkedList.Rget_name s.room_list ID).length ≤ 16 := by
  unfold LinkedList.Rget_name
  split
  · rename_i room hfind
    exact hs.room room (List.mem_of_find?_eq_some hfind)
  · decide

/-- A change that leaves the arrays of a record alone leaves a short real name. -/
theorem real_name_length {u v : User} (h : u.chars = v.chars) (hv : v.real_name.length ≤ 63) :
    u.real_name.length ≤ 63 := by
  rw [User.real_name_of_chars h (by omega)]
  exact hv

theorem strncpy64_length {src rest : Str} (h : src.length ≤ 63) :
    (strncpy64 src rest).length ≤ 63 := by
  rw [strncpy64, if_pos (by omega)]
  exact h

/-- The real name of a user who goes to another room. -/
theorem moved_length (hs : s.Short) (hi : s.Housed) (hr : r < s.room_list.length)
    (ha : a ∈ s.members r) (r' : RoomRef) (ID : Int) (rest : Str) :
    (strncpy64 ((s.move a r r' ID).heap a).real_name rest).length ≤ 63 :=
  strncpy64_length (real_name_length
    (s.move_congr (g := User.chars) (fun _ _ => rfl) a r r' ID a) (hs.member hi hr ha).2)

end Names

/-! ## Handler by handler -/

section Handlers

/-- A real name of 63 characters and " has joined the lobby." are 85 characters. -/
theorem login_fit
    (h : ∀ a, s.account (arg (words p.buf) 1) = some a → (s.heap a).real_name.length ≤ 63) :
    Fit (loginTexts sha256 p fd s) := by
  unfold loginTexts
  split
  · exact fit_nil
  split
  · exact fit_text (by simp [serverTexts])
  rename_i a ha
  split
  · exact fit_text (by simp [serverTexts])
  split
  · exact fit_text (by simp [serverTexts])
  split
  · exact fit_nil
  rename_i r hr
  have hname := real_name_length
    (s.signIn_congr (g := User.chars) (fun _ _ => rfl) (fun _ _ => rfl) a fd r a) (h a ha)
  have hphrase : (str " has joined the lobby.").length = 22 := by decide
  rw [fit_cons, List.length_append, hphrase]
  exact ⟨by omega, fit_cons.mpr ⟨by decide, fit_nil⟩⟩

theorem account_length (hs : s.Short) {user : Str} {a : Addr} (ha : s.account user = some a) :
    (s.heap a).real_name.length ≤ 63 :=
  hs.real_name a (LinkedList.get_user_some (Server.account_some ha)).1

/-- The login command is formed of an accepted name and an accepted password. -/
theorem relogin_length (hname : acceptsName USERNAME_LENGTH (arg (words p.buf) 1) = true)
    (hpass : acceptsPassword (arg (words p.buf) 2) (arg (words p.buf) 3) = true) :
    (relogin p).buf.length ≤ 127 := by
  have hlen : (arg (words p.buf) 1).length ≤ 64 := (acceptsName_iff.mp hname).2.2
  simp only [acceptsPassword, Bool.and_eq_true, decide_eq_true_eq] at hpass
  have hphrase : (str "/login").length = 6 := by decide
  simp only [relogin, List.length_append, List.length_cons, hphrase]
  omega

/-- Only accepted words get into a text, and the new user's real name is the username. -/
theorem register_fit (hi : s.Housed) (hopt : p.options = REGISTER) :
    Fit (registerTexts sha256 env p fd s) := by
  unfold registerTexts
  split
  · exact fit_nil
  rename_i hw
  split
  · exact fit_nameTexts ⟨by simp [serverTexts], by simp [serverTexts], by simp [serverTexts]⟩
  rename_i hname
  split
  · exact fit_text (by simp [serverTexts])
  rename_i hfree
  split
  · exact fit_passwordTexts
  rename_i hpass
  obtain ⟨hfree, hserver, -⟩ := by simpa only [not_or, not_not] using hfree
  have hreg : Registers p s :=
    ⟨hopt, by omega, by simpa using hname, hfree, hserver, by simpa using hpass⟩
  refine fit_cons.mpr ⟨relogin_length hreg.name hreg.pass, login_fit fun a ha => ?_⟩
  -- the login finds the new record if its name is short, and nobody else
  have hwords : arg (words (relogin p).buf) 1 = loginName p := by
    rw [words_relogin]
    rfl
  have haccount : (s.enrol (newcomer sha256 env p fd)).account (loginName p) = _ :=
    account_enrol hi hreg
  rw [hwords] at ha
  rw [show newUser sha256 env _ _ fd = newcomer sha256 env p fd from rfl, haccount] at ha
  split at ha
  · rename_i hcond
    cases ha
    have hnew : (s.enrol (newcomer sha256 env p fd)).heap s.fresh = newcomer sha256 env p fd :=
      s.enrol_heap_new _
    show ((s.enrol (newcomer sha256 env p fd)).heap s.fresh).real_name.length ≤ 63
    rw [hnew, (newcomer_names (zero_not_mem_name hreg.name) hcond.2.1).2]
    omega
  · cases ha

theorem set_pass_fit (hp : p.Wf) : Fit (setPassTexts sha256 p s) := by
  unfold setPassTexts
  split
  · exact fit_nil
  split
  · exact fit_text (by simp [serverTexts])
  split
  · exact fit_passwordTexts
  split
  · exact fit_text (by simp [serverTexts])
  split
  · exact fit_text (by simp [serverTexts])
  · exact fit_cons.mpr ⟨hp.buf.1, fit_nil⟩

/-- The real name as it reads after a SETNAME of the user at `a`. -/
def newName (env : Env) (s : Server) (a : Addr) (buf : Str) : Str :=
  if (localName env buf).length < 64 then localName env buf
  else localName env buf ++ cstr ((s.heap a).mem.drop 128)

/-- The two names leave room for the phrase between them. -/
def RenameFits (env : Env) (s : Server) (p : Packet) : Prop :=
  acceptsName REALNAME_LENGTH (localName env p.buf) = true →
    ∀ a, LinkedList.get_user s.heap s.registered_users_list p.username = some a →
      (s.heap a).real_name.length + (newName env s a p.buf).length ≤ 110

/-- Two names and a phrase of 17 characters have to share 127. -/
theorem set_name_fit_iff (hs : s.Short) : Fit (setNameTexts env p s) ↔ RenameFits env s p := by
  unfold setNameTexts RenameFits
  split
  · rename_i hname
    refine iff_of_true
      (fit_nameTexts ⟨by simp [serverTexts], by simp [serverTexts], by simp [serverTexts]⟩) ?_
    intro hname'
    rw [hname] at hname'
    cases hname'
  rename_i hname
  have hname : acceptsName REALNAME_LENGTH (localName env p.buf) = true := by simpa using hname
  have hlen : (localName env p.buf).length ≤ 64 := (acceptsName_iff.mp hname).2.2
  rw [imp_iff_right hname]
  split
  · rename_i hnone
    refine iff_of_true (fit_text (by simp [serverTexts])) fun a ha => ?_
    rw [hnone] at ha
    cases ha
  rename_i a ha
  have hold := hs.real_name a (LinkedList.get_user_some ha).1
  have hnew : ((s.rename a (localName env p.buf)).heap a).real_name = newName env s a p.buf := by
    rw [newName, ← User.real_name_rename (zero_not_mem_name hname) hlen (s.heap a)]
    simp [Server.rename, Server.writeUserFile]
  have hphrase : (str " is now known as ").length = 17 := by decide
  have hnext : Fit (if (LinkedList.Rget_roomFID s.room_list (s.heap a).roomID).isSome then
      [localName env p.buf] else []) := by
    split
    · exact fit_cons.mpr ⟨by omega, fit_nil⟩
    · exact fit_nil
  rw [fit_cons, and_iff_left hnext, hnew, strncpy64, if_pos (by omega), List.length_append,
    List.length_append, hphrase]
  constructor
  · intro h b hb
    obtain rfl := Option.some.inj (ha.symm.trans hb)
    omega
  · intro h
    have hfit := h a ha
    omega

/-- The phrases around the word have 36 characters. -/
theorem invite_fit_iff (hs : s.Short) (hi : s.Housed) (hp : p.Wf) : Fit (inviteTexts p s) ↔
    ((words p.buf).length ≤ 15 → (arg (words p.buf) 0).length ≤ 91) := by
  have hfailed : Fit [str "An invitation could not be sent to " ++ arg (words p.buf) 0 ++ str "."] ↔
      (arg (words p.buf) 0).length ≤ 91 := by
    have hphrase : (str "An invitation could not be sent to ").length = 35 ∧
        (str ".").length = 1 := by decide
    rw [fit_cons, and_iff_left fit_nil, List.length_append, List.length_append, hphrase.1,
      hphrase.2]
    omega
  unfold inviteTexts
  split
  · rename_i hw
    exact iff_of_true fit_nil fun h => absurd hw (Nat.not_lt_of_le h)
  rename_i hw
  rw [imp_iff_right (Nat.le_of_not_lt hw)]
  dsimp only
  split
  · exact hfailed
  split
  · rename_i r a hr ha
    -- the word is the name of a user, and those are short
    obtain ⟨hmem, hname⟩ := LinkedList.get_user_some ha
    have hword := (hs.active hi hmem).1
    have hroom := hs.Rget_name (atoi (arg (words p.buf) 1))
    have hreal := hp.realname.1
    have hphrase : (str " has invited you to join ").length = 25 := by decide
    rw [hname] at hword
    refine iff_of_true ?_ (by omega)
    rw [fit_cons, List.length_append, List.length_append, hphrase]
    exact ⟨by omega, fit_cons.mpr ⟨Nat.zero_le _, fit_nil⟩⟩
  · exact hfailed

/-- A room's name has at most 16 characters, a number at most 11. -/
theorem join_fit (hs : s.Short) (hi : s.Housed) : Fit (joinTexts env p s) := by
  have hunable : Fit [str "We were unable to put you in that room, sorry."] :=
    fit_text (by simp [serverTexts])
  unfold joinTexts
  dsimp only
  split
  · exact fit_nil
  split
  · exact hunable
  split
  · exact fit_append.mpr ⟨fit_nameTexts
      ⟨by simp [serverTexts], by simp [serverTexts], by simp [serverTexts]⟩, hunable⟩
  rename_i hname
  have hname : acceptsName ROOMNAME_LENGTH (arg (words p.buf) 0) = true := by simpa using hname
  have hlen : (arg (words p.buf) 0).length ≤ 16 := (acceptsName_iff.mp hname).2.2
  have hi₁ : (s.openRoom env.fd (arg (words p.buf) 0)).Housed := hi.openRoom hlen
  have hs₁ : (s.openRoom env.fd (arg (words p.buf) 0)).Short := by
    rcases Server.openRoom_cases env.fd hi.table hlen with ⟨h, -⟩ | ⟨-, h⟩
    · rwa [h]
    · rw [h]
      refine ⟨hs.username, hs.real_name, fun room hroom => ?_⟩
      rcases List.mem_append.mp hroom with hroom | hroom
      · exact hs.room room hroom
      · rw [List.mem_singleton.mp hroom]
        exact hlen
  generalize s.openRoom env.fd (arg (words p.buf) 0) = s₁ at hi₁ hs₁
  unfold changeRoomTexts
  split
  · exact fit_nil
  rename_i r hr
  split
  · exact fit_nil
  rename_i a ha
  split
  · exact fit_nil
  rename_i r' hr'
  have hnum := length_decInt (s₁.room r').ID
  have hmoved := moved_length hs₁ hi₁ (Rget_roomFID_lt hr) (LinkedList.get_user_some ha).1 r'
    (s₁.room r').ID []
  have hphrase : (str " ").length = 1 ∧ (str " has left the room.").length = 19 ∧
      (str " has joined the room.").length = 21 := by decide
  simp only [fit_cons, List.length_append, hphrase]
  exact ⟨by omega, by omega, by omega, fit_nil⟩

/-- The Lobby's name and number are in the reply, the real name in the two notices. -/
theorem leave_fit (hs : s.Short) (hi : s.Housed) : Fit (leaveTexts env p s) := by
  unfold leaveTexts
  split
  · exact fit_nil
  split
  · exact fit_nil
  rename_i r hr
  split
  · exact fit_nil
  rename_i a ha
  split
  · exact fit_nil
  rename_i d hd
  have hnum := length_decInt (s.room d).ID
  have hroom := hs.room_name (Rget_roomFID_lt hd)
  have hmoved := moved_length hs hi (Rget_roomFID_lt hr) (LinkedList.get_user_some ha).1 d 1000
  have hleft := hmoved (env.ret.buf.drop 64)
  have hjoined := hmoved []
  have hphrase : (str " ").length = 1 ∧ (str " has left the room.").length = 19 ∧
      (str " has joined the room.").length = 21 := by decide
  simp only [fit_cons, List.length_append, hphrase]
  exact ⟨by omega, by omega, by omega, fit_nil⟩

/-- The real name in the packet is bounded by its array. -/
theorem exit_fit (hp : p.Wf) : Fit (exitTexts p s) := by
  unfold exitTexts
  split
  · exact fit_nil
  have hreal := hp.realname.1
  have hphrase : (str "User ").length = 5 ∧ (str " has disconnected.").length = 18 := by decide
  rw [fit_cons, List.length_append, List.length_append, hphrase.1, hphrase.2]
  refine ⟨by omega, ?_⟩
  split
  · exact fit_text (by simp [serverTexts])
  · exact fit_nil

/-- A line with two short names fills the array and no more. -/
theorem users_fit {l : List Addr} (h : ∀ a ∈ l, (s.heap a).username.length ≤ 63 ∧
    (s.heap a).real_name.length ≤ 63) : Fit (userTexts s l) := by
  intro t ht
  obtain ⟨a, ha, rfl⟩ := List.mem_map.mp ht
  obtain ⟨huser, hreal⟩ := h a ha
  have hphrase : (str "-").length = 1 := by decide
  rw [List.length_append, List.length_append, hphrase]
  omega

theorem active_users_fit (hs : s.Short) (hi : s.Housed) : Fit (activeUsersTexts s) := by
  have hnum := length_decInt s.active_users_list.length
  have hphrase : (str " users online").length = 13 := by decide
  rw [activeUsersTexts, fit_cons, List.length_append, hphrase]
  exact ⟨by omega, users_fit fun a ha => hs.active hi ha⟩

/-- Two names and the dash are 127 characters at most. -/
theorem room_users_fit (hs : s.Short) (hi : s.Housed) : Fit (roomUsersTexts p s) := by
  unfold roomUsersTexts
  split
  · exact fit_nil
  rename_i a ha
  split
  · exact fit_nil
  rename_i r hr
  have hlt := Rget_roomFID_lt hr
  have hnum := length_decInt (s.members r).length
  have hroom := hs.room_name hlt
  have hphrase : (str " users in ").length = 10 := by decide
  rw [fit_cons, List.length_append, List.length_append, hphrase]
  exact ⟨by omega, users_fit fun b hb => hs.member hi hlt hb⟩

/-- " not found." has 11 characters. -/
theorem lookup_fit_iff (hs : s.Short) (hi : s.Housed) : Fit (lookupTexts p s) ↔
    (1 < (words p.buf).length → (words p.buf).length ≤ 15 →
      (arg (words p.buf) 1).length ≤ 116) := by
  unfold lookupTexts
  split
  · rename_i hw
    exact iff_of_true fit_nil fun h1 h15 => by omega
  rename_i hw
  rw [imp_iff_right (by omega), imp_iff_right (by omega)]
  dsimp only
  split
  · have hphrase : (str " not found.").length = 11 := by decide
    rw [fit_cons, and_iff_left fit_nil, List.length_append, hphrase]
    omega
  rename_i hfound
  -- the word is the name of a user
  cases ha : LinkedList.get_user s.heap s.active_users_list (arg (words p.buf) 1) with
  | none =>
    refine absurd ?_ hfound
    rw [LinkedList.get_real_name, ha]
  | some a =>
    obtain ⟨hmem, hname⟩ := LinkedList.get_user_some ha
    obtain ⟨hword, hreal⟩ := hs.active hi hmem
    have hlookup : LinkedList.get_real_name s.heap s.active_users_list (arg (words p.buf) 1) =
        (s.heap a).real_name := by rw [LinkedList.get_real_name, ha]
    have hphrase : (str "-").length = 1 := by decide
    rw [hname] at hword
    refine iff_of_true ?_ (by omega)
    rw [fit_cons, fit_cons, List.length_append, List.length_append, hphrase, hlookup]
    exact ⟨by decide, by omega, fit_nil⟩

theorem room_list_fit (hs : s.Short) : Fit (roomListTexts s) := by
  have hnum := length_decInt s.room_list.length
  have hphrase : (str " Rooms Found").length = 12 := by decide
  rw [roomListTexts, fit_cons, List.length_append, hphrase]
  refine ⟨by omega, fun t ht => ?_⟩
  obtain ⟨room, hroom, rfl⟩ := List.mem_map.mp ht
  exact Nat.le_trans (hs.room room hroom) (by decide)

end Handlers

/-! ## Any packet -/

/-- Where the three texts that are not bounded fit. -/
structure TextsFit (env : Env) (p : Packet) (s : Server) (session : Option Str) : Prop where
  rename : session.isSome → p.options = SETNAME → RenameFits env s p
  invite : session.isSome → p.options = INVITE → (words p.buf).length ≤ 15 →
    (arg (words p.buf) 0).length ≤ 91
  lookup : session.isSome → p.options = GETUSER → 1 < (words p.buf).length →
    (words p.buf).length ≤ 15 → (arg (words p.buf) 1).length ≤ 116

/-- Handler by handler, only three can compose a text that is too long. -/
theorem composed_fit_iff {w : World} {session : Option Str} (hw : Reachable sha256 w)
    (hs : w.server.Short) (hp : p.Wf) :
    Fit (composedTexts sha256 env p fd w.server session) ↔ TextsFit env p w.server session := by
  have hi := hw.housed
  cases session with
  | none =>
    refine iff_of_true ?_ ⟨by simp, by simp, by simp⟩
    rw [composedTexts]
    exact fit_ite (fun hopt => register_fit hi hopt) fun _ =>
      fit_ite (fun _ => login_fit fun a ha => account_length hs ha) fun _ =>
      fit_ite (fun _ => fit_nil) fun _ => fit_text (by simp [serverTexts])
  | some name =>
    by_cases hname : p.options = SETNAME
    · have htexts : composedTexts sha256 env p fd w.server (some name) =
          setNameTexts env p w.server := by
        simp [composedTexts, requestTexts, hname, SETNAME, EXIT, REGISTER, SETPASS]
      rw [htexts, set_name_fit_iff hs]
      refine ⟨fun h => ⟨fun _ _ => h, fun _ hopt => ?_, fun _ hopt => ?_⟩,
        fun h => h.rename rfl hname⟩
      · exact absurd (hname.symm.trans hopt) (by decide)
      · exact absurd (hname.symm.trans hopt) (by decide)
    by_cases hinvite : p.options = INVITE
    · have htexts : composedTexts sha256 env p fd w.server (some name) =
          inviteTexts p w.server := by
        simp [composedTexts, requestTexts, hinvite, INVITE, SETNAME, EXIT, REGISTER, SETPASS, LOGIN]
      rw [htexts, invite_fit_iff hs hi hp]
      refine ⟨fun h => ⟨fun _ hopt => absurd hopt hname, fun _ _ => h, fun _ hopt => ?_⟩,
        fun h => h.invite rfl hinvite⟩
      exact absurd (hinvite.symm.trans hopt) (by decide)
    by_cases hlookup : p.options = GETUSER
    · have htexts : composedTexts sha256 env p fd w.server (some name) =
          lookupTexts p w.server := by
        simp [composedTexts, requestTexts, hlookup, INVITE, SETNAME, EXIT, REGISTER, SETPASS,
          LOGIN, JOIN, LEAVE, GETALLUSERS, GETUSERS, GETUSER]
      rw [htexts, lookup_fit_iff hs hi]
      exact ⟨fun h => ⟨fun _ hopt => absurd hopt hname, fun _ hopt => absurd hopt hinvite,
        fun _ _ => h⟩, fun h => h.lookup rfl hlookup⟩
    refine iff_of_true ?_ ⟨fun _ hopt => absurd hopt hname, fun _ hopt => absurd hopt hinvite,
      fun _ hopt => absurd hopt hlookup⟩
    have hfixed {text : String} (h : text ∈ serverTexts) : Fit [str text] := fit_text h
    rw [composedTexts, requestTexts, if_neg hname, if_neg hinvite, if_neg hlookup]
    refine fit_ite (fun _ => ?_) fun _ => fit_ite (fun _ => exit_fit hp) fun _ =>
      fit_ite (fun _ => hfixed (by simp [serverTexts])) fun _ =>
      fit_ite (fun _ => set_pass_fit hp) fun _ =>
      fit_ite (fun _ => hfixed (by simp [serverTexts])) fun _ =>
      fit_ite (fun _ => join_fit hs hi) fun _ => fit_ite (fun _ => leave_fit hs hi) fun _ =>
      fit_ite (fun _ => active_users_fit hs hi) fun _ =>
      fit_ite (fun _ => room_users_fit hs hi) fun _ =>
      fit_ite (fun _ => room_list_fit hs) fun _ => fit_ite (fun _ => ?_) fun _ => fit_nil
    · -- sanitizing a text leaves its length as it is
      rw [sanitizeInput_eq_map, fit_cons, List.length_map]
      exact ⟨hp.buf.1, fit_nil⟩
    · exact fit_cons.mpr ⟨by decide, fit_nil⟩

/-- The handler of the packet splits its text. -/
def Packet.SplitsText (p : Packet) : Option Str → Prop
  | none => p.options = REGISTER ∨ p.options = LOGIN
  | some _ => p.options ∈ [SETPASS, INVITE, JOIN, LEAVE, GETUSER]

/-- **Where all composed texts fit**, and the pointers to the words fit into their array: the two
names of a rename notice have at most 110 characters, the first word of an INVITE at most 91 and
the second of a GETUSER at most 116, and no text that is split has more than 15 words. -/
theorem texts_fit_iff {w : World} {session : Option Str} (hw : Reachable sha256 w)
    (hs : w.server.Short) (hp : p.Wf) :
    (p.SplitsText session → KeepsToArgs p.buf) ∧
        Fit (composedTexts sha256 env p fd w.server session) ↔
      (p.SplitsText session → (words p.buf).length ≤ 15) ∧ TextsFit env p w.server session :=
  and_congr (imp_congr_right fun _ => keepsToArgs_iff p.buf) (composed_fit_iff hw hs hp)

/-- Where no name in the state is long, the texts go out as they fit. -/
theorem sent_fit {w w' : World} {es : List Effect} (hw : Reachable sha256 w) (hs : w.server.Short)
    (hint : w.server.Ints) (hstep : Step sha256 w (.packet fd p env) w' es) {session : Option Str}
    (hfd : w.conns fd = .serving session) (hfit : TextsFit env p w.server session) {d : Int}
    {q : Packet} (hsend : Effect.send d q ∈ es) (hopt : q.options ≠ LOGSUC) :
    q.buf.length ≤ 127 := by
  obtain ⟨next, hp, hrun, -⟩ := hstep.handled hfd
  have hfrom := received_from hw.table hint hrun _ hsend
  exact (composed_fit_iff hw hs hp).mpr hfit _ (hfrom.resolve_right hopt)

/-! ## Alice looks up a user -/

/-- In Alice's world all names are short. -/
theorem short_alice : (Sample.world (Sample.enter 4 "alice")).server.Short := by
  have hregistered :
      (Sample.world (Sample.enter 4 "alice")).server.registered_users_list = [0] := by decide
  refine ⟨fun a ha => ?_, fun a ha => ?_, by decide⟩
  · rw [hregistered, List.mem_singleton] at ha
    rw [ha]
    decide
  · rw [hregistered, List.mem_singleton] at ha
    rw [ha]
    decide

theorem texts_fit_lookup :
    let w := Sample.world (Sample.enter 4 "alice")
    let p : Packet := ⟨0, str "/lookup bob", str "alice", str "alice", GETUSER⟩
    KeepsToArgs p.buf ∧
      Fit (composedTexts Sample.sha256 Sample.env p 4 w.server (some (str "alice"))) := by
  intro w p
  have hword : (arg (words p.buf) 1).length ≤ 116 := by decide
  have hfit := (@texts_fit_iff Sample.sha256 Sample.env p 4 w (some (str "alice"))
    (Sample.reachable _) short_alice (by decide)).mpr
    ⟨fun _ => by decide, fun _ hopt => absurd hopt (by decide),
      fun _ hopt => absurd hopt (by decide), fun _ _ _ _ => hword⟩
  have hsplits : p.options ∈ [SETPASS, INVITE, JOIN, LEAVE, GETUSER] := by decide
  exact ⟨hfit.1 hsplits, hfit.2⟩

/-- A name of 117 characters that nobody has. -/
theorem lookup_overflows : ¬ ∀ (sha256 : Str → Digest) (env : Env) (w : World) (fd : Int)
    (p : Packet) (session : Option Str), Reachable sha256 w → w.conns fd = .serving session →
    p.Wf → w.server.Short → Fit (composedTexts sha256 env p fd w.server session) := by
  intro h
  let w := Sample.world (Sample.enter 4 "alice")
  let name : Str := List.replicate 117 97
  let p : Packet := ⟨0, str "/lookup " ++ name, str "alice", str "alice", GETUSER⟩
  have hfit := h Sample.sha256 Sample.env w 4 p (some (str "alice")) (Sample.reachable _)
    (by decide) (by decide) short_alice
  have hmem : name ++ str " not found." ∈
      composedTexts Sample.sha256 Sample.env p 4 w.server (some (str "alice")) := by decide
  exact absurd (hfit _ hmem) (by decide)

end TBDChat
