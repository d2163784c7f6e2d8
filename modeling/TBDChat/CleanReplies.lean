import TBDChat.SafeText
import TBDChat.RoomLookups
import TBDChat.StoredNames
import TBDChat.Credentials

/-!
# What each handler lets through

The text of a chat packet is sanitized and names are validated when they are set.
What else a handler sends it copies: a word or the text of the request, the real
name the packet claims, a name that is stored, or the bytes that happened to be in
its packet variable.  For each handler, this says just which of its inputs must be
safe for all that it sends and logs to be.
-/

namespace TBDChat
open Atomic Bytes

set_option maxRecDepth 8000

/-! ## What must be safe -/

section Conditions
variable (sha256 : Str → Digest) (env : Env) (s : Server) (p : Packet) (fd : Int)

/-- For a LOGIN: if it is accepted, the stored real name, as it reads with the
connection stored behind it, and the text that is left in the reply. -/
def HarmlessLogin (user pass : Str) : Prop :=
  ∀ a, s.account user = some a → (s.heap a).hash = (sha256 pass).bytes →
    LinkedList.get_user s.heap s.active_users_list user = none →
    Safe env.ret.buf ∧ Safe { s.heap a with sock := fd, roomID := 1000 }.real_name

/-- For a REGISTER: if it ends in a login, the text that is left in the reply. -/
def HarmlessRegister : Prop :=
  Registers p s → (∀ a ∈ s.registered_users_list, (s.heap a).username ≠ loginName p) →
    (loginName p).length < 64 → loginName p ≠ ERROR → Safe env.ret.buf

/-- For a SETPASS: if it changes a password, the text of the request. -/
def HarmlessSetPass : Prop := ∀ a, ChangesPassword sha256 p s a → Safe p.buf

/-- For a SETNAME: if it changes a name, the old name, and where the new one fills
its array what lies behind it. -/
def HarmlessSetName : Prop :=
  acceptsName REALNAME_LENGTH (localName env p.buf) = true →
    ∀ a, LinkedList.get_user s.heap s.registered_users_list p.username = some a →
      Safe (strncpy64 (s.heap a).real_name (env.ret.buf.drop 64)) ∧
      ((localName env p.buf).length < 64 ∨ Safe (cstr ((s.heap a).mem.drop 128)))

/-- For an INVITE: if it is passed on, the real name in the packet, and otherwise
the word for the user. -/
def HarmlessInvite : Prop :=
  if 1 < (words p.buf).length ∧ (∃ room ∈ s.room_list, room.ID = atoi (arg (words p.buf) 1)) ∧
      ∃ a ∈ s.active_users_list, (s.heap a).username = arg (words p.buf) 0 then Safe p.realname
  else Safe (arg (words p.buf) 0)

/-- For a JOIN: if it moves a user, the start of the stored real name. -/
def HarmlessJoin : Prop :=
  Joins p → ∀ a, LinkedList.get_user s.heap s.active_users_list p.username = some a →
    (s.heap a).roomID = atoi (arg (words p.buf) 1) → Safe (strncpy64 (s.heap a).real_name [])

/-- For a LEAVE: the same, and what lies behind it in the packet variable. -/
def HarmlessLeave : Prop :=
  1 < (words p.buf).length → atoi (arg (words p.buf) 1) ≠ DEFAULT_ROOM →
    ∀ a, LinkedList.get_user s.heap s.active_users_list p.username = some a →
      (s.heap a).roomID = atoi (arg (words p.buf) 1) →
      Safe (strncpy64 (s.heap a).real_name (env.ret.buf.drop 64))

/-- For a listing: the names of the users listed. -/
def HarmlessNames (l : List Addr) : Prop :=
  ∀ a ∈ l, Safe (s.heap a).username ∧ Safe (s.heap a).real_name

/-- For GETUSERS: the names of the users in the room of the user named. -/
def HarmlessRoomUsers : Prop :=
  ∀ a, LinkedList.get_user s.heap s.active_users_list p.username = some a →
    ∀ b ∈ s.active_users_list, (s.heap b).roomID = (s.heap a).roomID →
      Safe (s.heap b).username ∧ Safe (s.heap b).real_name

/-- For GETUSER: the name looked up, and the real name found. -/
def HarmlessLookup : Prop :=
  1 < (words p.buf).length → Safe (arg (words p.buf) 1) ∧
    ∀ a, LinkedList.get_user s.heap s.active_users_list (arg (words p.buf) 1) = some a →
      Safe (s.heap a).real_name

/-- For the end of a session: if it ends that of an active user, the real name in
the packet. -/
def HarmlessExit : Prop :=
  (LinkedList.get_user s.heap s.active_users_list p.username).isSome → Safe p.realname

/-- For a packet on a connection that is not logged in. -/
def HarmlessAnonymous : Prop :=
  if p.options = REGISTER then HarmlessRegister env s p
  else if p.options = LOGIN then
    2 < (words p.buf).length → HarmlessLogin sha256 env s fd (loginName p) (arg (words p.buf) 2)
  else True

/-- For a request on a connection that is logged in. -/
def HarmlessRequest : Prop :=
  if p.options = REGISTER then True
  else if p.options = SETPASS then HarmlessSetPass sha256 s p
  else if p.options = SETNAME then HarmlessSetName env s p
  else if p.options = LOGIN then True
  else if p.options = INVITE then HarmlessInvite s p
  else if p.options = JOIN then HarmlessJoin s p
  else if p.options = LEAVE then HarmlessLeave env s p
  else if p.options = GETALLUSERS then HarmlessNames s s.active_users_list
  else if p.options = GETUSERS then HarmlessRoomUsers s p
  else if p.options = GETUSER then HarmlessLookup s p
  else True

/-- For any packet: what it makes the server copy is safe. -/
def Harmless : Option Str → Prop
  | none => HarmlessAnonymous sha256 env s p fd
  | some _ =>
    if 1000 ≤ p.options then Safe p.realname
    else if p.options = EXIT ∨ p.options = 0 then HarmlessExit s p
    else HarmlessRequest sha256 env s p

end Conditions

/-! ## Handler by handler -/

variable {sha256 : Str → Digest} {env : Env} {p : Packet} {fd : Int} {s s' : Server}
  {es : List Effect} {b : Bool}

theorem clean_nameReply {invalid short long : String} {limit : Nat} {name : Str}
    (hfixed : Safe (str invalid) ∧ Safe (str short) ∧ Safe (str long)) :
    Clean (nameReply env invalid short long limit name fd) := by
  unfold nameReply
  split
  · exact clean_fixed hfixed.1
  split
  · exact clean_fixed hfixed.2.1
  split
  · exact clean_fixed hfixed.2.2
  · exact clean_nil

theorem clean_passwordReply {pass1 pass2 : Str} : Clean (passwordReply env pass1 pass2 fd) := by
  unfold passwordReply
  split
  · exact clean_fixed (safe_text (by simp [serverTexts]))
  split
  · exact clean_fixed (safe_text (by simp [serverTexts]))
  split
  · exact clean_fixed (safe_text (by simp [serverTexts]))
  · exact clean_nil

/-- A clean outcome where nothing is asked. -/
theorem clean_iff_of {P : Prop} (hclean : Clean es) (hP : P) : Clean es ↔ P :=
  iff_of_true hclean hP

theorem signIn_heap_self {a : Addr} {r : RoomRef} :
    (s.signIn a fd r).heap a = { s.heap a with sock := fd, roomID := 1000 } := by
  simp [Server.signIn, Server.insertNode, Server.insertUser]

/-- What a login that is accepted shows. -/
theorem clean_signIn (hc : env.Clock) {user : Str} {a : Addr} {r : RoomRef}
    (hu : user.length < 192)
    (ha : LinkedList.get_user s.heap s.registered_users_list user = some a) :
    Clean (signInEffects env (s.signIn a fd r) user a fd r) ↔
      Safe env.ret.buf ∧ Safe { s.heap a with sock := fd, roomID := 1000 }.real_name := by
  have hname := (LinkedList.get_user_some ha).2
  have hget : LinkedList.get_user (s.signIn a fd r).heap (s.signIn a fd r).registered_users_list
      user = some a := by
    rw [← ha]
    exact LinkedList.get_user_congr fun b _ => s.username_signIn (by rwa [hname]) fd r b
  have hreal : LinkedList.get_real_name (s.signIn a fd r).heap
      (s.signIn a fd r).registered_users_list user =
        { s.heap a with sock := fd, roomID := 1000 }.real_name := by
    simp only [LinkedList.get_real_name, hget, signIn_heap_self]
  have hfixed : Safe (str " has joined the lobby.") ∧ Safe server_MOTD :=
    ⟨safe_text (by simp [serverTexts]),
      safe_append.mpr ⟨safe_text (by simp [serverTexts]), safe_text (by simp [serverTexts])⟩⟩
  have hreply (q : Packet) : (Effect.send fd q).Clean ↔ Safe q.realname ∧ Safe q.buf := Iff.rfl
  have hmotd : Safe (serverPacket env MOTD server_MOTD).realname ∧
      Safe (serverPacket env MOTD server_MOTD).buf := ⟨safe_SERVER_NAME, hfixed.2⟩
  simp only [signInEffects, clean_cons, clean_append, clean_announced hc, hreal, signIn_heap_self,
    safe_append, hreply, hmotd, hfixed.1, clean_nil, and_true]
  constructor
  · rintro ⟨⟨hreal, hbuf⟩, -⟩
    exact ⟨hbuf, hreal⟩
  · rintro ⟨hbuf, hreal⟩
    exact ⟨⟨hreal, hbuf⟩, hreal⟩

theorem login_clean (hc : env.Clock) (hp : (loginName p).length < 192)
    (h : ops.run (login sha256 env p fd) s = .ok (b, s', es)) :
    Clean es ↔ (2 < (words p.buf).length →
      HarmlessLogin sha256 env s fd (loginName p) (arg (words p.buf) 2)) := by
  rw [run_login] at h
  unfold HarmlessLogin
  unfold loginName at hp ⊢
  split at h
  · cases h
  split at h
  · rename_i hw
    cases h
    exact clean_iff_of clean_nil fun hw' => absurd hw' (Nat.not_lt_of_le hw)
  rename_i hw
  rw [imp_iff_right (Nat.lt_of_not_le hw)]
  split at h
  · rename_i hnone
    cases h
    refine clean_iff_of (clean_fixed (safe_text (by simp [serverTexts]))) fun a ha => ?_
    rw [hnone] at ha
    cases ha
  rename_i a ha
  split at h
  · rename_i hhash
    cases h
    refine clean_iff_of (clean_fixed (safe_text (by simp [serverTexts]))) fun a' ha' hhash' => ?_
    rw [ha] at ha'
    cases ha'
    exact absurd hhash' hhash
  rename_i hhash
  split at h
  · rename_i hact
    cases h
    refine clean_iff_of (clean_fixed (safe_text (by simp [serverTexts])))
      fun a' ha' hhash' hact' => ?_
    rw [hact'] at hact
    cases hact
  rename_i hact
  split at h
  · cases h
  rename_i r hr
  cases h
  rw [clean_signIn hc hp (Server.account_some ha)]
  constructor
  · intro hclean a' ha' _ _
    rw [ha] at ha'
    cases ha'
    exact hclean
  · intro hharm
    exact hharm a ha (not_not.mp hhash) (Option.not_isSome_iff_eq_none.mp hact)

/-- A name holds no NUL. -/
theorem zero_not_mem_name {limit : Nat} {name : Str} (h : acceptsName limit name = true) :
    (0 : UInt8) ∉ name := by
  intro h0
  have hzero : (0 : UInt8) ∉ safe_name_chars := by decide
  exact hzero ((acceptsName_iff.mp h).1 0 h0)

theorem newcomer_names (h0 : (0 : UInt8) ∉ loginName p) (hlen : (loginName p).length < 64) :
    (newcomer sha256 env p fd).username = loginName p ∧
    (newcomer sha256 env p fd).real_name = loginName p := newUser_names h0 hlen

/-- Which account the login finds that follows a registration. -/
theorem account_enrol (hi : s.Housed) (hreg : Registers p s) :
    (s.enrol (newcomer sha256 env p fd)).account (loginName p) =
      if (∀ a ∈ s.registered_users_list, (s.heap a).username ≠ loginName p) ∧
        (loginName p).length < 64 ∧ loginName p ≠ ERROR then some s.fresh else none := by
  have h0 := zero_not_mem_name hreg.name
  have hlen : (loginName p).length ≤ 64 := (acceptsName_iff.mp hreg.name).2.2
  have hfree : LinkedList.get_real_name s.heap s.registered_users_list (loginName p) = ERROR :=
    hreg.free
  have hget := hi.get_user_enrol (newcomer sha256 env p fd) (loginName p)
  unfold Server.account
  cases hfind : LinkedList.get_user s.heap s.registered_users_list (loginName p) with
  | some a =>
    -- the first of the old records of the name, whose owner is called `ERROR`
    obtain ⟨hmem, hname⟩ := LinkedList.get_user_some hfind
    have hreal : (s.heap a).real_name = ERROR := by
      simpa only [LinkedList.get_real_name, hfind] using hfree
    have hheap : (s.enrol (newcomer sha256 env p fd)).heap a = s.heap a :=
      Server.enrol_heap_old (hi.fresh a hmem)
    rw [hfind, Option.some_or] at hget
    rw [if_neg fun h => h.1 a hmem hname, hget]
    simp only [hheap, hreal, if_true]
  | none =>
    have hno := LinkedList.get_user_none.mp hfind
    rw [hfind, Option.none_or] at hget
    by_cases hshort : (loginName p).length < 64
    · obtain ⟨huser, hreal⟩ : (newcomer sha256 env p fd).username = loginName p ∧
          (newcomer sha256 env p fd).real_name = loginName p := newcomer_names h0 hshort
      rw [if_pos huser] at hget
      rw [hget]
      simp only [Server.enrol_heap_new, hreal, hshort, true_and]
      by_cases hERROR : loginName p = ERROR
      · rw [if_pos hERROR, if_neg fun h => h.2 hERROR]
      · rw [if_neg hERROR, if_pos ⟨hno, hERROR⟩]
    · have hlong : 128 ≤ (newcomer sha256 env p fd).username.length :=
        newUser_username_long h0 (Nat.le_antisymm hlen (Nat.le_of_not_lt hshort))
      have hne : (newcomer sha256 env p fd).username ≠ loginName p := by
        intro h
        rw [h] at hlong
        omega
      rw [if_neg hne] at hget
      rw [hget, if_neg fun h => hshort h.2.1]

/-- The login that follows a registration shows the new name, which is safe. -/
theorem enrolled_harmless (hi : s.Housed) (hreg : Registers p s) :
    HarmlessLogin sha256 env (s.enrol (newcomer sha256 env p fd)) fd (loginName p)
      (arg (words p.buf) 2) ↔ HarmlessRegister env s p := by
  have haccount : (s.enrol (newcomer sha256 env p fd)).account (loginName p) = _ :=
    account_enrol hi hreg
  have hnew : (s.enrol (newcomer sha256 env p fd)).heap s.fresh = newcomer sha256 env p fd :=
    s.enrol_heap_new _
  rw [HarmlessLogin, HarmlessRegister, imp_iff_right hreg]
  constructor
  · intro hharm hno hshort hERROR
    rw [if_pos ⟨hno, hshort, hERROR⟩] at haccount
    refine (hharm s.fresh haccount ?_ ?_).1
    · rw [hnew]
      exact newUser_hash
    · exact hi.enrol_inactive hno
  · intro hbuf a ha _ _
    rw [haccount] at ha
    split at ha
    · rename_i hcond
      cases ha
      refine ⟨hbuf hcond.1 hcond.2.1 hcond.2.2, ?_⟩
      have hreal : (newcomer sha256 env p fd).real_name = loginName p :=
        (newcomer_names (zero_not_mem_name hreg.name) hcond.2.1).2
      have hchars : { (s.enrol (newcomer sha256 env p fd)).heap s.fresh with
          sock := fd, roomID := 1000 }.chars = (newcomer sha256 env p fd).chars := by rw [hnew]
      rw [User.real_name_of_chars hchars (by rw [hreal]; omega), hreal]
      exact safe_of_name hreg.name
    · cases ha

theorem register_clean (hc : env.Clock) (hp : p.Wf) (hi : s.Housed) (hopt : p.options = REGISTER)
    (h : ops.run (register_user sha256 env p fd) s = .ok (b, s', es)) :
    Clean es ↔ HarmlessRegister env s p := by
  have hlen : (loginName p).length < 192 := Nat.lt_of_le_of_lt (hp.arg_length 1) (by decide)
  rw [run_register_user] at h
  split at h
  · cases h
  split at h
  · rename_i hw
    cases h
    exact clean_iff_of clean_nil fun hreg => absurd hreg.words (Nat.not_lt_of_le hw)
  rename_i hw
  split at h
  · rename_i hname
    cases h
    refine clean_iff_of (clean_nameReply ⟨safe_text (by simp [serverTexts]),
      safe_text (by simp [serverTexts]), safe_text (by simp [serverTexts])⟩) fun hreg => ?_
    rw [hreg.name] at hname
    cases hname
  rename_i hname
  split at h
  · rename_i hfree
    cases h
    refine clean_iff_of (clean_fixed (safe_text (by simp [serverTexts]))) fun hreg => ?_
    rcases hfree with h | h | h
    · exact absurd hreg.free h
    · exact absurd h hreg.server
    · have hpass := hreg.pass
      simp only [acceptsPassword, Bool.and_eq_true, decide_eq_true_eq] at hpass
      exact absurd hpass.1.1 h
  rename_i hfree
  split at h
  · rename_i hpass
    cases h
    refine clean_iff_of clean_passwordReply fun hreg => ?_
    rw [hreg.pass] at hpass
    cases hpass
  rename_i hpass
  obtain ⟨hfree, hserver, -⟩ := by simpa only [not_or, not_not] using hfree
  have hreg : Registers p s :=
    ⟨hopt, Nat.lt_of_not_le hw, by simpa using hname, hfree, hserver, by simpa using hpass⟩
  obtain ⟨es', hlogin, rfl⟩ := Outcome.prepend_eq_ok h
  have hwords := words_relogin p
  have hrelogin : loginName (relogin p) = loginName p := by
    rw [loginName, hwords]
    rfl
  have hthree : 2 < [str "/login", arg (words p.buf) 1, arg (words p.buf) 2].length :=
    Nat.lt_succ_self 2
  rw [clean_append, and_iff_right clean_fileEffects, login_clean hc (hrelogin ▸ hlen) hlogin,
    hrelogin, hwords, imp_iff_right hthree]
  exact enrolled_harmless hi hreg

theorem set_pass_clean (hopt : p.options = SETPASS)
    (h : ops.run (set_pass sha256 env p fd) s = .ok ((), s', es)) :
    Clean es ↔ HarmlessSetPass sha256 s p := by
  rw [run_set_pass] at h
  split at h
  · cases h
  split at h
  · rename_i hw
    cases h
    exact clean_iff_of (clean_fixed (safe_text (by simp [serverTexts]))) fun a hch =>
      absurd hch.words (Nat.not_lt_of_le hw)
  rename_i hw
  split at h
  · rename_i hpass
    cases h
    refine clean_iff_of clean_passwordReply fun a hch => ?_
    rw [hch.pass] at hpass
    cases hpass
  rename_i hpass
  split at h
  · rename_i hnone
    cases h
    refine clean_iff_of (clean_fixed (safe_text (by simp [serverTexts]))) fun a hch => ?_
    rw [hch.user] at hnone
    cases hnone
  rename_i a ha
  split at h
  · rename_i hhash
    cases h
    refine clean_iff_of (clean_fixed (safe_text (by simp [serverTexts]))) fun b hch => ?_
    obtain rfl := Option.some.inj (ha.symm.trans hch.user)
    exact absurd hch.hash hhash
  rename_i hhash
  cases h
  simp only [clean_append, clean_fileEffects, clean_cons, clean_serverPacket, clean_nil, and_true,
    true_and]
  exact ⟨fun hbuf _ _ => hbuf, fun hharm => hharm a
    ⟨hopt, Nat.lt_of_not_le hw, by simpa using hpass, ha, not_not.mp hhash⟩⟩

theorem set_name_clean (hc : env.Clock)
    (h : ops.run (set_name env p fd) s = .ok ((), s', es)) :
    Clean es ↔ HarmlessSetName env s p := by
  rw [run_set_name] at h
  unfold HarmlessSetName
  split at h
  · rename_i hname
    cases h
    refine clean_iff_of (clean_nameReply ⟨safe_text (by simp [serverTexts]),
      safe_text (by simp [serverTexts]), safe_text (by simp [serverTexts])⟩) fun hname' => ?_
    rw [hname] at hname'
    cases hname'
  rename_i hname
  have hname : acceptsName REALNAME_LENGTH (localName env p.buf) = true := by simpa using hname
  have hlen : (localName env p.buf).length ≤ 64 := (acceptsName_iff.mp hname).2.2
  rw [imp_iff_right hname]
  split at h
  · rename_i hnone
    cases h
    refine clean_iff_of (clean_fixed (safe_text (by simp [serverTexts]))) fun a ha => ?_
    rw [hnone] at ha
    cases ha
  rename_i a ha
  obtain ⟨es', hrun, rfl⟩ := Outcome.prepend_eq_ok h
  obtain ⟨r, es₂, hr, hend, rfl⟩ := announce_then_eq_ok hrun
  cases hend
  have hreal : ((s.rename a (localName env p.buf)).heap a).real_name =
      if (localName env p.buf).length < 64 then localName env p.buf
      else localName env p.buf ++ cstr ((s.heap a).mem.drop 128) := by
    rw [← User.real_name_rename (zero_not_mem_name hname) hlen (s.heap a)]
    simp [Server.rename, Server.writeUserFile]
  have hnew : Safe ((s.rename a (localName env p.buf)).heap a).real_name ↔
      (localName env p.buf).length < 64 ∨ Safe (cstr ((s.heap a).mem.drop 128)) := by
    rw [hreal]
    split
    · rename_i hlt
      exact iff_of_true (safe_of_name hname) (.inl hlt)
    · rename_i hge
      rw [safe_append, and_iff_right (safe_of_name hname), or_iff_right hge]
  have hfixed : Safe (str " is now known as ") :=
    safe_text (by simp [serverTexts])
  simp only [clean_append, clean_fileEffects, clean_announced hc, safe_append, clean_cons,
    clean_serverPacket, clean_nil, hfixed, safe_of_name hname, hnew, true_and, and_true]
  constructor
  · intro hsafe b hb
    obtain rfl := Option.some.inj (ha.symm.trans hb)
    exact hsafe
  · intro hharm
    exact hharm a ha

theorem safe_Rget_name (hnames : ∀ name ∈ s.names, Safe name) (ID : Int) :
    Safe (LinkedList.Rget_name s.room_list ID) := by
  unfold LinkedList.Rget_name
  split
  · rename_i room hfind
    exact hnames _ (List.mem_map_of_mem (List.mem_of_find?_eq_some hfind))
  · exact safe_text (by simp [serverTexts])

theorem invite_clean (hnames : ∀ name ∈ s.names, Safe name)
    (h : ops.run (invite env p fd) s = .ok ((), s', es)) : Clean es ↔ HarmlessInvite s p := by
  rw [run_invite] at h
  split at h
  · cases h
  cases h
  have hfailed : Clean [inviteFailed env (arg (words p.buf) 0) fd] ↔ Safe (arg (words p.buf) 0) := by
    have hfixed : Safe (str "An invitation could not be sent to ") ∧ Safe (str ".") :=
    ⟨safe_text (by simp [serverTexts]), safe_text (by simp [serverTexts])⟩
    simp only [inviteFailed, clean_cons, clean_serverPacket, safe_append, hfixed.1, hfixed.2,
      clean_nil, true_and, and_true]
  unfold HarmlessInvite
  split
  · rename_i hw
    rw [if_neg fun hcond => absurd hcond.1 (Nat.not_lt_of_le hw)]
    exact hfailed
  rename_i hw
  split
  · rename_i r a hr ha
    obtain ⟨room, hroom, hID⟩ := LinkedList.Rget_roomFID_some hr
    obtain ⟨hmem, hname⟩ := LinkedList.get_user_some ha
    have hrname := safe_Rget_name hnames (atoi (arg (words p.buf) 1))
    have hfixed : Safe (str " has invited you to join ") :=
    safe_text (by simp [serverTexts])
    have hreply (q : Packet) (d : Int) : (Effect.send d q).Clean ↔ Safe q.realname ∧ Safe q.buf :=
      Iff.rfl
    have hbuf (options : Int) (buf : Str) : (serverPacket env options buf).buf = buf := rfl
    rw [if_pos ⟨Nat.lt_of_not_le hw, ⟨room, List.mem_of_getElem? hroom, hID⟩, a, hmem, hname⟩]
    have hserver : Safe (serverPacket env INVITESUC []).realname := safe_SERVER_NAME
    simp only [clean_cons, hreply, hbuf, safe_append, hfixed, hrname, hserver, safe_nil, clean_nil,
      and_true, and_self]
  · rename_i hnone
    rw [hfailed, if_neg]
    rintro ⟨-, ⟨room, hroom, hID⟩, a, ha, hname⟩
    -- both lookups would succeed
    obtain ⟨r, hr⟩ := Option.ne_none_iff_exists'.mp fun h =>
      LinkedList.Rget_roomFID_none.mp h room hroom hID
    obtain ⟨b, hb⟩ := Option.ne_none_iff_exists'.mp fun h =>
      LinkedList.get_user_none.mp h a ha hname
    exact hnone r b hr hb

/-- The moves of JOIN and LEAVE keep the start of a real name. -/
theorem move_strncpy64 {a : Addr} {r r' : RoomRef} {ID : Int} (rest : Str) :
    strncpy64 ((s.move a r r' ID).heap a).real_name rest = strncpy64 (s.heap a).real_name rest :=
  User.strncpy64_real_name (s.move_congr (g := User.chars) (fun _ _ => rfl) a r r' ID a) rest

theorem join_clean (hc : env.Clock) (hi : s.Housed) (hopt : p.options = JOIN)
    (h : ops.run (join env p fd) s = .ok ((), s', es)) : Clean es ↔ HarmlessJoin s p := by
  rw [run_join] at h
  have hrefused : Clean [unableToJoin env fd] := clean_fixed (safe_text (by simp [serverTexts]))
  split at h
  · cases h
  split at h
  · rename_i hw
    cases h
    exact clean_iff_of hrefused fun hj => absurd hj.words (Nat.not_lt_of_le hw)
  rename_i hw
  split at h
  · rename_i hname
    cases h
    refine clean_iff_of (clean_append.mpr ⟨clean_nameReply ⟨safe_text (by simp [serverTexts]),
      safe_text (by simp [serverTexts]), safe_text (by simp [serverTexts])⟩, hrefused⟩)
      fun hj => ?_
    rw [hj.name] at hname
    cases hname
  rename_i hname
  have hj : Joins p := ⟨hopt, Nat.lt_of_not_le hw, by simpa using hname⟩
  have hi₁ : (s.openRoom env.fd (arg (words p.buf) 0)).Housed :=
    hi.openRoom (acceptsName_iff.mp hj.name).2.2
  have hheap := s.openRoom_heap env.fd (arg (words p.buf) 0)
  have hactive : (s.openRoom env.fd (arg (words p.buf) 0)).active_users_list =
      s.active_users_list := by
    obtain ⟨rooms, n, heq⟩ := s.openRoom_eq env.fd (arg (words p.buf) 0)
    rw [heq]
  obtain ⟨es', hrun, rfl⟩ := Outcome.prepend_eq_ok h
  rw [clean_append, and_iff_right clean_openEffects, HarmlessJoin, imp_iff_right hj, ← hheap,
    ← hactive]
  generalize s.openRoom env.fd (arg (words p.buf) 0) = s₁ at hrun hi₁ hheap hactive ⊢
  rw [run_changeRoom] at hrun
  split at hrun
  · rename_i hnone
    cases hrun
    refine clean_iff_of clean_nil fun a ha hroom => ?_
    obtain ⟨r, hr, -⟩ := hi₁.find_member.mpr ⟨ha, hroom⟩
    rw [hnone] at hr
    cases hr
  rename_i r hr
  split at hrun
  · cases hrun
  rename_i a ha
  split at hrun
  · cases hrun
  rename_i r' hr'
  obtain ⟨es₁, hmoved, rfl⟩ := Outcome.prepend_eq_ok hrun
  obtain ⟨q, es₃, hq, hjoined, rfl⟩ := announce_then_eq_ok hmoved
  obtain ⟨q', hq', rfl, rfl⟩ := announce_eq_ok hjoined
  obtain ⟨hact, hroom⟩ := hi₁.find_member.mp ⟨r, hr, ha⟩
  have hfixed : Safe (str " ") ∧ Safe (str " has left the room.") ∧
      Safe (str " has joined the room.") :=
    ⟨safe_text (by simp [serverTexts]), safe_text (by simp [serverTexts]),
      safe_text (by simp [serverTexts])⟩
  simp only [clean_append, clean_cons, clean_serverPacket, clean_announced hc, safe_append,
    safe_of_name hj.name, safe_dec, hfixed.1, hfixed.2.1, hfixed.2.2, clean_nil, move_strncpy64,
    and_true, true_and, and_self]
  constructor
  · intro hsafe b hb _
    obtain rfl := Option.some.inj (hact.symm.trans hb)
    exact hsafe
  · intro hharm
    exact hharm a hact hroom

theorem safe_room (hnames : ∀ name ∈ s.names, Safe name) (r : RoomRef) :
    Safe (s.room r).name := by
  rcases Nat.lt_or_ge r s.room_list.length with hlt | hge
  · rw [Server.room_eq hlt]
    exact hnames _ (List.mem_map_of_mem (List.getElem_mem hlt))
  · have hroom : (s.room r).name = [] := by simp [Server.room, List.getElem?_eq_none hge]
    rw [hroom]
    exact safe_nil

theorem leave_clean (hc : env.Clock) (hi : s.Housed) (hnames : ∀ name ∈ s.names, Safe name)
    (h : ops.run (leave env p fd) s = .ok ((), s', es)) : Clean es ↔ HarmlessLeave env s p := by
  rw [run_leave] at h
  unfold HarmlessLeave
  split at h
  · cases h
  split at h
  · rename_i hw
    cases h
    refine clean_iff_of clean_nil fun hw' hne => ?_
    exact absurd hw (not_or.mpr ⟨Nat.not_le_of_lt hw', hne⟩)
  rename_i hw
  obtain ⟨hw, hne⟩ := not_or.mp hw
  rw [imp_iff_right (Nat.lt_of_not_le hw), imp_iff_right hne]
  split at h
  · rename_i hnone
    cases h
    refine clean_iff_of clean_nil fun a ha hroom => ?_
    obtain ⟨r, hr, -⟩ := hi.find_member.mpr ⟨ha, hroom⟩
    rw [hnone] at hr
    cases hr
  rename_i r hr
  split at h
  · rename_i hnone
    cases h
    refine clean_iff_of clean_nil fun a ha hroom => ?_
    obtain ⟨r', hr', ha'⟩ := hi.find_member.mpr ⟨ha, hroom⟩
    obtain rfl := Option.some.inj (hr.symm.trans hr')
    rw [hnone] at ha'
    cases ha'
  rename_i a ha
  split at h
  · cases h
  rename_i d hd
  obtain ⟨q, es₂, hq, hann, rfl⟩ := announce_then_eq_ok h
  obtain ⟨es₃, hjoined, rfl⟩ := Outcome.prepend_eq_ok hann
  obtain ⟨d', hd', rfl, rfl⟩ := announce_eq_ok hjoined
  obtain ⟨hact, hroom⟩ := hi.find_member.mp ⟨r, hr, ha⟩
  have hlobby : Safe ((s.move a r d 1000).room d).name :=
    safe_room ((SameRooms.move s a r d 1000).names.symm ▸ hnames) d
  have hfixed : Safe (str " ") ∧ Safe (str " has left the room.") ∧
      Safe (str " has joined the room.") :=
    ⟨safe_text (by simp [serverTexts]), safe_text (by simp [serverTexts]),
      safe_text (by simp [serverTexts])⟩
  simp only [clean_append, clean_cons, clean_serverPacket, clean_announced hc, safe_append,
    hlobby, safe_dec, hfixed.1, hfixed.2.1, hfixed.2.2, clean_nil, move_strncpy64, and_true,
    true_and]
  constructor
  · rintro ⟨hsafe, -⟩ b hb _
    obtain rfl := Option.some.inj (hact.symm.trans hb)
    exact hsafe
  · intro hharm
    have hsafe := hharm a hact hroom
    exact ⟨hsafe, hsafe.strncpy64_nil⟩

theorem user_lookup_clean (h : ops.run (user_lookup env p fd) s = .ok ((), s', es)) :
    Clean es ↔ HarmlessLookup s p := by
  rw [run_user_lookup] at h
  unfold HarmlessLookup
  split at h
  · cases h
  split at h
  · rename_i hw
    cases h
    exact clean_iff_of clean_nil fun hw' => absurd hw' (Nat.not_lt_of_le hw)
  rename_i hw
  cases h
  rw [imp_iff_right (Nat.lt_of_not_le hw)]
  have hfixed : Safe (str " not found.") ∧ Safe (str "User Lookup") ∧ Safe (str "-") ∧
      Safe ERROR :=
    ⟨safe_text (by simp [serverTexts]), safe_text (by simp [serverTexts]),
      safe_text (by simp [serverTexts]), safe_text (by simp [serverTexts])⟩
  cases ha : LinkedList.get_user s.heap s.active_users_list (arg (words p.buf) 1) with
  | none =>
    have hname : LinkedList.get_real_name s.heap s.active_users_list (arg (words p.buf) 1) =
        ERROR := by simp only [LinkedList.get_real_name, ha]
    simp only [hname, if_true, clean_cons, clean_serverPacket, safe_append, hfixed.1, clean_nil,
      and_true, reduceCtorEq, false_implies, implies_true]
  | some a =>
    have hname : LinkedList.get_real_name s.heap s.active_users_list (arg (words p.buf) 1) =
        (s.heap a).real_name := by simp only [LinkedList.get_real_name, ha]
    simp only [hname, Option.some.injEq, forall_eq']
    split
    · -- a user called `ERROR` is not shown, and the word is shown all the same
      rename_i hreal
      simp only [hreal, clean_cons, clean_serverPacket, safe_append, hfixed.1, hfixed.2.2.2,
        clean_nil, and_true]
    · simp only [clean_cons, clean_serverPacket, safe_append, hfixed.2.1, hfixed.2.2.1, clean_nil,
        and_true, true_and]

theorem clean_userLines {options : Int} {l : List Addr} :
    Clean (userLines env s options fd l) ↔ HarmlessNames s l := by
  have hfixed : Safe (str "-") :=
    safe_text (by simp [serverTexts])
  induction l with
  | nil => exact iff_of_true clean_nil fun _ h => absurd h List.not_mem_nil
  | cons a l ih =>
    have hcons : userLines env s options fd (a :: l) = .send fd (serverPacket env options
        ((s.heap a).username ++ str "-" ++ (s.heap a).real_name)) ::
          userLines env s options fd l := rfl
    have hnames : HarmlessNames s (a :: l) ↔
        (Safe (s.heap a).username ∧ Safe (s.heap a).real_name) ∧ HarmlessNames s l :=
      List.forall_mem_cons
    rw [hcons, hnames]
    simp only [clean_cons, ih, clean_serverPacket, safe_append, hfixed, and_true]

theorem get_active_users_clean (h : ops.run (get_active_users env fd) s = .ok ((), s', es)) :
    Clean es ↔ HarmlessNames s s.active_users_list := by
  rw [run_get_active_users] at h
  cases h
  have hfixed : Safe (str " users online") :=
    safe_text (by simp [serverTexts])
  rw [clean_cons, clean_userLines, and_iff_right]
  exact clean_serverPacket.mpr (safe_append.mpr ⟨safe_dec _, hfixed⟩)

theorem get_room_users_clean (hi : s.Housed) (hnames : ∀ name ∈ s.names, Safe name)
    (h : ops.run (get_room_users env p fd) s = .ok ((), s', es)) :
    Clean es ↔ HarmlessRoomUsers s p := by
  rw [run_get_room_users] at h
  unfold HarmlessRoomUsers
  split at h
  · rename_i hnone
    cases h
    refine clean_iff_of clean_nil fun a ha => ?_
    rw [hnone] at ha
    cases ha
  rename_i a ha
  split at h
  · rename_i hnone
    obtain ⟨r, hr, -⟩ := hi.find_member.mpr ⟨ha, rfl⟩
    rw [hnone] at hr
    cases hr
  rename_i r hr
  cases h
  have hfixed : Safe (str " users in ") :=
    safe_text (by simp [serverTexts])
  rw [clean_cons, clean_userLines, and_iff_right (clean_serverPacket.mpr
    (safe_append.mpr ⟨safe_append.mpr ⟨safe_dec _, hfixed⟩, safe_room hnames r⟩))]
  have hmember := hi.member r (Rget_roomFID_lt hr)
  rw [Server.room_of_Rget_roomFID hr] at hmember
  constructor
  · intro hsafe a' ha' b hb hroom
    obtain rfl := Option.some.inj (ha.symm.trans ha')
    exact hsafe b ((hmember b).mpr ⟨hb, hroom⟩)
  · intro hharm b hb
    exact hharm a ha b ((hmember b).mp hb).1 ((hmember b).mp hb).2

theorem get_room_list_clean (hnames : ∀ name ∈ s.names, Safe name)
    (h : ops.run (get_room_list env fd) s = .ok ((), s', es)) : Clean es := by
  rw [run_get_room_list] at h
  cases h
  have hfixed : Safe (str " Rooms Found") :=
    safe_text (by simp [serverTexts])
  refine clean_cons.mpr ⟨clean_serverPacket.mpr (safe_append.mpr ⟨safe_dec _, hfixed⟩), ?_⟩
  intro e he
  obtain ⟨room, hmem, rfl⟩ := List.mem_map.mp he
  exact clean_serverPacket.mpr (hnames _ (List.mem_map_of_mem hmem))

theorem exit_client_clean (hc : env.Clock) (h : ops.run (exit_client env p fd) s = .ok ((), s', es)) :
    Clean es ↔ HarmlessExit s p := by
  rw [run_exit_client] at h
  unfold HarmlessExit
  split at h
  · rename_i hnone
    cases h
    refine clean_iff_of clean_nil fun hsome => ?_
    rw [hnone] at hsome
    cases hsome
  rename_i a ha
  split at h
  · cases h
  cases h
  have hfixed : Safe (str "User ") ∧ Safe (str " has disconnected.") ∧ Safe (str "Goodbye!") :=
    ⟨safe_text (by simp [serverTexts]), safe_text (by simp [serverTexts]),
      safe_text (by simp [serverTexts])⟩
  rw [ha, Option.isSome_some, imp_iff_right rfl]
  simp only [clean_append, clean_cons, clean_announced hc, clean_serverPacket, clean_close,
    clean_nil, safe_append, hfixed.1, hfixed.2.1, hfixed.2.2, and_true, true_and]

/-! ## The whole of `client_receive` -/

variable {next : Next}

theorem anonymous_clean (hc : env.Clock) (hp : p.Wf) (hi : s.Housed)
    (h : ops.run (receiveAnonymous sha256 env p fd) s = .ok (next, s', es)) :
    Clean es ↔ HarmlessAnonymous sha256 env s p fd := by
  have hlen : (loginName p).length < 192 := Nat.lt_of_le_of_lt (hp.arg_length 1) (by decide)
  unfold receiveAnonymous at h
  unfold HarmlessAnonymous
  refine ops.run_ite_both (Clean es ↔ ·) h (fun hopt h => ?_) fun _ h => ?_
  · obtain ⟨b, hreg, -⟩ := ops.run_bind_pure_eq h
    exact register_clean hc hp hi hopt hreg
  refine ops.run_ite_both (Clean es ↔ ·) h (fun _ h => ?_) fun _ h => ?_
  · obtain ⟨b, hlogin, -⟩ := ops.run_bind_pure_eq h
    exact login_clean hc hlen hlogin
  rcases ops.run_ite_eq h with ⟨-, h⟩ | ⟨-, h⟩
  · cases h
    exact clean_iff_of (by simp) trivial
  · cases h
    exact clean_iff_of (clean_fixed (safe_text (by simp [serverTexts]))) trivial

theorem request_clean (hc : env.Clock) (hi : s.Housed) (hnames : ∀ name ∈ s.names, Safe name)
    (h : ops.run (receiveRequest sha256 env p fd) s = .ok ((), s', es)) :
    Clean es ↔ HarmlessRequest sha256 env s p := by
  have herror {error : String} (ht : error ∈ serverTexts)
      (h : ops.run (sendError env (str error) fd) s = .ok ((), s', es)) : Clean es := by
    rw [run_sendError] at h
    cases h
    exact clean_fixed (safe_text ht)
  unfold receiveRequest at h
  unfold HarmlessRequest
  refine ops.run_ite_both (Clean es ↔ ·) h (fun _ h => ?_) fun _ h => ?_
  · exact clean_iff_of (herror (by simp [serverTexts]) h) trivial
  refine ops.run_ite_both (Clean es ↔ ·) h (fun hopt h => set_pass_clean hopt h) fun _ h => ?_
  refine ops.run_ite_both (Clean es ↔ ·) h (fun _ h => set_name_clean hc h) fun _ h => ?_
  refine ops.run_ite_both (Clean es ↔ ·) h (fun _ h => ?_) fun _ h => ?_
  · exact clean_iff_of (herror (by simp [serverTexts]) h) trivial
  refine ops.run_ite_both (Clean es ↔ ·) h (fun _ h => invite_clean hnames h) fun _ h => ?_
  refine ops.run_ite_both (Clean es ↔ ·) h (fun hopt h => join_clean hc hi hopt h) fun _ h => ?_
  refine ops.run_ite_both (Clean es ↔ ·) h (fun _ h => leave_clean hc hi hnames h) fun _ h => ?_
  refine ops.run_ite_both (Clean es ↔ ·) h (fun _ h => get_active_users_clean h) fun _ h => ?_
  refine ops.run_ite_both (Clean es ↔ ·) h (fun _ h => ?_) fun _ h => ?_
  · exact get_room_users_clean hi hnames h
  refine ops.run_ite_both (Clean es ↔ ·) h (fun _ h => user_lookup_clean h) fun _ h => ?_
  rcases ops.run_ite_eq h with ⟨-, h⟩ | ⟨-, h⟩
  · exact clean_iff_of (get_room_list_clean hnames h) trivial
  rcases ops.run_ite_eq h with ⟨-, h⟩ | ⟨-, h⟩
  · rw [run_sendMOTD] at h
    cases h
    have hmotd : Safe server_MOTD := safe_append.mpr
      ⟨safe_text (by simp [serverTexts]), safe_text (by simp [serverTexts])⟩
    exact clean_iff_of (clean_cons.mpr ⟨⟨safe_SERVER_NAME, hmotd⟩, clean_nil⟩) trivial
  · cases h
    exact clean_iff_of clean_nil trivial

theorem received_clean (hc : env.Clock) (hp : p.Wf) (hi : s.Housed)
    (hnames : ∀ name ∈ s.names, Safe name) {session : Option Str}
    (h : ops.run (client_receive sha256 env session p fd) s = .ok (next, s', es)) :
    Clean es ↔ Harmless sha256 env s p fd session := by
  cases session with
  | none => exact anonymous_clean hc hp hi h
  | some name =>
    unfold Harmless
    by_cases hchat : 1000 ≤ p.options
    · rw [if_pos hchat]
      rw [run_chat name hchat] at h
      split at h
      · cases h
      split at h
      · cases h
        rw [clean_relay hc]
        exact and_iff_left (safe_sanitized p.buf)
      · cases h
    rw [if_neg hchat]
    rw [client_receive, receiveSession, if_pos (Int.not_le.mp hchat)] at h
    refine ops.run_ite_both (Clean es ↔ ·) h (fun _ h => ?_) fun _ h => ?_
    · obtain ⟨_, hrun, -⟩ := ops.run_bind_pure_eq h
      exact exit_client_clean hc hrun
    · obtain ⟨_, hrun, -⟩ := ops.run_bind_pure_eq h
      exact request_clean hc hi hnames hrun

end TBDChat
