import TBDChat.ChatClient
import TBDChat.ServiceRefinement

/-!
# What the user asks for

A line means something to the user who types it, by its words: to register under a name, to go to
a room, to say something where the client takes its user to be.  `ChatClient.asked` is that, in
terms of the service and without packets.  The packet that the client sends for a line asks the
server for the same, and where nothing is asked nothing is sent.

`/join`, `/invite` and `/login` need their loop to begin where it happens to be right.
-/

namespace TBDChat
open ChatService
open Config (startsWith)

set_option maxRecDepth 8000

namespace ChatClient
variable {sha256 : Str → Digest} {env : ClientEnv} {k k' : ChatClient} {line command : Str}
  {p q : Packet} {out : List Output} {flag : Bool}

/-! ## Lines and their meaning -/

/-- What a command asks for, if it is one for the server and complete. -/
def commanded (sha256 : Str → Digest) (k : ChatClient) (command line : Str) :
    Option (Request Str Str (List UInt8) Str Packet) :=
  if command = str "/exit" ∨ command = str "/quit" then some (.quit k.realname)
  else if command = str "/register" then
    match fields delim line with
    | [_, user, pass, again] =>
      if pass ≠ again then none
      else if acceptsName USERNAME_LENGTH user ∧ SERVER_NAME ≠ user ∧
          acceptsPassword pass again then
        some (.register user (sha256 pass).bytes)
      else some .other
    | _ => none
  else if command = str "/login" then
    match fields delim line with
    | _ :: user :: pass :: _ => some (.login user (sha256 pass).bytes)
    | _ => none
  else if command = str "/setname" then
    if line.length ≤ 9 then none
    else if acceptsName REALNAME_LENGTH (line.drop 9) then some (.rename (line.drop 9))
    else some .other
  else if command = str "/setpass" then
    match fields delim line with
    | [_, old, new, again] =>
      if new ≠ again then none
      else if acceptsPassword new again then
        some (.changeSecret (sha256 old).bytes (sha256 new).bytes)
      else some .other
    | _ => none
  else if command = str "/join" then
    match fields delim line with
    | _ :: room :: _ =>
      if acceptsName ROOMNAME_LENGTH room then some (.join room (roomOf k.currentRoom))
      else some .other
    | _ => none
  else if command = str "/leave" then some (.leave (roomOf k.currentRoom))
  else if command = str "/invite" then if 2 ≤ (fields delim line).length then some .other else none
  else if command = str "/motd" ∨ command = str "/who" ∨ command = str "/list" then some .other
  else none

/-- What a line asks for: a line that is no command is to be said in the room. -/
def asked (sha256 : Str → Digest) (now : Int) (k : ChatClient) (line : Str) :
    Option (Request Str Str (List UInt8) Str Packet) :=
  if line = [] then none
  else if startsWith (str "/") line then
    (Config.userCommand line).bind fun command => k.commanded sha256 command line
  else if DEFAULT_ROOM ≤ k.currentRoom then
    some (.say (k.currentRoom - DEFAULT_ROOM).toNat
      ⟨now, line.map (sanitized safe_buf_chars), k.username, k.realname, k.currentRoom⟩)
  else none

/-- The three functions that do not set `i` find the right one. -/
def FindsWords (i : Int) (line : Str) : Prop :=
  (Config.userCommand line = some (str "/join") → StartsRight 2 i line) ∧
  (Config.userCommand line = some (str "/invite") → StartsRight 2 i line) ∧
  (Config.userCommand line = some (str "/login") → StartsRight 3 i line)

/-! ## Commands -/

/-- The commands that are for the server. -/
def serverCommands : List Str := [str "/exit", str "/quit", str "/register", str "/login",
  str "/setname", str "/setpass", str "/motd", str "/invite", str "/join", str "/leave",
  str "/who", str "/list"]

/-- What a command comes to. -/
inductive Commanded (env : ClientEnv) (k : ChatClient) (p : Packet) :
    Str → Packet → Bool → ChatClient → List Output → Prop
  | exit {command : Str} {q : Packet} (hcommand : command = str "/exit" ∨ command = str "/quit")
      (h : k.appendNumber { p with options := EXIT } = some q) :
      Commanded env k p command q true k []
  | register {q : Packet} {flag : Bool} {out : List Output}
      (h : serverRegistration p = some (q, flag, out)) :
      Commanded env k p (str "/register") q flag k out
  | login {r : Packet × Int} {q : Packet} {flag : Bool} {out : List Output}
      (h : serverLogin env.i p = some r)
      (hr : orUsage "Usage: /login username password" r = (q, flag, out)) :
      Commanded env k p (str "/login") q flag k out
  | setname {q : Packet} {flag : Bool} {out : List Output} (h : setName p = (q, flag, out)) :
      Commanded env k p (str "/setname") q flag k out
  | setpass {q : Packet} {flag : Bool} {out : List Output}
      (h : setPassword p = some (q, flag, out)) : Commanded env k p (str "/setpass") q flag k out
  | motd : Commanded env k p (str "/motd") { p with options := GETMOTD } true k []
  | invite {r : Packet × Int} {q : Packet} {flag : Bool} {out : List Output}
      (h : validInvite env.i k.currentRoom p = some r)
      (hr : orUsage "Usage: /invite username" r = (q, flag, out)) :
      Commanded env k p (str "/invite") q flag k out
  | join {r : Packet × Int} {q : Packet} {flag : Bool} {out : List Output}
      (h : validJoin env.i k.currentRoom p = some r)
      (hr : orUsage "Usage: /join roomname" r = (q, flag, out)) :
      Commanded env k p (str "/join") q flag k out
  | leave : Commanded env k p (str "/leave")
      { p with options := LEAVE, buf := str "/leave " ++ dec k.currentRoom } true k []
  | who {q : Packet} (h : k.who p = some q) : Commanded env k p (str "/who") q true k []
  | list : Commanded env k p (str "/list") { p with options := GETROOMS } true k []
  | here {command : Str} {k' : ChatClient} {out : List Output}
      (hother : command ∉ serverCommands)
      (h : k.localCommand env command p.buf = some (k', out)) :
      Commanded env k p command p false k' out

theorem userCommand_cases (h : k.userCommand env p = some (q, flag, k', out))
    (hcommand : Config.userCommand p.buf = some command) :
    Commanded env k p command q flag k' out := by
  unfold userCommand at h
  rw [hcommand] at h
  dsimp only at h
  by_cases hexit : command = str "/exit" ∨ command = str "/quit"
  · rw [if_pos hexit] at h
    obtain ⟨q', hq, heq⟩ := Option.bind_eq_some_iff.mp h
    cases heq
    exact .exit hexit hq
  rw [if_neg hexit] at h
  by_cases hreg : command = str "/register"
  · rw [if_pos hreg] at h
    obtain ⟨⟨q', flag', out'⟩, hcall, heq⟩ := Option.map_eq_some_iff.mp h
    cases heq
    exact hreg ▸ .register hcall
  rw [if_neg hreg] at h
  by_cases hlogin : command = str "/login"
  · rw [if_pos hlogin] at h
    obtain ⟨r, hcall, heq⟩ := Option.map_eq_some_iff.mp h
    cases heq
    exact hlogin ▸ .login hcall rfl
  rw [if_neg hlogin] at h
  by_cases hname : command = str "/setname"
  · rw [if_pos hname] at h
    cases h
    exact hname ▸ .setname rfl
  rw [if_neg hname] at h
  by_cases hpass : command = str "/setpass"
  · rw [if_pos hpass] at h
    obtain ⟨⟨q', flag', out'⟩, hcall, heq⟩ := Option.map_eq_some_iff.mp h
    cases heq
    exact hpass ▸ .setpass hcall
  rw [if_neg hpass] at h
  by_cases hmotd : command = str "/motd"
  · rw [if_pos hmotd] at h
    cases h
    exact hmotd ▸ .motd
  rw [if_neg hmotd] at h
  by_cases hinvite : command = str "/invite"
  · rw [if_pos hinvite] at h
    obtain ⟨r, hcall, heq⟩ := Option.map_eq_some_iff.mp h
    cases heq
    exact hinvite ▸ .invite hcall rfl
  rw [if_neg hinvite] at h
  by_cases hjoin : command = str "/join"
  · rw [if_pos hjoin] at h
    obtain ⟨r, hcall, heq⟩ := Option.map_eq_some_iff.mp h
    cases heq
    exact hjoin ▸ .join hcall rfl
  rw [if_neg hjoin] at h
  by_cases hleave : command = str "/leave"
  · rw [if_pos hleave] at h
    cases h
    exact hleave ▸ .leave
  rw [if_neg hleave] at h
  by_cases hwho : command = str "/who"
  · rw [if_pos hwho] at h
    obtain ⟨q', hq, heq⟩ := Option.bind_eq_some_iff.mp h
    cases heq
    exact hwho ▸ .who hq
  rw [if_neg hwho] at h
  by_cases hlist : command = str "/list"
  · rw [if_pos hlist] at h
    cases h
    exact hlist ▸ .list
  rw [if_neg hlist] at h
  obtain ⟨⟨k₁, out₁⟩, hcall, heq⟩ := Option.map_eq_some_iff.mp h
  cases heq
  refine .here ?_ hcall
  simp only [serverCommands, List.mem_cons, List.not_mem_nil, or_false, not_or]
  simp only [not_or] at hexit
  exact ⟨hexit.1, hexit.2, hreg, hlogin, hname, hpass, hmotd, hinvite, hjoin, hleave, hwho, hlist⟩

theorem orUsage_silent {usage : String} {r : Packet × Int} (h : orUsage usage r = (q, flag, out)) :
    sentPackets out = [] := by
  unfold orUsage at h
  split at h
  · cases h
    rfl
  · cases h
    rfl

theorem localCommand_silent {buf : Str} (h : k.localCommand env command buf = some (k', out)) :
    sentPackets out = [] := by
  unfold localCommand at h
  repeat' split at h
  all_goals cases h
  all_goals rfl

/-- A command itself sends nothing. -/
theorem Commanded.silent (h : Commanded env k p command q flag k' out) : sentPackets out = [] := by
  cases h with
  | exit | motd | leave | who | list => rfl
  | register hcall =>
    unfold serverRegistration at hcall
    dsimp only at hcall
    repeat' split at hcall
    all_goals cases hcall
    all_goals rfl
  | setpass hcall =>
    unfold setPassword at hcall
    dsimp only at hcall
    repeat' split at hcall
    all_goals cases hcall
    all_goals rfl
  | setname hcall =>
    unfold setName at hcall
    split at hcall
    · cases hcall
      rfl
    · cases hcall
      rfl
  | login _ hr | invite _ hr | join _ hr => exact orUsage_silent hr
  | here _ hcall => exact localCommand_silent hcall

/-- The packet with the names of the client, as it is sent. -/
def signed (env : ClientEnv) (k : ChatClient) (p : Packet) : Packet :=
  { p with username := k.username, realname := k.realname, timestamp := env.now }

/-- What a command that is a request comes to. -/
structure Asks (sha256 : Str → Digest) (env : ClientEnv) (k k' : ChatClient) (flag : Bool)
    (q : Packet) (request : Option (Request Str Str (List UInt8) Str Packet)) : Prop where
  same : flag = true → k' = k ∧ 0 < q.options ∧ q.options < DEFAULT_ROOM
  request : (if flag then some ((k.signed env q).request sha256) else none) = request

theorem asks_nothing : Asks sha256 env k k' false q none :=
  ⟨fun hf => Bool.noConfusion hf, rfl⟩

theorem asks_request {n : Int} {request : Option (Request Str Str (List UInt8) Str Packet)}
    (hopt : q.options = n) (hlow : 0 < n) (hhigh : n < DEFAULT_ROOM)
    (h : some ((k.signed env q).request sha256) = request) :
    Asks sha256 env k k true q request :=
  ⟨fun _ => ⟨rfl, hopt ▸ hlow, hopt ▸ hhigh⟩, h⟩

/-- The words behind a command of four. -/
theorem args_four {w a b c : Str} :
    arg [w, a, b, c] 1 = a ∧ arg [w, a, b, c] 2 = b ∧ arg [w, a, b, c] 3 = c := ⟨rfl, rfl, rfl⟩

theorem serverRegistration_asks (h : serverRegistration p = some (q, flag, out)) :
    Asks sha256 env k k flag q (k.commanded sha256 (str "/register") p.buf) := by
  have hspec : k.commanded sha256 (str "/register") p.buf =
      match fields delim p.buf with
      | [_, user, pass, again] =>
        if pass ≠ again then none
        else if acceptsName USERNAME_LENGTH user ∧ SERVER_NAME ≠ user ∧
          acceptsPassword pass again then some (.register user (sha256 pass).bytes)
        else some .other
      | _ => none := rfl
  rw [hspec]
  unfold serverRegistration at h
  dsimp only at h
  split at h
  · cases h
  rename_i hwords
  rw [fields_eq_words (by omega)]
  split at h
  · rename_i hfour
    obtain ⟨w, user, pass, again, hw⟩ := List.length_eq_four.mp hfour
    simp only [hw, args_four] at h ⊢
    split at h
    · rename_i hsame
      split at h
      · cases h
      · cases h
        refine asks_request (n := REGISTER) rfl (by decide) (by decide) ?_
        have hbuf : words (k.signed env { p with
            options := REGISTER, username := user, realname := user }).buf =
          [w, user, pass, again] := hw
        rw [Packet.request_register rfl, if_neg (not_not.mpr hsame), hbuf]
        simp only [args_four, List.length_cons, List.length_nil, Nat.reduceAdd, Nat.reduceLT,
          true_and]
        exact apply_ite some _ _ _
    · rename_i hsame
      cases h
      rw [if_pos hsame]
      exact asks_nothing
  · rename_i hfour
    cases h
    split
    · rename_i hw
      rw [hw] at hfour
      exact absurd rfl hfour
    · exact asks_nothing

theorem setPassword_asks (h : setPassword p = some (q, flag, out)) :
    Asks sha256 env k k flag q (k.commanded sha256 (str "/setpass") p.buf) := by
  have hspec : k.commanded sha256 (str "/setpass") p.buf =
      match fields delim p.buf with
      | [_, old, new, again] =>
        if new ≠ again then none
        else if acceptsPassword new again then
          some (.changeSecret (sha256 old).bytes (sha256 new).bytes)
        else some .other
      | _ => none := rfl
  rw [hspec]
  unfold setPassword at h
  dsimp only at h
  split at h
  · cases h
  rename_i hwords
  rw [fields_eq_words (by omega)]
  split at h
  · rename_i hfour
    obtain ⟨w, old, new, again, hw⟩ := List.length_eq_four.mp hfour
    simp only [hw, args_four] at h ⊢
    split at h
    · rename_i hsame
      cases h
      refine asks_request (n := SETPASS) rfl (by decide) (by decide) ?_
      have hbuf : words (k.signed env { p with options := SETPASS }).buf = [w, old, new, again] :=
        hw
      rw [Packet.request_set_pass rfl, if_neg (not_not.mpr hsame), hbuf]
      simp only [args_four, List.length_cons, List.length_nil, Nat.reduceAdd, Nat.reduceLT,
        true_and]
      exact apply_ite some _ _ _
    · rename_i hsame
      cases h
      rw [if_pos hsame]
      exact asks_nothing
  · rename_i hfour
    cases h
    split
    · rename_i hw
      rw [hw] at hfour
      exact absurd rfl hfour
    · exact asks_nothing

theorem setName_asks (h : setName p = (q, flag, out)) :
    Asks sha256 env k k flag q (k.commanded sha256 (str "/setname") p.buf) := by
  have hspec : k.commanded sha256 (str "/setname") p.buf =
      if p.buf.length ≤ 9 then none
      else if acceptsName REALNAME_LENGTH (p.buf.drop 9) then some (.rename (p.buf.drop 9))
      else some .other := rfl
  have hname : (str "/setname ").length = 9 := by decide
  rw [hspec]
  unfold setName at h
  rw [hname] at h
  split at h
  · rename_i hlong
    cases h
    refine asks_request (n := SETNAME) rfl (by decide) (by decide) ?_
    rw [Packet.request_set_name rfl, if_neg (Nat.not_le_of_lt hlong)]
    exact apply_ite some _ _ _
  · rename_i hshort
    cases h
    rw [if_pos (Nat.le_of_not_lt hshort)]
    exact asks_nothing

/-- `validJoin` and `validInvite`. -/
theorem appendRoom_asks {n : Int} {usage : String} {r : Packet × Int}
    (h : appendRoom n env.i k.currentRoom p = some r) (hr : orUsage usage r = (q, flag, out))
    (hstart : StartsRight 2 env.i p.buf) (hlow : -2 ^ 31 ≤ k.currentRoom)
    (hhigh : k.currentRoom < 2 ^ 31) (hn : 0 < n ∧ n < DEFAULT_ROOM) :
    Asks sha256 env k k flag q
      (match fields delim p.buf with
        | _ :: word :: _ => some ((k.signed env { p with
            options := n, buf := word ++ str " " ++ dec k.currentRoom }).request sha256)
        | _ => none) := by
  obtain ⟨h0, hlen, hfinds⟩ := hstart
  have happ : AppendsRoom (appendRoom n) n env.i k.currentRoom p := by
    refine (appendsRoom_iff ⟨h0, hlen⟩ hlow hhigh).mpr ?_
    split
    · rename_i htwo
      rwa [if_pos htwo] at hfinds
    · rename_i htwo
      rw [if_neg htwo] at hfinds
      omega
  rw [AppendsRoom, h] at happ
  have hnone (happ : some r = some (p, 0)) : Asks sha256 env k k flag q none := by
    obtain rfl := Option.some.inj happ
    cases hr
    exact asks_nothing
  cases hw : fields delim p.buf with
  | nil =>
    rw [hw] at happ
    exact hnone happ
  | cons w ws =>
    rw [hw] at happ
    cases ws with
    | nil => exact hnone happ
    | cons word rest =>
      obtain ⟨q', heq, hopt, hbuf, -⟩ := happ
      obtain rfl := Option.some.inj heq
      cases hr
      refine asks_request hopt hn.1 hn.2 ?_
      simp only [signed, hopt, hbuf]

/-- The text of a login is sent as it is. -/
theorem serverLogin_buf {n : Int} (h : serverLogin env.i p = some (q, n)) : q.buf = p.buf := by
  unfold serverLogin at h
  split at h
  · cases h
  dsimp only at h
  split at h
  · obtain ⟨word, -, heq⟩ := Option.map_eq_some_iff.mp h
    cases heq
    rfl
  · cases h
    rfl

theorem serverLogin_asks {usage : String} {r : Packet × Int} (h : serverLogin env.i p = some r)
    (hr : orUsage usage r = (q, flag, out)) (hstart : StartsRight 3 env.i p.buf) :
    Asks sha256 env k k flag q (k.commanded sha256 (str "/login") p.buf) := by
  have hspec : k.commanded sha256 (str "/login") p.buf =
      match fields delim p.buf with
      | _ :: user :: pass :: _ => some (.login user (sha256 pass).bytes)
      | _ => none := rfl
  rw [hspec]
  obtain ⟨h0, hlen, hfinds⟩ := hstart
  have hshort : p.buf.length ≤ 63 := by
    by_contra hlong
    rw [serverLogin, if_pos (Nat.lt_of_not_le hlong)] at h
    cases h
  have hwords : words p.buf = fields delim p.buf := by
    rw [words_eq, List.take_of_length_le (by omega)]
  have hlogs : LogsIn env.i p := by
    refine (logsIn_iff hshort ⟨h0, hlen⟩).mpr ?_
    split
    · rename_i hthree
      rwa [if_pos hthree] at hfinds
    · rename_i hthree
      rw [if_neg hthree] at hfinds
      omega
  rw [LogsIn, h] at hlogs
  have hnone (hlogs : some r = some (p, 0)) : Asks sha256 env k k flag q none := by
    obtain rfl := Option.some.inj hlogs
    cases hr
    exact asks_nothing
  rcases hw : fields delim p.buf with _ | ⟨w, _ | ⟨user, _ | ⟨pass, rest⟩⟩⟩
  · rw [hw] at hlogs
    exact hnone hlogs
  · rw [hw] at hlogs
    exact hnone hlogs
  · rw [hw] at hlogs
    exact hnone hlogs
  · rw [hw] at hlogs
    obtain ⟨q', heq, hopt, -, huser, hpass⟩ := hlogs
    obtain rfl := Option.some.inj heq
    cases hr
    refine asks_request (n := LOGIN) hopt (by decide) (by decide) ?_
    have hbuf : words (k.signed env q').buf = words q'.buf := rfl
    have hlong : 2 < (words q'.buf).length := by
      rw [serverLogin_buf h, hwords, hw]
      simp
    rw [Packet.request_login (p := k.signed env q') hopt, hbuf, if_pos hlong, huser, hpass]

/-- The client's number of a room is one that the server can read. -/
theorem leave_asks (hlow : -2 ^ 31 ≤ k.currentRoom) (hhigh : k.currentRoom < 2 ^ 31) :
    Asks sha256 env k k true
      { p with options := LEAVE, buf := str "/leave " ++ dec k.currentRoom }
      (k.commanded sha256 (str "/leave") p.buf) := by
  refine asks_request (n := LEAVE) rfl (by decide) (by decide) ?_
  have hwords : words (str "/leave " ++ dec k.currentRoom) =
      [str "/leave", dec k.currentRoom] := by
    have hname : ∀ x ∈ str "/leave", x ∉ delim := by decide
    exact words_joined hname
  have hbuf : words (k.signed env
      { p with options := LEAVE, buf := str "/leave " ++ dec k.currentRoom }).buf =
      [str "/leave", dec k.currentRoom] := hwords
  have hlen : 1 < [str "/leave", dec k.currentRoom].length := by simp
  rw [Packet.request_leave rfl, hbuf, if_pos hlen]
  exact congrArg (fun r => some (Request.leave (roomOf r))) (atoi_dec_int hlow hhigh)

/-- A request with the text that was typed. -/
theorem other_asks {n : Int} (hn : n = GETMOTD ∨ n = GETUSERS ∨ n = GETALLUSERS ∨ n = GETUSER ∨
    n = GETROOMS ∨ n = INVITE) (hopt : q.options = n) :
    Asks sha256 env k k true q (some .other) := by
  have hreq : (k.signed env q).request sha256 = .other := by
    have hsigned : (k.signed env q).options = n := hopt
    rw [Packet.request, hsigned]
    rcases hn with rfl | rfl | rfl | rfl | rfl | rfl <;> rfl
  have hbounds : 0 < n ∧ n < DEFAULT_ROOM := by
    rcases hn with rfl | rfl | rfl | rfl | rfl | rfl <;> decide
  exact asks_request hopt hbounds.1 hbounds.2 (congrArg some hreq)

theorem who_asks (h : k.who p = some q) :
    Asks sha256 env k k true q (k.commanded sha256 (str "/who") p.buf) := by
  have hspec : k.commanded sha256 (str "/who") p.buf = some .other := rfl
  rw [hspec]
  unfold who at h
  split at h
  · cases h
    exact other_asks (n := GETALLUSERS) (by simp) rfl
  split at h
  · cases h
    exact other_asks (n := GETUSER) (by simp) rfl
  · unfold appendNumber at h
    dsimp only at h
    split at h
    · cases h
    · cases h
      exact other_asks (n := GETUSERS) (by simp) rfl

theorem validInvite_asks {r : Packet × Int} (h : validInvite env.i k.currentRoom p = some r)
    (hr : orUsage "Usage: /invite username" r = (q, flag, out))
    (hstart : StartsRight 2 env.i p.buf) (hlow : -2 ^ 31 ≤ k.currentRoom)
    (hhigh : k.currentRoom < 2 ^ 31) :
    Asks sha256 env k k flag q (k.commanded sha256 (str "/invite") p.buf) := by
  have hspec : k.commanded sha256 (str "/invite") p.buf =
      if 2 ≤ (fields delim p.buf).length then some .other else none := rfl
  have hasks := @appendRoom_asks sha256 _ _ _ _ _ _ _ _ _ h hr hstart hlow hhigh (by decide)
  rw [hspec]
  obtain ⟨w, rest, hw, -⟩ := strsep_fields delim p.buf
  rw [hw] at hasks ⊢
  cases rest with
  | nil => exact hasks
  | cons word rest =>
    rw [if_pos (by simp)]
    exact hasks

theorem validJoin_asks {r : Packet × Int} (h : validJoin env.i k.currentRoom p = some r)
    (hr : orUsage "Usage: /join roomname" r = (q, flag, out))
    (hstart : StartsRight 2 env.i p.buf) (hlow : -2 ^ 31 ≤ k.currentRoom)
    (hhigh : k.currentRoom < 2 ^ 31) :
    Asks sha256 env k k flag q (k.commanded sha256 (str "/join") p.buf) := by
  have hspec : k.commanded sha256 (str "/join") p.buf =
      match fields delim p.buf with
      | _ :: room :: _ =>
        if acceptsName ROOMNAME_LENGTH room then some (.join room (roomOf k.currentRoom))
        else some .other
      | _ => none := rfl
  have hasks := @appendRoom_asks sha256 _ _ _ _ _ _ _ _ _ h hr hstart hlow hhigh (by decide)
  rw [hspec]
  have hlen : (fields delim p.buf).length ≤ 15 := by
    obtain ⟨h0, hlen, -⟩ := hstart
    omega
  have hfree := @not_mem_delim_fields p
  obtain ⟨w, rest, hw, -⟩ := strsep_fields delim p.buf
  rw [hw] at hasks hfree hlen ⊢
  cases rest with
  | nil => exact hasks
  | cons word rest =>
    have hbuf : words (k.signed env { p with
        options := JOIN, buf := word ++ str " " ++ dec k.currentRoom }).buf =
        [word, dec k.currentRoom] :=
      words_joined (hfree (by simp) hlen)
    have hone : arg [word, dec k.currentRoom] 1 = dec k.currentRoom := rfl
    simp only [Packet.request_join (p := k.signed env { p with
        options := JOIN, buf := word ++ str " " ++ dec k.currentRoom }) rfl, hbuf, hone,
      atoi_dec_int hlow hhigh] at hasks
    simpa [apply_ite some, arg] using hasks

theorem exit_asks (h : k.appendNumber { p with options := EXIT } = some q)
    (hcommand : command = str "/exit" ∨ command = str "/quit") :
    Asks sha256 env k k true q (k.commanded sha256 command p.buf) := by
  unfold appendNumber at h
  dsimp only at h
  split at h
  · cases h
  · cases h
    refine asks_request (n := EXIT) rfl (by decide) (by decide) ?_
    rw [Packet.request_exit (.inl rfl), commanded, if_pos hcommand]
    rfl

/-- **A command is the request that is meant.** -/
theorem userCommand_asks (h : k.userCommand env p = some (q, flag, k', out))
    (hcommand : Config.userCommand p.buf = some command) (hwords : FindsWords env.i p.buf)
    (hlow : -2 ^ 31 ≤ k.currentRoom) (hhigh : k.currentRoom < 2 ^ 31) :
    Asks sha256 env k k' flag q (k.commanded sha256 command p.buf) := by
  cases userCommand_cases h hcommand with
  | exit hexit hcall => exact exit_asks hcall hexit
  | register hcall => exact serverRegistration_asks hcall
  | login hcall hr => exact serverLogin_asks hcall hr (hwords.2.2 hcommand)
  | setname hcall => exact setName_asks hcall
  | setpass hcall => exact setPassword_asks hcall
  | motd => exact other_asks (n := GETMOTD) (by simp) rfl
  | invite hcall hr => exact validInvite_asks hcall hr (hwords.2.1 hcommand) hlow hhigh
  | join hcall hr => exact validJoin_asks hcall hr (hwords.1 hcommand) hlow hhigh
  | leave => exact leave_asks hlow hhigh
  | who hcall => exact who_asks hcall
  | list => exact other_asks (n := GETROOMS) (by simp) rfl
  | here hother hcall =>
    have hnone : k.commanded sha256 command p.buf = none := by
      simp only [serverCommands, List.mem_cons, List.not_mem_nil, or_false, not_or] at hother
      simp only [commanded, hother, if_false, or_self]
    rw [hnone]
    exact asks_nothing

/-! ## Lines -/

@[simp] theorem sentPackets_append {out' : List Output} :
    sentPackets (out ++ out') = sentPackets out ++ sentPackets out' := List.filterMap_append ..

/-- A request is sent as it is, signed. -/
theorem transmit_request (hlow : 0 < p.options) :
    (k.transmit env p).1 = k.signed env p ∧
      sentPackets (k.transmit env p).2 = [k.signed env p] := by
  have hopt : ¬ (1000 ≤ k.currentRoom ∧ p.options = -1) := by omega
  have hsend : 0 < (k.signed env p).options := hlow
  simp only [transmit, hopt, if_false, List.nil_append]
  rw [if_pos hlow]
  exact ⟨rfl, rfl⟩

/-- What is to be said is sent to the room that the client takes its user to be in. -/
theorem transmit_chat (hopt : p.options = INVALID) :
    sentPackets (k.transmit env p).2 = if DEFAULT_ROOM ≤ k.currentRoom then
      [{ k.signed env p with options := k.currentRoom }] else [] := by
  by_cases hroom : DEFAULT_ROOM ≤ k.currentRoom
  · have hcond : 1000 ≤ k.currentRoom ∧ p.options = -1 := ⟨hroom, hopt⟩
    have hpos : 0 < k.currentRoom := by
      have : DEFAULT_ROOM = 1000 := rfl
      omega
    simp only [transmit, hcond, and_self, if_true]
    rw [if_pos hpos, if_pos hroom]
    rfl
  · have hcond : ¬ (1000 ≤ k.currentRoom ∧ p.options = -1) := fun h => hroom h.1
    have hneg : ¬ 0 < p.options := by
      rw [hopt]
      decide
    simp only [transmit, hcond, if_false]
    rw [if_neg hneg, if_neg hroom]
    rfl

theorem log_message_silent (h : k.log_message env p = some out) : sentPackets out = [] := by
  unfold log_message at h
  split at h
  · cases h
    rfl
  · obtain ⟨time, -, rfl⟩ := Option.map_eq_some_iff.mp h
    rfl

/-- What comes of a line that is not empty. -/
theorem round_eq_some (h : k.round env line = some (q, k', out)) (hline : line ≠ []) :
    ∃ p flag out', k.readLine env ⟨0, line, [], [], INVALID⟩ = some (p, flag, k', out') ∧
      (flag = false ∧ q = p ∧ out = out' ∨
        flag = true ∧ q = (k'.sendLine env p).1 ∧ out = out' ++ (k'.sendLine env p).2) := by
  unfold round at h
  dsimp only at h
  rw [if_neg fun h0 => hline (List.length_eq_zero_iff.mp h0)] at h
  obtain ⟨⟨p, flag, k₁, out'⟩, hread, heq⟩ := Option.map_eq_some_iff.mp h
  cases flag with
  | false =>
    cases heq
    exact ⟨_, _, _, hread, .inl ⟨rfl, rfl, rfl⟩⟩
  | true =>
    cases heq
    exact ⟨_, _, _, hread, .inr ⟨rfl, rfl, rfl⟩⟩

/-- **A line is sent as what it asks for**, and where it asks for nothing nothing is sent. -/
theorem round_asked (h : k.round env line = some (q, k', out)) (hserver : k.serverfd ≠ 0)
    (hwords : FindsWords env.i line) (hlow : -2 ^ 31 ≤ k.currentRoom)
    (hhigh : k.currentRoom < 2 ^ 31) :
    (sentPackets out).map (Packet.request sha256) = (k.asked sha256 env.now line).toList := by
  by_cases hline : line = []
  · subst hline
    cases h
    rfl
  obtain ⟨p, flag, out', hread, hsend⟩ := round_eq_some h hline
  rw [asked, if_neg hline]
  unfold readLine at hread
  by_cases hslash : startsWith (str "/") line = true
  · rw [if_pos hslash] at hread ⊢
    cases hcommand : Config.userCommand line with
    | none =>
      rw [userCommand, hcommand] at hread
      cases hread
      obtain ⟨-, -, rfl⟩ | ⟨hf, -⟩ := hsend
      · rfl
      · cases hf
    | some command =>
      have hasks : Asks sha256 env k k' flag p (k.commanded sha256 command line) :=
        userCommand_asks hread hcommand hwords hlow hhigh
      have hsilent := (userCommand_cases hread hcommand).silent
      rw [Option.bind_some, ← hasks.request]
      obtain ⟨rfl, -, rfl⟩ | ⟨rfl, -, rfl⟩ := hsend
      · rw [hsilent]
        rfl
      · obtain ⟨rfl, hpos, -⟩ := hasks.same rfl
        rw [sentPackets_append, hsilent, sendLine, if_pos hserver, (transmit_request hpos).2]
        rfl
  · rw [if_neg hslash] at hread ⊢
    obtain ⟨out₁, hlog, heq⟩ := Option.map_eq_some_iff.mp hread
    cases heq
    obtain ⟨hf, -⟩ | ⟨-, -, rfl⟩ := hsend
    · cases hf
    rw [sentPackets_append, log_message_silent hlog, sendLine, if_pos hserver, transmit_chat rfl]
    split
    · rename_i hroom
      rw [List.nil_append, List.map_singleton, Packet.request_chat hroom]
      rfl
    · rfl

/-! ## Signatures -/

theorem orUsage_flagged {usage : String} {r : Packet × Int}
    (h : orUsage usage r = (q, true, out)) : r.1 = q ∧ r.2 ≠ 0 := by
  unfold orUsage at h
  split at h
  · cases h
  · cases h
    exact ⟨rfl, ‹_›⟩

theorem appendRoom_options {n i currentRoom : Int} {r : Packet × Int}
    (h : appendRoom n i currentRoom p = some r) (hr : r.2 ≠ 0) : r.1.options = n := by
  unfold appendRoom at h
  dsimp only at h
  split at h
  · obtain ⟨word, -, rfl⟩ := Option.map_eq_some_iff.mp h
    rfl
  · cases h
    exact absurd rfl hr

theorem serverLogin_options {i : Int} {r : Packet × Int} (h : serverLogin i p = some r)
    (hr : r.2 ≠ 0) : r.1.options = LOGIN := by
  unfold serverLogin at h
  split at h
  · cases h
  dsimp only at h
  split at h
  · obtain ⟨word, -, rfl⟩ := Option.map_eq_some_iff.mp h
    rfl
  · cases h
    exact absurd rfl hr

/-- Only `/register` and `/setname` ask for names; the one is copied into an array first, the
other is the text from its place on. -/
theorem Commanded.names (h : Commanded env k p command q true k' out) :
    k' = k ∧ 0 < q.options ∧ (q.options = REGISTER → (loginName q).length < 64) ∧
      (q.options = SETNAME → command = str "/setname" ∧ q.buf = p.buf.drop 9) := by
  have hother {n : Int} (hopt : q.options = n) (hpos : 0 < n) (hreg : n ≠ REGISTER)
      (hname : n ≠ SETNAME) : 0 < q.options ∧ (q.options = REGISTER → (loginName q).length < 64) ∧
        (q.options = SETNAME → command = str "/setname" ∧ q.buf = p.buf.drop 9) :=
    ⟨hopt ▸ hpos, fun h => absurd (hopt.symm.trans h) hreg,
      fun h => absurd (hopt.symm.trans h) hname⟩
  cases h with
  | exit _ hcall =>
    unfold appendNumber at hcall
    dsimp only at hcall
    split at hcall
    · cases hcall
    · cases hcall
      exact ⟨rfl, hother (n := EXIT) rfl (by decide) (by decide) (by decide)⟩
  | register hcall =>
    unfold serverRegistration at hcall
    dsimp only at hcall
    split at hcall
    · cases hcall
    split at hcall
    · split at hcall
      · split at hcall
        · cases hcall
        · rename_i hshort
          cases hcall
          exact ⟨rfl, show 0 < REGISTER by decide,
            fun _ => Nat.lt_succ_of_le (Nat.le_of_not_lt hshort),
            fun h => absurd h (show REGISTER ≠ SETNAME by decide)⟩
      · cases hcall
    · cases hcall
  | login hcall hr =>
    obtain ⟨rfl, hone⟩ := orUsage_flagged hr
    exact ⟨rfl, hother (serverLogin_options hcall hone) (by decide) (by decide) (by decide)⟩
  | setname hcall =>
    unfold setName at hcall
    split at hcall
    · cases hcall
      exact ⟨rfl, show 0 < SETNAME by decide,
        fun h => absurd h (show SETNAME ≠ REGISTER by decide), fun _ => ⟨rfl, rfl⟩⟩
    · cases hcall
  | setpass hcall =>
    unfold setPassword at hcall
    dsimp only at hcall
    split at hcall
    · cases hcall
    split at hcall
    · split at hcall
      · cases hcall
        exact ⟨rfl, hother (n := SETPASS) rfl (by decide) (by decide) (by decide)⟩
      · cases hcall
    · cases hcall
  | motd => exact ⟨rfl, hother (n := GETMOTD) rfl (by decide) (by decide) (by decide)⟩
  | invite hcall hr =>
    obtain ⟨rfl, hone⟩ := orUsage_flagged hr
    exact ⟨rfl, hother (appendRoom_options hcall hone) (by decide) (by decide) (by decide)⟩
  | join hcall hr =>
    obtain ⟨rfl, hone⟩ := orUsage_flagged hr
    exact ⟨rfl, hother (appendRoom_options hcall hone) (by decide) (by decide) (by decide)⟩
  | leave => exact ⟨rfl, hother (n := LEAVE) rfl (by decide) (by decide) (by decide)⟩
  | who hcall =>
    unfold ChatClient.who at hcall
    split at hcall
    · cases hcall
      exact ⟨rfl, hother (n := GETALLUSERS) rfl (by decide) (by decide) (by decide)⟩
    split at hcall
    · cases hcall
      exact ⟨rfl, hother (n := GETUSER) rfl (by decide) (by decide) (by decide)⟩
    · unfold appendNumber at hcall
      dsimp only at hcall
      split at hcall
      · cases hcall
      · cases hcall
        exact ⟨rfl, hother (n := GETUSERS) rfl (by decide) (by decide) (by decide)⟩
  | list => exact ⟨rfl, hother (n := GETROOMS) rfl (by decide) (by decide) (by decide)⟩

/-- What is done locally does not change who the user is. -/
theorem localCommand_client {buf : Str} (h : k.localCommand env command buf = some (k', out)) :
    k'.toClient = k.toClient := by
  unfold localCommand at h
  repeat' split at h
  all_goals cases h
  all_goals rfl

theorem Commanded.client (h : Commanded env k p command q flag k' out) :
    k'.toClient = k.toClient := by
  cases h with
  | here _ hcall => exact localCommand_client hcall
  | exit | register | login | setname | setpass | motd | invite | join | leave | who | list => rfl

/-- What the client sends is under its own name. -/
structure Signed (k : ChatClient) (line : Str) (q : Packet) : Prop where
  username : q.username = k.username
  register : q.options = REGISTER → (loginName q).length < 64
  rename : q.options = SETNAME →
    Config.userCommand line = some (str "/setname") ∧ q.buf = line.drop 9

/-- **A round sends at most one packet**, under the client's own name. -/
theorem round_signed (h : k.round env line = some (q, k', out)) :
    k'.toClient = k.toClient ∧
      (sentPackets out = [] ∨ ∃ p, sentPackets out = [p] ∧ k.Signed line p) := by
  by_cases hline : line = []
  · subst hline
    cases h
    exact ⟨rfl, .inl rfl⟩
  obtain ⟨p, flag, out', hread, hsend⟩ := round_eq_some h hline
  unfold readLine at hread
  by_cases hslash : startsWith (str "/") line = true
  · rw [if_pos hslash] at hread
    cases hcommand : Config.userCommand line with
    | none =>
      rw [userCommand, hcommand] at hread
      cases hread
      obtain ⟨-, -, rfl⟩ | ⟨hf, -⟩ := hsend
      · exact ⟨rfl, .inl rfl⟩
      · cases hf
    | some command =>
      have hcases := userCommand_cases hread hcommand
      obtain ⟨rfl, -, rfl⟩ | ⟨rfl, -, rfl⟩ := hsend
      · exact ⟨hcases.client, .inl hcases.silent⟩
      · obtain ⟨rfl, hpos, hreg, hname⟩ := hcases.names
        rw [sentPackets_append, hcases.silent, List.nil_append, sendLine]
        refine ⟨rfl, ?_⟩
        split
        · exact .inr ⟨_, (transmit_request hpos).2, rfl, hreg, fun hopt =>
            ⟨hcommand.trans (congrArg some (hname hopt).1), (hname hopt).2⟩⟩
        · exact .inl rfl
  · rw [if_neg hslash] at hread
    obtain ⟨out₁, hlog, heq⟩ := Option.map_eq_some_iff.mp hread
    cases heq
    obtain ⟨hf, -⟩ | ⟨-, -, rfl⟩ := hsend
    · cases hf
    rw [sentPackets_append, log_message_silent hlog, List.nil_append, sendLine]
    refine ⟨rfl, ?_⟩
    split
    · rw [transmit_chat rfl]
      split
      · rename_i hroom
        have hne {n : Int} (hn : n < DEFAULT_ROOM) : k.currentRoom ≠ n := by omega
        exact .inr ⟨_, rfl, rfl, fun hopt => absurd hopt (hne (by decide)),
          fun hopt => absurd hopt (hne (by decide))⟩
      · exact .inl rfl
    · exact .inl rfl

end ChatClient

namespace Sample

/-- Alice's client in the Lobby. -/
def client : ChatClient where
  username := str "alice"
  currentRoom := 1000
  realname := str "alice"
  serverfd := 3
  logfd := 4
  debugMode := false
  config_file := []

def clientEnv : ClientEnv :=
  ⟨0, fun _ => some (str "now\n"), str "/home", 5, [], 8, ⟨fun _ _ => 3, fun _ => 0⟩, 0⟩

end Sample

/-- Alice asks to go to the den. -/
theorem round_asked_join : ∃ q k' out,
    Sample.client.round Sample.clientEnv (str "/join den") = some (q, k', out) ∧
      (sentPackets out).map (Packet.request Sample.sha256) =
        (Sample.client.asked Sample.sha256 0 (str "/join den")).toList := by
  have hwords : ChatClient.FindsWords 8 (str "/join den") :=
    ⟨fun _ => by unfold StartsRight; decide, fun h => absurd h (by decide),
      fun h => absurd h (by decide)⟩
  refine ⟨_, _, _, rfl, ?_⟩
  exact ChatClient.round_asked
    (show Sample.client.round Sample.clientEnv (str "/join den") = _ from rfl) (by decide) hwords
    (by decide) (by decide)

end TBDChat
