import TBDChat.ChatDelivery

/-!
# Safe text

What goes out is text in a packet or a line of a log.  Here is what makes it safe:
the texts that the handlers write themselves, decimal numbers, names that were
accepted and text that was sanitized all are.  What is relayed to a room is logged
as well, so it is as safe as the packet, whoever is in the room.
-/

namespace TBDChat
open Atomic Bytes

/-- A string of safe characters. -/
def Safe (s : Str) : Prop := ∀ c ∈ s, c ∈ safe_buf_chars

instance (s : Str) : Decidable (Safe s) := List.decidableBAll _ s

/-- What goes to a client is safe, and so is a line of a log up to its newline. -/
def Effect.Clean : Effect → Prop
  | .send _ q => Safe q.realname ∧ Safe q.buf
  | .logged _ line => Safe line.dropLast
  | .close _ => True
  | .opened _ => True

/-- All of it is. -/
def Clean (es : List Effect) : Prop := ∀ e ∈ es, e.Clean

/-- `asctime` gives a time in safe characters, and a newline. -/
def Env.Clock (env : Env) : Prop := ∀ t time, env.asctime t = some time → Safe time.dropLast

/-- The texts that the handlers write themselves. -/
def serverTexts : List String :=
  ["Username not found.", "Incorrect password.", "User already logged in.", " has joined the lobby.",
    "Thanks for connecting to the TBDChat Demo Server.", " It's demo day!", "Username unavailable.",
    "Invalid characters in username.", "Username is too short.", "Username is too long.",
    "Invalid characters in requested name.", "Requested name is too short.",
    "Requested name is too long.", "Invalid characters in room name.",
    "Requested room name is too short.", "Requested room name is too long.",
    "Password input does not match.", "Requested password is too short.",
    "Requested password is too long.", "Password change failed, malformed request.",
    "Password change failed, for some reason we couldn't find you.",
    "Password change failed, password mismatch.", " is now known as ",
    "Name change failed, for some reason we couldn't find you.",
    "An invitation could not be sent to ", ".", " has invited you to join ",
    "We were unable to put you in that room, sorry.", " ", " has left the room.",
    " has joined the room.", "User ", " has disconnected.", "Goodbye!", " users online", "-",
    " not found.", "User Lookup", " users in ", " Rooms Found", "Not logged in.",
    "You may not register while logged in.", "Already logged in.", "SERVER", "ERROR", "Lobby",
    " | [", "] "]

/-- The printable characters but the backslash. -/
def plain (c : UInt8) : Bool := 32 ≤ c && c ≤ 126 && c ≠ 92

/-- They are safe. -/
theorem mem_safe_buf_chars {c : UInt8} (h : plain c = true) : c ∈ safe_buf_chars := by
  have hall : ∀ k < 95, (32 + k).toUInt8 = 92 ∨ (32 + k).toUInt8 ∈ safe_buf_chars := by
    decide +kernel
  simp only [plain, Bool.and_eq_true, decide_eq_true_eq] at h
  obtain ⟨⟨hlow, hhigh⟩, hne⟩ := h
  rw [UInt8.le_iff_toNat_le] at hlow hhigh
  have h32 : (32 : UInt8).toNat = 32 := rfl
  have h126 : (126 : UInt8).toNat = 126 := rfl
  have hmem := hall (c.toNat - 32) (by omega)
  rw [Nat.add_sub_cancel' (by omega), Nat.toUInt8_eq, UInt8.ofNat_toNat] at hmem
  exact hmem.resolve_left hne

theorem safe_of_plain {s : Str} (h : s.all plain = true) : Safe s :=
  fun c hc => mem_safe_buf_chars (List.all_eq_true.mp h c hc)

theorem safe_text {text : String} (h : text ∈ serverTexts) : Safe (str text) := by
  have hall : serverTexts.all (fun text => (str text).all plain) = true := by decide +kernel
  exact safe_of_plain (List.all_eq_true.mp hall text h)

section Strings
variable {s t : Str}

@[simp] theorem safe_nil : Safe [] := fun _ h => nomatch h

@[simp] theorem safe_append : Safe (s ++ t) ↔ Safe s ∧ Safe t := List.forall_mem_append

/-- Without what lies behind it, a copy is as safe. -/
theorem Safe.strncpy64_nil {rest : Str} (h : Safe (strncpy64 s rest)) : Safe (strncpy64 s []) := by
  unfold strncpy64 at h ⊢
  split
  · rename_i hlt
    rwa [if_pos hlt] at h
  · rename_i hge
    rw [if_neg hge] at h
    exact safe_append.mpr ⟨(safe_append.mp h).1, safe_nil⟩

/-- What a name may hold, a message may. -/
theorem safe_of_name {limit : Nat} {name : Str} (h : acceptsName limit name = true) :
    Safe name := by
  have hall : safe_name_chars.all plain = true := by decide +kernel
  intro c hc
  exact mem_safe_buf_chars (List.all_eq_true.mp hall c ((acceptsName_iff.mp h).1 c hc))

theorem safe_dec (n : Int) : Safe (dec n) := by
  have hdigits : Safe (digits n.natAbs) := by
    refine safe_of_plain (List.all_eq_true.mpr fun c hc => ?_)
    obtain ⟨hlow, hhigh⟩ := mem_digits hc
    have hne : c ≠ 92 := by
      rintro rfl
      exact absurd hhigh (by decide)
    simp only [plain, Bool.and_eq_true, decide_eq_true_eq]
    exact ⟨⟨UInt8.le_trans (by decide) hlow, UInt8.le_trans hhigh (by decide)⟩, hne⟩
  by_cases h : n < 0
  · have hdec : dec n = 45 :: digits n.natAbs := if_pos h
    rw [hdec]
    exact List.forall_mem_cons.mpr ⟨mem_safe_buf_chars (by decide), hdigits⟩
  · rw [dec_of_nonneg (Int.not_lt.mp h)]
    exact hdigits

theorem safe_sanitized (s : Str) : Safe (s.map (sanitized safe_buf_chars)) := by
  intro c hc
  obtain ⟨d, -, rfl⟩ := List.mem_map.mp hc
  unfold sanitized
  split
  · assumption
  · exact mem_safe_buf_chars (by decide)

end Strings

section Effects
variable {env : Env} {s : Server} {es es' : List Effect} {e : Effect} {fd : Int} {q : Packet}
  {buf : Str} {options : Int}

@[simp] theorem clean_nil : Clean [] := fun _ h => nomatch h

@[simp] theorem clean_cons : Clean (e :: es) ↔ e.Clean ∧ Clean es := List.forall_mem_cons

@[simp] theorem clean_append : Clean (es ++ es') ↔ Clean es ∧ Clean es' := List.forall_mem_append

@[simp] theorem clean_close : (Effect.close fd).Clean := trivial

@[simp] theorem clean_opened : (Effect.opened fd).Clean := trivial

theorem safe_SERVER_NAME : Safe SERVER_NAME := safe_text (by simp [serverTexts])

/-- A packet of the server's own. -/
@[simp] theorem clean_serverPacket :
    (Effect.send fd (serverPacket env options buf)).Clean ↔ Safe buf :=
  and_iff_right safe_SERVER_NAME

/-- A message with a fixed text. -/
theorem clean_fixed (h : Safe buf) : Clean [.send fd (serverPacket env options buf)] :=
  clean_cons.mpr ⟨clean_serverPacket.mpr h, clean_nil⟩

@[simp] theorem clean_fileEffects : Clean (fileEffects s fd) := by
  unfold fileEffects
  split
  · simp
  · simp

@[simp] theorem clean_openEffects {name : Str} : Clean (openEffects s fd name) := by
  unfold openEffects
  split
  · simp
  · simp

/-- A line of the log. -/
theorem clean_logLine (hc : env.Clock) :
    (Effect.logged fd (logLine env q)).Clean ↔ Safe q.realname ∧ Safe q.buf := by
  have htime : Safe ((env.asctime q.timestamp).getD []).dropLast := by
    cases h : env.asctime q.timestamp with
    | none => exact safe_nil
    | some time => exact hc _ _ h
  have hfixed : Safe (str " | [") ∧ Safe (str "] ") :=
    ⟨safe_text (by simp [serverTexts]), safe_text (by simp [serverTexts])⟩
  have hnewline : str "\n" = [10] := rfl
  rw [Effect.Clean, logLine, hnewline, List.dropLast_concat]
  simp only [safe_append, htime, hfixed.1, hfixed.2, true_and, and_true]

/-- What is relayed is logged as well, so it is clean just if the packet is. -/
theorem clean_relay (hc : env.Clock) {r : RoomRef} :
    Clean (relay env s q fd r) ↔ Safe q.realname ∧ Safe q.buf := by
  rw [relay, clean_cons, clean_logLine hc, and_iff_left_of_imp]
  intro hq e he
  obtain ⟨a, -, rfl⟩ := List.mem_map.mp he
  exact hq

theorem clean_announced (hc : env.Clock) {r : RoomRef} :
    Clean (relay env s (serverPacket env options buf) fd r) ↔ Safe buf := by
  rw [clean_relay hc]
  exact and_iff_right safe_SERVER_NAME

end Effects

end TBDChat
