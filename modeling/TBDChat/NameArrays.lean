import TBDChat.Lib.Fields
import TBDChat.CleanReplies

/-!
# Accepted names in their arrays

A validator accepts names as long as the array they are meant for, which leaves no room for
the NUL.  Here are the writes with which the three kinds of name are stored, in the memory
of a `User`, of a `Room` and of the local variable of `set_name`.
-/

namespace TBDChat
open Bytes

set_option maxRecDepth 8000

/-- `username`, `real_name` and a room's `name` in their records. -/
def usernameArray : Field := ⟨0, USERNAME_LENGTH⟩
def realnameArray : Field := ⟨64, REALNAME_LENGTH⟩
def roomnameArray : Field := ⟨8, ROOMNAME_LENGTH⟩

/-- `char name[64]` of `set_name`. -/
def nameArray : Field := ⟨0, 64⟩

/-- So many bytes of memory. -/
abbrev Block (n : Nat) := { bs : List UInt8 // bs.length = n }

/-- A `Room` when its name is copied: `malloc` returned `mem`, the number is in front of the
name and an unlocked mutex behind it. -/
def newRoomMem (mem : Block 80) (ID : Int) : List UInt8 :=
  writeAll [⟨0, leInt ID⟩, ⟨24, List.replicate 40 0⟩] mem.val

/-- The writes of `set_name` to its local variable. -/
def localWrites (buf : Str) : List Write := [⟨0, pad 64 buf⟩, ⟨buf.length, [0]⟩]

/-- A name on its way into its array. -/
inductive Naming where
  /-- `register_user` copies the name to both arrays of a new record. -/
  | register (name pass : Str) (fd : Int)
  /-- `set_name` copies the text to `name`, and from there to the record. -/
  | set_name (u : User) (name : Block 64) (buf : Str)
  /-- `createRoom`. -/
  | room (mem : Block 80) (ID : Int) (name : Str)

/-- A lookup by the name gets to the record, wherever it is in a list. -/
def FoundUser (u : User) (name : Str) : Prop :=
  ∀ (heap : Addr → User) (l₁ l₂ : List Addr) (a : Addr), (heap a).chars = u.chars →
    (∀ b ∈ l₁, (heap b).username ≠ name) → LinkedList.get_user heap (l₁ ++ a :: l₂) name = some a

def FoundRoom (mem : List UInt8) (name : Str) : Prop :=
  ∀ (l₁ l₂ : List Room) (room : Room), room.name = cstr (mem.drop roomnameArray.off) →
    (∀ r ∈ l₁, r.name ≠ name) → LinkedList.Rget_roomFNAME (l₁ ++ room :: l₂) name = some l₁.length

section Storing
variable (sha256 : Str → Digest) (env : Env)

namespace Naming

/-- The validator accepts it. -/
def Accepted : Naming → Prop
  | register name _ _ => acceptsName USERNAME_LENGTH name = true
  | set_name _ _ buf => 0 ∉ buf ∧ acceptsName REALNAME_LENGTH (localName env buf) = true
  | room _ _ name => acceptsName ROOMNAME_LENGTH name = true

/-- It is stored as it was accepted, and can be found. -/
def Faithful : Naming → Prop
  | register name pass fd =>
    usernameArray.Keeps [⟨0, name ++ [0]⟩] env.user.chars name ∧
    realnameArray.Keeps [⟨64, name ++ [0]⟩] (env.user.store 0 (name ++ [0])).chars name ∧
    FoundUser (newUser sha256 env name pass fd) name
  | set_name u name buf =>
    nameArray.Keeps (localWrites buf) (name.val ++ env.behind) (localName env buf) ∧
    realnameArray.Keeps [⟨64, List.replicate 64 0⟩, ⟨64, pad 64 (localName env buf)⟩] u.chars
      (localName env buf)
  | room mem ID name =>
    roomnameArray.Keeps [⟨8, pad ROOMNAME_LENGTH name⟩] (newRoomMem mem ID) name ∧
    FoundRoom (writeAll [⟨8, pad ROOMNAME_LENGTH name⟩] (newRoomMem mem ID)) name

/-- The text that is copied is shorter than its array. -/
def Fits : Naming → Prop
  | register name _ _ => name.length < USERNAME_LENGTH
  | set_name _ _ buf => buf.length < REALNAME_LENGTH
  | room _ _ name => name.length < ROOMNAME_LENGTH

end Naming

/-! ## The writes are those of the handlers -/

theorem newUser_chars (name pass : Str) (fd : Int) : (newUser sha256 env name pass fd).chars =
    writeAll [⟨0, name ++ [0]⟩, ⟨64, name ++ [0]⟩, ⟨128, (sha256 pass).bytes⟩] env.user.chars := rfl

theorem rename_chars (s : Server) (a : Addr) (name : Str) : ((s.rename a name).heap a).chars =
    writeAll [⟨64, List.replicate 64 0⟩, ⟨64, pad 64 name⟩] (s.heap a).chars := by
  simp [Server.rename, Server.modify, Server.writeUserFile, User.store, writeAll]

/-- What `validRealname` is given is what is at the local variable. -/
theorem cstr_localWrites (name : Block 64) {buf : Str} (h0 : 0 ∉ buf) :
    cstr (writeAll (localWrites buf) (name.val ++ env.behind)) = localName env buf := by
  have hfill : poke 0 (pad 64 buf) (name.val ++ env.behind) = pad 64 buf ++ env.behind := by
    have hfit : 0 + (pad 64 buf).length ≤ (name.val ++ env.behind).length := by
      rw [length_pad, List.length_append, name.property, Nat.zero_add]
      exact Nat.le_add_right _ _
    have hdrop := drop_poke_self hfit
    rwa [List.drop_zero, length_pad, Nat.zero_add, List.drop_left' name.property] at hdrop
  show cstr (poke buf.length [0] (poke 0 (pad 64 buf) (name.val ++ env.behind))) = _
  rw [hfill, cstr_poke_nul, localName, strncpy64]
  split
  · rename_i hlt
    rw [cstr_pad h0 hlt, List.take_length]
  · rename_i hge
    have hfull : pad 64 buf = buf.take 64 := by
      rw [pad, Nat.sub_eq_zero_of_le (Nat.le_of_not_lt hge), List.replicate_zero, List.append_nil]
    have hlen : (buf.take 64).length = 64 := List.length_take_of_le (Nat.le_of_not_lt hge)
    rw [hfull, cstr_append fun h => h0 (List.mem_of_mem_take h), List.take_append, hlen,
      List.take_of_length_le (by omega)]

/-- The name of the room is the string there: what follows the array is a zero. -/
theorem cstr_newRoomMem (mem : Block 80) (ID : Int) {name : Str} (h0 : 0 ∉ name) :
    cstr ((writeAll [⟨8, pad ROOMNAME_LENGTH name⟩] (newRoomMem mem ID)).drop
      roomnameArray.off) = name.take ROOMNAME_LENGTH := by
  have hlen : (newRoomMem mem ID).length = 80 := by rw [newRoomMem, length_writeAll, mem.property]
  have hmutex : (newRoomMem mem ID).drop 24 = List.replicate 40 0 ++ mem.val.drop 64 := by
    have hfit : 24 + (List.replicate 40 (0 : UInt8)).length ≤
        (poke 0 (leInt ID) mem.val).length := by
      rw [length_poke, mem.property]
      decide
    rw [newRoomMem]
    show (poke 24 (List.replicate 40 0) (poke 0 (leInt ID) mem.val)).drop 24 = _
    rw [drop_poke_self hfit, drop_poke]
    · rfl
    · rw [leInt, length_le]
      decide
  have hread : (writeAll [⟨8, pad ROOMNAME_LENGTH name⟩] (newRoomMem mem ID)).drop 8 =
      pad ROOMNAME_LENGTH name ++ (newRoomMem mem ID).drop 24 := by
    have hfit : 8 + (pad ROOMNAME_LENGTH name).length ≤ (newRoomMem mem ID).length := by
      rw [length_pad, hlen]
      decide
    show (poke 8 (pad ROOMNAME_LENGTH name) (newRoomMem mem ID)).drop 8 = _
    rw [drop_poke_self hfit, length_pad]
    rfl
  rw [roomnameArray, hread, hmutex, pad, List.append_assoc,
    cstr_append fun h => h0 (List.mem_of_mem_take h), ← List.append_assoc,
    List.replicate_append_replicate]
  obtain ⟨k, hk⟩ : ∃ k, ROOMNAME_LENGTH - name.length + 40 = k + 1 := ⟨_, rfl⟩
  rw [hk, List.replicate_succ, List.cons_append, cstr_zero, List.append_nil]

/-! ## Which names fit -/

section Found
variable {u : User} {name : Str}

/-- A record that reads as the name is found by it. -/
theorem foundUser_of_username (hread : u.username = name) (hlen : name.length < 64) :
    FoundUser u name := by
  intro heap l₁ l₂ a ha hfront
  have hname : (heap a).username = name := by
    rw [← hread]
    refine User.username_eq_of_take (Nat.le_refl 192) ?_ (by rw [ha])
    rw [hread]
    omega
  have hskip : LinkedList.get_user heap l₁ name = none := LinkedList.get_user_none.mpr hfront
  rw [LinkedList.get_user] at hskip ⊢
  rw [List.find?_append, hskip, Option.none_or]
  exact List.find?_cons_of_pos (by simpa using hname)

theorem foundRoom_of_name {mem : List UInt8} (hread : cstr (mem.drop roomnameArray.off) = name) :
    FoundRoom mem name := by
  intro l₁ l₂ room hroom hfront
  have hskip : LinkedList.Rget_roomFNAME l₁ name = none :=
    LinkedList.Rget_roomFNAME_none.mpr hfront
  rw [LinkedList.Rget_roomFNAME] at hskip ⊢
  rw [List.findIdx?_append, hskip, List.findIdx?_cons]
  simp [hroom, hread]

end Found

theorem register_faithful_iff {name pass : Str} {fd : Int}
    (h : acceptsName USERNAME_LENGTH name = true) :
    (Naming.register name pass fd).Faithful sha256 env ↔ name.length < USERNAME_LENGTH := by
  have h0 := zero_not_mem_name h
  constructor
  · intro hf
    exact (strcpy_keeps_iff (f := usernameArray) (by rw [env.user.size]; decide) h0).mp hf.1
  · intro hlen
    refine ⟨?_, ?_, foundUser_of_username (newUser_names h0 hlen).1 hlen⟩
    · exact (strcpy_keeps_iff (f := usernameArray) (by rw [env.user.size]; decide) h0).mpr hlen
    · refine (strcpy_keeps_iff (f := realnameArray) ?_ h0).mpr hlen
      rw [(env.user.store 0 (name ++ [0])).size]
      decide

theorem set_name_faithful_iff {u : User} {name : Block 64} {buf : Str} (h0 : 0 ∉ buf) :
    (Naming.set_name u name buf).Faithful sha256 env ↔ buf.length < REALNAME_LENGTH := by
  constructor
  · intro hf
    exact (hf.1.inside ⟨buf.length, [0]⟩ (List.mem_cons_of_mem _ List.mem_cons_self)).2
  · intro hlen
    have hlocal : localName env buf = buf := if_pos hlen
    rw [Naming.Faithful, hlocal]
    have hmem : nameArray.off + nameArray.size ≤ (name.val ++ env.behind).length := by
      rw [List.length_append, name.property]
      exact Nat.le_add_right _ _
    refine ⟨?_, ?_⟩
    · have hnone : ∀ w ∈ ([] : List Write), nameArray.Covers w := fun w hw => nomatch hw
      have hcopy := (strncpy_keeps_iff hnone hmem h0).mpr hlen
      have hnul := hcopy.nul_again (Nat.zero_le _) hlen
      rwa [show nameArray.off + buf.length = buf.length from Nat.zero_add _] at hnul
    · have hcleared : ∀ w ∈ [(⟨64, List.replicate 64 0⟩ : Write)], realnameArray.Covers w := by
        intro w hw
        rw [List.mem_singleton.mp hw]
        exact ⟨Nat.le_refl _, Nat.le_refl _⟩
      exact (strncpy_keeps_iff hcleared (by rw [u.size]; decide) h0).mpr hlen

theorem room_faithful_iff {mem : Block 80} {ID : Int} {name : Str}
    (h : acceptsName ROOMNAME_LENGTH name = true) :
    (Naming.room mem ID name).Faithful sha256 env ↔ name.length < ROOMNAME_LENGTH := by
  have h0 := zero_not_mem_name h
  have hmem : roomnameArray.off + roomnameArray.size ≤ (newRoomMem mem ID).length := by
    rw [newRoomMem, length_writeAll, mem.property]
    decide
  have hnone : ∀ w ∈ ([] : List Write), roomnameArray.Covers w := fun w hw => nomatch hw
  have hcopy := strncpy_keeps_iff hnone hmem h0
  refine ⟨fun hf => hcopy.mp hf.1, fun hlen => ⟨hcopy.mpr hlen, foundRoom_of_name ?_⟩⟩
  rw [cstr_newRoomMem mem ID h0, List.take_of_length_le (acceptsName_iff.mp h).2.2]

/-- **Which accepted names are stored as they are**: those shorter than their arrays. -/
theorem stored_faithfully_iff (n : Naming) (h : n.Accepted env) :
    n.Faithful sha256 env ↔ n.Fits := by
  cases n with
  | register name pass fd => exact register_faithful_iff sha256 env h
  | set_name u name buf => exact set_name_faithful_iff sha256 env h.1
  | room mem ID name => exact room_faithful_iff sha256 env h

end Storing

theorem stored_faithfully_alice : (Naming.register (str "alice") (str "secret") 4).Accepted
      Sample.env ∧ ((Naming.register (str "alice") (str "secret") 4).Faithful Sample.sha256
        Sample.env ↔ (str "alice").length < USERNAME_LENGTH) := by
  have haccepted : (Naming.register (str "alice") (str "secret") 4).Accepted Sample.env := by
    show acceptsName USERNAME_LENGTH (str "alice") = true
    decide
  exact ⟨haccepted, stored_faithfully_iff Sample.sha256 Sample.env _ haccepted⟩

/-- A username of 64 characters: its NUL is written into `real_name`. -/
theorem name_too_long : ¬ ∀ (sha256 : Str → Digest) (env : Env) (n : Naming), n.Accepted env →
    n.Faithful sha256 env := by
  intro h
  let name : Str := List.replicate 64 97
  have hname : acceptsName USERNAME_LENGTH name = true := by
    rw [acceptsName_iff]
    refine ⟨fun c hc => ?_, by decide, by decide⟩
    rw [List.eq_of_mem_replicate hc]
    decide
  have hkeeps := (h Sample.sha256 Sample.env (.register name (str "secret") 4) hname).1
  have hlast := (hkeeps.inside _ List.mem_cons_self).2
  exact absurd hlast (by decide)

end TBDChat
