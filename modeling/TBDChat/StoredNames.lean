import TBDChat.Changes

/-!
# What the name fields of a record read

The arrays of a record lie one behind the other, and a string is read up to the
first NUL wherever that is.  A name shorter than its array is read back as it was
written.  One that fills it is read on into what lies behind: after a SETNAME into
the password, after a registration from the username into the real name and on.
-/

namespace TBDChat
open Bytes

namespace User
variable {u : User} {off : Nat} {bs : List UInt8}

/-- The record behind the start of a write. -/
theorem drop_mem_store (h : off + bs.length ≤ 192) (u : User) :
    (u.store off bs).mem.drop off = bs ++ u.mem.drop (off + bs.length) := by
  have hlen : off + bs.length ≤ u.chars.length := by rw [u.size]; exact h
  have hoff : off ≤ (poke off bs u.chars).length := by rw [length_poke, u.size]; omega
  have hmem : (u.store off bs).mem =
      poke off bs u.chars ++ (leInt u.sock ++ (leInt u.roomID ++ le 8 u.next)) := rfl
  rw [hmem, List.drop_append_of_le_length hoff, drop_poke_self hlen, mem,
    List.drop_append_of_le_length hlen, List.append_assoc]

/-- The memory of `real_name[64]` is the second of the arrays. -/
theorem take_real_name (u : User) : (u.mem.drop 64).take 64 = (u.chars.take 128).drop 64 := by
  rw [← take_mem (by decide), List.drop_take]

/-- A real name that ends inside its array is not touched by writes behind it. -/
theorem real_name_store (h : u.real_name.length < 64) (hoff : 128 ≤ off) :
    (u.store off bs).real_name = u.real_name := by
  refine cstr_eq_of_take_eq h ?_
  rw [take_real_name, take_real_name]
  exact congrArg (List.drop 64) (take_poke hoff)

/-- What `strncpy` takes of a real name is decided by the arrays. -/
theorem strncpy64_real_name {v : User} (h : u.chars = v.chars) (rest : Str) :
    strncpy64 u.real_name rest = strncpy64 v.real_name rest := by
  have htake : u.real_name.take 64 = v.real_name.take 64 := by
    rw [real_name, real_name, take_cstr, take_cstr, take_real_name, take_real_name, h]
  have hlen (l : Str) : l.length < 64 ↔ (l.take 64).length < 64 := by
    rw [List.length_take]
    omega
  rw [strncpy64, strncpy64]
  by_cases hlt : u.real_name.length < 64
  · have hlt' : v.real_name.length < 64 := by rwa [hlen, ← htake, ← hlen]
    rw [if_pos hlt, if_pos hlt', ← List.take_of_length_le (Nat.le_of_lt hlt), htake,
      List.take_of_length_le (Nat.le_of_lt hlt')]
  · have hge : ¬ v.real_name.length < 64 := by rwa [hlen, ← htake, ← hlen]
    rw [if_neg hlt, if_neg hge, htake]

/-- The name that a SETNAME stores: one as long as the array runs on into the
password. -/
theorem real_name_rename {name : Str} (h0 : (0 : UInt8) ∉ name) (hlen : name.length ≤ 64)
    (u : User) : ((u.store 64 (List.replicate 64 0)).store 64 (pad 64 name)).real_name =
      if name.length < 64 then name else name ++ cstr (u.mem.drop 128) := by
  have hpad : 64 + (pad 64 name).length = 128 := by rw [length_pad]
  have hzero : 64 + (List.replicate 64 (0 : UInt8)).length = 128 := by decide
  have hbehind : (u.store 64 (List.replicate 64 0)).mem.drop 128 = u.mem.drop 128 := by
    have hdrop := congrArg (List.drop 64)
      (@drop_mem_store 64 (List.replicate 64 (0 : UInt8)) (by decide) u)
    rwa [List.drop_drop, List.drop_left' (by simp), hzero] at hdrop
  rw [real_name, drop_mem_store (by rw [hpad]; decide), hpad, hbehind]
  split
  · rename_i hlt
    exact cstr_pad h0 hlt _
  · rename_i hge
    have hfull : pad 64 name = name := by
      rw [pad, List.take_of_length_le hlen, Nat.sub_eq_zero_of_le (Nat.le_of_not_lt hge)]
      exact List.append_nil _
    rw [hfull, cstr_append h0]

/-- A record with the arrays of another has its name, if that ends inside them. -/
theorem username_of_chars {u v : User} (h : u.chars = v.chars) (hlen : v.username.length < 192) :
    u.username = v.username :=
  username_eq_of_take (Nat.le_refl _) hlen (by rw [h])

theorem real_name_of_chars {u v : User} (h : u.chars = v.chars)
    (hlen : v.real_name.length < 128) : u.real_name = v.real_name := by
  refine cstr_eq_of_take_eq hlen ?_
  rw [mem, mem, List.drop_append_of_le_length (by rw [u.size]; decide),
    List.drop_append_of_le_length (by rw [v.size]; decide), h,
    List.take_append_of_le_length (by rw [List.length_drop, v.size]),
    List.take_append_of_le_length (by rw [List.length_drop, v.size])]

end User

/-! ## The record of a registration -/

variable {sha256 : Str → Digest} {env : Env} {name pass : Str} {fd : Int}

/-- A name shorter than its array is both names of the new record. -/
theorem newUser_names (h0 : (0 : UInt8) ∉ name) (hlen : name.length < 64) :
    (newUser sha256 env name pass fd).username = name ∧
    (newUser sha256 env name pass fd).real_name = name := by
  have hfit : (name ++ [(0 : UInt8)]).length ≤ 64 := by
    rw [List.length_append]
    exact hlen
  have hread (l : List UInt8) : cstr (name ++ [0] ++ l) = name := by
    rw [List.append_assoc, cstr_append h0, List.cons_append, cstr_zero, List.append_nil]
  let u := env.user.store 0 (name ++ [0])
  let v := u.store 64 (name ++ [0])
  have hu : u.username = name := by
    have hmem : (env.user.store 0 (name ++ [0])).mem.drop 0 = _ :=
      User.drop_mem_store (by omega) env.user
    rw [List.drop_zero] at hmem
    rw [User.username, hmem, hread]
  have hv : v.username = name ∧ v.real_name = name := by
    refine ⟨(User.username_store (hu.symm ▸ hlen) (Nat.le_refl 64)).trans hu, ?_⟩
    rw [User.real_name, User.drop_mem_store (by omega), hread]
  have hw : (v.store 128 (sha256 pass).bytes).username = name ∧
      (v.store 128 (sha256 pass).bytes).real_name = name := by
    refine ⟨(User.username_store (hv.1.symm ▸ hlen) (by decide)).trans hv.1, ?_⟩
    exact (User.real_name_store (hv.2.symm ▸ hlen) (Nat.le_refl 128)).trans hv.2
  -- `sock` and `next` lie behind all that is read
  have hchars : (newUser sha256 env name pass fd).chars = (v.store 128 (sha256 pass).bytes).chars :=
    rfl
  refine ⟨(User.username_of_chars hchars ?_).trans hw.1,
    (User.real_name_of_chars hchars ?_).trans hw.2⟩
  · rw [hw.1]
    omega
  · rw [hw.2]
    omega

/-- The digest of the password is stored. -/
theorem newUser_hash : (newUser sha256 env name pass fd).hash = (sha256 pass).bytes := by
  let v := (env.user.store 0 (name ++ [0])).store 64 (name ++ [0])
  have hfit : 128 + (sha256 pass).bytes.length ≤ v.chars.length := by
    rw [(sha256 pass).size, v.size]
    decide
  have htake := take_drop_poke hfit
  rwa [(sha256 pass).size] at htake

/-- A name that fills the array is read on through the real name: no packet can
hold the username. -/
theorem newUser_username_long (h0 : (0 : UInt8) ∉ name) (hlen : name.length = 64) :
    128 ≤ (newUser sha256 env name pass fd).username.length := by
  let u := env.user.store 0 (name ++ [0])
  let v := u.store 64 (name ++ [0])
  have hu : u.chars.take 64 = name := by
    have hfit : 0 + (name ++ [(0 : UInt8)]).length ≤ env.user.chars.length := by
      rw [env.user.size, List.length_append, hlen]
      decide
    have hchars : u.chars.drop 0 = name ++ [0] ++ env.user.chars.drop _ := drop_poke_self hfit
    rw [List.drop_zero] at hchars
    rw [hchars, List.append_assoc, ← hlen, List.take_left]
  have hv : v.chars.take 128 = name ++ name := by
    have hfit : 64 + (name ++ [(0 : UInt8)]).length ≤ u.chars.length := by
      rw [u.size, List.length_append, hlen]
      decide
    have hback : v.chars.drop 64 = name ++ [0] ++ u.chars.drop _ := drop_poke_self hfit
    have hfront : v.chars.take 64 = name := (take_poke (Nat.le_refl 64)).trans hu
    rw [← List.take_append_drop 64 (v.chars.take 128), List.take_take, List.drop_take, hback,
      List.append_assoc, Nat.min_eq_left (by decide), hfront]
    exact congrArg (name ++ ·) (List.take_left' hlen)
  have htake : (newUser sha256 env name pass fd).mem.take 128 = name ++ name := by
    rw [User.take_mem (by decide)]
    exact (take_poke (Nat.le_refl 128)).trans hv
  have hnul : (0 : UInt8) ∉ name ++ name := by simpa using h0
  rw [User.username, ← List.take_append_drop 128 (newUser sha256 env name pass fd).mem, htake,
    cstr_append hnul, List.length_append, List.length_append, hlen]
  exact Nat.le_add_right _ _

end TBDChat
