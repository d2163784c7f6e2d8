import TBDChat.Lib.Machine
import Mathlib.Logic.Function.Basic
import Mathlib.Data.List.Basic

/-!
# What the server is for

The chat service in its own terms: accounts, sessions, rooms and who is in which.  There is no
memory here, no list and no packet.  Users, names of rooms, secrets, shown names, connections
and messages are any types.

What happens in a room is posted there: that somebody came or went, has a new name, or said
something.  A post says which connections are to hear of it.

One shown name is nobody's.  A user who takes it keeps the session but cannot come back.
-/

namespace TBDChat.ChatService

variable {U R D N C T : Type}

/-- What is kept of a user. -/
structure Account (D N : Type) where
  secret : D
  shown : N
  deriving DecidableEq

/-- The users who have an account, who is there on which connection and in which room, and the
names of the rooms.  Rooms have numbers in the order in which they were opened. -/
structure State (U R D N C : Type) where
  accounts : U → Option (Account D N)
  session : C → Option U
  place : U → Option Nat
  rooms : List R

/-- What is asked for on a connection.  Where the room of the user matters, the client says
which it takes that to be. -/
inductive Request (U R D N T : Type) where
  | register (u : U) (d : D)
  | login (u : U) (d : D)
  | changeSecret (old new : D)
  | rename (n : N)
  | join (r : R) (here : Option Nat)
  | leave (here : Option Nat)
  | say (room : Nat) (t : T)
  | quit (n : N)
  /-- What is refused, or only asks for information. -/
  | other

/-- What is posted in a room. -/
inductive Notice (N T : Type) where
  | arrived (n : N)
  | left (n : N)
  | joined (n : N)
  | renamed (old new : N)
  | gone (n : N)
  | said (t : T)

structure Post (C N T : Type) where
  room : Nat
  notice : Notice N T
  hears : C → Bool

namespace State
variable [DecidableEq U] [DecidableEq R] [DecidableEq D] [DecidableEq N] [DecidableEq C]
  (calls : U → N) (absent : N) (v : State U R D N C)

/-- The connections of the users in a room, but for one. -/
def hearers (room : Nat) (but : Option C) (d : C) : Bool :=
  but ≠ some d && (v.session d).any fun u => v.place u = some room

/-- The right secret of a user who can be found and is not there yet. -/
def letIn (c : C) (u : U) (d : D) : State U R D N C × List (Post C N T) :=
  match v.accounts u with
  | none => (v, [])
  | some acc =>
    if acc.shown ≠ absent ∧ acc.secret = d ∧ v.place u = none then
      let v' := { v with
        session := Function.update v.session c (some u)
        place := Function.update v.place u (some 0) }
      (v', [⟨0, .arrived acc.shown, v'.hearers 0 none⟩])
    else (v, [])

/-- The state with a new account. -/
def addAccount (u : U) (d : D) : State U R D N C :=
  { v with accounts := Function.update v.accounts u (some ⟨d, calls u⟩) }

/-- Makes sure that there is a room of a name. -/
def openRoom (r : R) : State U R D N C :=
  { v with rooms := if r ∈ v.rooms then v.rooms else v.rooms ++ [r] }

/-- A user goes from one room to another. -/
def move (u : U) (room room' : Nat) : State U R D N C × List (Post C N T) :=
  match v.accounts u with
  | none => (v, [])
  | some acc =>
    let v' := { v with place := Function.update v.place u (some room') }
    (v', [⟨room, .left acc.shown, v'.hearers room none⟩,
      ⟨room', .joined acc.shown, v'.hearers room' none⟩])

/-- What is done for a connection that nobody is logged in on. -/
def guest (c : C) : Request U R D N T → State U R D N C × List (Post C N T)
  | .register u d =>
    match v.accounts u with
    | none => (v.addAccount calls u d).letIn absent c u d
    | some _ => (v, [])
  | .login u d => v.letIn absent c u d
  | _ => (v, [])

/-- What is done for a user on the connection `c`. -/
def member (c : C) (u : U) : Request U R D N T → State U R D N C × List (Post C N T)
  | .changeSecret old new =>
    match v.accounts u with
    | none => (v, [])
    | some acc =>
      if acc.secret = old then
        ({ v with accounts := Function.update v.accounts u (some ⟨new, acc.shown⟩) }, [])
      else (v, [])
  | .rename n =>
    match v.accounts u, v.place u with
    | some acc, some room =>
      ({ v with accounts := Function.update v.accounts u (some ⟨acc.secret, n⟩) },
        [⟨room, .renamed acc.shown n, v.hearers room (some c)⟩])
    | _, _ => (v, [])
  | .join r here =>
    match here with
    | none => (v.openRoom r, [])
    | some room =>
      if v.place u = some room then
        (v.openRoom r).move u room ((v.openRoom r).rooms.findIdx (· = r))
      else (v.openRoom r, [])
  | .leave here =>
    match here with
    | none => (v, [])
    | some room => if room ≠ 0 ∧ v.place u = some room then v.move u room 0 else (v, [])
  | .say room t => (v, [⟨room, .said t, v.hearers room (some c)⟩])
  | .quit n =>
    match v.place u with
    | none => (v, [])
    | some room =>
      ({ v with
          session := Function.update v.session c none
          place := Function.update v.place u none },
        [⟨room, .gone n, v.hearers room none⟩])
  | _ => (v, [])

/-- What is done for whoever is on the connection `c`. -/
def next (c : C) (q : Request U R D N T) : State U R D N C × List (Post C N T) :=
  match v.session c with
  | none => v.guest calls absent c q
  | some u => v.member c u q

omit [DecidableEq U] [DecidableEq R] [DecidableEq D] [DecidableEq N] in
/-- Who hears of something does not depend on accounts or on the names of rooms. -/
theorem hearers_congr {v v' : State U R D N C} (hsession : v'.session = v.session)
    (hplace : v'.place = v.place) : v'.hearers = v.hearers := by
  funext room but d
  rw [hearers, hearers, hsession, hplace]

section Equations
variable {calls absent v} {c : C} {u : U} {acc : Account D N}

omit [DecidableEq R] in
theorem letIn_some {d : D} (h : v.accounts u = some acc)
    (hd : acc.shown ≠ absent ∧ acc.secret = d ∧ v.place u = none) :
    v.letIn (T := T) absent c u d =
      let v' := { v with
        session := Function.update v.session c (some u)
        place := Function.update v.place u (some 0) }
      (v', [⟨0, .arrived acc.shown, v'.hearers 0 none⟩]) := by
  rw [letIn, h]
  exact if_pos hd

omit [DecidableEq R] in
theorem letIn_refused {d : D} (h : v.accounts u = some acc)
    (hd : ¬ (acc.shown ≠ absent ∧ acc.secret = d ∧ v.place u = none)) :
    v.letIn (T := T) absent c u d = (v, []) := by
  rw [letIn, h]
  exact if_neg hd

omit [DecidableEq R] in
theorem letIn_none (h : v.accounts u = none) (d : D) :
    v.letIn (T := T) absent c u d = (v, []) := by
  rw [letIn, h]

omit [DecidableEq R] [DecidableEq D] [DecidableEq N] in
theorem move_some (h : v.accounts u = some acc) (room room' : Nat) :
    v.move (T := T) u room room' =
      let v' := { v with place := Function.update v.place u (some room') }
      (v', [⟨room, .left acc.shown, v'.hearers room none⟩,
        ⟨room', .joined acc.shown, v'.hearers room' none⟩]) := by
  rw [move, h]

omit [DecidableEq N] in
theorem member_changeSecret (h : v.accounts u = some acc) (old new : D) :
    v.member (T := T) c u (.changeSecret old new) =
      if acc.secret = old then
        ({ v with accounts := Function.update v.accounts u (some ⟨new, acc.shown⟩) }, [])
      else (v, []) := by
  rw [member, h]

omit [DecidableEq N] in
theorem member_rename (h : v.accounts u = some acc) {room : Nat} (hplace : v.place u = some room)
    (n : N) : v.member (T := T) c u (.rename n) =
      ({ v with accounts := Function.update v.accounts u (some ⟨acc.secret, n⟩) },
        [⟨room, .renamed acc.shown n, v.hearers room (some c)⟩]) := by
  rw [member, h, hplace]

omit [DecidableEq N] in
theorem member_join {k : Nat} (hplace : v.place u = some k) (r : R) (here : Option Nat) :
    v.member (T := T) c u (.join r here) =
      if here = some k then (v.openRoom r).move u k ((v.openRoom r).rooms.findIdx (· = r))
      else (v.openRoom r, []) := by
  cases here with
  | none => rfl
  | some room =>
    simp only [member, hplace, Option.some.injEq, eq_comm (a := k)]
    split
    · rename_i h
      rw [h]
    · rfl

omit [DecidableEq N] in
theorem member_leave {k : Nat} (hplace : v.place u = some k) (here : Option Nat) :
    v.member (T := T) c u (.leave here) =
      if here = some k ∧ k ≠ 0 then v.move u k 0 else (v, []) := by
  cases here with
  | none => rfl
  | some room =>
    simp only [member, hplace, Option.some.injEq, eq_comm (a := k)]
    by_cases h : room = k
    · simp [h]
    · simp [h]

omit [DecidableEq N] in
theorem member_quit {room : Nat} (hplace : v.place u = some room) (n : N) :
    v.member (T := T) c u (.quit n) =
      ({ v with
          session := Function.update v.session c none
          place := Function.update v.place u none },
        [⟨room, .gone n, v.hearers room none⟩]) := by
  rw [member, hplace]

omit [DecidableEq R] in
theorem guest_register {d : D} (h : v.accounts u = none) :
    v.guest (T := T) (R := R) calls absent c (.register u d) =
      (v.addAccount calls u d).letIn absent c u d := by
  rw [guest, h]

omit [DecidableEq R] in
theorem guest_register_taken {d : D} (h : v.accounts u = some acc) :
    v.guest (T := T) (R := R) calls absent c (.register u d) = (v, []) := by
  rw [guest, h]

end Equations

/-- A restart: only the accounts are kept, and the first room is there. -/
def restart (lobby : R) : State U R D N C := ⟨v.accounts, fun _ => none, fun _ => none, [lobby]⟩

end State

/-- The service, as something that a machine may refine: it is asked for something on a
connection, or restarts. -/
def service [DecidableEq U] [DecidableEq R] [DecidableEq D] [DecidableEq N] [DecidableEq C]
    (calls : U → N) (absent : N) (lobby : R) :
    Machines.Service (State U R D N C) (Option (C × Request U R D N T)) (List (Post C N T)) where
  next v
    | some (c, q) => v.next calls absent c q
    | none => (v.restart lobby, [])

/-! ## Who hears a post -/

section Hearing
variable [DecidableEq U] [DecidableEq R] [DecidableEq D] [DecidableEq N] [DecidableEq C]
  {calls : U → N} {absent : N} {v : State U R D N C} {c d : C} {u : U} {r : Nat}

/-- The connection that does not hear what comes of a request: whoever says something or takes
another name knows. -/
def Request.but (c : C) : Request U R D N T → Option C
  | .rename _ => some c
  | .say _ _ => some c
  | _ => none

omit [DecidableEq U] [DecidableEq R] [DecidableEq D] [DecidableEq N] in
/-- On a connection whose user is in a room that room is heard. -/
theorem State.hearers_of_place (hd : v.session d = some u) (hr : v.place u = some r) (room : Nat)
    (but : Option C) : v.hearers room but d = (decide (room = r) && decide (but ≠ some d)) := by
  rw [hearers, hd, Option.any_some, hr, Bool.and_comm]
  congr 1
  simp [eq_comm]

omit [DecidableEq R] in
theorem State.letIn_posts {w : U} {secret : D} :
    ∀ post ∈ (v.letIn (T := T) absent c w secret).2,
      post.hears = (v.letIn (T := T) absent c w secret).1.hearers post.room none := by
  cases h : v.accounts w with
  | none =>
    rw [letIn_none h]
    exact fun post hpost => (List.not_mem_nil hpost).elim
  | some acc =>
    by_cases hd : acc.shown ≠ absent ∧ acc.secret = secret ∧ v.place w = none
    · rw [letIn_some h hd]
      intro post hpost
      rw [List.mem_singleton.mp hpost]
    · rw [letIn_refused h hd]
      exact fun post hpost => (List.not_mem_nil hpost).elim

omit [DecidableEq R] [DecidableEq D] [DecidableEq N] in
theorem State.move_posts {room room' : Nat} : ∀ post ∈ (v.move (T := T) u room room').2,
    post.hears = (v.move (T := T) u room room').1.hearers post.room none := by
  cases h : v.accounts u with
  | none =>
    rw [move, h]
    exact fun post hpost => (List.not_mem_nil hpost).elim
  | some acc =>
    rw [move_some h]
    intro post hpost
    rcases List.mem_pair.mp hpost with rfl | rfl
    · rfl
    · rfl

/-- A post is heard by those who are in the room, before the request or after it. -/
theorem State.next_posts {q : Request U R D N T} : ∀ post ∈ (v.next calls absent c q).2,
    post.hears = v.hearers post.room (q.but c) ∨
    post.hears = (v.next calls absent c q).1.hearers post.room (q.but c) := by
  rw [next]
  cases v.session c with
  | none =>
    cases q with
    | register u d =>
      cases h : v.accounts u with
      | none =>
        simp only [guest_register h]
        exact fun post hpost => .inr (letIn_posts post hpost)
      | some acc =>
        simp only [guest_register_taken h]
        exact fun post hpost => (List.not_mem_nil hpost).elim
    | login u d => exact fun post hpost => .inr (letIn_posts post hpost)
    | changeSecret | rename | join | leave | say | quit | other =>
      exact fun post hpost => (List.not_mem_nil hpost).elim
  | some u =>
    cases q with
    | register | login | other => exact fun post hpost => (List.not_mem_nil hpost).elim
    | changeSecret old new =>
      cases h : v.accounts u with
      | none =>
        simp only [member, h]
        exact fun post hpost => (List.not_mem_nil hpost).elim
      | some acc =>
        simp only [member_changeSecret h]
        split
        · exact fun post hpost => (List.not_mem_nil hpost).elim
        · exact fun post hpost => (List.not_mem_nil hpost).elim
    | rename n =>
      cases h : v.accounts u with
      | none =>
        simp only [member, h]
        exact fun post hpost => (List.not_mem_nil hpost).elim
      | some acc =>
        cases hr : v.place u with
        | none =>
          simp only [member, h, hr]
          exact fun post hpost => (List.not_mem_nil hpost).elim
        | some room =>
          simp only [member_rename h hr]
          intro post hpost
          rw [List.mem_singleton.mp hpost]
          exact .inl rfl
    | join r here =>
      cases here with
      | none => exact fun post hpost => (List.not_mem_nil hpost).elim
      | some room =>
        simp only [member]
        split
        · exact fun post hpost => .inr (move_posts post hpost)
        · exact fun post hpost => (List.not_mem_nil hpost).elim
    | leave here =>
      cases here with
      | none => exact fun post hpost => (List.not_mem_nil hpost).elim
      | some room =>
        simp only [member]
        split
        · exact fun post hpost => .inr (move_posts post hpost)
        · exact fun post hpost => (List.not_mem_nil hpost).elim
    | say room t =>
      intro post hpost
      rw [List.mem_singleton.mp hpost]
      exact .inl rfl
    | quit n =>
      cases hr : v.place u with
      | none =>
        simp only [member, hr]
        exact fun post hpost => (List.not_mem_nil hpost).elim
      | some room =>
        simp only [member_quit hr]
        intro post hpost
        rw [List.mem_singleton.mp hpost]
        exact .inl rfl

/-- **Whoever stays in a room hears what is posted there**, and nothing else, but for what it
asked for itself. -/
theorem State.hears_of_stay {q : Request U R D N T} (hd : v.session d = some u)
    (hr : v.place u = some r) (hd' : (v.next calls absent c q).1.session d = some u)
    (hr' : (v.next calls absent c q).1.place u = some r) :
    ∀ post ∈ (v.next calls absent c q).2,
      post.hears d = (decide (post.room = r) && decide (q.but c ≠ some d)) := by
  intro post hpost
  rcases next_posts post hpost with h | h
  · rw [h]
    exact State.hearers_of_place hd hr _ _
  · rw [h]
    exact State.hearers_of_place hd' hr' _ _

end Hearing

/-! ## Who gets in -/

section Secrets
variable [DecidableEq U] [DecidableEq R] [DecidableEq D] [DecidableEq N] [DecidableEq C]
  {calls : U → N} {absent : N} {v : State U R D N C} {c d : C} {u : U}

omit [DecidableEq R] in
theorem State.letIn_accounts {w : U} {secret : D} :
    (v.letIn (T := T) absent c w secret).1.accounts = v.accounts := by
  cases h : v.accounts w with
  | none => rw [letIn_none h]
  | some acc =>
    by_cases hd : acc.shown ≠ absent ∧ acc.secret = secret ∧ v.place w = none
    · rw [letIn_some h hd]
    · rw [letIn_refused h hd]

omit [DecidableEq R] in
/-- Whoever is let in was in already, or came with the secret. -/
theorem State.letIn_session {w : U} {secret : D}
    (h : (v.letIn (T := T) absent c w secret).1.session d = some u) : v.session d = some u ∨
      d = c ∧ w = u ∧ v.place u = none ∧ ∃ acc, v.accounts u = some acc ∧ acc.secret = secret := by
  cases hacc : v.accounts w with
  | none =>
    rw [letIn_none hacc] at h
    exact .inl h
  | some acc =>
    by_cases hd : acc.shown ≠ absent ∧ acc.secret = secret ∧ v.place w = none
    · rw [letIn_some hacc hd] at h
      by_cases hdc : d = c
      · subst hdc
        obtain rfl : w = u := by simpa using h
        exact .inr ⟨rfl, rfl, hd.2.2, acc, hacc, hd.2.1⟩
      · simp only [Function.update_of_ne hdc] at h
        exact .inl h
    · rw [letIn_refused hacc hd] at h
      exact .inl h

omit [DecidableEq R] [DecidableEq D] [DecidableEq N] in
theorem State.move_keeps {room room' : Nat} :
    (v.move (T := T) u room room').1.session = v.session ∧
      (v.move (T := T) u room room').1.accounts = v.accounts := by
  cases h : v.accounts u with
  | none =>
    rw [move, h]
    exact ⟨rfl, rfl⟩
  | some acc =>
    rw [move_some h]
    exact ⟨rfl, rfl⟩

omit [DecidableEq N] in
/-- A user's request starts no session. -/
theorem State.member_session {w : U} {q : Request U R D N T}
    (h : (v.member c w q).1.session d = some u) : v.session d = some u := by
  cases q with
  | register | login | other | say => exact h
  | changeSecret old new =>
    rw [member] at h
    split at h
    · exact h
    · split at h
      · exact h
      · exact h
  | rename n =>
    rw [member] at h
    split at h
    · exact h
    · exact h
  | join r here =>
    cases here with
    | none => exact h
    | some room =>
      rw [member] at h
      split at h
      · rwa [move_keeps.1] at h
      · exact h
  | leave here =>
    cases here with
    | none => exact h
    | some room =>
      rw [member] at h
      split at h
      · rwa [move_keeps.1] at h
      · exact h
  | quit n =>
    rw [member] at h
    split at h
    · exact h
    · by_cases hdc : d = c
      · subst hdc
        simp at h
      · simpa only [Function.update_of_ne hdc] using h

/-- **A session begins** with the secret that the account has then. -/
theorem State.next_session {q : Request U R D N T}
    (h : (v.next calls absent c q).1.session d = some u) : v.session d = some u ∨
      d = c ∧ ∃ secret, (q = .register u secret ∨ q = .login u secret) ∧ v.place u = none ∧
        ∃ acc, (v.next calls absent c q).1.accounts u = some acc ∧ acc.secret = secret := by
  rw [next] at h ⊢
  cases hc : v.session c with
  | some w =>
    rw [hc] at h
    exact .inl (member_session h)
  | none =>
    rw [hc] at h
    dsimp only at h ⊢
    cases q with
    | login w secret =>
      obtain h | ⟨rfl, rfl, hplace, acc, hacc, hsecret⟩ := letIn_session h
      · exact .inl h
      · refine .inr ⟨rfl, secret, .inr rfl, hplace, acc, ?_, hsecret⟩
        rw [guest, letIn_accounts, hacc]
    | register w secret =>
      cases hw : v.accounts w with
      | some acc =>
        rw [guest_register_taken hw] at h
        exact .inl h
      | none =>
        rw [guest_register hw] at h ⊢
        obtain h | ⟨rfl, rfl, hplace, acc, hacc, hsecret⟩ := letIn_session h
        · exact .inl h
        · refine .inr ⟨rfl, secret, .inl rfl, hplace, acc, ?_, hsecret⟩
          rw [letIn_accounts, hacc]
    | changeSecret | rename | join | leave | say | quit | other => exact .inl h

/-- **A secret is set** by whoever registers, or by the user, who knows the old one. -/
theorem State.next_secret {q : Request U R D N T} {acc : Account D N}
    (h : (v.next calls absent c q).1.accounts u = some acc) :
    (∃ acc', v.accounts u = some acc' ∧ acc'.secret = acc.secret) ∨
    (v.accounts u = none ∧ v.session c = none ∧ q = .register u acc.secret) ∨
    ∃ acc', v.accounts u = some acc' ∧ v.session c = some u ∧
      q = .changeSecret acc'.secret acc.secret := by
  rw [next] at h
  cases hc : v.session c with
  | none =>
    rw [hc] at h
    dsimp only at h
    cases q with
    | login w secret =>
      rw [guest, letIn_accounts] at h
      exact .inl ⟨acc, h, rfl⟩
    | register w secret =>
      cases hw : v.accounts w with
      | some acc' =>
        rw [guest_register_taken hw] at h
        exact .inl ⟨acc, h, rfl⟩
      | none =>
        rw [guest_register hw, letIn_accounts] at h
        by_cases huw : u = w
        · subst huw
          obtain rfl : ⟨secret, calls u⟩ = acc := by simpa [addAccount] using h
          exact .inr (.inl ⟨hw, rfl, rfl⟩)
        · refine .inl ⟨acc, ?_, rfl⟩
          simpa only [addAccount, Function.update_of_ne huw] using h
    | changeSecret | rename | join | leave | say | quit | other => exact .inl ⟨acc, h, rfl⟩
  | some w =>
    rw [hc] at h
    dsimp only at h
    cases q with
    | register | login | other | say => exact .inl ⟨acc, h, rfl⟩
    | changeSecret old new =>
      cases hw : v.accounts w with
      | none =>
        rw [member, hw] at h
        exact .inl ⟨acc, h, rfl⟩
      | some acc' =>
        rw [member_changeSecret hw] at h
        split at h
        · rename_i hold
          by_cases huw : u = w
          · subst huw
            obtain rfl : ⟨new, acc'.shown⟩ = acc := by simpa using h
            exact .inr (.inr ⟨acc', hw, rfl, by rw [hold]⟩)
          · refine .inl ⟨acc, ?_, rfl⟩
            simpa only [Function.update_of_ne huw] using h
        · exact .inl ⟨acc, h, rfl⟩
    | rename n =>
      rw [member] at h
      split at h
      · rename_i acc' room hw hroom
        by_cases huw : u = w
        · subst huw
          obtain rfl : ⟨acc'.secret, n⟩ = acc := by simpa using h
          exact .inl ⟨acc', hw, rfl⟩
        · refine .inl ⟨acc, ?_, rfl⟩
          simpa only [Function.update_of_ne huw] using h
      · exact .inl ⟨acc, h, rfl⟩
    | join r here =>
      cases here with
      | none => exact .inl ⟨acc, h, rfl⟩
      | some room =>
        rw [member] at h
        split at h
        · rw [move_keeps.2] at h
          exact .inl ⟨acc, h, rfl⟩
        · exact .inl ⟨acc, h, rfl⟩
    | leave here =>
      cases here with
      | none => exact .inl ⟨acc, h, rfl⟩
      | some room =>
        rw [member] at h
        split at h
        · rw [move_keeps.2] at h
          exact .inl ⟨acc, h, rfl⟩
        · exact .inl ⟨acc, h, rfl⟩
    | quit n =>
      rw [member] at h
      split at h
      · exact .inl ⟨acc, h, rfl⟩
      · exact .inl ⟨acc, h, rfl⟩

end Secrets

end TBDChat.ChatService
