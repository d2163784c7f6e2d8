import TBDChat.Membership

/-!
# Which credentials a login accepts

`login` makes three lookups of the same name.  The first, `get_real_name`, says
that there is no such user by returning the string `ERROR`, and a user may take
that very name with SETNAME.  The other two go by the first record of a name,
which where the user file has duplicates need not be the one the password is for.
-/

namespace TBDChat
open Atomic

set_option maxRecDepth 8000

/-- What a login should accept: the name and password of a registered record
whose name is not active. -/
structure Server.Credentials (s : Server) (user : Str) (hash : Digest) : Prop where
  record : ∃ a ∈ s.registered_users_list,
    (s.heap a).username = user ∧ (s.heap a).hash = hash.bytes
  inactive : ∀ b ∈ s.active_users_list, (s.heap b).username ≠ user

/-- Credentials that some record has are those of the first record of the name,
and its owner is not called `ERROR`. -/
def Server.Findable (s : Server) (user : Str) (hash : Digest) : Prop :=
  ∀ a ∈ s.registered_users_list, (s.heap a).username = user → (s.heap a).hash = hash.bytes →
    ∃ c, LinkedList.get_user s.heap s.registered_users_list user = some c ∧
      (s.heap c).real_name ≠ ERROR ∧ (s.heap c).hash = hash.bytes

variable {sha256 : Str → Digest} {env : Env} {p : Packet} {fd : Int} {s : Server}

/-- What a login does accept. -/
def Server.Accepts (s : Server) (user : Str) (hash : Digest) : Prop :=
  (∃ a, s.account user = some a ∧ (s.heap a).hash = hash.bytes) ∧
  LinkedList.get_user s.heap s.active_users_list user = none

theorem login_value (sha256 : Str → Digest) (env : Env) (fd : Int) (ht : s.Table)
    (hw : 2 < (words p.buf).length) (hw' : (words p.buf).length ≤ 15) :
    ∃ b, (ops.run (login sha256 env p fd) s).value? = some b ∧
      (b = true ↔ s.Accepts (loginName p) (sha256 (arg (words p.buf) 2))) := by
  rw [run_login, if_neg (Nat.not_lt_of_le hw'), if_neg (Nat.not_le_of_lt hw), loginName]
  cases ha : s.account (arg (words p.buf) 1) with
  | none => exact ⟨false, rfl, by simp [Server.Accepts, ha]⟩
  | some a =>
    by_cases hp : (s.heap a).hash = (sha256 (arg (words p.buf) 2)).bytes
    · cases hact : LinkedList.get_user s.heap s.active_users_list (arg (words p.buf) 1) with
      | some b => exact ⟨false, by simp [hp], by simp [Server.Accepts, hact]⟩
      | none => exact ⟨true, by simp [hp, ht.Rget_lobby], by simp [Server.Accepts, ha, hp, hact]⟩
    · exact ⟨false, by simp [hp], by simp [Server.Accepts, ha, hp]⟩

/-- What a login accepts is right. -/
theorem Server.Accepts.credentials {user : Str} {hash : Digest} (h : s.Accepts user hash) :
    s.Credentials user hash := by
  obtain ⟨⟨a, ha, hp⟩, hact⟩ := h
  obtain ⟨hmem, hname⟩ := LinkedList.get_user_some (Server.account_some ha)
  exact ⟨⟨a, hmem, hname, hp⟩, LinkedList.get_user_none.mp hact⟩

/-- What is right is accepted just if it is found. -/
theorem accepts_of_credentials_iff {user : Str} {hash : Digest} :
    (s.Credentials user hash → s.Accepts user hash) ↔
      (∃ b ∈ s.active_users_list, (s.heap b).username = user) ∨ s.Findable user hash := by
  constructor
  · intro h
    by_cases hact : ∃ b ∈ s.active_users_list, (s.heap b).username = user
    · exact .inl hact
    · refine .inr fun a ha hname hp => ?_
      -- as nobody is active under the name, the record has the right credentials
      have hoff : ∀ b ∈ s.active_users_list, (s.heap b).username ≠ user :=
        fun b hb he => hact ⟨b, hb, he⟩
      obtain ⟨⟨c, hc, hhash⟩, -⟩ := h ⟨⟨a, ha, hname, hp⟩, hoff⟩
      refine ⟨c, Server.account_some hc, ?_, hhash⟩
      intro hreal
      simp [Server.account, Server.account_some hc, hreal] at hc
  · rintro (⟨b, hb, he⟩ | hfind) hcred
    · exact absurd he (hcred.inactive b hb)
    · obtain ⟨a, ha, hname, hp⟩ := hcred.record
      obtain ⟨c, hc, hreal, hhash⟩ := hfind a ha hname hp
      exact ⟨⟨c, by simp [Server.account, hc, hreal], hhash⟩,
        LinkedList.get_user_none.mpr hcred.inactive⟩

/-- **A login accepts exactly the right credentials**, in every reachable state,
just where they are found by their name: somebody is active under the name, or
the records that have these credentials are led by one that has them and is not
called `ERROR`. -/
theorem login_accepts_iff {w : World} (hw : Reachable sha256 w)
    (hwords : 3 ≤ (words p.buf).length) (hwords' : (words p.buf).length ≤ 15) :
    ∃ b, (ops.run (login sha256 env p fd) w.server).value? = some b ∧
      ((b = true ↔ w.server.Credentials (loginName p) (sha256 (arg (words p.buf) 2))) ↔
        (∃ c ∈ w.server.active_users_list, (w.server.heap c).username = loginName p) ∨
        w.server.Findable (loginName p) (sha256 (arg (words p.buf) 2))) := by
  obtain ⟨b, hb, haccepts⟩ := login_value sha256 env fd
    hw.table hwords hwords'
  refine ⟨b, hb, ?_⟩
  rw [← accepts_of_credentials_iff, haccepts]
  exact ⟨fun h => h.mpr, fun h => ⟨Server.Accepts.credentials, h⟩⟩

/-- Alice comes back. -/
theorem login_accepts_iff_again :
    ∃ b, (ops.run (login Sample.sha256 Sample.env
      ⟨0, str "/login alice secret", [], [], LOGIN⟩ 5)
      (Sample.world (Sample.enter 4 "alice" ++ [Sample.packet 4 EXIT "alice" ""])).server).value? =
        some b ∧
      ((b = true ↔ (Sample.world (Sample.enter 4 "alice" ++
          [Sample.packet 4 EXIT "alice" ""])).server.Credentials (str "alice")
          (Sample.sha256 (str "secret"))) ↔
        (∃ c ∈ (Sample.world (Sample.enter 4 "alice" ++
            [Sample.packet 4 EXIT "alice" ""])).server.active_users_list,
          ((Sample.world (Sample.enter 4 "alice" ++
            [Sample.packet 4 EXIT "alice" ""])).server.heap c).username = str "alice") ∨
        (Sample.world (Sample.enter 4 "alice" ++
          [Sample.packet 4 EXIT "alice" ""])).server.Findable (str "alice")
          (Sample.sha256 (str "secret"))) :=
  login_accepts_iff (Sample.reachable _) (by decide) (by decide)

/-- Alice takes the name `ERROR` and cannot come back. -/
theorem login_rejects_ERROR : ¬ ∀ (sha256 : Str → Digest) (env : Env) (w : World) (p : Packet)
    (fd : Int), Reachable sha256 w → w.conns fd = .serving none → 3 ≤ (words p.buf).length →
    (words p.buf).length ≤ 15 →
    ((ops.run (login sha256 env p fd) w.server).value? = some true ↔
      w.server.Credentials (loginName p) (sha256 (arg (words p.buf) 2))) := by
  intro h
  let events := Sample.enter 4 "alice" ++ [Sample.packet 4 SETNAME "alice" "ERROR",
    Sample.packet 4 EXIT "alice" "", .accept 4]
  have hright : (Sample.world events).server.Credentials (str "alice")
      (Sample.sha256 (str "secret")) := by
    have hrecord : 0 ∈ (Sample.world events).server.registered_users_list ∧
        ((Sample.world events).server.heap 0).username = str "alice" ∧
        ((Sample.world events).server.heap 0).hash = (Sample.sha256 (str "secret")).bytes := by
      decide
    have hnobody : (Sample.world events).server.active_users_list = [] := by decide
    exact ⟨⟨0, hrecord⟩, by rw [hnobody]; simp⟩
  have hlogin := (h Sample.sha256 Sample.env (Sample.world events)
    ⟨0, str "/login alice secret", [], [], LOGIN⟩ 4 (Sample.reachable events) (by decide)
    (by decide) (by decide)).mpr hright
  exact absurd hlogin (by decide)

end TBDChat
