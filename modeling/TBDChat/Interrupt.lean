import TBDChat.ServiceRuns

/-!
# The end of the server

On ^C the server goes through the users who are logged in, to close their connections, and gives
the memory of the list back on its way.  `exit_client` is called with a packet of `SERVER` and so
looks for that user, of whom there is none: no connection is closed.  And it looks from the head
of the list, which has been given back by the time of the second user.
-/

namespace TBDChat
open Atomic ChatService

set_option maxRecDepth 8000

/-- The records at which `get_user` looks. -/
def LinkedList.lookedAt (heap : Addr → User) (user : Str) : List Addr → List Addr
  | [] => []
  | a :: l => a :: if (heap a).username = user then [] else lookedAt heap user l

/-- The records that `exit_client` reads: those it looks at for the user, and all in the room of
the user it has found. -/
def Server.exitReads (s : Server) (user : Str) : List Addr :=
  LinkedList.lookedAt s.heap user s.active_users_list ++
    match LinkedList.get_user s.heap s.active_users_list user with
    | none => []
    | some a => match LinkedList.Rget_roomFID s.room_list (s.heap a).roomID with
      | none => []
      | some r => s.members r

/-- The loop of the server's `sigintHandler` from a node on.  A node is freed with its record, so
that the record stands for both.  There is no result where freed memory is read, or where
`exit_client` does not come to its end. -/
def closeUsers (env : Env) : List Addr → Server → Option (Server × List Effect)
  | [], s => some (s, [])
  | a :: temp, s =>
    let ret := serverPacket env 0 []
    -- the username is printed first
    if a ∈ s.freed ∨ ∃ b ∈ s.exitReads ret.username, b ∈ s.freed then none
    else match ops.run (exit_client env ret (s.heap a).sock) s with
      | .error _ => none
      | .ok (_, s', es) => do
        -- the next node was read before, those behind it are the ones that are linked now
        let next := temp.take 1 ++ (temp.drop 1).filter (· ∈ s'.active_users_list)
        let (s'', es') ← closeUsers env next (s'.free a)
        pure (s'', es ++ es')
termination_by temp => temp.length
decreasing_by
  have hfilter := List.length_filter_le (· ∈ s'.active_users_list) (temp.drop 1)
  simp only [List.length_append, List.length_take, List.length_drop, List.length_cons] at *
  omega

/-- The server's `sigintHandler`, while the other threads do nothing. -/
def sigintHandler (env : Env) (chat_serv_sock_fd : Int) (s : Server) :
    Option (Server × List Effect) := do
  let (s', es) ← closeUsers env s.active_users_list s
  -- the nodes of the registered users are freed, but nothing looks at them any more
  pure (s', es ++ [.close chat_serv_sock_fd])

/-! ## Nobody is called `SERVER` -/

section Unknown
variable {heap : Addr → User} {user : Str} {l : List Addr} {s s' : Server} {a b : Addr}
  {temp rest : List Addr} {env : Env} {fd : Int} {es : List Effect}

theorem LinkedList.lookedAt_of_none (h : get_user heap l user = none) :
    lookedAt heap user l = l := by
  have hne := get_user_none.mp h
  clear h
  induction l with
  | nil => rfl
  | cons a l ih =>
    rw [lookedAt, if_neg (hne a List.mem_cons_self),
      ih fun b hb => hne b (List.mem_cons_of_mem a hb)]

theorem Server.exitReads_of_none
    (h : LinkedList.get_user s.heap s.active_users_list user = none) :
    s.exitReads user = s.active_users_list := by
  rw [exitReads, h, LinkedList.lookedAt_of_none h, List.append_nil]

variable (h : LinkedList.get_user s.heap s.active_users_list SERVER_NAME = none)
include h

/-- One round does nothing but free the record. -/
theorem closeUsers_cons : closeUsers env (a :: temp) s =
    if a ∈ s.freed ∨ ∃ b ∈ s.active_users_list, b ∈ s.freed then none
    else closeUsers env (temp.take 1 ++ (temp.drop 1).filter (· ∈ s.active_users_list))
      (s.free a) := by
  have hname : (serverPacket env 0 []).username = SERVER_NAME := rfl
  rw [closeUsers]
  dsimp only
  rw [hname, Server.exitReads_of_none h, run_exit_client, hname, h]
  split
  · rfl
  · simp

/-- With a second user, `exit_client` comes upon what was the first. -/
theorem closeUsers_two (hactive : s.active_users_list = a :: b :: rest) :
    closeUsers env s.active_users_list s = none := by
  rw [hactive, closeUsers_cons h]
  split
  · rfl
  · have hnone : LinkedList.get_user (s.free a).heap (s.free a).active_users_list SERVER_NAME =
        none := h
    have hhead : a ∈ (s.free a).active_users_list := by
      rw [Server.free, hactive]
      exact List.mem_cons_self
    rw [List.take_succ_cons, List.cons_append, closeUsers_cons hnone,
      if_pos (.inr ⟨a, hhead, List.mem_cons_self⟩)]

theorem closeUsers_one (hactive : s.active_users_list = [a]) :
    closeUsers env s.active_users_list s = if a ∈ s.freed then none else some (s.free a, []) := by
  rw [hactive, closeUsers_cons h, hactive]
  simp [closeUsers]

/-- The handler comes to its end if there is at most one user, whose record has not been freed
before. -/
theorem sigintHandler_iff : (∃ x, sigintHandler env fd s = some x) ↔
    s.active_users_list.length ≤ 1 ∧ ∀ a ∈ s.active_users_list, a ∉ s.freed := by
  unfold sigintHandler
  cases hactive : s.active_users_list with
  | nil => simp [closeUsers]
  | cons a rest =>
    rw [← hactive]
    cases rest with
    | nil =>
      rw [closeUsers_one h hactive, hactive]
      by_cases hfreed : a ∈ s.freed <;> simp [hfreed]
    | cons b rest =>
      rw [closeUsers_two h hactive, hactive]
      simp

/-- It tells nobody. -/
theorem sigintHandler_silent (hrun : sigintHandler env fd s = some (s', es)) :
    es = [.close fd] ∧ s'.users_file = s.users_file := by
  have hone := ((sigintHandler_iff h).mp ⟨_, hrun⟩).1
  unfold sigintHandler at hrun
  cases hactive : s.active_users_list with
  | nil =>
    rw [hactive, closeUsers] at hrun
    cases hrun
    exact ⟨rfl, rfl⟩
  | cons a rest =>
    obtain rfl : rest = [] := by
      rw [hactive, List.length_cons] at hone
      exact List.eq_nil_of_length_eq_zero (by omega)
    rw [closeUsers_one h hactive] at hrun
    split at hrun
    · cases hrun
    · cases hrun
      exact ⟨rfl, rfl⟩

end Unknown

/-! ## In a life -/

section Lives
variable {sha256 : Str → Digest} {p : Packet} {u : Str} {secret : List UInt8}
  {life : Life sha256} {t : Nat}

theorem Packet.request_register_ne (h : p.request sha256 = .register u secret) :
    u ≠ SERVER_NAME := by
  unfold Packet.request at h
  dsimp only at h
  split_ifs at h with _ _ hreg
  cases h
  exact fun he => hreg.2.2.2.1 he.symm

/-- No account is made for `SERVER`. -/
theorem Life.no_server (hstart : (life.state 0).server.accounts SERVER_NAME = none)
    (ht : t ≤ life.length) : (life.state t).server.accounts SERVER_NAME = none := by
  induction t with
  | zero => exact hstart
  | succ t ih =>
    have hnone : (life.state t).service.accounts SERVER_NAME = none := ih (by omega)
    rw [Option.eq_none_iff_forall_ne_some]
    intro acc hacc
    have hacc : (life.state (t + 1)).service.accounts SERVER_NAME = some acc := hacc
    rw [life.service_succ (by omega)] at hacc
    cases hh : life.happening t with
    | restart fd =>
      rw [hh] at hacc
      exact Option.some_ne_none _ (hacc.symm.trans hnone)
    | event e =>
      rw [hh] at hacc
      obtain ⟨acc', hacc', -⟩ | ⟨-, -, hrequest⟩ | ⟨acc', hacc', -⟩ := State.next_secret hacc
      · exact Option.some_ne_none _ (hacc'.symm.trans hnone)
      · cases e with
        | accept fd => cases hrequest
        | packet fd p env => exact Packet.request_register_ne hrequest rfl
      · exact Option.some_ne_none _ (hacc'.symm.trans hnone)

/-- Whoever is active has an account. -/
theorem Server.Housed.active_none {s : Server} (hi : s.Housed) (h : s.accounts u = none) :
    LinkedList.get_user s.heap s.active_users_list u = none := by
  refine LinkedList.get_user_none.mpr fun a ha => ?_
  exact LinkedList.get_user_none.mp (Option.map_eq_none_iff.mp h) a (hi.known a ha)

/-- **^C tells nobody, and reads freed memory if there are two users.**  Unless the user file has
an account for `SERVER` in it, the handler closes no connection and sends nothing.  It comes to its
end just if at most one user is logged in, whose record no rejected login has freed.  The accounts
are there when the server is started again. -/
theorem Life.interrupt_iff (hstart : (life.state 0).server.accounts SERVER_NAME = none)
    (ht : t ≤ life.length) (env : Env) (fd : Int) :
    let s := (life.state t).server
    ((∃ x, sigintHandler env fd s = some x) ↔
      s.active_users_list.length ≤ 1 ∧ ∀ a ∈ s.active_users_list, a ∉ s.freed) ∧
    ∀ s' es, sigintHandler env fd s = some (s', es) →
      es = [.close fd] ∧ ∀ fd', (Server.boot s'.users_file fd').accounts = s.accounts := by
  obtain ⟨hstates, -⟩ := Machines.Refines.run life.next life.proper life.starts
  obtain ⟨⟨hsettled, hsaved⟩, -⟩ := hstates t ht
  have hnone := hsettled.memory.housed.active_none (Life.no_server hstart ht)
  refine ⟨sigintHandler_iff hnone, fun s' es hrun => ?_⟩
  obtain ⟨hes, hfile⟩ := sigintHandler_silent hnone hrun
  refine ⟨hes, fun fd' => ?_⟩
  rw [hfile]
  exact congrArg State.accounts (hsettled.restart hsaved fd').2

/-- The server ends well while Alice is alone, and no longer when Bob has come. -/
theorem interrupt_iff_alice :
    (∃ x, sigintHandler Sample.env 3 (Sample.comeback.state 2).server = some x) ∧
    ¬ ∃ x, sigintHandler Sample.env 3 (Sample.comeback.state 4).server = some x := by
  have halone := @Life.interrupt_iff _ Sample.comeback 2 (by decide) (by decide) Sample.env 3
  have hboth := @Life.interrupt_iff _ Sample.comeback 4 (by decide) (by decide) Sample.env 3
  refine ⟨halone.1.mpr (by decide), fun hends => ?_⟩
  exact absurd (hboth.1.mp hends) (by decide)

end Lives

end TBDChat
