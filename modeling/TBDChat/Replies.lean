import TBDChat.RoomTable

/-!
# The replies that a client acts on

Of all it receives a client takes its current room from two kinds of reply, the
word that its login succeeded and the word that it is in a new room.  `Received`
does not say which replies are among those that change nothing; here it is shown
that these two are not, and that they go to nobody but the sender of the packet.
-/

namespace TBDChat
open Atomic

/-- A packet after which a client is in the room it was in, and goes on. -/
def Packet.Quiet (q : Packet) : Prop := 0 < q.options ∧ q.options ∉ [LOGSUC, JOINSUC, EXIT]

/-- The same of what goes to a client. -/
def Effect.Quiet : Effect → Prop
  | .send _ q => q.Quiet
  | .logged _ _ => True
  | .close _ => True
  | .opened _ => True

/-- All of it is. -/
def AllQuiet (es : List Effect) : Prop := ∀ e ∈ es, e.Quiet

variable {sha256 : Str → Digest} {env : Env} {p q : Packet} {fd : Int} {s s' : Server}
  {es es' : List Effect} {e : Effect} {b : Bool} {options : Int} {buf : Str}

section Effects

@[simp] theorem allQuiet_nil : AllQuiet [] := fun _ h => absurd h List.not_mem_nil

@[simp] theorem allQuiet_cons : AllQuiet (e :: es) ↔ e.Quiet ∧ AllQuiet es := List.forall_mem_cons

@[simp] theorem allQuiet_append : AllQuiet (es ++ es') ↔ AllQuiet es ∧ AllQuiet es' :=
  List.forall_mem_append

/-- A packet is quiet by its option alone. -/
theorem Effect.quiet_of_options (h : 0 < options ∧ options ∉ [LOGSUC, JOINSUC, EXIT])
    (hq : q.options = options) : (Effect.send fd q).Quiet := by
  subst hq
  exact h

/-- A message of one of the other codes. -/
theorem allQuiet_message (h : 0 < options ∧ options ∉ [LOGSUC, JOINSUC, EXIT]) :
    AllQuiet [.send fd (serverPacket env options buf)] :=
  allQuiet_cons.mpr ⟨Effect.quiet_of_options h rfl, allQuiet_nil⟩

/-- An error text changes nothing for the client. -/
theorem allQuiet_error : AllQuiet [.send fd (serverPacket env SERV_ERR buf)] :=
  allQuiet_message (by decide)

/-- The traffic of a room carries its number, which is no code of a reply. -/
theorem allQuiet_relay {r : RoomRef} (h : 1000 ≤ q.options) : AllQuiet (relay env s q fd r) := by
  have hcode : 0 < q.options ∧ q.options ∉ [LOGSUC, JOINSUC, EXIT] := by
    simp only [List.mem_cons, List.not_mem_nil, or_false, LOGSUC, JOINSUC, EXIT]
    omega
  refine allQuiet_cons.mpr ⟨trivial, fun e he => ?_⟩
  obtain ⟨a, -, rfl⟩ := List.mem_map.mp he
  exact Effect.quiet_of_options hcode rfl

@[simp] theorem allQuiet_fileEffects : AllQuiet (fileEffects s fd) := by
  unfold fileEffects
  split
  · simp [Effect.Quiet]
  · simp [Effect.Quiet]

@[simp] theorem allQuiet_openEffects {name : Str} : AllQuiet (openEffects s fd name) := by
  unfold openEffects
  split
  · simp [Effect.Quiet]
  · simp

/-- Neither do the answers to a bad name. -/
theorem allQuiet_nameReply {invalid short long : String} {limit : Nat} {name : Str} :
    AllQuiet (nameReply env invalid short long limit name fd) := by
  unfold nameReply
  split
  · exact allQuiet_error
  split
  · exact allQuiet_error
  split
  · exact allQuiet_error
  · exact allQuiet_nil

theorem allQuiet_passwordReply {pass1 pass2 : Str} :
    AllQuiet (passwordReply env pass1 pass2 fd) := by
  unfold passwordReply
  split
  · exact allQuiet_error
  split
  · exact allQuiet_error
  split
  · exact allQuiet_error
  · exact allQuiet_nil

/-- The lines of a listing have the listing's option. -/
theorem allQuiet_userLines {l : List Addr} (h : 0 < options ∧ options ∉ [LOGSUC, JOINSUC, EXIT]) :
    AllQuiet (userLines env s options fd l) := by
  intro e he
  obtain ⟨a, -, rfl⟩ := List.mem_map.mp he
  exact Effect.quiet_of_options h rfl

end Effects

/-! ## Handlers that only answer -/

section Handlers

/-- What is logged is no reply, and neither is what the room hears then. -/
theorem not_all_reply_relay {r : RoomRef} (hes : ∀ e ∈ relay env s q fd r, e.Reply) : False := by
  obtain ⟨d, q', he, -⟩ := hes _ List.mem_cons_self
  cases he

/-- If all that `set_name` did is a reply, it was an error. -/
theorem set_name_quiet (h : ops.run (set_name env p fd) s = .ok ((), s', es))
    (hes : ∀ e ∈ es, e.Reply) : AllQuiet es := by
  rw [run_set_name] at h
  split at h
  · cases h
    exact allQuiet_nameReply
  split at h
  · cases h
    exact allQuiet_error
  obtain ⟨es', hrun, rfl⟩ := Outcome.prepend_eq_ok h
  obtain ⟨r, es₂, -, hend, rfl⟩ := announce_then_eq_ok hrun
  exact (not_all_reply_relay fun e he =>
    hes e (List.mem_append_right _ (List.mem_append_left _ he))).elim

/-- `set_pass` answers with PASSSUC or an error. -/
theorem set_pass_quiet (h : ops.run (set_pass sha256 env p fd) s = .ok ((), s', es)) :
    AllQuiet es := by
  rw [run_set_pass] at h
  split at h
  · cases h
  split at h
  · cases h
    exact allQuiet_error
  split at h
  · cases h
    exact allQuiet_passwordReply
  split at h
  · cases h
    exact allQuiet_error
  split at h
  · cases h
    exact allQuiet_error
  · cases h
    exact allQuiet_append.mpr ⟨allQuiet_fileEffects, allQuiet_message (by decide)⟩

/-- A JOIN that was carried out is heard in two rooms, so that one that is only answered was not. -/
theorem join_quiet (h : ops.run (join env p fd) s = .ok ((), s', es))
    (hes : ∀ e ∈ es, e.Reply) : AllQuiet es := by
  rw [run_join] at h
  split at h
  · cases h
  split at h
  · cases h
    exact allQuiet_error
  split at h
  · cases h
    exact allQuiet_append.mpr ⟨allQuiet_nameReply, allQuiet_error⟩
  obtain ⟨es', hrun, rfl⟩ := Outcome.prepend_eq_ok h
  rw [run_changeRoom] at hrun
  split at hrun
  · cases hrun
    exact allQuiet_append.mpr ⟨allQuiet_openEffects, allQuiet_nil⟩
  split at hrun
  · cases hrun
  split at hrun
  · cases hrun
  obtain ⟨es₁, hmoved, rfl⟩ := Outcome.prepend_eq_ok hrun
  obtain ⟨q, es₃, -, hjoined, rfl⟩ := announce_then_eq_ok hmoved
  exact (not_all_reply_relay fun e he => hes e (List.mem_append_right _
    (List.mem_append_right _ (List.mem_append_left _ he)))).elim

/-- The same of LEAVE. -/
theorem leave_quiet (h : ops.run (leave env p fd) s = .ok ((), s', es))
    (hes : ∀ e ∈ es, e.Reply) : AllQuiet es := by
  rw [run_leave] at h
  split at h
  · cases h
  split at h
  · cases h
    exact allQuiet_nil
  split at h
  · cases h
    exact allQuiet_nil
  split at h
  · cases h
    exact allQuiet_nil
  split at h
  · cases h
  obtain ⟨q, es₂, -, hann, rfl⟩ := announce_then_eq_ok h
  exact (not_all_reply_relay fun e he => hes e (List.mem_append_left _ he)).elim

/-- An invitation goes to another client, but with its own option. -/
theorem invite_quiet (h : ops.run (invite env p fd) s = .ok ((), s', es)) : AllQuiet es := by
  rw [run_invite] at h
  split at h
  · cases h
  cases h
  split
  · exact allQuiet_error
  split
  · have hcode : 0 < INVITE ∧ INVITE ∉ [LOGSUC, JOINSUC, EXIT] := by decide
    exact allQuiet_cons.mpr ⟨Effect.quiet_of_options hcode rfl, allQuiet_message (by decide)⟩
  · exact allQuiet_error

theorem user_lookup_quiet (h : ops.run (user_lookup env p fd) s = .ok ((), s', es)) :
    AllQuiet es := by
  rw [run_user_lookup] at h
  split at h
  · cases h
  split at h
  · cases h
    exact allQuiet_nil
  cases h
  dsimp only
  split
  · exact allQuiet_error
  · have hcode : 0 < GETUSER ∧ GETUSER ∉ [LOGSUC, JOINSUC, EXIT] := by decide
    exact allQuiet_cons.mpr ⟨Effect.quiet_of_options hcode rfl, allQuiet_message hcode⟩

theorem get_active_users_quiet (h : ops.run (get_active_users env fd) s = .ok ((), s', es)) :
    AllQuiet es := by
  rw [run_get_active_users] at h
  cases h
  have hcode : 0 < GETALLUSERS ∧ GETALLUSERS ∉ [LOGSUC, JOINSUC, EXIT] := by decide
  exact allQuiet_cons.mpr ⟨Effect.quiet_of_options hcode rfl, allQuiet_userLines hcode⟩

theorem get_room_users_quiet (h : ops.run (get_room_users env p fd) s = .ok ((), s', es)) :
    AllQuiet es := by
  rw [run_get_room_users] at h
  split at h
  · cases h
    exact allQuiet_nil
  split at h
  · cases h
    exact allQuiet_nil
  cases h
  have hcode : 0 < GETUSERS ∧ GETUSERS ∉ [LOGSUC, JOINSUC, EXIT] := by decide
  exact allQuiet_cons.mpr ⟨Effect.quiet_of_options hcode rfl, allQuiet_userLines hcode⟩

theorem get_room_list_quiet (h : ops.run (get_room_list env fd) s = .ok ((), s', es)) :
    AllQuiet es := by
  rw [run_get_room_list] at h
  cases h
  have hcode : 0 < GETROOMS ∧ GETROOMS ∉ [LOGSUC, JOINSUC, EXIT] := by decide
  refine allQuiet_cons.mpr ⟨Effect.quiet_of_options hcode rfl, fun e he => ?_⟩
  obtain ⟨room, -, rfl⟩ := List.mem_map.mp he
  exact Effect.quiet_of_options hcode rfl

theorem sendError_quiet (h : ops.run (sendError env buf fd) s = .ok ((), s', es)) :
    AllQuiet es := by
  rw [run_sendError] at h
  cases h
  exact allQuiet_error

end Handlers

/-! ## The whole of `client_receive` -/

section Receive
variable {next : Next}

/-- A request that is only answered leaves the client's room as it was. -/
theorem request_quiet (h : ops.run (receiveRequest sha256 env p fd) s = .ok ((), s', es))
    (hes : ∀ e ∈ es, e.Reply) : AllQuiet es := by
  unfold receiveRequest at h
  rcases ops.run_ite_eq h with ⟨-, h⟩ | ⟨-, h⟩
  · exact sendError_quiet h
  rcases ops.run_ite_eq h with ⟨-, h⟩ | ⟨-, h⟩
  · exact set_pass_quiet h
  rcases ops.run_ite_eq h with ⟨-, h⟩ | ⟨-, h⟩
  · exact set_name_quiet h hes
  rcases ops.run_ite_eq h with ⟨-, h⟩ | ⟨-, h⟩
  · exact sendError_quiet h
  rcases ops.run_ite_eq h with ⟨-, h⟩ | ⟨-, h⟩
  · exact invite_quiet h
  rcases ops.run_ite_eq h with ⟨-, h⟩ | ⟨-, h⟩
  · exact join_quiet h hes
  rcases ops.run_ite_eq h with ⟨-, h⟩ | ⟨-, h⟩
  · exact leave_quiet h hes
  rcases ops.run_ite_eq h with ⟨-, h⟩ | ⟨-, h⟩
  · exact get_active_users_quiet h
  rcases ops.run_ite_eq h with ⟨-, h⟩ | ⟨-, h⟩
  · exact get_room_users_quiet h
  rcases ops.run_ite_eq h with ⟨-, h⟩ | ⟨-, h⟩
  · exact user_lookup_quiet h
  rcases ops.run_ite_eq h with ⟨-, h⟩ | ⟨-, h⟩
  · exact get_room_list_quiet h
  rcases ops.run_ite_eq h with ⟨-, h⟩ | ⟨-, h⟩
  · rw [run_sendMOTD] at h
    cases h
    have hcode : 0 < MOTD ∧ MOTD ∉ [LOGSUC, JOINSUC, EXIT] := by decide
    exact allQuiet_cons.mpr ⟨Effect.quiet_of_options hcode rfl, allQuiet_nil⟩
  · cases h
    exact allQuiet_nil

/-- **A request that only gets replies** moves no client. -/
theorem allQuiet_of_replies {name : Str}
    (h : ops.run (client_receive sha256 env (some name) p fd) s = .ok (next, s', es))
    (hes : ∀ e ∈ es, e.Reply) : AllQuiet es := by
  rw [client_receive] at h
  unfold receiveSession at h
  rcases ops.run_ite_eq h with ⟨-, h⟩ | ⟨-, h⟩
  · rcases ops.run_ite_eq h with ⟨hopt, h⟩ | ⟨-, h⟩
    · obtain ⟨_, hexit, rfl⟩ := ops.run_bind_pure_eq h
      rw [run_exit_client] at hexit
      split at hexit
      · cases hexit
        exact allQuiet_nil
      split at hexit
      · cases hexit
      · cases hexit
        exact (not_all_reply_relay fun e he => hes e (List.mem_append_left _ he)).elim
    · obtain ⟨_, hreq, rfl⟩ := ops.run_bind_pure_eq h
      exact request_quiet hreq hes
  · obtain ⟨_, hsend, rfl⟩ := ops.run_bind_pure_eq h
    rw [run_send_message] at hsend
    split at hsend
    · cases hsend
    split at hsend
    · cases hsend
      exact (not_all_reply_relay hes).elim
    · cases hsend

end Receive

/-! ## What goes to other connections -/

/-- What goes to connections other than `fd` moves nobody. -/
def QuietElsewhere (fd : Int) (es : List Effect) : Prop :=
  ∀ d q, d ≠ fd → Effect.send d q ∈ es → q.Quiet

section Elsewhere
variable {next : Next}

theorem AllQuiet.elsewhere (h : AllQuiet es) : QuietElsewhere fd es := fun _ _ _ hq => h _ hq

theorem QuietElsewhere.append (h : QuietElsewhere fd es) (h' : QuietElsewhere fd es') :
    QuietElsewhere fd (es ++ es') :=
  fun d q hd hq => (List.mem_append.mp hq).elim (h d q hd) (h' d q hd)

/-- What goes to the sender is left out. -/
theorem QuietElsewhere.cons (h : QuietElsewhere fd es) :
    QuietElsewhere fd (.send fd q :: es) := by
  intro d q' hd hq
  rcases List.mem_cons.mp hq with he | hq
  · cases he
    exact absurd rfl hd
  · exact h d q' hd hq

/-- LOGSUC goes to the sender, the notice to the Lobby. -/
theorem login_elsewhere
    (h : ops.run (login sha256 env p fd) s = .ok (b, s', es)) : QuietElsewhere fd es := by
  rw [run_login] at h
  split at h
  · cases h
  split at h
  · cases h
    exact allQuiet_nil.elsewhere
  split at h
  · cases h
    exact allQuiet_error.elsewhere
  split at h
  · cases h
    exact allQuiet_error.elsewhere
  split at h
  · cases h
    exact allQuiet_error.elsewhere
  split at h
  · cases h
  · cases h
    exact ((allQuiet_relay (Int.le_refl 1000)).elsewhere.append allQuiet_nil.elsewhere.cons).cons

/-- What `register_user` sends to others it sends through `login`. -/
theorem register_elsewhere (h : ops.run (register_user sha256 env p fd) s = .ok (b, s', es)) :
    QuietElsewhere fd es := by
  rw [run_register_user] at h
  split at h
  · cases h
  split at h
  · cases h
    exact allQuiet_nil.elsewhere
  split at h
  · cases h
    exact allQuiet_nameReply.elsewhere
  split at h
  · cases h
    exact allQuiet_error.elsewhere
  split at h
  · cases h
    exact allQuiet_passwordReply.elsewhere
  obtain ⟨es', hlogin, rfl⟩ := Outcome.prepend_eq_ok h
  exact allQuiet_fileEffects.elsewhere.append (login_elsewhere hlogin)

/-- On a connection that is not logged in only a LOGIN or a REGISTER is heard by others. -/
theorem anonymous_elsewhere
    (h : ops.run (client_receive sha256 env none p fd) s = .ok (next, s', es)) :
    QuietElsewhere fd es := by
  rw [client_receive] at h
  unfold receiveAnonymous at h
  rcases ops.run_ite_eq h with ⟨-, h⟩ | ⟨-, h⟩
  · obtain ⟨b, hreg, rfl⟩ := ops.run_bind_pure_eq h
    exact register_elsewhere hreg
  rcases ops.run_ite_eq h with ⟨-, h⟩ | ⟨-, h⟩
  · obtain ⟨b, hlogin, rfl⟩ := ops.run_bind_pure_eq h
    exact login_elsewhere hlogin
  rcases ops.run_ite_eq h with ⟨-, h⟩ | ⟨-, h⟩
  · cases h
    exact fun d q _ hq => by simp at hq
  · cases h
    exact allQuiet_error.elsewhere

/-- A room that is found has the number of a room. -/
theorem Server.Table.le_of_find (ht : s.Table) {ID : Int} {r : RoomRef}
    (hr : LinkedList.Rget_roomFID s.room_list ID = some r) : 1000 ≤ ID := by
  obtain ⟨room, hroom, hID⟩ := LinkedList.Rget_roomFID_some hr
  exact hID ▸ (ht.range _ (List.mem_map_of_mem (List.mem_of_getElem? hroom))).1

/-- **LOGSUC, JOINSUC and EXIT go to the sender of the packet** and to nobody
else. -/
theorem receive_elsewhere {session : Option Str} (ht : s.Table)
    (h : ops.run (client_receive sha256 env session p fd) s = .ok (next, s', es)) :
    QuietElsewhere fd es := by
  cases session with
  | none => exact anonymous_elsewhere h
  | some name =>
    have hopen {name : Str} (hj : acceptsName ROOMNAME_LENGTH name = true) :
        (s.openRoom env.fd name).Table :=
      Server.openRoom_table env.fd ht (acceptsName_iff.mp hj).2.2
    cases received h with
    | answered _ hes => exact (allQuiet_of_replies h hes).elsewhere
    | renamed _ _ _ hr =>
      exact allQuiet_fileEffects.elsewhere.append
        ((allQuiet_relay (ht.le_of_find hr)).elsewhere.append allQuiet_nil.elsewhere.cons)
    | passwordSet => exact allQuiet_fileEffects.elsewhere.append allQuiet_nil.elsewhere.cons
    | opened => exact allQuiet_openEffects.elsewhere
    | joined hj hs₁ hr _ _ hr'' _ =>
      subst hs₁
      exact allQuiet_openEffects.elsewhere.append
        (((allQuiet_relay ((hopen hj.name).le_of_find hr)).elsewhere.append
          (allQuiet_relay ((hopen hj.name).le_of_find hr'')).elsewhere).cons)
    | left _ _ _ hr _ _ _ hd' =>
      exact (allQuiet_relay (ht.le_of_find hr)).elsewhere.append
        (allQuiet_relay (ht.le_of_find hd')).elsewhere.cons
    | chat hopt _ =>
      exact (allQuiet_relay (q := { p with buf := (sanitizeInput p.buf 0).1 }) hopt).elsewhere
    | vanished => exact allQuiet_nil.elsewhere
    | signedOut _ _ hr =>
      refine (allQuiet_relay (ht.le_of_find hr)).elsewhere.append
        (QuietElsewhere.cons fun d q _ hq => ?_)
      simp at hq

end Elsewhere
end TBDChat
