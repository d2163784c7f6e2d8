import TBDChat.Membership
import TBDChat.Lib.Interleaving

/-!
# One account and one session for each username, under any interleaving

Here the threads of `client_receive` take turns after every atomic operation, not
after every packet.  Between the test that a name is free and the insertion of
the new record, or between the lookups of one login, the other threads may do
anything that they may do at all.

What they may do is the pact of this file.  No list ever refers to an address
that was not handed out, the registered usernames are distinct and so are the
active ones; a thread leaves the username of every record alone and does nothing
to the list of registered users but append to it.  A thread knows the username of
a record it has looked up, and by the pact goes on knowing it.
-/

namespace TBDChat

set_option maxRecDepth 8000

namespace Server
variable {s s' s'' : Server} {a : Addr} {l : ListRef} {x : List Addr} {user : Str}

/-! ## The pact -/

/-- The lists refer to what was handed out, and the two that belong to no room
hold no username twice. -/
structure Registry (s : Server) : Prop where
  allocated : ∀ l, ∀ a ∈ s.users l, a < s.fresh
  distinct : ∀ l, (∀ r, l ≠ .room r) →
    (s.users l).Pairwise (fun a b => (s.heap a).username ≠ (s.heap b).username)

/-- What a thread may do to the memory. -/
structure Extends (s s' : Server) : Prop where
  fresh : s.fresh ≤ s'.fresh
  username : ∀ a < s.fresh, (s'.heap a).username = (s.heap a).username
  registered : s.registered_users_list <+: s'.registered_users_list

theorem Extends.refl (s : Server) : s.Extends s :=
  ⟨Nat.le_refl _, fun _ _ => rfl, List.prefix_refl _⟩

theorem Extends.trans (h : s.Extends s') (h' : s'.Extends s'') : s.Extends s'' where
  fresh := Nat.le_trans h.fresh h'.fresh
  username a ha :=
    (h'.username a (Nat.lt_of_lt_of_le ha h.fresh)).trans (h.username a ha)
  registered := h.registered.trans h'.registered

/-- What the threads promise one another. -/
def pact : Atomic.Pact Server := ⟨Registry, Extends, Extends.refl, Extends.trans⟩

/-- The record at `a` has been handed out and has this username. -/
structure Named (s : Server) (a : Addr) (user : Str) : Prop where
  lt : a < s.fresh
  username : (s.heap a).username = user

/-- A username once known stays known. -/
theorem Named.later (h : s.Named a user) (hs : s.Extends s') : s'.Named a user :=
  ⟨Nat.lt_of_lt_of_le h.lt hs.fresh, (hs.username a h.lt).trans h.username⟩

theorem Named.short (h : s.Named a user) {n : Nat} (hu : user.length < n) :
    (s.heap a).username.length < n := h.username ▸ hu

theorem Registry.named (hi : s.Registry)
    (h : LinkedList.get_user s.heap (s.users l) user = some a) : s.Named a user :=
  ⟨hi.allocated l a (LinkedList.get_user_some h).1, (LinkedList.get_user_some h).2⟩

/-- The sequence of usernames only grows. -/
theorem Extends.usernames (hi : s.Registry) (h : s.Extends s') :
    s.registered.map User.username <+: s'.registered.map User.username := by
  obtain ⟨rest, hrest⟩ := h.registered
  have hold : s.registered_users_list.map (fun a => (s'.heap a).username) =
      s.registered_users_list.map (fun a => (s.heap a).username) :=
    List.map_congr_left fun a ha => h.username a (hi.allocated .registered a ha)
  refine ⟨rest.map (fun a => (s'.heap a).username), ?_⟩
  simp only [Server.registered, List.map_map, Function.comp_def, ← hrest, List.map_append, hold]

/-! ## What each operation does to it -/

/-- Replacing a list leaves the others; a list of a room that is not there is not
replaced either. -/
theorem users_setUsers_cases (s : Server) (l : ListRef) (x : List Addr) (l' : ListRef) :
    (s.setUsers l x).users l' = s.users l' ∨ l' = l ∧ (s.setUsers l x).users l' = x := by
  by_cases hl : l' = l
  · subst hl
    cases l' with
    | registered => exact .inr ⟨rfl, rfl⟩
    | active => exact .inr ⟨rfl, rfl⟩
    | room r =>
      by_cases hr : r < s.room_list.length
      · refine .inr ⟨rfl, s.users_setUsers (.room r) x fun k hk => ?_⟩
        exact ListRef.room.inj hk ▸ hr
      · refine .inl ?_
        simp [setUsers, users, members, room, Nat.le_of_not_lt hr]
  · exact .inl (s.users_setUsers_ne l x hl)

theorem Registry.setUsers (hi : s.Registry) (hx : ∀ a ∈ x, a < s.fresh)
    (hd : (∀ r, l ≠ .room r) →
      x.Pairwise (fun a b => (s.heap a).username ≠ (s.heap b).username)) :
    (s.setUsers l x).Registry where
  allocated l' a ha := by
    rw [setUsers_fresh]
    rcases s.users_setUsers_cases l x l' with h | ⟨-, h⟩
    · exact hi.allocated l' a (h ▸ ha)
    · exact hx a (h ▸ ha)
  distinct l' hl' := by
    rw [setUsers_heap]
    rcases s.users_setUsers_cases l x l' with h | ⟨rfl, h⟩
    · rw [h]
      exact hi.distinct l' hl'
    · rw [h]
      exact hd hl'

theorem Extends.setUsers (h : l = .registered → s.registered_users_list <+: x) :
    s.Extends (s.setUsers l x) where
  fresh := by rw [setUsers_fresh]
  username a _ := by rw [setUsers_heap]
  registered := by
    cases l with
    | registered => exact h rfl
    | active => exact List.prefix_refl _
    | room r => exact List.prefix_refl _

/-- An update of the records, or of the rooms, that leaves the usernames. -/
theorem Registry.of_sublist (hi : s.Registry) (hs : s.Extends s')
    (h : ∀ l, (s'.users l).Sublist (s.users l)) : s'.Registry where
  allocated l a ha :=
    Nat.lt_of_lt_of_le (hi.allocated l a ((h l).subset ha)) hs.fresh
  distinct l hl := by
    refine ((hi.distinct l hl).sublist (h l)).imp_of_mem fun {a b} ha hb hne => ?_
    rwa [hs.username a (hi.allocated l a ((h l).subset ha)),
      hs.username b (hi.allocated l b ((h l).subset hb))]

/-- A write to a record that leaves its username. -/
theorem Extends.modify {f : User → User} (h : (f (s.heap a)).username = (s.heap a).username) :
    s.Extends (s.modify a f) :=
  ⟨Nat.le_refl _, fun b _ => modify_congr h b, List.prefix_refl _⟩

theorem Extends.malloc (u : User) : s.Extends (s.malloc u) where
  fresh := Nat.le_succ _
  username a ha := by
    have hne : a ≠ s.fresh := Nat.ne_of_lt ha
    simp [Server.malloc, hne]
  registered := List.prefix_refl _

theorem users_insertRoom {room : Room} (h : room.user_list = []) (l : ListRef) :
    ((s.insertRoom room).users l).Sublist (s.users l) := by
  cases l with
  | registered => exact List.Sublist.refl _
  | active => exact List.Sublist.refl _
  | room r =>
    simp only [users, members, Server.room, insertRoom, LinkedList.insertRoom]
    split
    · exact List.Sublist.refl _
    · rcases Nat.lt_trichotomy r s.room_list.length with hr | rfl | hr
      · simp [List.getElem?_append_left hr]
      · simp [h]
      · have hge : (s.room_list ++ [room]).length ≤ r := by simp; omega
        simp [List.getD_eq_getElem?_getD, List.getElem?_eq_none hge]

end Server

/-- What a thread may do, and when. -/
def Op.Allowed (s : Server) : Op → Prop
  | .insertUser _ a => a < s.fresh
  | .insertNode l a => a < s.fresh ∧ ∃ r, l = .room r
  | .removeUser l _ => l ≠ .registered
  | .store a off _ => (s.heap a).username.length < 64 ∧ 64 ≤ off
  | .setSock a _ => (s.heap a).username.length < 192
  | .setRoomID a _ => (s.heap a).username.length < 192
  | .insertRoom room => room.user_list = []
  | _ => True

/-- **What is allowed keeps the pact.** -/
theorem Op.Allowed.keepsAt {o : Op} {s : Server} (ho : o.Allowed s) (hi : s.Registry) :
    ops.KeepsAt Server.pact o s := by
  have hsame {s' : Server} (hs : s.Extends s') (h : ∀ l, s'.users l = s.users l) :
      s'.Registry ∧ s.Extends s' :=
    ⟨hi.of_sublist hs fun l => h l ▸ List.Sublist.refl _, hs⟩
  intro b s' es he
  cases o with
  | insertUser l a =>
    cases he
    refine ⟨hi.setUsers (fun b hb => ?_) fun hl => ?_, .setUsers fun hl => ?_⟩
    · rcases LinkedList.mem_insertUser hb with hb | rfl
      · exact hi.allocated l b hb
      · exact ho
    · exact LinkedList.insertUser_distinct (hi.distinct l hl)
    · subst hl
      exact LinkedList.prefix_insertUser
  | insertNode l a =>
    cases he
    obtain ⟨ha, r, rfl⟩ := ho
    refine ⟨hi.setUsers (fun b hb => ?_) fun hl => absurd rfl (hl r),
      .setUsers fun hl => nomatch hl⟩
    rcases List.mem_append.mp hb with hb | hb
    · exact hi.allocated _ b hb
    · exact List.mem_singleton.mp hb ▸ ha
  | removeUser l a =>
    -- only the list of registered users must not lose anybody
    cases he
    exact ⟨hi.setUsers (fun b hb => hi.allocated l b (LinkedList.removeUser_sublist.subset hb))
      fun hl => (hi.distinct l hl).sublist LinkedList.removeUser_sublist,
      .setUsers fun hl => absurd hl ho⟩
  | malloc u =>
    cases he
    exact hsame (.malloc u) fun l => by cases l <;> rfl
  | store a off bs =>
    cases he
    exact hsame (.modify (User.username_store ho.1 ho.2)) (s.modify_users _ _)
  | setSock a fd =>
    cases he
    exact hsame (.modify (User.username_sock ho fd)) (s.modify_users _ _)
  | setRoomID a ID =>
    cases he
    exact hsame (.modify (User.username_roomID ho ID)) (s.modify_users _ _)
  | insertRoom room =>
    cases he
    have hs : s.Extends (s.insertRoom room) := ⟨Nat.le_refl _, fun _ _ => rfl, List.prefix_refl _⟩
    exact ⟨hi.of_sublist hs (Server.users_insertRoom ho), hs⟩
  | free a =>
    cases he
    exact hsame ⟨Nat.le_refl _, fun _ _ => rfl, List.prefix_refl _⟩ fun l => by cases l <;> rfl
  | writeUserFile fd =>
    cases he
    exact hsame ⟨Nat.le_refl _, fun _ _ => rfl, List.prefix_refl _⟩ fun l => by cases l <;> rfl
  | incNumRooms =>
    cases he
    exact hsame ⟨Nat.le_refl _, fun _ _ => rfl, List.prefix_refl _⟩ fun l => by cases l <;> rfl
  | fault f => cases he
  | _ =>
    cases he
    exact ⟨hi, .refl s⟩

/-! ## Handlers that anybody may run at any time -/

/-- A program of operations that are allowed in every state. -/
abbrev Quiet {α : Type} (p : Handler α) : Prop := p.Uses (fun o => ∀ s, o.Allowed s)

/-- A program, begun in `s`, keeps the pact. -/
abbrev Keeps {α : Type} (p : Handler α) (s : Server) : Prop := ops.Keeps Server.pact p s

section Handlers
variable {α β : Type} {sha256 : Str → Digest} {env : Env} {pkt : Packet} {fd : Int} {s : Server}
  {o : Op} {a : Addr} {l : ListRef} {user : Str}

theorem quiet_perform (ho : ∀ s, o.Allowed s) : Quiet (perform o) := ⟨ho, fun _ => trivial⟩

theorem quiet_then {f : o.Ar → Handler β} (ho : ∀ s, o.Allowed s) (hf : ∀ b, Quiet (f b)) :
    Quiet (perform o >>= f) := (quiet_perform ho).bind hf

theorem quiet_fault (f : Fault) : Quiet (fault f : Handler α) :=
  ⟨fun _ => trivial, fun e => nomatch (e : Empty)⟩

theorem quiet_send {q : Packet} : Quiet (send fd q) := quiet_perform fun _ => trivial

theorem quiet_sendError {error : Str} : Quiet (sendError env error fd) := quiet_send

theorem quiet_refusal {error : Str} {b : α} :
    Quiet (do sendError env error fd; pure b) := quiet_sendError.bind fun _ => trivial

theorem quiet_validName {invalid short long : String} {limit : Nat} {name : Str} :
    Quiet (validName env invalid short long limit name fd) := by
  unfold validName
  split
  · exact quiet_refusal
  · split
    · exact quiet_refusal
    · split
      · exact quiet_refusal
      · trivial

theorem quiet_validPassword {pass1 pass2 : Str} : Quiet (validPassword env pass1 pass2 fd) := by
  unfold validPassword
  split
  · exact quiet_refusal
  · split
    · exact quiet_refusal
    · split
      · exact quiet_refusal
      · trivial

/-- The operations of a message to a room. -/
def Op.Talks : Op → Prop
  | .Rget_roomFID _ | .loadRoom _ | .walk _ | .load _ | .send _ _ | .write _ _ | .fault _ => True
  | _ => False

theorem sendAll_talks (tmp : List Addr) : (sendAll pkt fd tmp).Uses Op.Talks := by
  induction tmp with
  | nil => trivial
  | cons a tmp ih =>
    refine .call_bind trivial fun current => ?_
    dsimp only
    split
    · exact .call_bind trivial fun _ => ih
    · exact ih

theorem send_message_talks : (send_message env pkt fd).Uses Op.Talks := by
  have hfault (f : Fault) : (fault f : Handler Unit).Uses Op.Talks :=
    ⟨trivial, fun e => nomatch (e : Empty)⟩
  refine .call_bind trivial fun r => ?_
  cases r with
  | none => exact hfault _
  | some r =>
    refine .call_bind trivial fun room => .bind ?_ fun _ => .call_bind trivial sendAll_talks
    unfold log_message
    split
    · exact hfault _
    · exact .call_bind trivial fun _ => trivial

theorem quiet_send_message : Quiet (send_message env pkt fd) := by
  refine send_message_talks.mono fun o ho s => ?_
  cases o with
  | Rget_roomFID | loadRoom | walk | load | send | write | fault => trivial
  | _ => cases ho

theorem quiet_comparePasswords {password : Option (List UInt8)} {hash : Digest} :
    Quiet (comparePasswords password hash) := by
  cases password with
  | none => exact quiet_fault _
  | some password => trivial

theorem quiet_splitArgs {buf : Str} : Quiet (splitArgs buf) := by
  unfold splitArgs
  split
  · trivial
  · exact quiet_fault _

theorem quiet_createRoom {ID : Int} {name : Str} : Quiet (createRoom env ID name) :=
  quiet_then (fun _ => trivial) fun _ => quiet_then (fun _ => trivial) fun _ =>
    quiet_perform fun _ => rfl

theorem quiet_invite : Quiet (invite env pkt fd) := by
  refine quiet_splitArgs.bind fun args => ?_
  split
  · refine quiet_then (fun _ => trivial) fun room => ?_
    cases room with
    | none => exact quiet_send
    | some room =>
      refine quiet_then (fun _ => trivial) fun inviteUser => ?_
      cases inviteUser with
      | none => exact quiet_send
      | some inviteUser =>
        exact quiet_then (fun _ => trivial) fun _ => quiet_then (fun _ => trivial) fun _ =>
          quiet_send.bind fun _ => quiet_send
  · exact quiet_send

theorem quiet_sendUsers {options : Int} (temp : List Addr) :
    Quiet (sendUsers env options fd temp) := by
  induction temp with
  | nil => trivial
  | cons a temp ih =>
    exact quiet_then (fun _ => trivial) fun _ => quiet_send.bind fun _ => ih

theorem quiet_get_active_users : Quiet (get_active_users env fd) :=
  quiet_then (fun _ => trivial) fun _ => quiet_send.bind fun _ =>
    quiet_then (fun _ => trivial) quiet_sendUsers

theorem quiet_user_lookup : Quiet (user_lookup env pkt fd) := by
  refine quiet_splitArgs.bind fun args => ?_
  split
  · refine quiet_then (fun _ => trivial) fun realname => ?_
    split
    · exact quiet_send
    · exact quiet_send.bind fun _ => quiet_send
  · trivial

theorem quiet_get_room_users : Quiet (get_room_users env pkt fd) := by
  refine quiet_then (fun _ => trivial) fun user => ?_
  cases user with
  | none => trivial
  | some user =>
    refine quiet_then (fun _ => trivial) fun u => quiet_then (fun _ => trivial) fun room => ?_
    cases room with
    | none => trivial
    | some room =>
      exact quiet_then (fun _ => trivial) fun _ => quiet_then (fun _ => trivial) fun _ =>
        quiet_send.bind fun _ => quiet_then (fun _ => trivial) quiet_sendUsers

theorem quiet_sendRooms (rooms : List Room) : Quiet (sendRooms env fd rooms) := by
  induction rooms with
  | nil => trivial
  | cons room rooms ih => exact quiet_send.bind fun _ => ih

theorem quiet_get_room_list : Quiet (get_room_list env fd) :=
  quiet_then (fun _ => trivial) fun rooms => quiet_send.bind fun _ => quiet_sendRooms rooms

/-! ## Handlers that write -/

/-- A quiet piece, then the rest. -/
theorem keeps_quiet {p : Handler α} {f : α → Handler β} (hp : Quiet p)
    (hf : ∀ a s', s.Extends s' → Keeps (f a) s') : Keeps (p >>= f) s :=
  .bind (.of_uses (fun _ ho s hi => (ho s).keepsAt hi) hp s) hf

theorem Quiet.keeps {p : Handler α} (hp : Quiet p) : Keeps p s :=
  .of_uses (fun _ ho s hi => (ho s).keepsAt hi) hp s

/-- One operation that is allowed whatever the others have done. -/
theorem keeps_perform {f : o.Ar → Handler β} (ho : ∀ s', s.Extends s' → o.Allowed s')
    (hf : ∀ b s', s.Extends s' → Keeps (f b) s') : Keeps (perform o >>= f) s :=
  .call_bind fun s₁ hs hi => by
    have hkeep := (ho s₁ hs).keepsAt hi
    exact ⟨hkeep, fun b s₂ es he => hf b s₂ (hs.trans (hkeep b s₂ es he).2)⟩

/-- A record that was looked up is known by its username. -/
theorem keeps_get_user {f : Option Addr → Handler β}
    (hnone : ∀ s', s.Extends s' → Keeps (f none) s')
    (hsome : ∀ a s', s.Extends s' → s'.Named a user → Keeps (f (some a)) s') :
    Keeps (get_user l user >>= f) s :=
  .call_bind fun s₁ hs hi => by
    refine ⟨Op.Allowed.keepsAt trivial hi, fun b s₂ es he => ?_⟩
    cases he
    cases hb : LinkedList.get_user s₁.heap (s₁.users l) user with
    | none => exact hnone s₁ hs
    | some a => exact hsome a s₁ hs (hi.named hb)

theorem keeps_malloc {u : User} {f : Addr → Handler β}
    (hf : ∀ a s', a < s'.fresh → Keeps (f a) s') : Keeps (malloc u >>= f) s :=
  .call_bind fun s₁ _ hi => by
    refine ⟨Op.Allowed.keepsAt trivial hi, fun b s₂ es he => ?_⟩
    cases he
    exact hf _ _ (Nat.lt_succ_self _)

/-- The words of a command. -/
theorem keeps_splitArgs {buf : Str} {f : List Str → Handler β} (hf : Keeps (f (words buf)) s) :
    Keeps (splitArgs buf >>= f) s := by
  unfold splitArgs
  split
  · exact hf
  · exact Quiet.keeps ⟨fun _ => trivial, fun e => nomatch (e : Empty)⟩

/-- One operation, of a thread that knows a record. -/
theorem keeps_known {f : o.Ar → Handler β} (hn : s.Named a user)
    (ho : ∀ s', s'.Named a user → o.Allowed s') (hf : ∀ b s', s'.Named a user → Keeps (f b) s') :
    Keeps (perform o >>= f) s :=
  keeps_perform (fun s' hs => ho s' (hn.later hs)) fun b s' hs => hf b s' (hn.later hs)

/-- A login writes to a record only what lies behind its username. -/
theorem keeps_login (hu : (arg (words pkt.buf) 1).length < 192) :
    Keeps (login sha256 env pkt fd) s := by
  refine keeps_splitArgs ?_
  split
  · refine keeps_quiet (quiet_perform fun _ => trivial) fun realname s _ => ?_
    split
    · exact quiet_refusal.keeps
    refine keeps_quiet (quiet_perform fun _ => trivial) fun password s _ => ?_
    refine keeps_quiet quiet_comparePasswords fun b s _ => ?_
    split
    · exact quiet_refusal.keeps
    refine keeps_get_user (fun s _ => (quiet_fault _).keeps) fun user s _ hn => ?_
    -- from here on the thread knows the record, whatever the others do
    refine keeps_known hn (fun s hn => hn.lt) fun b s hn => ?_
    split
    · refine keeps_known hn (fun s hn => hn.short hu) fun _ s hn => ?_
      refine keeps_known hn (fun s hn => hn.short hu) fun _ s hn => ?_
      refine keeps_known hn (fun _ _ => trivial) fun room s hn => ?_
      cases room with
      | none => exact (quiet_fault _).keeps
      | some room =>
        refine keeps_known hn (fun s hn => ⟨hn.lt, room, rfl⟩) fun _ s _ => Quiet.keeps ?_
        exact quiet_then (fun _ => trivial) fun _ => quiet_send.bind fun _ =>
          quiet_then (fun _ => trivial) fun _ => quiet_send_message.bind fun _ =>
          quiet_send.bind fun _ => trivial
    · refine keeps_quiet quiet_sendError fun _ s _ => Quiet.keeps ?_
      exact quiet_then (fun _ => trivial) fun _ => trivial
  · trivial

/-- The new record is nobody's until `insertUser`, which looks at the list once more. -/
theorem keeps_register_user (hp : pkt.Wf) : Keeps (register_user sha256 env pkt fd) s := by
  refine keeps_splitArgs ?_
  split
  · rename_i hwords
    refine keeps_quiet quiet_validName fun b s _ => ?_
    split
    · trivial
    refine keeps_quiet (quiet_perform fun _ => trivial) fun realname s _ => ?_
    split
    · exact quiet_refusal.keeps
    refine keeps_quiet quiet_validPassword fun b s _ => ?_
    split
    · trivial
    -- others may have registered the name by now; the record is still nobody's
    refine keeps_malloc fun user s hlt => ?_
    refine keeps_perform (fun s' hs => Nat.lt_of_lt_of_le hlt hs.fresh) fun _ s _ => ?_
    refine keeps_quiet (quiet_perform fun _ => trivial) fun _ s _ => keeps_login ?_
    have hname : (arg (words (relogin pkt).buf) 1).length < 192 := by
      rw [words_relogin]
      exact Nat.lt_of_le_of_lt (hp.arg_length 1) (by decide)
    exact hname
  · trivial

theorem keeps_changeRoom {args : List Str} (hp : pkt.Wf) :
    Keeps (changeRoom env pkt fd args) s := by
  have hu : pkt.username.length < 192 := Nat.lt_of_le_of_lt hp.username.1 (by decide)
  refine keeps_quiet (quiet_perform fun _ => trivial) fun newRoom s _ => ?_
  refine keeps_quiet (quiet_perform fun _ => trivial) fun currentRoom s _ => ?_
  cases currentRoom with
  | none => trivial
  | some currentRoom =>
    refine keeps_get_user (fun s _ => (quiet_fault _).keeps) fun currUser s _ hn => ?_
    refine keeps_known hn (fun s _ => nofun) fun _ s hn => ?_
    cases newRoom with
    | none => exact (quiet_fault _).keeps
    | some newRoom =>
      refine keeps_known hn (fun _ _ => trivial) fun room s hn => ?_
      refine keeps_known hn (fun s hn => hn.short hu) fun _ s hn => ?_
      refine keeps_known hn (fun s hn => hn.lt) fun _ s _ => Quiet.keeps ?_
      exact quiet_send.bind fun _ => quiet_then (fun _ => trivial) fun _ =>
        quiet_send_message.bind fun _ => quiet_send_message

theorem keeps_join (hp : pkt.Wf) : Keeps (join env pkt fd) s := by
  refine keeps_quiet quiet_splitArgs fun args s _ => ?_
  dsimp only
  split
  · refine keeps_quiet quiet_validName fun valid s _ => ?_
    split
    · refine keeps_quiet (quiet_perform fun _ => trivial) fun ID s _ => ?_
      split
      · exact keeps_quiet (quiet_perform fun _ => trivial) fun _ s _ =>
          keeps_quiet quiet_createRoom fun _ s _ => keeps_changeRoom hp
      · exact keeps_changeRoom hp
    · exact quiet_sendError.keeps
  · exact quiet_sendError.keeps

theorem keeps_leave (hp : pkt.Wf) : Keeps (leave env pkt fd) s := by
  have hu : pkt.username.length < 192 := Nat.lt_of_le_of_lt hp.username.1 (by decide)
  refine keeps_quiet quiet_splitArgs fun args s _ => ?_
  split
  · dsimp only
    split
    · refine keeps_quiet (quiet_perform fun _ => trivial) fun currRoom s _ => ?_
      cases currRoom with
      | none => trivial
      | some currRoom =>
        refine keeps_get_user (fun s _ => trivial) fun currUser s _ hn => ?_
        refine keeps_known hn (fun s _ => nofun) fun _ s hn => ?_
        refine keeps_known hn (fun _ _ => trivial) fun defaultRoom s hn => ?_
        cases defaultRoom with
        | none => exact (quiet_fault _).keeps
        | some defaultRoom =>
          refine keeps_known hn (fun s hn => hn.short hu) fun _ s hn => ?_
          refine keeps_known hn (fun s hn => hn.lt) fun _ s _ => Quiet.keeps ?_
          exact quiet_then (fun _ => trivial) fun _ => quiet_send_message.bind fun _ =>
            quiet_then (fun _ => trivial) fun _ => quiet_send.bind fun _ => quiet_send_message
    · trivial
  · trivial

/-- The new name goes behind the username, which ends within its own array. -/
theorem keeps_set_name (hp : pkt.Wf) : Keeps (set_name env pkt fd) s := by
  have hu : pkt.username.length < 64 := Nat.lt_of_le_of_lt hp.username.1 (by decide)
  refine keeps_quiet quiet_validName fun b s _ => ?_
  split
  · trivial
  refine keeps_get_user (fun s _ => quiet_send.keeps) fun user s _ hn => ?_
  refine keeps_known hn (fun _ _ => trivial) fun u s hn => ?_
  refine keeps_known hn (fun s hn => ⟨hn.short hu, by decide⟩) fun _ s hn => ?_
  refine keeps_known hn (fun s hn => ⟨hn.short hu, by decide⟩) fun _ s _ => Quiet.keeps ?_
  exact quiet_then (fun _ => trivial) fun _ => quiet_then (fun _ => trivial) fun _ =>
    quiet_send_message.bind fun _ => quiet_send

theorem keeps_set_pass (hp : pkt.Wf) : Keeps (set_pass sha256 env pkt fd) s := by
  have hu : pkt.username.length < 64 := Nat.lt_of_le_of_lt hp.username.1 (by decide)
  refine keeps_quiet quiet_splitArgs fun args s _ => ?_
  split
  · refine keeps_quiet quiet_validPassword fun b s _ => ?_
    split
    · trivial
    refine keeps_get_user (fun s _ => quiet_send.keeps) fun user s _ hn => ?_
    refine keeps_known hn (fun _ _ => trivial) fun u s hn => ?_
    refine keeps_quiet quiet_comparePasswords fun b s hs => ?_
    replace hn := hn.later hs
    split
    · refine keeps_known hn (fun s hn => ⟨hn.short hu, by decide⟩) fun _ s hn => ?_
      refine keeps_known hn (fun s hn => ⟨hn.short hu, by decide⟩) fun _ s _ => Quiet.keeps ?_
      exact quiet_then (fun _ => trivial) fun _ => quiet_send
    · exact quiet_send.keeps
  · exact quiet_send.keeps

theorem keeps_exit_client : Keeps (exit_client env pkt fd) s := by
  refine keeps_get_user (fun s _ => trivial) fun current s _ hn => ?_
  refine keeps_known hn (fun _ _ => trivial) fun u s _ => ?_
  refine keeps_quiet quiet_send_message fun _ s _ => keeps_quiet quiet_send fun _ s _ => ?_
  refine keeps_quiet (quiet_perform fun _ => trivial) fun _ s _ => ?_
  refine keeps_quiet (quiet_perform fun _ => trivial) fun room s _ => ?_
  cases room with
  | none => exact (quiet_fault _).keeps
  | some room =>
    refine keeps_perform (fun s _ => nofun) fun _ s _ => ?_
    exact keeps_perform (fun s _ => nofun) fun _ s _ => trivial

theorem keeps_ite {c : Prop} [Decidable c] {p q : Handler α} (hp : Keeps p s) (hq : Keeps q s) :
    Keeps (if c then p else q) s := by
  split
  · exact hp
  · exact hq

theorem keeps_receiveRequest (hp : pkt.Wf) : Keeps (receiveRequest sha256 env pkt fd) s := by
  refine keeps_ite quiet_sendError.keeps ?_
  refine keeps_ite (keeps_set_pass hp) ?_
  refine keeps_ite (keeps_set_name hp) ?_
  refine keeps_ite quiet_sendError.keeps ?_
  refine keeps_ite quiet_invite.keeps ?_
  refine keeps_ite (keeps_join hp) ?_
  refine keeps_ite (keeps_leave hp) ?_
  refine keeps_ite quiet_get_active_users.keeps ?_
  refine keeps_ite quiet_get_room_users.keeps ?_
  refine keeps_ite quiet_user_lookup.keeps ?_
  refine keeps_ite quiet_get_room_list.keeps ?_
  exact keeps_ite (Quiet.keeps quiet_send) trivial

/-- **Every handler keeps the pact.** -/
theorem keeps_client_receive (hp : pkt.Wf) (session : Option Str) :
    Keeps (client_receive sha256 env session pkt fd) s := by
  cases session with
  | none =>
    unfold client_receive receiveAnonymous
    dsimp only
    split
    · exact (keeps_register_user hp).bind fun _ s _ => trivial
    split
    · have hu := Nat.lt_of_le_of_lt (hp.arg_length 1) (by decide : 127 < 192)
      exact (keeps_login hu).bind fun _ s _ => trivial
    split
    · exact Quiet.keeps (quiet_then (fun _ => trivial) fun _ => trivial)
    · exact quiet_refusal.keeps
  | some name =>
    unfold client_receive receiveSession
    dsimp only
    split
    · split
      · exact keeps_exit_client.bind fun _ s _ => trivial
      · exact (keeps_receiveRequest hp).bind fun _ s _ => trivial
    · exact Quiet.keeps (quiet_send_message.bind fun _ => trivial)

end Handlers

/-! ## All interleavings -/

section Races
variable {ι : Type} [DecidableEq ι] {sha256 : Str → Digest} {client : ι → Int}

/-- What a thread that waits for a packet of its client goes on to do. -/
def Serves (sha256 : Str → Digest) (client : ι → Int) (i : ι) (next : Next) (p : Handler Next) :
    Prop :=
  ∃ session env pkt, next = .receive session ∧ pkt.Wf ∧
    p = client_receive sha256 env session pkt (client i)

/-- The server at its start; every thread waits for its first packet. -/
def Threads.boot (ι : Type) (file : Option (List UInt8)) (fd : Int) :
    Atomic.Pool ι Op Op.Ar Server Next :=
  ⟨Server.boot file fd, fun _ => pure (.receive none)⟩

theorem boot_registry {file : Option (List UInt8)} (fd : Int)
    (hfile : (LinkedList.readUserFile file).Pairwise (fun u v => u.username ≠ v.username)) :
    (Server.boot file fd).Registry where
  allocated l a ha := by
    cases l with
    | registered => exact List.mem_range.mp ha
    | active => cases ha
    | room r => rcases r with _ | r <;> cases ha
  distinct l hl := by
    cases l with
    | registered =>
      rw [← boot_registered file fd, Server.registered, List.pairwise_map] at hfile
      exact hfile
    | active => exact .nil
    | room r => exact absurd rfl (hl r)

/-- **One account and one session for each username**, however the threads take
turns: the registered usernames are distinct and so are the active ones, and the
sequence of the registered only grows.  A record that is freed is taken to keep its
bytes (`Server.free`). -/
theorem usernames_unique {file : Option (List UInt8)} {fd : Int}
    {w w' : Atomic.Pool ι Op Op.Ar Server Next}
    (hfile : (LinkedList.readUserFile file).Pairwise (fun u v => u.username ≠ v.username))
    (hw : ops.Turns (Serves sha256 client) (Threads.boot ι file fd) w)
    (hw' : ops.Turns (Serves sha256 client) w w') :
    (w.state.registered.map User.username).Nodup ∧
    ((w.state.active_users_list.map w.state.heap).map User.username).Nodup ∧
    w.state.registered.map User.username <+: w'.state.registered.map User.username := by
  have hstart (i : ι) (next : Next) (p : Handler Next) (s : Server)
      (h : Serves sha256 client i next p) : Keeps p s := by
    obtain ⟨session, env, pkt, -, hp, rfl⟩ := h
    exact keeps_client_receive hp session
  have hboot : Server.pact.inv (Threads.boot ι file fd).state := boot_registry fd hfile
  -- at the start every thread waits, and a thread that waits keeps anything
  obtain ⟨hi, -, hkeep⟩ := hw.keeps hstart hboot fun _ => trivial
  obtain ⟨-, hext, -⟩ := hw'.keeps hstart hi hkeep
  refine ⟨?_, ?_, hext.usernames hi⟩
  · simp only [Server.registered, List.map_map, List.Nodup, List.pairwise_map]
    exact hi.distinct .registered fun r => by simp
  · simp only [List.map_map, List.Nodup, List.pairwise_map]
    exact hi.distinct .active fun r => by simp

/-- A packet that registers Alice. -/
def Sample.register : Packet := ⟨0, str "/register alice secret secret", [], [], REGISTER⟩

/-- Two threads, each with that packet. -/
def Sample.rivals : Atomic.Pool Bool Op Op.Ar Server Next where
  state := Server.boot none 3
  thread i := client_receive Sample.sha256 Sample.env none Sample.register (if i then 5 else 4)

/-- Both allocate a record for Alice when they take turns after every operation,
and one of the two is registered. -/
theorem usernames_unique_rivals :
    let w := ops.schedule Sample.rivals (List.replicate 40 [true, false]).flatten
    w.state.fresh = 2 ∧ w.state.registered_users_list ≠ [] ∧
      (w.state.registered.map User.username).Nodup := by
  refine ⟨by decide, by decide, ?_⟩
  have hbegin (i : Bool) : Serves Sample.sha256 (fun i => if i then 5 else 4) i (.receive none)
      (Sample.rivals.thread i) := ⟨none, Sample.env, Sample.register, rfl, by decide, rfl⟩
  have hboth : Sample.rivals = ⟨(Threads.boot Bool none 3).state,
      Function.update (Function.update (Threads.boot Bool none 3).thread true
        (Sample.rivals.thread true)) false (Sample.rivals.thread false)⟩ := by
    refine congrArg (Atomic.Pool.mk _) (funext fun i => ?_)
    cases i <;> rfl
  have hrivals : ops.Turns (Serves Sample.sha256 fun i => if i then 5 else 4)
      (Threads.boot Bool none 3) Sample.rivals := by
    rw [hboth]
    exact .tail (.single (.start rfl (hbegin true))) (.start rfl (hbegin false))
  exact (usernames_unique .nil (hrivals.trans (ops.schedule_turns _ _)) .refl).1

end Races
end TBDChat
