import TBDChat.Lib.Hanging
import TBDChat.LockedHandlers
import TBDChat.UsernameRaces

/-!
# Who waits for a mutex

Each handler unlocks what it has locked, in the reverse order, and locks nothing that it
holds (`client_receive_nested`).  That is enough for the threads together as long as
nothing comes between (`mutexes_in_order`).

Two things come between.  A mutex that a listing has locked is passed to a list function,
whose copy is locked from the start and which waits for it without end (`waits_in_vain`).
And `send_message` ends with an unlock of the room's mutex, whoever has locked it.
-/

namespace TBDChat.Locked
open Atomic Atomic.GuardedProg

set_option maxRecDepth 8000

section Balance
variable {ι : Type} {i : ι} {D : List Nat} {sha256 : Str → Digest} {env : Env} {pkt : Packet}
  {fd : Int}

/-! ## The list functions -/

theorem steps_nested (o : Op) : Nested i D (steps i o) := by
  unfold steps
  split
  · exact .withCopy (.op o)
  · exact .op o

theorem does_nested {α : Type} (p : Handler α) : Nested i D (does i p) := by
  induction p with
  | ret a => exact .ret a
  | act o k ih => exact (steps_nested o).bind ih

/-- Where no list function is called there is no step on a mutex. -/
theorem does_plain {α : Type} {p : Handler α} (hp : p.Uses fun o => mutex? o = none) :
    (does i p).Plain := by
  induction p with
  | ret a => trivial
  | act o k ih =>
    obtain ⟨ho, hrest⟩ := hp
    have hsteps : steps i o = op o := by
      unfold steps
      rw [ho]
    rw [does, hsteps]
    exact ⟨⟨o, rfl⟩, fun b => ih b (hrest b)⟩

theorem removeUser_nested {l : ListRef} {a : Addr} : Nested i D (removeUser i l a) := by
  refine .pass fun n => (Nested.locked List.mem_cons_self (.op _)).bind fun found => ?_
  cases found with
  | true => exact (Nested.withCopy (.ret ())).bind fun _ => .ret true
  | false => exact .ret false

theorem printList_nested {l : ListRef} : Nested i D (printList i l) := .withCopy (.ret ())

theorem printLists_nested {rooms : List RoomRef} : Nested i D (printLists i rooms) := by
  induction rooms with
  | nil => exact .ret ()
  | cons r rooms ih => exact printList_nested.bind fun _ => ih

theorem RprintList_nested : Nested i D (RprintList i) :=
  .withCopy ((Nested.peek _).bind fun _ => printLists_nested)

/-! ## The handlers -/

theorem send_message_nested : Nested i D (send_message i env pkt fd) := by
  refine (does_nested _).bind fun r => ?_
  cases r with
  | none => exact does_nested _
  | some r =>
    refine (does_nested _).bind fun _ => (does_nested _).bind fun _ => ?_
    refine printList_nested.bind fun _ => (does_nested _).bind fun _ => ?_
    exact (does_nested _).bind fun _ => .release _

theorem login_nested : Nested i D (login i sha256 env pkt fd) := by
  refine (does_nested _).bind fun args => .ite ?_ (.ret false)
  refine (does_nested _).bind fun realname =>
    .ite ((does_nested _).bind fun _ => .ret false) ?_
  refine (does_nested _).bind fun password => (does_nested _).bind fun same => ?_
  refine .ite ((does_nested _).bind fun _ => .ret false) ((does_nested _).bind fun user => ?_)
  cases user with
  | none => exact does_nested _
  | some user =>
    refine (does_nested _).bind fun inserted => .ite ?_ ?_
    · refine (does_nested _).bind fun _ => (does_nested _).bind fun _ =>
        (does_nested _).bind fun defaultRoom => ?_
      cases defaultRoom with
      | none => exact does_nested _
      | some defaultRoom =>
        refine (does_nested _).bind fun _ => (does_nested _).bind fun _ =>
          (does_nested _).bind fun _ => (does_nested _).bind fun _ => ?_
        exact send_message_nested.bind fun _ => (does_nested _).bind fun _ => .ret true
    · exact (does_nested _).bind fun _ => (does_nested _).bind fun _ => .ret false

theorem register_user_nested : Nested i D (register_user i sha256 env pkt fd) := by
  refine (does_nested _).bind fun args => .ite ?_ (.ret false)
  refine (does_nested _).bind fun valid => .ite (.ret false) ?_
  refine (does_nested _).bind fun realname =>
    .ite ((does_nested _).bind fun _ => .ret false) ?_
  refine (does_nested _).bind fun valid => .ite (.ret false) ?_
  refine (does_nested _).bind fun user => (does_nested _).bind fun _ => ?_
  exact (does_nested _).bind fun _ => login_nested

theorem createRoom_nested {ID : Int} {name : Str} {mutex : Nat} :
    Nested i D (createRoom i env ID name mutex) := by
  refine (does_nested _).bind fun _ => (does_nested _).bind fun _ => ?_
  exact .withCopy (.op (Op.insertRoom _))

theorem changeRoom_nested {args : List Str} :
    Nested i D (changeRoom i env pkt fd args) := by
  refine (does_nested _).bind fun newRoom => (does_nested _).bind fun currentRoom => ?_
  cases currentRoom with
  | none => exact .ret ()
  | some currentRoom =>
    refine (does_nested _).bind fun currUser => ?_
    cases currUser with
    | none => exact does_nested _
    | some currUser =>
      refine removeUser_nested.bind fun _ => ?_
      cases newRoom with
      | none => exact does_nested _
      | some newRoom =>
        refine (does_nested _).bind fun _ => (does_nested _).bind fun _ =>
          (does_nested _).bind fun _ => RprintList_nested.bind fun _ => ?_
        refine (does_nested _).bind fun _ => (does_nested _).bind fun _ => ?_
        exact send_message_nested.bind fun _ => send_message_nested

theorem join_nested : Nested i D (join i env pkt fd) := by
  refine (does_nested _).bind fun args => .ite ((does_nested _).bind fun valid => ?_) ?_
  · have hroom : Nested i D (RprintList i >>= fun _ => changeRoom i env pkt fd args) :=
      RprintList_nested.bind fun _ => changeRoom_nested
    refine .ite ((does_nested _).bind fun ID => .ite ?_ hroom) (does_nested _)
    refine (does_nested _).bind fun n => .pass fun mutex => ?_
    exact createRoom_nested.bind fun _ => RprintList_nested.bind fun _ => changeRoom_nested
  · exact does_nested
      (sendError env (str "We were unable to put you in that room, sorry.") fd)

theorem leave_nested : Nested i D (leave i env pkt fd) := by
  refine (does_nested _).bind fun args => .ite (.ite ?_ (.ret ())) (.ret ())
  refine (does_nested _).bind fun currRoom => ?_
  cases currRoom with
  | none => exact .ret ()
  | some currRoom =>
    refine (does_nested _).bind fun currUser => ?_
    cases currUser with
    | none => exact .ret ()
    | some currUser =>
      refine removeUser_nested.bind fun _ => (does_nested _).bind fun defaultRoom => ?_
      cases defaultRoom with
      | none => exact does_nested _
      | some defaultRoom =>
        refine (does_nested _).bind fun _ => (does_nested _).bind fun _ =>
          (does_nested _).bind fun _ => send_message_nested.bind fun _ => ?_
        exact (does_nested _).bind fun _ => (does_nested _).bind fun _ => send_message_nested

theorem set_name_nested : Nested i D (set_name i env pkt fd) := by
  refine (does_nested _).bind fun valid =>
    .ite (.ret ()) ((does_nested _).bind fun user => ?_)
  cases user with
  | none => exact does_nested _
  | some user =>
    refine (does_nested _).bind fun _ => (does_nested _).bind fun _ =>
      (does_nested _).bind fun _ => (does_nested _).bind fun _ =>
        (does_nested _).bind fun _ => ?_
    exact send_message_nested.bind fun _ => does_nested _

theorem exit_client_nested : Nested i D (exit_client i env pkt fd) := by
  refine (does_nested _).bind fun current => ?_
  cases current with
  | none => exact .ret ()
  | some current =>
    refine (does_nested _).bind fun _ => send_message_nested.bind fun _ =>
      (does_nested _).bind fun _ => (does_nested _).bind fun _ =>
        (does_nested _).bind fun room => ?_
    cases room with
    | none => exact does_nested _
    | some room =>
      exact removeUser_nested.bind fun _ => removeUser_nested.bind fun _ => .ret ()

/-! ## The listings -/

theorem sendUsers_uses (options : Int) (l : List Addr) :
    (sendUsers env options fd l).Uses fun o => mutex? o = none := by
  induction l with
  | nil => trivial
  | cons a l ih => exact ⟨rfl, fun _ => ⟨rfl, fun _ => ih⟩⟩

theorem sendRooms_uses (rooms : List Room) :
    (sendRooms env fd rooms).Uses fun o => mutex? o = none := by
  induction rooms with
  | nil => trivial
  | cons room rooms ih => exact ⟨rfl, fun _ => ih⟩

theorem get_active_users_nested : Nested i D (get_active_users i env fd) := by
  refine (does_nested _).bind fun _ => (does_nested _).bind fun _ => .shared ?_
  exact ⟨⟨_, rfl⟩, fun temp => does_plain (sendUsers_uses _ _)⟩

theorem get_room_users_nested : Nested i D (get_room_users i env pkt fd) := by
  refine (does_nested _).bind fun user => ?_
  cases user with
  | none => exact .ret ()
  | some user =>
    refine (does_nested _).bind fun u => (does_nested _).bind fun currRoom => ?_
    cases currRoom with
    | none => exact .ret ()
    | some currRoom =>
      refine (does_nested _).bind fun _ => (does_nested _).bind fun _ =>
        (does_nested _).bind fun _ => .shared ?_
      exact ⟨⟨_, rfl⟩, fun temp => does_plain (sendUsers_uses _ _)⟩

theorem get_room_list_nested : Nested i D (get_room_list i env fd) :=
  (does_nested _).bind fun _ => (does_nested _).bind fun _ =>
    .shared (does_plain (sendRooms_uses _))

theorem receiveRequest_nested : Nested i D (receiveRequest i sha256 env pkt fd) := by
  refine .ite (does_nested _) (.ite (does_nested _) (.ite set_name_nested ?_))
  refine .ite (does_nested _) (.ite (does_nested _) (.ite join_nested ?_))
  refine .ite leave_nested (.ite get_active_users_nested (.ite get_room_users_nested ?_))
  exact .ite (does_nested _) (.ite get_room_list_nested (.ite (does_nested _) (.ret ())))

/-- A request leaves no mutex locked that it has locked, and unlocks none twice. -/
theorem client_receive_nested {session : Option Str} :
    Nested i D (client_receive i sha256 env session pkt fd) := by
  cases session with
  | none =>
    refine .ite (register_user_nested.bind fun _ => .ret _) ?_
    refine .ite (login_nested.bind fun _ => .ret _) ?_
    exact .ite ((does_nested _).bind fun _ => .ret _) ((does_nested _).bind fun _ => .ret _)
  | some name =>
    refine .ite (.ite (exit_client_nested.bind fun _ => .ret _) ?_) ?_
    · exact receiveRequest_nested.bind fun _ => .ret _
    · exact send_message_nested.bind fun _ => .ret _

end Balance

/-! ## All interleavings -/

section Waits
variable {ι : Type} [DecidableEq ι] {sha256 : Str → Digest} {client : ι → Int}

/-- The threads of the clients. -/
abbrev Threads (ι : Type) := GuardedPool Key ι Op Op.Ar Server Next

/-- What a thread that waits for a packet of its client goes on to do. -/
def Serves (sha256 : Str → Digest) (client : ι → Int) (i : ι) (next : Next)
    (p : Steps ι Next) : Prop :=
  ∃ session env pkt, next = .receive session ∧ pkt.Wf ∧
    p = client_receive i sha256 env session pkt (client i)

/-- The server at its start; every thread waits for its first packet. -/
def Threads.boot (ι : Type) (file : Option (List UInt8)) (fd : Int) : Threads ι :=
  ⟨⟨Server.boot file fd, ⟨0, fun _ => .rooms, fun _ => .free⟩⟩, fun _ => .ret (.receive none)⟩

/-- **Who waits for a mutex waits for somebody who is going to unlock it**, in the
interleavings in which no mutex is copied while it is locked and `send_message` unlocks none
that another thread has locked.  Where `send_message` unlocks none at all, whoever unlocks a
mutex holds it. -/
theorem mutexes_in_order {w₀ w : Threads ι} (hw₀ : w₀.Idle) :
    (ops.guarded.TurnsWhen Guarded.Undisturbed (Serves sha256 client) w₀ w → w.NoneHangs) ∧
    (ops.guarded.TurnsWhen Guarded.InTurn (Serves sha256 client) w₀ w →
      w.NoneHangs ∧ w.UnlocksOwn Guarded.InTurn) := by
  have hstart (i : ι) (next : Next) (p : Steps ι Next) (h : Serves sha256 client i next p) :
      Nested i [] p := by
    obtain ⟨session, env, pkt, -, -, rfl⟩ := h
    exact client_receive_nested
  exact ⟨fun hw => (GuardedPool.orderly hw₀ hstart hw).1,
    fun hw => GuardedPool.orderly hw₀ hstart (GuardedPool.undisturbed hw)⟩

/-- What the threads do is what they do without the mutexes, as far as they come. -/
theorem boot_erased {file : Option (List UInt8)} {fd : Int} {w : Threads ι}
    (hw : ops.guarded.Turns (Serves sha256 client) (Threads.boot ι file fd) w) :
    ∃ v, ops.Turns (TBDChat.Serves sha256 client) (TBDChat.Threads.boot ι file fd) v ∧
      w.Erased v := by
  refine GuardedPool.Erased.turns (fun i next p h => ?_) ⟨rfl, fun _ => .ret _⟩ hw
  obtain ⟨session, env, pkt, hnext, hp, rfl⟩ := h
  exact ⟨_, ⟨session, env, pkt, hnext, hp, rfl⟩, client_receive_erases⟩

end Waits

/-! ## Two clients -/

namespace Sample

/-- Two clients, of which `false` is connected at 4. -/
def client (i : Bool) : Int := if i then 5 else 4

/-- The thread of a client has a packet. -/
def begins (w : Threads Bool) (i : Bool) (session : Option Str) (pkt : Packet) : Threads Bool :=
  ⟨w.state,
    Function.update w.thread i
      (client_receive i Sample.sha256 Sample.env session pkt (client i))⟩

def getUsers : Packet := ⟨0, [], str "alice", str "alice", GETALLUSERS⟩

def logsIn : Packet := ⟨0, str "/login alice secret", [], [], LOGIN⟩

/-- Alice has registered. -/
def entered : Threads Bool :=
  ops.guarded.schedule (begins (Threads.boot Bool none 3) false none Sample.register)
    (List.replicate 90 false)

/-- While she lists who is online, somebody logs in with her name. -/
def both : Threads Bool :=
  begins (begins entered false (some (str "alice")) getUsers) true none logsIn

theorem begins_turns {w : Threads Bool} {i : Bool} {session : Option Str} {pkt : Packet}
    (hi : w.ended? i = some (.receive session)) (hp : pkt.Wf) :
    ops.guarded.Turns (Serves Sample.sha256 client) w (begins w i session pkt) :=
  .single (.start (Pool.ended?_eq_some.mp hi) ⟨session, Sample.env, pkt, rfl, hp, rfl⟩)

theorem both_turns :
    ops.guarded.Turns (Serves Sample.sha256 client) (Threads.boot Bool none 3) both := by
  have hentered :
      ops.guarded.Turns (Serves Sample.sha256 client) (Threads.boot Bool none 3) entered :=
    (begins_turns rfl (by decide)).trans (ops.guarded.schedule_turns _ _)
  have hin : entered.ended? false = some (.receive (some (str "alice"))) := by decide +kernel
  have hout : (begins entered false (some (str "alice")) getUsers).ended? true =
      some (.receive none) := by decide +kernel
  exact (hentered.trans (begins_turns hin (by decide))).trans (begins_turns hout (by decide))

/-- Alice is in, nobody is served, and both threads wait for a packet of hers. -/
def atRest : Threads Bool where
  state := ⟨(Sample.world (Sample.enter 4 "alice")).server,
    (Threads.boot Bool none 3).state.mutexes⟩
  thread _ := .ret (.receive (some (str "alice")))

/-- Both list who is online. -/
def listings : Threads Bool :=
  begins (begins atRest false (some (str "alice")) getUsers) true (some (str "alice")) getUsers

end Sample

/-- One of two listings waits for the other. -/
theorem mutexes_in_order_listings : ∃ w : Threads Bool,
    w.waiting? true = some (users_mutex .active) ∧
    w.state.mutexes.status (users_mutex .active) = .held false ∧
    w.NoneHangs ∧ w.UnlocksOwn Guarded.InTurn := by
  let w : Threads Bool := ops.guarded.schedule Sample.listings [false, false, false, true, true]
  have hrest : Sample.atRest.Idle := ⟨fun i => ⟨_, rfl⟩, fun m => rfl⟩
  have hstarts (w : Threads Bool) (i : Bool)
      (hi : w.thread i = .ret (.receive (some (str "alice")))) :
      ops.guarded.TurnsWhen Guarded.InTurn (Serves Sample.sha256 Sample.client) w
        (Sample.begins w i (some (str "alice")) Sample.getUsers) :=
    .single (.start hi ⟨some (str "alice"), Sample.env, Sample.getUsers, rfl, by decide, rfl⟩)
  have hacts : ops.guarded.TurnsWhen Guarded.InTurn (Serves Sample.sha256 Sample.client)
      Sample.listings w :=
    (ops.guarded.schedule_turnsIf Guarded.inTurn_spec (by decide +kernel)).when
  have hw := ((hstarts Sample.atRest false rfl).trans (hstarts _ true rfl)).trans hacts
  exact ⟨w, by decide +kernel, by decide +kernel, (mutexes_in_order hrest).2 hw⟩

/-- The one who logs in is passed `active_users_mutex` while the listing has it locked, and
waits for a copy that nobody holds. -/
theorem waits_in_vain : ¬ ∀ (sha256 : Str → Digest) (client : Bool → Int)
    (file : Option (List UInt8)) (fd : Int) (w : Threads Bool),
    ops.guarded.Turns (Serves sha256 client) (Threads.boot Bool file fd) w →
    w.NoneHangs ∧ w.UnlocksOwn fun _ _ => True := by
  intro h
  let w : Threads Bool :=
    ops.guarded.schedule Sample.both (List.replicate 3 false ++ List.replicate 30 true)
  have hwaiting : w.waiting? true = some (.copy 15) := by decide +kernel
  have hstuck : w.state.mutexes.status (.copy 15) = .stuck := by decide +kernel
  obtain ⟨hnone, -⟩ := h _ _ none 3 w (Sample.both_turns.trans (ops.guarded.schedule_turns _ _))
  obtain ⟨j, -, hheld, -⟩ := hnone.waits hwaiting (by rw [hstuck]; simp)
  rw [hstuck] at hheld
  cases hheld

end TBDChat.Locked
