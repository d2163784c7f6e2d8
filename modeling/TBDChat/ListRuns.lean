import TBDChat.FreshNodes
import TBDChat.Lib.Machine

/-!
# Runs of the list functions

All functions of `linked_list.c` that the server calls, one call after the other and over any
number of lists.  As long as `malloc` returns blocks that are not in use, and with a NULL in
them where `insertUser` adds one, the nodes are what the sequences of `LinkedList` say: every
call comes to its end within as many rounds as its list has nodes and has the same answer.
-/

namespace TBDChat.NodeHeap
open Heap

/-! ## The other functions -/

namespace Heap
variable {L : Type} (h : Heap L)

/-- `while (temp->next != NULL) i++`, and the 1 that is added. -/
def countFrom : Nat → Ptr → Nat → Except Stuck Nat
  | 0, _, _ => .error .running
  | n + 1, temp, i => do
    match ← h.nextOf temp with
    | none => pure (i + 1)
    | some next => countFrom n next (i + 1)

/-- `while (.. current ..)` of the functions that look for a room, with the test that ends it. -/
def search (test : Addr → Bool) : Nat → Ptr → Except Stuck (Option Addr)
  | 0, _ => .error .running
  | n + 1, temp => do
    let current ← h.dataOf temp
    if test current then pure (some current)
    else match ← h.nextOf temp with
      | none => pure none
      | some next => search test n next

/-- What is done with each user in turn, as by `writeUserFile`: the users. -/
def collect : Nat → Ptr → Except Stuck (List Addr)
  | 0, _ => .error .running
  | n + 1, temp => do
    let current ← h.dataOf temp
    match ← h.nextOf temp with
    | none => pure [current]
    | some next => pure (current :: (← collect n next))

variable (n : Nat)

def listLength (head : L) : Except Stuck Nat :=
  match h.head head with
  | none => pure 0
  | some temp => h.countFrom n temp 0

def get_real_name (head : L) (user : Str) : Except Stuck Str := do
  match ← h.get_user n head user with
  | none => pure ERROR
  | some current => pure (h.user current).real_name

def get_password (head : L) (user : Str) : Except Stuck (Option (List UInt8)) := do
  match ← h.get_user n head user with
  | none => pure none
  | some current => pure (some (h.user current).password)

/-- The room that a test finds. -/
def findRoom (head : L) (test : Addr → Bool) : Except Stuck (Option Addr) :=
  match h.head head with
  | none => pure none
  | some temp => h.search test n temp

def Rget_ID (head : L) (name : Str) : Except Stuck Int := do
  match ← h.findRoom n head fun a => (h.room a).name = name with
  | none => pure (-1)
  | some current => pure (h.room current).ID

def Rget_name (head : L) (ID : Int) : Except Stuck Str := do
  match ← h.findRoom n head fun a => (h.room a).ID = ID with
  | none => pure ERROR
  | some current => pure (h.room current).name

def Rget_roomFID (head : L) (ID : Int) : Except Stuck (Option Addr) :=
  h.findRoom n head fun a => (h.room a).ID = ID

def Rget_roomFNAME (head : L) (name : Str) : Except Stuck (Option Addr) :=
  h.findRoom n head fun a => (h.room a).name = name

/-- The users of a list, one after the other. -/
def walkUsers (head : L) : Except Stuck (List Addr) :=
  match h.head head with
  | none => pure []
  | some temp => h.collect n temp

end Heap

/-! ## Operations -/

/-- A call of one of the functions.  A node for `insertNode` is made by the caller. -/
inductive Operation (L : Type) where
  | insertNode (head : L) (data : Addr) (block : Block)
  | insertUser (head : L) (new_user : Addr) (block : Block)
  | removeUser (head : L) (user : Addr)
  | insertRoom (head : L) (new_room : Addr) (block : Block)
  | listLength (head : L)
  | get_user (head : L) (user : Str)
  | get_real_name (head : L) (user : Str)
  | get_password (head : L) (user : Str)
  | Rget_ID (head : L) (name : Str)
  | Rget_name (head : L) (ID : Int)
  | Rget_roomFID (head : L) (ID : Int)
  | Rget_roomFNAME (head : L) (name : Str)
  | walkUsers (head : L)
  | send_message (user_list : L) (clientfd : Int)
  /-- Whatever is written to the records between two calls. -/
  | write (user : Addr → User) (room : Addr → RoomData)

/-- What a function returns. -/
inductive Answer where
  | int (n : Int)
  | address (a : Option Addr)
  | text (s : Str)
  | bytes (bs : Option (List UInt8))
  | addresses (l : List Addr)
  | sockets (l : List Int)
  | nothing

/-- The lists as sequences, and the records. -/
structure Sequences (L : Type) where
  lists : L → List Addr
  user : Addr → User
  room : Addr → RoomData

variable {L : Type}

namespace Sequences
variable (s : Sequences L)

/-- The rooms of a list, without their users. -/
def roomAt (a : Addr) : Room := ⟨(s.room a).ID, (s.room a).fd, (s.room a).name, []⟩

def rooms (l : L) : List Room := (s.lists l).map s.roomAt

variable [DecidableEq L]

def set (l : L) (entries : List Addr) : Sequences L :=
  { s with lists := Function.update s.lists l entries }

/-- What the functions of `LinkedList` make of an operation. -/
def next : Operation L → Sequences L × Answer
  | .insertNode l a _ => (s.set l (LinkedList.insertNode (s.lists l) a), .int 1)
  | .insertUser l a _ =>
    let (b, entries) := LinkedList.insertUser s.user (s.lists l) a
    (s.set l entries, .int (if b then 1 else 0))
  | .removeUser l a =>
    let (b, entries) := LinkedList.removeUser s.user (s.lists l) a
    (s.set l entries, .int (if b then 1 else 0))
  | .insertRoom l a _ =>
    let (b, _) := LinkedList.insertRoom (s.rooms l) (s.roomAt a)
    if b then (s.set l (s.lists l ++ [a]), .int 1) else (s, .int 0)
  | .listLength l => (s, .int (s.lists l).length)
  | .get_user l user => (s, .address (LinkedList.get_user s.user (s.lists l) user))
  | .get_real_name l user => (s, .text (LinkedList.get_real_name s.user (s.lists l) user))
  | .get_password l user => (s, .bytes (LinkedList.get_password s.user (s.lists l) user))
  | .Rget_ID l name => (s, .int (LinkedList.Rget_ID (s.rooms l) name))
  | .Rget_name l ID => (s, .text (LinkedList.Rget_name (s.rooms l) ID))
  | .Rget_roomFID l ID =>
    (s, .address ((LinkedList.Rget_roomFID (s.rooms l) ID).bind fun r => (s.lists l)[r]?))
  | .Rget_roomFNAME l name =>
    (s, .address ((LinkedList.Rget_roomFNAME (s.rooms l) name).bind fun r => (s.lists l)[r]?))
  | .walkUsers l => (s, .addresses (s.lists l))
  | .send_message l clientfd =>
    (s, .sockets (((s.lists l).map fun a => (s.user a).sock).filter (clientfd ≠ ·)))
  | .write user room => (⟨s.lists, user, room⟩, .nothing)

end Sequences

namespace Operation
variable [DecidableEq L]

/-- The call, with as many rounds for its loops. -/
def run (n : Nat) (h : Heap L) : Operation L → Except Stuck (Answer × Heap L)
  | .insertNode head data block => do
    let (r, h) ← (h.malloc block data).insertNode n head block.ptr
    pure (.int r, h)
  | .insertUser head new_user block => do
    let (r, h) ← h.insertUser n head new_user block
    pure (.int r, h)
  | .removeUser head user => do
    let (r, h) ← h.removeUser n head user
    pure (.int r, h)
  | .insertRoom head new_room block => do
    let (r, h) ← h.insertRoom n head new_room block
    pure (.int r, h)
  | .listLength head => do pure (.int (← h.listLength n head), h)
  | .get_user head user => do pure (.address (← h.get_user n head user), h)
  | .get_real_name head user => do pure (.text (← h.get_real_name n head user), h)
  | .get_password head user => do pure (.bytes (← h.get_password n head user), h)
  | .Rget_ID head name => do pure (.int (← h.Rget_ID n head name), h)
  | .Rget_name head ID => do pure (.text (← h.Rget_name n head ID), h)
  | .Rget_roomFID head ID => do pure (.address (← h.Rget_roomFID n head ID), h)
  | .Rget_roomFNAME head name => do pure (.address (← h.Rget_roomFNAME n head name), h)
  | .walkUsers head => do pure (.addresses (← h.walkUsers n head), h)
  | .send_message user_list clientfd => do
    pure (.sockets (← h.send_message n user_list clientfd), h)
  | .write user room => pure (.nothing, { h with user := user, room := room })

/-- The call comes to its end. -/
def Returns (op : Operation L) (h : Heap L) (answer : Answer) (h' : Heap L) : Prop :=
  ∃ n, ∀ m, n ≤ m → op.run m h = .ok (answer, h')

/-- The block for a node is not in use.  If `insertUser` adds its node, there is a NULL in it. -/
def Fits (h : Heap L) : Operation L → Prop
  | .insertNode _ _ block => h.owned block.ptr = false
  | .insertUser head new_user block => h.owned block.ptr = false ∧
    ((∃ c, h.Chain (h.head head) c ∧ h.Taken c new_user) ∨ block.next = none)
  | .insertRoom _ _ block => h.owned block.ptr = false
  | _ => True

end Operation
/-! ## The functions on a chain -/

namespace Heap
variable {h : Heap L} {o : Option Ptr} {c : List Ptr} {temp : Ptr} {n i : Nat} {head : L}
  {test : Addr → Bool}

namespace Chain

theorem countFrom (hc : h.Chain (some temp) (temp :: c)) (hn : c.length < n) :
    h.countFrom n temp i = .ok (i + c.length + 1) := by
  induction c generalizing temp n i with
  | nil =>
    obtain ⟨n, rfl⟩ := Nat.exists_eq_add_of_lt hn
    have hnext : h.next temp = none := hc.path.2
    simp [Heap.countFrom, nextOf_eq (hc.owned temp (by simp)), hnext, bind, Except.bind]
    rfl
  | cons p c ih =>
    cases n with
    | zero => exact absurd hn (Nat.not_lt_zero _)
    | succ n =>
      have hnext : h.next temp = some p := hc.path.2.1
      have hrest : h.Chain (some p) (p :: c) := hnext ▸ hc.tail
      have hcount := ih (i := i + 1) hrest (Nat.lt_of_succ_lt_succ hn)
      simp only [Heap.countFrom, nextOf_eq (hc.owned temp (by simp)), hnext, bind, Except.bind,
        hcount, List.length_cons]
      congr 1
      omega

/-- The first that passes the test. -/
theorem search (hc : h.Chain (some temp) (temp :: c)) (hn : c.length < n) :
    h.search test n temp = .ok (((temp :: c).map h.data).find? test) := by
  induction c generalizing temp n with
  | nil =>
    obtain ⟨n, rfl⟩ := Nat.exists_eq_add_of_lt hn
    have hnext : h.next temp = none := hc.path.2
    have hp := hc.owned temp (by simp)
    by_cases htest : test (h.data temp) = true
    · simp [Heap.search, dataOf_eq hp, htest, bind, Except.bind]
      rfl
    · simp [Heap.search, dataOf_eq hp, nextOf_eq hp, hnext, htest, bind, Except.bind]
      rfl
  | cons p c ih =>
    cases n with
    | zero => exact absurd hn (Nat.not_lt_zero _)
    | succ n =>
      have hnext : h.next temp = some p := hc.path.2.1
      have hrest : h.Chain (some p) (p :: c) := hnext ▸ hc.tail
      have hsearch := ih hrest (Nat.lt_of_succ_lt_succ hn)
      have hp := hc.owned temp (by simp)
      rw [List.map_cons, List.find?_cons]
      by_cases htest : test (h.data temp) = true
      · simp [Heap.search, dataOf_eq hp, htest, bind, Except.bind]
        rfl
      · simp only [Heap.search, dataOf_eq hp, nextOf_eq hp, hnext, htest, bind, Except.bind,
          hsearch]
        rfl

theorem collect (hc : h.Chain (some temp) (temp :: c)) (hn : c.length < n) :
    h.collect n temp = .ok ((temp :: c).map h.data) := by
  induction c generalizing temp n with
  | nil =>
    obtain ⟨n, rfl⟩ := Nat.exists_eq_add_of_lt hn
    have hnext : h.next temp = none := hc.path.2
    have hp := hc.owned temp (by simp)
    simp [Heap.collect, dataOf_eq hp, nextOf_eq hp, hnext, bind, Except.bind]
    rfl
  | cons p c ih =>
    cases n with
    | zero => exact absurd hn (Nat.not_lt_zero _)
    | succ n =>
      have hnext : h.next temp = some p := hc.path.2.1
      have hrest : h.Chain (some p) (p :: c) := hnext ▸ hc.tail
      have hcollect := ih hrest (Nat.lt_of_succ_lt_succ hn)
      have hp := hc.owned temp (by simp)
      simp only [Heap.collect, dataOf_eq hp, nextOf_eq hp, hnext, bind, Except.bind, hcollect]
      rfl

end Chain

/-- What the head leads to. -/
theorem Chain.head_cases (hc : h.Chain (h.head head) c) :
    c = [] ∧ h.head head = none ∨
      ∃ temp d, c = temp :: d ∧ h.head head = some temp ∧ h.Chain (some temp) (temp :: d) := by
  cases c with
  | nil => exact .inl ⟨rfl, hc.head?_eq.symm⟩
  | cons temp d =>
    have hhead : h.head head = some temp := hc.head?_eq.symm
    exact .inr ⟨temp, d, rfl, hhead, hhead ▸ hc⟩

theorem listLength_eq (hc : h.Chain (h.head head) c) (hn : c.length ≤ n) :
    h.listLength n head = .ok c.length := by
  unfold listLength
  obtain ⟨rfl, hhead⟩ | ⟨temp, d, rfl, hhead, hd⟩ := hc.head_cases
  · rw [hhead]
    rfl
  · rw [hhead]
    have hcount := hd.countFrom (i := 0) (Nat.lt_of_succ_le hn)
    rw [Nat.zero_add] at hcount
    exact hcount

theorem findRoom_eq (hc : h.Chain (h.head head) c) (hn : c.length ≤ n) :
    h.findRoom n head test = .ok ((c.map h.data).find? test) := by
  unfold findRoom
  obtain ⟨rfl, hhead⟩ | ⟨temp, d, rfl, hhead, hd⟩ := hc.head_cases
  · rw [hhead]
    rfl
  · rw [hhead]
    exact hd.search (Nat.lt_of_succ_le hn)

theorem walkUsers_eq (hc : h.Chain (h.head head) c) (hn : c.length ≤ n) :
    h.walkUsers n head = .ok (c.map h.data) := by
  unfold walkUsers
  obtain ⟨rfl, hhead⟩ | ⟨temp, d, rfl, hhead, hd⟩ := hc.head_cases
  · rw [hhead]
    rfl
  · rw [hhead]
    exact hd.collect (Nat.lt_of_succ_le hn)

theorem get_real_name_eq (hc : h.Chain (h.head head) c) (hn : c.length ≤ n) (user : Str) :
    h.get_real_name n head user = .ok (LinkedList.get_real_name h.user (c.map h.data) user) := by
  rw [Heap.get_real_name, get_user_eq hc hn, LinkedList.get_real_name]
  cases LinkedList.get_user h.user (c.map h.data) user with
  | none => rfl
  | some a => rfl

theorem get_password_eq (hc : h.Chain (h.head head) c) (hn : c.length ≤ n) (user : Str) :
    h.get_password n head user = .ok (LinkedList.get_password h.user (c.map h.data) user) := by
  rw [Heap.get_password, get_user_eq hc hn, LinkedList.get_password]
  cases LinkedList.get_user h.user (c.map h.data) user with
  | none => rfl
  | some a => rfl

/-- The rooms of the nodes, without their users. -/
def roomsOf (h : Heap L) (c : List Ptr) : List Room := (c.map h.data).map (h.roomAt fun _ => [])

/-- A search among rooms is one among their addresses. -/
theorem find?_roomsOf {test : Room → Bool} : (h.roomsOf c).find? test =
    ((c.map h.data).find? fun a => test (h.roomAt (fun _ => []) a)).map
      (h.roomAt fun _ => []) := List.find?_map ..

/-- A search for a position among rooms. -/
theorem findIdx?_roomsOf {test : Room → Bool} :
    ((h.roomsOf c).findIdx? test).bind (fun r => (c.map h.data)[r]?) =
      (c.map h.data).find? fun a => test (h.roomAt (fun _ => []) a) := by
  rw [List.find?_eq_bind_findIdx?_getElem?, roomsOf, List.findIdx?_map]
  rfl

theorem Rget_ID_eq (hc : h.Chain (h.head head) c) (hn : c.length ≤ n) (name : Str) :
    h.Rget_ID n head name = .ok (LinkedList.Rget_ID (h.roomsOf c) name) := by
  have hfind : (h.roomsOf c).find? (fun r => r.name = name) =
      ((c.map h.data).find? fun a => (h.room a).name = name).map (h.roomAt fun _ => []) :=
    find?_roomsOf
  rw [Heap.Rget_ID, findRoom_eq hc hn, LinkedList.Rget_ID, hfind]
  cases (c.map h.data).find? fun a => decide ((h.room a).name = name) with
  | none => rfl
  | some a => rfl

theorem Rget_name_eq (hc : h.Chain (h.head head) c) (hn : c.length ≤ n) (ID : Int) :
    h.Rget_name n head ID = .ok (LinkedList.Rget_name (h.roomsOf c) ID) := by
  have hfind : (h.roomsOf c).find? (fun r => r.ID = ID) =
      ((c.map h.data).find? fun a => (h.room a).ID = ID).map (h.roomAt fun _ => []) :=
    find?_roomsOf
  rw [Heap.Rget_name, findRoom_eq hc hn, LinkedList.Rget_name, hfind]
  cases (c.map h.data).find? fun a => decide ((h.room a).ID = ID) with
  | none => rfl
  | some a => rfl

theorem Rget_roomFID_eq (hc : h.Chain (h.head head) c) (hn : c.length ≤ n) (ID : Int) :
    h.Rget_roomFID n head ID =
      .ok ((LinkedList.Rget_roomFID (h.roomsOf c) ID).bind fun r => (c.map h.data)[r]?) := by
  rw [Heap.Rget_roomFID, findRoom_eq hc hn, LinkedList.Rget_roomFID, findIdx?_roomsOf]
  rfl

theorem Rget_roomFNAME_eq (hc : h.Chain (h.head head) c) (hn : c.length ≤ n) (name : Str) :
    h.Rget_roomFNAME n head name =
      .ok ((LinkedList.Rget_roomFNAME (h.roomsOf c) name).bind fun r => (c.map h.data)[r]?) := by
  rw [Heap.Rget_roomFNAME, findRoom_eq hc hn, LinkedList.Rget_roomFNAME, findIdx?_roomsOf]
  rfl

end Heap

/-! ## Lists and sequences -/

/-- The sequence of a list that comes to a NULL. -/
noncomputable def Heap.sequences (h : Heap L) : Sequences L where
  lists l :=
    open Classical in
    if hc : ∃ c, h.Chain (h.head l) c then hc.choose.map h.data else []
  user := h.user
  room := h.room

section Steps
variable {h h' : Heap L} {c : L → List Ptr} {l : L} {d : List Ptr} {n : Nat} {a : Addr}
  {block : Block} {entries : List Addr}

open Classical in
theorem Heap.Chain.sequences {c : List Ptr} (hc : h.Chain (h.head l) c) :
    h.sequences.lists l = c.map h.data := by
  have hex : ∃ c, h.Chain (h.head l) c := ⟨c, hc⟩
  show (if hc : ∃ c, h.Chain (h.head l) c then hc.choose.map h.data else []) = _
  rw [dif_pos hex, hex.choose_spec.path.unique hc.path]

theorem Heap.Lists.sequences_malloc (hl : h.Lists c) (hfresh : h.owned block.ptr = false) :
    (h.malloc block a).sequences = h.sequences := by
  have hlists : (h.malloc block a).sequences.lists = h.sequences.lists := by
    funext l
    rw [((hl.malloc hfresh).chain l).sequences, (hl.chain l).sequences,
      List.map_congr_left ((hl.chain l).data_malloc_of_mem hfresh)]
  exact congrArg (fun lists => (⟨lists, h.user, h.room⟩ : Sequences L)) hlists

variable [DecidableEq L]

/-- The sequences after a change of one list. -/
theorem Heap.Becomes.sequences (hl : h.Lists c) (hb : h.Becomes c l d entries h') :
    h'.sequences = h.sequences.set l entries := by
  have hlists : h'.sequences.lists = Function.update h.sequences.lists l entries := by
    funext l'
    rw [(hb.lists.chain l').sequences]
    by_cases heq : l' = l
    · rw [heq, Function.update_self, Function.update_self, hb.represents]
    · rw [Function.update_of_ne heq, Function.update_of_ne heq, hb.others l' heq,
        (hl.chain l').sequences]
  have huser : h'.sequences.user = h.sequences.user := hb.user
  have hroom : h'.sequences.room = h.sequences.room := hb.room
  rw [Sequences.set, ← hlists, ← huser, ← hroom]

/-- `insertUser`, where the node ends its chain or is not added. -/
theorem insertUser_becomes (hl : h.Lists c) (l : L) (a : Addr) (hfresh : h.owned block.ptr = false)
    (hended : h.Taken (c l) a ∨ block.next = none) : ∃ h' d,
      (∀ n, (c l).length ≤ n → h.insertUser n l a block =
        .ok (if (LinkedList.insertUser h.user ((c l).map h.data) a).1 then 1 else 0, h')) ∧
      h.Becomes c l d (LinkedList.insertUser h.user ((c l).map h.data) a).2 h' := by
  have hmalloc : (h.malloc block a).Lists c := hl.malloc hfresh
  have hdata : ∀ l', ∀ p ∈ c l', (h.malloc block a).data p = h.data p := fun l' =>
    (hl.chain l').data_malloc_of_mem hfresh
  by_cases ht : h.Taken (c l) a
  · rw [insertUser_taken ht]
    obtain ⟨p, hp, hname⟩ := ht
    refine ⟨_, c l, fun n hn => insertUser_dup (hl.chain l) hn hfresh hp hname, ?_⟩
    rw [← List.map_congr_left (hdata l)]
    refine Heap.Lists.becomes ?_ hdata rfl rfl
    rwa [Function.update_eq_self]
  · have hnext := hended.resolve_left ht
    have hout (l : L) : block.ptr ∉ c l := (hl.chain l).not_mem hfresh
    have hnew := owned_malloc h block a
    have hfree : ∀ p ∈ c l, (h.user (h.data p)).username ≠ (h.user a).username :=
      fun p hp hname => ht ⟨p, hp, hname⟩
    rw [insertUser_free ht, ← data_append (hl.chain l) hfresh]
    rcases List.eq_nil_or_concat' (c l) with hc | ⟨d, t, hc⟩
    · have hlists := hmalloc.setHead_new (l := l) hnew hout
      rw [link_malloc hnext] at hlists
      refine ⟨_, [block.ptr], fun n _ => insertUser_nil (hc ▸ hl.chain l) a block, ?_⟩
      rw [hc]
      exact hlists.becomes hdata rfl rfl
    · have hlists := hmalloc.link_new hc hnew hout
      rw [link_malloc hnext] at hlists
      refine ⟨_, d ++ [t] ++ [block.ptr], fun n hn =>
        insertUser_append (hc ▸ hl.chain l) ?_ hfresh (hc ▸ hfree), ?_⟩
      · rw [hc, List.length_append] at hn
        exact hn
      · rw [hc]
        exact hlists.becomes hdata rfl rfl

end Steps

/-! ## One operation -/

namespace Operation

def head : Operation L → Option L
  | .insertNode head _ _ | .insertUser head _ _ | .removeUser head _ | .insertRoom head _ _
  | .listLength head | .get_user head _ | .get_real_name head _ | .get_password head _
  | .Rget_ID head _ | .Rget_name head _ | .Rget_roomFID head _ | .Rget_roomFNAME head _
  | .walkUsers head | .send_message head _ => some head
  | .write _ _ => none

variable [DecidableEq L] {h h' : Heap L} {c : L → List Ptr} {op : Operation L} {n : Nat}

/-- What comes of an operation on lists that are in order: within as many rounds as the list has
nodes it has the answer of the sequences, and leaves the lists in order. -/
def Obeys (op : Operation L) (h : Heap L) (c : L → List Ptr) : Prop :=
  ∃ h' c', (∀ n, (∀ l ∈ op.head, (c l).length ≤ n) →
      op.run n h = .ok ((h.sequences.next op).2, h')) ∧
    h'.Lists c' ∧ h'.sequences = (h.sequences.next op).1

/-- Operations that change one list. -/
theorem obeys_of_becomes {l : L} {d : List Ptr} {entries : List Addr} (hl : h.Lists c)
    (hhead : op.head = some l) (hb : h.Becomes c l d entries h')
    (hrun : ∀ n, (c l).length ≤ n → op.run n h = .ok ((h.sequences.next op).2, h'))
    (hnext : (h.sequences.next op).1 = h.sequences.set l entries) : op.Obeys h c :=
  ⟨h', _, fun n hn => hrun n (hn l hhead), hb.lists, (hb.sequences hl).trans hnext.symm⟩

/-- Operations that only look at one. -/
theorem obeys_of_same {l : L} (hl : h.Lists c) (hhead : op.head = some l)
    (hrun : ∀ n, (c l).length ≤ n → op.run n h = .ok ((h.sequences.next op).2, h))
    (hnext : (h.sequences.next op).1 = h.sequences) : op.Obeys h c :=
  ⟨h, c, fun n hn => hrun n (hn l hhead), hl, hnext.symm⟩

theorem insertNode_obeys (hl : h.Lists c) (head : L) (a : Addr) {block : Block}
    (hfresh : h.owned block.ptr = false) : (insertNode head a block).Obeys h c := by
  have hmalloc : (h.malloc block a).Lists c := hl.malloc hfresh
  have hout (l : L) : block.ptr ∉ c l := (hl.chain l).not_mem hfresh
  obtain ⟨h', hrun, hb⟩ := insertNode_becomes hmalloc (owned_malloc h block a) hout head
  refine ⟨h', _, fun n hn => ?_, hb.lists, ?_⟩
  · simp only [run, hrun n (hn head rfl), bind, Except.bind]
    rfl
  · rw [hb.sequences hmalloc, data_malloc, ← (hmalloc.chain head).sequences,
      hl.sequences_malloc hfresh]
    rfl

theorem insertUser_obeys (hl : h.Lists c) (head : L) (a : Addr) {block : Block}
    (hfits : (insertUser head a block).Fits h) : (insertUser head a block).Obeys h c := by
  obtain ⟨hfresh, hended⟩ := hfits
  have hended : h.Taken (c head) a ∨ block.next = none := by
    refine hended.imp_left fun ⟨d, hd, ht⟩ => ?_
    rwa [(hl.chain head).path.unique hd.path]
  obtain ⟨h', d, hrun, hb⟩ := insertUser_becomes hl head a hfresh hended
  rw [← (hl.chain head).sequences] at hrun hb
  refine obeys_of_becomes hl rfl hb (fun n hn => ?_) rfl
  simp only [run, hrun n hn, bind, Except.bind]
  rfl

theorem removeUser_obeys (hl : h.Lists c) (head : L) (a : Addr) :
    (removeUser head a).Obeys h c := by
  obtain ⟨h', hrun, hb⟩ := removeUser_becomes hl head a
  rw [Call.answer] at hrun
  rw [← (hl.chain head).sequences] at hrun hb
  refine obeys_of_becomes hl rfl hb (fun n hn => ?_) rfl
  simp only [run, hrun n hn, bind, Except.bind]
  rfl

theorem insertRoom_obeys (hl : h.Lists c) (head : L) (a : Addr) {block : Block}
    (hfresh : h.owned block.ptr = false) : (insertRoom head a block).Obeys h c := by
  obtain ⟨h', hrun, hb⟩ := insertRoom_becomes hl head a hfresh
  have hlist := (hl.chain head).sequences
  have hfst : (LinkedList.insertRoom (h.sequences.rooms head) (h.sequences.roomAt a)).1 =
      !(c head).any fun p => h.sameRoom (h.room a) (h.data p) := by
    rw [Sequences.rooms, hlist]
    have hanswer := congrArg Prod.fst (insertRoom_rooms h (c head) head a block fun _ => [])
    refine hanswer.trans ?_
    rw [Call.answer]
    cases (c head).any fun p => h.sameRoom (h.room a) (h.data p) with
    | false => rfl
    | true => rfl
  rw [Call.entries, ← hlist] at hb
  rw [Call.answer] at hrun
  cases hdup : (c head).any fun p => h.sameRoom (h.room a) (h.data p) with
  | true =>
    rw [hdup] at hrun hb hfst
    refine obeys_of_becomes hl rfl hb (fun n hn => ?_) ?_
    · simp only [run, hrun n hn, bind, Except.bind, Sequences.next, hfst]
      rfl
    · have hset : h.sequences.set head (h.sequences.lists head) = h.sequences := by
        rw [Sequences.set, Function.update_eq_self]
      simp only [Sequences.next, hfst]
      exact hset.symm
  | false =>
    rw [hdup] at hrun hb hfst
    refine obeys_of_becomes hl rfl hb (fun n hn => ?_) ?_
    · simp only [run, hrun n hn, bind, Except.bind, Sequences.next, hfst]
      rfl
    · simp only [Sequences.next, hfst]
      rfl

theorem write_obeys (hl : h.Lists c) (user : Addr → User) (room : Addr → RoomData) :
    (write user room).Obeys h c := by
  have hl' : Heap.Lists { h with user := user, room := room } c :=
    ⟨fun l => ⟨(hl.chain l).path, (hl.chain l).owned⟩, hl.disjoint⟩
  refine ⟨_, c, fun n _ => rfl, hl', ?_⟩
  have hlists : ({ h with user := user, room := room } : Heap L).sequences.lists =
      h.sequences.lists := by
    funext l
    rw [(hl'.chain l).sequences, (hl.chain l).sequences]
  exact congrArg (fun lists => (⟨lists, user, room⟩ : Sequences L)) hlists

/-- **Every operation does to the nodes what it does to the sequences.** -/
theorem obeys (hl : h.Lists c) (hfits : op.Fits h) : op.Obeys h c := by
  have hlists (l : L) : h.sequences.lists l = (c l).map h.data := (hl.chain l).sequences
  have hrooms (l : L) : h.sequences.rooms l = h.roomsOf (c l) := by
    rw [Sequences.rooms, hlists]
    rfl
  cases op with
  | insertNode head data block => exact insertNode_obeys hl head data hfits
  | insertUser head new_user block => exact insertUser_obeys hl head new_user hfits
  | removeUser head user => exact removeUser_obeys hl head user
  | insertRoom head new_room block => exact insertRoom_obeys hl head new_room hfits
  | listLength head =>
    refine obeys_of_same hl rfl (fun n hn => ?_) rfl
    simp [run, Sequences.next, listLength_eq (hl.chain head) hn, hlists, bind, Except.bind]
    rfl
  | get_user head user =>
    refine obeys_of_same hl rfl (fun n hn => ?_) rfl
    simp [run, Sequences.next, get_user_eq (hl.chain head) hn, hlists, bind, Except.bind]
    rfl
  | get_real_name head user =>
    refine obeys_of_same hl rfl (fun n hn => ?_) rfl
    simp [run, Sequences.next, get_real_name_eq (hl.chain head) hn, hlists, bind, Except.bind]
    rfl
  | get_password head user =>
    refine obeys_of_same hl rfl (fun n hn => ?_) rfl
    simp [run, Sequences.next, get_password_eq (hl.chain head) hn, hlists, bind, Except.bind]
    rfl
  | Rget_ID head name =>
    refine obeys_of_same hl rfl (fun n hn => ?_) rfl
    simp [run, Sequences.next, Rget_ID_eq (hl.chain head) hn, hrooms, bind, Except.bind]
    rfl
  | Rget_name head ID =>
    refine obeys_of_same hl rfl (fun n hn => ?_) rfl
    simp [run, Sequences.next, Rget_name_eq (hl.chain head) hn, hrooms, bind, Except.bind]
    rfl
  | Rget_roomFID head ID =>
    refine obeys_of_same hl rfl (fun n hn => ?_) rfl
    simp only [run, Sequences.next, Rget_roomFID_eq (hl.chain head) hn, hrooms, hlists, bind,
      Except.bind]
    rfl
  | Rget_roomFNAME head name =>
    refine obeys_of_same hl rfl (fun n hn => ?_) rfl
    simp only [run, Sequences.next, Rget_roomFNAME_eq (hl.chain head) hn, hrooms, hlists, bind,
      Except.bind]
    rfl
  | walkUsers head =>
    refine obeys_of_same hl rfl (fun n hn => ?_) rfl
    simp [run, Sequences.next, walkUsers_eq (hl.chain head) hn, hlists, bind, Except.bind]
    rfl
  | send_message user_list clientfd =>
    refine obeys_of_same hl rfl (fun n hn => ?_) rfl
    simp [run, Sequences.next, send_message_eq (hl.chain user_list) hn, hlists, bind, Except.bind]
    rfl
  | write user room => exact write_obeys hl user room

end Operation
/-! ## Runs -/

section Runs
variable (L) [DecidableEq L]

/-- The list functions as a machine. -/
def machine : Machines.Machine (Heap L) (Operation L) Answer :=
  ⟨fun h op h' answer => op.Returns h answer h'⟩

/-- What they are for. -/
def service : Machines.Service (Sequences L) (Operation L) Answer := ⟨fun s op => s.next op⟩

variable {L} {h h' : Heap L} {c : L → List Ptr} {op : Operation L} {answer : Answer}

/-- An operation that returns does so with the answer of the sequences. -/
theorem Operation.Returns.obeys (hret : op.Returns h answer h') (hl : h.Lists c)
    (hfits : op.Fits h) : answer = (h.sequences.next op).2 ∧ (∃ c', h'.Lists c') ∧
      h'.sequences = (h.sequences.next op).1 := by
  obtain ⟨h₁, c', hrun, hlists, hnext⟩ := Operation.obeys hl hfits
  obtain ⟨n, hn⟩ := hret
  -- enough rounds for both
  have hrounds : ∃ k, n ≤ k ∧ ∀ l ∈ op.head, (c l).length ≤ k := by
    cases hhead : op.head with
    | none => exact ⟨n, Nat.le_refl n, by simp⟩
    | some l => exact ⟨max n (c l).length, Nat.le_max_left .., by simp⟩
  obtain ⟨k, hk, hlen⟩ := hrounds
  have heq := (hn k hk).symm.trans (hrun k hlen)
  obtain ⟨rfl, rfl⟩ := Prod.mk.inj (Except.ok.inj heq)
  exact ⟨rfl, ⟨c', hlists⟩, hnext⟩

/-- **The nodes refine the sequences.** -/
noncomputable def refinement : Machines.Refines (machine L) (service L) where
  abs := Heap.sequences
  request := id
  inv h := ∃ c, h.Lists c
  allowed h op := op.Fits h
  shows _ _ _ answer result := answer = result
  keeps := fun ⟨_, hl⟩ hfits hret => (hret.obeys hl hfits).2.1
  step := fun ⟨_, hl⟩ hfits hret => ⟨(hret.obeys hl hfits).2.2.symm, (hret.obeys hl hfits).1⟩

/-- The sequences after the first `t` operations, from empty lists. -/
def sequencesAt (h : Heap L) (op : Nat → Operation L) (t : Nat) : Sequences L :=
  (service L).after ⟨fun _ => [], h.user, h.room⟩ ((List.range t).map op)

/-- **Any run of the list functions is a run over sequences.**  From empty lists, with blocks
that are not in use and a NULL where `insertUser` needs one, every call answers as it would over
sequences.  At every time the nodes of the lists have the entries of the sequences, no node is in
two lists, and whatever is called next comes to its end within as many rounds as its list has
entries. -/
theorem list_runs {heap : Nat → Heap L} {op : Nat → Operation L} {answer : Nat → Answer} {m : Nat}
    (hstart : ∀ l, (heap 0).head l = none) (hfits : ∀ t < m, (op t).Fits (heap t))
    (hrun : ∀ t < m, (op t).Returns (heap t) (answer t) (heap (t + 1))) :
    (∀ t < m, answer t = ((sequencesAt (heap 0) op t).next (op t)).2) ∧
    ∀ t ≤ m, (∃ c, (heap t).Lists c ∧
        ∀ l, (c l).map (heap t).data = (sequencesAt (heap 0) op t).lists l) ∧
      ∀ op' : Operation L, op'.Fits (heap t) → ∃ r, ∀ n,
        (∀ l ∈ op'.head, ((sequencesAt (heap 0) op t).lists l).length ≤ n) →
          op'.run n (heap t) = .ok r := by
  have hlists : (heap 0).Lists fun _ => [] :=
    ⟨fun l => ⟨hstart l, by simp⟩, fun _ _ _ => List.disjoint_nil_left _⟩
  have hempty : (heap 0).sequences = ⟨fun _ => [], (heap 0).user, (heap 0).room⟩ := by
    have hnil : (heap 0).sequences.lists = fun _ => [] :=
      funext fun l => (hlists.chain l).sequences
    exact congrArg (fun lists => (⟨lists, (heap 0).user, (heap 0).room⟩ : Sequences L)) hnil
  obtain ⟨hstates, hanswers⟩ :=
    @Machines.Refines.run _ _ _ _ _ _ _ _ (refinement (L := L)) _ _ _ _ hrun hfits ⟨_, hlists⟩
  have hat (t : Nat) : (service L).after (heap 0).sequences ((List.range t).map op) =
      sequencesAt (heap 0) op t := by rw [sequencesAt, hempty]
  have hstates (t : Nat) (ht : t ≤ m) : (∃ c, (heap t).Lists c) ∧
      (heap t).sequences = sequencesAt (heap 0) op t := hat t ▸ hstates t ht
  refine ⟨fun t ht => hat t ▸ hanswers t ht, fun t ht => ?_⟩
  obtain ⟨⟨c, hl⟩, hseq⟩ := hstates t ht
  have hentries (l : L) : (c l).map (heap t).data = (sequencesAt (heap 0) op t).lists l := by
    rw [← hseq, (hl.chain l).sequences]
  refine ⟨⟨c, hl, hentries⟩, fun op' hfits' => ?_⟩
  obtain ⟨h', c', hreturns, -⟩ := Operation.obeys hl hfits'
  refine ⟨_, fun n hn => hreturns n fun l hl' => ?_⟩
  rw [← List.length_map (heap t).data, hentries]
  exact hn l hl'

end Runs
/-- Two empty lists. -/
def empty : Heap Bool where
  head _ := none
  data _ := 0
  next _ := none
  owned _ := false
  user _ := User.ofMem (str "alice")
  room a := ⟨1000 + a, 0, str "den"⟩

/-- Alice is registered, comes, and is looked for. -/
def arrival : Nat → Operation Bool
  | 0 => .insertNode false 0 ⟨0, 7, none⟩
  | 1 => .insertUser true 0 ⟨1, 7, none⟩
  | _ => .get_user true (str "alice")

/-- The heap and the answer after an operation that has no loop. -/
def after (h : Heap Bool) (op : Operation Bool) : Answer × Heap Bool :=
  match op.run 0 h with
  | .ok r => r
  | .error _ => (.nothing, h)

def arrivalAt : Nat → Heap Bool
  | 0 => empty
  | t + 1 => (after (arrivalAt t) (arrival t)).2

/-- She is found in the second list. -/
theorem list_runs_alice :
    (∀ t < 3, (after (arrivalAt t) (arrival t)).1 =
      ((sequencesAt empty arrival t).next (arrival t)).2) ∧
    ∀ t ≤ 3, (∃ c, (arrivalAt t).Lists c ∧
        ∀ l, (c l).map (arrivalAt t).data = (sequencesAt empty arrival t).lists l) ∧
      ∀ op' : Operation Bool, op'.Fits (arrivalAt t) → ∃ r, ∀ n,
        (∀ l ∈ op'.head, ((sequencesAt empty arrival t).lists l).length ≤ n) →
          op'.run n (arrivalAt t) = .ok r := by
  refine @list_runs Bool _ arrivalAt arrival (fun t => (after (arrivalAt t) (arrival t)).1) 3
    (fun _ => rfl) (fun t ht => ?_) fun t ht => ?_
  · obtain rfl | rfl | rfl : t = 0 ∨ t = 1 ∨ t = 2 := by omega
    · rfl
    · exact ⟨rfl, .inr rfl⟩
    · trivial
  · obtain rfl | rfl | rfl : t = 0 ∨ t = 1 ∨ t = 2 := by omega
    · exact ⟨0, fun _ _ => rfl⟩
    · exact ⟨0, fun _ _ => rfl⟩
    · exact ⟨0, fun _ _ => rfl⟩

end TBDChat.NodeHeap
