import TBDChat.Lib.Links
import TBDChat.LinkedList

/-!
# The list functions over a heap of nodes

`linked_list.c` for a single thread, pointer by pointer.  Each field of a `struct node` is
a function of the node's address, and the heap says which addresses are nodes at all.
The lists of `LinkedList` are what the chains of nodes represent.

A loop is given how often it may go round, so that a list that does not end can be told
from one that does.  What `malloc` returns is an argument: a block, with what is in it.
-/

namespace TBDChat.NodeHeap

abbrev Ptr := Nat

/-- A `struct room`.  Its `user_list` is one of the heads of the heap. -/
structure RoomData where
  ID : Int
  fd : Int
  name : Str

/-- The memory, where `L` names the lists. -/
structure Heap (L : Type) where
  head : L → Option Ptr
  data : Ptr → Addr
  next : Ptr → Option Ptr
  /-- What `malloc` has handed out. -/
  owned : Ptr → Bool
  user : Addr → User
  room : Addr → RoomData

/-- A block that `malloc` returns, with what was left in it. -/
structure Block where
  ptr : Ptr
  data : Addr
  next : Option Ptr

/-- Why a function has no result. -/
inductive Stuck where
  /-- A pointer is followed that points to no node. -/
  | wild
  /-- A loop is not over yet. -/
  | running
  deriving DecidableEq

namespace Heap
variable {L : Type} (h : Heap L)

/-! ## Reading and writing nodes -/

/-- `p->next`. -/
def nextOf (p : Ptr) : Except Stuck (Option Ptr) :=
  if h.owned p then .ok (h.next p) else .error .wild

/-- `p->data`. -/
def dataOf (p : Ptr) : Except Stuck Addr :=
  if h.owned p then .ok (h.data p) else .error .wild

/-- The heap where `p->next` is `q`. -/
def link (p : Ptr) (q : Option Ptr) : Heap L := { h with next := Function.update h.next p q }

/-- `p->next = q`. -/
def setNext (p : Ptr) (q : Option Ptr) : Except Stuck (Heap L) :=
  if h.owned p then .ok (h.link p q) else .error .wild

/-- `malloc(sizeof(Node))`, and `data` set in what it returns. -/
def malloc (block : Block) (data : Addr) : Heap L :=
  { h with
    owned := Function.update h.owned block.ptr true
    data := Function.update (Function.update h.data block.ptr block.data) block.ptr data
    next := Function.update h.next block.ptr block.next }

/-- `*head = o`. -/
def setHead [DecidableEq L] (head : L) (o : Option Ptr) : Heap L :=
  { h with head := Function.update h.head head o }

/-! ## The loops -/

/-- `while (temp->next != NULL)`, with a test of the data of each node that is come to.
The result says whether a node passed it, and what `temp` is. -/
def advance (test : Addr → Bool) : Nat → Ptr → Except Stuck (Bool × Ptr)
  | 0, _ => .error .running
  | n + 1, temp => do
    match ← h.nextOf temp with
    | none => pure (false, temp)
    | some next =>
      if test (← h.dataOf next) then pure (true, next) else advance test n next

/-- The loop with the test of the first node in front of it. -/
def walk (test : Addr → Bool) (n : Nat) (temp : Ptr) : Except Stuck (Bool × Ptr) := do
  if test (← h.dataOf temp) then pure (true, temp) else h.advance test n temp

/-- `while (temp->next != NULL)`, up to the node that links to `to_remove`. -/
def findBefore (to_remove : Ptr) : Nat → Ptr → Except Stuck (Option Ptr)
  | 0, _ => .error .running
  | n + 1, temp => do
    match ← h.nextOf temp with
    | none => pure none
    | some next => if next = to_remove then pure (some temp) else findBefore to_remove n next

/-- `while (tmp != NULL)` of `send_message`: the sockets that are sent to. -/
def receivers (clientfd : Int) : Nat → Option Ptr → Except Stuck (List Int)
  | _, none => pure []
  | 0, some _ => .error .running
  | n + 1, some tmp => do
    let sock := (h.user (← h.dataOf tmp)).sock
    let rest ← receivers clientfd n (← h.nextOf tmp)
    pure (if clientfd ≠ sock then sock :: rest else rest)

/-! ## The functions -/

section Functions
variable [DecidableEq L] (n : Nat)

def insertNode (head : L) (new_node : Ptr) : Except Stuck (Int × Heap L) := do
  match h.head head with
  | none =>
    let h ← h.setNext new_node none
    pure (1, h.setHead head (some new_node))
  | some temp =>
    let (_, temp) ← h.advance (fun _ => false) n temp
    let h ← h.setNext temp (some new_node)
    let h ← h.setNext new_node none
    pure (1, h)

def removeNode (head : L) (to_remove : Ptr) : Except Stuck (Int × Heap L) := do
  match h.head head with
  | none => pure (0, h)
  | some temp =>
    if temp = to_remove then pure (1, h.setHead head (← h.nextOf temp))
    else match ← h.findBefore to_remove n temp with
      | none => pure (0, h)
      | some temp =>
        -- `temp->next` is `to_remove` here
        pure (1, ← h.setNext temp (← h.nextOf to_remove))

/-- The usernames are the same, in `strcmp`. -/
def sameName (username : Str) (a : Addr) : Bool := (h.user a).username = username

/-- Nothing sets the `next` of the new node. -/
def insertUser (head : L) (new_user : Addr) (block : Block) : Except Stuck (Int × Heap L) := do
  let new_node := block.ptr
  let h := h.malloc block new_user
  match h.head head with
  | none => pure (1, h.setHead head (some new_node))
  | some temp =>
    match ← h.walk (h.sameName (h.user new_user).username) n temp with
    | (true, _) => pure (0, h)
    | (false, temp) => pure (1, ← h.setNext temp (some new_node))

def removeUser (head : L) (user : Addr) : Except Stuck (Int × Heap L) := do
  match h.head head with
  | none => pure (0, h)
  | some current =>
    match ← h.walk (h.sameName (h.user user).username) n current with
    | (true, current) =>
      let (_, h) ← h.removeNode n head current
      pure (1, h)
    | (false, _) => pure (0, h)

def get_user (head : L) (user : Str) : Except Stuck (Option Addr) := do
  match h.head head with
  | none => pure none
  | some temp =>
    match ← h.walk (h.sameName user) n temp with
    | (true, temp) => pure (some (← h.dataOf temp))
    | (false, _) => pure none

/-- The name or the number is the same. -/
def sameRoom (new_room : RoomData) (a : Addr) : Bool :=
  (h.room a).name = new_room.name || (h.room a).ID = new_room.ID

def insertRoom (head : L) (new_room : Addr) (block : Block) : Except Stuck (Int × Heap L) := do
  match h.head head with
  | none =>
    let h ← (h.malloc block new_room).setNext block.ptr none
    pure (1, h.setHead head (some block.ptr))
  | some temp =>
    match ← h.walk (h.sameRoom (h.room new_room)) n temp with
    | (true, _) => pure (0, h)
    | (false, temp) =>
      let h ← (h.malloc block new_room).setNext block.ptr none
      pure (1, ← h.setNext temp (some block.ptr))

/-- The walk of `send_message` over the list of a room. -/
def send_message (user_list : L) (clientfd : Int) : Except Stuck (List Int) :=
  h.receivers clientfd n (h.head user_list)

end Functions

/-! ## Chains -/

/-- From the pointer on there is a chain of nodes, up to a NULL. -/
structure Chain (h : Heap L) (o : Option Ptr) (c : List Ptr) : Prop where
  path : Path h.next o c
  owned : ∀ p ∈ c, h.owned p = true

section Chains
variable {h} {o : Option Ptr} {c d e : List Ptr} {p t temp : Ptr} {n : Nat} {head : L}
  {test : Addr → Bool} {block : Block} {a : Addr}

theorem nextOf_eq (hp : h.owned p = true) : h.nextOf p = .ok (h.next p) := if_pos hp

theorem dataOf_eq (hp : h.owned p = true) : h.dataOf p = .ok (h.data p) := if_pos hp

theorem setNext_eq (hp : h.owned p = true) (q : Option Ptr) : h.setNext p q = .ok (h.link p q) :=
  if_pos hp

@[simp] theorem next_link (h : Heap L) (p : Ptr) (q : Option Ptr) : (h.link p q).next p = q :=
  Function.update_self ..

@[simp] theorem owned_malloc (h : Heap L) (block : Block) (a : Addr) :
    (h.malloc block a).owned block.ptr = true := Function.update_self ..

@[simp] theorem data_malloc (h : Heap L) (block : Block) (a : Addr) :
    (h.malloc block a).data block.ptr = a := Function.update_self ..

@[simp] theorem next_malloc (h : Heap L) (block : Block) (a : Addr) :
    (h.malloc block a).next block.ptr = block.next := Function.update_self ..

@[simp] theorem head_setHead [DecidableEq L] (h : Heap L) (l : L) (o : Option Ptr) :
    (h.setHead l o).head l = o := Function.update_self ..

namespace Chain

theorem head?_eq (hc : h.Chain o c) : c.head? = o := by
  cases c with
  | nil => exact Eq.symm hc.path
  | cons p c => exact hc.path.1.symm

theorem exists_head (hc : h.Chain o c) (hne : c ≠ []) : ∃ temp, o = some temp := by
  cases c with
  | nil => exact absurd rfl hne
  | cons p c => exact ⟨p, hc.path.1⟩

/-- The nodes behind the first are a chain. -/
theorem tail (hc : h.Chain o (p :: c)) : h.Chain (h.next p) c :=
  ⟨hc.path.2, fun q hq => hc.owned q (List.mem_cons_of_mem _ hq)⟩

theorem mem_owned (hc : h.Chain o (d ++ p :: e)) : h.owned p = true := hc.owned p (by simp)

/-- A block that is not handed out is in no chain. -/
theorem not_mem (hc : h.Chain o c) (hp : h.owned p = false) : p ∉ c := by
  intro hmem
  exact Bool.false_ne_true (hp.symm.trans (hc.owned p hmem))

/-- `malloc` changes no chain. -/
theorem malloc (hc : h.Chain o c) (hfresh : h.owned block.ptr = false) :
    (h.malloc block a).Chain o c := by
  refine ⟨(Path.update (hc.not_mem hfresh)).mpr hc.path, fun p hp => ?_⟩
  have hne : p ≠ block.ptr := fun heq => hc.not_mem hfresh (heq ▸ hp)
  exact (Function.update_of_ne hne _ _).trans (hc.owned p hp)

/-- Nor what is in one. -/
theorem data_malloc_of_mem (hc : h.Chain o c) (hfresh : h.owned block.ptr = false) :
    ∀ p ∈ c, (h.malloc block a).data p = h.data p := by
  intro p hp
  have hne : p ≠ block.ptr := fun heq => hc.not_mem hfresh (heq ▸ hp)
  exact (Function.update_of_ne hne _ _).trans (Function.update_of_ne hne _ _)

/-! ### The loops on a chain -/

theorem advance (hc : h.Chain o (temp :: c)) (hn : c.length < n) :
    h.advance test n temp = .ok (match c.find? (fun p => test (h.data p)) with
      | some p => (true, p)
      | none => (false, c.getLast?.getD temp)) := by
  induction c generalizing o temp n with
  | nil =>
    obtain ⟨n, rfl⟩ := Nat.exists_eq_add_of_lt hn
    have hnext : h.next temp = none := hc.path.2
    simp [Heap.advance, nextOf_eq (hc.owned temp (by simp)), hnext]
    rfl
  | cons p c ih =>
    cases n with
    | zero => exact absurd hn (Nat.not_lt_zero _)
    | succ n =>
      have hnext : h.next temp = some p := hc.path.2.1
      have hrest := ih hc.tail (Nat.lt_of_succ_lt_succ hn)
      rw [Heap.advance, nextOf_eq (hc.owned temp (by simp)), hnext]
      simp only [bind, Except.bind, dataOf_eq (hc.owned p (by simp))]
      by_cases htest : test (h.data p) = true
      · simp [htest]
        rfl
      · simp [htest, hrest, List.getLast?_cons]

/-- Without a test it comes to the last node. -/
theorem advance_last (hc : h.Chain (some temp) (d ++ [t])) (hn : d.length < n) :
    h.advance (fun _ => false) n temp = .ok (false, t) := by
  cases d with
  | nil =>
    obtain rfl : temp = t := Option.some.inj hc.path.1
    exact hc.advance hn
  | cons p d =>
    obtain rfl : temp = p := Option.some.inj hc.path.1
    rw [List.length_cons] at hn
    have hlen : (d ++ [t]).length < n := by simpa using hn
    have hnone : (d ++ [t]).find? (fun _ => false) = none := List.find?_eq_none.mpr (by simp)
    rw [Chain.advance (c := d ++ [t]) hc hlen, hnone, List.getLast?_concat]
    rfl

/-- The walk finds the first node whose data passes the test, else the last one. -/
theorem walk (hc : h.Chain (some temp) c) (hn : c.length ≤ n) :
    h.walk test n temp = .ok (match c.find? (fun p => test (h.data p)) with
      | some p => (true, p)
      | none => (false, c.getLast?.getD temp)) := by
  cases c with
  | nil => cases (hc.path : some temp = none)
  | cons p c =>
    obtain rfl : temp = p := Option.some.inj hc.path.1
    rw [Heap.walk, dataOf_eq (hc.owned temp (by simp))]
    by_cases htest : test (h.data temp) = true
    · simp [bind, Except.bind, htest]
      rfl
    · simp [bind, Except.bind, htest, hc.advance hn, List.getLast?_cons]

theorem walk_some (hc : h.Chain (some temp) c) (hn : c.length ≤ n)
    (hfind : c.find? (fun p => test (h.data p)) = some p) :
    h.walk test n temp = .ok (true, p) := by rw [hc.walk hn, hfind]

theorem walk_mem (hc : h.Chain (some temp) c) (hn : c.length ≤ n) (hp : p ∈ c)
    (htest : test (h.data p) = true) : ∃ q, h.walk test n temp = .ok (true, q) := by
  have hsome : (c.find? (fun p => test (h.data p))).isSome = true :=
    List.find?_isSome.mpr ⟨p, hp, htest⟩
  obtain ⟨q, hq⟩ := Option.isSome_iff_exists.mp hsome
  exact ⟨q, hc.walk_some hn hq⟩

theorem walk_none (hc : h.Chain (some temp) (d ++ [t])) (hn : d.length < n)
    (hnone : ∀ p ∈ d ++ [t], test (h.data p) = false) :
    h.walk test n temp = .ok (false, t) := by
  have hlen : (d ++ [t]).length ≤ n := by
    rw [List.length_append]
    exact hn
  have hfind : (d ++ [t]).find? (fun p => test (h.data p)) = none :=
    List.find?_eq_none.mpr fun p hp => Bool.eq_false_iff.mp (hnone p hp)
  rw [hc.walk hlen, hfind, List.getLast?_concat]
  rfl

/-- The search for a node that is not there comes to the end. -/
theorem findBefore_missing (hc : h.Chain o (temp :: c)) (hn : c.length < n) (hp : p ∉ c) :
    h.findBefore p n temp = .ok none := by
  induction c generalizing o temp n with
  | nil =>
    obtain ⟨n, rfl⟩ := Nat.exists_eq_add_of_lt hn
    have hnext : h.next temp = none := hc.path.2
    simp [Heap.findBefore, nextOf_eq (hc.owned temp (by simp)), hnext]
    rfl
  | cons q c ih =>
    cases n with
    | zero => exact absurd hn (Nat.not_lt_zero _)
    | succ n =>
      obtain ⟨hq, hp⟩ := not_or.mp (mt List.mem_cons.mpr hp)
      have hnext : h.next temp = some q := hc.path.2.1
      have hrest := ih hc.tail (Nat.lt_of_succ_lt_succ hn) hp
      simp [Heap.findBefore, nextOf_eq (hc.owned temp (by simp)), hnext, bind, Except.bind,
        Ne.symm hq, hrest]

/-- A node with another in front of it is not the first. -/
theorem first_ne (hc : h.Chain (some temp) (d ++ t :: p :: e)) : temp ≠ p := by
  rintro rfl
  have hnodup := hc.path.nodup
  cases d with
  | nil =>
    obtain rfl : temp = t := Option.some.inj hc.path.1
    simp at hnodup
  | cons q d =>
    obtain rfl : temp = q := Option.some.inj hc.path.1
    simp at hnodup

/-- The search for one that is there stops at the one in front of it, as no node is passed
twice. -/
theorem findBefore_found (hc : h.Chain (some temp) (d ++ t :: p :: e)) (hn : d.length < n) :
    h.findBefore p n temp = .ok (some t) := by
  induction d generalizing temp n with
  | nil =>
    obtain ⟨n, rfl⟩ := Nat.exists_eq_add_of_lt hn
    obtain rfl : temp = t := Option.some.inj hc.path.1
    have hnext : h.next temp = some p := hc.path.2.1
    simp [Heap.findBefore, nextOf_eq (hc.owned temp (by simp)), hnext, bind, Except.bind]
    rfl
  | cons q d ih =>
    cases n with
    | zero => exact absurd hn (Nat.not_lt_zero _)
    | succ n =>
      obtain rfl : temp = q := Option.some.inj hc.path.1
      obtain ⟨x, hnext⟩ := hc.tail.exists_head (by simp)
      have hrest : h.Chain (some x) (d ++ t :: p :: e) := hnext ▸ hc.tail
      simp [Heap.findBefore, nextOf_eq (hc.owned temp (by simp)), hnext, bind, Except.bind,
        hrest.first_ne, ih hrest (Nat.lt_of_succ_lt_succ hn)]

theorem receivers (hc : h.Chain o c) (hn : c.length ≤ n) (clientfd : Int) :
    h.receivers clientfd n o =
      .ok ((c.map fun p => (h.user (h.data p)).sock).filter (clientfd ≠ ·)) := by
  induction c generalizing o n with
  | nil =>
    obtain rfl : o = none := hc.path
    rw [Heap.receivers]
    rfl
  | cons p c ih =>
    cases n with
    | zero => exact absurd hn (Nat.not_succ_le_zero _)
    | succ n =>
      obtain rfl : o = some p := hc.path.1
      have hp := hc.owned p (by simp)
      have hrest := ih hc.tail (Nat.le_of_succ_le_succ hn)
      simp only [Heap.receivers, dataOf_eq hp, nextOf_eq hp, bind, Except.bind, hrest]
      by_cases hsock : clientfd = (h.user (h.data p)).sock
      · simp [hsock]
        rfl
      · simp [hsock]
        rfl

/-! ### Links that are set -/

/-- A node that ends a chain of its own. -/
theorem single (hp : h.owned p = true) : (h.link p none).Chain (some p) [p] :=
  ⟨⟨rfl, next_link h p none⟩, fun q hq => by rwa [List.mem_singleton.mp hq]⟩

/-- A node that is in front of none comes behind the last one. -/
theorem append (hc : h.Chain o (d ++ [t])) (hp : h.owned p = true) (hout : p ∉ d ++ [t]) :
    ((h.link p none).link t (some p)).Chain o (d ++ [t] ++ [p]) := by
  have htp : t ≠ p := fun heq => hout (heq ▸ List.mem_append_right d (List.mem_singleton_self t))
  have hpath : Path (Function.update h.next p none) o (d ++ [t]) := (Path.update hout).mpr hc.path
  refine ⟨?_, fun q hq => ?_⟩
  · rw [List.append_assoc]
    exact hpath.relink (single hp).path (by simpa using htp)
  · rcases List.mem_append.mp hq with hq | hq
    · exact hc.owned q hq
    · rwa [List.mem_singleton.mp hq]

/-- What comes behind two nodes does not come back to the first. -/
theorem behind (hc : h.Chain o (d ++ t :: p :: e)) : h.Chain (h.next p) e ∧ t ∉ e := by
  have hrest : Path h.next (some t) (t :: p :: e) := hc.path.rest
  have ht := (List.nodup_cons.mp hrest.nodup).1
  exact ⟨⟨hrest.2.2, fun q hq => hc.owned q (by simp [hq])⟩,
    fun hte => ht (List.mem_cons_of_mem p hte)⟩

/-- Chains still end where a link is set to a node that leads to the end. -/
theorem ends_link {q : Option Ptr} (hc : h.Chain o c) (hq : (h.link t q).Chain q e) :
    ∃ c', (h.link t q).Chain o c' := by
  obtain ⟨c', hc', hmem⟩ := hc.path.ends_update hq.path
  exact ⟨c', hc', fun p hp => (hmem p hp).elim (hc.owned p) (hq.owned p)⟩

/-- Where a list starts is nothing to a chain. -/
theorem setHead [DecidableEq L] {l : L} {q : Option Ptr} (hc : h.Chain o c) :
    (h.setHead l q).Chain o c := ⟨hc.path, hc.owned⟩

end Chain

/-! ### The functions on a chain -/

theorem get_user_eq (hc : h.Chain (h.head head) c) (hn : c.length ≤ n) (user : Str) :
    h.get_user n head user = .ok (LinkedList.get_user h.user (c.map h.data) user) := by
  cases c with
  | nil =>
    rw [Heap.get_user, ← hc.head?_eq]
    rfl
  | cons temp c =>
    have hhead : h.head head = some temp := hc.path.1
    have hlookup : LinkedList.get_user h.user ((temp :: c).map h.data) user =
        ((temp :: c).find? (fun p => h.sameName user (h.data p))).map h.data := List.find?_map ..
    rw [Heap.get_user, hhead, hlookup]
    simp only [(hhead ▸ hc).walk hn, bind, Except.bind]
    cases hfind : (temp :: c).find? (fun p => h.sameName user (h.data p)) with
    | none => rfl
    | some p =>
      simp only [dataOf_eq (hc.owned p (List.mem_of_find?_eq_some hfind))]
      rfl

theorem send_message_eq (hc : h.Chain (h.head head) c) (hn : c.length ≤ n) (clientfd : Int) :
    h.send_message n head clientfd =
      .ok (((c.map h.data).map fun a => (h.user a).sock).filter (clientfd ≠ ·)) := by
  rw [Heap.send_message, hc.receivers hn, List.map_map]
  rfl

variable [DecidableEq L]

theorem insertNode_nil (hc : h.Chain (h.head head) []) (hp : h.owned p = true) :
    h.insertNode n head p = .ok (1, (h.link p none).setHead head (some p)) := by
  rw [Heap.insertNode, ← hc.head?_eq]
  simp only [List.head?_nil, setNext_eq hp, bind, Except.bind]
  rfl

theorem insertNode_append (hc : h.Chain (h.head head) (d ++ [t])) (hn : d.length < n)
    (hp : h.owned p = true) :
    h.insertNode n head p = .ok (1, (h.link t (some p)).link p none) := by
  obtain ⟨temp, htemp⟩ := hc.exists_head (by simp)
  rw [Heap.insertNode, htemp]
  simp only [(htemp ▸ hc).advance_last hn, setNext_eq hc.mem_owned, bind, Except.bind]
  rw [setNext_eq (h := h.link t (some p)) hp]
  rfl

theorem removeNode_nil (hc : h.Chain (h.head head) []) : h.removeNode n head p = .ok (0, h) := by
  rw [Heap.removeNode, ← hc.head?_eq]
  rfl

theorem removeNode_head (hc : h.Chain (h.head head) (p :: c)) :
    h.removeNode n head p = .ok (1, h.setHead head (h.next p)) := by
  rw [Heap.removeNode, ← hc.head?_eq]
  simp [nextOf_eq (hc.owned p (by simp)), bind, Except.bind]
  rfl

theorem removeNode_after (hc : h.Chain (h.head head) (d ++ t :: p :: e)) (hn : d.length < n) :
    h.removeNode n head p = .ok (1, h.link t (h.next p)) := by
  obtain ⟨temp, htemp⟩ := hc.exists_head (by simp)
  have hne : temp ≠ p := (htemp ▸ hc).first_ne
  have ht : h.owned t = true := hc.mem_owned
  have hp : h.owned p = true := hc.owned p (by simp)
  rw [Heap.removeNode, htemp]
  simp only [if_neg hne, (htemp ▸ hc).findBefore_found hn, nextOf_eq hp, setNext_eq ht, bind,
    Except.bind]
  rfl

theorem removeNode_missing (hc : h.Chain (h.head head) c) (hn : c.length ≤ n) (hp : p ∉ c) :
    h.removeNode n head p = .ok (0, h) := by
  cases c with
  | nil => exact removeNode_nil hc
  | cons temp c =>
    obtain ⟨hne, hp⟩ := not_or.mp (mt List.mem_cons.mpr hp)
    rw [Heap.removeNode, ← hc.head?_eq]
    simp only [List.head?_cons, if_neg (Ne.symm hne), hc.findBefore_missing hn hp, bind,
      Except.bind]
    rfl

theorem removeUser_missing (hc : h.Chain (h.head head) c) (hn : c.length ≤ n)
    (hnone : ∀ p ∈ c, (h.user (h.data p)).username ≠ (h.user a).username) :
    h.removeUser n head a = .ok (0, h) := by
  rcases List.eq_nil_or_concat' c with rfl | ⟨d, t, rfl⟩
  · rw [Heap.removeUser, ← hc.head?_eq]
    rfl
  · obtain ⟨temp, htemp⟩ := hc.exists_head (by simp)
    have hlen : d.length < n := by
      rw [List.length_append] at hn
      exact hn
    have htest : ∀ p ∈ d ++ [t], h.sameName (h.user a).username (h.data p) = false :=
      fun p hp => decide_eq_false (hnone p hp)
    have hwalk := (htemp ▸ hc).walk_none hlen htest
    rw [Heap.removeUser, htemp]
    simp only [hwalk, bind, Except.bind]
    rfl

/-- `removeUser` takes out the node that it finds. -/
theorem removeUser_found (hc : h.Chain (h.head head) c) (hn : c.length ≤ n)
    (hfind : c.find? (fun p => h.sameName (h.user a).username (h.data p)) = some p) {h' : Heap L}
    (hremove : h.removeNode n head p = .ok (1, h')) : h.removeUser n head a = .ok (1, h') := by
  obtain ⟨temp, htemp⟩ := hc.exists_head (List.ne_nil_of_mem (List.mem_of_find?_eq_some hfind))
  have hwalk := (htemp ▸ hc).walk_some hn hfind
  rw [Heap.removeUser, htemp]
  simp only [hwalk, hremove, bind, Except.bind]
  rfl

/-- How `removeUser` ends: nothing is found, or the first node goes, or one behind another. -/
theorem removeUser_outcome (hc : h.Chain (h.head head) c) (a : Addr) : ∃ r h',
    (∀ n, c.length ≤ n → h.removeUser n head a = .ok (r, h')) ∧
    (h' = h ∨ (∃ p e, c = p :: e ∧ h' = h.setHead head (h.next p)) ∨
      ∃ d t p e, c = d ++ t :: p :: e ∧ h' = h.link t (h.next p)) := by
  cases hfind : c.find? (fun p => h.sameName (h.user a).username (h.data p)) with
  | none =>
    have hnone : ∀ p ∈ c, (h.user (h.data p)).username ≠ (h.user a).username := by
      intro p hp
      simpa [sameName] using List.find?_eq_none.mp hfind p hp
    exact ⟨0, h, fun n hn => removeUser_missing hc hn hnone, .inl rfl⟩
  | some p =>
    obtain ⟨d, e, rfl⟩ := List.append_of_mem (List.mem_of_find?_eq_some hfind)
    rcases List.eq_nil_or_concat' d with rfl | ⟨d, t, rfl⟩
    · exact ⟨1, _, fun n hn => removeUser_found hc hn hfind (removeNode_head hc),
        .inr (.inl ⟨p, e, rfl, rfl⟩)⟩
    · have hc' : h.Chain (h.head head) (d ++ t :: p :: e) := by rwa [List.append_assoc] at hc
      refine ⟨1, _, fun n hn => removeUser_found hc hn hfind (removeNode_after hc' ?_),
        .inr (.inr ⟨d, t, p, e, List.append_assoc .., rfl⟩)⟩
      exact Nat.lt_of_lt_of_le (by simp) hn

theorem insertUser_nil (hc : h.Chain (h.head head) []) (a : Addr) (block : Block) :
    h.insertUser n head a block =
      .ok (1, (h.malloc block a).setHead head (some block.ptr)) := by
  have hnone : (h.malloc block a).head head = none := hc.head?_eq.symm
  rw [Heap.insertUser]
  simp only [hnone]
  rfl

/-- A record with the username is in the list. -/
theorem insertUser_dup (hc : h.Chain (h.head head) c) (hn : c.length ≤ n)
    (hfresh : h.owned block.ptr = false) (hp : p ∈ c)
    (hname : (h.user (h.data p)).username = (h.user a).username) :
    h.insertUser n head a block = .ok (0, h.malloc block a) := by
  obtain ⟨temp, htemp⟩ := hc.exists_head (List.ne_nil_of_mem hp)
  have htest : (h.malloc block a).sameName ((h.malloc block a).user a).username
      ((h.malloc block a).data p) = true := by
    rw [hc.data_malloc_of_mem hfresh p hp]
    exact decide_eq_true hname
  obtain ⟨q, hwalk⟩ := (htemp ▸ hc).malloc (a := a) hfresh |>.walk_mem hn hp htest
  have hhead : (h.malloc block a).head head = some temp := htemp
  rw [Heap.insertUser]
  simp only [hhead, hwalk]
  rfl

theorem insertUser_append (hc : h.Chain (h.head head) (d ++ [t])) (hn : d.length < n)
    (hfresh : h.owned block.ptr = false)
    (hnone : ∀ p ∈ d ++ [t], (h.user (h.data p)).username ≠ (h.user a).username) :
    h.insertUser n head a block = .ok (1, (h.malloc block a).link t (some block.ptr)) := by
  obtain ⟨temp, htemp⟩ := hc.exists_head (by simp)
  have hnew : (h.malloc block a).Chain (some temp) (d ++ [t]) := htemp ▸ hc.malloc hfresh
  have htest : ∀ p ∈ d ++ [t], (h.malloc block a).sameName ((h.malloc block a).user a).username
      ((h.malloc block a).data p) = false := by
    intro p hp
    rw [hc.data_malloc_of_mem hfresh p hp]
    exact decide_eq_false (hnone p hp)
  have hhead : (h.malloc block a).head head = some temp := htemp
  rw [Heap.insertUser]
  simp only [hhead, hnew.walk_none hn htest, bind, Except.bind, setNext_eq hnew.mem_owned]
  rfl

theorem insertRoom_nil (hc : h.Chain (h.head head) []) (a : Addr) (block : Block) :
    h.insertRoom n head a block =
      .ok (1, ((h.malloc block a).link block.ptr none).setHead head (some block.ptr)) := by
  rw [Heap.insertRoom, ← hc.head?_eq]
  simp only [List.head?_nil, setNext_eq (owned_malloc h block a), bind, Except.bind]
  rfl

/-- A room with the name or the number is in the list. -/
theorem insertRoom_dup (hc : h.Chain (h.head head) c) (hn : c.length ≤ n) (hp : p ∈ c)
    (hsame : h.sameRoom (h.room a) (h.data p) = true) :
    h.insertRoom n head a block = .ok (0, h) := by
  obtain ⟨temp, htemp⟩ := hc.exists_head (List.ne_nil_of_mem hp)
  obtain ⟨q, hwalk⟩ := (htemp ▸ hc).walk_mem hn hp hsame
  rw [Heap.insertRoom, htemp]
  simp only [hwalk, bind, Except.bind]
  rfl

theorem insertRoom_append (hc : h.Chain (h.head head) (d ++ [t])) (hn : d.length < n)
    (hfresh : h.owned block.ptr = false)
    (hnone : ∀ p ∈ d ++ [t], h.sameRoom (h.room a) (h.data p) = false) :
    h.insertRoom n head a block =
      .ok (1, ((h.malloc block a).link block.ptr none).link t (some block.ptr)) := by
  obtain ⟨temp, htemp⟩ := hc.exists_head (by simp)
  have ht : ((h.malloc block a).link block.ptr none).owned t = true :=
    (hc.malloc (a := a) hfresh).mem_owned
  rw [Heap.insertRoom, htemp]
  simp only [(htemp ▸ hc).walk_none hn hnone, bind, Except.bind,
    setNext_eq (owned_malloc h block a), setNext_eq ht]
  rfl

end Chains
end Heap
end TBDChat.NodeHeap
