import TBDChat.Lib.Contract
import TBDChat.Lib.Mutex
import TBDChat.Text

/-!
# The nodes behind the lists

`LinkedList` has each list function as one operation on a sequence.  Here are the nodes
and the mutexes, and the functions that change a list as the steps they take: the
arguments are evaluated, the mutex is locked, the list is walked, a link is written, the
mutex is unlocked.

A mutex argument is a `pthread_mutex_t`, not a pointer to one, in each of the prototypes
of `linked_list.h`.  So to evaluate it is to make a copy (`Access.pass`), and what the
function locks and unlocks is its copy.  Each call in `server_clients.c` passes the mutex
that is kept with the list it passes.

A list is given by a name, and of a record only what the functions compare is kept.
Nodes are never freed.  `insertUser` does not set the `next` of its node, and rests on
`malloc` handing out memory in which it is NULL.
-/

namespace TBDChat.Nodes
open Atomic

abbrev Ptr := Nat

/-- What is at `node->data`: a `User` or a `Room`. -/
inductive Entry where
  | user (username : Str)
  | room (ID : Int) (name : Str)
  deriving DecidableEq

namespace Entry

/-- `insertUser` and `removeUser` compare usernames. -/
def hasName (username : Str) : Entry → Bool
  | .user name => name = username
  | .room _ _ => false

/-- `insertRoom` compares names and numbers. -/
def isRoom (ID : Int) (name : Str) : Entry → Bool
  | .user _ => false
  | .room ID' name' => name' = name || ID' = ID

/-- An insert of the one finds the other in its way. -/
def clashes : Entry → Entry → Bool
  | .user name => hasName name
  | .room ID name => isRoom ID name

end Entry

/-- The nodes, the heads of the lists `L`, and the mutexes. -/
structure Memory (L ι : Type) where
  head : L → Option Ptr
  data : Ptr → Entry
  next : Ptr → Option Ptr
  /-- How much `malloc` has handed out. -/
  used : Nat
  /-- The thread that a node was handed out to. -/
  owner : Ptr → Option ι
  mutexes : Mutexes L ι

/-- Where `removeNode` finds the node it is to remove. -/
inductive Place where
  | empty
  | head
  | after (p : Ptr)
  | missing

/-- Why a thread does not go on. -/
inductive Halt where
  | blocked
  /-- A NULL is followed. -/
  | null
  /-- A list does not end. -/
  | endless

/-- The steps of a list function, of thread `i` where that matters. -/
inductive Access (L ι : Type) where
  /-- An argument `mutex` is evaluated. -/
  | pass (m : Mutex L)
  | lock (i : ι) (m : Mutex L)
  | unlock (m : Mutex L)
  /-- A new node, with its `data`. -/
  | malloc (i : ι) (e : Entry)
  /-- From node to node up to the last, or to the first whose record passes the test. -/
  | walk (l : L) (test : Entry → Bool)
  /-- From node to node up to the one before `node`. -/
  | seek (l : L) (node : Ptr)
  | setHead (l : L) (p : Ptr)
  | setNext (p : Ptr) (q : Option Ptr)
  /-- `*head = temp->next`. -/
  | dropHead (l : L) (temp : Ptr)
  /-- `temp->next = temp->next->next`. -/
  | dropNext (temp : Ptr)

namespace Memory
variable {L ι : Type} (s : Memory L ι)

/-- The walk from `p`, over `n` nodes at most. -/
def walk (test : Entry → Bool) : Nat → Ptr → Option (Ptr × Bool)
  | 0, _ => none
  | n + 1, p =>
    if test (s.data p) then some (p, true)
    else match s.next p with
      | none => some (p, false)
      | some q => walk test n q

/-- The search from `p` for what links to `node`, over `n` nodes at most. -/
def seek (node : Ptr) : Nat → Ptr → Option (Option Ptr)
  | 0, _ => none
  | n + 1, p =>
    match s.next p with
    | none => some none
    | some q => if q = node then some (some p) else seek node n q

end Memory

namespace Access
variable {L ι : Type}

/-- What a step answers.  A walk answers nothing of an empty list, else where it ended and
whether the test was passed there. -/
abbrev Ar : Access L ι → Type
  | .pass _ => Mutex L
  | .malloc _ _ => Ptr
  | .walk _ _ => Option (Ptr × Bool)
  | .seek _ _ => Place
  | _ => Unit

variable [DecidableEq L]

def exec : (o : Access L ι) → Memory L ι → Outcome (Memory L ι) Empty Halt o.Ar
  | .pass m, s => .ok (.copy s.mutexes.copies, { s with mutexes := s.mutexes.pass m }, [])
  | .lock i m, s =>
    match s.mutexes.status m with
    | .free => .ok ((), { s with mutexes := s.mutexes.lock i m }, [])
    | _ => .error .blocked
  | .unlock m, s => .ok ((), { s with mutexes := s.mutexes.unlock m }, [])
  | .malloc i e, s =>
    .ok (s.used, { s with data := Function.update s.data s.used e
                          used := s.used + 1
                          owner := Function.update s.owner s.used (some i) }, [])
  | .walk l test, s =>
    match s.head l with
    | none => .ok (none, s, [])
    | some p =>
      match s.walk test s.used p with
      | none => .error .endless
      | some r => .ok (some r, s, [])
  | .seek l node, s =>
    match s.head l with
    | none => .ok (.empty, s, [])
    | some p =>
      if p = node then .ok (.head, s, [])
      else match s.seek node s.used p with
        | none => .error .endless
        | some none => .ok (.missing, s, [])
        | some (some temp) => .ok (.after temp, s, [])
  | .setHead l p, s => .ok ((), { s with head := Function.update s.head l (some p) }, [])
  | .setNext p q, s => .ok ((), { s with next := Function.update s.next p q }, [])
  | .dropHead l temp, s =>
    .ok ((), { s with head := Function.update s.head l (s.next temp) }, [])
  | .dropNext temp, s =>
    match s.next temp with
    | none => .error .null
    | some p => .ok ((), { s with next := Function.update s.next temp (s.next p) }, [])

end Access

/-- The meaning of the steps. -/
def accesses {L ι : Type} [DecidableEq L] :
    Semantics (Access L ι) Access.Ar (Memory L ι) Empty Halt := ⟨Access.exec⟩

/-! ## The functions of `linked_list.c` that change a list -/

section Functions
variable {L ι : Type}

/-- A list function on its way. -/
abbrev Steps (L ι α : Type) := Prog (Access L ι) Access.Ar α

def step (o : Access L ι) : Steps L ι o.Ar := .call o

def insertNode (i : ι) (head : L) (new_node : Ptr) (mutex : Mutex L) : Steps L ι Int := do
  step (.lock i mutex)
  match ← step (.walk head fun _ => false) with
  | none =>
    step (.setNext new_node none)
    step (.setHead head new_node)
    step (.unlock mutex)
    pure 1
  | some (temp, _) =>
    step (.setNext temp (some new_node))
    step (.setNext new_node none)
    step (.unlock mutex)
    pure 1

def removeNode (i : ι) (head : L) (to_remove : Ptr) (mutex : Mutex L) : Steps L ι Int := do
  step (.lock i mutex)
  match ← step (.seek head to_remove) with
  | .empty =>
    step (.unlock mutex)
    pure 0
  | .head =>
    step (.dropHead head to_remove)
    step (.unlock mutex)
    pure 1
  | .after temp =>
    step (.dropNext temp)
    step (.unlock mutex)
    pure 1
  | .missing =>
    step (.unlock mutex)
    pure 0

def insertUser (i : ι) (head : L) (new_user : Str) (mutex : Mutex L) : Steps L ι Int := do
  step (.lock i mutex)
  let new_node ← step (.malloc i (.user new_user))
  match ← step (.walk head (Entry.hasName new_user)) with
  | none =>
    step (.setHead head new_node)
    step (.unlock mutex)
    pure 1
  | some (_, true) =>
    step (.unlock mutex)
    pure 0
  | some (temp, false) =>
    step (.setNext temp (some new_node))
    step (.unlock mutex)
    pure 1

/-- `removeUser` lets the mutex go before it calls `removeNode`, which is passed a copy
of the copy. -/
def removeUser (i : ι) (head : L) (user : Str) (mutex : Mutex L) : Steps L ι Int := do
  step (.lock i mutex)
  match ← step (.walk head (Entry.hasName user)) with
  | none =>
    step (.unlock mutex)
    pure 0
  | some (current, true) =>
    step (.unlock mutex)
    let mutex ← step (.pass mutex)
    let _ ← removeNode i head current mutex
    pure 1
  | some (_, false) =>
    step (.unlock mutex)
    pure 0

def insertRoom (i : ι) (head : L) (ID : Int) (name : Str) (mutex : Mutex L) :
    Steps L ι Int := do
  step (.lock i mutex)
  match ← step (.walk head (Entry.isRoom ID name)) with
  | none =>
    let new_node ← step (.malloc i (.room ID name))
    step (.setNext new_node none)
    step (.setHead head new_node)
    step (.unlock mutex)
    pure 1
  | some (_, true) =>
    step (.unlock mutex)
    pure 0
  | some (temp, false) =>
    let new_node ← step (.malloc i (.room ID name))
    step (.setNext new_node none)
    step (.setNext temp (some new_node))
    step (.unlock mutex)
    pure 1

/-- A call of one of them on the list `l`, with the other arguments. -/
inductive ListCall (L : Type) where
  /-- With a node that the caller has made for the record, as all callers do. -/
  | insertNode (l : L) (e : Entry)
  | insertUser (l : L) (new_user : Str)
  | insertRoom (l : L) (ID : Int) (name : Str)
  | removeUser (l : L) (user : Str)
  | removeNode (l : L) (to_remove : Ptr)
  deriving DecidableEq

namespace ListCall

def list : ListCall L → L
  | .insertNode l _ => l
  | .insertUser l _ => l
  | .insertRoom l _ _ => l
  | .removeUser l _ => l
  | .removeNode l _ => l

/-- What an insert is to add. -/
def entry? : ListCall L → Option Entry
  | .insertNode _ e => some e
  | .insertUser _ new_user => some (.user new_user)
  | .insertRoom _ ID name => some (.room ID name)
  | .removeUser _ _ => none
  | .removeNode _ _ => none

/-- The call, from the evaluation of its arguments on. -/
def steps (i : ι) : ListCall L → Steps L ι Int
  | .insertNode l e => do
    let new_node ← step (.malloc i e)
    step (.setNext new_node none)
    let mutex ← step (.pass (.shared l))
    Nodes.insertNode i l new_node mutex
  | .insertUser l new_user => do
    let mutex ← step (.pass (.shared l))
    Nodes.insertUser i l new_user mutex
  | .insertRoom l ID name => do
    let mutex ← step (.pass (.shared l))
    Nodes.insertRoom i l ID name mutex
  | .removeUser l user => do
    let mutex ← step (.pass (.shared l))
    Nodes.removeUser i l user mutex
  | .removeNode l to_remove => do
    let mutex ← step (.pass (.shared l))
    Nodes.removeNode i l to_remove mutex

end ListCall
end Functions
end TBDChat.Nodes
