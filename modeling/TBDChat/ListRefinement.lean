import TBDChat.NodeHeap

/-!
# The list functions and the sequences

With several lists in the heap, no node in two of them, each function does to one list
what the function of `LinkedList` does to a sequence.  `removeUser` looks for a name and
`removeNode` for the node that was found, so the two searches meet at the same place.
-/

namespace TBDChat.NodeHeap
open Heap

variable {L : Type} {h h' : Heap L} {c : L → List Ptr} {l : L} {d e : List Ptr} {p t : Ptr}
  {n : Nat} {block : Block} {a : Addr}

/-- The lists of a heap: each is a chain, and no two have a node in common. -/
structure Heap.Lists (h : Heap L) (c : L → List Ptr) : Prop where
  chain : ∀ l, h.Chain (h.head l) (c l)
  disjoint : ∀ l l', l ≠ l' → (c l).Disjoint (c l')

namespace Heap.Lists

/-- A node of one list is in no other. -/
theorem not_mem (hl : h.Lists c) (hp : p ∈ c l) {l' : L} (hne : l' ≠ l) : p ∉ c l' :=
  hl.disjoint l l' (Ne.symm hne) hp

theorem malloc (hl : h.Lists c) (hfresh : h.owned block.ptr = false) :
    (h.malloc block a).Lists c :=
  ⟨fun l => (hl.chain l).malloc hfresh, hl.disjoint⟩

end Heap.Lists

variable [DecidableEq L]

/-- The list `l` now has the nodes `d`, which represent `entries`, and everything else is as
it was. -/
structure Heap.Becomes (h : Heap L) (c : L → List Ptr) (l : L) (d : List Ptr)
    (entries : List Addr) (h' : Heap L) : Prop where
  lists : h'.Lists (Function.update c l d)
  represents : d.map h'.data = entries
  others : ∀ l', l' ≠ l → (c l').map h'.data = (c l').map h.data
  user : h'.user = h.user
  room : h'.room = h.room

/-- A call of one of the functions. -/
inductive Call (L : Type) where
  | insertNode (head : L) (new_node : Ptr)
  | removeNode (head : L) (to_remove : Ptr)
  | removeUser (head : L) (user : Addr)
  | insertRoom (head : L) (new_room : Addr) (block : Block)

namespace Call

def head : Call L → L
  | .insertNode head _ => head
  | .removeNode head _ => head
  | .removeUser head _ => head
  | .insertRoom head _ _ => head

def run (n : Nat) (h : Heap L) : Call L → Except Stuck (Int × Heap L)
  | .insertNode head new_node => h.insertNode n head new_node
  | .removeNode head to_remove => h.removeNode n head to_remove
  | .removeUser head user => h.removeUser n head user
  | .insertRoom head new_room block => h.insertRoom n head new_room block

/-- A node that is inserted is in no list, and a block from `malloc` is not in use. -/
def Fits (h : Heap L) (c : L → List Ptr) : Call L → Prop
  | .insertNode _ new_node => h.owned new_node = true ∧ ∀ l, new_node ∉ c l
  | .insertRoom _ _ block => h.owned block.ptr = false
  | .removeNode _ _ => True
  | .removeUser _ _ => True

/-- What is returned, where the list has the nodes `c`. -/
def answer (h : Heap L) (c : List Ptr) : Call L → Int
  | .insertNode _ _ => 1
  | .removeNode _ to_remove => if to_remove ∈ c then 1 else 0
  | .removeUser _ user => if (LinkedList.removeUser h.user (c.map h.data) user).1 then 1 else 0
  | .insertRoom _ new_room _ =>
    if c.any (fun p => h.sameRoom (h.room new_room) (h.data p)) then 0 else 1

/-- The nodes afterwards. -/
def nodes (h : Heap L) (c : List Ptr) : Call L → List Ptr
  | .insertNode _ new_node => c ++ [new_node]
  | .removeNode _ to_remove => c.erase to_remove
  | .removeUser _ user => c.eraseP (fun p => h.sameName (h.user user).username (h.data p))
  | .insertRoom _ new_room block =>
    if c.any (fun p => h.sameRoom (h.room new_room) (h.data p)) then c else c ++ [block.ptr]

/-- The sequence afterwards. -/
def entries (h : Heap L) (c : List Ptr) : Call L → List Addr
  | .insertNode _ new_node => LinkedList.insertNode (c.map h.data) (h.data new_node)
  | .removeNode _ to_remove => (c.erase to_remove).map h.data
  | .removeUser _ user => (LinkedList.removeUser h.user (c.map h.data) user).2
  | .insertRoom _ new_room _ =>
    if c.any (fun p => h.sameRoom (h.room new_room) (h.data p)) then c.map h.data
    else c.map h.data ++ [new_room]

end Call

namespace Heap.Lists

/-- Where a list is replaced and nothing is written to the others. -/
theorem replace (hl : h.Lists c) (hd : h'.Chain (h'.head l) d)
    (hnew : ∀ l', l' ≠ l → ∀ p ∈ d, p ∉ c l')
    (hhead : ∀ l', l' ≠ l → h'.head l' = h.head l')
    (hsame : ∀ l', l' ≠ l → ∀ p ∈ c l', h'.next p = h.next p ∧ h'.owned p = true) :
    h'.Lists (Function.update c l d) := by
  refine ⟨fun l' => ?_, fun l₁ l₂ hne => ?_⟩
  · by_cases heq : l' = l
    · subst heq
      rwa [Function.update_self]
    · rw [Function.update_of_ne heq, hhead l' heq]
      exact ⟨(hl.chain l').path.congr fun p hp => (hsame l' heq p hp).1,
        fun p hp => (hsame l' heq p hp).2⟩
  · by_cases h₁ : l₁ = l
    · subst h₁
      rw [Function.update_self, Function.update_of_ne (Ne.symm hne)]
      exact fun p => hnew l₂ (Ne.symm hne) p
    · by_cases h₂ : l₂ = l
      · subst h₂
        rw [Function.update_self, Function.update_of_ne h₁]
        exact fun p hp₁ hp₂ => hnew l₁ h₁ p hp₂ hp₁
      · rw [Function.update_of_ne h₁, Function.update_of_ne h₂]
        exact hl.disjoint l₁ l₂ hne

/-- A node that is in no list becomes the only one of a list. -/
theorem setHead_new (hl : h.Lists c) (hp : h.owned p = true) (hout : ∀ l, p ∉ c l) :
    ((h.link p none).setHead l (some p)).Lists (Function.update c l [p]) := by
  refine hl.replace ?_ ?_ ?_ ?_
  · rw [head_setHead]
    exact (Chain.single hp).setHead
  · intro l' hne q hq
    rw [List.mem_singleton.mp hq]
    exact hout l'
  · intro l' hne
    exact Function.update_of_ne hne _ _
  · intro l' hne q hq
    have hqp : q ≠ p := fun heq => hout l' (heq ▸ hq)
    exact ⟨Function.update_of_ne hqp _ _, (hl.chain l').owned q hq⟩

/-- A node that is in no list comes behind the last one of a list. -/
theorem link_new (hl : h.Lists c) (hc : c l = d ++ [t]) (hp : h.owned p = true)
    (hout : ∀ l, p ∉ c l) :
    ((h.link p none).link t (some p)).Lists (Function.update c l (d ++ [t] ++ [p])) := by
  have ht : t ∈ c l := hc ▸ List.mem_append_right d (List.mem_singleton_self t)
  have hchain : h.Chain (h.head l) (d ++ [t]) := hc ▸ hl.chain l
  refine hl.replace (hchain.append hp (hc ▸ hout l)) ?_ (fun _ _ => rfl) ?_
  · intro l' hne q hq
    rcases List.mem_append.mp hq with hq | hq
    · exact hl.not_mem (hc ▸ hq) hne
    · rw [List.mem_singleton.mp hq]
      exact hout l'
  · intro l' hne q hq
    have hqp : q ≠ p := fun heq => hout l' (heq ▸ hq)
    have hqt : q ≠ t := fun heq => hl.not_mem ht hne (heq ▸ hq)
    exact ⟨(Function.update_of_ne hqt _ _).trans (Function.update_of_ne hqp _ _),
      (hl.chain l').owned q hq⟩

/-- The first node of a list is taken out. -/
theorem setHead_next (hl : h.Lists c) (hc : c l = p :: d) :
    (h.setHead l (h.next p)).Lists (Function.update c l d) := by
  have hchain : h.Chain (h.head l) (p :: d) := hc ▸ hl.chain l
  refine hl.replace ?_ ?_ (fun l' hne => Function.update_of_ne hne _ _) ?_
  · rw [head_setHead]
    exact hchain.tail.setHead
  · intro l' hne q hq
    exact hl.not_mem (hc ▸ List.mem_cons_of_mem p hq) hne
  · exact fun l' hne q hq => ⟨rfl, (hl.chain l').owned q hq⟩

/-- A node behind another is taken out. -/
theorem link_next (hl : h.Lists c) (hc : c l = d ++ t :: p :: e) :
    (h.link t (h.next p)).Lists (Function.update c l (d ++ t :: e)) := by
  have hchain : h.Chain (h.head l) (d ++ t :: p :: e) := hc ▸ hl.chain l
  obtain ⟨hrest, ht⟩ := hchain.behind
  have hsub : ∀ q ∈ d ++ t :: e, q ∈ c l := by
    intro q hq
    rw [hc]
    simp only [List.mem_append, List.mem_cons] at hq ⊢
    tauto
  refine hl.replace ⟨hchain.path.relink hrest.path ht, ?_⟩ ?_ (fun _ _ => rfl) ?_
  · exact fun q hq => (hl.chain l).owned q (hsub q hq)
  · exact fun l' hne q hq => hl.not_mem (hsub q hq) hne
  · intro l' hne q hq
    have hqt : q ≠ t := fun heq => hl.not_mem (hsub t (by simp)) hne (heq ▸ hq)
    exact ⟨Function.update_of_ne hqt _ _, (hl.chain l').owned q hq⟩

end Heap.Lists

/-! ## One call -/

/-- Nothing but links is written to the nodes of the lists. -/
theorem Heap.Lists.becomes (hl : h'.Lists (Function.update c l d))
    (hdata : ∀ l', ∀ p ∈ c l', h'.data p = h.data p) (huser : h'.user = h.user)
    (hroom : h'.room = h.room) : h.Becomes c l d (d.map h'.data) h' :=
  ⟨hl, rfl, fun l' _ => List.map_congr_left (hdata l'), huser, hroom⟩

/-- A list that is left alone. -/
theorem Heap.Lists.same (hl : h.Lists c) (l : L) : h.Becomes c l (c l) ((c l).map h.data) h := by
  refine Heap.Lists.becomes ?_ (fun _ _ _ => rfl) rfl rfl
  rwa [Function.update_eq_self]

theorem insertNode_becomes (hl : h.Lists c) (hp : h.owned p = true) (hout : ∀ l, p ∉ c l)
    (l : L) : ∃ h', (∀ n, (c l).length ≤ n → h.insertNode n l p = .ok (1, h')) ∧
      h.Becomes c l (c l ++ [p]) (LinkedList.insertNode ((c l).map h.data) (h.data p)) h' := by
  have hentries : LinkedList.insertNode ((c l).map h.data) (h.data p) =
      (c l ++ [p]).map h.data := by
    rw [List.map_append]
    rfl
  rw [hentries]
  rcases List.eq_nil_or_concat' (c l) with hc | ⟨d, t, hc⟩
  · refine ⟨_, fun n _ => insertNode_nil (hc ▸ hl.chain l) hp, ?_⟩
    rw [hc]
    exact (hl.setHead_new hp hout).becomes (fun _ _ _ => rfl) rfl rfl
  · have htp : t ≠ p := fun heq => hout l (hc ▸ heq ▸ List.mem_append_right d (by simp))
    have hcomm : (h.link t (some p)).link p none = (h.link p none).link t (some p) := by
      rw [link, link, link, link, Function.update_comm htp]
    refine ⟨_, fun n hn => insertNode_append (hc ▸ hl.chain l) ?_ hp, ?_⟩
    · rw [hc, List.length_append] at hn
      exact hn
    · rw [hcomm, hc]
      exact (hl.link_new hc hp hout).becomes (fun _ _ _ => rfl) rfl rfl

theorem removeNode_becomes (hl : h.Lists c) (l : L) (p : Ptr) : ∃ h', (∀ n, (c l).length ≤ n →
      h.removeNode n l p = .ok (if p ∈ c l then 1 else 0, h')) ∧
      h.Becomes c l ((c l).erase p) (((c l).erase p).map h.data) h' := by
  by_cases hp : p ∈ c l
  · rw [if_pos hp]
    obtain ⟨d, e, hd, hc, herase⟩ := List.exists_erase_eq hp
    rw [herase]
    rcases List.eq_nil_or_concat' d with rfl | ⟨d, t, rfl⟩
    · refine ⟨_, fun n _ => removeNode_head (hc ▸ hl.chain l), ?_⟩
      exact (hl.setHead_next hc).becomes (fun _ _ _ => rfl) rfl rfl
    · rw [List.append_assoc] at hc ⊢
      refine ⟨_, fun n hn => removeNode_after (hc ▸ hl.chain l) ?_, ?_⟩
      · rw [hc, List.length_append] at hn
        exact Nat.lt_of_lt_of_le (Nat.lt_add_of_pos_right (Nat.succ_pos _)) hn
      · exact (hl.link_next hc).becomes (fun _ _ _ => rfl) rfl rfl
  · rw [if_neg hp, List.erase_of_not_mem hp]
    exact ⟨h, fun n hn => removeNode_missing (hl.chain l) hn hp, hl.same l⟩

/-- The node that `removeUser` finds is the one that it takes out. -/
theorem eraseP_of_find? {c : List Ptr} {test : Ptr → Bool} (h : c.find? test = some p) :
    c.eraseP test = c.erase p := by
  obtain ⟨hp, d, e, rfl, hd⟩ := List.find?_eq_some_iff_append.mp h
  have hne : p ∉ d := fun hmem => by simpa [hp] using hd p hmem
  rw [List.erase_append_right _ hne, List.erase_cons_head,
    List.eraseP_append_right _ fun q hq => by simpa using hd q hq, List.eraseP_cons_of_pos hp]

theorem removeUser_becomes (hl : h.Lists c) (l : L) (a : Addr) : ∃ h', (∀ n, (c l).length ≤ n →
      h.removeUser n l a = .ok ((Call.removeUser l a).answer h (c l), h')) ∧
      h.Becomes c l ((c l).eraseP (fun p => h.sameName (h.user a).username (h.data p)))
        (LinkedList.removeUser h.user ((c l).map h.data) a).2 h' := by
  have hentries : (LinkedList.removeUser h.user ((c l).map h.data) a).2 =
      ((c l).eraseP (fun p => h.sameName (h.user a).username (h.data p))).map h.data := by
    rw [LinkedList.removeUser, List.eraseP_map]
    rfl
  have hanswer : (LinkedList.removeUser h.user ((c l).map h.data) a).1 =
      ((c l).find? (fun p => h.sameName (h.user a).username (h.data p))).isSome := by
    rw [LinkedList.removeUser, LinkedList.get_user, List.find?_map, Option.isSome_map]
    rfl
  rw [hentries, Call.answer, hanswer]
  cases hfind : (c l).find? (fun p => h.sameName (h.user a).username (h.data p)) with
  | none =>
    have hnone := List.find?_eq_none.mp hfind
    rw [List.eraseP_of_forall_not hnone]
    refine ⟨h, fun n hn => removeUser_missing (hl.chain l) hn fun p hp => ?_, hl.same l⟩
    simpa [sameName] using hnone p hp
  | some p =>
    have hp : p ∈ c l := List.mem_of_find?_eq_some hfind
    obtain ⟨h', hrun, hbecomes⟩ := removeNode_becomes hl l p
    rw [if_pos hp] at hrun
    rw [eraseP_of_find? hfind]
    exact ⟨h', fun n hn => removeUser_found (hl.chain l) hn hfind (hrun n hn), hbecomes⟩

theorem insertRoom_becomes (hl : h.Lists c) (l : L) (a : Addr)
    (hfresh : h.owned block.ptr = false) : ∃ h', (∀ n, (c l).length ≤ n →
      h.insertRoom n l a block = .ok ((Call.insertRoom l a block).answer h (c l), h')) ∧
      h.Becomes c l ((Call.insertRoom l a block).nodes h (c l))
        ((Call.insertRoom l a block).entries h (c l)) h' := by
  rw [Call.answer, Call.nodes, Call.entries]
  by_cases hdup : (c l).any (fun p => h.sameRoom (h.room a) (h.data p)) = true
  · simp only [if_pos hdup]
    obtain ⟨p, hp, hsame⟩ := List.any_eq_true.mp hdup
    exact ⟨h, fun n hn => insertRoom_dup (hl.chain l) hn hp hsame, hl.same l⟩
  · simp only [if_neg hdup]
    have hnone : ∀ p ∈ c l, h.sameRoom (h.room a) (h.data p) = false := by simpa using hdup
    have hout (l : L) : block.ptr ∉ c l := (hl.chain l).not_mem hfresh
    have hmalloc : (h.malloc block a).Lists c := hl.malloc hfresh
    have hnew := owned_malloc h block a
    have hdata : ∀ l', ∀ p ∈ c l', (h.malloc block a).data p = h.data p := fun l' =>
      (hl.chain l').data_malloc_of_mem hfresh
    have hentries : (c l).map h.data ++ [a] = (c l ++ [block.ptr]).map (h.malloc block a).data := by
      rw [List.map_append, List.map_singleton, data_malloc, List.map_congr_left (hdata l)]
    rw [hentries]
    rcases List.eq_nil_or_concat' (c l) with hc | ⟨d, t, hc⟩
    · refine ⟨_, fun n _ => insertRoom_nil (hc ▸ hl.chain l) a block, ?_⟩
      rw [hc]
      exact (hmalloc.setHead_new hnew hout).becomes hdata rfl rfl
    · refine ⟨_, fun n hn => insertRoom_append (hc ▸ hl.chain l) ?_ hfresh (hc ▸ hnone), ?_⟩
      · rw [hc, List.length_append] at hn
        exact hn
      · rw [hc]
        exact (hmalloc.link_new hc hnew hout).becomes hdata rfl rfl

/-- The room at an address, where `users` has what is in the lists of rooms. -/
def Heap.roomAt (h : Heap L) (users : Addr → List Addr) (a : Addr) : Room :=
  ⟨(h.room a).ID, (h.room a).fd, (h.room a).name, users a⟩

omit [DecidableEq L] in
/-- In terms of rooms it is the function of `LinkedList`. -/
theorem insertRoom_rooms (h : Heap L) (c : List Ptr) (l : L) (a : Addr) (block : Block)
    (users : Addr → List Addr) :
    LinkedList.insertRoom ((c.map h.data).map (h.roomAt users)) (h.roomAt users a) =
      ((Call.insertRoom l a block).answer h c == 1,
        ((Call.insertRoom l a block).entries h c).map (h.roomAt users)) := by
  have hany : ((c.map h.data).map (h.roomAt users)).any (fun r =>
      r.name = (h.roomAt users a).name || r.ID = (h.roomAt users a).ID) =
      c.any (fun p => h.sameRoom (h.room a) (h.data p)) := by
    rw [List.any_map, List.any_map]
    rfl
  rw [LinkedList.insertRoom, hany, Call.answer, Call.entries]
  split
  · rfl
  · rw [List.map_append]
    rfl

/-- **The list functions refine the operations on sequences.** -/
theorem call_refines (hl : h.Lists c) (call : Call L) (hfits : call.Fits h c) : ∃ h',
    (∀ n, (c call.head).length ≤ n → call.run n h = .ok (call.answer h (c call.head), h')) ∧
    h.Becomes c call.head (call.nodes h (c call.head)) (call.entries h (c call.head)) h' := by
  cases call with
  | insertNode head new_node => exact insertNode_becomes hl hfits.1 hfits.2 head
  | removeNode head to_remove => exact removeNode_becomes hl head to_remove
  | removeUser head user => exact removeUser_becomes hl head user
  | insertRoom head new_room block => exact insertRoom_becomes hl head new_room hfits

/-- Two lists in one heap, both with record 1. -/
def sample : Heap Bool where
  head l := some (if l then 0 else 2)
  data p := p % 2
  next p := if p = 0 then some 1 else if p = 2 then some 3 else none
  owned p := p < 4
  user a := User.ofMem (if a = 0 then str "alice" else str "bob")
  room a := ⟨1000 + a, 0, str "den"⟩

def sampleNodes (l : Bool) : List Ptr := if l then [0, 1] else [2, 3]

theorem sample_lists : sample.Lists sampleNodes := by
  refine ⟨fun l => ?_, fun l l' hne => ?_⟩
  · cases l with
    | false => exact ⟨⟨rfl, rfl, rfl⟩, by decide⟩
    | true => exact ⟨⟨rfl, rfl, rfl⟩, by decide⟩
  · cases l with
    | false => cases l' with
      | false => exact absurd rfl hne
      | true => simp [sampleNodes]
    | true => cases l' with
      | false => simp [sampleNodes]
      | true => exact absurd rfl hne

/-- Alice is taken out of the one list. -/
theorem call_refines_alice : ∃ h',
    (∀ n, 2 ≤ n → sample.removeUser n true 0 = .ok (1, h')) ∧
    sample.Becomes sampleNodes true [1] [1] h' := by
  have hanswer : (Call.removeUser true 0).answer sample [0, 1] = 1 := by decide
  have hnodes : (Call.removeUser true 0).nodes sample [0, 1] = [1] := by decide
  have hentries : (Call.removeUser true 0).entries sample [0, 1] = [1] := by decide
  obtain ⟨h', hrun, hbecomes⟩ := call_refines sample_lists (.removeUser true 0) trivial
  have hlist : sampleNodes true = [0, 1] := rfl
  simp only [Call.head, hlist, hanswer, hnodes, hentries] at hrun hbecomes
  exact ⟨h', hrun, hbecomes⟩

end TBDChat.NodeHeap
