import TBDChat.ListRefinement

/-!
# What `malloc` leaves in a node

`insertNode` and `insertRoom` end the list behind the node they insert.  `insertUser`
does not, on neither of its paths: its node links to what the memory had in it before.
-/

namespace TBDChat.NodeHeap
open Heap

variable {L : Type} [DecidableEq L] {h h' : Heap L} {c d e : List Ptr} {l head : L} {p t : Ptr}
  {n : Nat} {block : Block} {a : Addr} {r : Int}

/-! ## One insert -/

/-- The list with the nodes `c` gets the new user, unless there is an entry of the username. -/
def InsertsUser (h : Heap L) (head : L) (c : List Ptr) (new_user : Addr) (block : Block) : Prop :=
  ∃ h' d, h'.Chain (h'.head head) d ∧
    d.map h'.data = (LinkedList.insertUser h.user (c.map h.data) new_user).2 ∧
    if (LinkedList.insertUser h.user (c.map h.data) new_user).1 then
      ∀ n, c.length ≤ n → h.insertUser n head new_user block = .ok (1, h')
    else d = c ∧ ∀ n, c.length ≤ n → h.insertUser n head new_user block = .ok (0, h')

/-- An entry of the list has the username of the new user. -/
def Heap.Taken (h : Heap L) (c : List Ptr) (new_user : Addr) : Prop :=
  ∃ p ∈ c, (h.user (h.data p)).username = (h.user new_user).username

omit [DecidableEq L] in
theorem insertUser_taken (ht : h.Taken c a) :
    LinkedList.insertUser h.user (c.map h.data) a = (false, c.map h.data) := by
  obtain ⟨p, hp, hname⟩ := ht
  refine if_pos (Option.isSome_iff_ne_none.mpr fun hnone => ?_)
  exact LinkedList.get_user_none.mp hnone _ (List.mem_map_of_mem hp) hname

omit [DecidableEq L] in
theorem insertUser_free (ht : ¬ h.Taken c a) :
    LinkedList.insertUser h.user (c.map h.data) a = (true, c.map h.data ++ [a]) := by
  refine if_neg fun hsome => ?_
  obtain ⟨b, hb⟩ := Option.isSome_iff_exists.mp hsome
  obtain ⟨hmem, hname⟩ := LinkedList.get_user_some hb
  obtain ⟨p, hp, rfl⟩ := List.mem_map.mp hmem
  exact ht ⟨p, hp, hname⟩

omit [DecidableEq L] in
/-- A node that ends its chain already. -/
theorem link_malloc (hnext : block.next = none) :
    (h.malloc block a).link block.ptr none = h.malloc block a := by
  have hself : Function.update (h.malloc block a).next block.ptr none =
      (h.malloc block a).next := by
    rw [← hnext]
    exact Function.update_idem ..
  rw [link, hself]

omit [DecidableEq L] in
theorem data_append (hc : h.Chain (h.head head) c) (hfresh : h.owned block.ptr = false) :
    (c ++ [block.ptr]).map (h.malloc block a).data = c.map h.data ++ [a] := by
  rw [List.map_append, List.map_singleton, data_malloc,
    List.map_congr_left (hc.data_malloc_of_mem hfresh)]

/-- Into a list without the username, where the node ends the chain. -/
theorem insertsUser_ended (hc : h.Chain (h.head head) c) (hfresh : h.owned block.ptr = false)
    (ht : ¬ h.Taken c a) (hnext : block.next = none) : InsertsUser h head c a block := by
  have hnew := owned_malloc h block a
  have hfree : ∀ p ∈ c, (h.user (h.data p)).username ≠ (h.user a).username :=
    fun p hp hname => ht ⟨p, hp, hname⟩
  rcases List.eq_nil_or_concat' c with rfl | ⟨d, t, rfl⟩
  · refine ⟨(h.malloc block a).setHead head (some block.ptr), [block.ptr], ?_, ?_, ?_⟩
    · have hsingle := Chain.single hnew
      rw [link_malloc hnext] at hsingle
      rw [head_setHead]
      exact hsingle.setHead
    · rw [insertUser_free ht]
      exact data_append hc hfresh
    · rw [insertUser_free ht]
      exact fun n _ => insertUser_nil hc a block
  · refine ⟨(h.malloc block a).link t (some block.ptr), d ++ [t] ++ [block.ptr], ?_, ?_, ?_⟩
    · have happend := (hc.malloc hfresh).append hnew (hc.not_mem hfresh)
      rwa [link_malloc hnext] at happend
    · rw [insertUser_free ht]
      exact data_append hc hfresh
    · rw [insertUser_free ht]
      refine fun n hn => insertUser_append hc ?_ hfresh hfree
      rw [List.length_append] at hn
      exact hn

/-- A chain from a node on that is as long as the node alone. -/
theorem ended_of_length {next : Ptr → Option Ptr} (hpath : Path next (some p) d)
    (hlen : d.length = 1) : next p = none := by
  obtain ⟨q, rfl⟩ := List.length_eq_one_iff.mp hlen
  obtain rfl : p = q := Option.some.inj hpath.1
  exact hpath.2

/-- Into a list with the username. -/
theorem insertsUser_taken (hc : h.Chain (h.head head) c) (hfresh : h.owned block.ptr = false)
    (ht : h.Taken c a) : InsertsUser h head c a block := by
  have htaken := ht
  obtain ⟨p, hp, hname⟩ := ht
  refine ⟨h.malloc block a, c, hc.malloc hfresh, ?_, ?_⟩
  · rw [insertUser_taken htaken]
    exact List.map_congr_left (hc.data_malloc_of_mem hfresh)
  · rw [insertUser_taken htaken]
    exact ⟨rfl, fun n hn => insertUser_dup hc hn hfresh hp hname⟩

/-- A list that is one longer ends with the new node. -/
theorem ended_of_insertsUser (hc : h.Chain (h.head head) c) (hfresh : h.owned block.ptr = false)
    (ht : ¬ h.Taken c a) (hins : InsertsUser h head c a block) : block.next = none := by
  have hnext := next_malloc h block a
  have hfree : ∀ p ∈ c, (h.user (h.data p)).username ≠ (h.user a).username :=
    fun p hp hname => ht ⟨p, hp, hname⟩
  obtain ⟨h', e, hchain, hentries, hrun⟩ := hins
  rw [insertUser_free ht] at hentries hrun
  have hlen : e.length = c.length + 1 := by simpa using congrArg List.length hentries
  rcases List.eq_nil_or_concat' c with rfl | ⟨d, t, rfl⟩
  · have hh' := (insertUser_nil hc a block).symm.trans (hrun 0 (Nat.le_refl _))
    obtain rfl := (Prod.mk.inj (Except.ok.inj hh')).2
    have hpath := hchain.path
    rw [head_setHead] at hpath
    exact hnext.symm.trans (ended_of_length hpath hlen)
  · have hh' := (insertUser_append hc (Nat.lt_succ_self _) hfresh hfree).symm.trans
      (hrun (d.length + 1) (by simp))
    obtain rfl := (Prod.mk.inj (Except.ok.inj hh')).2
    -- up to the old last node it is the old chain
    have hold : Path (h.malloc block a).next (h.head head) (d ++ [t]) := (hc.malloc hfresh).path
    have hsame : ∀ p ∈ d, ((h.malloc block a).link t (some block.ptr)).next p =
        (h.malloc block a).next p := by
      intro p hp
      have hpt : p ≠ t := by
        rintro rfl
        exact List.disjoint_of_nodup_append hc.path.nodup hp List.mem_cons_self
      exact Function.update_of_ne hpt _ _
    obtain ⟨f, rfl, hf⟩ := hold.through hsame hchain.path
    rw [next_link] at hf
    have hflen : f.length = 1 := by
      simp only [List.length_append, List.length_cons, List.length_nil] at hlen
      omega
    have hne : block.ptr ≠ t := fun heq => hc.not_mem hfresh (heq ▸ by simp)
    have hend := ended_of_length hf hflen
    rw [← hnext, ← hend]
    exact (Function.update_of_ne hne _ _).symm

/-- When `insertUser` inserts: the username is in the list, or the memory of the node has a
NULL where `next` is. -/
theorem insertsUser_iff (hc : h.Chain (h.head head) c) (hfresh : h.owned block.ptr = false) :
    InsertsUser h head c a block ↔ h.Taken c a ∨ block.next = none := by
  constructor
  · intro hins
    by_cases ht : h.Taken c a
    · exact .inl ht
    · exact .inr (ended_of_insertsUser hc hfresh ht hins)
  · intro hcond
    by_cases ht : h.Taken c a
    · exact insertsUser_taken hc hfresh ht
    · exact insertsUser_ended hc hfresh ht (hcond.resolve_left ht)

/-! ## Runs -/

/-- What the server does with its lists of users: a node for `insertNode` is made by the
caller. -/
inductive UserCall (L : Type) where
  | malloc (block : Block) (data : Addr)
  | insertNode (head : L) (new_node : Ptr)
  | insertUser (head : L) (new_user : Addr) (block : Block)
  | removeUser (head : L) (user : Addr)

namespace UserCall

def run (n : Nat) (h : Heap L) : UserCall L → Except Stuck (Int × Heap L)
  | .malloc block data => .ok (1, h.malloc block data)
  | .insertNode head new_node => h.insertNode n head new_node
  | .insertUser head new_user block => h.insertUser n head new_user block
  | .removeUser head user => h.removeUser n head user

/-- The call is over after some number of rounds. -/
def Returns (call : UserCall L) (h : Heap L) (r : Int) (h' : Heap L) : Prop :=
  ∃ n, ∀ m, n ≤ m → call.run m h = .ok (r, h')

/-- A block from `malloc` is not in use, and a node that is inserted has been made. -/
def Fits (h : Heap L) : UserCall L → Prop
  | .malloc block _ => h.owned block.ptr = false
  | .insertNode _ new_node => h.owned new_node = true
  | .insertUser _ _ block => h.owned block.ptr = false
  | .removeUser _ _ => True

/-- If `insertUser` adds its node, there is a NULL in it. -/
def Ended (h : Heap L) : UserCall L → Prop
  | .insertUser head new_user block =>
    (∃ c, h.Chain (h.head head) c ∧ h.Taken c new_user) ∨ block.next = none
  | _ => True

end UserCall

/-- A state that calls lead to from empty lists. -/
inductive Built : Heap L → Prop
  | empty (h : Heap L) (hnull : ∀ l, h.head l = none) : Built h
  | call (h h' : Heap L) (call : UserCall L) (r : Int) (hbuilt : Built h) (hfits : call.Fits h)
    (hended : call.Ended h) (hreturns : call.Returns h r h') : Built h'

/-- Every list comes to a NULL. -/
def Heap.Ending (h : Heap L) : Prop := ∀ l, ∃ c, h.Chain (h.head l) c

/-- What a call returns is what it returns with enough rounds. -/
theorem UserCall.Returns.eq {call : UserCall L} {r₁ : Int} {h₁ : Heap L} {k : Nat}
    (hret : call.Returns h r h') (hrun : ∀ n, k ≤ n → call.run n h = .ok (r₁, h₁)) : h' = h₁ := by
  obtain ⟨n, hn⟩ := hret
  have heq := (hn (max n k) (Nat.le_max_left ..)).symm.trans (hrun _ (Nat.le_max_right ..))
  exact (Prod.mk.inj (Except.ok.inj heq)).2

namespace Heap.Ending

omit [DecidableEq L] in
theorem malloc (hh : h.Ending) (hfresh : h.owned block.ptr = false) :
    (h.malloc block a).Ending := by
  intro l
  obtain ⟨c, hc⟩ := hh l
  exact ⟨c, hc.malloc hfresh⟩

theorem setHead {o : Option Ptr} (hh : h.Ending) (ho : h.Chain o c) : (h.setHead l o).Ending := by
  intro l'
  by_cases heq : l' = l
  · subst heq
    rw [head_setHead]
    exact ⟨c, ho.setHead⟩
  · obtain ⟨c', hc'⟩ := hh l'
    have hhead : (h.setHead l o).head l' = h.head l' := Function.update_of_ne heq _ _
    rw [hhead]
    exact ⟨c', hc'.setHead⟩

omit [DecidableEq L] in
theorem link {q : Option Ptr} (hh : h.Ending) (hq : (h.link t q).Chain q e) :
    (h.link t q).Ending := by
  intro l
  obtain ⟨c, hc⟩ := hh l
  exact hc.ends_link hq

omit [DecidableEq L] in
/-- The lists are cut behind a node. -/
theorem cut (hh : h.Ending) (p : Ptr) : (h.link p none).Ending :=
  hh.link (e := []) ⟨rfl, by simp⟩

omit [DecidableEq L] in
/-- A node that ends its chain is put behind another. -/
theorem append (hh : h.Ending) (hp : h.owned p = true) (htp : t ≠ p) :
    ((h.link p none).link t (some p)).Ending := by
  refine (hh.cut p).link (e := [p]) ⟨⟨rfl, ?_⟩, ?_⟩
  · exact (Function.update_of_ne (Ne.symm htp) _ _).trans (Function.update_self ..)
  · intro q hq
    rwa [List.mem_singleton.mp hq]

/-! ### One call -/

theorem insertNode (hh : h.Ending) (hp : h.owned p = true)
    (hret : (UserCall.insertNode l p).Returns h r h') : h'.Ending := by
  obtain ⟨c, hc⟩ := hh l
  rcases List.eq_nil_or_concat' c with rfl | ⟨d, t, rfl⟩
  · obtain rfl := hret.eq (k := 0) fun n _ => insertNode_nil hc hp
    exact (hh.cut p).setHead (Chain.single hp)
  · obtain rfl := hret.eq (k := d.length + 1) fun n hn => insertNode_append hc hn hp
    by_cases htp : t = p
    · -- the node is the last one of the list already
      have hself : (h.link t (some p)).link p none = h.link p none := by
        rw [htp, Heap.link, Heap.link, Heap.link, Function.update_idem]
      exact hself ▸ hh.cut p
    · have hcomm : (h.link t (some p)).link p none = (h.link p none).link t (some p) := by
        rw [Heap.link, Heap.link, Heap.link, Heap.link, Function.update_comm htp]
      exact hcomm ▸ hh.append hp htp

theorem insertUser (hh : h.Ending) (hfresh : h.owned block.ptr = false)
    (hended : (UserCall.insertUser l a block).Ended h)
    (hret : (UserCall.insertUser l a block).Returns h r h') : h'.Ending := by
  obtain ⟨c, hc⟩ := hh l
  by_cases ht : h.Taken c a
  · obtain ⟨p, hp, hname⟩ := ht
    obtain rfl := hret.eq fun n hn => insertUser_dup hc hn hfresh hp hname
    exact hh.malloc hfresh
  · have hnext : block.next = none := by
      refine hended.resolve_left fun ⟨c', hc', ht'⟩ => ht ?_
      rwa [hc.path.unique hc'.path]
    have hnew := owned_malloc h block a
    rcases List.eq_nil_or_concat' c with rfl | ⟨d, t, rfl⟩
    · obtain rfl := hret.eq (k := 0) fun n _ => insertUser_nil hc a block
      have hsingle := Chain.single hnew
      rw [link_malloc hnext] at hsingle
      exact (hh.malloc hfresh).setHead hsingle
    · obtain rfl := hret.eq (k := d.length + 1) fun n hn =>
        insertUser_append hc hn hfresh fun p hp hname => ht ⟨p, hp, hname⟩
      have htp : t ≠ block.ptr := fun heq => hc.not_mem hfresh (heq ▸ by simp)
      have happend := (hh.malloc hfresh).append hnew htp
      rwa [link_malloc hnext] at happend

theorem removeUser (hh : h.Ending) (hret : (UserCall.removeUser l a).Returns h r h') :
    h'.Ending := by
  obtain ⟨c, hc⟩ := hh l
  obtain ⟨r₁, h₁, hrun, hout⟩ := removeUser_outcome hc a
  obtain rfl := hret.eq hrun
  rcases hout with rfl | ⟨p, e, rfl, rfl⟩ | ⟨d, t, p, e, rfl, rfl⟩
  · exact hh
  · exact hh.setHead hc.tail
  · obtain ⟨hrest, ht⟩ := hc.behind
    exact hh.link ⟨(Path.update ht).mpr hrest.path, hrest.owned⟩

theorem call {call : UserCall L} (hh : h.Ending) (hfits : call.Fits h) (hended : call.Ended h)
    (hret : call.Returns h r h') : h'.Ending := by
  cases call with
  | malloc block data =>
    obtain rfl := hret.eq (k := 0) fun n _ => rfl
    exact hh.malloc hfits
  | insertNode head new_node => exact hh.insertNode hfits hret
  | insertUser head new_user block => exact hh.insertUser hfits hended hret
  | removeUser head user => exact hh.removeUser hret

end Heap.Ending

theorem Built.ending (hb : Built h) : h.Ending := by
  induction hb with
  | empty h hnull => exact fun l => ⟨[], hnull l, by simp⟩
  | call h h' call r hbuilt hfits hended hreturns ih => exact ih.call hfits hended hreturns

/-- The walks over a list, and the functions that walk, within `n` rounds. -/
structure Heap.Walks (h : Heap L) (n : Nat) (l : L) : Prop where
  get_user : ∀ user, ∃ r, h.get_user n l user = .ok r
  removeUser : ∀ a, ∃ r, h.removeUser n l a = .ok r
  send_message : ∀ clientfd, ∃ r, h.send_message n l clientfd = .ok r
  insertUser : ∀ a block, h.owned block.ptr = false → ∃ r, h.insertUser n l a block = .ok r
  insertNode : ∀ p, h.owned p = true → ∃ r, h.insertNode n l p = .ok r

theorem Heap.Chain.insertUser_ok (hc : h.Chain (h.head l) c) (hn : c.length ≤ n)
    (hfresh : h.owned block.ptr = false) (a : Addr) :
    ∃ r, h.insertUser n l a block = .ok r := by
  by_cases ht : h.Taken c a
  · obtain ⟨p, hp, hname⟩ := ht
    exact ⟨_, insertUser_dup hc hn hfresh hp hname⟩
  · rcases List.eq_nil_or_concat' c with rfl | ⟨d, t, rfl⟩
    · exact ⟨_, insertUser_nil hc a block⟩
    · exact ⟨_, insertUser_append hc (Nat.lt_of_lt_of_le (by simp) hn) hfresh
        fun p hp hname => ht ⟨p, hp, hname⟩⟩

theorem Heap.Chain.insertNode_ok (hc : h.Chain (h.head l) c) (hn : c.length ≤ n)
    (hp : h.owned p = true) : ∃ r, h.insertNode n l p = .ok r := by
  rcases List.eq_nil_or_concat' c with rfl | ⟨d, t, rfl⟩
  · exact ⟨_, insertNode_nil hc hp⟩
  · exact ⟨_, insertNode_append hc (Nat.lt_of_lt_of_le (by simp) hn) hp⟩

theorem Heap.Chain.walks (hc : h.Chain (h.head l) c) (hn : c.length ≤ n) : h.Walks n l where
  get_user user := ⟨_, get_user_eq hc hn user⟩
  removeUser a :=
    let ⟨r, h', hrun, _⟩ := removeUser_outcome hc a
    ⟨(r, h'), hrun n hn⟩
  send_message clientfd := ⟨_, send_message_eq hc hn clientfd⟩
  insertUser a _ hfresh := hc.insertUser_ok hn hfresh a
  insertNode _ hp := hc.insertNode_ok hn hp

/-- **What `insertUser` rests on.**  It inserts a user if and only if the username is in the
list or the memory of the node has a NULL where `next` is; and where that is so in every
call, the walks end in every state that is built up from empty lists. -/
theorem insertUser_ends :
    (∀ (h : Heap L) (head : L) (c : List Ptr) (new_user : Addr) (block : Block),
      h.Chain (h.head head) c → h.owned block.ptr = false →
      (InsertsUser h head c new_user block ↔ h.Taken c new_user ∨ block.next = none)) ∧
    ∀ h : Heap L, Built h → ∀ l, ∃ n, ∀ m, n ≤ m → h.Walks m l := by
  refine ⟨fun h head c new_user block hc hfresh => insertsUser_iff hc hfresh, fun h hb l => ?_⟩
  obtain ⟨c, hc⟩ := hb.ending l
  exact ⟨c.length, fun m hm => hc.walks hm⟩

/-- Memory without a node in it, and an empty list. -/
def bare : Heap Unit where
  head _ := none
  data _ := 0
  next _ := none
  owned _ := false
  user a := User.ofMem (str (if a = 0 then "alice" else "bob"))
  room a := ⟨1000 + a, 0, str "den"⟩

/-- Alice has been inserted, and what her node had been used for before is still in its block. -/
def withAlice : Heap Unit := (bare.malloc ⟨0, 7, none⟩ 0).setHead () (some 0)

def withBob : Heap Unit := (withAlice.malloc ⟨1, 9, none⟩ 1).link 0 (some 1)

/-- Bob comes behind Alice, and a second Alice does not come in, whatever is in her block. -/
theorem insertUser_ends_alice : InsertsUser withAlice () [0] 1 ⟨1, 9, none⟩ ∧
    InsertsUser withBob () [0, 1] 0 ⟨2, 3, some 2⟩ ∧
    ∃ n, ∀ m, n ≤ m → (withBob.malloc ⟨2, 3, some 2⟩ 0).Walks m () := by
  have hc₀ : bare.Chain (bare.head ()) [] := ⟨rfl, by simp⟩
  have hc₁ : withAlice.Chain (withAlice.head ()) [0] := ⟨⟨rfl, rfl⟩, by decide⟩
  have hc₂ : withBob.Chain (withBob.head ()) [0, 1] := ⟨⟨rfl, rfl, rfl⟩, by decide⟩
  have htaken : withBob.Taken [0, 1] 0 := ⟨0, by decide, by decide⟩
  have hother : ∀ p ∈ [0], (withAlice.user (withAlice.data p)).username ≠
      (withAlice.user 1).username := by decide
  have hbuilt₁ : Built withAlice :=
    .call bare _ (.insertUser () 0 ⟨0, 7, none⟩) 1 (.empty bare fun _ => rfl) rfl (.inr rfl)
      ⟨0, fun m _ => insertUser_nil (n := m) hc₀ 0 ⟨0, 7, none⟩⟩
  have hbuilt₂ : Built withBob :=
    .call withAlice _ (.insertUser () 1 ⟨1, 9, none⟩) 1 hbuilt₁ rfl (.inr rfl)
      ⟨1, fun m hm =>
        insertUser_append (d := []) hc₁ (Nat.lt_of_lt_of_le Nat.one_pos hm) rfl hother⟩
  have hbuilt₃ : Built (withBob.malloc ⟨2, 3, some 2⟩ 0) :=
    .call withBob _ (.insertUser () 0 ⟨2, 3, some 2⟩) 0 hbuilt₂ rfl (.inl ⟨_, hc₂, htaken⟩)
      ⟨2, fun m hm => insertUser_dup hc₂ hm rfl (p := 0) (by decide) (by decide)⟩
  exact ⟨(insertUser_ends.1 withAlice () [0] 1 ⟨1, 9, none⟩ hc₁ rfl).mpr (.inr rfl),
    (insertUser_ends.1 withBob () [0, 1] 0 ⟨2, 3, some 2⟩ hc₂ rfl).mpr (.inl htaken),
    insertUser_ends.2 _ hbuilt₃ ()⟩

omit [DecidableEq L] in
/-- A search in a list that links back to its only node, for another username. -/
theorem get_user_endless (hhead : h.head l = some p) (hp : h.owned p = true)
    (hself : h.next p = some p) {user : Str} (hname : (h.user (h.data p)).username ≠ user)
    (n : Nat) : h.get_user n l user = .error .running := by
  have htest : h.sameName user (h.data p) = false := decide_eq_false hname
  have hloop (n : Nat) : h.advance (h.sameName user) n p = .error .running := by
    induction n with
    | zero => rfl
    | succ n ih =>
      rw [Heap.advance, nextOf_eq hp, hself]
      simpa [bind, Except.bind, dataOf_eq hp, htest] using ih
  rw [Heap.get_user, hhead]
  simp [walk, dataOf_eq hp, htest, hloop, bind, Except.bind]

/-- The first user, in memory where the address of the block is left over. -/
theorem insertUser_unended : ¬ ∀ (c : List Ptr) (new_user : Addr) (block : Block),
    bare.Chain (bare.head ()) c → bare.owned block.ptr = false →
    InsertsUser bare () c new_user block := by
  intro h
  have hc : bare.Chain (bare.head ()) [] := ⟨rfl, by simp⟩
  rcases (insertsUser_iff hc rfl).mp (h [] 0 ⟨0, 0, some 0⟩ hc rfl) with ⟨p, hp, -⟩ | hnext
  · cases hp
  · cases hnext

/-- From then on a search for anybody else does not end. -/
theorem get_user_unended (n : Nat) :
    ((bare.malloc ⟨0, 0, some 0⟩ 0).setHead () (some 0)).get_user n () (str "bob") =
      .error .running :=
  get_user_endless (p := 0) rfl rfl rfl (by decide) n

end TBDChat.NodeHeap
