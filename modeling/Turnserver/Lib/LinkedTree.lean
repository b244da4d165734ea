/-
  LINKED TREES — first-child trees with doubly linked siblings, in a heap.

  A cell of the heap holds the links `next`, `prev` and `child` of a node and its data `item`.  An
  access to a cell that is not there fails.

  * `Node` is the tree itself: addresses, data, and the children as a list.
  * `Node.Holds h prev next n` — the heap holds the tree `n`, whose root has the siblings `prev` and
    `next`;  `Seg h prev next ns` — it holds the sibling list `ns`, which stands between `prev` and
    `next`.
  * A list of addresses without a duplicate stands for separation: what is disjoint from the cells
    that an operation writes is framed with `Seg.frame`.
  * `seg_append`, `linkNext_seg`, `linkPrev_seg` — sibling lists are cut and joined by writing the
    links at the seam;  `deleteAll_seg` — a list is freed with everything below it.
  * `Heap.Everywhere` — what all data in the heap have in common, whatever the links look like.
-/
import Mathlib.Data.List.Perm.Basic
import Mathlib.Data.List.Nodup
import Mathlib.Logic.Function.Basic

namespace LinkedTree

/-! ## Cells -/

/-- A node in memory: the links to its neighbours and to its first child, and what it holds. -/
structure Cell (α ι : Type) where
  next : Option α
  prev : Option α
  child : Option α
  item : ι

/-- The live cells. -/
abbrev Heap (α ι : Type) := α → Option (Cell α ι)

/-- No cell is live. -/
def Heap.empty {α ι : Type} : Heap α ι := fun _ => none

/-! ## Trees -/

/-- A tree with addresses. -/
inductive Node (α ι : Type)
  | mk (addr : α) (item : ι) (child : List (Node α ι))

variable {α ι : Type}

namespace Node

/-- The address of the root. -/
def addr : Node α ι → α
  | mk a _ _ => a

/-- What the root holds. -/
def item : Node α ι → ι
  | mk _ i _ => i

/-- The subtrees. -/
def child : Node α ι → List (Node α ι)
  | mk _ _ c => c

/-- The tree with something else in its root. -/
def withItem (item : ι) : Node α ι → Node α ι
  | mk a _ c => mk a item c

/-- The tree with other subtrees. -/
def withChild (child : List (Node α ι)) : Node α ι → Node α ι
  | mk a i _ => mk a i child

mutual

/-- The addresses of a tree. -/
def addrs : Node α ι → List α
  | mk a _ c => a :: addrsAll c

/-- The addresses of a list of trees, in order. -/
def addrsAll : List (Node α ι) → List α
  | [] => []
  | n :: ns => addrs n ++ addrsAll ns

end

mutual

/-- How many nodes a tree has. -/
def size : Node α ι → Nat
  | mk _ _ c => sizeAll c + 1

/-- The number of nodes of a list of trees. -/
def sizeAll : List (Node α ι) → Nat
  | [] => 0
  | n :: ns => size n + sizeAll ns

end

mutual

/-- The data of a tree. -/
def items : Node α ι → List ι
  | mk _ i c => i :: itemsAll c

/-- What the nodes of a list of trees hold, in order. -/
def itemsAll : List (Node α ι) → List ι
  | [] => []
  | n :: ns => items n ++ itemsAll ns

end

mutual

/-- The value of a tree: the tree without its addresses. -/
def erase : Node α ι → Node Unit ι
  | mk _ i c => mk () i (eraseAll c)

/-- A list of trees without its addresses. -/
def eraseAll : List (Node α ι) → List (Node Unit ι)
  | [] => []
  | n :: ns => erase n :: eraseAll ns

end

section Fields

variable (n : Node α ι) (i : ι) (c : List (Node α ι))

@[simp] theorem addr_withChild : (n.withChild c).addr = n.addr := by
  cases n
  rfl

@[simp] theorem item_withChild : (n.withChild c).item = n.item := by
  cases n
  rfl

@[simp] theorem child_withChild : (n.withChild c).child = c := by
  cases n
  rfl

@[simp] theorem addr_withItem : (n.withItem i).addr = n.addr := by
  cases n
  rfl

@[simp] theorem item_withItem : (n.withItem i).item = i := by
  cases n
  rfl

@[simp] theorem child_withItem : (n.withItem i).child = n.child := by
  cases n
  rfl

@[simp] theorem withChild_withChild (c' : List (Node α ι)) :
    (n.withChild c).withChild c' = n.withChild c' := by
  cases n
  rfl

@[simp] theorem withChild_child : n.withChild n.child = n := by
  cases n
  rfl

/-- The address of the root comes first. -/
theorem addrs_eq : n.addrs = n.addr :: addrsAll n.child := by
  cases n
  rw [addrs]
  rfl

theorem addrs_withChild : (n.withChild c).addrs = n.addr :: addrsAll c := by
  rw [addrs_eq, addr_withChild, child_withChild]

theorem addrs_withItem : (n.withItem i).addrs = n.addrs := by
  rw [addrs_eq, addrs_eq, addr_withItem, child_withItem]

/-- The root counts too. -/
theorem size_eq : n.size = sizeAll n.child + 1 := by
  cases n
  rw [size]
  rfl

/-- What the root holds comes first. -/
theorem items_eq : n.items = n.item :: itemsAll n.child := by
  cases n
  rw [items]
  rfl

theorem items_withChild : (n.withChild c).items = n.item :: itemsAll c := by
  rw [items_eq, item_withChild, child_withChild]

theorem items_withItem : (n.withItem i).items = i :: itemsAll n.child := by
  rw [items_eq, item_withItem, child_withItem]

theorem erase_item : n.erase.item = n.item := by
  cases n
  rw [erase]
  rfl

theorem erase_child : n.erase.child = eraseAll n.child := by
  cases n
  rw [erase]
  rfl

theorem erase_withChild : (n.withChild c).erase = n.erase.withChild (eraseAll c) := by
  cases n
  rw [withChild, erase, erase]
  rfl

end Fields

theorem addrsAll_append (ns ms : List (Node α ι)) :
    addrsAll (ns ++ ms) = addrsAll ns ++ addrsAll ms := by
  induction ns with
  | nil => rfl
  | cons n ns ih => rw [List.cons_append, addrsAll, addrsAll, ih, List.append_assoc]

theorem addrsAll_singleton (n : Node α ι) : addrsAll [n] = n.addrs := by
  rw [addrsAll, addrsAll, List.append_nil]

theorem eraseAll_append (ns ms : List (Node α ι)) :
    eraseAll (ns ++ ms) = eraseAll ns ++ eraseAll ms := by
  induction ns with
  | nil => rfl
  | cons n ns ih => rw [List.cons_append, eraseAll, eraseAll, ih, List.cons_append]

theorem itemsAll_append (ns ms : List (Node α ι)) :
    itemsAll (ns ++ ms) = itemsAll ns ++ itemsAll ms := by
  induction ns with
  | nil => rfl
  | cons n ns ih => rw [List.cons_append, itemsAll, itemsAll, ih, List.append_assoc]

/-- What a list holds, one of its trees holds. -/
theorem mem_itemsAll {i : ι} {ns : List (Node α ι)} :
    i ∈ itemsAll ns ↔ ∃ n ∈ ns, i ∈ n.items := by
  induction ns with
  | nil => simp [itemsAll]
  | cons n ns ih => rw [itemsAll, List.mem_append, ih, List.exists_mem_cons_iff]

mutual

/-- Erasing the addresses keeps what the nodes hold. -/
theorem items_erase : ∀ n : Node α ι, n.erase.items = n.items
  | mk _ _ c => by rw [erase, items, items, itemsAll_eraseAll c]

/-- The same for lists. -/
theorem itemsAll_eraseAll : ∀ ns : List (Node α ι), itemsAll (eraseAll ns) = itemsAll ns
  | [] => rfl
  | n :: ns => by rw [eraseAll, itemsAll, itemsAll, items_erase n, itemsAll_eraseAll ns]

end

/-- The sizes add up. -/
theorem sizeAll_append (ns ms : List (Node α ι)) : sizeAll (ns ++ ms) = sizeAll ns + sizeAll ms := by
  induction ns with
  | nil => rw [List.nil_append, sizeAll, Nat.zero_add]
  | cons n ns ih => rw [List.cons_append, sizeAll, sizeAll, ih, Nat.add_assoc]

/-- Every tree has a node. -/
theorem length_le_sizeAll (ns : List (Node α ι)) : ns.length ≤ sizeAll ns := by
  induction ns with
  | nil => exact Nat.zero_le _
  | cons n ns ih =>
    rw [List.length_cons, sizeAll, size_eq]
    omega

mutual

/-- An induction over lists gives one over trees: the children of a node are a list. -/
theorem child_induction {P : List (Node α ι) → Prop} (nil : P [])
    (cons : ∀ n ns, P n.child → P ns → P (n :: ns)) : ∀ n : Node α ι, P n.child
  | mk _ _ c => list_induction nil cons c

/-- Induction over a list of trees, into every node and along the list. -/
theorem list_induction {P : List (Node α ι) → Prop} (nil : P [])
    (cons : ∀ n ns, P n.child → P ns → P (n :: ns)) : ∀ ns : List (Node α ι), P ns
  | [] => nil
  | n :: ns => cons n ns (child_induction nil cons n) (list_induction nil cons ns)

end

mutual

/-- Erased addresses are erased once. -/
theorem erase_erase : ∀ n : Node α ι, n.erase.erase = n.erase
  | mk _ _ c => by rw [erase, erase, eraseAll_eraseAll c]

/-- The same for lists. -/
theorem eraseAll_eraseAll : ∀ ns : List (Node α ι), eraseAll (eraseAll ns) = eraseAll ns
  | [] => rfl
  | n :: ns => by rw [eraseAll, eraseAll, erase_erase n, eraseAll_eraseAll ns]

end

/-- There are as many addresses as nodes. -/
theorem sizeAll_eq_length (ns : List (Node α ι)) : sizeAll ns = (addrsAll ns).length := by
  induction ns using list_induction with
  | nil => rfl
  | cons n ns ihc ih =>
    rw [sizeAll, size_eq, ihc, ih, addrsAll, addrs_eq, List.length_append, List.length_cons]

/-- The same for one tree. -/
theorem size_eq_length (n : Node α ι) : n.size = n.addrs.length := by
  rw [size_eq, sizeAll_eq_length, addrs_eq, List.length_cons]

end Node

open Node

/-- The address of the first node of a list. -/
def head (ns : List (Node α ι)) : Option α := ns.head?.map addr

/-- The address of the last node of a list. -/
def last (ns : List (Node α ι)) : Option α := ns.getLast?.map addr

@[simp] theorem head_nil : head ([] : List (Node α ι)) = none := rfl

@[simp] theorem head_cons (n : Node α ι) (ns : List (Node α ι)) : head (n :: ns) = some n.addr := rfl

@[simp] theorem last_nil : last ([] : List (Node α ι)) = none := rfl

@[simp] theorem last_concat (ns : List (Node α ι)) (n : Node α ι) :
    last (ns ++ [n]) = some n.addr := by
  simp [last]

/-- The first address of a list in two parts. -/
theorem head_append (ns ms : List (Node α ι)) : head (ns ++ ms) = (head ns).or (head ms) := by
  cases ns with
  | nil => rfl
  | cons n ns => rfl

theorem last_cons (n : Node α ι) (ns : List (Node α ι)) :
    last (n :: ns) = (last ns).or (some n.addr) := by
  rcases List.eq_nil_or_concat ns with rfl | ⟨ms, m, rfl⟩
  · rfl
  · rw [List.concat_eq_append, ← List.cons_append, last_concat, last_concat]
    rfl

/-- Only the empty list has no first address. -/
theorem head_eq_none {ns : List (Node α ι)} : head ns = none ↔ ns = [] := by
  cases ns with
  | nil => exact Iff.intro (fun _ => rfl) (fun _ => rfl)
  | cons n ns => exact Iff.intro (fun h => by cases h) (fun h => by cases h)

/-! ## Trees in the heap -/

mutual

/-- The heap holds the tree, whose root stands between the siblings `prev` and `next`. -/
def Node.Holds (h : Heap α ι) : Option α → Option α → Node α ι → Prop
  | prev, next, mk a i c => h a = some ⟨next, prev, head c, i⟩ ∧ Seg h none none c

/-- The heap holds the sibling list, which stands between `prev` and `next`. -/
def Seg (h : Heap α ι) : Option α → Option α → List (Node α ι) → Prop
  | _, _, [] => True
  | prev, next, n :: ns => n.Holds h prev ((head ns).or next) ∧ Seg h (some n.addr) next ns

end

variable {h h' : Heap α ι} {p p' q q' : Option α}

/-- A tree in the heap: the cell of its root, and the list of its children. -/
theorem Node.holds_iff {n : Node α ι} :
    n.Holds h p q ↔ h n.addr = some ⟨q, p, head n.child, n.item⟩ ∧ Seg h none none n.child := by
  cases n
  rw [Node.Holds]
  rfl

theorem seg_nil : Seg h p q [] := by
  rw [Seg]
  trivial

/-- A list of one tree. -/
theorem seg_singleton {n : Node α ι} : Seg h p q [n] ↔ n.Holds h p q := by
  rw [Seg, Seg, and_true]
  rfl

mutual

/-- A tree is in every heap that agrees with it on the addresses of the tree. -/
theorem Node.Holds.frame {p q : Option α} {n : Node α ι} (hn : n.Holds h p q)
    (hag : ∀ a ∈ n.addrs, h' a = h a) :
    n.Holds h' p q := by
  cases n with
  | mk a i c =>
    rw [Node.Holds] at hn ⊢
    rw [addrs] at hag
    refine ⟨?_, Seg.frame hn.2 fun b hb => hag b (List.mem_cons_of_mem _ hb)⟩
    rw [hag a List.mem_cons_self]
    exact hn.1

/-- A heap that agrees on the cells of a list holds the list too. -/
theorem Seg.frame {p q : Option α} {ns : List (Node α ι)} (hs : Seg h p q ns)
    (hag : ∀ a ∈ addrsAll ns, h' a = h a) : Seg h' p q ns := by
  cases ns with
  | nil => exact seg_nil
  | cons n ns =>
    rw [Seg] at hs ⊢
    rw [addrsAll] at hag
    exact ⟨hs.1.frame fun a ha => hag a (List.mem_append_left _ ha),
      hs.2.frame fun a ha => hag a (List.mem_append_right _ ha)⟩

end

mutual

/-- Two heaps that hold a tree agree on its addresses. -/
theorem Node.Holds.agree {p q : Option α} {n : Node α ι} (hn : n.Holds h p q)
    (hn' : n.Holds h' p q) : ∀ a ∈ n.addrs, h a = h' a := by
  cases n with
  | mk b i c =>
    rw [Node.Holds] at hn hn'
    rw [addrs]
    intro a ha
    rcases List.mem_cons.mp ha with rfl | ha
    · rw [hn.1, hn'.1]
    · exact Seg.agree hn.2 hn'.2 a ha

/-- A list that two heaps hold determines its cells. -/
theorem Seg.agree {p q : Option α} {ns : List (Node α ι)} (hs : Seg h p q ns)
    (hs' : Seg h' p q ns) : ∀ a ∈ addrsAll ns, h a = h' a := by
  cases ns with
  | nil => exact fun a ha => absurd ha List.not_mem_nil
  | cons n ns =>
    rw [Seg] at hs hs'
    rw [addrsAll]
    intro a ha
    rcases List.mem_append.mp ha with ha | ha
    · exact hs.1.agree hs'.1 a ha
    · exact hs.2.agree hs'.2 a ha

end

/-- Sibling lists are joined where their ends point at each other. -/
theorem seg_append {ns ms : List (Node α ι)} :
    Seg h p q (ns ++ ms) ↔ Seg h p ((head ms).or q) ns ∧ Seg h ((last ns).or p) q ms := by
  induction ns generalizing p with
  | nil =>
    rw [List.nil_append, last_nil]
    exact ⟨fun hs => ⟨seg_nil, hs⟩, fun hs => hs.2⟩
  | cons n ns ih =>
    rw [List.cons_append, Seg, Seg, ih, head_append, Option.or_assoc, last_cons, Option.or_assoc,
      Option.some_or, and_assoc]

/-- The root of a tree gets new siblings: only its own cell changes. -/
theorem Node.Holds.relink {n : Node α ι} (hn : n.Holds h p q)
    (hroot : h' n.addr = some ⟨q', p', head n.child, n.item⟩)
    (hag : ∀ a ∈ addrsAll n.child, h' a = h a) : n.Holds h' p' q' :=
  holds_iff.mpr ⟨hroot, (holds_iff.mp hn).2.frame hag⟩

/-- The root of a tree gets other children. -/
theorem Node.Holds.rechild {n : Node α ι} {c : List (Node α ι)}
    (hroot : h n.addr = some ⟨q, p, head c, n.item⟩) (hc : Seg h none none c) :
    (n.withChild c).Holds h p q := by
  refine holds_iff.mpr ⟨?_, ?_⟩
  · rw [addr_withChild, child_withChild, item_withChild]
    exact hroot
  · rw [child_withChild]
    exact hc

/-- A child stands between its neighbours in the list. -/
theorem Node.Holds.get_child {root n : Node α ι} {before after : List (Node α ι)}
    (hr : (root.withChild (before ++ n :: after)).Holds h p q) :
    n.Holds h (last before) (head after) := by
  have hseg := (holds_iff.mp hr).2
  rw [child_withChild, seg_append, Seg] at hseg
  simpa only [Option.or_none] using hseg.2.1

/-- A child changes below its address, and nothing around it does. -/
theorem Node.Holds.set_child {root n n' : Node α ι} {before after : List (Node α ι)}
    (hr : (root.withChild (before ++ n :: after)).Holds h p q) (haddr : n'.addr = n.addr)
    (hn : n'.Holds h' (last before) (head after)) (hroot : h' root.addr = h root.addr)
    (hbefore : ∀ a ∈ addrsAll before, h' a = h a) (hafter : ∀ a ∈ addrsAll after, h' a = h a) :
    (root.withChild (before ++ n' :: after)).Holds h' p q := by
  obtain ⟨hcell, hseg⟩ := holds_iff.mp hr
  rw [addr_withChild, child_withChild, item_withChild, head_append, head_cons] at hcell
  rw [child_withChild, seg_append, Seg, head_cons] at hseg
  refine Node.Holds.rechild ?_ (seg_append.mpr ⟨?_, ?_⟩)
  · rw [hroot, hcell, head_append, head_cons, haddr]
  · rw [head_cons, haddr]
    exact hseg.1.frame hbefore
  · rw [Seg, haddr]
    refine ⟨?_, hseg.2.2.frame hafter⟩
    simpa only [Option.or_none] using hn

/-- The root of a tree without repeated addresses is not below itself. -/
theorem Node.notMem_child {n : Node α ι} (hn : n.addrs.Nodup) : n.addr ∉ addrsAll n.child := by
  rw [addrs_eq] at hn
  exact (List.nodup_cons.mp hn).1

/-! ## Walking -/

/-- `while (c->next) c = c->next` -/
def lastFrom : Nat → Heap α ι → α → Option α
  | 0, _, _ => none
  | fuel + 1, h, c => do
    let cell ← h c
    match cell.next with
    | none => some c
    | some next => lastFrom fuel h next

/-- Following `next` from the first ends at the last. -/
theorem lastFrom_seg {n : Node α ι} {ns : List (Node α ι)} (hs : Seg h p none (n :: ns)) {fuel : Nat}
    (hf : ns.length < fuel) : lastFrom fuel h n.addr = last (n :: ns) := by
  induction ns generalizing n p fuel with
  | nil =>
    cases fuel with
    | zero => cases hf
    | succ fuel =>
      rw [seg_singleton] at hs
      rw [lastFrom, (holds_iff.mp hs).1]
      rfl
  | cons m ms ih =>
    cases fuel with
    | zero => cases hf
    | succ fuel =>
      rw [Seg] at hs
      have hlast : last (n :: m :: ms) = last (m :: ms) := by
        rw [last_cons, last_cons, Option.or_assoc, Option.some_or]
      rw [hlast, ← ih hs.2 (Nat.lt_of_succ_lt_succ hf), lastFrom, (holds_iff.mp hs.1).1]
      rfl

/-! ## Writing links -/

variable [DecidableEq α]

/-- Writes a cell, which has to be live. -/
def Heap.write (h : Heap α ι) (a : α) (f : Cell α ι → Cell α ι) : Option (Heap α ι) :=
  (h a).map fun c => Function.update h a (some (f c))

/-- Frees a cell, which has to be live. -/
def Heap.free (h : Heap α ι) (a : α) : Option (Heap α ι) :=
  (h a).map fun _ => Function.update h a none

/-- A write to an address in use. -/
theorem Heap.write_eq {a : α} {c : Cell α ι} (ha : h a = some c) (f : Cell α ι → Cell α ι) :
    h.write a f = some (Function.update h a (some (f c))) := by
  rw [Heap.write, ha]
  rfl

/-- An address in use can be freed. -/
theorem Heap.free_eq {a : α} {c : Cell α ι} (ha : h a = some c) :
    h.free a = some (Function.update h a none) := by
  rw [Heap.free, ha]
  rfl

/-- `if (p) p->next = v` -/
def linkNext (h : Heap α ι) (p v : Option α) : Option (Heap α ι) :=
  match p with
  | none => some h
  | some a => h.write a ({ · with next := v })

/-- `if (p) p->prev = v` -/
def linkPrev (h : Heap α ι) (p v : Option α) : Option (Heap α ι) :=
  match p with
  | none => some h
  | some a => h.write a ({ · with prev := v })

/-- The last node of a list gets another successor. -/
theorem linkNext_seg {ns : List (Node α ι)} (hs : Seg h p q ns) (hn : (addrsAll ns).Nodup)
    (q' : Option α) :
    ∃ h', linkNext h (last ns) q' = some h' ∧ Seg h' p q' ns ∧ ∀ a, a ∉ addrsAll ns → h' a = h a := by
  -- only the last node is written
  rcases List.eq_nil_or_concat ns with rfl | ⟨ms, m, rfl⟩
  · exact ⟨h, rfl, seg_nil, fun a _ => rfl⟩
  rw [List.concat_eq_append] at hs hn ⊢
  rw [addrsAll_append, addrsAll_singleton] at hn
  obtain ⟨-, hm, hdisj⟩ := List.nodup_append'.mp hn
  have hmem : m.addr ∈ m.addrs := by
    rw [addrs_eq]
    exact List.mem_cons_self
  obtain ⟨hms, hlast⟩ := seg_append.mp hs
  rw [seg_singleton] at hlast
  have hcell := (holds_iff.mp hlast).1
  refine ⟨Function.update h m.addr (some ⟨q', (last ms).or p, head m.child, m.item⟩), ?_,
    seg_append.mpr ⟨hms.frame fun a ha => ?_, seg_singleton.mpr (hlast.relink ?_ ?_)⟩, ?_⟩
  · rw [last_concat, linkNext, Heap.write_eq hcell]
  · refine Function.update_of_ne (fun heq => ?_) _ _
    rw [heq] at ha
    exact hdisj ha hmem
  · rw [Function.update_self]
  -- the children of the last node do not lie at its own address
  · intro a ha
    refine Function.update_of_ne (fun heq => ?_) _ _
    rw [heq] at ha
    exact notMem_child hm ha
  · intro a ha
    refine Function.update_of_ne (fun heq => ha ?_) _ _
    rw [addrsAll_append, addrsAll_singleton, heq]
    exact List.mem_append_right _ hmem

/-- The first node of a list gets another predecessor. -/
theorem linkPrev_seg {ns : List (Node α ι)} (hs : Seg h p q ns) (hn : (addrsAll ns).Nodup)
    (p' : Option α) :
    ∃ h', linkPrev h (head ns) p' = some h' ∧ Seg h' p' q ns ∧ ∀ a, a ∉ addrsAll ns → h' a = h a := by
  cases ns with
  | nil => exact ⟨h, rfl, seg_nil, fun a _ => rfl⟩
  -- only the first node is written
  | cons m ms =>
    rw [addrsAll] at hn ⊢
    obtain ⟨hm, -, hdisj⟩ := List.nodup_append'.mp hn
    have hmem : m.addr ∈ m.addrs := by
      rw [addrs_eq]
      exact List.mem_cons_self
    rw [Seg] at hs
    obtain ⟨hfirst, hms⟩ := hs
    have hcell := (holds_iff.mp hfirst).1
    refine ⟨Function.update h m.addr (some ⟨(head ms).or q, p', head m.child, m.item⟩), ?_, ?_, ?_⟩
    · rw [head_cons, linkPrev, Heap.write_eq hcell]
    · rw [Seg]
      refine ⟨hfirst.relink ?_ ?_, hms.frame fun a ha => ?_⟩
      · rw [Function.update_self]
      · intro a ha
        refine Function.update_of_ne (fun heq => ?_) _ _
        rw [heq] at ha
        exact notMem_child hm ha
      -- nor do the nodes behind it
      · refine Function.update_of_ne (fun heq => ?_) _ _
        rw [heq] at ha
        exact hdisj hmem ha
    · intro a ha
      refine Function.update_of_ne (fun heq => ha ?_) _ _
      rw [heq]
      exact List.mem_append_left _ hmem

/-! ## Freeing -/

/-- Frees a list with everything below it. -/
def deleteAll : Nat → Heap α ι → Option α → Option (Heap α ι)
  | _, h, none => some h
  | 0, _, some _ => none
  | fuel + 1, h, some c => do
    let cell ← h c
    let h ← deleteAll fuel h cell.child
    let h ← h.free c
    deleteAll fuel h cell.next

/-- The heap without some cells. -/
def Heap.without (h : Heap α ι) (as : List α) : Heap α ι := fun a => if a ∈ as then none else h a

theorem Heap.without_nil : h.without [] = h := by
  funext a
  rw [Heap.without, if_neg List.not_mem_nil]

/-- Other addresses are left alone. -/
theorem Heap.without_of_notMem {as : List α} {a : α} (ha : a ∉ as) : h.without as a = h a :=
  if_neg ha

theorem Heap.without_of_mem {as : List α} {a : α} (ha : a ∈ as) : h.without as a = none :=
  if_pos ha

/-- Deleting a list frees the addresses of its trees. -/
theorem deleteAll_seg {fuel : Nat} {ns : List (Node α ι)} (hs : Seg h p none ns)
    (hn : (addrsAll ns).Nodup) (hf : sizeAll ns ≤ fuel) :
    deleteAll fuel h (head ns) = some (h.without (addrsAll ns)) := by
  induction fuel generalizing h p ns with
  | zero =>
    cases ns with
    | nil => rw [head_nil, deleteAll, addrsAll, Heap.without_nil]
    | cons n ns =>
      rw [sizeAll, size_eq] at hf
      omega
  | succ fuel ih =>
    cases ns with
    | nil => rw [head_nil, deleteAll, addrsAll, Heap.without_nil]
    | cons n ns =>
      rw [sizeAll, size_eq] at hf
      rw [addrsAll] at hn ⊢
      rw [Seg, Option.or_none] at hs
      obtain ⟨hfirst, hrest⟩ := hs
      obtain ⟨hcell, hchild⟩ := holds_iff.mp hfirst
      obtain ⟨hnn, hns, hdisj⟩ := List.nodup_append'.mp hn
      have hnotMem := notMem_child hnn
      rw [addrs_eq, List.nodup_cons] at hnn
      -- first everything below the node, then the node, then its successors
      have hbelow := ih hchild hnn.2 (by omega)
      have hlive : h.without (addrsAll n.child) n.addr = _ :=
        (Heap.without_of_notMem hnotMem).trans hcell
      have hag : ∀ a ∈ addrsAll ns,
          Function.update (h.without (addrsAll n.child)) n.addr none a = h a := by
        intro a ha
        have hne : a ∉ n.addrs := fun hmem => hdisj hmem ha
        rw [addrs_eq, List.mem_cons, not_or] at hne
        rw [Function.update_of_ne hne.1, Heap.without_of_notMem hne.2]
      have hafter := ih (hrest.frame hag) hns (by omega)
      rw [head_cons, deleteAll, hcell, Option.bind_eq_bind, Option.bind_some, hbelow,
        Option.bind_eq_bind, Option.bind_some, Heap.free_eq hlive, Option.bind_some, hafter]
      congr 1
      funext a
      by_cases hrest : a ∈ addrsAll ns
      · rw [Heap.without_of_mem hrest, Heap.without_of_mem (List.mem_append_right _ hrest)]
      · rw [Heap.without_of_notMem hrest, addrs_eq]
        by_cases hroot : a = n.addr
        · rw [hroot, Function.update_self, Heap.without_of_mem]
          exact List.mem_append_left _ List.mem_cons_self
        · rw [Function.update_of_ne hroot]
          simp only [Heap.without, List.mem_append, List.mem_cons, hroot, hrest, false_or, or_false]

/-! ## Allocating -/

mutual

/-- The cell that a tree has at an address. -/
def Node.cellAt (a : α) : Option α → Option α → Node α ι → Option (Cell α ι)
  | prev, next, mk b i c => if a = b then some ⟨next, prev, head c, i⟩ else cellAtAll a none none c

/-- The cell of an address in a list between two neighbours. -/
def cellAtAll (a : α) : Option α → Option α → List (Node α ι) → Option (Cell α ι)
  | _, _, [] => none
  | prev, next, n :: ns =>
    (n.cellAt a prev ((head ns).or next)).or (cellAtAll a (some n.addr) next ns)

end

/-- The heap with a new tree in it. -/
def Heap.alloc (h : Heap α ι) (n : Node α ι) : Heap α ι := fun a => (n.cellAt a none none).or (h a)

mutual

/-- An address that is not in the tree has no cell. -/
theorem Node.cellAt_of_notMem {a : α} {p q : Option α} {n : Node α ι} (ha : a ∉ n.addrs) :
    n.cellAt a p q = none := by
  cases n with
  | mk b i c =>
    rw [addrs, List.mem_cons, not_or] at ha
    rw [Node.cellAt, if_neg ha.1]
    exact cellAtAll_of_notMem ha.2

/-- The same for lists. -/
theorem cellAtAll_of_notMem {a : α} {p q : Option α} {ns : List (Node α ι)}
    (ha : a ∉ addrsAll ns) : cellAtAll a p q ns = none := by
  cases ns with
  | nil => rw [cellAtAll]
  | cons n ns =>
    rw [addrsAll, List.mem_append, not_or] at ha
    rw [cellAtAll, Node.cellAt_of_notMem ha.1, Option.none_or]
    exact cellAtAll_of_notMem ha.2

end

mutual

/-- A heap in which every address of the tree has its cell holds the tree. -/
theorem Node.holds_of_cellAt {p q : Option α} {n : Node α ι} (hn : n.addrs.Nodup)
    (hag : ∀ a ∈ n.addrs, h a = n.cellAt a p q) : n.Holds h p q := by
  cases n with
  | mk b i c =>
    rw [addrs] at hn hag
    obtain ⟨hb, hc⟩ := List.nodup_cons.mp hn
    rw [Node.Holds]
    refine ⟨?_, seg_of_cellAtAll hc fun a ha => ?_⟩
    · rw [hag b List.mem_cons_self, Node.cellAt, if_pos rfl]
    · have hne : a ≠ b := fun heq => hb (heq ▸ ha)
      rw [hag a (List.mem_cons_of_mem _ ha), Node.cellAt, if_neg hne]

/-- The same for lists. -/
theorem seg_of_cellAtAll {p q : Option α} {ns : List (Node α ι)} (hn : (addrsAll ns).Nodup)
    (hag : ∀ a ∈ addrsAll ns, h a = cellAtAll a p q ns) : Seg h p q ns := by
  cases ns with
  | nil => exact seg_nil
  | cons n ns =>
    rw [addrsAll] at hn hag
    obtain ⟨hnn, hns, hdisj⟩ := List.nodup_append'.mp hn
    have hfirst : n.Holds h p ((head ns).or q) := by
      refine Node.holds_of_cellAt hnn fun a ha => ?_
      rw [hag a (List.mem_append_left _ ha), cellAtAll, cellAtAll_of_notMem (hdisj ha), Option.or_none]
    rw [Seg]
    refine ⟨hfirst, seg_of_cellAtAll hns fun a ha => ?_⟩
    rw [hag a (List.mem_append_right _ ha), cellAtAll,
      Node.cellAt_of_notMem fun hmem => hdisj hmem ha, Option.none_or]

end

/-- Allocating a tree leaves the other addresses alone. -/
theorem Heap.alloc_of_notMem {n : Node α ι} {a : α} (ha : a ∉ n.addrs) : h.alloc n a = h a := by
  rw [Heap.alloc, Node.cellAt_of_notMem ha, Option.none_or]

/-- A new tree is held, wherever nothing was before. -/
theorem Heap.alloc_holds {n : Node α ι} (hn : n.addrs.Nodup) (hfresh : ∀ a ∈ n.addrs, h a = none) :
    n.Holds (h.alloc n) none none := by
  refine Node.holds_of_cellAt hn fun a ha => ?_
  rw [Heap.alloc, hfresh a ha, Option.or_none]

/-! ## Data in the heap -/

/-- Every live cell has data of that kind. -/
def Heap.Everywhere (P : ι → Prop) (h : Heap α ι) : Prop := ∀ a c, h a = some c → P c.item

namespace Heap.Everywhere

variable {P : ι → Prop}

omit [DecidableEq α] in

/-- Nothing is in the empty heap. -/
theorem empty : Heap.Everywhere P (Heap.empty : Heap α ι) := by
  intro a c hc
  cases hc

/-- One cell changes. -/
theorem update (hh : h.Everywhere P) {a : α} {c : Option (Cell α ι)} (hc : ∀ c' ∈ c, P c'.item) :
    Heap.Everywhere P (Function.update h a c) := by
  intro b c' hb
  by_cases hab : b = a
  · rw [hab, Function.update_self] at hb
    exact hc c' hb
  · rw [Function.update_of_ne hab] at hb
    exact hh b c' hb

/-- A write that keeps the property. -/
theorem write (hh : h.Everywhere P) {a : α} {f : Cell α ι → Cell α ι}
    (hf : ∀ c, P c.item → P (f c).item) (heq : h.write a f = some h') : h'.Everywhere P := by
  obtain ⟨c, hc, rfl⟩ := Option.map_eq_some_iff.mp heq
  refine hh.update fun c' hc' => ?_
  cases hc'
  exact hf c (hh a c hc)

/-- A freed cell has no property to lose. -/
theorem free (hh : h.Everywhere P) {a : α} (heq : h.free a = some h') : h'.Everywhere P := by
  obtain ⟨c, hc, rfl⟩ := Option.map_eq_some_iff.mp heq
  refine hh.update fun c' hc' => ?_
  cases hc'

/-- Linking changes no item. -/
theorem linkNext (hh : h.Everywhere P) {p v : Option α}
    (heq : LinkedTree.linkNext h p v = some h') : h'.Everywhere P := by
  cases p with
  | none =>
    cases heq
    exact hh
  | some a => exact hh.write (f := ({ · with next := v })) (fun c hc => hc) heq

/-- Linking backwards changes no item. -/
theorem linkPrev (hh : h.Everywhere P) {p v : Option α}
    (heq : LinkedTree.linkPrev h p v = some h') : h'.Everywhere P := by
  cases p with
  | none =>
    cases heq
    exact hh
  | some a => exact hh.write (f := ({ · with prev := v })) (fun c hc => hc) heq

/-- Deleting changes no item that remains. -/
theorem deleteAll (hh : h.Everywhere P) {fuel : Nat} {p : Option α}
    (heq : LinkedTree.deleteAll fuel h p = some h') : h'.Everywhere P := by
  induction fuel generalizing h h' p with
  | zero =>
    cases p with
    | none =>
      cases heq
      exact hh
    | some a => cases heq
  | succ fuel ih =>
    cases p with
    | none =>
      cases heq
      exact hh
    | some a =>
      -- the node is freed after its children and before the nodes behind it
      rw [LinkedTree.deleteAll] at heq
      obtain ⟨c, -, heq⟩ := Option.bind_eq_some_iff.mp heq
      obtain ⟨h₁, heq₁, heq⟩ := Option.bind_eq_some_iff.mp heq
      obtain ⟨h₂, heq₂, heq⟩ := Option.bind_eq_some_iff.mp heq
      exact ih ((ih hh heq₁).free heq₂) heq

end Heap.Everywhere

mutual

/-- The cell of an address holds one of the items of the tree. -/
theorem Node.items_of_cellAt {a : α} {p q : Option α} {c : Cell α ι} {n : Node α ι}
    (h : n.cellAt a p q = some c) : c.item ∈ n.items := by
  cases n with
  | mk b i cs =>
    rw [items, List.mem_cons]
    rw [Node.cellAt] at h
    split at h
    · cases h
      exact Or.inl rfl
    · exact Or.inr (items_of_cellAtAll h)

/-- The same for lists. -/
theorem items_of_cellAtAll {a : α} {p q : Option α} {c : Cell α ι} {ns : List (Node α ι)}
    (h : cellAtAll a p q ns = some c) : c.item ∈ itemsAll ns := by
  cases ns with
  | nil => cases h
  | cons n ns =>
    rw [itemsAll, List.mem_append]
    rw [cellAtAll, Option.or_eq_some_iff] at h
    rcases h with h | ⟨-, h⟩
    · exact Or.inl (Node.items_of_cellAt h)
    · exact Or.inr (items_of_cellAtAll h)

end

/-- A tree is allocated with its items. -/
theorem Heap.Everywhere.alloc {P : ι → Prop} (hh : h.Everywhere P) {n : Node α ι}
    (hn : ∀ i ∈ n.items, P i) : (h.alloc n).Everywhere P := by
  intro a c hc
  rcases Option.or_eq_some_iff.mp hc with hc | ⟨-, hc⟩
  · exact hn _ (Node.items_of_cellAt hc)
  · exact hh a c hc

/-! ## Putting a value into the heap and reading it back -/

mutual

/-- The tree at the addresses from `a` on. -/
def Node.label (a : Nat) : Node Unit ι → Node Nat ι
  | mk _ i c => mk a i (labelAll (a + 1) c)

/-- Numbers for the nodes of a list, from `a` on. -/
def labelAll (a : Nat) : List (Node Unit ι) → List (Node Nat ι)
  | [] => []
  | n :: ns => n.label a :: labelAll (a + n.size) ns

end

/-- The sibling list from a cell on. -/
def readAll : Nat → Heap α ι → Option α → Option (List (Node α ι))
  | _, _, none => some []
  | 0, _, some _ => none
  | fuel + 1, h, some a => do
    let cell ← h a
    let child ← readAll fuel h cell.child
    let after ← readAll fuel h cell.next
    some (mk a cell.item child :: after)

mutual

/-- Numbering keeps what the nodes hold. -/
theorem Node.items_label : ∀ (a : Nat) (n : Node Unit ι), (n.label a).items = n.items
  | a, mk _ _ c => by rw [Node.label, items, items, itemsAll_labelAll (a + 1) c]

/-- The same for lists. -/
theorem itemsAll_labelAll : ∀ (a : Nat) (ns : List (Node Unit ι)),
    itemsAll (labelAll a ns) = itemsAll ns
  | _, [] => rfl
  | a, n :: ns => by
    rw [labelAll, itemsAll, itemsAll, Node.items_label a n, itemsAll_labelAll (a + n.size) ns]

end

mutual

/-- The addresses from `a` on, without a gap. -/
theorem Node.addrs_label : ∀ (a : Nat) (n : Node Unit ι), (n.label a).addrs = List.range' a n.size
  | a, mk _ _ c => by
    rw [Node.label, addrs, addrsAll_labelAll (a + 1) c, size, List.range'_succ]

/-- The numbers are consecutive. -/
theorem addrsAll_labelAll : ∀ (a : Nat) (ns : List (Node Unit ι)),
    addrsAll (labelAll a ns) = List.range' a (sizeAll ns)
  | _, [] => rfl
  | a, n :: ns => by
    rw [labelAll, addrsAll, Node.addrs_label a n, addrsAll_labelAll (a + n.size) ns, sizeAll,
      List.range'_append_1]

end

mutual

/-- Erasing the numbers gives the tree back. -/
theorem Node.erase_label : ∀ (a : Nat) (n : Node Unit ι), (n.label a).erase = n.erase
  | a, mk _ _ c => by rw [Node.label, erase, erase, eraseAll_labelAll (a + 1) c]

/-- The same for lists. -/
theorem eraseAll_labelAll : ∀ (a : Nat) (ns : List (Node Unit ι)),
    eraseAll (labelAll a ns) = eraseAll ns
  | _, [] => rfl
  | a, n :: ns => by
    rw [labelAll, eraseAll, eraseAll, Node.erase_label a n, eraseAll_labelAll (a + n.size) ns]

end

/-- The root has the first number. -/
theorem Node.addr_label (a : Nat) (n : Node Unit ι) : (n.label a).addr = a := by
  cases n
  rw [Node.label]
  rfl

omit [DecidableEq α] in
/-- What is read is what the cells have. -/
theorem Heap.Everywhere.readAll {P : ι → Prop} (hh : h.Everywhere P) {fuel : Nat} {p : Option α}
    {ns : List (Node α ι)} (heq : LinkedTree.readAll fuel h p = some ns) :
    ∀ i ∈ itemsAll ns, P i := by
  induction fuel generalizing p ns with
  | zero =>
    cases p with
    | none =>
      cases heq
      exact fun i hi => absurd hi List.not_mem_nil
    | some a => cases heq
  | succ fuel ih =>
    cases p with
    | none =>
      cases heq
      exact fun i hi => absurd hi List.not_mem_nil
    | some a =>
      rw [LinkedTree.readAll] at heq
      obtain ⟨c, hc, heq⟩ := Option.bind_eq_some_iff.mp heq
      obtain ⟨child, hchild, heq⟩ := Option.bind_eq_some_iff.mp heq
      obtain ⟨after, hafter, heq⟩ := Option.bind_eq_some_iff.mp heq
      cases heq
      intro i hi
      -- an item is that of the node, or below it, or behind it
      rw [itemsAll, items, List.cons_append, List.mem_cons, List.mem_append] at hi
      rcases hi with rfl | hi | hi
      · exact hh a c hc
      · exact ih hchild i hi
      · exact ih hafter i hi

end LinkedTree
