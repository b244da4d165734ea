/-
  WHO OWNS A TREE (`new_elbs/json_wrapper.cc`, 12–97, 140–218, 765–805) — wrappers, views and the
  trees they share.

  A store has any number of wrappers over one heap of nodes.  A wrapper owns the tree of its root or
  only looks at a node somewhere in a tree; both are the same type.  An access to a node that is not
  there (any more) fails, a node that is freed twice included; addresses are not used again.

  * `Store.*` are the operations, `perform` one of them; `held` lists the nodes that the caller has in
    its hands: it made them, or got them from `release` or `duplicate`.
  * `Sound` is the invariant: the store is a forest, every owner and the caller have roots of it, and
    no root has two owners.
  * `Careful` says which calls keep it.  It forbids that a wrapper takes over what others own
    (`merge` and `reverse_merge` do that with a view), that an owner is assigned a view into its own
    tree, which is freed first, and that a tree is merged with a part of itself.

  `careful_runs_good` is the conclusion for whole runs.  `assign_good_iff` and `merge_of_view_bad` show
  what happens otherwise.
-/
import Turnserver.Json.JsonWrapper
import Turnserver.Lib.Forest
import Turnserver.Lib.Transition

namespace Turnserver

open LinkedTree Node Transition

namespace Ownership

/-! ## The code -/

/-- The nodes, the wrappers, and the nodes that the caller holds. -/
structure Store where
  heap : Heap Nat Item
  /-- addresses from here on were never used -/
  brk : Nat
  wrappers : Nat → Option (JsonWrapper Nat)
  held : List Nat

namespace Store

/-- A heap without nodes, no wrappers, and nothing held. -/
def empty : Store := ⟨Heap.empty, 0, fun _ => none, []⟩

/-- A wrapper is made or changed; what it owns the caller holds no longer. -/
def set (i : Nat) (w : JsonWrapper Nat) (s : Store) : Store :=
  { s with
    wrappers := Function.update s.wrappers i (some w)
    held := s.held.filter fun a => !(w.m_owner && w.m_root == some a) }

/-- New nodes, with the value `v`. -/
def alloc (v : Value) (s : Store) : Store :=
  { s with heap := s.heap.alloc (v.label s.brk), brk := s.brk + v.size }

/-- `parse(nullptr)` -/
def clear (fuel : Nat) (i : Nat) (s : Store) : Option Store := do
  let w ← s.wrappers i
  let (h, w) ← w.parseNull fuel s.heap
  some (set i w { s with heap := h })

/-- `parse`; `parsed` is what `cJSON_Parse` makes of the text, if anything. -/
def parse (fuel : Nat) (i : Nat) (parsed : Option Value) (s : Store) : Option Store := do
  let s ← s.clear fuel i
  match parsed with
  | none => some s
  | some v => some ((s.alloc v).set i ⟨some s.brk, true⟩)

/-- `operator=(cJSON*)`: the wrapper becomes the owner of the node. -/
def assign (fuel : Nat) (i : Nat) (node : Option Nat) (s : Store) : Option Store := do
  let s ← s.clear fuel i
  some (s.set i ⟨node, true⟩)

/-- `cJSON_Duplicate(root, 1)`: the copy. -/
def duplicate (fuel : Nat) (root : Option Nat) (s : Store) : Option (Option Nat × Store) :=
  match root with
  | none => some (none, s)
  | some a => do
    let n ← readTree fuel s.heap a
    some (some s.brk, s.alloc n.erase)

/-- `operator=(const JsonWrapper&)` -/
def copyAssign (fuel : Nat) (i j : Nat) (s : Store) : Option Store :=
  if i = j then some s
  else do
    let s ← s.clear fuel i
    let rhs ← s.wrappers j
    let (root, s) ← s.duplicate fuel rhs.m_root
    some (s.set i ⟨root, true⟩)

/-- `operator=(JsonWrapper&&)` -/
def moveAssign (fuel : Nat) (i j : Nat) (s : Store) : Option Store :=
  if i = j then some s
  else do
    let s ← s.clear fuel i
    let rhs ← s.wrappers j
    some ((s.set j ⟨none, false⟩).set i rhs)

/-- `take`, into the new wrapper `i`. -/
def take (fuel : Nat) (i j : Nat) (s : Store) : Option Store := do
  let w ← s.wrappers j
  if w.m_owner then some ((s.set j ⟨none, false⟩).set i w)
  else do
    let (root, s) ← s.duplicate fuel w.m_root
    some (s.set i ⟨root, true⟩)

/-- `release`: an owner hands its root over, which is held from then on. -/
def release (i : Nat) (s : Store) : Option Store := do
  let w ← s.wrappers i
  if w.m_owner then
    let s := s.set i ⟨none, false⟩
    some { s with held := w.m_root.toList ++ s.held }
  else some s

/-- What a getter returns a wrapper of. -/
inductive Getter
  | getObject (name : CString)
  | getArray (name : CString)
  | getArrayAt (index : Nat)
  | getChild
  | getNext
  | getPrev

/-- `findNode(name, type)` -/
def findNode (fuel : Nat) (h : Heap Nat Item) (root : Option Nat) (name : CString)
    (type : JsonType) : Option (Option Nat) :=
  match root with
  | none => some none
  | some a =>
    if name = [] then some none
    else do
      match ← getObjectItem fuel h a name with
      | none => some none
      | some node =>
        let cell ← h node
        some (if cell.item.type = type then some node else none)

/-- `findNode(index)`, which is `cJSON_GetArrayItem` -/
def findNodeAt (h : Heap Nat Item) (root : Option Nat) (index : Nat) : Option (Option Nat) :=
  match root with
  | none => some none
  | some a => do
    let cell ← h a
    skipTo h index cell.child

/-- A link of the root. -/
def linked (h : Heap Nat Item) (root : Option Nat) (link : Cell Nat Item → Option Nat) :
    Option (JsonWrapper Nat) :=
  match root with
  | none => some ⟨none, false⟩
  | some a => do
    let cell ← h a
    some ⟨link cell, false⟩

/-- What a getter returns: a wrapper that does not own its root. -/
def Getter.get (fuel : Nat) (h : Heap Nat Item) (root : Option Nat) :
    Getter → Option (JsonWrapper Nat)
  | .getObject name => do
    let node ← findNode fuel h root name .Object
    some ⟨node, false⟩
  | .getArray name => do
    let node ← findNode fuel h root name .Array
    some ⟨node, false⟩
  | .getArrayAt index => do
    let node ← findNodeAt h root index
    -- `r.getRoot()->type`, without a check
    let node ← node
    let cell ← h node
    some (if cell.item.type = .Array then ⟨some node, false⟩ else ⟨none, true⟩)
  | .getChild => linked h root (·.child)
  | .getNext => linked h root (·.next)
  | .getPrev => linked h root (·.prev)

/-- A getter of `j`, into the new wrapper `i`. -/
def view (fuel : Nat) (i j : Nat) (g : Getter) (s : Store) : Option Store := do
  let w ← s.wrappers j
  let r ← g.get fuel s.heap w.m_root
  some (s.set i r)

/-- `merge` -/
def merge (fuel : Nat) (i j : Nat) (s : Store) : Option Store := do
  let w ← s.wrappers i
  let profile ← s.wrappers j
  let (h, w, profile) ← w.merge fuel s.heap profile
  some (({ s with heap := h }.set j profile).set i w)

/-- With the wrapper itself as the profile, its root is gone before it is taken over. -/
def reverse_merge (fuel : Nat) (i j : Nat) (s : Store) : Option Store := do
  let w ← s.wrappers i
  let profile ← s.wrappers j
  if i = j then
    if w.isValid then do
      let (h, _) ← doMerge fuel s.heap w.m_root w.m_root
      let s ← clear fuel i { s with heap := h }
      some (s.set i ⟨none, false⟩)
    else some s
  else do
    let (h, w, profile) ← w.reverse_merge fuel s.heap profile
    some (({ s with heap := h }.set j profile).set i w)

end Store

/-- The public operations; `merge(const char*)` is `fromText`, `merge` and `destroy`. -/
inductive Op
  /-- `JsonWrapper()` -/
  | make (i : Nat)
  /-- `JsonWrapper(const char*)` -/
  | fromText (i : Nat) (parsed : Option Value)
  /-- `JsonWrapper(cJSON*, bool)` -/
  | fromNode (i : Nat) (node : Option Nat) (owner : Bool)
  /-- `JsonWrapper(const JsonWrapper&)` -/
  | copy (i j : Nat)
  /-- `JsonWrapper(JsonWrapper&&)` -/
  | move (i j : Nat)
  | copyAssign (i j : Nat)
  | moveAssign (i j : Nat)
  | parse (i : Nat) (parsed : Option Value)
  | assign (i : Nat) (node : Option Nat)
  | take (i j : Nat)
  | release (i : Nat)
  | duplicate (i : Nat)
  | view (i j : Nat) (g : Store.Getter)
  | merge (i j : Nat)
  | reverse_merge (i j : Nat)
  /-- `~JsonWrapper()` -/
  | destroy (i : Nat)
  /-- The caller makes nodes of its own. -/
  | create (v : Value)

/-- `none` is an access to a node that was freed. -/
def perform (fuel : Nat) (s : Store) : Op → Option Store
  | .make i => some (s.set i ⟨none, true⟩)
  | .fromText i parsed => (s.set i ⟨none, true⟩).parse fuel i parsed
  | .fromNode i node owner => some (s.set i ⟨node, owner⟩)
  | .copy i j => (s.set i ⟨none, true⟩).copyAssign fuel i j
  | .move i j => (s.set i ⟨none, true⟩).moveAssign fuel i j
  | .copyAssign i j => s.copyAssign fuel i j
  | .moveAssign i j => s.moveAssign fuel i j
  | .parse i parsed => s.parse fuel i parsed
  | .assign i node => s.assign fuel i node
  | .take i j => s.take fuel i j
  | .release i => s.release i
  | .duplicate i => do
    let w ← s.wrappers i
    let (root, s) ← s.duplicate fuel w.m_root
    some { s with held := root.toList ++ s.held }
  | .view i j g => s.view fuel i j g
  | .merge i j => s.merge fuel i j
  | .reverse_merge i j => s.reverse_merge fuel i j
  | .destroy i => do
    let s ← s.clear fuel i
    some { s with wrappers := Function.update s.wrappers i none }
  | .create v => some { s.alloc v with held := s.brk :: s.held }

/-! ## Ownership -/

namespace Store

variable (s : Store)

/-- The wrapper `i` owns the tree with the root `a`. -/
def Owns (i a : Nat) : Prop := s.wrappers i = some ⟨some a, true⟩

/-- The tree below a node; no tree has more nodes than were ever made. -/
def tree (a : Nat) : Option (Node Nat Item) := readTree s.brk s.heap a

/-- The JSON value of a wrapper. -/
def value (i : Nat) : Option Value := do
  let w ← s.wrappers i
  let n ← w.m_root.bind s.tree
  some n.erase

/-- A view is used while its tree is alive. -/
def Usable (i : Nat) : Prop :=
  ∃ w, s.wrappers i = some w ∧
    (w.m_owner = false → ∀ a, w.m_root = some a → (s.heap a).isSome = true)

/-- The tree that `i` owns has the root of `j`. -/
def ownTreeHas (i j : Nat) : Bool :=
  match s.wrappers i, s.wrappers j with
  | some ⟨some a, true⟩, some ⟨some b, _⟩ => ((s.tree a).elim [] addrs).contains b
  | _, _ => false

/-- A merge of `b` into `a` does nothing, or neither of the two trees is a part of the other. -/
def separate (a b : Nat) : Bool :=
  match s.tree a, s.tree b with
  | some m, some n =>
    m.item.type != n.item.type || n.child.isEmpty ||
      (!n.addrs.contains a && !m.addrs.contains b)
  | _, _ => false

/-- The same for the roots of wrappers; without one nothing is merged. -/
def separateRoots (w profile : JsonWrapper Nat) : Bool :=
  match w.m_root, profile.m_root with
  | some a, some b => s.separate a b
  | _, _ => true

/-- Nobody but the wrapper, or the caller, has this root. -/
def available (w : JsonWrapper Nat) : Bool :=
  w.m_owner || w.m_root.all fun a => s.held.contains a

end Store

/-- Only new numbers are given to new wrappers, and views are used while their tree is alive;
    `getArray(int)` is for an index that is there. -/
def Enabled (s : Store) : Op → Prop
  | .make i => s.wrappers i = none
  | .fromText i _ => s.wrappers i = none
  | .fromNode i _ _ => s.wrappers i = none
  | .copy i j => s.wrappers i = none ∧ s.Usable j
  | .move i j => s.wrappers i = none ∧ s.Usable j
  | .copyAssign i j => (s.wrappers i).isSome = true ∧ s.Usable j
  | .moveAssign i j => (s.wrappers i).isSome = true ∧ s.Usable j
  | .parse i _ => (s.wrappers i).isSome = true
  | .assign i _ => (s.wrappers i).isSome = true
  | .take i j => s.wrappers i = none ∧ s.Usable j
  | .release i => (s.wrappers i).isSome = true
  | .duplicate i => s.Usable i
  | .view i j g => s.wrappers i = none ∧ s.Usable j ∧
      ∀ index, g = .getArrayAt index → ∃ w, s.wrappers j = some w ∧
        ∃ node, Store.findNodeAt s.heap w.m_root index = some (some node)
  | .merge i j => s.Usable i ∧ s.Usable j
  | .reverse_merge i j => s.Usable i ∧ s.Usable j
  | .destroy i => (s.wrappers i).isSome = true
  | .create _ => True

/-- Who calls this way finds the ownership in order. -/
def isCareful (s : Store) : Op → Bool
  | .fromNode _ node owner => !owner || node.all fun a => s.held.contains a
  | .assign _ node => node.all fun a => s.held.contains a
  | .copyAssign i j => i == j || !s.ownTreeHas i j
  | .moveAssign i j => i == j || !s.ownTreeHas i j
  | .merge i j =>
    match s.wrappers i, s.wrappers j with
    | some w, some profile => s.separateRoots w profile && (w.isValid || s.available profile)
    | _, _ => false
  | .reverse_merge i j =>
    match s.wrappers i, s.wrappers j with
    | some w, some profile => s.separateRoots profile w && (i == j || s.available profile)
    | _, _ => false
  | _ => true

/-- From a store to the next; no store comes after an access to a node that was freed. -/
def Step (s : Option Store) (op : Op) (t : Option Store) : Prop :=
  ∃ store, s = some store ∧ Enabled store op ∧ ∃ N, ∀ fuel, N ≤ fuel → perform fuel store op = t

/-- `operator=` -/
def Op.Assigns (i j : Nat) (op : Op) : Prop := op = .copyAssign i j ∨ op = .moveAssign i j

/-- **What ownership promises**, for a step: no node is accessed, or freed, after it was freed; no
    root, and no node below it, has a second owner; what a wrapper owns is there; and an assigned
    wrapper has the value that was assigned. -/
def Good (x : Option Store × Op × Option Store) : Prop :=
  ∃ s t, x.1 = some s ∧ x.2.2 = some t ∧ (∀ i a, t.Owns i a → (t.heap a).isSome = true) ∧
    (∀ i j a b n, t.Owns i a → t.Owns j b → t.tree a = some n → b ∈ n.addrs → i = j) ∧
    ∀ i j, x.2.1.Assigns i j → t.value i = s.value j

/-- The condition on a step. -/
def Careful (s : Option Store) (op : Op) : Prop := ∃ store, s = some store ∧ isCareful store op = true

/-! ## The books -/

/-- Every owner has a root to itself, and so has the caller. -/
structure Books (roots : List Nat) (wrappers : Nat → Option (JsonWrapper Nat)) (held : List Nat) :
    Prop where
  owned : ∀ i a, wrappers i = some ⟨some a, true⟩ → a ∈ roots
  inHand : ∀ a ∈ held, a ∈ roots
  unique : ∀ i j a, wrappers i = some ⟨some a, true⟩ → wrappers j = some ⟨some a, true⟩ → i = j
  apart : ∀ i a, wrappers i = some ⟨some a, true⟩ → a ∉ held

/-- The store is a forest, and the books are in order. -/
structure Sound (s : Store) (F : List (Node Nat Item)) : Prop where
  forest : Forest s.heap F
  fresh : ∀ a, s.brk ≤ a → s.heap a = none
  books : Books (F.map addr) s.wrappers s.held

section Books

variable {roots : List Nat} {wrappers : Nat → Option (JsonWrapper Nat)} {held : List Nat}

/-- Books that are in order stay so with more roots. -/
theorem Books.mono (h : Books roots wrappers held) {roots' : List Nat}
    (hsub : ∀ a ∈ roots, a ∈ roots') : Books roots' wrappers held :=
  ⟨fun i a hi => hsub a (h.owned i a hi), fun a ha => hsub a (h.inHand a ha), h.unique, h.apart⟩

/-- The caller gets a root that nobody owns. -/
theorem Books.hold (h : Books roots wrappers held) {a : Nat} (ha : a ∈ roots)
    (hfree : ∀ i, wrappers i ≠ some ⟨some a, true⟩) : Books roots wrappers (a :: held) := by
  refine ⟨h.owned, ?_, h.unique, ?_⟩
  · intro b hb
    rcases List.mem_cons.mp hb with rfl | hb
    · exact ha
    · exact h.inHand b hb
  · intro i b hi hb
    rcases List.mem_cons.mp hb with rfl | hb
    · exact hfree i hi
    · exact h.apart i b hi hb

/-- A wrapper changes, and owns nothing afterwards. -/
theorem Books.drop (h : Books roots wrappers held) (i : Nat) {w : Option (JsonWrapper Nat)}
    (hw : ∀ a, w ≠ some ⟨some a, true⟩) {held' : List Nat} (hsub : ∀ a ∈ held', a ∈ held) :
    Books roots (Function.update wrappers i w) held' := by
  have hold : ∀ j a, Function.update wrappers i w j = some ⟨some a, true⟩ →
      wrappers j = some ⟨some a, true⟩ := by
    intro j a hj
    by_cases hij : j = i
    · rw [hij, Function.update_self] at hj
      exact absurd hj (hw a)
    · rwa [Function.update_of_ne hij] at hj
  refine ⟨?_, fun a ha => h.inHand a (hsub a ha), ?_, ?_⟩
  · intro j a hj
    exact h.owned j a (hold j a hj)
  · intro j k a hj hk
    exact h.unique j k a (hold j a hj) (hold k a hk)
  · intro j a hj ha
    exact h.apart j a (hold j a hj) (hsub a ha)

/-- An owner gives its root up. -/
theorem Books.remove (h : Books roots wrappers held) {i a : Nat}
    (hi : wrappers i = some ⟨some a, true⟩) {w : Option (JsonWrapper Nat)}
    (hw : ∀ b, w ≠ some ⟨some b, true⟩) {roots' : List Nat}
    (hroots : ∀ b ∈ roots, b ≠ a → b ∈ roots') {held' : List Nat} (hsub : ∀ b ∈ held', b ∈ held) :
    Books roots' (Function.update wrappers i w) held' := by
  have hdrop := h.drop i hw hsub
  refine ⟨?_, ?_, hdrop.unique, hdrop.apart⟩
  · intro j b hj
    apply hroots b (hdrop.owned j b hj)
    rintro rfl
    by_cases hij : j = i
    · rw [hij, Function.update_self] at hj
      exact hw b hj
    · rw [Function.update_of_ne hij] at hj
      exact hij (h.unique j i b hj hi)
  · intro b hb
    apply hroots b (hdrop.inHand b hb)
    rintro rfl
    exact h.apart i b hi (hsub b hb)

end Books

/-- Overwriting a wrapper drops nothing new. -/
theorem set_held_subset {s : Store} {i : Nat} {w : JsonWrapper Nat} :
    ∀ a ∈ (s.set i w).held, a ∈ s.held := by
  intro a ha
  exact (List.mem_filter.mp ha).1

/-- A wrapper becomes a view, or empty. -/
theorem Sound.set_view {s : Store} {F : List (Node Nat Item)} (h : Sound s F) (i : Nat)
    {w : JsonWrapper Nat} (hw : ∀ a, w ≠ ⟨some a, true⟩) : Sound (s.set i w) F := by
  refine ⟨h.forest, h.fresh, h.books.drop i ?_ set_held_subset⟩
  intro a heq
  exact hw a (Option.some_inj.mp heq)

/-- A wrapper takes over a root that nobody else owns. -/
theorem Sound.set_owner {s : Store} {F : List (Node Nat Item)} (h : Sound s F) (i : Nat) {a : Nat}
    (ha : a ∈ F.map addr) (hfree : ∀ j, s.Owns j a → j = i) :
    Sound (s.set i ⟨some a, true⟩) F := by
  -- who owns something now is `i`, or owned it before
  have hold : ∀ j b, (s.set i ⟨some a, true⟩).Owns j b → (j = i ∧ b = a) ∨ (j ≠ i ∧ s.Owns j b) := by
    intro j b hj
    by_cases hij : j = i
    · have hj : Function.update s.wrappers i (some ⟨some a, true⟩) j = some ⟨some b, true⟩ := hj
      rw [hij, Function.update_self] at hj
      cases hj
      exact Or.inl ⟨hij, rfl⟩
    · have hj : Function.update s.wrappers i (some ⟨some a, true⟩) j = some ⟨some b, true⟩ := hj
      rw [Function.update_of_ne hij] at hj
      exact Or.inr ⟨hij, hj⟩
  refine ⟨h.forest, h.fresh, ⟨?_, fun b hb => h.books.inHand b (set_held_subset b hb), ?_, ?_⟩⟩
  · intro j b hj
    rcases hold j b hj with ⟨-, rfl⟩ | ⟨-, hj⟩
    · exact ha
    · exact h.books.owned j b hj
  -- a root has one owner
  · intro j k b hj hk
    rcases hold j b hj with ⟨hji, hb⟩ | ⟨hne, hold_j⟩
    · rcases hold k b hk with ⟨hki, -⟩ | ⟨hne, hold_k⟩
      · exact hji.trans hki.symm
      · rw [hb] at hold_k
        exact absurd (hfree k hold_k) hne
    · rcases hold k b hk with ⟨-, hb⟩ | ⟨-, hold_k⟩
      · rw [hb] at hold_j
        exact absurd (hfree j hold_j) hne
      · exact h.books.unique j k b hold_j hold_k
  -- what is owned is not held by a caller
  · intro j b hj hb
    rcases hold j b hj with ⟨-, rfl⟩ | ⟨-, hj⟩
    · have hkept := (List.mem_filter.mp hb).2
      simp at hkept
    · exact h.books.apart j b hj (set_held_subset b hb)

section Sound

variable {s : Store} {F : List (Node Nat Item)} {p q : Option Nat}

/-! ### Trees of a store -/

/-- The address of a node was allocated. -/
theorem Sound.lt_brk (h : Sound s F) {a : Nat} (ha : (s.heap a).isSome = true) : a < s.brk := by
  by_contra hge
  rw [h.fresh a (Nat.le_of_not_lt hge)] at ha
  cases ha

/-- No tree has more nodes than there were addresses. -/
theorem Sound.size_le (h : Sound s F) {n : Node Nat Item} (hn : n.Holds s.heap p q) :
    n.size ≤ s.brk := by
  have hsub := h.forest.mem_subtreesAll hn
  have hlt : n.addrs ⊆ List.range s.brk := by
    intro a ha
    exact List.mem_range.mpr
      (h.lt_brk (h.forest.live ((sublist_of_mem_subtreesAll hsub).subset ha)))
  have hlen := (List.subperm_of_subset (h.forest.addrs_nodup hsub) hlt).length_le
  rwa [List.length_range, ← size_eq_length] at hlen

/-- The tree at the address of a held node is that node. -/
theorem Sound.tree_eq (h : Sound s F) {n : Node Nat Item} (hn : n.Holds s.heap p q) :
    s.tree n.addr = some n :=
  readTree_holds hn (h.size_le hn)

/-- A live node has a tree below it. -/
theorem Sound.exists_tree (h : Sound s F) {a : Nat} (ha : (s.heap a).isSome = true) :
    ∃ (n : Node Nat Item) (p q : Option Nat), n.Holds s.heap p q ∧ n.addr = a := by
  obtain ⟨n, hn, haddr⟩ := h.forest.exists_holds ha
  obtain ⟨p, q, hholds⟩ := h.forest.subtree hn
  exact ⟨n, p, q, hholds, haddr⟩

/-- Every root of the forest is held by the heap. -/
theorem Sound.exists_root (h : Sound s F) {a : Nat} (ha : a ∈ F.map addr) :
    ∃ n ∈ F, n.addr = a ∧ n.Holds s.heap none none := by
  obtain ⟨n, hn, haddr⟩ := List.mem_map.mp ha
  exact ⟨n, hn, haddr, h.forest.holds n hn⟩

/-- A root of the forest is a node of the heap. -/
theorem Sound.live (h : Sound s F) {a : Nat} (ha : a ∈ F.map addr) :
    (s.heap a).isSome = true := by
  obtain ⟨n, -, rfl, hn⟩ := h.exists_root ha
  rw [(holds_iff.mp hn).1]
  rfl

/-- What a pointer points to is there, with everything below it. -/
def Alive (s : Store) (root : Option Nat) : Prop :=
  ∀ a, root = some a → ∃ (n : Node Nat Item) (p q : Option Nat), n.Holds s.heap p q ∧ n.addr = a

/-- What a wrapper that may be used points to. -/
theorem Sound.usable (h : Sound s F) {j : Nat} (hj : s.Usable j) {w : JsonWrapper Nat}
    (hw : s.wrappers j = some w) : Alive s w.m_root := by
  intro a ha
  apply h.exists_tree
  obtain ⟨w', hw', hview⟩ := hj
  obtain rfl := Option.some_inj.mp (hw.symm.trans hw')
  cases howner : w.m_owner with
  | false => exact hview howner a ha
  | true =>
    have heq : w = ⟨some a, true⟩ := by
      rw [← ha, ← howner]
    rw [heq] at hw
    exact h.live (h.books.owned j a hw)

/-- The value of a wrapper is its tree without addresses. -/
theorem value_eq {i : Nat} {w : JsonWrapper Nat} (hw : s.wrappers i = some w) :
    s.value i = (w.m_root.bind s.tree).map erase := by
  rw [Store.value, hw, Option.bind_eq_bind, Option.bind_some]
  cases w.m_root.bind s.tree with
  | none => rfl
  | some n => rfl

/-! ### Clearing, making and copying -/

/-- What `parse(nullptr)` leaves of the store. -/
structure Cleared (s : Store) (i : Nat) (t : Store) : Prop where
  wrappers_eq : t.wrappers = Function.update s.wrappers i (some ⟨none, true⟩)
  held_eq : t.held = s.held
  brk_eq : t.brk = s.brk
  /-- A tree that is not in the one that was owned stays. -/
  holds : ∀ (n : Node Nat Item) p q, n.Holds s.heap p q →
    (∀ a r, s.Owns i a → s.tree a = some r → n.addr ∉ r.addrs) → n.Holds t.heap p q
  /-- The one that was owned is gone. -/
  freed : ∀ a r, s.Owns i a → s.tree a = some r → ∀ b ∈ r.addrs, t.heap b = none

/-- Clearing a wrapper drops nothing. -/
theorem set_cleared (s : Store) (i : Nat) (h : Heap Nat Item) :
    (Store.set i ⟨none, true⟩ { s with heap := h }).held = s.held := by
  show s.held.filter _ = s.held
  apply List.filter_eq_self.mpr
  intro a ha
  rfl

/-- Clearing a wrapper frees its tree if it owns it, and keeps the store sound. -/
theorem Sound.clear (h : Sound s F) {i : Nat} {w : JsonWrapper Nat} (hi : s.wrappers i = some w) :
    ∃ t F', (∀ fuel, s.brk ≤ fuel → s.clear fuel i = some t) ∧ Sound t F' ∧ Cleared s i t := by
  have hempty : ∀ a, (⟨none, true⟩ : JsonWrapper Nat) ≠ ⟨some a, true⟩ := by simp
  -- without a tree of its own, nothing is freed
  have hkeep : (∀ a, w ≠ ⟨some a, true⟩) →
      (∀ fuel, s.brk ≤ fuel → w.parseNull fuel s.heap = some (s.heap, ⟨none, true⟩)) →
      ∃ t F', (∀ fuel, s.brk ≤ fuel → s.clear fuel i = some t) ∧ Sound t F' ∧ Cleared s i t := by
    intro hnot hparse
    have howns : ∀ a, ¬s.Owns i a := by
      intro a ha
      exact hnot a (Option.some_inj.mp (hi.symm.trans ha))
    refine ⟨_, F, ?_, h.set_view i hempty, rfl, set_cleared s i s.heap, rfl, fun n p q hn _ => hn,
      fun a r ha => absurd ha (howns a)⟩
    intro fuel hfuel
    rw [Store.clear, hi, Option.bind_eq_bind, Option.bind_some, hparse fuel hfuel]
    rfl
  rcases w with ⟨_ | a, owner⟩
  · exact hkeep (by simp) fun fuel _ => JsonWrapper.parseNull_none rfl
  cases owner with
  | false => exact hkeep (by simp) fun fuel _ => rfl
  | true =>
    obtain ⟨r, hr, rfl, hholds⟩ := h.exists_root (h.books.owned i a hi)
    obtain ⟨before, after, rfl⟩ := List.append_of_mem hr
    have hnodup := h.forest.addrs_nodup (h.forest.mem_subtreesAll hholds)
    refine ⟨Store.set i ⟨none, true⟩ { s with heap := s.heap.without r.addrs }, before ++ after, ?_,
      ⟨h.forest.delete, ?_, ?_⟩, rfl, set_cleared s i _, rfl, ?_, ?_⟩
    · intro fuel hfuel
      have hparse := @JsonWrapper.parseNull_some _ _ fuel s.heap ⟨some r.addr, true⟩ r rfl hholds
        hnodup (Nat.le_trans (h.size_le hholds) hfuel)
      rw [Store.clear, hi, Option.bind_eq_bind, Option.bind_some, hparse]
      rfl
    · intro a ha
      show s.heap.without r.addrs a = none
      rw [Heap.without, h.fresh a ha, ite_self]
    · refine h.books.remove hi (by simp) ?_ set_held_subset
      intro b hb hne
      rw [List.map_append, List.map_cons, List.mem_append, List.mem_cons] at hb
      rw [List.map_append, List.mem_append]
      rcases hb with hb | rfl | hb
      · exact Or.inl hb
      · exact absurd rfl hne
      · exact Or.inr hb
    · intro n p q hn hnot
      have hdisj := h.forest.disjoint_of_notMem (h.forest.mem_subtreesAll hn)
        (hnot r.addr r hi (h.tree_eq hholds))
      exact hn.frame fun a ha => Heap.without_of_notMem (hdisj ha)
    · intro a r' ha hr' b hb
      obtain rfl : r.addr = a := by
        have heq := hi.symm.trans ha
        cases heq
        rfl
      obtain rfl := Option.some_inj.mp ((h.tree_eq hholds).symm.trans hr')
      exact Heap.without_of_mem hb

/-- A tree of new nodes. -/
theorem Sound.alloc (h : Sound s F) (v : Value) :
    ∃ n : Node Nat Item, Sound (s.alloc v) (n :: F) ∧ n.addr = s.brk ∧ n.erase = v.erase ∧
      n.Holds (s.alloc v).heap none none ∧
      ∀ (m : Node Nat Item) p q, m.Holds s.heap p q → m.Holds (s.alloc v).heap p q := by
  -- the new nodes lie behind all that were allocated
  have haddrs : (v.label s.brk).addrs = List.range' s.brk v.size := addrs_label s.brk v
  have hnodup : (v.label s.brk).addrs.Nodup := by
    rw [haddrs]
    exact List.nodup_range'
  have hfresh : ∀ a ∈ (v.label s.brk).addrs, s.heap a = none := by
    intro a ha
    rw [haddrs, List.mem_range'_1] at ha
    exact h.fresh a ha.1
  refine ⟨v.label s.brk, ⟨h.forest.alloc hnodup hfresh, ?_, h.books.mono ?_⟩, addr_label s.brk v,
    erase_label s.brk v, Heap.alloc_holds hnodup hfresh, ?_⟩
  -- behind the new nodes nothing is allocated
  · intro a ha
    have ha : s.brk + v.size ≤ a := ha
    have hnot : a ∉ (v.label s.brk).addrs := by
      rw [haddrs, List.mem_range'_1]
      omega
    show s.heap.alloc (v.label s.brk) a = none
    rw [Heap.alloc_of_notMem hnot]
    exact h.fresh a (by omega)
  · intro a ha
    exact List.mem_cons_of_mem _ ha
  -- the trees that were there do not change
  · intro m p q hm
    apply hm.frame
    intro a ha
    apply Heap.alloc_of_notMem
    intro hmem
    have hlive := h.forest.live
      ((sublist_of_mem_subtreesAll (h.forest.mem_subtreesAll hm)).subset ha)
    rw [hfresh a hmem] at hlive
    cases hlive

/-- A root that no wrapper owns and the caller does not hold. -/
def Unclaimed (t : Store) (F : List (Node Nat Item)) (root : Option Nat) : Prop :=
  ∀ a, root = some a → a ∈ F.map addr ∧ (∀ i, ¬t.Owns i a) ∧ a ∉ t.held

/-- Nobody has the new nodes yet. -/
theorem Sound.unclaimed (h : Sound s F) {n : Node Nat Item} (v : Value) (haddr : n.addr = s.brk) :
    Unclaimed (s.alloc v) (n :: F) (some s.brk) := by
  intro a ha
  obtain rfl := Option.some_inj.mp ha
  have hdead : ¬(s.heap s.brk).isSome = true := by
    rw [h.fresh s.brk (Nat.le_refl _)]
    exact Bool.false_ne_true
  refine ⟨?_, ?_, ?_⟩
  · rw [List.map_cons, haddr]
    exact List.mem_cons_self
  · intro i hi
    exact hdead (h.live (h.books.owned i _ hi))
  · intro hheld
    exact hdead (h.live (h.books.inHand _ hheld))

/-- A copy has the value of the tree, and nobody has it yet. -/
theorem Sound.duplicate (h : Sound s F) {root : Option Nat}
    (hroot : Alive s root) :
    ∃ t F' root', (∀ fuel, s.brk ≤ fuel → s.duplicate fuel root = some (root', t)) ∧ Sound t F' ∧
      t.wrappers = s.wrappers ∧ t.held = s.held ∧ Unclaimed t F' root' ∧
      (root'.bind t.tree).map erase = (root.bind s.tree).map erase := by
  cases root with
  | none => exact ⟨s, F, none, fun fuel _ => rfl, h, rfl, rfl, nofun, rfl⟩
  | some a =>
    obtain ⟨n, p, q, hn, rfl⟩ := hroot a rfl
    obtain ⟨m, hsound, haddr, herase, hm, -⟩ := h.alloc n.erase
    refine ⟨s.alloc n.erase, m :: F, some s.brk, ?_, hsound, rfl, rfl, h.unclaimed _ haddr, ?_⟩
    · intro fuel hfuel
      rw [Store.duplicate, readTree_holds hn (Nat.le_trans (h.size_le hn) hfuel)]
      rfl
    · rw [Option.bind_some, Option.bind_some, ← haddr, hsound.tree_eq hm, h.tree_eq hn,
        Option.map_some, Option.map_some, herase, erase_erase]

/-- A wrapper gets a root that nobody has, or nothing. -/
theorem Sound.set_unclaimed (h : Sound s F) (i : Nat) {root : Option Nat}
    (hroot : Unclaimed s F root) : Sound (s.set i ⟨root, true⟩) F := by
  cases root with
  | none => exact h.set_view i (by simp)
  | some a =>
    obtain ⟨ha, hfree, -⟩ := hroot a rfl
    exact h.set_owner i ha fun j hj => absurd hj (hfree j)

/-- A pointer that is not into the tree that was owned points to the same. -/
theorem Cleared.alive {t : Store} {F' : List (Node Nat Item)} {i : Nat} (hc : Cleared s i t)
    (h : Sound s F) (ht : Sound t F') {root : Option Nat} (hroot : Alive s root)
    (hnot : ∀ b, root = some b → ∀ a r, s.Owns i a → s.tree a = some r → b ∉ r.addrs) :
    Alive t root ∧ (root.bind t.tree).map erase = (root.bind s.tree).map erase := by
  cases root with
  | none => exact ⟨nofun, rfl⟩
  | some b =>
    obtain ⟨n, p, q, hn, rfl⟩ := hroot b rfl
    have hn' := hc.holds n p q hn (hnot n.addr rfl)
    constructor
    · intro a ha
      obtain rfl := Option.some_inj.mp ha
      exact ⟨n, p, q, hn', rfl⟩
    · rw [Option.bind_some, Option.bind_some, ht.tree_eq hn', h.tree_eq hn]

/-- The value of a wrapper that has just been set. -/
theorem value_set (s : Store) (i : Nat) (w : JsonWrapper Nat) :
    (s.set i w).value i = (w.m_root.bind s.tree).map erase := by
  have hw : (s.set i w).wrappers i = some w := by
    show Function.update s.wrappers i (some w) i = some w
    rw [Function.update_self]
  exact value_eq hw

/-! ### The operations -/

/-- With enough fuel the operation returns, and the store is in order. -/
def Returns (f : Nat → Option Store) (P : Store → Prop) : Prop :=
  ∃ t F, Sound t F ∧ P t ∧ ∃ N, ∀ fuel, N ≤ fuel → f fuel = some t

theorem Sound.returns (h : Sound s F) {f : Nat → Option Store} {P : Store → Prop} (hP : P s)
    (N : Nat) (heq : ∀ fuel, N ≤ fuel → f fuel = some s) : Returns f P :=
  ⟨s, F, h, hP, N, heq⟩

theorem returns_parse (h : Sound s F) {i : Nat} (hi : (s.wrappers i).isSome = true)
    (parsed : Option Value) : Returns (fun fuel => s.parse fuel i parsed) fun _ => True := by
  obtain ⟨w, hw⟩ := Option.isSome_iff_exists.mp hi
  obtain ⟨t, F', hclear, ht, -⟩ := h.clear hw
  cases parsed with
  | none =>
    refine ht.returns trivial s.brk fun fuel hfuel => ?_
    rw [Store.parse, hclear fuel hfuel]
    rfl
  | some v =>
    obtain ⟨n, halloc, haddr, -⟩ := ht.alloc v
    refine (halloc.set_unclaimed i (ht.unclaimed v haddr)).returns trivial s.brk
      fun fuel hfuel => ?_
    rw [Store.parse, hclear fuel hfuel]
    rfl

/-- The caller gives a node that it holds. -/
theorem set_held_owner (h : Sound s F) (i : Nat) {node : Option Nat}
    (hnode : (node.all fun a => s.held.contains a) = true) : Sound (s.set i ⟨node, true⟩) F := by
  cases node with
  | none => exact h.set_view i (by simp)
  | some a =>
    have ha : a ∈ s.held := by simpa using hnode
    apply h.set_owner i (h.books.inHand a ha)
    intro j hj
    exact absurd ha (h.books.apart j a hj)

theorem returns_assign (h : Sound s F) {i : Nat} (hi : (s.wrappers i).isSome = true)
    {node : Option Nat} (hnode : (node.all fun a => s.held.contains a) = true) :
    Returns (fun fuel => s.assign fuel i node) fun _ => True := by
  obtain ⟨w, hw⟩ := Option.isSome_iff_exists.mp hi
  obtain ⟨t, F', hclear, ht, hc⟩ := h.clear hw
  rw [← hc.held_eq] at hnode
  refine (set_held_owner ht i hnode).returns trivial s.brk fun fuel hfuel => ?_
  rw [Store.assign, hclear fuel hfuel]
  rfl

/-- The condition on an assignment, as what it says about the heap. -/
theorem notMem_of_ownTreeHas {i j : Nat} (hnot : s.ownTreeHas i j = false) {rhs : JsonWrapper Nat}
    (hj : s.wrappers j = some rhs) :
    ∀ b, rhs.m_root = some b → ∀ a r, s.Owns i a → s.tree a = some r → b ∉ r.addrs := by
  intro b hb a r hi hr hmem
  rcases rhs with ⟨root, owner⟩
  have hb : root = some b := hb
  rw [Store.Owns] at hi
  rw [Store.ownTreeHas, hi, hj, hb] at hnot
  simp [hr, hmem] at hnot

/-- Copying returns, unless the wrapper reads its own tree through the other one. -/
theorem returns_copyAssign (h : Sound s F) {i j : Nat} (hi : (s.wrappers i).isSome = true)
    (hj : s.Usable j) (hcareful : i = j ∨ s.ownTreeHas i j = false) :
    Returns (fun fuel => s.copyAssign fuel i j) fun t => t.value i = s.value j := by
  -- assigning a wrapper to itself does nothing
  by_cases hij : i = j
  · refine h.returns (by rw [hij]) 0 fun fuel _ => ?_
    rw [Store.copyAssign, if_pos hij]
  obtain ⟨w, hw⟩ := Option.isSome_iff_exists.mp hi
  obtain ⟨rhs, hrhs, -⟩ := id hj
  -- the old tree is freed first, so the other wrapper must not look into it
  obtain ⟨t, F', hclear, ht, hc⟩ := h.clear hw
  have hnot := notMem_of_ownTreeHas (hcareful.resolve_left hij) hrhs
  obtain ⟨halive, hvalue⟩ := hc.alive h ht (h.usable hj hrhs) hnot
  obtain ⟨u, F'', root, hdup, hu, -, -, hroot, hcopy⟩ := ht.duplicate halive
  refine (hu.set_unclaimed i hroot).returns ?_ s.brk fun fuel hfuel => ?_
  · rw [value_set, hcopy, hvalue, value_eq hrhs]
  -- the other wrapper itself is not touched
  · have hrhs' : t.wrappers j = some rhs := by
      rw [hc.wrappers_eq, Function.update_of_ne (Ne.symm hij)]
      exact hrhs
    rw [Store.copyAssign, if_neg hij, hclear fuel hfuel, Option.bind_eq_bind, Option.bind_some, hrhs',
      Option.bind_eq_bind, Option.bind_some, hdup fuel (by rw [hc.brk_eq]; exact hfuel)]
    rfl

/-- What one wrapper has goes to another. -/
theorem Sound.transfer (h : Sound s F) (i : Nat) {j : Nat} {w : JsonWrapper Nat}
    (hj : s.wrappers j = some w) : Sound ((s.set j ⟨none, false⟩).set i w) F := by
  have hempty := h.set_view j (w := ⟨none, false⟩) (by simp)
  rcases w with ⟨_ | a, owner⟩
  · exact hempty.set_view i (by simp)
  cases owner with
  | false => exact hempty.set_view i (by simp)
  | true =>
    apply hempty.set_owner i (h.books.owned j a hj)
    intro k hk
    have hk : Function.update s.wrappers j (some ⟨none, false⟩) k = some ⟨some a, true⟩ := hk
    by_cases hkj : k = j
    · rw [hkj, Function.update_self] at hk
      cases hk
    · rw [Function.update_of_ne hkj] at hk
      exact absurd (h.books.unique k j a hk hj) hkj

/-- Moving returns, unless the wrapper reads its own tree through the other one. -/
theorem returns_moveAssign (h : Sound s F) {i j : Nat} (hi : (s.wrappers i).isSome = true)
    (hj : s.Usable j) (hcareful : i = j ∨ s.ownTreeHas i j = false) :
    Returns (fun fuel => s.moveAssign fuel i j) fun t => t.value i = s.value j := by
  by_cases hij : i = j
  · refine h.returns (by rw [hij]) 0 fun fuel _ => ?_
    rw [Store.moveAssign, if_pos hij]
  obtain ⟨w, hw⟩ := Option.isSome_iff_exists.mp hi
  obtain ⟨rhs, hrhs, -⟩ := id hj
  obtain ⟨t, F', hclear, ht, hc⟩ := h.clear hw
  have hnot := notMem_of_ownTreeHas (hcareful.resolve_left hij) hrhs
  obtain ⟨-, hvalue⟩ := hc.alive h ht (h.usable hj hrhs) hnot
  have hrhs' : t.wrappers j = some rhs := by
    rw [hc.wrappers_eq, Function.update_of_ne (Ne.symm hij)]
    exact hrhs
  refine (ht.transfer i hrhs').returns ?_ s.brk fun fuel hfuel => ?_
  · rw [value_set, value_eq hrhs]
    exact hvalue
  · rw [Store.moveAssign, if_neg hij, hclear fuel hfuel, Option.bind_eq_bind, Option.bind_some,
      hrhs']
    rfl

/-- A view into the tree that the target owns: `parse(nullptr)` frees what is assigned after it. -/
theorem own_view_freed (h : Sound s F) {i j : Nat} (hij : i ≠ j)
    (hi : (s.wrappers i).isSome = true) (hj : (s.wrappers j).isSome = true)
    (hown : s.ownTreeHas i j = true) :
    ∃ t F' rhs b, (∀ fuel, s.brk ≤ fuel → s.clear fuel i = some t) ∧ Sound t F' ∧
      s.wrappers j = some rhs ∧ t.wrappers j = some rhs ∧ rhs.m_root = some b ∧
      t.heap b = none := by
  obtain ⟨w, hw⟩ := Option.isSome_iff_exists.mp hi
  obtain ⟨rhs, hrhs⟩ := Option.isSome_iff_exists.mp hj
  obtain ⟨t, F', hclear, ht, hc⟩ := h.clear hw
  rw [Store.ownTreeHas, hw, hrhs] at hown
  -- the test only fails for an owner with a tree
  rcases w with ⟨_ | a, _ | _⟩
  · cases hown
  · cases hown
  · cases hown
  rcases rhs with ⟨_ | b, owner⟩
  · cases hown
  obtain ⟨r, -, rfl, hr⟩ := h.exists_root (h.books.owned i a hw)
  -- the other root lies in the tree of the owner, so it is freed with it
  have hmem : b ∈ r.addrs := by simpa [h.tree_eq hr] using hown
  have hrhs' : t.wrappers j = some ⟨some b, owner⟩ := by
    rw [hc.wrappers_eq, Function.update_of_ne (Ne.symm hij)]
    exact hrhs
  exact ⟨t, F', _, b, hclear, ht, hrhs, hrhs', rfl, hc.freed r.addr r hw (h.tree_eq hr) b hmem⟩

/-- Moving a view of the own tree in frees the tree and leaves nothing. -/
theorem moveAssign_own_view (h : Sound s F) {i j : Nat} (hij : i ≠ j)
    (hi : (s.wrappers i).isSome = true) (hj : (s.wrappers j).isSome = true)
    (hown : s.ownTreeHas i j = true) :
    Returns (fun fuel => s.moveAssign fuel i j) fun t => t.value i = none := by
  obtain ⟨t, F', rhs, b, hclear, ht, -, hrhs', hb, hdead⟩ := own_view_freed h hij hi hj hown
  refine (ht.transfer i hrhs').returns ?_ s.brk fun fuel hfuel => ?_
  · rw [value_set, hb, Option.bind_some]
    show (readTree t.brk t.heap b).map erase = none
    rw [readTree, hdead]
    rfl
  · rw [Store.moveAssign, if_neg hij, hclear fuel hfuel, Option.bind_eq_bind, Option.bind_some,
      hrhs']
    rfl

/-- Copying a view of the own tree in reads it after it was freed. -/
theorem copyAssign_own_view (h : Sound s F) {i j : Nat} (hij : i ≠ j)
    (hi : (s.wrappers i).isSome = true) (hj : (s.wrappers j).isSome = true)
    (hown : s.ownTreeHas i j = true) {fuel : Nat} (hfuel : s.brk ≤ fuel) :
    s.copyAssign fuel i j = none := by
  obtain ⟨t, F', rhs, b, hclear, ht, -, hrhs', hb, hdead⟩ := own_view_freed h hij hi hj hown
  have hdup : t.duplicate fuel rhs.m_root = none := by
    rw [hb, Store.duplicate, readTree, hdead]
    rfl
  rw [Store.copyAssign, if_neg hij, hclear fuel hfuel, Option.bind_eq_bind, Option.bind_some,
    hrhs', Option.bind_eq_bind, Option.bind_some, hdup]
  rfl

theorem returns_take (h : Sound s F) {i j : Nat} (hi : s.wrappers i = none) (hj : s.Usable j) :
    Returns (fun fuel => s.take fuel i j) fun _ => True := by
  obtain ⟨w, hw, -⟩ := id hj
  have hij : i ≠ j := by
    rintro rfl
    rw [hi] at hw
    cases hw
  cases howner : w.m_owner with
  | true =>
    refine (h.transfer i hw).returns trivial 0 fun fuel _ => ?_
    rw [Store.take, hw, Option.bind_eq_bind, Option.bind_some, if_pos howner]
  | false =>
    obtain ⟨u, F', root, hdup, hu, -, -, hroot, -⟩ := h.duplicate (h.usable hj hw)
    refine (hu.set_unclaimed i hroot).returns trivial s.brk fun fuel hfuel => ?_
    rw [Store.take, hw, Option.bind_eq_bind, Option.bind_some,
      if_neg (by rw [howner]; exact Bool.false_ne_true), hdup fuel hfuel]
    rfl

/-- A root that nobody has goes to the caller. -/
theorem Sound.hold (h : Sound s F) {root : Option Nat} (hroot : Unclaimed s F root) :
    Sound { s with held := root.toList ++ s.held } F := by
  cases root with
  | none => exact h
  | some a =>
    obtain ⟨ha, hfree, -⟩ := hroot a rfl
    exact ⟨h.forest, h.fresh, h.books.hold ha hfree⟩

theorem returns_release (h : Sound s F) {i : Nat} (hi : (s.wrappers i).isSome = true) :
    Returns (fun _ => s.release i) fun _ => True := by
  obtain ⟨w, hw⟩ := Option.isSome_iff_exists.mp hi
  have hempty := h.set_view i (w := ⟨none, false⟩) (by simp)
  -- a view is left as it is; an owner hands its tree over to the caller
  cases howner : w.m_owner with
  | false =>
    refine h.returns trivial 0 fun fuel _ => ?_
    rw [Store.release, hw, Option.bind_eq_bind, Option.bind_some,
      if_neg (by rw [howner]; exact Bool.false_ne_true)]
  | true =>
    have hroot : Unclaimed (s.set i ⟨none, false⟩) F w.m_root := by
      intro a ha
      have heq : w = ⟨some a, true⟩ := by rw [← ha, ← howner]
      rw [heq] at hw
      refine ⟨h.books.owned i a hw, ?_, ?_⟩
      · intro j hj
        have hj : Function.update s.wrappers i (some ⟨none, false⟩) j = some ⟨some a, true⟩ := hj
        by_cases hji : j = i
        · rw [hji, Function.update_self] at hj
          cases hj
        · rw [Function.update_of_ne hji] at hj
          exact hji (h.books.unique j i a hj hw)
      · intro hheld
        exact h.books.apart i a hw (set_held_subset a hheld)
    refine (hempty.hold hroot).returns trivial 0 fun fuel _ => ?_
    rw [Store.release, hw, Option.bind_eq_bind, Option.bind_some, if_pos howner]

theorem returns_duplicate (h : Sound s F) {i : Nat} (hi : s.Usable i) :
    Returns (fun fuel => perform fuel s (.duplicate i)) fun _ => True := by
  obtain ⟨w, hw, -⟩ := id hi
  obtain ⟨u, F', root, hdup, hu, -, -, hroot, -⟩ := h.duplicate (h.usable hi hw)
  refine (hu.hold hroot).returns trivial s.brk fun fuel hfuel => ?_
  rw [perform, hw, Option.bind_eq_bind, Option.bind_some, hdup fuel hfuel]
  rfl

theorem returns_destroy (h : Sound s F) {i : Nat} (hi : (s.wrappers i).isSome = true) :
    Returns (fun fuel => perform fuel s (.destroy i)) fun _ => True := by
  obtain ⟨w, hw⟩ := Option.isSome_iff_exists.mp hi
  obtain ⟨t, F', hclear, ht, -⟩ := h.clear hw
  have hgone : Sound { t with wrappers := Function.update t.wrappers i none } F' :=
    ⟨ht.forest, ht.fresh, ht.books.drop i (by simp) fun a ha => ha⟩
  refine hgone.returns trivial s.brk fun fuel hfuel => ?_
  rw [perform, hclear fuel hfuel]
  rfl

/-! ### The getters -/

/-- The items of a list by their position. -/
theorem skipTo_get {h : Heap Nat Item} {ns : List (Node Nat Item)} (hs : Seg h p none ns)
    (index : Nat) : skipTo h index (head ns) = some (ns[index]?.map addr) := by
  induction ns generalizing p index with
  | nil => simp [skipTo]
  | cons n ns ih =>
    rw [Seg, Option.or_none] at hs
    cases index with
    | zero => rfl
    | succ index =>
      rw [head_cons, skipTo, (holds_iff.mp hs.1).1, Option.bind_eq_bind, Option.bind_some,
        ih hs.2, List.getElem?_cons_succ]

/-- A child has a cell. -/
theorem exists_cell_of_child {h : Heap Nat Item} {m n : Node Nat Item} (hn : n.Holds h p q)
    (hm : m ∈ n.child) : ∃ c, h m.addr = some c := by
  obtain ⟨before, after, heq⟩ := List.append_of_mem hm
  rw [← withChild_child n, heq] at hn
  exact ⟨_, (holds_iff.mp hn.get_child).1⟩

theorem returns_findNode (h : Sound s F) {root : Option Nat} (hroot : Alive s root)
    (name : CString) (type : JsonType) :
    ∃ node, ∀ fuel, s.brk ≤ fuel → Store.findNode fuel s.heap root name type = some node := by
  cases root with
  | none => exact ⟨none, fun fuel _ => rfl⟩
  | some a =>
    obtain ⟨n, p, q, hn, rfl⟩ := hroot a rfl
    -- an empty name finds nothing
    by_cases hname : name = []
    · refine ⟨none, fun fuel _ => ?_⟩
      rw [Store.findNode, if_pos hname]
    have hget : ∀ fuel, s.brk ≤ fuel → getObjectItem fuel s.heap n.addr name =
        some ((lookup name n.child).map fun (_, m, _) => m.addr) := by
      intro fuel hfuel
      -- the bound covers all children
      apply getObjectItem_spec hn
      have hlen := length_le_sizeAll n.child
      have hsize := h.size_le hn
      rw [size_eq] at hsize
      omega
    cases hlookup : lookup name n.child with
    | none =>
      refine ⟨none, fun fuel hfuel => ?_⟩
      rw [Store.findNode, if_neg hname, hget fuel hfuel, hlookup]
      rfl
    | some found =>
      obtain ⟨before, m, after⟩ := found
      have hmem : m ∈ n.child := by
        rw [lookup_some hlookup]
        exact List.mem_append_right _ List.mem_cons_self
      obtain ⟨c, hc⟩ := exists_cell_of_child hn hmem
      -- the type is read at the child, which is a cell of the heap
      refine ⟨if c.item.type = type then some m.addr else none, fun fuel hfuel => ?_⟩
      rw [Store.findNode, if_neg hname, hget fuel hfuel, hlookup, Option.map_some,
        Option.bind_eq_bind, Option.bind_some]
      show (s.heap m.addr).bind _ = _
      rw [hc, Option.bind_some]

theorem returns_linked {root : Option Nat} (hroot : Alive s root)
    (link : Cell Nat Item → Option Nat) :
    ∃ node, Store.linked s.heap root link = some ⟨node, false⟩ := by
  cases root with
  | none => exact ⟨none, rfl⟩
  | some a =>
    obtain ⟨n, p, q, hn, rfl⟩ := hroot a rfl
    refine ⟨link ⟨q, p, head n.child, n.item⟩, ?_⟩
    rw [Store.linked, (holds_iff.mp hn).1]
    rfl

/-- A getter returns a view, or an empty wrapper. -/
theorem returns_get (h : Sound s F) {root : Option Nat} (hroot : Alive s root) (g : Store.Getter)
    (hindex : ∀ index, g = .getArrayAt index →
      ∃ node, Store.findNodeAt s.heap root index = some (some node)) :
    ∃ r : JsonWrapper Nat, (∀ a, r ≠ ⟨some a, true⟩) ∧
      ∀ fuel, s.brk ≤ fuel → g.get fuel s.heap root = some r := by
  have hlinked : ∀ link, ∃ r : JsonWrapper Nat, (∀ a, r ≠ ⟨some a, true⟩) ∧
      ∀ fuel, s.brk ≤ fuel → Store.linked s.heap root link = some r := by
    intro link
    obtain ⟨node, heq⟩ := returns_linked hroot link
    exact ⟨⟨node, false⟩, by simp, fun fuel _ => heq⟩
  have hfound : ∀ name type, ∃ r : JsonWrapper Nat, (∀ a, r ≠ ⟨some a, true⟩) ∧
      ∀ fuel, s.brk ≤ fuel →
        ((Store.findNode fuel s.heap root name type).bind fun node => some ⟨node, false⟩) =
          some r := by
    intro name type
    obtain ⟨node, heq⟩ := returns_findNode h hroot name type
    refine ⟨⟨node, false⟩, by simp, fun fuel hfuel => ?_⟩
    rw [heq fuel hfuel]
    rfl
  -- three kinds of getters: by name, by index, along a link
  cases g with
  | getObject name => exact hfound name .Object
  | getArray name => exact hfound name .Array
  | getArrayAt index =>
    obtain ⟨node, hnode⟩ := hindex index rfl
    -- the element that was found is a cell of the heap
    have hcell : ∃ c, s.heap node = some c := by
      cases root with
      | none => cases hnode
      | some a =>
        obtain ⟨n, p, q, hn, rfl⟩ := hroot a rfl
        have hitem := hnode
        obtain ⟨hroot_cell, hseg⟩ := holds_iff.mp hn
        rw [Store.findNodeAt, hroot_cell, Option.bind_eq_bind, Option.bind_some,
          skipTo_get hseg] at hitem
        obtain ⟨m, hm, rfl⟩ := Option.map_eq_some_iff.mp (Option.some_inj.mp hitem)
        exact exists_cell_of_child hn (List.mem_of_getElem? hm)
    obtain ⟨c, hc⟩ := hcell
    refine ⟨if c.item.type = .Array then ⟨some node, false⟩ else ⟨none, true⟩, ?_, ?_⟩
    · intro a
      split
      · simp
      · simp
    · intro fuel _
      show (Store.findNodeAt s.heap root index).bind _ = _
      rw [hnode, Option.bind_some]
      show (s.heap node).bind _ = _
      rw [hc, Option.bind_some]
  | getChild => exact hlinked _
  | getNext => exact hlinked _
  | getPrev => exact hlinked _

/-- A getter returns, unless `getArray(index)` is asked for an index out of range. -/
theorem returns_view (h : Sound s F) (i : Nat) {j : Nat} (hj : s.Usable j) (g : Store.Getter)
    (hindex : ∀ index, g = .getArrayAt index → ∃ w, s.wrappers j = some w ∧
      ∃ node, Store.findNodeAt s.heap w.m_root index = some (some node)) :
    Returns (fun fuel => s.view fuel i j g) fun _ => True := by
  obtain ⟨w, hw, -⟩ := id hj
  have hindex' : ∀ index, g = .getArrayAt index →
      ∃ node, Store.findNodeAt s.heap w.m_root index = some (some node) := by
    intro index hg
    obtain ⟨w', hw', hnode⟩ := hindex index hg
    obtain rfl := Option.some_inj.mp (hw.symm.trans hw')
    exact hnode
  obtain ⟨r, hr, hget⟩ := returns_get h (h.usable hj hw) g hindex'
  refine (h.set_view i hr).returns trivial s.brk fun fuel hfuel => ?_
  rw [Store.view, hw, Option.bind_eq_bind, Option.bind_some, hget fuel hfuel]
  rfl

/-! ### Merging -/

/-- The order is kept when the nodes change and the roots do not. -/
theorem Sound.of_heap (h : Sound s F) {h' : Heap Nat Item} {F' : List (Node Nat Item)}
    (hF : Forest h' F') (hroots : F'.map addr = F.map addr) (hfresh : ∀ a, s.brk ≤ a → h' a = none) :
    Sound { s with heap := h' } F' := by
  refine ⟨hF, hfresh, ?_⟩
  rw [hroots]
  exact h.books

/-- `doMerge` of two live trees that do not share a node returns. -/
theorem doMerge_returns (h : Sound s F) {a b : Nat} (ha : Alive s (some a)) (hb : Alive s (some b))
    (hseparate : s.separate a b = true) :
    ∃ h' F' merged N, Sound { s with heap := h' } F' ∧
      ∀ fuel, N ≤ fuel → doMerge fuel s.heap (some a) (some b) = some (h', merged) := by
  obtain ⟨m, p, q, hm, rfl⟩ := ha a rfl
  obtain ⟨n, p', q', hn, rfl⟩ := hb b rfl
  have hcell_m := (holds_iff.mp hm).1
  have hcell_n := (holds_iff.mp hn).1
  -- where nothing is merged, nothing changes
  have hnothing : m.item.type ≠ n.item.type ∨ n.child = [] →
      ∀ fuel, 1 ≤ fuel → doMerge fuel s.heap (some m.addr) (some n.addr) = some (s.heap, []) := by
    intro hcases fuel hfuel
    obtain ⟨fuel, rfl⟩ : ∃ k, fuel = k + 1 := ⟨fuel - 1, by omega⟩
    rw [doMerge, hcell_m, Option.bind_eq_bind, Option.bind_some, hcell_n, Option.bind_some]
    split
    · rfl
    · next htype =>
      rw [hcases.resolve_left htype, head_nil]
      cases fuel with
      | zero => rw [mergeLoop]
      | succ fuel => rw [mergeLoop]
  rw [Store.separate, h.tree_eq hm, h.tree_eq hn] at hseparate
  simp only [Bool.or_eq_true, bne_iff_ne, List.isEmpty_iff, Bool.and_eq_true, Bool.not_eq_true',
    List.contains_eq_mem, decide_eq_false_iff_not] at hseparate
  rcases hseparate with hcases | ⟨hmn, hnm⟩
  · exact ⟨s.heap, F, [], 1, h, hnothing hcases⟩
  · have hnodup := h.forest.nodup_pair (h.forest.mem_subtreesAll hm) (h.forest.mem_subtreesAll hn)
      hmn hnm
    obtain ⟨h', merged, t, u, gone, hmerge, ht, htaddr, hu, huaddr, hperm, hgone, hframe, -⟩ :=
      doMerge_ends hm hn hnodup
    obtain ⟨F', hF', hroots⟩ := h.forest.graft hm hn hmn hnm ht hu htaddr huaddr hperm hgone hframe
    refine ⟨h', F', merged, m.size + 3 * n.size, h.of_heap hF' hroots ?_, hmerge⟩
    intro a ha
    have hnot : a ∉ m.addrs ++ n.addrs := by
      intro hmem
      have hlt : a < s.brk := by
        apply h.lt_brk (h.forest.live _)
        rcases List.mem_append.mp hmem with hmem | hmem
        · exact (sublist_of_mem_subtreesAll (h.forest.mem_subtreesAll hm)).subset hmem
        · exact (sublist_of_mem_subtreesAll (h.forest.mem_subtreesAll hn)).subset hmem
      omega
    rw [hframe a hnot]
    exact h.fresh a ha

/-- A wrapper that is set to what it is. -/
theorem Sound.set_same (h : Sound s F) {i : Nat} {w : JsonWrapper Nat} (hw : s.wrappers i = some w) :
    s.set i w = s := by
  have hwrappers : Function.update s.wrappers i (some w) = s.wrappers := by
    rw [← hw]
    exact Function.update_eq_self i s.wrappers
  have hheld : (s.held.filter fun a => !(w.m_owner && w.m_root == some a)) = s.held := by
    apply List.filter_eq_self.mpr
    intro a ha
    rcases w with ⟨root, owner⟩
    cases owner with
    | false => rfl
    | true =>
      have hne : root ≠ some a := by
        rintro rfl
        exact h.books.apart i a hw ha
      simpa using hne
  rw [Store.set, hwrappers, hheld]

/-- Another wrapper takes the root of one that owns it, or that is a view of what the caller holds. -/
theorem Sound.takeOver (h : Sound s F) (i : Nat) {j : Nat} {profile : JsonWrapper Nat}
    (hj : s.wrappers j = some profile) {a : Nat} (ha : profile.m_root = some a)
    (havailable : s.available profile = true) :
    Sound ((s.set j ⟨some a, false⟩).set i ⟨some a, true⟩) F := by
  have hview := h.set_view j (w := ⟨some a, false⟩) (by simp)
  rcases profile with ⟨root, owner⟩
  have ha : root = some a := ha
  rw [ha] at hj havailable
  have hfree : ∀ k, (s.set j ⟨some a, false⟩).Owns k a → k ≠ j ∧ s.Owns k a := by
    intro k hk
    have hk : Function.update s.wrappers j (some ⟨some a, false⟩) k = some ⟨some a, true⟩ := hk
    by_cases hkj : k = j
    · rw [hkj, Function.update_self] at hk
      cases hk
    · rw [Function.update_of_ne hkj] at hk
      exact ⟨hkj, hk⟩
  -- the new owner takes the tree from an owner or from a caller
  cases owner with
  | true =>
    apply hview.set_owner i (h.books.owned j a hj)
    intro k hk
    exact absurd (h.books.unique k j a (hfree k hk).2 hj) (hfree k hk).1
  | false =>
    have hheld : a ∈ s.held := by simpa [Store.available] using havailable
    apply hview.set_owner i (h.books.inHand a hheld)
    intro k hk
    exact absurd hheld (h.books.apart k a (hfree k hk).2)

/-- Where there is nothing to merge into, the profile's root is taken over, whoever owns it. -/
theorem merge_into_empty {i j b : Nat} {w profile : JsonWrapper Nat} (hw : s.wrappers i = some w)
    (ha : w.m_root = none) (hprofile : s.wrappers j = some profile) (hb : profile.m_root = some b)
    (fuel : Nat) :
    s.merge fuel i j = some ((s.set j ⟨some b, false⟩).set i ⟨some b, true⟩) := by
  have hmerge : w.merge fuel s.heap profile =
      some (s.heap, ⟨some b, true⟩, ⟨some b, false⟩) := by
    simp [JsonWrapper.merge, JsonWrapper.isValid, ha, hb, JsonWrapper.parseNull_none ha]
  rw [Store.merge, hw, hprofile, Option.bind_eq_bind, Option.bind_some, Option.bind_eq_bind,
    Option.bind_some, hmerge]
  rfl

/-- `merge` returns, if the two trees are apart. -/
theorem returns_merge (h : Sound s F) {i j : Nat} (hi : s.Usable i) (hj : s.Usable j)
    (hcareful : isCareful s (.merge i j) = true) :
    Returns (fun fuel => s.merge fuel i j) fun _ => True := by
  obtain ⟨w, hw, -⟩ := id hi
  obtain ⟨profile, hprofile, -⟩ := id hj
  rw [isCareful, hw, hprofile] at hcareful
  simp only [Bool.and_eq_true, Bool.or_eq_true] at hcareful
  obtain ⟨hseparate, htake⟩ := hcareful
  have halive_w := h.usable hi hw
  have halive_p := h.usable hj hprofile
  -- an empty profile changes nothing; into an empty wrapper it is moved as a whole
  cases hb : profile.m_root with
  | none =>
    refine h.returns trivial 0 fun fuel _ => ?_
    have hmerge : w.merge fuel s.heap profile = some (s.heap, w, profile) := by
      simp [JsonWrapper.merge, JsonWrapper.isValid, hb]
    rw [Store.merge, hw, hprofile, Option.bind_eq_bind, Option.bind_some, Option.bind_eq_bind,
      Option.bind_some, hmerge]
    show some ((s.set j profile).set i w) = some s
    rw [h.set_same hprofile, h.set_same hw]
  | some b =>
    cases ha : w.m_root with
    | none =>
      have hinvalid : w.isValid = false := by rw [JsonWrapper.isValid, ha]; rfl
      rw [hinvalid] at htake
      exact (h.takeOver i hprofile hb (htake.resolve_left Bool.false_ne_true)).returns trivial 0
        fun fuel _ => merge_into_empty hw ha hprofile hb fuel
    -- both are there: the trees are merged, and no wrapper changes
    | some a =>
      rw [ha] at halive_w
      rw [hb] at halive_p
      rw [Store.separateRoots, ha, hb] at hseparate
      obtain ⟨h', F', merged, N, hsound, hdo⟩ := doMerge_returns h halive_w halive_p hseparate
      refine hsound.returns trivial N fun fuel hfuel => ?_
      have hmerge : w.merge fuel s.heap profile = some (h', w, profile) := by
        simp [JsonWrapper.merge, JsonWrapper.isValid, ha, hb, hdo fuel hfuel]
      rw [Store.merge, hw, hprofile, Option.bind_eq_bind, Option.bind_some, Option.bind_eq_bind,
        Option.bind_some, hmerge]
      show some ((Store.set j profile { s with heap := h' }).set i w) = some { s with heap := h' }
      rw [hsound.set_same hprofile, hsound.set_same hw]

/-- What was cleared before it is set is set all the same. -/
theorem set_over (s : Store) {i j : Nat} (hij : i ≠ j) (v w : JsonWrapper Nat) :
    ((s.set i ⟨none, true⟩).set j v).set i w = (s.set j v).set i w := by
  have hwrappers : Function.update (Function.update (Function.update s.wrappers i
      (some ⟨none, true⟩)) j (some v)) i (some w) =
        Function.update (Function.update s.wrappers j (some v)) i (some w) := by
    rw [Function.update_comm hij, Function.update_idem]
  have hheld := set_cleared s i s.heap
  simp only [Store.set] at hheld ⊢
  rw [hwrappers, hheld]

/-- `parseNull` and `clear` do the same. -/
theorem parseNull_of_clear {t : Store} {i : Nat} {w : JsonWrapper Nat} {fuel : Nat}
    (hw : s.wrappers i = some w) (hclear : s.clear fuel i = some t) :
    w.parseNull fuel s.heap = some (t.heap, ⟨none, true⟩) ∧
      t = Store.set i ⟨none, true⟩ { s with heap := t.heap } := by
  rw [Store.clear, hw, Option.bind_eq_bind, Option.bind_some] at hclear
  obtain ⟨⟨h', w'⟩, hparse, heq⟩ := Option.bind_eq_some_iff.mp hclear
  have hw' : w' = ⟨none, true⟩ := by
    rw [JsonWrapper.parseNull] at hparse
    obtain ⟨_, -, hpair⟩ := Option.bind_eq_some_iff.mp hparse
    cases hpair
    rfl
  subst hw'
  cases heq
  exact ⟨hparse, rfl⟩

/-- Merged with itself, a wrapper gives its tree up. -/
theorem returns_reverse_merge_self (h : Sound s F) {i : Nat} (hi : s.Usable i)
    (hcareful : isCareful s (.reverse_merge i i) = true) :
    Returns (fun fuel => s.reverse_merge fuel i i) fun _ => True := by
  obtain ⟨w, hw, -⟩ := id hi
  rw [isCareful, hw] at hcareful
  simp only [Bool.and_eq_true] at hcareful
  have halive := h.usable hi hw
  -- an empty wrapper stays empty; a tree merged with itself is then cleared
  cases ha : w.m_root with
  | none =>
    refine h.returns trivial 0 fun fuel _ => ?_
    rw [Store.reverse_merge, hw, Option.bind_eq_bind, Option.bind_some, Option.bind_eq_bind,
      Option.bind_some, if_pos rfl, JsonWrapper.isValid, ha]
    rfl
  | some a =>
    rw [ha] at halive
    have hseparate := hcareful.1
    rw [Store.separateRoots, ha] at hseparate
    obtain ⟨h', F', merged, N, hsound, hdo⟩ := doMerge_returns h halive halive hseparate
    obtain ⟨t, F'', hclear, ht, -⟩ := hsound.clear hw
    refine (ht.set_view i (w := ⟨none, false⟩) (by simp)).returns trivial (N + s.brk)
      fun fuel hfuel => ?_
    rw [Store.reverse_merge, hw, Option.bind_eq_bind, Option.bind_some, Option.bind_eq_bind,
      Option.bind_some, if_pos rfl, JsonWrapper.isValid, ha, Option.isSome_some, if_pos rfl,
      hdo fuel (by omega), Option.bind_some]
    show (Store.clear fuel i { s with heap := h' }).bind _ = _
    rw [hclear fuel (Nat.le_trans (Nat.le_add_left _ N) hfuel)]
    rfl

/-- `reverse_merge` returns, if the two trees are apart. -/
theorem returns_reverse_merge (h : Sound s F) {i j : Nat} (hij : i ≠ j) (hi : s.Usable i)
    (hj : s.Usable j) (hcareful : isCareful s (.reverse_merge i j) = true) :
    Returns (fun fuel => s.reverse_merge fuel i j) fun _ => True := by
  obtain ⟨w, hw, -⟩ := id hi
  obtain ⟨profile, hprofile, -⟩ := id hj
  rw [isCareful, hw, hprofile] at hcareful
  simp only [Bool.and_eq_true, Bool.or_eq_true, beq_iff_eq] at hcareful
  obtain ⟨hseparate, htake⟩ := hcareful
  have havailable := htake.resolve_left hij
  have halive_w := h.usable hi hw
  have halive_p := h.usable hj hprofile
  -- the wrappers, once it is known what `JsonWrapper.reverse_merge` returns
  have hreverse : ∀ {fuel h' w' profile'},
      w.reverse_merge fuel s.heap profile = some (h', w', profile') →
      s.reverse_merge fuel i j =
        some ((Store.set j profile' { s with heap := h' }).set i w') := by
    intro fuel h' w' profile' heq
    rw [Store.reverse_merge, hw, hprofile, Option.bind_eq_bind, Option.bind_some,
      Option.bind_eq_bind, Option.bind_some, if_neg hij, heq]
    rfl
  cases hb : profile.m_root with
  | none =>
    refine h.returns trivial 0 fun fuel _ => ?_
    have hmerge : w.reverse_merge fuel s.heap profile = some (s.heap, w, profile) := by
      simp [JsonWrapper.reverse_merge, JsonWrapper.isValid, hb]
    rw [hreverse hmerge]
    show some ((s.set j profile).set i w) = some s
    rw [h.set_same hprofile, h.set_same hw]
  | some b =>
    cases ha : w.m_root with
    | none =>
      refine (h.takeOver i hprofile hb havailable).returns trivial 0 fun fuel _ => ?_
      have hmerge : w.reverse_merge fuel s.heap profile =
          some (s.heap, ⟨some b, true⟩, ⟨some b, false⟩) := by
        simp [JsonWrapper.reverse_merge, JsonWrapper.isValid, ha, hb,
          JsonWrapper.parseNull_none ha]
      exact hreverse hmerge
    | some a =>
      rw [ha] at halive_w
      rw [hb] at halive_p
      rw [Store.separateRoots, ha, hb] at hseparate
      obtain ⟨h', F', merged, N, hsound, hdo⟩ := doMerge_returns h halive_p halive_w hseparate
      obtain ⟨t, F'', hclear, ht, hc⟩ := hsound.clear hw
      have hprofile' : t.wrappers j = some profile := by
        rw [hc.wrappers_eq, Function.update_of_ne (Ne.symm hij)]
        exact hprofile
      have havailable' : t.available profile = true := by
        rw [Store.available, hc.held_eq]
        exact havailable
      refine (ht.takeOver i hprofile' hb havailable').returns trivial (N + s.brk)
        fun fuel hfuel => ?_
      have hmerged := hdo fuel (by omega)
      have hcleared := hclear fuel (Nat.le_trans (Nat.le_add_left _ N) hfuel)
      obtain ⟨hparse, heq⟩ := parseNull_of_clear (s := { s with heap := h' }) hw hcleared
      have hmerge : w.reverse_merge fuel s.heap profile =
          some (t.heap, ⟨some b, true⟩, ⟨some b, false⟩) := by
        have hparse : w.parseNull fuel h' = some (t.heap, ⟨none, true⟩) := hparse
        simp [JsonWrapper.reverse_merge, JsonWrapper.isValid, ha, hb,
          hmerged, hparse]
      have hover := set_over { s with heap := t.heap } hij ⟨some b, false⟩ ⟨some b, true⟩
      rw [← heq] at hover
      rw [hreverse hmerge, hover]

end Sound

/-! ## Runs -/

/-- **One careful operation** returns, and finds and leaves the store in order. -/
theorem perform_returns {s : Store} {F : List (Node Nat Item)} (h : Sound s F) {op : Op}
    (henabled : Enabled s op) (hcareful : isCareful s op = true) :
    Returns (fun fuel => perform fuel s op)
      fun t => ∀ i j, op.Assigns i j → t.value i = s.value j := by
  -- only the assignments say something about values
  have hother : (∀ i j, ¬op.Assigns i j) → (Returns (fun fuel => perform fuel s op) fun _ => True) →
      Returns (fun fuel => perform fuel s op)
        fun t => ∀ i j, op.Assigns i j → t.value i = s.value j := by
    rintro hnot ⟨t, F', ht, -, hreturns⟩
    exact ⟨t, F', ht, fun i j hij => absurd hij (hnot i j), hreturns⟩
  have hempty : ∀ i, Sound (s.set i ⟨none, true⟩) F := fun i => h.set_view i (by simp)
  have hmade : ∀ i, ((s.set i ⟨none, true⟩).wrappers i).isSome = true := by
    intro i
    show (Function.update s.wrappers i _ i).isSome = true
    rw [Function.update_self]
    rfl
  -- a new wrapper owns nothing when it is assigned
  have hnew : ∀ i j, s.wrappers i = none → s.Usable j →
      (s.set i ⟨none, true⟩).Usable j ∧ (s.set i ⟨none, true⟩).ownTreeHas i j = false := by
    intro i j hi hj
    obtain ⟨w, hw, hview⟩ := hj
    have hji : j ≠ i := by
      rintro rfl
      cases hi.symm.trans hw
    refine ⟨⟨w, ?_, hview⟩, ?_⟩
    · show Function.update s.wrappers i _ j = some w
      rw [Function.update_of_ne hji]
      exact hw
    · have hset : (s.set i ⟨none, true⟩).wrappers i = some ⟨none, true⟩ := Function.update_self ..
      rw [Store.ownTreeHas, hset]
  cases op with
  | make i => exact hother (by simp [Op.Assigns]) ((hempty i).returns trivial 0 fun fuel _ => rfl)
  | fromText i parsed =>
    exact hother (by simp [Op.Assigns]) (returns_parse (hempty i) (hmade i) parsed)
  | fromNode i node owner =>
    have hsound : Sound (s.set i ⟨node, owner⟩) F := by
      cases owner with
      | false => exact h.set_view i (by simp)
      | true => exact set_held_owner h i hcareful
    exact hother (by simp [Op.Assigns]) (hsound.returns trivial 0 fun fuel _ => rfl)
  | copy i j =>
    obtain ⟨hj, hnot⟩ := hnew i j henabled.1 henabled.2
    obtain ⟨t, F', ht, -, hreturns⟩ := returns_copyAssign (hempty i) (hmade i) hj (Or.inr hnot)
    exact hother (by simp [Op.Assigns]) ⟨t, F', ht, trivial, hreturns⟩
  | move i j =>
    obtain ⟨hj, hnot⟩ := hnew i j henabled.1 henabled.2
    obtain ⟨t, F', ht, -, hreturns⟩ := returns_moveAssign (hempty i) (hmade i) hj (Or.inr hnot)
    exact hother (by simp [Op.Assigns]) ⟨t, F', ht, trivial, hreturns⟩
  | copyAssign i j =>
    have hcases : i = j ∨ s.ownTreeHas i j = false := by simpa [isCareful] using hcareful
    obtain ⟨t, F', ht, hvalue, hreturns⟩ := returns_copyAssign h henabled.1 henabled.2 hcases
    refine ⟨t, F', ht, ?_, hreturns⟩
    rintro i' j' (heq | heq)
    · cases heq
      exact hvalue
    · cases heq
  | moveAssign i j =>
    have hcases : i = j ∨ s.ownTreeHas i j = false := by simpa [isCareful] using hcareful
    obtain ⟨t, F', ht, hvalue, hreturns⟩ := returns_moveAssign h henabled.1 henabled.2 hcases
    refine ⟨t, F', ht, ?_, hreturns⟩
    rintro i' j' (heq | heq)
    · cases heq
    · cases heq
      exact hvalue
  | parse i parsed => exact hother (by simp [Op.Assigns]) (returns_parse h henabled parsed)
  | assign i node => exact hother (by simp [Op.Assigns]) (returns_assign h henabled hcareful)
  | take i j => exact hother (by simp [Op.Assigns]) (returns_take h henabled.1 henabled.2)
  | release i => exact hother (by simp [Op.Assigns]) (returns_release h henabled)
  | duplicate i => exact hother (by simp [Op.Assigns]) (returns_duplicate h henabled)
  | view i j g =>
    exact hother (by simp [Op.Assigns]) (returns_view h i henabled.2.1 g henabled.2.2)
  | merge i j =>
    exact hother (by simp [Op.Assigns]) (returns_merge h henabled.1 henabled.2 hcareful)
  | reverse_merge i j =>
    by_cases hij : i = j
    · subst hij
      exact hother (by simp [Op.Assigns]) (returns_reverse_merge_self h henabled.1 hcareful)
    · exact hother (by simp [Op.Assigns])
        (returns_reverse_merge h hij henabled.1 henabled.2 hcareful)
  | destroy i => exact hother (by simp [Op.Assigns]) (returns_destroy h henabled)
  | create v =>
    obtain ⟨n, hsound, haddr, -⟩ := h.alloc v
    exact hother (by simp [Op.Assigns])
      ((hsound.hold (h.unclaimed v haddr)).returns trivial 0 fun fuel _ => rfl)

/-- No wrapper, no node. -/
theorem sound_empty : Sound Store.empty [] := by
  refine ⟨Forest.empty, fun a _ => rfl, ?_, ?_, ?_, ?_⟩
  · intro i a hi
    cases hi
  · intro a ha
    cases ha
  · intro i j a hi
    cases hi
  · intro i a hi
    cases hi

/-- A careful step leads to a store that is in order, and is good. -/
theorem step_good {x : Option Store} {op : Op} {y : Option Store}
    (hx : ∃ s F, x = some s ∧ Sound s F) (hcareful : Careful x op) (hstep : Step x op y) :
    (∃ t F, y = some t ∧ Sound t F) ∧ Good (x, op, y) := by
  obtain ⟨s, F, rfl, hs⟩ := hx
  obtain ⟨s', heq, hcareful⟩ := hcareful
  obtain rfl := Option.some_inj.mp heq
  obtain ⟨s', heq, henabled, N, hperform⟩ := hstep
  obtain rfl := Option.some_inj.mp heq
  obtain ⟨t, F', ht, hvalue, N', hreturns⟩ := perform_returns hs henabled hcareful
  have hy : y = some t := by
    rw [← hperform (N + N') (Nat.le_add_right _ _)]
    exact hreturns (N + N') (Nat.le_add_left _ _)
  refine ⟨⟨t, F', hy, ht⟩, s, t, rfl, hy, ?_, ?_, hvalue⟩
  · intro i a hi
    exact ht.live (ht.books.owned i a hi)
  · intro i j a b n hi hj hn hb
    -- both have roots of the forest, which share no node
    obtain ⟨r, hr, rfl, hholds⟩ := ht.exists_root (ht.books.owned i a hi)
    obtain ⟨r', hr', rfl, -⟩ := ht.exists_root (ht.books.owned j b hj)
    obtain rfl := Option.some_inj.mp ((ht.tree_eq hholds).symm.trans hn)
    obtain rfl := ht.forest.root_unique hr hr' hb (addr_mem_addrs r')
    exact ht.books.unique i j r.addr hi hj

/-- The order is kept in every careful run. -/
theorem careful_run_sound {ts : List (Option Store × Op × Option Store)} {t : Option Store}
    (hrun : Run Step (some Store.empty) ts t) (hcareful : ∀ x ∈ ts, Careful x.1 x.2.1) :
    (∃ s F, t = some s ∧ Sound s F) ∧ ∀ x ∈ ts, (∃ s F, x.1 = some s ∧ Sound s F) ∧
      ∃ s F, x.2.2 = some s ∧ Sound s F := by
  have hstep : ∀ (s : Option Store) i t, (∃ s' F, s = some s' ∧ Sound s' F) → Careful s i →
      Step s i t → ∃ t' F, t = some t' ∧ Sound t' F := by
    intro s i t hs hok hst
    exact (step_good hs hok hst).1
  exact Run.invariant_of hstep hrun ⟨_, _, rfl, sound_empty⟩ hcareful

/-- **Ownership in careful runs.**  From no wrappers at all, through any sequence of public operations
    that are all careful: in every state no root has two owners and what is owned is there, no step
    accesses or frees a node that was freed, and every assignment assigns the value. -/
theorem careful_runs_good {ts : List (Option Store × Op × Option Store)} {t : Option Store}
    (hrun : Run Step (some Store.empty) ts t) (hcareful : ∀ x ∈ ts, Careful x.1 x.2.1) :
    ∀ x ∈ ts, Good x := by
  intro x hx
  have hbefore := ((careful_run_sound hrun hcareful).2 x hx).1
  exact (step_good hbefore (hcareful x hx) (Run.step_of_mem hrun x hx)).2

/-- **For an assignment the condition is exact**: assigned a view into its own tree, a wrapper ends up
    with nodes that were freed, or reads them. -/
theorem assign_good_iff {s : Store} {F : List (Node Nat Item)} (h : Sound s F) {op : Op} {i j : Nat}
    (hop : op.Assigns i j) {y : Option Store} (hstep : Step (some s) op y) :
    Good (some s, op, y) ↔ isCareful s op = true := by
  constructor
  · rintro ⟨s', t, heq, rfl, -, -, hvalue⟩
    obtain rfl := Option.some_inj.mp heq
    obtain ⟨s', heq, henabled, N, hperform⟩ := hstep
    obtain rfl := Option.some_inj.mp heq
    by_contra hcareless
    have hcases : i ≠ j ∧ s.ownTreeHas i j = true := by
      rcases hop with rfl | rfl
      · simpa [isCareful] using hcareless
      · simpa [isCareful] using hcareless
    obtain ⟨hij, hown⟩ := hcases
    have hwrappers : (s.wrappers i).isSome = true ∧ s.Usable j := by
      rcases hop with rfl | rfl
      · exact henabled
      · exact henabled
    obtain ⟨hi, hj⟩ := hwrappers
    obtain ⟨rhs, hrhs, -⟩ := id hj
    have hj' : (s.wrappers j).isSome = true := by rw [hrhs]; rfl
    rcases hop with rfl | rfl
    · have hsome := hperform (N + s.brk) (Nat.le_add_right _ _)
      rw [perform, copyAssign_own_view h hij hi hj' hown (Nat.le_add_left _ _)] at hsome
      cases hsome
    · obtain ⟨t', F', -, hnone, N', hmove⟩ := moveAssign_own_view h hij hi hj' hown
      have htt : some t' = some t := by
        rw [← hmove (N + N') (Nat.le_add_left _ _), ← hperform (N + N') (Nat.le_add_right _ _)]
        rfl
      obtain rfl := Option.some_inj.mp htt
      -- the view had a value
      obtain ⟨-, -, rhs, b, -, -, hrhs, -, hb, -⟩ := own_view_freed h hij hi hj' hown
      obtain ⟨n, p, q, hn, hnb⟩ := h.usable hj hrhs b hb
      have hlost := (hvalue i j (Or.inr rfl)).symm.trans hnone
      rw [value_eq hrhs, hb, Option.bind_some, ← hnb, h.tree_eq hn] at hlost
      cases hlost
  · intro hcareful
    exact (step_good ⟨s, F, rfl, h⟩ ⟨s, rfl, hcareful⟩ hstep).2

/-- **Where the books go wrong**: an empty wrapper merges a view, and owns what the tree's owner has. -/
theorem merge_of_view_bad {s : Store} {i j k a b : Nat} {w profile : JsonWrapper Nat}
    {n : Node Nat Item} (hw : s.wrappers i = some w) (hempty : w.m_root = none)
    (hprofile : s.wrappers j = some profile) (hb : profile.m_root = some b) (hk : s.Owns k a)
    (hn : s.tree a = some n) (hmem : b ∈ n.addrs) (hik : i ≠ k) (hjk : j ≠ k) {y : Option Store}
    (hstep : Step (some s) (.merge i j) y) : ¬Good (some s, .merge i j, y) := by
  rintro ⟨-, t, -, rfl, -, hunique, -⟩
  obtain ⟨s', heq, -, N, hperform⟩ := hstep
  obtain rfl := Option.some_inj.mp heq
  have ht := merge_into_empty hw hempty hprofile hb N
  have ht' : s.merge N i j = some t := hperform N (Nat.le_refl N)
  obtain rfl := Option.some_inj.mp (ht.symm.trans ht')
  have hi' : ((s.set j ⟨some b, false⟩).set i ⟨some b, true⟩).Owns i b := by
    show Function.update _ i _ i = _
    rw [Function.update_self]
  have hk' : ((s.set j ⟨some b, false⟩).set i ⟨some b, true⟩).Owns k a := by
    show Function.update (Function.update s.wrappers j _) i _ k = _
    rw [Function.update_of_ne (Ne.symm hik), Function.update_of_ne (Ne.symm hjk)]
    exact hk
  exact hik (hunique k i a b n hk' hi' hn hmem).symm

/-! ### Three runs -/

/-- An operation that computes the same with any bound is a step. -/
theorem step_of_eq {s t : Store} {op : Op} (henabled : Enabled s op)
    (heq : ∀ fuel, perform fuel s op = some t) : Step (some s) op (some t) :=
  ⟨s, rfl, henabled, 0, fun fuel _ => heq fuel⟩

/-- Clearing an empty wrapper frees nothing. -/
theorem clear_of_empty {s : Store} {i : Nat} {owner : Bool} (hi : s.wrappers i = some ⟨none, owner⟩)
    (fuel : Nat) : s.clear fuel i = some (s.set i ⟨none, true⟩) := by
  rw [Store.clear, hi, Option.bind_eq_bind, Option.bind_some, JsonWrapper.parseNull_none rfl]
  rfl

/-- Wrapper 0 has read a text. -/
def sampleRead (v : Value) : Store :=
  (((Store.empty.set 0 ⟨none, true⟩).set 0 ⟨none, true⟩).alloc v).set 0 ⟨some 0, true⟩

/-- Wrapper 1 is a view of the member. -/
def sampleView (v : Value) : Store := (sampleRead v).set 1 ⟨some 1, false⟩

/-- Wrapper 2 is empty. -/
def sampleMade (v : Value) : Store := (sampleView v).set 2 ⟨none, true⟩

def sampleTrace (v : Value) : List (Option Store × Op × Option Store) :=
  [(some Store.empty, .fromText 0 (some v), some (sampleRead v)),
    (some (sampleRead v), .view 1 0 .getChild, some (sampleView v)),
    (some (sampleView v), .make 2, some (sampleMade v))]

theorem sample_run {v : Value} (hlive : ((sampleRead v).heap 1).isSome = true)
    (hview : ∀ fuel, (sampleRead v).view fuel 1 0 .getChild = some (sampleView v)) :
    Run Step (some Store.empty) (sampleTrace v) (some (sampleMade v)) ∧
      (∀ x ∈ sampleTrace v, Careful x.1 x.2.1) ∧ (sampleMade v).Usable 1 := by
  -- parse, look at the child, make another wrapper
  have hread : Step (some Store.empty) (.fromText 0 (some v)) (some (sampleRead v)) := by
    refine step_of_eq rfl fun fuel => ?_
    rw [perform, Store.parse, clear_of_empty rfl]
    rfl
  have hchild : Step (some (sampleRead v)) (.view 1 0 .getChild) (some (sampleView v)) :=
    step_of_eq ⟨rfl, ⟨_, rfl, nofun⟩, nofun⟩ hview
  have hmake : Step (some (sampleView v)) (.make 2) (some (sampleMade v)) :=
    step_of_eq rfl fun _ => rfl
  refine ⟨Run.cons hread (Run.cons hchild (Run.single hmake)), ?_, _, rfl, ?_⟩
  · intro x hx
    simp only [sampleTrace, List.mem_cons, List.not_mem_nil, or_false] at hx
    rcases hx with rfl | rfl | rfl
    · exact ⟨_, rfl, rfl⟩
    · exact ⟨_, rfl, rfl⟩
    · exact ⟨_, rfl, rfl⟩
  · intro _ a ha
    cases ha
    exact hlive

/-- `{"a":{}}` -/
def sampleText : Value :=
  .mk () ⟨.Object, none, 0, 0, none⟩ [.mk () ⟨.Object, none, 0, 0, some [97]⟩ []]

/-- `{"x":{"x":5,"y":6}}` -/
def sampleNested : Value :=
  .mk () ⟨.Object, none, 0, 0, none⟩ [.mk () ⟨.Object, none, 0, 0, some [120]⟩
    [.mk () ⟨.Number, none, 5, 5, some [120]⟩ [], .mk () ⟨.Number, none, 6, 6, some [121]⟩ []]]

/-- The view moves to another wrapper, with its value. -/
theorem careful_runs_good_sample :
    ∃ t, Good (some (sampleMade sampleText), .moveAssign 2 1, some t) ∧
      (t.value 2).isSome = true := by
  obtain ⟨hrun, hcareful, hview⟩ := @sample_run sampleText rfl fun _ => rfl
  let t := (((sampleMade sampleText).set 2 ⟨none, true⟩).set 1 ⟨none, false⟩).set 2 ⟨some 1, false⟩
  have hmove : Step (some (sampleMade sampleText)) (.moveAssign 2 1) (some t) := by
    refine step_of_eq ⟨rfl, hview⟩ fun fuel => ?_
    rw [perform, Store.moveAssign, if_neg (by decide), clear_of_empty rfl]
    rfl
  have hall : ∀ x ∈ sampleTrace sampleText ++
      [(some (sampleMade sampleText), Op.moveAssign 2 1, some t)], Careful x.1 x.2.1 := by
    intro x hx
    rcases List.mem_append.mp hx with hx | hx
    · exact hcareful x hx
    · rw [List.mem_singleton.mp hx]
      exact ⟨_, rfl, rfl⟩
  have hlast := List.mem_append_right (sampleTrace sampleText)
    (List.mem_singleton.mpr (rfl : (some (sampleMade sampleText), Op.moveAssign 2 1, some t) = _))
  exact ⟨t, careful_runs_good (hrun.snoc hmove) hall _ hlast, rfl⟩

/-- A view is merged into an empty wrapper, which then owns a node of another's tree; it is assigned
    to the owner of its tree, which frees it first; or it is merged into the tree that it is part of,
    where the merge frees it and goes on. -/
theorem careless_runs_bad :
    (∃ ts t, Run Step (some Store.empty) ts t ∧ ∃ x ∈ ts, x.2.1 = .merge 2 1 ∧ ¬Good x) ∧
      (∃ ts t, Run Step (some Store.empty) ts t ∧ ∃ x ∈ ts, x.2.1 = .moveAssign 0 1 ∧ ¬Good x) ∧
      ∃ ts t, Run Step (some Store.empty) ts t ∧ ∃ x ∈ ts, x.2.1 = .merge 0 1 ∧ ¬Good x := by
  obtain ⟨hrun, hcareful, hview⟩ := @sample_run sampleText rfl fun _ => rfl
  refine ⟨?_, ?_, ?_⟩
  · have hmerge : Step (some (sampleMade sampleText)) (.merge 2 1)
        (some (((sampleMade sampleText).set 1 ⟨some 1, false⟩).set 2 ⟨some 1, true⟩)) := by
      refine step_of_eq ⟨⟨_, rfl, nofun⟩, hview⟩ fun fuel => ?_
      exact merge_into_empty rfl rfl rfl rfl fuel
    refine ⟨_, _, hrun.snoc hmerge, _, List.mem_append_right _ (List.mem_singleton.mpr rfl), rfl, ?_⟩
    have howns : (sampleMade sampleText).Owns 0 0 := rfl
    have htree : (sampleMade sampleText).tree 0 = some (sampleText.label 0) := rfl
    exact merge_of_view_bad rfl rfl rfl rfl howns htree (by decide) (by decide) (by decide) hmerge
  · obtain ⟨s, F, heq, hs⟩ := (careful_run_sound hrun hcareful).1
    obtain rfl := Option.some_inj.mp heq
    obtain ⟨t, -, -, -, N, hmove⟩ := moveAssign_own_view (i := 0) (j := 1) hs (by decide) rfl rfl rfl
    have hstep : Step (some (sampleMade sampleText)) (.moveAssign 0 1) (some t) :=
      ⟨_, rfl, ⟨rfl, hview⟩, N, hmove⟩
    refine ⟨_, _, hrun.snoc hstep, _, List.mem_append_right _ (List.mem_singleton.mpr rfl), rfl, ?_⟩
    intro hgood
    have hcareful := (assign_good_iff hs (Or.inr rfl) hstep).mp hgood
    cases hcareful
  · obtain ⟨hrun, -, hview⟩ := @sample_run sampleNested rfl fun _ => rfl
    -- the number takes the place of its own parent, which is freed with the member after it
    have hmerge : Step (some (sampleMade sampleNested)) (.merge 0 1) none := by
      refine ⟨_, rfl, ⟨⟨_, rfl, nofun⟩, hview⟩, 12, fun fuel hfuel => ?_⟩
      obtain ⟨k, rfl⟩ := Nat.exists_eq_add_of_le' hfuel
      rfl
    refine ⟨_, _, hrun.snoc hmerge, _, List.mem_append_right _ (List.mem_singleton.mpr rfl), rfl, ?_⟩
    rintro ⟨-, t, -, hnone, -⟩
    cases hnone

end Ownership

end Turnserver
