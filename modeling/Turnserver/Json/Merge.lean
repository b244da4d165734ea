/-
  MERGING (`new_elbs/json_wrapper.cc`, 771–870) — `JsonWrapper::doMerge`, `merge` and `reverse_merge`.

  `doMerge` walks the items of `root2` with a cursor and takes them out by position, `which`, that
  only advances when an item stays; it looks them up in a `root1` that it is changing.

  * `doMerge` and `mergeLoop` are the code, on the heap.
  * `mergeItems` is what they do to the two lists of children, item by item.  Besides the lists it
    names what moved and what was freed.
  * `doMergeCopy` is the copying version that the source keeps under `#if 0`, on values.

  `mergeLoop_spec` ties the code to `mergeItems`: the cursor is the head of the items not yet seen and
  `which` the number of those that stayed.  `eraseAll_mergeItems` ties `mergeItems` to the copying
  version, and `mergeItems_perm` accounts for every address.
-/
import Turnserver.Json.CJSON
import Mathlib.Data.List.Count

namespace Turnserver

open LinkedTree Node

/-! ## The code -/

section Code

variable {α : Type} [DecidableEq α]

mutual

/-- `JsonWrapper::doMerge`: the heap, and the items of `root2` that were merged recursively. -/
def doMerge : Nat → Heap α Item → Option α → Option α → Option (Heap α Item × List α)
  | 0, _, _, _ => none
  | fuel + 1, h, some root1, some root2 => do
    let r1 ← h root1
    let r2 ← h root2
    if r1.item.type ≠ r2.item.type then some (h, [])
    else mergeLoop fuel h root1 root2 r2.child 0
  | _ + 1, h, _, _ => some (h, [])

/-- `while (item2)` -/
def mergeLoop : Nat → Heap α Item → α → α → Option α → Nat → Option (Heap α Item × List α)
  | _, h, _, _, none, _ => some (h, [])
  | 0, _, _, _, some _, _ => none
  | fuel + 1, h, root1, root2, some item2, which => do
    let cell2 ← h item2
    match cell2.item.string with
    | none =>
      -- node w/o a name, array item
      let (item, h) ← detachItemFromArray h root2 which
      let h ← addItemToArray fuel h root1 item
      mergeLoop fuel h root1 root2 cell2.next which
    | some name =>
      match ← getObjectItem fuel h root1 name with
      | none =>
        -- the node does not exist, append
        let (item, h) ← detachItemFromArray h root2 which
        let h ← addItemToArray fuel h root1 item
        mergeLoop fuel h root1 root2 cell2.next which
      | some item1 =>
        let cell1 ← h item1
        if cell1.child.isSome ∧ cell2.child.isSome ∧ cell1.item.type = cell2.item.type then
          -- the node exists with the same type and both have children
          let (h, merged) ← doMerge fuel h (some item1) (some item2)
          let cell2 ← h item2
          let (h, rest) ← mergeLoop fuel h root1 root2 cell2.next (which + 1)
          some (h, item2 :: merged ++ rest)
        else
          -- the type is not the same, or either does not have children
          let (item, h) ← detachItemFromArray h root2 which
          let h ← replaceItemInObject fuel h root1 name item
          mergeLoop fuel h root1 root2 cell2.next which

end

end Code

/-! ## What a merge does to the lists of children -/

/-- The children of both roots afterwards, the items that moved, and those that were freed. -/
structure Merged (α : Type) where
  child1 : List (Node α Item)
  child2 : List (Node α Item)
  moved : List (Node α Item)
  freed : List (Node α Item)

variable {α : Type}

/-- Both have children, and the same type. -/
def mergeable (item1 item2 : Node α Item) : Prop :=
  item1.child ≠ [] ∧ item2.child ≠ [] ∧ item1.item.type = item2.item.type

instance (item1 item2 : Node α Item) : Decidable (mergeable item1 item2) :=
  decidable_of_iff (item1.child.isEmpty = false ∧ item2.child.isEmpty = false ∧
      item1.item.type = item2.item.type) (by
    rw [mergeable, List.isEmpty_eq_false_iff, List.isEmpty_eq_false_iff])

mutual

/-- The items of `item2` are merged into a list of children. -/
def mergeBelow (child1 : List (Node α Item)) : Node α Item → Merged α
  | .mk _ _ c => mergeItems child1 c

/-- The merge as a recursion over the children of the second tree. -/
def mergeItems (child1 : List (Node α Item)) : List (Node α Item) → Merged α
  | [] => ⟨child1, [], [], []⟩
  | n :: ns =>
    match n.item.string.bind (lookup · child1) with
    | none =>
      let r := mergeItems (child1 ++ [n]) ns
      ⟨r.child1, r.child2, n :: r.moved, r.freed⟩
    | some (before, m, after) =>
      if mergeable m n then
        let s := mergeBelow m.child n
        let r := mergeItems (before ++ m.withChild s.child1 :: after) ns
        ⟨r.child1, n.withChild s.child2 :: r.child2, s.moved ++ r.moved, s.freed ++ r.freed⟩
      else
        let r := mergeItems (before ++ n :: after) ns
        ⟨r.child1, r.child2, n :: r.moved, m :: r.freed⟩

end

/-! ## The copying version -/

mutual

/-- `cJSON_Duplicate(item, 1)` -/
def duplicate : Node α Item → Value
  | .mk _ i c => .mk () ⟨i.type, i.valuestring, i.valueint, i.valuedouble, i.string⟩ (duplicateAll c)

/-- Duplicates of all trees of a list. -/
def duplicateAll : List (Node α Item) → List Value
  | [] => []
  | n :: ns => duplicate n :: duplicateAll ns

end

mutual

/-- The copying `doMerge` of two items that it merges recursively: the children of the first. -/
def copyBelow (child1 : List Value) : Value → List Value
  | .mk _ _ c => copyItems child1 c

/-- The loop of the copying `doMerge`: the children of `root1` afterwards. -/
def copyItems (child1 : List Value) : List Value → List Value
  | [] => child1
  | item2 :: ns =>
    match item2.item.string with
    | none => copyItems (child1 ++ [duplicate item2]) ns
    | some name =>
      match lookup name child1 with
      | none =>
        copyItems (child1 ++ [(duplicate item2).withItem (item2.item.withString name)]) ns
      | some (before, item1, after) =>
        if mergeable item1 item2 then
          copyItems (before ++ item1.withChild (copyBelow item1.child item2) :: after) ns
        else
          copyItems
            (before ++ (duplicate item2).withItem (item2.item.withString name) :: after) ns

end

/-- The copying `doMerge`. -/
def doMergeCopy (root1 root2 : Value) : Value :=
  if root1.item.type ≠ root2.item.type then root1
  else root1.withChild (copyItems root1.child root2.child)

/-! ## The merge of the lists -/

/-- Below a node, the merge goes on with its children. -/
theorem mergeBelow_eq (cs : List (Node α Item)) (n : Node α Item) :
    mergeBelow cs n = mergeItems cs n.child := by
  cases n
  rw [mergeBelow]
  rfl

/-- Below a value, the copying merge goes on with its children. -/
theorem copyBelow_eq (cs : List Value) (n : Value) : copyBelow cs n = copyItems cs n.child := by
  cases n
  rw [copyBelow]
  rfl

/-- What is in the first list afterwards was there before or moved in, less what was freed. -/
theorem mergeItems_target (ns cs : List (Node α Item)) :
    (addrsAll (mergeItems cs ns).child1 ++ addrsAll (mergeItems cs ns).freed).Perm
      (addrsAll cs ++ addrsAll (mergeItems cs ns).moved) := by
  classical
  -- induction on the children of the second tree, with those below each one
  induction ns using list_induction generalizing cs with
  | nil => rw [mergeItems]
  | cons n ns ihc ih =>
    rw [mergeItems]
    cases hl : n.item.string.bind (lookup · cs) with
    | none =>
      -- the child is appended to the target: it counts as moved
      dsimp only
      have hrec := ih (cs ++ [n])
      simp only [List.perm_iff_count, List.count_append, addrsAll_append, addrsAll,
        List.count_nil] at hrec ⊢
      intro a
      have := hrec a
      omega
    | some r =>
      obtain ⟨before, m, after⟩ := r
      obtain ⟨name, -, hl⟩ := Option.bind_eq_some_iff.mp hl
      dsimp only
      rw [lookup_some hl]
      split
      -- the child is merged below its namesake, and stays in the source
      · rw [mergeBelow_eq]
        have hbelow := ihc m.child
        have hrec := ih (before ++ m.withChild (mergeItems m.child n.child).child1 :: after)
        simp only [List.perm_iff_count, List.count_append, addrsAll_append, addrs_withChild, addrsAll,
          addrs_eq m, List.count_cons] at hbelow hrec ⊢
        intro a
        have := hbelow a
        have := hrec a
        omega
      -- the namesake is freed, and the child takes its place
      · have hrec := ih (before ++ n :: after)
        simp only [List.perm_iff_count, List.count_append, addrsAll_append, addrsAll] at hrec ⊢
        intro a
        have := hrec a
        omega

/-- The items of the second list stay there or move. -/
theorem mergeItems_source (ns cs : List (Node α Item)) :
    (addrsAll (mergeItems cs ns).child2 ++ addrsAll (mergeItems cs ns).moved).Perm
      (addrsAll ns) := by
  classical
  induction ns using list_induction generalizing cs with
  | nil => rw [mergeItems]; rfl
  | cons n ns ihc ih =>
    rw [mergeItems]
    cases hl : n.item.string.bind (lookup · cs) with
    -- the child leaves the source
    | none =>
      dsimp only
      have hrec := ih (cs ++ [n])
      simp only [List.perm_iff_count, List.count_append, addrsAll] at hrec ⊢
      intro a
      have := hrec a
      omega
    | some r =>
      obtain ⟨before, m, after⟩ := r
      dsimp only
      split
      -- the child stays in the source, with what was left below it
      · rw [mergeBelow_eq]
        have hbelow := ihc m.child
        have hrec := ih (before ++ m.withChild (mergeItems m.child n.child).child1 :: after)
        simp only [List.perm_iff_count, List.count_append, addrsAll_append, addrs_withChild, addrsAll,
          addrs_eq n, List.count_cons] at hbelow hrec ⊢
        intro a
        have := hbelow a
        have := hrec a
        omega
      -- the child leaves the source, whatever happens to its namesake
      · have hrec := ih (before ++ n :: after)
        simp only [List.perm_iff_count, List.count_append, addrsAll] at hrec ⊢
        intro a
        have := hrec a
        omega

/-- **Every node is accounted for, once.** -/
theorem mergeItems_perm (ns cs : List (Node α Item)) :
    (addrsAll (mergeItems cs ns).child1 ++ addrsAll (mergeItems cs ns).freed ++
      addrsAll (mergeItems cs ns).child2).Perm (addrsAll cs ++ addrsAll ns) := by
  classical
  have htarget := mergeItems_target ns cs
  have hsource := mergeItems_source ns cs
  simp only [List.perm_iff_count, List.count_append] at htarget hsource ⊢
  intro a
  have := htarget a
  have := hsource a
  omega

/-- A merge makes no new nodes. -/
theorem sizeAll_child1_le (ns cs : List (Node α Item)) :
    sizeAll (mergeItems cs ns).child1 ≤ sizeAll cs + sizeAll ns := by
  have hlen := (mergeItems_perm ns cs).length_eq
  simp only [List.length_append, ← sizeAll_eq_length] at hlen
  omega

mutual

/-- A duplicate has the values of the node and none of its addresses. -/
theorem duplicate_eq : ∀ n : Node α Item, duplicate n = n.erase
  | .mk _ i c => by rw [duplicate, erase, duplicateAll_eq c]

/-- The duplicates of a list have the values of its nodes. -/
theorem duplicateAll_eq : ∀ ns : List (Node α Item), duplicateAll ns = eraseAll ns
  | [] => rfl
  | n :: ns => by rw [duplicateAll, eraseAll, duplicate_eq n, duplicateAll_eq ns]

end

/-- Whether two nodes are merged depends on their values only. -/
theorem mergeable_erase {m n : Node α Item} : mergeable m.erase n.erase ↔ mergeable m n := by
  have hnil : ∀ ns : List (Node α Item), eraseAll ns = [] ↔ ns = [] := by
    intro ns
    cases ns with
    | nil => exact Iff.intro (fun _ => rfl) (fun _ => rfl)
    | cons n ns => exact Iff.intro (fun h => by cases h) (fun h => by cases h)
  rw [mergeable, mergeable, erase_child, erase_child, erase_item, erase_item, ne_eq, hnil, ne_eq,
    hnil]

/-- The test of the code, on the cells of the two items. -/
theorem mergeable_iff {m n : Node α Item} :
    ((head m.child).isSome = true ∧ (head n.child).isSome = true ∧ m.item.type = n.item.type) ↔
      mergeable m n := by
  have hsome : ∀ ns : List (Node α Item), (head ns).isSome = true ↔ ns ≠ [] := by
    intro ns
    rw [Option.isSome_iff_ne_none, ne_eq, head_eq_none]
  rw [mergeable, hsome, hsome]

/-- An item that gets the name it has. -/
theorem withItem_withString {n : Node α Item} {name : CString} (hn : n.item.string = some name) :
    n.withItem (n.item.withString name) = n := by
  cases n with
  | mk a i c =>
    have hi : i.withString name = i := by
      obtain ⟨t, vs, vi, vd, s⟩ := i
      cases hn
      rfl
    exact congrArg (Node.mk a · c) hi

/-- **The merge is the copying merge.** -/
theorem eraseAll_mergeItems (ns cs : List (Node α Item)) :
    eraseAll (mergeItems cs ns).child1 = copyItems (eraseAll cs) (eraseAll ns) := by
  induction ns using list_induction generalizing cs with
  | nil => rw [mergeItems, eraseAll, copyItems]
  | cons n ns ihc ih =>
    rw [mergeItems, eraseAll, copyItems, erase_item, duplicate_eq]
    cases hs : n.item.string with
    -- a child without a name is appended in both
    | none =>
      rw [Option.bind_none]
      dsimp only
      rw [ih, eraseAll_append, erase_erase]
      rfl
    | some name =>
      have hname : n.erase.withItem (n.item.withString name) = n.erase := by
        rw [← erase_item n] at hs ⊢
        exact withItem_withString hs
      dsimp only
      rw [Option.bind_some, lookup_eraseAll, erase_erase, hname]
      -- so is a child without a namesake
      cases hl : lookup name cs with
      | none =>
        rw [Option.map_none]
        dsimp only
        rw [ih, eraseAll_append]
        rfl
      | some r =>
        obtain ⟨before, m, after⟩ := r
        rw [Option.map_some]
        dsimp only
        -- both versions test the types alike
        by_cases hm : mergeable m n
        · rw [if_pos hm, if_pos (mergeable_erase.mpr hm), ih, eraseAll_append, eraseAll,
            erase_withChild, mergeBelow_eq, ihc, copyBelow_eq, erase_child, erase_child]
        · rw [if_neg hm, if_neg fun h => hm (mergeable_erase.mp h), ih, eraseAll_append, eraseAll]

/-! ## The code does what the merge of the lists does -/

section Simulation

variable [DecidableEq α] {h : Heap α Item} {p1 q1 p2 q2 : Option α}

/-- An item leaves `root2` and becomes the last child of `root1`. -/
theorem detach_addItem {root1 root2 n : Node α Item} {kept ns : List (Node α Item)}
    (hr1 : root1.Holds h p1 q1) (hr2 : (root2.withChild (kept ++ n :: ns)).Holds h p2 q2)
    (hn : (root1.addrs ++ (root2.withChild (kept ++ n :: ns)).addrs).Nodup) {fuel : Nat}
    (hf : root1.child.length ≤ fuel) :
    ∃ h₁ h₂, detachItemFromArray h root2.addr kept.length = some (some n.addr, h₁) ∧
      addItemToArray fuel h₁ root1.addr (some n.addr) = some h₂ ∧
      (root1.withChild (root1.child ++ [n])).Holds h₂ p1 q1 ∧
      (root2.withChild (kept ++ ns)).Holds h₂ p2 q2 ∧
      ∀ a, a ∉ root1.addrs → a ∉ (root2.withChild (kept ++ n :: ns)).addrs → h₂ a = h a := by
  -- first the item leaves the second tree, then it is appended to the first one
  obtain ⟨hn1, hn2, hdisj⟩ := List.nodup_append'.mp hn
  obtain ⟨h₁, heq₁, hroot2₁, hitem₁, hframe₁⟩ := detachItemFromArray_spec hr2 hn2
  have hsub : ∀ a ∈ n.addrs, a ∈ (root2.withChild (kept ++ n :: ns)).addrs := by
    intro a ha
    rw [addrs_withChild, addrsAll_append, addrsAll]
    simp only [List.mem_cons, List.mem_append]
    exact Or.inr (Or.inr (Or.inl ha))
  have hnn : n.addrs.Nodup := by
    rw [addrs_withChild, addrsAll_append, addrsAll] at hn2
    simp only [List.nodup_cons, List.nodup_append'] at hn2
    exact hn2.2.2.1.1
  -- detaching writes the second tree only
  have hroot1₁ : root1.Holds h₁ p1 q1 := hr1.frame fun a ha => hframe₁ a (hdisj ha)
  obtain ⟨h₂, heq₂, hroot1₂, hframe₂⟩ := addItemToArray_spec hroot1₁ hitem₁
    (List.nodup_append'.mpr ⟨hn1, hnn, fun a ha hb => hdisj ha (hsub a hb)⟩) hf
  refine ⟨h₁, h₂, heq₁, heq₂, hroot1₂, hroot2₁.frame fun a ha => hframe₂ a ?_ ?_, ?_⟩
  -- the new first tree shares nothing with what is left of the second one
  · intro h1
    refine hdisj h1 ?_
    rw [addrs_withChild, addrsAll_append] at ha
    rw [addrs_withChild, addrsAll_append, addrsAll]
    simp only [List.mem_cons, List.mem_append] at ha ⊢
    tauto
  · intro hitem
    rw [addrs_withChild, addrsAll_append] at ha
    rw [addrs_withChild, addrsAll_append, addrsAll] at hn2
    simp only [List.nodup_cons, List.nodup_append', List.mem_append, not_or,
      List.disjoint_append_right] at hn2
    simp only [List.mem_cons, List.mem_append] at ha
    -- nor is a node of the detached item left in the second tree
    rcases ha with rfl | ha | ha
    · exact hn2.1.2.1 hitem
    · exact hn2.2.2.2.1 ha hitem
    · exact hn2.2.2.1.2.2 hitem ha
  · intro a h1 h2
    rw [hframe₂ a h1 fun hitem => h2 (hsub a hitem), hframe₁ a h2]

/-- What the loop makes of two trees: the heap holds the merged lists, what was freed is gone, and
    nothing else changed. -/
structure Merges (h h' : Heap α Item) (root1 root2 : Node α Item) (kept ns : List (Node α Item))
    (p1 q1 p2 q2 : Option α) : Prop where
  holds1 : (root1.withChild (mergeItems root1.child ns).child1).Holds h' p1 q1
  holds2 : (root2.withChild (kept ++ (mergeItems root1.child ns).child2)).Holds h' p2 q2
  freed : ∀ a ∈ addrsAll (mergeItems root1.child ns).freed, h' a = none
  frame : ∀ a, a ∉ root1.addrs ++ (root2.withChild (kept ++ ns)).addrs → h' a = h a

omit [DecidableEq α] in
/-- The nodes of both trees afterwards, and what was freed, are the nodes of both trees before. -/
theorem withChild_mergeItems_perm (root1 root2 : Node α Item) (kept ns : List (Node α Item)) :
    ((root1.withChild (mergeItems root1.child ns).child1).addrs ++
      addrsAll (mergeItems root1.child ns).freed ++
      (root2.withChild (kept ++ (mergeItems root1.child ns).child2)).addrs).Perm
      (root1.addrs ++ (root2.withChild (kept ++ ns)).addrs) := by
  classical
  have hacc := mergeItems_perm ns root1.child
  simp only [List.perm_iff_count, addrs_withChild, addrs_eq root1, addrsAll_append,
    List.count_append, List.count_cons] at hacc ⊢
  intro a
  have := hacc a
  omega

/-- There is only one such heap. -/
theorem Merges.unique {h₁ h₂ : Heap α Item} {root1 root2 : Node α Item} {kept ns : List (Node α Item)}
    (hm₁ : Merges h h₁ root1 root2 kept ns p1 q1 p2 q2)
    (hm₂ : Merges h h₂ root1 root2 kept ns p1 q1 p2 q2) : h₁ = h₂ := by
  funext a
  by_cases ha : a ∈ root1.addrs ++ (root2.withChild (kept ++ ns)).addrs
  · have hperm := withChild_mergeItems_perm root1 root2 kept ns
    rw [← hperm.mem_iff, List.mem_append, List.mem_append] at ha
    rcases ha with (ha | ha) | ha
    · exact hm₁.holds1.agree hm₂.holds1 a ha
    · rw [hm₁.freed a ha, hm₂.freed a ha]
    · exact hm₁.holds2.agree hm₂.holds2 a ha
  · rw [hm₁.frame a ha, hm₂.frame a ha]

/-- The loop with this much fuel, on trees of at most `T` nodes: `kept` are the items that stayed, and
    `ns` those that the cursor has not seen. -/
def LoopSpec (T fuel : Nat) : Prop :=
  ∀ {h : Heap α Item} {root1 root2 : Node α Item} {kept ns : List (Node α Item)}
    {p1 q1 p2 q2 : Option α},
    root1.Holds h p1 q1 → (root2.withChild (kept ++ ns)).Holds h p2 q2 →
    (root1.addrs ++ (root2.withChild (kept ++ ns)).addrs).Nodup →
    root1.size + sizeAll ns ≤ T → 2 * sizeAll ns + T ≤ fuel →
    ∃ h', mergeLoop fuel h root1.addr root2.addr (head ns) kept.length =
        some (h', addrsAll (mergeItems root1.child ns).child2) ∧
      Merges h h' root1 root2 kept ns p1 q1 p2 q2

/-- `doMerge` is the loop over all children of the second tree. -/
theorem doMerge_of_loop {T fuel : Nat} (ih : LoopSpec (α := α) T fuel) {root1 root2 : Node α Item}
    (hr1 : root1.Holds h p1 q1) (hr2 : root2.Holds h p2 q2)
    (hn : (root1.addrs ++ root2.addrs).Nodup) (ht : root1.item.type = root2.item.type)
    (hT : root1.size + sizeAll root2.child ≤ T) (hf : 2 * sizeAll root2.child + T ≤ fuel) :
    ∃ h', doMerge (fuel + 1) h (some root1.addr) (some root2.addr) =
        some (h', addrsAll (mergeItems root1.child root2.child).child2) ∧
      Merges h h' root1 root2 [] root2.child p1 q1 p2 q2 := by
  have hself : root2.withChild ([] ++ root2.child) = root2 := by
    rw [List.nil_append, withChild_child]
  have hcell1 := (holds_iff.mp hr1).1
  have hcell2 := (holds_iff.mp hr2).1
  obtain ⟨h', hloop, hm⟩ := @ih _ _ _ [] _ _ _ _ _ hr1 (hself.symm ▸ hr2) (by rwa [hself]) hT hf
  refine ⟨h', ?_, hm⟩
  rw [doMerge, hcell1, Option.bind_eq_bind, Option.bind_some, hcell2, Option.bind_some,
    if_neg (not_not.mpr ht)]
  exact hloop

omit [DecidableEq α] in

/-- A child without a namesake is moved to the end. -/
theorem mergeItems_append {cs ns : List (Node α Item)} {n : Node α Item}
    (hl : n.item.string.bind (lookup · cs) = none) :
    mergeItems cs (n :: ns) = { mergeItems (cs ++ [n]) ns with
      moved := n :: (mergeItems (cs ++ [n]) ns).moved } := by
  rw [mergeItems, hl]

/-- The item is not there: it is appended. -/
theorem mergeLoop_append {T fuel : Nat} (ih : LoopSpec (α := α) T fuel) {root1 root2 n : Node α Item}
    {kept ns : List (Node α Item)} (hl : n.item.string.bind (lookup · root1.child) = none)
    (hr1 : root1.Holds h p1 q1) (hr2 : (root2.withChild (kept ++ n :: ns)).Holds h p2 q2)
    (hn : (root1.addrs ++ (root2.withChild (kept ++ n :: ns)).addrs).Nodup)
    (hT : root1.size + sizeAll (n :: ns) ≤ T) (hf : 2 * sizeAll ns + T ≤ fuel) :
    ∃ h', mergeLoop (fuel + 1) h root1.addr root2.addr (some n.addr) kept.length =
        some (h', addrsAll (mergeItems root1.child (n :: ns)).child2) ∧
      Merges h h' root1 root2 kept (n :: ns) p1 q1 p2 q2 := by
  -- the loop reads the child and its name
  have hcell := (holds_iff.mp hr2.get_child).1
  have hlen : root1.child.length ≤ fuel := by
    have := length_le_sizeAll root1.child
    rw [size_eq] at hT
    omega
  obtain ⟨h₁, h₂, hdetach, hadd, hroot1, hroot2, hframe⟩ := detach_addItem hr1 hr2 hn hlen
  -- moving a child does not change the nodes of the two trees together
  have hperm : ((root1.withChild (root1.child ++ [n])).addrs ++ (root2.withChild (kept ++ ns)).addrs).Perm
      (root1.addrs ++ (root2.withChild (kept ++ n :: ns)).addrs) := by
    simp only [List.perm_iff_count, addrs_withChild, addrs_eq root1, addrsAll_append, addrsAll,
      List.count_append, List.count_cons, List.count_nil]
    intro a
    omega
  have hsize : (root1.withChild (root1.child ++ [n])).size + sizeAll ns ≤ T := by
    rw [size_eq, sizeAll] at hT
    rw [size_eq, child_withChild, sizeAll_append, sizeAll, sizeAll]
    omega
  -- the loop goes on with the child at the end of the first tree
  obtain ⟨h', hloop, hm⟩ := ih hroot1 hroot2 (hperm.nodup_iff.mpr hn) hsize hf
  rw [addr_withChild, child_withChild] at hloop
  obtain ⟨hholds1, hholds2, hfreed, hframe'⟩ := hm
  rw [child_withChild] at hfreed hholds1 hholds2
  rw [withChild_withChild] at hholds1
  refine ⟨h', ?_, ?_⟩
  -- no child of the first tree has the name
  · have hget : ∀ name, n.item.string = some name →
        getObjectItem fuel h root1.addr name = some none := by
      intro name hname
      rw [hname, Option.bind_some] at hl
      rw [getObjectItem_spec hr1 hlen, hl, Option.map_none]
    rw [mergeItems_append hl, mergeLoop, hcell, Option.bind_eq_bind, Option.bind_some]
    dsimp only
    cases hs : n.item.string with
    | none => simp only [hdetach, hadd, Option.bind_eq_bind, Option.bind_some, hloop]
    | some name =>
      -- a child without a name is moved without a lookup
      simp only [hget name hs, hdetach, hadd, Option.bind_eq_bind, Option.bind_some, hloop]
  · refine ⟨?_, ?_, ?_, fun a ha => ?_⟩
    · rw [mergeItems_append hl]
      exact hholds1
    · rw [mergeItems_append hl]
      exact hholds2
    · rw [mergeItems_append hl]
      exact hfreed
    · rw [hframe' a (hperm.mem_iff.not.mpr ha)]
      rw [List.mem_append, not_or] at ha
      exact hframe a ha.1 ha.2

omit [DecidableEq α] in

/-- A child that cannot be merged replaces its namesake. -/
theorem mergeItems_replace {cs ns before after : List (Node α Item)} {n m : Node α Item}
    (hl : n.item.string.bind (lookup · cs) = some (before, m, after)) (hm : ¬mergeable m n) :
    mergeItems cs (n :: ns) = { mergeItems (before ++ n :: after) ns with
      moved := n :: (mergeItems (before ++ n :: after) ns).moved
      freed := m :: (mergeItems (before ++ n :: after) ns).freed } := by
  rw [mergeItems, hl]
  exact if_neg hm

omit [DecidableEq α] in

/-- A child that can be merged is merged with its namesake and freed. -/
theorem mergeItems_merge {cs ns before after : List (Node α Item)} {n m : Node α Item}
    (hl : n.item.string.bind (lookup · cs) = some (before, m, after)) (hm : mergeable m n) :
    mergeItems cs (n :: ns) =
      let s := mergeItems m.child n.child
      let r := mergeItems (before ++ m.withChild s.child1 :: after) ns
      ⟨r.child1, n.withChild s.child2 :: r.child2, s.moved ++ r.moved, s.freed ++ r.freed⟩ := by
  rw [mergeItems, hl, ← mergeBelow_eq]
  exact if_pos hm

/-- The item is there, and cannot be merged: it takes the place of the other. -/
theorem mergeLoop_replace {T fuel : Nat} (ih : LoopSpec (α := α) T fuel)
    {root1 root2 n m : Node α Item} {kept ns before after : List (Node α Item)}
    (hl : n.item.string.bind (lookup · root1.child) = some (before, m, after))
    (hmerge : ¬mergeable m n)
    (hr1 : root1.Holds h p1 q1) (hr2 : (root2.withChild (kept ++ n :: ns)).Holds h p2 q2)
    (hn : (root1.addrs ++ (root2.withChild (kept ++ n :: ns)).addrs).Nodup)
    (hT : root1.size + sizeAll (n :: ns) ≤ T) (hf : 2 * sizeAll ns + T ≤ fuel) :
    ∃ h', mergeLoop (fuel + 1) h root1.addr root2.addr (some n.addr) kept.length =
        some (h', addrsAll (mergeItems root1.child (n :: ns)).child2) ∧
      Merges h h' root1 root2 kept (n :: ns) p1 q1 p2 q2 := by
  obtain ⟨name, hname, hlook⟩ := Option.bind_eq_some_iff.mp hl
  have hchild := lookup_some hlook
  have hroot1_eq : root1.withChild (before ++ m :: after) = root1 := by
    rw [← hchild, withChild_child]
  have hcell2 := (holds_iff.mp hr2.get_child).1
  have hcell1 := (holds_iff.mp (Node.Holds.get_child (hroot1_eq.symm ▸ hr1))).1
  have hlen : root1.child.length ≤ fuel := by
    have := length_le_sizeAll root1.child
    rw [size_eq] at hT
    omega
  obtain ⟨hn1, hn2, hdisj⟩ := List.nodup_append'.mp hn
  -- `cJSON_DetachItemFromArray(root2, which)`
  obtain ⟨h₁, hdetach, hroot2₁, hitem₁, hframe₁⟩ := detachItemFromArray_spec hr2 hn2
  have hroot1₁ : root1.Holds h₁ p1 q1 := hr1.frame fun a ha => hframe₁ a (hdisj ha)
  have hperm : (root1.addrs ++ n.addrs ++ (root2.withChild (kept ++ ns)).addrs).Perm
      (root1.addrs ++ (root2.withChild (kept ++ n :: ns)).addrs) := by
    simp only [List.perm_iff_count, addrs_withChild, addrsAll_append, addrsAll, List.count_append,
      List.count_cons]
    intro a
    omega
  obtain ⟨hn1n, hn2', hdisj'⟩ := List.nodup_append'.mp (hperm.nodup_iff.mpr hn)
  -- `cJSON_ReplaceItemInObject(root1, name, item2)`
  obtain ⟨h₂, hreplace, hroot1₂, hgone, hframe₂⟩ := replaceItemInObject_spec hlook hroot1₁ hitem₁
    hn1n (Nat.le_trans (Nat.le_add_right _ _) (Nat.le_trans hT (by omega : T ≤ fuel)))
  rw [withItem_withString hname] at hroot1₂
  have hroot2₂ : (root2.withChild (kept ++ ns)).Holds h₂ p2 q2 := by
    refine hroot2₁.frame fun a ha => hframe₂ a ?_ ?_
    · exact fun h1 => hdisj' (List.mem_append_left _ h1) ha
    · exact fun hitem => hdisj' (List.mem_append_right _ hitem) ha
  have hperm₂ : (m.addrs ++ ((root1.withChild (before ++ n :: after)).addrs ++
      (root2.withChild (kept ++ ns)).addrs)).Perm
      (root1.addrs ++ (root2.withChild (kept ++ n :: ns)).addrs) := by
    simp only [List.perm_iff_count, addrs_withChild, addrs_eq root1, hchild, addrsAll_append,
      addrsAll, List.count_append, List.count_cons]
    intro a
    omega
  obtain ⟨-, hn₂, hdisj₂⟩ := List.nodup_append'.mp (hperm₂.nodup_iff.mpr hn)
  have hsize : (root1.withChild (before ++ n :: after)).size + sizeAll ns ≤ T := by
    rw [size_eq, hchild, sizeAll_append, sizeAll, sizeAll] at hT
    rw [size_eq, child_withChild, sizeAll_append, sizeAll]
    omega
  obtain ⟨h', hloop, hholds1, hholds2, hfreed, hframe⟩ := ih hroot1₂ hroot2₂ hn₂ hsize hf
  rw [addr_withChild, child_withChild] at hloop
  rw [child_withChild] at hfreed hholds1 hholds2
  rw [withChild_withChild] at hholds1
  refine ⟨h', ?_, ?_, ?_, ?_, fun a ha => ?_⟩
  · have hnot := fun hcond => hmerge (mergeable_iff.mp hcond)
    rw [mergeItems_replace hl hmerge, mergeLoop, hcell2, Option.bind_eq_bind, Option.bind_some]
    simp only [hname, getObjectItem_spec hr1 hlen, hlook, Option.map_some, Option.bind_eq_bind,
      Option.bind_some, hcell1, if_neg hnot, hdetach, hreplace, hloop]
  · rw [mergeItems_replace hl hmerge]
    exact hholds1
  · rw [mergeItems_replace hl hmerge]
    exact hholds2
  · rw [mergeItems_replace hl hmerge]
    intro a ha
    rw [addrsAll] at ha
    rcases List.mem_append.mp ha with ha | ha
    · rw [hframe a (hdisj₂ ha), hgone a ha]
    · exact hfreed a ha
  · have hnot := hperm₂.mem_iff.not.mpr ha
    rw [List.mem_append, not_or] at hnot
    rw [hframe a hnot.2]
    have hnot' := hperm.mem_iff.not.mpr ha
    rw [List.mem_append, List.mem_append, not_or, not_or] at hnot'
    rw [hframe₂ a hnot'.1.1 hnot'.1.2]
    rw [List.mem_append, not_or] at ha
    exact hframe₁ a ha.2

/-- The item is there, and is merged recursively: both stay, with other children. -/
theorem mergeLoop_merge {T fuel : Nat} (ih : ∀ f < fuel + 1, LoopSpec (α := α) T f)
    {root1 root2 n m : Node α Item} {kept ns before after : List (Node α Item)}
    (hl : n.item.string.bind (lookup · root1.child) = some (before, m, after))
    (hmerge : mergeable m n)
    (hr1 : root1.Holds h p1 q1) (hr2 : (root2.withChild (kept ++ n :: ns)).Holds h p2 q2)
    (hn : (root1.addrs ++ (root2.withChild (kept ++ n :: ns)).addrs).Nodup)
    (hT : root1.size + sizeAll (n :: ns) ≤ T) (hf : 2 * sizeAll (n :: ns) + T ≤ fuel + 1) :
    ∃ h', mergeLoop (fuel + 1) h root1.addr root2.addr (some n.addr) kept.length =
        some (h', addrsAll (mergeItems root1.child (n :: ns)).child2) ∧
      Merges h h' root1 root2 kept (n :: ns) p1 q1 p2 q2 := by
  obtain ⟨name, hname, hlook⟩ := Option.bind_eq_some_iff.mp hl
  have hchild := lookup_some hlook
  have hroot1_eq : root1.withChild (before ++ m :: after) = root1 := by
    rw [← hchild, withChild_child]
  have hm_holds := Node.Holds.get_child (hroot1_eq.symm ▸ hr1)
  have hn_holds := hr2.get_child
  have hcell1 := (holds_iff.mp hm_holds).1
  have hcell2 := (holds_iff.mp hn_holds).1
  rw [sizeAll, size_eq] at hf
  have hlen : root1.child.length ≤ fuel := by
    have := length_le_sizeAll root1.child
    rw [size_eq] at hT
    omega
  -- the addresses of the two items, and all others
  have hperm : (m.addrs ++ n.addrs ++ (root1.addr :: (addrsAll before ++ addrsAll after) ++
      root2.addr :: (addrsAll kept ++ addrsAll ns))).Perm
      (root1.addrs ++ (root2.withChild (kept ++ n :: ns)).addrs) := by
    simp only [List.perm_iff_count, addrs_withChild, addrs_eq root1, hchild, addrsAll_append,
      addrsAll, List.count_append, List.count_cons]
    intro a
    omega
  obtain ⟨hn_items, -, hdisj⟩ := List.nodup_append'.mp (hperm.nodup_iff.mpr hn)
  -- `doMerge(item1, item2)`
  obtain ⟨g, rfl⟩ : ∃ g, fuel = g + 1 := ⟨fuel - 1, by omega⟩
  have hsize_m : m.size + sizeAll n.child ≤ T := by
    rw [size_eq root1, hchild, sizeAll_append, sizeAll, sizeAll, size_eq n] at hT
    omega
  have hn_self : n.withChild ([] ++ n.child) = n := by
    rw [List.nil_append, withChild_child]
  obtain ⟨h₁, hdomerge, hm₁, hn₁, hfreed₁, hframe₁⟩ := doMerge_of_loop (ih g (by omega)) hm_holds
    hn_holds hn_items hmerge.2.2 hsize_m (by omega)
  rw [hn_self] at hframe₁
  rw [List.nil_append] at hn₁
  have hacc := mergeItems_perm n.child m.child
  have hsize_s := sizeAll_child1_le n.child m.child
  generalize hs : mergeItems m.child n.child = s at hm₁ hn₁ hfreed₁ hdomerge hacc hsize_s
  -- around the two items nothing changed
  have hother : ∀ a, a ∈ root1.addr :: (addrsAll before ++ addrsAll after) ++
      root2.addr :: (addrsAll kept ++ addrsAll ns) → h₁ a = h a :=
    fun a ha => hframe₁ a fun hmem => hdisj hmem ha
  have hroot1₁ : (root1.withChild (before ++ m.withChild s.child1 :: after)).Holds h₁ p1 q1 := by
    refine Node.Holds.set_child (hroot1_eq.symm ▸ hr1) (addr_withChild _ _) hm₁ (hother _ ?_)
      (fun a ha => hother a ?_) (fun a ha => hother a ?_)
    all_goals simp only [List.mem_append, List.mem_cons]
    · exact Or.inl (Or.inl trivial)
    · exact Or.inl (Or.inr (Or.inl ha))
    · exact Or.inl (Or.inr (Or.inr ha))
  have hroot2₁ : (root2.withChild (kept ++ n.withChild s.child2 :: ns)).Holds h₁ p2 q2 := by
    refine Node.Holds.set_child hr2 (addr_withChild _ _) hn₁ (hother _ ?_)
      (fun a ha => hother a ?_) (fun a ha => hother a ?_)
    all_goals simp only [List.mem_append, List.mem_cons]
    · exact Or.inr (Or.inl trivial)
    · exact Or.inr (Or.inr (Or.inl ha))
    · exact Or.inr (Or.inr (Or.inr ha))
  have hcell2₁ := (holds_iff.mp hroot2₁.get_child).1
  rw [addr_withChild] at hcell2₁
  rw [List.append_cons] at hroot2₁
  have hperm₁ : (addrsAll s.freed ++
      ((root1.withChild (before ++ m.withChild s.child1 :: after)).addrs ++
        (root2.withChild (kept ++ [n.withChild s.child2] ++ ns)).addrs)).Perm
      (root1.addrs ++ (root2.withChild (kept ++ n :: ns)).addrs) := by
    simp only [List.perm_iff_count, addrs_withChild, addrs_eq root1, addrs_eq m, addrs_eq n, hchild,
      addrsAll_append, addrsAll, List.count_append, List.count_cons, List.count_nil] at hacc ⊢
    intro a
    have := hacc a
    omega
  obtain ⟨-, hn_rest, hdisj₁⟩ := List.nodup_append'.mp (hperm₁.nodup_iff.mpr hn)
  have hsize : (root1.withChild (before ++ m.withChild s.child1 :: after)).size + sizeAll ns ≤ T := by
    rw [size_eq root1, hchild, sizeAll_append, sizeAll, sizeAll, size_eq n, size_eq m] at hT
    rw [size_eq, child_withChild, sizeAll_append, sizeAll, size_eq (m.withChild _), child_withChild]
    omega
  -- `item2 = item2->next; which++`
  obtain ⟨h', hloop, hholds1, hholds2, hfreed, hframe⟩ :=
    ih (g + 1) (by omega) hroot1₁ hroot2₁ hn_rest hsize (by omega)
  rw [addr_withChild, child_withChild, List.length_append, List.length_singleton] at hloop
  rw [child_withChild] at hfreed hholds1 hholds2
  rw [withChild_withChild] at hholds1
  rw [List.append_assoc, List.singleton_append] at hholds2
  refine ⟨h', ?_, ?_, ?_, ?_, fun a ha => ?_⟩
  · rw [mergeItems_merge hl hmerge, hs, mergeLoop, hcell2, Option.bind_eq_bind, Option.bind_some]
    simp only [hname, getObjectItem_spec hr1 hlen, hlook, Option.map_some, Option.bind_eq_bind,
      Option.bind_some, hcell1, if_pos (mergeable_iff.mpr hmerge), hdomerge, hcell2₁, hloop, addrsAll,
      addrs_withChild]
  · rw [mergeItems_merge hl hmerge, hs]
    exact hholds1
  · rw [mergeItems_merge hl hmerge, hs]
    exact hholds2
  · rw [mergeItems_merge hl hmerge, hs]
    intro a ha
    rw [addrsAll_append] at ha
    rcases List.mem_append.mp ha with ha | ha
    · rw [hframe a (hdisj₁ ha), hfreed₁ a ha]
    · exact hfreed a ha
  · have hnot := hperm₁.mem_iff.not.mpr ha
    rw [List.mem_append, not_or] at hnot
    rw [hframe a hnot.2]
    have hitems := hperm.mem_iff.not.mpr ha
    rw [List.mem_append, not_or] at hitems
    exact hframe₁ a hitems.1

/-- The loop of `doMerge`, with the recursion on children that it calls. -/
theorem mergeLoop_spec (T fuel : Nat) : LoopSpec (α := α) T fuel := by
  -- induction on the bound of the recursion: each round and each descent uses some of it
  induction fuel using Nat.strong_induction_on with
  | _ fuel ih =>
    intro h root1 root2 kept ns p1 q1 p2 q2 hr1 hr2 hn hT hf
    cases ns with
    | nil =>
      refine ⟨h, ?_, ?_, ?_, ?_, fun a _ => rfl⟩
      · rw [head_nil, mergeLoop, mergeItems, addrsAll]
      · rw [mergeItems, withChild_child]
        exact hr1
      · rw [mergeItems]
        exact hr2
      · intro a ha
        rw [mergeItems, addrsAll] at ha
        exact absurd ha List.not_mem_nil
    | cons n ns =>
      rw [head_cons]
      have hsize : sizeAll (n :: ns) = sizeAll n.child + 1 + sizeAll ns := by
        rw [sizeAll, size_eq]
      obtain ⟨f, rfl⟩ : ∃ f, fuel = f + 1 := ⟨fuel - 1, by omega⟩
      cases hl : n.item.string.bind (lookup · root1.child) with
      | none => exact mergeLoop_append (ih f (Nat.lt_succ_self f)) hl hr1 hr2 hn hT (by omega)
      | some r =>
        obtain ⟨before, m, after⟩ := r
        -- merged below, or replaced
        by_cases hmerge : mergeable m n
        · exact mergeLoop_merge ih hl hmerge hr1 hr2 hn hT hf
        · exact mergeLoop_replace (ih f (Nat.lt_succ_self f)) hl hmerge hr1 hr2 hn hT (by omega)

/-- **`doMerge` on two disjoint trees of one type**: with enough fuel it ends, and on the lists of
    children it is `mergeItems`. -/
theorem doMerge_spec {root1 root2 : Node α Item} (hr1 : root1.Holds h p1 q1)
    (hr2 : root2.Holds h p2 q2) (hn : (root1.addrs ++ root2.addrs).Nodup)
    (ht : root1.item.type = root2.item.type) :
    ∃ h', (∀ fuel, root1.size + 3 * root2.size ≤ fuel →
        doMerge fuel h (some root1.addr) (some root2.addr) =
          some (h', addrsAll (mergeItems root1.child root2.child).child2)) ∧
      Merges h h' root1 root2 [] root2.child p1 q1 p2 q2 := by
  have hrun : ∀ fuel, root1.size + 3 * root2.size ≤ fuel →
      ∃ h', doMerge fuel h (some root1.addr) (some root2.addr) =
          some (h', addrsAll (mergeItems root1.child root2.child).child2) ∧
        Merges h h' root1 root2 [] root2.child p1 q1 p2 q2 := by
    intro fuel hf
    rw [size_eq root2] at hf
    obtain ⟨f, rfl⟩ : ∃ f, fuel = f + 1 := ⟨fuel - 1, by omega⟩
    exact doMerge_of_loop (mergeLoop_spec (root1.size + sizeAll root2.child) f) hr1 hr2 hn ht
      (Nat.le_refl _) (by omega)
  -- the result does not depend on the fuel
  obtain ⟨h', -, hm⟩ := hrun _ (Nat.le_refl _)
  refine ⟨h', fun fuel hf => ?_, hm⟩
  obtain ⟨h'', heq, hm'⟩ := hrun fuel hf
  rw [heq, hm'.unique hm]

/-- `doMerge` on two disjoint trees ends, and leaves two disjoint trees at their places; nothing else
    changes, except that nodes may be gone. -/
theorem doMerge_ends {root1 root2 : Node α Item} (hr1 : root1.Holds h p1 q1)
    (hr2 : root2.Holds h p2 q2) (hn : (root1.addrs ++ root2.addrs).Nodup) :
    ∃ (h' : Heap α Item) (merged : List α) (t1 t2 : Node α Item) (gone : List α),
      (∀ fuel, root1.size + 3 * root2.size ≤ fuel →
        doMerge fuel h (some root1.addr) (some root2.addr) = some (h', merged)) ∧
      t1.Holds h' p1 q1 ∧ t1.addr = root1.addr ∧ t2.Holds h' p2 q2 ∧ t2.addr = root2.addr ∧
      (t1.addrs ++ gone ++ t2.addrs).Perm (root1.addrs ++ root2.addrs) ∧
      (∀ a ∈ gone, h' a = none) ∧ (∀ a, a ∉ root1.addrs ++ root2.addrs → h' a = h a) ∧
      t1.erase = doMergeCopy root1.erase root2.erase := by
  -- objects or arrays of one type are merged; else nothing happens
  by_cases ht : root1.item.type = root2.item.type
  · obtain ⟨h', heq, hm⟩ := doMerge_spec hr1 hr2 hn ht
    have hself : root2.withChild ([] ++ root2.child) = root2 := by
      rw [List.nil_append, withChild_child]
    have hperm := withChild_mergeItems_perm root1 root2 [] root2.child
    have hframe := hm.frame
    rw [hself] at hperm hframe
    refine ⟨h', _, _, _, _, heq, hm.holds1, addr_withChild _ _, hm.holds2, addr_withChild _ _, hperm,
      hm.freed, hframe, ?_⟩
    rw [erase_withChild, eraseAll_mergeItems, doMergeCopy, erase_item, erase_item,
      if_neg (not_not.mpr ht), erase_child, erase_child]
  · refine ⟨h, [], root1, root2, [], fun fuel hf => ?_, hr1, rfl, hr2, rfl, ?_,
      fun a ha => absurd ha List.not_mem_nil, fun a _ => rfl, ?_⟩
    · rw [size_eq root1] at hf
      obtain ⟨f, rfl⟩ : ∃ f, fuel = f + 1 := ⟨fuel - 1, by omega⟩
      rw [doMerge, (holds_iff.mp hr1).1, Option.bind_eq_bind, Option.bind_some,
        (holds_iff.mp hr2).1, Option.bind_some, if_pos ht]
    · rw [List.append_nil]
    · rw [doMergeCopy, erase_item, erase_item, if_pos ht]

end Simulation

/-! ## Items -/

/-- Every item of the merged list was in one of the two. -/
theorem itemsAll_mergeItems (ns cs : List (Node α Item)) :
    (∀ i ∈ itemsAll (mergeItems cs ns).child1, i ∈ itemsAll cs ∨ i ∈ itemsAll ns) ∧
      ∀ i ∈ itemsAll (mergeItems cs ns).child2, i ∈ itemsAll ns := by
  -- induction on the children of the second tree, as the merge itself
  induction ns using list_induction generalizing cs with
  | nil =>
    rw [mergeItems]
    exact ⟨fun i hi => Or.inl hi, fun i hi => hi⟩
  | cons n ns ihc ih =>
    rw [mergeItems]
    cases hl : n.item.string.bind (lookup · cs) with
    | none =>
      -- appended at the end
      obtain ⟨h1, h2⟩ := ih (cs ++ [n])
      constructor
      · intro i hi
        have hmem := h1 i hi
        simp only [itemsAll_append, itemsAll, List.mem_append, List.append_nil] at hmem ⊢
        tauto
      · intro i hi
        exact List.mem_append_right _ (h2 i hi)
    | some r =>
      obtain ⟨before, m, after⟩ := r
      obtain ⟨name, -, hl⟩ := Option.bind_eq_some_iff.mp hl
      dsimp only
      rw [lookup_some hl]
      split
      · rw [mergeBelow_eq]
        -- merged below its namesake
        obtain ⟨hm1, hm2⟩ := ihc m.child
        obtain ⟨h1, h2⟩ := ih (before ++ m.withChild (mergeItems m.child n.child).child1 :: after)
        constructor
        · intro i hi
          have hmem := h1 i hi
          simp only [itemsAll_append, itemsAll, items_withChild, items_eq m, items_eq n,
            List.mem_append, List.mem_cons] at hmem ⊢
          have hbelow := hm1 i
          tauto
        · intro i hi
          have hrest := h2 i
          have hbelow := hm2 i
          simp only [itemsAll, items_withChild, items_eq n, List.mem_append, List.mem_cons] at hi ⊢
          tauto
      -- put in the place of its namesake
      · obtain ⟨h1, h2⟩ := ih (before ++ n :: after)
        constructor
        · intro i hi
          have hmem := h1 i hi
          simp only [itemsAll_append, itemsAll, List.mem_append] at hmem ⊢
          tauto
        · intro i hi
          exact List.mem_append_right _ (h2 i hi)

/-- Whatever the two roots are, also one and the same, a merge makes no new items. -/
theorem Everywhere.mergeLoop_doMerge [DecidableEq α] {P : Item → Prop}
    (hname : ∀ i s, P i → P (i.withString s)) (fuel : Nat) :
    (∀ (h h' : Heap α Item) (root1 root2 : α) (item2 : Option α) (which : Nat) (merged : List α),
      h.Everywhere P → mergeLoop fuel h root1 root2 item2 which = some (h', merged) →
        h'.Everywhere P) ∧
    ∀ (h h' : Heap α Item) (root1 root2 : Option α) (merged : List α), h.Everywhere P →
      doMerge fuel h root1 root2 = some (h', merged) → h'.Everywhere P := by
  induction fuel with
  | zero =>
    constructor
    · intro h h' root1 root2 item2 which merged hh heq
      cases item2 with
      | none =>
        cases heq
        exact hh
      | some item2 => cases heq
    · intro h h' root1 root2 merged hh heq
      cases heq
  | succ fuel ih =>
    obtain ⟨ihloop, ihmerge⟩ := ih
    constructor
    · intro h h' root1 root2 item2 which merged hh heq
      cases item2 with
      | none =>
        cases heq
        exact hh
      | some item2 =>
        rw [mergeLoop] at heq
        obtain ⟨cell2, -, heq⟩ := Option.bind_eq_some_iff.mp heq
        -- an item that is taken out and appended
        have happend : ∀ h' merged, (do
              let (item, h) ← Turnserver.detachItemFromArray h root2 which
              let h ← Turnserver.addItemToArray fuel h root1 item
              mergeLoop fuel h root1 root2 cell2.next which) = some (h', merged) →
            h'.Everywhere P := by
          intro h' merged heq
          obtain ⟨⟨item, h₁⟩, heq₁, heq⟩ := Option.bind_eq_some_iff.mp heq
          obtain ⟨h₂, heq₂, heq⟩ := Option.bind_eq_some_iff.mp heq
          have hh₁ := Everywhere.detachItemFromArray hh heq₁
          exact ihloop _ _ _ _ _ _ _ (Everywhere.addItemToArray hh₁ heq₂) heq
        cases hstring : cell2.item.string with
        | none =>
          rw [hstring] at heq
          exact happend h' merged heq
        | some name =>
          rw [hstring] at heq
          obtain ⟨item1, -, heq⟩ := Option.bind_eq_some_iff.mp heq
          cases item1 with
          | none => exact happend h' merged heq
          | some item1 =>
            obtain ⟨cell1, -, heq⟩ := Option.bind_eq_some_iff.mp heq
            split at heq
            · obtain ⟨⟨h₁, below⟩, heq₁, heq⟩ := Option.bind_eq_some_iff.mp heq
              obtain ⟨cell2', -, heq⟩ := Option.bind_eq_some_iff.mp heq
              obtain ⟨⟨h₂, rest⟩, heq₂, heq⟩ := Option.bind_eq_some_iff.mp heq
              cases heq
              exact ihloop _ _ _ _ _ _ _ (ihmerge _ _ _ _ _ hh heq₁) heq₂
            · obtain ⟨⟨item, h₁⟩, heq₁, heq⟩ := Option.bind_eq_some_iff.mp heq
              obtain ⟨h₂, heq₂, heq⟩ := Option.bind_eq_some_iff.mp heq
              have hh₁ := Everywhere.detachItemFromArray hh heq₁
              exact ihloop _ _ _ _ _ _ _ (Everywhere.replaceItemInObject hname hh₁ heq₂) heq
    · intro h h' root1 root2 merged hh heq
      cases root1 with
      | none =>
        rw [doMerge] at heq
        · cases heq
          exact hh
        · rintro _ _ ⟨⟩
      | some root1 =>
        cases root2 with
        | none =>
          rw [doMerge] at heq
          · cases heq
            exact hh
          · rintro _ _ - ⟨⟩
        | some root2 =>
          rw [doMerge] at heq
          obtain ⟨r1, -, heq⟩ := Option.bind_eq_some_iff.mp heq
          obtain ⟨r2, -, heq⟩ := Option.bind_eq_some_iff.mp heq
          split at heq
          · cases heq
            exact hh
          · exact ihloop _ _ _ _ _ _ _ hh heq

/-- `doMerge` keeps what holds of every item, if naming an item does. -/
theorem Everywhere.doMerge [DecidableEq α] {P : Item → Prop}
    (hname : ∀ i s, P i → P (i.withString s)) {h h' : Heap α Item} (hh : h.Everywhere P)
    {fuel : Nat} {root1 root2 : Option α} {merged : List α}
    (heq : Turnserver.doMerge fuel h root1 root2 = some (h', merged)) : h'.Everywhere P :=
  (Everywhere.mergeLoop_doMerge hname fuel).2 _ _ _ _ _ hh heq

end Turnserver
