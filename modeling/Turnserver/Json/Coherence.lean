/-
  TWO COPIES OF A NUMBER (`new_elbs/json_wrapper.cc`, 29–97, 308–608, 765–805, `new_elbs/cJSON.cc`,
  118–139) — when `valueint` and `valuedouble` of a node agree.

  A world has any number of wrappers over a store of trees; after `merge` two wrappers may share one.
  The getters and the printer read one copy of a number or the other.  A setter of a member that is a
  number already writes one copy: `setIntValue` the `int`, the others the `double`.  Only
  `setIntValue` of the root writes both.

  * `Everywhere.*` (in `Merge`) and `items_*`: the items of a tree after an operation are old ones,
    those of a new node, or one that was written in place;
  * `coherent_parsed`: `parse_number` makes one copy from the other, so that they agree where the sum of
    the digits is an `int`; of `3.00000` it is 3.0000000000000004;
  * `coherent_iff`: in a run all numbers stay coherent, and every number that is set is shown by all
    getters and the printer, exactly when no step leaves a copy behind.
-/
import Turnserver.Json.JsonWrapper
import Turnserver.Json.Integers
import Turnserver.Lib.Transition

namespace Turnserver

open LinkedTree Node Transition

namespace Coherence

/-! ## Worlds -/

/-- The live trees, by number, and all wrappers; a wrapper that is not there yet is one that was just
    made by `JsonWrapper()`. -/
structure World where
  trees : Nat → Option Value
  next : Nat
  wrappers : Nat → JsonWrapper Nat

namespace World

/-- No tree, and every wrapper empty and its own owner. -/
def initial : World := ⟨fun _ => none, 0, fun _ => ⟨none, true⟩⟩

variable (s : World) (w : Nat)

/-- The tree of a wrapper; there is no access to a tree that is gone. -/
def tree : Option (Option Value) :=
  match (s.wrappers w).m_root with
  | none => some none
  | some root => (s.trees root).map some

/-- The tree of a wrapper is changed where it is. -/
def edit (f : Option Value → Option Value) : Option World :=
  match (s.wrappers w).m_root with
  | none => some s
  | some root =>
    (s.trees root).map fun t => { s with trees := Function.update s.trees root (f (some t)) }

/-- `if (m_root && m_owner) cJSON_Delete(m_root)` -/
def delete : Option (Nat → Option Value) :=
  match (s.wrappers w).m_root with
  | none => some s.trees
  | some root =>
    if (s.wrappers w).m_owner then (s.trees root).map fun _ => Function.update s.trees root none
    else some s.trees

/-- `assign(node)`, and `parse(input)`, with the tree that they put there. -/
def assign (node : Option Value) : Option World :=
  (s.delete w).map fun trees =>
    ⟨Function.update trees s.next node, s.next + 1,
      Function.update s.wrappers w ⟨node.map fun _ => s.next, true⟩⟩

/-- The setters of a root: one that `inPlace` accepts is written, otherwise a new tree is assigned. -/
def setRoot (inPlace : Item → Bool) (f : Option Value → Value) : Option World := do
  let t ← s.tree w
  if t.any fun r => inPlace r.item then s.edit w fun t => some (f t) else s.assign w (some (f t))

/-- `doMerge(root1, root2)` where both are the same tree: the items that it walks are those that it
    moves.  This is left to the code, on a heap with nothing but the tree. -/
def mergeSelf (fuel : Nat) (t : Value) : Option Value := do
  let (h, _) ← doMerge fuel (Heap.empty.alloc (t.label 0)) (some 0) (some 0)
  let root ← h 0
  let child ← readAll fuel h root.child
  some (.mk () root.item (eraseAll child))

/-- `doMerge(root1, root2)` -/
def mergeRoots (fuel : Nat) (root1 root2 : Nat) : Option World := do
  let t1 ← s.trees root1
  let t2 ← s.trees root2
  if root1 = root2 then
    let t ← mergeSelf fuel t1
    some { s with trees := Function.update s.trees root1 (some t) }
  else if t1.item.type ≠ t2.item.type then some s
  else
    let r := mergeItems t1.child t2.child
    let trees := Function.update s.trees root1 (some (t1.withChild r.child1))
    some { s with trees := Function.update trees root2 (some (t2.withChild r.child2)) }

/-- `parse(nullptr); m_root = profile.m_root; m_owner = true; profile.m_owner = false` -/
def takeOver (profile : Nat) : Option World :=
  (s.assign w none).map fun s =>
    let wrappers := Function.update s.wrappers w ⟨(s.wrappers profile).m_root, true⟩
    { s with
      wrappers := Function.update wrappers profile { wrappers profile with m_owner := false } }

/-- `merge(JsonWrapper& profile)` -/
def merge (fuel : Nat) (profile : Nat) : Option World :=
  match (s.wrappers w).m_root, (s.wrappers profile).m_root with
  | some root1, some root2 => s.mergeRoots fuel root1 root2
  | none, some _ => s.takeOver w profile
  | _, none => some s

/-- `reverse_merge(JsonWrapper& profile)` -/
def reverse_merge (fuel : Nat) (profile : Nat) : Option World :=
  match (s.wrappers w).m_root, (s.wrappers profile).m_root with
  | some root1, some root2 => (s.mergeRoots fuel root2 root1).bind fun s => s.takeOver w profile
  | none, some _ => s.takeOver w profile
  | _, none => some s

/-- `operator=(const JsonWrapper& rhs)` -/
def copy (rhs : Nat) : Option World :=
  if w = rhs then some s
  else do
    let s ← s.assign w none
    let t ← s.tree rhs
    s.assign w (t.map duplicate)

end World

/-! ## Operations -/

/-- The three setters of a number. -/
inductive NumericSetter
  | int
  | uint
  | double

namespace NumericSetter

/-- The setter of a member. -/
def set : NumericSetter → CString → Int32 → Option Value → Option Value
  | int, name, value => setIntValue name value.toInt
  | uint, name, value => setUIntValue name value.toInt.toNat
  | double, name, value => setDoubleValue name value.toInt

/-- The setter of the root. -/
def setRoot : NumericSetter → Int32 → Option Value → Value
  | int, value => setIntRoot value.toInt
  | uint, value => setUIntRoot value.toInt.toNat
  | double, value => setDoubleRoot value.toInt

/-- An unsigned value is not negative. -/
def Takes : NumericSetter → Int32 → Prop
  | uint, value => 0 ≤ value.toInt
  | _, _ => True

end NumericSetter

/-- An operation on a wrapper `w`.  `input` is the memory from the pointer on, if it is not null. -/
inductive Op
  | parse (w : Nat) (input : Option (List UInt8))
  | setObjectType (w : Nat)
  | setArrayType (w : Nat)
  | setNumber (setter : NumericSetter) (w : Nat) (name : CString) (value : Int32)
  | setBoolean (w : Nat) (name : CString) (value : Bool)
  | setString (w : Nat) (name : CString) (value : Option CString)
  | setObject (w : Nat) (name : CString) (value : Nat)
  | setNumberRoot (setter : NumericSetter) (w : Nat) (value : Int32)
  | setBooleanRoot (w : Nat) (value : Bool)
  | setStringRoot (w : Nat) (value : CString)
  | merge (w profile : Nat)
  | reverse_merge (w profile : Nat)
  | copy (w rhs : Nat)

/-- A number has one value, an `int`, in both copies. -/
def CoherentItem (i : Item) : Prop :=
  i.type = .Number → ∃ n : Int32, i.valueint = n.toInt ∧ i.valuedouble = n.toInt

/-- All numbers of a tree are coherent. -/
def CoherentValue (t : Value) : Prop := ∀ i ∈ t.items, CoherentItem i

/-- The `double` of each number of a tree is an integer of the range of an `int`. -/
def Integral (t : Value) : Prop :=
  ∀ i ∈ t.items, i.type = .Number → ∃ n : Int32, i.valuedouble = n.toInt

section Double

variable (double : Cjson.Numeral → Rat)

/-- The tree of `parse(input)`, and none for a null pointer. -/
def parsed (fuel : Nat) (input : Option (List UInt8)) : Option (Option Value) :=
  input.elim (some none) (Cjson.parse double fuel)

/-- Every number that is parsed or set is an integer in the range of an `int`.  Of a parsed number this
    is asked of what `parse_number` makes of its digits. -/
def Op.InRange (fuel : Nat) : Op → Prop
  | parse _ input => ∀ t, parsed double fuel input = some (some t) → Integral t
  | setNumber setter _ _ value => setter.Takes value
  | setNumberRoot setter _ value => setter.Takes value
  | _ => True

/-- What an operation does, if it does not touch a tree that is gone. -/
def perform (fuel : Nat) (s : World) : Op → Option World
  | .parse w input => (parsed double fuel input).bind (s.assign w)
  | .setObjectType w => s.assign w (some createObject)
  | .setArrayType w => s.assign w (some createArray)
  | .setNumber setter w name value => s.edit w (setter.set name value)
  | .setBoolean w name value => s.edit w (setBooleanValue name value)
  | .setString w name value => s.edit w (setStringValue name value)
  | .setObject w name value => do
    let t ← s.tree value
    s.edit w (setObjectValue name t)
  | .setNumberRoot setter w value => s.setRoot w (fun i => i.type = .Number) (setter.setRoot value)
  | .setBooleanRoot w value =>
    s.setRoot w (fun i => i.type = .True ∨ i.type = .False) (setBooleanRoot value)
  | .setStringRoot w value => s.assign w (some (createString value))
  | .merge w profile => s.merge w fuel profile
  | .reverse_merge w profile => s.reverse_merge w fuel profile
  | .copy w rhs => s.copy w rhs

/-- One step: the operation is in range and runs, for some bound on the recursion. -/
def Step (s : World) (op : Op) (s' : World) : Prop :=
  ∃ fuel, op.InRange double fuel ∧ perform double fuel s op = some s'

end Double

/-! ## What has to hold -/

/-- All numbers of all trees are coherent. -/
def CoherentWorld (s : World) : Prop := ∀ root t, s.trees root = some t → CoherentValue t

variable (S : Cjson.Sprintf)

/-- Every getter of the member, and the printer, shows the value. -/
structure Shows (name : CString) (value : Int32) (t : Option Value) : Prop where
  int : ∀ defValue, getIntValue name defValue t = value.toInt
  uint : 0 ≤ value.toInt → ∀ defValue, getUIntValue name defValue t = value.toInt.toNat
  double : ∀ defValue, getDoubleValue name defValue t = value.toInt
  text : ∃ node, findNodeOf .Number name t = some node ∧
    Cjson.print_number S node.item = S.d value.toInt

/-- Every getter of the root, and the printer, shows the value. -/
structure ShowsRoot (value : Int32) (t : Option Value) : Prop where
  int : ∀ defValue, getIntRoot defValue t = value.toInt
  uint : 0 ≤ value.toInt → ∀ defValue, getUIntRoot defValue t = value.toInt.toNat
  double : ∀ defValue, getDoubleRoot defValue t = value.toInt
  text : ∃ node, t = some node ∧ Cjson.print_number S node.item = S.d value.toInt

/-- A number that an operation set is shown. -/
def ShowsSet (op : Op) (s : World) : Prop :=
  match op with
  | .setNumber _ w name value => ∃ t, s.tree w = some t ∧ Shows S name value t
  | .setNumberRoot _ w value => ∃ t, s.tree w = some t ∧ ShowsRoot S value t
  | _ => True

/-- A step after which all numbers are coherent, and the one that was set is shown. -/
def GoodStep (x : World × Op × World) : Prop :=
  CoherentWorld x.2.2 ∧ ShowsSet S x.2.1 x.2.2

/-- No copy is left behind: there is a member to set, and a number that is overwritten where it is
    has the value already, unless `setIntValue` overwrites a root. -/
def KeepsCopies (s : World) (op : Op) : Prop :=
  match op with
  | .setNumber _ w name value =>
    name ≠ [] ∧ ∃ t, s.tree w = some (some t) ∧
      ∀ node, findItem name t = some node → node.item.type = .Number →
        node.item.valueint = value.toInt
  | .setNumberRoot .int _ _ => True
  | .setNumberRoot _ w value =>
    ∀ t, s.tree w = some (some t) → t.item.type = .Number → t.item.valueint = value.toInt
  | _ => True

/-! ## Items -/

/-- Coherence only speaks of numbers. -/
theorem coherentItem_of_type {i : Item} (h : i.type ≠ .Number) : CoherentItem i :=
  fun hi => absurd hi h

/-- The name of an item plays no role in its coherence. -/
theorem CoherentItem.withString {i : Item} (h : CoherentItem i) (s : CString) :
    CoherentItem (i.withString s) := h

/-- The item of a new number. -/
def numberItem (value : Int32) : Item :=
  { newItem with type := .Number, valuedouble := value.toInt, valueint := value.toInt }

/-- `cJSON_CreateNumber` of an `int32` value stores that value in both fields. -/
theorem createNumber_eq (value : Int32) :
    createNumber value.toInt = .mk () (numberItem value) [] := by
  rw [createNumber, toInt_int32, numberItem]

theorem coherent_numberItem (value : Int32) : CoherentItem (numberItem value) :=
  fun _ => ⟨value, rfl, rfl⟩

/-- **A parsed number is coherent** when its `double` is an `int`: the other copy is made from it. -/
theorem coherent_parsed {double : Cjson.Numeral → Rat} {fuel : Nat} {input : Option (List UInt8)}
    {t : Value} (h : parsed double fuel input = some (some t)) (ht : Integral t) :
    CoherentValue t := by
  intro i hi htype
  obtain ⟨n, hn⟩ := ht i hi htype
  have hcanonical : Cjson.Canonical t := by
    cases input with
    | none => cases h
    | some input => exact Cjson.parse_canonical h
  refine ⟨n, ?_, hn⟩
  rw [hcanonical.valueint i hi htype, hn, toInt_int32]

/-- A coherent number shows its value in every copy, and is printed so. -/
theorem print_number_coherent {i : Item} {value : Int32} (hint : i.valueint = value.toInt)
    (hdouble : i.valuedouble = value.toInt) :
    Cjson.print_number S i = S.d value.toInt := by
  have hlow : (-2147483648 : Rat) ≤ value.toInt := by exact_mod_cast value.le_toInt
  have hhigh : (value.toInt : Rat) ≤ 2147483647 := by
    have hle : value.toInt ≤ 2147483647 := by
      have hlt := value.toInt_lt
      omega
    exact_mod_cast hle
  rw [Cjson.print_number, hint, hdouble]
  exact if_pos ⟨Cjson.fabs_zero (sub_self _), hhigh, hlow⟩

/-- A leaf is as coherent as its item. -/
theorem coherent_leaf {i : Item} (h : CoherentItem i) : CoherentValue (.mk () i []) := by
  intro j hj
  rw [items, itemsAll, List.mem_singleton] at hj
  exact hj ▸ h

theorem coherent_createNumber (value : Int32) : CoherentValue (createNumber value.toInt) := by
  rw [createNumber_eq]
  exact coherent_leaf (coherent_numberItem value)

theorem coherent_createBool (b : Bool) : CoherentValue (createBool b) := by
  cases b
  · exact coherent_leaf (coherentItem_of_type (by decide))
  · exact coherent_leaf (coherentItem_of_type (by decide))

theorem coherent_createString (string : CString) : CoherentValue (createString string) :=
  coherent_leaf (coherentItem_of_type nofun)

/-- `cJSON_Duplicate` keeps coherence. -/
theorem coherent_duplicate {t : Value} (h : CoherentValue t) : CoherentValue (duplicate t) := by
  intro i hi
  rw [duplicate_eq, items_erase] at hi
  exact h i hi

/-- Naming a tree keeps its coherence. -/
theorem coherent_named {name : CString} {t : Value} (h : CoherentValue t) :
    CoherentValue (named name t) := by
  intro i hi
  rw [named, items_withItem, List.mem_cons] at hi
  rw [CoherentValue, items_eq] at h
  rcases hi with rfl | hi
  · exact CoherentItem.withString (h _ List.mem_cons_self) name
  · exact h i (List.mem_cons_of_mem _ hi)

/-- Setting a member keeps coherence, if the new member and the update in place do. -/
theorem coherent_setMember {name : CString} {root newitem : Value} {inPlace : Item → Option Item}
    (hroot : CoherentValue root) (hnew : CoherentValue newitem)
    (hplace : ∀ node i, findItem name root = some node → inPlace node.item = some i →
      CoherentItem i) :
    CoherentValue (setMember name inPlace newitem root) := by
  intro i hi
  rcases items_setMember hi with hi | hi | ⟨node, hfind, hi⟩
  · exact hroot i hi
  · exact coherent_named hnew i hi
  · exact hplace node i hfind hi

/-- A merge of a tree with itself makes no new numbers. -/
theorem coherent_mergeSelf {fuel : Nat} {t t' : Value} (h : CoherentValue t)
    (heq : World.mergeSelf fuel t = some t') : CoherentValue t' := by
  have halloc : Heap.Everywhere CoherentItem (Heap.empty.alloc (t.label 0)) := by
    refine Heap.Everywhere.alloc Heap.Everywhere.empty fun i hi => ?_
    rw [items_label] at hi
    exact h i hi
  obtain ⟨⟨h', merged⟩, hmerge, heq⟩ := Option.bind_eq_some_iff.mp heq
  obtain ⟨root, hroot, heq⟩ := Option.bind_eq_some_iff.mp heq
  obtain ⟨child, hchild, heq⟩ := Option.bind_eq_some_iff.mp heq
  cases heq
  have hh' : h'.Everywhere CoherentItem :=
    Everywhere.doMerge (P := CoherentItem) (fun _ s hi => hi.withString s) halloc hmerge
  intro i hi
  rw [items, itemsAll_eraseAll, List.mem_cons] at hi
  rcases hi with rfl | hi
  · exact hh' 0 root hroot
  · exact hh'.readAll hchild i hi

/-! ## Trees of a world -/

section Trees

variable {s s' : World} {w : Nat} {S}

/-- A world that is updated at one root stays coherent with a coherent tree there. -/
theorem coherent_update {trees : Nat → Option Value} {root : Nat} {t : Option Value}
    (htrees : ∀ r u, trees r = some u → CoherentValue u)
    (ht : ∀ u, t = some u → CoherentValue u) :
    ∀ r u, Function.update trees root t r = some u → CoherentValue u := by
  intro r u hr
  by_cases heq : r = root
  · rw [heq, Function.update_self] at hr
    exact ht u hr
  · rw [Function.update_of_ne heq] at hr
    exact htrees r u hr

/-- A wrapper without a root shows no tree. -/
theorem tree_of_none (h : (s.wrappers w).m_root = none) : s.tree w = some none := by
  rw [World.tree, h]

/-- A wrapper with a root shows the tree of that root. -/
theorem tree_of_some {root : Nat} (h : (s.wrappers w).m_root = some root) :
    s.tree w = (s.trees root).map some := by
  rw [World.tree, h]

/-- Every wrapper of a coherent world shows a coherent tree. -/
theorem coherent_tree {t : Value} (hs : CoherentWorld s) (ht : s.tree w = some (some t)) :
    CoherentValue t := by
  rw [World.tree] at ht
  split at ht
  · cases ht
  · obtain ⟨u, hu, heq⟩ := Option.map_eq_some_iff.mp ht
    cases heq
    exact hs _ _ hu

/-- An edit that keeps coherence keeps that of the world. -/
theorem coherent_edit {f : Option Value → Option Value} (hs : CoherentWorld s)
    (hf : ∀ t t', s.tree w = some (some t) → f (some t) = some t' → CoherentValue t')
    (heq : s.edit w f = some s') : CoherentWorld s' := by
  rw [World.edit] at heq
  cases hroot : (s.wrappers w).m_root with
  | none =>
    rw [hroot] at heq
    cases heq
    exact hs
  | some root =>
    rw [hroot] at heq
    obtain ⟨t, ht, heq⟩ := Option.map_eq_some_iff.mp heq
    cases heq
    refine coherent_update hs fun u hu => hf t u ?_ hu
    rw [tree_of_some hroot, ht]
    rfl

theorem coherent_assign {node : Option Value} (hs : CoherentWorld s)
    (hnode : ∀ t, node = some t → CoherentValue t) (heq : s.assign w node = some s') :
    CoherentWorld s' := by
  obtain ⟨trees, htrees, heq⟩ := Option.map_eq_some_iff.mp heq
  cases heq
  refine coherent_update ?_ hnode
  rw [World.delete] at htrees
  split at htrees
  · cases htrees
    exact hs
  · split at htrees
    · obtain ⟨t, -, htrees⟩ := Option.map_eq_some_iff.mp htrees
      cases htrees
      exact coherent_update hs fun u hu => by cases hu
    · cases htrees
      exact hs

/-- What is assigned is there. -/
theorem tree_assign {node : Option Value} (heq : s.assign w node = some s') :
    s'.tree w = some node := by
  obtain ⟨trees, -, heq⟩ := Option.map_eq_some_iff.mp heq
  cases heq
  have hroot : (Function.update s.wrappers w ⟨node.map fun _ => s.next, true⟩ w).m_root =
      node.map fun _ => s.next := by rw [Function.update_self]
  cases node with
  | none => exact tree_of_none hroot
  | some t =>
    refine (tree_of_some hroot).trans ?_
    show (Function.update trees s.next (some t) s.next).map some = _
    rw [Function.update_self]
    rfl

/-- After an edit the wrapper shows the edited tree. -/
theorem tree_edit {f : Option Value → Option Value} {t t' : Value}
    (ht : s.tree w = some (some t)) (hf : f (some t) = some t') (heq : s.edit w f = some s') :
    s'.tree w = some (some t') := by
  cases hroot : (s.wrappers w).m_root with
  | none =>
    rw [tree_of_none hroot] at ht
    cases ht
  | some root =>
    rw [tree_of_some hroot] at ht
    obtain ⟨u, hu, heq_u⟩ := Option.map_eq_some_iff.mp ht
    cases heq_u
    rw [World.edit, hroot] at heq
    obtain ⟨u', hu', heq⟩ := Option.map_eq_some_iff.mp heq
    -- the wrapper shows the root that the edit writes
    obtain rfl := Option.some_inj.mp (hu.symm.trans hu')
    cases heq
    have htree := tree_of_some (s := ⟨Function.update s.trees root (f (some t)), s.next, s.wrappers⟩)
      (w := w) hroot
    rw [htree]
    show (Function.update s.trees root (f (some t)) root).map some = _
    rw [Function.update_self, hf]
    rfl

/-- A wrapper without a tree is not edited. -/
theorem edit_none {f : Option Value → Option Value} (ht : s.tree w = some none)
    (heq : s.edit w f = some s') : s' = s := by
  rw [World.edit] at heq
  cases hroot : (s.wrappers w).m_root with
  | none =>
    rw [hroot] at heq
    cases heq
    rfl
  | some root =>
    rw [tree_of_some hroot] at ht
    obtain ⟨u, -, heq_u⟩ := Option.map_eq_some_iff.mp ht
    cases heq_u

/-- Only a tree that is there is edited. -/
theorem tree_of_edit {f : Option Value → Option Value} (heq : s.edit w f = some s') :
    ∃ t, s.tree w = some t := by
  rw [World.edit] at heq
  cases hroot : (s.wrappers w).m_root with
  | none => exact ⟨none, tree_of_none hroot⟩
  | some root =>
    rw [hroot] at heq
    obtain ⟨t, ht, -⟩ := Option.map_eq_some_iff.mp heq
    refine ⟨some t, ?_⟩
    rw [tree_of_some hroot, ht]
    rfl

/-- Merging two roots moves coherent children only. -/
theorem coherent_mergeRoots {fuel root1 root2 : Nat} (hs : CoherentWorld s)
    (heq : s.mergeRoots fuel root1 root2 = some s') : CoherentWorld s' := by
  obtain ⟨t1, ht1, heq⟩ := Option.bind_eq_some_iff.mp heq
  obtain ⟨t2, ht2, heq⟩ := Option.bind_eq_some_iff.mp heq
  -- a tree merged with itself, or two trees, or a merge that does nothing
  split at heq
  · obtain ⟨t, ht, heq⟩ := Option.bind_eq_some_iff.mp heq
    cases heq
    refine coherent_update hs fun u hu => ?_
    cases hu
    exact coherent_mergeSelf (hs _ _ ht1) ht
  · split at heq
    · cases heq
      exact hs
    · cases heq
      obtain ⟨h1, h2⟩ := itemsAll_mergeItems t2.child t1.child
      have hc1 := hs _ _ ht1
      have hc2 := hs _ _ ht2
      rw [CoherentValue, items_eq, List.forall_mem_cons] at hc1 hc2
      refine coherent_update (coherent_update hs fun u hu => ?_) fun u hu => ?_
      · cases hu
        rw [CoherentValue, items_withChild, List.forall_mem_cons]
        refine ⟨hc1.1, fun i hi => ?_⟩
        -- a merged child comes from one of the two trees
        rcases h1 i hi with hi | hi
        · exact hc1.2 i hi
        · exact hc2.2 i hi
      · cases hu
        rw [CoherentValue, items_withChild, List.forall_mem_cons]
        exact ⟨hc2.1, fun i hi => hc2.2 i (h2 i hi)⟩

/-- Taking a profile over moves a coherent tree only. -/
theorem coherent_takeOver {profile : Nat} (hs : CoherentWorld s)
    (heq : s.takeOver w profile = some s') : CoherentWorld s' := by
  obtain ⟨s₁, hs₁, heq⟩ := Option.map_eq_some_iff.mp heq
  cases heq
  have hcoherent : CoherentWorld s₁ := coherent_assign hs (fun t ht => by cases ht) hs₁
  exact hcoherent

theorem coherent_merge {fuel profile : Nat} (hs : CoherentWorld s)
    (heq : s.merge w fuel profile = some s') : CoherentWorld s' := by
  rw [World.merge] at heq
  split at heq
  · exact coherent_mergeRoots hs heq
  · exact coherent_takeOver hs heq
  · cases heq
    exact hs

theorem coherent_reverse_merge {fuel profile : Nat} (hs : CoherentWorld s)
    (heq : s.reverse_merge w fuel profile = some s') : CoherentWorld s' := by
  rw [World.reverse_merge] at heq
  split at heq
  · obtain ⟨s₁, hs₁, heq⟩ := Option.bind_eq_some_iff.mp heq
    exact coherent_takeOver (coherent_mergeRoots hs hs₁) heq
  · exact coherent_takeOver hs heq
  · cases heq
    exact hs

theorem coherent_copy {rhs : Nat} (hs : CoherentWorld s) (heq : s.copy w rhs = some s') :
    CoherentWorld s' := by
  rw [World.copy] at heq
  split at heq
  · cases heq
    exact hs
  · obtain ⟨s₁, hs₁, heq⟩ := Option.bind_eq_some_iff.mp heq
    obtain ⟨t, ht, heq⟩ := Option.bind_eq_some_iff.mp heq
    have hs₁ : CoherentWorld s₁ := coherent_assign hs (fun t ht => by cases ht) hs₁
    refine coherent_assign hs₁ (fun u hu => ?_) heq
    obtain ⟨v, rfl, rfl⟩ := Option.map_eq_some_iff.mp hu
    exact coherent_duplicate (coherent_tree hs₁ ht)

/-- A setter of the root keeps coherence, in place and by replacing the root. -/
theorem coherent_setRoot {inPlace : Item → Bool} {f : Option Value → Value} (hs : CoherentWorld s)
    (hplace : ∀ t, s.tree w = some (some t) → inPlace t.item = true → CoherentValue (f (some t)))
    (hnew : ∀ t, s.tree w = some t → (t.any fun r => inPlace r.item) = false →
      CoherentValue (f t))
    (heq : s.setRoot w inPlace f = some s') : CoherentWorld s' := by
  obtain ⟨t, ht, heq⟩ := Option.bind_eq_some_iff.mp heq
  split at heq
  · next hany =>
    refine coherent_edit hs (fun u u' hu hu' => ?_) heq
    cases hu'
    obtain rfl := Option.some_inj.mp (ht.symm.trans hu)
    exact hplace u hu hany
  · next hany =>
    refine coherent_assign hs (fun u hu => ?_) heq
    cases hu
    exact hnew t ht (eq_false_of_ne_true hany)

end Trees

/-! ## Setting a number -/

namespace NumericSetter

/-- What a setter writes of a number that is there. -/
def inPlace (setter : NumericSetter) (value : Int32) (i : Item) : Item :=
  match setter with
  | int => { i with valueint := value.toInt }
  | uint | double => { i with valuedouble := value.toInt }

variable {setter : NumericSetter} {value : Int32}

/-- A value that is not negative is its own natural number. -/
theorem cast_toNat (h : 0 ≤ value.toInt) : ((value.toInt.toNat : Nat) : Rat) = value.toInt := by
  have hnat : ((value.toInt.toNat : Nat) : Int) = value.toInt := Int.toNat_of_nonneg h
  rw [← Int.cast_natCast, hnat]

/-- The three setters by name are one: update a number in place, replace anything else. -/
theorem set_eq (h : setter.Takes value) (name : CString) (t : Value) :
    setter.set name value (some t) = some (setMember name
      (fun i => if i.type = .Number then some (setter.inPlace value i) else none)
      (createNumber value.toInt) t) := by
  cases setter with
  | int => rfl
  | uint =>
    rw [set, setUIntValue, cast_toNat h]
    rfl
  | double => rfl

/-- At a number the setters of the root but `setIntValue` update in place. -/
theorem setRoot_of_number (h : setter.Takes value) (hsetter : setter ≠ int) {t : Value}
    (ht : t.item.type = .Number) :
    setter.setRoot value (some t) = t.withItem (setter.inPlace value t.item) := by
  cases setter with
  | int => exact absurd rfl hsetter
  | uint =>
    rw [setRoot, setUIntRoot, cast_toNat h, setDoubleRoot]
    exact if_pos ht
  | double =>
    rw [setRoot, setDoubleRoot]
    exact if_pos ht

/-- `setIntValue` of the root writes both fields of a number. -/
theorem setRoot_int {t : Value} (ht : t.item.type = .Number) :
    int.setRoot value (some t) =
      t.withItem { t.item with valueint := value.toInt, valuedouble := value.toInt } := by
  rw [setRoot, setIntRoot]
  exact if_pos ht

/-- At any other root the setter replaces it by a new number. -/
theorem setRoot_of_not (h : setter.Takes value) {t : Option Value}
    (ht : (t.any fun r => decide (r.item.type = .Number)) = false) :
    setter.setRoot value t = createNumber value.toInt := by
  have hint : setIntRoot value.toInt t = createNumber value.toInt := by
    cases t with
    | none => rfl
    | some t => exact if_neg (of_decide_eq_false ht)
  have hdouble : setDoubleRoot value.toInt t = createNumber value.toInt := by
    cases t with
    | none => rfl
    | some t => exact if_neg (of_decide_eq_false ht)
  cases setter with
  | int => exact hint
  | uint =>
    rw [setRoot, setUIntRoot, cast_toNat h]
    exact hdouble
  | double => exact hdouble

/-- Writing the value that is there changes nothing. -/
theorem inPlace_self {i : Item} (hi : CoherentItem i) (ht : i.type = .Number)
    (hvalue : i.valueint = value.toInt) : setter.inPlace value i = i := by
  obtain ⟨n, hint, hdouble⟩ := hi ht
  have hn : n.toInt = value.toInt := hint.symm.trans hvalue
  rw [hn] at hdouble
  obtain ⟨type, valuestring, valueint, valuedouble, string⟩ := i
  cases setter with
  | int =>
    cases hvalue
    rfl
  | uint =>
    cases hdouble
    rfl
  | double =>
    cases hdouble
    rfl

/-- **Writing another value leaves one copy behind.** -/
theorem eq_of_coherent_inPlace {i : Item} (hi : CoherentItem i) (ht : i.type = .Number)
    (h : CoherentItem (setter.inPlace value i)) : i.valueint = value.toInt := by
  obtain ⟨n, hint, hdouble⟩ := hi ht
  cases setter with
  | int =>
    obtain ⟨m, hmint, hmdouble⟩ := h ht
    have hnm : (n.toInt : Rat) = m.toInt := hdouble.symm.trans hmdouble
    rw [hint, Int.cast_inj.mp hnm, ← hmint]
    rfl
  | uint =>
    obtain ⟨m, hmint, hmdouble⟩ := h ht
    have hvm : (value.toInt : Rat) = m.toInt := hmdouble
    exact hmint.trans (Int.cast_inj.mp hvm).symm
  | double =>
    obtain ⟨m, hmint, hmdouble⟩ := h ht
    have hvm : (value.toInt : Rat) = m.toInt := hmdouble
    exact hmint.trans (Int.cast_inj.mp hvm).symm

/-- The update in place keeps the name of the item. -/
theorem inPlace_string (i : Item) : (setter.inPlace value i).string = i.string := by
  cases setter with
  | int => rfl
  | uint => rfl
  | double => rfl

end NumericSetter

section Shown

variable {S : Cjson.Sprintf} {name : CString} {value : Int32}

/-- Read as an unsigned number, a value that is not negative is itself. -/
theorem toUInt_int32 (h : 0 ≤ value.toInt) : toUInt value.toInt = value.toInt.toNat := by
  have hlt := value.toInt_lt
  rw [← NumericSetter.cast_toNat h, toUInt_natCast (by omega)]

/-- A number with the value in both copies is shown. -/
theorem shows_of_found {t node : Value} (hfind : findItem name t = some node)
    (htype : node.item.type = .Number) (hint : node.item.valueint = value.toInt)
    (hdouble : node.item.valuedouble = value.toInt) : Shows S name value (some t) := by
  have hnode : findNodeOf .Number name (some t) = some node := by
    rw [findNodeOf, findNode, Option.bind_some, hfind, Option.filter_some, if_pos]
    exact decide_eq_true htype
  constructor
  · intro defValue
    rw [getIntValue, hnode]
    exact hint
  · intro hvalue defValue
    rw [getUIntValue, hnode]
    show toUInt node.item.valuedouble = _
    rw [hdouble, toUInt_int32 hvalue]
  · intro defValue
    rw [getDoubleValue, hnode]
    exact hdouble
  · exact ⟨node, hnode, print_number_coherent S hint hdouble⟩

/-- A new number under the name shows the value. -/
theorem shows_of_new {t : Value}
    (hfind : findItem name t = some (named name (createNumber value.toInt))) :
    Shows S name value (some t) := by
  have hitem : (named name (createNumber value.toInt)).item =
      (numberItem value).withString name := by
    rw [createNumber_eq]
    rfl
  refine shows_of_found hfind ?_ ?_ ?_
  · rw [hitem]
    rfl
  · rw [hitem]
    rfl
  · rw [hitem]
    rfl

/-- A root that is a number and holds the value in both fields shows the value. -/
theorem showsRoot_of {t : Value} (htype : t.item.type = .Number)
    (hint : t.item.valueint = value.toInt) (hdouble : t.item.valuedouble = value.toInt) :
    ShowsRoot S value (some t) := by
  have hnode : (some t).filter (fun r => decide (r.item.type = .Number)) = some t := by
    rw [Option.filter_some, if_pos]
    exact decide_eq_true htype
  constructor
  · intro defValue
    rw [getIntRoot, hnode]
    exact hint
  · intro hvalue defValue
    rw [getUIntRoot, hnode]
    show toUInt t.item.valuedouble = _
    rw [hdouble, toUInt_int32 hvalue]
  · intro defValue
    rw [getDoubleRoot, hnode]
    exact hdouble
  · exact ⟨t, rfl, print_number_coherent S hint hdouble⟩

/-- A new number as the root shows the value. -/
theorem showsRoot_createNumber : ShowsRoot S value (some (createNumber value.toInt)) := by
  rw [createNumber_eq]
  exact showsRoot_of rfl rfl rfl

/-- Nothing is shown where there is no member. -/
theorem not_shows {t : Option Value} (h : findNodeOf .Number name t = none) :
    ¬ Shows S name value t := by
  rintro ⟨hint, -, -, -⟩
  have hdefault := hint (value.toInt + 1)
  rw [getIntValue, h] at hdefault
  have : value.toInt + 1 = value.toInt := hdefault
  omega

variable {s s' : World} {setter : NumericSetter} {w : Nat}

/-- The item that a setter of a member finds, or makes. -/
theorem findItem_set {t : Value} (hname : name ≠ []) :
    findItem name (setMember name
      (fun i => if i.type = .Number then some (setter.inPlace value i) else none)
      (createNumber value.toInt) t) = some (found name
      (fun i => if i.type = .Number then some (setter.inPlace value i) else none)
      (createNumber value.toInt) (findItem name t)) := by
  refine findItem_setMember hname fun i i' hi => ?_
  split at hi
  · cases hi
    exact NumericSetter.inPlace_string i
  · cases hi

/-- A member whose int copy is the value already stays a coherent one. -/
theorem coherent_setNumber {t : Value} (ht : CoherentValue t)
    (hkeeps : ∀ node, findItem name t = some node → node.item.type = .Number →
      node.item.valueint = value.toInt) :
    CoherentValue (setMember name
      (fun i => if i.type = .Number then some (setter.inPlace value i) else none)
      (createNumber value.toInt) t) := by
  refine coherent_setMember ht (coherent_createNumber value) fun node i hfind hi => ?_
  split at hi
  · next htype =>
    have hold := ht _ (mem_items_findItem hfind)
    cases hi
    rw [NumericSetter.inPlace_self hold htype (hkeeps node hfind htype)]
    exact hold
  · cases hi

/-- Such a member shows the value, and so does a new one. -/
theorem shows_setNumber {t : Value} (ht : CoherentValue t) (hname : name ≠ [])
    (hkeeps : ∀ node, findItem name t = some node → node.item.type = .Number →
      node.item.valueint = value.toInt) :
    Shows S name value (some (setMember name
      (fun i => if i.type = .Number then some (setter.inPlace value i) else none)
      (createNumber value.toInt) t)) := by
  have hfound := @findItem_set name value setter t hname
  -- the name is new, or it is that of a number, or that of something else, which is replaced
  cases hfind : findItem name t with
  | none =>
    rw [hfind, found] at hfound
    exact shows_of_new hfound
  | some node =>
    by_cases htype : node.item.type = .Number
    · have hold := ht _ (mem_items_findItem hfind)
      have hint := hkeeps node hfind htype
      rw [hfind, found, if_pos htype, NumericSetter.inPlace_self hold htype hint] at hfound
      -- the setter writes `valuedouble` only; `valueint` held the value already
      obtain ⟨n, hn, hdouble⟩ := hold htype
      rw [← hn, hint] at hdouble
      refine shows_of_found hfound ?_ ?_ ?_
      · rw [item_withItem]
        exact htype
      · rw [item_withItem]
        exact hint
      · rw [item_withItem]
        exact hdouble
    · rw [hfind, found, if_neg htype] at hfound
      exact shows_of_new hfound

/-- Setting a member, exactly. -/
theorem setNumber_iff (hs : CoherentWorld s) (htakes : setter.Takes value)
    (heq : s.edit w (setter.set name value) = some s') :
    (CoherentWorld s' ∧ ∃ t, s'.tree w = some t ∧ Shows S name value t) ↔
      name ≠ [] ∧ ∃ t, s.tree w = some (some t) ∧
        ∀ node, findItem name t = some node → node.item.type = .Number →
          node.item.valueint = value.toInt := by
  obtain ⟨t₀, ht₀⟩ := tree_of_edit heq
  cases t₀ with
  | none =>
    -- the wrapper has no tree, and nothing is set
    obtain rfl := edit_none ht₀ heq
    constructor
    · rintro ⟨-, t, ht, hshows⟩
      cases ht₀.symm.trans ht
      exact absurd hshows (not_shows rfl)
    · rintro ⟨-, t, ht, -⟩
      cases ht₀.symm.trans ht
  | some t =>
    have hcoherent := coherent_tree hs ht₀
    have hset := NumericSetter.set_eq htakes name t
    have htree := tree_edit ht₀ hset heq
    constructor
    · rintro ⟨hs', t', ht', hshows⟩
      obtain rfl := Option.some_inj.mp (htree.symm.trans ht')
      have hname : name ≠ [] := by
        rintro rfl
        exact not_shows rfl hshows
      refine ⟨hname, t, ht₀, fun node hfind htype => ?_⟩
      have hfound := @findItem_set name value setter t hname
      rw [hfind, found, if_pos htype] at hfound
      have hitem := coherent_tree hs' htree _ (mem_items_findItem hfound)
      rw [item_withItem] at hitem
      exact NumericSetter.eq_of_coherent_inPlace (hcoherent _ (mem_items_findItem hfind)) htype
        hitem
    · rintro ⟨hname, u, hu, hkeeps⟩
      cases ht₀.symm.trans hu
      refine ⟨coherent_edit hs (fun u u' hu hu' => ?_) heq, _, htree,
        shows_setNumber hcoherent hname hkeeps⟩
      cases ht₀.symm.trans hu
      cases hset.symm.trans hu'
      exact coherent_setNumber hcoherent hkeeps

/-- A tree is coherent with any coherent item at its root. -/
theorem coherent_withItem {t : Value} {i : Item} (ht : CoherentValue t) (hi : CoherentItem i) :
    CoherentValue (t.withItem i) := by
  intro j hj
  rw [items_withItem, List.mem_cons] at hj
  rw [CoherentValue, items_eq] at ht
  rcases hj with rfl | hj
  · exact hi
  · exact ht j (List.mem_cons_of_mem _ hj)

/-- A root that is not a number is replaced by one. -/
theorem setNumberRoot_new (hs : CoherentWorld s) (htakes : setter.Takes value) {t : Option Value}
    (hany : (t.any fun r => decide (r.item.type = .Number)) = false)
    (heq : s.assign w (some (setter.setRoot value t)) = some s') :
    CoherentWorld s' ∧ ∃ t, s'.tree w = some t ∧ ShowsRoot S value t := by
  rw [NumericSetter.setRoot_of_not htakes hany] at heq
  refine ⟨coherent_assign hs (fun u hu => ?_) heq, _, tree_assign heq, showsRoot_createNumber⟩
  cases hu
  exact coherent_createNumber value

theorem setNumberRoot_edit (hs : CoherentWorld s) {t : Value} {i : Item}
    (ht : s.tree w = some (some t)) (hset : setter.setRoot value (some t) = t.withItem i)
    (htype : i.type = .Number) (hint : i.valueint = value.toInt)
    (hdouble : i.valuedouble = value.toInt)
    (heq : s.edit w (fun t => some (setter.setRoot value t)) = some s') :
    CoherentWorld s' ∧ ∃ t, s'.tree w = some t ∧ ShowsRoot S value t := by
  constructor
  -- the tree is still coherent, and it shows the value
  · refine coherent_edit hs (fun u u' hu hu' => ?_) heq
    cases ht.symm.trans hu
    cases hu'
    rw [hset]
    exact coherent_withItem (coherent_tree hs ht) fun _ => ⟨value, hint, hdouble⟩
  · refine ⟨_, tree_edit ht rfl heq, ?_⟩
    rw [hset]
    refine showsRoot_of ?_ ?_ ?_
    · rw [item_withItem]
      exact htype
    · rw [item_withItem]
      exact hint
    · rw [item_withItem]
      exact hdouble

/-- A setter that writes one copy of a root leaves the other one behind, unless it is the same. -/
theorem setNumberRoot_number_iff (hs : CoherentWorld s) (htakes : setter.Takes value)
    (hint : setter ≠ .int) {t : Value} (ht : s.tree w = some (some t)) (htype : t.item.type = .Number)
    (heq : s.edit w (fun t => some (setter.setRoot value t)) = some s') :
    (CoherentWorld s' ∧ ∃ t, s'.tree w = some t ∧ ShowsRoot S value t) ↔
      t.item.valueint = value.toInt := by
  have hcoherent := coherent_tree hs ht
  have hitem : CoherentItem t.item := hcoherent _ (items_eq t ▸ List.mem_cons_self)
  have hset := NumericSetter.setRoot_of_number htakes hint htype
  constructor
  · rintro ⟨hs', -⟩
    have hnew := coherent_tree hs' (tree_edit ht rfl heq)
    rw [hset, CoherentValue, items_withItem] at hnew
    exact NumericSetter.eq_of_coherent_inPlace hitem htype (hnew _ List.mem_cons_self)
  · intro hvalue
    obtain ⟨n, hn, hdouble⟩ := hitem htype
    rw [← hn, hvalue] at hdouble
    rw [NumericSetter.inPlace_self hitem htype hvalue] at hset
    exact setNumberRoot_edit hs ht hset htype hvalue hdouble heq

/-- The condition on a root, for the setters that write one copy. -/
theorem keepsCopies_root (hint : setter ≠ .int) : KeepsCopies s (.setNumberRoot setter w value) ↔
    ∀ t, s.tree w = some (some t) → t.item.type = .Number → t.item.valueint = value.toInt := by
  cases setter with
  | int => exact absurd rfl hint
  | uint => exact Iff.rfl
  | double => exact Iff.rfl

/-- Setting a root, exactly. -/
theorem setNumberRoot_iff (hs : CoherentWorld s) (htakes : setter.Takes value)
    (heq : s.setRoot w (fun i => i.type = .Number) (setter.setRoot value) = some s') :
    (CoherentWorld s' ∧ ∃ t, s'.tree w = some t ∧ ShowsRoot S value t) ↔
      KeepsCopies s (.setNumberRoot setter w value) := by
  obtain ⟨t₀, ht₀, heq⟩ := Option.bind_eq_some_iff.mp heq
  split at heq
  · next hany =>
    cases t₀ with
    | none => cases hany
    | some t =>
      have htype : t.item.type = .Number := of_decide_eq_true hany
      by_cases hint : setter = .int
      · -- both copies are written
        subst hint
        refine iff_of_true ?_ trivial
        exact setNumberRoot_edit hs ht₀ (NumericSetter.setRoot_int htype) htype rfl rfl heq
      · rw [setNumberRoot_number_iff hs htakes hint ht₀ htype heq, keepsCopies_root hint]
        constructor
        · intro hvalue u hu _
          cases ht₀.symm.trans hu
          exact hvalue
        · exact fun hkeeps => hkeeps t ht₀ htype
  · next hany =>
    have hfalse := eq_false_of_ne_true hany
    refine iff_of_true (@setNumberRoot_new S _ _ _ _ _ hs htakes _ hfalse heq) ?_
    by_cases hint : setter = .int
    · subst hint
      trivial
    · refine (keepsCopies_root hint).mpr fun t ht htype => ?_
      cases ht₀.symm.trans ht
      exact absurd (decide_eq_true htype) hany

end Shown

/-! ## Runs -/

section Runs

variable {double : Cjson.Numeral → Rat} {S : Cjson.Sprintf} {s s' : World}

theorem coherent_setBoolean {w : Nat} {name : CString} {value : Bool} (hs : CoherentWorld s)
    (heq : s.edit w (setBooleanValue name value) = some s') : CoherentWorld s' := by
  refine coherent_edit hs (fun t t' ht ht' => ?_) heq
  cases ht'
  have hcoherent := coherent_tree hs ht
  refine coherent_setMember hcoherent (coherent_createBool value) fun node i hfind hi => ?_
  obtain ⟨-, hi⟩ := Option.ite_none_right_eq_some.mp hi
  rw [← Option.some_inj.mp hi]
  exact hcoherent _ (mem_items_findItem hfind)

theorem coherent_setString {w : Nat} {name : CString} {value : Option CString}
    (hs : CoherentWorld s) (heq : s.edit w (setStringValue name value) = some s') :
    CoherentWorld s' := by
  refine coherent_edit hs (fun t t' ht ht' => ?_) heq
  cases ht'
  have hcoherent := coherent_tree hs ht
  cases value with
  | some value =>
    exact coherent_setMember hcoherent (coherent_createString value) fun node i _ hi => by cases hi
  | none =>
    dsimp only
    split
    · intro i hi
      rcases items_editItem hi with hi | ⟨-, -, -, -, hi⟩
      · exact hcoherent i hi
      · exact absurd hi List.not_mem_nil
    · exact hcoherent

/-- `setObjectValue` of a coherent tree keeps the world coherent. -/
theorem coherent_setObject {w : Nat} {name : CString} {value : Option Value} (hs : CoherentWorld s)
    (hvalue : ∀ v, value = some v → CoherentValue v)
    (heq : s.edit w (setObjectValue name value) = some s') : CoherentWorld s' := by
  refine coherent_edit hs (fun t t' ht ht' => ?_) heq
  cases ht'
  have hcoherent := coherent_tree hs ht
  cases value with
  | some value =>
    exact coherent_setMember hcoherent (coherent_duplicate (hvalue value rfl))
      fun node i _ hi => by cases hi
  | none => exact hcoherent

theorem coherent_setBooleanRoot {w : Nat} {value : Bool} (hs : CoherentWorld s)
    (heq : s.setRoot w (fun i => i.type = .True ∨ i.type = .False) (setBooleanRoot value) =
      some s') : CoherentWorld s' := by
  refine coherent_setRoot hs (fun t ht hplace => ?_) (fun t _ hany => ?_) heq
  -- a root that is a truth value becomes the other type; any other root is replaced by a number
  · have hplace := of_decide_eq_true hplace
    rw [setBooleanRoot]
    dsimp only
    rw [if_pos hplace]
    refine coherent_withItem (coherent_tree hs ht) (coherentItem_of_type ?_)
    cases value
    · exact nofun
    · exact nofun
  · have hnumber : setBooleanRoot value t = createNumber (if value then 1 else 0) := by
      cases t with
      | none => rfl
      | some t => exact if_neg (of_decide_eq_false hany)
    rw [hnumber]
    cases value
    · exact coherent_createNumber 0
    · exact coherent_createNumber 1

/-- **One step, exactly.** -/
theorem step_iff {op : Op} (hs : CoherentWorld s) (hstep : Step double s op s') :
    GoodStep S (s, op, s') ↔ KeepsCopies s op := by
  obtain ⟨fuel, hrange, heq⟩ := hstep
  -- only the setters of numbers can leave the two fields apart or lose the value
  cases op with
  | parse w input =>
    obtain ⟨tree, htree, heq⟩ := Option.bind_eq_some_iff.mp heq
    refine iff_of_true ⟨coherent_assign hs (fun t ht => ?_) heq, trivial⟩ trivial
    subst ht
    -- a parsed number is an `int`, and both fields hold it
    exact coherent_parsed htree (hrange t htree)
  | setObjectType w =>
    refine iff_of_true ⟨coherent_assign hs (fun t ht => ?_) heq, trivial⟩ trivial
    cases ht
    exact coherent_leaf (coherentItem_of_type nofun)
  | setArrayType w =>
    refine iff_of_true ⟨coherent_assign hs (fun t ht => ?_) heq, trivial⟩ trivial
    cases ht
    exact coherent_leaf (coherentItem_of_type nofun)
  | setNumber setter w name value => exact setNumber_iff hs hrange heq
  | setBoolean w name value => exact iff_of_true ⟨coherent_setBoolean hs heq, trivial⟩ trivial
  | setString w name value => exact iff_of_true ⟨coherent_setString hs heq, trivial⟩ trivial
  | setObject w name value =>
    obtain ⟨t, ht, heq⟩ := Option.bind_eq_some_iff.mp heq
    refine iff_of_true ⟨coherent_setObject hs (fun v hv => ?_) heq, trivial⟩ trivial
    cases hv
    exact coherent_tree hs ht
  | setNumberRoot setter w value => exact setNumberRoot_iff hs hrange heq
  | setBooleanRoot w value => exact iff_of_true ⟨coherent_setBooleanRoot hs heq, trivial⟩ trivial
  | setStringRoot w value =>
    refine iff_of_true ⟨coherent_assign hs (fun t ht => ?_) heq, trivial⟩ trivial
    cases ht
    exact coherent_createString value
  | merge w profile => exact iff_of_true ⟨coherent_merge hs heq, trivial⟩ trivial
  | reverse_merge w profile => exact iff_of_true ⟨coherent_reverse_merge hs heq, trivial⟩ trivial
  | copy w rhs => exact iff_of_true ⟨coherent_copy hs heq, trivial⟩ trivial

theorem coherent_initial : CoherentWorld World.initial := nofun

/-- **In every run, all numbers are coherent and what is set is shown, exactly as long as no step
    leaves a copy behind.** -/
theorem coherent_iff (double : Cjson.Numeral → Rat) (S : Cjson.Sprintf) {s : World}
    {ts : List (World × Op × World)} (hrun : Run (Step double) World.initial ts s) :
    (∀ x ∈ ts, GoodStep S x) ↔ ∀ x ∈ ts, KeepsCopies x.1 x.2.1 := by
  apply Run.steps_iff _ _ hrun coherent_initial
  · intro s op s' hs hstep
    exact step_iff hs hstep
  · intro s op s' hs hkeeps hstep
    exact ((@step_iff _ S _ _ _ hs hstep).mpr hkeeps).1

/-- A run goes on with an operation that is performed. -/
theorem run_snoc {s s' s'' : World} {ts : List (World × Op × World)}
    (hrun : Run (Step double) s ts s') (fuel : Nat) (op : Op) (hrange : op.InRange double fuel)
    (heq : perform double fuel s' op = some s'') : Run (Step double) s (ts ++ [(s', op, s'')]) s'' :=
  hrun.snoc ⟨fuel, hrange, heq⟩

/-- `[5]`, as it is parsed. -/
def sampleArray : Value := Cjson.Kind.array.node [createNumber 5]

/-- The text `[5]` -/
def sampleText : List UInt8 := [91, 53, 93, 0]

theorem parsed_sample : parsed Cjson.wholeDouble 2 (some sampleText) = some (some sampleArray) := by
  with_unfolding_all rfl

theorem integral_sample : Integral sampleArray := by
  intro i hi htype
  rcases List.mem_cons.mp hi with rfl | hi
  · cases htype
  · obtain rfl := List.mem_singleton.mp hi
    exact ⟨5, rfl⟩

/-- A text is parsed; an object gets a member, which is set to the value that it has, and is copied. -/
theorem coherent_iff_copied : ∃ ts s, Run (Step Cjson.wholeDouble) World.initial ts s ∧
    ts.map (·.2.1) = [.parse 0 (some sampleText), .setObjectType 0, .setNumber .int 0 (ascii "a") 5,
      .setNumber .uint 0 (ascii "a") 5, .copy 1 0, .setNumberRoot .int 1 7] ∧
    ∀ x ∈ ts, GoodStep .whole x := by
  have hfive : NumericSetter.uint.Takes 5 := by
    show 0 ≤ Int32.toInt 5
    decide
  have hrange : (Op.parse 0 (some sampleText)).InRange Cjson.wholeDouble 2 := by
    intro t ht
    cases parsed_sample.symm.trans ht
    exact integral_sample
  have hparse : perform Cjson.wholeDouble 2 World.initial (.parse 0 (some sampleText)) =
      World.initial.assign 0 (some sampleArray) := by
    rw [perform, parsed_sample, Option.bind_some]
  have hrun₁ := run_snoc (Run.nil World.initial) 2 (.parse 0 (some sampleText)) hrange hparse
  -- each step is in range and computes what it says
  have hrun₂ := run_snoc hrun₁ 0 (.setObjectType 0) trivial rfl
  have hrun₃ := run_snoc hrun₂ 0 (.setNumber .int 0 (ascii "a") 5) trivial rfl
  have hrun₄ := run_snoc hrun₃ 0 (.setNumber .uint 0 (ascii "a") 5) hfive rfl
  have hrun₅ := run_snoc hrun₄ 0 (.copy 1 0) trivial rfl
  have hrun := run_snoc hrun₅ 0 (.setNumberRoot .int 1 7) trivial rfl
  refine ⟨_, _, hrun, rfl, (coherent_iff _ _ hrun).mpr ?_⟩
  simp only [List.mem_append, List.mem_singleton, List.not_mem_nil, false_or]
  rintro x (((((rfl | rfl) | rfl) | rfl) | rfl) | rfl)
  · trivial
  · trivial
  -- the name is new at the third step and holds 5 at the fourth
  · refine ⟨by decide, _, rfl, fun node hnode => ?_⟩
    cases hnode
  · refine ⟨by decide, _, rfl, fun node hnode _ => ?_⟩
    cases hnode
    rfl
  · trivial
  · trivial

/-- **`setIntValue` on a member that is a number leaves the old `double` behind.** -/
theorem setIntValue_leaves_double : ∃ ts s t, Run (Step Cjson.wholeDouble) World.initial ts s ∧
    ts.map (·.2.1) = [.setObjectType 0, .setNumber .int 0 (ascii "a") 1,
      .setNumber .int 0 (ascii "a") 2] ∧
    s.tree 0 = some t ∧ getIntValue (ascii "a") 0 t = 2 ∧ getDoubleValue (ascii "a") 0 t = 1 ∧
    getUIntValue (ascii "a") 0 t = 1 ∧ ¬ CoherentWorld s := by
  have hnil : Run (Step Cjson.wholeDouble) World.initial [] World.initial := Run.nil _
  have hrun₁ := run_snoc hnil 0 (.setObjectType 0) trivial rfl
  have hrun₂ := run_snoc hrun₁ 0 (.setNumber .int 0 (ascii "a") 1) trivial rfl
  have hrun := run_snoc hrun₂ 0 (.setNumber .int 0 (ascii "a") 2) trivial rfl
  refine ⟨_, _, _, hrun, rfl, rfl, rfl, rfl, rfl, fun hcoherent => ?_⟩
  have hfind : ∀ t node, findItem (ascii "a") t = some node → CoherentValue t →
      CoherentItem node.item := fun t node hnode ht => ht _ (mem_items_findItem hnode)
  obtain ⟨n, hint, hdouble⟩ := hfind _ _ rfl (hcoherent 0 _ rfl) rfl
  have htwo : (2 : Int) = n.toInt := hint
  have hone : (1 : Rat) = n.toInt := hdouble
  rw [← htwo] at hone
  exact absurd hone (by decide)

end Runs

end Coherence

end Turnserver
