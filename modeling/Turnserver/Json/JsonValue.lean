/-
  THE WRAPPER ON A VALUE (`new_elbs/json_wrapper.cc`, 275–608, `new_elbs/cJSON.cc`) — the getters and
  the setters of a wrapper that owns its tree.

  Here the tree is its `Value`: what the list operations do to the children on the heap is the matter
  of `CJSON`.  A wrapper without a tree is `none`; a name is never a null pointer.

  A number is stored twice, as an `int` and as a `double`.  The getters read one copy or the other, and
  so do the setters of a member that is there already.
-/
import Turnserver.Json.Merge
import Mathlib.Algebra.GroupWithZero.Nat
import Mathlib.Algebra.Ring.Int.Defs

namespace Turnserver

open LinkedTree Node

/-- `num` without its fraction. -/
def truncate (num : Rat) : Int := num.num.tdiv num.den

/-- `(int)num`.  Outside the range of an `int` C leaves the result open; x86 gives `INT_MIN`. -/
def toInt (num : Rat) : Int :=
  if -2 ^ 31 ≤ truncate num ∧ truncate num < 2 ^ 31 then truncate num else -2 ^ 31

/-- `(unsigned int)num`.  x86 converts to 64 bits, which gives `INT64_MIN` outside their range, and
    keeps the low half. -/
def toUInt (num : Rat) : Nat :=
  if -2 ^ 63 ≤ truncate num ∧ truncate num < 2 ^ 63 then (truncate num % 2 ^ 32).toNat else 0

/-- An integer is not truncated. -/
theorem truncate_intCast (n : Int) : truncate n = n := by
  rw [truncate, Rat.num_intCast, Rat.den_intCast]
  exact Int.tdiv_one n

/-- An integer of the range of an `int` stays as it is. -/
theorem toInt_intCast {n : Int} (hlow : -2 ^ 31 ≤ n) (hhigh : n < 2 ^ 31) : toInt n = n := by
  rw [toInt, truncate_intCast, if_pos ⟨hlow, hhigh⟩]

/-- An `int32` value is kept as it is. -/
theorem toInt_int32 (n : Int32) : toInt n.toInt = n.toInt :=
  toInt_intCast n.le_toInt n.toInt_lt

/-- Whatever the number, the result is an `int`. -/
theorem toInt_range (num : Rat) : -2 ^ 31 ≤ toInt num ∧ toInt num < 2 ^ 31 := by
  rw [toInt]
  split
  · next h => exact h
  · constructor <;> omega

/-- An integer of the range of an `unsigned int` stays as it is. -/
theorem toUInt_natCast {n : Nat} (h : n < 2 ^ 32) : toUInt n = n := by
  have hcast : ((n : Nat) : Rat) = ((n : Int) : Rat) := (Rat.intCast_natCast n).symm
  rw [toUInt, hcast, truncate_intCast, if_pos (by omega), Int.emod_eq_of_lt (by omega) (by omega)]
  exact Int.toNat_natCast n

/-! ## Nodes -/

/-- `cJSON_New_Item()` -/
def newItem : Item := ⟨.False, none, 0, 0, none⟩

/-- `cJSON_CreateNumber` -/
def createNumber (num : Rat) : Value :=
  .mk () { newItem with type := .Number, valuedouble := num, valueint := toInt num } []

/-- `cJSON_CreateBool` -/
def createBool (b : Bool) : Value := .mk () { newItem with type := if b then .True else .False } []

/-- `cJSON_CreateString` -/
def createString (string : CString) : Value :=
  .mk () { newItem with type := .String, valuestring := some string } []

/-- `cJSON_CreateObject` -/
def createObject : Value := .mk () { newItem with type := .Object } []

/-- `cJSON_CreateArray` -/
def createArray : Value := .mk () { newItem with type := .Array } []

/-- The item with the name `name`. -/
def named (name : CString) (item : Value) : Value := item.withItem (item.item.withString name)

/-- `cJSON_AddItemToObject(object, name, item)` -/
def addItemToObject (name : CString) (item object : Value) : Value :=
  object.withChild (object.child ++ [named name item])

/-- What becomes of the first item of that name: `f` gives the items that take its place. -/
def editItem (name : CString) (f : Value → List Value) (object : Value) : Value :=
  match lookup name object.child with
  | none => object
  | some (before, item, after) => object.withChild (before ++ f item ++ after)

/-- `cJSON_ReplaceItemInObject(object, name, newitem)` -/
def replaceItem (name : CString) (newitem object : Value) : Value :=
  editItem name (fun _ => [named name newitem]) object

/-- `cJSON_DeleteItemFromObject(object, name)` -/
def deleteItem (name : CString) (object : Value) : Value := editItem name (fun _ => []) object

/-- The fields of the first item of that name are written. -/
def writeItem (name : CString) (f : Item → Item) (object : Value) : Value :=
  editItem name (fun item => [item.withItem (f item.item)]) object

/-! ## Getters -/

/-- The bytes of a name in the source. -/
def ascii (s : String) : CString := s.toList.map fun c => .ofNat c.toNat

/-- `findNode(name)` in the tree of a valid wrapper. -/
def findItem (name : CString) (root : Value) : Option Value :=
  if name = [] then none else (lookup name root.child).map fun (_, item, _) => item

/-- `findNode(name)` -/
def findNode (name : CString) (root : Option Value) : Option Value := root.bind (findItem name)

/-- `findNode(name, type)` -/
def findNodeOf (type : JsonType) (name : CString) (root : Option Value) : Option Value :=
  (findNode name root).filter fun node => node.item.type = type

/-- `getIntValue(name)` -/
def getIntValue (name : CString) (defValue : Int) (root : Option Value) : Int :=
  (findNodeOf .Number name root).elim defValue fun node => node.item.valueint

/-- `getUIntValue(name)` -/
def getUIntValue (name : CString) (defValue : Nat) (root : Option Value) : Nat :=
  (findNodeOf .Number name root).elim defValue fun node => toUInt node.item.valuedouble

/-- `getDoubleValue(name)` -/
def getDoubleValue (name : CString) (defValue : Rat) (root : Option Value) : Rat :=
  (findNodeOf .Number name root).elim defValue fun node => node.item.valuedouble

/-- Whether there is a number of that name, and what `value` is afterwards. -/
def tryGetIntValue (name : CString) (value : Int) (root : Option Value) : Bool × Int :=
  match findNodeOf .Number name root with
  | none => (false, value)
  | some node => (true, node.item.valueint)

/-- `tryGetStringValue(name)` -/
def tryGetStringValue (name value : CString) (root : Option Value) : Bool × CString :=
  match findNodeOf .String name root with
  | none => (false, value)
  | some node => (true, node.item.valuestring.getD value)

/-- `getIntValue(defValue)` of the root -/
def getIntRoot (defValue : Int) (root : Option Value) : Int :=
  (root.filter fun r => r.item.type = .Number).elim defValue fun r => r.item.valueint

/-- `getUIntValue()` of the root -/
def getUIntRoot (defValue : Nat) (root : Option Value) : Nat :=
  (root.filter fun r => r.item.type = .Number).elim defValue fun r => toUInt r.item.valuedouble

/-- `getDoubleValue()` of the root -/
def getDoubleRoot (defValue : Rat) (root : Option Value) : Rat :=
  (root.filter fun r => r.item.type = .Number).elim defValue fun r => r.item.valuedouble

/-- `tryGetUIntValue(name)` -/
def tryGetUIntValue (name : CString) (value : Nat) (root : Option Value) : Bool × Nat :=
  match findNodeOf .Number name root with
  | none => (false, value)
  | some node => (true, toUInt node.item.valuedouble)

/-- `getStringValue(name)` -/
def getStringValue (name : CString) (defValue : Option CString) (root : Option Value) :
    Option CString :=
  (findNodeOf .String name root).elim defValue fun node => node.item.valuestring

/-- The end of the getters of a boolean; `node` is where the value is looked for. -/
def booleanOf (defValue : Bool) (node : Option Value) : Bool :=
  match node with
  | none => defValue
  | some node =>
    if node.item.type = .True then true
    else if node.item.type = .False then false
    else defValue

/-- `getBooleanValue(name)` -/
def getBooleanValue (name : CString) (defValue : Bool) (root : Option Value) : Bool :=
  booleanOf defValue (findNode name root)

/-- Whether there is an item of that name, whatever its type, and what `value` is afterwards. -/
def tryGetBooleanValue (name : CString) (value : Bool) (root : Option Value) : Bool × Bool :=
  match findNode name root with
  | none => (false, value)
  | some node =>
    (true, if node.item.type = .True then true
      else if node.item.type = .False then false
      else value)

/-- `getObject(name)`: a wrapper that borrows the item. -/
def getObject (name : CString) (root : Option Value) : Option Value := findNodeOf .Object name root

/-- `getArray(name)` -/
def getArray (name : CString) (root : Option Value) : Option Value := findNodeOf .Array name root

/-- `getBooleanValue()` of the root -/
def getBooleanRoot (defValue : Bool) (root : Option Value) : Bool := booleanOf defValue root

/-- `getStringValue()` of the root -/
def getStringRoot (defValue : Option CString) (root : Option Value) : Option CString :=
  (root.filter fun r => r.item.type = .String).elim defValue fun r => r.item.valuestring

/-! ## Setters of a member -/

/-- The shape of the setters by name: an item that `inPlace` accepts is written, another one is
    replaced, and where there is none one is added. -/
def setMember (name : CString) (inPlace : Item → Option Item) (newitem root : Value) : Value :=
  match findItem name root with
  | none => addItemToObject name newitem root
  | some node =>
    match inPlace node.item with
    | some _ => writeItem name (fun i => (inPlace i).getD i) root
    | none => replaceItem name newitem root

/-- `setIntValue(name, value)` -/
def setIntValue (name : CString) (value : Int) (root : Option Value) : Option Value :=
  root.map (setMember name
    (fun i => if i.type = .Number then some { i with valueint := value } else none)
    (createNumber value))

/-- `setDoubleValue(name, value)` -/
def setDoubleValue (name : CString) (value : Rat) (root : Option Value) : Option Value :=
  root.map (setMember name
    (fun i => if i.type = .Number then some { i with valuedouble := value } else none)
    (createNumber value))

/-- `setUIntValue(name, value)` -/
def setUIntValue (name : CString) (value : Nat) (root : Option Value) : Option Value :=
  setDoubleValue name value root

/-- `setBooleanValue(name, value)`: an item that has the value already stays. -/
def setBooleanValue (name : CString) (value : Bool) (root : Option Value) : Option Value :=
  root.map (setMember name
    (fun i => if i.type = (if value then .True else .False) then some i else none)
    (createBool value))

/-- `setStringValue(name, value)`: a null pointer deletes the item. -/
def setStringValue (name : CString) (value : Option CString) (root : Option Value) : Option Value :=
  root.map fun root =>
    match value with
    | some value => setMember name (fun _ => none) (createString value) root
    | none => if (findItem name root).isSome then deleteItem name root else root

/-- `setObjectValue(name, value)`: the item is a duplicate. -/
def setObjectValue (name : CString) (value : Option Value) (root : Option Value) : Option Value :=
  root.map fun root =>
    match value with
    | some value => setMember name (fun _ => none) (duplicate value) root
    | none => root

/-! ## Setters of the root -/

/-- `setIntValue(value)` writes both copies of a number. -/
def setIntRoot (value : Int) (root : Option Value) : Value :=
  match root with
  | some r =>
    if r.item.type = .Number then r.withItem { r.item with valueint := value, valuedouble := value }
    else createNumber value
  | none => createNumber value

/-- `setDoubleValue(value)` -/
def setDoubleRoot (value : Rat) (root : Option Value) : Value :=
  match root with
  | some r =>
    if r.item.type = .Number then r.withItem { r.item with valuedouble := value }
    else createNumber value
  | none => createNumber value

/-- `setUIntValue(value)` -/
def setUIntRoot (value : Nat) (root : Option Value) : Value := setDoubleRoot value root

/-- `setBooleanValue(value)`: what is not a boolean becomes a number. -/
def setBooleanRoot (value : Bool) (root : Option Value) : Value :=
  match root with
  | some r =>
    if r.item.type = .True ∨ r.item.type = .False then
      r.withItem { r.item with type := if value then .True else .False }
    else createNumber (if value then 1 else 0)
  | none => createNumber (if value then 1 else 0)

/-- `setStringValue(value)` -/
def setStringRoot (value : CString) (_root : Option Value) : Value := createString value

/-! ## What a setter does to the tree -/

section Items

variable {name : CString} {root newitem : Value} {inPlace : Item → Option Item}

/-- By a name that is not empty, the item of the first child of that name is found. -/
theorem findItem_of_ne_nil (hname : name ≠ []) :
    findItem name root = (lookup name root.child).map fun (_, item, _) => item :=
  if_neg hname

/-- A named item has that name. -/
theorem string_named (name : CString) (item : Value) :
    (named name item).item.string = some name := by
  rw [named, item_withItem]
  rfl

/-- What is found after `setMember`. -/
def found (name : CString) (inPlace : Item → Option Item) (newitem : Value) :
    Option Value → Value
  | none => named name newitem
  | some node =>
    match inPlace node.item with
    | some i => node.withItem i
    | none => named name newitem

/-- **What is set is found.** -/
theorem findItem_setMember (hname : name ≠ [])
    (hstring : ∀ i i', inPlace i = some i' → i'.string = i.string) :
    findItem name (setMember name inPlace newitem root) =
      some (found name inPlace newitem (findItem name root)) := by
  -- the new member answers to its name
  have hself : strcasecmp (named name newitem).item.string (some name) = 0 := by
    rw [string_named]
    exact strcasecmp_self _
  rw [setMember]
  cases hl : lookup name root.child with
  -- no child has the name: the new one is appended
  | none =>
    have hfind : findItem name root = none := by
      rw [findItem_of_ne_nil hname, hl]
      rfl
    rw [hfind]
    dsimp only
    rw [findItem_of_ne_nil hname, addItemToObject, child_withChild,
      lookup_eq_some.mpr ⟨rfl, lookup_eq_none.mp hl, hself⟩]
    rfl
  | some r =>
    obtain ⟨before, m, after⟩ := r
    obtain ⟨-, hbefore, hm⟩ := lookup_eq_some.mp hl
    have hfind : findItem name root = some m := by
      rw [findItem_of_ne_nil hname, hl]
      rfl
    rw [hfind]
    dsimp only
    cases hplace : inPlace m.item with
    -- the first child of the name is replaced
    | none =>
      dsimp only
      rw [findItem_of_ne_nil hname, replaceItem, editItem, hl]
      dsimp only
      rw [child_withChild, List.append_assoc, List.singleton_append,
        lookup_eq_some.mpr ⟨rfl, hbefore, hself⟩, found, hplace]
      rfl
    -- the first child of the name is updated where it stands, and keeps its name
    | some i =>
      have hi : strcasecmp (m.withItem i).item.string (some name) = 0 := by
        rw [item_withItem, hstring _ _ hplace]
        exact hm
      dsimp only
      rw [findItem_of_ne_nil hname, writeItem, editItem, hl]
      dsimp only
      rw [hplace, Option.getD_some, child_withChild, List.append_assoc, List.singleton_append,
        lookup_eq_some.mpr ⟨rfl, hbefore, hi⟩, found, hplace]
      rfl

/-- An item of an edited tree is an old one, or one of those that were put in. -/
theorem items_editItem {f : Value → List Value} {i : Item}
    (hi : i ∈ (editItem name f root).items) :
    i ∈ root.items ∨ ∃ before m after, lookup name root.child = some (before, m, after) ∧
      i ∈ itemsAll (f m) := by
  rw [editItem] at hi
  cases hl : lookup name root.child with
  | none =>
    rw [hl] at hi
    exact Or.inl hi
  | some r =>
    obtain ⟨before, m, after⟩ := r
    rw [hl] at hi
    dsimp only at hi
    rw [items_withChild, itemsAll_append, itemsAll_append, List.mem_cons, List.mem_append,
      List.mem_append] at hi
    rw [items_eq, lookup_some hl, itemsAll_append, itemsAll, List.mem_cons, List.mem_append,
      List.mem_append]
    -- the root, the children in front, the one that is edited, or the children behind
    rcases hi with hi | (hi | hi) | hi
    · exact Or.inl (Or.inl hi)
    · exact Or.inl (Or.inr (Or.inl hi))
    · exact Or.inr ⟨before, m, after, rfl, hi⟩
    · exact Or.inl (Or.inr (Or.inr (Or.inr hi)))

/-- An item after `setMember` is an old one, one of the new node, or one written in place. -/
theorem items_setMember {i : Item} (hi : i ∈ (setMember name inPlace newitem root).items) :
    i ∈ root.items ∨ i ∈ (named name newitem).items ∨
      ∃ node, findItem name root = some node ∧ inPlace node.item = some i := by
  rw [setMember] at hi
  cases hfind : findItem name root with
  | none =>
    rw [hfind] at hi
    dsimp only at hi
    rw [addItemToObject, items_withChild, itemsAll_append, itemsAll, itemsAll, List.append_nil,
      List.mem_cons, List.mem_append] at hi
    rw [items_eq root, List.mem_cons]
    -- an item of the root, of its children, or of the new member
    tauto
  | some node =>
    rw [hfind] at hi
    dsimp only at hi
    -- `findItem` and the lookup find the same child
    have hlook : ∀ before m after, lookup name root.child = some (before, m, after) → m = node := by
      intro before m after hl
      rw [findItem, hl] at hfind
      split at hfind
      · cases hfind
      · exact Option.some_inj.mp hfind
    cases hplace : inPlace node.item with
    | none =>
      rw [hplace] at hi
      -- what is not new was there before
      rcases items_editItem hi with hi | ⟨-, -, -, -, hi⟩
      · exact Or.inl hi
      · rw [itemsAll, itemsAll, List.append_nil] at hi
        exact Or.inr (Or.inl hi)
    | some i' =>
      rw [hplace] at hi
      rcases items_editItem hi with hi | ⟨before, m, after, hl, hi⟩
      · exact Or.inl hi
      · obtain rfl := hlook before m after hl
        rw [itemsAll, itemsAll, List.append_nil, items_withItem, List.mem_cons] at hi
        rcases hi with hi | hi
        · dsimp only at hi
          rw [hplace, Option.getD_some] at hi
          exact Or.inr (Or.inr ⟨m, rfl, hi ▸ hplace⟩)
        -- below the updated node nothing changes
        · refine Or.inl ?_
          rw [items_eq root, lookup_some hl, itemsAll_append, itemsAll, items_eq m, List.mem_cons,
            List.mem_append, List.mem_append, List.mem_cons]
          exact Or.inr (Or.inr (Or.inl (Or.inr hi)))

/-- What is found is one of the items of the tree. -/
theorem mem_items_findItem {node : Value} (h : findItem name root = some node) :
    node.item ∈ root.items := by
  rw [findItem] at h
  split at h
  · cases h
  · obtain ⟨⟨before, m, after⟩, hl, rfl⟩ := Option.map_eq_some_iff.mp h
    rw [items_eq root, lookup_some hl, itemsAll_append, itemsAll, items_eq m, List.mem_cons,
      List.mem_append, List.mem_append, List.mem_cons]
    exact Or.inr (Or.inr (Or.inl (Or.inl rfl)))

end Items

end Turnserver
