/-
  THE THREE FAMILIES OF ACCESSORS (`new_elbs/json_wrapper.cc`, 187–218, 274–391, 441–477, 619–710) —
  by name, by index, and `tryGet*`.

  Each family does the lookup and the check of the type by hand.  An accessor by index is `none` where
  the code reads through a null pointer.  A null name and an empty one are the same here: `findNode`
  refuses both.

  What is asked for is said without the code: the element at an index (`elementAt`), the first member
  of a name (`memberNamed`), the types that an accessor asks for (`Accessor.types`).
  * `byName_eq`: by name the type is always checked, but an empty name finds nothing;
  * `byIndex_eq`: by index four getters return their field of any node, a negative index finds the
    first node, and `getArray` needs that there is a node;
  * `accessors_iff`: for every call, exactly when the families agree and the default is returned
    where it should be.
-/
import Turnserver.Json.JsonValue

namespace Turnserver

open LinkedTree Node

/-! ## Access by index -/

/-- `while (c && item>0) item--,c=c->next` -/
def skip : List Value → Int → Option Value
  | [], _ => none
  | c :: cs, item => if item > 0 then skip cs (item - 1) else some c

/-- `cJSON_GetArrayItem` -/
def getArrayItem (item : Int) (array : Value) : Option Value := skip array.child item

/-- `findNode(index)` -/
def findNodeAt (index : Int) (root : Option Value) : Option Value := root.bind (getArrayItem index)

/-- `getIntValue(index)`: the type of the element is not checked. -/
def getIntValueAt (index : Int) (defValue : Int) (root : Option Value) : Int :=
  (findNodeAt index root).elim defValue fun node => node.item.valueint

/-- `getUIntValue(index)`: the type of the element is not checked. -/
def getUIntValueAt (index : Int) (defValue : Nat) (root : Option Value) : Nat :=
  (findNodeAt index root).elim defValue fun node => toUInt node.item.valuedouble

/-- `getDoubleValue(index)`: the type of the element is not checked. -/
def getDoubleValueAt (index : Int) (defValue : Rat) (root : Option Value) : Rat :=
  (findNodeAt index root).elim defValue fun node => node.item.valuedouble

/-- `getStringValue(index)`: the type of the element is not checked. -/
def getStringValueAt (index : Int) (defValue : Option CString) (root : Option Value) :
    Option CString :=
  (findNodeAt index root).elim defValue fun node => node.item.valuestring

/-- `getBooleanValue(index)` -/
def getBooleanValueAt (index : Int) (defValue : Bool) (root : Option Value) : Bool :=
  booleanOf defValue (findNodeAt index root)

/-- `getArray(index)`: `r.getRoot()->type` is read whether or not there is a node. -/
def getArrayAt (index : Int) (root : Option Value) : Option (Option Value) := do
  let node ← findNodeAt index root
  some (if node.item.type = .Array then some node else none)

/-! ## The predicates -/

/-- The shape of the predicates by name. -/
def isOfType (type : JsonType) (name : CString) (root : Option Value) : Bool :=
  (findNodeOf type name root).isSome

/-- The shape of the predicates by index. -/
def isOfTypeAt (type : JsonType) (index : Int) (root : Option Value) : Bool :=
  (findNodeAt index root).any fun node => node.item.type = type

/-- `node->type == cJSON_True || node->type == cJSON_False` of a node that is there -/
def booleanNode (node : Option Value) : Bool :=
  node.any fun node => node.item.type = .True ∨ node.item.type = .False

/-- `isNull(name)` -/
def isNull (name : CString) (root : Option Value) : Bool := isOfType .NULL name root

/-- `isNull(index)` -/
def isNullAt (index : Int) (root : Option Value) : Bool := isOfTypeAt .NULL index root

/-- `isString(name)` -/
def isString (name : CString) (root : Option Value) : Bool := isOfType .String name root

/-- `isString(index)` -/
def isStringAt (index : Int) (root : Option Value) : Bool := isOfTypeAt .String index root

/-- `isNumber(name)` -/
def isNumber (name : CString) (root : Option Value) : Bool := isOfType .Number name root

/-- `isNumber(index)` -/
def isNumberAt (index : Int) (root : Option Value) : Bool := isOfTypeAt .Number index root

/-- `isBoolean(name)`: the two types of a truth value. -/
def isBoolean (name : CString) (root : Option Value) : Bool := booleanNode (findNode name root)

/-- `isBoolean(index)` -/
def isBooleanAt (index : Int) (root : Option Value) : Bool := booleanNode (findNodeAt index root)

/-- `isObject(name)` -/
def isObject (name : CString) (root : Option Value) : Bool := isOfType .Object name root

/-- `isObject(index)` -/
def isObjectAt (index : Int) (root : Option Value) : Bool := isOfTypeAt .Object index root

/-- `isArray(name)` -/
def isArray (name : CString) (root : Option Value) : Bool := isOfType .Array name root

/-- `isArray(index)` -/
def isArrayAt (index : Int) (root : Option Value) : Bool := isOfTypeAt .Array index root

/-- A member that is found is returned if it has the type. -/
theorem findNodeOf_some {type : JsonType} {name : CString} {root : Option Value} {node : Value}
    (h : findNode name root = some node) :
    findNodeOf type name root = if node.item.type = type then some node else none := by
  rw [findNodeOf, h, Option.filter_some]
  simp

/-- What is not found by its name is not found by name and type either. -/
theorem findNodeOf_none {type : JsonType} {name : CString} {root : Option Value}
    (h : findNode name root = none) : findNodeOf type name root = none := by
  rw [findNodeOf, h]
  rfl

/-- A node is a truth value by its type alone. -/
theorem booleanOf_some (defValue : Bool) (node : Value) :
    booleanOf defValue (some node) =
      if node.item.type ∈ [JsonType.True, .False] then decide (node.item.type = .True)
      else defValue := by
  rw [booleanOf]
  cases node.item.type <;> rfl

/-- The predicate of truth values looks at the type alone. -/
theorem booleanNode_some (node : Value) :
    booleanNode (some node) =
      if node.item.type ∈ [JsonType.True, .False] then true else false := by
  rw [booleanNode, Option.any_some]
  cases node.item.type <;> rfl

/-! ## The accessors as one type -/

/-- The accessors that there are both by name and by index, with their default. -/
inductive Accessor
  | getIntValue (defValue : Int)
  | getUIntValue (defValue : Nat)
  | getDoubleValue (defValue : Rat)
  | getStringValue (defValue : Option CString)
  | getBooleanValue (defValue : Bool)
  | getArray
  | isNull
  | isString
  | isNumber
  | isBoolean
  | isObject
  | isArray

/-- What an accessor returns; a wrapper that is not valid is `none`. -/
inductive Got
  | int (value : Int)
  | uint (value : Nat)
  | double (value : Rat)
  | string (value : Option CString)
  | bool (value : Bool)
  | wrapper (value : Option Value)

namespace Accessor

/-- The accessor by name -/
def byName (name : CString) (root : Option Value) : Accessor → Got
  | getIntValue d => .int (Turnserver.getIntValue name d root)
  | getUIntValue d => .uint (Turnserver.getUIntValue name d root)
  | getDoubleValue d => .double (Turnserver.getDoubleValue name d root)
  | getStringValue d => .string (Turnserver.getStringValue name d root)
  | getBooleanValue d => .bool (Turnserver.getBooleanValue name d root)
  | getArray => .wrapper (Turnserver.getArray name root)
  | isNull => .bool (Turnserver.isNull name root)
  | isString => .bool (Turnserver.isString name root)
  | isNumber => .bool (Turnserver.isNumber name root)
  | isBoolean => .bool (Turnserver.isBoolean name root)
  | isObject => .bool (Turnserver.isObject name root)
  | isArray => .bool (Turnserver.isArray name root)

/-- The accessor by index; `none` is a read through a null pointer. -/
def byIndex (index : Int) (root : Option Value) : Accessor → Option Got
  | getIntValue d => some (.int (getIntValueAt index d root))
  | getUIntValue d => some (.uint (getUIntValueAt index d root))
  | getDoubleValue d => some (.double (getDoubleValueAt index d root))
  | getStringValue d => some (.string (getStringValueAt index d root))
  | getBooleanValue d => some (.bool (getBooleanValueAt index d root))
  | getArray => (getArrayAt index root).map .wrapper
  | isNull => some (.bool (isNullAt index root))
  | isString => some (.bool (isStringAt index root))
  | isNumber => some (.bool (isNumberAt index root))
  | isBoolean => some (.bool (isBooleanAt index root))
  | isObject => some (.bool (isObjectAt index root))
  | isArray => some (.bool (isArrayAt index root))

/-- The types that are asked for. -/
def types : Accessor → List JsonType
  | getIntValue _ | getUIntValue _ | getDoubleValue _ | isNumber => [.Number]
  | getStringValue _ | isString => [.String]
  | getBooleanValue _ | isBoolean => [.True, .False]
  | getArray | isArray => [.Array]
  | isNull => [.NULL]
  | isObject => [.Object]

/-- What there is to return where nothing of the type is found. -/
def default : Accessor → Got
  | getIntValue d => .int d
  | getUIntValue d => .uint d
  | getDoubleValue d => .double d
  | getStringValue d => .string d
  | getBooleanValue d => .bool d
  | getArray => .wrapper none
  | isNull | isString | isNumber | isBoolean | isObject | isArray => .bool false

/-- What a node of the type holds for the accessor. -/
def stored (node : Value) : Accessor → Got
  | getIntValue _ => .int node.item.valueint
  | getUIntValue _ => .uint (toUInt node.item.valuedouble)
  | getDoubleValue _ => .double node.item.valuedouble
  | getStringValue _ => .string node.item.valuestring
  | getBooleanValue _ => .bool (node.item.type = .True)
  | getArray => .wrapper (some node)
  | isNull | isString | isNumber | isBoolean | isObject | isArray => .bool true

/-- The accessors that look at the type of the node at an index. -/
def checksType : Accessor → Prop
  | getIntValue _ | getUIntValue _ | getDoubleValue _ | getStringValue _ => False
  | _ => True

/-! ## What the accessors compute -/

/-- The answer where `node` is what was found: its type decides. -/
def answer (node : Option Value) (a : Accessor) : Got :=
  match node with
  | none => a.default
  | some node => if node.item.type ∈ a.types then a.stored node else a.default

/-- **By name the type is always checked.** -/
theorem byName_eq (name : CString) (root : Option Value) (a : Accessor) :
    a.byName name root = a.answer (findNode name root) := by
  cases hn : findNode name root with
  | none =>
    have hof : ∀ type, findNodeOf type name root = none := fun type => findNodeOf_none hn
    -- without a node each accessor falls back on its default
    cases a <;>
      simp only [byName, answer, default, Turnserver.getIntValue, Turnserver.getUIntValue,
        Turnserver.getDoubleValue, Turnserver.getStringValue, Turnserver.getBooleanValue,
        Turnserver.getArray, Turnserver.isNull, Turnserver.isString, Turnserver.isNumber,
        Turnserver.isBoolean, Turnserver.isObject, Turnserver.isArray, isOfType, hof, hn] <;> rfl
  | some node =>
    have hof : ∀ type, findNodeOf type name root =
        if node.item.type = type then some node else none := fun type => findNodeOf_some hn
    -- at a node each one tests the type, if it does, and reads its field
    cases a <;>
      simp only [byName, answer, default, types, stored, Turnserver.getIntValue,
        Turnserver.getUIntValue, Turnserver.getDoubleValue, Turnserver.getStringValue,
        Turnserver.getBooleanValue, Turnserver.getArray, Turnserver.isNull, Turnserver.isString,
        Turnserver.isNumber, Turnserver.isBoolean, Turnserver.isObject, Turnserver.isArray,
        isOfType, hof, hn, booleanOf_some, booleanNode_some, List.mem_singleton] <;>
      split <;> simp_all

/-- What an accessor by index returns at a node: four of them do not look at its type. -/
def atNode (node : Value) (a : Accessor) : Got :=
  match a with
  | getIntValue _ | getUIntValue _ | getDoubleValue _ | getStringValue _ => a.stored node
  | _ => a.answer (some node)

/-- By index every accessor returns what it reads at the node. -/
theorem byIndex_some {index : Int} {root : Option Value} {node : Value}
    (h : findNodeAt index root = some node) (a : Accessor) :
    a.byIndex index root = some (a.atNode node) := by
  cases a <;>
    simp only [byIndex, atNode, answer, default, types, stored, getIntValueAt, getUIntValueAt,
      getDoubleValueAt, getStringValueAt, getBooleanValueAt, getArrayAt, isNullAt, isStringAt,
      isNumberAt, isBooleanAt, isObjectAt, isArrayAt, isOfTypeAt, h, booleanOf_some,
      booleanNode_some, List.mem_singleton, Option.elim_some, Option.any_some, Option.bind_eq_bind,
      Option.bind_some, Option.map_some] <;>
    try split <;> simp_all

/-- Without a node every accessor but `getArray` returns its default. -/
theorem byIndex_none {index : Int} {root : Option Value} (h : findNodeAt index root = none)
    {a : Accessor} (ha : a ≠ getArray) : a.byIndex index root = some a.default := by
  cases a <;>
    simp only [byIndex, default, getIntValueAt, getUIntValueAt, getDoubleValueAt,
      getStringValueAt, getBooleanValueAt, isNullAt, isStringAt, isNumberAt, isBooleanAt,
      isObjectAt, isArrayAt, isOfTypeAt, h] <;>
    first | rfl | exact absurd rfl ha

/-- `getArray` reads through a null pointer where there is no node. -/
theorem byIndex_getArray {index : Int} {root : Option Value} (h : findNodeAt index root = none) :
    getArray.byIndex index root = none := by
  rw [byIndex, getArrayAt, h]
  rfl

/-- Only the accessors that check the type fall back on the default at a node of another type. -/
theorem atNode_eq_default {node : Value} {a : Accessor} :
    a.atNode node = a.default ↔
      a.stored node = a.default ∨ node.item.type ∉ a.types ∧ a.checksType := by
  cases a <;>
    simp only [atNode, answer, checksType, and_false, and_true, or_false] <;>
    split <;> simp_all

/-- At a node of a type of the accessor, the type check does not matter. -/
theorem atNode_of_type {node : Value} {a : Accessor} (h : node.item.type ∈ a.types) :
    a.atNode node = a.stored node := by
  cases a <;> simp only [atNode, answer] <;> exact if_pos h

end Accessor

/-! ## What is asked for -/

/-- The element at an index; there is none at an index out of range. -/
def elementAt (index : Int) (root : Option Value) : Option Value :=
  root.bind fun root => if 0 ≤ index then root.child[index.toNat]? else none

/-- The first member of a name, up to case. -/
def memberNamed (name : CString) (root : Option Value) : Option Value :=
  root.bind fun root => (lookup name root.child).map fun (_, member, _) => member

/-- `node` is at the index, and it is the first one with the name. -/
def FirstAt (index : Int) (name : CString) (node : Value) (root : Option Value) : Prop :=
  ∃ r before after, root = some r ∧ lookup name r.child = some (before, node, after) ∧
    index = before.length

/-- Walking the siblings is indexing, with negative indices read as 0. -/
theorem skip_eq (cs : List Value) (item : Int) : skip cs item = cs[item.toNat]? := by
  induction cs generalizing item with
  | nil => rfl
  | cons c cs ih =>
    rw [skip]
    split
    · next h => rw [ih, show item.toNat = (item - 1).toNat + 1 by omega, List.getElem?_cons_succ]
    · next h => rw [show item.toNat = 0 by omega, List.getElem?_cons_zero]

/-- `findNode(index)` reads a negative index as 0. -/
theorem findNodeAt_eq (index : Int) (root : Option Value) :
    findNodeAt index root = root.bind fun root => root.child[index.toNat]? := by
  cases root with
  | none => rfl
  | some root => exact skip_eq root.child index

/-- At indices that are not negative the walk finds the element. -/
theorem elementAt_of_nonneg {index : Int} (h : 0 ≤ index) (root : Option Value) :
    elementAt index root = findNodeAt index root := by
  rw [findNodeAt_eq, elementAt]
  simp only [if_pos h]

/-- There is no element at a negative index. -/
theorem elementAt_of_neg {index : Int} (h : index < 0) (root : Option Value) :
    elementAt index root = none := by
  rw [elementAt]
  simp only [if_neg (Int.not_le.mpr h), Option.bind_fun_none]

/-- A name that is not empty finds the first member of that name. -/
theorem findNode_of_ne_nil {name : CString} (h : name ≠ []) (root : Option Value) :
    findNode name root = memberNamed name root := by
  cases root with
  | none => rfl
  | some root => exact findItem_of_ne_nil h

/-- The empty name finds nothing: `findNode` asks for `name && *name`. -/
theorem findNode_nil (root : Option Value) : findNode [] root = none := by
  cases root <;> rfl

/-- The index of a member is not negative. -/
theorem FirstAt.nonneg {index : Int} {name : CString} {node : Value} {root : Option Value}
    (h : FirstAt index name node root) : 0 ≤ index := by
  obtain ⟨r, before, after, -, -, rfl⟩ := h
  exact Int.natCast_nonneg _

/-- The member is found by its index. -/
theorem FirstAt.findNodeAt {index : Int} {name : CString} {node : Value} {root : Option Value}
    (h : FirstAt index name node root) : findNodeAt index root = some node := by
  obtain ⟨r, before, after, rfl, hl, rfl⟩ := h
  rw [findNodeAt_eq, Option.bind_some, lookup_some hl, Int.toNat_natCast,
    List.getElem?_append_right (Nat.le_refl _), Nat.sub_self, List.getElem?_cons_zero]

/-- The member is found by its name. -/
theorem FirstAt.memberNamed {index : Int} {name : CString} {node : Value} {root : Option Value}
    (h : FirstAt index name node root) : memberNamed name root = some node := by
  obtain ⟨r, before, after, rfl, hl, -⟩ := h
  rw [Turnserver.memberNamed, Option.bind_some, hl]
  rfl

/-! ## The calls and what they owe -/

/-- What an accessor owes at an index and a name: no read through a null pointer, one answer for an
    element that has both, and the default where there is nothing of the type. -/
structure Accessor.Law (index : Int) (name : CString) (root : Option Value) (a : Accessor) :
    Prop where
  no_null : (a.byIndex index root).isSome
  same : ∀ node, FirstAt index name node root → a.byIndex index root = some (a.byName name root)
  index_default : (∀ node, elementAt index root = some node → node.item.type ∉ a.types) →
    a.byIndex index root = some a.default
  name_default : (∀ node, memberNamed name root = some node → node.item.type ∉ a.types) →
    a.byName name root = a.default

/-- When it does: `getArray` needs a node.  At a node of the type the index must not be negative and
    the name not empty; at another one the accessor must look at the type.  Else the node has to hold
    the default by chance. -/
def Accessor.Fits (index : Int) (name : CString) (root : Option Value) (a : Accessor) : Prop :=
  match findNodeAt index root with
  | none => a ≠ .getArray
  | some node =>
    a.stored node = a.default ∨
      if node.item.type ∈ a.types then 0 ≤ index ∧ ¬(name = [] ∧ FirstAt index name node root)
      else a.checksType

/-- What `tryGet*` owes: it says whether the member has the type, stores the value if it has one, and
    else leaves `value` as it was. -/
structure TryLaw {β : Type} (types : List JsonType) (read : Item → Option β)
    (member : Option Value) (value : β) (result : Bool × β) : Prop where
  found : result.1 = true ↔ ∃ node, member = some node ∧ node.item.type ∈ types
  stored : ∀ node v, member = some node → node.item.type ∈ types → read node.item = some v →
    result.2 = v
  unchanged : (∀ node, member = some node → node.item.type ∉ types) → result.2 = value

/-- A call of an accessor, with all its arguments. -/
inductive AccessorCall
  | get (a : Accessor) (index : Int) (name : CString)
  | getObject (name : CString)
  | tryGetIntValue (name : CString) (value : Int)
  | tryGetUIntValue (name : CString) (value : Nat)
  | tryGetStringValue (name : CString) (value : CString)
  | tryGetBooleanValue (name : CString) (value : Bool)

namespace AccessorCall

/-- What a call owes: the law of its accessor, and for a `tryGet` a flag that tells whether the value
    was set. -/
def Law (root : Option Value) : AccessorCall → Prop
  | get a index name => a.Law index name root
  | getObject name =>
    (∀ node, memberNamed name root = some node → node.item.type ≠ .Object) →
      Turnserver.getObject name root = none
  | tryGetIntValue name value =>
    TryLaw [.Number] (fun i => some i.valueint) (memberNamed name root) value
      (Turnserver.tryGetIntValue name value root)
  | tryGetUIntValue name value =>
    TryLaw [.Number] (fun i => some (toUInt i.valuedouble)) (memberNamed name root) value
      (Turnserver.tryGetUIntValue name value root)
  | tryGetStringValue name value =>
    TryLaw [.String] Item.valuestring (memberNamed name root) value
      (Turnserver.tryGetStringValue name value root)
  | tryGetBooleanValue name value =>
    TryLaw [.True, .False] (fun i => some (decide (i.type = .True))) (memberNamed name root) value
      (Turnserver.tryGetBooleanValue name value root)

/-- No member with an empty name has one of the types. -/
def NotUnnamed (types : List JsonType) (name : CString) (root : Option Value) : Prop :=
  name = [] → ∀ node, memberNamed name root = some node → node.item.type ∉ types

/-- The calls that do what they owe.  `tryGetBooleanValue` must not meet a member of another type. -/
def Fits (root : Option Value) : AccessorCall → Prop
  | get a index name => a.Fits index name root
  | getObject _ => True
  | tryGetIntValue name _ | tryGetUIntValue name _ => NotUnnamed [.Number] name root
  | tryGetStringValue name _ => NotUnnamed [.String] name root
  | tryGetBooleanValue name _ => NotUnnamed [.True, .False] name root ∧
    (name ≠ [] → ∀ node, memberNamed name root = some node →
      node.item.type ∈ [JsonType.True, .False])

end AccessorCall

namespace Accessor

variable {index : Int} {name : CString} {root : Option Value} {node : Value} {a : Accessor}

/-- Nothing is found by an empty name. -/
theorem byName_nil : a.byName [] root = a.default := by
  rw [byName_eq, findNode_nil]
  rfl

/-- Without a member of a type of the accessor, the accessor by name returns its default. -/
theorem byName_default
    (h : ∀ node, memberNamed name root = some node → node.item.type ∉ a.types) :
    a.byName name root = a.default := by
  by_cases hname : name = []
  · rw [hname]
    exact byName_nil
  · rw [byName_eq, findNode_of_ne_nil hname]
    cases hm : memberNamed name root with
    | none => rfl
    | some node => exact if_neg (h node hm)

/-- By name an accessor returns what it reads by index, if the type is right. -/
theorem byName_first (hfirst : FirstAt index name node root) (hname : name ≠ []) :
    a.byName name root = if node.item.type ∈ a.types then a.atNode node else a.default := by
  rw [byName_eq, findNode_of_ne_nil hname, hfirst.memberNamed, answer]
  split
  · next htype => rw [atNode_of_type htype]
  · rfl

/-- Out of range only `getArray` misses its law: it reads through the null pointer. -/
theorem law_none (hn : findNodeAt index root = none) : a.Law index name root ↔ a ≠ getArray := by
  constructor
  · rintro ⟨hsome, -, -, -⟩ rfl
    rw [byIndex_getArray hn] at hsome
    cases hsome
  · intro ha
    have hdef := byIndex_none hn ha
    refine ⟨?_, ?_, fun _ => hdef, byName_default⟩
    · rw [hdef]
      rfl
    · intro node hfirst
      rw [hfirst.findNodeAt] at hn
      cases hn

/-- At a node the accessor returns the default, or it was right to return what is there. -/
theorem law_some (hn : findNodeAt index root = some node) :
    a.Law index name root ↔ a.atNode node = a.default ∨
      node.item.type ∈ a.types ∧ 0 ≤ index ∧ ¬(name = [] ∧ FirstAt index name node root) := by
  have hidx := byIndex_some hn a
  constructor
  -- what the law asks for, at an index where the accessor does not return its default
  · rintro ⟨-, hsame, hdef, -⟩
    by_contra hnot
    rw [not_or] at hnot
    obtain ⟨hat, hrest⟩ := hnot
    refine hrest ⟨?_, ?_, ?_⟩
    -- by index the type would have to be checked
    · by_contra htype
      refine hat (Option.some_inj.mp (hidx.symm.trans (hdef fun node' helt => ?_)))
      rcases Int.lt_or_le index 0 with hneg | h0
      · rw [elementAt_of_neg hneg] at helt
        cases helt
      · rw [elementAt_of_nonneg h0, hn] at helt
        cases helt
        exact htype
    -- there is no element at a negative index
    · by_contra hneg
      refine hat (Option.some_inj.mp (hidx.symm.trans (hdef fun node' helt => ?_)))
      rw [elementAt_of_neg (Int.not_le.mp hneg)] at helt
      cases helt
    -- by the empty name nothing is found, although it is the same node
    · rintro ⟨rfl, hfirst⟩
      exact hat (Option.some_inj.mp (hidx.symm.trans ((hsame node hfirst).trans
        (congrArg some byName_nil))))
  · intro hright
    refine ⟨?_, ?_, ?_, byName_default⟩
    · rw [hidx]
      rfl
    -- by name the same node is found, unless the name is empty
    · intro node' hfirst
      obtain rfl : node = node' := Option.some_inj.mp (hn.symm.trans hfirst.findNodeAt)
      rw [hidx, Option.some_inj]
      rcases hright with hat | ⟨htype, -, hempty⟩
      · by_cases hname : name = []
        · rw [hname, byName_nil, hat]
        · rw [byName_first hfirst hname, hat, ite_self]
      · rw [byName_first hfirst fun hname => hempty ⟨hname, hfirst⟩, if_pos htype]
    · intro hdef
      rw [hidx, Option.some_inj]
      rcases hright with hat | ⟨htype, h0, -⟩
      · exact hat
      · rw [elementAt_of_nonneg h0] at hdef
        exact absurd htype (hdef node hn)

/-- An accessor owes and gives the same exactly at the calls that fit. -/
theorem law_iff : a.Law index name root ↔ a.Fits index name root := by
  rw [Fits]
  cases hn : findNodeAt index root with
  | none => exact law_none hn
  | some node =>
    rw [law_some hn, atNode_eq_default]
    by_cases htype : node.item.type ∈ a.types
    · simp only [htype, not_true_eq_false, false_and, or_false, true_and, if_true]
    · simp only [htype, not_false_eq_true, true_and, false_and, or_false, if_false]

end Accessor

/-! ## The calls that store -/

/-- A `tryGet` that finds no member of its type keeps its law by leaving the value alone. -/
theorem tryLaw_absent {β : Type} {types : List JsonType} {read : Item → Option β}
    {member : Option Value} {value : β}
    (hno : ∀ node, member = some node → node.item.type ∉ types) :
    TryLaw types read member value (false, value) := by
  refine ⟨⟨fun h => (by cases h), ?_⟩, ?_, fun _ => rfl⟩
  · rintro ⟨node, hnode, htype⟩
    exact absurd htype (hno node hnode)
  · intro node v hnode htype
    exact absurd htype (hno node hnode)

/-- A `tryGet` that finds a member of its type keeps its law by storing what it read. -/
theorem tryLaw_present {β : Type} {types : List JsonType} {read : Item → Option β} {node : Value}
    {value : β} (htype : node.item.type ∈ types) :
    TryLaw types read (some node) value (true, (read node.item).getD value) := by
  refine ⟨⟨fun _ => ⟨node, rfl, htype⟩, fun _ => rfl⟩, ?_, fun hno => ?_⟩
  · intro node' v hnode _ hread
    cases hnode
    rw [hread]
    rfl
  · exact absurd htype (hno node rfl)

/-- The law of `tryGet*` where the node is looked for by `findNode`, and a found node of the type is
    read. -/
theorem tryLaw_iff {β : Type} {types : List JsonType} {read : Item → Option β} {name : CString}
    {root : Option Value} {value : β} {result : Bool × β}
    (hnone : findNode name root = none → result = (false, value))
    (hsome : ∀ node, findNode name root = some node → node.item.type ∈ types →
      result = (true, (read node.item).getD value))
    (hother : ∀ node, findNode name root = some node → node.item.type ∉ types →
      result.2 = value) :
    TryLaw types read (memberNamed name root) value result ↔
      AccessorCall.NotUnnamed types name root ∧
        (name ≠ [] → ∀ node, memberNamed name root = some node → node.item.type ∉ types →
          result.1 = false) := by
  constructor
  · rintro ⟨hfound, -, -⟩
    constructor
    -- a member with an empty name is not found, so its type must not be right
    · rintro rfl node hnode htype
      have h := hfound.mpr ⟨node, hnode, htype⟩
      rw [hnone (findNode_nil root)] at h
      cases h
    · intro _ node hnode htype
      rw [← Bool.not_eq_true, hfound]
      rintro ⟨node', hnode', htype'⟩
      rw [hnode] at hnode'
      cases hnode'
      exact htype htype'
  · rintro ⟨hempty, hother'⟩
    -- the empty name finds nothing; any other name finds the first member
    by_cases hname : name = []
    · subst hname
      rw [hnone (findNode_nil root)]
      exact tryLaw_absent (hempty rfl)
    · rw [findNode_of_ne_nil hname] at hnone hsome hother
      cases hm : memberNamed name root with
      | none =>
        rw [hnone hm]
        exact tryLaw_absent nofun
      | some node =>
        by_cases htype : node.item.type ∈ types
        · rw [hsome node hm htype]
          exact tryLaw_present htype
        -- the member has another type: the call must not report success
        · have hresult : result = (false, value) :=
            Prod.ext (hother' hname node hm htype) (hother node hm htype)
          rw [hresult]
          refine tryLaw_absent fun node' hnode' => ?_
          cases hnode'
          exact htype

/-- Where the type is looked at, the law holds but for an empty name. -/
theorem tryLaw_typed {β : Type} {type : JsonType} {read : Item → Option β} {name : CString}
    {root : Option Value} {value : β} {result : Bool × β}
    (hresult : result = match findNodeOf type name root with
      | none => (false, value)
      | some node => (true, (read node.item).getD value)) :
    TryLaw [type] read (memberNamed name root) value result ↔
      AccessorCall.NotUnnamed [type] name root := by
  -- a node of another type is not found by `findNode(name, type)`
  have hother : ∀ node, findNode name root = some node → node.item.type ∉ [type] →
      result = (false, value) := by
    intro node hn htype
    rw [hresult, findNodeOf_some hn, if_neg fun h => htype (List.mem_singleton.mpr h)]
  refine (tryLaw_iff ?_ ?_ ?_).trans (and_iff_left_of_imp fun _ hname node hnode htype => ?_)
  · intro hn
    rw [hresult, findNodeOf_none hn]
  · intro node hn htype
    rw [hresult, findNodeOf_some hn, if_pos (List.mem_singleton.mp htype)]
  · intro node hn htype
    rw [hother node hn htype]
  · rw [hother node ((findNode_of_ne_nil hname root).trans hnode) htype]

/-- `tryGetBooleanValue` reports success for every member that is found, whatever its type. -/
theorem tryGetBooleanValue_some {name : CString} {root : Option Value} {node : Value}
    (hn : findNode name root = some node) (value : Bool) :
    tryGetBooleanValue name value root = (true, booleanOf value (some node)) := by
  rw [tryGetBooleanValue, hn]
  rfl

/-- The law of `tryGetBooleanValue` in terms of the member alone. -/
theorem tryLaw_boolean (name : CString) (value : Bool) (root : Option Value) :
    TryLaw [.True, .False] (fun i => some (decide (i.type = .True))) (memberNamed name root) value
        (tryGetBooleanValue name value root) ↔
      AccessorCall.NotUnnamed [.True, .False] name root ∧
        (name ≠ [] → ∀ node, memberNamed name root = some node →
          node.item.type ∈ [JsonType.True, .False]) := by
  refine (tryLaw_iff ?_ ?_ ?_).trans (and_congr_right fun _ => ?_)
  · intro hn
    rw [tryGetBooleanValue, hn]
  · intro node hn htype
    rw [tryGetBooleanValue_some hn, booleanOf_some, if_pos htype]
    rfl
  · intro node hn htype
    rw [tryGetBooleanValue_some hn, booleanOf_some, if_neg htype]
  · refine forall_congr' fun hname => forall_congr' fun node => forall_congr' fun hnode => ?_
    -- a member that is there is always reported
    rw [tryGetBooleanValue_some ((findNode_of_ne_nil hname root).trans hnode)]
    exact Iff.trans (by simp) not_not

/-- **Exactly when a call does what it owes.** -/
theorem accessors_iff (root : Option Value) (call : AccessorCall) :
    call.Law root ↔ call.Fits root := by
  cases call with
  | get a index name => exact Accessor.law_iff
  | getObject name =>
    refine iff_of_true (fun hno => ?_) trivial
    by_cases hname : name = []
    · rw [getObject, hname]
      exact findNodeOf_none (findNode_nil root)
    · cases hm : memberNamed name root with
      | none => exact findNodeOf_none ((findNode_of_ne_nil hname root).trans hm)
      | some node =>
        exact (findNodeOf_some ((findNode_of_ne_nil hname root).trans hm)).trans
          (if_neg (hno node hm))
  | tryGetIntValue name value => exact tryLaw_typed rfl
  | tryGetUIntValue name value => exact tryLaw_typed rfl
  | tryGetStringValue name value => exact tryLaw_typed rfl
  | tryGetBooleanValue name value => exact tryLaw_boolean name value root

/-! ## Calls that fail -/

/-- `["x"]` -/
def oneString : Value := createArray.withChild [createString (ascii "x")]

/-- The element at index 0 of `["x"]` is no number, but `getIntValue(0, 5)` returns its `valueint`, 0.
    `getArray(0)` of a wrapper without a tree reads through a null pointer.  `tryGetBooleanValue("k")`
    on `{"k":1}` says that there is a boolean. -/
theorem accessors_fail :
    ¬ AccessorCall.Law (some oneString) (.get (.getIntValue 5) 0 (ascii "k")) ∧
      ¬ AccessorCall.Law none (.get .getArray 0 (ascii "k")) ∧
      ¬ AccessorCall.Law (some (addItemToObject (ascii "k") (createNumber 1) createObject))
        (.tryGetBooleanValue (ascii "k") false) := by
  refine ⟨fun h => ?_, fun h => ?_, fun h => ?_⟩
  · have hdef := h.index_default fun node hnode => by
      cases hnode
      decide
    cases hdef
  · cases h.no_null
  · obtain ⟨node, hnode, htype⟩ := h.found.mp rfl
    cases hnode
    revert htype
    decide

end Turnserver
