/-
  WHAT IS SET IS READ BACK (`new_elbs/json_wrapper.cc`, 393–452, 479–617, `new_elbs/cJSON.cc`,
  520–536) — a setter and then the getter of its type.

  A setter of a member writes in place, replaces or adds, by the type of what `findNode` gives it.
  * `found_spec`: whichever it does, the node that is found afterwards has the type and the value;
  * `others_setMember`: the members of other names stay as they are;
  * `set_get_iff`: for every setter, with a name or of the root, exactly when the law holds.  It fails
    for `setBooleanValue(value)` on what is no boolean: the root becomes a number.
-/
import Turnserver.Json.Accessors

namespace Turnserver

open LinkedTree Node

/-! ## The setters as one type -/

/-- The values that both a member and the root are set to. -/
inductive Setting
  | int (value : Int32)
  | uint (value : UInt32)
  | double (value : Rat)
  | boolean (value : Bool)
  | string (value : CString)

namespace Setting

/-- `set*Value(name, value)` -/
def setMember (name : CString) (root : Option Value) : Setting → Option Value
  | int value => setIntValue name value.toInt root
  | uint value => setUIntValue name value.toNat root
  | double value => setDoubleValue name value root
  | boolean value => setBooleanValue name value root
  | string value => setStringValue name (some value) root

/-- `set*Value(value)` -/
def setRoot (root : Option Value) : Setting → Value
  | int value => setIntRoot value.toInt root
  | uint value => setUIntRoot value.toNat root
  | double value => setDoubleRoot value root
  | boolean value => setBooleanRoot value root
  | string value => setStringRoot value root

/-- The getter by name returns the value, whatever the default. -/
def ReadBack (name : CString) (root : Option Value) : Setting → Prop
  | int value => ∀ defValue, getIntValue name defValue root = value.toInt
  | uint value => ∀ defValue, getUIntValue name defValue root = value.toNat
  | double value => ∀ defValue, getDoubleValue name defValue root = value
  | boolean value => ∀ defValue, getBooleanValue name defValue root = value
  | string value => ∀ defValue, getStringValue name defValue root = some value

/-- The getter of the root does. -/
def ReadBackRoot (root : Value) : Setting → Prop
  | int value => ∀ defValue, getIntRoot defValue (some root) = value.toInt
  | uint value => ∀ defValue, getUIntRoot defValue (some root) = value.toNat
  | double value => ∀ defValue, getDoubleRoot defValue (some root) = value
  | boolean value => ∀ defValue, getBooleanRoot defValue (some root) = value
  | string value => ∀ defValue, getStringRoot defValue (some root) = some value

/-- The JSON types of a value. -/
def types : Setting → List JsonType
  | int _ | uint _ | double _ => [.Number]
  | boolean _ => [.True, .False]
  | string _ => [.String]

end Setting

/-- A call of a setter. -/
inductive SetCall
  | member (name : CString) (value : Setting)
  | object (name : CString) (value : Value)
  | root (value : Setting)

/-- The members with another name, up to case. -/
def others (name : CString) (root : Value) : List Value :=
  root.child.filter fun c => strcasecmp c.item.string (some name) ≠ 0

/-- What a setter owes.  The object that `getObject` gives has the name it was stored under. -/
def SetCall.Law (w : Option Value) : SetCall → Prop
  | member name value => name ≠ [] → ∀ root, w = some root →
    ∃ root', value.setMember name w = some root' ∧ value.ReadBack name (some root') ∧
      others name root' = others name root
  | object name value => name ≠ [] → value.item.type = .Object → ∀ root, w = some root →
    ∃ root', setObjectValue name (some value) w = some root' ∧
      getObject name (some root') = some (named name value) ∧
      others name root' = others name root
  | root value => (value.setRoot w).item.type ∈ value.types ∧ value.ReadBackRoot (value.setRoot w)

/-- The calls that do what they owe: a boolean is written to the root only over a boolean. -/
def SetCall.Fits (w : Option Value) : SetCall → Prop
  | root (.boolean _) => ∃ r, w = some r ∧ r.item.type ∈ [JsonType.True, .False]
  | _ => True

/-! ## A member -/

section Member

variable {name : CString} {root newitem : Value} {inPlace : Item → Option Item}

/-- The node that is found after `setMember` has what both the new node and a node written in place
    have. -/
theorem found_spec {P : Item → Prop} (hnew : P (newitem.item.withString name))
    (hplace : ∀ i i', inPlace i = some i' → P i') (node : Option Value) :
    P (found name inPlace newitem node).item := by
  have hnamed : P (named name newitem).item := by
    rw [named, item_withItem]
    exact hnew
  cases node with
  | none => exact hnamed
  | some node =>
    rw [found]
    cases hi : inPlace node.item with
    | none => exact hnamed
    | some i =>
      dsimp only
      rw [item_withItem]
      exact hplace node.item i hi

/-- An item of that name is edited to items of that name. -/
theorem others_editItem {f : Value → List Value}
    (hf : ∀ m, strcasecmp m.item.string (some name) = 0 →
      ∀ c ∈ f m, strcasecmp c.item.string (some name) = 0) :
    others name (editItem name f root) = others name root := by
  rw [editItem]
  cases hl : lookup name root.child with
  | none => rfl
  | some r =>
    obtain ⟨before, m, after⟩ := r
    obtain ⟨hchild, -, hm⟩ := lookup_eq_some.mp hl
    -- what stands in the place of the child has the name, so it is not among the others
    have hgone : (f m).filter (fun c => strcasecmp c.item.string (some name) ≠ 0) = [] := by
      rw [List.filter_eq_nil_iff]
      intro c hc
      rw [hf m hm c hc]
      decide
    dsimp only
    rw [others, others, child_withChild, hchild, List.filter_append, List.filter_append, hgone,
      List.append_nil, List.filter_append, List.filter_cons_of_neg]
    rw [hm]
    decide

/-- **The members of other names stay.** -/
theorem others_setMember (hstring : ∀ i i', inPlace i = some i' → i'.string = i.string) :
    others name (setMember name inPlace newitem root) = others name root := by
  -- the new member has the name
  have hself : strcasecmp (named name newitem).item.string (some name) = 0 := by
    rw [string_named]
    exact strcasecmp_self _
  rw [setMember]
  cases hfind : findItem name root with
  | none =>
    dsimp only
    rw [others, addItemToObject, child_withChild, List.filter_append, List.filter_cons_of_neg,
      List.filter_nil, List.append_nil]
    · rfl
    · rw [hself]
      decide
  -- a member that is replaced or updated in place had the name before
  | some node =>
    dsimp only
    cases hplace : inPlace node.item with
    | none =>
      refine others_editItem fun m _ c hc => ?_
      rw [List.mem_singleton.mp hc]
      exact hself
    | some i =>
      refine others_editItem fun m hm c hc => ?_
      rw [List.mem_singleton.mp hc, item_withItem]
      dsimp only
      cases hi : inPlace m.item with
      | none => exact hm
      | some i' =>
        rw [Option.getD_some, hstring _ _ hi]
        exact hm

/-- After a setter of a member the node of that name is as `P` says, and the others stay. -/
theorem setMember_spec (root newitem : Value) (inPlace : Item → Option Item) {P : Item → Prop}
    (hname : name ≠ []) (hstring : ∀ i i', inPlace i = some i' → i'.string = i.string)
    (hnew : P (newitem.item.withString name)) (hplace : ∀ i i', inPlace i = some i' → P i') :
    (∃ node, findNode name (some (setMember name inPlace newitem root)) = some node ∧
        P node.item) ∧
      others name (setMember name inPlace newitem root) = others name root :=
  ⟨⟨_, findItem_setMember hname hstring, found_spec hnew hplace _⟩, others_setMember hstring⟩

/-- The setters that write items of one type in place. -/
theorem setMember_typed (root newitem : Value) (f : Item → Item) {P : Item → Prop}
    {type : JsonType} (hname : name ≠ []) (hstring : ∀ i, (f i).string = i.string)
    (hnew : P (newitem.item.withString name)) (hplace : ∀ i, i.type = type → P (f i)) :
    (∃ node, findNode name (some (setMember name
        (fun i => if i.type = type then some (f i) else none) newitem root)) = some node ∧
        P node.item) ∧
      others name (setMember name (fun i => if i.type = type then some (f i) else none) newitem
        root) = others name root := by
  have hsome : ∀ i i', (if i.type = type then some (f i) else none) = some i' →
      i.type = type ∧ i' = f i := by
    intro i i' h
    split at h
    · next htype => exact ⟨htype, (Option.some_inj.mp h).symm⟩
    · cases h
  refine setMember_spec root newitem _ hname (fun i i' h => ?_) hnew fun i i' h => ?_
  · rw [(hsome i i' h).2]
    exact hstring i
  · rw [(hsome i i' h).2]
    exact hplace i (hsome i i' h).1

end Member

/-! ## Reading back -/

mutual

/-- `cJSON_Duplicate` of a value is the value. -/
theorem duplicate_value : ∀ value : Value, duplicate value = value
  | .mk () i c => by rw [duplicate, duplicateAll_values c]

/-- The duplicates of values without addresses are the values. -/
theorem duplicateAll_values : ∀ values : List Value, duplicateAll values = values
  | [] => rfl
  | v :: vs => by rw [duplicateAll, duplicate_value v, duplicateAll_values vs]

end

/-- **A member reads back what it was set to.** -/
theorem Setting.member_law {name : CString} (hname : name ≠ []) (root : Value) (value : Setting) :
    ∃ root', value.setMember name (some root) = some root' ∧ value.ReadBack name (some root') ∧
      others name root' = others name root := by
  cases value with
  -- the two fields of a number are read by different getters
  | int v =>
    obtain ⟨⟨node, hn, htype, hv⟩, hothers⟩ := setMember_typed root (createNumber v.toInt)
      (fun i => { i with valueint := v.toInt })
      (P := fun i => i.type = .Number ∧ i.valueint = v.toInt)
      hname (fun _ => rfl) ⟨rfl, toInt_int32 v⟩ fun i htype => ⟨htype, rfl⟩
    refine ⟨_, rfl, fun defValue => ?_, hothers⟩
    rw [getIntValue, findNodeOf_some hn, if_pos htype]
    exact hv
  | uint v =>
    obtain ⟨⟨node, hn, htype, hv⟩, hothers⟩ := setMember_typed root (createNumber v.toNat)
      (fun i => { i with valuedouble := v.toNat })
      (P := fun i => i.type = .Number ∧ i.valuedouble = v.toNat)
      hname (fun _ => rfl) ⟨rfl, rfl⟩ fun i htype => ⟨htype, rfl⟩
    refine ⟨_, rfl, fun defValue => ?_, hothers⟩
    rw [getUIntValue, findNodeOf_some hn, if_pos htype, Option.elim_some, hv]
    exact toUInt_natCast v.toNat_lt
  | double v =>
    obtain ⟨⟨node, hn, htype, hv⟩, hothers⟩ := setMember_typed root (createNumber v)
      (fun i => { i with valuedouble := v }) (P := fun i => i.type = .Number ∧ i.valuedouble = v)
      hname (fun _ => rfl) ⟨rfl, rfl⟩ fun i htype => ⟨htype, rfl⟩
    refine ⟨_, rfl, fun defValue => ?_, hothers⟩
    rw [getDoubleValue, findNodeOf_some hn, if_pos htype]
    exact hv
  -- the type is the value
  | boolean v =>
    obtain ⟨⟨node, hn, htype⟩, hothers⟩ := setMember_typed root (createBool v)
      (fun i => i) (P := fun i => i.type = if v then .True else .False)
      hname (fun _ => rfl) rfl fun i htype => htype
    refine ⟨_, rfl, fun defValue => ?_, hothers⟩
    rw [getBooleanValue, hn, booleanOf_some, htype]
    cases v <;> rfl
  | string v =>
    obtain ⟨⟨node, hn, htype, hv⟩, hothers⟩ := setMember_spec root (createString v) (fun _ => none)
      (P := fun i => i.type = .String ∧ i.valuestring = some v)
      hname (fun i i' h => by cases h) ⟨rfl, rfl⟩ fun i i' h => by cases h
    refine ⟨_, rfl, fun defValue => ?_, hothers⟩
    rw [getStringValue, findNodeOf_some hn, if_pos htype]
    exact hv

/-- **So does an object.** -/
theorem object_law {name : CString} (hname : name ≠ []) (root : Value) {value : Value}
    (hvalue : value.item.type = .Object) :
    ∃ root', setObjectValue name (some value) (some root) = some root' ∧
      getObject name (some root') = some (named name value) ∧
      others name root' = others name root := by
  have hstring : ∀ i i' : Item, (none : Option Item) = some i' → i'.string = i.string := by
    intro i i' h
    cases h
  refine ⟨_, rfl, ?_, others_setMember hstring⟩
  have hfind : findNode name (some (setMember name (fun _ => none) (duplicate value) root)) =
      some (named name value) := by
    refine (findItem_setMember hname hstring).trans ?_
    rw [duplicate_value]
    cases findItem name root <;> rfl
  refine (findNodeOf_some hfind).trans (if_pos ?_)
  rw [named, item_withItem]
  exact hvalue

/-! ## The root -/

/-- A number that is there is written, and anything else gives way to a new one. -/
theorem setIntRoot_item (v : Int32) (w : Option Value) :
    (setIntRoot v.toInt w).item.type = .Number ∧
      (setIntRoot v.toInt w).item.valueint = v.toInt := by
  cases w with
  | none => exact ⟨rfl, toInt_int32 v⟩
  | some r =>
    rw [setIntRoot]
    split
    · next htype =>
      rw [item_withItem]
      exact ⟨htype, rfl⟩
    · exact ⟨rfl, toInt_int32 v⟩

/-- The root becomes a number with the value, whatever it was. -/
theorem setDoubleRoot_item (v : Rat) (w : Option Value) :
    (setDoubleRoot v w).item.type = .Number ∧ (setDoubleRoot v w).item.valuedouble = v := by
  cases w with
  | none => exact ⟨rfl, rfl⟩
  | some r =>
    rw [setDoubleRoot]
    split
    · next htype =>
      rw [item_withItem]
      exact ⟨htype, rfl⟩
    · exact ⟨rfl, rfl⟩

/-- The filter on the type lets a root of that type through. -/
theorem filter_type {r : Value} {type : JsonType} (h : r.item.type = type) :
    (some r).filter (fun r => r.item.type = type) = some r := by
  rw [Option.filter_some]
  simp [h]

/-- **What is no boolean becomes a number.** -/
theorem setBooleanRoot_type (v : Bool) (w : Option Value) :
    (setBooleanRoot v w).item.type =
      if booleanNode w then (if v then .True else .False) else .Number := by
  cases w with
  | none => rfl
  | some r =>
    rw [setBooleanRoot, booleanNode, Option.any_some]
    dsimp only
    by_cases h : r.item.type = .True ∨ r.item.type = .False
    · rw [if_pos h, item_withItem, if_pos (decide_eq_true h)]
    · have hnot : ¬decide (r.item.type = .True ∨ r.item.type = .False) = true := by
        rw [decide_eq_true_iff]
        exact h
      rw [if_neg h, if_neg hnot]
      rfl

/-- The predicate of truth values looks at the type of the root. -/
theorem booleanNode_iff (w : Option Value) :
    booleanNode w = true ↔ ∃ r, w = some r ∧ r.item.type ∈ [JsonType.True, .False] := by
  cases w with
  | none => simp [booleanNode]
  | some r => simp [booleanNode]

/-- **The law of the setters of the root.** -/
theorem Setting.root_law (w : Option Value) (value : Setting) :
    ((value.setRoot w).item.type ∈ value.types ∧ value.ReadBackRoot (value.setRoot w)) ↔
      (SetCall.root value).Fits w := by
  cases value with
  | int v =>
    obtain ⟨htype, hv⟩ := setIntRoot_item v w
    refine iff_of_true ⟨List.mem_singleton.mpr htype, fun defValue => ?_⟩ trivial
    rw [getIntRoot, Setting.setRoot, filter_type htype]
    exact hv
  | uint v =>
    obtain ⟨htype, hv⟩ := setDoubleRoot_item v.toNat w
    refine iff_of_true ⟨List.mem_singleton.mpr htype, fun defValue => ?_⟩ trivial
    rw [getUIntRoot, Setting.setRoot, setUIntRoot, filter_type htype, Option.elim_some, hv]
    exact toUInt_natCast v.toNat_lt
  | double v =>
    obtain ⟨htype, hv⟩ := setDoubleRoot_item v w
    refine iff_of_true ⟨List.mem_singleton.mpr htype, fun defValue => ?_⟩ trivial
    rw [getDoubleRoot, Setting.setRoot, filter_type htype]
    exact hv
  | boolean v =>
    have htype := setBooleanRoot_type v w
    rw [SetCall.Fits, ← booleanNode_iff, Setting.setRoot]
    -- a root that is no truth value becomes a number
    constructor
    · rintro ⟨hmem, -⟩
      by_contra hbool
      rw [htype, if_neg hbool] at hmem
      rcases List.mem_cons.mp hmem with h | h
      · cases h
      · cases List.mem_singleton.mp h
    · intro hbool
      rw [if_pos hbool] at htype
      refine ⟨?_, fun defValue => ?_⟩
      · rw [htype]
        cases v <;> decide
      · rw [getBooleanRoot, booleanOf_some, htype]
        cases v <;> rfl
  | string v => exact iff_of_true ⟨List.mem_singleton.mpr rfl, fun defValue => rfl⟩ trivial

/-! ## Every setter -/

/-- **Exactly when a setter does what it owes.** -/
theorem set_get_iff (w : Option Value) (call : SetCall) : call.Law w ↔ call.Fits w := by
  cases call with
  | member name value =>
    refine iff_of_true (fun hname root hroot => ?_) trivial
    subst hroot
    exact value.member_law hname root
  | object name value =>
    refine iff_of_true (fun hname hvalue root hroot => ?_) trivial
    subst hroot
    exact object_law hname root hvalue
  | root value => exact value.root_law w

/-- A new wrapper has no tree; `setBooleanValue(true)` gives it the number 1, and
    `getBooleanValue(false)` is false. -/
theorem setBooleanRoot_fails :
    ¬ SetCall.Law none (.root (.boolean true)) ∧
      (setBooleanRoot true none).item.type = .Number ∧
      getBooleanRoot false (some (setBooleanRoot true none)) = false := by
  refine ⟨?_, rfl, rfl⟩
  rintro ⟨htype, -⟩
  revert htype
  decide

end Turnserver
