/-
  ROUND TRIPS — from an object to the wire and back into a new object.

  * `Ty.same` is the generated `operator==`: a member that is not set does not count.
  * `Fields.Faithful` says when an object comes back: each field that is written has the id under which
    it is read, and no later field that is written has it too.  For a list of fields with distinct ids,
    each the same in `write` and `read`, every object does (`sane`).
  * `into_value`: then the new object is the old one, with what is not set at its default.
-/
import Turnserver.Thrift.GeneratedErrors

namespace Turnserver

namespace Thrift

variable {α : Type}

/-! ## The same object -/

/-- `operator==` of two vectors. -/
def sameItems (same : α → α → Bool) : List α → List α → Bool
  | [], [] => true
  | a :: as, b :: bs => same a b && sameItems same as bs
  | _, _ => false

mutual

/-- `operator==` of a type. -/
def Ty.same : (ty : Ty) → ty.Val → ty.Val → Bool
  | .bool, a, b => decide (a = b)
  | .i16, a, b => decide (a = b)
  | .i32, a, b => decide (a = b)
  | .i64, a, b => decide (a = b)
  | .string, a, b => decide (a = b)
  | .struct fields, a, b => fields.same a b
  | .list elem, as, bs => sameItems (fun a b => elem.same a b) as bs

/-- `operator==` of the members: optional ones only count where they are set. -/
def Fields.same : (fields : Fields) → fields.Val → fields.Val → Bool
  | .stop, _, _ => true
  | .field _ required ty _ _ rest, a, b =>
    (if required then ty.same a.1.val b.1.val
      else decide (a.1.isset = b.1.isset) && (!a.1.isset || ty.same a.1.val b.1.val)) &&
    rest.same a.2 b.2

end

mutual

/-- What is not written is at its default. -/
def Ty.normalise : (ty : Ty) → ty.Val → ty.Val
  | .struct fields, v => fields.normalise v
  | .list elem, vs => List.map (fun v => elem.normalise v) vs
  | .bool, v => v
  | .i16, v => v
  | .i32, v => v
  | .i64, v => v
  | .string, v => v

/-- The members as they come back. -/
def Fields.normalise : (fields : Fields) → fields.Val → fields.Val
  | .stop, _ => ()
  | .field _ required ty _ _ rest, v =>
    (if v.1.isset || required then ⟨true, ty.normalise v.1.val⟩ else ⟨false, ty.default⟩,
      rest.normalise v.2)

end

mutual

/-- A value equals what comes back of it. -/
theorem Ty.same_normalise : (ty : Ty) → (v : ty.Val) → ty.same (ty.normalise v) v = true
  | .bool, v => decide_eq_true (Eq.refl v)
  | .i16, v => decide_eq_true (Eq.refl v)
  | .i32, v => decide_eq_true (Eq.refl v)
  | .i64, v => decide_eq_true (Eq.refl v)
  | .string, v => decide_eq_true (Eq.refl v)
  | .struct fields, v => fields.same_normalise v
  | .list elem, vs => elem.same_normalise_items vs

/-- The members equal what comes back of them. -/
theorem Fields.same_normalise : (fields : Fields) → (v : fields.Val) →
    fields.same (fields.normalise v) v = true
  | .stop, _ => rfl
  | .field _ required ty _ _ rest, v => by
    have hty := ty.same_normalise v.1.val
    rw [Fields.same, Fields.normalise, rest.same_normalise v.2, Bool.and_true]
    cases required with
    | true => simp [hty]
    | false => cases hset : v.1.isset <;> simp [hty]

/-- The items equal what comes back of them. -/
theorem Ty.same_normalise_items (elem : Ty) : (vs : List elem.Val) →
    sameItems (fun a b => elem.same a b) (vs.map fun v => elem.normalise v) vs = true
  | [] => rfl
  | v :: vs => by
    rw [List.map_cons, sameItems, elem.same_normalise v, elem.same_normalise_items vs]
    rfl

end

/-! ## Fields that come back -/

/-- The ids of the fields. -/
def TFields.ids : TFields → List Int16
  | .stop => []
  | .field id _ rest => id :: rest.ids

mutual

/-- Every struct in the value is read by the ids that it was written with. -/
def Ty.Faithful : (ty : Ty) → ty.Val → Prop
  | .struct fields, v => fields.Faithful v
  | .list elem, vs => ∀ v ∈ vs, elem.Faithful v
  | _, _ => True

/-- Every member that is written is read by its own id, and no other field has that id. -/
def Fields.Faithful : (fields : Fields) → fields.Val → Prop
  | .stop, _ => True
  | .field _ required ty written read rest, v =>
    ((v.1.isset || required) = true → written = read ∧ ty.Faithful v.1.val) ∧
    read ∉ (rest.values v.2).ids ∧ rest.Faithful v.2

end

/-- A field with another id leaves the first member alone. -/
theorem TFields.into_frame {name : String} {required : Bool} {ty : Ty} {written read : Int16}
    {rest : Fields} : (us : TFields) → read ∉ us.ids → (x : Slot ty.Val) → (v : rest.Val) →
    us.into (.field name required ty written read rest) (x, v) = (x, us.into rest v)
  | .stop, _, _, _ => rfl
  | .field id u us, h, x, v => by
    rw [TFields.ids, List.mem_cons, not_or] at h
    rw [TFields.into, Fields.update, if_neg (Ne.symm h.1), us.into_frame h.2]
    rfl

/-- A field of another id does not matter to a member. -/
theorem TFields.suits_frame {name : String} {required : Bool} {ty : Ty} {written read : Int16}
    {rest : Fields} : (us : TFields) → read ∉ us.ids →
    (us.Suits (.field name required ty written read rest) ↔ us.Suits rest)
  | .stop, _ => Iff.rfl
  | .field id u us, h => by
    rw [TFields.ids, List.mem_cons, not_or] at h
    rw [TFields.Suits, TFields.Suits, us.suits_frame h.2, Fields.find, if_neg (Ne.symm h.1)]

mutual

/-- **The way back.** -/
theorem Ty.into_value : (ty : Ty) → (v : ty.Val) → ty.Faithful v →
    (ty.value v).into ty ty.default = ty.normalise v
  | .bool, _, _ => rfl
  | .i16, _, _ => rfl
  | .i32, _, _ => rfl
  | .i64, _, _ => rfl
  | .string, _, _ => rfl
  | .struct fields, v, h => fields.into_values v h
  | .list elem, vs, h => elem.into_items vs h

/-- Storing the written fields gives back the members. -/
theorem Fields.into_values : (fields : Fields) → (v : fields.Val) → fields.Faithful v →
    (fields.values v).into fields fields.default = fields.normalise v
  | .stop, _, _ => rfl
  | .field _ required ty written read rest, v, h => by
    rcases h with ⟨hfield, hid, hrest⟩
    have hback := rest.into_values v.2 hrest
    rw [Fields.values, Fields.normalise, Fields.default]
    cases hpresent : v.1.isset || required with
    | false =>
      rw [if_neg Bool.false_ne_true, if_neg Bool.false_ne_true, TFields.into_frame _ hid, hback]
    | true =>
      rcases hfield hpresent with ⟨rfl, hty⟩
      rw [if_pos rfl, if_pos rfl, TFields.into, Fields.update, if_pos rfl,
        if_pos (ty.ttype_value v.1.val), TFields.into_frame _ hid, hback, ty.into_value v.1.val hty]

/-- Storing the written items gives back the items. -/
theorem Ty.into_items (elem : Ty) : (vs : List elem.Val) → (∀ v ∈ vs, elem.Faithful v) →
    (TValues.ofList (vs.map fun v => elem.value v)).into elem = vs.map fun v => elem.normalise v
  | [], _ => rfl
  | v :: vs, h => by
    rw [List.map_cons, List.map_cons, TValues.ofList, TValues.into,
      elem.into_value v (h v (by simp)), elem.into_items vs fun v' hv' => h v' (by simp [hv'])]

end

mutual

/-- A faithful value suits its type. -/
theorem Ty.suits_value : (ty : Ty) → (v : ty.Val) → ty.Faithful v → (ty.value v).Suits ty
  | .bool, _, _ => trivial
  | .i16, _, _ => trivial
  | .i32, _, _ => trivial
  | .i64, _, _ => trivial
  | .string, _, _ => trivial
  | .struct fields, v, h => fields.suits_values v h
  | .list elem, vs, h => ⟨rfl, elem.suits_items vs h⟩

/-- The fields of a faithful object suit the struct. -/
theorem Fields.suits_values : (fields : Fields) → (v : fields.Val) → fields.Faithful v →
    (fields.values v).Suits fields
  | .stop, _, _ => trivial
  | .field name required ty written read rest, v, h => by
    rcases h with ⟨hfield, hid, hrest⟩
    have hsuits : (rest.values v.2).Suits (.field name required ty written read rest) :=
      (TFields.suits_frame _ hid).mpr (rest.suits_values v.2 hrest)
    rw [Fields.values]
    cases hpresent : v.1.isset || required with
    | false => exact hsuits
    | true =>
      rcases hfield hpresent with ⟨rfl, hty⟩
      refine ⟨fun ty' hfind => ?_, hsuits⟩
      rw [Fields.find, if_pos rfl, if_pos (ty.ttype_value v.1.val)] at hfind
      cases hfind
      exact ty.suits_value v.1.val hty

/-- The items of a faithful list suit the element type. -/
theorem Ty.suits_items (elem : Ty) : (vs : List elem.Val) → (∀ v ∈ vs, elem.Faithful v) →
    (TValues.ofList (vs.map fun v => elem.value v)).Suits elem
  | [], _ => trivial
  | v :: vs, h => ⟨elem.suits_value v (h v (by simp)),
      elem.suits_items vs fun v' hv' => h v' (by simp [hv'])⟩

end

/-! ## Lists of fields as the compiler writes them -/

/-- The ids with which the members are written. -/
def Fields.ids : Fields → List Int16
  | .stop => []
  | .field _ _ _ written _ rest => written :: rest.ids

mutual

/-- Distinct ids, each the same in `write` and in `read`. -/
def Ty.sane : Ty → Bool
  | .struct fields => fields.sane
  | .list elem => elem.sane
  | _ => true

/-- Ids agree, none comes twice, and so on below. -/
def Fields.sane : Fields → Bool
  | .stop => true
  | .field _ _ ty written read rest =>
    decide (written = read) && !rest.ids.contains read && ty.sane && rest.sane

end

/-- The ids of what is written are among those of the members. -/
theorem Fields.ids_values : (fields : Fields) → (v : fields.Val) → {id : Int16} →
    id ∈ (fields.values v).ids → id ∈ fields.ids
  | .stop, _, _, h => h
  | .field _ required _ written _ rest, v, id, h => by
    rw [Fields.values] at h
    rw [Fields.ids, List.mem_cons]
    split at h
    · rw [TFields.ids, List.mem_cons] at h
      rcases h with rfl | h
      · exact .inl rfl
      · exact .inr (rest.ids_values v.2 h)
    · exact .inr (rest.ids_values v.2 h)

/-- An id that no member has is not written. -/
theorem Fields.notMem_ids {fields : Fields} {id : Int16} (h : fields.ids.contains id = false)
    (v : fields.Val) : id ∉ (fields.values v).ids := by
  intro hmem
  have hcontains := List.contains_iff_mem.mpr (fields.ids_values v hmem)
  rw [h] at hcontains
  cases hcontains

mutual

/-- Every value of a sane type is faithful. -/
theorem Ty.faithful_of_sane : (ty : Ty) → ty.sane → (v : ty.Val) → ty.Faithful v
  | .bool, _, _ => trivial
  | .i16, _, _ => trivial
  | .i32, _, _ => trivial
  | .i64, _, _ => trivial
  | .string, _, _ => trivial
  | .struct fields, h, v => fields.faithful_of_sane h v
  | .list elem, h, vs => elem.faithful_items h vs

/-- Every object of a sane struct is faithful. -/
theorem Fields.faithful_of_sane : (fields : Fields) → fields.sane → (v : fields.Val) →
    fields.Faithful v
  | .stop, _, _ => trivial
  | .field _ _ ty written read rest, h, v => by
    rw [Fields.sane, Bool.and_eq_true, Bool.and_eq_true, Bool.and_eq_true, Bool.not_eq_true'] at h
    rcases h with ⟨⟨⟨hid, hdistinct⟩, hty⟩, hrest⟩
    exact ⟨fun _ => ⟨of_decide_eq_true hid, ty.faithful_of_sane hty v.1.val⟩,
      Fields.notMem_ids hdistinct v.2, rest.faithful_of_sane hrest v.2⟩

/-- Every item of a list of a sane type is faithful. -/
theorem Ty.faithful_items (elem : Ty) (h : elem.sane) : (vs : List elem.Val) →
    ∀ v ∈ vs, elem.Faithful v
  | [], _, hv => by cases hv
  | v :: vs, v', hv => by
    rcases List.mem_cons.mp hv with rfl | hv
    · exact elem.faithful_of_sane h v'
    · exact elem.faithful_items h vs v' hv

end

/-! ## One level at a time

  Where the ids of a struct are in order, each of its members comes back on its own. -/

/-- The object comes back as the same. -/
def Ty.Comes (ty : Ty) (v : ty.Val) : Prop := ty.same ((ty.value v).into ty ty.default) v = true

/-- Every value of a sane type comes back. -/
theorem Ty.comes_of_sane {ty : Ty} (h : ty.sane) (v : ty.Val) : ty.Comes v := by
  rw [Ty.Comes, ty.into_value v (ty.faithful_of_sane h v)]
  exact ty.same_normalise v

/-- Ids agree, and none comes twice. -/
def Fields.distinct : Fields → Bool
  | .stop => true
  | .field _ _ _ written read rest =>
    decide (written = read) && !rest.ids.contains read && rest.distinct

/-- Of each member that is written. -/
def Fields.Each (P : (ty : Ty) → ty.Val → Prop) : (fields : Fields) → fields.Val → Prop
  | .stop, _ => True
  | .field _ required ty _ _ rest, v =>
    ((v.1.isset || required) = true → P ty v.1.val) ∧ rest.Each P v.2

/-- A member of which it holds anyway can be left out. -/
theorem Fields.each_skip {P : (ty : Ty) → ty.Val → Prop} {name : String} {required : Bool} {ty : Ty}
    {written read : Int16} {rest : Fields} (hP : ∀ v, P ty v)
    (v : (Fields.field name required ty written read rest).Val) :
    (Fields.field name required ty written read rest).Each P v ↔ rest.Each P v.2 :=
  ⟨And.right, fun h => ⟨fun _ => hP v.1.val, h⟩⟩

/-- An object comes back exactly if every member that is written does. -/
theorem Fields.comes_iff : (fields : Fields) → fields.distinct → (v : fields.Val) →
    (fields.same ((fields.values v).into fields fields.default) v = true ↔ fields.Each Ty.Comes v)
  | .stop, _, _ => ⟨fun _ => trivial, fun _ => rfl⟩
  | .field name required ty written read rest, h, v => by
    rw [Fields.distinct, Bool.and_eq_true, Bool.and_eq_true, Bool.not_eq_true'] at h
    rcases h with ⟨⟨hid, hdistinct⟩, hrest⟩
    rcases of_decide_eq_true hid with rfl
    have hnot := Fields.notMem_ids hdistinct v.2
    have ih := rest.comes_iff hrest v.2
    rw [Fields.values, Fields.default, Fields.Each]
    -- a field that was not written keeps its default, and a written one is read back
    cases hpresent : v.1.isset || required with
    | false =>
      rw [Bool.or_eq_false_iff] at hpresent
      -- the other fields have other ids, so they leave this one alone
      rw [if_neg Bool.false_ne_true, TFields.into_frame _ hnot, Fields.same, hpresent.1, hpresent.2]
      simpa using ih
    | true =>
      have hsame : (if required then ty.same ((ty.value v.1.val).into ty ty.default) v.1.val
          else decide (true = v.1.isset) &&
            (!true || ty.same ((ty.value v.1.val).into ty ty.default) v.1.val)) =
          ty.same ((ty.value v.1.val).into ty ty.default) v.1.val := by
        cases required with
        | true => rfl
        | false =>
          rw [Bool.or_false] at hpresent
          rw [hpresent]
          rfl
      rw [if_pos rfl, TFields.into, Fields.update, if_pos rfl, if_pos (ty.ttype_value v.1.val),
        TFields.into_frame _ hnot, Fields.same, hsame, Bool.and_eq_true, ← ih]
      exact ⟨fun h => ⟨fun _ => h.1, h.2⟩, fun h => ⟨h.1 rfl, h.2⟩⟩

/-- What is written suits its reader if each member does. -/
theorem Fields.suits_member {all rest : Fields} {name : String} {required : Bool} {ty : Ty}
    {written read : Int16} {v : (Fields.field name required ty written read rest).Val}
    (h : ∀ ty', all.find written ty.ttype = some ty' → (ty.value v.1.val).Suits ty')
    (hrest : (rest.values v.2).Suits all) :
    ((Fields.field name required ty written read rest).values v).Suits all := by
  rw [Fields.values]
  split
  · exact ⟨fun ty' hfind => h ty' (by rwa [ty.ttype_value] at hfind), hrest⟩
  · exact hrest

/-- The fields of an object suit the struct, if every value written suits its type. -/
theorem Fields.suits_of_each : (fields : Fields) → fields.distinct → (v : fields.Val) →
    fields.Each (fun ty v => (ty.value v).Suits ty) v → (fields.values v).Suits fields
  | .stop, _, _, _ => trivial
  | .field name required ty written read rest, h, v, heach => by
    rw [Fields.distinct, Bool.and_eq_true, Bool.and_eq_true, Bool.not_eq_true'] at h
    rcases h with ⟨⟨hid, hdistinct⟩, hrest⟩
    rcases of_decide_eq_true hid with rfl
    have hsuits : (rest.values v.2).Suits (.field name required ty written written rest) :=
      (TFields.suits_frame _ (Fields.notMem_ids hdistinct v.2)).mpr
        (rest.suits_of_each hrest v.2 heach.2)
    rw [Fields.values]
    split
    · rename_i hpresent
      refine ⟨fun ty' hfind => ?_, hsuits⟩
      rw [Fields.find, if_pos rfl, if_pos (ty.ttype_value v.1.val)] at hfind
      cases hfind
      exact heach.1 hpresent
    · exact hsuits

/-! ## Members that nobody writes -/

/-- The `__isset` of the member that is read under the id. -/
def Fields.issetAt (id : Int16) : (fields : Fields) → fields.Val → Bool
  | .stop, _ => false
  | .field _ required _ _ read rest, v =>
    if id = read then !required && v.1.isset else rest.issetAt id v.2

/-- Nothing is set in a new object. -/
theorem Fields.issetAt_default (id : Int16) : (fields : Fields) →
    fields.issetAt id fields.default = false
  | .stop => rfl
  | .field _ required _ _ read rest => by
    rw [Fields.issetAt, Fields.default, Bool.and_false, rest.issetAt_default id, ite_self]

/-- Storing in a member of another id sets nothing. -/
theorem Fields.issetAt_update {id id' : Int16} (h : id ≠ id') {type : TType}
    {f : (ty : Ty) → ty.Val → ty.Val} : (fields : Fields) → (v : fields.Val) →
    fields.issetAt id (fields.update id' type f v) = fields.issetAt id v
  | .stop, _ => rfl
  | .field _ required ty _ read rest, v => by
    by_cases hid : id' = read
    · have hne : ¬ id = read := fun hread => h (hread.trans hid.symm)
      rw [Fields.update, if_pos hid, Fields.issetAt, Fields.issetAt, if_neg hne, if_neg hne]
      split <;> rfl
    · rw [Fields.update, if_neg hid, Fields.issetAt, Fields.issetAt, rest.issetAt_update h]

/-- Fields of other ids set nothing. -/
theorem TFields.issetAt_into {id : Int16} {fields : Fields} : (us : TFields) → id ∉ us.ids →
    (v : fields.Val) → fields.issetAt id (us.into fields v) = fields.issetAt id v
  | .stop, _, _ => rfl
  | .field id' u us, h, v => by
    rw [TFields.ids, List.mem_cons, not_or] at h
    rw [TFields.into, us.issetAt_into h.2, fields.issetAt_update h.1]

/-- Equal objects have the same members set. -/
theorem Fields.issetAt_same {id : Int16} : (fields : Fields) → (a b : fields.Val) →
    fields.same a b = true → fields.issetAt id a = fields.issetAt id b
  | .stop, _, _, _ => rfl
  | .field _ required ty _ read rest, a, b, h => by
    rw [Fields.same, Bool.and_eq_true] at h
    rw [Fields.issetAt, Fields.issetAt, rest.issetAt_same a.2 b.2 h.2]
    cases required with
    | true => rfl
    | false =>
      have hset := h.1
      rw [if_neg Bool.false_ne_true, Bool.and_eq_true] at hset
      rw [of_decide_eq_true hset.1]

/-- What is read under an id that nobody writes does not come back. -/
theorem Fields.lost (id : Int16) {fields : Fields} (hid : id ∉ fields.ids) {v : fields.Val}
    (h : fields.same ((fields.values v).into fields fields.default) v = true) :
    fields.issetAt id v = false := by
  rw [← fields.issetAt_same _ _ h, TFields.issetAt_into _ (fun hmem => hid (fields.ids_values v hmem)),
    fields.issetAt_default]

end Thrift

end Turnserver
