/-
  WHAT A GENERATED `write` PUT ON THE WIRE — on any transport that takes it.

  * `Ty.value` is a typed object as a value of the protocol: its fields that are there, under the ids
    that `write` gives to them.
  * `Writes T p w s a s'`: where `T` takes the bytes `w`, they are appended.
  * `write_wire`: `write` appends the bytes of the value and returns their number, as long as the
    structs are not nested more than 64 deep and no string or vector has 2³¹ elements.
-/
import Turnserver.Thrift.GeneratedReads

namespace Turnserver

namespace Thrift

open Simulation Varint

variable {τ α β : Type}

/-! ## Objects as values -/

/-- The items of a list as values. -/
def TValues.ofList : List TValue → TValues
  | [] => .nil
  | u :: us => .cons u (.ofList us)

mutual

/-- The value that `write` writes. -/
def Ty.value : (ty : Ty) → ty.Val → TValue
  | .bool, v => .bool v
  | .i16, v => .i16 v
  | .i32, v => .i32 v
  | .i64, v => .i64 v
  | .string, v => .string v
  | .struct fields, v => .struct (fields.values v)
  | .list elem, vs => .list elem.ttype (.ofList (List.map (fun v => elem.value v) vs))

/-- The fields that `write` writes: those that are set or required. -/
def Fields.values : (fields : Fields) → fields.Val → TFields
  | .stop, _ => .stop
  | .field _ required ty written _ rest, v =>
    if v.1.isset || required then .field written (ty.value v.1.val) (rest.values v.2)
    else rest.values v.2

end

mutual

/-- No string and no vector is too long to be read back. -/
def Ty.fits : (ty : Ty) → ty.Val → Bool
  | .string, v => decide (List.length v < 2 ^ 31)
  | .struct fields, v => fields.fits v
  | .list elem, vs => decide (List.length vs < 2 ^ 31) && List.all vs (fun v => elem.fits v)
  | _, _ => true

/-- What is written of every member fits. -/
def Fields.fits : (fields : Fields) → fields.Val → Bool
  | .stop, _ => true
  | .field _ required ty _ _ rest, v =>
    (!(v.1.isset || required) || ty.fits v.1.val) && rest.fits v.2

end

mutual

/-- How deep the structs are nested. -/
def Ty.depth : Ty → Nat
  | .struct fields => fields.depth + 1
  | .list elem => elem.depth
  | _ => 0

/-- How deep the members nest. -/
def Fields.depth : Fields → Nat
  | .stop => 0
  | .field _ _ ty _ _ rest => max ty.depth rest.depth

end

/-- As many items as there were. -/
theorem TValues.length_ofList (us : List TValue) : (TValues.ofList us).length = us.length := by
  induction us with
  | nil => rfl
  | cons u us ih => rw [ofList, length, ih, List.length_cons]

/-- The value has the type of the member. -/
theorem Ty.ttype_value (ty : Ty) (v : ty.Val) : (ty.value v).ttype = ty.ttype := by
  cases ty <;> rfl

mutual

/-- What fits can be read back, -/
theorem Ty.proper_value : (ty : Ty) → (v : ty.Val) → ty.fits v → (ty.value v).Proper
  | .bool, _, _ => trivial
  | .i16, _, _ => trivial
  | .i32, _, _ => trivial
  | .i64, _, _ => trivial
  | .string, v, h => show List.length v < 2 ^ 31 from of_decide_eq_true h
  | .struct fields, v, h => fields.proper_values v h
  | .list elem, vs, h => by
    rw [Ty.fits, Bool.and_eq_true] at h
    rw [Ty.value, TValue.Proper, TValues.length_ofList, List.length_map]
    exact ⟨of_decide_eq_true h.1, elem.proper_items vs (List.all_eq_true.mp h.2)⟩

/-- The fields of an object that fits are proper. -/
theorem Fields.proper_values : (fields : Fields) → (v : fields.Val) → fields.fits v →
    (fields.values v).Proper
  | .stop, _, _ => trivial
  | .field _ required ty written _ rest, v, h => by
    rw [Fields.fits, Bool.and_eq_true, Bool.or_eq_true, Bool.not_eq_true'] at h
    rw [Fields.values]
    split
    · rename_i hpresent
      rcases h.1 with habsent | hty
      · rw [hpresent] at habsent
        cases habsent
      · exact ⟨ty.proper_value v.1.val hty, rest.proper_values v.2 h.2⟩
    · exact rest.proper_values v.2 h.2

/-- The items of a list that fits are proper. -/
theorem Ty.proper_items (elem : Ty) : (vs : List elem.Val) → (∀ v ∈ vs, elem.fits v) →
    (TValues.ofList (vs.map elem.value)).Proper elem.ttype
  | [], _ => trivial
  | v :: vs, h => ⟨elem.ttype_value v, elem.proper_value v (h v (by simp)),
      elem.proper_items vs fun v' hv' => h v' (by simp [hv'])⟩

end

/-! ## Writing -/

/-- What a protocol that writes without an error has, beside the transport. -/
structure Pen where
  track : Track
  booleanField : Option (String × Int16)
  recursionDepth : Nat

/-- The output over a transport. -/
def Pen.output (s : Pen) (t : τ) : Out τ := ⟨t, s.track, s.booleanField, s.recursionDepth, false⟩

/-- Behind a field. -/
def Pen.after (s : Pen) (id : Int16) : Pen := { s with track := ⟨s.track.lastField, id⟩ }

/-- Inside of a struct. -/
def Pen.inner (s : Pen) : Pen :=
  ⟨⟨s.track.lastFieldId :: s.track.lastField, 0⟩, s.booleanField, s.recursionDepth + 1⟩

variable (T : Transport τ)

/-- `p` writes the bytes `w`, if the transport takes them. -/
def Writes (p : Writer τ α) (w : List UInt8) (s : Pen) (a : α) (s' : Pen) : Prop :=
  ∀ t n, T.Accepts (w.length + n) t → ∃ t', p.run (s.output t) = some (a, s'.output t') ∧
    T.pending t' = T.pending t ++ w ∧ T.Accepts n t'

namespace Writes

variable {T} {s s' s'' : Pen} {a : α} {b : β}

/-- What leaves the transport alone writes nothing. -/
theorem of_run {p : Writer τ α} (h : ∀ t, p.run (s.output t) = some (a, s'.output t)) :
    Writes T p [] s a s' := by
  intro t n haccepts
  refine ⟨t, h t, (List.append_nil _).symm, ?_⟩
  rwa [List.length_nil, Nat.zero_add] at haccepts

/-- Doing nothing writes nothing. -/
theorem pure (a : α) (s : Pen) : Writes T (Pure.pure a) [] s a s := of_run fun _ => rfl

/-- One program after the other writes the bytes of both. -/
theorem bind {p : Writer τ α} {f : α → Writer τ β} {w w' : List UInt8} (h : Writes T p w s a s')
    (hf : Writes T (f a) w' s' b s'') : Writes T (p >>= f) (w ++ w') s b s'' := by
  intro t n haccepts
  rw [List.length_append, Nat.add_assoc] at haccepts
  rcases h t (w'.length + n) haccepts with ⟨t', hrun, hpending, haccepts'⟩
  rcases hf t' n haccepts' with ⟨t'', hrun', hpending', haccepts''⟩
  refine ⟨t'', ?_, by rw [hpending', hpending, List.append_assoc], haccepts''⟩
  rw [run_bind, hrun]
  exact hrun'

/-- A program in front that writes nothing. -/
theorem bind_nil {p : Writer τ α} {f : α → Writer τ β} {w : List UInt8} (h : Writes T p [] s a s')
    (hf : Writes T (f a) w s' b s'') : Writes T (p >>= f) w s b s'' :=
  h.bind hf

/-- A program behind that writes nothing. -/
theorem bind_pure {p : Writer τ α} {f : α → Writer τ β} {w : List UInt8} (h : Writes T p w s a s')
    (hf : Writes T (f a) [] s' b s'') : Writes T (p >>= f) w s b s'' := by
  have hbind := h.bind hf
  rwa [List.append_nil] at hbind

end Writes

section Primitives

variable {T} (s : Pen)

/-- Bytes are written as they are. -/
theorem writes_emit (bs : List UInt8) : Writes T (emit T bs) bs s (.ofNat bs.length) s := by
  intro t n haccepts
  rcases T.write_ok bs n t haccepts with ⟨t', hwrite, hpending, haccepts'⟩
  refine ⟨t', ?_, hpending, haccepts'⟩
  simp [emit, Pen.output, StateT.run, hwrite]

theorem writes_writeByte (b : UInt8) : Writes T (writeByte T b) [b] s 1 s := writes_emit s [b]

/-- A varint is written, if there is room for its bytes. -/
theorem writes_writeVarint {room : Nat} {n : UInt64} (hroom : 0 < room)
    (h : n.toNat < 2 ^ (7 * room)) :
    Writes T (writeVarint T room n) (encode n.toNat) s (.ofNat (encode n.toNat).length) s := by
  rw [writeVarint, varintBytes_eq hroom h]
  exact writes_emit s _

theorem writes_writeVarint32 (n : UInt32) :
    Writes T (writeVarint32 T n) (varintWire n) s (.ofNat (varintWire n).length) s := by
  have hlt : n.toUInt64.toNat < 2 ^ (7 * 5) := by
    rw [UInt32.toNat_toUInt64]
    exact Nat.lt_trans n.toNat_lt (by decide)
  have hwrite := writes_writeVarint (T := T) s (by decide) hlt
  rwa [UInt32.toNat_toUInt64] at hwrite

theorem writes_writeVarint64 (n : UInt64) :
    Writes T (writeVarint64 T n) (encode n.toNat) s (.ofNat (encode n.toNat).length) s :=
  writes_writeVarint s (by decide) (Nat.lt_trans n.toNat_lt (by decide))

theorem writes_writeI16 (n : Int16) :
    Writes T (writeI16 T n) (i16Wire n) s (.ofNat (i16Wire n).length) s :=
  writes_writeVarint32 s _

theorem writes_size {n : Nat} (h : n < 2 ^ 31) :
    Writes T (writeVarint32 T (.ofNat n)) (encode n) s (.ofNat (encode n).length) s := by
  have hwrite := writes_writeVarint32 (T := T) s (.ofNat n)
  rwa [varintWire, size_toNat h] at hwrite

/-- A string is written: its size and its bytes. -/
theorem writes_writeBinary {bs : List UInt8} (h : bs.length < 2 ^ 31) :
    Writes T (writeBinary T bs) (encode bs.length ++ bs) s
      (.ofNat (encode bs.length ++ bs).length) s := by
  have hlen : (encode bs.length).length ≤ 5 := encode_length_le (by decide) (by omega)
  have hwsize : (UInt32.ofNat (encode bs.length).length).toNat = (encode bs.length).length :=
    size_toNat (by omega)
  rw [writeBinary, if_neg (by omega)]
  refine (writes_size s h).bind ?_
  rw [hwsize, if_neg (by omega), List.length_append, UInt32.ofNat_add]
  exact (writes_emit s bs).bind_pure (.pure _ _)

theorem writes_writeCollectionBegin (elem : TType) {n : Nat} (h : n < 2 ^ 31) :
    Writes T (writeCollectionBegin T elem (.ofNat n)) (listWire elem n) s
      (.ofNat (listWire elem n).length) s := by
  have hle : (UInt32.ofNat n).toInt32 ≤ 14 ↔ n ≤ 14 := by
    rw [Int32.le_iff_toInt_le, size_toInt h, show (14 : Int32).toInt = 14 from by decide]
    omega
  rw [writeCollectionBegin, listWire]
  by_cases hn : n ≤ 14
  · rw [if_pos (hle.mpr hn), if_pos hn, UInt32.toUInt8_ofNat']
    exact writes_writeByte s _
  · rw [if_neg (fun h => hn (hle.mp h)), if_neg hn, List.length_cons, Nat.add_comm,
      UInt32.ofNat_add]
    exact (writes_writeByte s _).bind ((writes_size s h).bind_pure (.pure _ _))

/-- The header of a field is written, by the step of the id where that is short. -/
theorem writes_writeDelta (type : UInt8) (last id : Int16) :
    Writes T (writeDelta T type last id) (headerWire last id type) s
      (.ofNat (headerWire last id type).length) s := by
  rw [writeDelta, headerWire]
  split
  · exact writes_writeByte s _
  · rw [List.length_cons, Nat.add_comm, UInt32.ofNat_add]
    exact (writes_writeByte s type).bind ((writes_writeI16 s id).bind_pure (.pure _ _))

theorem writes_header (type : UInt8) (id : Int16) :
    Writes T (writeFieldBeginInternal T type id) (headerWire s.track.lastFieldId id type) s
      (.ofNat (headerWire s.track.lastFieldId id type).length) (s.after id) := by
  have hlast : Writes T lastFieldId [] s s.track.lastFieldId s := .of_run fun _ => rfl
  have hset : Writes T (setLastFieldId id) [] s () (s.after id) := .of_run fun _ => rfl
  exact hlast.bind_nil ((writes_writeDelta s type _ id).bind_pure (hset.bind_nil (.pure _ _)))

/-- The value of a boolean is written with the header that `writeFieldBegin` has left to it. -/
theorem writes_writeBool_field (hs : s.booleanField = none) (b : Bool) {name : String} {id : Int16} :
    Writes T (writeBool T b) (headerWire s.track.lastFieldId id (compactBool b))
      { s with booleanField := some (name, id) }
      (.ofNat (headerWire s.track.lastFieldId id (compactBool b)).length) (s.after id) := by
  have hfield : Writes T booleanField [] { s with booleanField := some (name, id) } (some (name, id))
      { s with booleanField := some (name, id) } := .of_run fun _ => rfl
  have hclear : Writes T (setBooleanField none) []
      (Pen.after { s with booleanField := some (name, id) } id) () (s.after id) := by
    refine .of_run fun t => ?_
    rcases s with ⟨track, _ | field, depth⟩
    · rfl
    · cases hs
  have hheader := writes_header (T := T) { s with booleanField := some (name, id) } (compactBool b) id
  exact hfield.bind_nil (hheader.bind_pure (hclear.bind_nil (.pure _ _)))

theorem writes_writeBool (hs : s.booleanField = none) (b : Bool) :
    Writes T (writeBool T b) [compactBool b] s 1 s := by
  have hfield : Writes T booleanField [] s none s := .of_run fun t => by
    show some (s.booleanField, _) = _
    rw [hs]
  exact hfield.bind_nil (writes_writeByte s _)

/-- A field that is a boolean is written with its value, any other one before it. -/
theorem writes_member (name : String) (id : Int16) {u : TValue} (body : Writer τ UInt32)
    (hs : s.booleanField = none) (hbool : ∀ b, u = .bool b → body = writeBool T b)
    (hbody : u.ttype ≠ .bool →
      Writes T body u.wire (s.after id) (.ofNat u.wire.length) (s.after id)) :
    Writes T (writeMember true (writeFieldBegin T name u.ttype id) body)
      (fieldWire s.track.lastFieldId id u u.wire) s
      (.ofNat (fieldWire s.track.lastFieldId id u u.wire).length) (s.after id) := by
  rw [writeMember, if_pos rfl, fieldWire]
  -- a bool goes out with its header, any other member behind it
  by_cases h : u.ttype = .bool
  · cases u with
    | bool b =>
      have hbegin : Writes T (writeFieldBegin T name (TValue.bool b).ttype id) [] s 0
          { s with booleanField := some (name, id) } := by
        rw [writeFieldBegin, if_pos h]
        exact .of_run fun _ => rfl
      rw [hbool b rfl, if_pos h, List.append_nil]
      exact hbegin.bind_nil ((writes_writeBool_field s hs b).bind_pure (by
        rw [UInt32.zero_add]
        exact .pure _ _))
    | _ => cases h
  -- no other member has a header type of its own
  · have htype : u.headerType = u.ttype.compact := by
      cases u with
      | bool b => exact absurd rfl h
      | _ => rfl
    rw [writeFieldBegin, if_neg h, if_neg h, htype, List.length_append, UInt32.ofNat_add]
    exact (writes_header s _ id).bind ((hbody h).bind_pure (.pure _ _))

end Primitives

/-- A struct is written, if its fields are and the depth allows it. -/
theorem writes_writeStruct {fields : Writer τ UInt32} {w : List UInt8} {s : Pen} {last : Int16}
    (hdepth : s.recursionDepth + 1 ≤ recursionLimit)
    (h : Writes T fields w s.inner (.ofNat w.length) (s.inner.after last)) :
    Writes T (writeStruct T fields) (w ++ [0]) s (.ofNat (w ++ [0]).length) s := by
  have hincrement : Writes T incrementRecursionDepth [] s ()
      { s with recursionDepth := s.recursionDepth + 1 } := by
    refine .of_run fun t => ?_
    show (if recursionLimit < s.recursionDepth + 1 then none else _) = _
    rw [if_neg (Nat.not_lt.mpr hdepth)]
    rfl
  have hbegin : Writes T writeStructBegin [] { s with recursionDepth := s.recursionDepth + 1 } ()
      s.inner := .of_run fun _ => rfl
  have hend : Writes T writeStructEnd [] (s.inner.after last) ()
      { s with recursionDepth := s.recursionDepth + 1 } := .of_run fun _ => rfl
  have hdecrement : Writes T decrementRecursionDepth []
      { s with recursionDepth := s.recursionDepth + 1 } () s := .of_run fun _ => rfl
  rw [List.length_append, UInt32.ofNat_add]
  -- the depth is raised and lowered again, and the last id is put back
  exact hincrement.bind_nil (hbegin.bind_nil (h.bind ((writes_writeByte _ 0).bind_pure
    (hend.bind_nil (hdecrement.bind_nil (.pure _ _))))))

/-- A truth value is written by `writeBool`. -/
theorem Ty.write_bool (ty : Ty) (v : ty.Val) {b : Bool} (h : ty.value v = .bool b) :
    ty.write T v = writeBool T b := by
  cases ty with
  | bool =>
    cases h
    rfl
  | _ => cases h

mutual

/-- **Writing.**  The bytes of the value are appended, and their number is returned. -/
theorem Ty.write_wire : (ty : Ty) → (v : ty.Val) → ty.fits v → (s : Pen) → s.booleanField = none →
    s.recursionDepth + ty.depth ≤ recursionLimit →
    Writes T (ty.write T v) (ty.value v).wire s (.ofNat (ty.value v).wire.length) s
  | .bool, v, _, s, hs, _ => writes_writeBool s hs v
  | .i16, v, _, s, _, _ => writes_writeI16 s v
  | .i32, v, _, s, _, _ => writes_writeVarint32 s _
  | .i64, v, _, s, _, _ => writes_writeVarint64 s _
  | .string, v, h, s, _, _ =>
    writes_writeBinary s (show List.length v < 2 ^ 31 from of_decide_eq_true h)
  | .struct fields, v, h, s, hs, hdepth => by
    rw [Ty.depth] at hdepth
    have hinner : s.recursionDepth + 1 + fields.depth ≤ recursionLimit := by omega
    rcases fields.write_wire v h s.inner hs hinner with ⟨w, last, hwire, hwrite⟩
    have hstruct : (Ty.value (.struct fields) v).wire = w ++ [0] := hwire
    rw [hstruct]
    exact writes_writeStruct T (by omega) hwrite
  | .list elem, vs, h, s, hs, hdepth => by
    rw [Ty.fits, Bool.and_eq_true] at h
    have hlen : List.length vs < 2 ^ 31 := of_decide_eq_true h.1
    rw [Ty.value, TValue.wire, TValues.length_ofList, List.length_map, List.length_append,
      UInt32.ofNat_add]
    exact (writes_writeCollectionBegin s elem.ttype hlen).bind
      (elem.write_items vs (List.all_eq_true.mp h.2) s hs hdepth _)

/-- The fields that are there, without the stop. -/
theorem Fields.write_wire : (fields : Fields) → (v : fields.Val) → fields.fits v → (s : Pen) →
    s.booleanField = none → s.recursionDepth + fields.depth ≤ recursionLimit →
    ∃ w last, (fields.values v).wire s.track.lastFieldId = w ++ [0] ∧
      Writes T (fields.write T v) w s (.ofNat w.length) (s.after last)
  | .stop, _, _, s, _, _ => ⟨[], s.track.lastFieldId, rfl, .pure _ _⟩
  -- a field that is optional and not set leaves no byte
  | .field name required ty written _ rest, v, h, s, hs, hdepth => by
    rw [Fields.fits, Bool.and_eq_true, Bool.or_eq_true, Bool.not_eq_true'] at h
    rw [Fields.depth] at hdepth
    rw [Fields.values, Fields.write]
    cases hpresent : v.1.isset || required with
    | false =>
      rcases rest.write_wire v.2 h.2 s hs (by omega) with ⟨w, last, hwire, hwrite⟩
      refine ⟨w, last, hwire, ?_⟩
      have hmember : Writes T (writeMember false (writeFieldBegin T name ty.ttype written)
          (ty.write T v.1.val)) [] s 0 s := .pure _ _
      refine hmember.bind_nil (hwrite.bind_pure ?_)
      rw [UInt32.zero_add]
      exact .pure _ _
    -- a field that is written is followed by the rest, which starts from its id
    | true =>
      have hty : ty.fits v.1.val := by
        rcases h.1 with habsent | hty
        · rw [hpresent] at habsent
          cases habsent
        · exact hty
      have hrest : s.recursionDepth + rest.depth ≤ recursionLimit := by omega
      have hbody : s.recursionDepth + ty.depth ≤ recursionLimit := by omega
      rcases rest.write_wire v.2 h.2 (s.after written) hs hrest with ⟨w, last, hwire, hwrite⟩
      have hmember := writes_member s name written (ty.write T v.1.val) (u := ty.value v.1.val) hs
        (fun _ hb => ty.write_bool T v.1.val hb)
        (fun _ => ty.write_wire v.1.val hty (s.after written) hs hbody)
      rw [ty.ttype_value] at hmember
      refine ⟨_ ++ w, last, ?_, hmember.bind (hwrite.bind_pure ?_)⟩
      · rw [if_pos rfl, TFields.wire, List.append_assoc, ← hwire]
        rfl
      · rw [List.length_append, UInt32.ofNat_add]
        exact .pure _ _

/-- The items of a list are written: by recursion on the items. -/
theorem Ty.write_items (elem : Ty) : (vs : List elem.Val) → (∀ v ∈ vs, elem.fits v) → (s : Pen) →
    s.booleanField = none → s.recursionDepth + elem.depth ≤ recursionLimit → (xfer : UInt32) →
    Writes T (writeItems (fun v => elem.write T v) vs xfer)
      (TValues.ofList (vs.map fun v => elem.value v)).wire s
      (xfer + .ofNat (TValues.ofList (vs.map fun v => elem.value v)).wire.length) s
  | [], _, s, _, _, xfer => by
    rw [List.map_nil, TValues.ofList, TValues.wire, List.length_nil,
      show UInt32.ofNat 0 = 0 from rfl, UInt32.add_zero]
    exact .pure _ _
  | v :: vs, h, s, hs, hdepth, xfer => by
    have hitem := elem.write_wire v (h v (by simp)) s hs hdepth
    have hrest := elem.write_items vs (fun v' hv' => h v' (by simp [hv'])) s hs hdepth
      (xfer + .ofNat (elem.value v).wire.length)
    rw [List.map_cons, TValues.ofList, TValues.wire, List.length_append, UInt32.ofNat_add,
      ← UInt32.add_assoc]
    exact hitem.bind hrest

end

end Thrift

end Turnserver
