/-
  WHAT A GENERATED `read` MAKES OF A STRUCT — from any sender, of an older or a newer version.

  * `TValue.into` says what becomes of an object when a value is read into it: each field of the
    sender goes, in turn, to the member with that id, if it has the type of the member; the others are
    left alone.  Nested structs are read into the member that there is, vectors are built anew.
  * `read_wire`: `read` does this and passes over exactly the bytes of the value.  Only the elements
    of vectors have to have the type that the reader expects: it does not look.
-/
import Turnserver.Thrift.Generated

namespace Turnserver

namespace Thrift

open Simulation Varint Reader

/-- The type of the member that reads such a field. -/
def Fields.find (id : Int16) (type : TType) : Fields → Option Ty
  | .stop => none
  | .field _ _ ty _ read rest =>
    if id = read then if type = ty.ttype then some ty else none else rest.find id type

/-- The member that reads such a field, when `f` is what becomes of it. -/
def Fields.update (id : Int16) (type : TType) (f : (ty : Ty) → ty.Val → ty.Val) :
    (fields : Fields) → fields.Val → fields.Val
  | .stop, v => v
  | .field _ _ ty _ read rest, v =>
    if id = read then if type = ty.ttype then (⟨true, f ty v.1.val⟩, v.2) else v
    else (v.1, rest.update id type f v.2)

mutual

/-- What becomes of a member that reads the value. -/
def TValue.into : TValue → (ty : Ty) → ty.Val → ty.Val
  | .bool b, .bool, _ => b
  | .i16 n, .i16, _ => n
  | .i32 n, .i32, _ => n
  | .i64 n, .i64, _ => n
  | .string bs, .string, _ => bs
  | .struct us, .struct fields, v => us.into fields v
  | .list _ us, .list elem, _ => us.into elem
  | _, _, v => v

/-- The fields are stored one after the other. -/
def TFields.into : TFields → (fields : Fields) → fields.Val → fields.Val
  | .stop, _, v => v
  | .field id u rest, fields, v => rest.into fields (fields.update id u.ttype (fun ty v => u.into ty v) v)

/-- The items are stored one after the other. -/
def TValues.into : TValues → (elem : Ty) → List elem.Val
  | .nil, _ => []
  | .cons u rest, elem => u.into elem elem.default :: rest.into elem

end

mutual

/-- Every vector that is read has elements of the type that is expected. -/
def TValue.Suits : TValue → Ty → Prop
  | .struct us, .struct fields => us.Suits fields
  | .list type us, .list elem => type = elem.ttype ∧ us.Suits elem
  | _, _ => True

/-- Every field that the struct knows suits its member. -/
def TFields.Suits : TFields → Fields → Prop
  | .stop, _ => True
  | .field id u rest, fields =>
    (∀ ty, fields.find id u.ttype = some ty → u.Suits ty) ∧ rest.Suits fields

/-- Every item suits the type of the elements. -/
def TValues.Suits : TValues → Ty → Prop
  | .nil, _ => True
  | .cons u rest, elem => u.Suits elem ∧ rest.Suits elem

end

variable {α : Type} {junk : UInt32} {fuel : Nat}

/-- A member is only found by its own type. -/
theorem Fields.find_ttype {id : Int16} {type : TType} {ty : Ty} :
    (fields : Fields) → fields.find id type = some ty → type = ty.ttype
  | .stop, h => by cases h
  | .field _ _ ty' _ read rest, h => by
    rw [Fields.find] at h
    split at h
    · split at h
      · cases h
        assumption
      · cases h
    · exact rest.find_ttype h

/-- Reading into a member reads the same bytes. -/
theorem reads_readInto {p : Reader (List UInt8) (UInt32 × Option α)} {w : List UInt8} {s s' : Held}
    {n : UInt32} {a : α} (h : Reads p w s (n, some a) s') (v : α) :
    Reads (readInto v p) w s (n, a) s' :=
  h.bind_pure (.pure _ _)

/-- A struct is read, if its fields are. -/
theorem reads_readStruct {p : Reader (List UInt8) (UInt32 × α)} {w : List UInt8} {s : Held}
    {last : Int16} {r : UInt32 × α} (h : Reads p w s.inner r (s.inner.after last)) :
    Reads (readStruct p) w s r s :=
  (reads_readStructBegin s).bind_nil (h.bind_pure ((reads_readStructEnd s last).bind_nil (.pure _ _)))

/-- The switch: a member reads the field, or it is skipped. -/
theorem reads_readMember {id : Int16} {type : TType} {w : List UInt8} {s s' : Held} {n : UInt32}
    {f : (ty : Ty) → ty.Val → ty.Val} (hskip : Reads (skip plain fuel type) w s n s') :
    (fields : Fields) → (∀ ty, fields.find id type = some ty →
      ∀ v, Reads (ty.read plain junk fuel v) w s (n, f ty v) s') →
    (v : fields.Val) → Reads (fields.readMember plain junk fuel id type v) w s
      (n, fields.update id type f v) s'
  -- the generated `switch` is tried case by case; no case skips the field
  | .stop, _, _ => hskip.bind_pure (.pure _ _)
  | .field _ _ ty _ read rest, hread, v => by
    rw [Fields.readMember_field, Fields.update]
    by_cases hid : id = read
    · rw [if_pos hid, if_pos hid]
      -- the id is known, but with another type the field is skipped
      by_cases htype : type = ty.ttype
      · rw [if_pos htype, if_pos htype]
        have hty := hread ty (by rw [Fields.find, if_pos hid, if_pos htype]) v.1.val
        exact hty.bind_pure (.pure _ _)
      · rw [if_neg htype, if_neg htype]
        exact hskip.bind_pure (.pure _ _)
    · rw [if_neg hid, if_neg hid]
      have hrest := reads_readMember hskip rest
        (fun ty hfind => hread ty (by rw [Fields.find, if_neg hid]; exact hfind)) v.2
      exact hrest.bind_pure (.pure _ _)

/-- One turn of the loop of `read`. -/
theorem reads_readLoop {turns : Nat} {s : Held} {id last : Int16} {u : TValue} {w : List UInt8}
    {member : Int16 → TType → α → Reader (List UInt8) (UInt32 × α)} {v v' v'' : α} {xfer : UInt32}
    (hmember : Reads (member id u.ttype v) (if u.ttype = .bool then [] else u.wire) (s.enter id u)
      (.ofNat (if u.ttype = .bool then [] else u.wire).length, v') (s.after id))
    (hrest : ∀ xfer, Reads (readLoop plain member turns xfer v') w (s.after id)
      (xfer + .ofNat w.length, v'') (s.after last)) :
    Reads (readLoop plain member (turns + 1) xfer v)
      (fieldWire s.track.lastFieldId id u u.wire ++ w) s
      (xfer + .ofNat (fieldWire s.track.lastFieldId id u u.wire ++ w).length, v'') (s.after last) := by
  rw [fieldWire, List.append_assoc]
  refine (reads_readFieldBegin s id u).bind ?_
  rw [if_neg (ttype_ne_stop u)]
  refine hmember.bind ?_
  have hcount := hrest (xfer + .ofNat (headerWire s.track.lastFieldId id u.headerType).length +
    .ofNat (if u.ttype = .bool then [] else u.wire).length)
  rw [List.length_append, List.length_append, UInt32.ofNat_add, UInt32.ofNat_add, ← UInt32.add_assoc,
    ← UInt32.add_assoc]
  exact hcount

/-- The stop ends the loop. -/
theorem reads_readLoop_stop {turns : Nat} {s : Held}
    {member : Int16 → TType → α → Reader (List UInt8) (UInt32 × α)} {v : α} {xfer : UInt32} :
    Reads (readLoop plain member (turns + 1) xfer v) [0] s (xfer + 1, v) s := by
  refine (reads_readFieldBegin_stop s).bind_pure ?_
  rw [if_pos rfl]
  exact .pure _ _

/-- The value of a field, read by a member. -/
theorem read_field {s : Held} {id : Int16} {u : TValue} {ty : Ty} (hs : s.boolValue = none)
    (htype : u.ttype = ty.ttype) (v : ty.Val)
    (h : u.ttype ≠ .bool → Reads (ty.read plain junk fuel v) u.wire (s.after id)
      (.ofNat u.wire.length, u.into ty v) (s.after id)) :
    Reads (ty.read plain junk fuel v) (if u.ttype = .bool then [] else u.wire) (s.enter id u)
      (.ofNat (if u.ttype = .bool then [] else u.wire).length, u.into ty v) (s.after id) := by
  -- a bool was read with its header
  by_cases hbool : u.ttype = .bool
  · rw [if_pos hbool]
    cases u with
    | bool b =>
      cases ty with
      | bool =>
        have hread := reads_readBool_field (s.enter id (.bool b)) b rfl
        have hafter : { s.enter id (.bool b) with boolValue := none } = s.after id := by
          rw [Held.after, hs]
          rfl
        rw [hafter] at hread
        exact reads_readInto hread v
      | _ => cases htype
    | _ => cases hbool
  · rw [if_neg hbool, enter_eq_after hbool]
    exact h hbool

mutual

/-- **Reading.**  Exactly the bytes of a value are read, and the object becomes what `into` says. -/
theorem TValue.read_wire : (u : TValue) → u.Proper → (ty : Ty) → u.ttype = ty.ttype → u.Suits ty →
    u.wire.length ≤ fuel → (s : Held) → s.boolValue = none → (v : ty.Val) →
    Reads (ty.read plain junk fuel v) u.wire s (.ofNat u.wire.length, u.into ty v) s
  -- a case for each type; a value of another constructor has another type
  | .bool b, _, .bool, _, _, _, s, hs, v => reads_readInto (reads_readBool s b hs) v
  | .i16 n, _, .i16, _, _, _, s, _, v => reads_readInto (reads_readI16 s n) v
  | .i32 n, _, .i32, _, _, _, s, _, v => reads_readInto (reads_readI32 s n) v
  | .i64 n, _, .i64, _, _, _, s, _, v => reads_readInto (reads_readI64 s n) v
  | .string bs, h, .string, _, _, _, s, _, v => reads_readInto (reads_readBinary s h) v
  | .struct us, h, .struct fields, _, hsuits, hfuel, s, hs, v => by
    rcases us.read_wire h fields hsuits fuel s.inner hfuel hfuel hs v with ⟨last, hread⟩
    have hstruct := hread 0
    rw [UInt32.zero_add] at hstruct
    exact reads_readStruct hstruct
  | .list type us, h, .list elem, _, hsuits, hfuel, s, hs, _ => by
    rw [TValue.wire, List.length_append] at hfuel
    rw [Ty.read_list]
    refine (reads_readListBegin s type h.1).bind ?_
    dsimp only [Option.map_some, Option.getD_some]
    rw [size_toNat h.1, TValue.wire, List.length_append, UInt32.ofNat_add]
    exact us.read_wire type h.2 elem hsuits.1 hsuits.2 (by omega) s hs _
  | .byte _, _, ty, htype, _, _, _, _, _ => by cases ty <;> cases htype
  | .double _, _, ty, htype, _, _, _, _, _ => by cases ty <;> cases htype
  | .set _ _, _, ty, htype, _, _, _, _, _ => by cases ty <;> cases htype
  | .map _ _ _, _, ty, htype, _, _, _, _, _ => by cases ty <;> cases htype

/-- The fields of the sender, up to the stop. -/
theorem TFields.read_wire : (us : TFields) → us.Proper → (fields : Fields) → us.Suits fields →
    (turns : Nat) → (s : Held) → (us.wire s.track.lastFieldId).length ≤ fuel →
    (us.wire s.track.lastFieldId).length ≤ turns → s.boolValue = none → (v : fields.Val) →
    ∃ last, ∀ xfer, Reads (readLoop plain
        (fun id type v => fields.readMember plain junk fuel id type v) turns xfer v)
      (us.wire s.track.lastFieldId) s
      (xfer + .ofNat (us.wire s.track.lastFieldId).length, us.into fields v) (s.after last)
  | .stop, _, _, _, 0, _, _, hturns, _, _ => absurd hturns (Nat.not_succ_le_zero 0)
  | .stop, _, _, _, _ + 1, s, _, _, _, _ => ⟨s.track.lastFieldId, fun _ => reads_readLoop_stop⟩
  -- the member is read or skipped, the rest of the struct comes behind it
  | .field id u rest, h, fields, hsuits, turns, s, hfuel, hturns, hs, v => by
    have hheader := headerWire_length_pos s.track.lastFieldId id u.headerType
    rw [TFields.wire, fieldWire, List.length_append, List.length_append] at hfuel hturns
    cases turns with
    | zero => exact absurd hturns (by omega)
    | succ turns =>
      have hbody : u.ttype ≠ .bool → u.wire.length < fuel := by
        intro hbool
        rw [if_neg hbool] at hfuel
        omega
      have hmember : Reads (fields.readMember plain junk fuel id u.ttype v)
          (if u.ttype = .bool then [] else u.wire) (s.enter id u)
          (.ofNat (if u.ttype = .bool then [] else u.wire).length,
            fields.update id u.ttype (fun ty v => u.into ty v) v) (s.after id) := reads_readMember
        (skip_field hs (by omega) fun hbool => u.skip_wire h.1 fuel (hbody hbool) (s.after id) hs) fields
        (fun ty hfind v => read_field hs (fields.find_ttype hfind) v fun hbool =>
          u.read_wire h.1 ty (fields.find_ttype hfind) (hsuits.1 ty hfind) (Nat.le_of_lt (hbody hbool))
            (s.after id) hs v) v
      rcases rest.read_wire h.2 fields hsuits.2 turns (s.after id)
        (Nat.le_trans (Nat.le_add_left _ _) hfuel) (show (rest.wire id).length ≤ turns by omega) hs
        (fields.update id u.ttype (fun ty v => u.into ty v) v) with ⟨last, hrest⟩
      exact ⟨last, fun xfer => reads_readLoop hmember hrest⟩

/-- Items that suit the element type are read: by recursion on the items. -/
theorem TValues.read_wire : (us : TValues) → (type : TType) → us.Proper type → (elem : Ty) →
    type = elem.ttype → us.Suits elem → us.wire.length ≤ fuel → (s : Held) → s.boolValue = none →
    (xfer : UInt32) → Reads (readItems (elem.read plain junk fuel elem.default) us.length xfer) us.wire
      s (xfer + .ofNat us.wire.length, us.into elem) s
  | .nil, _, _, _, _, _, _, s, _, xfer => by
    rw [TValues.wire, List.length_nil, show UInt32.ofNat 0 = 0 from rfl, UInt32.add_zero]
    exact .pure _ _
  | .cons u rest, type, h, elem, htype, hsuits, hfuel, s, hs, xfer => by
    rw [TValues.wire, List.length_append] at hfuel
    have hitem := u.read_wire h.2.1 elem (h.1.trans htype) hsuits.1 (by omega) s hs elem.default
    have hrest := rest.read_wire type h.2.2 elem htype hsuits.2 (by omega) s hs
      (xfer + .ofNat u.wire.length)
    rw [TValues.wire, List.length_append, UInt32.ofNat_add, ← UInt32.add_assoc]
    exact hitem.bind (hrest.bind_pure (.pure _ _))

end

end Thrift

end Turnserver
