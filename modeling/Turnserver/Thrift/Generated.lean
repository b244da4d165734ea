/-
  GENERATED STRUCTS (`thrift/gen-cpp/report_item_types.cpp`) — what the Thrift compiler writes for a
  struct, for every struct at once.

  A struct is its list of fields, in the order in which they are written.  A field has the id that
  `write` gives to it and the id under which `read` looks for it; the compiler takes both from one
  place, and only files that somebody has edited afterwards tell them apart.
  * `Ty.Val`, `Fields.Val` are the values of the members: of each field the member and its `__isset`.
  * `Ty.write`, `Ty.read` are `write` and `read`, on any transport.  `read` writes into the object
    that there is, and goes on after an error as the generated code does.  It makes room for as many
    elements of a vector as are announced before it has seen one: `Ty.readWith` is `read` of a process
    that may have no memory for them.
  * `Ty.same` is the generated `operator==`.
-/
import Turnserver.Thrift.CompactSkip

namespace Turnserver

namespace Thrift

open Reader

variable {τ α : Type}

mutual

/-- The type of a member. -/
inductive Ty
  | bool | i16 | i32 | i64 | string
  | struct (fields : Fields)
  | list (elem : Ty)

/-- The members of a struct, with the ids that `write` and `read` give them. -/
inductive Fields
  | stop
  | field (name : String) (required : Bool) (ty : Ty) (written read : Int16) (rest : Fields)

end

/-- The type in the header. -/
def Ty.ttype : Ty → TType
  | bool => .bool
  | i16 => .i16
  | i32 => .i32
  | i64 => .i64
  | string => .string
  | struct _ => .struct
  | list _ => .list

/-- A member and its `__isset`.  A required field has a local variable in place of `__isset`, which
    nothing reads. -/
structure Slot (α : Type) where
  isset : Bool
  val : α

mutual

/-- The C++ type of a member. -/
@[reducible]
def Ty.Val : Ty → Type
  | .bool => Bool
  | .i16 => Int16
  | .i32 => Int32
  | .i64 => Int64
  | .string => List UInt8
  | .struct fields => fields.Val
  | .list elem => List elem.Val

/-- The members of an object. -/
@[reducible]
def Fields.Val : Fields → Type
  | .stop => Unit
  | .field _ _ ty _ _ rest => Slot ty.Val × rest.Val

end

mutual

/-- The constructor. -/
def Ty.default : (ty : Ty) → ty.Val
  | .bool => false
  | .i16 => (0 : Int16)
  | .i32 => (0 : Int32)
  | .i64 => (0 : Int64)
  | .string => ([] : List UInt8)
  | .struct fields => fields.default
  | .list _ => []

/-- A new object: nothing is set. -/
def Fields.default : (fields : Fields) → fields.Val
  | .stop => ()
  | .field _ _ ty _ _ rest => (⟨false, ty.default⟩, rest.default)

end

/-! ## Writing -/

section Writing

variable (T : Transport τ)

/-- A field, when it is there. -/
def writeMember (present : Bool) (header body : Writer τ UInt32) : Writer τ UInt32 :=
  if present then do
    let n ← header
    let k ← body
    pure (n + k)
  else pure 0

/-- The loop over a vector. -/
def writeItems (item : α → Writer τ UInt32) : List α → UInt32 → Writer τ UInt32
  | [], xfer => pure xfer
  | v :: vs, xfer => do
    let n ← item v
    writeItems item vs (xfer + n)

/-- A struct around its fields. -/
def writeStruct (fields : Writer τ UInt32) : Writer τ UInt32 := do
  incrementRecursionDepth
  writeStructBegin
  let n ← fields
  let k ← writeFieldStop T
  writeStructEnd
  decrementRecursionDepth
  pure (n + k)

mutual

/-- The `write` of a type. -/
def Ty.write : (ty : Ty) → ty.Val → Writer τ UInt32
  | .bool, v => writeBool T v
  | .i16, v => writeI16 T v
  | .i32, v => writeI32 T v
  | .i64, v => writeI64 T v
  | .string, v => writeBinary T v
  | .struct fields, v => writeStruct T (fields.write v)
  | .list elem, vs => do
    let n ← writeCollectionBegin T elem.ttype (.ofNat (List.length vs))
    writeItems (fun v => elem.write v) vs n

/-- The members in their order, those that are set or required. -/
def Fields.write : (fields : Fields) → fields.Val → Writer τ UInt32
  | .stop, _ => pure 0
  | .field name required ty written _ rest, v => do
    let n ← writeMember (v.1.isset || required) (writeFieldBegin T name ty.ttype written)
      (ty.write v.1.val)
    let k ← rest.write v.2
    pure (n + k)

end

end Writing

/-! ## Reading -/

section Reading

variable (T : Transport τ)

/-- What could not be read leaves the member as it is. -/
def readInto (v : α) (p : Reader τ (UInt32 × Option α)) : Reader τ (UInt32 × α) := do
  let r ← p
  pure (r.1, r.2.getD v)

/-- A field that is not to be read. -/
def skipped (fuel : Nat) (type : TType) (v : α) : Reader τ (UInt32 × α) := do
  let n ← skip T fuel type
  pure (n, v)

/-- `while (true)`, up to the stop: after an error there is one. -/
def readLoop (member : Int16 → TType → α → Reader τ (UInt32 × α)) :
    Nat → UInt32 → α → Reader τ (UInt32 × α)
  | 0, _, _ => stop
  | turns + 1, xfer, v => do
    let field ← readFieldBegin T
    if field.2.1 = .stop then pure (xfer + field.1, v)
    else do
      let r ← member field.2.2 field.2.1 v
      readLoop member turns (xfer + field.1 + r.1) r.2

/-- `resize` of a vector of such elements throws `std::bad_alloc`, which nothing catches, where there
    is no memory for it. -/
def resize (memory : Ty × UInt32 → Bool) (elem : Ty) (size : UInt32) : Reader τ Unit :=
  if memory (elem, size) then pure () else stop

/-- The loop over a vector that has been resized. -/
def readItems (item : Reader τ (UInt32 × α)) : Nat → UInt32 → Reader τ (UInt32 × List α)
  | 0, xfer => pure (xfer, [])
  | n + 1, xfer => do
    let r ← item
    let rs ← readItems item n (xfer + r.1)
    pure (rs.1, r.2 :: rs.2)

/-- The fields of a struct, and its end. -/
def readStruct (fields : Reader τ (UInt32 × α)) : Reader τ (UInt32 × α) := do
  readStructBegin
  let r ← fields
  readStructEnd
  pure r

mutual

/-- `_size` has no value before `readListBegin` gives it one: after an error it is `junk`.  The type
    of the elements in the header is not looked at. -/
def Ty.readWith (memory : Ty × UInt32 → Bool) (junk : UInt32) (fuel : Nat) :
    (ty : Ty) → ty.Val → Reader τ (UInt32 × ty.Val)
  | .bool, v => readInto v (readBool T)
  | .i16, v => readInto v (readI16 T)
  | .i32, v => readInto v (readI32 T)
  | .i64, v => readInto v (readI64 T)
  | .string, v => readInto v (readBinary T)
  | .struct fields, v =>
    readStruct
      (readLoop T (fun id type v => fields.readMemberWith memory junk fuel id type v) fuel 0 v)
  | .list elem, _ => do
    let h ← readListBegin T
    resize memory elem ((h.2.map Prod.snd).getD junk)
    readItems (elem.readWith memory junk fuel elem.default) ((h.2.map Prod.snd).getD junk).toNat h.1

/-- `switch (fid)` -/
def Fields.readMemberWith (memory : Ty × UInt32 → Bool) (junk : UInt32) (fuel : Nat) :
    (fields : Fields) → Int16 → TType → fields.Val → Reader τ (UInt32 × fields.Val)
  | .stop, _, type, v => skipped T fuel type v
  | .field _ _ ty _ read rest, id, type, v =>
    if id = read then
      if type = ty.ttype then do
        let r ← ty.readWith memory junk fuel v.1.val
        pure (r.1, (⟨true, r.2⟩, v.2))
      else skipped T fuel type v
    else do
      let r ← rest.readMemberWith memory junk fuel id type v.2
      pure (r.1, (v.1, r.2))

end

/-- `read`, when there is memory for every vector. -/
def Ty.read (junk : UInt32) (fuel : Nat) (ty : Ty) (v : ty.Val) : Reader τ (UInt32 × ty.Val) :=
  ty.readWith T Simulation.always junk fuel v

/-- `read` of a member, where memory never runs out. -/
def Fields.readMember (junk : UInt32) (fuel : Nat) (fields : Fields) (id : Int16) (type : TType)
    (v : fields.Val) : Reader τ (UInt32 × fields.Val) :=
  fields.readMemberWith T Simulation.always junk fuel id type v

/-- `read` of a list, where memory never runs out. -/
theorem Ty.read_list (junk : UInt32) (fuel : Nat) (elem : Ty) (v : (Ty.list elem).Val) :
    (Ty.list elem).read T junk fuel v = (do
      let h ← readListBegin T
      readItems (elem.read T junk fuel elem.default) ((h.2.map Prod.snd).getD junk).toNat h.1) := rfl

/-- `read` of a member: its own, if id and type fit, else the next one. -/
theorem Fields.readMember_field {name : String} {required : Bool} {ty : Ty} {written read : Int16}
    {rest : Fields} (junk : UInt32) (fuel : Nat) (id : Int16) (type : TType)
    (v : (Fields.field name required ty written read rest).Val) :
    (Fields.field name required ty written read rest).readMember T junk fuel id type v =
      (if id = read then
        if type = ty.ttype then do
          let r ← ty.read T junk fuel v.1.val
          pure (r.1, (⟨true, r.2⟩, v.2))
        else skipped T fuel type v
      else do
        let r ← rest.readMember T junk fuel id type v.2
        pure (r.1, (v.1, r.2))) := rfl

end Reading

end Thrift

end Turnserver
