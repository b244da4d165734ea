/-
  THE COMPACT PROTOCOL (`thrift/protocol/TCompactProtocol.h`, `.tcc`, `TProtocol.h`: `skip`) — how
  values become bytes, and what reading makes of bytes.

  This library was built without exceptions: an error sets a flag, and whoever reads has to look at it.
  * A program is a `StateT` over the protocol object, on any `Transport`; it is `none` where an
    assertion fails, or where there is no fuel left.
  * A reading function returns its count, and what it stores through its reference: nothing, exactly
    where it returns with an error.  The limits for strings and containers are those of the factory,
    which are off, and `realloc` finds memory.
  * A field that is a boolean has its value in the header: `writeFieldBegin` only remembers the field,
    and `readFieldBegin` leaves the value for `readBool`.
-/
import Turnserver.Lib.Varint
import Turnserver.Thrift.TMemoryBuffer

namespace Turnserver

open Bytes

namespace Thrift

/-- The types that `getTType` returns. -/
inductive TType
  | stop | bool | byte | double | i16 | i32 | i64 | string | struct | map | set | list
deriving DecidableEq

/-- `getCompactType` -/
def TType.compact : TType → UInt8
  | stop => 0x00
  | bool => 0x01
  | byte => 0x03
  | i16 => 0x04
  | i32 => 0x05
  | i64 => 0x06
  | double => 0x07
  | string => 0x08
  | list => 0x09
  | set => 0x0A
  | map => 0x0B
  | struct => 0x0C

/-- `CT_BOOLEAN_TRUE`, `CT_BOOLEAN_FALSE` -/
def compactBool (b : Bool) : UInt8 := if b then 0x01 else 0x02

/-- `getTType`; an unknown type is an error. -/
def getTType (type : UInt8) : Option TType :=
  if type = 0x00 then some .stop
  else if type = 0x01 ∨ type = 0x02 then some .bool
  else if type = 0x03 then some .byte
  else if type = 0x04 then some .i16
  else if type = 0x05 then some .i32
  else if type = 0x06 then some .i64
  else if type = 0x07 then some .double
  else if type = 0x08 then some .string
  else if type = 0x09 then some .list
  else if type = 0x0A then some .set
  else if type = 0x0B then some .map
  else if type = 0x0C then some .struct
  else none

/-! ## Numbers -/

/-- `i32ToZigzag` -/
def i32ToZigzag (n : Int32) : UInt32 := ((n <<< 1) ^^^ (n >>> 31)).toUInt32

/-- `i64ToZigzag` -/
def i64ToZigzag (l : Int64) : UInt64 := ((l <<< 1) ^^^ (l >>> 63)).toUInt64

/-- `zigzagToI32` -/
def zigzagToI32 (n : UInt32) : Int32 := ((n >>> 1) ^^^ -(n &&& 1)).toInt32

/-- `zigzagToI64` -/
def zigzagToI64 (n : UInt64) : Int64 := ((n >>> 1) ^^^ -(n &&& 1)).toInt64

/-- The loop of `writeVarint32` and `writeVarint64`, on a buffer with so much room. -/
def varintBytes : Nat → UInt64 → Option (List UInt8)
  | 0, _ => none
  | room + 1, n =>
    if n &&& ~~~0x7F = 0 then some [n.toUInt8]
    else (varintBytes room (n >>> 7)).map fun bs => ((n &&& 0x7F) ||| 0x80).toUInt8 :: bs

/-- One turn of the loops of `readVarint64`: `val |= (uint64_t)(byte & 0x7f) << shift`. -/
def addSeptet (val : UInt64) (rsize : Nat) (byte : UInt8) : UInt64 :=
  val ||| ((byte &&& 0x7f).toUInt64 <<< UInt64.ofNat (7 * rsize))

/-- `sizeof(buf)` -/
def varintSize : Nat := 10

/-- The loop of the fast path of `readVarint64`: the value, and how many bytes it has. -/
def fastVarint : List UInt8 → Nat → UInt64 → Option (UInt64 × Nat)
  | [], _, _ => none
  | byte :: borrowed, rsize, val =>
    if byte &&& 0x80 = 0 then some (addSeptet val rsize byte, rsize + 1)
    else if rsize + 1 = varintSize then none
    else fastVarint borrowed (rsize + 1) (addSeptet val rsize byte)

/-! ## Reading -/

variable {τ α : Type}

/-- The members that keep track of the struct that is being read or written. -/
structure Track where
  lastField : List Int16
  lastFieldId : Int16
deriving DecidableEq

/-- The members of a protocol that reads. -/
structure In (τ : Type) where
  trans : τ
  track : Track
  /-- `boolValue_`, where `hasBoolValue` is set -/
  boolValue : Option Bool
  /-- `hasError()` -/
  error : Bool

/-- A protocol that is about to read. -/
def In.new (trans : τ) : In τ := ⟨trans, ⟨[], 0⟩, none, false⟩

/-- A program that reads; `none` where the process ends. -/
abbrev Reader (τ α : Type) := StateT (In τ) Option α

namespace Reader

/-- The process stops. -/
def stop : Reader τ α := fun _ => none

/-- `hasError` -/
def hasError : Reader τ Bool := fun s => some (s.error, s)

/-- `setError` -/
def setError : Reader τ Unit := fun s => some ((), { s with error := true })

/-- `return 0` with an error. -/
def fail : Reader τ (UInt32 × Option α) := do
  setError
  pure (0, none)

end Reader

open Reader

section Reading

variable (T : Transport τ)

/-- `TCompactProtocolT::readAll` -/
def readAll (len : Nat) : Reader τ (List UInt8) := fun s =>
  if s.error then some ([], s)
  else
    let r := T.readAll len s.trans
    some (r.1, { s with trans := r.2, error := r.1.isEmpty })

/-- `borrow` of the transport. -/
def borrow (len : Nat) : Reader τ (Option (List UInt8)) := fun s =>
  let r := T.borrow len s.trans
  some (r.1, { s with trans := r.2 })

/-- `consume` of the transport; the process ends where more is consumed than was lent. -/
def consume (len : Nat) : Reader τ Unit := fun s =>
  (T.consume len s.trans).map fun trans => ((), { s with trans := trans })

/-- `readByte` -/
def readByte : Reader τ (UInt32 × Option UInt8) := do
  let b ← readAll T 1
  match b with
  | [] => pure (0, none)
  | byte :: _ => pure (1, some byte)

/-- The slow path, with so many turns to go. -/
def slowVarint : Nat → Nat → UInt64 → Reader τ (UInt32 × Option UInt64)
  | 0, _, _ => fail
  | turns + 1, rsize, val => do
    let b ← readAll T 1
    match b with
    | [] => pure (0, none)
    | byte :: _ =>
      if byte &&& 0x80 = 0 then
        pure (.ofNat (rsize + 1), some (addSeptet val rsize byte))
      else if varintSize ≤ rsize + 1 then fail
      else slowVarint turns (rsize + 1) (addSeptet val rsize byte)

/-- The fast path. -/
def takeVarint (borrowed : List UInt8) : Reader τ (UInt32 × Option UInt64) :=
  match fastVarint borrowed 0 0 with
  | some (val, rsize) => do
    consume T rsize
    pure (.ofNat rsize, some val)
  | none => fail

/-- `readVarint64`: from a borrowed block, or byte by byte. -/
def readVarint64 : Reader τ (UInt32 × Option UInt64) := do
  let e ← hasError
  if e then pure (0, none)
  else do
    let lent ← borrow T varintSize
    match lent with
    | some borrowed => takeVarint T borrowed
    | none => slowVarint T varintSize 0 0

/-- The same count, and what becomes of the value. -/
def readAs (f : α → γ) (p : Reader τ (UInt32 × Option α)) : Reader τ (UInt32 × Option γ) := do
  let r ← p
  pure (r.1, r.2.map f)

/-- `readVarint32` -/
def readVarint32 : Reader τ (UInt32 × Option UInt32) := readAs UInt64.toUInt32 (readVarint64 T)

/-- `readI16` -/
def readI16 : Reader τ (UInt32 × Option Int16) :=
  readAs (fun value => (zigzagToI32 value).toInt16) (readVarint32 T)

/-- `readI32` -/
def readI32 : Reader τ (UInt32 × Option Int32) := readAs zigzagToI32 (readVarint32 T)

/-- `readI64` -/
def readI64 : Reader τ (UInt32 × Option Int64) := readAs zigzagToI64 (readVarint64 T)

/-- The bits of the double. -/
def readDouble : Reader τ (UInt32 × Option UInt64) := do
  let b ← readAll T 8
  match b with
  | [] => pure (0, none)
  | _ :: _ => pure (8, some (.ofNat (leNat b)))

/-- `readBinary`; the `realloc` of its buffer is taken to succeed. -/
def readBinary : Reader τ (UInt32 × Option (List UInt8)) := do
  let r ← readVarint32 T
  match r.2 with
  | none => pure (0, none)
  | some size =>
    if size = 0 then pure (r.1, some [])
    else if size.toInt32 < 0 then fail
    else do
      let b ← readAll T size.toNat
      match b with
      | [] => pure (0, none)
      | _ :: _ => pure (r.1 + size, some b)

/-- A boolean field has left its value behind. -/
def readBool : Reader τ (UInt32 × Option Bool) := fun s =>
  match s.boolValue with
  | some b => some ((0, some b), { s with boolValue := none })
  | none => (readAs (fun val => decide (val = 0x01)) (readByte T)).run s

/-- `readStructBegin` -/
def readStructBegin : Reader τ Unit := fun s =>
  some ((), { s with track := ⟨s.track.lastFieldId :: s.track.lastField, 0⟩ })

/-- The stack is never empty here. -/
def readStructEnd : Reader τ Unit := fun s =>
  match s.track.lastField with
  | [] => none
  | last :: lastField => some ((), { s with track := ⟨lastField, last⟩ })

/-- The field id behind the first byte of a header. -/
def readFieldId (byte : UInt8) : Reader τ (UInt32 × Option Int16) := do
  let modifier := (byte &&& 0xf0) >>> 4
  if modifier = 0 then readI16 T
  else fun s => some ((0, some (s.track.lastFieldId + .ofNat modifier.toNat)), s)

/-- What `readFieldBegin` remembers of a header that is not a stop. -/
def enterField (type : UInt8) (fieldId : Int16) : Reader τ Unit := fun s =>
  some ((), { s with
    boolValue := if type = 0x01 ∨ type = 0x02 then some (type = 0x01) else s.boolValue
    track := { s.track with lastFieldId := fieldId } })

/-- After an error the type is `T_STOP` and the id 0. -/
def readFieldBegin : Reader τ (UInt32 × TType × Int16) := do
  let byte ← readByte T
  match byte.2 with
  | none => pure (0, .stop, 0)
  | some b =>
    let type := b &&& 0x0f
    if type = 0 then pure (byte.1, .stop, 0)
    else do
      let id ← readFieldId T b
      match id.2 with
      | none => pure (0, .stop, 0)
      | some fieldId =>
        match getTType type with
        | none => do
          setError
          pure (0, .stop, 0)
        | some fieldType => do
          enterField type fieldId
          pure (byte.1 + id.1, fieldType, fieldId)

/-- The byte with the types of a map; an empty map has none. -/
def readMapTypes (size : UInt32) : Reader τ (UInt32 × Option UInt8) :=
  if size = 0 then pure (0, some 0) else readByte T

/-- The two types and the size. -/
def readMapBegin : Reader τ (UInt32 × Option (TType × TType × UInt32)) := do
  let msize ← readVarint32 T
  match msize.2 with
  | none => pure (0, none)
  | some size => do
    let kv ← readMapTypes T size
    match kv.2 with
    | none => pure (0, none)
    | some kvType =>
      if size.toInt32 < 0 then fail
      else
        match getTType (kvType >>> 4), getTType (kvType &&& 0xf) with
        | some keyType, some valType => pure (msize.1 + kv.1, some (keyType, valType, size))
        | _, _ => fail

/-- The size of a list behind the first byte of its header. -/
def readListSize (byte : UInt8) : Reader τ (UInt32 × Option UInt32) := do
  let lsize := (byte >>> 4) &&& 0x0f
  if lsize = 15 then readVarint32 T else pure (0, some lsize.toUInt32)

/-- The type of the elements and the size; `readSetBegin` is the same. -/
def readListBegin : Reader τ (UInt32 × Option (TType × UInt32)) := do
  let size_and_type ← readByte T
  match size_and_type.2 with
  | none => pure (0, none)
  | some b => do
    let lsize ← readListSize T b
    match lsize.2 with
    | none => pure (0, none)
    | some size =>
      if size.toInt32 < 0 then fail
      else
        match getTType (b &&& 0x0f) with
        | none => fail
        | some elemType => pure (size_and_type.1 + lsize.1, some (elemType, size))

/-! ### Skipping -/

/-- The fields of a struct, up to the stop. -/
def skipFields (item : TType → Reader τ UInt32) : Nat → UInt32 → Reader τ UInt32
  | 0, _ => stop
  | fuel + 1, result => do
    let e ← hasError
    if e then pure result
    else do
      let field ← readFieldBegin T
      let e ← hasError
      if e then pure 0
      else if field.2.1 = .stop then pure (result + field.1)
      else do
        let n ← item field.2.1
        let e ← hasError
        if e then pure 0 else skipFields item fuel (result + field.1 + n)

/-- `for (i = 0; !prot.hasError() && i < size; i++)` -/
def skipItems (item : Reader τ UInt32) : Nat → UInt32 → Reader τ UInt32
  | 0, result => pure result
  | n + 1, result => do
    let e ← hasError
    if e then pure result
    else do
      let k ← item
      skipItems item n (result + k)

/-- The value of a map after its key. -/
def skipPair (key val : Reader τ UInt32) : Reader τ UInt32 := do
  let k ← key
  let e ← hasError
  if e then pure 0
  else do
    let v ← val
    pure (k + v)

/-- `if (prot.hasError()) return 0;` -/
def orZero (p : Reader τ UInt32) : Reader τ UInt32 := do
  let n ← p
  let e ← hasError
  pure (if e then 0 else n)

/-- The count alone. -/
def count (p : Reader τ (UInt32 × Option α)) : Reader τ UInt32 := do
  let r ← p
  pure r.1

/-- `skip`: of a list, a set or a map without a header nothing more is read. -/
def skip : Nat → TType → Reader τ UInt32
  | 0, _ => stop
  | fuel + 1, type =>
    match type with
    | .bool => count (readBool T)
    | .byte => count (readByte T)
    | .i16 => count (readI16 T)
    | .i32 => count (readI32 T)
    | .i64 => count (readI64 T)
    | .double => count (readDouble T)
    | .string => count (readBinary T)
    | .struct => do
      readStructBegin
      let n ← skipFields T (skip fuel) (fuel + 1) 0
      let e ← hasError
      if e then pure 0
      else do
        readStructEnd
        pure n
    | .map => do
      let r ← readMapBegin T
      match r.2 with
      | none => pure 0
      | some (keyType, valType, size) =>
        orZero (skipItems (skipPair (skip fuel keyType) (skip fuel valType)) size.toNat r.1)
    | .set | .list => do
      let r ← readListBegin T
      match r.2 with
      | none => pure 0
      | some (elemType, size) => orZero (skipItems (skip fuel elemType) size.toNat r.1)
    | .stop => pure 0

end Reading

/-! ## Writing -/

/-- The members of a protocol that writes. -/
structure Out (τ : Type) where
  trans : τ
  track : Track
  /-- `booleanField_`, where it has a name -/
  booleanField : Option (String × Int16)
  recursionDepth : Nat
  error : Bool

/-- A protocol that is about to write. -/
def Out.new (trans : τ) : Out τ := ⟨trans, ⟨[], 0⟩, none, 0, false⟩

/-- A program that writes; `none` where the process ends. -/
abbrev Writer (τ α : Type) := StateT (Out τ) Option α

section Writing

variable (T : Transport τ)

/-- `trans_->write(buf, len)` -/
def emit (bs : List UInt8) : Writer τ UInt32 := fun s =>
  (T.write bs s.trans).map fun trans => (.ofNat bs.length, { s with trans := trans })

/-- `writeByte` -/
def writeByte (byte : UInt8) : Writer τ UInt32 := emit T [byte]

/-- A write behind `buf` stops the process. -/
def writeVarint (room : Nat) (n : UInt64) : Writer τ UInt32 :=
  match varintBytes room n with
  | none => fun _ => none
  | some bs => emit T bs

/-- `writeVarint32`: at most five bytes. -/
def writeVarint32 (n : UInt32) : Writer τ UInt32 := writeVarint T 5 n.toUInt64

/-- `writeVarint64`: at most ten bytes. -/
def writeVarint64 (n : UInt64) : Writer τ UInt32 := writeVarint T 10 n

/-- `writeI16` -/
def writeI16 (i16 : Int16) : Writer τ UInt32 := writeVarint32 T (i32ToZigzag i16.toInt32)

/-- `writeI32` -/
def writeI32 (i32 : Int32) : Writer τ UInt32 := writeVarint32 T (i32ToZigzag i32)

/-- `writeI64` -/
def writeI64 (i64 : Int64) : Writer τ UInt32 := writeVarint64 T (i64ToZigzag i64)

/-- `setError`, and nothing is written. -/
def Writer.fail : Writer τ UInt32 := fun s => some (0, { s with error := true })

/-- `writeBinary` -/
def writeBinary (str : List UInt8) : Writer τ UInt32 :=
  if 2 ^ 32 ≤ str.length then Writer.fail
  else do
    let wsize ← writeVarint32 T (.ofNat str.length)
    if 2 ^ 32 - 1 - wsize.toNat < str.length then Writer.fail
    else do
      let n ← emit T str
      pure (wsize + n)

/-- `writeStructBegin` -/
def writeStructBegin : Writer τ Unit := fun s =>
  some ((), { s with track := ⟨s.track.lastFieldId :: s.track.lastField, 0⟩ })

/-- `writeStructEnd` -/
def writeStructEnd : Writer τ Unit := fun s =>
  match s.track.lastField with
  | [] => none
  | last :: lastField => some ((), { s with track := ⟨lastField, last⟩ })

/-- `writeFieldStop` -/
def writeFieldStop : Writer τ UInt32 := writeByte T 0

/-- `lastFieldId_` -/
def lastFieldId : Writer τ Int16 := fun s => some (s.track.lastFieldId, s)

/-- `lastFieldId_ = fieldId` -/
def setLastFieldId (fieldId : Int16) : Writer τ Unit := fun s =>
  some ((), { s with track := { s.track with lastFieldId := fieldId } })

/-- A short distance from the last id goes into the byte of the type. -/
def writeDelta (typeToWrite : UInt8) (last fieldId : Int16) : Writer τ UInt32 :=
  let delta := fieldId.toInt - last.toInt
  if 0 < delta ∧ delta ≤ 15 then
    writeByte T ((UInt8.ofNat delta.toNat <<< 4) ||| typeToWrite)
  else do
    let n ← writeByte T typeToWrite
    let k ← writeI16 T fieldId
    pure (n + k)

/-- `typeToWrite` is the type of the field, or the override. -/
def writeFieldBeginInternal (typeToWrite : UInt8) (fieldId : Int16) : Writer τ UInt32 := do
  let last ← lastFieldId
  let n ← writeDelta T typeToWrite last fieldId
  setLastFieldId fieldId
  pure n

/-- `booleanField_` -/
def booleanField : Writer τ (Option (String × Int16)) := fun s => some (s.booleanField, s)

/-- `booleanField_` is set or cleared. -/
def setBooleanField (field : Option (String × Int16)) : Writer τ Unit := fun s =>
  some ((), { s with booleanField := field })

/-- `writeFieldBegin`: the header of a truth value waits for the value. -/
def writeFieldBegin (name : String) (fieldType : TType) (fieldId : Int16) : Writer τ UInt32 :=
  if fieldType = .bool then do
    setBooleanField (some (name, fieldId))
    pure 0
  else writeFieldBeginInternal T fieldType.compact fieldId

/-- `writeBool` -/
def writeBool (value : Bool) : Writer τ UInt32 := do
  let field ← booleanField
  match field with
  | some (_, fieldId) => do
    let n ← writeFieldBeginInternal T (compactBool value) fieldId
    setBooleanField none
    pure n
  | none => writeByte T (compactBool value)

/-- `size` becomes an `int32_t`. -/
def writeCollectionBegin (elemType : TType) (size : UInt32) : Writer τ UInt32 :=
  if size.toInt32 ≤ 14 then writeByte T ((size.toUInt8 <<< 4) ||| elemType.compact)
  else do
    let n ← writeByte T (0xf0 ||| elemType.compact)
    let k ← writeVarint32 T size
    pure (n + k)

/-- `DEFAULT_RECURSION_LIMIT` -/
def recursionLimit : Nat := 64

/-- The assertion of `incrementRecursionDepth`. -/
def incrementRecursionDepth : Writer τ Unit := fun s =>
  if recursionLimit < s.recursionDepth + 1 then none
  else some ((), { s with recursionDepth := s.recursionDepth + 1 })

/-- `decrementRecursionDepth` -/
def decrementRecursionDepth : Writer τ Unit := fun s =>
  some ((), { s with recursionDepth := s.recursionDepth - 1 })

end Writing

end Thrift

end Turnserver
