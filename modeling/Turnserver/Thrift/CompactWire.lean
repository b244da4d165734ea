/-
  WHAT IS ON THE WIRE — values of the protocol, their bytes, and how these bytes are read.

  * `TValue` is any value that the protocol can carry, known to the reader or not; `wire` are its
    bytes.  A struct is its fields and a stop, each field with the distance from the id before it;
    a boolean field is its header alone.
  * `Reads p w s a s'`: in front of whatever else, the bytes `w` are read, and nothing behind them.
  * `skip_wire`: `skip` passes over exactly one value, and returns the number of its bytes.
-/
import Turnserver.Thrift.CompactErrors

namespace Turnserver

open Bytes

namespace Thrift

open Simulation Varint Reader

variable {α β : Type}

/-! ## Values -/

mutual

/-- A value as the compact protocol writes it. -/
inductive TValue
  | bool (b : Bool)
  | byte (n : UInt8)
  | i16 (n : Int16)
  | i32 (n : Int32)
  | i64 (n : Int64)
  /-- the bits -/
  | double (n : UInt64)
  | string (bs : List UInt8)
  | struct (fields : TFields)
  | list (elem : TType) (items : TValues)
  | set (elem : TType) (items : TValues)
  | map (key val : TType) (items : TPairs)

/-- The fields of a struct, in the order written, up to the stop. -/
inductive TFields
  | stop
  | field (id : Int16) (value : TValue) (rest : TFields)

/-- The items of a list or set. -/
inductive TValues
  | nil
  | cons (value : TValue) (rest : TValues)

/-- The pairs of a map. -/
inductive TPairs
  | nil
  | cons (key value : TValue) (rest : TPairs)

end

/-- The type of a value. -/
def TValue.ttype : TValue → TType
  | bool _ => .bool
  | byte _ => .byte
  | i16 _ => .i16
  | i32 _ => .i32
  | i64 _ => .i64
  | double _ => .double
  | string _ => .string
  | struct _ => .struct
  | list _ _ => .list
  | set _ _ => .set
  | map _ _ _ => .map

/-- The type in the header of a field: a boolean is in it as a whole. -/
def TValue.headerType : TValue → UInt8
  | bool b => compactBool b
  | v => v.ttype.compact

/-- The number of items. -/
def TValues.length : TValues → Nat
  | nil => 0
  | cons _ rest => rest.length + 1

/-- The number of pairs. -/
def TPairs.length : TPairs → Nat
  | nil => 0
  | cons _ _ rest => rest.length + 1

/-! ## Bytes -/

/-- A varint of 32 bits. -/
def varintWire (n : UInt32) : List UInt8 := encode n.toNat

/-- An `i16`: its zigzag as a varint. -/
def i16Wire (n : Int16) : List UInt8 := varintWire (i32ToZigzag n.toInt32)

/-- The header of a field, behind the field with the id `last`. -/
def headerWire (last id : Int16) (type : UInt8) : List UInt8 :=
  if 0 < id.toInt - last.toInt ∧ id.toInt - last.toInt ≤ 15 then
    [(UInt8.ofNat (id.toInt - last.toInt).toNat <<< 4) ||| type]
  else type :: i16Wire id

/-- The header of a list or set: sizes up to 14 stand in the byte of the type. -/
def listWire (elem : TType) (n : Nat) : List UInt8 :=
  if n ≤ 14 then [(UInt8.ofNat n <<< 4) ||| elem.compact]
  else (0xf0 ||| elem.compact) :: encode n

/-- The header of a map: a zero, or the size and the two types. -/
def mapWire (key val : TType) (n : Nat) : List UInt8 :=
  if n = 0 then [0] else encode n ++ [(key.compact <<< 4) ||| val.compact]

/-- A field behind the one with the id `last`: `body` is the value on its own. -/
def fieldWire (last id : Int16) (v : TValue) (body : List UInt8) : List UInt8 :=
  headerWire last id v.headerType ++ if v.ttype = .bool then [] else body

mutual

/-- A value on its own. -/
def TValue.wire : TValue → List UInt8
  | .bool b => [compactBool b]
  | .byte n => [n]
  | .i16 n => i16Wire n
  | .i32 n => varintWire (i32ToZigzag n)
  | .i64 n => encode (i64ToZigzag n).toNat
  | .double n => leBytes 8 n.toNat
  | .string bs => encode bs.length ++ bs
  | .struct fields => fields.wire 0
  | .list elem items => listWire elem items.length ++ items.wire
  | .set elem items => listWire elem items.length ++ items.wire
  | .map key val items => mapWire key val items.length ++ items.wire

/-- The fields behind the one with that id. -/
def TFields.wire : TFields → Int16 → List UInt8
  | .stop, _ => [0]
  | .field id v rest, last => fieldWire last id v v.wire ++ rest.wire id

/-- The bytes of the items. -/
def TValues.wire : TValues → List UInt8
  | .nil => []
  | .cons v rest => v.wire ++ rest.wire

/-- The bytes of the pairs. -/
def TPairs.wire : TPairs → List UInt8
  | .nil => []
  | .cons k v rest => k.wire ++ v.wire ++ rest.wire

end

/-! ## What can be read back

  Sizes are `int32_t` when they are read, and every element has the type in the header. -/

mutual

/-- A value that the protocol can write: sizes below `2^31`, and items of one type. -/
def TValue.Proper : TValue → Prop
  | .string bs => bs.length < 2 ^ 31
  | .struct fields => fields.Proper
  | .list elem items => items.length < 2 ^ 31 ∧ items.Proper elem
  | .set elem items => items.length < 2 ^ 31 ∧ items.Proper elem
  | .map key val items => items.length < 2 ^ 31 ∧ items.Proper key val
  | _ => True

/-- Every field has a proper value. -/
def TFields.Proper : TFields → Prop
  | .stop => True
  | .field _ v rest => v.Proper ∧ rest.Proper

/-- Every item is proper and has the type. -/
def TValues.Proper (elem : TType) : TValues → Prop
  | .nil => True
  | .cons v rest => v.ttype = elem ∧ v.Proper ∧ rest.Proper elem

/-- Both halves of every pair are proper and have their types. -/
def TPairs.Proper (key val : TType) : TPairs → Prop
  | .nil => True
  | .cons k v rest => k.ttype = key ∧ v.ttype = val ∧ k.Proper ∧ v.Proper ∧ rest.Proper key val

end

/-! ## Reading exactly so many bytes -/

/-- What a protocol that reads without an error has, beside the bytes. -/
structure Held where
  track : Track
  boolValue : Option Bool

/-- The input with these bytes ahead. -/
def Held.input (s : Held) (bs : List UInt8) : Input := ⟨bs, s.track, s.boolValue, false⟩

/-- `p` reads the bytes `w`, whatever stands behind them. -/
def Reads (p : Reader (List UInt8) α) (w : List UInt8) (s : Held) (a : α) (s' : Held) : Prop :=
  ∀ rest, p.run (s.input (w ++ rest)) = some (a, s'.input rest)

namespace Reads

variable {s s' s'' : Held} {a : α} {b : β}

theorem pure (a : α) (s : Held) : Reads (Pure.pure a) [] s a s := fun _ => rfl

/-- One program after the other reads the bytes of both. -/
theorem bind {p : Reader (List UInt8) α} {f : α → Reader (List UInt8) β} {w w' : List UInt8}
    (h : Reads p w s a s') (hf : Reads (f a) w' s' b s'') :
    Reads (p >>= f) (w ++ w') s b s'' := by
  intro rest
  rw [run_bind, List.append_assoc, h (w' ++ rest), Option.bind_some]
  exact hf rest

theorem bind_nil {p : Reader (List UInt8) α} {f : α → Reader (List UInt8) β} {w : List UInt8}
    (h : Reads p [] s a s') (hf : Reads (f a) w s' b s'') : Reads (p >>= f) w s b s'' :=
  h.bind hf

theorem bind_pure {p : Reader (List UInt8) α} {f : α → Reader (List UInt8) β} {w : List UInt8}
    (h : Reads p w s a s') (hf : Reads (f a) [] s' b s'') : Reads (p >>= f) w s b s'' := by
  have hbind := h.bind hf
  rwa [List.append_nil] at hbind

end Reads

section Primitives

variable (s : Held)

/-- No error was raised. -/
theorem reads_hasError : Reads hasError [] s false s := fun _ => rfl

/-- Bytes are read as they are. -/
theorem reads_readAll {w : List UInt8} (h : w ≠ []) : Reads (readAll plain w.length) w s w s := by
  intro rest
  have hle : w.length ≤ (w ++ rest).length := by
    rw [List.length_append]
    omega
  cases w with
  | nil => exact absurd rfl h
  | cons b w =>
    simp only [readAll, Held.input, StateT.run, plain_readAll_of_le hle, List.take_left,
      List.drop_left]
    rfl

theorem reads_readByte (b : UInt8) : Reads (readByte plain) [b] s (1, some b) s :=
  (reads_readAll s (w := [b]) (by simp)).bind_pure (.pure _ _)

theorem reads_readVarint64 {n : Nat} (h : n < 2 ^ 64) :
    Reads (readVarint64 plain) (encode n) s (.ofNat (encode n).length, some (.ofNat n)) s := by
  intro rest
  have hlen : (encode n).length ≤ varintSize := encode_length_le (by decide) (Nat.lt_trans h (by decide))
  have hrun := readVarint64_plain (k := s.track) (b := s.boolValue)
    (cut_append (group_encode n) hlen rest)
  rwa [value_encode] at hrun

/-- Reading as another type reads the same bytes. -/
theorem reads_readAs {p : Reader (List UInt8) (UInt32 × Option α)} {w : List UInt8} {n : UInt32}
    {a : α} {s' : Held} (h : Reads p w s (n, some a) s') (f : α → β) :
    Reads (readAs f p) w s (n, some (f a)) s' :=
  h.bind_pure (.pure _ _)

theorem reads_readVarint32 (n : UInt32) :
    Reads (readVarint32 plain) (varintWire n) s (.ofNat (varintWire n).length, some n) s := by
  have hlt : n.toNat < 2 ^ 64 := Nat.lt_trans n.toNat_lt (by decide)
  have hread := reads_readAs s (reads_readVarint64 s hlt) UInt64.toUInt32
  rwa [UInt64.toUInt32_ofNat', UInt32.ofNat_toNat] at hread

theorem reads_readI16 (n : Int16) :
    Reads (readI16 plain) (i16Wire n) s (.ofNat (i16Wire n).length, some n) s := by
  have hread := reads_readAs s (reads_readVarint32 s (i32ToZigzag n.toInt32))
    fun value => (zigzagToI32 value).toInt16
  rwa [zigzagToI32_i32ToZigzag, Int16.toInt16_toInt32] at hread

theorem reads_readI32 (n : Int32) :
    Reads (readI32 plain) (varintWire (i32ToZigzag n)) s
      (.ofNat (varintWire (i32ToZigzag n)).length, some n) s := by
  have hread := reads_readAs s (reads_readVarint32 s (i32ToZigzag n)) zigzagToI32
  rwa [zigzagToI32_i32ToZigzag] at hread

theorem reads_readI64 (n : Int64) :
    Reads (readI64 plain) (encode (i64ToZigzag n).toNat) s
      (.ofNat (encode (i64ToZigzag n).toNat).length, some n) s := by
  have hread := reads_readAs s (reads_readVarint64 s (i64ToZigzag n).toNat_lt) zigzagToI64
  rwa [UInt64.ofNat_toNat, zigzagToI64_i64ToZigzag] at hread

theorem reads_readDouble (n : UInt64) :
    Reads (readDouble plain) (leBytes 8 n.toNat) s (8, some n) s := by
  have hne : leBytes 8 n.toNat ≠ [] := by
    intro h
    have hlen := congrArg List.length h
    rw [leBytes_length] at hlen
    cases hlen
  have hread := reads_readAll s hne
  rw [leBytes_length] at hread
  refine hread.bind_pure ?_
  have hvalue : UInt64.ofNat (leNat (leBytes 8 n.toNat)) = n := by
    rw [leNat_leBytes_of_lt n.toNat_lt, UInt64.ofNat_toNat]
  cases h : leBytes 8 n.toNat with
  | nil => exact absurd h hne
  | cons b bs =>
    dsimp only
    rw [← h, hvalue]
    exact .pure _ _

/-- A size that is an `int32_t`. -/
theorem size_toInt {n : Nat} (h : n < 2 ^ 31) : (UInt32.ofNat n).toInt32.toInt = n := by
  rw [UInt32.toInt32_ofNat', Int32.toInt_ofNat_of_lt h]

/-- A size below `2^31` is not negative. -/
theorem size_nonneg {n : Nat} (h : n < 2 ^ 31) : ¬ (UInt32.ofNat n).toInt32 < 0 := by
  rw [Int32.lt_iff_toInt_lt, size_toInt h, Int32.toInt_zero]
  omega

theorem size_toNat {n : Nat} (h : n < 2 ^ 31) : (UInt32.ofNat n).toNat = n := by
  rw [UInt32.toNat_ofNat']
  exact Nat.mod_eq_of_lt (by omega)

theorem reads_size {n : Nat} (h : n < 2 ^ 31) :
    Reads (readVarint32 plain) (encode n) s (.ofNat (encode n).length, some (.ofNat n)) s := by
  have hread := reads_readVarint32 s (.ofNat n)
  rwa [varintWire, size_toNat h] at hread

/-- A string is read: its size and its bytes. -/
theorem reads_readBinary {bs : List UInt8} (h : bs.length < 2 ^ 31) :
    Reads (readBinary plain) (encode bs.length ++ bs) s
      (.ofNat (encode bs.length ++ bs).length, some bs) s := by
  refine (reads_size s h).bind ?_
  dsimp only
  -- an empty string is its length alone
  cases bs with
  | nil =>
    rw [if_pos (show UInt32.ofNat ([] : List UInt8).length = 0 from rfl), List.append_nil]
    exact .pure _ _
  | cons b bs =>
    have hne : UInt32.ofNat (b :: bs).length ≠ 0 := by
      intro heq
      have hlen := congrArg UInt32.toNat heq
      rw [size_toNat h] at hlen
      cases hlen
    rw [if_neg hne, if_neg (size_nonneg h), size_toNat h]
    refine (reads_readAll s (by simp)).bind_pure ?_
    dsimp only
    rw [← UInt32.ofNat_add, ← List.length_append]
    exact .pure _ _

/-- A truth value comes back from its type byte. -/
theorem compactBool_eq (b : Bool) : decide (compactBool b = 0x01) = b := by
  cases b <;> rfl

/-- On its own, -/
theorem reads_readBool (b : Bool) (h : s.boolValue = none) :
    Reads (readBool plain) [compactBool b] s (1, some b) s := by
  have hread := reads_readAs s (reads_readByte s (compactBool b)) fun val => decide (val = 0x01)
  rw [compactBool_eq] at hread
  intro rest
  have hrun : (readBool plain).run (s.input ([compactBool b] ++ rest)) =
      (readAs (fun val => decide (val = 0x01)) (readByte plain)).run
        (s.input ([compactBool b] ++ rest)) := by
    simp [readBool, Held.input, StateT.run, h]
  rw [hrun]
  exact hread rest

/-- and behind its header. -/
theorem reads_readBool_field (b : Bool) (h : s.boolValue = some b) :
    Reads (readBool plain) [] s (0, some b) { s with boolValue := none } := by
  intro rest
  simp [readBool, Held.input, StateT.run, h]

end Primitives

/-! ## Headers -/

/-- A type comes back from its compact one. -/
theorem getTType_compact (type : TType) : getTType type.compact = some type := by
  cases type <;> rfl

/-- The type of a value comes back from its header. -/
theorem getTType_headerType (v : TValue) : getTType v.headerType = some v.ttype := by
  cases v with
  | bool b => cases b <;> rfl
  | _ => rfl

/-- A compact type takes four bits. -/
theorem compact_lt (type : TType) : type.compact.toNat < 16 := by
  cases type <;> decide

/-- The type in a header takes four bits. -/
theorem headerType_lt (v : TValue) : v.headerType.toNat < 16 := by
  cases v with
  | bool b => cases b <;> decide
  | _ => exact compact_lt _

/-- A value is no stop. -/
theorem ttype_ne_stop (v : TValue) : v.ttype ≠ .stop := by
  cases v <;> simp [TValue.ttype]

/-- The type in a header is not that of the stop. -/
theorem headerType_ne_stop (v : TValue) : v.headerType ≠ 0 := by
  intro h
  have htype := getTType_headerType v
  rw [h] at htype
  exact ttype_ne_stop v (Option.some.inj htype).symm

/-- Two types, or a number and a type, in one byte. -/
theorem packed_bits : ∀ d < 16, ∀ t < 16,
    ((UInt8.ofNat d <<< 4) ||| UInt8.ofNat t) &&& 0x0f = UInt8.ofNat t ∧
    (((UInt8.ofNat d <<< 4) ||| UInt8.ofNat t) &&& 0xf0) >>> 4 = UInt8.ofNat d ∧
    ((UInt8.ofNat d <<< 4) ||| UInt8.ofNat t) >>> 4 = UInt8.ofNat d := by
  decide +kernel

section Packed

variable {type : UInt8} {d : Nat}

/-- The low half of a header byte is the type. -/
theorem packed_low (hd : d < 16) (ht : type.toNat < 16) :
    ((UInt8.ofNat d <<< 4) ||| type) &&& 0x0f = type := by
  have h := (packed_bits d hd type.toNat ht).1
  rwa [UInt8.ofNat_toNat] at h

/-- The high half of a header byte is the step of the id. -/
theorem packed_modifier (hd : d < 16) (ht : type.toNat < 16) :
    (((UInt8.ofNat d <<< 4) ||| type) &&& 0xf0) >>> 4 = UInt8.ofNat d := by
  have h := (packed_bits d hd type.toNat ht).2.1
  rwa [UInt8.ofNat_toNat] at h

/-- The high half of a header byte, shifted down. -/
theorem packed_high (hd : d < 16) (ht : type.toNat < 16) :
    ((UInt8.ofNat d <<< 4) ||| type) >>> 4 = UInt8.ofNat d := by
  have h := (packed_bits d hd type.toNat ht).2.2
  rwa [UInt8.ofNat_toNat] at h

/-- A positive step is not zero. -/
theorem ofNat_ne_zero (hpos : 0 < d) (hd : d < 16) : UInt8.ofNat d ≠ 0 := by
  intro h
  have hnat := congrArg UInt8.toNat h
  rw [toNat_ofNat_of_lt (by omega)] at hnat
  exact absurd hnat (Nat.ne_of_gt hpos)

end Packed

/-- The id in front, and the distance. -/
theorem add_distance {last id : Int16} (h : 0 < id.toInt - last.toInt)
    (h' : id.toInt - last.toInt ≤ 15) :
    last + Int16.ofNat (id.toInt - last.toInt).toNat = id := by
  have hle := id.le_toInt
  have hlt := id.toInt_lt
  apply Int16.toInt_inj.mp
  rw [Int16.toInt_add, Int16.toInt_ofNat_of_lt (by omega), Int.bmod_eq_of_le (by omega) (by omega)]
  omega

/-- What the header of a field leaves behind. -/
def Held.enter (s : Held) (id : Int16) (v : TValue) : Held where
  track := { s.track with lastFieldId := id }
  boolValue :=
    match v with
    | .bool b => some b
    | _ => s.boolValue

/-- Entering a field reads nothing; a truth value of the header waits to be read. -/
theorem reads_enterField (s : Held) (id : Int16) (v : TValue) :
    Reads (enterField v.headerType id) [] s () (s.enter id v) := by
  intro rest
  cases v with
  | bool b => cases b <;> rfl
  | _ => rfl

section Fields

variable (s : Held)

/-- The id of a field is that of the field before it and the step. -/
theorem reads_readFieldId (byte : UInt8) {id : Int16}
    (h : (byte &&& 0xf0) >>> 4 ≠ 0)
    (hid : s.track.lastFieldId + Int16.ofNat ((byte &&& 0xf0) >>> 4).toNat = id) :
    Reads (readFieldId plain byte) [] s (0, some id) s := by
  intro rest
  rw [readFieldId, if_neg h, ← hid]
  rfl

/-- A header, read back. -/
theorem reads_readFieldBegin (id : Int16) (v : TValue) :
    Reads (readFieldBegin plain) (headerWire s.track.lastFieldId id v.headerType) s
      (.ofNat (headerWire s.track.lastFieldId id v.headerType).length, v.ttype, id)
      (s.enter id v) := by
  have htype := headerType_lt v
  have hstop := headerType_ne_stop v
  rw [headerWire]
  -- a short header holds the distance to the last field id, a long one the id itself
  split
  · rename_i hdelta
    have hlt : (id.toInt - s.track.lastFieldId.toInt).toNat < 16 := by omega
    refine (reads_readByte s _).bind_pure ?_
    dsimp only
    rw [packed_low hlt htype, if_neg hstop]
    refine (reads_readFieldId s _ ?_ (?_ : _ = id)).bind_nil ?_
    · rw [packed_modifier hlt htype]
      exact ofNat_ne_zero (by omega) hlt
    · rw [packed_modifier hlt htype, toNat_ofNat_of_lt (by omega)]
      exact add_distance hdelta.1 hdelta.2
    · rw [getTType_headerType]
      exact (reads_enterField s id v).bind_nil (.pure _ _)
  · have hlow := packed_low (d := 0) (by decide) htype
    have hmodifier := packed_modifier (d := 0) (by decide) htype
    have hzero : ((UInt8.ofNat 0 <<< 4) ||| v.headerType) = v.headerType := by
      show (0 : UInt8) ||| v.headerType = v.headerType
      exact UInt8.zero_or
    rw [hzero] at hlow hmodifier
    change _ = (0 : UInt8) at hmodifier
    refine (reads_readByte s v.headerType).bind ?_
    dsimp only
    rw [hlow, if_neg hstop, readFieldId, if_pos hmodifier]
    refine (reads_readI16 s id).bind_pure ?_
    rw [List.length_cons, Nat.add_comm, UInt32.ofNat_add, getTType_headerType]
    exact (reads_enterField s id v).bind_nil (.pure _ _)

theorem reads_readFieldBegin_stop :
    Reads (readFieldBegin plain) [0] s (1, .stop, 0) s :=
  (reads_readByte s 0).bind_pure (.pure _ _)

theorem reads_readListBegin (elem : TType) {n : Nat} (h : n < 2 ^ 31) :
    Reads (readListBegin plain) (listWire elem n) s
      (.ofNat (listWire elem n).length, some (elem, .ofNat n)) s := by
  have htype := compact_lt elem
  rw [listWire]
  -- up to fourteen elements the count is in the byte of the type
  split
  · rename_i hle
    refine (reads_readByte s _).bind_pure ?_
    dsimp only
    have hhigh : ((UInt8.ofNat n <<< 4) ||| elem.compact) >>> 4 &&& 0x0f = UInt8.ofNat n := by
      rw [packed_high (by omega) htype]
      have h0 : ((UInt8.ofNat 0 <<< 4) ||| UInt8.ofNat n) &&& 0x0f = UInt8.ofNat n :=
        packed_low (by decide) (by rw [toNat_ofNat_of_lt (by omega)]; omega)
      rwa [show (UInt8.ofNat 0 <<< 4) = (0 : UInt8) from rfl, UInt8.zero_or] at h0
    have hsize : Reads (readListSize plain ((UInt8.ofNat n <<< 4) ||| elem.compact)) [] s
        (0, some (.ofNat n)) s := by
      have hne : UInt8.ofNat n ≠ 15 := by
        intro heq
        have hnat := congrArg UInt8.toNat heq
        rw [toNat_ofNat_of_lt (by omega)] at hnat
        exact absurd hnat (by show n ≠ 15; omega)
      have hword : (UInt8.ofNat n).toUInt32 = UInt32.ofNat n := by
        apply UInt32.toNat_inj.mp
        rw [UInt8.toNat_toUInt32, toNat_ofNat_of_lt (by omega), size_toNat h]
      rw [readListSize, hhigh, if_neg hne, hword]
      exact .pure _ _
    refine hsize.bind_nil ?_
    dsimp only
    rw [if_neg (size_nonneg h), packed_low (by omega) htype, getTType_compact]
    exact .pure _ _
  · have hfull : (0xf0 : UInt8) = UInt8.ofNat 15 <<< 4 := by decide
    rw [hfull]
    have hhigh : ((UInt8.ofNat 15 <<< 4) ||| elem.compact) >>> 4 &&& 0x0f = 15 := by
      rw [packed_high (by decide) htype]
      decide
    refine (reads_readByte s _).bind ?_
    dsimp only
    rw [readListSize, hhigh, if_pos rfl]
    refine (reads_size s h).bind_pure ?_
    dsimp only
    rw [if_neg (size_nonneg h), packed_low (by decide) htype, getTType_compact,
      show (1 : UInt32) = .ofNat 1 from rfl, ← UInt32.ofNat_add, Nat.add_comm]
    exact .pure _ _

/-- Of an empty map the types are not known. -/
theorem reads_readMapBegin (key val : TType) {n : Nat} (h : n < 2 ^ 31) :
    Reads (readMapBegin plain) (mapWire key val n) s
      (.ofNat (mapWire key val n).length,
        some (if n = 0 then (.stop, .stop, 0) else (key, val, .ofNat n))) s := by
  rw [mapWire]
  -- an empty map has no byte for its types
  rcases Nat.eq_zero_or_pos n with rfl | hpos
  · have hzero : encode 0 = [0] := encode_of_lt (by decide)
    have hsize := reads_size s (n := 0) (by decide)
    rw [hzero] at hsize
    rw [if_pos rfl, if_pos rfl]
    exact hsize.bind_pure (.pure _ _)
  · have hne : UInt32.ofNat n ≠ 0 := by
      intro heq
      have hnat := congrArg UInt32.toNat heq
      rw [size_toNat h] at hnat
      exact absurd hnat (Nat.ne_of_gt hpos)
    have htypes : Reads (readMapTypes plain (.ofNat n)) [(key.compact <<< 4) ||| val.compact] s
        (1, some ((key.compact <<< 4) ||| val.compact)) s := by
      rw [readMapTypes, if_neg hne]
      exact reads_readByte s _
    have hkey := packed_high (compact_lt key) (compact_lt val)
    have hval := packed_low (compact_lt key) (compact_lt val)
    rw [UInt8.ofNat_toNat] at hkey hval
    rw [if_neg (Nat.ne_of_gt hpos), if_neg (Nat.ne_of_gt hpos)]
    refine (reads_size s h).bind ?_
    refine htypes.bind_pure ?_
    dsimp only
    rw [if_neg (size_nonneg h), hkey, hval, getTType_compact, getTType_compact, List.length_append,
      UInt32.ofNat_add]
    exact .pure _ _

end Fields

end Thrift

end Turnserver
