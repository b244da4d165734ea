/-
  THE PACKER (`base/packer.h`) — building a frame in a growing block of memory.

  A `Packer` owns one `MemBuf`.  Four bytes at the front are reserved for the length header; pushes
  append at `position` and grow the block when it is too small; `pack` writes the header right
  before the body, right-aligned against offset 4, and points `position` at its first byte.

  * The code's own arithmetic is 32-bit (`u32`): sizes handed to `checkSize` are `uint32_t`, and so
    is the sum `position + more`.  The size limit is only reported on stderr, never enforced there.
  * A push that would write outside the block is `Fault.outOfBounds`.

  `Holds p bs` is the abstract view: the packer is open and its body is exactly `bs`.  Every push
  that succeeds appends (`pushWord_holds`, `pushVariableUint32_holds`, `pushData_holds`), and
  `pack_data` reads a packed body back as one byte string, the frame `encVar length ++ bs`.
-/
import Turnserver.Memory.MemBuf

namespace Turnserver

open Bytes

/-! ## The code -/

/-- `PacketLimit::kMaxPacketSize`. -/
def kMaxPacketSize : Nat := 8 * 1024 * 1024 - 1024

/-- The packer: its block, the length of the packed frame, the write position. -/
structure Packer where
  mem : MemBuf
  length : Nat
  position : Nat

namespace Packer

/-- `Packer::Packer(buffer_sz)`. -/
def new (buffer_sz : UInt32) : Packer := ⟨MemBuf.create (max 64 buffer_sz.toNat), 0, 4⟩

/-- `Packer::CheckSize(more, position)`: grow the block to the new size, at least doubling it.  That
    the new size reached `kMaxPacketSize` is only written to stderr. -/
def checkSize (p : Packer) (more position : Nat) : Checked Packer := do
  let new_size := u32 (position + more)
  let old_cap := p.mem.capacity
  if old_cap < new_size then
    let size := max new_size (u32 (2 * old_cap))
    let mem ← MemBuf.createSized p.mem.cells old_cap size
    pure { p with mem := mem }
  else pure p

/-- The fixed-width pushes are one copy of `width` bytes at `End()`. -/
def pushWord (p : Packer) (width val : Nat) : Checked Packer := do
  let p ← p.checkSize width p.position
  let mem ← p.mem.store p.position (leBytes width val)
  pure { p with mem := mem, position := u32 (p.position + width) }

/-- `PushUint8` -/
def pushUint8 (p : Packer) (val : UInt8) : Checked Packer := p.pushWord 1 val.toNat

/-- `PushUint16` -/
def pushUint16 (p : Packer) (val : UInt16) : Checked Packer := p.pushWord 2 val.toNat

/-- `PushUint32` -/
def pushUint32 (p : Packer) (val : UInt32) : Checked Packer := p.pushWord 4 val.toNat

/-- `PushUint64` -/
def pushUint64 (p : Packer) (val : UInt64) : Checked Packer := p.pushWord 8 val.toNat

/-- A `double` is copied as its 64 bits. -/
def pushDouble (p : Packer) (val : UInt64) : Checked Packer := p.pushWord 8 val.toNat

/-- `PushBoolean` converts to a char and pushes that. -/
def pushBoolean (p : Packer) (val : Bool) : Checked Packer := p.pushUint8 val.toUInt8

/-- `PushVariableUint32`: two bytes below `0x8000`; otherwise fifteen low bits with a flag in a
    16-bit word, the rest narrowed to one byte.  Returns the number of bytes written. -/
def pushVariableUint32 (p : Packer) (value : Nat) : Checked (Packer × Nat) := do
  let p ← p.checkSize 3 p.position
  if value < 0x8000 then
    let mem ← p.mem.store p.position (leBytes 2 value)
    pure ({ p with mem := mem, position := u32 (p.position + 2) }, 2)
  else
    let lower := u16 ((value &&& 0x7FFF) ||| 0x8000)
    let mem ← p.mem.store p.position (leBytes 2 lower)
    let upper := u8 (value >>> 15)
    let mem ← mem.store (p.position + 2) (leBytes 1 upper)
    pure ({ p with mem := mem, position := u32 (p.position + 3) }, 3)

/-- The copy that `PushString`, `PushBuffer` and `PushBinary` share: `length` bytes of `data`. -/
def pushData (p : Packer) (data : List UInt8) (length : Nat) : Checked Packer := do
  let p ← p.checkSize (u32 length) p.position
  if length > 0 then
    let mem ← p.mem.store p.position (data.take length)
    pure { p with mem := mem, position := u32 (p.position + u32 length) }
  else pure p

/-- `PushString`: the length is narrowed to 32 bits first. -/
def pushString (p : Packer) (val : List UInt8) : Checked Packer := do
  let length := u32 val.length
  let (p, _) ← p.pushVariableUint32 length
  p.pushData val length

/-- `PushBuffer`: as `PushString`, for a byte vector. -/
def pushBuffer (p : Packer) (val : List UInt8) : Checked Packer := do
  let length := u32 val.length
  let (p, _) ← p.pushVariableUint32 length
  p.pushData val length

/-- `PushBinary(data, length)` with the `length` bytes that `data` points at. -/
def pushBinary (p : Packer) (data : List UInt8) : Checked Packer := p.pushData data data.length

/-- `Pack()`: the header is written with `PushVariableUint32` so that it ends at offset 4. -/
def pack (p : Packer) : Checked Packer :=
  if p.position < kMaxPacketSize then
    if p.position ≥ 0x8002 then do
      let length := u32Sub p.position 1  -- 3-bytes length
      let (p, _) ← { p with length := length, position := 1 }.pushVariableUint32 length
      pure { p with position := 1 }
    else do
      let length := u32Sub p.position 2
      let (p, _) ← { p with length := length, position := 2 }.pushVariableUint32 length
      pure { p with position := 2 }
  else .error .assertion

/-- `Reset()`. -/
def reset (p : Packer) : Packer := { p with length := 0, position := 4 }

/-- `WriteUint16` and `WriteUint32` copy `width` bytes to a position of the caller's choice. -/
def writeWord (p : Packer) (width val position : Nat) : Checked Packer := do
  let p ← p.checkSize width position
  let mem ← p.mem.store position (leBytes width val)
  pure { p with mem := mem }

/-- `WriteUint16` -/
def writeUint16 (p : Packer) (val : UInt16) (position : UInt32) : Checked Packer :=
  p.writeWord 2 val.toNat position.toNat

/-- `WriteUint32` -/
def writeUint32 (p : Packer) (val : UInt32) (position : UInt32) : Checked Packer :=
  p.writeWord 4 val.toNat position.toNat

/-- `Buffer()[0 .. Length())`. -/
def buffer (p : Packer) : Checked (List UInt8) := p.mem.load p.position p.length

/-- `Data()`. -/
def data (p : Packer) : Checked (List UInt8) := p.mem.load p.position p.length

/-- `BodySize()`. -/
def bodySize (p : Packer) : Nat :=
  if p.length ≥ 0x8000 then u32Sub p.length 3 else u32Sub p.length 2

/-- `Body()`. -/
def body (p : Packer) : Checked (List UInt8) :=
  if p.length ≥ 0x8000 then p.mem.load 4 (u32Sub p.length 3)
  else p.mem.load 4 (u32Sub p.length 2)

/-- `Data2()`. -/
def data2 (p : Packer) : Checked (List UInt8) := p.mem.load p.position p.length

/-- `Body2()`: from `p` to `p + length_ - 3` or `p + length_ - 2`, which are pointers. -/
def body2 (p : Packer) : Checked (List UInt8) :=
  if p.length ≥ 0x8000 then p.mem.load 4 (p.length - 3)
  else if p.length ≥ 2 then p.mem.load 4 (p.length - 2)
  else .error .outOfBounds

/-! ## The body of an open packer -/

/-- The packer is open and its body is `bs`. -/
structure Holds (p : Packer) (bs : List UInt8) : Prop where
  position_eq : p.position = 4 + bs.length
  position_le : p.position ≤ p.mem.capacity
  capacity_lt : p.mem.capacity < 2 ^ 32
  cells : Segment p.mem.cells 4 bs

/-- A new packer is open and empty. -/
theorem holds_new (buffer_sz : UInt32) : Holds (new buffer_sz) [] where
  position_eq := rfl
  position_le := by show 4 ≤ max 64 buffer_sz.toNat; omega
  capacity_lt := by
    have := buffer_sz.toNat_lt
    show max 64 buffer_sz.toNat < 2 ^ 32
    omega
  cells := segment_nil _ _

/-- `checkSize` always succeeds on a block of 32-bit capacity; it changes nothing but the block,
    which keeps its cells and is large enough afterwards. -/
theorem checkSize_spec (p : Packer) (more position : Nat) (hcap : p.mem.capacity < 2 ^ 32) :
    ∃ m, p.checkSize more position = .ok { p with mem := m } ∧
      p.mem.capacity ≤ m.capacity ∧ m.capacity < 2 ^ 32 ∧ u32 (position + more) ≤ m.capacity ∧
      ∀ i, i < p.mem.capacity → m.cells i = p.mem.cells i := by
  have hnew := u32_lt (position + more)
  have hdbl := u32_lt (2 * p.mem.capacity)
  by_cases hlt : p.mem.capacity < u32 (position + more)
  · let size := max (u32 (position + more)) (u32 (2 * p.mem.capacity))
    have hle : p.mem.capacity ≤ size := by simp only [size]; omega
    refine ⟨⟨size, fun i => if i < min p.mem.capacity size then p.mem.cells i else none⟩,
      ?_, hle, by simp only [size]; omega, by simp only [size]; omega, fun i hi => ?_⟩
    · simp only [checkSize, if_pos hlt, MemBuf.createSized]
      rw [if_pos hle]
      rfl
    · show (if i < min p.mem.capacity size then p.mem.cells i else none) = p.mem.cells i
      rw [if_pos (by omega)]
  · refine ⟨p.mem, ?_, Nat.le_refl _, hcap, by omega, fun _ _ => rfl⟩
    simp only [checkSize, if_neg hlt]
    rfl

/-- Growing does not disturb the body. -/
theorem Holds.checkSize {p p' : Packer} {bs : List UInt8} {more position : Nat} (h : Holds p bs)
    (hp : p.checkSize more position = .ok p') :
    Holds p' bs ∧ p'.length = p.length := by
  obtain ⟨m, hm, hle, hlt, -, hcells⟩ := p.checkSize_spec more position h.capacity_lt
  rw [hm] at hp
  cases hp
  have hpos := h.position_eq
  have hcap := h.position_le
  refine ⟨⟨hpos, Nat.le_trans hcap hle, hlt, h.cells.congr fun i hi => ?_⟩, rfl⟩
  exact hcells _ (by omega)

/-- Storing at `End()` and advancing past the bytes stored appends them to the body. -/
theorem Holds.store {p : Packer} {m : MemBuf} {bs new : List UInt8} (h : Holds p bs)
    (hm : p.mem.store p.position new = .ok m) :
    Holds { p with mem := m, position := u32 (p.position + new.length) } (bs ++ new) := by
  obtain ⟨hle, hcap, hseg, hother⟩ := MemBuf.store_ok hm
  have hlt := h.capacity_lt
  have hpos := h.position_eq
  have hu : u32 (p.position + new.length) = p.position + new.length := u32_of_lt (by omega)
  refine ⟨?_, ?_, by rw [hcap]; exact hlt, segment_append.mpr ⟨?_, ?_⟩⟩
  · show u32 (p.position + new.length) = _
    rw [hu, List.length_append]
    omega
  · show u32 (p.position + new.length) ≤ m.capacity
    rw [hu, hcap]
    exact hle
  · exact h.cells.congr fun i hi => hother _ (Or.inl (by omega))
  · rw [← hpos]
    exact hseg

/-! ## Pushes append -/

/-- A number is put behind what there is. -/
theorem pushWord_holds {p p' : Packer} {bs : List UInt8} {width val : Nat} (h : Holds p bs)
    (hp : p.pushWord width val = .ok p') : Holds p' (bs ++ leBytes width val) := by
  rw [pushWord] at hp
  obtain ⟨q, hq, hp⟩ := Checked.bind_ok.mp hp
  obtain ⟨m, hm, hp⟩ := Checked.bind_ok.mp hp
  cases hp
  have := (h.checkSize hq).1.store hm
  rwa [leBytes_length] at this

/-- The bytes of a variable-width integer. -/
def encVar (value : Nat) : List UInt8 :=
  if value < 0x8000 then leBytes 2 value
  else leBytes 2 (value % 0x8000 + 0x8000) ++ leBytes 1 (value / 0x8000 % 256)

/-- `VariableUint32Length`. -/
def variableUint32Length (value : Nat) : Nat := if value < 0x8000 then 2 else 3

/-- The length of a variable integer is what `VariableUint32Length` says, below the limit. -/
theorem encVar_length (value : Nat) : (encVar value).length = variableUint32Length value := by
  rw [encVar, variableUint32Length]
  split
  · rw [leBytes_length]
  · rw [List.length_append, leBytes_length, leBytes_length]

/-- A variable integer takes two bytes or more. -/
theorem encVar_length_pos (value : Nat) : 2 ≤ (encVar value).length := by
  rw [encVar_length, variableUint32Length]
  split <;> omega

/-- The flagged low word that the code assembles with bit operations. -/
theorem lower_eq (value : Nat) :
    u16 ((value &&& 0x7FFF) ||| 0x8000) = value % 0x8000 + 0x8000 := by
  have hlt : value % 0x8000 < 0x8000 := Nat.mod_lt _ (by decide)
  rw [and_mask15, or_flag15 hlt, u16_of_lt (by omega)]

/-- The two copies for a large value are its bytes. -/
theorem encVar_long {value : Nat} (h : ¬value < 0x8000) :
    encVar value =
      leBytes 2 (u16 ((value &&& 0x7FFF) ||| 0x8000)) ++ leBytes 1 (u8 (value >>> 15)) := by
  have hup : u8 (value >>> 15) = value / 0x8000 % 256 := by
    rw [u8, Nat.shiftRight_eq_div_pow]
    norm_num
  rw [encVar, if_neg h, lower_eq, hup]

/-- Below 2^15 a variable integer is an integer of two bytes. -/
theorem encVar_short {value : Nat} (h : value < 0x8000) : encVar value = leBytes 2 value := if_pos h

/-- The two copies of `pushVariableUint32` are one copy of `encVar`. -/
theorem pushVariableUint32_eq {p q : Packer} {value : Nat} (hq : p.checkSize 3 p.position = .ok q) :
    p.pushVariableUint32 value = q.mem.store q.position (encVar value) >>= fun m =>
      pure ({ q with mem := m, position := u32 (q.position + (encVar value).length) },
        variableUint32Length value) := by
  rw [pushVariableUint32, hq, Checked.ok_bind, encVar_length, variableUint32Length]
  by_cases hlt : value < 0x8000
  · simp only [if_pos hlt, encVar_short hlt]
  · simp only [if_neg hlt, encVar_long hlt]
    rw [MemBuf.store_append, leBytes_length, bind_assoc]

/-- What a successful `pushVariableUint32` leaves. -/
theorem pushVariableUint32_store {p p' : Packer} {value n : Nat}
    (hp : p.pushVariableUint32 value = .ok (p', n)) :
    ∃ q m, p.checkSize 3 p.position = .ok q ∧ q.mem.store q.position (encVar value) = .ok m ∧
      p' = { q with mem := m, position := u32 (q.position + (encVar value).length) } ∧
      n = variableUint32Length value := by
  cases hq : p.checkSize 3 p.position with
  | error e =>
    rw [pushVariableUint32, hq] at hp
    cases hp
  | ok q =>
    rw [pushVariableUint32_eq hq] at hp
    obtain ⟨m, hm, hp⟩ := Checked.bind_ok.mp hp
    cases hp
    exact ⟨q, m, rfl, hm, rfl, rfl⟩

/-- A variable integer is put behind what there is. -/
theorem pushVariableUint32_holds {p p' : Packer} {bs : List UInt8} {value n : Nat} (h : Holds p bs)
    (hp : p.pushVariableUint32 value = .ok (p', n)) : Holds p' (bs ++ encVar value) := by
  obtain ⟨q, m, hq, hm, rfl, -⟩ := pushVariableUint32_store hp
  exact (h.checkSize hq).1.store hm

/-- `pushVariableUint32` itself makes the room that it needs. -/
theorem pushVariableUint32_ok (p : Packer) (value : Nat) (hcap : p.mem.capacity < 2 ^ 32)
    (hpos : p.position + 3 < 2 ^ 32) : ∃ r, p.pushVariableUint32 value = .ok r := by
  obtain ⟨m, hm, -, -, hroom, -⟩ := p.checkSize_spec 3 p.position hcap
  rw [u32_of_lt hpos] at hroom
  have hfits : p.position + (encVar value).length ≤ m.capacity := by
    have hle : (encVar value).length ≤ 3 := by
      rw [encVar_length, variableUint32Length]
      split <;> omega
    omega
  obtain ⟨m', hm', -⟩ := MemBuf.store_fits hfits
  rw [pushVariableUint32_eq hm]
  exact ⟨_, Checked.bind_ok.mpr ⟨m', hm', rfl⟩⟩

/-- Of the data, as much as is asked for is put behind what there is. -/
theorem pushData_holds {p p' : Packer} {bs data : List UInt8} {length : Nat} (h : Holds p bs)
    (hlen : length ≤ data.length) (hp : p.pushData data length = .ok p') :
    Holds p' (bs ++ data.take length) := by
  rw [pushData] at hp
  obtain ⟨q, hq, hp⟩ := Checked.bind_ok.mp hp
  have hq' := (h.checkSize hq).1
  split at hp
  · obtain ⟨m, hm, hp⟩ := Checked.bind_ok.mp hp
    cases hp
    have hstored := hq'.store hm
    have htake : (data.take length).length = length := by rw [List.length_take]; omega
    -- what fits in the block is below `2 ^ 32`, so narrowing the length changes nothing
    have hle := (MemBuf.store_ok hm).1
    have hlt := hq'.capacity_lt
    rw [htake] at hstored hle
    rwa [u32_of_lt (show length < 2 ^ 32 by omega)]
  · next hzero =>
    cases hp
    rw [show length = 0 from by omega, List.take_zero, List.append_nil]
    exact hq'

/-- A string is written as its (32-bit) length and that many of its bytes. -/
theorem pushString_holds {p p' : Packer} {bs val : List UInt8} (h : Holds p bs)
    (hp : p.pushString val = .ok p') :
    Holds p' (bs ++ encVar (u32 val.length) ++ val.take (u32 val.length)) := by
  rw [pushString] at hp
  obtain ⟨⟨q, n⟩, hq, hp⟩ := Checked.bind_ok.mp hp
  exact pushData_holds (pushVariableUint32_holds h hq) (Nat.mod_le _ _) hp

/-- A fixed-width push makes the room that it needs. -/
theorem Holds.pushWord_ok {p : Packer} {bs : List UInt8} (h : Holds p bs) {width : Nat} (val : Nat)
    (hroom : p.position + width < 2 ^ 32) :
    ∃ p', p.pushWord width val = .ok p' ∧ Holds p' (bs ++ leBytes width val) := by
  obtain ⟨m, hm, -, -, hlarge, -⟩ := p.checkSize_spec width p.position h.capacity_lt
  rw [u32_of_lt hroom] at hlarge
  have hfits : p.position + (leBytes width val).length ≤ m.capacity := by
    rw [leBytes_length]
    exact hlarge
  obtain ⟨m', hm', -⟩ := MemBuf.store_fits hfits
  have hpush : p.pushWord width val =
      .ok { p with mem := m', position := u32 (p.position + width) } := by
    rw [pushWord, hm, Checked.ok_bind]
    exact Checked.bind_ok.mpr ⟨m', hm', rfl⟩
  exact ⟨_, hpush, pushWord_holds h hpush⟩

/-- Data can be pushed as long as positions stay below 2^32. -/
theorem Holds.pushData_ok {p : Packer} {bs data : List UInt8} (h : Holds p bs)
    (hroom : p.position + data.length < 2 ^ 32) :
    ∃ p', p.pushData data data.length = .ok p' := by
  have hlen : u32 data.length = data.length := u32_of_lt (by omega)
  obtain ⟨m, hm, -, -, hlarge, -⟩ := p.checkSize_spec data.length p.position h.capacity_lt
  rw [u32_of_lt hroom] at hlarge
  rw [pushData, hlen, hm, Checked.ok_bind]
  by_cases hpos : data.length > 0
  · have hfits : p.position + (data.take data.length).length ≤ m.capacity := by
      rw [List.take_length]
      exact hlarge
    obtain ⟨m', hm', -⟩ := MemBuf.store_fits hfits
    rw [if_pos hpos]
    exact ⟨_, Checked.bind_ok.mpr ⟨m', hm', rfl⟩⟩
  · rw [if_neg hpos]
    exact ⟨_, rfl⟩

/-- A string can be pushed as long as positions stay below 2^32. -/
theorem Holds.pushString_ok {p : Packer} {bs val : List UInt8} (h : Holds p bs)
    (hroom : p.position + 3 + val.length < 2 ^ 32) : ∃ p', p.pushString val = .ok p' := by
  have hlen : u32 val.length = val.length := u32_of_lt (by omega)
  obtain ⟨⟨q, n⟩, hq⟩ := pushVariableUint32_ok p val.length h.capacity_lt (by omega)
  have hholds := pushVariableUint32_holds h hq
  have hposition := h.position_eq
  have hposition' := hholds.position_eq
  have hwidth : (encVar val.length).length ≤ 3 := by
    rw [encVar_length, variableUint32Length]
    split <;> omega
  rw [List.length_append] at hposition'
  obtain ⟨p', hp'⟩ := hholds.pushData_ok (show q.position + val.length < 2 ^ 32 by omega)
  refine ⟨p', ?_⟩
  rw [pushString, hlen]
  exact Checked.bind_ok.mpr ⟨_, hq, hp'⟩

/-! ## Packing -/

/-- The length a packed body of `n` bytes announces: header and body together. -/
def frameLength (n : Nat) : Nat := if 4 + n ≥ 0x8002 then n + 3 else n + 2

/-- The frame of a body. -/
def frameOf (bs : List UInt8) : List UInt8 := encVar (frameLength bs.length) ++ bs

/-- The length in front of a frame counts itself. -/
theorem encVar_frameLength (n : Nat) : (encVar (frameLength n)).length + n = frameLength n := by
  rw [encVar_length, variableUint32Length, frameLength]
  split <;> split <;> omega

/-- A frame is as long as it says. -/
theorem frameOf_length (bs : List UInt8) : (frameOf bs).length = frameLength bs.length := by
  rw [frameOf, List.length_append, encVar_frameLength]

/-- **Packing.**  What a packed packer sends is the frame of its body, and the body was below the
    limit. -/
theorem pack_data {p p' : Packer} {bs : List UInt8} (h : Holds p bs) (hp : p.pack = .ok p') :
    p'.data = .ok (frameOf bs) ∧ p'.length = (frameOf bs).length ∧
      4 + bs.length < kMaxPacketSize := by
  have hpos := h.position_eq
  have hcap := h.position_le
  rw [pack] at hp
  split at hp
  · next hmax =>
    -- both widths are the same argument: the header ends where the body begins
    suffices key : ∀ (start : Nat) (q : Packer) (k : Nat),
        start + (encVar (frameLength bs.length)).length = 4 →
        ({ p with length := frameLength bs.length, position := start } : Packer).pushVariableUint32
          (frameLength bs.length) = .ok (q, k) →
        ({ q with position := start } : Packer).data = .ok (frameOf bs) ∧
          q.length = (frameOf bs).length by
      split at hp
      · next hbig =>
        have hlen : u32Sub p.position 1 = frameLength bs.length := by
          rw [u32Sub_of_le (by omega), frameLength, if_pos (by omega)]
          omega
        rw [hlen] at hp
        obtain ⟨⟨q, k⟩, hq, hp⟩ := Checked.bind_ok.mp hp
        cases hp
        have hstart : 1 + (encVar (frameLength bs.length)).length = 4 := by
          have := encVar_frameLength bs.length
          rw [← hlen, u32Sub_of_le (by omega)] at this ⊢
          omega
        exact ⟨(key 1 q k hstart hq).1, (key 1 q k hstart hq).2, by omega⟩
      · next hsmall =>
        have hlen : u32Sub p.position 2 = frameLength bs.length := by
          rw [u32Sub_of_le (by omega), frameLength, if_neg (by omega)]
          omega
        rw [hlen] at hp
        obtain ⟨⟨q, k⟩, hq, hp⟩ := Checked.bind_ok.mp hp
        cases hp
        have hstart : 2 + (encVar (frameLength bs.length)).length = 4 := by
          have := encVar_frameLength bs.length
          rw [← hlen, u32Sub_of_le (by omega)] at this ⊢
          omega
        exact ⟨(key 2 q k hstart hq).1, (key 2 q k hstart hq).2, by omega⟩
    intro start q k hstart hq
    obtain ⟨r, m, hr, hm, rfl, -⟩ := pushVariableUint32_store hq
    obtain ⟨m₀, hm₀, hle, hlt, -, hcells⟩ :=
      ({ p with length := frameLength bs.length, position := start } : Packer).checkSize_spec 3 start
        h.capacity_lt
    rw [hm₀] at hr
    cases hr
    obtain ⟨hfit, hmcap, hseg, hother⟩ := MemBuf.store_ok hm
    dsimp only at hle hlt hcells hfit hmcap hseg hother
    have hbody : Segment m.cells (start + (encVar (frameLength bs.length)).length) bs := by
      rw [hstart]
      refine h.cells.congr fun i hi => ?_
      rw [hother _ (Or.inr (by omega))]
      exact hcells _ (by omega)
    refine ⟨?_, (frameOf_length bs).symm⟩
    have hfits : start + (frameOf bs).length ≤ m.capacity := by
      rw [frameOf_length, hmcap, ← encVar_frameLength]
      omega
    have hload := MemBuf.load_of_segment hfits (segment_append.mpr ⟨hseg, hbody⟩)
    rwa [frameOf_length] at hload
  · cases hp

/-- A body below the limit can be packed. -/
theorem Holds.pack_ok {p : Packer} {bs : List UInt8} (h : Holds p bs)
    (hmax : p.position < kMaxPacketSize) : ∃ p', p.pack = .ok p' := by
  have hcap := h.capacity_lt
  rw [pack, if_pos hmax]
  split
  · obtain ⟨r, hr⟩ := pushVariableUint32_ok
      { p with length := u32Sub p.position 1, position := 1 }
      (u32Sub p.position 1) hcap (show 1 + 3 < 2 ^ 32 by decide)
    exact ⟨_, Checked.bind_ok.mpr ⟨r, hr, rfl⟩⟩
  · obtain ⟨r, hr⟩ := pushVariableUint32_ok
      { p with length := u32Sub p.position 2, position := 2 }
      (u32Sub p.position 2) hcap (show 2 + 3 < 2 ^ 32 by decide)
    exact ⟨_, Checked.bind_ok.mpr ⟨r, hr, rfl⟩⟩

end Packer

end Turnserver
