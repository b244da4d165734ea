/-
  THE TWO PACKERS — `base/packer.h` against `thrift/turnserver/packer.h`.

  The second packer has the same three members, but its block is a `std::vector<char>`: it grows to
  exactly the size asked for, what is new in it is zero, and the short header is written in place.
  A vector is a `MemBuf` here, its size being the capacity.

  * `Content` — what the calls since the last `Reset` have made: the body, and once packed the header
    before it.  Nothing in it depends on how a block grows or what lay in it before.
  * `Shows p c` — the packer `p` shows the content `c`.  Growing keeps it (`Grown`), and so does every
    allowed call of a packer whose `Primitives` do (`Primitives.Faithful.exec`).
  * `packers_agree`: after any allowed calls both packers show one content, and a packed content
    determines everything that can be read from either.
-/
import Turnserver.Base.PackerBounds
import Mathlib.Data.List.Induction

namespace Turnserver

open Bytes

/-! ## The code -/

/-- `resize(new_size)` to a larger size. -/
def vectorResize (buffer : MemBuf) (new_size : Nat) : MemBuf :=
  ⟨new_size, fun i => if i < buffer.capacity then buffer.cells i else some 0⟩

namespace VectorPacker

/-- `Packer::Packer()`. -/
def new : Packer := ⟨⟨1024, fun _ => some 0⟩, 0, 4⟩

/-- `Packer::CheckSize(more, position)`. -/
def checkSize (p : Packer) (more position : Nat) : Packer :=
  let new_size := u32 (position + more)
  if p.mem.capacity < new_size then { p with mem := vectorResize p.mem new_size } else p

/-- The fixed-width pushes. -/
def pushWord (p : Packer) (width val : Nat) : Checked Packer := do
  let p := checkSize p width p.position
  let mem ← p.mem.store p.position (leBytes width val)
  pure { p with mem := mem, position := u32 (p.position + width) }

/-- `PushUint8` -/
def pushUint8 (p : Packer) (val : UInt8) : Checked Packer := pushWord p 1 val.toNat

/-- `PushUint16` -/
def pushUint16 (p : Packer) (val : UInt16) : Checked Packer := pushWord p 2 val.toNat

/-- `PushUint32` -/
def pushUint32 (p : Packer) (val : UInt32) : Checked Packer := pushWord p 4 val.toNat

/-- `PushUint64` -/
def pushUint64 (p : Packer) (val : UInt64) : Checked Packer := pushWord p 8 val.toNat

/-- `PushDouble`, of the 64 bits. -/
def pushDouble (p : Packer) (val : UInt64) : Checked Packer := pushWord p 8 val.toNat

/-- `PushBoolean` -/
def pushBoolean (p : Packer) (val : Bool) : Checked Packer := pushUint8 p val.toUInt8

/-- `PushVariableUint32`: a third byte is asked for only where it is written. -/
def pushVariableUint32 (p : Packer) (value : Nat) : Checked (Packer × Nat) := do
  let p := checkSize p 2 p.position
  if value < 0x8000 then
    let mem ← p.mem.store p.position (leBytes 2 value)
    pure ({ p with mem := mem, position := u32 (p.position + 2) }, 2)
  else
    let p := checkSize p 3 p.position
    let lower := u16 ((value &&& 0x7FFF) ||| 0x8000)
    let mem ← p.mem.store p.position (leBytes 2 lower)
    let upper := u8 (value >>> 15)
    let mem ← mem.store (p.position + 2) (leBytes 1 upper)
    pure ({ p with mem := mem, position := u32 (p.position + 3) }, 3)

/-- `PushBinary` of `length` bytes. -/
def pushData (p : Packer) (data : List UInt8) (length : Nat) : Checked Packer := do
  let p := checkSize p (u32 length) p.position
  if length > 0 then
    let mem ← p.mem.store p.position (data.take length)
    pure { p with mem := mem, position := u32 (p.position + u32 length) }
  else pure p

/-- `PushString` -/
def pushString (p : Packer) (val : List UInt8) : Checked Packer := do
  let length := u32 val.length
  let (p, _) ← pushVariableUint32 p length
  pushData p val length

/-- `PushBuffer` -/
def pushBuffer (p : Packer) (val : List UInt8) : Checked Packer := do
  let length := u32 val.length
  let (p, _) ← pushVariableUint32 p length
  pushData p val length

/-- `PushBinary` -/
def pushBinary (p : Packer) (data : List UInt8) : Checked Packer := pushData p data data.length

/-- The fixed-width writes. -/
def writeWord (p : Packer) (width val position : Nat) : Checked Packer := do
  let p := checkSize p width position
  let mem ← p.mem.store position (leBytes width val)
  pure { p with mem := mem }

/-- `WriteUint16` -/
def writeUint16 (p : Packer) (val : UInt16) (position : UInt32) : Checked Packer :=
  writeWord p 2 val.toNat position.toNat

/-- `WriteUint32` -/
def writeUint32 (p : Packer) (val : UInt32) (position : UInt32) : Checked Packer :=
  writeWord p 4 val.toNat position.toNat

/-- `Pack()`: a short header is stored through `&buffer_[2]`, without a check. -/
def pack (p : Packer) : Checked Packer :=
  if p.position < kMaxPacketSize then
    if p.position ≥ 0x8002 then do
      let length := u32Sub p.position 1
      let (p, size) ← pushVariableUint32 { p with length := length, position := 1 } length
      if size = 3 then pure { p with position := 1 } else .error .assertion
    else do
      let length := u32Sub p.position 2
      let mem ← p.mem.store 2 (leBytes 2 (u16 length))
      pure { p with mem := mem, length := length, position := 2 }
  else .error .assertion

/-- `Reset` -/
def reset (p : Packer) : Packer := { p with length := 0, position := 4 }

/-- `Buffer`, as many bytes as `Length` says. -/
def buffer (p : Packer) : Checked (List UInt8) := p.mem.load p.position p.length

/-- `Data` -/
def data (p : Packer) : Checked (List UInt8) := p.mem.load p.position p.length

/-- `BodySize` -/
def bodySize (p : Packer) : Nat := p.bodySize

/-- `Body` -/
def body (p : Packer) : Checked (List UInt8) := p.body

/-- `Data2`, which asks the vector for its first element. -/
def data2 (p : Packer) : Checked (List UInt8) :=
  if p.mem.capacity > 0 then p.mem.load p.position p.length else .error .assertion

/-- `Body2` -/
def body2 (p : Packer) : Checked (List UInt8) := p.body2

/-- The function that is called. -/
def exec (p : Packer) : PackerCall → Checked Packer
  | .pushBoolean val => pushBoolean p val
  | .pushUint8 val => pushUint8 p val
  | .pushUint16 val => pushUint16 p val
  | .pushUint32 val => pushUint32 p val
  | .pushUint64 val => pushUint64 p val
  | .pushDouble val => pushDouble p val
  | .pushVariableUint32 value => do
    let (p, _) ← pushVariableUint32 p value.toNat
    pure p
  | .pushString val => pushString p val
  | .pushBuffer val => pushBuffer p val
  | .pushBinary data => pushBinary p data
  | .writeUint16 val position => writeUint16 p val position
  | .writeUint32 val position => writeUint32 p val position
  | .pack => pack p
  | .reset => pure (reset p)

end VectorPacker

/-- Everything that can be read from a packed packer; `buffer` is `Buffer()[0 .. Length())`. -/
structure PackedView where
  length : Nat
  buffer : List UInt8
  data : List UInt8
  data2 : List UInt8
  body : List UInt8
  body2 : List UInt8
  bodySize : Nat
  deriving DecidableEq

/-- What the packer shows. -/
def Packer.view (p : Packer) : Checked PackedView := do
  let buffer ← p.buffer
  let data ← p.data
  let data2 ← p.data2
  let body ← p.body
  let body2 ← p.body2
  pure ⟨p.length, buffer, data, data2, body, body2, p.bodySize⟩

/-- What the vector packer shows. -/
def VectorPacker.view (p : Packer) : Checked PackedView := do
  let buffer ← buffer p
  let data ← data p
  let data2 ← data2 p
  let body ← body p
  let body2 ← body2 p
  pure ⟨p.length, buffer, data, data2, body, body2, bodySize p⟩

/-- Calls one after the other. -/
def Packer.run (p : Packer) (calls : List PackerCall) : Checked Packer :=
  calls.foldlM (fun p call => call.exec p) p

/-- Calls one after the other. -/
def VectorPacker.run (p : Packer) (calls : List PackerCall) : Checked Packer :=
  calls.foldlM VectorPacker.exec p

/-! ## The content -/

/-- `new` is copied to `pos` over what lies from `start` on. -/
def overwrite (start pos : Nat) (new bytes : List UInt8) : List UInt8 :=
  bytes.mapIdx fun i b =>
    if pos ≤ start + i ∧ start + i < pos + new.length then new.getD (start + i - pos) b else b

/-- What has been pushed, and when it is packed the header before it. -/
structure Content where
  header : Option (List UInt8)
  body : List UInt8

namespace Content

/-- Nothing was pushed. -/
def empty : Content := ⟨none, []⟩

/-- Where the header begins, which ends at offset 4. -/
def start (c : Content) : Nat := 4 - (c.header.getD []).length

/-- More bytes at the end. -/
def push (c : Content) (bs : List UInt8) : Content := { c with body := c.body ++ bs }

/-- Bytes in place, in the header and in the body. -/
def write (c : Content) (pos : Nat) (bs : List UInt8) : Content where
  header := c.header.map (overwrite c.start pos bs)
  body := overwrite 4 pos bs c.body

/-- The bytes of a string or a byte vector: a 32-bit length, and that many bytes. -/
def stringBytes (val : List UInt8) : List UInt8 :=
  Packer.encVar (u32 val.length) ++ val.take (u32 val.length)

/-- The content after a call. -/
def exec (c : Content) : PackerCall → Content
  | .pushBoolean val => c.push (leBytes 1 val.toUInt8.toNat)
  | .pushUint8 val => c.push (leBytes 1 val.toNat)
  | .pushUint16 val => c.push (leBytes 2 val.toNat)
  | .pushUint32 val => c.push (leBytes 4 val.toNat)
  | .pushUint64 val => c.push (leBytes 8 val.toNat)
  | .pushDouble val => c.push (leBytes 8 val.toNat)
  | .pushVariableUint32 value => c.push (Packer.encVar value.toNat)
  | .pushString val => c.push (stringBytes val)
  | .pushBuffer val => c.push (stringBytes val)
  | .pushBinary data => c.push data
  | .writeUint16 val position => c.write position.toNat (leBytes 2 val.toNat)
  | .writeUint32 val position => c.write position.toNat (leBytes 4 val.toNat)
  | .pack => { c with header := some (Packer.encVar (Packer.frameLength c.body.length)) }
  | .reset => empty

/-- The packer is open, and `n` more bytes stay below the limit. -/
def Room (c : Content) (n : Nat) : Prop := c.header = none ∧ 4 + c.body.length + n < kMaxPacketSize

/-- The calls that the packer is meant for: nothing is pushed or packed between `Pack` and `Reset`,
    and the positions stay below the limit. -/
def Allows (c : Content) : PackerCall → Prop
  | .pushBoolean _ => c.Room 1
  | .pushUint8 _ => c.Room 1
  | .pushUint16 _ => c.Room 2
  | .pushUint32 _ => c.Room 4
  | .pushUint64 _ => c.Room 8
  | .pushDouble _ => c.Room 8
  | .pushVariableUint32 value => c.Room (Packer.variableUint32Length value.toNat)
  | .pushString val => c.Room (stringBytes val).length
  | .pushBuffer val => c.Room (stringBytes val).length
  | .pushBinary data => c.Room data.length
  | .writeUint16 _ position => position.toNat + 2 ≤ kMaxPacketSize
  | .writeUint32 _ position => position.toNat + 4 ≤ kMaxPacketSize
  | .pack => c.header = none
  | .reset => True

/-- Every call is allowed when it is made. -/
def Valid : Content → List PackerCall → Prop
  | _, [] => True
  | c, call :: calls => c.Allows call ∧ Valid (c.exec call) calls

/-- What a packed content looks like. -/
def view (header body : List UInt8) : PackedView where
  length := header.length + body.length
  buffer := header ++ body
  data := header ++ body
  data2 := header ++ body
  body := body
  body2 := body
  bodySize := body.length

end Content

/-- A block that has replaced `m₀`, as a growing packer does it. -/
structure Grown (m₀ m : MemBuf) : Prop where
  capacity_le : m₀.capacity ≤ m.capacity
  capacity_lt : m.capacity < 2 ^ 32
  cells : ∀ i, i < m₀.capacity → m.cells i = m₀.cells i

/-- A block that has grown twice has grown. -/
theorem Grown.trans {m₀ m₁ m₂ : MemBuf} (h₁ : Grown m₀ m₁) (h₂ : Grown m₁ m₂) : Grown m₀ m₂ where
  capacity_le := Nat.le_trans h₁.capacity_le h₂.capacity_le
  capacity_lt := h₂.capacity_lt
  cells i hi := (h₂.cells i (Nat.lt_of_lt_of_le hi h₁.capacity_le)).trans (h₁.cells i hi)

/-- After the check there is room, and what was there is there. -/
theorem Packer.checkSize_grown {p : Packer} (hcap : p.mem.capacity < 2 ^ 32) {more position : Nat}
    (hlt : position + more < 2 ^ 32) :
    ∃ m, p.checkSize more position = .ok { p with mem := m } ∧ Grown p.mem m ∧
      position + more ≤ m.capacity := by
  obtain ⟨m, hm, hle, hlt', hroom, hcells⟩ := p.checkSize_spec more position hcap
  rw [u32_of_lt hlt] at hroom
  exact ⟨m, hm, ⟨hle, hlt', hcells⟩, hroom⟩

/-- After the check of the vector there is room, and what was there is there. -/
theorem VectorPacker.checkSize_grown {p : Packer} (hcap : p.mem.capacity < 2 ^ 32)
    {more position : Nat} (hlt : position + more < 2 ^ 32) :
    ∃ m, checkSize p more position = { p with mem := m } ∧ Grown p.mem m ∧
      position + more ≤ m.capacity := by
  rw [checkSize, u32_of_lt hlt]
  by_cases hgrow : p.mem.capacity < position + more
  · refine ⟨vectorResize p.mem (position + more), if_pos hgrow, ?_, Nat.le_refl _⟩
    exact ⟨Nat.le_of_lt hgrow, hlt, fun i hi => if_pos hi⟩
  · refine ⟨p.mem, if_neg hgrow, ?_, Nat.not_lt.mp hgrow⟩
    exact ⟨Nat.le_refl _, hcap, fun i _ => rfl⟩

/-! ## Showing a content -/

/-- The packer shows the content. -/
structure Shows (p : Packer) (c : Content) : Prop where
  capacity_lt : p.mem.capacity < 2 ^ 32
  body_le : 4 + c.body.length ≤ p.mem.capacity
  body_lt : 4 + c.body.length < kMaxPacketSize
  header : Segment p.mem.cells c.start (c.header.getD [])
  body : Segment p.mem.cells 4 c.body
  opened : c.header = none → p.position = 4 + c.body.length
  packed : ∀ bs, c.header = some bs → p.position = c.start ∧
    p.length = bs.length + c.body.length ∧ bs.length = Packer.variableUint32Length p.length

/-- A variable integer has two bytes or three. -/
theorem variableUint32Length_cases (value : Nat) :
    (value < 0x8000 ∧ Packer.variableUint32Length value = 2) ∨
      (¬value < 0x8000 ∧ Packer.variableUint32Length value = 3) := by
  by_cases hlt : value < 0x8000
  · exact Or.inl ⟨hlt, if_pos hlt⟩
  · exact Or.inr ⟨hlt, if_neg hlt⟩

/-- The header is a variable integer. -/
theorem Shows.header_le {p : Packer} {c : Content} (h : Shows p c) : (c.header.getD []).length ≤ 3 := by
  cases hheader : c.header with
  | none => exact Nat.zero_le _
  | some bs =>
    obtain ⟨-, -, hlen⟩ := h.packed bs hheader
    rcases variableUint32Length_cases p.length with ⟨-, heq⟩ | ⟨-, heq⟩ <;>
    · rw [heq] at hlen
      show bs.length ≤ 3
      omega

/-- Only the block changes, and it keeps what is in it. -/
theorem Shows.grow {p : Packer} {c : Content} {m : MemBuf} (h : Shows p c) (hm : Grown p.mem m) :
    Shows { p with mem := m } c := by
  have hle := h.body_le
  have hheader := h.header_le
  refine ⟨hm.capacity_lt, Nat.le_trans hle hm.capacity_le, h.body_lt, ?_, ?_, h.opened, h.packed⟩
  · apply h.header.congr
    intro i hi
    apply hm.cells
    rw [Content.start]
    omega
  · apply h.body.congr
    intro i hi
    apply hm.cells
    omega

/-- Writing in place keeps the length. -/
theorem overwrite_length (start pos : Nat) (new bytes : List UInt8) :
    (overwrite start pos new bytes).length = bytes.length := by
  rw [overwrite, List.length_mapIdx]

/-- Writing in place, as a store into the block sees it. -/
theorem overwrite_segment {m m' : MemBuf} {pos start : Nat} {new bytes : List UInt8}
    (hm : m.store pos new = .ok m') (h : Segment m.cells start bytes) :
    Segment m'.cells start (overwrite start pos new bytes) := by
  obtain ⟨-, -, hseg, hother⟩ := MemBuf.store_ok hm
  intro i hi
  rw [overwrite_length] at hi
  rw [overwrite, List.getElem?_mapIdx, List.getElem?_eq_getElem hi]
  show m'.cells (start + i) = some _
  -- inside of `new` its bytes lie, outside of it the old ones
  split
  · next hin =>
    have hlt : start + i - pos < new.length := by omega
    have hcell := hseg (start + i - pos) hlt
    rw [show pos + (start + i - pos) = start + i from by omega] at hcell
    show m'.cells (start + i) = some (new.getD (start + i - pos) bytes[i])
    rw [hcell, List.getD_eq_getElem?_getD, List.getElem?_eq_getElem hlt]
    rfl
  · next hout =>
    rw [hother (start + i) (by omega), h i hi, List.getElem?_eq_getElem hi]

/-- A copy to any position of the block. -/
theorem Shows.write {p : Packer} {c : Content} {m : MemBuf} {pos : Nat} {bs : List UInt8}
    (h : Shows p c) (hm : Grown p.mem m) (hfit : pos + bs.length ≤ m.capacity) :
    ∃ m', m.store pos bs = .ok m' ∧ Shows { p with mem := m' } (c.write pos bs) := by
  obtain ⟨m', hstore, hcap⟩ := MemBuf.store_fits hfit
  have hgrown := h.grow hm
  -- writing changes no length
  have hlen : ∀ old : Option (List UInt8),
      ((old.map (overwrite c.start pos bs)).getD []).length = (old.getD []).length := by
    intro old
    cases old with
    | none => rfl
    | some old => exact overwrite_length _ _ _ _
  have hstart : (c.write pos bs).start = c.start := by
    show 4 - ((c.header.map _).getD []).length = _
    rw [hlen]
    rfl
  have hbody : (c.write pos bs).body.length = c.body.length := overwrite_length _ _ _ _
  refine ⟨m', hstore, ⟨hcap ▸ hm.capacity_lt, ?_, ?_, ?_, ?_, ?_, ?_⟩⟩
  · rw [hbody]
    exact hcap ▸ hgrown.body_le
  · rw [hbody]
    exact h.body_lt
  · rw [hstart]
    cases hheader : c.header with
    | none =>
      show Segment _ _ ((c.header.map _).getD [])
      rw [hheader]
      exact segment_nil _ _
    | some old =>
      have hold := hgrown.header
      rw [hheader] at hold
      show Segment _ _ ((c.header.map _).getD [])
      rw [hheader]
      exact overwrite_segment hstore hold
  · exact overwrite_segment hstore hgrown.body
  · intro hnone
    rw [hbody]
    exact h.opened (Option.map_eq_none_iff.mp hnone)
  · intro bs' hsome
    obtain ⟨old, hold, rfl⟩ := Option.map_eq_some_iff.mp hsome
    rw [hstart, hbody, overwrite_length]
    exact h.packed old hold

/-- A copy to the end of an open packer. -/
theorem Shows.push {p : Packer} {c : Content} {m : MemBuf} {bs : List UInt8} (h : Shows p c)
    (hroom : c.Room bs.length) (hm : Grown p.mem m) (hfit : p.position + bs.length ≤ m.capacity) :
    ∃ m', m.store p.position bs = .ok m' ∧
      Shows { p with mem := m', position := u32 (p.position + bs.length) } (c.push bs) := by
  obtain ⟨hopen, hlt⟩ := hroom
  obtain ⟨m', hstore, hcap⟩ := MemBuf.store_fits hfit
  obtain ⟨-, -, hseg, hother⟩ := MemBuf.store_ok hstore
  -- while nothing is packed, the position is the end of the body
  have hpos := h.opened hopen
  have hmlt := hm.capacity_lt
  have hlen : (c.push bs).body.length = c.body.length + bs.length := List.length_append
  refine ⟨m', hstore, ⟨hcap ▸ hm.capacity_lt, ?_, ?_, ?_, ?_, fun _ => ?_, fun bs' hno => ?_⟩⟩
  · show 4 + (c.push bs).body.length ≤ m'.capacity
    omega
  · omega
  · show Segment _ _ (c.header.getD [])
    rw [hopen]
    exact segment_nil _ _
  -- the old bytes stay, and `bs` lies behind them
  · refine segment_append.mpr ⟨?_, ?_⟩
    · apply (h.grow hm).body.congr
      intro i hi
      exact hother _ (Or.inl (by omega))
    · rw [← hpos]
      exact hseg
  · show u32 (p.position + bs.length) = _
    rw [u32_of_lt (by omega)]
    omega
  · rw [show (c.push bs).header = c.header from rfl, hopen] at hno
    cases hno

/-- The header is copied to its place before the body. -/
theorem Shows.pack {p : Packer} {c : Content} {m : MemBuf} {start : Nat} (h : Shows p c)
    (hm : Grown p.mem m)
    (hstart : start + (Packer.encVar (Packer.frameLength c.body.length)).length = 4) :
    ∃ m', m.store start (Packer.encVar (Packer.frameLength c.body.length)) = .ok m' ∧
      Shows ⟨m', Packer.frameLength c.body.length, start⟩ (c.exec .pack) := by
  have hgrown := h.grow hm
  have hle : 4 + c.body.length ≤ m.capacity := hgrown.body_le
  have hfit : start + (Packer.encVar (Packer.frameLength c.body.length)).length ≤ m.capacity := by
    -- the header ends where the body begins
    omega
  obtain ⟨m', hstore, hcap⟩ := MemBuf.store_fits hfit
  obtain ⟨-, -, hseg, hother⟩ := MemBuf.store_ok hstore
  have hlen := Packer.encVar_frameLength c.body.length
  have hcstart : (c.exec .pack).start = start := by
    show 4 - (Packer.encVar (Packer.frameLength c.body.length)).length = start
    omega
  refine ⟨m', hstore, ⟨hcap ▸ hm.capacity_lt, ?_, h.body_lt, ?_, ?_, fun hno => ?_, fun bs hbs => ?_⟩⟩
  · show 4 + c.body.length ≤ m'.capacity
    omega
  · rw [hcstart]
    exact hseg
  · apply hgrown.body.congr
    intro i hi
    exact hother _ (Or.inr (by omega))
  · cases hno
  · cases hbs
    exact ⟨hcstart.symm, hlen.symm, Packer.encVar_length _⟩

/-- `Pack` puts the header where the body begins. -/
theorem frameLength_cases {position n : Nat} (h : position = 4 + n) :
    (position ≥ 0x8002 ∧ u32Sub position 1 = Packer.frameLength n ∧
        ¬Packer.frameLength n < 0x8000) ∨
      (¬position ≥ 0x8002 ∧ u32Sub position 2 = Packer.frameLength n ∧
        Packer.frameLength n < 0x8000) := by
  rw [Packer.frameLength, u32Sub_of_le (by omega), u32Sub_of_le (by omega)]
  by_cases hbig : position ≥ 0x8002
  · rw [if_pos (by omega)]
    exact Or.inl ⟨hbig, by omega, by omega⟩
  · rw [if_neg (by omega)]
    exact Or.inr ⟨hbig, by omega, by omega⟩

/-- What is below the size limit is far below 2^32. -/
theorem Content.Room.lt {c : Content} {n : Nat} (h : c.Room n) : 4 + c.body.length + n + 3 < 2 ^ 32 := by
  have hlt := h.2
  rw [kMaxPacketSize] at hlt
  omega

/-- The positions of a push stay far below the limit of a `uint32_t`. -/
theorem Shows.position_lt {p : Packer} {c : Content} (h : Shows p c) {n : Nat} (hroom : c.Room n) :
    p.position + n + 3 < 2 ^ 32 := by
  rw [h.opened hroom.1]
  exact hroom.lt

/-- A string is pushed as its length and then its bytes. -/
theorem Content.Room.string {c : Content} {val : List UInt8}
    (h : c.Room (Content.stringBytes val).length) :
    c.Room (Packer.encVar (u32 val.length)).length ∧
      (c.push (Packer.encVar (u32 val.length))).Room (u32 val.length) := by
  obtain ⟨hopen, hlt⟩ := h
  have hle : u32 val.length ≤ val.length := Nat.mod_le _ _
  rw [Content.stringBytes, List.length_append, List.length_take, Nat.min_eq_left hle] at hlt
  refine ⟨⟨hopen, by omega⟩, hopen, ?_⟩
  show 4 + (c.body ++ Packer.encVar (u32 val.length)).length + _ < _
  rw [List.length_append]
  omega

/-- A string is pushed as its length and its characters. -/
theorem Content.push_string (c : Content) (val : List UInt8) :
    (c.push (Packer.encVar (u32 val.length))).push (val.take (u32 val.length)) =
      c.push (Content.stringBytes val) := by
  rw [Content.push, Content.push, Content.push, Content.stringBytes]
  simp only [List.append_assoc]

/-! ## The primitives

Both packers take the block that a growing check has left, and go on in the same way. -/

/-- A word is copied to the end. -/
theorem Shows.pushWord {p : Packer} {c : Content} {m : MemBuf} {width val : Nat} (h : Shows p c)
    (hroom : c.Room width) (hm : Grown p.mem m) (hfit : p.position + width ≤ m.capacity) :
    ∃ m', m.store p.position (leBytes width val) = .ok m' ∧
      Shows { p with mem := m', position := u32 (p.position + width) }
        (c.push (leBytes width val)) := by
  have hlen : (leBytes width val).length = width := leBytes_length _ _
  rw [← hlen] at hroom hfit
  have hpush := h.push hroom hm hfit
  rwa [hlen] at hpush

/-- So are the first `length` bytes of a buffer, unless there are none. -/
theorem Shows.pushData {p : Packer} {c : Content} {m : MemBuf} {data : List UInt8} {length : Nat}
    (h : Shows p c) (hlen : length ≤ data.length) (hroom : c.Room length) (hm : Grown p.mem m)
    (hfit : p.position + length ≤ m.capacity) :
    ∃ q, (if length > 0 then do
        let mem ← m.store p.position (data.take length)
        pure { p with mem := mem, position := u32 (p.position + length) }
      else pure { p with mem := m }) = (.ok q : Checked Packer) ∧
      Shows q (c.push (data.take length)) := by
  have htake : (data.take length).length = length := by
    rw [List.length_take]
    omega
  -- nothing is stored for an empty list
  by_cases hzero : length > 0
  · rw [← htake] at hroom hfit
    obtain ⟨m', hstore, hshows⟩ := h.push hroom hm hfit
    rw [htake] at hshows
    rw [if_pos hzero]
    exact ⟨_, Checked.bind_ok.mpr ⟨m', hstore, rfl⟩, hshows⟩
  · rw [if_neg hzero, show length = 0 from by omega, List.take_zero, Content.push, List.append_nil]
    exact ⟨_, rfl, h.grow hm⟩

/-- After a reset nothing is there. -/
theorem reset_shows {p : Packer} {c : Content} (h : Shows p c) : Shows p.reset .empty := by
  have hle := h.body_le
  refine ⟨h.capacity_lt, ?_, ?_, segment_nil _ _, segment_nil _ _, fun _ => rfl, fun bs hno => ?_⟩
  · show 4 ≤ p.mem.capacity
    omega
  · decide
  · cases hno

/-- The members of a packer that the other ones are made of. -/
structure Primitives where
  pushWord : Packer → Nat → Nat → Checked Packer
  pushVariableUint32 : Packer → Nat → Checked (Packer × Nat)
  pushData : Packer → List UInt8 → Nat → Checked Packer
  writeWord : Packer → Nat → Nat → Nat → Checked Packer
  pack : Packer → Checked Packer

namespace Primitives

/-- The primitives of the packer. -/
def packer : Primitives :=
  ⟨Packer.pushWord, Packer.pushVariableUint32, Packer.pushData, Packer.writeWord, Packer.pack⟩

/-- The primitives of the vector packer. -/
def vectorPacker : Primitives :=
  ⟨VectorPacker.pushWord, VectorPacker.pushVariableUint32, VectorPacker.pushData,
    VectorPacker.writeWord, VectorPacker.pack⟩

/-- `PushString`, from the primitives. -/
def pushString (P : Primitives) (p : Packer) (val : List UInt8) : Checked Packer := do
  let (p, _) ← P.pushVariableUint32 p (u32 val.length)
  P.pushData p val (u32 val.length)

/-- Every call, from the primitives. -/
def exec (P : Primitives) (p : Packer) : PackerCall → Checked Packer
  | .pushBoolean val => P.pushWord p 1 val.toUInt8.toNat
  | .pushUint8 val => P.pushWord p 1 val.toNat
  | .pushUint16 val => P.pushWord p 2 val.toNat
  | .pushUint32 val => P.pushWord p 4 val.toNat
  | .pushUint64 val => P.pushWord p 8 val.toNat
  | .pushDouble val => P.pushWord p 8 val.toNat
  | .pushVariableUint32 value => do
    let (p, _) ← P.pushVariableUint32 p value.toNat
    pure p
  | .pushString val => P.pushString p val
  | .pushBuffer val => P.pushString p val
  | .pushBinary data => P.pushData p data data.length
  | .writeUint16 val position => P.writeWord p 2 val.toNat position.toNat
  | .writeUint32 val position => P.writeWord p 4 val.toNat position.toNat
  | .pack => P.pack p
  | .reset => pure p.reset

/-- The packer is made of its primitives. -/
theorem exec_packer (p : Packer) (call : PackerCall) : packer.exec p call = call.exec p := by
  cases call <;> rfl

/-- The vector packer is made of its primitives. -/
theorem exec_vectorPacker (p : Packer) (call : PackerCall) :
    vectorPacker.exec p call = VectorPacker.exec p call := by
  cases call <;> rfl

/-- Where there is room, the primitives succeed and the packer shows what was pushed. -/
structure Faithful (P : Primitives) : Prop where
  pushWord : ∀ {p c width val}, Shows p c → c.Room width →
    ∃ q, P.pushWord p width val = .ok q ∧ Shows q (c.push (leBytes width val))
  pushVariableUint32 : ∀ {p c value}, Shows p c → c.Room (Packer.encVar value).length →
    ∃ q k, P.pushVariableUint32 p value = .ok (q, k) ∧ Shows q (c.push (Packer.encVar value))
  pushData : ∀ {p c data length}, Shows p c → length ≤ data.length → c.Room length →
    ∃ q, P.pushData p data length = .ok q ∧ Shows q (c.push (data.take length))
  writeWord : ∀ {p c width val position}, Shows p c → position + width ≤ kMaxPacketSize →
    ∃ q, P.writeWord p width val position = .ok q ∧ Shows q (c.write position (leBytes width val))
  pack : ∀ {p c}, Shows p c → c.header = none → ∃ q, P.pack p = .ok q ∧ Shows q (c.exec .pack)

variable {P : Primitives}

/-- Faithful primitives push strings faithfully. -/
theorem Faithful.pushString (hP : P.Faithful) {p : Packer} {c : Content} (h : Shows p c)
    {val : List UInt8} (hroom : c.Room (Content.stringBytes val).length) :
    ∃ q, P.pushString p val = .ok q ∧ Shows q (c.push (Content.stringBytes val)) := by
  obtain ⟨hroom₁, hroom₂⟩ := hroom.string
  obtain ⟨q, k, hq, hshows⟩ := hP.pushVariableUint32 h hroom₁
  obtain ⟨r, hr, hshows⟩ := hP.pushData hshows
    (show u32 val.length ≤ val.length from Nat.mod_le _ _) hroom₂
  rw [Content.push_string] at hshows
  exact ⟨r, Checked.bind_ok.mpr ⟨_, hq, hr⟩, hshows⟩

/-- **One call.** -/
theorem Faithful.exec (hP : P.Faithful) {p : Packer} {c : Content} (h : Shows p c)
    {call : PackerCall} (hallows : c.Allows call) :
    ∃ q, P.exec p call = .ok q ∧ Shows q (c.exec call) := by
  cases call with
  | pushBoolean val => exact hP.pushWord h hallows
  | pushUint8 val => exact hP.pushWord h hallows
  | pushUint16 val => exact hP.pushWord h hallows
  | pushUint32 val => exact hP.pushWord h hallows
  | pushUint64 val => exact hP.pushWord h hallows
  | pushDouble val => exact hP.pushWord h hallows
  -- the width depends on the value
  | pushVariableUint32 value =>
    have hroom : c.Room (Packer.encVar value.toNat).length := by
      rw [Packer.encVar_length]
      exact hallows
    obtain ⟨q, k, hq, hshows⟩ := hP.pushVariableUint32 h hroom
    exact ⟨q, Checked.bind_ok.mpr ⟨_, hq, rfl⟩, hshows⟩
  | pushString val => exact hP.pushString h hallows
  | pushBuffer val => exact hP.pushString h hallows
  | pushBinary data =>
    have hdata := hP.pushData h (Nat.le_refl data.length) hallows
    rw [List.take_length] at hdata
    exact hdata
  | writeUint16 val position => exact hP.writeWord h hallows
  | writeUint32 val position => exact hP.writeWord h hallows
  | pack => exact hP.pack h hallows
  | reset => exact ⟨_, rfl, reset_shows h⟩

/-- **A whole run.** -/
theorem Faithful.run (hP : P.Faithful) {calls : List PackerCall} {p : Packer} {c : Content}
    (h : Shows p c) (hvalid : c.Valid calls) :
    ∃ q, calls.foldlM P.exec p = .ok q ∧ Shows q (calls.foldl Content.exec c) := by
  induction calls generalizing p c with
  | nil => exact ⟨p, rfl, h⟩
  | cons call calls ih =>
    obtain ⟨hallows, hvalid⟩ := hvalid
    obtain ⟨q, hq, hshows⟩ := hP.exec h hallows
    obtain ⟨r, hr, hshows⟩ := ih hshows hvalid
    exact ⟨r, Checked.bind_ok.mpr ⟨q, hq, hr⟩, hshows⟩

end Primitives

/-! ## The first packer -/

namespace Packer

/-- A number is pushed where there is room. -/
theorem pushWord_shows {p : Packer} {c : Content} {width val : Nat} (h : Shows p c)
    (hroom : c.Room width) :
    ∃ q, p.pushWord width val = .ok q ∧ Shows q (c.push (leBytes width val)) := by
  have hlt := h.position_lt hroom
  obtain ⟨m, hm, hgrown, hfit⟩ := checkSize_grown h.capacity_lt
    (show p.position + width < 2 ^ 32 by omega)
  obtain ⟨m', hstore, hshows⟩ := h.pushWord hroom hgrown hfit
  rw [pushWord, hm, Checked.ok_bind]
  exact ⟨_, Checked.bind_ok.mpr ⟨m', hstore, rfl⟩, hshows⟩

/-- A variable integer is pushed where there is room. -/
theorem pushVariableUint32_shows {p : Packer} {c : Content} {value : Nat} (h : Shows p c)
    (hroom : c.Room (encVar value).length) :
    ∃ q k, p.pushVariableUint32 value = .ok (q, k) ∧ Shows q (c.push (encVar value)) := by
  have hlen := encVar_length value
  have hlt := h.position_lt hroom
  obtain ⟨m, hm, hgrown, hfit⟩ := checkSize_grown h.capacity_lt
    (show p.position + 3 < 2 ^ 32 by omega)
  have hfit' : p.position + (encVar value).length ≤ m.capacity := by
    rcases variableUint32Length_cases value with ⟨-, heq⟩ | ⟨-, heq⟩ <;> omega
  obtain ⟨m', hstore, hshows⟩ := h.push hroom hgrown hfit'
  rw [pushVariableUint32_eq hm]
  exact ⟨_, _, Checked.bind_ok.mpr ⟨m', hstore, rfl⟩, hshows⟩

/-- Data is pushed where there is room. -/
theorem pushData_shows {p : Packer} {c : Content} {data : List UInt8} {length : Nat}
    (h : Shows p c) (hlen : length ≤ data.length) (hroom : c.Room length) :
    ∃ q, p.pushData data length = .ok q ∧ Shows q (c.push (data.take length)) := by
  have hlt := h.position_lt hroom
  obtain ⟨m, hm, hgrown, hfit⟩ := checkSize_grown h.capacity_lt
    (show p.position + length < 2 ^ 32 by omega)
  rw [pushData, u32_of_lt (by omega), hm, Checked.ok_bind]
  exact h.pushData hlen hroom hgrown hfit

/-- A number is written in place. -/
theorem writeWord_shows {p : Packer} {c : Content} {width val position : Nat} (h : Shows p c)
    (hpos : position + width ≤ kMaxPacketSize) :
    ∃ q, p.writeWord width val position = .ok q ∧ Shows q (c.write position (leBytes width val)) := by
  rw [kMaxPacketSize] at hpos
  obtain ⟨m, hm, hgrown, hfit⟩ := checkSize_grown h.capacity_lt
    (show position + width < 2 ^ 32 by omega)
  rw [← leBytes_length width val] at hfit
  obtain ⟨m', hstore, hshows⟩ := h.write hgrown hfit
  rw [writeWord, hm, Checked.ok_bind]
  exact ⟨_, Checked.bind_ok.mpr ⟨m', hstore, rfl⟩, hshows⟩

/-- A body that was not packed can be packed. -/
theorem pack_shows {p : Packer} {c : Content} (h : Shows p c) (hopen : c.header = none) :
    ∃ q, p.pack = .ok q ∧ Shows q (c.exec .pack) := by
  have hpos := h.opened hopen
  have hmax : p.position < kMaxPacketSize := hpos ▸ h.body_lt
  have hlen := encVar_length (frameLength c.body.length)
  -- the header is written by a push at `start`
  have hheader : ∀ start, start + (encVar (frameLength c.body.length)).length = 4 → ∃ q k,
      (⟨p.mem, frameLength c.body.length, start⟩ : Packer).pushVariableUint32
        (frameLength c.body.length) = .ok (q, k) ∧ Shows { q with position := start } (c.exec .pack) := by
    intro start hstart
    have hcap : (⟨p.mem, frameLength c.body.length, start⟩ : Packer).mem.capacity < 2 ^ 32 :=
      h.capacity_lt
    obtain ⟨m, hm, hgrown, -⟩ := checkSize_grown hcap (show start + 3 < 2 ^ 32 by omega)
    obtain ⟨m', hstore, hshows⟩ := h.pack hgrown hstart
    rw [pushVariableUint32_eq hm]
    exact ⟨_, _, Checked.bind_ok.mpr ⟨m', hstore, rfl⟩, hshows⟩
  rw [pack, if_pos hmax]
  rcases frameLength_cases hpos with ⟨hbig, hlength, hlong⟩ | ⟨hsmall, hlength, hshort⟩
  · rw [variableUint32Length, if_neg hlong] at hlen
    obtain ⟨q, k, hq, hshows⟩ := hheader 1 (by omega)
    rw [if_pos hbig, hlength]
    exact ⟨_, Checked.bind_ok.mpr ⟨_, hq, rfl⟩, hshows⟩
  · rw [variableUint32Length, if_pos hshort] at hlen
    obtain ⟨q, k, hq, hshows⟩ := hheader 2 (by omega)
    rw [if_neg hsmall, hlength]
    exact ⟨_, Checked.bind_ok.mpr ⟨_, hq, rfl⟩, hshows⟩

/-- The primitives of the packer do what they should. -/
theorem faithful : Primitives.packer.Faithful where
  pushWord := pushWord_shows
  pushVariableUint32 := pushVariableUint32_shows
  pushData := pushData_shows
  writeWord := writeWord_shows
  pack := pack_shows

/-- A run of allowed calls. -/
theorem run_shows {calls : List PackerCall} {p : Packer} {c : Content} (h : Shows p c)
    (hvalid : c.Valid calls) : ∃ q, p.run calls = .ok q ∧ Shows q (calls.foldl Content.exec c) := by
  have hrun := faithful.run h hvalid
  rwa [funext fun p => funext (Primitives.exec_packer p)] at hrun

end Packer

/-! ## The second packer -/

namespace VectorPacker

/-- A number is pushed where there is room. -/
theorem pushWord_shows {p : Packer} {c : Content} {width val : Nat} (h : Shows p c)
    (hroom : c.Room width) :
    ∃ q, pushWord p width val = .ok q ∧ Shows q (c.push (leBytes width val)) := by
  have hlt := h.position_lt hroom
  obtain ⟨m, hm, hgrown, hfit⟩ := checkSize_grown h.capacity_lt
    (show p.position + width < 2 ^ 32 by omega)
  obtain ⟨m', hstore, hshows⟩ := h.pushWord hroom hgrown hfit
  rw [pushWord, hm]
  exact ⟨_, Checked.bind_ok.mpr ⟨m', hstore, rfl⟩, hshows⟩

/-- In one block or another, `pushVariableUint32` is one copy of `encVar`. -/
theorem pushVariableUint32_eq {p : Packer} (hcap : p.mem.capacity < 2 ^ 32)
    (hlt : p.position + 3 < 2 ^ 32) (value : Nat) :
    ∃ m, Grown p.mem m ∧ p.position + (Packer.encVar value).length ≤ m.capacity ∧
      pushVariableUint32 p value = m.store p.position (Packer.encVar value) >>= fun m' =>
        pure ({ p with mem := m', position := u32 (p.position + (Packer.encVar value).length) },
          Packer.variableUint32Length value) := by
  have hlen := Packer.encVar_length value
  obtain ⟨m, hm, hgrown, hfit⟩ := checkSize_grown hcap (show p.position + 2 < 2 ^ 32 by omega)
  rw [pushVariableUint32, hm]
  rcases variableUint32Length_cases value with ⟨hshort, heq⟩ | ⟨hlong, heq⟩
  · refine ⟨m, hgrown, by omega, ?_⟩
    rw [if_pos hshort, hlen, heq, Packer.encVar_short hshort]
  · -- the second check asks for the third byte
    obtain ⟨m₂, hm₂, hgrown₂, hfit₂⟩ := checkSize_grown
      (show (⟨m, p.length, p.position⟩ : Packer).mem.capacity < 2 ^ 32 from hgrown.capacity_lt) hlt
    refine ⟨m₂, hgrown.trans hgrown₂, by omega, ?_⟩
    rw [if_neg hlong, hlen, heq, Packer.encVar_long hlong, MemBuf.store_append, leBytes_length,
      bind_assoc]
    dsimp only
    rw [hm₂]

/-- A variable integer is pushed where there is room. -/
theorem pushVariableUint32_shows {p : Packer} {c : Content} {value : Nat} (h : Shows p c)
    (hroom : c.Room (Packer.encVar value).length) :
    ∃ q k, pushVariableUint32 p value = .ok (q, k) ∧ Shows q (c.push (Packer.encVar value)) := by
  have hlt := h.position_lt hroom
  obtain ⟨m, hgrown, hfit, heq⟩ := pushVariableUint32_eq h.capacity_lt
    (show p.position + 3 < 2 ^ 32 by omega) value
  obtain ⟨m', hstore, hshows⟩ := h.push hroom hgrown hfit
  rw [heq]
  exact ⟨_, _, Checked.bind_ok.mpr ⟨m', hstore, rfl⟩, hshows⟩

/-- Data is pushed where there is room. -/
theorem pushData_shows {p : Packer} {c : Content} {data : List UInt8} {length : Nat}
    (h : Shows p c) (hlen : length ≤ data.length) (hroom : c.Room length) :
    ∃ q, pushData p data length = .ok q ∧ Shows q (c.push (data.take length)) := by
  have hlt := h.position_lt hroom
  obtain ⟨m, hm, hgrown, hfit⟩ := checkSize_grown h.capacity_lt
    (show p.position + length < 2 ^ 32 by omega)
  rw [pushData, u32_of_lt (by omega), hm]
  exact h.pushData hlen hroom hgrown hfit

/-- A number is written in place. -/
theorem writeWord_shows {p : Packer} {c : Content} {width val position : Nat} (h : Shows p c)
    (hpos : position + width ≤ kMaxPacketSize) :
    ∃ q, writeWord p width val position = .ok q ∧ Shows q (c.write position (leBytes width val)) := by
  rw [kMaxPacketSize] at hpos
  obtain ⟨m, hm, hgrown, hfit⟩ := checkSize_grown h.capacity_lt
    (show position + width < 2 ^ 32 by omega)
  rw [← leBytes_length width val] at hfit
  obtain ⟨m', hstore, hshows⟩ := h.write hgrown hfit
  rw [writeWord, hm]
  exact ⟨_, Checked.bind_ok.mpr ⟨m', hstore, rfl⟩, hshows⟩

/-- A body that was not packed can be packed. -/
theorem pack_shows {p : Packer} {c : Content} (h : Shows p c) (hopen : c.header = none) :
    ∃ q, pack p = .ok q ∧ Shows q (c.exec .pack) := by
  have hpos := h.opened hopen
  have hmax : p.position < kMaxPacketSize := hpos ▸ h.body_lt
  have hlen := Packer.encVar_length (Packer.frameLength c.body.length)
  rw [pack, if_pos hmax]
  -- the header of a long body takes three bytes and begins at 1, that of a short one begins at 2
  rcases frameLength_cases hpos with ⟨hbig, hlength, hlong⟩ | ⟨hsmall, hlength, hshort⟩
  · have hthree : Packer.variableUint32Length (Packer.frameLength c.body.length) = 3 := if_neg hlong
    have hstart : 1 + (Packer.encVar (Packer.frameLength c.body.length)).length = 4 := by omega
    obtain ⟨m, hgrown, -, heq⟩ := pushVariableUint32_eq
      (show (⟨p.mem, Packer.frameLength c.body.length, 1⟩ : Packer).mem.capacity < 2 ^ 32 from
        h.capacity_lt) (show 1 + 3 < 2 ^ 32 by decide) (Packer.frameLength c.body.length)
    obtain ⟨m', hstore, hshows⟩ := h.pack hgrown hstart
    rw [if_pos hbig, hlength]
    dsimp only
    rw [heq, hthree]
    exact ⟨_, Checked.bind_ok.mpr ⟨_, Checked.bind_ok.mpr ⟨m', hstore, rfl⟩, rfl⟩, hshows⟩
  · have htwo : Packer.variableUint32Length (Packer.frameLength c.body.length) = 2 := if_pos hshort
    have hstart : 2 + (Packer.encVar (Packer.frameLength c.body.length)).length = 4 := by omega
    obtain ⟨m', hstore, hshows⟩ := h.pack ⟨Nat.le_refl _, h.capacity_lt, fun _ _ => rfl⟩ hstart
    rw [Packer.encVar_short hshort] at hstore
    have hword : u16 (Packer.frameLength c.body.length) = Packer.frameLength c.body.length :=
      u16_of_lt (by omega)
    rw [if_neg hsmall, hlength]
    dsimp only
    rw [hword]
    exact ⟨_, Checked.bind_ok.mpr ⟨m', hstore, rfl⟩, hshows⟩

/-- The primitives of the vector packer do what they should. -/
theorem faithful : Primitives.vectorPacker.Faithful where
  pushWord := pushWord_shows
  pushVariableUint32 := pushVariableUint32_shows
  pushData := pushData_shows
  writeWord := writeWord_shows
  pack := pack_shows

/-- A run of allowed calls. -/
theorem run_shows {calls : List PackerCall} {p : Packer} {c : Content} (h : Shows p c)
    (hvalid : c.Valid calls) : ∃ q, run p calls = .ok q ∧ Shows q (calls.foldl Content.exec c) := by
  have hrun := faithful.run h hvalid
  rwa [funext fun p => funext (Primitives.exec_vectorPacker p)] at hrun

end VectorPacker

/-! ## Runs -/

/-- A new packer shows nothing. -/
theorem Packer.new_shows (buffer_sz : UInt32) : Shows (Packer.new buffer_sz) .empty := by
  have hnew := Packer.holds_new buffer_sz
  refine ⟨hnew.capacity_lt, hnew.position_le, ?_, segment_nil _ _, segment_nil _ _, fun _ => rfl,
    fun bs hno => ?_⟩
  · decide
  · cases hno

/-- A new vector packer shows nothing. -/
theorem VectorPacker.new_shows : Shows VectorPacker.new .empty := by
  refine ⟨by decide, by decide, by decide, segment_nil _ _, segment_nil _ _, fun _ => rfl,
    fun bs hno => ?_⟩
  cases hno

/-- Where the frame of a packed packer lies: its header ends at offset 4, where the body begins. -/
theorem Shows.frame {p : Packer} {c : Content} {header : List UInt8} (h : Shows p c)
    (hpacked : c.header = some header) :
    Segment p.mem.cells p.position (header ++ c.body) ∧ p.position + header.length = 4 ∧
      p.length = (header ++ c.body).length ∧ header.length = Packer.variableUint32Length p.length := by
  obtain ⟨hpos, hlength, hlen⟩ := h.packed header hpacked
  have hstart : c.start = 4 - header.length := by
    rw [Content.start, hpacked]
    rfl
  have hheader := h.header
  rw [hpacked, ← hpos] at hheader
  -- header and body meet at position 4
  have hend : p.position + header.length = 4 := by
    rcases variableUint32Length_cases p.length with ⟨-, heq⟩ | ⟨-, heq⟩
    · omega
    · omega
  refine ⟨segment_append.mpr ⟨hheader, ?_⟩, hend, ?_, hlen⟩
  · rw [hend]
    exact h.body
  · rw [List.length_append]
    exact hlength

/-- Everything that can be read from a packed packer is determined by its content. -/
theorem Shows.view {p : Packer} {c : Content} {header : List UInt8} (h : Shows p c)
    (hpacked : c.header = some header) :
    p.view = .ok (Content.view header c.body) ∧
      VectorPacker.view p = .ok (Content.view header c.body) := by
  obtain ⟨hseg, hend, hlength, hlen⟩ := h.frame hpacked
  have hle := h.body_le
  have hlt := h.body_lt
  rw [kMaxPacketSize] at hlt
  have hcases := variableUint32Length_cases p.length
  have hfit : p.position + (header ++ c.body).length ≤ p.mem.capacity := by
    rw [List.length_append]
    omega
  have hframe : p.mem.load p.position p.length = .ok (header ++ c.body) := by
    rw [hlength]
    exact MemBuf.load_of_segment hfit hseg
  rw [List.length_append] at hlength
  have hload : p.mem.load 4 c.body.length = .ok c.body := MemBuf.load_of_segment hle h.body
  -- all accessors find the length of the body in their own way
  have hbodySize : p.bodySize = c.body.length := by
    rw [Packer.bodySize]
    split
    · rw [u32Sub_of_le (by omega)]
      omega
    · rw [u32Sub_of_le (by omega)]
      omega
  have hbody : p.body = .ok c.body := by
    rw [Packer.body, ← apply_ite (p.mem.load 4), ← Packer.bodySize, hbodySize, hload]
  have hbody2 : p.body2 = .ok c.body := by
    rw [Packer.body2]
    rcases hcases with ⟨hshort, heq⟩ | ⟨hlong, heq⟩
    · rw [if_neg (by omega), if_pos (by omega), show p.length - 2 = c.body.length from by omega, hload]
    · rw [if_pos (by omega), show p.length - 3 = c.body.length from by omega, hload]
  have hdata2 : VectorPacker.data2 p = .ok (header ++ c.body) := by
    rw [VectorPacker.data2, if_pos (by omega), hframe]
  constructor
  · rw [Packer.view, Packer.buffer, Packer.data, Packer.data2, hframe, hbody, hbody2, hbodySize, hlength]
    rfl
  · rw [VectorPacker.view, VectorPacker.buffer, VectorPacker.data, hdata2, VectorPacker.body,
      VectorPacker.body2, VectorPacker.bodySize, hframe, hbody, hbody2, hbodySize, hlength]
    rfl

end Turnserver
