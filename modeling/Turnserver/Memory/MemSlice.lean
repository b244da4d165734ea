/-
  SLICES (`memory/mem_slice.h`, `memory/mem_slice.cpp`) — a window of a shared memory block.

  * `Block` is a `MemBuf` that slices hold: where `malloc` put it, and its bytes.  Its capacity is a
    `uint32_t`.
  * `MemSlice` is the window `[begin_offset, end_offset)` of a block, or of nothing.

  The constructor caps the window at its argument `size`, which is 65536 if none is given, while
  `Initialize` (and with it `Reset`) takes the whole block.  All offsets are `uint32_t`, and what the
  code computes with them wraps around.

  `window_invariant`: whatever is done with any number of slices, every window stays inside its block.
  An operation clamps the offset that it moves between the other offset and the end of the block, or
  compares it with the other offset after the wrap-around (`UpdateBegin`).
-/
import Turnserver.Lib.Transition
import Turnserver.Memory.MemBuf

namespace Turnserver

open Transition

/-! ## Blocks -/

/-- A `MemBuf` on the heap. -/
structure Block where
  addr : Nat
  mem : MemBuf
  capacity_lt : mem.capacity < UInt32.size

namespace Block

/-- `Capacity()` -/
def capacity (b : Block) : UInt32 := .ofNat b.mem.capacity

/-- The capacity of a block fits 32 bits. -/
theorem capacity_toNat (b : Block) : b.capacity.toNat = b.mem.capacity :=
  UInt32.toNat_ofNat_of_lt' b.capacity_lt

/-- `MemBuf::Create(capacity)`, where `malloc` returns `addr`. -/
def create (addr : Nat) (capacity : UInt32) : Block :=
  ⟨addr, MemBuf.create capacity.toNat, capacity.toNat_lt⟩

/-- `MemBuf::Create(buf, capacity)` -/
def createCopy (addr : Nat) (buf : Nat → Option UInt8) (capacity : UInt32) : Block :=
  ⟨addr, MemBuf.createCopy buf capacity.toNat, capacity.toNat_lt⟩

/-- `MemBuf::Clone` -/
def clone (addr : Nat) (b : Block) : Block := ⟨addr, b.mem.clone, b.capacity_lt⟩

/-- `memcpy(Begin() + pos, src, n)` -/
def copyIn (b : Block) (pos n : Nat) (src : Nat → Option UInt8) : Checked Block :=
  if pos + n ≤ b.mem.capacity then
    .ok { b with
      mem := { b.mem with
        cells := fun i => if pos ≤ i ∧ i < pos + n then src (i - pos) else b.mem.cells i } }
  else .error .outOfBounds

/-- A copy has the capacity that was asked for. -/
theorem createCopy_capacity (addr : Nat) (buf : Nat → Option UInt8) (capacity : UInt32) :
    (createCopy addr buf capacity).capacity = capacity :=
  UInt32.ofNat_toNat

/-- A new block has the capacity that was asked for. -/
theorem create_capacity (addr : Nat) (capacity : UInt32) :
    (create addr capacity).capacity = capacity :=
  UInt32.ofNat_toNat

/-- Copying bytes in keeps the capacity. -/
theorem copyIn_capacity {b b' : Block} {pos n : Nat} {src : Nat → Option UInt8}
    (h : b.copyIn pos n src = .ok b') : b'.capacity = b.capacity := by
  rw [copyIn] at h
  split at h
  · cases h
    rfl
  · cases h

end Block

/-! ## Slices -/

/-- The members of `MemSlice`. -/
structure MemSlice where
  buffer : Option Block
  begin_offset : UInt32
  end_offset : UInt32

namespace MemSlice

/-- The argument `size` of the constructor, when none is given. -/
def kDefaultWindow : UInt32 := 65536

/-- `Initialize`, and `Reset`. -/
def reset (buffer : Option Block) : MemSlice :=
  match buffer with
  | some b => ⟨some b, 0, b.capacity⟩
  | none => ⟨none, 0, 0⟩

/-- The constructor: the window is cut to the capacity of the buffer. -/
def new (buffer : Option Block) (size : UInt32) : MemSlice :=
  match buffer with
  | some b => { reset (some b) with
      end_offset := if b.capacity < size then b.capacity else size }
  | none => reset none

/-- `MemSlice()` -/
def empty : MemSlice := new none kDefaultWindow

/-- `GetUsedSize` -/
def getUsedSize (s : MemSlice) : UInt32 := s.end_offset - s.begin_offset

/-- A clone of the whole block, with the same window. -/
def clone (addr : Nat) (s : MemSlice) : Checked MemSlice :=
  match s.buffer with
  | none => .error .nullPointer
  | some b =>
    .ok { new (some (b.clone addr)) kDefaultWindow with
      begin_offset := s.begin_offset
      end_offset := s.end_offset }

/-- The `n` bytes at `Begin()`; no bytes are read through a null pointer. -/
def read (s : MemSlice) (n : Nat) : Checked (Nat → Option UInt8) :=
  match s.buffer with
  | none => if n = 0 then .ok fun _ => none else .error .nullPointer
  | some b =>
    if s.begin_offset.toNat + n ≤ b.mem.capacity then
      .ok fun i => b.mem.cells (s.begin_offset.toNat + i)
    else .error .outOfBounds

/-- The bytes from `Begin()` to `End()`, as two pointers. -/
def range (s : MemSlice) : Checked (List (Option UInt8)) := do
  if s.begin_offset ≤ s.end_offset then
    let n := s.end_offset.toNat - s.begin_offset.toNat
    let src ← s.read n
    pure ((List.range n).map src)
  else .error .outOfBounds

/-- A clone uses as many bytes as the slice. -/
theorem clone_getUsedSize {addr : Nat} {s s' : MemSlice} (h : s.clone addr = .ok s') :
    s'.getUsedSize = s.getUsedSize := by
  rw [clone] at h
  split at h
  · cases h
  · cases h
    rfl

/-- The window is as long as its bytes. -/
theorem range_length {s : MemSlice} {bytes : List (Option UInt8)} (h : s.range = .ok bytes) :
    bytes.length = s.getUsedSize.toNat := by
  rw [range] at h
  split at h
  · next hle =>
    obtain ⟨src, -, hbytes⟩ := Checked.bind_ok.mp h
    rw [← (Checked.pure_ok _ _).mp hbytes, List.length_map, List.length_range, getUsedSize,
      UInt32.toNat_sub_of_le _ _ hle]
  · cases h

/-- The window of a new slice of a block ends at 65536 at the latest. -/
theorem new_getUsedSize (b : Block) :
    (new (some b) kDefaultWindow).getUsedSize.toNat = min 65536 b.mem.capacity := by
  show ((if b.capacity < kDefaultWindow then b.capacity else kDefaultWindow) - 0).toNat = _
  rw [UInt32.sub_zero, ← b.capacity_toNat]
  split
  · next hlt =>
    have : b.capacity.toNat < 65536 := UInt32.lt_iff_toNat_lt.mp hlt
    omega
  · next hle =>
    have : ¬b.capacity.toNat < 65536 := fun hlt => hle (UInt32.lt_iff_toNat_lt.mpr hlt)
    rw [Nat.min_eq_left (by omega)]
    rfl

end MemSlice

/-! ## Moving the window -/

namespace MemSlice

/-- `Begin()`, and `End()`, of a slice of nothing go through a null pointer. -/
def deref (s : MemSlice) : Checked MemSlice :=
  match s.buffer with
  | none => .error .nullPointer
  | some _ => .ok s

/-- `SetBeginPointer` -/
def setBeginPointer (position : UInt32) (s : MemSlice) : Checked MemSlice :=
  let position := if position > s.end_offset then s.end_offset else position
  deref { s with begin_offset := position }

/-- `SetEndPointer` -/
def setEndPointer (position : UInt32) (s : MemSlice) : Checked MemSlice :=
  let position := if position < s.begin_offset then s.begin_offset else position
  match s.buffer with
  | none => .error .nullPointer
  | some b =>
    let position := if position > b.capacity then b.capacity else position
    .ok { s with end_offset := position }

/-- The sum is taken as an `int32_t`. -/
def adjustBeginPointer (offset : Int32) (s : MemSlice) : Checked MemSlice :=
  s.setBeginPointer (s.begin_offset.toInt32 + offset).toUInt32

/-- `AdjustEndPointer` -/
def adjustEndPointer (offset : Int32) (s : MemSlice) : Checked MemSlice :=
  s.setEndPointer (s.end_offset.toInt32 + offset).toUInt32

/-- `UpdateBegin` -/
def updateBegin (off_set : UInt32) (s : MemSlice) : MemSlice × Bool :=
  if s.begin_offset + off_set > s.end_offset then (s, false)
  else ({ s with begin_offset := s.begin_offset + off_set }, true)

end MemSlice

/-- Any number of slice variables.  A variable that is constructed anew loses its former slice. -/
abbrev Slices := Nat → MemSlice

/-- A step of a run: a constructor, an operator, or a method of the variable `x`. -/
inductive SliceOp
  | new (x : Nat) (buffer : Option Block) (size : UInt32)
  | copy (x y : Nat)
  | move (x y : Nat)
  | assign (x y : Nat)
  | moveAssign (x y : Nat)
  | assignBuffer (x : Nat) (buf : Option Block)
  | reset (x : Nat) (buf : Option Block)
  | setBeginPointer (x : Nat) (position : UInt32)
  | setEndPointer (x : Nat) (position : UInt32)
  | adjustBeginPointer (x : Nat) (offset : Int32)
  | adjustEndPointer (x : Nat) (offset : Int32)
  | updateBegin (x : Nat) (off_set : UInt32)
  | clone (x y : Nat) (addr : Nat)

namespace Slices

open MemSlice

/-- The slices with another one under `x`. -/
def set (x : Nat) (s : MemSlice) (σ : Slices) : Slices := fun z => if z = x then s else σ z

/-- What an operation does to the slices. -/
def exec : SliceOp → Slices → Checked Slices
  | .new x buffer size, σ => pure (σ.set x (.new buffer size))
  | .copy x y, σ => pure (σ.set x (σ y))
  | .move x y, σ => pure ((σ.set y ⟨none, 0, 0⟩).set x (σ y))
  | .assign x y, σ => pure (if x = y then σ else σ.set x (σ y))
  -- three swaps
  | .moveAssign x y, σ => pure ((σ.set y (σ x)).set x (σ y))
  | .assignBuffer x buf, σ => pure (σ.set x (.reset buf))
  | .reset x buf, σ => pure (σ.set x (.reset buf))
  | .setBeginPointer x position, σ => do pure (σ.set x (← (σ x).setBeginPointer position))
  | .setEndPointer x position, σ => do pure (σ.set x (← (σ x).setEndPointer position))
  | .adjustBeginPointer x offset, σ => do pure (σ.set x (← (σ x).adjustBeginPointer offset))
  | .adjustEndPointer x offset, σ => do pure (σ.set x (← (σ x).adjustEndPointer offset))
  | .updateBegin x off_set, σ => pure (σ.set x ((σ x).updateBegin off_set).1)
  | .clone x y addr, σ => do pure (σ.set x (← (σ y).clone addr))

/-- A step that faults leads nowhere. -/
def Step (σ : Slices) (op : SliceOp) (σ' : Slices) : Prop := exec op σ = .ok σ'

/-- No variable holds anything. -/
def initial : Slices := fun _ => .empty

end Slices

/-! ## The window stays inside -/

namespace MemSlice

/-- The end of what a slice may denote: the end of its block, or nothing. -/
def limit (s : MemSlice) : UInt32 :=
  match s.buffer with
  | none => 0
  | some b => b.capacity

/-- The window is ordered and lies in the buffer. -/
structure Window (s : MemSlice) : Prop where
  begin_le : s.begin_offset ≤ s.end_offset
  end_le : s.end_offset ≤ s.limit

theorem window_reset (buffer : Option Block) : Window (reset buffer) := by
  cases buffer with
  | none => exact ⟨UInt32.le_refl _, UInt32.le_refl _⟩
  | some b => exact ⟨UInt32.zero_le, UInt32.le_refl _⟩

/-- A new slice has a window, even of more bytes than its buffer has. -/
theorem window_new (buffer : Option Block) (size : UInt32) : Window (new buffer size) := by
  cases buffer with
  | none => exact window_reset none
  | some b =>
    refine ⟨UInt32.zero_le, ?_⟩
    show (if b.capacity < size then b.capacity else size) ≤ b.capacity
    split
    · exact UInt32.le_refl _
    · next hle => exact UInt32.not_lt.mp hle

/-- Looking at the buffer changes nothing. -/
theorem deref_ok {s s' : MemSlice} (h : s.deref = .ok s') : s' = s := by
  rw [deref] at h
  split at h
  · cases h
  · cases h
    rfl

theorem Window.setBeginPointer {s s' : MemSlice} {position : UInt32} (hw : Window s)
    (h : s.setBeginPointer position = .ok s') : Window s' := by
  rw [deref_ok h]
  refine ⟨?_, hw.end_le⟩
  show (if position > s.end_offset then s.end_offset else position) ≤ s.end_offset
  split
  · exact UInt32.le_refl _
  · next hle => exact UInt32.not_lt.mp hle

theorem Window.setEndPointer {s s' : MemSlice} {position : UInt32} (hw : Window s)
    (h : s.setEndPointer position = .ok s') : Window s' := by
  have hend := hw.end_le
  -- first the offset is raised to the begin
  have hraise : s.begin_offset ≤ if position < s.begin_offset then s.begin_offset else position := by
    split
    · exact UInt32.le_refl _
    · next hle => exact UInt32.not_lt.mp hle
  rw [MemSlice.setEndPointer] at h
  rw [limit] at hend
  generalize (if position < s.begin_offset then s.begin_offset else position) = raised at h hraise
  cases hbuf : s.buffer with
  | none =>
    rw [hbuf] at h
    cases h
  | some b =>
    rw [hbuf] at h hend
    have hbegin : s.begin_offset ≤ b.capacity := UInt32.le_trans hw.begin_le hend
    cases h
    -- then it is lowered to the capacity
    refine ⟨?_, ?_⟩
    · show s.begin_offset ≤ if raised > b.capacity then b.capacity else raised
      split
      · exact hbegin
      · exact hraise
    · show (if raised > b.capacity then b.capacity else raised) ≤ b.capacity
      split
      · exact UInt32.le_refl _
      · next hle => exact UInt32.not_lt.mp hle

/-- The sum that is compared with the end is the one that becomes the begin, wrapped or not. -/
theorem Window.updateBegin {s : MemSlice} (hw : Window s) (off_set : UInt32) :
    Window (s.updateBegin off_set).1 := by
  rw [MemSlice.updateBegin]
  split
  · exact hw
  · next hle => exact ⟨UInt32.not_lt.mp hle, hw.end_le⟩

theorem Window.clone {s s' : MemSlice} {addr : Nat} (hw : Window s) (h : s.clone addr = .ok s') :
    Window s' := by
  have hend := hw.end_le
  rw [MemSlice.clone] at h
  rw [limit] at hend
  split at h
  · cases h
  · next b hbuf =>
    rw [hbuf] at hend
    cases h
    exact ⟨hw.begin_le, hend⟩

/-- In a window nothing wraps around: the size is the difference of its ends. -/
theorem Window.getUsedSize {s : MemSlice} (hw : Window s) :
    s.getUsedSize.toNat = s.end_offset.toNat - s.begin_offset.toNat :=
  UInt32.toNat_sub_of_le _ _ hw.begin_le

end MemSlice

namespace Slices

open MemSlice

theorem window_set {σ : Slices} {s : MemSlice} (hσ : ∀ x, Window (σ x)) (hs : Window s) (x : Nat) :
    ∀ z, Window (σ.set x s z) := by
  intro z
  rw [set]
  split
  · exact hs
  · exact hσ z

/-- **The step lemma.** -/
theorem window_step {σ σ' : Slices} {op : SliceOp} (hσ : ∀ x, Window (σ x)) (h : Step σ op σ') :
    ∀ x, Window (σ' x) := by
  -- only the pointer moves and the clone can fail; the other operations give a state at once
  cases op with
  | new x buffer size =>
    cases h
    exact window_set hσ (window_new buffer size) x
  | copy x y =>
    cases h
    exact window_set hσ (hσ y) x
  | move x y =>
    cases h
    exact window_set (window_set hσ (window_reset none) y) (hσ y) x
  | assign x y =>
    cases h
    -- an assignment to itself is skipped
    split
    · exact hσ
    · exact window_set hσ (hσ y) x
  | moveAssign x y =>
    cases h
    exact window_set (window_set hσ (hσ x) y) (hσ y) x
  | assignBuffer x buf =>
    cases h
    exact window_set hσ (window_reset buf) x
  | reset x buf =>
    cases h
    exact window_set hσ (window_reset buf) x
  | setBeginPointer x position =>
    obtain ⟨s, hs, hpure⟩ := Checked.bind_ok.mp h
    cases hpure
    exact window_set hσ ((hσ x).setBeginPointer hs) x
  | setEndPointer x position =>
    obtain ⟨s, hs, hpure⟩ := Checked.bind_ok.mp h
    cases hpure
    exact window_set hσ ((hσ x).setEndPointer hs) x
  | adjustBeginPointer x offset =>
    obtain ⟨s, hs, hpure⟩ := Checked.bind_ok.mp h
    cases hpure
    exact window_set hσ ((hσ x).setBeginPointer hs) x
  | adjustEndPointer x offset =>
    obtain ⟨s, hs, hpure⟩ := Checked.bind_ok.mp h
    cases hpure
    exact window_set hσ ((hσ x).setEndPointer hs) x
  | updateBegin x off_set =>
    cases h
    exact window_set hσ ((hσ x).updateBegin off_set) x
  | clone x y addr =>
    obtain ⟨s, hs, hpure⟩ := Checked.bind_ok.mp h
    cases hpure
    exact window_set hσ ((hσ y).clone hs) x

end Slices

end Turnserver
