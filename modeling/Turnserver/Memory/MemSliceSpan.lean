/-
  SPANS (`memory/mem_slice_span.h`, `memory/mem_slice_span.cpp`) — up to four slices, one after the
  other, with their total size beside them.

  `size_` is a cached sum.  Every constructor and every operator computes it in its own way: from
  the capacity of a block, from a length, from `GetUsedSize()` of a slice — whose own constructor
  caps the window at 65536.

  * A run works on any number of span variables (`Spans`); an `Op` is a constructor or an operator.
  * With `ndebug` the asserts are compiled out.
  * `Counted` is the invariant: at most four blocks, and the cached sum is the sum (modulo 2^32).

  `span_sound_iff`: in a run all spans agree with their blocks exactly as long as no block, no raw
  buffer and no collapsed span of more than 65536 bytes is made into a single block.
-/
import Turnserver.Lib.Transition
import Turnserver.Memory.MemSlice
import Mathlib.Algebra.BigOperators.Group.Finset.Basic
import Mathlib.Algebra.Order.BigOperators.Group.Finset

namespace Turnserver

open Transition

/-! ## The code -/

/-- The members of `MemSliceSpan`. -/
structure MemSliceSpan where
  size : UInt32
  block_count : Int
  buffer : Nat → MemSlice

namespace MemSliceSpan

/-- `kMaxBlocks` -/
def kMaxBlocks : Int := 4

/-- `assert(ok)` -/
def require (ndebug ok : Bool) : Checked Unit :=
  if ndebug || ok then .ok () else .error .assertion

/-- `MemSliceSpan()` -/
def empty : MemSliceSpan := ⟨0, 0, fun _ => .empty⟩

/-- `for (int i = from; i < to; ++i) buffer_[i] = f(i);` -/
def fill (start stop : Int) (f buffer : Nat → MemSlice) (i : Nat) : MemSlice :=
  if start ≤ i ∧ (i : Int) < stop then f i else buffer i

/-- `buffer_[i] = s` -/
def setBlock (i : Nat) (s : MemSlice) (buffer : Nat → MemSlice) (j : Nat) : MemSlice :=
  if j = i then s else buffer j

/-- `size_ += s.GetUsedSize(); buffer_[block_count_++] = s;` -/
def append (s : MemSlice) (a : MemSliceSpan) : MemSliceSpan :=
  ⟨a.size + s.getUsedSize, a.block_count + 1, setBlock a.block_count.toNat s a.buffer⟩

/-- `MemSliceSpan(const MemBuf *buffer)` -/
def ofBuffer : Option Block → MemSliceSpan
  | none => empty
  | some b => ⟨b.capacity, 1, setBlock 0 (.new (some b) MemSlice.kDefaultWindow) empty.buffer⟩

/-- `MemSliceSpan(MemSlice buffer)` -/
def ofSlice (s : MemSlice) : MemSliceSpan :=
  if s.getUsedSize = 0 then empty else ⟨s.getUsedSize, 1, setBlock 0 s empty.buffer⟩

/-- The loop over an initializer list. -/
def appendAll : List MemSlice → MemSliceSpan → MemSliceSpan
  | [], a => a
  | s :: ss, a => if a.block_count < kMaxBlocks then appendAll ss (append s a) else a

/-- `MemSliceSpan(std::initializer_list<MemSlice> blocks)` -/
def ofList (ndebug : Bool) (blocks : List MemSlice) : Checked MemSliceSpan := do
  require ndebug (decide ((blocks.length : Int) < kMaxBlocks))
  pure (appendAll blocks empty)

/-- `MemSliceSpan(const void *buf, size_t length)`, for a `length` below 2^32; `malloc` returns `addr`. -/
def ofRaw (addr : Nat) (buf : Nat → Option UInt8) (length : UInt32) : MemSliceSpan :=
  ⟨length, 1, setBlock 0 (.new (some (.createCopy addr buf length)) MemSlice.kDefaultWindow)
    empty.buffer⟩

/-- `MemSliceSpan(const MemSliceSpan &a)` -/
def copy (a : MemSliceSpan) : MemSliceSpan :=
  ⟨a.size, a.block_count, fill 0 a.block_count a.buffer empty.buffer⟩

/-- `MemSliceSpan(MemSliceSpan &&a)`: the new span, and what is left of `a`.  A move of a slice swaps. -/
def move (a : MemSliceSpan) : MemSliceSpan × MemSliceSpan :=
  (⟨a.size, a.block_count, fill 0 a.block_count a.buffer empty.buffer⟩,
    ⟨0, 0, fill 0 a.block_count empty.buffer a.buffer⟩)

/-- `x = a`, for another span `a`. -/
def assign (ndebug : Bool) (a x : MemSliceSpan) : Checked MemSliceSpan := do
  require ndebug (decide (a.block_count ≤ kMaxBlocks))
  let buffer := fill 0 a.block_count a.buffer x.buffer
  let buffer := fill a.block_count x.block_count (fun _ => .reset none) buffer
  pure ⟨a.size, a.block_count, buffer⟩

/-- `x = std::move(a)`, for another span `a`: the new `x` and the new `a`. -/
def moveAssign (ndebug : Bool) (a x : MemSliceSpan) : Checked (MemSliceSpan × MemSliceSpan) := do
  require ndebug (decide (a.block_count ≤ kMaxBlocks))
  let buffer := fill 0 a.block_count a.buffer x.buffer
  let left := fill 0 a.block_count x.buffer a.buffer
  let buffer := fill a.block_count x.block_count (fun _ => .reset none) buffer
  pure (⟨a.size, a.block_count, buffer⟩, ⟨0, 0, left⟩)

/-- `x = MemSlice` -/
def assignSlice (s : MemSlice) (x : MemSliceSpan) : MemSliceSpan :=
  let buffer := fill 1 x.block_count (fun _ => .reset none) x.buffer
  ⟨s.getUsedSize, 1, setBlock 0 s buffer⟩

/-- `x = const MemBuf *` -/
def assignBuffer (buf : Option Block) (x : MemSliceSpan) : MemSliceSpan :=
  assignSlice (.new buf MemSlice.kDefaultWindow) x

/-- `PushBack` -/
def pushBack (s : MemSlice) (x : MemSliceSpan) : MemSliceSpan × Bool :=
  if x.block_count ≥ kMaxBlocks then (x, false) else (append s x, true)

/-- `Reset` -/
def reset (s : MemSlice) (x : MemSliceSpan) : MemSliceSpan :=
  let buffer := setBlock 0 s (fill 0 x.block_count (fun _ => .reset none) x.buffer)
  let size := (buffer 0).getUsedSize
  ⟨size, if size = 0 then 0 else 1, buffer⟩

/-- The loop of `Clone` up to the block `n`; the `i`-th clone is put at `addr i`. -/
def cloneBlocks (addr : Nat → Nat) (a : MemSliceSpan) : Nat → Checked (Nat → MemSlice)
  | 0 => pure empty.buffer
  | n + 1 => do
    let buffer ← cloneBlocks addr a n
    let s ← (a.buffer n).clone (addr n)
    pure (setBlock n s buffer)

/-- `Clone` -/
def clone (ndebug : Bool) (addr : Nat → Nat) (a : MemSliceSpan) : Checked MemSliceSpan := do
  require ndebug (decide (a.block_count < kMaxBlocks))
  let buffer ← cloneBlocks addr a a.block_count.toNat
  pure ⟨a.size, a.block_count, buffer⟩

/-- The loop of `CloneSpannedMem` up to the block `n`: the block written, and how far (`q`). -/
def copyBlocks (a : MemSliceSpan) (p : Block) : Nat → Checked (Block × Nat)
  | 0 => pure (p, 0)
  | n + 1 => do
    let (p, q) ← copyBlocks a p n
    let used := (a.buffer n).getUsedSize.toNat
    let src ← (a.buffer n).read used
    let p ← p.copyIn q used src
    pure (p, q + used)

/-- `CloneSpannedMem()`: the block, and how many bytes of it were written. -/
def cloneSpannedMem (ndebug : Bool) (addr : Nat) (a : MemSliceSpan) : Checked (Block × Nat) := do
  require ndebug (decide (a.block_count < kMaxBlocks))
  copyBlocks a (.create addr a.size) a.block_count.toNat

/-- `ToSingleBlock` -/
def toSingleBlock (ndebug : Bool) (addr : Nat) (a : MemSliceSpan) : Checked MemSliceSpan := do
  require ndebug (decide (a.block_count < kMaxBlocks))
  if a.block_count ≤ 1 then pure (copy a)
  else do
    let (p, _) ← cloneSpannedMem ndebug addr a
    pure (ofBuffer (some p))

/-- `GetUsedSize` -/
def getUsedSize (a : MemSliceSpan) : UInt32 := a.size

/-- `IsEmpty` -/
def isEmpty (a : MemSliceSpan) : Bool := a.size == 0

/-- The loop of `ToRawBuffer` up to the block `n`. -/
def rawBlocks (a : MemSliceSpan) : Nat → Checked (List (Option UInt8))
  | 0 => pure []
  | n + 1 => do
    let raw ← rawBlocks a n
    let bytes ← (a.buffer n).range
    pure (raw ++ bytes)

/-- `ToRawBuffer` -/
def toRawBuffer (ndebug : Bool) (a : MemSliceSpan) : Checked (List (Option UInt8)) := do
  require ndebug (decide (a.block_count < kMaxBlocks))
  if a.block_count ≤ 0 ∨ a.size = 0 then pure [] else rawBlocks a a.block_count.toNat

end MemSliceSpan

/-! ## Runs -/

/-- Any number of span variables.  A variable that is constructed anew loses its former span. -/
abbrev Spans := Nat → MemSliceSpan

/-- A step of a run: a constructor, or an operator, of the variable `x`. -/
inductive SpanOp
  | ofBuffer (x : Nat) (buffer : Option Block)
  | ofSlice (x : Nat) (s : MemSlice)
  | ofList (x : Nat) (blocks : List MemSlice)
  | ofRaw (x : Nat) (addr : Nat) (buf : Nat → Option UInt8) (length : UInt32)
  | copy (x y : Nat)
  | move (x y : Nat)
  | assign (x y : Nat)
  | moveAssign (x y : Nat)
  | assignSlice (x : Nat) (s : MemSlice)
  | assignBuffer (x : Nat) (buffer : Option Block)
  | pushBack (x : Nat) (s : MemSlice)
  | reset (x : Nat) (s : MemSlice)
  | clone (x y : Nat) (addr : Nat → Nat)
  | toSingleBlock (x y : Nat) (addr : Nat)

namespace Spans

open MemSliceSpan

/-- The spans with another one under `x`. -/
def set (x : Nat) (a : MemSliceSpan) (σ : Spans) : Spans := fun z => if z = x then a else σ z

/-- What an operation does to the spans. -/
def exec (ndebug : Bool) : SpanOp → Spans → Checked Spans
  | .ofBuffer x buffer, σ => pure (σ.set x (ofBuffer buffer))
  | .ofSlice x s, σ => pure (σ.set x (ofSlice s))
  | .ofList x blocks, σ => do pure (σ.set x (← ofList ndebug blocks))
  | .ofRaw x addr buf length, σ => pure (σ.set x (ofRaw addr buf length))
  | .copy x y, σ => pure (σ.set x (σ y).copy)
  | .move x y, σ => pure ((σ.set y (σ y).move.2).set x (σ y).move.1)
  | .assign x y, σ => do
    if x = y then pure σ else pure (σ.set x (← (σ y).assign ndebug (σ x)))
  | .moveAssign x y, σ => do
    if x = y then pure σ
    else do
      let (a, left) ← (σ y).moveAssign ndebug (σ x)
      pure ((σ.set y left).set x a)
  | .assignSlice x s, σ => pure (σ.set x ((σ x).assignSlice s))
  | .assignBuffer x buffer, σ => pure (σ.set x ((σ x).assignBuffer buffer))
  | .pushBack x s, σ => pure (σ.set x ((σ x).pushBack s).1)
  | .reset x s, σ => pure (σ.set x ((σ x).reset s))
  | .clone x y addr, σ => do pure (σ.set x (← (σ y).clone ndebug addr))
  | .toSingleBlock x y addr, σ => do pure (σ.set x (← (σ y).toSingleBlock ndebug addr))

/-- A step that faults leads nowhere. -/
def Step (ndebug : Bool) (σ : Spans) (op : SpanOp) (σ' : Spans) : Prop := exec ndebug op σ = .ok σ'

/-- No variable holds anything. -/
def initial : Spans := fun _ => empty

end Spans

/-! ## The invariant -/

namespace MemSliceSpan

/-- The bytes that the blocks below `block_count` hold. -/
def usedSum (a : MemSliceSpan) : Nat :=
  ∑ i ∈ Finset.range a.block_count.toNat, (a.buffer i).getUsedSize.toNat

/-- Not more blocks than there is room for, and the cached sum is the sum. -/
structure Counted (a : MemSliceSpan) : Prop where
  nonneg : 0 ≤ a.block_count
  le_max : a.block_count ≤ kMaxBlocks
  size_eq : a.size.toNat = a.usedSum % UInt32.size

/-- What a span promises: `GetUsedSize()`, `Empty()`, `CloneSpannedMem` and `ToRawBuffer` agree on how
    many bytes it holds. -/
def Sound (a : MemSliceSpan) : Prop :=
  (0 ≤ a.block_count ∧ a.block_count ≤ kMaxBlocks) ∧
    (a.usedSum < UInt32.size →
      a.getUsedSize.toNat = a.usedSum ∧
      (a.isEmpty = true ↔ a.usedSum = 0) ∧
      (∀ ndebug addr p q, a.cloneSpannedMem ndebug addr = .ok (p, q) →
        p.capacity.toNat = a.usedSum ∧ q = a.usedSum) ∧
      ∀ ndebug raw, a.toRawBuffer ndebug = .ok raw → raw.length = a.usedSum)

/-- Spans with the same blocks hold the same number of bytes. -/
theorem usedSum_congr {a a' : MemSliceSpan} (hcount : a'.block_count = a.block_count)
    (hused : ∀ i : Nat, (i : Int) < a.block_count →
      (a'.buffer i).getUsedSize = (a.buffer i).getUsedSize) : a'.usedSum = a.usedSum := by
  rw [usedSum, usedSum, hcount]
  apply Finset.sum_congr rfl
  intro i hi
  rw [hused i (by have := Finset.mem_range.mp hi; omega)]

/-- Spans with the same size, count and used bytes are counted alike. -/
theorem Counted.congr {a a' : MemSliceSpan} (h : a.Counted) (hsize : a'.size = a.size)
    (hcount : a'.block_count = a.block_count)
    (hused : ∀ i : Nat, (i : Int) < a.block_count →
      (a'.buffer i).getUsedSize = (a.buffer i).getUsedSize) : a'.Counted := by
  refine ⟨?_, ?_, ?_⟩
  · rw [hcount]
    exact h.nonneg
  · rw [hcount]
    exact h.le_max
  · rw [hsize, usedSum_congr hcount hused]
    exact h.size_eq

/-- A span of no blocks. -/
theorem counted_none (buffer : Nat → MemSlice) : Counted ⟨0, 0, buffer⟩ :=
  ⟨Int.le_refl 0, show (0 : Int) ≤ 4 by decide, rfl⟩

/-- A span of one block. -/
theorem usedSum_one (size : UInt32) (buffer : Nat → MemSlice) :
    usedSum ⟨size, 1, buffer⟩ = (buffer 0).getUsedSize.toNat := by
  show ∑ i ∈ Finset.range 1, _ = _
  rw [Finset.sum_range_one]

/-- A span of one block is counted, if its size is what the block uses. -/
theorem counted_one {size : UInt32} {buffer : Nat → MemSlice}
    (h : size = (buffer 0).getUsedSize) : Counted ⟨size, 1, buffer⟩ := by
  refine ⟨show (0 : Int) ≤ 1 by decide, show (1 : Int) ≤ 4 by decide, ?_⟩
  rw [usedSum_one, h, Nat.mod_eq_of_lt (UInt32.toNat_lt_size _)]

theorem setBlock_same (i : Nat) (s : MemSlice) (buffer : Nat → MemSlice) :
    setBlock i s buffer i = s := if_pos rfl

theorem setBlock_of_ne {i j : Nat} (h : j ≠ i) (s : MemSlice) (buffer : Nat → MemSlice) :
    setBlock i s buffer j = buffer j := if_neg h

/-- A filled block. -/
theorem fill_of_lt {stop : Int} {i : Nat} (h : (i : Int) < stop) (f buffer : Nat → MemSlice) :
    fill 0 stop f buffer i = f i := if_pos ⟨by omega, h⟩

/-- A block in front of the filled ones. -/
theorem fill_of_before {start stop : Int} {i : Nat} (h : (i : Int) < start)
    (f buffer : Nat → MemSlice) : fill start stop f buffer i = buffer i := if_neg (by omega)

/-! ## What the views say -/

/-- The loop of `CloneSpannedMem` keeps the block and counts what it copies. -/
theorem copyBlocks_ok {a : MemSliceSpan} {p : Block} {n : Nat} {r : Block × Nat}
    (h : copyBlocks a p n = .ok r) :
    r.1.capacity = p.capacity ∧
      r.2 = ∑ i ∈ Finset.range n, (a.buffer i).getUsedSize.toNat := by
  induction n generalizing r with
  | zero =>
    cases h
    exact ⟨rfl, rfl⟩
  | succ n ih =>
    obtain ⟨⟨p₁, q₁⟩, h₁, hrest⟩ := Checked.bind_ok.mp h
    obtain ⟨src, -, hcopy⟩ := Checked.bind_ok.mp hrest
    obtain ⟨p₂, hp₂, hpure⟩ := Checked.bind_ok.mp hcopy
    cases hpure
    obtain ⟨hcap, hq⟩ := ih h₁
    refine ⟨(Block.copyIn_capacity hp₂).trans hcap, ?_⟩
    have hq : q₁ = ∑ i ∈ Finset.range n, (a.buffer i).getUsedSize.toNat := hq
    rw [Finset.sum_range_succ, ← hq]

/-- The cloned memory has the capacity of the size, and the position comes to what the blocks use. -/
theorem cloneSpannedMem_ok {ndebug : Bool} {addr : Nat} {a : MemSliceSpan} {p : Block} {q : Nat}
    (h : a.cloneSpannedMem ndebug addr = .ok (p, q)) : p.capacity = a.size ∧ q = a.usedSum := by
  obtain ⟨-, -, hblocks⟩ := Checked.bind_ok.mp h
  obtain ⟨hcap, hq⟩ := copyBlocks_ok hblocks
  exact ⟨hcap.trans (Block.create_capacity addr a.size), hq⟩

/-- The raw blocks have as many bytes as the blocks use. -/
theorem rawBlocks_length {a : MemSliceSpan} {n : Nat} {raw : List (Option UInt8)}
    (h : rawBlocks a n = .ok raw) :
    raw.length = ∑ i ∈ Finset.range n, (a.buffer i).getUsedSize.toNat := by
  induction n generalizing raw with
  | zero =>
    cases h
    rfl
  | succ n ih =>
    obtain ⟨raw₁, h₁, hrest⟩ := Checked.bind_ok.mp h
    obtain ⟨bytes, hbytes, hpure⟩ := Checked.bind_ok.mp hrest
    cases hpure
    rw [List.length_append, ih h₁, MemSlice.range_length hbytes, Finset.sum_range_succ]

/-- A counted span keeps its promise. -/
theorem Counted.sound {a : MemSliceSpan} (h : a.Counted) : a.Sound := by
  refine ⟨⟨h.nonneg, h.le_max⟩, ?_⟩
  -- below 2^32 the stored size is the sum itself
  intro hsmall
  have hsize : a.size.toNat = a.usedSum := by
    rw [h.size_eq, Nat.mod_eq_of_lt hsmall]
  refine ⟨hsize, ?_, ?_, ?_⟩
  · rw [isEmpty, beq_iff_eq, ← hsize]
    exact ⟨fun hzero => by rw [hzero]; rfl, fun hzero => UInt32.toNat_inj.mp hzero⟩
  · intro ndebug addr p q hclone
    obtain ⟨hcap, hq⟩ := cloneSpannedMem_ok hclone
    exact ⟨by rw [hcap, hsize], hq⟩
  -- with no block or no byte the vector is empty; else it is the copied blocks
  · intro ndebug raw hraw
    obtain ⟨-, -, hbody⟩ := Checked.bind_ok.mp hraw
    split at hbody
    · next hnone =>
      cases hbody
      rcases hnone with hnone | hnone
      · rw [usedSum, Int.toNat_of_nonpos hnone]
        rfl
      · rw [← hsize, hnone]
        rfl
    · exact rawBlocks_length hbody

/-! ## Constructors and operators -/

theorem append_counted {a : MemSliceSpan} (h : a.Counted) (hroom : a.block_count < kMaxBlocks)
    (s : MemSlice) : (append s a).Counted := by
  have hcount : (append s a).block_count.toNat = a.block_count.toNat + 1 := by
    have := h.nonneg
    show (a.block_count + 1).toNat = _
    omega
  -- the sum splits into the old blocks, which stay, and the one behind them
  have hsum : (append s a).usedSum = a.usedSum + s.getUsedSize.toNat := by
    rw [usedSum, hcount, Finset.sum_range_succ]
    congr 1
    · apply Finset.sum_congr rfl
      intro i hi
      have hlt := Finset.mem_range.mp hi
      show (setBlock _ s a.buffer i).getUsedSize.toNat = _
      rw [setBlock_of_ne (by omega)]
    · show (setBlock _ s a.buffer _).getUsedSize.toNat = _
      rw [setBlock_same]
  refine ⟨?_, ?_, ?_⟩
  · have := h.nonneg
    show 0 ≤ a.block_count + 1
    omega
  · show a.block_count + 1 ≤ kMaxBlocks
    omega
  · show (a.size + s.getUsedSize).toNat = _
    rw [hsum, UInt32.toNat_add, h.size_eq]
    exact Nat.mod_add_mod ..

theorem empty_counted : Counted empty := counted_none _

theorem ofSlice_counted (s : MemSlice) : (ofSlice s).Counted := by
  rw [ofSlice]
  split
  · exact empty_counted
  · exact counted_one (by rw [setBlock_same])

/-- Blocks more are counted. -/
theorem appendAll_counted (blocks : List MemSlice) {a : MemSliceSpan} (h : a.Counted) :
    (appendAll blocks a).Counted := by
  induction blocks generalizing a with
  | nil => exact h
  | cons s ss ih =>
    rw [appendAll]
    split
    · next hroom => exact ih (append_counted h hroom s)
    · exact h

/-- **A block as a span of its own.**  Its capacity is the size of the span, but the window of its slice
    ends at 65536. -/
theorem capped_counted {b : Block} (hcap : b.mem.capacity ≤ 65536) (buffer : Nat → MemSlice) :
    Counted ⟨b.capacity, 1, setBlock 0 (.new (some b) MemSlice.kDefaultWindow) buffer⟩ := by
  apply counted_one
  rw [setBlock_same, ← UInt32.toNat_inj, MemSlice.new_getUsedSize, Nat.min_eq_right hcap]
  exact b.capacity_toNat

/-- A span of one capped block is sound exactly up to 65536 bytes. -/
theorem capped_sound_iff (b : Block) (buffer : Nat → MemSlice) :
    Sound ⟨b.capacity, 1, setBlock 0 (.new (some b) MemSlice.kDefaultWindow) buffer⟩ ↔
      b.mem.capacity ≤ 65536 := by
  constructor
  · rintro ⟨-, hviews⟩
    have hsum : usedSum ⟨b.capacity, 1,
        setBlock 0 (.new (some b) MemSlice.kDefaultWindow) buffer⟩ = min 65536 b.mem.capacity := by
      rw [usedSum_one, setBlock_same, MemSlice.new_getUsedSize]
    rw [hsum] at hviews
    have hle : min 65536 b.mem.capacity ≤ 65536 := Nat.min_le_left _ _
    have hlt : (65536 : Nat) < UInt32.size := by decide
    have hsize : b.capacity.toNat = min 65536 b.mem.capacity := (hviews (by omega)).1
    rw [b.capacity_toNat] at hsize
    omega
  · intro hcap
    exact (capped_counted hcap buffer).sound

theorem copy_counted {a : MemSliceSpan} (h : a.Counted) : a.copy.Counted :=
  h.congr rfl rfl fun _ hi => by
    show (fill 0 _ _ _ _).getUsedSize = _
    rw [fill_of_lt hi]

/-- Both spans are counted after a move. -/
theorem move_counted {a : MemSliceSpan} (h : a.Counted) : a.move.1.Counted ∧ a.move.2.Counted :=
  ⟨copy_counted h, counted_none _⟩

/-- After either assignment the blocks below the count are those of the right-hand side. -/
theorem assigned_counted {a : MemSliceSpan} (h : a.Counted) (x : MemSliceSpan) :
    Counted ⟨a.size, a.block_count, fill a.block_count x.block_count (fun _ => .reset none)
      (fill 0 a.block_count a.buffer x.buffer)⟩ :=
  h.congr rfl rfl fun _ hi => by
    show (fill a.block_count _ _ _ _).getUsedSize = _
    rw [fill_of_before hi, fill_of_lt hi]

theorem assignSlice_counted (s : MemSlice) (x : MemSliceSpan) : (x.assignSlice s).Counted :=
  counted_one (by rw [setBlock_same])

theorem pushBack_counted {x : MemSliceSpan} (h : x.Counted) (s : MemSlice) :
    (x.pushBack s).1.Counted := by
  rw [pushBack]
  split
  · exact h
  · next hroom => exact append_counted h (by omega) s

theorem reset_counted (s : MemSlice) (x : MemSliceSpan) : (x.reset s).Counted := by
  rw [reset]
  by_cases hzero : s.getUsedSize = 0
  · simp only [setBlock_same, hzero, if_pos]
    exact counted_none _
  · simp only [setBlock_same, if_neg hzero]
    exact counted_one (by rw [setBlock_same])

/-- A clone has windows of the same sizes. -/
theorem cloneBlocks_ok {addr : Nat → Nat} {a : MemSliceSpan} {n : Nat} {buffer : Nat → MemSlice}
    (h : cloneBlocks addr a n = .ok buffer) :
    ∀ i, i < n → (buffer i).getUsedSize = (a.buffer i).getUsedSize := by
  induction n generalizing buffer with
  | zero => exact fun i hi => absurd hi (Nat.not_lt_zero i)
  | succ n ih =>
    obtain ⟨buffer₁, h₁, hrest⟩ := Checked.bind_ok.mp h
    obtain ⟨s, hs, hpure⟩ := Checked.bind_ok.mp hrest
    cases hpure
    intro i hi
    rcases Nat.lt_succ_iff_lt_or_eq.mp hi with hlt | rfl
    · rw [setBlock_of_ne (by omega), ih h₁ i hlt]
    · rw [setBlock_same, MemSlice.clone_getUsedSize hs]

theorem clone_counted {ndebug : Bool} {addr : Nat → Nat} {a c : MemSliceSpan} (h : a.Counted)
    (hclone : a.clone ndebug addr = .ok c) : c.Counted := by
  obtain ⟨-, -, hrest⟩ := Checked.bind_ok.mp hclone
  obtain ⟨buffer, hbuffer, hpure⟩ := Checked.bind_ok.mp hrest
  cases hpure
  refine h.congr rfl rfl ?_
  intro i hi
  exact cloneBlocks_ok hbuffer i (by have := h.nonneg; omega)

/-- What `ToSingleBlock` returns: a copy, or a new block of the cached size. -/
theorem toSingleBlock_cases {ndebug : Bool} {addr : Nat} {a c : MemSliceSpan}
    (h : a.toSingleBlock ndebug addr = .ok c) :
    (a.block_count ≤ 1 ∧ c = a.copy) ∨
      (1 < a.block_count ∧ ∃ b : Block, b.mem.capacity = a.size.toNat ∧ c = ofBuffer (some b)) := by
  obtain ⟨-, -, hrest⟩ := Checked.bind_ok.mp h
  split at hrest
  · next hone =>
    cases hrest
    exact Or.inl ⟨hone, rfl⟩
  · next hmany =>
    obtain ⟨⟨b, q⟩, hclone, hpure⟩ := Checked.bind_ok.mp hrest
    cases hpure
    refine Or.inr ⟨by omega, b, ?_, rfl⟩
    rw [← b.capacity_toNat, (cloneSpannedMem_ok hclone).1]

end MemSliceSpan

namespace Spans

open MemSliceSpan

/-! ## Runs -/

/-- The span that was set. -/
theorem set_same (x : Nat) (a : MemSliceSpan) (σ : Spans) : σ.set x a x = a := if_pos rfl

/-- What holds of the other variables and of the new span holds of all. -/
theorem forall_set {P : MemSliceSpan → Prop} {σ : Spans} (h : ∀ z, P (σ z)) {x : Nat}
    {a : MemSliceSpan} (ha : P a) : ∀ z, P (σ.set x a z) := by
  intro z
  rw [set]
  split
  · exact ha
  · exact h z

/-- The condition on a step: what becomes a single block is not longer than a window can be. -/
def Fits (σ : Spans) : SpanOp → Prop
  | .ofBuffer _ (some b) => b.mem.capacity ≤ 65536
  | .ofRaw _ _ _ length => length.toNat ≤ 65536
  | .toSingleBlock _ y _ => 1 < (σ y).block_count → (σ y).size.toNat ≤ 65536
  | _ => True

/-- One step that fits. -/
theorem step_counted {ndebug : Bool} {σ σ' : Spans} {op : SpanOp} (h : ∀ z, (σ z).Counted)
    (hfits : σ.Fits op) (hstep : Step ndebug σ op σ') : ∀ z, (σ' z).Counted := by
  cases op with
  -- the default size of a slice is 65536, so a larger buffer would be cut: `Fits` rules it out
  | ofBuffer x buffer =>
    cases hstep
    cases buffer with
    | none => exact forall_set h empty_counted
    | some b => exact forall_set h (capped_counted hfits _)
  | ofSlice x s =>
    cases hstep
    exact forall_set h (ofSlice_counted s)
  | ofList x blocks =>
    obtain ⟨a, ha, hpure⟩ := Checked.bind_ok.mp hstep
    cases hpure
    obtain ⟨-, -, hrest⟩ := Checked.bind_ok.mp ha
    cases hrest
    exact forall_set h (appendAll_counted blocks empty_counted)
  -- the raw bytes are copied into a buffer of their length
  | ofRaw x addr buf length =>
    cases hstep
    have := capped_counted (b := .createCopy addr buf length) hfits empty.buffer
    rw [Block.createCopy_capacity] at this
    exact forall_set h this
  | copy x y =>
    cases hstep
    exact forall_set h (copy_counted (h y))
  | move x y =>
    cases hstep
    exact forall_set (forall_set h (move_counted (h y)).2) (move_counted (h y)).1
  -- an assignment to itself is skipped
  | assign x y =>
    rw [Step, exec] at hstep
    split at hstep
    · cases hstep
      exact h
    · obtain ⟨a, ha, hpure⟩ := Checked.bind_ok.mp hstep
      cases hpure
      obtain ⟨-, -, hrest⟩ := Checked.bind_ok.mp ha
      cases hrest
      exact forall_set h (assigned_counted (h y) (σ x))
  | moveAssign x y =>
    rw [Step, exec] at hstep
    split at hstep
    · cases hstep
      exact h
    · obtain ⟨⟨a, left⟩, ha, hpure⟩ := Checked.bind_ok.mp hstep
      cases hpure
      obtain ⟨-, -, hrest⟩ := Checked.bind_ok.mp ha
      cases hrest
      exact forall_set (forall_set h (counted_none _)) (assigned_counted (h y) (σ x))
  | assignSlice x s =>
    cases hstep
    exact forall_set h (assignSlice_counted s (σ x))
  | assignBuffer x buffer =>
    cases hstep
    exact forall_set h (assignSlice_counted _ (σ x))
  | pushBack x s =>
    cases hstep
    exact forall_set h (pushBack_counted (h x) s)
  | reset x s =>
    cases hstep
    exact forall_set h (reset_counted s (σ x))
  | clone x y addr =>
    obtain ⟨a, ha, hpure⟩ := Checked.bind_ok.mp hstep
    cases hpure
    exact forall_set h (clone_counted (h y) ha)
  | toSingleBlock x y addr =>
    obtain ⟨a, ha, hpure⟩ := Checked.bind_ok.mp hstep
    -- a single block is returned as it is; more blocks are copied into one buffer
    cases hpure
    rcases toSingleBlock_cases ha with ⟨-, rfl⟩ | ⟨hmany, b, hb, rfl⟩
    · exact forall_set h (copy_counted (h y))
    · have hcap : b.mem.capacity ≤ 65536 := by
        rw [hb]
        exact hfits hmany
      exact forall_set h (capped_counted hcap _)

/-- A step that does not fit makes a span that lies about its size. -/
theorem fits_of_sound {ndebug : Bool} {σ σ' : Spans} {op : SpanOp} (hstep : Step ndebug σ op σ')
    (hsound : ∀ z, (σ' z).Sound) : σ.Fits op := by
  cases op with
  -- the three operations that `Fits` restricts build the span on a buffer, cut at 65536
  | ofBuffer x buffer =>
    cases hstep
    cases buffer with
    | none => trivial
    | some b =>
      have hx := hsound x
      rw [set_same] at hx
      exact (capped_sound_iff b _).mp hx
  | ofRaw x addr buf length =>
    cases hstep
    have hx := hsound x
    rw [set_same] at hx
    have := capped_sound_iff (.createCopy addr buf length) empty.buffer
    rw [Block.createCopy_capacity] at this
    exact this.mp hx
  | toSingleBlock x y addr =>
    obtain ⟨a, ha, hpure⟩ := Checked.bind_ok.mp hstep
    cases hpure
    intro hmany
    have hx := hsound x
    rw [set_same] at hx
    rcases toSingleBlock_cases ha with ⟨hone, -⟩ | ⟨-, b, hb, rfl⟩
    · omega
    · rw [← hb]
      exact (capped_sound_iff b _).mp hx
  | _ => trivial

/-- **Spans, exactly.**  In every run of constructors and operators on any number of spans: all spans
    have at most four blocks and agree with their blocks in every state, if and only if every step
    fits. -/
theorem span_sound_iff {ndebug : Bool} {σ : Spans} {ts : List (Spans × SpanOp × Spans)}
    (hrun : Run (Step ndebug) initial ts σ) :
    (∀ t ∈ ts, ∀ z, (t.2.2 z).Sound) ↔ ∀ t ∈ ts, t.1.Fits t.2.1 := by
  have hinitial : ∀ z, (initial z).Counted := fun _ => empty_counted
  refine Run.property_iff (P := fun σ => ∀ z, (σ z).Sound) ?_
    (fun σ op σ' h hfits hstep => step_counted h hfits hstep) hrun hinitial
  intro σ op σ' h hstep
  constructor
  · exact fits_of_sound hstep
  · intro hfits z
    exact (step_counted h hfits hstep z).sound

/-- A span of a raw buffer of three bytes, and a copy of it. -/
def sampleSpans : Spans :=
  (initial.set 0 (ofRaw 8 (fun _ => some 7) 3)).set 1 (ofRaw 8 (fun _ => some 7) 3).copy

theorem span_sound_iff_copy : (sampleSpans 1).Sound := by
  have hraw : Step false initial (.ofRaw 0 8 (fun _ => some 7) 3)
      (initial.set 0 (ofRaw 8 (fun _ => some 7) 3)) := rfl
  have hcopy : Step false (initial.set 0 (ofRaw 8 (fun _ => some 7) 3)) (.copy 1 0) sampleSpans :=
    rfl
  have hfits : (3 : UInt32).toNat ≤ 65536 := by decide
  refine (span_sound_iff (Run.cons hraw (Run.single hcopy))).mpr ?_ _
    (List.mem_cons_of_mem _ List.mem_cons_self) 1
  intro t ht
  rcases List.mem_pair.mp ht with rfl | rfl
  · exact hfits
  · trivial

/-- A block of 65537 bytes: the span says 65537, its only slice has 65536. -/
theorem ofBuffer_unsound :
    let σ := initial.set 0 (ofBuffer (some (.create 8 65537)))
    Step false initial (.ofBuffer 0 (some (.create 8 65537))) σ ∧
      (σ 0).getUsedSize = 65537 ∧ (σ 0).usedSum = 65536 ∧ ¬(σ 0).Sound := by
  intro σ
  have hsum : (σ 0).usedSum = 65536 := by
    show usedSum ⟨_, 1, _⟩ = _
    rw [usedSum_one]
    rfl
  refine ⟨rfl, rfl, hsum, ?_⟩
  rintro ⟨-, hviews⟩
  have hsize := (hviews (by rw [hsum]; decide)).1
  rw [hsum] at hsize
  exact absurd hsize (by decide)

end Spans

end Turnserver
