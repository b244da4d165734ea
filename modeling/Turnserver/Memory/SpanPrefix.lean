/-
  DROPPING A PREFIX OF A SPAN (`memory/mem_slice_span.cpp`: `MemSliceSpan::AdjustBeginPointer`).

  The first loop trims the blocks from the front until `offset` bytes are gone; the second loop moves
  the blocks that are left to the front of the array.  A move of a slice swaps, and the index `k` that
  the second loop writes to is never advanced: every move goes to `buffer_[0]`.

  * `trim_spec` — the first loop computes `Chunks.leftOver`: the blocks before `pos` are empty, and
    those from `pos` on hold the bytes without the first `offset`;
  * `compact_apply` — the second loop rotates: the LAST block comes to the front, and the others move
    one place towards the end.

  `adjustBeginPointer_iff`: the span drops exactly the prefix if and only if the blocks that are left
  happen to read the same when they are rotated so.
-/
import Turnserver.Lib.Chunks
import Turnserver.Memory.SpanViews

namespace Turnserver

open Chunks

namespace MemSliceSpan

/-! ## The code -/

/-- The first loop, with `remaining` blocks from `pos` on: the blocks after it, and the new `pos`. -/
def trim (buffer : Nat → MemSlice) (pos : Nat) (left : UInt32) :
    (remaining : Nat) → Checked ((Nat → MemSlice) × Nat)
  | 0 => pure (buffer, pos)
  | remaining + 1 => do
    let count := min left (buffer pos).getUsedSize
    let block ← (buffer pos).adjustBeginPointer count.toInt32
    let buffer := setBlock pos block buffer
    let left := left - count
    if left = 0 then pure (buffer, if block.getUsedSize = 0 then pos + 1 else pos)
    else trim buffer (pos + 1) left remaining

/-- `buffer_[k] = std::move(buffer_[pos])` -/
def swapBlocks (k pos : Nat) (buffer : Nat → MemSlice) : Nat → MemSlice :=
  setBlock k (buffer pos) (setBlock pos (buffer k) buffer)

/-- The second loop, with `remaining` blocks from `pos` on; `k` stays 0. -/
def compact (buffer : Nat → MemSlice) (pos : Nat) : (remaining : Nat) → Nat → MemSlice
  | 0 => buffer
  | remaining + 1 => compact (swapBlocks 0 pos buffer) (pos + 1) remaining

/-- `AdjustBeginPointer` -/
def adjustBeginPointer (ndebug : Bool) (offset : UInt32) (a : MemSliceSpan) : Checked MemSliceSpan := do
  require ndebug (decide (offset < a.size))
  if offset ≥ a.size then pure (a.reset .empty)
  else
    let (buffer, pos) ← trim a.buffer 0 offset a.block_count.toNat
    let block_count := a.block_count - pos
    let size := a.size - offset
    if pos = 0 then pure ⟨size, block_count, buffer⟩
    else pure ⟨size, block_count, compact buffer pos (a.block_count.toNat - pos)⟩

/-! ## The first loop -/

/-- The blocks from `pos` on, by their bytes. -/
def chunks (buffer : Nat → MemSlice) (pos n : Nat) : List (List (Option UInt8)) :=
  (List.range' pos n).map fun i => (buffer i).bytes

/-- The bytes of one block more. -/
theorem chunks_succ (buffer : Nat → MemSlice) (pos n : Nat) :
    chunks buffer pos (n + 1) = (buffer pos).bytes :: chunks buffer (pos + 1) n := rfl

/-- There are as many chunks as blocks. -/
theorem chunks_length (buffer : Nat → MemSlice) (pos n : Nat) : (chunks buffer pos n).length = n := by
  simp [chunks]

/-- Blocks with the same bytes have the same chunks. -/
theorem chunks_congr {buffer buffer' : Nat → MemSlice} {pos n : Nat}
    (h : ∀ i, pos ≤ i → i < pos + n → (buffer' i).bytes = (buffer i).bytes) :
    chunks buffer' pos n = chunks buffer pos n := by
  apply List.map_congr_left
  intro i hi
  rw [List.mem_range'_1] at hi
  exact h i hi.1 hi.2

/-- The slices that the first loop goes through have a buffer. -/
def Backed : Nat → List MemSlice → Prop
  | _, [] => True
  | left, s :: ss =>
    s.buffer ≠ none ∧ (s.getUsedSize.toNat < left → Backed (left - s.getUsedSize.toNat) ss)

end MemSliceSpan

namespace MemSlice

/-- The bytes of a slice with a buffer. -/
theorem bytes_some (b : Block) (begin_offset end_offset : UInt32) :
    bytes ⟨some b, begin_offset, end_offset⟩ =
      (List.range (end_offset - begin_offset).toNat).map fun i =>
        b.mem.cells (begin_offset.toNat + i) := rfl

/-- Trimming at most the whole window drops that many bytes. -/
theorem Window.adjustBeginPointer {s : MemSlice} (hw : s.Window) (hbuffer : s.buffer ≠ none)
    {count : UInt32} (hcount : count.toNat ≤ s.getUsedSize.toNat) :
    ∃ s', s.adjustBeginPointer count.toInt32 = .ok s' ∧ s'.bytes = s.bytes.drop count.toNat ∧
      s'.getUsedSize.toNat = s.getUsedSize.toNat - count.toNat := by
  obtain ⟨hused, hbegin, hend⟩ := hw.used
  obtain ⟨b, hb⟩ := Option.ne_none_iff_exists'.mp hbuffer
  have hsum : (s.begin_offset + count).toNat = s.begin_offset.toNat + count.toNat := by
    have hlt := s.end_offset.toNat_lt
    rw [UInt32.toNat_add, Nat.mod_eq_of_lt (by omega)]
  have hle : ¬s.begin_offset + count > s.end_offset := by
    rw [gt_iff_lt, UInt32.lt_iff_toNat_lt]
    omega
  have hle' : s.begin_offset + count ≤ s.end_offset := UInt32.not_lt.mp hle
  have hused' : (s.end_offset - (s.begin_offset + count)).toNat =
      s.getUsedSize.toNat - count.toNat := by
    rw [UInt32.toNat_sub_of_le _ _ hle', hsum]
    omega
  refine ⟨⟨some b, s.begin_offset + count, s.end_offset⟩, ?_, ?_, hused'⟩
  · rw [MemSlice.adjustBeginPointer, MemSlice.setBeginPointer, Int32.toUInt32_add,
      UInt32.toUInt32_toInt32, UInt32.toUInt32_toInt32, if_neg hle, deref, hb]
  · have hbytes : s.bytes = (List.range s.getUsedSize.toNat).map fun i =>
        b.mem.cells (s.begin_offset.toNat + i) := by
      rw [bytes, hb]
    rw [hbytes, bytes_some, hused', hsum]
    -- byte by byte: the block is the same, only the start moves
    apply List.ext_getElem
    · rw [List.length_drop, List.length_map, List.length_map, List.length_range, List.length_range]
    · intro i hi hi'
      rw [List.getElem_drop, List.getElem_map, List.getElem_range, List.getElem_map,
        List.getElem_range, Nat.add_assoc]

end MemSlice

namespace MemSliceSpan

/-- Setting a block does not change the chunks behind it. -/
theorem setBlock_chunks {pos n : Nat} (s : MemSlice) (buffer : Nat → MemSlice) :
    chunks (setBlock pos s buffer) (pos + 1) n = chunks buffer (pos + 1) n := by
  apply chunks_congr
  intro i hi _
  rw [setBlock_of_ne (by omega)]

/-- Setting a block does not change the blocks behind it. -/
theorem setBlock_behind {pos n : Nat} (s : MemSlice) (buffer : Nat → MemSlice) :
    (List.range' (pos + 1) n).map (setBlock pos s buffer) = (List.range' (pos + 1) n).map buffer := by
  apply List.map_congr_left
  intro i hi
  rw [List.mem_range'_1] at hi
  exact setBlock_of_ne (by omega) _ _

/-- The smaller of two numbers. -/
theorem toNat_min (x y : UInt32) : (min x y).toNat = min x.toNat y.toNat := by
  have hmin : min x y = if x ≤ y then x else y := rfl
  rw [hmin]
  split
  · next hle =>
    rw [UInt32.le_iff_toNat_le] at hle
    omega
  · next hle =>
    rw [UInt32.le_iff_toNat_le] at hle
    omega

/-- What is done with one block: it is trimmed, and it is the last one if it is long enough. -/
theorem trim_succ {buffer : Nat → MemSlice} {pos : Nat} (hw : (buffer pos).Window)
    (hbuffer : (buffer pos).buffer ≠ none) (left : UInt32) (n : Nat) :
    ∃ block : MemSlice, block.bytes = (buffer pos).bytes.drop left.toNat ∧
      trim buffer pos left (n + 1) =
        if left.toNat < (buffer pos).getUsedSize.toNat then .ok (setBlock pos block buffer, pos)
        else if left.toNat = (buffer pos).getUsedSize.toNat then
          .ok (setBlock pos block buffer, pos + 1)
        else trim (setBlock pos block buffer) (pos + 1) (left - (buffer pos).getUsedSize) n := by
  -- a block loses `count`, the smaller of what is left to cut and what it has
  have hcount := toNat_min left (buffer pos).getUsedSize
  have hlength := hw.bytes_length
  obtain ⟨block, hadjust, hbytes, hused⟩ := hw.adjustBeginPointer hbuffer
    (show (min left (buffer pos).getUsedSize).toNat ≤ (buffer pos).getUsedSize.toNat by omega)
  have hleft : (left - min left (buffer pos).getUsedSize).toNat =
      left.toNat - (min left (buffer pos).getUsedSize).toNat :=
    UInt32.toNat_sub_of_le _ _ (UInt32.le_iff_toNat_le.mpr (by omega))
  refine ⟨block, ?_, ?_⟩
  · rw [hbytes, hcount]
    by_cases hle : left.toNat ≤ (buffer pos).getUsedSize.toNat
    · rw [Nat.min_eq_left hle]
    · rw [Nat.min_eq_right (by omega), List.drop_eq_nil_of_le (by omega),
        List.drop_eq_nil_of_le (by omega)]
  · rw [trim, hadjust, Checked.ok_bind]
    -- the loop stops when nothing is left, and a block with no byte left is passed over
    have hzero : left - min left (buffer pos).getUsedSize = 0 ↔
        left.toNat ≤ (buffer pos).getUsedSize.toNat := by
      rw [← UInt32.toNat_inj, hleft, UInt32.toNat_zero]
      omega
    have hempty : block.getUsedSize = 0 ↔ (buffer pos).getUsedSize.toNat ≤ left.toNat := by
      rw [← UInt32.toNat_inj, hused, UInt32.toNat_zero]
      omega
    by_cases hlt : left.toNat < (buffer pos).getUsedSize.toNat
    · rw [if_pos (hzero.mpr (by omega)), if_pos hlt, if_neg (by rw [hempty]; omega)]
      rfl
    · rw [if_neg hlt]
      by_cases heq : left.toNat = (buffer pos).getUsedSize.toNat
      · rw [if_pos (hzero.mpr (by omega)), if_pos heq, if_pos (hempty.mpr (by omega))]
        rfl
      · have hmin : min left (buffer pos).getUsedSize = (buffer pos).getUsedSize := by
          rw [← UInt32.toNat_inj]
          omega
        rw [if_neg (by rw [hzero]; omega), if_neg heq, hmin]

/-- **The first loop.**  The blocks before the new `pos` are empty, and those from there on are what is
    left over. -/
theorem trim_spec {n pos : Nat} {buffer : Nat → MemSlice} {left : UInt32}
    (hw : ∀ i, pos ≤ i → i < pos + n → (buffer i).Window)
    (hbacked : Backed left.toNat ((List.range' pos n).map buffer)) :
    ∃ buffer' pos', trim buffer pos left n = .ok (buffer', pos') ∧ pos ≤ pos' ∧ pos' ≤ pos + n ∧
      (∀ i, i < pos → buffer' i = buffer i) ∧ (∀ i, pos ≤ i → i < pos' → (buffer' i).bytes = []) ∧
      chunks buffer' pos' (pos + n - pos') = leftOver left.toNat (chunks buffer pos n) := by
  induction n generalizing pos buffer left with
  | zero =>
    refine ⟨buffer, pos, rfl, Nat.le_refl _, Nat.le_refl _, fun _ _ => rfl, ?_, ?_⟩
    · intro i hi hi'
      omega
    · rw [Nat.add_zero, Nat.sub_self]
      rfl
  | succ n ih =>
    obtain ⟨hbuffer, hrest⟩ := hbacked
    have hwindow := hw pos (Nat.le_refl _) (by omega)
    have hlength := hwindow.bytes_length
    obtain ⟨block, hbytes, htrim⟩ := trim_succ hwindow hbuffer left n
    have hother : ∀ i, i < pos → setBlock pos block buffer i = buffer i :=
      fun i hi => setBlock_of_ne (Nat.ne_of_lt hi) _ _
    rw [htrim, chunks_succ, leftOver, hlength]
    by_cases hlt : left.toNat < (buffer pos).getUsedSize.toNat
    · -- the cut lies in this block
      rw [if_pos hlt, if_pos hlt]
      refine ⟨_, _, rfl, Nat.le_refl _, by omega, hother, ?_, ?_⟩
      · intro i hi hi'
        omega
      · rw [Nat.add_sub_cancel_left, chunks_succ, setBlock_chunks, setBlock_same, hbytes]
    rw [if_neg hlt, if_neg hlt]
    have hgone : block.bytes = [] := by
      rw [hbytes]
      exact List.drop_eq_nil_of_le (by omega)
    by_cases heq : left.toNat = (buffer pos).getUsedSize.toNat
    · -- the cut lies at its end
      rw [if_pos heq, if_pos heq]
      refine ⟨_, _, rfl, Nat.le_succ _, by omega, hother, ?_, ?_⟩
      · intro i hi hi'
        rw [show i = pos from by omega, setBlock_same, hgone]
      · rw [show pos + (n + 1) - (pos + 1) = n from by omega, setBlock_chunks]
    · -- it lies behind
      rw [if_neg heq, if_neg heq]
      have hsub : (left - (buffer pos).getUsedSize).toNat =
          left.toNat - (buffer pos).getUsedSize.toNat :=
        UInt32.toNat_sub_of_le _ _ (UInt32.le_iff_toNat_le.mpr (by omega))
      obtain ⟨buffer', pos', hok, hle, hle', hbefore, hnil, hchunks⟩ :=
        @ih (pos + 1) (setBlock pos block buffer) (left - (buffer pos).getUsedSize)
          (fun i hi hi' => by
            rw [setBlock_of_ne (by omega)]
            exact hw i (by omega) (by omega))
          (by rw [setBlock_behind, hsub]; exact hrest (by omega))
      refine ⟨buffer', pos', hok, by omega, by omega, ?_, ?_, ?_⟩
      · intro i hi
        rw [hbefore i (by omega), hother i hi]
      · intro i hi hi'
        by_cases hpos : i = pos
        · rw [hpos, hbefore pos (Nat.lt_succ_self _), setBlock_same, hgone]
        · exact hnil i (by omega) hi'
      · rw [show pos + (n + 1) - pos' = pos + 1 + n - pos' from by omega, hchunks, hsub,
          setBlock_chunks]

/-- The first loop goes through the buffer of every block that it comes to. -/
theorem trim_backed {n pos : Nat} {buffer : Nat → MemSlice} {left : UInt32}
    {r : (Nat → MemSlice) × Nat} (hw : ∀ i, pos ≤ i → i < pos + n → (buffer i).Window)
    (h : trim buffer pos left n = .ok r) : Backed left.toNat ((List.range' pos n).map buffer) := by
  -- induction on the blocks that are left; each one read was cut, so it has a buffer
  induction n generalizing pos buffer left with
  | zero => trivial
  | succ n ih =>
    have hbuffer : (buffer pos).buffer ≠ none := by
      intro hnone
      rw [trim, MemSlice.adjustBeginPointer, MemSlice.setBeginPointer, MemSlice.deref, hnone] at h
      cases h
    refine ⟨hbuffer, fun hlt => ?_⟩
    obtain ⟨block, -, htrim⟩ := trim_succ (hw pos (Nat.le_refl _) (by omega)) hbuffer left n
    rw [htrim, if_neg (by omega), if_neg (by omega)] at h
    have hsub : (left - (buffer pos).getUsedSize).toNat =
        left.toNat - (buffer pos).getUsedSize.toNat :=
      UInt32.toNat_sub_of_le _ _ (UInt32.le_iff_toNat_le.mpr (by omega))
    have hrest := ih (fun i hi hi' => by
      rw [setBlock_of_ne (by omega)]
      exact hw i (by omega) (by omega)) h
    -- the recursion sees the blocks behind `pos`, which the cut of this block leaves alone
    rwa [setBlock_behind, hsub] at hrest

/-! ## The second loop -/

/-- **The second loop rotates**: the last block comes to the front, and the block that was in front to
    `pos`. -/
theorem compact_apply {buffer : Nat → MemSlice} {pos n : Nat} (hpos : 1 ≤ pos) (i : Nat) :
    compact buffer pos n i =
      if i = 0 then (if n = 0 then buffer 0 else buffer (pos + n - 1))
      else if pos ≤ i ∧ i < pos + n then (if i = pos then buffer 0 else buffer (i - 1))
      else buffer i := by
  -- each swap brings the next block to the front and puts the block of the front in its place
  induction n generalizing buffer pos with
  | zero =>
    rw [compact]
    by_cases hi : i = 0
    · simp [hi]
    · rw [if_neg hi, if_neg (by omega)]
  | succ n ih =>
    have hswap : ∀ j, swapBlocks 0 pos buffer j =
        if j = 0 then buffer pos else if j = pos then buffer 0 else buffer j := fun _ => rfl
    have hlater : pos ≤ i ∧ i < pos + (n + 1) ↔ i = pos ∨ pos + 1 ≤ i ∧ i < pos + 1 + n := by omega
    rw [compact, ih (by omega)]
    -- the front holds the last block that was swapped
    by_cases hi : i = 0
    · subst hi
      rw [if_pos rfl, if_pos rfl, if_neg (Nat.succ_ne_zero n)]
      cases n with
      | zero => rfl
      | succ n =>
        rw [if_neg (Nat.succ_ne_zero n), hswap, if_neg (by omega), if_neg (by omega),
          show pos + 1 + (n + 1) - 1 = pos + (n + 1 + 1) - 1 from by omega]
    rw [if_neg hi, if_neg hi]
    -- the first place holds the old front
    by_cases hfirst : i = pos
    · have hno : ¬(pos + 1 ≤ i ∧ i < pos + 1 + n) := by omega
      rw [if_neg hno, if_pos (hlater.mpr (Or.inl hfirst)), if_pos hfirst, hswap, if_neg hi,
        if_pos hfirst]
    -- every later place holds the block before it, and the rest is untouched
    by_cases hin : pos + 1 ≤ i ∧ i < pos + 1 + n
    · rw [if_pos hin, if_pos (hlater.mpr (Or.inr hin)), if_neg hfirst]
      by_cases hsecond : i = pos + 1
      · rw [if_pos hsecond, hswap, if_pos rfl, hsecond, Nat.add_sub_cancel]
      · rw [if_neg hsecond, hswap, if_neg (by omega), if_neg (by omega)]
    · have hno : ¬(pos ≤ i ∧ i < pos + (n + 1)) := by omega
      rw [if_neg hin, if_neg hno, hswap, if_neg hi, if_neg hfirst]

/-- What at most three blocks read as when they are rotated behind empty ones. -/
def rotated {α : Type} : List (List α) → List α
  | [_, t] => t
  | [s, _, u] => u ++ s
  | cs => cs.flatten

/-- The blocks are the same when they are rotated. -/
def Undisturbed {α : Type} : List (List α) → Prop
  | [] => True
  | [_] => True
  | [s, _] => s = []
  | [s, t, u] => t = [] ∧ u ++ s = s ++ u
  | _ => False

/-- Up to three chunks are in order after the rotation exactly if it disturbs nothing. -/
theorem rotated_iff {α : Type} (cs : List (List α)) (hlen : cs.length ≤ 3) :
    rotated cs = cs.flatten ↔ Undisturbed cs := by
  match cs, hlen with
  | [], _ => exact iff_of_true rfl trivial
  | [s], _ => exact iff_of_true rfl trivial
  | [s, t], _ => simp [rotated, Undisturbed]
  | [s, t, u], _ =>
    simp only [rotated, Undisturbed, List.flatten_cons, List.flatten_nil, List.append_nil]
    constructor
    · intro h
      have hlength := congrArg List.length h
      simp only [List.length_append] at hlength
      have hnil : t = [] := List.length_eq_zero_iff.mp (by omega)
      rw [hnil, List.nil_append] at h
      exact ⟨hnil, h⟩
    · rintro ⟨rfl, h⟩
      exact h

/-- Compacting rotates the chunks. -/
theorem compact_flatten {buffer : Nat → MemSlice} {pos n : Nat} (hpos : 1 ≤ pos) (hmax : pos + n ≤ 4)
    (hempty : ∀ i, i < pos → (buffer i).bytes = []) :
    (chunks (compact buffer pos n) 0 n).flatten = rotated (chunks buffer pos n) := by
  have hfront : (buffer 0).bytes = [] := hempty 0 hpos
  have hn : n = 0 ∨ n = 1 ∨ n = 2 ∨ n = 3 := by omega
  rcases hn with rfl | rfl | rfl | rfl
  · rfl
  · simp [chunks, rotated, compact_apply hpos]
  · -- what lies between the front and the end was in front of `pos`
    have hsecond : (if pos ≤ 1 then buffer 0 else buffer 1).bytes = [] := by
      split
      · exact hfront
      · exact hempty 1 (by omega)
    simp [chunks, rotated, List.range', compact_apply hpos, hsecond]
  · obtain rfl : pos = 1 := by omega
    simp [chunks, rotated, List.range', compact_apply, hfront]

/-! ## The operation -/

/-- The slices of a span. -/
def slices (a : MemSliceSpan) : List MemSlice := (List.range' 0 a.block_count.toNat).map a.buffer

/-- The bytes of each block. -/
def blocks (a : MemSliceSpan) : List (List (Option UInt8)) := chunks a.buffer 0 a.block_count.toNat

/-- The blocks of a span, one after the other, are its bytes. -/
theorem blocks_flatten (a : MemSliceSpan) : a.blocks.flatten = a.bytes := by
  rw [blocks, chunks, ← List.range_eq_range', ← List.flatMap_def]
  rfl

/-- What `AdjustBeginPointer` is for. -/
def DropsPrefix (ndebug : Bool) (offset : UInt32) (a : MemSliceSpan) : Prop :=
  ∃ a', a.adjustBeginPointer ndebug offset = .ok a' ∧ a'.bytes = a.bytes.drop offset.toNat ∧
    a'.getUsedSize.toNat = a.getUsedSize.toNat - offset.toNat

/-- No block is used up, or the blocks that are left are the same when they are rotated. -/
def Kept {α : Type} (offset : Nat) (cs : List (List α)) : Prop :=
  (leftOver offset cs).length = cs.length ∨ Undisturbed (leftOver offset cs)

/-- Below the size the assert holds, and the two loops run. -/
theorem adjustBeginPointer_eq (ndebug : Bool) {a : MemSliceSpan} {offset : UInt32}
    (hoffset : offset < a.getUsedSize) :
    a.adjustBeginPointer ndebug offset =
      trim a.buffer 0 offset a.block_count.toNat >>= fun r =>
        if r.2 = 0 then pure ⟨a.size - offset, a.block_count - r.2, r.1⟩
        else pure ⟨a.size - offset, a.block_count - r.2,
          compact r.1 r.2 (a.block_count.toNat - r.2)⟩ := by
  have hlt : offset < a.size := hoffset
  have hassert : require ndebug (decide (offset < a.size)) = .ok () := by
    rw [decide_eq_true hlt]
    cases ndebug <;> rfl
  rw [adjustBeginPointer, hassert, Checked.ok_bind, if_neg (UInt32.not_le.mpr hlt)]

/-- The bytes of a span after the second loop. -/
theorem compact_bytes {block_count : Int} (hmax : block_count ≤ kMaxBlocks)
    {buffer : Nat → MemSlice} {pos : Nat} (hpos : 1 ≤ pos) (hle : pos ≤ block_count.toNat)
    (hempty : ∀ i, i < pos → (buffer i).bytes = []) (size : UInt32) :
    MemSliceSpan.bytes ⟨size, block_count - pos, compact buffer pos (block_count.toNat - pos)⟩ =
      rotated (chunks buffer pos (block_count.toNat - pos)) := by
  have hfour : block_count ≤ 4 := hmax
  have hcount : (block_count - pos).toNat = block_count.toNat - pos := by omega
  rw [← blocks_flatten, blocks]
  show (chunks (compact buffer pos (block_count.toNat - pos)) 0 (block_count - pos).toNat).flatten = _
  rw [hcount]
  exact compact_flatten hpos (by omega) hempty

/-- **When the prefix is dropped.**  For every span of at most four blocks and every offset below its
    size: `AdjustBeginPointer` completes and drops exactly the prefix if and only if the blocks up to
    the cut have buffers, and no block is used up, or at most one block is left, or two and the first
    of them is empty, or three and the second is empty and the others read the same either way. -/
theorem adjustBeginPointer_iff {ndebug : Bool} {a : MemSliceSpan} {offset : UInt32}
    (hmax : a.block_count ≤ kMaxBlocks)
    (hw : ∀ i : Nat, (i : Int) < a.block_count → (a.buffer i).Window)
    (hoffset : offset < a.getUsedSize) :
    DropsPrefix ndebug offset a ↔ Backed offset.toNat a.slices ∧ Kept offset.toNat a.blocks := by
  have hcode := adjustBeginPointer_eq ndebug hoffset
  have hsize : (a.size - offset).toNat = a.getUsedSize.toNat - offset.toNat :=
    UInt32.toNat_sub_of_le _ _ (UInt32.le_of_lt hoffset)
  have hwindow : ∀ i, 0 ≤ i → i < 0 + a.block_count.toNat → (a.buffer i).Window :=
    fun i _ hi => hw i (by omega)
  by_cases hbacked : Backed offset.toNat a.slices
  · obtain ⟨buffer, pos, htrim, -, hle, -, hempty, hleft⟩ := trim_spec hwindow hbacked
    rw [Nat.zero_add] at hle hleft
    have hcount : (a.block_count - pos).toNat = a.block_count.toNat - pos := by omega
    have hnumber := congrArg List.length hleft
    rw [chunks_length] at hnumber
    have hblocks : a.blocks.length = a.block_count.toNat := chunks_length _ _ _
    have hdrop : a.bytes.drop offset.toNat = (leftOver offset.toNat a.blocks).flatten := by
      rw [leftOver_flatten, blocks_flatten]
    rw [DropsPrefix, hcode, htrim, Checked.ok_bind, hdrop]
    simp only [hbacked, true_and]
    by_cases hpos : pos = 0
    · -- no block is used up
      rw [if_pos hpos]
      refine iff_of_true ⟨_, rfl, ?_, hsize⟩ (Or.inl ?_)
      · rw [← blocks_flatten, blocks]
        show (chunks buffer 0 (a.block_count - pos).toNat).flatten = _
        rw [hcount, blocks, ← hleft, hpos]
      · rw [blocks, ← hnumber, hpos, Nat.sub_zero, chunks_length]
    · rw [if_neg hpos]
      have hbytes : MemSliceSpan.bytes ⟨a.size - offset, a.block_count - pos,
          compact buffer pos (a.block_count.toNat - pos)⟩ =
            rotated (leftOver offset.toNat a.blocks) := by
        rw [blocks, ← hleft]
        exact compact_bytes hmax (by omega) hle (fun i hi => hempty i (Nat.zero_le _) hi) _
      have hfew : (leftOver offset.toNat a.blocks).length ≤ 3 := by
        have hfour : a.block_count ≤ 4 := hmax
        rw [blocks, ← hnumber]
        omega
      have hrotated := rotated_iff _ hfew
      constructor
      · rintro ⟨a', ha', hsame, -⟩
        cases ha'
        exact Or.inr (hrotated.mp (hbytes.symm.trans hsame))
      · rintro (hall | hrest)
        · rw [hblocks, blocks, ← hnumber] at hall
          omega
        · exact ⟨_, rfl, hbytes.trans (hrotated.mpr hrest), hsize⟩
  · refine iff_of_false ?_ (fun h => hbacked h.1)
    rintro ⟨a', ha', -⟩
    rw [hcode] at ha'
    obtain ⟨r, hr, -⟩ := Checked.bind_ok.mp ha'
    exact hbacked (trim_backed hwindow hr)

/-- Blocks of one byte, of one byte and of two bytes. -/
def sampleSpan : MemSliceSpan :=
  appendAll [sampleSlice 8 1, sampleSlice 9 1, sampleSlice 10 2] empty

theorem sampleSpan_window (i : Nat) (hi : (i : Int) < sampleSpan.block_count) :
    (sampleSpan.buffer i).Window := by
  have hthree : i = 0 ∨ i = 1 ∨ i = 2 := by
    have hcount : (i : Int) < 3 := hi
    omega
  have hslice : ∀ addr n, (sampleSlice addr n).Window := fun _ _ => MemSlice.window_new _ _
  rcases hthree with rfl | rfl | rfl
  · exact hslice 8 1
  · exact hslice 9 1
  · exact hslice 10 2

/-- Three bytes are dropped, and one is left. -/
theorem adjustBeginPointer_iff_three : DropsPrefix false 3 sampleSpan :=
  (adjustBeginPointer_iff (by decide) sampleSpan_window (by decide)).mpr
    ⟨⟨nofun, fun _ => ⟨nofun, fun _ => ⟨nofun, fun _ => trivial⟩⟩⟩, Or.inr trivial⟩

/-- **Counterexample**: when one byte is dropped, the second block is lost with the first. -/
theorem adjustBeginPointer_loses :
    ofList false [sampleSlice 8 1, sampleSlice 9 1, sampleSlice 10 2] = .ok sampleSpan ∧
      sampleSpan.bytes = [some 0, some 0, some 0, some 1] ∧
      ∃ a, sampleSpan.adjustBeginPointer false 1 = .ok a ∧ a.bytes = [some 0, some 1] ∧
        a.getUsedSize = 3 ∧ ¬DropsPrefix false 1 sampleSpan := by
  refine ⟨rfl, rfl, _, rfl, rfl, rfl, ?_⟩
  rintro ⟨a, ha, hbytes, -⟩
  cases ha
  have hlength := congrArg List.length hbytes
  exact absurd hlength (by decide)

end MemSliceSpan

end Turnserver
