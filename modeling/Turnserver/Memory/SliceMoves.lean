/-
  RELATIVE MOVES OF A SLICE (`memory/mem_slice.cpp`, `memory/mem_slice.h`) — `AdjustBeginPointer`,
  `AdjustEndPointer` and `UpdateBegin` against exact arithmetic.

  The three form a 32-bit sum and clamp it afterwards.  A sum that leaves the 32 bits comes back at the
  other end of the range, where the clamp takes it for an overshoot on the other side: a begin that is
  moved below zero lands at the end of the window, an end that is moved below zero at the end of the
  block, and `UpdateBegin` with a huge argument moves BACK.

  `moves_iff`: each of the three does what it would do over the integers exactly when its sum does not
  leave the range, or when the two ends are the same place anyway.
-/
import Turnserver.Memory.MemSlice

namespace Turnserver

open Transition

namespace MemSlice

/-! ## Over the integers -/

/-- `AdjustBeginPointer(d)` leaves the begin at `max(0, min(begin + d, end))`. -/
def BeginSaturates (d : Int32) (s : MemSlice) : Prop :=
  ∃ s', s.adjustBeginPointer d = .ok s' ∧ s'.buffer = s.buffer ∧ s'.end_offset = s.end_offset ∧
    (s'.begin_offset.toNat : Int) = max 0 (min (s.begin_offset.toNat + d.toInt) s.end_offset.toNat)

/-- `AdjustEndPointer(d)` leaves the end at `max(begin, min(end + d, Capacity()))`. -/
def EndSaturates (d : Int32) (s : MemSlice) : Prop :=
  ∃ s', s.adjustEndPointer d = .ok s' ∧ s'.buffer = s.buffer ∧ s'.begin_offset = s.begin_offset ∧
    (s'.end_offset.toNat : Int) =
      max ↑s.begin_offset.toNat (min (s.end_offset.toNat + d.toInt) s.limit.toNat)

/-- `UpdateBegin(n)` advances the begin by `n` if that many bytes are used, and does nothing else. -/
def UpdateAdvances (n : UInt32) (s : MemSlice) : Prop :=
  ((s.updateBegin n).2 = true ↔ n.toNat ≤ s.getUsedSize.toNat) ∧
    ((s.updateBegin n).2 = true → (s.updateBegin n).1.buffer = s.buffer ∧
      (s.updateBegin n).1.end_offset = s.end_offset ∧
      (s.updateBegin n).1.begin_offset.toNat = s.begin_offset.toNat + n.toNat) ∧
    ((s.updateBegin n).2 = false → (s.updateBegin n).1 = s)

/-! ## The sums -/

/-- The sum of an offset and a distance, in 32 bits. -/
theorem moved_toNat (x : UInt32) (d : Int32) :
    ((x.toInt32 + d).toUInt32.toNat : Int) = (x.toNat + d.toInt) % 2 ^ 32 := by
  have hd : d.toInt = if 2 * d.toUInt32.toNat < 2 ^ 32 then (d.toUInt32.toNat : Int)
      else d.toUInt32.toNat - 2 ^ 32 := BitVec.toInt_eq_toNat_cond d.toBitVec
  rw [Int32.toUInt32_add, UInt32.toUInt32_toInt32, UInt32.toNat_add, hd]
  split <;> omega

/-- Below 2^31 it is exact, or comes back above 2^31. -/
theorem moved_cases {x : UInt32} (hx : x.toNat < 2 ^ 31) (d : Int32) :
    (0 ≤ x.toNat + d.toInt ∧ ((x.toInt32 + d).toUInt32.toNat : Int) = x.toNat + d.toInt) ∨
      (x.toNat + d.toInt < 0 ∧ 2 ^ 31 ≤ (x.toInt32 + d).toUInt32.toNat) := by
  have hsum := moved_toNat x d
  have hlow : -2 ^ 31 ≤ d.toInt := d.le_toInt
  have hhigh : d.toInt < 2 ^ 31 := d.toInt_lt
  omega

section

variable {s : MemSlice} {b : Block}

/-- `SetBeginPointer` clamps to the end. -/
theorem setBeginPointer_some (hbuffer : s.buffer = some b) (position : UInt32) :
    ∃ s', s.setBeginPointer position = .ok s' ∧ s'.buffer = s.buffer ∧ s'.end_offset = s.end_offset ∧
      s'.begin_offset.toNat = min position.toNat s.end_offset.toNat := by
  refine ⟨{ s with begin_offset := if position > s.end_offset then s.end_offset else position },
    ?_, rfl, rfl, ?_⟩
  · rw [setBeginPointer, deref, hbuffer]
  · show (if position > s.end_offset then s.end_offset else position).toNat = _
    split
    · next hgt =>
      have hlt : s.end_offset.toNat < position.toNat := UInt32.lt_iff_toNat_lt.mp hgt
      omega
    · next hle =>
      have hle : ¬s.end_offset.toNat < position.toNat := fun h => hle (UInt32.lt_iff_toNat_lt.mpr h)
      omega

/-- `SetEndPointer` clamps to the begin, and then to the capacity. -/
theorem setEndPointer_some (hw : s.Window) (hbuffer : s.buffer = some b) (position : UInt32) :
    ∃ s', s.setEndPointer position = .ok s' ∧ s'.buffer = s.buffer ∧
      s'.begin_offset = s.begin_offset ∧
      s'.end_offset.toNat = max s.begin_offset.toNat (min position.toNat s.limit.toNat) := by
  have hbegin := UInt32.le_iff_toNat_le.mp hw.begin_le
  have hend := UInt32.le_iff_toNat_le.mp hw.end_le
  have hlimit : s.limit = b.capacity := by
    rw [limit, hbuffer]
  rw [hlimit] at hend ⊢
  -- the new end is raised to the begin first, then cut at the capacity
  let raised := if position < s.begin_offset then s.begin_offset else position
  have hraised : raised.toNat = max position.toNat s.begin_offset.toNat := by
    show (if position < s.begin_offset then s.begin_offset else position).toNat = _
    split
    · next hlt =>
      rw [UInt32.lt_iff_toNat_lt] at hlt
      omega
    · next hle =>
      rw [UInt32.lt_iff_toNat_lt] at hle
      omega
  refine ⟨{ s with end_offset := if raised > b.capacity then b.capacity else raised }, ?_, rfl, rfl, ?_⟩
  · simp only [setEndPointer, hbuffer]
    rfl
  · show (if raised > b.capacity then b.capacity else raised).toNat = _
    split
    · next hgt =>
      have hlt : b.capacity.toNat < raised.toNat := UInt32.lt_iff_toNat_lt.mp hgt
      omega
    · next hle =>
      have hle : ¬b.capacity.toNat < raised.toNat := fun h => hle (UInt32.lt_iff_toNat_lt.mpr h)
      omega

/-! ## Each of the three -/

/-- `AdjustBeginPointer` saturates exactly if the sum is not negative, or the window ends at zero. -/
theorem beginSaturates_iff (hw : s.Window) (hbuffer : s.buffer = some b) (hsmall : s.limit.toNat < 2 ^ 31)
    (d : Int32) : BeginSaturates d s ↔ 0 ≤ s.begin_offset.toNat + d.toInt ∨ s.end_offset = 0 := by
  have hbegin := UInt32.le_iff_toNat_le.mp hw.begin_le
  have hend := UInt32.le_iff_toNat_le.mp hw.end_le
  -- the sum is taken in 32 bits, and wraps exactly if it is negative
  obtain ⟨s', hs', hbuffer', hend', hbegin'⟩ :=
    setBeginPointer_some hbuffer (s.begin_offset.toInt32 + d).toUInt32
  have hzero : s.end_offset = 0 ↔ s.end_offset.toNat = 0 := UInt32.toNat_inj.symm
  have hresult : BeginSaturates d s ↔ (s'.begin_offset.toNat : Int) =
      max 0 (min (s.begin_offset.toNat + d.toInt) s.end_offset.toNat) := by
    constructor
    · rintro ⟨t, ht, -, -, hvalue⟩
      obtain rfl : s' = t := Except.ok.inj (hs'.symm.trans ht)
      exact hvalue
    · intro hvalue
      exact ⟨s', hs', hbuffer', hend', hvalue⟩
  rw [hresult, hzero]
  rcases moved_cases (show s.begin_offset.toNat < 2 ^ 31 by omega) d with ⟨hnonneg, hsum⟩ | ⟨hneg, hsum⟩
  · omega
  · omega

/-- `AdjustEndPointer` saturates exactly if the sum is not negative, or the window begins at the limit.
    -/
theorem endSaturates_iff (hw : s.Window) (hbuffer : s.buffer = some b) (hsmall : s.limit.toNat < 2 ^ 31)
    (d : Int32) :
    EndSaturates d s ↔ 0 ≤ s.end_offset.toNat + d.toInt ∨ s.begin_offset = s.limit := by
  have hbegin := UInt32.le_iff_toNat_le.mp hw.begin_le
  have hend := UInt32.le_iff_toNat_le.mp hw.end_le
  -- the begin is left alone, so only the value of the end is in question
  obtain ⟨s', hs', hbuffer', hbegin', hend'⟩ :=
    setEndPointer_some hw hbuffer (s.end_offset.toInt32 + d).toUInt32
  have hfull : s.begin_offset = s.limit ↔ s.begin_offset.toNat = s.limit.toNat := UInt32.toNat_inj.symm
  have hresult : EndSaturates d s ↔ (s'.end_offset.toNat : Int) =
      max ↑s.begin_offset.toNat (min (s.end_offset.toNat + d.toInt) s.limit.toNat) := by
    constructor
    · rintro ⟨t, ht, -, -, hvalue⟩
      obtain rfl : s' = t := Except.ok.inj (hs'.symm.trans ht)
      exact hvalue
    · intro hvalue
      exact ⟨s', hs', hbuffer', hbegin', hvalue⟩
  rw [hresult, hfull]
  rcases moved_cases (show s.end_offset.toNat < 2 ^ 31 by omega) d with ⟨hnonneg, hsum⟩ | ⟨hneg, hsum⟩
  · omega
  · omega

/-- `UpdateBegin` advances exactly if the sum does not wrap. -/
theorem updateAdvances_iff (hw : s.Window) (n : UInt32) :
    UpdateAdvances n s ↔ s.begin_offset.toNat + n.toNat < 2 ^ 32 := by
  have hbegin := UInt32.le_iff_toNat_le.mp hw.begin_le
  have hused := hw.getUsedSize
  have hlt := s.end_offset.toNat_lt
  have hn := n.toNat_lt
  have hsum : (s.begin_offset + n).toNat = (s.begin_offset.toNat + n.toNat) % 2 ^ 32 := UInt32.toNat_add _ _
  have hgt : s.begin_offset + n > s.end_offset ↔ s.end_offset.toNat < (s.begin_offset + n).toNat :=
    UInt32.lt_iff_toNat_lt
  unfold UpdateAdvances updateBegin
  -- the comparison is made with the wrapped sum
  by_cases hover : s.begin_offset + n > s.end_offset
  · rw [if_pos hover]
    rw [hgt] at hover
    simp
    omega
  · rw [if_neg hover]
    rw [hgt] at hover
    simp
    omega

end

end MemSlice

namespace Slices

open MemSlice

/-- **When the moves saturate.**  For every slice that a run leads to, with a buffer of a capacity below
    2^31, and every argument. -/
theorem moves_iff {ts : List (Slices × SliceOp × Slices)} {σ : Slices} (hrun : Run Step initial ts σ)
    {x : Nat} {b : Block} (hbuffer : (σ x).buffer = some b) (hsmall : b.mem.capacity < 2 ^ 31) :
    (∀ d, BeginSaturates d (σ x) ↔ 0 ≤ (σ x).begin_offset.toNat + d.toInt ∨ (σ x).end_offset = 0) ∧
    (∀ d, EndSaturates d (σ x) ↔
      0 ≤ (σ x).end_offset.toNat + d.toInt ∨ (σ x).begin_offset = (σ x).limit) ∧
    (∀ n, UpdateAdvances n (σ x) ↔ (σ x).begin_offset.toNat + n.toNat < 2 ^ 32) := by
  have hstep : ∀ σ op σ', (∀ x, Window (σ x)) → Step σ op σ' → ∀ x, Window (σ' x) :=
    fun _ _ _ hσ h => window_step hσ h
  have hw := (Run.invariant hstep hrun fun _ => window_new none kDefaultWindow).1 x
  have hlimit : (σ x).limit.toNat < 2 ^ 31 := by
    rw [limit, hbuffer, b.capacity_toNat]
    exact hsmall
  exact ⟨beginSaturates_iff hw hbuffer hlimit, endSaturates_iff hw hbuffer hlimit,
    updateAdvances_iff hw⟩

/-- A slice of a block of 16 bytes, without the first four. -/
def sampleSlices : Slices :=
  (initial.set 0 ⟨some (.create 0 16), 0, 16⟩).set 0 ⟨some (.create 0 16), 4, 16⟩

theorem sampleSlices_run : ∃ ts, Run Step initial ts sampleSlices := by
  have hnew : Step initial (.new 0 (some (.create 0 16)) kDefaultWindow)
      (initial.set 0 ⟨some (.create 0 16), 0, 16⟩) := rfl
  have hbegin : Step (initial.set 0 ⟨some (.create 0 16), 0, 16⟩) (.setBeginPointer 0 4) sampleSlices :=
    rfl
  exact ⟨_, Run.cons hnew (Run.single hbegin)⟩

/-- The begin moves back by three. -/
theorem moves_iff_sample : BeginSaturates (-3) (sampleSlices 0) := by
  obtain ⟨ts, hrun⟩ := sampleSlices_run
  have hbuffer : (sampleSlices 0).buffer = some (.create 0 16) := rfl
  exact ((moves_iff hrun hbuffer (by decide)).1 (-3)).mpr (Or.inl (by decide))

/-- **Counterexample**: moved below zero, the begin lands at the end of the window, and the end at the
    end of the block; `UpdateBegin(0xFFFFFFFF)` moves the begin back and says that it advanced. -/
theorem moves_wrap :
    let s := sampleSlices 0
    (∃ ts, Run Step initial ts sampleSlices) ∧
      s.adjustBeginPointer (-5) = .ok { s with begin_offset := 16 } ∧ ¬BeginSaturates (-5) s ∧
      s.adjustEndPointer (-17) = .ok { s with end_offset := 16 } ∧ ¬EndSaturates (-17) s ∧
      s.updateBegin 0xFFFFFFFF = ({ s with begin_offset := 3 }, true) ∧ ¬UpdateAdvances 0xFFFFFFFF s := by
  intro s
  have hbuffer : s.buffer = some (.create 0 16) := rfl
  have hw : s.Window := ⟨by decide, by decide⟩
  have hsmall : s.limit.toNat < 2 ^ 31 := by decide
  -- adding `0xFFFFFFFF` steps back by one
  have hback : s.updateBegin 0xFFFFFFFF = ({ s with begin_offset := 3 }, true) := by
    have hsum : s.begin_offset + 0xFFFFFFFF = 3 := by decide
    have hle : ¬s.begin_offset + 0xFFFFFFFF > s.end_offset := by decide
    rw [updateBegin, if_neg hle, hsum]
  -- -5 on 4 wraps to `0xFFFFFFFF`, which is cut at the end of the window
  have hbegin : s.adjustBeginPointer (-5) = .ok { s with begin_offset := 16 } := by
    have hsum : (s.begin_offset.toInt32 + -5).toUInt32 = 0xFFFFFFFF := by decide
    have hgt : (0xFFFFFFFF : UInt32) > s.end_offset := by decide
    rw [adjustBeginPointer, hsum, setBeginPointer, if_pos hgt]
    rfl
  -- -17 on 16 wraps the same way, and is cut at the capacity
  have hend : s.adjustEndPointer (-17) = .ok { s with end_offset := 16 } := by
    have hsum : (s.end_offset.toInt32 + -17).toUInt32 = 0xFFFFFFFF := by decide
    have hle : ¬(0xFFFFFFFF : UInt32) < s.begin_offset := by decide
    have hgt : (0xFFFFFFFF : UInt32) > (Block.create 0 16).capacity := by decide
    rw [adjustEndPointer, hsum, setEndPointer, if_neg hle, hbuffer]
    dsimp only
    rw [if_pos hgt]
    rfl
  refine ⟨sampleSlices_run, hbegin, ?_, hend, ?_, hback, ?_⟩
  · rw [beginSaturates_iff hw hbuffer hsmall]
    decide
  · rw [endSaturates_iff hw hbuffer hsmall]
    decide
  · rw [updateAdvances_iff hw]
    decide

end Slices

end Turnserver
