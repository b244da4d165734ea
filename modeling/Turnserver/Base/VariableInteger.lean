/-
  VARIABLE-WIDTH INTEGERS (`base/packer.h`, 61–64, 222–255, `base/unpacker.h`, 78–95) — what
  `PushVariableUint32` writes and `PopVariableUint32` reads at the same place.

  * Fifteen bits go into a 16-bit word, and eight more into one byte: `pop_lt` says that no more than
    23 bits come back.
  * `roundTrip_iff`: so a value is read back exactly when it is below `2 ^ 23` and there was room to
    write it.  The comment at `PushVariableUint32` allows `2 ^ 23` itself.
  * `eq_of_prefix_encVar`: up to that value no encoding is the beginning of another one.
-/
import Turnserver.Base.PackerBounds
import Turnserver.Base.Unpacker

namespace Turnserver

open Bytes Parsing

namespace Packer

/-- The limit at `PushVariableUint32`: "This |value| should not larger than 8 * 1024 * 1024". -/
def variableLimit : Nat := 8 * 1024 * 1024

/-- `value` is written at the position of `p`, and read back there by an unpacker, whatever follows. -/
def RoundTrip (p : Packer) (value : Nat) : Prop :=
  ∃ q, p.pushVariableUint32 value = .ok (q, variableUint32Length value) ∧
    q.position = p.position + variableUint32Length value ∧
    ∀ u : Unpacker, u.position = p.position →
      (∀ i, p.position ≤ i → i < q.position → q.mem.cells i = some (u.mem i)) →
      (Unpacker.popVariableUint32.run u).1 = value ∧
        (Unpacker.popVariableUint32.run u).2.position =
          u.position + variableUint32Length value

/-- At most 23 bits are read. -/
theorem pop_lt (u : Unpacker) : (Unpacker.popVariableUint32.run u).1 < 2 ^ 23 := by
  obtain ⟨k, hk⟩ := Unpacker.popVariableUint32_run u
  rw [hk]
  generalize hpos : leNat ((List.range 2).map fun i => u.mem (u.position + 0 + i)) = pos
  have hup := leNat_lt ((List.range 1).map fun i => u.mem (u.position + 2 + i))
  rw [List.length_map, List.length_range, Nat.pow_one] at hup
  have hlow : pos &&& 0x7FFF < 0x8000 := Nat.lt_succ_of_le Nat.and_le_right
  dsimp only
  split
  · dsimp only
    omega
  · dsimp only
    omega

/-- The cells that were written are the bytes of the value. -/
theorem written_cells {p q : Packer} {written : Nat → Option UInt8} {value : Nat}
    (hq : Safe q (overlay written p.position (encVar value))) (i : Nat)
    (hi : i < (encVar value).length) :
    q.mem.cells (p.position + i) = some (encVar value)[i] := by
  refine (hq.intact (p.position + i) (encVar value)[i] ?_).2
  rw [overlay, if_pos ⟨Nat.le_add_right _ _, Nat.add_lt_add_left hi _⟩, Nat.add_sub_cancel_left]
  exact List.getElem?_eq_getElem hi

/-- Pushing and reading back gives the value exactly where there is room and the value is below 2^23.
    -/
theorem roundTrip_iff {p : Packer} {written : Nat → Option UInt8} (h : Safe p written)
    (value : Nat) : RoundTrip p value ↔ FitsVariable p value ∧ value < 2 ^ 23 := by
  rcases pushVariableUint32_cases h value with ⟨hfits, q, hq, hsafe, hpos⟩ | ⟨hnot, herr⟩
  · have hlen := encVar_length value
    rw [and_iff_right hfits]
    constructor
    · rintro ⟨q', hq', -, hread⟩
      cases hq.symm.trans hq'
      -- an unpacker on the block of the packer itself
      have hu := (hread ⟨fun i => (q.mem.cells i).getD 0, 0, p.position, 0, 0⟩ rfl
        fun i hlo hhi => ?_).1
      · rw [← hu]
        exact pop_lt _
      · have hcell := written_cells hsafe (i - p.position) (by omega)
        rw [Nat.add_sub_cancel' hlo] at hcell
        show q.mem.cells i = some ((q.mem.cells i).getD 0)
        rw [hcell]
        rfl
    · intro hlt
      refine ⟨q, hq, hpos, fun u hu hmem => ?_⟩
      have hqlt := hsafe.position_lt
      have hat : u.At (encVar value) := by
        refine ⟨by omega, fun i hi => ?_⟩
        have hcell := written_cells hsafe i hi
        rw [hmem (p.position + i) (Nat.le_add_right _ _) (by omega), ← hu] at hcell
        exact Option.some_inj.mp hcell
      have hrun := Strict.popVariableUint32_yields hlt []
      rw [List.append_nil] at hrun
      obtain ⟨hvalue, -, -, hend, -⟩ := Unpacker.Follows.popVariableUint32.success hat hrun
      rw [List.length_nil, Nat.add_zero, hlen] at hend
      exact ⟨hvalue, hend⟩
  · refine iff_of_false ?_ fun h => hnot h.1
    rintro ⟨q, hq, -⟩
    rw [herr] at hq
    cases hq

/-- The first word of an encoding. -/
theorem leNat_take_encVar (value : Nat) :
    leNat ((encVar value).take 2) =
      if value < 0x8000 then value else value % 0x8000 + 0x8000 := by
  rw [encVar]
  split
  · rw [List.take_of_length_le (by rw [leBytes_length]), leNat_leBytes_of_lt (by omega)]
  · rw [List.take_left' (leBytes_length 2 _), leNat_leBytes_of_lt (by omega)]

/-- An encoding of three bytes, as one number. -/
theorem leNat_encVar_long {value : Nat} (h : ¬ value < 0x8000) :
    leNat (encVar value) = value % 0x8000 + 0x8000 + 256 ^ 2 * (value / 0x8000 % 256) := by
  rw [encVar, if_neg h, leNat_append, leBytes_length, leNat_leBytes_of_lt (by omega),
    leNat_leBytes_of_lt (by omega)]

/-- **Up to the limit no encoding is the beginning of another one.** -/
theorem eq_of_prefix_encVar {v w : Nat} (hv : v ≤ variableLimit) (hw : w ≤ variableLimit)
    (h : encVar v <+: encVar w) : v = w := by
  rw [variableLimit] at hv hw
  obtain ⟨t, ht⟩ := h
  have hword : leNat ((encVar v).take 2) = leNat ((encVar w).take 2) := by
    rw [← ht, List.take_append_of_le_length (encVar_length_pos v)]
  rw [leNat_take_encVar, leNat_take_encVar] at hword
  by_cases hlo : v < 0x8000
  · rw [if_pos hlo] at hword
    split at hword <;> omega
  · rw [if_neg hlo] at hword
    by_cases hlo' : w < 0x8000
    · rw [if_pos hlo'] at hword
      omega
    · -- both are three bytes long, so they are the same bytes
      have hlen := congrArg List.length ht
      rw [List.length_append, encVar_length, encVar_length, variableUint32Length,
        variableUint32Length, if_neg hlo, if_neg hlo'] at hlen
      obtain rfl : t = [] := List.length_eq_zero_iff.mp (by omega)
      rw [List.append_nil] at ht
      have hall := congrArg leNat ht
      rw [leNat_encVar_long hlo, leNat_encVar_long hlo'] at hall
      omega

/-- **Variable-width integers.**  A value is read back exactly when it fits and is below the limit, and
    up to the limit the encodings are told apart by their beginnings. -/
theorem variableUint32_iff {p : Packer} {written : Nat → Option UInt8} (h : Safe p written)
    (value : Nat) :
    (RoundTrip p value ↔ FitsVariable p value ∧ value < variableLimit) ∧
      ∀ v w, v ≤ variableLimit → w ≤ variableLimit → v ≠ w → ¬ encVar v <+: encVar w := by
  refine ⟨?_, fun v w hv hw hne hprefix => hne (eq_of_prefix_encVar hv hw hprefix)⟩
  have hlimit : variableLimit = 2 ^ 23 := by decide
  rw [hlimit]
  exact roundTrip_iff h value

/-- A new packer is safe, and nothing was written. -/
theorem safe_new (buffer_sz : UInt32) : Safe (Packer.new buffer_sz) fun _ => none :=
  PackerRun.initial_goesOn buffer_sz _ rfl

/-- A value of three bytes, in a new packer. -/
theorem variableUint32_iff_new : RoundTrip (Packer.new 64) 40000 :=
  (variableUint32_iff (safe_new 64) 40000).1.mpr ⟨Or.inl (by decide), by decide⟩

/-- The limit itself is written with three bytes, its own bits are lost, and it is not read back. -/
theorem variableUint32_limit :
    FitsVariable (Packer.new 64) variableLimit ∧ encVar variableLimit = [0, 128, 0] ∧
      ¬ RoundTrip (Packer.new 64) variableLimit := by
  refine ⟨Or.inl (by decide), by decide, fun h => ?_⟩
  exact absurd ((roundTrip_iff (safe_new 64) variableLimit).mp h).2 (by decide)

end Packer

end Turnserver
