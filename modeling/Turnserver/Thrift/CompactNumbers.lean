/-
  THE NUMBERS OF THE COMPACT PROTOCOL — the words of the code and the integers of the library.

  * `varintBytes_eq`: with room for all of its bytes, the loop of `writeVarint32` and `writeVarint64`
    leaves the bytes of the number in the buffer;
  * `fastVarint_eq`: the loop of `readVarint64` finds the group at the front, of no more than ten
    bytes, and its value modulo 2⁶⁴;
  * the words that are written for signed numbers are read back as these numbers.
-/
import Turnserver.Thrift.TCompactProtocol

namespace Turnserver

namespace Thrift

open Varint

/-! ## Writing -/

/-- The mask of seven bits is the remainder. -/
theorem toNat_and_low (n : UInt64) : (n &&& 0x7F).toNat = n.toNat % 128 := by
  rw [UInt64.toNat_and]
  exact Nat.and_two_pow_sub_one_eq_mod n.toNat 7

/-- The low and the high bits make up the number. -/
theorem low_or_high (n : UInt64) : (n &&& 0x7F) ||| (n &&& ~~~0x7F) = n := by
  have h : (0x7F : BitVec 64) ||| ~~~0x7F = BitVec.allOnes 64 := by decide
  apply UInt64.toBitVec_inj.mp
  rw [UInt64.toBitVec_or, UInt64.toBitVec_and, UInt64.toBitVec_and, ← BitVec.and_or_distrib_left]
  exact (congrArg (n.toBitVec &&& ·) h).trans BitVec.and_allOnes

/-- The test of the loop: nothing is left above the low seven bits. -/
theorem high_eq_zero_iff (n : UInt64) : n &&& ~~~0x7F = 0 ↔ n.toNat < 128 := by
  constructor
  · intro h
    have hn := low_or_high n
    rw [h, UInt64.or_zero] at hn
    rw [← hn, toNat_and_low]
    exact Nat.mod_lt _ (by decide)
  · intro h
    have hn : n &&& 0x7F = n := UInt64.toNat_inj.mp (by rw [toNat_and_low, Nat.mod_eq_of_lt h])
    rw [← hn, UInt64.and_assoc, UInt64.and_not_self, UInt64.and_zero]

/-- A byte with the mark that more follow. -/
theorem low_or_continue (n : UInt64) :
    ((n &&& 0x7F) ||| 0x80).toUInt8 = UInt8.ofNat (n.toNat % 128 + 128) := by
  apply UInt8.toNat_inj.mp
  have h := Nat.two_pow_add_eq_or_of_lt (i := 7) (b := n.toNat % 128) (by omega) 1
  rw [UInt64.toNat_toUInt8, UInt64.toNat_or, toNat_and_low, toNat_ofNat_of_lt (by omega), Nat.or_comm,
    show UInt64.toNat 0x80 = 2 ^ 7 * 1 from rfl, ← h]
  omega

/-- Shifting by seven bits divides. -/
theorem toNat_shift_septet (n : UInt64) : (n >>> 7).toNat = n.toNat / 128 := by
  rw [UInt64.toNat_shiftRight]
  exact Nat.shiftRight_eq_div_pow n.toNat 7

/-- With room for its bytes a number is in the buffer. -/
theorem varintBytes_eq {room : Nat} {n : UInt64} (hroom : 0 < room) (h : n.toNat < 2 ^ (7 * room)) :
    varintBytes room n = some (encode n.toNat) := by
  -- induction on the room: seven bits go with each byte
  induction room generalizing n with
  | zero => exact absurd hroom (Nat.lt_irrefl 0)
  | succ room ih =>
    rw [varintBytes]
    -- the last group has its high bit clear, every other one has it set
    rcases Nat.lt_or_ge n.toNat 128 with hn | hn
    · rw [if_pos ((high_eq_zero_iff n).mpr hn), encode_of_lt hn]
      rfl
    · have hdiv : n.toNat / 128 < 2 ^ (7 * room) := by
        rw [Nat.div_lt_iff_lt_mul (by decide)]
        rwa [show 7 * (room + 1) = 7 * room + 7 from by omega, Nat.pow_add] at h
      have hpos : 0 < room := by
        rcases Nat.eq_zero_or_pos room with rfl | hpos
        · exact absurd hdiv (by omega)
        · exact hpos
      have hnext := ih (n := n >>> 7) hpos (by rwa [toNat_shift_septet])
      rw [if_neg (by rw [high_eq_zero_iff]; omega), hnext, encode_of_ge hn, toNat_shift_septet,
        low_or_continue]
      rfl

/-! ## Reading -/

/-- The mask of seven bits of a byte is the remainder. -/
theorem toNat_and_low8 (b : UInt8) : (b &&& 0x7f).toNat = b.toNat % 128 := by
  rw [UInt8.toNat_and]
  exact Nat.and_two_pow_sub_one_eq_mod b.toNat 7

/-- The test of the loops: the high bit is clear. -/
theorem continue_eq_zero_iff (b : UInt8) : b &&& 0x80 = 0 ↔ b.toNat < 128 := by
  have h : ∀ x : BitVec 8, x &&& 0x80#8 = 0#8 ↔ x.toNat < 128 := by decide
  rw [← UInt8.toBitVec_inj]
  exact h b.toBitVec

/-- What has been read so far is the value of the bytes that were read. -/
theorem addSeptet_value {w : List UInt8} (h : w.length < varintSize) (b : UInt8) :
    addSeptet (.ofNat (value w)) w.length b = .ofNat (value (w ++ [b])) := by
  have hlen : w.length < 10 := h
  have hshift : (UInt64.ofNat (7 * w.length)).toNat % 64 = 7 * w.length := by
    rw [UInt64.toNat_ofNat', Nat.mod_eq_of_lt (a := 7 * w.length) (by omega)]
    omega
  have hor : value w ||| (b.toNat % 128) <<< (7 * w.length) = value (w ++ [b]) := by
    rw [Nat.or_comm, ← Nat.shiftLeft_add_eq_or_of_lt (value_lt w), value_append, value_cons,
      value_nil, Nat.shiftLeft_eq]
    ring
  apply UInt64.toNat_inj.mp
  rw [addSeptet, UInt64.toNat_or, UInt64.toNat_shiftLeft, hshift, UInt8.toNat_toUInt64,
    toNat_and_low8, UInt64.toNat_ofNat', UInt64.toNat_ofNat', ← Nat.or_mod_two_pow, hor]

/-- The loop finds what `cut` cuts off. -/
theorem fastVarint_eq {bs w : List UInt8} (h : w.length < varintSize) :
    fastVarint bs w.length (.ofNat (value w)) = (cut (varintSize - w.length) bs).map fun r =>
      (.ofNat (value (w ++ r.1)), (w ++ r.1).length) := by
  -- induction on the bytes, with the value of the bytes read so far
  induction bs generalizing w with
  | nil =>
    rcases Nat.exists_eq_succ_of_ne_zero (Nat.sub_ne_zero_of_lt h) with ⟨k, hk⟩
    rw [hk]
    rfl
  | cons b bs ih =>
    rcases Nat.exists_eq_succ_of_ne_zero (Nat.sub_ne_zero_of_lt h) with ⟨k, hk⟩
    rw [hk, fastVarint, cut, addSeptet_value h]
    rcases Nat.lt_or_ge b.toNat 128 with hb | hb
    · rw [if_pos ((continue_eq_zero_iff b).mpr hb), if_pos hb]
      simp
    · have hmore : ¬ b &&& 0x80 = 0 := by
        rw [continue_eq_zero_iff]
        omega
      rw [if_neg hmore, if_neg (show ¬ b.toNat < 128 by omega)]
      -- the tenth byte is the last that is looked at
      rcases Nat.lt_or_ge (w.length + 1) varintSize with hlt | hge
      · have hnext := ih (w := w ++ [b]) (by simpa using hlt)
        have hleft : varintSize - (w ++ [b]).length = k := by
          rw [List.length_append, List.length_singleton]
          omega
        rw [List.length_append, List.length_singleton] at hnext
        rw [if_neg (by omega), hnext, Option.map_map]
        rw [List.length_append, List.length_singleton] at hleft
        rw [hleft]
        simp [Function.comp_def]
      · obtain rfl : k = 0 := by omega
        rw [if_pos (by omega)]
        rfl

/-! ## Signed numbers -/

/-- The zigzag of an `i64` comes back. -/
theorem zigzagToI64_i64ToZigzag (l : Int64) : zigzagToI64 (i64ToZigzag l) = l := by
  apply Int64.toBitVec_inj.mp
  exact unzigzag_zigzag l.toBitVec

/-- The zigzag of an `i32` comes back. -/
theorem zigzagToI32_i32ToZigzag (n : Int32) : zigzagToI32 (i32ToZigzag n) = n := by
  apply Int32.toBitVec_inj.mp
  exact unzigzag_zigzag n.toBitVec

end Thrift

end Turnserver
