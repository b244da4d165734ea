/-
  VARIABLE-LENGTH INTEGERS — seven bits a byte, and the zigzag order of signed words.

  A number is written with its low seven bits first; every byte but the last has its high bit set.

  * `encode n`, `value w` — the bytes of a number, the number of some bytes: `value_encode`;
  * `Group w` — one integer: bytes of which the last one, and only it, has its high bit clear;
  * `cut k bs` — the group at the front of `bs`, when it has no more than `k` bytes (`cut_iff`): what
    every reader of such integers has to find, whichever way it goes about it;
  * `zigzag`, `unzigzag` — signed words in the order 0, −1, 1, −2, …, and back, at every width.
-/
import Mathlib.Data.Nat.Bitwise
import Mathlib.Tactic.Ring

namespace Varint

/-! ## Numbers and their bytes -/

/-- Seven bits in each byte, the lowest first; the highest bit says that there is more. -/
def encode (n : Nat) : List UInt8 :=
  if n < 128 then [UInt8.ofNat n] else UInt8.ofNat (n % 128 + 128) :: encode (n / 128)
termination_by n
decreasing_by omega

/-- The number that the bytes say, whatever their highest bits. -/
def value : List UInt8 → Nat
  | [] => 0
  | b :: bs => b.toNat % 128 + 128 * value bs

@[simp] theorem value_nil : value [] = 0 := rfl

@[simp] theorem value_cons (b : UInt8) (bs : List UInt8) :
    value (b :: bs) = b.toNat % 128 + 128 * value bs := rfl

/-- The bytes behind count seven bits more each. -/
theorem value_append (w bs : List UInt8) :
    value (w ++ bs) = value w + 2 ^ (7 * w.length) * value bs := by
  induction w with
  | nil => simp
  | cons b w ih =>
    rw [List.cons_append, value_cons, ih, value_cons, List.length_cons,
      show 7 * (w.length + 1) = 7 + 7 * w.length from by omega, Nat.pow_add]
    ring

/-- Seven bits a byte. -/
theorem value_lt (w : List UInt8) : value w < 2 ^ (7 * w.length) := by
  induction w with
  | nil => simp
  | cons b w ih =>
    rw [value_cons, List.length_cons, show 7 * (w.length + 1) = 7 + 7 * w.length from by omega,
      Nat.pow_add]
    omega

/-- Below 128 one byte is enough. -/
theorem encode_of_lt {n : Nat} (h : n < 128) : encode n = [UInt8.ofNat n] := by
  rw [encode, if_pos h]

/-- From 128 on there is more. -/
theorem encode_of_ge {n : Nat} (h : 128 ≤ n) :
    encode n = UInt8.ofNat (n % 128 + 128) :: encode (n / 128) := by
  rw [encode, if_neg (by omega)]

theorem toNat_ofNat_of_lt {n : Nat} (h : n < 256) : (UInt8.ofNat n).toNat = n := by
  rw [UInt8.toNat_ofNat']
  exact Nat.mod_eq_of_lt h

/-- The bytes of a number spell it. -/
theorem value_encode (n : Nat) : value (encode n) = n := by
  induction n using Nat.strongRecOn with
  | ind n ih =>
    rcases Nat.lt_or_ge n 128 with h | h
    · rw [encode_of_lt h, value_cons, toNat_ofNat_of_lt (by omega), value_nil]
      omega
    · rw [encode_of_ge h, value_cons, toNat_ofNat_of_lt (by omega), ih (n / 128) (by omega)]
      omega

/-- `k` bytes hold `7 * k` bits. -/
theorem encode_length_le {k n : Nat} (hk : 0 < k) (h : n < 2 ^ (7 * k)) : (encode n).length ≤ k := by
  induction k generalizing n with
  | zero => exact absurd hk (Nat.lt_irrefl 0)
  | succ k ih =>
    rcases Nat.lt_or_ge n 128 with hn | hn
    · simp [encode_of_lt hn]
    · have hdiv : n / 128 < 2 ^ (7 * k) := by
        rw [Nat.div_lt_iff_lt_mul (by decide)]
        rwa [show 7 * (k + 1) = 7 * k + 7 from by ring, Nat.pow_add] at h
      have hpos : 0 < k := by
        rcases Nat.eq_zero_or_pos k with rfl | hk
        · exact absurd hdiv (by omega)
        · exact hk
      rw [encode_of_ge hn, List.length_cons]
      exact Nat.succ_le_succ (ih hpos hdiv)

/-! ## Groups -/

/-- The bytes of one integer. -/
inductive Group : List UInt8 → Prop
  | last {b : UInt8} : b.toNat < 128 → Group [b]
  | more {b : UInt8} {w : List UInt8} : 128 ≤ b.toNat → Group w → Group (b :: w)

/-- What is encoded ends where its first byte without the highest bit is. -/
theorem group_encode (n : Nat) : Group (encode n) := by
  induction n using Nat.strongRecOn with
  | ind n ih =>
    rcases Nat.lt_or_ge n 128 with h | h
    · rw [encode_of_lt h]
      exact .last (by rwa [toNat_ofNat_of_lt (by omega)])
    · rw [encode_of_ge h]
      refine .more ?_ (ih (n / 128) (by omega))
      rw [toNat_ofNat_of_lt (by omega)]
      omega

/-- There is a byte at least. -/
theorem Group.length_pos {w : List UInt8} (h : Group w) : 0 < w.length := by
  cases h <;> simp

/-- The group at the front, of no more than `k` bytes, and what follows it. -/
def cut : Nat → List UInt8 → Option (List UInt8 × List UInt8)
  | 0, _ => none
  | _ + 1, [] => none
  | k + 1, b :: bs =>
    if b.toNat < 128 then some ([b], bs) else (cut k bs).map fun r => (b :: r.1, r.2)

/-- A group is cut off whatever follows it, if it is not too long. -/
theorem cut_append {w : List UInt8} (h : Group w) {k : Nat} (hk : w.length ≤ k) (rest : List UInt8) :
    cut k (w ++ rest) = some (w, rest) := by
  induction h generalizing k with
  | last hb =>
    cases k with
    | zero => simp at hk
    | succ k => simp [cut, hb]
  | more hb _ ih =>
    cases k with
    | zero => simp at hk
    | succ k =>
      rw [List.cons_append, cut, if_neg (by omega), ih (by simpa using hk)]
      rfl

/-- What is cut off is a group, and what is left comes after it. -/
theorem cut_some {k : Nat} {bs w rest : List UInt8} (h : cut k bs = some (w, rest)) :
    bs = w ++ rest ∧ Group w ∧ w.length ≤ k := by
  induction k generalizing bs w rest with
  | zero => simp [cut] at h
  | succ k ih =>
    cases bs with
    | nil => simp [cut] at h
    | cons b bs =>
      rw [cut] at h
      rcases Nat.lt_or_ge b.toNat 128 with hb | hb
      · rw [if_pos hb] at h
        cases h
        exact ⟨rfl, .last hb, by simp⟩
      · rw [if_neg (by omega), Option.map_eq_some_iff] at h
        rcases h with ⟨⟨w', rest'⟩, hcut, hr⟩
        cases hr
        rcases ih hcut with ⟨rfl, hgroup, hlen⟩
        exact ⟨rfl, .more hb hgroup, by simpa using hlen⟩

/-- What is cut off is exactly a group within the bound. -/
theorem cut_iff {k : Nat} {bs w rest : List UInt8} :
    cut k bs = some (w, rest) ↔ bs = w ++ rest ∧ Group w ∧ w.length ≤ k := by
  constructor
  · exact cut_some
  · rintro ⟨rfl, hgroup, hlen⟩
    exact cut_append hgroup hlen rest

/-- A longer input changes nothing, once there is a group. -/
theorem cut_stable {k : Nat} {bs w rest : List UInt8} (h : cut k bs = some (w, rest))
    (more : List UInt8) : cut k (bs ++ more) = some (w, rest ++ more) := by
  rcases cut_some h with ⟨rfl, hgroup, hlen⟩
  rw [List.append_assoc]
  exact cut_append hgroup hlen _

/-- With `k` bytes to look at, the others do not matter. -/
theorem cut_append_of_le {k : Nat} {bs : List UInt8} (h : k ≤ bs.length) (more : List UInt8) :
    cut k (bs ++ more) = (cut k bs).map fun r => (r.1, r.2 ++ more) := by
  induction k generalizing bs with
  | zero => rfl
  | succ k ih =>
    cases bs with
    | nil => simp at h
    | cons b bs =>
      rw [List.cons_append, cut, cut]
      rcases Nat.lt_or_ge b.toNat 128 with hb | hb
      · simp [hb]
      · rw [if_neg (by omega), if_neg (by omega), ih (by simpa using h), Option.map_map,
          Option.map_map]
        rfl

/-! ## Zigzag -/

section Zigzag

variable {w : Nat}

/-- Zigzag: the sign goes to the lowest bit. -/
def zigzag (x : BitVec w) : BitVec w := (x <<< 1) ^^^ x.sshiftRight (w - 1)

/-- The sign comes back from the lowest bit. -/
def unzigzag (y : BitVec w) : BitVec w := (y >>> 1) ^^^ -(y &&& 1#w)

/-- The sign, in every bit. -/
theorem getLsbD_sign (x : BitVec w) (i : Nat) :
    (x.sshiftRight (w - 1)).getLsbD i = (decide (i < w) && x.msb) := by
  rw [BitVec.getLsbD_sshiftRight]
  rcases Nat.lt_or_ge i w with h | h
  · have hshift : (if w - 1 + i < w then x.getLsbD (w - 1 + i) else x.msb) = x.msb := by
      split
      · obtain rfl : i = 0 := by omega
        rw [Nat.add_zero, BitVec.msb_eq_getLsbD_last]
      · rfl
    simp [hshift, h]
  · simp [h]

/-- The low bit, in every bit. -/
theorem neg_low (y : BitVec w) : -(y &&& 1#w) = if y.getLsbD 0 then BitVec.allOnes w else 0#w := by
  have hlow : y &&& 1#w = if y.getLsbD 0 then 1#w else 0#w := by
    apply BitVec.eq_of_getLsbD_eq
    intro i hi
    rcases Nat.eq_zero_or_pos i with rfl | hpos
    · cases h : y.getLsbD 0 <;> simp [h]
    · have hone : (1#w).getLsbD i = false := by
        rw [BitVec.getLsbD_one]
        simp
        omega
      rw [BitVec.getLsbD_and, hone, Bool.and_false]
      cases y.getLsbD 0 <;> simp [hone]
  rw [hlow]
  cases y.getLsbD 0
  · simp
  · simp [BitVec.neg_one_eq_allOnes]

/-- Either no bit or every bit: all of them are the lowest bit of `y`. -/
theorem getLsbD_neg_low (y : BitVec w) (i : Nat) :
    (-(y &&& 1#w)).getLsbD i = (decide (i < w) && y.getLsbD 0) := by
  rw [neg_low]
  cases y.getLsbD 0 <;> simp

/-- The lowest bit is the sign. -/
theorem getLsbD_zigzag_zero (x : BitVec w) : (zigzag x).getLsbD 0 = x.msb := by
  rw [zigzag, BitVec.getLsbD_xor, getLsbD_sign]
  rcases Nat.eq_zero_or_pos w with rfl | hw
  · simp [BitVec.msb_eq_getLsbD_last]
  · simp [hw]

/-- The other bits move up, and are inverted for a negative number. -/
theorem getLsbD_zigzag_succ (x : BitVec w) {i : Nat} (h : i + 1 < w) :
    (zigzag x).getLsbD (i + 1) = (x.getLsbD i ^^ x.msb) := by
  rw [zigzag, BitVec.getLsbD_xor, getLsbD_sign, BitVec.getLsbD_shiftLeft]
  simp [h]

/-- Zigzag can be undone. -/
theorem unzigzag_zigzag (x : BitVec w) : unzigzag (zigzag x) = x := by
  apply BitVec.eq_of_getLsbD_eq
  intro i hi
  rw [unzigzag, BitVec.getLsbD_xor, getLsbD_neg_low, getLsbD_zigzag_zero, BitVec.getLsbD_ushiftRight,
    Nat.add_comm]
  rcases Nat.lt_or_ge (i + 1) w with h | h
  · rw [getLsbD_zigzag_succ x h]
    simp [hi]
  · obtain rfl : i = w - 1 := by omega
    rw [BitVec.getLsbD_of_ge _ _ h, ← BitVec.msb_eq_getLsbD_last]
    simp [hi]

end Zigzag

end Varint
