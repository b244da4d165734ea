/-
  LITTLE-ENDIAN BYTES — the number format under every wire and memory layout of this development.

  A fixed-width integer of `n` bytes is written least significant byte first.  `leBytes n x` is
  that writing (of `x` reduced to the width) and `leNat bs` reads any byte string back as a number:
  reading what was written gives the number modulo `256 ^ n` (`leNat_leBytes`), so the number itself
  when it fits (`leNat_leBytes_of_lt`).

  The last section is the arithmetic of fixed-width words: `u8`, `u16`, `u32` are the conversions
  to the unsigned types of that width (reduction modulo `2 ^ w`), and the mask/flag identities that
  a variable-width integer needs (`and_mask15`, `or_flag15`).
-/
import Mathlib.Data.Nat.Bitwise
import Mathlib.Tactic.Ring

namespace Bytes

/-! ## Writing and reading -/

/-- The `n` low bytes of `x`, least significant first. -/
def leBytes : Nat → Nat → List UInt8
  | 0, _ => []
  | n + 1, x => UInt8.ofNat x :: leBytes n (x / 256)

/-- The number a byte string spells, least significant byte first. -/
def leNat : List UInt8 → Nat
  | [] => 0
  | b :: bs => b.toNat + 256 * leNat bs

@[simp] theorem leNat_nil : leNat [] = 0 := rfl

@[simp] theorem leNat_cons (b : UInt8) (bs : List UInt8) :
    leNat (b :: bs) = b.toNat + 256 * leNat bs := rfl

@[simp] theorem leBytes_length (n x : Nat) : (leBytes n x).length = n := by
  induction n generalizing x with
  | zero => rfl
  | succ n ih => rw [leBytes, List.length_cons, ih]

/-- Bytes make a number that their count allows. -/
theorem leNat_lt (bs : List UInt8) : leNat bs < 256 ^ bs.length := by
  induction bs with
  | nil => simp
  | cons b bs ih =>
    have hb : b.toNat < 256 := b.toNat_lt
    rw [leNat_cons, List.length_cons, Nat.pow_succ]
    omega

/-- The bytes behind count from where the first ones end. -/
theorem leNat_append (as bs : List UInt8) :
    leNat (as ++ bs) = leNat as + 256 ^ as.length * leNat bs := by
  induction as with
  | nil => simp
  | cons a as ih =>
    rw [List.cons_append, leNat_cons, ih, leNat_cons, List.length_cons, Nat.pow_succ]
    ring

/-- Reading what was written gives the number back, reduced to the width. -/
theorem leNat_leBytes (n x : Nat) : leNat (leBytes n x) = x % 256 ^ n := by
  induction n generalizing x with
  | zero => simp [leBytes, Nat.mod_one]
  | succ n ih =>
    have hb : (UInt8.ofNat x).toNat = x % 256 := by simp
    rw [leBytes, leNat_cons, ih, hb, Nat.pow_succ, Nat.mul_comm (256 ^ n) 256, Nat.mod_mul]

/-- A number that fits is what its bytes say. -/
theorem leNat_leBytes_of_lt {n x : Nat} (h : x < 256 ^ n) : leNat (leBytes n x) = x := by
  rw [leNat_leBytes, Nat.mod_eq_of_lt h]

/-- Writing what was read gives the byte string back. -/
theorem leBytes_leNat (bs : List UInt8) : leBytes bs.length (leNat bs) = bs := by
  induction bs with
  | nil => rfl
  | cons b bs ih =>
    have hb : b.toNat < 256 := b.toNat_lt
    have hlow : (b.toNat + 256 * leNat bs) % 256 = b.toNat := by omega
    have hhigh : (b.toNat + 256 * leNat bs) / 256 = leNat bs := by omega
    have hfirst : UInt8.ofNat (b.toNat + 256 * leNat bs) = b := by
      apply UInt8.toNat_inj.mp
      rw [UInt8.toNat_ofNat', hlow]
    rw [leNat_cons, List.length_cons, leBytes, hhigh, ih, hfirst]

/-- The number with its `n` bytes in the opposite order. -/
def byteSwap (n x : Nat) : Nat := leNat (leBytes n x).reverse

/-- The swapped number has as many bytes. -/
theorem byteSwap_lt (n x : Nat) : byteSwap n x < 256 ^ n := by
  have h := leNat_lt (leBytes n x).reverse
  rwa [List.length_reverse, leBytes_length] at h

/-- Swapping twice gives the number back. -/
theorem byteSwap_byteSwap {n x : Nat} (h : x < 256 ^ n) : byteSwap n (byteSwap n x) = x := by
  have hbytes : leBytes n (byteSwap n x) = (leBytes n x).reverse := by
    have hwritten := leBytes_leNat (leBytes n x).reverse
    rwa [List.length_reverse, leBytes_length] at hwritten
  rw [byteSwap, hbytes, List.reverse_reverse, leNat_leBytes_of_lt h]

/-! ## Fixed-width words -/

/-- Conversion to an 8-bit unsigned word. -/
def u8 (x : Nat) : Nat := x % 2 ^ 8

/-- Conversion to a 16-bit unsigned word. -/
def u16 (x : Nat) : Nat := x % 2 ^ 16

/-- Conversion to a 32-bit unsigned word. -/
def u32 (x : Nat) : Nat := x % 2 ^ 32

theorem u32_lt (x : Nat) : u32 x < 2 ^ 32 := Nat.mod_lt _ (by decide)

theorem u16_of_lt {x : Nat} (h : x < 2 ^ 16) : u16 x = x := Nat.mod_eq_of_lt h

theorem u32_of_lt {x : Nat} (h : x < 2 ^ 32) : u32 x = x := Nat.mod_eq_of_lt h

/-- Subtraction of 32-bit unsigned words, which wraps around. -/
def u32Sub (x y : Nat) : Nat := if y ≤ x then x - y else x + 2 ^ 32 - y

theorem u32Sub_of_le {x y : Nat} (h : y ≤ x) : u32Sub x y = x - y := if_pos h

/-- Masking with fifteen ones keeps the value modulo `2 ^ 15`. -/
theorem and_mask15 (x : Nat) : x &&& 0x7FFF = x % 0x8000 :=
  Nat.and_two_pow_sub_one_eq_mod x 15

/-- Setting bit 15 of a value below `2 ^ 15` adds it. -/
theorem or_flag15 {x : Nat} (h : x < 0x8000) : x ||| 0x8000 = x + 0x8000 := by
  calc x ||| 0x8000 = 2 ^ 15 * 1 ||| x := Nat.lor_comm x 0x8000
    _ = 2 ^ 15 * 1 + x := (Nat.two_pow_add_eq_or_of_lt h 1).symm
    _ = x + 0x8000 := Nat.add_comm _ _

/-! ## Byte strings in memory

  A memory is a partial function from positions to bytes; `Segment f pos bs` says that `bs` lies in
  it from `pos` on. -/

/-- `bs` lies in `f` from `pos` on. -/
def Segment (f : Nat → Option UInt8) (pos : Nat) (bs : List UInt8) : Prop :=
  ∀ i, i < bs.length → f (pos + i) = bs[i]?

theorem segment_nil (f : Nat → Option UInt8) (pos : Nat) : Segment f pos [] :=
  fun i hi => absurd hi (Nat.not_lt_zero i)

/-- A stretch of cells in two parts. -/
theorem segment_append {f : Nat → Option UInt8} {pos : Nat} {as bs : List UInt8} :
    Segment f pos (as ++ bs) ↔ Segment f pos as ∧ Segment f (pos + as.length) bs := by
  constructor
  · intro h
    refine ⟨fun i hi => ?_, fun i hi => ?_⟩
    · rw [h i (by rw [List.length_append]; omega), List.getElem?_append_left hi]
    · rw [Nat.add_assoc, h (as.length + i) (by rw [List.length_append]; omega),
        List.getElem?_append_right (by omega), Nat.add_sub_cancel_left]
  · rintro ⟨ha, hb⟩ i hi
    rw [List.length_append] at hi
    by_cases hlt : i < as.length
    · rw [ha i hlt, List.getElem?_append_left hlt]
    · have h := hb (i - as.length) (by omega)
      rw [show pos + as.length + (i - as.length) = pos + i from by omega] at h
      rw [h, List.getElem?_append_right (by omega)]

theorem segment_cons {f : Nat → Option UInt8} {pos : Nat} {b : UInt8} {bs : List UInt8} :
    Segment f pos (b :: bs) ↔ f pos = some b ∧ Segment f (pos + 1) bs := by
  rw [show b :: bs = [b] ++ bs from rfl, segment_append]
  refine and_congr ⟨fun h => ?_, fun h i hi => ?_⟩ Iff.rfl
  · exact h 0 (by simp)
  · obtain rfl : i = 0 := by simpa using hi
    exact h

/-- A segment survives a change of the memory outside of it. -/
theorem Segment.congr {f g : Nat → Option UInt8} {pos : Nat} {bs : List UInt8}
    (h : Segment f pos bs) (hfg : ∀ i, i < bs.length → g (pos + i) = f (pos + i)) :
    Segment g pos bs :=
  fun i hi => (hfg i hi).trans (h i hi)

/-- The `n` bytes of `f` from `pos` on, when they are all there. -/
def readCells (f : Nat → Option UInt8) : Nat → Nat → Option (List UInt8)
  | _, 0 => some []
  | pos, n + 1 =>
    match f pos, readCells f (pos + 1) n with
    | some b, some bs => some (b :: bs)
    | _, _ => none

/-- Cells that hold bytes can be read. -/
theorem readCells_of_segment {f : Nat → Option UInt8} {pos : Nat} {bs : List UInt8}
    (h : Segment f pos bs) : readCells f pos bs.length = some bs := by
  induction bs generalizing pos with
  | nil => rfl
  | cons b bs ih =>
    obtain ⟨hb, hbs⟩ := segment_cons.mp h
    rw [List.length_cons, readCells, hb, ih hbs]

end Bytes
