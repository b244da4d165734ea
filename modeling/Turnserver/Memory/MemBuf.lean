/-
  MEMORY BLOCKS (`memory/mem_buf.h`, `memory/mem_buf.cpp`) and what can go wrong with memory.

  A `MemBuf` is a block of `capacity` bytes obtained from `malloc`.  A byte that was never written
  is indeterminate, so a cell holds `some b` or nothing; copying indeterminate bytes is harmless and
  moves the absence along, using one is a fault.

  Operations that touch memory return `Checked`: a `Fault` is undefined behaviour or a failed
  assertion, the point where the program stops being the program that was written.

  The reference count of a block is not part of this file: nothing here depends on who holds it.
-/
import Turnserver.Lib.Bytes

namespace Turnserver

open Bytes

/-! ## Faults -/

/-- Where a run leaves the language, or aborts. -/
inductive Fault
  /-- a copy that leaves the block it reads or writes -/
  | outOfBounds
  /-- the use of a byte that was never written -/
  | indeterminate
  /-- an access through a null pointer -/
  | nullPointer
  /-- a failed `assert` -/
  | assertion
  deriving DecidableEq, Repr

/-- A computation that may fault. -/
abbrev Checked := Except Fault

/-- Inversion of a sequence: both halves succeeded. -/
theorem Checked.bind_ok {α β : Type} {x : Checked α} {f : α → Checked β} {b : β} :
    (x >>= f) = .ok b ↔ ∃ a, x = .ok a ∧ f a = .ok b := by
  cases x with
  | error e => simp [Bind.bind, Except.bind]
  | ok a => simp [Bind.bind, Except.bind]

@[simp] theorem Checked.ok_bind {α β : Type} (a : α) (f : α → Checked β) :
    ((.ok a : Checked α) >>= f) = f a := rfl

@[simp] theorem Checked.pure_ok {α : Type} (a b : α) :
    (pure a : Checked α) = .ok b ↔ a = b := by
  simp [pure, Except.pure]

/-! ## Blocks -/

/-- A block of memory; `cells i` is meaningful for `i < capacity`. -/
structure MemBuf where
  capacity : Nat
  cells : Nat → Option UInt8

namespace MemBuf

/-- `MemBuf::Create(capacity)`: nothing is written yet. -/
def create (capacity : Nat) : MemBuf := ⟨capacity, fun _ => none⟩

/-- `MemBuf::Create(buf, capacity)`: all of the block is copied from `buf`. -/
def createCopy (buf : Nat → Option UInt8) (capacity : Nat) : MemBuf :=
  ⟨capacity, fun i => if i < capacity then buf i else none⟩

/-- `MemBuf::Create(buf, size, capacity)`: the first `size` bytes are copied from `buf`. -/
def createSized (buf : Nat → Option UInt8) (size capacity : Nat) : Checked MemBuf :=
  if size ≤ capacity then .ok ⟨capacity, fun i => if i < min size capacity then buf i else none⟩
  else .error .assertion

/-- `MemBuf::Clone()`. -/
def clone (m : MemBuf) : MemBuf := createCopy m.cells m.capacity

/-- `memcpy` of `bs` into the block at `pos`. -/
def store (m : MemBuf) (pos : Nat) (bs : List UInt8) : Checked MemBuf :=
  if pos + bs.length ≤ m.capacity then
    .ok { m with
      cells := fun i => if pos ≤ i ∧ i < pos + bs.length then bs[i - pos]? else m.cells i }
  else .error .outOfBounds

/-- The use of the `n` bytes of the block at `pos`. -/
def load (m : MemBuf) (pos n : Nat) : Checked (List UInt8) :=
  if pos + n ≤ m.capacity then
    match readCells m.cells pos n with
    | some bs => .ok bs
    | none => .error .indeterminate
  else .error .outOfBounds

/-- What a successful `store` does, as a whole. -/
theorem store_ok {m m' : MemBuf} {pos : Nat} {bs : List UInt8} (h : m.store pos bs = .ok m') :
    pos + bs.length ≤ m.capacity ∧ m'.capacity = m.capacity ∧ Segment m'.cells pos bs ∧
      ∀ i, i < pos ∨ pos + bs.length ≤ i → m'.cells i = m.cells i := by
  rw [store] at h
  split at h
  · next hle =>
    cases h
    refine ⟨hle, rfl, fun i hi => ?_, fun i hi => ?_⟩
    · show (if pos ≤ pos + i ∧ pos + i < pos + bs.length then bs[pos + i - pos]? else _) = bs[i]?
      rw [if_pos (by omega), Nat.add_sub_cancel_left]
    · show (if pos ≤ i ∧ i < pos + bs.length then bs[i - pos]? else m.cells i) = m.cells i
      rw [if_neg (by omega)]
  · cases h

/-- A store that fits succeeds. -/
theorem store_fits {m : MemBuf} {pos : Nat} {bs : List UInt8} (h : pos + bs.length ≤ m.capacity) :
    ∃ m', m.store pos bs = .ok m' ∧ m'.capacity = m.capacity :=
  ⟨_, if_pos h, rfl⟩

/-- Two adjacent stores are one store. -/
theorem store_store {m m₁ m₂ : MemBuf} {pos : Nat} {as bs : List UInt8}
    (h₁ : m.store pos as = .ok m₁) (h₂ : m₁.store (pos + as.length) bs = .ok m₂) :
    m.store pos (as ++ bs) = .ok m₂ := by
  have hle₁ := (store_ok h₁).1
  have hcap := (store_ok h₁).2.1
  have hle₂ := (store_ok h₂).1
  rw [store, if_pos hle₁] at h₁
  cases h₁
  rw [store, if_pos hle₂] at h₂
  cases h₂
  rw [store, List.length_append, ← Nat.add_assoc, if_pos hle₂]
  congr 2
  funext i
  show _ = if pos + as.length ≤ i ∧ i < pos + as.length + bs.length then bs[i - (pos + as.length)]?
    else if pos ≤ i ∧ i < pos + as.length then as[i - pos]? else m.cells i
  -- each cell belongs to the second run of bytes, to the first, or to neither
  by_cases hb : pos + as.length ≤ i ∧ i < pos + as.length + bs.length
  · rw [if_pos hb, if_pos (by omega), List.getElem?_append_right (by omega),
      show i - pos - as.length = i - (pos + as.length) from by omega]
  · rw [if_neg hb]
    by_cases ha : pos ≤ i ∧ i < pos + as.length
    · rw [if_pos ha, if_pos (by omega), List.getElem?_append_left (by omega)]
    · rw [if_neg ha, if_neg (by omega)]

/-- Two adjacent stores are one store, also where they do not fit. -/
theorem store_append (m : MemBuf) (pos : Nat) (as bs : List UInt8) :
    m.store pos (as ++ bs) = m.store pos as >>= fun m₁ => m₁.store (pos + as.length) bs := by
  by_cases ha : pos + as.length ≤ m.capacity
  · obtain ⟨m₁, hm₁, hcap⟩ := store_fits ha
    rw [hm₁]
    by_cases hb : pos + as.length + bs.length ≤ m₁.capacity
    · obtain ⟨m₂, hm₂, -⟩ := store_fits hb
      exact (store_store hm₁ hm₂).trans hm₂.symm
    · have hboth : ¬pos + (as ++ bs).length ≤ m.capacity := by
        rw [List.length_append]
        omega
      rw [store, if_neg hboth]
      exact (if_neg hb).symm
  · have hboth : ¬pos + (as ++ bs).length ≤ m.capacity := by
      rw [List.length_append]
      omega
    rw [store, store, if_neg hboth, if_neg ha]
    rfl

/-- A segment within the capacity is loaded as it is. -/
theorem load_of_segment {m : MemBuf} {pos : Nat} {bs : List UInt8}
    (hcap : pos + bs.length ≤ m.capacity) (h : Segment m.cells pos bs) :
    m.load pos bs.length = .ok bs := by
  rw [load, if_pos hcap, readCells_of_segment h]

end MemBuf

end Turnserver
