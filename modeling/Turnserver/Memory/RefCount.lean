/-
  REFERENCE COUNTS (`memory/mem_buf.h`, `memory/mem_slice.h`, `memory/mem_slice.cpp`) — who holds a
  `MemBuf`, and when it is destroyed.

  A buffer starts with the count 0; every slice that holds it adds one reference, and the release that
  finds a count of at most 1 destroys it.  The count is an atomic `int32_t`, which wraps around.  What
  a slice denotes in its buffer is the matter of `MemSlice`; here a slice is the pointer `buffer_`.

  * `Agree` — the counts are the numbers of holders, what is held is live, and what was held and is
    not any more is destroyed.
  * `replace` — most operations release the old buffer, and then reference the new one
    (`replace_iff`).
  * `ref_counts_iff`: all of this holds in every state of a run exactly when no slice is given, by
    `Reset` or by assignment, the buffer of which it is the only holder, and no buffer ever has 2^31
    references.
-/
import Turnserver.Lib.Transition
import Mathlib.Algebra.BigOperators.Group.Finset.Basic
import Mathlib.Data.Fintype.BigOperators

namespace Turnserver

open Transition

/-! ## The code -/

/-- What goes wrong with a buffer. -/
inductive RefFault
  /-- a destroyed buffer is touched -/
  | useAfterFree
  /-- an access through a null pointer -/
  | nullPointer
  deriving DecidableEq

/-- The `ref_cnt_` of every live buffer, by its address. -/
abbrev Buffers := Nat → Option Int32

namespace Buffers

/-- `AddRef` -/
def addRef (a : Nat) (bufs : Buffers) : Except RefFault Buffers :=
  match bufs a with
  | none => .error .useAfterFree
  | some ref_cnt => .ok (Function.update bufs a (some (ref_cnt + 1)))

/-- `Release()`; the destructor and `free` are run when the count was at most 1. -/
def release (a : Nat) (bufs : Buffers) : Except RefFault Buffers :=
  match bufs a with
  | none => .error .useAfterFree
  | some ref_cnt =>
    .ok (Function.update bufs a (if ref_cnt ≤ 1 then none else some (ref_cnt - 1)))

/-- `if (buffer_) buffer_->AddRef()` -/
def addRefIf (buffer : Option Nat) (bufs : Buffers) : Except RefFault Buffers :=
  match buffer with
  | none => .ok bufs
  | some a => bufs.addRef a

/-- `if (buffer_) buffer_->Release()` -/
def releaseIf (buffer : Option Nat) (bufs : Buffers) : Except RefFault Buffers :=
  match buffer with
  | none => .ok bufs
  | some a => bufs.release a

/-- The old buffer is released, then the new one referenced. -/
def replace (old new : Option Nat) (bufs : Buffers) : Except RefFault Buffers := do
  let bufs ← bufs.releaseIf old
  bufs.addRefIf new

end Buffers

/-- A slice variable: not constructed, or holding a buffer or nothing. -/
abbrev Slot := Option (Option Nat)

/-- `n` slice variables and the live buffers; `held` are the buffers that a slice has held. -/
structure RefState (n : Nat) where
  bufs : Buffers
  slices : Fin n → Slot
  held : Nat → Prop

/-- The operations on slices of one pool of buffers. -/
inductive RefOp (n : Nat)
  /-- `MemBuf::Create`; `malloc` returns `a` -/
  | create (a : Nat)
  | new (x : Fin n) (buffer : Option Nat)
  | copy (x y : Fin n)
  | move (x y : Fin n)
  | destroy (x : Fin n)
  | assign (x y : Fin n)
  | moveAssign (x y : Fin n)
  | assignBuffer (x : Fin n) (buf : Option Nat)
  | reset (x : Fin n) (buf : Option Nat)
  /-- the slice `x` is constructed as `y.Clone()`; `malloc` returns `a` -/
  | clone (x y : Fin n) (a : Nat)

namespace RefState

variable {n : Nat}

/-- The `buffer_` of a slice. -/
def buffer (s : RefState n) (x : Fin n) : Option Nat := (s.slices x).join

/-- The slice `x` changes; what it holds now has been held. -/
def put (x : Fin n) (v : Slot) (bufs : Buffers) (s : RefState n) : RefState n where
  bufs := bufs
  slices := Function.update s.slices x v
  held := fun a => s.held a ∨ v.join = some a

/-- A new buffer; nothing has held it. -/
def allocate (a : Nat) (s : RefState n) : RefState n where
  bufs := Function.update s.bufs a (some 0)
  slices := s.slices
  held := fun b => b ≠ a ∧ s.held b

/-- What an operation does. -/
def exec : RefOp n → RefState n → Except RefFault (RefState n)
  | .create a, s => pure (s.allocate a)
  | .new x buffer, s => do
    let bufs ← s.bufs.addRefIf buffer
    pure (s.put x (some buffer) bufs)
  | .copy x y, s => do
    let bufs ← s.bufs.addRefIf (s.buffer y)
    pure (s.put x (some (s.buffer y)) bufs)
  | .move x y, s => do
    let bufs ← s.bufs.addRefIf (s.buffer y)
    let bufs ← bufs.releaseIf (s.buffer y)
    pure ((s.put x (some (s.buffer y)) bufs).put y (some none) bufs)
  | .destroy x, s => do
    let bufs ← s.bufs.releaseIf (s.buffer x)
    pure (s.put x none bufs)
  | .assign x y, s =>
    if x = y then pure s
    else do
      let bufs ← s.bufs.replace (s.buffer x) (s.buffer y)
      pure (s.put x (some (s.buffer y)) bufs)
  | .moveAssign x y, s =>
    pure ((s.put x (some (s.buffer y)) s.bufs).put y (some (s.buffer x)) s.bufs)
  | .assignBuffer x buf, s => do
    let bufs ← s.bufs.replace (s.buffer x) buf
    pure (s.put x (some buf) bufs)
  | .reset x buf, s => do
    let bufs ← s.bufs.replace (s.buffer x) buf
    pure (s.put x (some buf) bufs)
  | .clone x y a, s =>
    match s.buffer y with
    | none => .error .nullPointer
    | some b =>
      -- the clone copies the capacity and the bytes of `b`
      match s.bufs b with
      | none => .error .useAfterFree
      | some _ => do
        let s := s.allocate a
        let bufs ← s.bufs.addRef a
        pure (s.put x (some (some a)) bufs)

/-- A buffer that is passed is live. -/
def Live (s : RefState n) (buffer : Option Nat) : Prop := ∀ a, buffer = some a → (s.bufs a).isSome

/-- What the language and `malloc` guarantee, and that a buffer that is passed is live. -/
def Enabled (s : RefState n) : RefOp n → Prop
  | .create a => s.bufs a = none
  | .new x buffer => s.slices x = none ∧ s.Live buffer
  | .copy x y => s.slices x = none ∧ s.slices y ≠ none
  | .move x y => s.slices x = none ∧ s.slices y ≠ none
  | .destroy x => s.slices x ≠ none
  | .assign x y => s.slices x ≠ none ∧ s.slices y ≠ none
  | .moveAssign x y => s.slices x ≠ none ∧ s.slices y ≠ none
  | .assignBuffer x buf => s.slices x ≠ none ∧ s.Live buf
  | .reset x buf => s.slices x ≠ none ∧ s.Live buf
  | .clone x y a => s.slices x = none ∧ s.slices y ≠ none ∧ s.bufs a = none

/-- A run ends where an operation faults. -/
def Step (r : Except RefFault (RefState n)) (op : RefOp n) (r' : Except RefFault (RefState n)) : Prop :=
  ∃ s, r = .ok s ∧ s.Enabled op ∧ r' = s.exec op

/-- Nothing is allocated, and no slice constructed. -/
def initial (n : Nat) : RefState n := ⟨fun _ => none, fun _ => none, fun _ => False⟩

/-! ## Counts and holders -/

/-- 1 if the pointer is to the buffer. -/
def refs (buffer : Option Nat) (a : Nat) : Nat := if buffer = some a then 1 else 0

/-- How many slices hold the buffer. -/
def holders (s : RefState n) (a : Nat) : Nat := ∑ x, refs (s.buffer x) a

/-- The buffer of the slot that was put. -/
theorem buffer_put_same (s : RefState n) (x : Fin n) (v : Slot) (bufs : Buffers) :
    (s.put x v bufs).buffer x = v.join := by
  show (Function.update s.slices x v x).join = _
  rw [Function.update_self]

/-- The buffers of the other slots. -/
theorem buffer_put_of_ne (s : RefState n) {x z : Fin n} (hz : z ≠ x) (v : Slot) (bufs : Buffers) :
    (s.put x v bufs).buffer z = s.buffer z := by
  show (Function.update s.slices x v z).join = _
  rw [Function.update_of_ne hz]
  rfl

/-- The holders change by the slot that was put. -/
theorem holders_put (s : RefState n) (x : Fin n) (v : Slot) (bufs : Buffers) (a : Nat) :
    (s.put x v bufs).holders a + refs (s.buffer x) a = s.holders a + refs v.join a := by
  have hbefore := Finset.add_sum_erase Finset.univ (fun z => refs (s.buffer z) a)
    (Finset.mem_univ x)
  have hafter := Finset.add_sum_erase Finset.univ (fun z => refs ((s.put x v bufs).buffer z) a)
    (Finset.mem_univ x)
  have hother : ∑ z ∈ Finset.univ.erase x, refs ((s.put x v bufs).buffer z) a =
      ∑ z ∈ Finset.univ.erase x, refs (s.buffer z) a := by
    apply Finset.sum_congr rfl
    intro z hz
    rw [buffer_put_of_ne s (Finset.ne_of_mem_erase hz)]
  simp only [buffer_put_same, hother] at hafter
  rw [holders, holders, ← hbefore, ← hafter]
  omega

/-- Whoever has a buffer holds it. -/
theorem holders_pos {s : RefState n} {x : Fin n} {a : Nat} (h : s.buffer x = some a) :
    0 < s.holders a := by
  have hsum := Finset.add_sum_erase Finset.univ (fun z => refs (s.buffer z) a) (Finset.mem_univ x)
  have hone : refs (s.buffer x) a = 1 := if_pos h
  rw [holders, ← hsum]
  omega

end RefState

/-! ## The invariant -/

/-- The count that a buffer may have at most. -/
def maxCount : Nat := 2147483647

/-- The counts of the live buffers are `k`, what is counted is live, and what has been held and is not
    any more is destroyed. -/
structure Agree (bufs : Buffers) (k : Nat → Nat) (held : Nat → Prop) : Prop where
  counted : ∀ a c, bufs a = some c → c.toInt = k a
  live : ∀ a, 0 < k a → (bufs a).isSome
  known : ∀ a, 0 < k a → held a
  freed : ∀ a, held a → k a = 0 → bufs a = none

/-- Only one buffer changes; what is asked of it is asked of its new count. -/
theorem Agree.update {bufs : Buffers} {k k' : Nat → Nat} {held held' : Nat → Prop}
    (h : Agree bufs k held) {b : Nat} {v : Option Int32}
    (hk : ∀ c, c ≠ b → k' c = k c) (hheld : ∀ c, c ≠ b → (held' c ↔ held c))
    (hcounted : ∀ c, v = some c → c.toInt = k' b) (hlive : 0 < k' b → v.isSome)
    (hknown : 0 < k' b → held' b) (hfreed : held' b → k' b = 0 → v = none) :
    Agree (Function.update bufs b v) k' held' := by
  -- four facts of each buffer; only `b` changes, and the rest comes from before
  refine ⟨fun a c ha => ?_, fun a ha => ?_, fun a ha => ?_, fun a ha hzero => ?_⟩
  · by_cases hab : a = b
    · rw [hab, Function.update_self] at ha
      rw [hab]
      exact hcounted c ha
    · rw [Function.update_of_ne hab] at ha
      rw [hk a hab]
      exact h.counted a c ha
  · by_cases hab : a = b
    · rw [hab] at ha
      rw [hab, Function.update_self]
      exact hlive ha
    · rw [hk a hab] at ha
      rw [Function.update_of_ne hab]
      exact h.live a ha
  · by_cases hab : a = b
    · rw [hab] at ha ⊢
      exact hknown ha
    · rw [hk a hab] at ha
      exact (hheld a hab).mpr (h.known a ha)
  · by_cases hab : a = b
    · rw [hab] at ha hzero
      rw [hab, Function.update_self]
      exact hfreed ha hzero
    · rw [hk a hab] at hzero
      rw [Function.update_of_ne hab]
      exact h.freed a ((hheld a hab).mp ha) hzero

/-- Counting up wraps at `2^31`. -/
theorem toInt_add_one {c : Int32} {n : Nat} (h : c.toInt = n) :
    (c + 1).toInt = if n < maxCount then (n : Int) + 1 else -2147483648 := by
  have hlt := c.toInt_lt
  have hadd : (c + 1).toInt = ((n : Int) + 1).bmod (2 ^ 32) := by
    rw [Int32.toInt_add, h]
    rfl
  rw [hadd, Int.bmod_def, maxCount]
  split <;> split <;> omega

/-- Counting down does not wrap. -/
theorem toInt_sub_one {c : Int32} {n : Nat} (h : c.toInt = n) : (c - 1).toInt = (n : Int) - 1 := by
  have hlt := c.toInt_lt
  have hsub : (c - 1).toInt = ((n : Int) - 1).bmod (2 ^ 32) := by
    rw [Int32.toInt_sub, h]
    rfl
  rw [hsub, Int.bmod_def]
  split <;> omega

/-- The test of `Release`, on the number of holders. -/
theorem le_one_iff {c : Int32} {n : Int} (h : c.toInt = n) : c ≤ 1 ↔ n ≤ 1 := by
  rw [Int32.le_iff_toInt_le, h]
  rfl

namespace Buffers

open RefState

variable {bufs : Buffers} {k k' : Nat → Nat} {held held' : Nat → Prop}

/-- Taking a buffer goes well exactly if it is there and its count has room. -/
theorem addRefIf_iff (h : Agree bufs k held) {new : Option Nat}
    (hk : ∀ c, k' c = k c + refs new c) (hheld : ∀ c, held' c ↔ held c ∨ new = some c) :
    (∃ bufs', bufs.addRefIf new = .ok bufs' ∧ Agree bufs' k' held') ↔
      ∀ b, new = some b → (bufs b).isSome ∧ k b < maxCount := by
  -- without a buffer nothing is counted
  cases new with
  | none =>
    have hk : k' = k := funext fun c => by rw [hk c]; rfl
    have hheld : held' = held := funext fun c => by simp [hheld c]
    rw [hk, hheld]
    exact ⟨fun _ b hb => absurd hb (by simp), fun _ => ⟨bufs, rfl, h⟩⟩
  | some b =>
    have hk_b : k' b = k b + 1 := by
      rw [hk b, refs, if_pos rfl]
    have hk_ne : ∀ c, c ≠ b → k' c = k c := by
      intro c hc
      rw [hk c, refs, if_neg (fun heq => hc (Option.some.inj heq).symm), Nat.add_zero]
    -- the buffer is gone, so `AddRef` is a use after free
    cases hb : bufs b with
    | none =>
      constructor
      · rintro ⟨bufs', heq, -⟩
        rw [addRefIf, addRef, hb] at heq
        cases heq
      · intro hall
        have hlive := (hall b rfl).1
        rw [hb] at hlive
        cases hlive
    -- the count goes up by one, and stays right unless it is full
    | some c =>
      have hcount := toInt_add_one (h.counted b c hb)
      have heq : bufs.addRefIf (some b) = .ok (Function.update bufs b (some (c + 1))) := by
        rw [addRefIf, addRef, hb]
      constructor
      · rintro ⟨bufs', heq', hagree⟩ b' hb'
        cases hb'
        rw [heq] at heq'
        cases heq'
        have hcounted := hagree.counted b (c + 1) (Function.update_self _ _ _)
        refine ⟨by rw [hb]; rfl, ?_⟩
        by_contra hfull
        rw [hcount, if_neg hfull, hk_b] at hcounted
        omega
      · intro hall
        obtain ⟨-, hroom⟩ := hall b rfl
        refine ⟨_, heq, h.update hk_ne (fun a hab => ?_) ?_ (fun _ => rfl)
          (fun _ => (hheld b).mpr (Or.inr rfl)) fun _ hzero => ?_⟩
        · rw [hheld a]
          exact or_iff_left fun heq => hab (Option.some.inj heq).symm
        · intro c' hc'
          cases hc'
          rw [hcount, if_pos hroom, hk_b]
          rfl
        · rw [hk_b] at hzero
          omega

/-- Releasing a buffer that is held goes well, and destroys it with the last holder. -/
theorem releaseIf_agree (h : Agree bufs k held) {old : Option Nat}
    (hold : ∀ a, old = some a → 0 < k a) :
    ∃ bufs', bufs.releaseIf old = .ok bufs' ∧ Agree bufs' (fun c => k c - refs old c) held ∧
      ∀ b, (bufs' b).isSome ↔ (bufs b).isSome ∧ ¬(old = some b ∧ k b = 1) := by
  cases old with
  | none =>
    refine ⟨bufs, rfl, h, fun b => ⟨fun hb => ⟨hb, fun hno => by cases hno.1⟩, fun hb => hb.1⟩⟩
  -- the last release frees the buffer, any other one lowers the count
  | some a =>
    have hpos := hold a rfl
    obtain ⟨c, hc⟩ := Option.isSome_iff_exists.mp (h.live a hpos)
    have hcounted := h.counted a c hc
    have hle := le_one_iff hcounted
    have hsub := toInt_sub_one hcounted
    have hrefs_a : refs (some a) a = 1 := if_pos rfl
    have hrefs_ne : ∀ b, b ≠ a → refs (some a) b = 0 :=
      fun b hb => if_neg fun heq => hb (Option.some.inj heq).symm
    refine ⟨Function.update bufs a (if c ≤ 1 then none else some (c - 1)), ?_, ?_, fun b => ?_⟩
    · rw [releaseIf, release, hc]
    · refine h.update (fun b hb => ?_) (fun _ _ => Iff.rfl) (fun c' hc' => ?_) (fun hk1 => ?_)
        (fun _ => h.known a hpos) fun _ hzero => ?_
      · rw [hrefs_ne b hb, Nat.sub_zero]
      -- a count of one or less is the last one
      · split at hc'
        · cases hc'
        · cases hc'
          rw [hrefs_a, hsub]
          omega
      · rw [hrefs_a] at hk1
        rw [if_neg (fun hc1 => by have := hle.mp hc1; omega)]
        rfl
      · rw [hrefs_a] at hzero
        rw [if_pos (hle.mpr (by omega))]
    -- `b` is alive afterwards unless it was this buffer with its last reference
    · by_cases hba : b = a
      · rw [hba, Function.update_self, hc]
        by_cases hc1 : c ≤ 1
        · have hk1 := hle.mp hc1
          rw [if_pos hc1]
          constructor
          · intro hno
            cases hno
          · intro hno
            exact absurd ⟨rfl, by omega⟩ hno.2
        · have hk1 : k a ≠ 1 := fun hk1 => hc1 (hle.mpr (by omega))
          rw [if_neg hc1]
          exact ⟨fun _ => ⟨rfl, fun hno => hk1 hno.2⟩, fun _ => rfl⟩
      · rw [Function.update_of_ne hba]
        refine ⟨fun hb => ⟨hb, fun hno => hba (Option.some.inj hno.1).symm⟩, fun hb => hb.1⟩

/-- The count of a live buffer is at most the largest one. -/
theorem counted_le (h : Agree bufs k held) {a : Nat} (ha : (bufs a).isSome) : k a ≤ maxCount := by
  obtain ⟨c, hc⟩ := Option.isSome_iff_exists.mp ha
  have hcounted := h.counted a c hc
  have hlt := c.toInt_lt
  rw [maxCount]
  omega

/-- **Replacing a buffer**: the new one must not be destroyed by the release of the old one, and there
    must be room for one more reference. -/
theorem replace_iff (h : Agree bufs k held) {old new : Option Nat}
    (hold : ∀ a, old = some a → 0 < k a) (hnew : ∀ b, new = some b → (bufs b).isSome)
    (hk : ∀ c, k' c + refs old c = k c + refs new c)
    (hheld : ∀ c, held' c ↔ held c ∨ new = some c) :
    (∃ bufs', bufs.replace old new = .ok bufs' ∧ Agree bufs' k' held') ↔
      ∀ b, new = some b → if old = some b then k b ≠ 1 else k b < maxCount := by
  -- `operator=` releases first and takes its reference afterwards
  obtain ⟨bufs₁, heq₁, hagree₁, hlive₁⟩ := releaseIf_agree h hold
  have hle : ∀ c, refs old c ≤ k c := by
    intro c
    rw [refs]
    split
    · next hc => exact hold c hc
    · exact Nat.zero_le _
  have hadd := @addRefIf_iff _ _ k' _ held' hagree₁ new
    (fun c => by have := hk c; have := hle c; omega) hheld
  have hreplace : bufs.replace old new = bufs₁.addRefIf new := by
    rw [replace, heq₁]
    rfl
  rw [hreplace, hadd]
  apply forall_congr'
  intro b
  apply forall_congr'
  intro hb
  have hfull := counted_le h (hnew b hb)
  rw [hlive₁ b, refs]
  -- the same buffer on both sides: released with its last reference, it is gone when taken
  by_cases hsame : old = some b
  · have hpos := hold b hsame
    rw [if_pos hsame, if_pos hsame]
    constructor
    · exact fun hall hk1 => hall.1.2 ⟨hsame, hk1⟩
    · exact fun hk1 => ⟨⟨hnew b hb, fun hno => hk1 hno.2⟩, by omega⟩
  · rw [if_neg hsame, if_neg hsame, Nat.sub_zero]
    exact ⟨fun hall => hall.2, fun hroom => ⟨⟨hnew b hb, fun hno => hsame hno.1⟩, hroom⟩⟩

/-- A move constructor adds a reference and takes it back. -/
theorem addRefIf_releaseIf_iff (h : Agree bufs k held) {buffer : Option Nat}
    (hbuf : ∀ a, buffer = some a → 0 < k a) :
    (∃ bufs₁ bufs₂, bufs.addRefIf buffer = .ok bufs₁ ∧ bufs₁.releaseIf buffer = .ok bufs₂ ∧
      Agree bufs₂ k held) ↔ ∀ a, buffer = some a → k a < maxCount := by
  cases buffer with
  | none => exact ⟨fun _ a ha => absurd ha (by simp), fun _ => ⟨bufs, bufs, rfl, rfl, h⟩⟩
  | some a =>
    have hpos := hbuf a rfl
    obtain ⟨c, hc⟩ := Option.isSome_iff_exists.mp (h.live a hpos)
    have hcount := toInt_add_one (h.counted a c hc)
    have hadd : bufs.addRefIf (some a) = .ok (Function.update bufs a (some (c + 1))) := by
      rw [addRefIf, addRef, hc]
    constructor
    · rintro ⟨bufs₁, bufs₂, heq₁, heq₂, hagree⟩ a' ha'
      cases ha'
      rw [hadd] at heq₁
      cases heq₁
      by_contra hfull
      -- the count wrapped around, and the release destroyed the buffer
      rw [if_neg hfull] at hcount
      rw [releaseIf, release, Function.update_self] at heq₂
      cases heq₂
      have hlive := hagree.live a hpos
      rw [Function.update_self, if_pos ((le_one_iff hcount).mpr (by decide))] at hlive
      cases hlive
    · intro hall
      have hroom := hall a rfl
      rw [if_pos hroom] at hcount
      refine ⟨_, bufs, hadd, ?_, h⟩
      have hback : c + 1 - 1 = c := by
        apply Int32.toInt_inj.mp
        rw [toInt_sub_one (n := k a + 1) (by rw [hcount]; rfl), h.counted a c hc]
        omega
      rw [releaseIf, release, Function.update_self]
      dsimp only
      rw [if_neg (fun hle => by have := (le_one_iff hcount).mp hle; omega), hback,
        Function.update_idem, ← hc, Function.update_eq_self]

theorem addRefIf_error {buffer : Option Nat} {e : RefFault} (h : bufs.addRefIf buffer = .error e) :
    e = .useAfterFree := by
  cases buffer with
  | none => cases h
  | some a =>
    rw [addRefIf, addRef] at h
    split at h
    · cases h
      rfl
    · cases h

theorem releaseIf_error {buffer : Option Nat} {e : RefFault} (h : bufs.releaseIf buffer = .error e) :
    e = .useAfterFree := by
  cases buffer with
  | none => cases h
  | some a =>
    rw [releaseIf, release] at h
    split at h
    · cases h
      rfl
    · cases h

theorem replace_error {old new : Option Nat} {e : RefFault} (h : bufs.replace old new = .error e) :
    e = .useAfterFree := by
  rw [replace] at h
  cases hrel : bufs.releaseIf old with
  | error e' =>
    rw [hrel] at h
    cases h
    exact releaseIf_error hrel
  | ok bufs' =>
    rw [hrel] at h
    exact addRefIf_error h

end Buffers

/-! ## Runs -/

namespace RefState

variable {n : Nat}

/-- The counts are right, nothing that is held is destroyed, and what has been held and is not any
    more is. -/
def Sound (s : RefState n) : Prop := Agree s.bufs s.holders s.held

/-- What a step may lead to: a sound state, or a fault that is not the use of a destroyed buffer. -/
def Good (r : Except RefFault (RefState n)) : Prop :=
  match r with
  | .ok s => s.Sound
  | .error e => e ≠ .useAfterFree

/-- There is room for one more reference to the buffer. -/
def Room (s : RefState n) (buffer : Option Nat) : Prop :=
  ∀ a, buffer = some a → s.holders a < maxCount

/-- The buffer may replace that of `x`: if it is the one that `x` holds, another slice holds it too. -/
def Replaceable (s : RefState n) (x : Fin n) (buffer : Option Nat) : Prop :=
  ∀ a, buffer = some a → if s.buffer x = some a then s.holders a ≠ 1 else s.holders a < maxCount

/-- The condition on a step. -/
def Keeps (s : RefState n) : RefOp n → Prop
  | .new _ buffer => s.Room buffer
  | .copy _ y => s.Room (s.buffer y)
  | .move _ y => s.Room (s.buffer y)
  | .assign x y => x = y ∨ s.Replaceable x (s.buffer y)
  | .assignBuffer x buf => s.Replaceable x buf
  | .reset x buf => s.Replaceable x buf
  | _ => True

/-- Putting a slot after an action is good exactly if the action leaves the counts right. -/
theorem good_put {act : Except RefFault Buffers} (herr : ∀ e, act = .error e → e = .useAfterFree)
    (s : RefState n) (x : Fin n) (v : Slot) :
    Good (act >>= fun bufs => pure (s.put x v bufs)) ↔
      ∃ bufs, act = .ok bufs ∧ Agree bufs (s.put x v s.bufs).holders (s.put x v s.bufs).held := by
  cases act with
  | error e =>
    rw [herr e rfl]
    constructor
    · intro h
      exact absurd rfl h
    · rintro ⟨bufs, heq, -⟩
      cases heq
  | ok bufs =>
    constructor
    · exact fun h => ⟨bufs, rfl, h⟩
    · rintro ⟨bufs', heq, h⟩
      cases heq
      exact h

theorem Sound.buffer_live {s : RefState n} (h : s.Sound) {x : Fin n} {a : Nat}
    (hx : s.buffer x = some a) : (s.bufs a).isSome :=
  h.live a (holders_pos hx)

/-- The slice `x` gives up what it holds and takes `buffer`. -/
theorem good_replace {s : RefState n} (h : s.Sound) (x : Fin n) {buffer : Option Nat}
    (hlive : s.Live buffer) :
    Good (s.bufs.replace (s.buffer x) buffer >>= fun bufs => pure (s.put x (some buffer) bufs)) ↔
      s.Replaceable x buffer := by
  rw [good_put (fun e he => Buffers.replace_error he)]
  exact Buffers.replace_iff h (fun a ha => holders_pos ha) hlive
    (fun c => holders_put s x (some buffer) s.bufs c) (fun c => Iff.rfl)

/-- The slice `x`, which is not constructed, takes `buffer`. -/
theorem good_add {s : RefState n} (h : s.Sound) {x : Fin n} (hx : s.slices x = none)
    {buffer : Option Nat} (hlive : s.Live buffer) :
    Good (s.bufs.addRefIf buffer >>= fun bufs => pure (s.put x (some buffer) bufs)) ↔
      s.Room buffer := by
  have hbuf : s.buffer x = none := by
    rw [RefState.buffer, hx]
    rfl
  have hk : ∀ c, (s.put x (some buffer) s.bufs).holders c = s.holders c + refs buffer c := by
    intro c
    have hput := holders_put s x (some buffer) s.bufs c
    rw [hbuf] at hput
    exact hput
  have hadd := @Buffers.addRefIf_iff _ _ _ _ (s.put x (some buffer) s.bufs).held h _ hk
    (fun c => Iff.rfl)
  rw [good_put (fun e he => Buffers.addRefIf_error he), hadd]
  exact ⟨fun hall a ha => (hall a ha).2, fun hroom a ha => ⟨hlive a ha, hroom a ha⟩⟩

/-- A fresh buffer, of which there is no reference. -/
theorem Sound.allocate {s : RefState n} (h : s.Sound) {a : Nat} (ha : s.bufs a = none) :
    (s.allocate a).Sound := by
  -- a fresh address has no holder, or it would be alive
  have hzero : s.holders a = 0 := by
    by_contra hpos
    have hlive := h.live a (Nat.pos_of_ne_zero hpos)
    rw [ha] at hlive
    cases hlive
  have hne : ∀ b, 0 < s.holders b → b ≠ a := by
    rintro b hb rfl
    omega
  refine ⟨fun b c hb => ?_, fun b hb => ?_, fun b hb => ⟨hne b hb, h.known b hb⟩,
    fun b hb hk => ?_⟩
  · show c.toInt = s.holders b
    by_cases hba : b = a
    · rw [RefState.allocate, hba] at hb
      dsimp only at hb
      rw [Function.update_self] at hb
      cases hb
      rw [hba, hzero]
      rfl
    · rw [RefState.allocate] at hb
      dsimp only at hb
      rw [Function.update_of_ne hba] at hb
      exact h.counted b c hb
  · show (Function.update s.bufs a (some 0) b).isSome
    rw [Function.update_of_ne (hne b hb)]
    exact h.live b hb
  · show Function.update s.bufs a (some 0) b = none
    rw [Function.update_of_ne hb.1]
    exact h.freed b hb.2 hk

/-- Two slices change places, or one takes over what the other has: nothing is referenced or
    released. -/
theorem put_put_sound_iff {s : RefState n} {x y : Fin n} {v w : Slot} {bufs : Buffers}
    (hrefs : ∀ c, refs (s.buffer x) c + refs ((s.put x v bufs).buffer y) c = refs v.join c + refs w.join c)
    (hv : ∀ c, v.join = some c → s.held c) (hw : ∀ c, w.join = some c → s.held c) :
    ((s.put x v bufs).put y w bufs).Sound ↔ Agree bufs s.holders s.held := by
  -- the two slots hold together what they held before
  have hk : ((s.put x v bufs).put y w bufs).holders = s.holders := by
    funext c
    have hput₁ := holders_put s x v bufs c
    have hput₂ := holders_put (s.put x v bufs) y w bufs c
    have := hrefs c
    omega
  have hheld : ((s.put x v bufs).put y w bufs).held = s.held := by
    funext c
    apply propext
    constructor
    · rintro ((hc | hc) | hc)
      · exact hc
      · exact hv c hc
      · exact hw c hc
    · exact fun hc => Or.inl (Or.inl hc)
  show Agree bufs _ _ ↔ _
  rw [hk, hheld]

/-- The move constructor is good exactly if the count has room for one more. -/
theorem good_move {s : RefState n} (h : s.Sound) {x : Fin n} (hx : s.slices x = none) {y : Fin n}
    (hy : s.slices y ≠ none) : Good (s.exec (.move x y)) ↔ s.Room (s.buffer y) := by
  have hbuf : s.buffer x = none := by
    rw [RefState.buffer, hx]
    rfl
  have hne : y ≠ x := by
    rintro rfl
    exact hy hx
  have hknown : ∀ c, s.buffer y = some c → s.held c := fun c hc => h.known c (holders_pos hc)
  have hsame : ∀ bufs, ((s.put x (some (s.buffer y)) bufs).put y (some none) bufs).Sound ↔
      Agree bufs s.holders s.held := by
    intro bufs
    refine put_put_sound_iff (fun c => ?_) hknown (fun c hc => by cases hc)
    rw [buffer_put_of_ne s hne, hbuf]
    exact Nat.add_comm _ _
  -- the member moves with its reference, then the moved slice is reset
  have hiff := Buffers.addRefIf_releaseIf_iff h (fun a (ha : s.buffer y = some a) => holders_pos ha)
  rw [Room, ← hiff, exec]
  -- the state is good exactly if both calls went through and the counts agree
  cases hadd : s.bufs.addRefIf (s.buffer y) with
  | error e =>
    constructor
    · intro hgood
      exact absurd (Buffers.addRefIf_error hadd) hgood
    · rintro ⟨bufs₁, bufs₂, heq, -⟩
      cases heq
  | ok bufs₁ =>
    cases hrel : bufs₁.releaseIf (s.buffer y) with
    | error e =>
      constructor
      · intro hgood
        simp only [bind, Except.bind, hrel] at hgood
        exact absurd (Buffers.releaseIf_error hrel) hgood
      · rintro ⟨bufs₁', bufs₂, heq₁, heq₂, -⟩
        cases heq₁
        rw [hrel] at heq₂
        cases heq₂
    | ok bufs₂ =>
      simp only [bind, Except.bind, hrel]
      constructor
      · intro hgood
        exact ⟨bufs₁, bufs₂, rfl, hrel, (hsame bufs₂).mp hgood⟩
      · rintro ⟨bufs₁', bufs₂', heq₁, heq₂, hagree⟩
        cases heq₁
        rw [hrel] at heq₂
        cases heq₂
        exact (hsame bufs₂).mpr hagree

theorem sound_destroy {s : RefState n} (h : s.Sound) (x : Fin n) : Good (s.exec (.destroy x)) := by
  obtain ⟨bufs, heq, hagree, -⟩ := Buffers.releaseIf_agree h (fun a (ha : s.buffer x = some a) =>
    holders_pos ha)
  have hk : (s.put x none bufs).holders = fun c => s.holders c - refs (s.buffer x) c := by
    funext c
    have hput := holders_put s x none bufs c
    have hnone : refs (none : Slot).join c = 0 := rfl
    omega
  have hheld : (s.put x none bufs).held = s.held := by
    funext c
    show (s.held c ∨ (none : Slot).join = some c) = s.held c
    simp
  rw [exec, heq]
  show Agree bufs (s.put x none bufs).holders (s.put x none bufs).held
  rw [hk, hheld]
  exact hagree

/-- A swap of the two members changes no count. -/
theorem sound_moveAssign {s : RefState n} (h : s.Sound) (x y : Fin n) :
    Good (s.exec (.moveAssign x y)) := by
  have hknown : ∀ z c, s.buffer z = some c → s.held c := fun z c hc => h.known c (holders_pos hc)
  have hiff : ((s.put x (some (s.buffer y)) s.bufs).put y (some (s.buffer x)) s.bufs).Sound ↔
      Agree s.bufs s.holders s.held := by
    apply put_put_sound_iff
    · intro c
      by_cases hyx : y = x
      · rw [hyx, buffer_put_same]
        rfl
      · rw [buffer_put_of_ne s hyx]
        exact Nat.add_comm _ _
    · exact hknown y
    · exact hknown x
  have hexec : s.exec (.moveAssign x y) =
      .ok ((s.put x (some (s.buffer y)) s.bufs).put y (some (s.buffer x)) s.bufs) := by
    rw [exec]
    rfl
  rw [hexec]
  exact hiff.mpr h

/-- The copy is the only holder of its buffer. -/
theorem good_clone {s : RefState n} (h : s.Sound) {x : Fin n} (hx : s.slices x = none) (y : Fin n)
    {a : Nat} (ha : s.bufs a = none) : Good (s.exec (.clone x y a)) := by
  rw [exec]
  cases hy : s.buffer y with
  | none =>
    intro hno
    cases hno
  | some b =>
    obtain ⟨c, hc⟩ := Option.isSome_iff_exists.mp (h.buffer_live hy)
    have hsound := Sound.allocate h ha
    -- the fresh buffer has no holder yet, so there is room for one
    have hself : (s.allocate a).bufs a = some 0 := Function.update_self _ _ _
    have hzero : (s.allocate a).holders a = 0 := by
      have hcount := hsound.counted a 0 hself
      have hint : (0 : Int32).toInt = 0 := rfl
      omega
    have hlive : (s.allocate a).Live (some a) := by
      intro a' ha'
      cases ha'
      rw [hself]
      rfl
    have hroom : (s.allocate a).Room (some a) := by
      intro a' ha'
      cases ha'
      rw [hzero]
      decide
    simp only [hc]
    exact (good_add hsound hx hlive).mpr hroom

/-- **The step lemma.** -/
theorem good_exec {s : RefState n} (h : s.Sound) {op : RefOp n} (hen : s.Enabled op) :
    Good (s.exec op) ↔ s.Keeps op := by
  -- most operations keep the counts in any case
  have htrue : ∀ {P : Prop}, P → (P ↔ True) := fun hp => Iff.intro (fun _ => trivial) (fun _ => hp)
  have hown : ∀ x, s.Live (s.buffer x) := fun x a ha => h.buffer_live ha
  cases op with
  | create a => exact htrue (Sound.allocate h hen)
  | new x buffer => exact good_add h hen.1 hen.2
  | copy x y => exact good_add h hen.1 (hown y)
  | move x y => exact good_move h hen.1 hen.2
  | destroy x => exact htrue (sound_destroy h x)
  | assign x y =>
    rw [exec, Keeps]
    -- an assignment to itself is skipped
    by_cases hxy : x = y
    · rw [if_pos hxy]
      exact ⟨fun _ => Or.inl hxy, fun _ => h⟩
    · rw [if_neg hxy, or_iff_right hxy]
      exact good_replace h x (hown y)
  | moveAssign x y => exact htrue (sound_moveAssign h x y)
  | assignBuffer x buf => exact good_replace h x hen.2
  | reset x buf => exact good_replace h x hen.2
  | clone x y a => exact htrue (good_clone h hen.1 y hen.2.2)

theorem initial_sound (n : Nat) : (initial n).Sound := by
  have hzero : ∀ a, (initial n).holders a = 0 := by
    intro a
    apply Finset.sum_eq_zero
    intro x _
    rfl
  refine ⟨fun a c ha => ?_, fun a ha => ?_, fun a ha => ?_, fun a ha _ => ?_⟩
  · cases ha
  · rw [hzero a] at ha
    cases ha
  · rw [hzero a] at ha
    cases ha
  · cases ha

/-- The condition on a step of a run. -/
def Ok (r : Except RefFault (RefState n)) (op : RefOp n) : Prop := ∀ s, r = .ok s → s.Keeps op

/-- The states from which a run goes on. -/
def GoesOn (r : Except RefFault (RefState n)) : Prop := ∀ s, r = .ok s → s.Sound

/-- From a state that goes on, a step is good exactly if its condition holds. -/
theorem good_step {r r' : Except RefFault (RefState n)} {op : RefOp n} (h : GoesOn r)
    (hst : Step r op r') : Good r' ↔ Ok r op := by
  obtain ⟨s, rfl, hen, rfl⟩ := hst
  rw [good_exec (h s rfl) hen]
  constructor
  · rintro hkeeps _ ⟨⟩
    exact hkeeps
  · intro hok
    exact hok s rfl

/-- What is good goes on. -/
theorem Good.goesOn {r : Except RefFault (RefState n)} (h : Good r) : GoesOn r := by
  rintro s rfl
  exact h

/-- **Reference counts**: every state of a run is sound exactly when every step keeps the counts. -/
theorem ref_counts_iff
    {ts : List (Except RefFault (RefState n) × RefOp n × Except RefFault (RefState n))}
    {r : Except RefFault (RefState n)} (hrun : Run Step (.ok (initial n)) ts r) :
    (∀ x ∈ ts, Good x.2.2) ↔ ∀ x ∈ ts, Ok x.1 x.2.1 := by
  have hinitial : GoesOn (.ok (initial n)) := by
    rintro _ ⟨⟩
    exact initial_sound n
  apply Run.property_iff _ _ hrun hinitial
  · intro r op r' h hst
    exact good_step h hst
  · intro r op r' h hok hst
    exact Good.goesOn ((good_step h hst).mpr hok)

/-- Two slices share a buffer, and one is given it once more. -/
theorem ref_counts_iff_shared :
    ∃ ts, ∃ s : RefState 2, Run Step (.ok (initial 2)) ts (.ok s) ∧
      ts.map (fun x => x.2.1) = [.create 0, .new 0 (some 0), .copy 1 0, .reset 0 (some 0)] ∧
      s.bufs 0 = some 2 ∧ ∀ x ∈ ts, Good x.2.2 := by
  let s₁ := (initial 2).allocate 0
  let s₂ := s₁.put 0 (some (some 0)) (Function.update s₁.bufs 0 (some (0 + 1)))
  let s₃ := s₂.put 1 (some (some 0)) (Function.update s₂.bufs 0 (some (0 + 1 + 1)))
  let s₄ := s₃.put 0 (some (some 0)) (Function.update (Function.update s₃.bufs 0
    (some (0 + 1 + 1 - 1))) 0 (some (0 + 1 + 1 - 1 + 1)))
  -- the buffer has two owners when the first one is reset to it, so it stays alive
  have h₁ : Step (.ok (initial 2)) (.create 0) (.ok s₁) := ⟨_, rfl, rfl, rfl⟩
  have h₂ : Step (.ok s₁) (.new 0 (some 0)) (.ok s₂) :=
    ⟨_, rfl, ⟨rfl, fun a ha => by cases ha; rfl⟩, rfl⟩
  have h₃ : Step (.ok s₂) (.copy 1 0) (.ok s₃) := ⟨_, rfl, ⟨rfl, by simp [s₂, put]⟩, rfl⟩
  have h₄ : Step (.ok s₃) (.reset 0 (some 0)) (.ok s₄) :=
    ⟨_, rfl, ⟨by simp [s₃, s₂, put], fun a ha => by cases ha; rfl⟩, rfl⟩
  have hrun := Run.cons h₁ (Run.cons h₂ (Run.cons h₃ (Run.single h₄)))
  have hhold : s₃.buffer 0 = some 0 := rfl
  have htwo : s₃.holders 0 = 2 := by decide
  refine ⟨_, s₄, hrun, rfl, by decide, (ref_counts_iff hrun).mpr ?_⟩
  intro x hx
  simp only [List.mem_cons, List.not_mem_nil, or_false] at hx
  rcases hx with rfl | rfl | rfl | rfl
  · rintro _ ⟨⟩
    trivial
  · rintro _ ⟨⟩ a ⟨⟩
    decide
  · rintro _ ⟨⟩ a ⟨⟩
    decide
  · rintro _ ⟨⟩ a ⟨⟩
    rw [if_pos hhold, htwo]
    decide

/-- **Counterexample**: the only holder of a buffer is given it once more. -/
theorem ref_counts_self_reset :
    ∃ ts, Run Step (.ok (initial 1)) ts (.error .useAfterFree) ∧
      ts.map (fun x => x.2.1) = [.create 0, .new 0 (some 0), .reset 0 (some 0)] ∧
      ¬∀ x ∈ ts, Good x.2.2 := by
  let s₁ := (initial 1).allocate 0
  let s₂ := s₁.put 0 (some (some 0)) (Function.update s₁.bufs 0 (some (0 + 1)))
  have h₁ : Step (.ok (initial 1)) (.create 0) (.ok s₁) := ⟨_, rfl, rfl, rfl⟩
  have h₂ : Step (.ok s₁) (.new 0 (some 0)) (.ok s₂) :=
    ⟨_, rfl, ⟨rfl, fun a ha => by cases ha; rfl⟩, rfl⟩
  have h₃ : Step (.ok s₂) (.reset 0 (some 0)) (.error .useAfterFree) :=
    ⟨_, rfl, ⟨by simp [s₂, put], fun a ha => by cases ha; rfl⟩, rfl⟩
  refine ⟨_, Run.cons h₁ (Run.cons h₂ (Run.single h₃)), rfl, fun hall => ?_⟩
  have hlast := hall (.ok s₂, .reset 0 (some 0), .error .useAfterFree) (by simp)
  exact hlast rfl

end RefState

end Turnserver
