/-
  TRANSPORTS (`thrift/transport/TTransport.h`, `TBufferTransports.h`: `TBufferBase`, `TMemoryBuffer`,
  `TBufferTransports.cpp`) — where the protocol writes to and reads from.

  A `TMemoryBuffer` is one block with a cursor to read at and a cursor to write at.  A third one,
  `rBound_`, lags behind the writing cursor: up to there a read is a mere copy, and whatever needs
  more goes the slow way, which first moves `rBound_` up to the writing cursor.  A write that does not
  fit doubles the block until it does; the sizes are 32-bit words.

  * `Transport` is what the protocol relies on; `plain` is the one without a block and without any
    fast way, and `TMemoryBuffer.transport` is this one.
  * `ByteQueue` says what the buffer is for: bytes come out in the order in which they went in, and they
    are counted.  `Answers` says what a queue may reply to a request; more than `len` bytes may be lent.
  * `run_queue`: whatever is asked of a buffer, in whatever order, it replies as the queue does, as long
    as the block stays below 2 GB.  A `readAll` for more than there is loses what there is.
-/
import Turnserver.Lib.Bytes

namespace Turnserver

open Bytes

/-- What the protocol uses of its `Transport_`, and relies on. -/
structure Transport (τ : Type) where
  /-- `none`: the process stops -/
  write : List UInt8 → τ → Option τ
  /-- nothing is read where the return value is 0 -/
  readAll : Nat → τ → List UInt8 × τ
  borrow : Nat → τ → Option (List UInt8) × τ
  /-- `none`: the assertion fails -/
  consume : Nat → τ → Option τ
  /-- what was written and not read yet -/
  pending : τ → List UInt8
  /-- so many bytes can still be written -/
  Accepts : Nat → τ → Prop
  write_ok : ∀ (bs : List UInt8) (n : Nat) (t : τ), Accepts (bs.length + n) t →
    ∃ t', write bs t = some t' ∧ pending t' = pending t ++ bs ∧ Accepts n t'
  readAll_ok : ∀ (n : Nat) (t : τ), 0 < n → n ≤ (pending t).length →
    (readAll n t).1 = (pending t).take n ∧ pending (readAll n t).2 = (pending t).drop n
  readAll_short : ∀ (n : Nat) (t : τ), (pending t).length < n → (readAll n t).1 = []
  borrow_pending : ∀ (n : Nat) (t : τ), pending (borrow n t).2 = pending t
  borrow_some : ∀ (n : Nat) (t : τ) (bs : List UInt8), (borrow n t).1 = some bs →
    bs <+: pending t ∧ n ≤ bs.length ∧ ∀ k, k ≤ bs.length →
      ∃ t', consume k (borrow n t).2 = some t' ∧ pending t' = (pending t).drop k

/-- The bytes themselves: nothing can be borrowed (`TTransport::borrow_virt`). -/
def plain : Transport (List UInt8) where
  write bs t := some (t ++ bs)
  readAll n t := if n ≤ t.length then (t.take n, t.drop n) else ([], [])
  borrow _ t := (none, t)
  consume _ _ := none
  pending t := t
  Accepts _ _ := True
  write_ok bs _ t _ := ⟨t ++ bs, rfl, rfl, trivial⟩
  readAll_ok n t _ h := by rw [if_pos h]; exact ⟨rfl, rfl⟩
  readAll_short n t h := by rw [if_neg (by omega)]
  borrow_pending _ _ := rfl
  borrow_some _ _ _ h := by cases h

/-! ## The code -/

/-- The pointers are offsets from `buffer_`: `wBase_` is the number of bytes written, `wBound_` is
    `bufferSize_` wherever either of them changes. -/
structure TMemoryBuffer where
  /-- what lies between `buffer_` and `wBase_` -/
  written : List UInt8
  rBase : Nat
  rBound : Nat
  bufferSize : Nat
  owner : Bool
  rBase_le : rBase ≤ rBound
  rBound_le : rBound ≤ written.length
  written_le : written.length ≤ bufferSize
  bufferSize_lt : bufferSize < 2 ^ 32

namespace TMemoryBuffer

/-- `TMemoryBuffer(sz)`; `defaultSize` is 1024. -/
def new (sz : UInt32) : TMemoryBuffer where
  written := []
  rBase := 0
  rBound := 0
  bufferSize := sz.toNat
  owner := true
  rBase_le := Nat.le_refl _
  rBound_le := Nat.le_refl _
  written_le := Nat.zero_le _
  bufferSize_lt := sz.toNat_lt

/-- `TMemoryBuffer(buf, sz, policy)` for a block that is observed or taken over. -/
def ofBlock (buf : List UInt8) (owner : Bool) (h : buf.length < 2 ^ 32) : TMemoryBuffer where
  written := buf
  rBase := 0
  rBound := buf.length
  bufferSize := buf.length
  owner := owner
  rBase_le := Nat.zero_le _
  rBound_le := Nat.le_refl _
  written_le := Nat.le_refl _
  bufferSize_lt := h

/-- `available_read` -/
def availableRead (m : TMemoryBuffer) : Nat := m.written.length - m.rBase

/-- `available_write` -/
def availableWrite (m : TMemoryBuffer) : Nat := m.bufferSize - m.written.length

/-- What lies between `rBase_` and `wBase_`: `getBuffer`. -/
def pending (m : TMemoryBuffer) : List UInt8 := m.written.drop m.rBase

/-! ### Writing -/

/-- The loop of `ensureCanWrite`: the size that the block gets.  Everything is a `uint32_t`. -/
def grownSize (m : TMemoryBuffer) (len : Nat) : Nat → Nat → Nat → Option Nat
  | 0, _, _ => none
  | fuel + 1, newSize, avail =>
    if avail < len then
      let newSize := if 0 < newSize then u32 (newSize * 2) else 1
      grownSize m len fuel newSize (u32 (m.availableWrite + u32Sub newSize m.bufferSize))
    else some newSize

/-- `realloc` gives another block with the same bytes; it fails for the size 0. -/
def realloc (m : TMemoryBuffer) (size : Nat) : Option TMemoryBuffer :=
  if h : m.written.length ≤ size ∧ 0 < size ∧ size < 2 ^ 32 then
    some { m with bufferSize := size, written_le := h.1, bufferSize_lt := h.2.2 }
  else none

/-- A block of others cannot grow.  No size needs more than 64 turns. -/
def ensureCanWrite (len : Nat) (m : TMemoryBuffer) : Option TMemoryBuffer :=
  if len ≤ m.availableWrite then some m
  else if !m.owner then none
  else (m.grownSize len 64 m.bufferSize m.availableWrite).bind m.realloc

/-- `memcpy(wBase_, buf, len); wBase_ += len`, within the block. -/
def store (bs : List UInt8) (m : TMemoryBuffer) : Option TMemoryBuffer :=
  if h : m.written.length + bs.length ≤ m.bufferSize then
    some { m with
      written := m.written ++ bs
      rBound_le := by rw [List.length_append]; exact Nat.le_add_right_of_le m.rBound_le
      written_le := by rw [List.length_append]; exact h }
  else none

/-- `writeSlow` -/
def writeSlow (bs : List UInt8) (m : TMemoryBuffer) : Option TMemoryBuffer :=
  (m.ensureCanWrite bs.length).bind (store bs)

/-- `write` -/
def write (bs : List UInt8) (m : TMemoryBuffer) : Option TMemoryBuffer :=
  if m.written.length + bs.length ≤ m.bufferSize then m.store bs else m.writeSlow bs

/-- `getWritePtr(len)`, the client's own writing of that many bytes, `wroteBytes(len)`. -/
def fill (bs : List UInt8) (m : TMemoryBuffer) : Option TMemoryBuffer :=
  (m.ensureCanWrite bs.length).bind fun m =>
    if m.availableWrite < bs.length then none else m.store bs

/-! ### Reading -/

/-- `rBase_ += n`, up to `rBound_`. -/
def advance (n : Nat) (m : TMemoryBuffer) : TMemoryBuffer :=
  if h : m.rBase + n ≤ m.rBound then { m with rBase := m.rBase + n, rBase_le := h } else m

/-- `rBound_ = wBase_` -/
def correct (m : TMemoryBuffer) : TMemoryBuffer :=
  { m with
    rBound := m.written.length
    rBase_le := Nat.le_trans m.rBase_le m.rBound_le
    rBound_le := Nat.le_refl _ }

/-- `computeRead`, with what the caller copies. -/
def computeRead (len : Nat) (m : TMemoryBuffer) : List UInt8 × TMemoryBuffer :=
  let m := m.correct
  let give := min len m.availableRead
  (m.pending.take give, m.advance give)

/-- `read` -/
def read (len : Nat) (m : TMemoryBuffer) : List UInt8 × TMemoryBuffer :=
  if m.rBase + len ≤ m.rBound then (m.pending.take len, m.advance len) else m.computeRead len

/-- The loop of `readAll`; each turn reads something or ends the loop. -/
def readAllLoop (len : Nat) : Nat → List UInt8 → TMemoryBuffer → List UInt8 × TMemoryBuffer
  | 0, have_, m => (have_, m)
  | turns + 1, have_, m =>
    if have_.length < len then
      let get := m.read (len - have_.length)
      if get.1 = [] then ([], get.2) else readAllLoop len turns (have_ ++ get.1) get.2
    else (have_, m)

/-- `readAll` -/
def readAll (len : Nat) (m : TMemoryBuffer) : List UInt8 × TMemoryBuffer :=
  if m.rBase + len ≤ m.rBound then (m.pending.take len, m.advance len)
  else m.readAllLoop len len []

/-- What is lent reaches to `rBound_`. -/
def borrow (len : Nat) (m : TMemoryBuffer) : Option (List UInt8) × TMemoryBuffer :=
  if len ≤ m.rBound - m.rBase then (some (m.pending.take (m.rBound - m.rBase)), m)
  else
    let m := m.correct
    if len ≤ m.availableRead then (some m.pending, m) else (none, m)

/-- `consume` -/
def consume (len : Nat) (m : TMemoryBuffer) : Option TMemoryBuffer :=
  if len ≤ m.rBound - m.rBase then some (m.advance len) else none

/-- `resetBuffer()` -/
def resetBuffer (m : TMemoryBuffer) : TMemoryBuffer where
  written := []
  rBase := 0
  rBound := 0
  bufferSize := if m.owner then m.bufferSize else 0
  owner := m.owner
  rBase_le := Nat.le_refl _
  rBound_le := Nat.le_refl _
  written_le := Nat.zero_le _
  bufferSize_lt := by
    split
    · exact m.bufferSize_lt
    · decide

/-- `readEnd()`: the bytes read since the block began.  It begins anew where everything has been read. -/
def readEnd (m : TMemoryBuffer) : Nat × TMemoryBuffer :=
  (m.rBase, if m.rBase = m.written.length then m.resetBuffer else m)

/-- `writeEnd()`: the bytes written since then. -/
def writeEnd (m : TMemoryBuffer) : Nat := m.written.length

/-! ## What they do to the bytes that are there -/

variable (m : TMemoryBuffer)

/-- What is pending is what can be read. -/
theorem pending_length : m.pending.length = m.availableRead := List.length_drop

/-- Correcting the bound takes nothing away. -/
theorem pending_correct : m.correct.pending = m.pending := rfl

/-- Advancing takes from the front. -/
theorem pending_advance {n : Nat} (h : m.rBase + n ≤ m.rBound) :
    (m.advance n).pending = m.pending.drop n := by
  rw [advance, dif_pos h, pending, pending, List.drop_drop]

/-- `computeRead` gives the front of what is pending. -/
theorem pending_computeRead (len : Nat) :
    m.computeRead len = (m.pending.take len, m.correct.advance (min len m.availableRead)) ∧
      (m.computeRead len).2.pending = m.pending.drop len := by
  have hle : m.rBase + min len m.availableRead ≤ m.written.length := by
    have h1 := m.rBase_le
    have h2 := m.rBound_le
    rw [availableRead]
    omega
  have htake : m.pending.take (min len m.availableRead) = m.pending.take len := by
    rw [List.take_eq_take_iff, pending_length]
    omega
  -- `available_read` bytes are all there are
  have hdrop : m.pending.drop (min len m.availableRead) = m.pending.drop len := by
    rcases Nat.le_total len m.availableRead with h | h
    · rw [Nat.min_eq_left h]
    · rw [Nat.min_eq_right h, List.drop_eq_nil_of_le (Nat.le_of_eq m.pending_length),
        List.drop_eq_nil_of_le (by rw [pending_length]; exact h)]
  refine ⟨?_, ?_⟩
  · rw [← htake]
    rfl
  · have h := m.correct.pending_advance (n := min len m.availableRead) hle
    rw [pending_correct, hdrop] at h
    exact h

/-- The fast way and the slow way read the same. -/
theorem read_spec (len : Nat) :
    (m.read len).1 = m.pending.take len ∧ (m.read len).2.pending = m.pending.drop len := by
  rw [read]
  rcases Nat.lt_or_ge m.rBound (m.rBase + len) with h | h
  · rw [if_neg (by omega), (m.pending_computeRead len).1]
    refine ⟨rfl, ?_⟩
    rw [← (m.pending_computeRead len).2, (m.pending_computeRead len).1]
  · rw [if_pos h]
    exact ⟨rfl, m.pending_advance h⟩

/-- The loop of `readAll` gives what was asked for: induction on the turns. -/
theorem readAllLoop_spec {len : Nat} (h : len ≤ m.pending.length) (turns : Nat)
    (ht : len ≤ turns) :
    (m.readAllLoop len turns []).1 = m.pending.take len ∧
      (m.readAllLoop len turns []).2.pending = m.pending.drop len := by
  -- all of it is there: the first turn reads it
  rcases Nat.eq_zero_or_pos len with rfl | hpos
  · cases turns <;> simp [readAllLoop]
  · cases turns with
    | zero => exact absurd ht (by omega)
    | succ turns =>
      rcases m.read_spec len with ⟨hget, hleft⟩
      have hlen : (m.read len).1.length = len := by
        rw [hget, List.length_take]
        omega
      have hne : (m.read len).1 ≠ [] := by
        intro hnil
        rw [hnil] at hlen
        exact absurd hlen.symm (by simpa using Nat.ne_of_gt hpos)
      have hturn : m.readAllLoop len (turns + 1) [] = ((m.read len).1, (m.read len).2) := by
        simp only [readAllLoop, List.length_nil, Nat.sub_zero, if_pos hpos, if_neg hne,
          List.nil_append]
        cases turns with
        | zero => rfl
        | succ turns => rw [readAllLoop, if_neg (by omega)]
      rw [hturn]
      exact ⟨hget, hleft⟩

/-- A loop that asks for more than there is ends with nothing, and leaves nothing. -/
theorem readAllLoop_short {len turns : Nat} {acc : List UInt8}
    (h : acc.length + m.pending.length < len) (ht : len < acc.length + turns + 1) :
    (m.readAllLoop len turns acc).1 = [] ∧ (m.readAllLoop len turns acc).2.pending = [] := by
  -- induction on the turns: each one takes all that there is, and an empty read ends the loop
  induction turns generalizing m acc with
  | zero => exact absurd h (by omega)
  | succ turns ih =>
    rcases m.read_spec (len - acc.length) with ⟨hget, hleft⟩
    have hall : m.pending.take (len - acc.length) = m.pending := List.take_of_length_le (by omega)
    have hnone : m.pending.drop (len - acc.length) = [] := List.drop_eq_nil_of_le (by omega)
    rw [hall] at hget
    rw [hnone] at hleft
    rw [readAllLoop, if_pos (by omega)]
    simp only [hget]
    by_cases hnil : m.pending = []
    · simp only [hnil, if_true]
      exact ⟨trivial, hleft⟩
    · rw [if_neg hnil]
      have hpos : 0 < m.pending.length := List.length_pos_iff.mpr hnil
      refine ih _ ?_ ?_
      · rw [hleft, List.length_append, List.length_nil]
        omega
      · rw [List.length_append]
        omega

/-- `readAll` gives what was asked for, if it is there. -/
theorem readAll_spec {len : Nat} (h : len ≤ m.pending.length) :
    (m.readAll len).1 = m.pending.take len ∧ (m.readAll len).2.pending = m.pending.drop len := by
  rw [readAll]
  rcases Nat.lt_or_ge m.rBound (m.rBase + len) with hfast | hfast
  · rw [if_neg (by omega)]
    exact m.readAllLoop_spec h len (Nat.le_refl _)
  · rw [if_pos hfast]
    exact ⟨rfl, m.pending_advance hfast⟩

/-- What the bound covers is pending. -/
theorem rBound_pending_le : m.rBound - m.rBase ≤ m.pending.length := by
  have := m.rBound_le
  rw [pending_length, availableRead]
  omega

/-- `readAll` gives nothing if there is too little. -/
theorem readAll_short {len : Nat} (h : m.pending.length < len) :
    (m.readAll len).1 = [] ∧ (m.readAll len).2.pending = [] := by
  have := m.rBound_pending_le
  rw [readAll, if_neg (by omega)]
  exact m.readAllLoop_short (by simpa using h) (by simp)

/-- Borrowing takes nothing. -/
theorem pending_borrow (len : Nat) : (m.borrow len).2.pending = m.pending := by
  rw [borrow]
  split
  · rfl
  · dsimp only
    split <;> rfl

/-- What is lent is a beginning of what is there, long enough, and can be consumed. -/
theorem borrow_spec {len : Nat} {bs : List UInt8} (h : (m.borrow len).1 = some bs) :
    bs <+: m.pending ∧ len ≤ bs.length ∧ ∀ k, k ≤ bs.length →
      ∃ m', (m.borrow len).2.consume k = some m' ∧ m'.pending = m.pending.drop k := by
  have hle := m.rBase_le
  rw [borrow] at h ⊢
  -- enough bytes below `rBound_`, or below `wBase_` after it has been moved up
  by_cases hfast : len ≤ m.rBound - m.rBase
  · rw [if_pos hfast] at h ⊢
    cases h
    dsimp only
    have hlen : (m.pending.take (m.rBound - m.rBase)).length = m.rBound - m.rBase := by
      rw [List.length_take]
      have := m.rBound_pending_le
      omega
    refine ⟨List.take_prefix _ _, by omega, fun k hk => ⟨m.advance k, ?_, ?_⟩⟩
    · rw [consume, if_pos (by omega)]
    · exact m.pending_advance (by omega)
  · rw [if_neg hfast] at h ⊢
    dsimp only at h ⊢
    by_cases hslow : len ≤ m.correct.availableRead
    · rw [if_pos hslow] at h ⊢
      cases h
      rw [pending_correct]
      have hlen : m.pending.length = m.written.length - m.rBase := m.pending_length
      have := m.rBound_le
      have hbound : m.correct.rBound = m.written.length := rfl
      have hbase : m.correct.rBase = m.rBase := rfl
      refine ⟨List.prefix_refl _, ?_, fun k hk => ⟨m.correct.advance k, ?_, ?_⟩⟩
      · rw [pending_length]
        exact hslow
      · rw [consume, hbound, hbase, if_pos (by omega)]
      · exact m.correct.pending_advance (by rw [hbound, hbase]; omega)
    · rw [if_neg hslow] at h
      cases h

/-- What is pending can be borrowed. -/
theorem borrow_isSome_of_le {len : Nat} (h : len ≤ m.pending.length) :
    ∃ bs, (m.borrow len).1 = some bs := by
  rw [borrow]
  by_cases hfast : len ≤ m.rBound - m.rBase
  · rw [if_pos hfast]
    exact ⟨_, rfl⟩
  · have hslow : len ≤ m.correct.availableRead := by rw [pending_length] at h; exact h
    rw [if_neg hfast]
    dsimp only
    rw [if_pos hslow]
    exact ⟨_, rfl⟩

/-! ## Growing -/

/-- Doubling reaches every size up to `2 ^ 31` without running over. -/
theorem grownSize_spec {len : Nat} (hlen : m.written.length + len ≤ 2 ^ 31) (fuel : Nat) :
    ∀ {newSize avail : Nat}, m.bufferSize ≤ newSize → 0 < newSize → newSize < 2 ^ 32 →
      avail = newSize - m.written.length → m.written.length + len ≤ newSize * 2 ^ fuel →
      ∃ size, m.grownSize len (fuel + 1) newSize avail = some size ∧
        m.written.length + len ≤ size ∧ 0 < size ∧ size < 2 ^ 32 := by
  induction fuel with
  | zero =>
    intro newSize avail hsize hpos hlt havail hreach
    have := m.written_le
    rw [Nat.pow_zero, Nat.mul_one] at hreach
    exact ⟨newSize, by rw [grownSize, if_neg (by omega)], hreach, hpos, hlt⟩
  | succ fuel ih =>
    intro newSize avail hsize hpos hlt havail hreach
    have hwritten := m.written_le
    rw [grownSize]
    by_cases henough : avail < len
    · -- not enough yet: what there is is below `2 ^ 31`, and its double is no less than needed
      have hdouble : u32 (newSize * 2) = newSize * 2 := u32_of_lt (by omega)
      have hsub : u32Sub (newSize * 2) m.bufferSize = newSize * 2 - m.bufferSize :=
        u32Sub_of_le (by omega)
      have hnext : u32 (m.availableWrite + (newSize * 2 - m.bufferSize)) =
          newSize * 2 - m.written.length := by
        rw [availableWrite, u32_of_lt (by omega)]
        omega
      rw [if_pos henough]
      dsimp only
      rw [if_pos hpos, hdouble, hsub, hnext]
      refine ih (by omega) (by omega) (by omega) rfl ?_
      rw [Nat.pow_succ, Nat.mul_comm (2 ^ fuel) 2, ← Nat.mul_assoc] at hreach
      exact hreach
    · rw [if_neg henough]
      exact ⟨newSize, rfl, by omega, hpos, hlt⟩

/-- The block of a buffer that owns it grows as needed, up to `2 ^ 31` bytes. -/
theorem ensureCanWrite_spec {len : Nat} (howner : m.owner = true)
    (hlen : m.written.length + len ≤ 2 ^ 31) :
    ∃ m', m.ensureCanWrite len = some m' ∧ m'.written = m.written ∧ m'.rBase = m.rBase ∧
      m'.rBound = m.rBound ∧ m'.owner = true ∧ m.written.length + len ≤ m'.bufferSize := by
  have hwritten := m.written_le
  rw [ensureCanWrite]
  by_cases hroom : len ≤ m.availableWrite
  · rw [availableWrite] at hroom
    rw [if_pos (by rw [availableWrite]; exact hroom)]
    exact ⟨m, rfl, rfl, rfl, rfl, howner, by omega⟩
  · rw [availableWrite] at hroom
    have hgrown : ∃ size, m.grownSize len 64 m.bufferSize m.availableWrite = some size ∧
        m.written.length + len ≤ size ∧ 0 < size ∧ size < 2 ^ 32 := by
      rcases Nat.eq_zero_or_pos m.bufferSize with hzero | hpos
      · -- a block of no size gets one byte first
        have hempty : m.availableWrite = 0 := by rw [availableWrite]; omega
        have hone : u32 (m.availableWrite + u32Sub 1 m.bufferSize) = 1 := by
          rw [hempty, hzero]
          rfl
        rw [grownSize, if_pos (by rw [availableWrite]; omega)]
        dsimp only
        rw [if_neg (by omega), hone]
        exact m.grownSize_spec hlen 62 (by omega) (by omega) (by omega) (by omega) (by omega)
      · exact m.grownSize_spec hlen 63 (Nat.le_refl _) hpos m.bufferSize_lt rfl (by omega)
    rcases hgrown with ⟨size, hsize, hneed, hpos, hlt⟩
    rw [if_neg (by rw [availableWrite]; exact hroom), if_neg (by simp [howner]), hsize,
      Option.bind_some, realloc, dif_pos ⟨by omega, hpos, hlt⟩]
    exact ⟨_, rfl, rfl, rfl, rfl, howner, hneed⟩

/-- Storing appends, where there is room. -/
theorem store_spec {bs : List UInt8} (h : m.written.length + bs.length ≤ m.bufferSize) :
    ∃ m', m.store bs = some m' ∧ m'.written = m.written ++ bs ∧ m'.rBase = m.rBase ∧
      m'.owner = m.owner := by
  rw [store, dif_pos h]
  exact ⟨_, rfl, rfl, rfl, rfl⟩

/-- What is appended is pending behind the rest. -/
theorem pending_of_append {m m' : TMemoryBuffer} {bs : List UInt8}
    (hw : m'.written = m.written ++ bs) (hr : m'.rBase = m.rBase) :
    m'.pending = m.pending ++ bs := by
  have h1 := m.rBase_le
  have h2 := m.rBound_le
  rw [pending, pending, hw, hr, List.drop_append_of_le_length (by omega)]

/-- `write` adds the bytes at the end. -/
theorem write_spec (bs : List UInt8) (howner : m.owner = true)
    (hlen : m.written.length + bs.length ≤ 2 ^ 31) :
    ∃ m', m.write bs = some m' ∧ m'.written = m.written ++ bs ∧ m'.rBase = m.rBase ∧
      m'.owner = true := by
  rw [write]
  by_cases hfast : m.written.length + bs.length ≤ m.bufferSize
  · rw [if_pos hfast, ← howner]
    exact m.store_spec hfast
  · rcases m.ensureCanWrite_spec howner hlen with ⟨m₁, hm₁, hw, hr, -, ho, hroom⟩
    rw [if_neg hfast, writeSlow, hm₁, Option.bind_some, ← hw, ← hr, ← ho]
    exact m₁.store_spec (by rw [hw]; exact hroom)

/-- `getWritePtr` and `wroteBytes` do the same. -/
theorem fill_spec (bs : List UInt8) (howner : m.owner = true)
    (hlen : m.written.length + bs.length ≤ 2 ^ 31) :
    ∃ m', m.fill bs = some m' ∧ m'.written = m.written ++ bs ∧ m'.rBase = m.rBase ∧
      m'.owner = true := by
  rcases m.ensureCanWrite_spec howner hlen with ⟨m₁, hm₁, hw, hr, -, ho, hroom⟩
  have hle := m₁.written_le
  rw [fill, hm₁, Option.bind_some, if_neg (by rw [availableWrite, hw]; omega), ← hw, ← hr, ← ho]
  exact m₁.store_spec (by rw [hw]; exact hroom)

/-! ## As a transport -/

/-- The block of a buffer that owns it may grow to `2 ^ 31` bytes. -/
def Accepts (n : Nat) (m : TMemoryBuffer) : Prop :=
  m.owner = true ∧ m.written.length + n ≤ 2 ^ 31

/-- The buffer as a transport. -/
def transport : Transport TMemoryBuffer where
  write := write
  readAll := readAll
  borrow := borrow
  consume := consume
  pending := pending
  Accepts := Accepts
  write_ok bs n m h := by
    rcases m.write_spec bs h.1 (by have := h.2; omega) with ⟨m', hm', hw, hr, ho⟩
    refine ⟨m', hm', pending_of_append hw hr, ho, ?_⟩
    rw [hw, List.length_append, Nat.add_assoc]
    exact h.2
  readAll_ok n m _ h := m.readAll_spec h
  readAll_short n m h := (m.readAll_short h).1
  borrow_pending n m := m.pending_borrow n
  borrow_some n m bs h := m.borrow_spec h

end TMemoryBuffer

/-! ## The queue -/

/-- Bytes that wait to be read, and how many have been read since the queue began. -/
structure ByteQueue where
  taken : Nat
  bytes : List UInt8

namespace ByteQueue

/-- Bytes are put behind the others. -/
def put (bs : List UInt8) (q : ByteQueue) : ByteQueue := { q with bytes := q.bytes ++ bs }

/-- The first `n` bytes are read, or as many as there are. -/
def take (n : Nat) (q : ByteQueue) : ByteQueue := ⟨q.taken + min n q.bytes.length, q.bytes.drop n⟩

/-- The counting begins anew where nothing is left. -/
def settle (q : ByteQueue) : ByteQueue := if q.bytes = [] then ⟨0, []⟩ else q

end ByteQueue

/-- What a client can ask of a buffer. -/
inductive BufferOp
  | write (bs : List UInt8)
  | fill (bs : List UInt8)
  | read (len : Nat)
  | readAll (len : Nat)
  | readAppendToString (len : Nat)
  /-- borrow `len` bytes, and consume as many of those that are lent as the client likes -/
  | borrow (len : Nat) (used : List UInt8 → Nat) (h : ∀ bs, used bs ≤ bs.length)
  | readEnd
  | writeEnd
  | available_read
  | getBuffer

/-- What a client gets: nothing, the bytes that are copied to it, the bytes that are lent if the pointer
    is not null, or a number. -/
inductive BufferReply
  | done
  | bytes (bs : List UInt8)
  | lent (bs : Option (List UInt8))
  | count (n : Nat)

namespace BufferOp

/-- What the client gets, and the buffer after it. -/
def perform (m : TMemoryBuffer) : BufferOp → Option (BufferReply × TMemoryBuffer)
  | write bs => (m.write bs).map fun m => (.done, m)
  | fill bs => (m.fill bs).map fun m => (.done, m)
  | read len => some (.bytes (m.read len).1, (m.read len).2)
  | readAll len => some (.bytes (m.readAll len).1, (m.readAll len).2)
  | readAppendToString len => some (.bytes (m.computeRead len).1, (m.computeRead len).2)
  | borrow len used _ =>
    match m.borrow len with
    | (none, m) => some (.lent none, m)
    | (some bs, m) => (m.consume (used bs)).map fun m => (.lent (some bs), m)
  | readEnd => some (.count m.readEnd.1, m.readEnd.2)
  | writeEnd => some (.count m.writeEnd, m)
  | available_read => some (.count m.availableRead, m)
  | getBuffer => some (.bytes m.pending, m)

/-- A sequence of requests, with all that the client gets. -/
def run : List BufferOp → TMemoryBuffer → Option (List BufferReply × TMemoryBuffer)
  | [], m => some ([], m)
  | op :: ops, m =>
    (op.perform m).bind fun r => (run ops r.2).map fun rs => (r.1 :: rs.1, rs.2)

/-- The bytes that a request brings. -/
def brought : BufferOp → Nat
  | write bs => bs.length
  | fill bs => bs.length
  | _ => 0

/-- What a queue may reply to the request, and what it is afterwards.  Where it lends bytes, these are any
    beginning of it with `len` bytes or more. -/
def Answers (q : ByteQueue) : BufferOp → BufferReply → ByteQueue → Prop
  | write bs, r, q' => r = .done ∧ q' = q.put bs
  | fill bs, r, q' => r = .done ∧ q' = q.put bs
  | read len, r, q' => r = .bytes (q.bytes.take len) ∧ q' = q.take len
  | readAll len, r, q' =>
    r = .bytes (if len ≤ q.bytes.length then q.bytes.take len else []) ∧ q' = q.take len
  | readAppendToString len, r, q' => r = .bytes (q.bytes.take len) ∧ q' = q.take len
  | borrow len used _, r, q' =>
    (q.bytes.length < len ∧ r = .lent none ∧ q' = q) ∨
      ∃ bs, bs <+: q.bytes ∧ len ≤ bs.length ∧ r = .lent (some bs) ∧ q' = q.take (used bs)
  | readEnd, r, q' => r = .count q.taken ∧ q' = q.settle
  | writeEnd, r, q' => r = .count (q.taken + q.bytes.length) ∧ q' = q
  | available_read, r, q' => r = .count q.bytes.length ∧ q' = q
  | getBuffer, r, q' => r = .bytes q.bytes ∧ q' = q

/-- What a queue may reply to a sequence of requests. -/
inductive Serves : ByteQueue → List BufferOp → List BufferReply → ByteQueue → Prop
  | nil (q : ByteQueue) : Serves q [] [] q
  | cons {q q₁ q' : ByteQueue} {op : BufferOp} {r : BufferReply} {ops : List BufferOp} {rs : List BufferReply} :
      op.Answers q r q₁ → Serves q₁ ops rs q' → Serves q (op :: ops) (r :: rs) q'

end BufferOp

namespace TMemoryBuffer

/-- The queue that a buffer stands for; where `rBound_` is, and how large the block is, does not matter. -/
def queue (m : TMemoryBuffer) : ByteQueue := ⟨m.rBase, m.pending⟩

/-- The first `n` bytes that are left are left out. -/
theorem queue_of_drop {m m' : TMemoryBuffer} {n : Nat} (hw : m'.written = m.written)
    (hp : m'.pending = m.pending.drop n) : m'.queue = m.queue.take n := by
  have hbase := m.rBase_le
  have hbound := m.rBound_le
  have hbase' := m'.rBase_le
  have hbound' := m'.rBound_le
  have hlen := m.pending_length
  have hlen' := m'.pending_length
  rw [hp, List.length_drop, hlen, availableRead, availableRead, hw] at hlen'
  rw [hw] at hbound'
  have htaken : m'.rBase = m.rBase + min n m.pending.length := by
    rw [hlen, availableRead]
    omega
  rw [queue, queue, ByteQueue.take, hp, htaken]

/-- Appending to the buffer is putting into the queue. -/
theorem queue_of_append {m m' : TMemoryBuffer} {bs : List UInt8} (hw : m'.written = m.written ++ bs)
    (hr : m'.rBase = m.rBase) : m'.queue = m.queue.put bs := by
  rw [queue, queue, ByteQueue.put, pending_of_append hw hr, hr]

/-- Nothing has been read, and nothing else has changed. -/
theorem queue_same {m m' : TMemoryBuffer} (hw : m'.written = m.written)
    (hp : m'.pending = m.pending) : m'.queue = m.queue := by
  have h := queue_of_drop (n := 0) hw hp
  rwa [ByteQueue.take, Nat.zero_min, Nat.add_zero, List.drop_zero] at h

/-- `readEnd` settles the queue. -/
theorem queue_readEnd (m : TMemoryBuffer) : m.readEnd.2.queue = m.queue.settle := by
  have hbase := m.rBase_le
  have hbound := m.rBound_le
  have hiff : m.rBase = m.written.length ↔ m.pending = [] := by
    rw [pending, List.drop_eq_nil_iff]
    omega
  rw [readEnd, ByteQueue.settle]
  by_cases hall : m.rBase = m.written.length
  · have hnone : m.queue.bytes = [] := hiff.mp hall
    rw [if_pos hall, if_pos hnone]
    rfl
  · have hsome : ¬ m.queue.bytes = [] := fun hnone => hall (hiff.mpr hnone)
    rw [if_neg hall, if_neg hsome]

end TMemoryBuffer

namespace BufferOp

/-! ### One request -/

/-- The block is the same, whatever has been read of it. -/
structure SameBlock (m m' : TMemoryBuffer) : Prop where
  owner : m'.owner = m.owner
  written : m'.written = m.written

namespace SameBlock

variable {m m' m'' : TMemoryBuffer}

theorem refl (m : TMemoryBuffer) : SameBlock m m := ⟨rfl, rfl⟩

theorem trans (h : SameBlock m m') (h' : SameBlock m' m'') : SameBlock m m'' :=
  ⟨h'.owner.trans h.owner, h'.written.trans h.written⟩

/-- There is as much room as before. -/
theorem accepts {k n : Nat} (h : SameBlock m m') (haccepts : m.Accepts (k + n)) : m'.Accepts n := by
  rcases haccepts with ⟨howner, hroom⟩
  refine ⟨h.owner.trans howner, ?_⟩
  rw [h.written]
  omega

theorem advance (m : TMemoryBuffer) (n : Nat) : SameBlock m (m.advance n) := by
  rw [TMemoryBuffer.advance]
  split <;> exact ⟨rfl, rfl⟩

/-- Correcting `rBound_` does not touch the block. -/
theorem computeRead (m : TMemoryBuffer) (len : Nat) : SameBlock m (m.computeRead len).2 := by
  have hcorrect : SameBlock m m.correct := ⟨rfl, rfl⟩
  exact hcorrect.trans (advance m.correct _)

theorem read (m : TMemoryBuffer) (len : Nat) : SameBlock m (m.read len).2 := by
  rw [TMemoryBuffer.read]
  split
  · exact advance m len
  · exact computeRead m len

theorem readAllLoop (m : TMemoryBuffer) (len turns : Nat) (acc : List UInt8) :
    SameBlock m (m.readAllLoop len turns acc).2 := by
  induction turns generalizing m acc with
  | zero => exact refl m
  | succ turns ih =>
    rw [TMemoryBuffer.readAllLoop]
    split
    · dsimp only
      split
      · exact read m _
      · exact (read m _).trans (ih _ _)
    · exact refl m

theorem readAll (m : TMemoryBuffer) (len : Nat) : SameBlock m (m.readAll len).2 := by
  rw [TMemoryBuffer.readAll]
  split
  · exact advance m len
  · exact readAllLoop m len len []

theorem borrow (m : TMemoryBuffer) (len : Nat) : SameBlock m (m.borrow len).2 := by
  rw [TMemoryBuffer.borrow]
  split
  · exact refl m
  · dsimp only
    split <;> exact ⟨rfl, rfl⟩

theorem consume {len : Nat} (h : m.consume len = some m') : SameBlock m m' := by
  rw [TMemoryBuffer.consume] at h
  split at h
  · cases h
    exact advance m len
  · cases h

end SameBlock

/-- A request that brings bytes puts them into the queue, if there is room. -/
theorem put_answers {m m' : TMemoryBuffer} {bs : List UInt8} {n : Nat} (h : m.Accepts (bs.length + n))
    (hw : m'.written = m.written ++ bs) (hr : m'.rBase = m.rBase) (ho : m'.owner = true) :
    m'.queue = m.queue.put bs ∧ m'.Accepts n := by
  refine ⟨TMemoryBuffer.queue_of_append hw hr, ho, ?_⟩
  have hroom := h.2
  rw [hw, List.length_append]
  omega

/-- `readAll` takes all that is asked for, or loses what there is. -/
theorem readAll_answers (m : TMemoryBuffer) (len : Nat) :
    (readAll len).Answers m.queue (.bytes (m.readAll len).1) (m.readAll len).2.queue := by
  have hsame := SameBlock.readAll m len
  by_cases hlen : len ≤ m.pending.length
  · rcases m.readAll_spec hlen with ⟨hget, hleft⟩
    refine ⟨congrArg _ ?_, TMemoryBuffer.queue_of_drop hsame.written hleft⟩
    exact hget.trans (if_pos hlen).symm
  · -- what there is has been copied, and is lost
    rcases m.readAll_short (Nat.lt_of_not_le hlen) with ⟨hget, hleft⟩
    have hdrop : m.pending.drop len = [] := List.drop_eq_nil_of_le (by omega)
    refine ⟨congrArg _ ?_, TMemoryBuffer.queue_of_drop hsame.written (hleft.trans hdrop.symm)⟩
    exact hget.trans (if_neg hlen).symm

/-- What is lent is a beginning of the queue, of which some is consumed; nothing is lent only where there
    is too little. -/
theorem borrow_answers (m : TMemoryBuffer) (len : Nat) (used : List UInt8 → Nat)
    (hused : ∀ bs, used bs ≤ bs.length) :
    ∃ r m', (borrow len used hused).perform m = some (r, m') ∧
      (borrow len used hused).Answers m.queue r m'.queue ∧ SameBlock m m' := by
  have hsame := SameBlock.borrow m len
  cases hlent : (m.borrow len).1 with
  | none =>
    have hshort : m.pending.length < len := by
      by_contra hle
      rcases m.borrow_isSome_of_le (Nat.le_of_not_lt hle) with ⟨bs, hbs⟩
      rw [hlent] at hbs
      cases hbs
    have hpair : m.borrow len = (none, (m.borrow len).2) := by rw [← hlent]
    have hqueue := TMemoryBuffer.queue_same hsame.written (m.pending_borrow len)
    exact ⟨.lent none, (m.borrow len).2, by rw [perform, hpair], Or.inl ⟨hshort, rfl, hqueue⟩, hsame⟩
  | some bs =>
    rcases m.borrow_spec hlent with ⟨hcut, hlen, hconsume⟩
    rcases hconsume (used bs) (hused bs) with ⟨m', hm', hleft⟩
    have hpair : m.borrow len = (some bs, (m.borrow len).2) := by rw [← hlent]
    have hsame' := hsame.trans (SameBlock.consume hm')
    refine ⟨.lent (some bs), m', ?_, Or.inr ⟨bs, hcut, hlen, rfl, ?_⟩, hsame'⟩
    · rw [perform, hpair]
      dsimp only
      rw [hm', Option.map_some]
    · exact TMemoryBuffer.queue_of_drop hsame'.written hleft

/-- **One request.**  The buffer replies as the queue may, and its block takes no more room than before,
    but for the bytes that the request brings. -/
theorem perform_answers {m : TMemoryBuffer} {op : BufferOp} {n : Nat}
    (h : m.Accepts (op.brought + n)) :
    ∃ r m', op.perform m = some (r, m') ∧ op.Answers m.queue r m'.queue ∧ m'.Accepts n := by
  have hroom := h.2
  cases op with
  | write bs =>
    rcases m.write_spec bs h.1 (by simp only [brought] at hroom; omega) with ⟨m', hm', hw, hr, ho⟩
    rcases put_answers h hw hr ho with ⟨hqueue, haccepts⟩
    exact ⟨.done, m', by rw [perform, hm', Option.map_some], ⟨rfl, hqueue⟩, haccepts⟩
  | fill bs =>
    rcases m.fill_spec bs h.1 (by simp only [brought] at hroom; omega) with ⟨m', hm', hw, hr, ho⟩
    rcases put_answers h hw hr ho with ⟨hqueue, haccepts⟩
    exact ⟨.done, m', by rw [perform, hm', Option.map_some], ⟨rfl, hqueue⟩, haccepts⟩
  | read len =>
    rcases m.read_spec len with ⟨hget, hleft⟩
    have hsame := SameBlock.read m len
    exact ⟨_, _, rfl, ⟨congrArg _ hget, TMemoryBuffer.queue_of_drop hsame.written hleft⟩, hsame.accepts h⟩
  | readAll len => exact ⟨_, _, rfl, readAll_answers m len, (SameBlock.readAll m len).accepts h⟩
  | readAppendToString len =>
    rcases m.pending_computeRead len with ⟨hget, hleft⟩
    have hsame := SameBlock.computeRead m len
    have hbytes : (m.computeRead len).1 = m.pending.take len := by rw [hget]
    exact ⟨_, _, rfl, ⟨congrArg _ hbytes, TMemoryBuffer.queue_of_drop hsame.written hleft⟩, hsame.accepts h⟩
  | borrow len used hused =>
    rcases borrow_answers m len used hused with ⟨r, m', hop, hanswers, hsame⟩
    exact ⟨r, m', hop, hanswers, hsame.accepts h⟩
  | readEnd =>
    refine ⟨_, _, rfl, ⟨rfl, m.queue_readEnd⟩, ?_⟩
    rw [TMemoryBuffer.readEnd]
    dsimp only
    split
    · refine ⟨h.1, ?_⟩
      show 0 + n ≤ 2 ^ 31
      omega
    · exact (SameBlock.refl m).accepts h
  | writeEnd =>
    have hcount : m.writeEnd = m.rBase + m.pending.length := by
      have hbase := m.rBase_le
      have hbound := m.rBound_le
      rw [TMemoryBuffer.writeEnd, TMemoryBuffer.pending_length, TMemoryBuffer.availableRead]
      omega
    exact ⟨_, m, rfl, ⟨congrArg _ hcount, rfl⟩, (SameBlock.refl m).accepts h⟩
  | available_read =>
    exact ⟨_, m, rfl, ⟨congrArg _ m.pending_length.symm, rfl⟩, (SameBlock.refl m).accepts h⟩
  | getBuffer => exact ⟨_, m, rfl, ⟨rfl, rfl⟩, (SameBlock.refl m).accepts h⟩

/-! ### Every sequence -/

/-- **A memory buffer is a queue.**  Whatever is asked of it, in whatever order, what it returns is what
    the queue of its bytes may reply, and it ends with what is left in the queue, as long as what is
    written fits into 2 GB. -/
theorem run_queue {ops : List BufferOp} {m : TMemoryBuffer}
    (h : m.Accepts (ops.map brought).sum) :
    ∃ rs m', run ops m = some (rs, m') ∧ Serves m.queue ops rs m'.queue := by
  induction ops generalizing m with
  | nil => exact ⟨[], m, rfl, .nil _⟩
  | cons op ops ih =>
    rw [List.map_cons, List.sum_cons] at h
    rcases perform_answers h with ⟨r, m₁, hop, hanswers, haccepts⟩
    rcases ih haccepts with ⟨rs, m', hrun, hserves⟩
    refine ⟨r :: rs, m', ?_, .cons hanswers hserves⟩
    rw [run, hop, Option.bind_some, hrun]
    rfl

/-- Three bytes come out in two requests, the second of which has to correct `rBound_`. -/
theorem run_queue_sample :
    ∃ rs m', run [.write [1, 2], .borrow 2 (fun bs => min 1 bs.length) (fun _ => Nat.min_le_right _ _),
        .fill [3], .readAll 2, .readEnd] (.new 1024) = some (rs, m') ∧
      Serves ⟨0, []⟩ [.write [1, 2], .borrow 2 (fun bs => min 1 bs.length)
        (fun _ => Nat.min_le_right _ _), .fill [3], .readAll 2, .readEnd] rs m'.queue :=
  run_queue (m := .new 1024) ⟨rfl, by decide⟩

end BufferOp

end Turnserver
