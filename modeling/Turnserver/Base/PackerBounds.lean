/-
  BOUNDS OF PACKING — which calls of a `Packer` copy inside its block of memory.

  The one guard of every push and write is `CheckSize`, which grows the block; the exception at the
  size limit is commented out, and the sum `position + more` is a `uint32_t`.  So nothing bounds the
  position, and `PushBinary` copies `size_t` many bytes after a check with the low 32 bits of that
  number.

  * `written` is what the calls have copied so far, by position, in a memory without bounds; a block
    is `Intact` when everything in it that is written is there.
  * `Fits` is the condition on one call: the copy ends below 2^32.
  * `exec_outcome` — one call from a safe packer fits and leads to a safe packer, or copies outside.
  * `packer_bounded_iff` — hence a run copies inside the block and loses nothing exactly when every
    call fits.
-/
import Turnserver.Base.Packer
import Turnserver.Lib.Transition

namespace Turnserver

open Bytes Transition

/-! ## Calls -/

/-- A call of the public interface.  A `double` is its 64 bits; `pushBinary` has the bytes that its
    pointer and length denote. -/
inductive PackerCall
  | pushBoolean (val : Bool)
  | pushUint8 (val : UInt8)
  | pushUint16 (val : UInt16)
  | pushUint32 (val : UInt32)
  | pushUint64 (val : UInt64)
  | pushDouble (val : UInt64)
  | pushVariableUint32 (value : UInt32)
  | pushString (val : List UInt8)
  | pushBuffer (val : List UInt8)
  | pushBinary (data : List UInt8)
  | writeUint16 (val : UInt16) (position : UInt32)
  | writeUint32 (val : UInt32) (position : UInt32)
  | pack
  | reset
  deriving DecidableEq

namespace PackerCall

/-- The function that is called. -/
def exec (p : Packer) : PackerCall → Checked Packer
  | pushBoolean val => p.pushBoolean val
  | pushUint8 val => p.pushUint8 val
  | pushUint16 val => p.pushUint16 val
  | pushUint32 val => p.pushUint32 val
  | pushUint64 val => p.pushUint64 val
  | pushDouble val => p.pushDouble val
  | pushVariableUint32 value => do
    let (p, _) ← p.pushVariableUint32 value.toNat
    pure p
  | pushString val => p.pushString val
  | pushBuffer val => p.pushBuffer val
  | pushBinary data => p.pushBinary data
  | writeUint16 val position => p.writeUint16 val position
  | writeUint32 val position => p.writeUint32 val position
  | pack => p.pack
  | reset => pure p.reset

end PackerCall

/-! ## What is written -/

/-- A copy of `bs` to `pos`, in a memory without bounds. -/
def overlay (written : Nat → Option UInt8) (pos : Nat) (bs : List UInt8) : Nat → Option UInt8 :=
  fun i => if pos ≤ i ∧ i < pos + bs.length then bs[i - pos]? else written i

/-- Everything that is written lies in the block. -/
def Intact (m : MemBuf) (written : Nat → Option UInt8) : Prop :=
  ∀ i b, written i = some b → i < m.capacity ∧ m.cells i = some b

/-- A string and a byte vector are written as their length and their bytes. -/
def overlayString (written : Nat → Option UInt8) (pos : Nat) (val : List UInt8) :
    Nat → Option UInt8 :=
  let length := u32 val.length
  overlay (overlay written pos (Packer.encVar length)) (pos + (Packer.encVar length).length)
    (val.take length)

namespace PackerCall

/-- What is written after a call on the packer `p`. -/
def writes (p : Packer) (written : Nat → Option UInt8) : PackerCall → Nat → Option UInt8
  | pushBoolean val => overlay written p.position (leBytes 1 val.toUInt8.toNat)
  | pushUint8 val => overlay written p.position (leBytes 1 val.toNat)
  | pushUint16 val => overlay written p.position (leBytes 2 val.toNat)
  | pushUint32 val => overlay written p.position (leBytes 4 val.toNat)
  | pushUint64 val => overlay written p.position (leBytes 8 val.toNat)
  | pushDouble val => overlay written p.position (leBytes 8 val.toNat)
  | pushVariableUint32 value => overlay written p.position (Packer.encVar value.toNat)
  | pushString val => overlayString written p.position val
  | pushBuffer val => overlayString written p.position val
  | pushBinary data => overlay written p.position data
  | writeUint16 val position => overlay written position.toNat (leBytes 2 val.toNat)
  | writeUint32 val position => overlay written position.toNat (leBytes 4 val.toNat)
  | pack =>
    if p.position ≥ 0x8002 then overlay written 1 (Packer.encVar (u32Sub p.position 1))
    else overlay written 2 (Packer.encVar (u32Sub p.position 2))
  | reset => written

end PackerCall

/-- There is room for a variable-width integer.  `CheckSize` asks for three bytes even where two are
    written; where that sum wraps around nothing grows. -/
def FitsVariable (p : Packer) (value : Nat) : Prop :=
  p.position + 3 < 2 ^ 32 ∨ p.position + Packer.variableUint32Length value ≤ p.mem.capacity

/-- A string whose length is written as a variable integer and fits behind it. -/
def FitsString (p : Packer) (val : List UInt8) : Prop :=
  FitsVariable p (u32 val.length) ∧ (u32 val.length = 0 ∨
    p.position + Packer.variableUint32Length (u32 val.length) + u32 val.length < 2 ^ 32)

/-- The condition on a call. -/
def PackerCall.Fits (p : Packer) : PackerCall → Prop
  | pushBoolean _ => p.position + 1 < 2 ^ 32
  | pushUint8 _ => p.position + 1 < 2 ^ 32
  | pushUint16 _ => p.position + 2 < 2 ^ 32
  | pushUint32 _ => p.position + 4 < 2 ^ 32
  | pushUint64 _ => p.position + 8 < 2 ^ 32
  | pushDouble _ => p.position + 8 < 2 ^ 32
  | pushVariableUint32 value => FitsVariable p value.toNat
  | pushString val => FitsString p val
  | pushBuffer val => FitsString p val
  | pushBinary data => data.length = 0 ∨ p.position + data.length < 2 ^ 32
  | writeUint16 _ position => position.toNat + 2 < 2 ^ 32
  | writeUint32 _ position => position.toNat + 4 < 2 ^ 32
  | pack => True
  | reset => True

/-! ## Copies -/

/-- The block has its least size, its capacity and the position are 32-bit, and nothing is lost. -/
structure Safe (p : Packer) (written : Nat → Option UInt8) : Prop where
  least : 64 ≤ p.mem.capacity
  capacity_lt : p.mem.capacity < 2 ^ 32
  position_lt : p.position < 2 ^ 32
  intact : Intact p.mem written

/-- What a call may lead to: it fits, and the packer is safe after it or an assertion has failed; or
    it does not, and has copied outside the block. -/
def Outcome (fits : Prop) (r : Checked Packer) (written : Nat → Option UInt8) : Prop :=
  (fits ∧ ((∃ q, r = .ok q ∧ Safe q written) ∨ r = .error .assertion)) ∨
    (¬fits ∧ r = .error .outOfBounds)

/-- A store within the block lays its bytes over what was written. -/
theorem Intact.store {m m' : MemBuf} {written : Nat → Option UInt8} {pos : Nat} {bs : List UInt8}
    (h : Intact m written) (hm : m.store pos bs = .ok m') : Intact m' (overlay written pos bs) := by
  obtain ⟨hle, hcap, hseg, hother⟩ := MemBuf.store_ok hm
  intro i b hi
  rw [overlay] at hi
  rw [hcap]
  split at hi
  · next hin =>
    have hcell := hseg (i - pos) (by omega)
    rw [show pos + (i - pos) = i from by omega] at hcell
    exact ⟨by omega, hcell.trans hi⟩
  · next hout =>
    obtain ⟨hlt, hcell⟩ := h i b hi
    exact ⟨hlt, (hother i (by omega)).trans hcell⟩

/-- Growing keeps a packer safe. -/
theorem Safe.checkSize {p : Packer} {written : Nat → Option UInt8} (h : Safe p written)
    (more position : Nat) :
    ∃ m, p.checkSize more position = .ok { p with mem := m } ∧ Safe { p with mem := m } written ∧
      p.mem.capacity ≤ m.capacity ∧ u32 (position + more) ≤ m.capacity := by
  obtain ⟨m, hm, hle, hlt, hroom, hcells⟩ := p.checkSize_spec more position h.capacity_lt
  refine ⟨m, hm, ⟨Nat.le_trans h.least hle, hlt, h.position_lt, ?_⟩, hle, hroom⟩
  intro i b hi
  obtain ⟨hin, hcell⟩ := h.intact i b hi
  exact ⟨Nat.lt_of_lt_of_le hin hle, (hcells i hin).trans hcell⟩

/-- Where there is room nothing grows. -/
theorem checkSize_eq {p : Packer} {more position : Nat} (h : u32 (position + more) ≤ p.mem.capacity) :
    p.checkSize more position = .ok p := by
  rw [Packer.checkSize]
  exact if_neg (Nat.not_lt.mpr h)

/-- A copy of `bs` to `pos` after a check for `more` bytes there; `next` is where the position is
    moved. -/
theorem copy_outcome {p : Packer} {written : Nat → Option UInt8} (h : Safe p written)
    (more pos : Nat) (bs : List UInt8) (next : Packer → Nat)
    (hmore : pos + bs.length < 2 ^ 32 → u32 (pos + more) = pos + bs.length)
    (hnext : ∀ m, next { p with mem := m } < 2 ^ 32) :
    Outcome (pos + bs.length < 2 ^ 32)
      (do
        let p ← p.checkSize more pos
        let mem ← p.mem.store pos bs
        pure { p with mem := mem, position := next p })
      (overlay written pos bs) := by
  obtain ⟨m, hm, hsafe, -, hroom⟩ := h.checkSize more pos
  rw [hm, Checked.ok_bind]
  -- the test in 32 bits finds the room exactly if the sum does not wrap
  by_cases hfits : pos + bs.length < 2 ^ 32
  · rw [hmore hfits] at hroom
    obtain ⟨m', hstore, hcap⟩ := MemBuf.store_fits hroom
    refine Or.inl ⟨hfits, Or.inl ⟨_, Checked.bind_ok.mpr ⟨m', hstore, rfl⟩, ?_⟩⟩
    constructor
    · exact hcap ▸ hsafe.least
    · exact hcap ▸ hsafe.capacity_lt
    · exact hnext m
    · exact hsafe.intact.store hstore
  -- else the bytes are stored behind the end
  · have hout : ¬pos + bs.length ≤ m.capacity := by
      have hlt : m.capacity < 2 ^ 32 := hsafe.capacity_lt
      omega
    refine Or.inr ⟨hfits, ?_⟩
    rw [MemBuf.store, if_neg hout]
    rfl

/-- A number is pushed where it fits, and nothing else happens. -/
theorem pushWord_outcome {p : Packer} {written : Nat → Option UInt8} (h : Safe p written)
    (width val : Nat) :
    Outcome (p.position + width < 2 ^ 32) (p.pushWord width val)
      (overlay written p.position (leBytes width val)) := by
  have hcopy := copy_outcome h width p.position (leBytes width val)
    (fun q => u32 (q.position + width))
  rw [leBytes_length] at hcopy
  have hout := hcopy u32_of_lt (fun m => u32_lt _)
  obtain ⟨m, hm, -⟩ := h.checkSize width p.position
  rw [hm, Checked.ok_bind] at hout
  rw [Packer.pushWord, hm, Checked.ok_bind]
  exact hout

/-- A number is written in place where it fits, and nothing else happens. -/
theorem writeWord_outcome {p : Packer} {written : Nat → Option UInt8} (h : Safe p written)
    (width val position : Nat) :
    Outcome (position + width < 2 ^ 32) (p.writeWord width val position)
      (overlay written position (leBytes width val)) := by
  have hcopy := copy_outcome h width position (leBytes width val) (fun q => q.position)
  rw [leBytes_length] at hcopy
  exact hcopy u32_of_lt (fun m => h.position_lt)

/-- `pushVariableUint32` fits and advances the position, or copies outside the block. -/
theorem pushVariableUint32_cases {p : Packer} {written : Nat → Option UInt8} (h : Safe p written)
    (value : Nat) :
    (FitsVariable p value ∧ ∃ q, p.pushVariableUint32 value = .ok (q, Packer.variableUint32Length value) ∧
        Safe q (overlay written p.position (Packer.encVar value)) ∧
        q.position = p.position + Packer.variableUint32Length value) ∨
      (¬FitsVariable p value ∧ p.pushVariableUint32 value = .error .outOfBounds) := by
  obtain ⟨m, hm, hsafe, hle, hroom⟩ := h.checkSize 3 p.position
  have hlen := Packer.encVar_length value
  have hlen_le : Packer.variableUint32Length value ≤ 3 := by
    rw [Packer.variableUint32Length]
    split <;> omega
  have hlen_ge : 2 ≤ Packer.variableUint32Length value := hlen ▸ Packer.encVar_length_pos value
  have hlt : m.capacity < 2 ^ 32 := hsafe.capacity_lt
  -- the copy is inside the block exactly when it fits
  have hiff : FitsVariable p value ↔ p.position + (Packer.encVar value).length ≤ m.capacity := by
    rw [FitsVariable, hlen]
    by_cases hsum : p.position + 3 < 2 ^ 32
    · rw [u32_of_lt hsum] at hroom
      exact ⟨fun _ => by omega, fun _ => Or.inl hsum⟩
    · have hwrap : u32 (p.position + 3) ≤ p.mem.capacity := by
        have hpos := h.position_lt
        have hleast := h.least
        rw [u32]
        omega
      have heq := checkSize_eq hwrap
      rw [hm] at heq
      have hmem : m = p.mem := congrArg Packer.mem (Except.ok.inj heq)
      rw [or_iff_right hsum, hmem]
  rw [Packer.pushVariableUint32_eq hm]
  by_cases hfits : FitsVariable p value
  · obtain ⟨m', hstore, hcap⟩ := MemBuf.store_fits (hiff.mp hfits)
    have hin := hiff.mp hfits
    have hend : u32 (p.position + (Packer.encVar value).length) =
        p.position + Packer.variableUint32Length value := by
      rw [u32_of_lt (by omega), hlen]
    refine Or.inl ⟨hfits, _, Checked.bind_ok.mpr ⟨m', hstore, rfl⟩, ?_, hend⟩
    constructor
    · exact hcap ▸ hsafe.least
    · exact hcap ▸ hlt
    · exact u32_lt _
    · exact hsafe.intact.store hstore
  · refine Or.inr ⟨hfits, ?_⟩
    dsimp only
    rw [MemBuf.store, if_neg (fun hin => hfits (hiff.mpr hin))]
    rfl

/-- No bytes leave everything as it is. -/
theorem overlay_nil (written : Nat → Option UInt8) (pos : Nat) : overlay written pos [] = written := by
  funext i
  exact if_neg (fun h => by simp only [List.length_nil] at h; omega)

/-- The copy of the bytes of a string, a vector or a block of memory. -/
theorem pushData_outcome {p : Packer} {written : Nat → Option UInt8} (h : Safe p written)
    {data : List UInt8} {length : Nat} (hlen : length ≤ data.length) :
    Outcome (length = 0 ∨ p.position + length < 2 ^ 32) (p.pushData data length)
      (overlay written p.position (data.take length)) := by
  have htake : (data.take length).length = length := by
    rw [List.length_take]
    omega
  -- nothing is stored for an empty list
  by_cases hzero : length = 0
  · obtain ⟨m, hm, hsafe, -⟩ := h.checkSize (u32 length) p.position
    refine Or.inl ⟨Or.inl hzero, Or.inl ⟨{ p with mem := m }, ?_, ?_⟩⟩
    · rw [Packer.pushData, hm, Checked.ok_bind, if_neg (by omega)]
      rfl
    · rw [hzero, List.take_zero, overlay_nil]
      exact hsafe
  · have hcopy := copy_outcome h (u32 length) p.position (data.take length)
      (fun q => u32 (q.position + u32 length))
    rw [htake] at hcopy
    have hout := hcopy (fun hlt => by rw [u32_of_lt (show length < 2 ^ 32 by omega), u32_of_lt hlt])
      (fun m => u32_lt _)
    obtain ⟨m, hm, -⟩ := h.checkSize (u32 length) p.position
    rw [hm, Checked.ok_bind] at hout
    rw [Packer.pushData, hm, Checked.ok_bind, if_pos (by omega), or_iff_right hzero]
    exact hout

/-- A string is pushed where it and its length fit. -/
theorem pushString_outcome {p : Packer} {written : Nat → Option UInt8} (h : Safe p written)
    (val : List UInt8) :
    Outcome (FitsString p val) (p.pushString val) (overlayString written p.position val) := by
  rw [FitsString, overlayString, Packer.encVar_length]
  rcases pushVariableUint32_cases h (u32 val.length) with ⟨hfits, q, hq, hsafe, hpos⟩ | ⟨hfits, hq⟩
  · have hdata := pushData_outcome hsafe (show u32 val.length ≤ val.length from Nat.mod_le _ _)
    rw [hpos] at hdata
    rw [and_iff_right hfits]
    rw [Packer.pushString]
    dsimp only
    rw [hq, Checked.ok_bind]
    exact hdata
  · refine Or.inr ⟨fun hno => hfits hno.1, ?_⟩
    rw [Packer.pushString]
    dsimp only
    rw [hq]
    rfl

/-- `Pack()` writes its header inside every block. -/
theorem pack_outcome {p : Packer} {written : Nat → Option UInt8} (h : Safe p written) :
    Outcome True p.pack (PackerCall.pack.writes p written) := by
  -- the header begins at 1 or at 2, so it never wraps
  have hheader : ∀ start length, start + 3 < 2 ^ 32 → ∃ q k,
      ({ p with length := length, position := start } : Packer).pushVariableUint32 length = .ok (q, k) ∧
        Safe { q with position := start } (overlay written start (Packer.encVar length)) := by
    intro start length hstart
    have hp : Safe { p with length := length, position := start } written :=
      ⟨h.least, h.capacity_lt, show start < 2 ^ 32 by omega, h.intact⟩
    rcases pushVariableUint32_cases hp length with ⟨-, q, hq, hsafe, -⟩ | ⟨hfits, -⟩
    · exact ⟨q, _, hq, hsafe.least, hsafe.capacity_lt, show start < 2 ^ 32 by omega, hsafe.intact⟩
    · exact absurd (Or.inl hstart) hfits
  rw [Packer.pack, PackerCall.writes]
  by_cases hmax : p.position < kMaxPacketSize
  · rw [if_pos hmax]
    split
    · obtain ⟨q, k, hq, hsafe⟩ := hheader 1 (u32Sub p.position 1) (by decide)
      exact Or.inl ⟨trivial, Or.inl ⟨_, Checked.bind_ok.mpr ⟨_, hq, rfl⟩, hsafe⟩⟩
    · obtain ⟨q, k, hq, hsafe⟩ := hheader 2 (u32Sub p.position 2) (by decide)
      exact Or.inl ⟨trivial, Or.inl ⟨_, Checked.bind_ok.mpr ⟨_, hq, rfl⟩, hsafe⟩⟩
  -- a long packet is refused by the assertion
  · rw [if_neg hmax]
    exact Or.inl ⟨trivial, Or.inr rfl⟩

/-! ## One call -/

/-- **The step lemma.**  A call from a safe packer fits and keeps it safe, or copies outside. -/
theorem exec_outcome {p : Packer} {written : Nat → Option UInt8} (h : Safe p written)
    (call : PackerCall) : Outcome (call.Fits p) (call.exec p) (call.writes p written) := by
  cases call with
  | pushBoolean val => exact pushWord_outcome h 1 _
  | pushUint8 val => exact pushWord_outcome h 1 _
  | pushUint16 val => exact pushWord_outcome h 2 _
  | pushUint32 val => exact pushWord_outcome h 4 _
  | pushUint64 val => exact pushWord_outcome h 8 _
  | pushDouble val => exact pushWord_outcome h 8 _
  | pushVariableUint32 value =>
    rcases pushVariableUint32_cases h value.toNat with ⟨hfits, q, hq, hsafe, -⟩ | ⟨hfits, hq⟩
    · exact Or.inl ⟨hfits, Or.inl ⟨q, Checked.bind_ok.mpr ⟨_, hq, rfl⟩, hsafe⟩⟩
    · refine Or.inr ⟨hfits, ?_⟩
      rw [PackerCall.exec, hq]
      rfl
  | pushString val => exact pushString_outcome h val
  | pushBuffer val => exact pushString_outcome h val
  | pushBinary data =>
    have hdata := pushData_outcome h (Nat.le_refl data.length)
    rw [List.take_length] at hdata
    exact hdata
  | writeUint16 val position => exact writeWord_outcome h 2 _ _
  | writeUint32 val position => exact writeWord_outcome h 4 _ _
  | pack => exact pack_outcome h
  | reset =>
    refine Or.inl ⟨trivial, Or.inl ⟨_, rfl, h.least, h.capacity_lt, ?_, h.intact⟩⟩
    show 4 < 2 ^ 32
    decide

/-! ## Runs -/

/-- A packer, unless a call has faulted, and what is written. -/
structure PackerRun where
  packer : Checked Packer
  written : Nat → Option UInt8

namespace PackerRun

/-- A run ends where a call faults. -/
def Step (s : PackerRun) (call : PackerCall) (t : PackerRun) : Prop :=
  ∃ p, s.packer = .ok p ∧ t = ⟨call.exec p, call.writes p s.written⟩

/-- A new packer, of which nothing was written. -/
def initial (buffer_sz : UInt32) : PackerRun := ⟨.ok (Packer.new buffer_sz), fun _ => none⟩

/-- No call has copied outside the block, and what is written is in it. -/
def Good (s : PackerRun) : Prop :=
  match s.packer with
  | .ok p => Intact p.mem s.written
  | .error e => e ≠ .outOfBounds

/-- The states from which a run goes on. -/
def GoesOn (s : PackerRun) : Prop := ∀ p, s.packer = .ok p → Safe p s.written

/-- The condition on a step of a run. -/
def Ok (s : PackerRun) (call : PackerCall) : Prop := ∀ p, s.packer = .ok p → call.Fits p

/-- A new packer can go on. -/
theorem initial_goesOn (buffer_sz : UInt32) : GoesOn (initial buffer_sz) := by
  rintro _ ⟨⟩
  have hlt := buffer_sz.toNat_lt
  constructor
  · show 64 ≤ max 64 buffer_sz.toNat
    omega
  · show max 64 buffer_sz.toNat < 2 ^ 32
    omega
  · show 4 < 2 ^ 32
    decide
  · intro i b hi
    cases hi

/-- One call: it does what it should exactly under its condition, and then the packer can go on. -/
theorem step_iff {s t : PackerRun} {call : PackerCall} (h : GoesOn s) (hst : Step s call t) :
    (Good t ↔ Ok s call) ∧ (Ok s call → GoesOn t) := by
  obtain ⟨p, hp, rfl⟩ := hst
  have hok : Ok s call ↔ call.Fits p := by
    constructor
    · intro hok
      exact hok p hp
    · intro hfits q hq
      rw [hp] at hq
      cases hq
      exact hfits
  rw [hok]
  -- the call fits and goes through, fails the assertion, or does not fit
  rcases exec_outcome (h p hp) call with ⟨hfits, ⟨q, hq, hsafe⟩ | hq⟩ | ⟨hfits, hq⟩
  · rw [hq]
    refine ⟨⟨fun _ => hfits, fun _ => hsafe.intact⟩, ?_⟩
    rintro - _ ⟨⟩
    exact hsafe
  · rw [hq]
    refine ⟨⟨fun _ => hfits, fun _ => Fault.noConfusion⟩, ?_⟩
    rintro - _ ⟨⟩
  · rw [hq]
    exact ⟨⟨fun hgood => absurd rfl hgood, fun hno => absurd hno hfits⟩, fun hno => absurd hno hfits⟩

/-- **Bounds of a packer**: a run copies inside the block and loses nothing exactly when every call
    fits. -/
theorem packer_bounded_iff (buffer_sz : UInt32) {ts : List (PackerRun × PackerCall × PackerRun)}
    {t : PackerRun} (hrun : Run Step (initial buffer_sz) ts t) :
    (∀ x ∈ ts, Good x.2.2) ↔ ∀ x ∈ ts, Ok x.1 x.2.1 := by
  apply Run.property_iff _ _ hrun (initial_goesOn buffer_sz)
  · intro s call t h hst
    exact (step_iff h hst).1
  · intro s call t h hok hst
    exact (step_iff h hst).2 hok

/-- A string of 70 bytes into a block of 64. -/
theorem packer_bounded_grown :
    ∃ t, Run Step (initial 64) [(initial 64, .pushString (List.replicate 70 7), t)] t ∧ Good t := by
  have hstep : Step (initial 64) (.pushString (List.replicate 70 7)) _ := ⟨_, rfl, rfl⟩
  have hrun := Run.single hstep
  refine ⟨_, hrun, ?_⟩
  refine (packer_bounded_iff 64 hrun).mpr ?_ _ (List.mem_singleton.mpr rfl)
  rintro x hx _ hp
  rw [List.mem_singleton.mp hx] at hp ⊢
  cases hp
  exact ⟨Or.inl (by decide), Or.inr (by decide)⟩

/-- No block is as large as 4 GiB. -/
theorem pushBinary_wide {p : Packer} {written : Nat → Option UInt8} (h : Safe p written)
    {data : List UInt8} (hlen : data.length = 2 ^ 32) :
    (PackerCall.pushBinary data).exec p = .error .outOfBounds := by
  rcases exec_outcome h (.pushBinary data) with ⟨hfits | hfits, -⟩ | ⟨-, hexec⟩
  · rw [hlen] at hfits
    exact absurd hfits (by decide)
  · rw [hlen] at hfits
    exact absurd hfits (Nat.not_lt.mpr (Nat.le_add_left _ _))
  · exact hexec

/-- **Counterexample**: after a check for no bytes at all, `PushBinary` copies 4 GiB. -/
theorem packer_bounded_wide :
    ∃ data t, data.length = 2 ^ 32 ∧
      Run Step (initial 1024) [(initial 1024, .pushBinary data, t)] t ∧
      t.packer = .error .outOfBounds ∧ ¬Good t := by
  obtain ⟨data, hlen⟩ : ∃ data : List UInt8, data.length = 2 ^ 32 :=
    ⟨List.replicate (2 ^ 32) 0, List.length_replicate⟩
  have hexec := pushBinary_wide (initial_goesOn 1024 _ rfl) hlen
  have hstep : Step (initial 1024) (.pushBinary data) _ := ⟨_, rfl, rfl⟩
  refine ⟨data, _, hlen, Run.single hstep, hexec, ?_⟩
  intro hgood
  rw [Good, hexec] at hgood
  exact hgood rfl

end PackerRun

end Turnserver
