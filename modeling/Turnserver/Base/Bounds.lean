/-
  BOUNDS OF DECODING — which runs of an `Unpacker` stay inside their buffer.

  The one guard of every decoder is `CheckSize`, and the exception that it would throw is commented
  out: an operation that needs more bytes than remain returns data all the same, made of whatever
  lies behind the buffer.  So no buffer is safe by itself, and the question is for which runs it is:

  * a state is `Inside` when no read has gone past the end and the position is not past the end;
  * an operation `Fits` a state when the bytes from the position (from the first byte, for `Rewind`)
    to the end begin with a complete encoding of what it decodes — that is the strict reader's
    verdict, on the bytes alone;
  * `exec_inside_iff` — one step from an inside state stays inside exactly when it fits;
  * `unpacker_bounded_iff` — hence a whole run is bounds-safe exactly when every operation fits.
-/
import Turnserver.Base.Format
import Turnserver.Lib.Transition

namespace Turnserver

open Bytes Parsing Transition

/-! ## Operations -/

/-- What can be done with an unpacker; `extract` is `operator>>` for any type of the format. -/
inductive Op
  | construct | rewind | reset
  | popBoolean | popUint8 | popUint16 | popUint32 | popUint64 | popDouble
  | popVariableUint32 | popString | popBuffer
  | popBinary (length : Nat)
  | extract (t : Ty) (old : t.Val)

/-- What the caller of an operation learns. -/
inductive Reply
  | returned
  | underflow
  deriving DecidableEq

namespace Op

variable (H : Hashing)

/-- The state after an operation.  `construct` is `Initialize`, on a `raw` unpacker. -/
def exec : Op → Unpacker → Unpacker
  | construct, u => (Unpacker.popVariableUint32.run u).2
  | rewind, u => (Unpacker.rewind.run u).2
  | reset, u => (Unpacker.reset.run u).2
  | popBoolean, u => (Unpacker.popBoolean.run u).2
  | popUint8, u => (Unpacker.popUint8.run u).2
  | popUint16, u => (Unpacker.popUint16.run u).2
  | popUint32, u => (Unpacker.popUint32.run u).2
  | popUint64, u => (Unpacker.popUint64.run u).2
  | popDouble, u => (Unpacker.popDouble.run u).2
  | popVariableUint32, u => (Unpacker.popVariableUint32.run u).2
  | popString, u => (Unpacker.popString.run u).2
  | popBuffer, u => (Unpacker.popBuffer.run u).2
  | popBinary length, u => ((Unpacker.popBinary length).run u).2
  | extract t old, u => ((t.extract Unpacker.source H old).run u).2

/-- `CheckSize` only prints, and nothing else looks at what remains: every operation returns. -/
def reply (_ : Op) (_ : Unpacker) : Reply := .returned

/-- Where an operation starts to read. -/
def start : Op → Unpacker → Unpacker
  | rewind, u => { u with position := 0 }
  | reset, u => { u with position := 0 }
  | _, u => u

/-- The strict counterpart, which fails where the bytes end. -/
def strict : Op → Parser UInt8 Unit
  | construct => do let _ ← Strict.popVariableUint32
  | rewind => do let _ ← Strict.popVariableUint32
  | reset => pure ()
  | popBoolean => do let _ ← Strict.source.popBoolean
  | popUint8 => do let _ ← Strict.source.popUint8
  | popUint16 => do let _ ← Strict.source.popUint16
  | popUint32 => do let _ ← Strict.source.popUint32
  | popUint64 => do let _ ← Strict.source.popUint64
  | popDouble => do let _ ← Strict.source.popDouble
  | popVariableUint32 => do let _ ← Strict.popVariableUint32
  | popString => do let _ ← Strict.source.popString
  | popBuffer => do let _ ← Strict.source.popBuffer
  | popBinary length => do let _ ← take length
  | extract t old => do let _ ← t.extract Strict.source H old

/-- The bytes from the position to the end of the buffer. -/
def remaining (u : Unpacker) : List UInt8 :=
  (List.range (u.length - u.position)).map fun i => u.mem (u.position + i)

/-- The remaining bytes begin with a complete encoding of what the operation decodes. -/
def Fits (op : Op) (u : Unpacker) : Prop := ((op.strict H).run (remaining (op.start u))).isSome

/-- What a read leaves behind does not depend on whether its result is used. -/
theorem discard_run {α : Type} (act : StateM Unpacker α) (u : Unpacker) :
    (act.run u).2 = ((do let _ ← act : StateM Unpacker Unit).run u).2 := rfl

/-- An operation, from where it starts to read, is an action that follows its strict counterpart. -/
theorem exec_follows (op : Op) :
    ∃ act : StateM Unpacker Unit, Unpacker.Follows act (op.strict H) ∧
      ∀ u, op.exec H u = (act.run (op.start u)).2 := by
  have h := Unpacker.followsSource
  have discard : ∀ {α : Type} {act : StateM Unpacker α} {p : Parser UInt8 α},
      Unpacker.Follows act p →
      Unpacker.Follows (do let _ ← act) (do let _ ← p) := fun h => h.bind fun _ => .pure ()
  -- the constructors of `Unpacker` first move the position, hence `op.start`
  cases op with
  | construct => exact ⟨_, discard h.popVariableUint32, discard_run Unpacker.popVariableUint32⟩
  | rewind => exact ⟨_, discard h.popVariableUint32,
      fun u => discard_run Unpacker.popVariableUint32 { u with position := 0 }⟩
  | reset => exact ⟨_, .pure (), fun _ => rfl⟩
  | popBoolean => exact ⟨_, discard h.popBoolean, discard_run Unpacker.popBoolean⟩
  | popUint8 => exact ⟨_, discard h.popUint8, discard_run Unpacker.popUint8⟩
  | popUint16 => exact ⟨_, discard h.popUint16, discard_run Unpacker.popUint16⟩
  | popUint32 => exact ⟨_, discard h.popUint32, discard_run Unpacker.popUint32⟩
  | popUint64 => exact ⟨_, discard h.popUint64, discard_run Unpacker.popUint64⟩
  | popDouble => exact ⟨_, discard h.popDouble, discard_run Unpacker.popDouble⟩
  | popVariableUint32 => exact ⟨_, discard h.popVariableUint32, discard_run Unpacker.popVariableUint32⟩
  | popString => exact ⟨_, discard h.popString, discard_run Unpacker.popString⟩
  | popBuffer => exact ⟨_, discard h.popBuffer, discard_run Unpacker.popBuffer⟩
  | popBinary length =>
    exact ⟨_, discard (Unpacker.Follows.popData length), discard_run (Unpacker.popBinary length)⟩
  | extract t old => exact ⟨_, discard (t.extract_follows H old), discard_run (t.extract Unpacker.source H old)⟩

/-! ## One step -/

/-- No read went past the end, and the position is not past the end. -/
structure Inside (u : Unpacker) : Prop where
  length_lt : u.length < 2 ^ 32
  high_le : u.high ≤ u.length
  position_le : u.position ≤ u.length

/-- As many bytes remain as the position leaves of the length. -/
theorem remaining_length (u : Unpacker) : (remaining u).length = u.length - u.position := by
  rw [remaining, List.length_map, List.length_range]

/-- Within its bounds the unpacker stands in front of what remains. -/
theorem Inside.at_remaining {u : Unpacker} (h : Inside u) : u.At (remaining u) := by
  obtain ⟨hlt, -, hpos⟩ := h
  constructor
  · rw [remaining_length]
    omega
  · intro i hi
    simp only [remaining, List.getElem_map, List.getElem_range]

/-- Starting over does not leave the buffer. -/
theorem Inside.start {u : Unpacker} (h : Inside u) (op : Op) : Inside (op.start u) := by
  obtain ⟨hlt, hhigh, hpos⟩ := h
  cases op with
  | rewind => exact ⟨hlt, hhigh, Nat.zero_le _⟩
  | reset => exact ⟨hlt, hhigh, Nat.zero_le _⟩
  | _ => exact ⟨hlt, hhigh, hpos⟩

/-- **The step lemma.**  From an inside state, an operation stays inside exactly when it fits. -/
theorem exec_inside_iff (op : Op) {u : Unpacker} (h : Inside u) :
    Inside (op.exec H u) ↔ op.Fits H u := by
  obtain ⟨act, hfollows, hexec⟩ := exec_follows H op
  have hstart := h.start op
  have hat := hstart.at_remaining
  have hlen := remaining_length (op.start u)
  have hpos := hstart.position_le
  rw [hexec u]
  obtain ⟨-, hlength, -⟩ := hfollows.frame (op.start u)
  rcases hrun : (op.strict H).run (remaining (op.start u)) with _ | ⟨⟨⟩, rest⟩
  · -- the strict reader ran out of bytes: the code read past them
    have hpast := hfollows.failure hat hrun
    constructor
    · intro hinside
      have hhigh := hinside.high_le
      rw [hlength] at hhigh
      omega
    · intro hfits
      rw [Fits, hrun] at hfits
      cases hfits
  · -- the strict reader succeeded: the code stands where it stands
    obtain ⟨-, -, hle, hmoved, hhigh⟩ := hfollows.success hat hrun
    have hbefore := hstart.high_le
    constructor
    · intro _
      rw [Fits, hrun]
      rfl
    · intro _
      refine ⟨?_, ?_, ?_⟩
      · rw [hlength]
        exact hstart.length_lt
      · rw [hlength]
        omega
      · rw [hlength]
        omega

/-! ## Runs -/

/-- One operation on an unpacker. -/
def Step (u : Unpacker) (op : Op) (v : Unpacker) : Prop := v = op.exec H u

/-- What bounds safety asks of one step: it ends inside, and an operation that needs more bytes than
    remain says so. -/
def Bounded (u : Unpacker) (op : Op) (v : Unpacker) : Prop :=
  v.high ≤ v.length ∧ v.position ≤ v.length ∧ (¬ op.Fits H u → op.reply u = .underflow)

/-- A new unpacker stands at the beginning. -/
theorem raw_inside (buf : Nat → UInt8) (len : UInt32) (copy : Option (Nat → UInt8)) :
    Inside (Unpacker.raw buf len copy) :=
  ⟨len.toNat_lt, Nat.zero_le _, Nat.zero_le _⟩

/-- Since no operation ever replies `underflow`, a bounded step is one that ends inside and fits. -/
theorem bounded_iff {u v : Unpacker} {op : Op} (hv : v.length < 2 ^ 32) :
    Bounded H u op v ↔ Inside v ∧ op.Fits H u := by
  constructor
  · rintro ⟨hhigh, hpos, hreply⟩
    refine ⟨⟨hv, hhigh, hpos⟩, ?_⟩
    by_contra hfits
    exact Reply.noConfusion (hreply hfits)
  · rintro ⟨hinside, hfits⟩
    exact ⟨hinside.high_le, hinside.position_le, fun hno => absurd hfits hno⟩

/-- No read changes the length. -/
theorem exec_length (op : Op) (u : Unpacker) : (op.exec H u).length = u.length := by
  obtain ⟨act, hfollows, hexec⟩ := exec_follows H op
  rw [hexec u, (hfollows.frame (op.start u)).2.1]
  cases op <;> rfl

/-- **Bounds safety, exactly.**  Over every buffer, a run of operations from construction on is
    bounds-safe if and only if every one of its operations found a complete encoding of what it
    decodes in the bytes that remained. -/
theorem unpacker_bounded_iff (H : Hashing) (buf : Nat → UInt8) (len : UInt32)
    (copy : Option (Nat → UInt8)) (ts : List (Unpacker × Op × Unpacker)) (u : Unpacker)
    (hrun : Run (Step H) (Unpacker.raw buf len copy) ts u) :
    (∀ x ∈ ts, Bounded H x.1 x.2.1 x.2.2) ↔ ∀ x ∈ ts, x.2.1.Fits H x.1 := by
  -- `length` never changes, so it stays below 2^32 in the whole run
  have hkeep : ∀ s op t, s.length < 2 ^ 32 → Step H s op t → t.length < 2 ^ 32 := by
    intro s op t hs hstep
    rw [show t = op.exec H s from hstep, exec_length]
    exact hs
  -- one step stays inside exactly if it fits
  have hexact : ∀ s op t, Inside s → Step H s op t → (Inside t ↔ op.Fits H s) := by
    intro s op t hs hstep
    rw [show t = op.exec H s from hstep]
    exact exec_inside_iff H op hs
  have hlength : ∀ x ∈ ts, x.2.2.length < 2 ^ 32 := fun x hx =>
    ((Run.invariant hkeep hrun len.toNat_lt).2 x hx).2
  have hinside := Run.invariant_iff hexact hrun (raw_inside buf len copy)
  constructor
  · intro hbounded x hx
    exact ((bounded_iff H (hlength x hx)).mp (hbounded x hx)).2
  · intro hfits x hx
    exact (bounded_iff H (hlength x hx)).mpr ⟨hinside.mpr hfits x hx, hfits x hx⟩

/-- A frame of four bytes: its length, and the word `0x0107`. -/
def sampleFrame (i : Nat) : UInt8 := [4, 0, 7, 1].getD i 0xee

/-- The witness: two bytes of a frame of four are read. -/
theorem unpacker_bounded_iff_word :
    ∃ ts u, Run (Step .first) (Unpacker.raw sampleFrame 4 none) ts u ∧
      ts.map (fun x => x.2.1) = [.construct, .popUint16] ∧
      ∀ x ∈ ts, Bounded .first x.1 x.2.1 x.2.2 := by
  have hrun : Run (Step .first) (Unpacker.raw sampleFrame 4 none) _ _ :=
    Run.cons (i := .construct) rfl (Run.single (i := .popUint16) rfl)
  refine ⟨_, _, hrun, rfl, (unpacker_bounded_iff .first sampleFrame 4 none _ _ hrun).mpr ?_⟩
  intro x hx
  rcases List.mem_pair.mp hx with rfl | rfl <;> rfl

/-- On an empty buffer, construction alone reads two bytes that are not there, and returns. -/
theorem construct_empty_unbounded :
    ∃ u, Run (Step .first) (Unpacker.raw (fun _ => 0) 0 none)
        [(Unpacker.raw (fun _ => 0) 0 none, Op.construct, u)] u ∧
      u.length = 0 ∧ u.high = 2 ∧ u.position = 2 ∧
      ¬ Bounded .first (Unpacker.raw (fun _ => 0) 0 none) Op.construct u := by
  refine ⟨_, Run.single rfl, rfl, rfl, rfl, ?_⟩
  rintro ⟨hhigh, -, -⟩
  exact absurd hhigh (by decide)

end Op

end Turnserver
