/-
  THE UNPACKER (`base/unpacker.h`, `base/unpacker.cpp`) — reading a frame.

  An `Unpacker` points at a buffer, knows its `length` and keeps a read `position`.  Two things
  about it matter for everything that is said about decoding:

  * `checkSize` does not stop anything: the `throw` in it is commented out, what is left is a line
    on stderr.  Whatever lies in memory past the buffer is read as if it were part of it.  So `mem`
    gives a byte for EVERY index, and `high` records how far the reads went (it is not part of the
    code: one past the highest index read so far).
  * `position` is a `uint32_t` and wraps.

  Against the code stands the strict reader: the same decoders over a finite list of bytes, which
  fail where the bytes end.  `Follows act p` says that the code's `act` does what the strict `p`
  does as long as `p` succeeds, and reads past the end of the bytes when `p` fails.  A decoder is
  written once, over a `Source` of `Pop` operations, and read at both sources.
-/
import Turnserver.Base.Packer
import Turnserver.Lib.Parser

namespace Turnserver

open Bytes Parsing

/-! ## The code -/

/-- The unpacker.  `mem i` is `buffer_[i]`, also for `i` past the end; `high` is one past the highest
    index read; `overflows` counts the lines that `CheckSize` wrote to stderr. -/
structure Unpacker where
  mem : Nat → UInt8
  length : Nat
  position : Nat
  high : Nat
  overflows : Nat

/-- Memory that holds `buffer`, with `heap` behind it. -/
def blockOf (buffer : List UInt8) (heap : Nat → UInt8) (i : Nat) : UInt8 := buffer.getD i (heap i)

/-- Within the bytes the block has them. -/
theorem blockOf_lt {buffer : List UInt8} {heap : Nat → UInt8} {i : Nat} (hi : i < buffer.length) :
    blockOf buffer heap i = buffer[i] := by
  rw [blockOf, List.getD_eq_getElem _ _ hi]

/-- As many cells of the block as there are bytes are the bytes. -/
theorem blockOf_map (buffer : List UInt8) (heap : Nat → UInt8) :
    (List.range buffer.length).map (blockOf buffer heap) = buffer := by
  apply List.ext_getElem
  · simp
  · intro i hi hi'
    rw [List.getElem_map, List.getElem_range, blockOf_lt hi']

namespace Unpacker

/-- `CheckSize(more, position_)`: a message, no more. -/
def checkSize (more : Nat) : StateM Unpacker Unit := modify fun u => { u with
  overflows := if u.length < u32 (u.position + more) then u.overflows + 1 else u.overflows }

/-- The use of the `n` bytes at `buffer_ + position_ + offset`. -/
def peek (offset n : Nat) : StateM Unpacker (List UInt8) := fun u =>
  ((List.range n).map fun i => u.mem (u.position + offset + i),
    { u with high := if n = 0 then u.high else max u.high (u.position + offset + n) })

/-- `position_ += n`. -/
def advance (n : Nat) : StateM Unpacker Unit :=
  modify fun u => { u with position := u32 (u.position + n) }

/-- The fixed-width pops are one copy of `width` bytes. -/
def popWord (width : Nat) : StateM Unpacker Nat := do
  checkSize width
  let bs ← peek 0 width
  advance width
  pure (leNat bs)

/-- `PopUint8` -/
def popUint8 : StateM Unpacker UInt8 := do return .ofNat (← popWord 1)

/-- `PopUint16` -/
def popUint16 : StateM Unpacker UInt16 := do return .ofNat (← popWord 2)

/-- `PopUint32` -/
def popUint32 : StateM Unpacker UInt32 := do return .ofNat (← popWord 4)

/-- `PopUint64` -/
def popUint64 : StateM Unpacker UInt64 := do return .ofNat (← popWord 8)

/-- `PopDouble` copies 64 bits. -/
def popDouble : StateM Unpacker UInt64 := do return .ofNat (← popWord 8)

/-- `PopBoolean` copies one byte. -/
def popBoolean : StateM Unpacker Bool := do return (← popWord 1) != 0

/-- `PopVariableUint32`: a 16-bit word, and one more byte when its highest bit is set. -/
def popVariableUint32 : StateM Unpacker Nat := do
  checkSize 2
  let pos ← peek 0 2
  if leNat pos < 0x8000 then
    advance 2
    pure (leNat pos)
  else
    checkSize 3
    let value ← peek 2 1
    advance 3
    pure (leNat value * 0x8000 + (leNat pos &&& 0x7FFF))

/-- The copy that `PopString`, `PopBuffer` and `PopBinary` share. -/
def popData (length : Nat) : StateM Unpacker (List UInt8) := do
  checkSize length
  let bs ← peek 0 length
  advance length
  pure bs

/-- `PopString` -/
def popString : StateM Unpacker (List UInt8) := do
  let length ← popVariableUint32
  popData length

/-- `PopBuffer` -/
def popBuffer : StateM Unpacker (List UInt8) := do
  let length ← popVariableUint32
  popData length

/-- `PopBinary(buf, length)`: the bytes copied to `buf`. -/
def popBinary (length : Nat) : StateM Unpacker (List UInt8) := popData length

/-- `Reset()`. -/
def reset : StateM Unpacker Unit := modify fun u => { u with position := 0 }

/-- `Rewind()`. -/
def rewind : StateM Unpacker Unit := do
  reset
  let _ ← popVariableUint32

/-- The fields before `Initialize` pops the length header.  With `copy`, `buffer_` is a fresh block of
    `len` bytes that got a copy of the buffer; past it lies what lies there. -/
def raw (buf : Nat → UInt8) (len : UInt32) (copy : Option (Nat → UInt8)) : Unpacker where
  mem := match copy with
    | none => buf
    | some heap => fun i => if i < len.toNat then buf i else heap i
  length := len.toNat
  position := 0
  high := 0
  overflows := 0

/-- `Unpacker::Unpacker(buf, len, copy)`. -/
def new (buf : Nat → UInt8) (len : UInt32) (copy : Option (Nat → UInt8)) : Unpacker :=
  (popVariableUint32.run (raw buf len copy)).2

/-- `Buffer()[0 .. Length())`. -/
def contents (u : Unpacker) : List UInt8 := (List.range u.length).map u.mem

end Unpacker

/-! ## Sources

  The decoders of the wire types only pop, so they are written over any source of pops. -/

/-- The `Pop` operations that decoders are made of. -/
structure Source (m : Type → Type) where
  popBoolean : m Bool
  popUint8 : m UInt8
  popUint16 : m UInt16
  popUint32 : m UInt32
  popUint64 : m UInt64
  popDouble : m UInt64
  popVariableUint32 : m Nat
  popString : m (List UInt8)
  popBuffer : m (List UInt8)

/-- The code: the operations of the `Unpacker`. -/
def Unpacker.source : Source (StateM Unpacker) where
  popBoolean := Unpacker.popBoolean
  popUint8 := Unpacker.popUint8
  popUint16 := Unpacker.popUint16
  popUint32 := Unpacker.popUint32
  popUint64 := Unpacker.popUint64
  popDouble := Unpacker.popDouble
  popVariableUint32 := Unpacker.popVariableUint32
  popString := Unpacker.popString
  popBuffer := Unpacker.popBuffer

namespace Strict

/-- A word of `width` bytes, all of them present. -/
def popWord (width : Nat) : Parser UInt8 Nat := do
  let bs ← take width
  pure (leNat bs)

/-- A variable-width integer, all of it present. -/
def popVariableUint32 : Parser UInt8 Nat := do
  let pos ← take 2
  if leNat pos < 0x8000 then pure (leNat pos)
  else
    let value ← take 1
    pure (leNat value * 0x8000 + (leNat pos &&& 0x7FFF))

/-- `popVariableUint32` by cases on what is there. -/
theorem popVariableUint32_run (bs : List UInt8) :
    popVariableUint32.run bs =
      if bs.length < 2 then none
      else if leNat (bs.take 2) < 0x8000 then some (leNat (bs.take 2), bs.drop 2)
      else if bs.length < 3 then none
      else some (leNat ((bs.drop 2).take 1) * 0x8000 + (leNat (bs.take 2) &&& 0x7FFF),
        bs.drop 3) := by
  rw [popVariableUint32, bind_run]
  -- two bytes, and a third one where the mark of the first two is set
  by_cases h2 : bs.length < 2
  · rw [if_pos h2, show (take 2).run bs = none from if_neg (by omega)]
    rfl
  · rw [if_neg h2, show (take 2).run bs = some (bs.take 2, bs.drop 2) from if_pos (by omega),
      Option.bind_some]
    by_cases hlo : leNat (bs.take 2) < 0x8000
    · rw [if_pos hlo, if_pos hlo]
      rfl
    · rw [if_neg hlo, if_neg hlo, bind_run]
      by_cases h3 : bs.length < 3
      · rw [if_pos h3, show (take 1).run (bs.drop 2) = none from
          if_neg (by rw [List.length_drop]; omega)]
        rfl
      · rw [if_neg h3, show (take 1).run (bs.drop 2) =
            some ((bs.drop 2).take 1, (bs.drop 2).drop 1) from
          if_pos (by rw [List.length_drop]; omega), Option.bind_some, List.drop_drop]
        rfl

/-- A length and that many bytes. -/
def popData : Parser UInt8 (List UInt8) := do
  let length ← popVariableUint32
  take length

/-- The strict reader of a finite list of bytes. -/
def source : Source (Parser UInt8) where
  popBoolean := do return (← popWord 1) != 0
  popUint8 := do return .ofNat (← popWord 1)
  popUint16 := do return .ofNat (← popWord 2)
  popUint32 := do return .ofNat (← popWord 4)
  popUint64 := do return .ofNat (← popWord 8)
  popDouble := do return .ofNat (← popWord 8)
  popVariableUint32 := popVariableUint32
  popString := popData
  popBuffer := popData

/-! ### What the packer writes is read back -/

/-- A word is read back from its bytes. -/
theorem popWord_yields {width x : Nat} (hx : x < 256 ^ width) :
    Yields (popWord width) (leBytes width x) x := by
  have h := (Yields.take (leBytes_length width x)).map leNat
  rwa [leNat_leBytes_of_lt hx] at h

/-- The third byte carries eight more bits, so the format ends at `2 ^ 23`. -/
theorem popVariableUint32_yields {value : Nat} (hv : value < 2 ^ 23) :
    Yields popVariableUint32 (Packer.encVar value) value := by
  intro rest
  rw [popVariableUint32_run, Packer.encVar]
  by_cases hlo : value < 0x8000
  · rw [if_pos hlo]
    have hread : leNat (leBytes 2 value) = value := leNat_leBytes_of_lt (by omega)
    have htake : (leBytes 2 value ++ rest).take 2 = leBytes 2 value := List.take_left' (by simp)
    have hdrop : (leBytes 2 value ++ rest).drop 2 = rest := List.drop_left' (by simp)
    have hlen : ¬ (leBytes 2 value ++ rest).length < 2 := by
      rw [List.length_append, leBytes_length]
      omega
    rw [if_neg hlen, htake, hdrop, hread, if_pos hlo]
  -- the long form: the low bits with the mark, and the bits above
  · rw [if_neg hlo, List.append_assoc]
    have hread : leNat (leBytes 2 (value % 0x8000 + 0x8000)) = value % 0x8000 + 0x8000 :=
      leNat_leBytes_of_lt (by omega)
    have hup : leNat (leBytes 1 (value / 0x8000 % 256)) = value / 0x8000 := by
      rw [leNat_leBytes_of_lt (by omega)]
      omega
    generalize hlow : leBytes 2 (value % 0x8000 + 0x8000) = low at hread
    generalize hupper : leBytes 1 (value / 0x8000 % 256) = upper at hup
    have hlowlen : low.length = 2 := by rw [← hlow, leBytes_length]
    have hupperlen : upper.length = 1 := by rw [← hupper, leBytes_length]
    have hlen : (low ++ (upper ++ rest)).length = 3 + rest.length := by
      rw [List.length_append, List.length_append, hlowlen, hupperlen]
      omega
    have htake : (low ++ (upper ++ rest)).take 2 = low := List.take_left' hlowlen
    have hdrop : (low ++ (upper ++ rest)).drop 2 = upper ++ rest := List.drop_left' hlowlen
    have hdrop3 : (low ++ (upper ++ rest)).drop 3 = rest := by
      rw [← List.append_assoc]
      exact List.drop_left' (by rw [List.length_append, hlowlen, hupperlen])
    rw [if_neg (by omega), htake, hread, if_neg (by omega), if_neg (by omega), hdrop, hdrop3,
      List.take_left' hupperlen, hup, and_mask15,
      show value / 0x8000 * 0x8000 + (value % 0x8000 + 0x8000) % 0x8000 = value from by omega]

/-- Data is read back from its length and its bytes. -/
theorem popData_yields {bs : List UInt8} (hlen : bs.length < 2 ^ 23) :
    Yields popData (Packer.encVar bs.length ++ bs) bs :=
  (popVariableUint32_yields hlen).bind (Yields.take rfl)

end Strict

/-! ## The code follows the strict reader -/

namespace Unpacker

/-- The bytes `bs` lie in memory from the read position on, below the 32-bit limit. -/
structure At (u : Unpacker) (bs : List UInt8) : Prop where
  position_lt : u.position + bs.length < 2 ^ 32
  bytes : ∀ i (hi : i < bs.length), u.mem (u.position + i) = bs[i]

/-- The code's `act` against the strict `p`, from any position where `bs` lies ahead. -/
structure Follows {α : Type} (act : StateM Unpacker α) (p : Parser UInt8 α) : Prop where
  /-- Popping changes neither the buffer nor its length, and does not unread. -/
  frame : ∀ u, (act.run u).2.mem = u.mem ∧ (act.run u).2.length = u.length ∧
    u.high ≤ (act.run u).2.high
  /-- Where the strict reader succeeds, the code gives the same value, has moved over exactly the
      bytes that are gone from the list, and has not read further. -/
  success : ∀ {u bs a rest}, At u bs → p.run bs = some (a, rest) →
    (act.run u).1 = a ∧ At (act.run u).2 rest ∧
      u.position ≤ (act.run u).2.position ∧
      (act.run u).2.position + rest.length = u.position + bs.length ∧
      (act.run u).2.high ≤ max u.high (act.run u).2.position
  /-- Where the strict reader runs out of bytes, the code reads past them. -/
  failure : ∀ {u bs}, At u bs → p.run bs = none → u.position + bs.length < (act.run u).2.high

/-- Having advanced, the unpacker stands further on. -/
theorem At.drop {u v : Unpacker} {bs : List UInt8} (h : At u bs) {n : Nat} (hn : n ≤ bs.length)
    (hmem : v.mem = u.mem) (hpos : v.position = u.position + n) : At v (bs.drop n) where
  position_lt := by
    have := h.position_lt
    rw [List.length_drop, hpos]
    omega
  bytes i hi := by
    rw [List.length_drop] at hi
    rw [hmem, hpos, List.getElem_drop, Nat.add_assoc]
    exact h.bytes (n + i) (by omega)

/-- What `peek` sees where `bs` lies ahead. -/
theorem At.peek {u : Unpacker} {bs : List UInt8} (h : At u bs) {offset n : Nat}
    (hn : offset + n ≤ bs.length) :
    (List.range n).map (fun i => u.mem (u.position + offset + i)) = (bs.drop offset).take n := by
  apply List.ext_getElem
  · rw [List.length_map, List.length_range, List.length_take, List.length_drop]
    omega
  · intro i hi _
    rw [List.length_map, List.length_range] at hi
    rw [List.getElem_map, List.getElem_range, List.getElem_take, List.getElem_drop, Nat.add_assoc]
    exact h.bytes (offset + i) (by omega)

namespace Follows

variable {α β γ : Type}

theorem pure (a : α) : Follows (Pure.pure a) (Pure.pure a) where
  frame u := ⟨rfl, rfl, Nat.le_refl _⟩
  success hat h := by
    cases h
    exact ⟨rfl, hat, Nat.le_refl _, rfl, Nat.le_max_left _ _⟩
  failure _ h := nomatch h

/-- One after the other. -/
theorem bind {act : StateM Unpacker α} {p : Parser UInt8 α} {f : α → StateM Unpacker β}
    {g : α → Parser UInt8 β} (h : Follows act p) (hf : ∀ a, Follows (f a) (g a)) :
    Follows (act >>= f) (p >>= g) where
  frame u := by
    obtain ⟨hm, hl, hh⟩ := h.frame u
    obtain ⟨hm', hl', hh'⟩ := (hf (act.run u).1).frame (act.run u).2
    exact ⟨hm'.trans hm, hl'.trans hl, Nat.le_trans hh hh'⟩
  success {u bs b rest} hat hp := by
    rw [bind_run] at hp
    -- the first reader decides whether the second one has anything to read
    rcases hrun : p.run bs with _ | ⟨a, mid⟩
    · rw [hrun] at hp
      cases hp
    · rw [hrun] at hp
      obtain ⟨ha, hmid, hle, hpos, hhigh⟩ := h.success hat hrun
      obtain ⟨hb, hrest, hle', hpos', hhigh'⟩ := (hf a).success hmid hp
      subst ha
      refine ⟨hb, hrest, Nat.le_trans hle hle', hpos'.trans hpos, Nat.le_trans hhigh' ?_⟩
      show max (act.run u).2.high ((f (act.run u).1).run (act.run u).2).2.position ≤
        max u.high ((f (act.run u).1).run (act.run u).2).2.position
      omega
  failure {u bs} hat hp := by
    rw [bind_run] at hp
    rcases hrun : p.run bs with _ | ⟨a, mid⟩
    · exact Nat.lt_of_lt_of_le (h.failure hat hrun) ((hf (act.run u).1).frame (act.run u).2).2.2
    · rw [hrun] at hp
      obtain ⟨ha, hmid, -, hpos, -⟩ := h.success hat hrun
      subst ha
      rw [← hpos]
      exact (hf (act.run u).1).failure hmid hp

/-- A counted loop follows the strict loop. -/
theorem loop {elem : StateM Unpacker α} {p : Parser UInt8 α} (h : Follows elem p) (add : β → α → β)
    (n : Nat) (acc : β) : Follows (Parsing.loop elem add n acc) (Parsing.loop p add n acc) := by
  induction n generalizing acc with
  | zero => exact Follows.pure acc
  | succ n ih => exact h.bind fun a => ih (add acc a)

end Follows

/-! ### The pops -/

/-- `popData` as a whole. -/
theorem popData_run (n : Nat) (u : Unpacker) :
    ∃ k, (popData n).run u = ((List.range n).map fun i => u.mem (u.position + 0 + i),
      { u with
        position := u32 (u.position + n)
        high := if n = 0 then u.high else max u.high (u.position + n)
        overflows := k }) :=
  ⟨_, rfl⟩

/-- `popVariableUint32` as a whole: how far it goes is decided by the word it reads first. -/
theorem popVariableUint32_run (u : Unpacker) :
    ∃ k, popVariableUint32.run u =
      let pos := leNat ((List.range 2).map fun i => u.mem (u.position + 0 + i))
      if pos < 0x8000 then
        (pos, { u with
          position := u32 (u.position + 2), high := max u.high (u.position + 2), overflows := k })
      else
        (leNat ((List.range 1).map fun i => u.mem (u.position + 2 + i)) * 0x8000 + (pos &&& 0x7FFF),
          { u with
            position := u32 (u.position + 3)
            high := max (max u.high (u.position + 2)) (u.position + 3)
            overflows := k }) := by
  by_cases hlt : leNat ((List.range 2).map fun i => u.mem (u.position + 0 + i)) < 0x8000
  -- both cases read the first two bytes
  all_goals
    apply Exists.intro
    show ((if leNat ((List.range 2).map fun i => u.mem (u.position + 0 + i)) < 0x8000 then _ else _ :
      StateM Unpacker Nat)).run _ = _
  · rw [if_pos hlt]
    exact (if_pos hlt).symm
  · rw [if_neg hlt]
    exact (if_neg hlt).symm

namespace Follows

/-- Of the data, as much as is asked for. -/
theorem popData (n : Nat) : Follows (Unpacker.popData n) (take n) where
  frame u := by
    obtain ⟨k, hk⟩ := popData_run n u
    rw [hk]
    refine ⟨rfl, rfl, ?_⟩
    show u.high ≤ if n = 0 then u.high else max u.high (u.position + n)
    split <;> omega
  success {u bs a rest} hat hp := by
    obtain ⟨k, hk⟩ := popData_run n u
    have hlt := hat.position_lt
    by_cases hle : n ≤ bs.length
    · have hp' : some (bs.take n, bs.drop n) = some (a, rest) := (if_pos hle).symm.trans hp
      cases hp'
      have hpos : u32 (u.position + n) = u.position + n := u32_of_lt (by omega)
      rw [hk]
      refine ⟨?_, hat.drop hle rfl hpos, ?_, ?_, ?_⟩
      -- the bytes that are peeked are those ahead
      · show (List.range n).map (fun i => u.mem (u.position + 0 + i)) = bs.take n
        rw [hat.peek (by omega), List.drop_zero]
      · show u.position ≤ u32 (u.position + n)
        omega
      · show u32 (u.position + n) + (bs.drop n).length = u.position + bs.length
        rw [List.length_drop]
        omega
      · show (if n = 0 then u.high else max u.high (u.position + n)) ≤
          max u.high (u32 (u.position + n))
        split <;> omega
    · exact absurd ((if_neg hle).symm.trans hp) nofun
  failure {u bs} hat hp := by
    obtain ⟨k, hk⟩ := popData_run n u
    by_cases hle : n ≤ bs.length
    · exact absurd ((if_pos hle).symm.trans hp) nofun
    · rw [hk]
      show u.position + bs.length < if n = 0 then u.high else max u.high (u.position + n)
      rw [if_neg (by omega)]
      omega

/-- Success and failure of the variable-width pop, for the width it turns out to have. -/
theorem popVariableUint32 : Follows Unpacker.popVariableUint32 Strict.popVariableUint32 where
  frame u := by
    obtain ⟨k, hk⟩ := popVariableUint32_run u
    rw [hk]
    dsimp only
    split <;> refine ⟨rfl, rfl, ?_⟩ <;> dsimp only <;> omega
  success {u bs a rest} hat hp := by
    obtain ⟨k, hk⟩ := popVariableUint32_run u
    have hlt := hat.position_lt
    rw [Strict.popVariableUint32_run] at hp
    -- with less than two bytes the strict reader fails
    by_cases h2 : bs.length < 2
    · rw [if_pos h2] at hp
      cases hp
    rw [if_neg h2] at hp
    have hword := hat.peek (show 0 + 2 ≤ bs.length by omega)
    rw [List.drop_zero] at hword
    rw [hword] at hk
    by_cases hlo : leNat (bs.take 2) < 0x8000
    · rw [if_pos hlo] at hp
      cases hp
      rw [hk]
      dsimp only
      rw [if_pos hlo]
      have hpos : u32 (u.position + 2) = u.position + 2 := u32_of_lt (by omega)
      refine ⟨rfl, hat.drop (by omega) rfl hpos, ?_, ?_, ?_⟩ <;> dsimp only <;>
        simp only [hpos, List.length_drop] <;> omega
    -- the mark is set: there must be a third byte
    · rw [if_neg hlo] at hp
      by_cases h3 : bs.length < 3
      · rw [if_pos h3] at hp
        cases hp
      rw [if_neg h3] at hp
      cases hp
      rw [hat.peek (show 2 + 1 ≤ bs.length by omega)] at hk
      rw [hk]
      dsimp only
      rw [if_neg hlo]
      have hpos : u32 (u.position + 3) = u.position + 3 := u32_of_lt (by omega)
      refine ⟨rfl, hat.drop (by omega) rfl hpos, ?_, ?_, ?_⟩ <;> dsimp only <;>
        simp only [hpos, List.length_drop] <;> omega
  failure {u bs} hat hp := by
    obtain ⟨k, hk⟩ := popVariableUint32_run u
    rw [hk]
    rw [Strict.popVariableUint32_run] at hp
    dsimp only
    -- in either case of a failure the code reads behind the bytes
    by_cases h2 : bs.length < 2
    · split <;> dsimp only <;> omega
    have hword := hat.peek (show 0 + 2 ≤ bs.length by omega)
    rw [List.drop_zero] at hword
    rw [hword]
    rw [if_neg h2] at hp
    by_cases hlo : leNat (bs.take 2) < 0x8000
    · rw [if_pos hlo] at hp
      cases hp
    · rw [if_neg hlo] at hp ⊢
      by_cases h3 : bs.length < 3
      · dsimp only
        omega
      · rw [if_neg h3] at hp
        cases hp

/-- `popWord` goes along with the strict reader. -/
theorem popWord (width : Nat) : Follows (Unpacker.popWord width) (Strict.popWord width) :=
  (popData width).bind fun bs => pure (leNat bs)

/-- `PopUint16` goes along with the strict reader. -/
theorem popUint16 : Follows Unpacker.popUint16 Strict.source.popUint16 :=
  (popWord 2).bind fun n => pure (UInt16.ofNat n)

/-- `PopString` goes along with the strict reader. -/
theorem popString : Follows Unpacker.popString Strict.popData :=
  popVariableUint32.bind popData

end Follows

/-- Every pop of the code follows its strict counterpart. -/
structure FollowsSource : Prop where
  popBoolean : Follows source.popBoolean Strict.source.popBoolean
  popUint8 : Follows source.popUint8 Strict.source.popUint8
  popUint16 : Follows source.popUint16 Strict.source.popUint16
  popUint32 : Follows source.popUint32 Strict.source.popUint32
  popUint64 : Follows source.popUint64 Strict.source.popUint64
  popDouble : Follows source.popDouble Strict.source.popDouble
  popVariableUint32 : Follows source.popVariableUint32 Strict.source.popVariableUint32
  popString : Follows source.popString Strict.source.popString
  popBuffer : Follows source.popBuffer Strict.source.popBuffer

/-- All of them do. -/
theorem followsSource : FollowsSource where
  popBoolean := (Follows.popWord 1).bind fun n => .pure (n != 0)
  popUint8 := (Follows.popWord 1).bind fun n => .pure (UInt8.ofNat n)
  popUint16 := Follows.popUint16
  popUint32 := (Follows.popWord 4).bind fun n => .pure (UInt32.ofNat n)
  popUint64 := (Follows.popWord 8).bind fun n => .pure (UInt64.ofNat n)
  popDouble := (Follows.popWord 8).bind fun n => .pure (UInt64.ofNat n)
  popVariableUint32 := Follows.popVariableUint32
  popString := Follows.popString
  popBuffer := Follows.popString

/-- `Rewind` pops the header of the frame from its first byte on. -/
theorem rewind_run (u : Unpacker) :
    (rewind.run u).2 = (popVariableUint32.run { u with position := 0 }).2 := rfl

/-- `Rewind` changes the position only. -/
theorem rewind_frame (u : Unpacker) :
    (rewind.run u).2.mem = u.mem ∧ (rewind.run u).2.length = u.length := by
  rw [rewind_run]
  obtain ⟨hmem, hlen, -⟩ := Follows.popVariableUint32.frame { u with position := 0 }
  exact ⟨hmem, hlen⟩

/-- The buffer that a new unpacker looks at starts with the bytes it was given. -/
theorem new_buffer (buf : Nat → UInt8) (len : UInt32) (copy : Option (Nat → UInt8)) :
    (new buf len copy).mem = (raw buf len copy).mem ∧ (new buf len copy).length = len.toNat := by
  obtain ⟨hmem, hlen, -⟩ := Follows.popVariableUint32.frame (raw buf len copy)
  exact ⟨hmem, hlen⟩

end Unpacker

end Turnserver
