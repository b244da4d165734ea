/-
  SKIPPING — `skip` passes over what the reader does not know.

  `skip_wire`: of any value that can be read at all it reads exactly the bytes, however deep the value
  is, and returns their number.
-/
import Turnserver.Thrift.CompactWire

namespace Turnserver

namespace Thrift

open Simulation Varint Reader

variable {α : Type}

/-- Without an error there is no early return. -/
theorem Reads.unless {p q : Reader (List UInt8) α} {w : List UInt8} {s s' : Held} {a : α}
    (h : Reads q w s a s') :
    Reads (do let e ← hasError; if e then p else q) w s a s' :=
  (reads_hasError s).bind_nil h

/-- What is counted reads the same bytes. -/
theorem reads_count {p : Reader (List UInt8) (UInt32 × Option α)} {w : List UInt8} {s s' : Held}
    {n : UInt32} {a : Option α} (h : Reads p w s (n, a) s') : Reads (count p) w s n s' :=
  h.bind_pure (.pure _ _)

/-- Where the count is there, it is the result. -/
theorem reads_orZero {p : Reader (List UInt8) UInt32} {w : List UInt8} {s s' : Held} {n : UInt32}
    (h : Reads p w s n s') : Reads (orZero p) w s n s' :=
  h.bind_pure ((reads_hasError s').bind_nil (.pure _ _))

/-- A pair is skipped, one half after the other. -/
theorem reads_skipPair {key val : Reader (List UInt8) UInt32} {w w' : List UInt8} {s : Held}
    {n m : UInt32} (hkey : Reads key w s n s) (hval : Reads val w' s m s) :
    Reads (skipPair key val) (w ++ w') s (n + m) s :=
  hkey.bind (.unless (hval.bind_pure (.pure _ _)))

/-- Inside of a struct. -/
def Held.inner (s : Held) : Held := ⟨⟨s.track.lastFieldId :: s.track.lastField, 0⟩, s.boolValue⟩

/-- Behind the field with that id. -/
def Held.after (s : Held) (id : Int16) : Held := ⟨⟨s.track.lastField, id⟩, s.boolValue⟩

theorem reads_readStructBegin (s : Held) : Reads readStructBegin [] s () s.inner := fun _ => rfl

theorem reads_readStructEnd (s : Held) (id : Int16) :
    Reads readStructEnd [] (s.inner.after id) () s := fun _ => rfl

theorem headerWire_length_pos (last id : Int16) (type : UInt8) :
    0 < (headerWire last id type).length := by
  rw [headerWire]
  split <;> simp

theorem listWire_length_pos (elem : TType) (n : Nat) : 0 < (listWire elem n).length := by
  rw [listWire]
  split <;> simp

theorem mapWire_length_pos (key val : TType) (n : Nat) : 0 < (mapWire key val n).length := by
  rw [mapWire]
  split <;> simp

/-- Entering a field that is no truth value leaves nothing pending. -/
theorem enter_eq_after {s : Held} {id : Int16} {v : TValue} (h : v.ttype ≠ .bool) :
    s.enter id v = s.after id := by
  cases v with
  | bool b => exact absurd rfl h
  | _ => rfl

/-- The value of a field, behind its header. -/
theorem skip_field {fuel : Nat} {s : Held} {id : Int16} {v : TValue} (hs : s.boolValue = none)
    (hfuel : 0 < fuel)
    (h : v.ttype ≠ .bool →
      Reads (skip plain fuel v.ttype) v.wire (s.after id) (.ofNat v.wire.length) (s.after id)) :
    Reads (skip plain fuel v.ttype) (if v.ttype = .bool then [] else v.wire) (s.enter id v)
      (.ofNat (if v.ttype = .bool then [] else v.wire).length) (s.after id) := by
  -- a bool was read with its header, so there is no byte to skip
  by_cases hbool : v.ttype = .bool
  · rw [if_pos hbool]
    cases v with
    | bool b =>
      rcases Nat.exists_eq_succ_of_ne_zero (Nat.ne_of_gt hfuel) with ⟨f, rfl⟩
      have hread := reads_count (reads_readBool_field (s.enter id (.bool b)) b rfl)
      have hafter : { s.enter id (.bool b) with boolValue := none } = s.after id := by
        rw [Held.after, hs]
        rfl
      rwa [hafter] at hread
    | _ => cases hbool
  · rw [if_neg hbool, enter_eq_after hbool]
    exact h hbool

/-- A map without pairs has no bytes for them. -/
theorem TPairs.wire_eq_nil (ps : TPairs) (h : ps.length = 0) : ps.wire = [] := by
  cases ps with
  | nil => rfl
  | cons k v rest => cases h

/-- Behind its header a container has less bytes. -/
theorem items_lt {w w' : List UInt8} {fuel : Nat} (h : (w ++ w').length < fuel + 1)
    (hpos : 0 < w.length) : w'.length < fuel := by
  rw [List.length_append] at h
  omega

/-- A list is skipped, if its items are. -/
theorem skip_list {fuel n : Nat} {elem : TType} {w : List UInt8} {s : Held} (hn : n < 2 ^ 31)
    (h : ∀ result, Reads (skipItems (skip plain fuel elem) n result) w s
      (result + .ofNat w.length) s) :
    Reads (skip plain (fuel + 1) .list) (listWire elem n ++ w) s
      (.ofNat (listWire elem n ++ w).length) s := by
  refine (reads_readListBegin s elem hn).bind ?_
  dsimp only
  rw [List.length_append, UInt32.ofNat_add, size_toNat hn]
  exact reads_orZero (h _)

/-- An empty map has nothing behind its size. -/
theorem skip_map {fuel n : Nat} {key val : TType} {w : List UInt8} {s : Held} (hn : n < 2 ^ 31)
    (hw : n = 0 → w = [])
    (h : ∀ result, Reads (skipItems (skipPair (skip plain fuel key) (skip plain fuel val)) n result) w
      s (result + .ofNat w.length) s) :
    Reads (skip plain (fuel + 1) .map) (mapWire key val n ++ w) s
      (.ofNat (mapWire key val n ++ w).length) s := by
  refine (reads_readMapBegin s key val hn).bind ?_
  rw [List.length_append, UInt32.ofNat_add]
  rcases Nat.eq_zero_or_pos n with rfl | hpos
  · rw [hw rfl, if_pos rfl]
    exact reads_orZero (Reads.pure _ _)
  · rw [if_neg (Nat.ne_of_gt hpos)]
    dsimp only
    rw [size_toNat hn]
    exact reads_orZero (h _)

/-- One turn of the loop of a struct. -/
theorem skip_fields {fuel turns : Nat} {s : Held} {id last : Int16} {v : TValue} {w : List UInt8}
    {result : UInt32} (hs : s.boolValue = none) (hfuel : 0 < fuel)
    (hv : v.ttype ≠ .bool →
      Reads (skip plain fuel v.ttype) v.wire (s.after id) (.ofNat v.wire.length) (s.after id))
    (hrest : ∀ result, Reads (skipFields plain (skip plain fuel) turns result) w (s.after id)
      (result + .ofNat w.length) (s.after last)) :
    Reads (skipFields plain (skip plain fuel) (turns + 1) result)
      (fieldWire s.track.lastFieldId id v v.wire ++ w) s
      (result + .ofNat (fieldWire s.track.lastFieldId id v v.wire ++ w).length) (s.after last) := by
  -- header, value and the other fields, with their lengths added in 32 bits
  have hitem := skip_field hs hfuel hv
  rw [fieldWire, List.append_assoc]
  refine .unless ((reads_readFieldBegin s id v).bind (.unless ?_))
  rw [if_neg (ttype_ne_stop v)]
  refine hitem.bind (.unless ?_)
  have hcount := hrest (result + .ofNat (headerWire s.track.lastFieldId id v.headerType).length +
    .ofNat (if v.ttype = .bool then [] else v.wire).length)
  rw [List.length_append, List.length_append, UInt32.ofNat_add, UInt32.ofNat_add, ← UInt32.add_assoc,
    ← UInt32.add_assoc]
  exact hcount

/-- The stop ends the fields. -/
theorem skip_stop {turns : Nat} {item : TType → Reader (List UInt8) UInt32} {s : Held}
    {result : UInt32} :
    Reads (skipFields plain item (turns + 1) result) [0] s (result + 1) s := by
  refine .unless ((reads_readFieldBegin_stop s).bind_pure (.unless ?_))
  rw [if_pos rfl]
  exact .pure _ _

mutual

/-- **Skipping.**  One value is read, and no byte more. -/
theorem TValue.skip_wire : (v : TValue) → v.Proper → (fuel : Nat) → v.wire.length < fuel →
    (s : Held) → s.boolValue = none →
    Reads (skip plain fuel v.ttype) v.wire s (.ofNat v.wire.length) s
  -- a case for each constructor; the fuel is more than the bytes, so it does not run out
  | _, _, 0, hfuel, _, _ => absurd hfuel (Nat.not_lt_zero _)
  | .bool b, _, _ + 1, _, s, hs => reads_count (reads_readBool s b hs)
  | .byte n, _, _ + 1, _, s, _ => reads_count (reads_readByte s n)
  | .i16 n, _, _ + 1, _, s, _ => reads_count (reads_readI16 s n)
  | .i32 n, _, _ + 1, _, s, _ => reads_count (reads_readI32 s n)
  | .i64 n, _, _ + 1, _, s, _ => reads_count (reads_readI64 s n)
  | .double n, _, _ + 1, _, s, _ => by
    rw [TValue.wire, Bytes.leBytes_length]
    exact reads_count (reads_readDouble s n)
  | .string bs, h, _ + 1, _, s, _ => reads_count (reads_readBinary s h)
  | .struct fields, h, fuel + 1, hfuel, s, hs => by
    rcases fields.skip_wire h fuel (fuel + 1) s.inner (Nat.le_of_lt_succ hfuel) (Nat.le_of_lt hfuel) hs
      with ⟨last, hfields⟩
    have hread := hfields 0
    rw [UInt32.zero_add] at hread
    refine (reads_readStructBegin s).bind_nil (hread.bind_pure (.unless ?_))
    exact (reads_readStructEnd s last).bind_nil (.pure _ _)
  | .list elem items, h, fuel + 1, hfuel, s, hs =>
    skip_list h.1 (items.skip_wire elem h.2 fuel (items_lt hfuel (listWire_length_pos _ _)) s hs)
  | .set elem items, h, fuel + 1, hfuel, s, hs =>
    skip_list h.1 (items.skip_wire elem h.2 fuel (items_lt hfuel (listWire_length_pos _ _)) s hs)
  | .map key val items, h, fuel + 1, hfuel, s, hs =>
    skip_map h.1 items.wire_eq_nil
      (items.skip_wire key val h.2 fuel (items_lt hfuel (mapWire_length_pos _ _ _)) s hs)

/-- Fields, up to the stop. -/
theorem TFields.skip_wire : (fs : TFields) → fs.Proper → (fuel turns : Nat) → (s : Held) →
    (fs.wire s.track.lastFieldId).length ≤ fuel → (fs.wire s.track.lastFieldId).length ≤ turns →
    s.boolValue = none → ∃ last, ∀ result,
      Reads (skipFields plain (skip plain fuel) turns result) (fs.wire s.track.lastFieldId) s
        (result + .ofNat (fs.wire s.track.lastFieldId).length) (s.after last)
  | .stop, _, _, 0, _, _, hturns, _ => absurd hturns (Nat.not_succ_le_zero 0)
  | .stop, _, _, _ + 1, s, _, _, _ => ⟨s.track.lastFieldId, fun _ => skip_stop⟩
  | .field id v rest, h, fuel, turns, s, hfuel, hturns, hs => by
    have hheader := headerWire_length_pos s.track.lastFieldId id v.headerType
    -- the header has a byte, so the fuel and the turns are enough for what is behind it
    rw [TFields.wire, fieldWire, List.length_append, List.length_append] at hfuel hturns
    cases turns with
    | zero => exact absurd hturns (by omega)
    | succ turns =>
      rcases rest.skip_wire h.2 fuel turns (s.after id)
        (Nat.le_trans (Nat.le_add_left _ _) hfuel) (show (rest.wire id).length ≤ turns by omega) hs
        with ⟨last, hrest⟩
      refine ⟨last, fun result => skip_fields hs (by omega) (fun hbool => ?_) hrest⟩
      rw [if_neg hbool] at hfuel
      exact v.skip_wire h.1 fuel (by omega) (s.after id) hs

/-- The items of a list are skipped, one after the other. -/
theorem TValues.skip_wire : (vs : TValues) → (elem : TType) → vs.Proper elem → (fuel : Nat) →
    vs.wire.length < fuel → (s : Held) → s.boolValue = none → (result : UInt32) →
      Reads (skipItems (skip plain fuel elem) vs.length result) vs.wire s
        (result + .ofNat vs.wire.length) s
  | .nil, _, _, _, _, s, _, result => by
    rw [TValues.wire, List.length_nil, show UInt32.ofNat 0 = 0 from rfl, UInt32.add_zero]
    exact .pure _ _
  | .cons v rest, elem, h, fuel, hfuel, s, hs, result => by
    rw [TValues.wire, List.length_append] at hfuel
    have hitem := v.skip_wire h.2.1 fuel (by omega) s hs
    have hrest := rest.skip_wire elem h.2.2 fuel (by omega) s hs (result + .ofNat v.wire.length)
    rw [h.1] at hitem
    rw [TValues.wire, List.length_append, UInt32.ofNat_add, ← UInt32.add_assoc]
    exact .unless (hitem.bind hrest)

/-- The pairs of a map are skipped, one after the other. -/
theorem TPairs.skip_wire : (ps : TPairs) → (key val : TType) → ps.Proper key val → (fuel : Nat) →
    ps.wire.length < fuel → (s : Held) → s.boolValue = none → (result : UInt32) →
      Reads (skipItems (skipPair (skip plain fuel key) (skip plain fuel val)) ps.length result) ps.wire
        s (result + .ofNat ps.wire.length) s
  | .nil, _, _, _, _, _, s, _, result => by
    rw [TPairs.wire, List.length_nil, show UInt32.ofNat 0 = 0 from rfl, UInt32.add_zero]
    exact .pure _ _
  | .cons k v rest, key, val, h, fuel, hfuel, s, hs, result => by
    rw [TPairs.wire, List.length_append, List.length_append] at hfuel
    have hkey := k.skip_wire h.2.2.1 fuel (by omega) s hs
    have hval := v.skip_wire h.2.2.2.1 fuel (by omega) s hs
    have hrest := rest.skip_wire key val h.2.2.2.2 fuel (by omega) s hs
      (result + (.ofNat k.wire.length + .ofNat v.wire.length))
    rw [h.1] at hkey
    rw [h.2.1] at hval
    rw [TPairs.wire, List.length_append, List.length_append, UInt32.ofNat_add, UInt32.ofNat_add,
      ← UInt32.add_assoc]
    exact .unless ((reads_skipPair hkey hval).bind hrest)

end

end Thrift

end Turnserver
