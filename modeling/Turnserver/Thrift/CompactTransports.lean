/-
  EVERY TRANSPORT IS AS GOOD AS THE PLAIN BYTES — the fast way of reading and the slow one.

  `readVarint64` asks the transport for ten bytes to look at.  Where it gets them it reads ahead and
  consumes what it has used; where it does not, it reads byte by byte.  A `TMemoryBuffer` lends bytes
  as long as there are ten of them, so one message is read in both ways.

  Whatever the transport does, each reading function returns what it returns on the plain bytes, in
  failure as in success, and leaves the same bytes behind unless it fails.
-/
import Turnserver.Lib.Simulation
import Turnserver.Thrift.CompactNumbers

namespace Turnserver

namespace Thrift

open Simulation Varint

variable {τ α γ : Type}

/-! ## One integer, on either way -/

/-- The fast way, on what was borrowed. -/
theorem fastVarint_start (borrowed : List UInt8) :
    fastVarint borrowed 0 0 = (cut varintSize borrowed).map fun r =>
      (.ofNat (value r.1), r.1.length) :=
  fastVarint_eq (w := []) (by decide)

section Plain

variable {k : Track} {b : Option Bool}

/-- The slow way, when the bytes of a group are to come. -/
theorem slowVarint_plain {bs w rest p : List UInt8} (hpre : p.length < varintSize)
    (h : cut (varintSize - p.length) bs = some (w, rest)) :
    (slowVarint plain (varintSize - p.length) p.length (.ofNat (value p))).run
      ⟨bs, k, b, false⟩ =
    some ((.ofNat (p ++ w).length, some (.ofNat (value (p ++ w)))), ⟨rest, k, b, false⟩) := by
  -- induction on the bytes, with the prefix `p` that was read before
  induction bs generalizing p w with
  | nil =>
    rcases Nat.exists_eq_succ_of_ne_zero (Nat.sub_ne_zero_of_lt hpre) with ⟨j, hj⟩
    rw [hj] at h
    cases h
  | cons c bs ih =>
    rcases Nat.exists_eq_succ_of_ne_zero (Nat.sub_ne_zero_of_lt hpre) with ⟨j, hj⟩
    have hread : (readAll plain 1).run ⟨c :: bs, k, b, false⟩ = some ([c], ⟨bs, k, b, false⟩) := by
      simp [readAll, plain, StateT.run]
    rw [hj] at h ⊢
    rw [slowVarint, run_bind, hread, Option.bind_some]
    rw [cut] at h
    dsimp only
    rw [addSeptet_value hpre]
    -- the byte ends the number, or the next one belongs to it
    rcases Nat.lt_or_ge c.toNat 128 with hc | hc
    · rw [if_pos hc] at h
      cases h
      rw [if_pos ((continue_eq_zero_iff c).mpr hc)]
      simp
    · have hmore : ¬ c &&& 0x80 = 0 := by
        rw [continue_eq_zero_iff]
        omega
      rw [if_neg (show ¬ c.toNat < 128 by omega), Option.map_eq_some_iff] at h
      rcases h with ⟨⟨w', rest'⟩, hcut, hr⟩
      cases hr
      have hlt : (p ++ [c]).length < varintSize := by
        rw [List.length_append, List.length_singleton]
        rcases Nat.eq_zero_or_pos j with rfl | hpos
        · cases hcut
        · omega
      have hleft : varintSize - (p ++ [c]).length = j := by
        rw [List.length_append, List.length_singleton]
        omega
      have hnext := ih (p := p ++ [c]) hlt (by rw [hleft]; exact hcut)
      rw [hleft, List.append_assoc, List.singleton_append, List.length_append,
        List.length_singleton] at hnext
      rw [List.length_append, List.length_singleton] at hlt
      rw [if_neg hmore, if_neg (by omega), hnext]

/-- And when they are not. -/
theorem slowVarint_plain_none {bs p : List UInt8} (hpre : p.length < varintSize)
    (h : cut (varintSize - p.length) bs = none) :
    ∃ left, (slowVarint plain (varintSize - p.length) p.length (.ofNat (value p))).run
      ⟨bs, k, b, false⟩ = some ((0, none), ⟨left, k, b, true⟩) := by
  -- induction on the bytes: they run out, or the tenth still asks for more
  induction bs generalizing p with
  | nil =>
    rcases Nat.exists_eq_succ_of_ne_zero (Nat.sub_ne_zero_of_lt hpre) with ⟨j, hj⟩
    rw [hj]
    exact ⟨[], rfl⟩
  | cons c bs ih =>
    rcases Nat.exists_eq_succ_of_ne_zero (Nat.sub_ne_zero_of_lt hpre) with ⟨j, hj⟩
    have hread : (readAll plain 1).run ⟨c :: bs, k, b, false⟩ = some ([c], ⟨bs, k, b, false⟩) := by
      simp [readAll, plain, StateT.run]
    rw [hj] at h ⊢
    rw [slowVarint, run_bind, hread, Option.bind_some]
    rw [cut] at h
    dsimp only
    rw [addSeptet_value hpre]
    rcases Nat.lt_or_ge c.toNat 128 with hc | hc
    · rw [if_pos hc] at h
      cases h
    · have hmore : ¬ c &&& 0x80 = 0 := by
        rw [continue_eq_zero_iff]
        omega
      rw [if_neg (show ¬ c.toNat < 128 by omega), Option.map_eq_none_iff] at h
      rw [if_neg hmore]
      -- ten bytes without an end are an error as well
      rcases Nat.lt_or_ge (p.length + 1) varintSize with hlt | hge
      · have hleft : varintSize - (p ++ [c]).length = j := by
          rw [List.length_append, List.length_singleton]
          omega
        rcases ih (p := p ++ [c]) (by simpa using hlt) (by rw [hleft]; exact h) with ⟨left, hnext⟩
        rw [hleft, List.length_append, List.length_singleton] at hnext
        exact ⟨left, by rw [if_neg (by omega), hnext]⟩
      · exact ⟨bs, by rw [if_pos hge]; rfl⟩

/-- On the plain list there is no fast path for a varint. -/
theorem readVarint64_plain_eq (bs : List UInt8) :
    (readVarint64 plain).run ⟨bs, k, b, false⟩ =
      (slowVarint plain varintSize 0 0).run ⟨bs, k, b, false⟩ := rfl

/-- **One integer.**  `readVarint64` reads the group of no more than ten bytes at the front, -/
theorem readVarint64_plain {bs w rest : List UInt8} (h : cut varintSize bs = some (w, rest)) :
    (readVarint64 plain).run ⟨bs, k, b, false⟩ =
      some ((.ofNat w.length, some (.ofNat (value w))), ⟨rest, k, b, false⟩) :=
  slowVarint_plain (p := []) (by decide) h

/-- and fails where there is none. -/
theorem readVarint64_plain_none {bs : List UInt8} (h : cut varintSize bs = none) :
    ∃ left, (readVarint64 plain).run ⟨bs, k, b, false⟩ = some ((0, none), ⟨left, k, b, true⟩) :=
  slowVarint_plain_none (p := []) (by decide) h

end Plain

/-! ## Any transport -/

variable (T : Transport τ)

/-- The same protocol object, but for the transport, which holds the same bytes unless there is an
    error. -/
structure Agrees (s : In τ) (s' : In (List UInt8)) : Prop where
  track : s.track = s'.track
  boolValue : s.boolValue = s'.boolValue
  error : s.error = s'.error
  pending : s.error = false → T.pending s.trans = s'.trans

/-- Two inputs agree as long as there was no error. -/
theorem agrees_of {t : τ} {bs : List UInt8} {k : Track} {b : Option Bool} {e : Bool}
    (h : e = false → T.pending t = bs) : Agrees T ⟨t, k, b, e⟩ ⟨bs, k, b, e⟩ :=
  ⟨rfl, rfl, rfl, h⟩

/-- A simulation, with the fields of both inputs spelled out. -/
theorem simulates_iff {p : Reader τ α} {q : Reader (List UInt8) α} :
    Simulates (Agrees T) p q ↔ ∀ t bs k b e, (e = false → T.pending t = bs) →
      Related (Agrees T) (p.run ⟨t, k, b, e⟩) (q.run ⟨bs, k, b, e⟩) := by
  constructor
  · intro h t bs k b e hpending
    exact h _ _ (agrees_of T hpending)
  · rintro h ⟨t, k, b, e⟩ ⟨bs, k', b', e'⟩ ⟨hk, hb, he, hpending⟩
    dsimp only at hk hb he hpending
    subst hk hb he
    exact h t bs k b e hpending

/-- Without an error, and with one. -/
theorem simulates_of {p : Reader τ α} {q : Reader (List UInt8) α}
    (herror : ∀ t bs k b, Related (Agrees T) (p.run ⟨t, k, b, true⟩) (q.run ⟨bs, k, b, true⟩))
    (hok : ∀ t k b, Related (Agrees T) (p.run ⟨t, k, b, false⟩) (q.run ⟨T.pending t, k, b, false⟩)) :
    Simulates (Agrees T) p q := by
  refine (simulates_iff T).mpr fun t bs k b e hpending => ?_
  cases e with
  | true => exact herror t bs k b
  | false =>
    rw [← hpending rfl]
    exact hok t k b

theorem simulates_stop : Simulates (Agrees T) (Reader.stop : Reader τ α) Reader.stop :=
  .failure

theorem simulates_hasError : Simulates (Agrees T) Reader.hasError Reader.hasError :=
  (simulates_iff T).mpr fun _ _ _ _ _ h => ⟨rfl, agrees_of T h⟩

theorem simulates_setError : Simulates (Agrees T) Reader.setError Reader.setError :=
  (simulates_iff T).mpr fun _ _ _ _ _ _ => ⟨rfl, agrees_of T (fun h => by cases h)⟩

theorem simulates_fail :
    Simulates (Agrees T) (Reader.fail : Reader τ (UInt32 × Option α)) Reader.fail :=
  (simulates_setError T).bind fun _ => .pure _

/-- Reading bytes is simulated, unless none are asked for. -/
theorem simulates_readAll {len : Nat} (h : 0 < len) :
    Simulates (Agrees T) (readAll T len) (readAll plain len) := by
  refine simulates_of T (fun _ _ _ _ => ⟨rfl, agrees_of T (fun h => by cases h)⟩) fun t k b => ?_
  rcases Nat.lt_or_ge (T.pending t).length len with hlt | hge
  · have hshort := T.readAll_short len t hlt
    have hplain : plain.readAll len (T.pending t) = ([], []) := if_neg (by omega)
    simp only [readAll, StateT.run, hshort, hplain]
    exact ⟨rfl, agrees_of T (fun h => by cases h)⟩
  · rcases T.readAll_ok len t h hge with ⟨hread, hleft⟩
    have hplain : plain.readAll len (T.pending t) = ((T.pending t).take len, (T.pending t).drop len) :=
      if_pos hge
    simp only [readAll, StateT.run, hread, hplain]
    exact ⟨rfl, agrees_of T (fun _ => hleft)⟩

theorem simulates_readByte : Simulates (Agrees T) (readByte T) (readByte plain) := by
  refine (simulates_readAll T (by decide)).bind fun b => ?_
  cases b <;> exact .pure _

/-- The slow loop of a varint is simulated: induction on the turns. -/
theorem simulates_slowVarint (turns rsize : Nat) (val : UInt64) :
    Simulates (Agrees T) (slowVarint T turns rsize val) (slowVarint plain turns rsize val) := by
  induction turns generalizing rsize val with
  | zero => exact simulates_fail T
  | succ turns ih =>
    refine (simulates_readAll T (by decide)).bind fun b => ?_
    cases b with
    | nil => exact .pure _
    | cons byte _ => exact .ite (.pure _) (.ite (simulates_fail T) (ih _ _))

/-- The fast way and the slow way. -/
theorem simulates_readVarint64 : Simulates (Agrees T) (readVarint64 T) (readVarint64 plain) := by
  refine simulates_of T (fun _ _ _ _ => ⟨rfl, agrees_of T (fun h => by cases h)⟩) fun t k b => ?_
  have hborrow := T.borrow_pending varintSize t
  -- the transport lends bytes or it does not; both ways the same number comes out
  cases hlent : (T.borrow varintSize t).1 with
  | none =>
    have hrun : (readVarint64 T).run ⟨t, k, b, false⟩ =
        (slowVarint T varintSize 0 0).run ⟨(T.borrow varintSize t).2, k, b, false⟩ := by
      simp [readVarint64, Reader.hasError, borrow, StateT.run, bind, StateT.bind, hlent]
    rw [hrun, readVarint64_plain_eq]
    exact simulates_slowVarint T varintSize 0 0 _ _ (agrees_of T (fun _ => hborrow))
  | some borrowed =>
    rcases T.borrow_some varintSize t borrowed hlent with ⟨⟨more, hmore⟩, hlen, hconsume⟩
    have hrun : (readVarint64 T).run ⟨t, k, b, false⟩ =
        (takeVarint T borrowed).run ⟨(T.borrow varintSize t).2, k, b, false⟩ := by
      simp [readVarint64, Reader.hasError, borrow, StateT.run, bind, StateT.bind, hlent]
    rw [hrun, takeVarint, fastVarint_start]
    -- no end within the bytes that were lent, of which there are ten at least
    cases hcut : cut varintSize borrowed with
    | none =>
      have hplain : cut varintSize (T.pending t) = none := by
        rw [← hmore, cut_append_of_le hlen, hcut]
        rfl
      rcases readVarint64_plain_none (k := k) (b := b) hplain with ⟨left, hleft⟩
      rw [hleft]
      exact ⟨rfl, agrees_of T (fun h => by cases h)⟩
    -- the number ends there, and its bytes are consumed
    | some r =>
      rcases r with ⟨w, rest⟩
      have hplain : cut varintSize (T.pending t) = some (w, rest ++ more) := by
        rw [← hmore]
        exact cut_stable hcut more
      rcases cut_some hcut with ⟨hw, -, -⟩
      have hle : w.length ≤ borrowed.length := by
        rw [hw, List.length_append]
        exact Nat.le_add_right _ _
      rcases hconsume w.length hle with ⟨t', ht', hpending⟩
      have hdrop : (T.pending t).drop w.length = rest ++ more := by
        rw [← hmore, hw, List.append_assoc, List.drop_left]
      have htake : (consume T w.length).run ⟨(T.borrow varintSize t).2, k, b, false⟩ =
          some ((), ⟨t', k, b, false⟩) := by
        rw [StateT.run, consume, ht', Option.map_some]
      rw [readVarint64_plain hplain, Option.map_some, run_bind, htake]
      exact ⟨rfl, agrees_of T (fun _ => hpending.trans hdrop)⟩

theorem simulates_readAs {p : Reader τ (UInt32 × Option α)}
    {q : Reader (List UInt8) (UInt32 × Option α)} (h : Simulates (Agrees T) p q) (f : α → γ) :
    Simulates (Agrees T) (readAs f p) (readAs f q) :=
  h.bind fun _ => .pure _

theorem simulates_readVarint32 : Simulates (Agrees T) (readVarint32 T) (readVarint32 plain) :=
  simulates_readAs T (simulates_readVarint64 T) _

theorem simulates_readI16 : Simulates (Agrees T) (readI16 T) (readI16 plain) :=
  simulates_readAs T (simulates_readVarint32 T) _

theorem simulates_readI32 : Simulates (Agrees T) (readI32 T) (readI32 plain) :=
  simulates_readAs T (simulates_readVarint32 T) _

theorem simulates_readI64 : Simulates (Agrees T) (readI64 T) (readI64 plain) :=
  simulates_readAs T (simulates_readVarint64 T) _

theorem simulates_readDouble : Simulates (Agrees T) (readDouble T) (readDouble plain) := by
  refine (simulates_readAll T (by decide)).bind fun b => ?_
  cases b <;> exact .pure _

theorem simulates_readBinary : Simulates (Agrees T) (readBinary T) (readBinary plain) := by
  refine (simulates_readVarint32 T).bind fun r => ?_
  rcases r with ⟨n, _ | size⟩
  · exact .pure _
  · dsimp only
    by_cases hsize : size = 0
    · simp only [hsize, if_true]
      exact .pure _
    · simp only [hsize, if_false]
      have hpos : 0 < size.toNat := by
        rcases Nat.eq_zero_or_pos size.toNat with h | h
        · exact absurd (UInt32.toNat_inj.mp h) hsize
        · exact h
      refine .ite (simulates_fail T) ((simulates_readAll T hpos).bind fun b => ?_)
      cases b <;> exact .pure _

theorem simulates_readBool : Simulates (Agrees T) (readBool T) (readBool plain) := by
  refine (simulates_iff T).mpr fun t bs k b e h => ?_
  cases b with
  | some v => exact ⟨rfl, agrees_of T h⟩
  | none => exact simulates_readAs T (simulates_readByte T) _ _ _ (agrees_of T h)

theorem simulates_readStructBegin : Simulates (Agrees T) readStructBegin readStructBegin :=
  (simulates_iff T).mpr fun _ _ _ _ _ h => ⟨rfl, agrees_of T h⟩

theorem simulates_readStructEnd : Simulates (Agrees T) readStructEnd readStructEnd := by
  refine (simulates_iff T).mpr fun t bs k b e h => ?_
  rcases k with ⟨_ | ⟨last, lastField⟩, id⟩
  · exact trivial
  · exact ⟨rfl, agrees_of T h⟩

theorem simulates_readFieldId (byte : UInt8) :
    Simulates (Agrees T) (readFieldId T byte) (readFieldId plain byte) :=
  .ite (simulates_readI16 T) ((simulates_iff T).mpr fun _ _ _ _ _ h => ⟨rfl, agrees_of T h⟩)

theorem simulates_enterField (type : UInt8) (fieldId : Int16) :
    Simulates (Agrees T) (enterField type fieldId) (enterField type fieldId) :=
  (simulates_iff T).mpr fun _ _ _ _ _ h => ⟨rfl, agrees_of T h⟩

theorem simulates_readFieldBegin :
    Simulates (Agrees T) (readFieldBegin T) (readFieldBegin plain) := by
  refine (simulates_readByte T).bind fun byte => ?_
  rcases byte with ⟨n, _ | b⟩
  · exact .pure _
  · refine .ite (.pure _) ((simulates_readFieldId T b).bind fun id => ?_)
    rcases id with ⟨m, _ | fieldId⟩
    · exact .pure _
    · dsimp only
      cases getTType (b &&& 0x0f) with
      | none => exact (simulates_setError T).bind fun _ => .pure _
      | some fieldType => exact (simulates_enterField T _ _).bind fun _ => .pure _

theorem simulates_readMapTypes (size : UInt32) :
    Simulates (Agrees T) (readMapTypes T size) (readMapTypes plain size) :=
  .ite (.pure _) (simulates_readByte T)

theorem simulates_readMapBegin : Simulates (Agrees T) (readMapBegin T) (readMapBegin plain) := by
  refine (simulates_readVarint32 T).bind fun msize => ?_
  rcases msize with ⟨n, _ | size⟩
  · exact .pure _
  · refine (simulates_readMapTypes T size).bind fun kv => ?_
    rcases kv with ⟨m, _ | kvType⟩
    · exact .pure _
    · refine .ite (simulates_fail T) ?_
      cases getTType (kvType >>> 4) with
      | none => exact simulates_fail T
      | some keyType =>
        cases getTType (kvType &&& 0xf) with
        | none => exact simulates_fail T
        | some valType => exact .pure _

theorem simulates_readListSize (byte : UInt8) :
    Simulates (Agrees T) (readListSize T byte) (readListSize plain byte) :=
  .ite (simulates_readVarint32 T) (.pure _)

theorem simulates_readListBegin : Simulates (Agrees T) (readListBegin T) (readListBegin plain) := by
  refine (simulates_readByte T).bind fun size_and_type => ?_
  rcases size_and_type with ⟨n, _ | b⟩
  · exact .pure _
  · refine (simulates_readListSize T b).bind fun lsize => ?_
    rcases lsize with ⟨m, _ | size⟩
    · exact .pure _
    · refine .ite (simulates_fail T) ?_
      cases getTType (b &&& 0x0f) with
      | none => exact simulates_fail T
      | some elemType => exact .pure _

/-! ### Skipping -/

theorem simulates_count {p : Reader τ (UInt32 × Option α)}
    {q : Reader (List UInt8) (UInt32 × Option α)} (h : Simulates (Agrees T) p q) :
    Simulates (Agrees T) (count p) (count q) :=
  h.bind fun _ => .pure _

theorem simulates_orZero {p : Reader τ UInt32} {q : Reader (List UInt8) UInt32}
    (h : Simulates (Agrees T) p q) : Simulates (Agrees T) (orZero p) (orZero q) :=
  h.bind fun _ => (simulates_hasError T).bind fun _ => .pure _

/-- Skipping fields is simulated: induction on the fuel. -/
theorem simulates_skipFields {item : TType → Reader τ UInt32}
    {item' : TType → Reader (List UInt8) UInt32}
    (h : ∀ type, Simulates (Agrees T) (item type) (item' type)) (fuel : Nat) (result : UInt32) :
    Simulates (Agrees T) (skipFields T item fuel result) (skipFields plain item' fuel result) := by
  induction fuel generalizing result with
  | zero => exact simulates_stop T
  | succ fuel ih =>
    refine (simulates_hasError T).bind fun e => .ite (.pure _) ?_
    refine (simulates_readFieldBegin T).bind fun field => ?_
    refine (simulates_hasError T).bind fun e => .ite (.pure _) (.ite (.pure _) ?_)
    refine (h _).bind fun n => (simulates_hasError T).bind fun e => .ite (.pure _) (ih _)

/-- Skipping items is simulated: induction on their number. -/
theorem simulates_skipItems {item : Reader τ UInt32} {item' : Reader (List UInt8) UInt32}
    (h : Simulates (Agrees T) item item') (n : Nat) (result : UInt32) :
    Simulates (Agrees T) (skipItems item n result) (skipItems item' n result) := by
  induction n generalizing result with
  | zero => exact .pure _
  | succ n ih =>
    exact (simulates_hasError T).bind fun e => .ite (.pure _) (h.bind fun k => ih _)

theorem simulates_skipPair {key val : Reader τ UInt32} {key' val' : Reader (List UInt8) UInt32}
    (hkey : Simulates (Agrees T) key key') (hval : Simulates (Agrees T) val val') :
    Simulates (Agrees T) (skipPair key val) (skipPair key' val') :=
  hkey.bind fun _ => (simulates_hasError T).bind fun _ => .ite (.pure _) (hval.bind fun _ => .pure _)

/-- Skipping is simulated: induction on the fuel. -/
theorem simulates_skip (fuel : Nat) (type : TType) :
    Simulates (Agrees T) (skip T fuel type) (skip plain fuel type) := by
  -- induction on the fuel, and a case for each type
  induction fuel generalizing type with
  | zero => exact simulates_stop T
  | succ fuel ih =>
    have hlist : Simulates (Agrees T) (skip T (fuel + 1) .list) (skip plain (fuel + 1) .list) := by
      refine (simulates_readListBegin T).bind fun r => ?_
      rcases r with ⟨n, _ | ⟨elemType, size⟩⟩
      · exact .pure _
      · exact simulates_orZero T (simulates_skipItems T (ih elemType) _ _)
    cases type with
    | stop => exact .pure _
    | bool => exact simulates_count T (simulates_readBool T)
    | byte => exact simulates_count T (simulates_readByte T)
    | double => exact simulates_count T (simulates_readDouble T)
    | i16 => exact simulates_count T (simulates_readI16 T)
    | i32 => exact simulates_count T (simulates_readI32 T)
    | i64 => exact simulates_count T (simulates_readI64 T)
    | string => exact simulates_count T (simulates_readBinary T)
    | struct =>
      refine (simulates_readStructBegin T).bind fun _ => ?_
      refine (simulates_skipFields T ih _ _).bind fun n => ?_
      refine (simulates_hasError T).bind fun e => .ite (.pure _) ?_
      exact (simulates_readStructEnd T).bind fun _ => .pure _
    | map =>
      refine (simulates_readMapBegin T).bind fun r => ?_
      rcases r with ⟨n, _ | ⟨keyType, valType, size⟩⟩
      · exact .pure _
      · exact simulates_orZero T
          (simulates_skipItems T (simulates_skipPair T (ih keyType) (ih valType)) _ _)
    | set => exact hlist
    | list => exact hlist

end Thrift

end Turnserver
