/-
  READING ANY BYTES — what the protocol does with a message that is broken or not complete.

  Nothing throws here: after an error everything goes on with whatever there is, and the error is only
  looked at now and then.  For each reading function (`Sound`):
  * it returns, whatever the bytes: no assertion fails, no stack is popped empty, and a nesting as
    deep as the bytes allow is deep enough;
  * an error stays;
  * without an error, the same bytes with more behind them are read in the same way, and what is more
    is left behind.
-/
import Turnserver.Thrift.CompactTransports

namespace Turnserver

namespace Thrift

open Simulation Reader

variable {α β γ : Type}

/-- The plain bytes, as a protocol object reads them. -/
abbrev Input := In (List UInt8)

/-- Reading consumes bytes, and closes no struct that it has not opened. -/
def descent : Descent Input where
  le s t := t.trans.length ≤ s.trans.length ∧ s.track.lastField.length ≤ t.track.lastField.length
  size s := s.trans.length
  refl _ := ⟨Nat.le_refl _, Nat.le_refl _⟩
  trans h h' := ⟨Nat.le_trans h'.1 h.1, Nat.le_trans h.2 h'.2⟩
  size_le h := h.1

/-- The same, with more to come. -/
def In.extend (more : List UInt8) (s : Input) : Input := { s with trans := s.trans ++ more }

/-- An error was raised on the input. -/
def Failed (s : Input) : Prop := s.error = true

/-- The input with more bytes behind it. -/
def Extended (more : List UInt8) (s s' : Input) : Prop := s' = s.extend more

/-- Until it fails, `p` does with less what `q` does with more. -/
abbrev Unmoved (more : List UInt8) (p q : Reader (List UInt8) α) : Prop :=
  Follows Failed (Extended more) p q

/-- `p` comes to an end and, until it fails, does what `q` does with more. -/
structure Sound (n : Nat) (p q : Reader (List UInt8) α) : Prop where
  total : Total descent n p
  unmoved : ∀ more, Unmoved more p q

namespace Sound

variable {n : Nat}

theorem pure (a : α) : Sound n (Pure.pure a) (Pure.pure a) := ⟨.pure a, fun _ => .pure a⟩

theorem bind {p q : Reader (List UInt8) α} {f g : α → Reader (List UInt8) β} (h : Sound n p q)
    (hf : ∀ a, Sound n (f a) (g a)) : Sound n (p >>= f) (q >>= g) :=
  ⟨h.total.bind fun a => (hf a).total, fun more =>
    (h.unmoved more).bind fun a => (hf a).unmoved more⟩

/-- After something has been read, one level less is enough. -/
theorem bind_shrinks {P : α → Prop} {p q : Reader (List UInt8) α}
    {f g : α → Reader (List UInt8) β} (h : Sound (n + 1) p q) (hshrinks : Shrinks descent P p)
    (hf : ∀ a, P a → Sound n (f a) (g a)) (hf' : ∀ a, ¬ P a → Sound (n + 1) (f a) (g a)) :
    Sound (n + 1) (p >>= f) (q >>= g) where
  total := h.total.bind_shrinks hshrinks (fun a ha => (hf a ha).total) fun a ha => (hf' a ha).total
  unmoved more := (h.unmoved more).bind fun a => by
    by_cases ha : P a
    · exact (hf a ha).unmoved more
    · exact (hf' a ha).unmoved more

theorem ite {c : Prop} [Decidable c] {p₁ p₂ q₁ q₂ : Reader (List UInt8) α} (h₁ : Sound n p₁ q₁)
    (h₂ : Sound n p₂ q₂) : Sound n (if c then p₁ else p₂) (if c then q₁ else q₂) :=
  ⟨.ite h₁.total h₂.total, fun more => .ite (h₁.unmoved more) (h₂.unmoved more)⟩

/-- A program is sound for any smaller bound. -/
theorem mono {m : Nat} {p q : Reader (List UInt8) α} (h : Sound n p q) (hmn : m ≤ n) :
    Sound m p q :=
  ⟨h.total.mono hmn, h.unmoved⟩

/-- A single step. -/
theorem of_run {p : Reader (List UInt8) α}
    (h : ∀ s, ∃ a t, p.run s = some (a, t) ∧ descent.le s t ∧ (s.error = true → t.error = true) ∧
      (t.error = false → ∀ more, p.run (s.extend more) = some (a, t.extend more))) :
    Sound n p p where
  total s _ := by
    rcases h s with ⟨a, t, hrun, hle, -, -⟩
    exact ⟨a, t, hrun, hle⟩
  unmoved more := by
    refine ⟨fun s a t hrun hs => ?_, fun s s' a t hR hrun ht => ?_⟩
    · rcases h s with ⟨a', t', hrun', -, herror, -⟩
      rw [hrun] at hrun'
      cases hrun'
      exact herror hs
    · rcases h s with ⟨a', t', hrun', -, -, hmore⟩
      rw [hrun] at hrun'
      cases hrun'
      rw [hR]
      exact ⟨_, hmore (Bool.eq_false_of_not_eq_true ht) more, rfl⟩

end Sound

/-! ## The functions of the protocol -/

variable (n : Nat)

theorem sound_hasError : Sound n hasError hasError :=
  .of_run fun s => ⟨s.error, s, rfl, descent.refl s, id, fun _ _ => rfl⟩

theorem sound_setError : Sound n setError setError :=
  .of_run fun s => ⟨(), { s with error := true }, rfl, descent.refl s, fun _ => rfl,
    nofun⟩

theorem sound_fail :
    Sound n (Reader.fail : Reader (List UInt8) (UInt32 × Option α)) Reader.fail :=
  (sound_setError n).bind fun _ => .pure _

/-- The plain list gives what is there. -/
theorem plain_readAll_of_le {len : Nat} {bs : List UInt8} (h : len ≤ bs.length) :
    plain.readAll len bs = (bs.take len, bs.drop len) := if_pos h

/-- The plain list gives nothing if there is too little. -/
theorem plain_readAll_of_lt {len : Nat} {bs : List UInt8} (h : bs.length < len) :
    plain.readAll len bs = ([], []) := if_neg (by omega)

theorem sound_readAll (len : Nat) : Sound n (readAll plain len) (readAll plain len) := by
  refine .of_run fun s => ?_
  rcases s with ⟨bs, k, b, e⟩
  -- an error before changes nothing
  cases e with
  | true => exact ⟨[], ⟨bs, k, b, true⟩, rfl, descent.refl _, id, nofun⟩
  | false =>
    -- too few bytes are an error; enough of them are cut off, and more behind them change nothing
    rcases Nat.lt_or_ge bs.length len with hlt | hge
    · refine ⟨[], ⟨[], k, b, true⟩, ?_, ⟨Nat.zero_le _, Nat.le_refl _⟩, nofun,
        nofun⟩
      simp [readAll, StateT.run, plain_readAll_of_lt hlt]
    · refine ⟨bs.take len, ⟨bs.drop len, k, b, (bs.take len).isEmpty⟩, ?_,
        ⟨by simp, Nat.le_refl _⟩, nofun, fun h more => ?_⟩
      · simp [readAll, StateT.run, plain_readAll_of_le hge]
      · have hmore : len ≤ (bs ++ more).length := by
          rw [List.length_append]
          omega
        simp only [readAll, StateT.run, In.extend, plain_readAll_of_le hmore,
          List.take_append_of_le_length hge, List.drop_append_of_le_length hge]
        rfl

/-- Reading bytes leaves less, whenever what was read tells that there were some. -/
theorem shrinks_readAll (len : Nat) (P : List UInt8 → Prop) (hP : ∀ bs, P bs → bs ≠ []) :
    Shrinks descent P (readAll plain len) := by
  rintro ⟨bs, k, b, e⟩ a t hrun ha
  cases e with
  | true =>
    cases hrun
    exact absurd rfl (hP _ ha)
  | false =>
    -- what is read is not empty, so bytes were taken
    rcases Nat.lt_or_ge bs.length len with hlt | hge
    · simp only [readAll, StateT.run, plain_readAll_of_lt hlt] at hrun
      cases hrun
      exact absurd rfl (hP _ ha)
    · simp only [readAll, StateT.run, plain_readAll_of_le hge] at hrun
      cases hrun
      have hne := List.length_pos_iff.mpr (hP _ ha)
      show (bs.drop len).length < bs.length
      rw [List.length_take] at hne
      rw [List.length_drop]
      omega

theorem sound_readByte : Sound n (readByte plain) (readByte plain) := by
  refine (sound_readAll n 1).bind fun b => ?_
  cases b <;> exact .pure _

/-- Reading one byte leaves less. -/
theorem shrinks_readByte :
    Shrinks descent (fun r : UInt32 × Option UInt8 => r.2 ≠ none) (readByte plain) := by
  intro s a t hrun ha
  rcases bind_some hrun with ⟨b, u, hread, hpure⟩
  cases b with
  | nil =>
    rcases pure_some hpure with ⟨rfl, -⟩
    exact absurd rfl ha
  | cons byte rest =>
    rcases pure_some hpure with ⟨-, rfl⟩
    exact shrinks_readAll 1 (fun bs => bs ≠ []) (fun _ h => h) s _ _ hread (by simp)

/-- The slow loop of a varint is sound: induction on the turns. -/
theorem sound_slowVarint (turns rsize : Nat) (val : UInt64) :
    Sound n (slowVarint plain turns rsize val) (slowVarint plain turns rsize val) := by
  induction turns generalizing rsize val with
  | zero => exact sound_fail n
  | succ turns ih =>
    refine (sound_readAll n 1).bind fun b => ?_
    cases b with
    | nil => exact .pure _
    | cons byte _ => exact .ite (.pure _) (.ite (sound_fail n) (ih _ _))

/-- Nothing can be borrowed from the plain bytes. -/
theorem readVarint64_plain_slow : readVarint64 plain = (do
    let e ← hasError
    if e then pure (0, none) else slowVarint plain varintSize 0 0) := rfl

theorem sound_readVarint64 : Sound n (readVarint64 plain) (readVarint64 plain) := by
  rw [readVarint64_plain_slow]
  exact (sound_hasError n).bind fun e => .ite (.pure _) (sound_slowVarint n _ _ _)

theorem sound_readAs {p q : Reader (List UInt8) (UInt32 × Option α)} {n : Nat} (h : Sound n p q)
    (f : α → γ) : Sound n (readAs f p) (readAs f q) :=
  h.bind fun _ => .pure _

theorem sound_readVarint32 : Sound n (readVarint32 plain) (readVarint32 plain) :=
  sound_readAs (sound_readVarint64 n) _

theorem sound_readI16 : Sound n (readI16 plain) (readI16 plain) :=
  sound_readAs (sound_readVarint32 n) _

theorem sound_readI32 : Sound n (readI32 plain) (readI32 plain) :=
  sound_readAs (sound_readVarint32 n) _

theorem sound_readI64 : Sound n (readI64 plain) (readI64 plain) :=
  sound_readAs (sound_readVarint64 n) _

theorem sound_readDouble : Sound n (readDouble plain) (readDouble plain) := by
  refine (sound_readAll n 8).bind fun b => ?_
  cases b <;> exact .pure _

theorem sound_readBinary : Sound n (readBinary plain) (readBinary plain) := by
  refine (sound_readVarint32 n).bind fun r => ?_
  rcases r with ⟨m, _ | size⟩
  · exact .pure _
  · refine .ite (.pure _) (.ite (sound_fail n) ((sound_readAll n _).bind fun b => ?_))
    cases b <;> exact .pure _

theorem sound_readBool : Sound n (readBool plain) (readBool plain) := by
  have hbyte := sound_readAs (sound_readByte n) fun val => decide (val = 0x01)
  refine ⟨fun s hs => ?_, fun more => ⟨fun s a t hrun hs => ?_, fun s s' a t hR hrun ht => ?_⟩⟩
  · rcases s with ⟨bs, k, _ | v, e⟩
    · exact hbyte.total _ hs
    · exact ⟨_, _, rfl, descent.refl _⟩
  · rcases s with ⟨bs, k, _ | v, e⟩
    · exact (hbyte.unmoved more).stays_bad _ _ _ hrun hs
    · cases hrun
      exact hs
  · rcases s with ⟨bs, k, _ | v, e⟩
    · cases hR
      exact (hbyte.unmoved more).follows _ _ _ _ rfl hrun ht
    · cases hR
      cases hrun
      exact ⟨_, rfl, rfl⟩

theorem sound_readFieldId (byte : UInt8) :
    Sound n (readFieldId plain byte) (readFieldId plain byte) :=
  .ite (sound_readI16 n) (.of_run fun s => ⟨_, s, rfl, descent.refl s, id, fun _ _ => rfl⟩)

theorem sound_enterField (type : UInt8) (fieldId : Int16) :
    Sound n (enterField type fieldId) (enterField type fieldId) :=
  .of_run fun _ => ⟨(), _, rfl, ⟨Nat.le_refl _, Nat.le_refl _⟩, id, fun _ _ => rfl⟩

/-- A program that goes on after it has made the state smaller. -/
theorem advances_bind {P : α → Prop} {Q : β → Prop} {p : Reader (List UInt8) α}
    {f : α → Reader (List UInt8) β} (h : ∀ n, Sound n p p) (hp : Shrinks descent P p)
    (hf : ∀ n a, Sound n (f a) (f a)) (hQ : ∀ a s b t, (f a).run s = some (b, t) → Q b → P a) :
    (∀ n, Sound n (p >>= f) (p >>= f)) ∧ Shrinks descent Q (p >>= f) := by
  refine ⟨fun n => (h n).bind (hf n), fun s b u hrun hb => ?_⟩
  rcases bind_some hrun with ⟨a, t, hpa, hfa⟩
  have hlt := hp s a t hpa (hQ a t b u hfa hb)
  rcases (hf _ a).total t (Nat.lt_succ_self _) with ⟨b', u', hfa', hle⟩
  rw [hfa] at hfa'
  cases hfa'
  exact Nat.lt_of_le_of_lt hle.1 hlt

/-- The header of a field is sound, and leaves less unless it is the stop. -/
theorem advances_readFieldBegin :
    (∀ n, Sound n (readFieldBegin plain) (readFieldBegin plain)) ∧
      Shrinks descent (fun r : UInt32 × TType × Int16 => r.2.1 ≠ .stop) (readFieldBegin plain) := by
  refine advances_bind sound_readByte shrinks_readByte (fun n byte => ?_) fun byte _ r _ hrun hr => ?_
  · rcases byte with ⟨m, _ | b⟩
    · exact .pure _
    · refine .ite (.pure _) ((sound_readFieldId n b).bind fun id => ?_)
      rcases id with ⟨m, _ | fieldId⟩
      · exact .pure _
      · dsimp only
        cases getTType (b &&& 0x0f) with
        | none => exact (sound_setError n).bind fun _ => .pure _
        | some fieldType => exact (sound_enterField n _ _).bind fun _ => .pure _
  · rcases byte with ⟨m, _ | b⟩
    · rcases pure_some hrun with ⟨rfl, -⟩
      exact absurd rfl hr
    · simp

theorem sound_readMapTypes (size : UInt32) :
    Sound n (readMapTypes plain size) (readMapTypes plain size) :=
  .ite (.pure _) (sound_readByte n)

/-- What comes back from an integer that could be read. -/
theorem shrinks_readVarint32 :
    Shrinks descent (fun r : UInt32 × Option UInt32 => r.2 ≠ none) (readVarint32 plain) := by
  rintro ⟨bs, k, b, e⟩ r t hrun hr
  rcases bind_some hrun with ⟨r', u, hread, hpure⟩
  rcases pure_some hpure with ⟨rfl, rfl⟩
  cases e with
  | true =>
    cases hread
    exact absurd rfl hr
  | false =>
    -- the varint is cut off the input, and has at least one byte
    cases hcut : Varint.cut varintSize bs with
    | none =>
      rcases readVarint64_plain_none (k := k) (b := b) hcut with ⟨left, hleft⟩
      rw [hleft] at hread
      cases hread
      exact absurd rfl hr
    | some x =>
      rcases x with ⟨w, rest⟩
      rcases Varint.cut_some hcut with ⟨hw, hgroup, -⟩
      have hpos := hgroup.length_pos
      rw [readVarint64_plain hcut] at hread
      cases hread
      show rest.length < bs.length
      rw [hw, List.length_append]
      omega

/-- The header of a map is sound, and leaves less unless it fails. -/
theorem advances_readMapBegin :
    (∀ n, Sound n (readMapBegin plain) (readMapBegin plain)) ∧
      Shrinks descent (fun r : UInt32 × Option (TType × TType × UInt32) => r.2 ≠ none)
        (readMapBegin plain) := by
  refine advances_bind sound_readVarint32 shrinks_readVarint32 (fun n msize => ?_)
    fun msize _ r _ hrun hr => ?_
  -- the count is not there, or the type byte behind it is read, and may hold an unknown type
  · rcases msize with ⟨m, _ | size⟩
    · exact .pure _
    · refine (sound_readMapTypes n size).bind fun kv => ?_
      rcases kv with ⟨m, _ | kvType⟩
      · exact .pure _
      · refine .ite (sound_fail n) ?_
        cases getTType (kvType >>> 4) with
        | none => exact sound_fail n
        | some keyType =>
          cases getTType (kvType &&& 0xf) with
          | none => exact sound_fail n
          | some valType => exact .pure _
  · rcases msize with ⟨m, _ | size⟩
    · rcases pure_some hrun with ⟨rfl, -⟩
      exact absurd rfl hr
    · simp

theorem sound_readListSize (byte : UInt8) :
    Sound n (readListSize plain byte) (readListSize plain byte) :=
  .ite (sound_readVarint32 n) (.pure _)

/-- The header of a list is sound, and leaves less unless it fails. -/
theorem advances_readListBegin :
    (∀ n, Sound n (readListBegin plain) (readListBegin plain)) ∧
      Shrinks descent (fun r : UInt32 × Option (TType × UInt32) => r.2 ≠ none)
        (readListBegin plain) := by
  refine advances_bind sound_readByte shrinks_readByte (fun n size_and_type => ?_)
    fun size_and_type _ r _ hrun hr => ?_
  · rcases size_and_type with ⟨m, _ | b⟩
    · exact .pure _
    -- the same for one byte with a short count, or a count of its own
    · refine (sound_readListSize n b).bind fun lsize => ?_
      rcases lsize with ⟨m, _ | size⟩
      · exact .pure _
      · refine .ite (sound_fail n) ?_
        cases getTType (b &&& 0x0f) with
        | none => exact sound_fail n
        | some elemType => exact .pure _
  · rcases size_and_type with ⟨m, _ | b⟩
    · rcases pure_some hrun with ⟨rfl, -⟩
      exact absurd rfl hr
    · simp

/-! ## Structs

  `readStructEnd` pops what `readStructBegin` has pushed, as long as nothing in between pops more. -/

/-- From a state with something on the stack it returns, and has popped no more than that. -/
def Closes (p : Reader (List UInt8) α) : Prop :=
  ∀ s, s.track.lastField ≠ [] → ∃ a t, p.run s = some (a, t) ∧ t.trans.length ≤ s.trans.length ∧
    s.track.lastField.length ≤ t.track.lastField.length + 1

/-- The end of a struct closes. -/
theorem closes_readStructEnd (a : α) : Closes (do readStructEnd; pure a) := by
  rintro ⟨bs, ⟨_ | ⟨last, lastField⟩, id⟩, b, e⟩ hs
  · exact absurd rfl hs
  · exact ⟨a, ⟨bs, ⟨lastField, last⟩, b, e⟩, rfl, Nat.le_refl _, Nat.le_refl _⟩

theorem unmoved_readStructBegin (more : List UInt8) : Unmoved more readStructBegin readStructBegin where
  stays_bad s a t hrun hs := by
    cases hrun
    exact hs
  follows s s' a t hR hrun _ := by
    cases hR
    cases hrun
    exact ⟨_, rfl, rfl⟩

theorem unmoved_readStructEnd (more : List UInt8) : Unmoved more readStructEnd readStructEnd where
  stays_bad s a t hrun hs := by
    rcases s with ⟨bs, ⟨_ | ⟨last, lastField⟩, id⟩, b, e⟩
    · cases hrun
    · cases hrun
      exact hs
  follows s s' a t hR hrun _ := by
    rcases s with ⟨bs, ⟨_ | ⟨last, lastField⟩, id⟩, b, e⟩
    · cases hrun
    · cases hR
      cases hrun
      exact ⟨_, rfl, rfl⟩

/-- What lies between the begin and the end of a struct makes it sound. -/
theorem sound_struct {n : Nat} {p q : Reader (List UInt8) α} {f g : α → Reader (List UInt8) β}
    (h : Sound n p q) (hf : ∀ a, Closes (f a)) (hfg : ∀ more a, Unmoved more (f a) (g a)) :
    Sound n (readStructBegin >>= fun _ => p >>= f) (readStructBegin >>= fun _ => q >>= g) where
  total := by
    rintro ⟨bs, k, b, e⟩ hs
    rcases h.total ⟨bs, ⟨k.lastFieldId :: k.lastField, 0⟩, b, e⟩ hs with ⟨a, t, hp, hle, hstack⟩
    have hopen : k.lastField.length + 1 ≤ t.track.lastField.length := hstack
    rcases hf a t (List.ne_nil_of_length_pos (by omega)) with ⟨c, u, hfa, hle', hstack'⟩
    refine ⟨c, u, ?_, Nat.le_trans hle' hle, ?_⟩
    · show ((p >>= f).run _) = _
      rw [run_bind, hp]
      exact hfa
    · show k.lastField.length ≤ u.track.lastField.length
      omega
  unmoved more := (unmoved_readStructBegin more).bind fun _ => (h.unmoved more).bind (hfg more)

/-! ## Skipping -/

/-- Counting keeps a program sound. -/
theorem sound_count {n : Nat} {p q : Reader (List UInt8) (UInt32 × Option α)} (h : Sound n p q) :
    Sound n (count p) (count q) :=
  h.bind fun _ => .pure _

theorem sound_orZero {n : Nat} {p q : Reader (List UInt8) UInt32} (h : Sound n p q) :
    Sound n (orZero p) (orZero q) :=
  h.bind fun _ => (sound_hasError n).bind fun _ => .pure _

/-- A turn for each field, which has at least its header. -/
theorem sound_skipFields {item : TType → Reader (List UInt8) UInt32} {n m : Nat}
    (h : ∀ type, Sound n (item type) (item type)) (hm : m ≤ n + 1) (result : UInt32) :
    Sound m (skipFields plain item m result) (skipFields plain item m result) := by
  induction m generalizing result with
  | zero => exact ⟨fun s hs => absurd hs (Nat.not_lt_zero _), fun _ => .failure _⟩
  | succ m ih =>
    refine (sound_hasError _).bind fun e => .ite (.pure _) ?_
    refine (advances_readFieldBegin.1 _).bind_shrinks advances_readFieldBegin.2 (fun field _ => ?_)
      fun field hfield => ?_
    · refine (sound_hasError _).bind fun e => .ite (.pure _) (.ite (.pure _) ?_)
      refine ((h field.2.1).mono (by omega)).bind fun k => ?_
      exact (sound_hasError _).bind fun e => .ite (.pure _) (ih (by omega) _)
    · refine (sound_hasError _).bind fun e => .ite (.pure _) ?_
      rw [if_pos (not_not.mp hfield)]
      exact .pure _

/-- Skipping items is sound, if skipping one is. -/
theorem sound_skipItems {item item' : Reader (List UInt8) UInt32} {n : Nat} (h : Sound n item item')
    (k : Nat) (result : UInt32) : Sound n (skipItems item k result) (skipItems item' k result) := by
  induction k generalizing result with
  | zero => exact .pure _
  | succ k ih => exact (sound_hasError n).bind fun e => .ite (.pure _) (h.bind fun _ => ih _)

/-- Skipping a pair is sound, if skipping its halves is. -/
theorem sound_skipPair {key val key' val' : Reader (List UInt8) UInt32} {n : Nat}
    (hkey : Sound n key key') (hval : Sound n val val') :
    Sound n (skipPair key val) (skipPair key' val') :=
  hkey.bind fun _ => (sound_hasError n).bind fun _ => .ite (.pure _) (hval.bind fun _ => .pure _)

/-- The depth that the bytes allow is enough. -/
theorem sound_skip (n : Nat) (type : TType) :
    Sound n (skip plain n type) (skip plain n type) := by
  -- induction on the fuel, and a case for each type
  induction n generalizing type with
  | zero => exact ⟨fun s hs => absurd hs (Nat.not_lt_zero _), fun _ => .failure _⟩
  | succ n ih =>
    -- lists and sets are read in the same way
    have hlist : Sound (n + 1) (skip plain (n + 1) .list) (skip plain (n + 1) .list) := by
      refine (advances_readListBegin.1 _).bind_shrinks advances_readListBegin.2 (fun r _ => ?_)
        fun r hr => ?_
      · rcases r with ⟨m, _ | ⟨elemType, size⟩⟩
        · exact .pure _
        · exact sound_orZero (sound_skipItems (ih elemType) _ _)
      · rcases r with ⟨m, _ | r⟩
        · exact .pure _
        · exact absurd (by simp) hr
    cases type with
    | stop => exact .pure _
    | bool => exact sound_count (sound_readBool _)
    | byte => exact sound_count (sound_readByte _)
    | double => exact sound_count (sound_readDouble _)
    | i16 => exact sound_count (sound_readI16 _)
    | i32 => exact sound_count (sound_readI32 _)
    | i64 => exact sound_count (sound_readI64 _)
    | string => exact sound_count (sound_readBinary _)
    | struct =>
      -- a struct ends in any state, since `readStructEnd` only gives the field id back
      refine sound_struct (sound_skipFields ih (Nat.le_refl _) 0) (fun k => ?_) fun more k => ?_
      · rintro ⟨bs, k', b, e⟩ hs
        cases e with
        | true => exact ⟨0, ⟨bs, k', b, true⟩, rfl, Nat.le_refl _, Nat.le_succ _⟩
        | false => exact closes_readStructEnd k _ hs
      · refine ((sound_hasError 0).unmoved more).bind fun e => .ite (.pure _) ?_
        exact (unmoved_readStructEnd more).bind fun _ => .pure _
    | map =>
      refine (advances_readMapBegin.1 _).bind_shrinks advances_readMapBegin.2 (fun r _ => ?_)
        fun r hr => ?_
      · rcases r with ⟨m, _ | ⟨keyType, valType, size⟩⟩
        · exact .pure _
        · exact sound_orZero (sound_skipItems (sound_skipPair (ih keyType) (ih valType)) _ _)
      · rcases r with ⟨m, _ | r⟩
        · exact .pure _
        · exact absurd (by simp) hr
    | set => exact hlist
    | list => exact hlist

end Thrift

end Turnserver
