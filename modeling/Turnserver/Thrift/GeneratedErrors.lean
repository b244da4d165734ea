/-
  GENERATED `read` ON ANY TRANSPORT AND ON ANY BYTES — broken, cut off, or from somebody else.

  * `simulates_read`: on every transport a generated `read` does what it does on the plain bytes;
  * `sound_read`: it returns whatever the bytes are, and a message that could be read is read in the
    same way with more behind it.  The size that `readListBegin` has not set (`junk`) shows only where
    there is an error.
-/
import Turnserver.Thrift.GeneratedWrites

namespace Turnserver

namespace Thrift

open Simulation Reader

variable {τ α β : Type}

/-! ## Any transport -/

section Transports

variable (T : Transport τ)

theorem simulates_readInto {p : Reader τ (UInt32 × Option α)}
    {q : Reader (List UInt8) (UInt32 × Option α)} (h : Simulates (Agrees T) p q) (v : α) :
    Simulates (Agrees T) (readInto v p) (readInto v q) :=
  h.bind fun _ => .pure _

theorem simulates_skipped (fuel : Nat) (type : TType) (v : α) :
    Simulates (Agrees T) (skipped T fuel type v) (skipped plain fuel type v) :=
  (simulates_skip T fuel type).bind fun _ => .pure _

/-- The loop over the fields is simulated: induction on the turns. -/
theorem simulates_readLoop {member : Int16 → TType → α → Reader τ (UInt32 × α)}
    {member' : Int16 → TType → α → Reader (List UInt8) (UInt32 × α)}
    (h : ∀ id type v, Simulates (Agrees T) (member id type v) (member' id type v)) (turns : Nat)
    (xfer : UInt32) (v : α) :
    Simulates (Agrees T) (readLoop T member turns xfer v) (readLoop plain member' turns xfer v) := by
  induction turns generalizing xfer v with
  | zero => exact simulates_stop T
  | succ turns ih =>
    refine (simulates_readFieldBegin T).bind fun field => .ite (.pure _) ?_
    exact (h _ _ _).bind fun r => ih _ _

/-- Reading items is simulated: induction on their number. -/
theorem simulates_readItems {item : Reader τ (UInt32 × α)} {item' : Reader (List UInt8) (UInt32 × α)}
    (h : Simulates (Agrees T) item item') (n : Nat) (xfer : UInt32) :
    Simulates (Agrees T) (readItems item n xfer) (readItems item' n xfer) := by
  induction n generalizing xfer with
  | zero => exact .pure _
  | succ n ih => exact h.bind fun r => (ih _).bind fun rs => .pure _

/-- Reading a struct is simulated, if its fields are. -/
theorem simulates_readStruct {p : Reader τ (UInt32 × α)} {q : Reader (List UInt8) (UInt32 × α)}
    (h : Simulates (Agrees T) p q) : Simulates (Agrees T) (readStruct p) (readStruct q) :=
  (simulates_readStructBegin T).bind fun _ => h.bind fun _ =>
    (simulates_readStructEnd T).bind fun _ => .pure _

/-- `resize` asks for the same memory on every transport. -/
theorem simulates_resize (memory : Ty × UInt32 → Bool) (elem : Ty) (size : UInt32) :
    Simulates (Agrees T) (resize memory elem size) (resize memory elem size) :=
  .ite (.pure _) (simulates_stop T)

mutual

/-- Reading is simulated, with any memory: by recursion on the type. -/
theorem Ty.simulates_readWith (memory : Ty × UInt32 → Bool) (junk : UInt32) (fuel : Nat) : (ty : Ty) →
    (v : ty.Val) →
    Simulates (Agrees T) (ty.readWith T memory junk fuel v) (ty.readWith plain memory junk fuel v)
  | .bool, v => simulates_readInto T (simulates_readBool T) v
  | .i16, v => simulates_readInto T (simulates_readI16 T) v
  | .i32, v => simulates_readInto T (simulates_readI32 T) v
  | .i64, v => simulates_readInto T (simulates_readI64 T) v
  | .string, v => simulates_readInto T (simulates_readBinary T) v
  | .struct fields, v => simulates_readStruct T
      (simulates_readLoop T
        (fun id type v => fields.simulates_readMemberWith memory junk fuel id type v) _ _ v)
  | .list elem, _ => (simulates_readListBegin T).bind fun _ =>
      (simulates_resize T memory elem _).bind fun _ =>
        simulates_readItems T (elem.simulates_readWith memory junk fuel elem.default) _ _

/-- Reading a member is simulated, with any memory. -/
theorem Fields.simulates_readMemberWith (memory : Ty × UInt32 → Bool) (junk : UInt32) (fuel : Nat) :
    (fields : Fields) → (id : Int16) → (type : TType) → (v : fields.Val) →
    Simulates (Agrees T) (fields.readMemberWith T memory junk fuel id type v)
      (fields.readMemberWith plain memory junk fuel id type v)
  | .stop, _, type, v => simulates_skipped T fuel type v
  | .field _ _ ty _ _ rest, id, type, v =>
    .ite (.ite ((ty.simulates_readWith memory junk fuel v.1.val).bind fun _ => .pure _)
      (simulates_skipped T fuel type v))
      ((rest.simulates_readMemberWith memory junk fuel id type v.2).bind fun _ => .pure _)

end

/-- Reading is simulated, where memory never runs out. -/
theorem Ty.simulates_read (junk : UInt32) (fuel : Nat) (ty : Ty) (v : ty.Val) :
    Simulates (Agrees T) (ty.read T junk fuel v) (ty.read plain junk fuel v) :=
  ty.simulates_readWith T always junk fuel v

/-! ## Any memory -/

variable {δ : Type}

theorem asks_readLoop {member : (δ → Bool) → Int16 → TType → α → Reader τ (UInt32 × α)}
    (h : ∀ id type v, Asks fun memory => member memory id type v) (turns : Nat) (xfer : UInt32)
    (v : α) : Asks fun memory => readLoop T (member memory) turns xfer v := by
  induction turns generalizing xfer v with
  | zero => exact .const _
  | succ turns ih =>
    refine Asks.bind (.const (readFieldBegin T)) fun field => .ite (.const _) ?_
    exact (h field.2.2 field.2.1 v).bind fun r => ih _ _

theorem asks_readItems {item : (δ → Bool) → Reader τ (UInt32 × α)} (h : Asks item) (n : Nat)
    (xfer : UInt32) : Asks fun memory => readItems (item memory) n xfer := by
  induction n generalizing xfer with
  | zero => exact .const _
  | succ n ih => exact h.bind fun r => (ih _).bind fun rs => .const _

theorem asks_readStruct {fields : (δ → Bool) → Reader τ (UInt32 × α)} (h : Asks fields) :
    Asks fun memory => readStruct (fields memory) :=
  Asks.bind (.const readStructBegin) fun _ => h.bind fun _ => .const _

mutual

/-- The vectors that are resized: which they are is up to the bytes, not to the memory. -/
theorem Ty.asks_readWith (junk : UInt32) (fuel : Nat) : (ty : Ty) → (v : ty.Val) →
    Asks fun memory => ty.readWith T memory junk fuel v
  | .bool, _ => .const _
  | .i16, _ => .const _
  | .i32, _ => .const _
  | .i64, _ => .const _
  | .string, _ => .const _
  | .struct fields, v => asks_readStruct (asks_readLoop T
      (fun id type v => fields.asks_readMemberWith junk fuel id type v) fuel 0 v)
  | .list elem, _ => Asks.bind (.const (readListBegin T)) fun _ => (Asks.one (elem, _) (pure ())).bind
      fun _ => asks_readItems (elem.asks_readWith junk fuel elem.default) _ _

/-- Reading a member asks for memory only through `resize`. -/
theorem Fields.asks_readMemberWith (junk : UInt32) (fuel : Nat) : (fields : Fields) → (id : Int16) →
    (type : TType) → (v : fields.Val) →
    Asks fun memory => fields.readMemberWith T memory junk fuel id type v
  | .stop, _, _, _ => .const _
  | .field _ _ ty _ _ rest, id, type, v =>
    .ite (.ite ((ty.asks_readWith junk fuel v.1.val).bind fun _ => .const _) (.const _))
      ((rest.asks_readMemberWith junk fuel id type v.2).bind fun _ => .const _)

end

end Transports

/-! ## Any bytes -/

/-- Nothing is returned only with an error. -/
def FailsLoudly (p : Reader (List UInt8) (UInt32 × Option α)) : Prop :=
  ∀ s r t, p.run s = some (r, t) → t.error = false → r.2 ≠ none

/-- One program after the other, where the second is sound behind a success of the first. -/
theorem Sound.bind_of {n : Nat} {ok : α → Prop} {p q : Reader (List UInt8) α}
    {f g : α → Reader (List UInt8) β} (h : Sound n p q)
    (hok : ∀ s a t, p.run s = some (a, t) → t.error = false → ok a)
    (hself : ∀ a, Sound n (f a) (f a)) (hf : ∀ a, ok a → Sound n (f a) (g a)) :
    Sound n (p >>= f) (q >>= g) where
  total := h.total.bind fun a => (hself a).total
  unmoved more := (h.unmoved more).bind_of
    (fun s a t hrun ht => hok s a t hrun (Bool.eq_false_of_not_eq_true ht))
    (fun a s b t hrun hs => ((hself a).unmoved more).stays_bad s b t hrun hs)
    fun a ha => (hf a ha).unmoved more

/-- A result is no failure. -/
theorem failsLoudly_pure (n : UInt32) (a : α) : FailsLoudly (pure (n, some a)) := by
  intro s r t hrun _
  rcases pure_some hrun with ⟨rfl, -⟩
  simp

/-- Failing raises an error. -/
theorem failsLoudly_fail : FailsLoudly (Reader.fail : Reader (List UInt8) (UInt32 × Option α)) := by
  intro s r t hrun ht
  cases hrun
  cases ht

theorem FailsLoudly.bind {p : Reader (List UInt8) (UInt32 × Option α)}
    {f : UInt32 × Option α → Reader (List UInt8) (UInt32 × Option β)} (h : FailsLoudly p)
    (hnone : ∀ n, f (n, none) = pure (0, none)) (hf : ∀ n a, FailsLoudly (f (n, some a))) :
    FailsLoudly (p >>= f) := by
  intro s r u hrun hu
  rcases bind_some hrun with ⟨⟨n, a⟩, t, hp, hfa⟩
  cases a with
  | some a => exact hf n a t r u hfa hu
  | none =>
    rw [hnone] at hfa
    rcases pure_some hfa with ⟨-, rfl⟩
    exact absurd rfl (h s (n, none) t hp hu)

/-- Whoever gets no bytes has raised an error. -/
theorem error_of_readAll {len : Nat} {s t : Input} (h : (readAll plain len).run s = some ([], t)) :
    t.error = true := by
  rw [StateT.run, readAll] at h
  split at h
  · cases h
    assumption
  · rcases Prod.mk.inj (Option.some.inj h) with ⟨hread, ht⟩
    rw [← ht]
    show (plain.readAll len s.trans).1.isEmpty = true
    rw [hread]
    rfl

theorem failsLoudly_readByte : FailsLoudly (readByte plain) := by
  intro s r t hrun ht
  rcases bind_some hrun with ⟨w, u, hread, hpure⟩
  cases w with
  | cons byte w =>
    rcases pure_some hpure with ⟨rfl, -⟩
    simp
  | nil =>
    rcases pure_some hpure with ⟨-, rfl⟩
    rw [error_of_readAll hread] at ht
    cases ht

theorem failsLoudly_readVarint32 : FailsLoudly (readVarint32 plain) := by
  rintro ⟨bs, k, b, e⟩ r t hrun ht
  rcases bind_some hrun with ⟨r', u, hread, hpure⟩
  rcases pure_some hpure with ⟨rfl, rfl⟩
  cases e with
  | true =>
    cases hread
    cases ht
  | false =>
    -- the number has an end within ten bytes, or the read fails and says so
    cases hcut : Varint.cut varintSize bs with
    | none =>
      rcases readVarint64_plain_none (k := k) (b := b) hcut with ⟨left, hleft⟩
      rw [hleft] at hread
      cases hread
      cases ht
    | some x =>
      rw [readVarint64_plain hcut] at hread
      cases hread
      simp

theorem failsLoudly_readListBegin : FailsLoudly (readListBegin plain) := by
  refine failsLoudly_readByte.bind (fun _ => rfl) fun n byte => ?_
  have hsize : FailsLoudly (readListSize plain byte) := by
    rw [readListSize]
    split
    · exact failsLoudly_readVarint32
    · exact failsLoudly_pure _ _
  refine hsize.bind (fun _ => rfl) fun m size => ?_
  dsimp only
  split
  · exact failsLoudly_fail
  · cases getTType (byte &&& 0x0f) with
    | none => exact failsLoudly_fail
    | some elemType => exact failsLoudly_pure _ _

theorem sound_readInto {p q : Reader (List UInt8) (UInt32 × Option α)} {n : Nat} (h : Sound n p q)
    (v : α) : Sound n (readInto v p) (readInto v q) :=
  h.bind fun _ => .pure _

theorem sound_skipped (n : Nat) (type : TType) (v : α) :
    Sound n (skipped plain n type v) (skipped plain n type v) :=
  (sound_skip n type).bind fun _ => .pure _

/-- The loop over the fields is sound, if its members are and the turns suffice. -/
theorem sound_readLoop {member member' : Int16 → TType → α → Reader (List UInt8) (UInt32 × α)}
    {n turns : Nat} (h : ∀ id type v, Sound n (member id type v) (member' id type v))
    (hturns : turns ≤ n + 1) (xfer : UInt32) (v : α) :
    Sound turns (readLoop plain member turns xfer v) (readLoop plain member' turns xfer v) := by
  induction turns generalizing xfer v with
  | zero => exact ⟨fun s hs => absurd hs (Nat.not_lt_zero _), fun _ => .failure _⟩
  | succ turns ih =>
    refine (advances_readFieldBegin.1 _).bind_shrinks advances_readFieldBegin.2 (fun field _ => ?_)
      fun field hfield => ?_
    · refine .ite (.pure _) (((h field.2.2 field.2.1 v).mono (by omega)).bind fun r => ?_)
      exact ih (by omega) _ _
    · rw [if_pos (not_not.mp hfield), if_pos (not_not.mp hfield)]
      exact .pure _

/-- Reading items is sound: induction on their number. -/
theorem sound_readItems {item item' : Reader (List UInt8) (UInt32 × α)} {n : Nat}
    (h : Sound n item item') (k : Nat) (xfer : UInt32) :
    Sound n (readItems item k xfer) (readItems item' k xfer) := by
  induction k generalizing xfer with
  | zero => exact .pure _
  | succ k ih => exact h.bind fun r => (ih _).bind fun rs => .pure _

/-- Reading a struct is sound, if its fields are. -/
theorem sound_readStruct {p q : Reader (List UInt8) (UInt32 × α)} {n : Nat} (h : Sound n p q) :
    Sound n (readStruct p) (readStruct q) :=
  sound_struct h closes_readStructEnd fun more _ =>
    (unmoved_readStructEnd more).bind fun _ => .pure _

mutual

/-- Two readers that differ in what they find in a size that was not set. -/
theorem Ty.sound_read (junk junk' : UInt32) (n : Nat) : (ty : Ty) → (v : ty.Val) →
    Sound n (ty.read plain junk n v) (ty.read plain junk' n v)
  | .bool, v => sound_readInto (sound_readBool n) v
  | .i16, v => sound_readInto (sound_readI16 n) v
  | .i32, v => sound_readInto (sound_readI32 n) v
  | .i64, v => sound_readInto (sound_readI64 n) v
  | .string, v => sound_readInto (sound_readBinary n) v
  | .struct fields, v => sound_readStruct
      (sound_readLoop (fun id type v => fields.sound_readMember junk junk' n id type v)
        (Nat.le_succ n) _ v)
  | .list elem, v => by
    rw [Ty.read_list, Ty.read_list]
    refine (advances_readListBegin.1 n).bind_of failsLoudly_readListBegin (fun h => ?_)
      fun h hh => ?_
    · exact sound_readItems (elem.sound_read junk junk n elem.default) _ _
    · rcases h with ⟨k, _ | r⟩
      · exact absurd rfl hh
      · exact sound_readItems (elem.sound_read junk junk' n elem.default) _ _

theorem Fields.sound_readMember (junk junk' : UInt32) (n : Nat) : (fields : Fields) → (id : Int16) →
    (type : TType) → (v : fields.Val) →
    Sound n (fields.readMember plain junk n id type v) (fields.readMember plain junk' n id type v)
  | .stop, _, type, v => sound_skipped n type v
  | .field _ _ ty _ _ rest, id, type, v =>
    .ite (.ite ((ty.sound_read junk junk' n v.1.val).bind fun _ => .pure _)
      (sound_skipped n type v))
      ((rest.sound_readMember junk junk' n id type v.2).bind fun _ => .pure _)

end

end Thrift

end Turnserver
