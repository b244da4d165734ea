/-
  MESSAGES — a generated struct as a whole, written to a transport and read from one.

  For any generated struct, and any transport:
  * `write_appends`: writing puts the bytes of the object behind what is there, and returns how many;
  * `read_value`, `read_known`: reading takes exactly one value, whoever has sent it; fields that the
    reader does not know, anywhere in it, make no difference;
  * `messages_in_order`: what was written comes back, object by object;
  * `read_cut_off`: a message that is not complete is an error;
  * `read_any`: on any bytes reading returns, unless there is no memory for a vector that they
    announce; if there is no error then it depends on nothing but the bytes that it has read.
-/
import Turnserver.Thrift.RoundTrip

namespace Turnserver

namespace Thrift

open Simulation

variable {τ : Type} {T : Transport τ} {ty : Ty} {fuel : Nat} (junk : UInt32)

/-! ## Writing -/

/-- **Writing** appends the bytes of the object. -/
theorem write_appends {v : ty.Val} {t : τ} (hfits : ty.fits v) (hdepth : ty.depth ≤ recursionLimit)
    (haccepts : T.Accepts (ty.value v).wire.length t) :
    ∃ o, (ty.write T v).run (.new t) = some (.ofNat (ty.value v).wire.length, o) ∧
      T.pending o.trans = T.pending t ++ (ty.value v).wire ∧ o.error = false := by
  rcases ty.write_wire T v hfits ⟨⟨[], 0⟩, none, 0⟩ rfl (by rwa [Nat.zero_add]) t 0 haccepts
    with ⟨t', hrun, hpending, -⟩
  exact ⟨_, hrun, hpending, rfl⟩

/-! ## Reading -/

/-- What a new protocol object on the plain bytes does, one on any transport does. -/
theorem run_of_plain {α : Type} {p : Reader τ α} {q : Reader (List UInt8) α}
    (h : Simulates (Agrees T) p q) {t : τ} {a : α} {s' : Input}
    (hrun : q.run (.new (T.pending t)) = some (a, s')) :
    ∃ s, p.run (.new t) = some (a, s) ∧ s.error = s'.error ∧
      (s'.error = false → T.pending s.trans = s'.trans) := by
  have hrelated := h (.new t) (.new (T.pending t)) (agrees_of T fun _ => rfl)
  rw [hrun] at hrelated
  cases hp : p.run (.new t) with
  | none =>
    rw [hp] at hrelated
    exact hrelated.elim
  | some x =>
    rw [hp] at hrelated
    rcases x with ⟨a', s⟩
    rcases hrelated with ⟨rfl, hR⟩
    refine ⟨s, rfl, hR.error, fun h => hR.pending (by rwa [hR.error])⟩

/-- The same for a process that may run out of memory: both ask for the same vectors. -/
theorem gives_of_plain {junk : UInt32} {v : ty.Val} {t : τ} {asks : List (Ty × UInt32)}
    {r : UInt32 × ty.Val} {s' : Input}
    (h : Gives (fun memory => ty.readWith plain memory junk fuel v) (.new (T.pending t)) asks (r, s')) :
    ∃ s, Gives (fun memory => ty.readWith T memory junk fuel v) (.new t) asks (r, s) ∧
      s.error = s'.error ∧ (s'.error = false → T.pending s.trans = s'.trans) := by
  rcases h.simulated (fun memory => ty.simulates_readWith T memory junk fuel v)
    (ty.asks_readWith T junk fuel v) (agrees_of T fun _ => rfl) with ⟨s, hgives, hR⟩
  exact ⟨s, hgives, hR.error, fun hs => hR.pending (by rwa [hR.error])⟩

/-- **Reading** takes exactly one value. -/
theorem read_value {u : TValue} (hproper : u.Proper) (htype : u.ttype = ty.ttype) (hsuits : u.Suits ty)
    (hfuel : u.wire.length ≤ fuel) (v : ty.Val) {t : τ} {rest : List UInt8}
    (hpending : T.pending t = u.wire ++ rest) :
    ∃ s, (ty.read T junk fuel v).run (.new t) = some ((.ofNat u.wire.length, u.into ty v), s) ∧
      s.error = false ∧ T.pending s.trans = rest := by
  have hreads : Reads (ty.read plain junk fuel v) u.wire ⟨⟨[], 0⟩, none⟩
      (.ofNat u.wire.length, u.into ty v) ⟨⟨[], 0⟩, none⟩ :=
    u.read_wire hproper ty htype hsuits hfuel _ rfl v
  rcases run_of_plain (T := T) (t := t) (ty.simulates_read T junk fuel v)
    (by rw [hpending]; exact hreads rest) with ⟨s, hrun, herror, hleft⟩
  exact ⟨s, hrun, herror, hleft rfl⟩

/-! ### Fields that the reader does not know -/

mutual

/-- The value without the fields that nobody reads. -/
def TValue.known : TValue → Ty → TValue
  | .struct us, .struct fields => .struct (us.known fields)
  | .list type us, .list elem => .list type (us.known elem)
  | u, _ => u

/-- The fields that the struct knows. -/
def TFields.known : TFields → Fields → TFields
  | .stop, _ => .stop
  | .field id u rest, fields =>
    match fields.find id u.ttype with
    | some ty => .field id (u.known ty) (rest.known fields)
    | none => rest.known fields

/-- What is known of every item. -/
def TValues.known : TValues → Ty → TValues
  | .nil, _ => .nil
  | .cons u rest, elem => .cons (u.known elem) (rest.known elem)

end

/-- Nothing is stored in a member that is not there. -/
theorem Fields.update_of_find_none {id : Int16} {type : TType} {f : (ty : Ty) → ty.Val → ty.Val} :
    (fields : Fields) → fields.find id type = none → (v : fields.Val) → fields.update id type f v = v
  | .stop, _, _ => rfl
  | .field _ _ ty' _ read rest, h, v => by
    rw [Fields.find] at h
    rw [Fields.update]
    split at h
    · rename_i hid
      rw [if_pos hid]
      split at h
      · cases h
      · rename_i htype
        rw [if_neg htype]
    · rename_i hid
      rw [if_neg hid, rest.update_of_find_none h]

/-- Only what the update does to the member found matters. -/
theorem Fields.update_congr {id : Int16} {type : TType} {f g : (ty : Ty) → ty.Val → ty.Val} :
    (fields : Fields) → (∀ ty, fields.find id type = some ty → f ty = g ty) → (v : fields.Val) →
    fields.update id type f v = fields.update id type g v
  | .stop, _, _ => rfl
  | .field _ _ ty' _ read rest, h, v => by
    rw [Fields.update, Fields.update]
    split
    · rename_i hid
      split
      · rename_i htype
        rw [h ty' (by rw [Fields.find, if_pos hid, if_pos htype])]
      · rfl
    · rename_i hid
      rw [rest.update_congr (fun ty hfind => h ty (by rw [Fields.find, if_neg hid]; exact hfind))]

/-- What is known of a value has its type. -/
theorem TValue.ttype_known (u : TValue) (ty : Ty) : (u.known ty).ttype = u.ttype := by
  cases u <;> cases ty <;> rfl

/-- As many items are known as there are. -/
theorem TValues.length_known : (us : TValues) → (elem : Ty) → (us.known elem).length = us.length
  | .nil, _ => rfl
  | .cons _ rest, elem => congrArg (· + 1) (rest.length_known elem)

mutual

/-- Nobody misses them. -/
theorem TValue.into_known : (u : TValue) → (ty : Ty) → (v : ty.Val) →
    (u.known ty).into ty v = u.into ty v
  -- only structs hold fields that can be dropped, and only lists hold structs
  | .struct us, ty, v => by
    cases ty with
    | struct fields => exact us.into_known fields v
    | _ => rfl
  | .list _ us, ty, _ => by
    cases ty with
    | list elem => exact us.into_known elem
    | _ => rfl
  | .bool _, ty, _ => by cases ty <;> rfl
  | .byte _, ty, _ => by cases ty <;> rfl
  | .i16 _, ty, _ => by cases ty <;> rfl
  | .i32 _, ty, _ => by cases ty <;> rfl
  | .i64 _, ty, _ => by cases ty <;> rfl
  | .double _, ty, _ => by cases ty <;> rfl
  | .string _, ty, _ => by cases ty <;> rfl
  | .set _ _, ty, _ => by cases ty <;> rfl
  | .map _ _ _, ty, _ => by cases ty <;> rfl

/-- Storing the known fields stores all that is stored. -/
theorem TFields.into_known : (us : TFields) → (fields : Fields) → (v : fields.Val) →
    (us.known fields).into fields v = us.into fields v
  | .stop, _, _ => rfl
  | .field id u rest, fields, v => by
    rw [TFields.known, TFields.into]
    cases hfind : fields.find id u.ttype with
    | none => rw [fields.update_of_find_none hfind, rest.into_known fields]
    | some ty =>
      have hupdate : fields.update id u.ttype (u.known ty).into v =
          fields.update id u.ttype u.into v := by
        refine fields.update_congr (fun ty' hfind' => ?_) v
        rw [hfind] at hfind'
        cases hfind'
        exact funext fun v => u.into_known ty v
      rw [TFields.into, u.ttype_known, hupdate, rest.into_known fields]

/-- Storing what is known of the items stores them. -/
theorem TValues.into_known : (us : TValues) → (elem : Ty) → (us.known elem).into elem = us.into elem
  | .nil, _ => rfl
  | .cons u rest, elem => by
    rw [TValues.known, TValues.into, TValues.into, u.into_known elem, rest.into_known elem]

end

mutual

theorem TValue.proper_known : (u : TValue) → (ty : Ty) → u.Proper → (u.known ty).Proper
  | .struct us, ty, h => by
    cases ty with
    | struct fields => exact us.proper_known fields h
    | _ => exact h
  | .list type us, ty, h => by
    cases ty with
    | list elem => exact ⟨by rw [us.length_known]; exact h.1, us.proper_known elem h.2⟩
    | _ => exact h
  | .bool _, ty, h => by cases ty <;> exact h
  | .byte _, ty, h => by cases ty <;> exact h
  | .i16 _, ty, h => by cases ty <;> exact h
  | .i32 _, ty, h => by cases ty <;> exact h
  | .i64 _, ty, h => by cases ty <;> exact h
  | .double _, ty, h => by cases ty <;> exact h
  | .string _, ty, h => by cases ty <;> exact h
  | .set _ _, ty, h => by cases ty <;> exact h
  | .map _ _ _, ty, h => by cases ty <;> exact h

/-- The known fields of proper ones are proper. -/
theorem TFields.proper_known : (us : TFields) → (fields : Fields) → us.Proper →
    (us.known fields).Proper
  | .stop, _, _ => trivial
  | .field id u rest, fields, h => by
    rw [TFields.known]
    cases fields.find id u.ttype with
    | none => exact rest.proper_known fields h.2
    | some ty => exact ⟨u.proper_known ty h.1, rest.proper_known fields h.2⟩

theorem TValues.proper_known {type : TType} : (us : TValues) → (elem : Ty) → us.Proper type →
    (us.known elem).Proper type
  | .nil, _, _ => trivial
  | .cons u rest, elem, h =>
    ⟨(u.ttype_known elem).trans h.1, u.proper_known elem h.2.1, rest.proper_known elem h.2.2⟩

end

mutual

/-- What is known of a value that suits the type suits it. -/
theorem TValue.suits_known : (u : TValue) → (ty : Ty) → u.Suits ty → (u.known ty).Suits ty
  | .struct us, ty, h => by
    cases ty with
    | struct fields => exact us.suits_known fields h
    | _ => exact h
  | .list type us, ty, h => by
    cases ty with
    | list elem => exact ⟨h.1, us.suits_known elem h.2⟩
    | _ => exact h
  | .bool _, ty, h => by cases ty <;> exact h
  | .byte _, ty, h => by cases ty <;> exact h
  | .i16 _, ty, h => by cases ty <;> exact h
  | .i32 _, ty, h => by cases ty <;> exact h
  | .i64 _, ty, h => by cases ty <;> exact h
  | .double _, ty, h => by cases ty <;> exact h
  | .string _, ty, h => by cases ty <;> exact h
  | .set _ _, ty, h => by cases ty <;> exact h
  | .map _ _ _, ty, h => by cases ty <;> exact h

/-- The known fields suit their members. -/
theorem TFields.suits_known : (us : TFields) → (fields : Fields) → us.Suits fields →
    (us.known fields).Suits fields
  | .stop, _, _ => trivial
  | .field id u rest, fields, h => by
    rw [TFields.known]
    cases hfind : fields.find id u.ttype with
    | none => exact rest.suits_known fields h.2
    | some ty =>
      refine ⟨fun ty' hfind' => ?_, rest.suits_known fields h.2⟩
      rw [u.ttype_known, hfind] at hfind'
      cases hfind'
      exact u.suits_known ty (h.1 ty hfind)

/-- What is known of the items suits the element type. -/
theorem TValues.suits_known : (us : TValues) → (elem : Ty) → us.Suits elem →
    (us.known elem).Suits elem
  | .nil, _, _ => trivial
  | .cons u rest, elem, h => ⟨u.suits_known elem h.1, rest.suits_known elem h.2⟩

end

/-- **Fields that the reader does not know**, anywhere in a value, make no difference: with them and
    without them the same object is read, and in both cases exactly the value is consumed. -/
theorem read_known {u : TValue} (hproper : u.Proper) (htype : u.ttype = ty.ttype) (hsuits : u.Suits ty)
    (hfuel : u.wire.length ≤ fuel) (hfuel' : (u.known ty).wire.length ≤ fuel) (v : ty.Val) {t t' : τ}
    {rest rest' : List UInt8} (hpending : T.pending t = u.wire ++ rest)
    (hpending' : T.pending t' = (u.known ty).wire ++ rest') :
    ∃ s s', (ty.read T junk fuel v).run (.new t) = some ((.ofNat u.wire.length, u.into ty v), s) ∧
      (ty.read T junk fuel v).run (.new t') =
        some ((.ofNat (u.known ty).wire.length, u.into ty v), s') ∧
      T.pending s.trans = rest ∧ T.pending s'.trans = rest' ∧ s.error = false ∧ s'.error = false := by
  rcases read_value (T := T) junk hproper htype hsuits hfuel v hpending
    with ⟨s, hrun, herror, hleft⟩
  rcases read_value (T := T) junk (u.proper_known ty hproper)
    ((u.ttype_known ty).trans htype) (u.suits_known ty hsuits) hfuel' v hpending'
    with ⟨s', hrun', herror', hleft'⟩
  rw [u.into_known] at hrun'
  exact ⟨s, s', hrun, hrun', hleft, hleft', herror, herror'⟩

/-- A number, a text that the reader does not know, and a flag. -/
def sampleValue : TValue :=
  .struct (.field 1 (.i32 7) <| .field 9 (.string [65, 66]) <| .field 2 (.bool true) .stop)

/-- A struct of a number and a truth value. -/
def sampleTy : Ty := .struct (.field "ec" false .i32 1 1 <| .field "ok" false .bool 2 2 .stop)

theorem sampleValue_suits : sampleValue.Suits sampleTy := by
  have h : ∀ ty, (TValue.i32 7).Suits ty ∧ (TValue.string [65, 66]).Suits ty ∧
      (TValue.bool true).Suits ty := fun ty => by
    cases ty <;> exact ⟨trivial, trivial, trivial⟩
  exact ⟨fun ty _ => (h ty).1, fun ty _ => (h ty).2.1, fun ty _ => (h ty).2.2, trivial⟩

theorem sampleValue_proper : sampleValue.Proper :=
  ⟨trivial, show [65, 66].length < 2 ^ 31 by decide, trivial, trivial⟩

/-- A buffer over the bytes of a value. -/
def sampleBuffer (u : TValue) (h : u.wire.length < 2 ^ 32) : TMemoryBuffer := .ofBlock u.wire false h

theorem read_known_sample :
    ∃ s s', (sampleTy.read TMemoryBuffer.transport 0 20 sampleTy.default).run
        (.new (sampleBuffer sampleValue (by decide +kernel))) =
          some ((.ofNat sampleValue.wire.length, sampleValue.into sampleTy sampleTy.default), s) ∧
      (sampleTy.read TMemoryBuffer.transport 0 20 sampleTy.default).run
        (.new (sampleBuffer (sampleValue.known sampleTy) (by decide +kernel))) =
          some ((.ofNat (sampleValue.known sampleTy).wire.length,
            sampleValue.into sampleTy sampleTy.default), s') ∧
      s.trans.pending = [] ∧ s'.trans.pending = [] ∧ s.error = false ∧ s'.error = false :=
  read_known (T := TMemoryBuffer.transport) (u := sampleValue) 0 sampleValue_proper rfl
    sampleValue_suits (by decide +kernel) (by decide +kernel) sampleTy.default
    (List.append_nil _).symm (List.append_nil _).symm

/-! ### Back again -/

/-- What was written on an empty transport is read from it. -/
theorem read_written {v : ty.Val} {t : τ} (hfits : ty.fits v) (hdepth : ty.depth ≤ recursionLimit)
    (hsuits : (ty.value v).Suits ty) (haccepts : T.Accepts (ty.value v).wire.length t)
    (hempty : T.pending t = []) (hfuel : (ty.value v).wire.length ≤ fuel) :
    ∃ n o s, (ty.write T v).run (.new t) = some (n, o) ∧
      (ty.read T junk fuel ty.default).run (.new o.trans) =
        some ((n, (ty.value v).into ty ty.default), s) ∧
      s.error = false ∧ T.pending s.trans = [] := by
  rcases write_appends hfits hdepth haccepts with ⟨o, hwrite, hpending, -⟩
  rw [hempty, List.nil_append, ← List.append_nil (ty.value v).wire] at hpending
  rcases read_value (T := T) junk (ty.proper_value v hfits) (ty.ttype_value v) hsuits hfuel
    ty.default hpending with ⟨s, hread, herror, hleft⟩
  exact ⟨_, o, s, hwrite, hread, herror, hleft⟩

/-- An object of one of the generated structs. -/
abbrev Message := (ty : Ty) × ty.Val

/-- One protocol object writes them, one after the other. -/
def writeEach (T : Transport τ) : List Message → Writer τ Unit
  | [] => pure ()
  | m :: ms => do
    let _ ← m.1.write T m.2
    writeEach T ms

/-- And one reads objects of these structs. -/
def readEach (T : Transport τ) (junk : UInt32) (fuel : Nat) : List Ty → Reader τ (List Message)
  | [] => pure []
  | ty :: tys => do
    let r ← ty.read T junk fuel ty.default
    let rs ← readEach T junk fuel tys
    pure (⟨ty, r.2⟩ :: rs)

/-- The bytes of a message. -/
def Message.wire (m : Message) : List UInt8 := (m.1.value m.2).wire

/-- A struct as the compiler writes it, with nothing in it that is too long or too deep. -/
def Message.Regular (m : Message) : Prop :=
  m.1.sane = true ∧ m.1.fits m.2 = true ∧ m.1.depth ≤ recursionLimit

/-- The generated `operator==`. -/
def Message.Same (m m' : Message) : Prop := ∃ v, m = ⟨m'.1, v⟩ ∧ m'.1.same v m'.2 = true

/-- Messages are written one after the other. -/
theorem writes_writeEach {s : Pen} (hs : s.booleanField = none) (hdepth : s.recursionDepth = 0) :
    (ms : List Message) → (∀ m ∈ ms, m.Regular) →
    Writes T (writeEach T ms) (ms.map Message.wire).flatten s () s
  | [], _ => .pure _ _
  | m :: ms, h => by
    rcases h m (by simp) with ⟨-, hfits, hm⟩
    rw [List.map_cons, List.flatten_cons]
    exact (m.1.write_wire T m.2 hfits s hs (by omega)).bind
      (writes_writeEach hs hdepth ms fun m' hm' => h m' (by simp [hm']))

/-- Messages are read one after the other: by recursion on them. -/
theorem reads_readEach {s : Held} (hs : s.boolValue = none) : (ms : List Message) →
    (∀ m ∈ ms, m.Regular) → (ms.map Message.wire).flatten.length ≤ fuel →
    ∃ rs, Reads (readEach plain junk fuel (ms.map Sigma.fst)) (ms.map Message.wire).flatten s rs s ∧
      List.Forall₂ Message.Same rs ms
  | [], _, _ => ⟨[], .pure _ _, .nil⟩
  | m :: ms, h, hfuel => by
    rw [List.map_cons, List.flatten_cons, List.length_append] at hfuel
    rcases h m (by simp) with ⟨hsane, hfits, -⟩
    rcases reads_readEach hs ms (fun m' hm' => h m' (by simp [hm'])) (by omega)
      with ⟨rs, hreads, hsame⟩
    have hread : Reads (m.1.read plain junk fuel m.1.default) m.wire s _ s :=
      (m.1.value m.2).read_wire (m.1.proper_value m.2 hfits) m.1 (m.1.ttype_value m.2)
        (m.1.suits_value m.2 (m.1.faithful_of_sane hsane m.2))
        (Nat.le_trans (Nat.le_add_right _ _) hfuel) s hs m.1.default
    refine ⟨_, ?_, .cons ⟨_, rfl, Ty.comes_of_sane hsane m.2⟩ hsame⟩
    rw [List.map_cons, List.map_cons, List.flatten_cons]
    exact hread.bind (hreads.bind_pure (.pure _ _))

/-- Reading messages is simulated: by recursion on their types. -/
theorem simulates_readEach (T : Transport τ) : (tys : List Ty) →
    Simulates (Agrees T) (readEach T junk fuel tys) (readEach plain junk fuel tys)
  | [] => .pure _
  | ty :: tys => (ty.simulates_read T junk fuel ty.default).bind fun _ =>
      (simulates_readEach T tys).bind fun _ => .pure _

/-- **The way back.**  Objects that are written one after the other are read in this order, each as
    the same object, and nothing is left over. -/
theorem messages_in_order {ms : List Message} {t : τ} (h : ∀ m ∈ ms, m.Regular)
    (haccepts : T.Accepts (ms.map Message.wire).flatten.length t) (hempty : T.pending t = [])
    (hfuel : (ms.map Message.wire).flatten.length ≤ fuel) :
    ∃ o rs s, (writeEach T ms).run (.new t) = some ((), o) ∧ o.error = false ∧
      (readEach T junk fuel (ms.map Sigma.fst)).run (.new o.trans) = some (rs, s) ∧
      List.Forall₂ Message.Same rs ms ∧ s.error = false ∧ T.pending s.trans = [] := by
  rcases writes_writeEach (T := T) (s := ⟨⟨[], 0⟩, none, 0⟩) rfl rfl ms h t 0 haccepts
    with ⟨t', hwrite, hpending, -⟩
  rcases reads_readEach junk (s := ⟨⟨[], 0⟩, none⟩) rfl ms h hfuel with ⟨rs, hreads, hsame⟩
  have hplain := hreads []
  rw [hempty, List.nil_append] at hpending
  rw [List.append_nil] at hplain
  rcases run_of_plain (T := T) (t := t') (simulates_readEach junk T _)
    (by rw [hpending]; exact hplain) with ⟨s, hread, herror, hleft⟩
  exact ⟨_, rs, s, hwrite, rfl, hread, hsame, herror, hleft rfl⟩

theorem messages_in_order_sample :
    ∃ o rs s, (writeEach TMemoryBuffer.transport
        [⟨sampleTy, (⟨true, 7⟩, ⟨true, true⟩, ())⟩, ⟨sampleTy, (⟨false, 0⟩, ⟨true, false⟩, ())⟩]).run
          (.new (.new 1)) = some ((), o) ∧ o.error = false ∧
      (readEach TMemoryBuffer.transport 0 20 [sampleTy, sampleTy]).run (.new o.trans) = some (rs, s) ∧
      List.Forall₂ Message.Same rs
        [⟨sampleTy, (⟨true, 7⟩, ⟨true, true⟩, ())⟩, ⟨sampleTy, (⟨false, 0⟩, ⟨true, false⟩, ())⟩] ∧
      s.error = false ∧ s.trans.pending = [] := by
  refine messages_in_order (T := TMemoryBuffer.transport) (t := .new 1) 0 ?_ ⟨rfl, by decide +kernel⟩ rfl
    (by decide +kernel)
  intro m hm
  simp only [List.mem_cons, List.not_mem_nil, or_false] at hm
  rcases hm with rfl | rfl <;> exact ⟨rfl, rfl, by decide⟩

/-! ### Broken messages -/

/-- **A message that is cut off** is an error, wherever it is cut: there is no memory for a vector of
    the size that is read, or not read, or the flag is set. -/
theorem read_cut_off {u : TValue} (hproper : u.Proper) (htype : u.ttype = ty.ttype)
    (hsuits : u.Suits ty) (hfuel : u.wire.length ≤ fuel) (v : ty.Val) {t : τ}
    (hcut : T.pending t <+: u.wire) (hlt : (T.pending t).length < u.wire.length) :
    ∃ asks r s, Gives (fun memory => ty.readWith T memory junk fuel v) (.new t) asks (r, s) ∧
      s.error = true := by
  rcases hcut with ⟨more, hmore⟩
  have hsound := ty.sound_read junk junk fuel v
  rcases hsound.total (.new (T.pending t)) (show (T.pending t).length < fuel by omega)
    with ⟨r, s', hplain, -⟩
  rcases (ty.asks_readWith plain junk fuel v).gives hplain with ⟨asks, hasks⟩
  rcases gives_of_plain hasks with ⟨s, hgives, herror, -⟩
  refine ⟨asks, r, s, hgives, ?_⟩
  rw [herror]
  by_contra hok
  -- without an error the whole message would leave `more` behind
  rcases (hsound.unmoved more).follows _ _ r s' rfl hplain hok with ⟨t', hwhole, hleft⟩
  have hexact : Reads (ty.read plain junk fuel v) u.wire ⟨⟨[], 0⟩, none⟩
      (.ofNat u.wire.length, u.into ty v) ⟨⟨[], 0⟩, none⟩ :=
    u.read_wire hproper ty htype hsuits hfuel _ rfl v
  have hbytes : (In.new (T.pending t)).extend more = Held.input ⟨⟨[], 0⟩, none⟩ (u.wire ++ []) := by
    rw [List.append_nil, ← hmore]
    rfl
  rw [hbytes, hexact []] at hwhole
  cases hwhole
  have hnil : s'.trans ++ more = [] := (congrArg In.trans hleft).symm
  have hlen := congrArg List.length hmore
  rw [List.length_append, (List.append_eq_nil_iff.mp hnil).2, List.length_nil] at hlen
  omega

/-- Here in the middle of the text. -/
theorem read_cut_off_sample :
    ∃ asks r s, Gives (fun memory => sampleTy.readWith plain memory 0 20 sampleTy.default)
      (.new [0x15, 14, 0x88, 2, 65]) asks (r, s) ∧ s.error = true :=
  read_cut_off (T := plain) (u := sampleValue) 0 sampleValue_proper rfl
    sampleValue_suits (by decide +kernel) sampleTy.default (by decide +kernel) (by decide +kernel)

/-- **Any bytes.**  Reading returns, if there is memory for the vectors whose sizes it reads; and when
    there is no error, a reader that finds something else in a size that was not set, on another
    transport and with more bytes to come, reads the same and leaves the same behind. -/
theorem read_any (v : ty.Val) {t : τ} (hfuel : (T.pending t).length < fuel) :
    ∃ asks r s, Gives (fun memory => ty.readWith T memory junk fuel v) (.new t) asks (r, s) ∧
      (s.error = false → ∀ {τ' : Type} (T' : Transport τ') (junk' : UInt32) (t' : τ')
        (more : List UInt8), T'.pending t' = T.pending t ++ more →
        ∃ asks' s', Gives (fun memory => ty.readWith T' memory junk' fuel v) (.new t') asks' (r, s') ∧
          s'.error = false ∧ T'.pending s'.trans = T.pending s.trans ++ more) := by
  -- the plain input decides what is read, and any transport reads the same
  have hsound := ty.sound_read junk junk fuel v
  rcases hsound.total (.new (T.pending t)) hfuel with ⟨r, s₀, hplain, -⟩
  rcases (ty.asks_readWith plain junk fuel v).gives hplain with ⟨asks, hasks⟩
  rcases gives_of_plain hasks with ⟨s, hgives, herror, hleft⟩
  refine ⟨asks, r, s, hgives, fun hs τ' T' junk' t' more hpending' => ?_⟩
  rw [herror] at hs
  -- without an error, more bytes behind the input change nothing
  rcases ((ty.sound_read junk junk' fuel v).unmoved more).follows _ _ r s₀ rfl hplain
    (by rw [Failed, hs]; exact Bool.false_ne_true) with ⟨s₁, hother, rfl⟩
  have hbytes : (In.new (T.pending t)).extend more = In.new (T'.pending t') := by
    rw [hpending']
    rfl
  rw [hbytes] at hother
  rcases (ty.asks_readWith plain junk' fuel v).gives hother with ⟨asks', hasks'⟩
  rcases gives_of_plain hasks' with ⟨s', hgives', herror', hleft'⟩
  refine ⟨asks', s', hgives', herror'.trans hs, ?_⟩
  rw [hleft hs]
  exact hleft' hs

theorem read_any_sample :
    ∃ asks r s, Gives (fun memory => sampleTy.readWith plain memory 7 4 sampleTy.default)
        (.new [0x15, 14, 0]) asks (r, s) ∧
      (s.error = false → ∀ {τ' : Type} (T' : Transport τ') (junk' : UInt32) (t' : τ')
        (more : List UInt8), T'.pending t' = [0x15, 14, 0] ++ more →
        ∃ asks' s', Gives (fun memory => sampleTy.readWith T' memory junk' 4 sampleTy.default)
          (.new t') asks' (r, s') ∧ s'.error = false ∧ T'.pending s'.trans = s.trans ++ more) :=
  read_any (T := plain) 7 sampleTy.default (by decide)

/-- **The fast way and the slow way.**  Transports that hold the same bytes give the same result, and
    the same error, to whoever reads them, and keep the same bytes if there is no error.  After an
    error both readers find the same in a size that was not set. -/
theorem read_same_bytes {τ' : Type} {T' : Transport τ'} (v : ty.Val) {t : τ} {t' : τ'}
    (h : T.pending t = T'.pending t') (hfuel : (T.pending t).length < fuel) :
    ∃ asks r s s', Gives (fun memory => ty.readWith T memory junk fuel v) (.new t) asks (r, s) ∧
      Gives (fun memory => ty.readWith T' memory junk fuel v) (.new t') asks (r, s') ∧
      s.error = s'.error ∧ (s.error = false → T.pending s.trans = T'.pending s'.trans) := by
  rcases (ty.sound_read junk junk fuel v).total (.new (T.pending t)) hfuel with ⟨r, s₀, hplain, -⟩
  rcases (ty.asks_readWith plain junk fuel v).gives hplain with ⟨asks, hasks⟩
  rcases gives_of_plain hasks with ⟨s, hgives, herror, hleft⟩
  rw [h] at hasks
  rcases gives_of_plain hasks with ⟨s', hgives', herror', hleft'⟩
  refine ⟨asks, r, s, s', hgives, hgives', herror.trans herror'.symm, fun hs => ?_⟩
  rw [herror] at hs
  rw [hleft hs, hleft' hs]

/-- A buffer lends its bytes, the plain bytes are not lent. -/
theorem read_same_bytes_sample :
    ∃ asks r s s', Gives (fun memory => sampleTy.readWith TMemoryBuffer.transport memory 0 20
        sampleTy.default) (.new (sampleBuffer sampleValue (by decide +kernel))) asks (r, s) ∧
      Gives (fun memory => sampleTy.readWith plain memory 0 20 sampleTy.default)
        (.new sampleValue.wire) asks (r, s') ∧
      s.error = s'.error ∧ (s.error = false → s.trans.pending = s'.trans) :=
  read_same_bytes (T := TMemoryBuffer.transport) 0 sampleTy.default rfl (by decide +kernel)

/-- **Skipping**, on any transport: of a value that can be read at all exactly the bytes are passed
    over, however deep it is, and their number is returned. -/
theorem skip_value {u : TValue} (hproper : u.Proper) (hfuel : u.wire.length < fuel) {t : τ}
    {rest : List UInt8} (hpending : T.pending t = u.wire ++ rest) :
    ∃ s, (skip T fuel u.ttype).run (.new t) = some (.ofNat u.wire.length, s) ∧ s.error = false ∧
      T.pending s.trans = rest := by
  have hplain := u.skip_wire hproper fuel hfuel ⟨⟨[], 0⟩, none⟩ rfl rest
  rcases run_of_plain (T := T) (t := t) (simulates_skip T fuel u.ttype)
    (by rw [hpending]; exact hplain) with ⟨s, hrun, herror, hleft⟩
  exact ⟨s, hrun, herror, hleft rfl⟩

/-- A map from a number to a list of two values. -/
def sampleMap : TValue :=
  .map .i16 .list <| .cons (.i16 (-3))
    (.list .struct (.cons sampleValue (.cons sampleValue .nil))) .nil

theorem skip_value_sample :
    ∃ s, (skip TMemoryBuffer.transport 40 sampleMap.ttype).run
        (.new (sampleBuffer sampleMap (by decide +kernel))) =
          some (.ofNat sampleMap.wire.length, s) ∧ s.error = false ∧ s.trans.pending = [] := by
  have hproper : sampleMap.Proper :=
    ⟨show (1 : Nat) < 2 ^ 31 by decide, rfl, rfl, trivial, ⟨show (2 : Nat) < 2 ^ 31 by decide,
      rfl, sampleValue_proper, rfl, sampleValue_proper, trivial⟩, trivial⟩
  exact skip_value (T := TMemoryBuffer.transport) hproper (by decide +kernel)
    (List.append_nil _).symm

end Thrift

end Turnserver
