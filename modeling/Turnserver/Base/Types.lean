/-
  THE WIRE TYPES — the C++ types that `base/packer.h`, `base/unpacker.h`, `base/declare_struct.h`
  and `base/packet_helper.h` can write and read, as a universe.

  * `Ty` names a type, `Members` the members of a struct or packet, `t.Val` is the Lean type of its
    values.  A set or a map is the list of its elements in ascending order; an unordered map is the
    list of its entries in iteration order, which is nobody's business.
  * `less` and `equal` are `operator<` and `operator==` as the element types have them: numeric
    order, lexicographic order of strings and containers, `std::pair`, and the chain of members that
    `NEW_DECLARE_STRUCT_n` writes out.
  * `Wf t x` says that `x` can be the content of a C++ object: sets and maps are strictly ascending,
    the keys of an unordered map are different.
  * `Same t x y` is equality of values: equal, up to the iteration order of unordered maps.

  What decoding needs from the comparisons is proved once for all types: they are `Orderly` (a strict
  order goes one way at most), and neither can tell `Same` values apart (`Respects`).
-/
import Mathlib.Data.List.Forall2
import Mathlib.Data.List.Basic

namespace Turnserver

/-! ## Types and values -/

/-- The types that are written as one word. -/
inductive Scalar
  | bool | char
  | uint8 | uint16 | uint32 | uint64
  | int8 | int16 | int32 | int64
  | double
  deriving DecidableEq, Repr

mutual

/-- The types of the format. -/
inductive Ty
  | scalar (s : Scalar)
  /-- `std::string` -/
  | string
  /-- `std::vector<uint8_t>` -/
  | buffer
  | vector (t : Ty)
  | list (t : Ty)
  | set (t : Ty)
  | pair (a b : Ty)
  | map (k v : Ty)
  | unorderedMap (k v : Ty)
  /-- `NEW_DECLARE_PACKABLE_n`: at least one member -/
  | struct (t : Ty) (ms : Members)
  /-- `NEW_DECLARE_PACKET_n`, with the uri of its default constructor -/
  | packet (uri : UInt16) (ms : Members)

/-- The members of a struct or packet, in order. -/
inductive Members
  | nil
  | cons (t : Ty) (ms : Members)

end

/-- The value of a scalar; a `char` is signed, a `double` is its 64 bits. -/
def Scalar.Val : Scalar → Type
  | .bool => Bool
  | .char => Int8
  | .uint8 => UInt8
  | .uint16 => UInt16
  | .uint32 => UInt32
  | .uint64 => UInt64
  | .int8 => Int8
  | .int16 => Int16
  | .int32 => Int32
  | .int64 => Int64
  | .double => UInt64

/-- A `Packet` object with members of type `α`. -/
structure PacketVal (α : Type) where
  serverType : UInt16
  uri : UInt16
  members : α

mutual

/-- The values of a type. -/
def Ty.Val : Ty → Type
  | .scalar s => s.Val
  | .string => List UInt8
  | .buffer => List UInt8
  | .vector t => List t.Val
  | .list t => List t.Val
  | .set t => List t.Val
  | .pair a b => a.Val × b.Val
  | .map k v => List (k.Val × v.Val)
  | .unorderedMap k v => List (k.Val × v.Val)
  | .struct t ms => t.Val × ms.Val
  | .packet _ ms => PacketVal ms.Val

/-- The values of the members, one after the other. -/
def Members.Val : Members → Type
  | .nil => Unit
  | .cons t ms => t.Val × ms.Val

end

/-- Zero, or no element. -/
def Scalar.initial : (s : Scalar) → s.Val
  | .bool => false
  | .char => (0 : Int8)
  | .uint8 => (0 : UInt8)
  | .uint16 => (0 : UInt16)
  | .uint32 => (0 : UInt32)
  | .uint64 => (0 : UInt64)
  | .int8 => (0 : Int8)
  | .int16 => (0 : Int16)
  | .int32 => (0 : Int32)
  | .int64 => (0 : Int64)
  | .double => (0 : UInt64)

mutual

/-- The default-constructed value. -/
def Ty.initial : (t : Ty) → t.Val
  | .scalar s => s.initial
  | .string => []
  | .buffer => []
  | .vector _ => []
  | .list _ => []
  | .set _ => []
  | .pair a b => (a.initial, b.initial)
  | .map _ _ => []
  | .unorderedMap _ _ => []
  | .struct t ms => (t.initial, ms.initial)
  | .packet uri ms => ⟨0, uri, ms.initial⟩

/-- Every member as its constructor leaves it. -/
def Members.initial : (ms : Members) → ms.Val
  | .nil => ()
  | .cons t ms => (t.initial, ms.initial)

end

/-! ## Comparisons -/

/-- Where a `double` lies in the order of the real numbers; a NaN lies nowhere, and the two zeros lie
    at the same place. -/
def doubleKey (bits : UInt64) : Option Int :=
  let magnitude : Nat := bits.toNat % 0x8000000000000000
  if magnitude > 0x7FF0000000000000 then none
  else if bits.toNat < 0x8000000000000000 then some (magnitude : Int)
  else some (-(magnitude : Int))

/-- The place of a scalar in its order. -/
def Scalar.key : (s : Scalar) → s.Val → Option Int
  | .bool, x => some (Bool.toInt x)
  | .char, x => some (Int8.toInt x)
  | .uint8, x => some (UInt8.toNat x)
  | .uint16, x => some (UInt16.toNat x)
  | .uint32, x => some (UInt32.toNat x)
  | .uint64, x => some (UInt64.toNat x)
  | .int8, x => some (Int8.toInt x)
  | .int16, x => some (Int16.toInt x)
  | .int32, x => some (Int32.toInt x)
  | .int64, x => some (Int64.toInt x)
  | .double, x => doubleKey x

/-- `operator<` -/
def Scalar.less (s : Scalar) (x y : s.Val) : Bool :=
  match s.key x, s.key y with
  | some i, some j => i < j
  | _, _ => false

/-- `operator==` -/
def Scalar.equal (s : Scalar) (x y : s.Val) : Bool :=
  match s.key x, s.key y with
  | some i, some j => i == j
  | _, _ => false

/-- `std::lexicographical_compare`. -/
def lexLess {α : Type} (less : α → α → Bool) : List α → List α → Bool
  | _, [] => false
  | [], _ :: _ => true
  | x :: xs, y :: ys => less x y || (!less y x && lexLess less xs ys)

/-- `operator==` of sequences. -/
def seqEqual {α : Type} (equal : α → α → Bool) : List α → List α → Bool
  | [], [] => true
  | x :: xs, y :: ys => equal x y && seqEqual equal xs ys
  | _, _ => false

/-- `operator<` of `std::pair`. -/
def pairLess {α β : Type} (less₁ : α → α → Bool) (less₂ : β → β → Bool) (x y : α × β) : Bool :=
  less₁ x.1 y.1 || (!less₁ y.1 x.1 && less₂ x.2 y.2)

/-- `operator==` of pairs. -/
def pairEqual {α β : Type} (equal₁ : α → α → Bool) (equal₂ : β → β → Bool) (x y : α × β) : Bool :=
  equal₁ x.1 y.1 && equal₂ x.2 y.2

mutual

/-- `operator==`.  Packets have none, and unordered maps are not compared anywhere. -/
def Ty.equal : (t : Ty) → t.Val → t.Val → Bool
  | .scalar s, x, y => s.equal x y
  | .string, x, y => seqEqual (Scalar.equal .uint8) x y
  | .buffer, x, y => seqEqual (Scalar.equal .uint8) x y
  | .vector t, x, y => seqEqual t.equal x y
  | .list t, x, y => seqEqual t.equal x y
  | .set t, x, y => seqEqual t.equal x y
  | .pair a b, x, y => pairEqual a.equal b.equal x y
  | .map k v, x, y => seqEqual (pairEqual k.equal v.equal) x y
  | .unorderedMap _ _, _, _ => false
  | .struct t ms, x, y => pairEqual t.equal ms.equal x y
  | .packet _ _, _, _ => false

/-- `NEW_DECLARE_STRUCT_n`: `l.member1 == r.member1 && ...`. -/
def Members.equal : (ms : Members) → ms.Val → ms.Val → Bool
  | .nil, _, _ => true
  | .cons t ms, x, y => pairEqual t.equal ms.equal x y

end

mutual

/-- `operator<`.  Neither packets nor unordered maps have one. -/
def Ty.less : (t : Ty) → t.Val → t.Val → Bool
  | .scalar s, x, y => s.less x y
  | .string, x, y => lexLess (Scalar.less .uint8) x y
  | .buffer, x, y => lexLess (Scalar.less .uint8) x y
  | .vector t, x, y => lexLess t.less x y
  | .list t, x, y => lexLess t.less x y
  | .set t, x, y => lexLess t.less x y
  | .pair a b, x, y => pairLess a.less b.less x y
  | .map k v, x, y => lexLess (pairLess k.less v.less) x y
  | .unorderedMap _ _, _, _ => false
  | .struct t ms, x, y => t.less x.1 y.1 || (t.equal x.1 y.1 && ms.less x.2 y.2)
  | .packet _ _, _, _ => false

/-- `NEW_DECLARE_STRUCT_n`: the first members that are not `==` decide. -/
def Members.less : (ms : Members) → ms.Val → ms.Val → Bool
  | .nil, _, _ => false
  | .cons t ms, x, y => t.less x.1 y.1 || (t.equal x.1 y.1 && ms.less x.2 y.2)

end

/-! ## Values that objects can have -/

/-- All elements of a container have the property. -/
def Each {α : Type} (p : α → Prop) (xs : List α) : Prop := ∀ x ∈ xs, p x

/-- Both halves of a pair have theirs. -/
def Both {α β : Type} (p : α → Prop) (q : β → Prop) (x : α × β) : Prop := p x.1 ∧ q x.2

/-- Both halves of two pairs are related. -/
def Both₂ {α β : Type} (r : α → α → Prop) (s : β → β → Prop) (x y : α × β) : Prop :=
  r x.1 y.1 ∧ s x.2 y.2

mutual

/-- The invariants of the standard containers, throughout a value. -/
def Ty.Wf : (t : Ty) → t.Val → Prop
  | .scalar _, _ => True
  | .string, _ => True
  | .buffer, _ => True
  | .vector t, x => Each t.Wf x
  | .list t, x => Each t.Wf x
  | .set t, x => List.Pairwise (fun e e' => t.less e e' = true) x ∧ Each t.Wf x
  | .pair a b, x => Both a.Wf b.Wf x
  | .map k v, x => List.Pairwise (fun e e' => k.less (Prod.fst e) (Prod.fst e') = true) x ∧
      Each (Both k.Wf v.Wf) x
  | .unorderedMap k v, x =>
      List.Pairwise (fun e e' => k.equal (Prod.fst e) (Prod.fst e') = false) x ∧
      Each (Both k.Wf v.Wf) x
  | .struct t ms, x => Both t.Wf ms.Wf x
  | .packet _ ms, x => ms.Wf x.members

/-- The invariants hold in every member. -/
def Members.Wf : (ms : Members) → ms.Val → Prop
  | .nil, _ => True
  | .cons t ms, x => Both t.Wf ms.Wf x

end

mutual

/-- Equality of values, up to the iteration order of unordered maps. -/
def Ty.Same : (t : Ty) → t.Val → t.Val → Prop
  | .scalar _, x, y => x = y
  | .string, x, y => x = y
  | .buffer, x, y => x = y
  | .vector t, x, y => List.Forall₂ t.Same x y
  | .list t, x, y => List.Forall₂ t.Same x y
  | .set t, x, y => List.Forall₂ t.Same x y
  | .pair a b, x, y => Both₂ a.Same b.Same x y
  | .map k v, x, y => List.Forall₂ (Both₂ k.Same v.Same) x y
  | .unorderedMap k v, x, y => ∃ z, List.Perm z y ∧ List.Forall₂ (Both₂ k.Same v.Same) x z
  | .struct t ms, x, y => Both₂ t.Same ms.Same x y
  | .packet _ ms, x, y => x.serverType = y.serverType ∧ x.uri = y.uri ∧ ms.Same x.members y.members

/-- Every member is the same. -/
def Members.Same : (ms : Members) → ms.Val → ms.Val → Prop
  | .nil, _, _ => True
  | .cons t ms, x, y => Both₂ t.Same ms.Same x y

end

/-! ## The comparisons are orderly -/

/-- A strict comparison that goes one way at most, and that excludes equality. -/
structure Orderly {α : Type} (less equal : α → α → Bool) : Prop where
  asymm : ∀ x y, less x y = true → less y x = false
  exclusive : ∀ x y, less x y = true → equal x y = false ∧ equal y x = false

namespace Orderly

variable {α β : Type} {less : α → α → Bool} {equal : α → α → Bool} {less₂ : β → β → Bool}
  {equal₂ : β → β → Bool}

/-- Lists are ordered by the first difference. -/
theorem lex (h : Orderly less equal) : Orderly (lexLess less) (seqEqual equal) where
  asymm xs ys := by
    -- the first elements decide; where neither is less, the rest does
    induction xs generalizing ys with
    | nil => cases ys <;> simp [lexLess]
    | cons x xs ih =>
      cases ys with
      | nil => simp [lexLess]
      | cons y ys =>
        have hxy := h.asymm x y
        have hyx := h.asymm y x
        have htail := ih ys
        rw [lexLess, lexLess]
        cases hl : less x y <;> cases hr : less y x <;> simp_all
  exclusive xs ys := by
    induction xs generalizing ys with
    | nil => cases ys <;> simp [lexLess, seqEqual]
    | cons x xs ih =>
      cases ys with
      | nil => simp [lexLess]
      | cons y ys =>
        intro hlt
        rw [lexLess, Bool.or_eq_true, Bool.and_eq_true] at hlt
        rw [seqEqual, seqEqual]
        rcases hlt with hlt | ⟨-, hlt⟩
        · obtain ⟨h₁, h₂⟩ := h.exclusive x y hlt
          simp [h₁, h₂]
        · obtain ⟨h₁, h₂⟩ := ih ys hlt
          simp [h₁, h₂]

/-- Pairs that differ by `<` in one component are not `==`. -/
theorem pairEqual_false (h : Orderly less equal) (h₂ : Orderly less₂ equal₂) {x y : α × β}
    (hlt : less x.1 y.1 ∨ less₂ x.2 y.2) :
    pairEqual equal equal₂ x y = false ∧ pairEqual equal equal₂ y x = false := by
  rw [pairEqual, pairEqual]
  rcases hlt with hlt | hlt
  · obtain ⟨h₁, h₂⟩ := h.exclusive _ _ hlt
    simp [h₁, h₂]
  · obtain ⟨h₁, h₂⟩ := h₂.exclusive _ _ hlt
    simp [h₁, h₂]

/-- Pairs are ordered by the first half, then by the second. -/
theorem pair (h : Orderly less equal) (h₂ : Orderly less₂ equal₂) :
    Orderly (pairLess less less₂) (pairEqual equal equal₂) where
  asymm x y := by
    have hxy := h.asymm x.1 y.1
    have hyx := h.asymm y.1 x.1
    have htail := h₂.asymm x.2 y.2
    rw [pairLess, pairLess]
    cases hl : less x.1 y.1 <;> cases hr : less y.1 x.1 <;> simp_all
  exclusive x y := by
    intro hlt
    rw [pairLess, Bool.or_eq_true, Bool.and_eq_true] at hlt
    exact pairEqual_false h h₂ (hlt.imp_right And.right)

/-- The chain of members of a struct: the next member counts where this one is `==`. -/
theorem chain (h : Orderly less equal) (h₂ : Orderly less₂ equal₂) :
    Orderly (fun x y : α × β => less x.1 y.1 || (equal x.1 y.1 && less₂ x.2 y.2))
      (pairEqual equal equal₂) where
  asymm x y := by
    intro hlt
    rw [Bool.or_eq_true, Bool.and_eq_true] at hlt
    rcases hlt with hlt | ⟨heq, hlt⟩
    · simp [h.asymm _ _ hlt, (h.exclusive _ _ hlt).2]
    · have hno : less y.1 x.1 = false := by
        by_contra hyx
        rw [Bool.not_eq_false] at hyx
        exact absurd heq (by simp [(h.exclusive _ _ hyx).2])
      simp [hno, h₂.asymm _ _ hlt]
  exclusive x y := by
    intro hlt
    rw [Bool.or_eq_true, Bool.and_eq_true] at hlt
    exact pairEqual_false h h₂ (hlt.imp_right And.right)

/-- Types without a comparison. -/
theorem never : Orderly (fun _ _ : α => false) (fun _ _ => false) where
  asymm _ _ _ := rfl
  exclusive _ _ _ := ⟨rfl, rfl⟩

end Orderly

/-- Numbers are ordered, apart from NaN. -/
theorem Scalar.orderly (s : Scalar) : Orderly s.less s.equal where
  asymm x y := by
    rw [Scalar.less, Scalar.less]
    cases s.key x <;> cases s.key y <;> simp
    omega
  exclusive x y := by
    rw [Scalar.less, Scalar.equal, Scalar.equal]
    cases s.key x <;> cases s.key y <;> simp
    omega

mutual

/-- **The comparisons are orderly** at every type. -/
theorem Ty.orderly : (t : Ty) → Orderly t.less t.equal
  | .scalar s => s.orderly
  | .string => (Scalar.orderly .uint8).lex
  | .buffer => (Scalar.orderly .uint8).lex
  | .vector t => t.orderly.lex
  | .list t => t.orderly.lex
  | .set t => t.orderly.lex
  | .pair a b => a.orderly.pair b.orderly
  | .map k v => (k.orderly.pair v.orderly).lex
  | .unorderedMap _ _ => .never
  | .struct t ms => t.orderly.chain ms.orderly
  | .packet _ _ => .never

/-- Structs are ordered by the first member that differs. -/
theorem Members.orderly : (ms : Members) → Orderly ms.less ms.equal
  | .nil => ⟨fun _ _ h => (nomatch h), fun _ _ h => (nomatch h)⟩
  | .cons t ms => t.orderly.chain ms.orderly

end

/-! ## The comparisons respect `Same` -/

/-- The comparison `f` cannot tell related values apart. -/
def Respects {α : Type} (r : α → α → Prop) (f : α → α → Bool) : Prop :=
  ∀ x x' y y', r x x' → r y y' → f x y = f x' y'

namespace Respects

variable {α β : Type} {r : α → α → Prop} {f g : α → α → Bool} {r₂ : β → β → Prop}
  {f₂ : β → β → Bool}

/-- Equal arguments give equal results. -/
theorem of_eq (f : α → α → Bool) : Respects (fun x y => x = y) f := by
  rintro x _ y _ rfl rfl
  rfl

/-- A constant respects everything. -/
theorem const (r : α → α → Prop) (b : Bool) : Respects r fun _ _ => b := fun _ _ _ _ _ _ => rfl

/-- The order of lists respects what the order of elements does. -/
theorem lex (h : Respects r f) : Respects (List.Forall₂ r) (lexLess f) := by
  intro xs xs' ys ys' hxs
  induction hxs generalizing ys ys' with
  | nil => intro hys; cases hys <;> rfl
  | cons hx _ ih =>
    intro hys
    cases hys with
    | nil => rfl
    | cons hy hys => rw [lexLess, lexLess, h _ _ _ _ hx hy, h _ _ _ _ hy hx, ih _ _ hys]

/-- The equality of lists respects what the equality of elements does. -/
theorem seq (h : Respects r f) : Respects (List.Forall₂ r) (seqEqual f) := by
  intro xs xs' ys ys' hxs
  induction hxs generalizing ys ys' with
  | nil => intro hys; cases hys <;> rfl
  | cons hx _ ih =>
    intro hys
    cases hys with
    | nil => rfl
    | cons hy hys => rw [seqEqual, seqEqual, h _ _ _ _ hx hy, ih _ _ hys]

/-- The order of pairs respects what the orders of the halves do. -/
theorem pairLess (h : Respects r f) (h₂ : Respects r₂ f₂) :
    Respects (Both₂ r r₂) (pairLess f f₂) := by
  rintro x x' y y' ⟨hx, hx'⟩ ⟨hy, hy'⟩
  rw [Turnserver.pairLess, Turnserver.pairLess, h _ _ _ _ hx hy, h _ _ _ _ hy hx,
    h₂ _ _ _ _ hx' hy']

/-- The equality of pairs respects what those of the halves do. -/
theorem pairEqual (h : Respects r f) (h₂ : Respects r₂ f₂) :
    Respects (Both₂ r r₂) (pairEqual f f₂) := by
  rintro x x' y y' ⟨hx, hx'⟩ ⟨hy, hy'⟩
  rw [Turnserver.pairEqual, Turnserver.pairEqual, h _ _ _ _ hx hy, h₂ _ _ _ _ hx' hy']

/-- A comparison by the first member, and then by the others. -/
theorem chain (hf : Respects r f) (hg : Respects r g) (h₂ : Respects r₂ f₂) :
    Respects (Both₂ r r₂) fun x y => f x.1 y.1 || (g x.1 y.1 && f₂ x.2 y.2) := by
  rintro x x' y y' ⟨hx, hx'⟩ ⟨hy, hy'⟩
  dsimp only
  rw [hf _ _ _ _ hx hy, hg _ _ _ _ hx hy, h₂ _ _ _ _ hx' hy']

end Respects

mutual

/-- `==` does not tell apart what differs in the order of a hash table only. -/
theorem Ty.equal_respects : (t : Ty) → Respects t.Same t.equal
  | .scalar s => .of_eq s.equal
  | .string => .of_eq _
  | .buffer => .of_eq _
  | .vector t => t.equal_respects.seq
  | .list t => t.equal_respects.seq
  | .set t => t.equal_respects.seq
  | .pair a b => a.equal_respects.pairEqual b.equal_respects
  | .map k v => (k.equal_respects.pairEqual v.equal_respects).seq
  | .unorderedMap _ _ => .const _ false
  | .struct t ms => t.equal_respects.pairEqual ms.equal_respects
  | .packet _ _ => .const _ false

/-- Nor does it for members. -/
theorem Members.equal_respects : (ms : Members) → Respects ms.Same ms.equal
  | .nil => .const _ true
  | .cons t ms => t.equal_respects.pairEqual ms.equal_respects

end

mutual

/-- Nor does `<`. -/
theorem Ty.less_respects : (t : Ty) → Respects t.Same t.less
  | .scalar s => .of_eq s.less
  | .string => .of_eq _
  | .buffer => .of_eq _
  | .vector t => t.less_respects.lex
  | .list t => t.less_respects.lex
  | .set t => t.less_respects.lex
  | .pair a b => a.less_respects.pairLess b.less_respects
  | .map k v => (k.less_respects.pairLess v.less_respects).lex
  | .unorderedMap _ _ => .const _ false
  | .struct t ms => t.less_respects.chain t.equal_respects ms.less_respects
  | .packet _ _ => .const _ false

/-- Nor does `<` for members. -/
theorem Members.less_respects : (ms : Members) → Respects ms.Same ms.less
  | .nil => .const _ false
  | .cons t ms => t.less_respects.chain t.equal_respects ms.less_respects

end

end Turnserver
