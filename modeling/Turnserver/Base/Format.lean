/-
  THE WIRE FORMAT — `operator<<`, `operator>>` and the round trip between them.

  * `insert H t x p` is `p << x` for a value `x` of type `t`, `extract S H t old` is `u >> old`: it
    reads from a source and fills the target `old` (containers ADD to what the target holds).  `H` is
    what an implementation of `std::unordered_map` decides for itself: where a new entry goes in
    the iteration order.
  * `wire t x` is the byte string that `insert` appends (`insert_appends`).
  * `extract_yields`: the strict reader gets back from `wire t x` a value that is `Same` as `x` and
    stops exactly behind it.  Since the code follows the strict reader, so does the code.

  Lengths are written as variable-width integers of at most 23 bits, and the length of a string or a
  vector is narrowed to 32 bits before it is written.  The first limit is implied by the size limit
  of a packet; the second is not, hence `Narrow`: no string and no vector in the value has `2 ^ 32`
  elements or more.
-/
import Turnserver.Protocol.Packets
import Turnserver.Base.Unpacker

namespace Turnserver

open Bytes Parsing

/-! ## Writing -/

/-- `operator<<` of a number, a boolean or a character. -/
def Scalar.insert : (s : Scalar) → s.Val → Packer → Checked Packer
  | .bool, x, p => p.pushBoolean x
  | .char, x, p => p.pushUint8 (Int8.toUInt8 x)
  | .uint8, x, p => p.pushUint8 x
  | .uint16, x, p => p.pushUint16 x
  | .uint32, x, p => p.pushUint32 x
  | .uint64, x, p => p.pushUint64 x
  | .int8, x, p => p.pushUint8 (Int8.toUInt8 x)
  | .int16, x, p => p.pushUint16 (Int16.toUInt16 x)
  | .int32, x, p => p.pushUint32 (Int32.toUInt32 x)
  | .int64, x, p => p.pushUint64 (Int64.toUInt64 x)
  | .double, x, p => p.pushDouble x

/-- The count of a container, then what the loop over its elements writes. -/
def insertElements {α : Type} (elem : α → Packer → Checked Packer) (size : Nat) (xs : List α)
    (p : Packer) : Checked Packer := do
  let count := u32 size
  let (p, _) ← p.pushVariableUint32 count
  xs.foldlM (fun p x => elem x p) p

/-- `p << value.first << value.second`. -/
def insertPair {α β : Type} (first : α → Packer → Checked Packer)
    (second : β → Packer → Checked Packer) (x : α × β) (p : Packer) : Checked Packer := do
  let p ← first x.1 p
  second x.2 p

mutual

/-- `operator<<`.  A vector is written by index up to the narrowed count, the other containers are
    written by iteration. -/
def Ty.insert : (t : Ty) → t.Val → Packer → Checked Packer
  | .scalar s, x, p => s.insert x p
  | .string, x, p => p.pushString x
  | .buffer, x, p => p.pushBuffer x
  | .vector t, x, p => insertElements t.insert (List.length x) (List.take (u32 (List.length x)) x) p
  | .list t, x, p => insertElements t.insert (List.length x) x p
  | .set t, x, p => insertElements t.insert (List.length x) x p
  | .pair a b, x, p => insertPair a.insert b.insert x p
  | .map k v, x, p => insertElements (insertPair k.insert v.insert) (List.length x) x p
  | .unorderedMap k v, x, p => insertElements (insertPair k.insert v.insert) (List.length x) x p
  | .struct t ms, x, p => insertPair t.insert ms.insert x p
  | .packet _ ms, x, p => do
    let p ← p.pushUint16 x.serverType
    let p ← p.pushUint16 x.uri
    ms.insert x.members p

/-- `p << x.member1 << x.member2 << ...`. -/
def Members.insert : (ms : Members) → ms.Val → Packer → Checked Packer
  | .nil, _, p => pure p
  | .cons t ms, x, p => insertPair t.insert ms.insert x p

end

/-! ## Reading -/

/-- What the standard library's hash tables decide: where in the iteration order a new entry goes. -/
structure Hashing where
  place : {α : Type} → List α → α → Nat

/-- The table that puts every new entry first. -/
def Hashing.first : Hashing := ⟨fun _ _ => 0⟩

/-- `push_back`. -/
def pushBack {α : Type} (xs : List α) (x : α) : List α := xs ++ [x]

/-- `std::set::insert` and `std::map::insert`: the ordered position, unless an equivalent element is
    already there. -/
def insertOrdered {α : Type} (less : α → α → Bool) : List α → α → List α
  | [], x => [x]
  | y :: ys, x =>
    if less x y then x :: y :: ys
    else if less y x then y :: insertOrdered less ys x
    else y :: ys

/-- `std::unordered_map::insert`: somewhere, unless the key is already there. -/
def insertHashed {α : Type} (H : Hashing) (equal : α → α → Bool) (xs : List α) (x : α) : List α :=
  if xs.any fun y => equal y x then xs
  else xs.take (H.place xs x) ++ x :: xs.drop (H.place xs x)

/-- A comparison of keys as a comparison of entries. -/
def onKey {κ β : Type} (compare : κ → κ → Bool) (e e' : κ × β) : Bool := compare e.1 e'.1

section Extract

variable {m : Type → Type} [Monad m] (S : Source m) (H : Hashing)

/-- `operator>>` of a number, a boolean or a character. -/
def Scalar.extract : (s : Scalar) → m s.Val
  | .bool => S.popBoolean
  | .char => do return UInt8.toInt8 (← S.popUint8)
  | .uint8 => S.popUint8
  | .uint16 => S.popUint16
  | .uint32 => S.popUint32
  | .uint64 => S.popUint64
  | .int8 => do return UInt8.toInt8 (← S.popUint8)
  | .int16 => do return UInt16.toInt16 (← S.popUint16)
  | .int32 => do return UInt32.toInt32 (← S.popUint32)
  | .int64 => do return UInt64.toInt64 (← S.popUint64)
  | .double => S.popDouble

/-- The count of a container, then that many elements, each added to the target. -/
def extractElements {α β : Type} (elem : m α) (add : β → α → β) (old : β) : m β := do
  let count ← S.popVariableUint32
  loop elem add count old

/-- `p >> v.first >> v.second`. -/
def extractPair {α β : Type} (first : m α) (second : m β) : m (α × β) := do
  let x ← first
  let y ← second
  pure (x, y)

mutual

/-- `operator>>`: the new content of the target that held `old`. -/
def Ty.extract : (t : Ty) → t.Val → m t.Val
  | .scalar s, _ => s.extract S
  | .string, _ => S.popString
  | .buffer, _ => S.popBuffer
  | .vector t, old => extractElements S (t.extract t.initial) pushBack old
  | .list t, old => extractElements S (t.extract t.initial) pushBack old
  | .set t, old => extractElements S (t.extract t.initial) (insertOrdered t.less) old
  | .pair a b, old => extractPair (a.extract (Prod.fst old)) (b.extract (Prod.snd old))
  | .map k v, old =>
      extractElements S (extractPair (k.extract k.initial) (v.extract v.initial))
        (insertOrdered (onKey k.less)) old
  | .unorderedMap k v, old =>
      extractElements S (extractPair (k.extract k.initial) (v.extract v.initial))
        (insertHashed H (onKey k.equal)) old
  | .struct t ms, old => extractPair (t.extract (Prod.fst old)) (ms.extract (Prod.snd old))
  | .packet _ ms, old => do
    let serverType ← S.popUint16
    let uri ← S.popUint16
    let members ← ms.extract old.members
    pure ⟨serverType, uri, members⟩

/-- `*p >> member1 >> member2 >> ...`. -/
def Members.extract : (ms : Members) → ms.Val → m ms.Val
  | .nil, _ => pure ()
  | .cons t ms, old => extractPair (t.extract (Prod.fst old)) (ms.extract (Prod.snd old))

end

end Extract

/-! ## The byte string of a value -/

/-- The bytes of a number: little-endian, in the width of its type. -/
def Scalar.wire : (s : Scalar) → s.Val → List UInt8
  | .bool, x => leBytes 1 (Bool.toNat x)
  | .char, x => leBytes 1 (UInt8.toNat (Int8.toUInt8 x))
  | .uint8, x => leBytes 1 (UInt8.toNat x)
  | .uint16, x => leBytes 2 (UInt16.toNat x)
  | .uint32, x => leBytes 4 (UInt32.toNat x)
  | .uint64, x => leBytes 8 (UInt64.toNat x)
  | .int8, x => leBytes 1 (UInt8.toNat (Int8.toUInt8 x))
  | .int16, x => leBytes 2 (UInt16.toNat (Int16.toUInt16 x))
  | .int32, x => leBytes 4 (UInt32.toNat (Int32.toUInt32 x))
  | .int64, x => leBytes 8 (UInt64.toNat (Int64.toUInt64 x))
  | .double, x => leBytes 8 (UInt64.toNat x)

/-- The bytes of a string, vector or other container: a count and elements. -/
def wireElements {α : Type} (elem : α → List UInt8) (size : Nat) (xs : List α) : List UInt8 :=
  Packer.encVar (u32 size) ++ xs.flatMap elem

/-- A string is written like a vector, byte by byte. -/
def wireString (bs : List UInt8) : List UInt8 :=
  Packer.encVar (u32 bs.length) ++ bs.take (u32 bs.length)

/-- One after the other. -/
def wirePair {α β : Type} (first : α → List UInt8) (second : β → List UInt8) (x : α × β) :
    List UInt8 := first x.1 ++ second x.2

mutual

/-- What `operator<<` appends. -/
def Ty.wire : (t : Ty) → t.Val → List UInt8
  | .scalar s, x => s.wire x
  | .string, x => wireString x
  | .buffer, x => wireString x
  | .vector t, x => wireElements t.wire (List.length x) (List.take (u32 (List.length x)) x)
  | .list t, x => wireElements t.wire (List.length x) x
  | .set t, x => wireElements t.wire (List.length x) x
  | .pair a b, x => wirePair a.wire b.wire x
  | .map k v, x => wireElements (wirePair k.wire v.wire) (List.length x) x
  | .unorderedMap k v, x => wireElements (wirePair k.wire v.wire) (List.length x) x
  | .struct t ms, x => wirePair t.wire ms.wire x
  | .packet _ ms, x =>
      leBytes 2 (UInt16.toNat x.serverType) ++ (leBytes 2 (UInt16.toNat x.uri) ++ ms.wire x.members)

/-- The members in the order of their declaration. -/
def Members.wire : (ms : Members) → ms.Val → List UInt8
  | .nil, _ => []
  | .cons t ms, x => wirePair t.wire ms.wire x

end

/-! ## Writing appends the byte string -/

/-- `write x` appends `bytes x` to the body of a packer. -/
def Appends {α : Type} (write : α → Packer → Checked Packer) (bytes : α → List UInt8) : Prop :=
  ∀ x p p' bs, p.Holds bs → write x p = .ok p' → p'.Holds (bs ++ bytes x)

namespace Appends

variable {α β : Type}

/-- Two things that are appended one after the other. -/
theorem pair {first : α → Packer → Checked Packer} {second : β → Packer → Checked Packer}
    {bytes₁ : α → List UInt8} {bytes₂ : β → List UInt8} (h₁ : Appends first bytes₁)
    (h₂ : Appends second bytes₂) : Appends (insertPair first second) (wirePair bytes₁ bytes₂) := by
  intro x p p' bs hp h
  rw [insertPair] at h
  obtain ⟨q, hq, h⟩ := Checked.bind_ok.mp h
  rw [wirePair, ← List.append_assoc]
  exact h₂ _ _ _ _ (h₁ _ _ _ _ hp hq) h

/-- A loop that appends each element. -/
theorem foldlM {elem : α → Packer → Checked Packer} {bytes : α → List UInt8}
    (h : Appends elem bytes) :
    Appends (fun xs p => xs.foldlM (fun p x => elem x p) p) fun xs : List α => xs.flatMap bytes := by
  intro xs
  induction xs with
  | nil =>
    intro p p' bs hp hrun
    cases hrun
    show p.Holds (bs ++ [])
    rwa [List.append_nil]
  -- the bytes of `x` are written first, and the others behind them
  | cons x xs ih =>
    intro p p' bs hp hrun
    obtain ⟨q, hq, hrun⟩ := Checked.bind_ok.mp hrun
    show p'.Holds (bs ++ (x :: xs).flatMap bytes)
    rw [List.flatMap_cons, ← List.append_assoc]
    exact ih _ _ _ (h _ _ _ _ hp hq) hrun

/-- The size, and then each element. -/
theorem elements {elem : α → Packer → Checked Packer} {bytes : α → List UInt8}
    (h : Appends elem bytes) (size : Nat) :
    Appends (insertElements elem size) (wireElements bytes size) := by
  intro xs p p' bs hp hrun
  rw [insertElements] at hrun
  obtain ⟨⟨q, n⟩, hq, hrun⟩ := Checked.bind_ok.mp hrun
  rw [wireElements, ← List.append_assoc]
  exact h.foldlM _ _ _ _ (Packer.pushVariableUint32_holds hp hq) hrun

end Appends

/-- Every scalar is appended as its bytes. -/
theorem Scalar.insert_appends (s : Scalar) : Appends s.insert s.wire := by
  intro x p p' bs hp h
  cases s with
  | bool => cases x <;> exact Packer.pushWord_holds hp h
  | _ => exact Packer.pushWord_holds hp h

/-- A string is appended with its length before it. -/
theorem pushString_appends : Appends (fun x p => p.pushString x) wireString := by
  intro x p p' bs hp h
  rw [wireString, ← List.append_assoc]
  exact Packer.pushString_holds hp h

mutual

/-- **Writing.**  `operator<<` appends `wire`. -/
theorem Ty.insert_appends : (t : Ty) → Appends t.insert t.wire
  | .scalar s => s.insert_appends
  | .string => pushString_appends
  | .buffer => pushString_appends
  | .vector t => fun x => t.insert_appends.elements _ _
  | .list t => fun x => t.insert_appends.elements _ _
  | .set t => fun x => t.insert_appends.elements _ _
  | .pair a b => a.insert_appends.pair b.insert_appends
  | .map k v => fun x => (k.insert_appends.pair v.insert_appends).elements _ _
  | .unorderedMap k v => fun x => (k.insert_appends.pair v.insert_appends).elements _ _
  | .struct t ms => t.insert_appends.pair ms.insert_appends
  -- server type and uri stand in front of the members
  | .packet _ ms => by
    intro x p p' bs hp h
    rw [Ty.insert] at h
    obtain ⟨q, hq, h⟩ := Checked.bind_ok.mp h
    obtain ⟨r, hr, h⟩ := Checked.bind_ok.mp h
    rw [Ty.wire, ← List.append_assoc, ← List.append_assoc]
    exact ms.insert_appends _ _ _ _
      (Packer.pushWord_holds (Packer.pushWord_holds hp hq) hr) h

/-- The members are appended one after the other. -/
theorem Members.insert_appends : (ms : Members) → Appends ms.insert ms.wire
  | .nil => by
    intro x p p' bs hp h
    cases h
    rwa [Members.wire, List.append_nil]
  | .cons t ms => t.insert_appends.pair ms.insert_appends

end

/-! ## Values whose sizes are not narrowed -/

mutual

/-- No string and no vector in the value has `2 ^ 32` elements or more. -/
def Ty.Narrow : (t : Ty) → t.Val → Prop
  | .scalar _, _ => True
  | .string, x => List.length x < 2 ^ 32
  | .buffer, x => List.length x < 2 ^ 32
  | .vector t, x => List.length x < 2 ^ 32 ∧ Each t.Narrow x
  | .list t, x => Each t.Narrow x
  | .set t, x => Each t.Narrow x
  | .pair a b, x => Both a.Narrow b.Narrow x
  | .map k v, x => Each (Both k.Narrow v.Narrow) x
  | .unorderedMap k v, x => Each (Both k.Narrow v.Narrow) x
  | .struct t ms, x => Both t.Narrow ms.Narrow x
  | .packet _ ms, x => ms.Narrow x.members

/-- No member, at any depth, has a string or a container of 2^32 elements. -/
def Members.Narrow : (ms : Members) → ms.Val → Prop
  | .nil, _ => True
  | .cons t ms, x => Both t.Narrow ms.Narrow x

end

/-- No string is written as nothing: there is its length at least. -/
theorem wireString_pos (x : List UInt8) : 0 < (wireString x).length := by
  have := Packer.encVar_length_pos (u32 x.length)
  rw [wireString, List.length_append]
  omega

/-- No container is written as nothing. -/
theorem wireElements_pos {α : Type} (elem : α → List UInt8) (size : Nat) (xs : List α) :
    0 < (wireElements elem size xs).length := by
  have := Packer.encVar_length_pos (u32 size)
  rw [wireElements, List.length_append]
  omega

/-- A pair is not written as nothing if its first half is not. -/
theorem wirePair_pos {α β : Type} {first : α → List UInt8} (second : β → List UInt8)
    (h : ∀ x, 0 < (first x).length) (x : α × β) : 0 < (wirePair first second x).length := by
  have := h x.1
  rw [wirePair, List.length_append]
  omega

/-- Every value takes at least one byte. -/
theorem Ty.wire_pos : (t : Ty) → (x : t.Val) → 0 < (t.wire x).length
  | .scalar s, x => by cases s <;> simp [Ty.wire, Scalar.wire]
  | .string, x => wireString_pos x
  | .buffer, x => wireString_pos x
  | .vector t, _ => wireElements_pos t.wire _ _
  | .list t, _ => wireElements_pos t.wire _ _
  | .set t, _ => wireElements_pos t.wire _ _
  | .pair a b, x => wirePair_pos b.wire a.wire_pos x
  | .map k v, _ => wireElements_pos (wirePair k.wire v.wire) _ _
  | .unorderedMap k v, _ => wireElements_pos (wirePair k.wire v.wire) _ _
  | .struct t ms, x => wirePair_pos ms.wire t.wire_pos x
  | .packet _ _, x => by simp [Ty.wire]

/-! ## Rebuilding a container by insertion -/

/-- Reading into a vector puts what is read at its end. -/
theorem foldl_pushBack {α : Type} (ys acc : List α) : ys.foldl pushBack acc = acc ++ ys := by
  induction ys generalizing acc with
  | nil => rw [List.append_nil]; rfl
  | cons y ys ih => rw [List.foldl_cons, ih, pushBack, List.append_assoc]; rfl

/-- An element above all others is inserted at the end. -/
theorem insertOrdered_last {α : Type} {less equal : α → α → Bool} (h : Orderly less equal)
    (xs : List α) (x : α) (hx : ∀ y ∈ xs, less y x = true) :
    insertOrdered less xs x = xs ++ [x] := by
  induction xs with
  | nil => rfl
  | cons y ys ih =>
    have hy := hx y List.mem_cons_self
    rw [insertOrdered, h.asymm _ _ hy, if_neg Bool.false_ne_true, if_pos hy,
      ih fun z hz => hx z (List.mem_cons_of_mem y hz)]
    rfl

/-- A sorted list that is inserted element by element comes out as it is. -/
theorem foldl_insertOrdered {α : Type} {less equal : α → α → Bool} (h : Orderly less equal)
    (ys acc : List α) (hsorted : (acc ++ ys).Pairwise fun x y => less x y = true) :
    ys.foldl (insertOrdered less) acc = acc ++ ys := by
  induction ys generalizing acc with
  | nil => rw [List.append_nil]; rfl
  | cons y ys ih =>
    have hlast : ∀ x ∈ acc, less x y = true := fun x hx =>
      (List.pairwise_append.mp hsorted).2.2 x hx y List.mem_cons_self
    rw [List.foldl_cons, insertOrdered_last h acc y hlast, ih _ (by simpa using hsorted)]
    simp

/-- Inserting entries with different keys keeps them all, in some order. -/
theorem foldl_insertHashed {α : Type} (H : Hashing) (equal : α → α → Bool) (ys acc acc' : List α)
    (hperm : acc.Perm acc') (hkeys : (acc' ++ ys).Pairwise fun x y => equal x y = false) :
    (ys.foldl (insertHashed H equal) acc).Perm (acc' ++ ys) := by
  -- induction on `ys`; the invariant is that both accumulators hold the same elements
  induction ys generalizing acc acc' with
  | nil => rwa [List.append_nil]
  | cons y ys ih =>
    -- the keys of `ys` are new, so nothing is dropped
    have hnew : (acc.any fun x => equal x y) = false := by
      rw [List.any_eq_false]
      intro x hx
      rw [Bool.not_eq_true]
      exact (List.pairwise_append.mp hkeys).2.2 x (hperm.mem_iff.mp hx) y List.mem_cons_self
    have hstep : (insertHashed H equal acc y).Perm (acc' ++ [y]) := by
      rw [insertHashed, hnew, if_neg Bool.false_ne_true]
      refine List.perm_middle.trans ?_
      rw [List.take_append_drop]
      exact (hperm.cons y).trans (List.perm_append_singleton y acc').symm
    rw [List.foldl_cons]
    have := ih _ _ hstep (by simpa using hkeys)
    simpa using this

/-- What holds of all ordered pairs of one list holds of those of a related list, for a comparison
    that respects the relation. -/
theorem Respects.pairwise {α : Type} {r : α → α → Prop} {f : α → α → Bool} (h : Respects r f)
    {xs ys : List α} (hall : List.Forall₂ r xs ys) {b : Bool}
    (hxs : xs.Pairwise fun x y => f x y = b) : ys.Pairwise fun x y => f x y = b := by
  rw [List.pairwise_iff_getElem] at hxs ⊢
  intro i j hi hj hij
  have hlen := hall.length_eq
  have hri := hall.get (show i < xs.length by omega) hi
  have hrj := hall.get (show j < xs.length by omega) hj
  exact (h _ _ _ _ hri hrj).symm.trans (hxs i j (by omega) (by omega) hij)

/-- A comparison of keys respects what the comparison on the keys does. -/
theorem onKey_respects {κ β : Type} {r : κ → κ → Prop} {f : κ → κ → Bool} (h : Respects r f)
    (s : β → β → Prop) : Respects (Both₂ r s) (onKey f) :=
  fun _ _ _ _ hx hy => h _ _ _ _ hx.1 hy.1

/-- Entries are ordered as their keys are. -/
theorem onKey_orderly {κ β : Type} {less equal : κ → κ → Bool} (h : Orderly less equal) :
    Orderly (fun e e' : κ × β => onKey less e e') (onKey equal) :=
  ⟨fun x y => h.asymm x.1 y.1, fun x y => h.exclusive x.1 y.1⟩

/-! ## Reading what was written -/

/-- On `wire x` the strict decoder gives a value related to `x`, and stops behind it. -/
def Reads {α : Type} (p : Parser UInt8 α) (wire : α → List UInt8) (r : α → α → Prop) (x : α) :
    Prop := ∃ y, Yields p (wire x) y ∧ r x y

/-- One byte is read as it was written. -/
theorem uint8_yields (x : UInt8) : Yields Strict.source.popUint8 (leBytes 1 x.toNat) x := by
  have hlt : x.toNat < 256 ^ 1 := x.toNat_lt
  have h := (Strict.popWord_yields hlt).map UInt8.ofNat
  rwa [UInt8.ofNat_toNat] at h

/-- Two bytes are read as they were written. -/
theorem uint16_yields (x : UInt16) : Yields Strict.source.popUint16 (leBytes 2 x.toNat) x := by
  have hlt : x.toNat < 256 ^ 2 := x.toNat_lt
  have h := (Strict.popWord_yields hlt).map UInt16.ofNat
  rwa [UInt16.ofNat_toNat] at h

/-- Four bytes are read as they were written. -/
theorem uint32_yields (x : UInt32) : Yields Strict.source.popUint32 (leBytes 4 x.toNat) x := by
  have hlt : x.toNat < 256 ^ 4 := x.toNat_lt
  have h := (Strict.popWord_yields hlt).map UInt32.ofNat
  rwa [UInt32.ofNat_toNat] at h

/-- Eight bytes are read as they were written. -/
theorem uint64_yields (x : UInt64) : Yields Strict.source.popUint64 (leBytes 8 x.toNat) x := by
  have hlt : x.toNat < 256 ^ 8 := x.toNat_lt
  have h := (Strict.popWord_yields hlt).map UInt64.ofNat
  rwa [UInt64.ofNat_toNat] at h

/-- Every scalar is read as it was written. -/
theorem Scalar.extract_yields (s : Scalar) (x : s.Val) :
    Yields (s.extract Strict.source) (s.wire x) x := by
  cases s with
  | bool =>
    cases x with
    | false => exact (Strict.popWord_yields (show 0 < 256 ^ 1 by decide)).map (· != 0)
    | true => exact (Strict.popWord_yields (show 1 < 256 ^ 1 by decide)).map (· != 0)
  | uint8 => exact uint8_yields x
  | uint16 => exact uint16_yields x
  | uint32 => exact uint32_yields x
  | uint64 | double => exact uint64_yields x
  -- the conversions between signed and unsigned words are inverse to each other
  | char | int8 => exact (uint8_yields (Int8.toUInt8 x)).map UInt8.toInt8
  | int16 => exact (uint16_yields (Int16.toUInt16 x)).map UInt16.toInt16
  | int32 => exact (uint32_yields (Int32.toUInt32 x)).map UInt32.toInt32
  | int64 => exact (uint64_yields (Int64.toUInt64 x)).map UInt64.toInt64

/-- Two things are read one after the other. -/
theorem pair_reads {α β : Type} {p : Parser UInt8 α} {q : Parser UInt8 β}
    {wire₁ : α → List UInt8} {wire₂ : β → List UInt8} {r : α → α → Prop} {s : β → β → Prop}
    {x : α × β} (h₁ : Reads p wire₁ r x.1) (h₂ : Reads q wire₂ s x.2) :
    Reads (extractPair p q) (wirePair wire₁ wire₂) (Both₂ r s) x := by
  obtain ⟨y₁, hy₁, hr⟩ := h₁
  obtain ⟨y₂, hy₂, hs⟩ := h₂
  exact ⟨(y₁, y₂), hy₁.bind (hy₂.map fun y => (y₁, y)), hr, hs⟩

/-- The halves of a pair are no longer than the pair. -/
theorem wirePair_length_lt {α β : Type} {first : α → List UInt8} {second : β → List UInt8}
    {x : α × β} {n : Nat} (h : (wirePair first second x).length < n) :
    (first x.1).length < n ∧ (second x.2).length < n := by
  rw [wirePair, List.length_append] at h
  omega

/-- A string is read as it was written, if its length is not cut to 32 bits. -/
theorem string_reads {x : List UInt8} (hsmall : x.length < 2 ^ 32)
    (hlen : (wireString x).length < 2 ^ 23) : Yields Strict.popData (wireString x) x := by
  have hu : u32 x.length = x.length := u32_of_lt hsmall
  rw [wireString, hu, List.take_length] at hlen ⊢
  exact Strict.popData_yields (by rw [List.length_append] at hlen; omega)

/-- Elements that are not written as nothing are not more than the bytes. -/
theorem length_le_flatMap {α : Type} {wire : α → List UInt8} (hpos : ∀ x, 0 < (wire x).length)
    (xs : List α) : xs.length ≤ (xs.flatMap wire).length := by
  induction xs with
  | nil => exact Nat.le_refl _
  | cons x xs ih =>
    have := hpos x
    rw [List.flatMap_cons, List.length_append, List.length_cons]
    omega

/-- An element is no longer than all of them. -/
theorem length_le_flatMap_of_mem {α : Type} (wire : α → List UInt8) {xs : List α} {x : α}
    (hx : x ∈ xs) : (wire x).length ≤ (xs.flatMap wire).length := by
  induction xs with
  | nil => cases hx
  | cons y ys ih =>
    rw [List.flatMap_cons, List.length_append]
    rcases List.mem_cons.mp hx with rfl | hx
    · omega
    · have := ih hx
      omega

/-- A container of at most `2 ^ 32` elements is read back element by element. -/
theorem elements_reads {α β : Type} {elem : Parser UInt8 α} {wire : α → List UInt8}
    {r : α → α → Prop} (add : β → α → β) (old : β) {xs : List α}
    (hpos : ∀ x, 0 < (wire x).length) (hsmall : xs.length < 2 ^ 32)
    (hlen : (wireElements wire xs.length xs).length < 2 ^ 23)
    (h : ∀ x ∈ xs, (wire x).length < 2 ^ 23 → Reads elem wire r x) :
    ∃ ys, List.Forall₂ r xs ys ∧
      Yields (extractElements Strict.source elem add old) (wireElements wire xs.length xs)
        (ys.foldl add old) := by
  have hu : u32 xs.length = xs.length := u32_of_lt hsmall
  rw [wireElements, hu] at hlen ⊢
  rw [List.length_append] at hlen
  have hcount := length_le_flatMap hpos xs
  obtain ⟨ys, hall, hys⟩ := Yields.loop add xs fun x hx =>
    h x hx (by have := length_le_flatMap_of_mem wire hx; omega)
  exact ⟨ys, hall, (Strict.popVariableUint32_yields (by omega)).bind (hys old)⟩

/-- A container that is rebuilt in the order in which it was written. -/
theorem sequence_reads {α : Type} {elem : Parser UInt8 α} {wire : α → List UInt8}
    {r : α → α → Prop} {xs : List α} {add : List α → α → List α}
    (hadd : ∀ ys, List.Forall₂ r xs ys → ys.foldl add [] = ys)
    (hpos : ∀ x, 0 < (wire x).length) (hsmall : xs.length < 2 ^ 32)
    (hlen : (wireElements wire xs.length xs).length < 2 ^ 23)
    (h : ∀ x ∈ xs, (wire x).length < 2 ^ 23 → Reads elem wire r x) :
    ∃ ys, Yields (extractElements Strict.source elem add []) (wireElements wire xs.length xs) ys ∧
      List.Forall₂ r xs ys := by
  obtain ⟨ys, hall, hys⟩ := elements_reads add [] hpos hsmall hlen h
  rw [hadd ys hall] at hys
  exact ⟨ys, hys, hall⟩

/-- In a frame there is no room for 2^32 elements. -/
theorem forall₂_length_small {α : Type} {wire : α → List UInt8} {xs : List α}
    (hpos : ∀ x, 0 < (wire x).length)
    (hlen : (wireElements wire xs.length xs).length < 2 ^ 23) : xs.length < 2 ^ 32 := by
  have hcount := length_le_flatMap hpos xs
  rw [wireElements, List.length_append] at hlen
  omega

section RoundTrip

variable (H : Hashing)

mutual

/-- **Reading.**  The strict decoder gets back what was written, at every type. -/
theorem Ty.extract_reads : (t : Ty) → (x : t.Val) → t.Wf x → t.Narrow x →
    (t.wire x).length < 2 ^ 23 → Reads (t.extract Strict.source H t.initial) t.wire t.Same x
  | .scalar s, x, _, _, _ => ⟨x, s.extract_yields x, rfl⟩
  | .string, x, _, hn, hlen => ⟨x, string_reads hn hlen, rfl⟩
  | .buffer, x, _, hn, hlen => ⟨x, string_reads hn hlen, rfl⟩
  | .vector t, x, hw, hn, hlen => by
    -- the count on the wire is that of the vector, which is not cut
    have htake : List.take (u32 (List.length x)) x = x := by
      rw [u32_of_lt hn.1]; exact List.take_length
    rw [Ty.wire, htake] at hlen
    obtain ⟨y, hy, hsame⟩ := sequence_reads (fun ys _ => foldl_pushBack ys []) t.wire_pos hn.1 hlen
      fun e he => t.extract_reads e (hw e he) (hn.2 e he)
    refine ⟨y, ?_, hsame⟩
    rw [Ty.wire, htake]
    exact hy
  | .list t, x, hw, hn, hlen =>
    sequence_reads (fun ys _ => foldl_pushBack ys []) t.wire_pos
      (forall₂_length_small t.wire_pos hlen) hlen
      fun e he => t.extract_reads e (hw e he) (hn e he)
  | .set t, x, hw, hn, hlen =>
    sequence_reads
      (fun ys hall => foldl_insertOrdered t.orderly ys [] (t.less_respects.pairwise hall hw.1))
      t.wire_pos (forall₂_length_small t.wire_pos hlen) hlen
      fun e he => t.extract_reads e (hw.2 e he) (hn e he)
  | .pair a b, x, hw, hn, hlen => by
    have hlens := wirePair_length_lt hlen
    exact pair_reads (a.extract_reads x.1 hw.1 hn.1 hlens.1) (b.extract_reads x.2 hw.2 hn.2 hlens.2)
  | .map k v, x, hw, hn, hlen => by
    have hpos := wirePair_pos v.wire k.wire_pos
    exact sequence_reads
      (fun ys hall => foldl_insertOrdered (onKey_orderly k.orderly) ys []
        ((onKey_respects k.less_respects v.Same).pairwise hall hw.1))
      hpos (forall₂_length_small hpos hlen) hlen
      fun e he hle => by
        have hlens := wirePair_length_lt hle
        exact pair_reads (k.extract_reads e.1 (hw.2 e he).1 (hn e he).1 hlens.1)
          (v.extract_reads e.2 (hw.2 e he).2 (hn e he).2 hlens.2)
  | .unorderedMap k v, x, hw, hn, hlen => by
    have hpos := wirePair_pos v.wire k.wire_pos
    -- an unordered map holds the elements up to their order
    obtain ⟨ys, hall, hys⟩ := elements_reads
      (insertHashed H (onKey k.equal)) [] hpos (forall₂_length_small hpos hlen) hlen
      fun e he hle => by
        have hlens := wirePair_length_lt hle
        exact pair_reads (k.extract_reads e.1 (hw.2 e he).1 (hn e he).1 hlens.1)
          (v.extract_reads e.2 (hw.2 e he).2 (hn e he).2 hlens.2)
    have hkeys := (onKey_respects k.equal_respects v.Same).pairwise hall hw.1
    exact ⟨_, hys, ys, (foldl_insertHashed H _ ys [] [] .nil hkeys).symm, hall⟩
  | .struct t ms, x, hw, hn, hlen => by
    have hlens := wirePair_length_lt hlen
    exact pair_reads (t.extract_reads x.1 hw.1 hn.1 hlens.1)
      (ms.extract_reads x.2 hw.2 hn.2 hlens.2)
  | .packet _ ms, x, hw, hn, hlen => by
    obtain ⟨y, hy, hsame⟩ := ms.extract_reads x.members hw hn (by
      rw [Ty.wire, List.length_append, List.length_append] at hlen
      omega)
    exact ⟨⟨x.serverType, x.uri, y⟩,
      (uint16_yields x.serverType).bind ((uint16_yields x.uri).bind (hy.map fun members =>
        (⟨x.serverType, x.uri, members⟩ : PacketVal ms.Val))), rfl, rfl, hsame⟩

/-- The members are read one after the other, each as it was written. -/
theorem Members.extract_reads : (ms : Members) → (x : ms.Val) → ms.Wf x → ms.Narrow x →
    (ms.wire x).length < 2 ^ 23 → Reads (ms.extract Strict.source H ms.initial) ms.wire ms.Same x
  | .nil, _, _, _, _ => ⟨(), Yields.pure (), trivial⟩
  | .cons t ms, x, hw, hn, hlen => by
    have hlens := wirePair_length_lt hlen
    exact pair_reads (t.extract_reads x.1 hw.1 hn.1 hlens.1)
      (ms.extract_reads x.2 hw.2 hn.2 hlens.2)

end

/-! ## The code reads what the strict decoder reads -/

/-- A strict reader of a pair goes along with the one of the code. -/
theorem extractPair_follows {α β : Type} {first : StateM Unpacker α} {second : StateM Unpacker β}
    {p : Parser UInt8 α} {q : Parser UInt8 β} (h₁ : Unpacker.Follows first p)
    (h₂ : Unpacker.Follows second q) :
    Unpacker.Follows (extractPair first second) (extractPair p q) :=
  h₁.bind fun x => h₂.bind fun y => .pure (x, y)

/-- A strict reader of a container goes along with the one of the code. -/
theorem extractElements_follows {α β : Type} {elem : StateM Unpacker α} {p : Parser UInt8 α}
    (h : Unpacker.Follows elem p) (add : β → α → β) (old : β) :
    Unpacker.Follows (extractElements Unpacker.source elem add old)
      (extractElements Strict.source p add old) :=
  Unpacker.followsSource.popVariableUint32.bind fun count => h.loop add count old

/-- A strict reader of a scalar goes along with the one of the code. -/
theorem Scalar.extract_follows (s : Scalar) :
    Unpacker.Follows (s.extract Unpacker.source) (s.extract Strict.source) := by
  have h := Unpacker.followsSource
  cases s with
  | bool => exact h.popBoolean
  | char | int8 => exact h.popUint8.bind fun x => .pure (UInt8.toInt8 x)
  | uint8 => exact h.popUint8
  | uint16 => exact h.popUint16
  | uint32 => exact h.popUint32
  | uint64 => exact h.popUint64
  | int16 => exact h.popUint16.bind fun x => .pure (UInt16.toInt16 x)
  | int32 => exact h.popUint32.bind fun x => .pure (UInt32.toInt32 x)
  | int64 => exact h.popUint64.bind fun x => .pure (UInt64.toInt64 x)
  | double => exact h.popDouble

mutual

/-- **Refinement.**  `operator>>` of the code follows the strict decoder, at every type. -/
theorem Ty.extract_follows : (t : Ty) → (old : t.Val) →
    Unpacker.Follows (t.extract Unpacker.source H old) (t.extract Strict.source H old)
  | .scalar s, _ => s.extract_follows
  | .string, _ => Unpacker.followsSource.popString
  | .buffer, _ => Unpacker.followsSource.popBuffer
  | .vector t, old => extractElements_follows (t.extract_follows t.initial) pushBack old
  | .list t, old => extractElements_follows (t.extract_follows t.initial) pushBack old
  | .set t, old => extractElements_follows (t.extract_follows t.initial) _ old
  | .pair a b, _ => extractPair_follows (a.extract_follows _) (b.extract_follows _)
  | .map k v, old => extractElements_follows
      (extractPair_follows (k.extract_follows _) (v.extract_follows _)) _ old
  | .unorderedMap k v, old => extractElements_follows
      (extractPair_follows (k.extract_follows _) (v.extract_follows _)) _ old
  | .struct t ms, _ => extractPair_follows (t.extract_follows _) (ms.extract_follows _)
  | .packet _ ms, old =>
      Unpacker.followsSource.popUint16.bind fun serverType =>
        Unpacker.followsSource.popUint16.bind fun uri =>
          (ms.extract_follows old.members).bind fun members =>
            .pure (⟨serverType, uri, members⟩ : PacketVal ms.Val)

/-- A strict reader of the members goes along with the one of the code. -/
theorem Members.extract_follows : (ms : Members) → (old : ms.Val) →
    Unpacker.Follows (ms.extract Unpacker.source H old) (ms.extract Strict.source H old)
  | .nil, _ => .pure ()
  | .cons t ms, _ => extractPair_follows (t.extract_follows _) (ms.extract_follows _)

end

end RoundTrip

/-! ## The round trip -/

/-- Reading into a default-constructed value. -/
def Ty.decode (H : Hashing) (t : Ty) : StateM Unpacker t.Val := t.extract Unpacker.source H t.initial

/-- Where the bytes of `x` lie ahead, whatever lies behind them, the code reads `x` back and
    advances by exactly their number. -/
theorem Ty.decode_at (H : Hashing) (t : Ty) {x : t.Val} (hw : t.Wf x) (hn : t.Narrow x)
    (hlen : (t.wire x).length < 2 ^ 23) {u : Unpacker} (hat : u.At (t.wire x)) :
    t.Same x ((t.decode H).run u).1 ∧
      ((t.decode H).run u).2.position = u.position + (t.wire x).length ∧
      ((t.decode H).run u).2.length = u.length := by
  obtain ⟨y, hy, hsame⟩ := t.extract_reads H x hw hn hlen
  have hrun := hy []
  rw [List.append_nil] at hrun
  have hfollows := t.extract_follows H t.initial
  obtain ⟨hval, -, -, hpos, -⟩ := hfollows.success hat hrun
  rw [Ty.decode, hval]
  exact ⟨hsame, hpos, (hfollows.frame u).2.1⟩

/-- Writing `x` into a fresh packer and reading it back, at any position of any buffer that holds the
    bytes written. -/
def RoundTrips (H : Hashing) (t : Ty) (x : t.Val) : Prop :=
  ∀ (buffer_sz : UInt32) (p : Packer), t.insert x (Packer.new buffer_sz) = .ok p →
    p.position < kMaxPacketSize →
    ∀ u : Unpacker, u.position + (p.position - 4) < 2 ^ 32 →
      (∀ i, 4 + i < p.position → p.mem.cells (4 + i) = some (u.mem (u.position + i))) →
      t.Same x ((t.decode H).run u).1 ∧
        ((t.decode H).run u).2.position = u.position + (p.position - 4)

/-- Writing `x` into a fresh packer, `Pack()`, then reading it from `Unpacker(Buffer(), Length())`.  For
    a packet this is `Pack` and `Unmarshall`. -/
def PackRoundTrips (H : Hashing) (t : Ty) (x : t.Val) : Prop :=
  ∀ (buffer_sz : UInt32) (p : Packer), t.insert x (Packer.new buffer_sz) = .ok p →
    p.position < kMaxPacketSize →
    ∃ q bytes, p.pack = .ok q ∧ q.data = .ok bytes ∧ q.length = bytes.length ∧
      ∀ (buf : Nat → UInt8) (copy : Option (Nat → UInt8)),
        (∀ i (hi : i < bytes.length), buf i = bytes[i]) →
        let u := Unpacker.new buf (.ofNat q.length) copy
        t.Same x ((t.decode H).run u).1 ∧ ((t.decode H).run u).2.position = q.length

/-- What a successful write leaves in the packer. -/
theorem Ty.insert_new {t : Ty} {x : t.Val} {buffer_sz : UInt32} {p : Packer}
    (hp : t.insert x (Packer.new buffer_sz) = .ok p) : p.Holds (t.wire x) :=
  t.insert_appends x _ _ [] (Packer.holds_new buffer_sz) hp

/-- The round trip of a value whose sizes are not cut. -/
theorem roundTrips_of_narrow (H : Hashing) (t : Ty) {x : t.Val} (hw : t.Wf x) (hn : t.Narrow x) :
    RoundTrips H t x := by
  intro buffer_sz p hp hmax u hpos hbytes
  have hold := Ty.insert_new hp
  have hlen : p.position - 4 = (t.wire x).length := by
    have := hold.position_eq
    omega
  -- behind the header lies the wire form of the value
  rw [hlen] at hpos ⊢
  have hat : u.At (t.wire x) := ⟨hpos, fun i hi => by
    have hcell := hold.cells i hi
    rw [hbytes i (by have := hold.position_eq; omega), List.getElem?_eq_getElem hi] at hcell
    exact Option.some.inj hcell⟩
  have h := t.decode_at H hw hn (by
    have := hold.position_eq
    rw [kMaxPacketSize] at hmax
    omega) hat
  exact ⟨h.1, h.2.1⟩

/-- Popping the header of a frame leads to its body. -/
theorem Unpacker.header_at {u : Unpacker} {body : List UInt8}
    (hbody : 4 + body.length < kMaxPacketSize) (hat : u.At (Packer.frameOf body)) :
    (Unpacker.popVariableUint32.run u).2.At body ∧
      (Unpacker.popVariableUint32.run u).2.position + body.length =
        u.position + (Packer.frameOf body).length := by
  have hval : Packer.frameLength body.length < 2 ^ 23 := by
    rw [kMaxPacketSize] at hbody
    rw [Packer.frameLength]
    split <;> omega
  have hrun := Strict.popVariableUint32_yields hval body
  obtain ⟨-, hbody', -, hpos, -⟩ := Unpacker.Follows.popVariableUint32.success hat hrun
  exact ⟨hbody', hpos⟩

/-- A new unpacker over memory that starts with a frame stands in front of its body, whatever length
    it was told (without a copy, which copies that length). -/
theorem Unpacker.new_at {buf : Nat → UInt8} (len : UInt32) {body : List UInt8}
    (hbody : 4 + body.length < kMaxPacketSize)
    (hbuf : ∀ i (hi : i < (Packer.frameOf body).length), buf i = (Packer.frameOf body)[i])
    (copy : Option (Nat → UInt8)) (hcopy : copy = none ∨ (Packer.frameOf body).length ≤ len.toNat) :
    (Unpacker.new buf len copy).At body ∧
      (Unpacker.new buf len copy).position + body.length = (Packer.frameOf body).length := by
  have hlen := Packer.frameOf_length body
  -- the length that `Pack` writes fits three bytes
  have hval : Packer.frameLength body.length < 2 ^ 23 := by
    rw [kMaxPacketSize] at hbody
    rw [Packer.frameLength]
    split <;> omega
  have hraw : (Unpacker.raw buf len copy).At (Packer.frameOf body) := by
    constructor
    · show 0 + (Packer.frameOf body).length < 2 ^ 32
      omega
    · intro i hi
      show (Unpacker.raw buf len copy).mem (0 + i) = _
      rw [Nat.zero_add]
      rcases hcopy with rfl | hcopy
      · exact hbuf i hi
      · cases copy with
        | none => exact hbuf i hi
        | some heap => exact (if_pos (Nat.lt_of_lt_of_le hi hcopy)).trans (hbuf i hi)
  have h := Unpacker.header_at hbody hraw
  rwa [show (Unpacker.raw buf len copy).position = 0 from rfl, Nat.zero_add] at h

/-- A frame is shorter than 2^32 bytes. -/
theorem Packer.frameOf_length_lt {body : List UInt8} (hbody : 4 + body.length < kMaxPacketSize) :
    (Packer.frameOf body).length < 2 ^ 32 := by
  rw [kMaxPacketSize] at hbody
  rw [Packer.frameOf_length, Packer.frameLength]
  split <;> omega

/-- The round trip through a packed frame. -/
theorem packRoundTrips_of_narrow (H : Hashing) (t : Ty) {x : t.Val} (hw : t.Wf x)
    (hn : t.Narrow x) : PackRoundTrips H t x := by
  intro buffer_sz p hp hmax
  have hold := Ty.insert_new hp
  obtain ⟨q, hq⟩ := hold.pack_ok hmax
  obtain ⟨hdata, hlen, hbody⟩ := Packer.pack_data hold hq
  refine ⟨q, _, hq, hdata, hlen, fun buf copy hbuf => ?_⟩
  rw [hlen]
  have hnat : (Packer.frameOf (t.wire x)).length ≤
      (UInt32.ofNat (Packer.frameOf (t.wire x)).length).toNat := by
    rw [UInt32.toNat_ofNat', Nat.mod_eq_of_lt (Packer.frameOf_length_lt hbody)]
  obtain ⟨hat, hpos⟩ := Unpacker.new_at _ hbody hbuf copy (Or.inr hnat)
  have h := t.decode_at H hw hn (by rw [kMaxPacketSize] at hbody; omega) hat
  exact ⟨h.1, h.2.1.trans hpos⟩

/-! ## Packed packets -/

/-- A value marshalled into a packer of its own, which was then packed, and what it sends. -/
structure Packed (t : Ty) where
  value : t.Val
  buffer_sz : UInt32
  filled : Packer
  packer : Packer
  frame : List UInt8
  marshalled : t.insert value (Packer.new buffer_sz) = .ok filled
  packed : filled.pack = .ok packer
  data : packer.data = .ok frame

namespace Packed

variable {t : Ty} (p : Packed t)

/-- What was marshalled. -/
def body : List UInt8 := t.wire p.value

/-- What was packed is the frame around the body. -/
theorem frame_eq : p.frame = Packer.frameOf p.body := by
  have h := (Packer.pack_data (Ty.insert_new p.marshalled) p.packed).1
  rw [p.data] at h
  exact Except.ok.inj h

/-- What could be packed is not too long. -/
theorem body_lt : 4 + p.body.length < kMaxPacketSize :=
  (Packer.pack_data (Ty.insert_new p.marshalled) p.packed).2.2

/-- A packed frame is shorter than 2^32 bytes. -/
theorem frame_length_lt : p.frame.length < 2 ^ 32 := by
  rw [p.frame_eq]
  exact Packer.frameOf_length_lt p.body_lt

end Packed

/-- A packed packet of any type. -/
structure PackedPacket where
  uri : UInt16
  ms : Members
  sent : Packed (.packet uri ms)

namespace PackedPacket

variable (p : PackedPacket)

/-- The bytes of the frame. -/
def frame : List UInt8 := p.sent.frame

/-- What was packed. -/
def value : PacketVal p.ms.Val := p.sent.value

/-- What stands between the length and the end of the frame. -/
def body : List UInt8 := p.sent.body

/-- `server_type` and `uri` come first. -/
theorem body_eq : p.body =
    leBytes 2 p.value.serverType.toNat ++ (leBytes 2 p.value.uri.toNat ++ p.ms.wire p.value.members) :=
  rfl

/-- The server type and the uri are in every body. -/
theorem body_length : 4 ≤ p.body.length := by
  rw [p.body_eq, List.length_append, List.length_append, leBytes_length, leBytes_length]
  omega

/-- How a receiver finds out what it got: a new unpacker, the two identifying words, and the rewind. -/
theorem dispatch {buf : Nat → UInt8} (hbuf : ∀ i (hi : i < p.frame.length), buf i = p.frame[i])
    (len : UInt32) {u₀ u₁ u₂ u₃ : Unpacker} (h₀ : u₀ = Unpacker.new buf len none)
    (h₁ : u₁ = (Unpacker.popUint16.run u₀).2) (h₂ : u₂ = (Unpacker.popUint16.run u₁).2)
    (h₃ : u₃ = (Unpacker.rewind.run u₂).2) :
    (Unpacker.popUint16.run u₀).1 = p.value.serverType ∧
      (Unpacker.popUint16.run u₁).1 = p.value.uri ∧ u₃.mem = buf ∧ u₃.length = len.toNat ∧
      u₃.At p.body ∧ u₃.position + p.body.length = p.frame.length := by
  have hframe : p.frame = Packer.frameOf p.body := p.sent.frame_eq
  have hsmall : p.frame.length < 2 ^ 32 := p.sent.frame_length_lt
  have hblock : ∀ i (hi : i < (Packer.frameOf p.body).length), buf i = (Packer.frameOf p.body)[i] := by
    rw [← hframe]
    exact hbuf
  -- popping leaves the buffer alone
  obtain ⟨hm₀, hl₀⟩ := Unpacker.new_buffer buf len none
  obtain ⟨hm₁, hl₁, -⟩ := Unpacker.Follows.popUint16.frame u₀
  obtain ⟨hm₂, hl₂, -⟩ := Unpacker.Follows.popUint16.frame u₁
  obtain ⟨hm₃, hl₃⟩ := Unpacker.rewind_frame u₂
  rw [← h₀] at hm₀ hl₀
  rw [← h₁] at hm₁ hl₁
  rw [← h₂] at hm₂ hl₂
  rw [← h₃] at hm₃ hl₃
  have hmem₂ : u₂.mem = buf := (hm₂.trans hm₁).trans hm₀
  have hlen₂ : u₂.length = len.toNat := (hl₂.trans hl₁).trans hl₀
  -- the two words at the front of the body
  have hat₀ : u₀.At p.body := by
    rw [h₀]
    exact (Unpacker.new_at len p.sent.body_lt hblock none (Or.inl rfl)).1
  rw [p.body_eq] at hat₀
  obtain ⟨hserver, hat₁, -⟩ :=
    Unpacker.Follows.popUint16.success hat₀ (uint16_yields p.value.serverType _)
  rw [← h₁] at hat₁
  obtain ⟨huri, -⟩ :=
    Unpacker.Follows.popUint16.success hat₁ (uint16_yields p.value.uri _)
  -- and the header again
  have hat : Unpacker.At { u₂ with position := 0 } (Packer.frameOf p.body) := by
    constructor
    · show 0 + _ < 2 ^ 32
      rw [← hframe]
      omega
    · intro i hi
      show u₂.mem (0 + i) = _
      rw [Nat.zero_add, hmem₂, hblock i hi]
  obtain ⟨hat₃, hpos⟩ := Unpacker.header_at p.sent.body_lt hat
  rw [← Unpacker.rewind_run, ← h₃] at hat₃ hpos
  rw [hframe]
  exact ⟨hserver, huri, hm₃.trans hmem₂, hl₃.trans hlen₂, hat₃, hpos.trans (Nat.zero_add _)⟩

end PackedPacket

/-! ## The headline -/

/-- **Codec round trip.**  For every type of the format and every value an object of that type can
    have, with fewer than `2 ^ 32` elements in each string and vector: whatever is written is read
    back, in place and out of a packed frame. -/
theorem codec_roundTrip (H : Hashing) (t : Ty) (x : t.Val) (hw : t.Wf x) (hn : t.Narrow x) :
    RoundTrips H t x ∧ PackRoundTrips H t x :=
  ⟨roundTrips_of_narrow H t hw hn, packRoundTrips_of_narrow H t hw hn⟩

/-- A join request with two entries in its detail map. -/
def sampleJoinReq2 : Lbs.LbsJoinReq2.Val :=
  ⟨0, 1007, (7 : UInt32), [0x6c, 0x62, 0x73], (8000 : UInt16),
    [((6 : UInt32), [0x31, 0x2e, 0x30]), ((7 : UInt32), [])], ()⟩

/-- The round trip at a request to join with two details. -/
theorem codec_roundTrip_joinReq2 :
    (∃ p, Lbs.LbsJoinReq2.insert sampleJoinReq2 (Packer.new 0) = .ok p ∧
      p.position < kMaxPacketSize) ∧
    RoundTrips .first Lbs.LbsJoinReq2 sampleJoinReq2 ∧
      PackRoundTrips .first Lbs.LbsJoinReq2 sampleJoinReq2 := by
  refine ⟨⟨_, rfl, by decide⟩, codec_roundTrip _ _ _ ?_ ?_⟩
  · refine ⟨trivial, trivial, trivial, ⟨?_, fun e _ => ⟨trivial, trivial⟩⟩, trivial⟩
    exact List.pairwise_pair.mpr rfl
  · refine ⟨trivial, show 3 < 2 ^ 32 by decide, trivial, fun e he => ⟨trivial, ?_⟩, trivial⟩
    rcases List.mem_pair.mp he with rfl | rfl
    · exact show 3 < 2 ^ 32 by decide
    · exact show 0 < 2 ^ 32 by decide

/-- A string of `2 ^ 32` bytes is written as an empty one: its length is narrowed to zero. -/
theorem codec_roundTrip_string_pow32 :
    Ty.Wf .string (List.replicate (2 ^ 32) 0) ∧
    ∀ H : Hashing, ¬ RoundTrips H .string (List.replicate (2 ^ 32) 0) := by
  refine ⟨trivial, fun H h => ?_⟩
  -- the count that is written wraps to zero
  have hlen : u32 (List.replicate (2 ^ 32) (0 : UInt8)).length = 0 := by
    rw [List.length_replicate]
    rfl
  obtain ⟨mem, hinsert, h4, h5⟩ : ∃ mem,
      Ty.insert .string (List.replicate (2 ^ 32) 0) (Packer.new 0) = .ok ⟨mem, 0, 6⟩ ∧
      mem.cells 4 = some 0 ∧ mem.cells 5 = some 0 := by
    show ∃ mem, Packer.pushString _ _ = _ ∧ _
    rw [Packer.pushString, hlen]
    exact ⟨_, rfl, rfl, rfl⟩
  -- two zero bytes and nothing else: the packed count
  let u : Unpacker := ⟨fun _ => 0, 2, 0, 0, 0⟩
  have hbytes : ∀ i, 4 + i < 6 → mem.cells (4 + i) = some (u.mem (u.position + i)) := fun i hi => by
    rcases (show i = 0 ∨ i = 1 by omega) with rfl | rfl
    · exact h4
    · exact h5
  -- the string that comes back is empty
  have hsame : List.replicate (2 ^ 32) 0 = ([] : List UInt8) :=
    (h 0 _ hinsert (show 6 < kMaxPacketSize by decide) u (show 0 + 2 < 2 ^ 32 by decide) hbytes).1
  have := congrArg List.length hsame
  rw [List.length_replicate] at this
  exact absurd this (by decide)

end Turnserver
