/-
  DECODING INTO AN OBJECT THAT IS NOT FRESH (`base/unpacker.h`, 248–334; `base/packet_helper.h`).

  A scalar, a string and a byte vector are assigned.  Every other container is added to: what the
  target held before stays, and for a map it even wins over what is decoded.

  * `Agree t x y`: the containers that `operator>>` adds to hold the same in `x` and in `y`.  Elements
    of containers are decoded into fresh objects, so only the containers outside containers count;
  * `Ty.extract_lockstep`: targets that agree are the same after decoding, whatever is decoded;
  * `Ty.extract_zeros`: on a stream of zeros decoding leaves exactly what is kept;
  * `reuse_iff`: two targets are the same after decoding any decodable string exactly when they agree.
-/
import Turnserver.Base.Format
import Turnserver.Lib.StateRuns

namespace Turnserver

open Bytes Parsing StateRuns

/-! ## What is kept -/

mutual

/-- The containers that `operator>>` adds to hold the same in both targets. -/
def Ty.Agree : (t : Ty) → t.Val → t.Val → Prop
  | .scalar _, _, _ => True
  | .string, _, _ => True
  | .buffer, _, _ => True
  | .vector t, x, y => (Ty.vector t).Same x y
  | .list t, x, y => (Ty.list t).Same x y
  | .set t, x, y => (Ty.set t).Same x y
  | .pair a b, x, y => Both₂ a.Agree b.Agree x y
  | .map k v, x, y => (Ty.map k v).Same x y
  | .unorderedMap k v, x, y => (Ty.unorderedMap k v).Same x y
  | .struct t ms, x, y => Both₂ t.Agree ms.Agree x y
  | .packet _ ms, x, y => ms.Agree x.members y.members

/-- The members agree one by one. -/
def Members.Agree : (ms : Members) → ms.Val → ms.Val → Prop
  | .nil, _, _ => True
  | .cons t ms, x, y => Both₂ t.Agree ms.Agree x y

end

mutual

/-- The target after reading nothing but zeros: what is assigned is zero or empty, what is added to is
    what it was. -/
def Ty.kept : (t : Ty) → t.Val → t.Val
  | .scalar s, _ => s.initial
  | .string, _ => []
  | .buffer, _ => []
  | .vector _, x => x
  | .list _, x => x
  | .set _, x => x
  | .pair a b, x => (a.kept (Prod.fst x), b.kept (Prod.snd x))
  | .map _ _, x => x
  | .unorderedMap _ _, x => x
  | .struct t ms, x => (t.kept (Prod.fst x), ms.kept (Prod.snd x))
  | .packet _ ms, x => ⟨0, 0, ms.kept x.members⟩

/-- What is kept of each member. -/
def Members.kept : (ms : Members) → ms.Val → ms.Val
  | .nil, _ => ()
  | .cons t ms, x => (t.kept (Prod.fst x), ms.kept (Prod.snd x))

end

mutual

/-- If what is kept is the same, the targets agree. -/
theorem Ty.agree_of_kept : (t : Ty) → {x y : t.Val} → t.Same (t.kept x) (t.kept y) → t.Agree x y
  | .scalar _, _, _, _ => trivial
  | .string, _, _, _ => trivial
  | .buffer, _, _, _ => trivial
  | .vector _, _, _, h => h
  | .list _, _, _, h => h
  | .set _, _, _, h => h
  | .pair a b, _, _, h => ⟨a.agree_of_kept h.1, b.agree_of_kept h.2⟩
  | .map _ _, _, _, h => h
  | .unorderedMap _ _, _, _, h => h
  | .struct t ms, _, _, h => ⟨t.agree_of_kept h.1, ms.agree_of_kept h.2⟩
  | .packet _ ms, _, _, h => ms.agree_of_kept h.2.2

/-- Objects of which the same is kept agree. -/
theorem Members.agree_of_kept : (ms : Members) → {x y : ms.Val} → ms.Same (ms.kept x) (ms.kept y) →
    ms.Agree x y
  | .nil, _, _, _ => trivial
  | .cons t ms, _, _, h => ⟨t.agree_of_kept h.1, ms.agree_of_kept h.2⟩

end

/-! ## Adding keeps targets the same -/

/-- A relation that relates everything to itself relates every list to itself. -/
theorem forall₂_refl {α : Type} {r : α → α → Prop} (h : ∀ x, r x x) (xs : List α) :
    List.Forall₂ r xs xs := List.forall₂_same.mpr fun x _ => h x

mutual

/-- Every value is the same as itself. -/
theorem Ty.same_refl : (t : Ty) → (x : t.Val) → t.Same x x
  | .scalar _, _ => rfl
  | .string, _ => rfl
  | .buffer, _ => rfl
  | .vector t, x => forall₂_refl t.same_refl x
  | .list t, x => forall₂_refl t.same_refl x
  | .set t, x => forall₂_refl t.same_refl x
  | .pair a b, x => ⟨a.same_refl x.1, b.same_refl x.2⟩
  | .map k v, x => forall₂_refl (fun e => ⟨k.same_refl e.1, v.same_refl e.2⟩) x
  | .unorderedMap k v, x =>
      ⟨x, .refl _, forall₂_refl (fun e => ⟨k.same_refl e.1, v.same_refl e.2⟩) x⟩
  | .struct t ms, x => ⟨t.same_refl x.1, ms.same_refl x.2⟩
  | .packet _ ms, x => ⟨rfl, rfl, ms.same_refl x.members⟩

/-- Members are the same as themselves. -/
theorem Members.same_refl : (ms : Members) → (x : ms.Val) → ms.Same x x
  | .nil, _ => trivial
  | .cons t ms, x => ⟨t.same_refl x.1, ms.same_refl x.2⟩

end

section Adding

variable {α : Type} {r : α → α → Prop}

/-- The same element put behind related lists. -/
theorem pushBack_related (hr : ∀ x, r x x) (e : α) (xs ys : List α) (h : List.Forall₂ r xs ys) :
    List.Forall₂ r (pushBack xs e) (pushBack ys e) := List.rel_append h (.cons (hr e) .nil)

/-- The same element inserted into related sets. -/
theorem insertOrdered_related (hr : ∀ x, r x x) {less : α → α → Bool} (hless : Respects r less)
    (e : α) (xs ys : List α) (h : List.Forall₂ r xs ys) :
    List.Forall₂ r (insertOrdered less xs e) (insertOrdered less ys e) := by
  induction h with
  | nil => exact .cons (hr e) .nil
  | cons hxy hrest ih =>
    rw [insertOrdered, insertOrdered, hless _ _ _ _ (hr e) hxy, hless _ _ _ _ hxy (hr e)]
    split
    · exact .cons (hr e) (.cons hxy hrest)
    · split
      · exact .cons hxy ih
      · exact .cons hxy hrest

/-- Whether a key is there does not depend on the iteration order. -/
theorem any_related {equal : α → α → Bool} (hequal : Respects r equal) (hr : ∀ x, r x x) (e : α)
    {xs ys : List α} (h : List.Forall₂ r xs ys) :
    (xs.any fun x => equal x e) = ys.any fun y => equal y e := by
  induction h with
  | nil => rfl
  | cons hxy _ ih => rw [List.any_cons, List.any_cons, ih, hequal _ _ _ _ hxy (hr e)]

/-- The same element inserted into related hash tables, whatever their order. -/
theorem insertHashed_related (H : Hashing) (hr : ∀ x, r x x) {equal : α → α → Bool}
    (hequal : Respects r equal) (e : α) (xs ys : List α)
    (h : ∃ zs, List.Perm zs ys ∧ List.Forall₂ r xs zs) :
    ∃ zs, List.Perm zs (insertHashed H equal ys e) ∧
      List.Forall₂ r (insertHashed H equal xs e) zs := by
  rcases h with ⟨zs, hperm, hall⟩
  have hany : (xs.any fun x => equal x e) = ys.any fun y => equal y e :=
    (any_related hequal hr e hall).trans hperm.any_eq
  rw [insertHashed, insertHashed, hany]
  split
  · exact ⟨zs, hperm, hall⟩
  · -- the new entry goes where it goes among `xs`, and that is somewhere among `ys`
    refine ⟨zs.take (H.place xs e) ++ e :: zs.drop (H.place xs e), ?_, ?_⟩
    · refine List.perm_middle.trans (List.Perm.trans ?_ List.perm_middle.symm)
      rw [List.take_append_drop, List.take_append_drop]
      exact hperm.cons e
    · exact List.rel_append (List.forall₂_take _ hall) (.cons (hr e) (List.forall₂_drop _ hall))

end Adding

/-! ## Targets that agree -/

section Lockstep

variable (H : Hashing)

/-- Two readers of a container go in step, whatever was in it. -/
theorem extractElements_lockstep {α β : Type} {R : β → β → Prop} (elem : StateM Unpacker α)
    {add : β → α → β} (hadd : ∀ x y y', R y y' → R (add y x) (add y' x)) {old old' : β}
    (hold : R old old') :
    Lockstep R (extractElements Unpacker.source elem add old)
      (extractElements Unpacker.source elem add old') :=
  .bind_same _ fun count => .loop elem hadd count hold

/-- Two readers of a pair go in step if those of its halves do. -/
theorem extractPair_lockstep {α β : Type} {R : α → α → Prop} {S : β → β → Prop}
    {first first' : StateM Unpacker α} {second second' : StateM Unpacker β}
    (h₁ : Lockstep R first first') (h₂ : Lockstep S second second') :
    Lockstep (Both₂ R S) (extractPair first second) (extractPair first' second') :=
  h₁.bind fun _ _ hx => h₂.bind fun _ _ hy => .pure ⟨hx, hy⟩

mutual

/-- **Two runs.**  Targets that agree are the same after decoding, and the unpacker has done the
    same. -/
theorem Ty.extract_lockstep : (t : Ty) → {x y : t.Val} → t.Agree x y →
    Lockstep t.Same (t.extract Unpacker.source H x) (t.extract Unpacker.source H y)
  | .scalar _, _, _, _ => .refl (fun _ => rfl) _
  | .string, _, _, _ => .refl (fun _ => rfl) _
  | .buffer, _, _, _ => .refl (fun _ => rfl) _
  | .vector t, _, _, h => extractElements_lockstep _ (pushBack_related t.same_refl) h
  | .list t, _, _, h => extractElements_lockstep _ (pushBack_related t.same_refl) h
  | .set t, _, _, h =>
    extractElements_lockstep _ (insertOrdered_related t.same_refl t.less_respects) h
  | .pair a b, _, _, h => extractPair_lockstep (a.extract_lockstep h.1) (b.extract_lockstep h.2)
  | .map k v, _, _, h =>
    extractElements_lockstep _ (insertOrdered_related
      (fun e => ⟨k.same_refl e.1, v.same_refl e.2⟩) (onKey_respects k.less_respects v.Same)) h
  | .unorderedMap k v, _, _, h =>
    extractElements_lockstep _ (insertHashed_related H
      (fun e => ⟨k.same_refl e.1, v.same_refl e.2⟩) (onKey_respects k.equal_respects v.Same)) h
  | .struct t ms, _, _, h => extractPair_lockstep (t.extract_lockstep h.1) (ms.extract_lockstep h.2)
  | .packet _ ms, _, _, h =>
    .bind_same _ fun _ => .bind_same _ fun _ =>
      (ms.extract_lockstep h).bind fun _ _ hmembers => .pure ⟨rfl, rfl, hmembers⟩

/-- Two readers of the members go in step where the old members agree. -/
theorem Members.extract_lockstep : (ms : Members) → {x y : ms.Val} → ms.Agree x y →
    Lockstep ms.Same (ms.extract Unpacker.source H x) (ms.extract Unpacker.source H y)
  | .nil, _, _, _ => .pure trivial
  | .cons t ms, _, _, h => extractPair_lockstep (t.extract_lockstep h.1) (ms.extract_lockstep h.2)

end

end Lockstep

/-! ## A stream of zeros -/

/-- Zeros as far as a 32-bit position can reach, with `k` complaints so far. -/
structure Zeros (k : Nat) (u : Unpacker) : Prop where
  mem : ∀ i, u.mem i = 0
  length : 2 ^ 32 ≤ u.length + 1
  overflows : u.overflows = k

/-- Zero bytes are the number zero. -/
theorem leNat_zeros (n : Nat) : leNat ((List.range n).map fun _ => 0) = 0 := by
  induction n with
  | zero => rfl
  | succ n ih => simpa [List.range_succ, leNat_append] using ih

section Zeros

variable {k : Nat}

/-- The check finds nothing wrong in the zeros. -/
theorem checkSize_zeros (more : Nat) : Gives (Zeros k) (Unpacker.checkSize more) () := by
  intro u h
  refine ⟨rfl, h.mem, h.length, ?_⟩
  have hlt := u32_lt (u.position + more)
  have hlen := h.length
  show (if _ then _ else _) = _
  rw [if_neg (by omega)]
  exact h.overflows

/-- In the zeros every byte is zero. -/
theorem peek_zeros (offset n : Nat) :
    Gives (Zeros k) (Unpacker.peek offset n) ((List.range n).map fun _ => 0) := by
  intro u h
  refine ⟨?_, h.mem, h.length, h.overflows⟩
  exact List.map_congr_left fun i _ => h.mem _

/-- Behind zeros there are zeros. -/
theorem advance_zeros (n : Nat) : Gives (Zeros k) (Unpacker.advance n) () :=
  fun _ h => ⟨rfl, h.mem, h.length, h.overflows⟩

/-- A word of zeros is zero. -/
theorem popWord_zeros (width : Nat) : Gives (Zeros k) (Unpacker.popWord width) 0 := by
  have h : Gives (Zeros k) (Unpacker.popWord width) (leNat ((List.range width).map fun _ => 0)) :=
    (checkSize_zeros width).bind ((peek_zeros 0 width).bind ((advance_zeros width).map _))
  rwa [leNat_zeros] at h

/-- A variable integer of zeros is zero. -/
theorem popVariableUint32_zeros : Gives (Zeros k) Unpacker.popVariableUint32 0 :=
  (checkSize_zeros 2).bind ((peek_zeros 0 2).bind ((advance_zeros 2).map _))

/-- A string of which the length is zero is empty. -/
theorem popString_zeros : Gives (Zeros k) Unpacker.popString [] :=
  popVariableUint32_zeros.bind
    ((checkSize_zeros 0).bind ((peek_zeros 0 0).bind ((advance_zeros 0).map _)))

/-- A scalar read from zeros is the initial one. -/
theorem Scalar.extract_zeros (s : Scalar) :
    Gives (Zeros k) (s.extract Unpacker.source) s.initial := by
  cases s with
  | bool => exact (popWord_zeros 1).map _
  | uint8 => exact (popWord_zeros 1).map _
  | uint16 => exact (popWord_zeros 2).map _
  | uint32 => exact (popWord_zeros 4).map _
  | uint64 | double => exact (popWord_zeros 8).map _
  | char | int8 => exact ((popWord_zeros 1).map _).map _
  | int16 => exact ((popWord_zeros 2).map _).map _
  | int32 => exact ((popWord_zeros 4).map _).map _
  | int64 => exact ((popWord_zeros 8).map _).map _

/-- A container of size zero leaves what was there. -/
theorem extractElements_zeros {α β : Type} (elem : StateM Unpacker α) (add : β → α → β) (old : β) :
    Gives (Zeros k) (extractElements Unpacker.source elem add old) old :=
  popVariableUint32_zeros.bind (.pure old)

/-- A pair is read from zeros half by half. -/
theorem extractPair_zeros {α β : Type} {first : StateM Unpacker α} {second : StateM Unpacker β}
    {x : α} {y : β} (h₁ : Gives (Zeros k) first x) (h₂ : Gives (Zeros k) second y) :
    Gives (Zeros k) (extractPair first second) (x, y) := h₁.bind (h₂.map _)

variable (H : Hashing)

mutual

/-- **Zeros.**  Decoding them leaves what is kept of the target, and no complaint. -/
theorem Ty.extract_zeros : (t : Ty) → (x : t.Val) →
    Gives (Zeros k) (t.extract Unpacker.source H x) (t.kept x)
  | .scalar s, _ => s.extract_zeros
  | .string, _ => popString_zeros
  | .buffer, _ => popString_zeros
  | .vector _, x => extractElements_zeros _ _ x
  | .list _, x => extractElements_zeros _ _ x
  | .set _, x => extractElements_zeros _ _ x
  | .pair a b, x => extractPair_zeros (a.extract_zeros x.1) (b.extract_zeros x.2)
  | .map _ _, x => extractElements_zeros _ _ x
  | .unorderedMap _ _, x => extractElements_zeros _ _ x
  | .struct t ms, x => extractPair_zeros (t.extract_zeros x.1) (ms.extract_zeros x.2)
  | .packet _ ms, x =>
    ((popWord_zeros 2).map _).bind
      (((popWord_zeros 2).map _).bind ((ms.extract_zeros x.members).map _))

/-- From zeros each member keeps what a reader does not clear. -/
theorem Members.extract_zeros : (ms : Members) → (x : ms.Val) →
    Gives (Zeros k) (ms.extract Unpacker.source H x) (ms.kept x)
  | .nil, _ => .pure ()
  | .cons t ms, x => extractPair_zeros (t.extract_zeros x.1) (ms.extract_zeros x.2)

end

end Zeros

/-! ## The law -/

/-- What lies in front of the unpacker is decodable: `CheckSize` has nothing to complain about. -/
def Ty.Decodable (H : Hashing) (t : Ty) (u : Unpacker) : Prop :=
  ((t.decode H).run u).2.overflows = u.overflows

instance (H : Hashing) (t : Ty) (u : Unpacker) : Decidable (t.Decodable H u) :=
  inferInstanceAs (Decidable (_ = _))

/-- The two targets are the same after decoding any decodable string. -/
def Ty.Reusable (H : Hashing) (t : Ty) (x y : t.Val) : Prop :=
  ∀ u, t.Decodable H u →
    t.Same ((t.extract Unpacker.source H x).run u).1 ((t.extract Unpacker.source H y).run u).1

/-- An unpacker on zeros without an end. -/
def zeros : Unpacker := ⟨fun _ => 0, 2 ^ 32 - 1, 0, 0, 0⟩

/-- It stands in front of zeros. -/
theorem zeros_zeros : Zeros 0 zeros := ⟨fun _ => rfl, by decide, rfl⟩

/-- **Reuse, exactly.**  Two targets of any type are the same after decoding any decodable string, if
    and only if the containers that decoding adds to held the same in both. -/
theorem reuse_iff (H : Hashing) (t : Ty) (x y : t.Val) : t.Reusable H x y ↔ t.Agree x y := by
  constructor
  · intro h
    have hdecodable : t.Decodable H zeros := (t.extract_zeros H t.initial _ zeros_zeros).2.overflows
    have hsame := h zeros hdecodable
    rw [(t.extract_zeros H x _ zeros_zeros).1, (t.extract_zeros H y _ zeros_zeros).1] at hsame
    exact t.agree_of_kept hsame
  · intro h u _
    exact (t.extract_lockstep H h u).1

/-- A pong with the load of one detail. -/
def samplePong (load : UInt32) : Lbs.LbsPong.Val :=
  ⟨0, Lbs.kLbsPongUri, (7 : UInt32), [((1 : UInt32), load)], ()⟩

/-- The pong with the load 20 lies in front of the unpacker. -/
def pongInput : Unpacker :=
  ⟨blockOf (Lbs.LbsPong.wire (samplePong 20)) fun _ => 0, 18, 0, 0, 0⟩

/-- `load_detail` of an object that held `old`, after that pong is decoded into it. -/
def loadDetail (old : Lbs.LbsPong.Val) : List (UInt32 × UInt32) :=
  ((Lbs.LbsPong.extract Unpacker.source .first old).run pongInput).1.members.2.1

/-- The pong with the load 20, decoded into the object that held the load 10 and into a fresh one: the
    old load stays. -/
theorem reuse_fails :
    Lbs.LbsPong.Decodable .first pongInput ∧ loadDetail (samplePong 10) = [(1, 10)] ∧
      loadDetail Lbs.LbsPong.initial = [(1, 20)] ∧
      ¬ Lbs.LbsPong.Reusable .first (samplePong 10) Lbs.LbsPong.initial := by
  have hdecodable : Lbs.LbsPong.Decodable .first pongInput := by decide +kernel
  have hold : loadDetail (samplePong 10) = [(1, 10)] := by decide +kernel
  have hfresh : loadDetail Lbs.LbsPong.initial = [(1, 20)] := by decide +kernel
  refine ⟨hdecodable, hold, hfresh, ?_⟩
  intro h
  have hsame : List.Forall₂ (Both₂ (fun x y : UInt32 => x = y) fun x y : UInt32 => x = y)
      (loadDetail (samplePong 10)) (loadDetail Lbs.LbsPong.initial) :=
    (h pongInput hdecodable).2.2.2.1
  rw [hold, hfresh] at hsame
  rcases hsame with _ | ⟨hentry, -⟩
  exact absurd hentry.2 (by decide)

end Turnserver
