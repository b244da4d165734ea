/-
  THE ORDER OF ADDRESSES (`network/address_types.cpp`, 320–367, `network/address_types.h`, 231–270,
  426–454, `.inl`, 68–82) — `operator<`, `operator==` and `GetHash` of `GeneralSocketAddress`.

  The order compares the versions, and then the fields of the version, each by its own chain of
  comparisons.
  * `Address.key`: the number of the version and the fields, in the order in which they are compared;
  * `lessThan_key`, `equal_key`: both comparisons are those of the keys;
  * `address_order`: so the order is strict and total up to `==`, and equal addresses, having the same
    fields, hash the same bytes.
-/
import Turnserver.Lib.KeyOrder
import Turnserver.Network.AddressTypes

namespace Turnserver

open Bytes KeyOrder

/-! ## The comparisons -/

/-- `operator<` of `NewSockAddress4` -/
def NewSockAddress4.lessThan (a b : NewSockAddress4) : Bool :=
  a.ip_ < b.ip_ || (a.ip_ == b.ip_ && a.port_ < b.port_)

/-- `In6AddrLessThan` -/
def In6Addr.lessThan (a b : In6Addr) : Bool :=
  a.halves.1 < b.halves.1 || (a.halves.1 == b.halves.1 && a.halves.2 < b.halves.2)

/-- `operator<` of `SocketAddress6` -/
def SocketAddress6.lessThan (l r : SocketAddress6) : Bool :=
  l.ip6.lessThan r.ip6 || (l.ip6.equal r.ip6 && l.port < r.port) ||
    (l.ip6.equal r.ip6 && l.port == r.port && l.scope_id < r.scope_id)

/-- `operator<` of `SocketAddressUnix`: strings compare as unsigned bytes. -/
def SocketAddressUnix.lessThan (l r : SocketAddressUnix) : Bool := l.path < r.path

/-- `LessThan`, which is `operator<` -/
def GeneralSocketAddress.lessThan (a rhs : GeneralSocketAddress) : Checked Bool :=
  if a.version_.tag < rhs.version_.tag then pure true
  else if a.version_.tag > rhs.version_.tag then pure false
  else
    match a.version_ with
    | .kIp4 => do
      let x ← a.addr_.getAddr4
      let y ← rhs.addr_.getAddr4
      pure (x.lessThan y)
    | .kIp6 => do
      let x ← a.addr_.getAddr6
      let y ← rhs.addr_.getAddr6
      pure (x.lessThan y)
    | .kUnix => do
      let x ← a.addr_.getUnix
      let y ← rhs.addr_.getUnix
      pure (x.lessThan y)

namespace Address

/-- What decides between two addresses, the most important first. -/
def key : Address → List Nat
  | ip4 a => [0, a.ip_.toNat, a.port_.toNat]
  | ip6 a => [1, a.ip6.halves.1, a.ip6.halves.2, a.port.toNat, a.scope_id.toNat]
  | unix a => 2 :: a.path.map UInt8.toNat

/-- `a < b` -/
def Less (a b : Address) : Prop := a.object.lessThan b.object = .ok true

/-- `a == b` -/
def Equal (a b : Address) : Prop := a.object.equal b.object = .ok true

/-- The two halves determine the address. -/
theorem halves_inj {a b : In6Addr} : a.halves.1 = b.halves.1 ∧ a.halves.2 = b.halves.2 ↔ a = b := by
  rw [← GeneralSocketAddress.halves_equal, In6Addr.equal, Bool.and_eq_true, beq_iff_eq, beq_iff_eq]

/-- The key determines the address. -/
theorem key_inj {a b : Address} : a.key = b.key ↔ a = b := by
  refine ⟨fun h => ?_, fun h => h ▸ rfl⟩
  -- the version in front tells the three kinds apart
  cases a with
  | ip4 a =>
    cases b with
    | ip4 b =>
      cases a
      cases b
      simp only [key, List.cons.injEq, UInt32.toNat_inj, UInt16.toNat_inj] at h
      obtain ⟨-, rfl, rfl, -⟩ := h
      rfl
    | ip6 b => cases h
    | unix b => cases h
  | ip6 a =>
    cases b with
    | ip4 b => cases h
    | ip6 b =>
      cases a
      cases b
      simp only [key, List.cons.injEq, UInt32.toNat_inj, UInt16.toNat_inj] at h
      obtain ⟨-, h0, h1, rfl, rfl, -⟩ := h
      rw [halves_inj.mp ⟨h0, h1⟩]
    | unix b => cases h
  | unix a =>
    cases b with
    | ip4 b => cases h
    | ip6 b => cases h
    | unix b =>
      cases a
      cases b
      simp only [key, List.cons.injEq, true_and] at h
      rw [List.map_injective_iff.mpr (fun x y => UInt8.toNat_inj.mp) h]

/-- `operator==` compares the keys. -/
theorem equal_key (a b : Address) : a.Equal b ↔ a.key = b.key := by
  obtain ⟨r, hr, heq⟩ := GeneralSocketAddress.equal_object a b
  rw [key_inj, Equal, hr, ← heq]
  simp

theorem lessThan_ip4 (a b : NewSockAddress4) :
    a.lessThan b = true ↔ (ip4 a).key < (ip4 b).key := by
  simp only [NewSockAddress4.lessThan, key, List.cons_lt_cons_iff, Bool.or_eq_true,
    Bool.and_eq_true, decide_eq_true_iff, beq_iff_eq, UInt32.lt_iff_toNat_lt, UInt16.lt_iff_toNat_lt,
    UInt32.toNat_inj, lt_irrefl, false_or, true_and, and_false, or_false]

theorem lessThan_ip6 (a b : SocketAddress6) :
    a.lessThan b = true ↔ (ip6 a).key < (ip6 b).key := by
  simp only [SocketAddress6.lessThan, In6Addr.lessThan, GeneralSocketAddress.halves_equal, key,
    List.cons_lt_cons_iff, Bool.or_eq_true, Bool.and_eq_true, decide_eq_true_iff,
    beq_iff_eq, UInt32.lt_iff_toNat_lt, UInt16.lt_iff_toNat_lt, UInt16.toNat_inj, lt_irrefl,
    false_or, true_and, and_false, or_false, ← halves_inj]
  tauto

theorem lessThan_unix (a b : SocketAddressUnix) :
    a.lessThan b = true ↔ (unix a).key < (unix b).key := by
  simp only [SocketAddressUnix.lessThan, key, List.cons_lt_cons_iff, decide_eq_true_iff, lt_irrefl,
    false_or, true_and]
  exact (map_lt_map (fun x y => UInt8.toNat_inj.mp) (fun x y => UInt8.lt_iff_toNat_lt.symm) _ _).symm

/-- A smaller first entry decides. -/
theorem key_lt_of_head {m n : Nat} {xs ys : List Nat} (h : m < n) :
    true = true ↔ m :: xs < n :: ys :=
  iff_of_true rfl (List.cons_lt_cons_iff.mpr (Or.inl h))

/-- A greater first entry decides. -/
theorem not_key_lt_of_head {m n : Nat} {xs ys : List Nat} (h : n < m) :
    false = true ↔ m :: xs < n :: ys := by
  refine iff_of_false Bool.false_ne_true fun hlt => ?_
  rcases List.cons_lt_cons_iff.mp hlt with hlt | ⟨heq, -⟩
  · exact hlt.asymm h
  · exact h.ne' heq

/-- `operator<` compares the keys. -/
theorem lessThan_key (a b : Address) :
    ∃ r, a.object.lessThan b.object = .ok r ∧ (r = true ↔ a.key < b.key) := by
  cases a with
  | ip4 a =>
    cases b with
    | ip4 b => exact ⟨_, rfl, lessThan_ip4 a b⟩
    | ip6 b => exact ⟨true, rfl, key_lt_of_head (by decide)⟩
    | unix b => exact ⟨true, rfl, key_lt_of_head (by decide)⟩
  | ip6 a =>
    cases b with
    | ip4 b => exact ⟨false, rfl, not_key_lt_of_head (by decide)⟩
    | ip6 b => exact ⟨_, rfl, lessThan_ip6 a b⟩
    | unix b => exact ⟨true, rfl, key_lt_of_head (by decide)⟩
  | unix a =>
    cases b with
    | ip4 b => exact ⟨false, rfl, not_key_lt_of_head (by decide)⟩
    | ip6 b => exact ⟨false, rfl, not_key_lt_of_head (by decide)⟩
    | unix b => exact ⟨_, rfl, lessThan_unix a b⟩

/-- `operator<` compares the keys. -/
theorem less_key (a b : Address) : a.Less b ↔ a.key < b.key := by
  obtain ⟨r, hr, hlt⟩ := lessThan_key a b
  rw [Less, hr, ← hlt]
  simp

/-- **The addresses are keys for ordered and for hashed containers.**  Every comparison and every hash
    of two addresses gives a result; the order is strict and total up to `==`, which is an equivalence;
    equal addresses have one hash, whatever the hash functions are. -/
theorem address_order (H : HashFunctions) :
    (∀ a b : Address, (∃ r, a.object.lessThan b.object = .ok r) ∧
      (∃ r, a.object.equal b.object = .ok r) ∧ ∃ h, a.object.getHash H = .ok h) ∧
    StrictTotal Less Equal ∧ Equivalence Equal ∧
    ∀ a b : Address, a.Equal b → a.object.getHash H = b.object.getHash H := by
  refine ⟨fun a b => ⟨?_, ?_, GeneralSocketAddress.getHash_object H a⟩,
    StrictTotal.of_key key less_key equal_key, ⟨?_, ?_, ?_⟩, ?_⟩
  · exact (lessThan_key a b).imp fun _ h => h.1
  · exact (GeneralSocketAddress.equal_object a b).imp fun _ h => h.1
  · intro a
    exact (equal_key a a).mpr rfl
  · intro a b h
    exact (equal_key b a).mpr ((equal_key a b).mp h).symm
  · intro a b c hab hbc
    exact (equal_key a c).mpr (((equal_key a b).mp hab).trans ((equal_key b c).mp hbc))
  · intro a b h
    rw [key_inj.mp ((equal_key a b).mp h)]

end Address

end Turnserver
