/-
  SOCKET ADDRESSES (`network/address_types.h`, `.inl`, `.cpp`: `GeneralSocketAddress`) — a union with
  a tag beside it, kept in step by hand.

  A `GeneralSocketAddress` is an IPv4, an IPv6 or a Unix address: `version_` says which, and one member
  of a union holds it.  The class destroys and creates the members itself, in the constructors, in
  `operator=`, in `SerializeFrom` and in the destructor.

  * Here the union knows which member is alive.  Access to another one is a fault: what is found
    there is not a value of that type (`Fault.indeterminate`).
  * `Address` is what the class stands for, a sum; `Address.object` is its representation.  Every
    operation on representations is the one on sums (`copy_object`, `assign_object`,
    `serializeFrom_object` and so on), so no fault is left, and one invariant covers all runs.
  * An IPv4 address is kept in host order and written in network order, an IPv6 address is kept and
    written in network order.

  `serialize_faithful`: what is written is read back, an unknown tag is ignored, and tag and member
  stay in step in every run.  The length of a path is written with 23 bits, so a longer path is lost.
-/
import Turnserver.Base.Format
import Turnserver.Lib.Transition

namespace Turnserver

open Bytes Transition

/-! ## The code -/

/-- `htonl`, and `ntohl`. -/
def htonl (x : UInt32) : UInt32 := .ofNat (byteSwap 4 x.toNat)

/-- `htons`, and `ntohs`. -/
def htons (x : UInt16) : UInt16 := .ofNat (byteSwap 2 x.toNat)

/-- `IpVersion`; the numbers 0, 1 and 2. -/
inductive IpVersion
  | kIp4
  | kIp6
  | kUnix
  deriving DecidableEq, Repr

namespace IpVersion

/-- `static_cast<uint16_t>(version)` -/
def tag : IpVersion → UInt16
  | kIp4 => 0
  | kIp6 => 1
  | kUnix => 2

/-- `static_cast<IpVersion>(ver)`, if it is one of the three. -/
def ofTag (ver : UInt16) : Option IpVersion :=
  if ver = 0 then some kIp4
  else if ver = 1 then some kIp6
  else if ver = 2 then some kUnix
  else none

end IpVersion

/-- An IPv4 address, in host order. -/
structure NewSockAddress4 where
  ip_ : UInt32
  port_ : UInt16
  deriving DecidableEq

/-- `in6_addr`: the words `s6_addr32[0..3]`. -/
structure In6Addr where
  word0 : UInt32
  word1 : UInt32
  word2 : UInt32
  word3 : UInt32
  deriving DecidableEq

/-- An IPv6 address, in network order. -/
structure SocketAddress6 where
  ip6 : In6Addr
  scope_id : UInt32
  port : UInt16
  deriving DecidableEq

/-- `SocketAddressUnix` -/
structure SocketAddressUnix where
  path : List UInt8
  deriving DecidableEq

namespace NewSockAddress4

/-- `serializeTo` -/
def serializeTo (a : NewSockAddress4) (p : Packer) : Checked Packer := do
  let p ← p.pushUint32 (htonl a.ip_)
  p.pushUint16 (htons a.port_)

/-- `serializeFrom` -/
def serializeFrom : StateM Unpacker NewSockAddress4 := do
  let ip ← Unpacker.popUint32
  let port ← Unpacker.popUint16
  pure ⟨htonl ip, htons port⟩

/-- `operator==` -/
def equal (a b : NewSockAddress4) : Bool := a.ip_ == b.ip_ && a.port_ == b.port_

end NewSockAddress4

namespace In6Addr

/-- `operator<<` -/
def insert (a : In6Addr) (p : Packer) : Checked Packer := do
  let p ← p.pushUint32 a.word0
  let p ← p.pushUint32 a.word1
  let p ← p.pushUint32 a.word2
  p.pushUint32 a.word3

/-- `operator>>` -/
def extract : StateM Unpacker In6Addr := do
  let word0 ← Unpacker.popUint32
  let word1 ← Unpacker.popUint32
  let word2 ← Unpacker.popUint32
  let word3 ← Unpacker.popUint32
  pure ⟨word0, word1, word2, word3⟩

/-- The words as two `uint64_t`. -/
def halves (a : In6Addr) : Nat × Nat :=
  (a.word0.toNat + 2 ^ 32 * a.word1.toNat, a.word2.toNat + 2 ^ 32 * a.word3.toNat)

/-- `In6AddrEqualTo` -/
def equal (a b : In6Addr) : Bool := a.halves.1 == b.halves.1 && a.halves.2 == b.halves.2

/-- The 16 bytes in memory. -/
def bytes (a : In6Addr) : List UInt8 :=
  leBytes 4 a.word0.toNat ++ leBytes 4 a.word1.toNat ++ leBytes 4 a.word2.toNat ++
    leBytes 4 a.word3.toNat

end In6Addr

namespace SocketAddress6

/-- `operator<<` -/
def insert (a : SocketAddress6) (p : Packer) : Checked Packer := do
  let p ← a.ip6.insert p
  let p ← p.pushUint32 a.scope_id
  p.pushUint16 a.port

/-- `operator>>` -/
def extract : StateM Unpacker SocketAddress6 := do
  let ip6 ← In6Addr.extract
  let scope_id ← Unpacker.popUint32
  let port ← Unpacker.popUint16
  pure ⟨ip6, scope_id, port⟩

/-- `operator==` -/
def equal (a b : SocketAddress6) : Bool :=
  a.ip6.equal b.ip6 && a.port == b.port && a.scope_id == b.scope_id

end SocketAddress6

namespace SocketAddressUnix

/-- `operator<<` -/
def insert (a : SocketAddressUnix) (p : Packer) : Checked Packer := p.pushString a.path

/-- `operator>>` -/
def extract : StateM Unpacker SocketAddressUnix := do
  let path ← Unpacker.popString
  pure ⟨path⟩

/-- `operator==` -/
def equal (a b : SocketAddressUnix) : Bool := a.path == b.path

end SocketAddressUnix

/-- `AddressStorage`: at most one member is alive. -/
inductive AddressStorage
  | none
  | addr4 (a : NewSockAddress4)
  | addr6 (a : SocketAddress6)
  | addr_unix (a : SocketAddressUnix)

namespace AddressStorage

/-- The use of `addr4`. -/
def getAddr4 : AddressStorage → Checked NewSockAddress4
  | addr4 a => .ok a
  | _ => .error .indeterminate

/-- The use of `addr6`. -/
def getAddr6 : AddressStorage → Checked SocketAddress6
  | addr6 a => .ok a
  | _ => .error .indeterminate

/-- The use of `addr_unix`. -/
def getUnix : AddressStorage → Checked SocketAddressUnix
  | addr_unix a => .ok a
  | _ => .error .indeterminate

end AddressStorage

/-- The members of `GeneralSocketAddress`: the version, and the storage of one of the three. -/
structure GeneralSocketAddress where
  version_ : IpVersion
  addr_ : AddressStorage

/-- `std::hash<uint64_t>`, `base::CityHash64` and `std::hash<std::string>`, whatever they compute. -/
structure HashFunctions where
  uint64 : UInt64 → UInt64
  cityHash64 : List UInt8 → UInt64
  string : List UInt8 → UInt64

namespace GeneralSocketAddress

/-- The default constructor. -/
def new : GeneralSocketAddress := ⟨.kIp4, .addr4 ⟨0, 0⟩⟩

/-- The constructor from `NewSockAddress4`. -/
def ofAddress4 (a : NewSockAddress4) : GeneralSocketAddress := ⟨.kIp4, .addr4 a⟩

/-- The constructor from `SocketAddress6`. -/
def ofAddress6 (a : SocketAddress6) : GeneralSocketAddress := ⟨.kIp6, .addr6 a⟩

/-- The constructor from `SocketAddressUnix`. -/
def ofUnix (a : SocketAddressUnix) : GeneralSocketAddress := ⟨.kUnix, .addr_unix a⟩

/-- The copy constructor. -/
def copy (a : GeneralSocketAddress) : Checked GeneralSocketAddress :=
  match a.version_ with
  | .kIp4 => do
    let x ← a.addr_.getAddr4
    pure ⟨.kIp4, .addr4 x⟩
  | .kIp6 => do
    let x ← a.addr_.getAddr6
    pure ⟨.kIp6, .addr6 x⟩
  | .kUnix => do
    let x ← a.addr_.getUnix
    pure ⟨.kUnix, .addr_unix x⟩

/-- `Destroy()`: the destructor of the member that `version_` names. -/
def destroy (a : GeneralSocketAddress) : Checked GeneralSocketAddress :=
  match a.version_ with
  | .kIp4 => do
    let _ ← a.addr_.getAddr4
    pure { a with addr_ := .none }
  | .kIp6 => do
    let _ ← a.addr_.getAddr6
    pure { a with addr_ := .none }
  | .kUnix => do
    let _ ← a.addr_.getUnix
    pure { a with addr_ := .none }

/-- `operator=` for two objects; the check for self-assignment is in `Act.perform`. -/
def assign (a address : GeneralSocketAddress) : Checked GeneralSocketAddress := do
  let _ ← a.destroy
  address.copy

/-- `SerializeTo` -/
def serializeTo (a : GeneralSocketAddress) (p : Packer) : Checked Packer := do
  let p ← p.pushUint16 a.version_.tag
  match a.version_ with
  | .kIp4 => do
    let x ← a.addr_.getAddr4
    x.serializeTo p
  | .kIp6 => do
    let x ← a.addr_.getAddr6
    x.insert p
  | .kUnix => do
    let x ← a.addr_.getUnix
    x.insert p

/-- `SerializeFrom`, with the assertion compiled out. -/
def serializeFrom (a : GeneralSocketAddress) (u : Unpacker) :
    Checked (GeneralSocketAddress × Unpacker) :=
  let (ver, u) := Unpacker.popUint16.run u
  match IpVersion.ofTag ver with
  | some .kIp4 => do
    let (temp, u) := NewSockAddress4.serializeFrom.run u
    let _ ← a.destroy
    pure (⟨.kIp4, .addr4 temp⟩, u)
  | some .kIp6 => do
    let (temp, u) := SocketAddress6.extract.run u
    let _ ← a.destroy
    pure (⟨.kIp6, .addr6 temp⟩, u)
  | some .kUnix => do
    let (temp, u) := SocketAddressUnix.extract.run u
    let _ ← a.destroy
    pure (⟨.kUnix, .addr_unix temp⟩, u)
  | none => pure (a, u)

/-- `operator==` -/
def equal (a b : GeneralSocketAddress) : Checked Bool :=
  match a.version_ with
  | .kIp4 =>
    if b.version_ = .kIp4 then do
      let x ← a.addr_.getAddr4
      let y ← b.addr_.getAddr4
      pure (x.equal y)
    else pure false
  | .kIp6 =>
    if b.version_ = .kIp6 then do
      let x ← a.addr_.getAddr6
      let y ← b.addr_.getAddr6
      pure (x.equal y)
    else pure false
  | .kUnix =>
    if b.version_ = .kUnix then do
      let x ← a.addr_.getUnix
      let y ← b.addr_.getUnix
      pure (x.equal y)
    else pure false

/-- `GetPort`: a Unix address has port 0. -/
def getPort (a : GeneralSocketAddress) : Checked UInt16 :=
  match a.version_ with
  | .kIp4 => do
    let x ← a.addr_.getAddr4
    pure x.port_
  | .kIp6 => do
    let x ← a.addr_.getAddr6
    pure (htons x.port)
  | .kUnix => pure 0

/-- `GetHash`; the bytes of an IPv6 address are hashed as they lie in memory, up to the port. -/
def getHash (H : HashFunctions) (a : GeneralSocketAddress) : Checked UInt64 :=
  match a.version_ with
  | .kIp4 => do
    let x ← a.addr_.getAddr4
    pure (H.uint64 (x.ip_.toUInt64 <<< 16 + x.port_.toUInt64))
  | .kIp6 => do
    let x ← a.addr_.getAddr6
    pure (H.cityHash64 (x.ip6.bytes ++ leBytes 4 x.scope_id.toNat ++ leBytes 2 x.port.toNat))
  | .kUnix => do
    let x ← a.addr_.getUnix
    pure (H.string x.path)

/-! ## Runs over several addresses -/

/-- What a program does with its addresses, which are numbered.  The packer and the unpacker can be in
    any state. -/
inductive Act
  | default
  | fromAddress4 (a : NewSockAddress4)
  | fromAddress6 (a : SocketAddress6)
  | fromUnix (a : SocketAddressUnix)
  | copy (i : Nat)
  | assign (i j : Nat)
  | serializeTo (i : Nat) (p : Packer)
  | serializeFrom (i : Nat) (u : Unpacker)
  | equal (i j : Nat)
  | getPort (i : Nat)
  | getHash (i : Nat) (H : HashFunctions)
  | destroy (i : Nat)

/-- The object `i`, if there is one. -/
def object (s : List GeneralSocketAddress) (i : Nat) : Checked GeneralSocketAddress :=
  match s[i]? with
  | some a => .ok a
  | none => .error .nullPointer

/-- What an act does to the objects that there are. -/
def Act.perform (s : List GeneralSocketAddress) : Act → Checked (List GeneralSocketAddress)
  | .default => pure (s ++ [new])
  | .fromAddress4 a => pure (s ++ [ofAddress4 a])
  | .fromAddress6 a => pure (s ++ [ofAddress6 a])
  | .fromUnix a => pure (s ++ [ofUnix a])
  | .copy i => do
    let a ← object s i
    let c ← a.copy
    pure (s ++ [c])
  | .assign i j =>
    if i = j then pure s
    else do
      let a ← object s i
      let address ← object s j
      let a ← a.assign address
      pure (s.set i a)
  | .serializeTo i p => do
    let a ← object s i
    let _ ← a.serializeTo p
    pure s
  | .serializeFrom i u => do
    let a ← object s i
    let (a, _) ← a.serializeFrom u
    pure (s.set i a)
  | .equal i j => do
    let a ← object s i
    let b ← object s j
    let _ ← a.equal b
    pure s
  | .getPort i => do
    let a ← object s i
    let _ ← a.getPort
    pure s
  | .getHash i H => do
    let a ← object s i
    let _ ← a.getHash H
    pure s
  | .destroy i => do
    let a ← object s i
    let _ ← a.destroy
    pure (s.eraseIdx i)

/-- One step of a run: the act goes through. -/
def Step (s : List GeneralSocketAddress) (act : Act) (s' : List GeneralSocketAddress) : Prop :=
  act.perform s = .ok s'

/-! ## What an address is -/

end GeneralSocketAddress

/-- An address of one of the three versions. -/
inductive Address
  | ip4 (a : NewSockAddress4)
  | ip6 (a : SocketAddress6)
  | unix (a : SocketAddressUnix)

namespace Address

/-- The version of an address. -/
def version : Address → IpVersion
  | ip4 _ => .kIp4
  | ip6 _ => .kIp6
  | unix _ => .kUnix

/-- The object that holds the address: tag and member in step. -/
def object : Address → GeneralSocketAddress
  | ip4 a => .ofAddress4 a
  | ip6 a => .ofAddress6 a
  | unix a => .ofUnix a

/-- The type of what follows the tag, in the wire format. -/
def layout : IpVersion → Ty
  | .kIp4 => .pair (.scalar .uint32) (.scalar .uint16)
  | .kIp6 =>
    .pair
      (.pair (.scalar .uint32) (.pair (.scalar .uint32) (.pair (.scalar .uint32) (.scalar .uint32))))
      (.pair (.scalar .uint32) (.scalar .uint16))
  | .kUnix => .string

/-- What follows the tag. -/
def content : (a : Address) → (layout a.version).Val
  | ip4 a => (htonl a.ip_, htons a.port_)
  | ip6 a => ((a.ip6.word0, a.ip6.word1, a.ip6.word2, a.ip6.word3), a.scope_id, a.port)
  | unix a => a.path

/-- The bytes that `SerializeTo` writes. -/
def wire (a : Address) : List UInt8 :=
  leBytes 2 a.version.tag.toNat ++ (layout a.version).wire a.content

/-- A path whose length can be written. -/
def Short : Address → Prop
  | ip4 _ => True
  | ip6 _ => True
  | unix a => a.path.length < 2 ^ 23

end Address

namespace GeneralSocketAddress

/-- Tag and member are in step. -/
def InStep (g : GeneralSocketAddress) : Prop := ∃ a : Address, g = a.object

/-! ## The operations on representations -/

/-- Swapping the bytes twice changes nothing. -/
theorem htonl_htonl (x : UInt32) : htonl (htonl x) = x := by
  have hlt : byteSwap 4 x.toNat < 2 ^ 32 := byteSwap_lt 4 x.toNat
  have hsame : byteSwap 4 (byteSwap 4 x.toNat) = x.toNat := byteSwap_byteSwap x.toNat_lt
  unfold htonl
  rw [UInt32.toNat_ofNat', Nat.mod_eq_of_lt hlt, hsame, UInt32.ofNat_toNat]

/-- Swapping the bytes of a port twice changes nothing. -/
theorem htons_htons (x : UInt16) : htons (htons x) = x := by
  have hlt : byteSwap 2 x.toNat < 2 ^ 16 := byteSwap_lt 2 x.toNat
  have hsame : byteSwap 2 (byteSwap 2 x.toNat) = x.toNat := byteSwap_byteSwap x.toNat_lt
  unfold htons
  rw [UInt16.toNat_ofNat', Nat.mod_eq_of_lt hlt, hsame, UInt16.ofNat_toNat]

@[simp] theorem object_version (a : Address) : a.object.version_ = a.version := by
  cases a <;> rfl

@[simp] theorem copy_object (a : Address) : a.object.copy = .ok a.object := by
  cases a <;> rfl

@[simp] theorem destroy_object (a : Address) :
    a.object.destroy = .ok { a.object with addr_ := .none } := by
  cases a <;> rfl

@[simp] theorem assign_object (a b : Address) : a.object.assign b.object = .ok b.object := by
  simp [assign]

/-- Two IPv6 addresses are equal for the source exactly if they are equal. -/
theorem halves_equal (a b : In6Addr) : a.equal b = true ↔ a = b := by
  have h₀ := a.word0.toNat_lt
  have h₂ := a.word2.toNat_lt
  have k₀ := b.word0.toNat_lt
  have k₂ := b.word2.toNat_lt
  constructor
  · intro h
    simp only [In6Addr.equal, In6Addr.halves, Bool.and_eq_true, beq_iff_eq] at h
    obtain ⟨hlow, hhigh⟩ := h
    cases a
    cases b
    simp only [In6Addr.mk.injEq, ← UInt32.toNat_inj] at *
    omega
  · rintro rfl
    simp [In6Addr.equal]

/-- `operator==` is equality. -/
theorem equal_object (a b : Address) : ∃ r, a.object.equal b.object = .ok r ∧ (r = true ↔ a = b) := by
  -- two objects of different versions are never equal
  cases a with
  | ip4 a =>
    cases b with
    | ip4 b =>
      refine ⟨_, rfl, ?_⟩
      cases a
      cases b
      simp [NewSockAddress4.equal]
    | ip6 b => exact ⟨_, rfl, by simp⟩
    | unix b => exact ⟨_, rfl, by simp⟩
  | ip6 a =>
    cases b with
    | ip6 b =>
      refine ⟨_, rfl, ?_⟩
      cases a
      cases b
      simp [SocketAddress6.equal, halves_equal]
      tauto
    | ip4 b => exact ⟨_, rfl, by simp⟩
    | unix b => exact ⟨_, rfl, by simp⟩
  | unix a =>
    cases b with
    | unix b =>
      refine ⟨_, rfl, ?_⟩
      cases a
      cases b
      simp [SocketAddressUnix.equal]
    | ip4 b => exact ⟨_, rfl, by simp⟩
    | ip6 b => exact ⟨_, rfl, by simp⟩

theorem getPort_object (a : Address) : ∃ port, a.object.getPort = .ok port := by
  cases a <;> exact ⟨_, rfl⟩

theorem getHash_object (H : HashFunctions) (a : Address) : ∃ h, a.object.getHash H = .ok h := by
  cases a <;> exact ⟨_, rfl⟩

/-- Writing is writing the tag, and then the content as its type is written. -/
theorem serializeTo_object (a : Address) (p : Packer) :
    a.object.serializeTo p =
      p.pushUint16 a.version.tag >>= fun p => (Address.layout a.version).insert a.content p := by
  cases a with
  | ip4 a => rfl
  | ip6 a => rfl
  | unix a => rfl

/-- What the content reads as. -/
def ofContent : (v : IpVersion) → (Address.layout v).Val → Address
  | .kIp4, x => .ip4 ⟨htonl (Prod.fst x), htons (Prod.snd x)⟩
  | .kIp6, x => .ip6 ⟨⟨Prod.fst (Prod.fst x), Prod.fst (Prod.snd (Prod.fst x)),
      Prod.fst (Prod.snd (Prod.snd (Prod.fst x))), Prod.snd (Prod.snd (Prod.snd (Prod.fst x)))⟩,
      Prod.fst (Prod.snd x), Prod.snd (Prod.snd x)⟩
  | .kUnix, x => .unix ⟨x⟩

/-- What is unpacked of an IPv6 address, scope and port included. -/
theorem decode_kIp6 : (Address.layout .kIp6).decode .first =
    extractPair
      (extractPair Unpacker.popUint32
        (extractPair Unpacker.popUint32 (extractPair Unpacker.popUint32 Unpacker.popUint32)))
      (extractPair Unpacker.popUint32 Unpacker.popUint16) := rfl

/-- Reading is reading the tag, and then the content as its type is read; an unknown tag is all that
    is read. -/
theorem serializeFrom_object (a : Address) (u : Unpacker) :
    a.object.serializeFrom u =
      match IpVersion.ofTag (Unpacker.popUint16.run u).1 with
      | some v =>
        let x := ((Address.layout v).decode .first).run (Unpacker.popUint16.run u).2
        .ok ((ofContent v x.1).object, x.2)
      | none => .ok (a.object, (Unpacker.popUint16.run u).2) := by
  unfold serializeFrom
  rcases Unpacker.popUint16.run u with ⟨ver, u⟩
  simp only [destroy_object]
  cases IpVersion.ofTag ver with
  | none => rfl
  | some v =>
    cases v with
    | kIp4 => rfl
    | kUnix => rfl
    | kIp6 =>
      dsimp only
      rw [decode_kIp6]
      unfold SocketAddress6.extract In6Addr.extract
      -- both sides read the same six words, whatever reading a word does
      generalize Unpacker.popUint32 = pop32, Unpacker.popUint16 = pop16
      rfl

@[simp] theorem ofContent_content (a : Address) : ofContent a.version a.content = a := by
  cases a with
  | ip4 a => simp [ofContent, Address.content, Address.version, htonl_htonl, htons_htons]
  | ip6 a => rfl
  | unix a => rfl

@[simp] theorem ofTag_tag (v : IpVersion) : IpVersion.ofTag v.tag = some v := by
  cases v <;> rfl

/-! ## Writing -/

/-- `operator<<` appends the bytes of the value, in a packer that has room for them. -/
def Writes (t : Ty) (x : t.Val) : Prop :=
  ∀ (p : Packer) (bs : List UInt8), p.Holds bs → p.position + (t.wire x).length + 1 < 2 ^ 32 →
    ∃ p', t.insert x p = .ok p' ∧ p'.Holds (bs ++ t.wire x)

theorem writes_uint16 (x : UInt16) : Writes (.scalar .uint16) x := by
  intro p bs h hroom
  have hlen : (leBytes 2 x.toNat).length = 2 := leBytes_length 2 _
  exact h.pushWord_ok x.toNat (by
    have hroom' : p.position + (leBytes 2 x.toNat).length + 1 < 2 ^ 32 := hroom
    omega)

theorem writes_uint32 (x : UInt32) : Writes (.scalar .uint32) x := by
  intro p bs h hroom
  have hlen : (leBytes 4 x.toNat).length = 4 := leBytes_length 4 _
  exact h.pushWord_ok x.toNat (by
    have hroom' : p.position + (leBytes 4 x.toNat).length + 1 < 2 ^ 32 := hroom
    omega)

/-- A pair is packed one after the other. -/
theorem writes_pair {s t : Ty} {x : s.Val} {y : t.Val} (hs : Writes s x) (ht : Writes t y) :
    Writes (.pair s t) (x, y) := by
  intro p bs h hroom
  have hwire : (Ty.pair s t).wire (x, y) = s.wire x ++ t.wire y := rfl
  rw [hwire, List.length_append] at hroom
  have hposition := h.position_eq
  obtain ⟨q, hq, hholds⟩ := hs p bs h (by omega)
  have hposition' := hholds.position_eq
  rw [List.length_append] at hposition'
  obtain ⟨p', hp', hholds'⟩ := ht q _ hholds (by omega)
  refine ⟨p', Checked.bind_ok.mpr ⟨q, hq, hp'⟩, ?_⟩
  rw [hwire, ← List.append_assoc]
  exact hholds'

/-- A short string on the wire: its length and its bytes. -/
theorem wireString_eq {x : List UInt8} (h : x.length < 2 ^ 32) :
    wireString x = Packer.encVar x.length ++ x := by
  rw [wireString, u32_of_lt h, List.take_length]

theorem writes_string {x : List UInt8} (hlen : x.length < 2 ^ 32) : Writes .string x := by
  intro p bs h hroom
  have hwire : Ty.string.wire x = Packer.encVar x.length ++ x := wireString_eq hlen
  have hwidth := Packer.encVar_length_pos x.length
  rw [hwire, List.length_append] at hroom
  obtain ⟨p', hp'⟩ := h.pushString_ok (show p.position + 3 + x.length < 2 ^ 32 by omega)
  exact ⟨p', hp', pushString_appends x p p' bs h hp'⟩

theorem content_writes (a : Address) (h : a.Short) : Writes (Address.layout a.version) a.content := by
  cases a with
  | ip4 a => exact writes_pair (writes_uint32 _) (writes_uint16 _)
  | ip6 a =>
    have hwords := writes_pair (writes_uint32 a.ip6.word2) (writes_uint32 a.ip6.word3)
    have hip := writes_pair (writes_uint32 a.ip6.word0) (writes_pair (writes_uint32 a.ip6.word1) hwords)
    exact writes_pair hip (writes_pair (writes_uint32 _) (writes_uint16 _))
  | unix a => exact writes_string (Nat.lt_trans h (by decide))

/-- `SerializeTo` appends the bytes of the address. -/
theorem serializeTo_appends (a : Address) (h : a.Short) {p : Packer} {bs : List UInt8}
    (hp : p.Holds bs) (hroom : p.position + a.wire.length + 1 < 2 ^ 32) :
    ∃ p', a.object.serializeTo p = .ok p' ∧ p'.Holds (bs ++ a.wire) := by
  rw [Address.wire, List.length_append] at hroom
  have hposition := hp.position_eq
  have htag : (leBytes 2 a.version.tag.toNat).length = 2 := leBytes_length 2 _
  obtain ⟨q, hq, hholds⟩ := hp.pushWord_ok a.version.tag.toNat (show p.position + 2 < 2 ^ 32 by omega)
  have hposition' := hholds.position_eq
  rw [List.length_append] at hposition'
  obtain ⟨p', hp', hholds'⟩ := content_writes a h q _ hholds (by omega)
  refine ⟨p', ?_, ?_⟩
  · rw [serializeTo_object]
    exact Checked.bind_ok.mpr ⟨q, hq, hp'⟩
  · rw [Address.wire, ← List.append_assoc]
    exact hholds'

/-! ## Reading -/

/-- A pair is unpacked one after the other. -/
theorem pair_yields {α β : Type} {p : Parsing.Parser UInt8 α} {q : Parsing.Parser UInt8 β}
    {v w : List UInt8} {x : α} {y : β} (h₁ : Parsing.Yields p v x) (h₂ : Parsing.Yields q w y) :
    Parsing.Yields (extractPair p q) (v ++ w) (x, y) :=
  h₁.bind (h₂.map fun y => (x, y))

/-- The strict reader gets the content back, and nothing else. -/
theorem content_yields (a : Address) (h : a.Short) :
    let t := Address.layout a.version
    Parsing.Yields (t.extract Strict.source .first t.initial) (t.wire a.content) a.content := by
  cases a with
  | ip4 a => exact pair_yields (uint32_yields _) (uint16_yields _)
  | ip6 a =>
    have hwords := pair_yields (uint32_yields a.ip6.word2) (uint32_yields a.ip6.word3)
    have hip := pair_yields (uint32_yields a.ip6.word0) (pair_yields (uint32_yields a.ip6.word1) hwords)
    exact pair_yields hip (pair_yields (uint32_yields _) (uint16_yields _))
  | unix a =>
    have hlt : a.path.length < 2 ^ 32 := Nat.lt_trans h (by decide)
    have hwire : Ty.string.wire a.path = Packer.encVar a.path.length ++ a.path := wireString_eq hlt
    show Parsing.Yields Strict.popData (Ty.string.wire a.path) a.path
    rw [hwire]
    exact Strict.popData_yields h

/-- Where the bytes of an address lie ahead, whatever lies behind them, any object becomes that
    address, and exactly these bytes are consumed. -/
theorem serializeFrom_wire (a b : Address) (h : a.Short) {u : Unpacker} (hat : u.At a.wire) :
    ∃ u', b.object.serializeFrom u = .ok (a.object, u') ∧
      u'.position = u.position + a.wire.length := by
  obtain ⟨hver, hrest, -, hpos, -⟩ :=
    Unpacker.Follows.popUint16.success hat (uint16_yields a.version.tag _)
  have hread := content_yields a h []
  rw [List.append_nil] at hread
  obtain ⟨hval, -, -, hpos', -⟩ :=
    ((Address.layout a.version).extract_follows .first _).success hrest hread
  rw [List.length_nil, Nat.add_zero, hpos] at hpos'
  refine ⟨_, ?_, hpos'⟩
  rw [serializeFrom_object, hver, ofTag_tag]
  show Except.ok ((ofContent a.version _).object, _) = _
  rw [Ty.decode, hval, ofContent_content]

/-- An unknown tag leaves any object exactly as it was. -/
theorem serializeFrom_unknown (g : GeneralSocketAddress) (u : Unpacker)
    (h : IpVersion.ofTag (Unpacker.popUint16.run u).1 = none) :
    g.serializeFrom u = .ok (g, (Unpacker.popUint16.run u).2) := by
  unfold serializeFrom
  rcases hpop : Unpacker.popUint16.run u with ⟨ver, u'⟩
  rw [hpop] at h
  simp only at h
  simp only [h]
  rfl

/-- No other tag is one of an address. -/
theorem ofTag_eq_none {ver : UInt16} (h₀ : ver ≠ 0) (h₁ : ver ≠ 1) (h₂ : ver ≠ 2) :
    IpVersion.ofTag ver = none := by
  unfold IpVersion.ofTag
  rw [if_neg h₀, if_neg h₁, if_neg h₂]

/-! ## No fault of the union -/

/-- The computation does not use a member that is not alive. -/
def Clean {α : Type} (x : Checked α) : Prop := x ≠ .error .indeterminate

/-- What goes through is clean. -/
theorem Clean.ok {α : Type} (a : α) : Clean (.ok a) := nofun

/-- What goes on clean is clean. -/
theorem Clean.bind {α β : Type} {x : Checked α} {f : α → Checked β} (hx : Clean x)
    (hf : ∀ a, x = .ok a → Clean (f a)) : Clean (x >>= f) := by
  cases x with
  | error e => exact fun h => hx (congrArg Except.error (Except.error.inj h))
  | ok a => exact hf a rfl

theorem clean_checkSize (p : Packer) (more position : Nat) : Clean (p.checkSize more position) := by
  unfold Packer.checkSize
  simp only
  split
  · refine Clean.bind ?_ fun m _ => Clean.ok _
    unfold MemBuf.createSized
    split
    · exact Clean.ok _
    · nofun
  · exact Clean.ok p

theorem clean_store (m : MemBuf) (pos : Nat) (bs : List UInt8) : Clean (m.store pos bs) := by
  unfold MemBuf.store
  split
  · exact Clean.ok _
  · nofun

theorem clean_pushWord (p : Packer) (width val : Nat) : Clean (p.pushWord width val) :=
  (clean_checkSize p width p.position).bind fun q _ =>
    (clean_store q.mem q.position _).bind fun _ _ => Clean.ok _

theorem clean_pushString (p : Packer) (val : List UInt8) : Clean (p.pushString val) := by
  have hdata : ∀ q : Packer, Clean (q.pushData val (u32 val.length)) := by
    intro q
    refine (clean_checkSize q _ _).bind fun q' _ => ?_
    split
    · exact (clean_store q'.mem q'.position _).bind fun _ _ => Clean.ok _
    · exact Clean.ok _
  have hlength : Clean (p.pushVariableUint32 (u32 val.length)) := by
    refine (clean_checkSize p _ _).bind fun q _ => ?_
    split
    · exact (clean_store q.mem q.position _).bind fun _ _ => Clean.ok _
    · exact (clean_store q.mem q.position _).bind fun m _ =>
        (clean_store m _ _).bind fun _ _ => Clean.ok _
  exact hlength.bind fun q _ => hdata q.1

theorem clean_content (a : Address) (p : Packer) :
    Clean ((Address.layout a.version).insert a.content p) := by
  cases a with
  | ip4 a => exact (clean_pushWord p 4 _).bind fun q _ => clean_pushWord q 2 _
  | ip6 a =>
    refine Clean.bind ?_ fun q _ => (clean_pushWord q 4 _).bind fun q _ => clean_pushWord q 2 _
    exact (clean_pushWord p 4 _).bind fun q _ => (clean_pushWord q 4 _).bind fun q _ =>
      (clean_pushWord q 4 _).bind fun q _ => clean_pushWord q 4 _
  | unix a => exact clean_pushString p a.path

/-! ## Runs -/

/-- All addresses are in step. -/
def AllInStep (s : List GeneralSocketAddress) : Prop := ∀ g ∈ s, g.InStep

/-- One object more is in step. -/
theorem AllInStep.concat {s : List GeneralSocketAddress} (hs : AllInStep s) (a : Address) :
    AllInStep (s ++ [a.object]) := by
  intro g hg
  rcases List.mem_append.mp hg with hg | hg
  · exact hs g hg
  · exact ⟨a, List.mem_singleton.mp hg⟩

/-- An object in the place of another is in step. -/
theorem AllInStep.set {s : List GeneralSocketAddress} (hs : AllInStep s) (i : Nat) (a : Address) :
    AllInStep (s.set i a.object) := by
  intro g hg
  rcases List.mem_or_eq_of_mem_set hg with hg | rfl
  · exact hs g hg
  · exact ⟨a, rfl⟩

/-- Without an object the others are in step. -/
theorem AllInStep.eraseIdx {s : List GeneralSocketAddress} (hs : AllInStep s) (i : Nat) :
    AllInStep (s.eraseIdx i) := fun g hg => hs g (List.mem_of_mem_eraseIdx hg)

/-- A computation that uses no dead member and leaves all addresses in step. -/
def Sound (x : Checked (List GeneralSocketAddress)) : Prop :=
  Clean x ∧ ∀ s, x = .ok s → AllInStep s

theorem Sound.ok {s : List GeneralSocketAddress} (h : AllInStep s) : Sound (.ok s) := by
  refine ⟨Clean.ok s, ?_⟩
  rintro t ⟨⟩
  exact h

theorem Sound.bind {α : Type} {x : Checked α} {f : α → Checked (List GeneralSocketAddress)}
    (hx : Clean x) (hf : ∀ a, x = .ok a → Sound (f a)) : Sound (x >>= f) := by
  refine ⟨hx.bind fun a ha => (hf a ha).1, fun s hs => ?_⟩
  obtain ⟨a, ha, hs⟩ := Checked.bind_ok.mp hs
  exact (hf a ha).2 s hs

/-- The use of an object of the list: it holds an address. -/
theorem Sound.object {s : List GeneralSocketAddress} (hs : AllInStep s) {i : Nat}
    {f : GeneralSocketAddress → Checked (List GeneralSocketAddress)}
    (hf : ∀ a : Address, Sound (f a.object)) : Sound (object s i >>= f) := by
  unfold GeneralSocketAddress.object
  cases hi : s[i]? with
  | none => exact ⟨nofun, nofun⟩
  | some g =>
    obtain ⟨a, rfl⟩ := hs g (List.mem_of_getElem? hi)
    exact hf a

/-- **One act**: tag and member stay in step, whatever the packer and the unpacker hold. -/
theorem perform_sound {s : List GeneralSocketAddress} (hs : AllInStep s) (act : Act) :
    Sound (act.perform s) := by
  -- the objects that the operation reads are in step, and so is the object that it makes
  cases act with
  | default => exact .ok (hs.concat (.ip4 ⟨0, 0⟩))
  | fromAddress4 a => exact .ok (hs.concat (.ip4 a))
  | fromAddress6 a => exact .ok (hs.concat (.ip6 a))
  | fromUnix a => exact .ok (hs.concat (.unix a))
  | copy i =>
    refine .object hs fun a => ?_
    rw [copy_object]
    exact .ok (hs.concat a)
  | assign i j =>
    rw [Act.perform]
    split
    · exact .ok hs
    · refine .object hs fun a => .object hs fun b => ?_
      rw [assign_object]
      exact .ok (hs.set i b)
  | serializeTo i p =>
    refine .object hs fun a => ?_
    rw [serializeTo_object]
    refine .bind ?_ fun _ _ => .ok hs
    exact (clean_pushWord p 2 _).bind fun q _ => clean_content a q
  -- a failed read of the version leaves the object with the version it has read so far
  | serializeFrom i u =>
    refine .object hs fun a => ?_
    rw [serializeFrom_object]
    split
    · exact .ok (hs.set i _)
    · exact .ok (hs.set i a)
  | equal i j =>
    refine .object hs fun a => .object hs fun b => ?_
    obtain ⟨r, hr, -⟩ := equal_object a b
    rw [hr]
    exact .ok hs
  | getPort i =>
    refine .object hs fun a => ?_
    obtain ⟨port, hport⟩ := getPort_object a
    rw [hport]
    exact .ok hs
  | getHash i H =>
    refine .object hs fun a => ?_
    obtain ⟨h, hh⟩ := getHash_object H a
    rw [hh]
    exact .ok hs
  | destroy i =>
    refine .object hs fun a => ?_
    rw [destroy_object]
    exact .ok (hs.eraseIdx i)

/-- In every reachable state. -/
theorem run_inStep {s : List GeneralSocketAddress}
    {ts : List (List GeneralSocketAddress × Act × List GeneralSocketAddress)}
    (hrun : Run Step [] ts s) : AllInStep s := by
  have hstep : ∀ s act t, AllInStep s → Step s act t → AllInStep t :=
    fun s act t hs hst => (perform_sound hs act).2 t hst
  exact (Run.invariant hstep hrun nofun).1

/-! ## The headline -/

/-- What `a.SerializeTo` appends to an open packer is read back by `SerializeFrom` into `b`, whatever
    lies behind it. -/
def RoundTrips (a b : GeneralSocketAddress) : Prop :=
  ∀ (p : Packer) (bs : List UInt8), p.Holds bs → p.position < 2 ^ 31 →
    ∃ p' written, a.serializeTo p = .ok p' ∧ p'.Holds (bs ++ written) ∧
      ∀ u : Unpacker, u.At written →
        ∃ b' u', b.serializeFrom u = .ok (b', u') ∧ u'.position = u.position + written.length ∧
          b'.equal a = .ok true ∧ b'.version_ = a.version_ ∧ b'.getPort = a.getPort ∧
          ∀ H, b'.getHash H = a.getHash H

/-- The bytes of a short address have a length below `2^24`. -/
theorem wire_length_lt (a : Address) (h : a.Short) : a.wire.length < 2 ^ 24 := by
  have hcontent : ((Address.layout a.version).wire a.content).length < 2 ^ 23 + 3 := by
    -- only the path has no fixed length
    cases a with
    | ip4 a =>
      show (leBytes 4 _ ++ leBytes 2 _).length < _
      simp only [List.length_append, leBytes_length]
      omega
    | ip6 a =>
      show ((leBytes 4 _ ++ (leBytes 4 _ ++ (leBytes 4 _ ++ leBytes 4 _))) ++
        (leBytes 4 _ ++ leBytes 2 _)).length < _
      simp only [List.length_append, leBytes_length]
      omega
    | unix a =>
      have hlt : a.path.length < 2 ^ 23 := h
      have hwire : Ty.string.wire a.path = Packer.encVar a.path.length ++ a.path :=
        wireString_eq (Nat.lt_trans hlt (by decide))
      show (Ty.string.wire a.path).length < _
      rw [hwire, List.length_append, Packer.encVar_length, Packer.variableUint32Length]
      split <;> omega
  rw [Address.wire, List.length_append, leBytes_length]
  omega

/-- An address that is unpacked into any other one is the address that was packed. -/
theorem object_roundTrips (a b : Address) (h : a.Short) : RoundTrips a.object b.object := by
  intro p bs hp hroom
  have hlen := wire_length_lt a h
  obtain ⟨p', hp', hholds⟩ := serializeTo_appends a h hp (by omega)
  refine ⟨p', a.wire, hp', hholds, fun u hat => ?_⟩
  obtain ⟨u', hread, hpos⟩ := serializeFrom_wire a b h hat
  obtain ⟨r, hr, htrue⟩ := equal_object a a
  exact ⟨a.object, u', hread, hpos, by rw [hr, htrue.mpr rfl], rfl, rfl, fun _ => rfl⟩

/-- **Serialization of addresses.**  Whatever an object held before, it becomes the address whose bytes
    it reads, if that is no Unix path of 2^23 bytes or more; a tag that is none of the three leaves it
    exactly as it was; and in every run over several addresses, tag and member are in step throughout,
    so that no member is used that is not alive. -/
theorem serialize_faithful :
    (∀ a b : Address, a.Short → RoundTrips a.object b.object) ∧
    (∀ (b : GeneralSocketAddress) (u : Unpacker) (ver : UInt16), (Unpacker.popUint16.run u).1 = ver →
      ver ≠ 0 → ver ≠ 1 → ver ≠ 2 → b.serializeFrom u = .ok (b, (Unpacker.popUint16.run u).2)) ∧
    (∀ (s : List GeneralSocketAddress)
      (ts : List (List GeneralSocketAddress × Act × List GeneralSocketAddress)), Run Step [] ts s →
      (∀ g ∈ s, g.InStep) ∧ ∀ act : Act, act.perform s ≠ .error .indeterminate) := by
  refine ⟨object_roundTrips, ?_, ?_⟩
  · rintro b u ver rfl h₀ h₁ h₂
    exact serializeFrom_unknown b u (ofTag_eq_none h₀ h₁ h₂)
  · intro s ts hrun
    have hs := run_inStep hrun
    exact ⟨hs, fun act => (perform_sound hs act).1⟩

/-- A length of 2^23 is written as a length of 0. -/
theorem popData_longest (data : List UInt8) :
    Strict.popData.run (Packer.encVar (2 ^ 23) ++ data) = some ([], data) := by
  have hlength : Strict.popVariableUint32.run ([0, 128, 0] ++ data) = some (0, data) := by
    have hzero : leNat [0] * 0x8000 + (leNat [0, 128] &&& 0x7FFF) = 0 := by decide
    rw [Strict.popVariableUint32_run, if_neg (by simp), if_neg (by simp), if_neg (by simp)]
    show some (leNat [0] * 0x8000 + (leNat [0, 128] &&& 0x7FFF), data) = _
    rw [hzero]
  have hbytes : Packer.encVar (2 ^ 23) = [0, 128, 0] := by decide
  rw [hbytes, Strict.popData, Parsing.bind_run, hlength, Option.bind_some]
  show (if 0 ≤ data.length then some (data.take 0, data.drop 0) else none) = some ([], data)
  rw [if_pos (Nat.zero_le _), List.take_zero, List.drop_zero]

/-- A path of 2^23 bytes reads as an empty one. -/
theorem long_path_lost :
    ¬RoundTrips (ofUnix ⟨List.replicate (2 ^ 23) 0⟩) new := by
  let a : Address := .unix ⟨List.replicate (2 ^ 23) 0⟩
  intro h
  obtain ⟨p', written, hp', hholds, hread⟩ :=
    h (Packer.new 0) [] (Packer.holds_new 0) (show 4 < 2 ^ 31 by decide)
  -- what was written is the tag and the string
  have hwire : p'.Holds a.wire := by
    rw [show ofUnix ⟨List.replicate (2 ^ 23) 0⟩ = a.object from rfl, serializeTo_object] at hp'
    obtain ⟨q, hq, hinsert⟩ := Checked.bind_ok.mp hp'
    exact (Address.layout a.version).insert_appends _ _ _ _
      (Packer.pushWord_holds (Packer.holds_new 0) hq) hinsert
  let u : Unpacker := ⟨fun i => (p'.mem.cells (4 + i)).getD 0, 0, 0, 0, 0⟩
  have hat : ∀ bs : List UInt8, p'.Holds bs → u.At bs := by
    intro bs hbs
    refine ⟨?_, fun i hi => ?_⟩
    · have hpos := hbs.position_eq
      have hle := hbs.position_le
      have hlt := hbs.capacity_lt
      show 0 + bs.length < 2 ^ 32
      omega
    · show (p'.mem.cells (4 + (0 + i))).getD 0 = bs[i]
      rw [Nat.zero_add, hbs.cells i hi, List.getElem?_eq_getElem hi, Option.getD_some]
  obtain ⟨b', u', hb', -, hequal, -⟩ := hread u (hat written hholds)
  -- the string reads as an empty one
  obtain ⟨hver, hrest, -⟩ := Unpacker.Follows.popUint16.success (hat _ hwire) (uint16_yields 2 _)
  have hstring : (Address.layout a.version).wire a.content =
      Packer.encVar (2 ^ 23) ++ List.replicate (2 ^ 23) 0 := by
    show wireString (List.replicate (2 ^ 23) 0) = _
    rw [wireString_eq (by rw [List.length_replicate]; decide), List.length_replicate]
  rw [hstring] at hrest
  obtain ⟨hval, -⟩ := Unpacker.Follows.popString.success hrest (popData_longest _)
  have hempty : b' = (Address.unix ⟨[]⟩).object := by
    have hfrom := serializeFrom_object (.ip4 ⟨0, 0⟩) u
    rw [hver, show IpVersion.ofTag 2 = some .kUnix from rfl] at hfrom
    have hsame := hb'.symm.trans hfrom
    rw [(Prod.mk.inj (Except.ok.inj hsame)).1]
    show (Address.unix ⟨(Unpacker.popString.run (Unpacker.popUint16.run u).2).1⟩).object = _
    rw [hval]
  obtain ⟨r, hr, htrue⟩ := equal_object (.unix ⟨[]⟩) a
  rw [hempty, show ofUnix ⟨List.replicate (2 ^ 23) 0⟩ = a.object from rfl, hr] at hequal
  have hpath := htrue.mp (Except.ok.inj hequal)
  have hnil : ([] : List UInt8) = List.replicate (2 ^ 23) 0 :=
    congrArg SocketAddressUnix.path (Address.unix.inj hpath)
  have hlen := congrArg List.length hnil
  rw [List.length_replicate] at hlen
  exact absurd hlen (by decide)

end GeneralSocketAddress

end Turnserver
