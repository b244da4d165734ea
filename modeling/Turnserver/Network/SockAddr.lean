/-
  CONVERSION OF ADDRESSES (`network/address_types.h`, 514–533, `.cpp`, 19–86, 136–212, `.inl`, 6–26) —
  to `sockaddr_storage` and back.

  The storage is written as one of three structs, and `ss_family` says as which one it is read.  A
  read as another one is a fault, and so is a path without its NUL.
  * An IPv4 address has three forms, two in network order and one in host order; `Ip4.hostOrder` is
    what they all mean, and no conversion changes it.
  * A path is written by `snprintf` with one byte less than the array has, so the last path that fits
    into the array is cut short: `storage_iff`.
-/
import Turnserver.Lib.CStr
import Turnserver.Network.AddressTypes

namespace Turnserver

open CStr

/-! ## The structs of the system -/

/-- `AF_UNIX` -/
def AF_UNIX : UInt16 := 1

/-- `AF_INET` -/
def AF_INET : UInt16 := 2

/-- `AF_INET6` -/
def AF_INET6 : UInt16 := 10

/-- `sockaddr_in`, in network order. -/
structure SockaddrIn where
  sin_family : UInt16
  sin_port : UInt16
  s_addr : UInt32

/-- `sockaddr_in6` -/
structure SockaddrIn6 where
  sin6_family : UInt16
  sin6_port : UInt16
  sin6_flowinfo : UInt32
  sin6_addr : In6Addr
  sin6_scope_id : UInt32

/-- `sockaddr_un`; `sun_path` has 108 bytes. -/
structure SockaddrUn where
  sun_family : UInt16
  sun_path : List UInt8

/-- `sockaddr_storage`, by the struct that was written to it last. -/
inductive SockaddrStorage
  | in4 (a : SockaddrIn)
  | in6 (a : SockaddrIn6)
  | un (a : SockaddrUn)

/-- `ss_family` -/
def SockaddrStorage.ss_family : SockaddrStorage → UInt16
  | in4 a => a.sin_family
  | in6 a => a.sin6_family
  | un a => a.sun_family

/-- The string that a pointer points to. -/
def stringAt (mem : List UInt8) : Checked (List UInt8) :=
  match cstr mem with
  | some s => .ok s
  | none => .error .outOfBounds

/-! ## The conversions -/

/-- `SocketAddress4`: an IPv4 address, in network order. -/
structure SocketAddress4 where
  ip : UInt32
  port : UInt16
  deriving DecidableEq

namespace SocketAddress4

/-- The constructor of `SocketAddress4` from `sockaddr_in`. -/
def ofSockaddrIn (address : SockaddrIn) : SocketAddress4 := ⟨address.s_addr, address.sin_port⟩

/-- The conversion of `SocketAddress4` to `sockaddr_in`. -/
def toSockaddrIn (a : SocketAddress4) : SockaddrIn := ⟨AF_INET, a.port, a.ip⟩

/-- `Ip()`, in host order -/
def hostIp (a : SocketAddress4) : UInt32 := htonl a.ip

/-- `Port()`, in host order -/
def hostPort (a : SocketAddress4) : UInt16 := htons a.port

end SocketAddress4

namespace NewSockAddress4

/-- The constructor of `NewSockAddress4` from `SocketAddress4`. -/
def ofSocketAddress4 (address : SocketAddress4) : NewSockAddress4 :=
  ⟨address.hostIp, address.hostPort⟩

/-- The constructor of `NewSockAddress4` from `sockaddr_in`. -/
def ofSockaddrIn (addr : SockaddrIn) : NewSockAddress4 := ⟨htonl addr.s_addr, htons addr.sin_port⟩

/-- The conversion of `NewSockAddress4` to `sockaddr_in`. -/
def toSockaddrIn (a : NewSockAddress4) : SockaddrIn := ⟨AF_INET, htons a.port_, htonl a.ip_⟩

/-- `GeneralSocketAddress::operator SocketAddress4()` -/
def toSocketAddress4 (a : NewSockAddress4) : SocketAddress4 := ⟨htonl a.ip_, htons a.port_⟩

end NewSockAddress4

namespace SocketAddress6

/-- The constructor of `SocketAddress6` from `sockaddr_in6`. -/
def ofSockaddrIn6 (a : SockaddrIn6) : SocketAddress6 := ⟨a.sin6_addr, a.sin6_scope_id, a.sin6_port⟩

/-- The conversion of `SocketAddress6` to `sockaddr_in6`. -/
def toSockaddrIn6 (a : SocketAddress6) : SockaddrIn6 := ⟨AF_INET6, a.port, 0, a.ip6, a.scope_id⟩

end SocketAddress6

namespace SocketAddressUnix

/-- The constructor of `SocketAddressUnix` from `sockaddr_un`: the path ends at the first NUL. -/
def ofSockaddrUn (address : SockaddrUn) : Checked SocketAddressUnix := do
  let path ← stringAt address.sun_path
  pure ⟨path⟩

/-- `snprintf(addr.sun_path, sizeof(addr.sun_path) - 1, "%s", path.c_str())` into zeros -/
def toSockaddrUn (a : SocketAddressUnix) : Checked SockaddrUn := do
  let path ← stringAt (a.path ++ [0])
  pure ⟨AF_UNIX, snprintf (List.replicate 108 0) (108 - 1) path⟩

end SocketAddressUnix

namespace GeneralSocketAddress

/-- `GeneralSocketAddress(const sockaddr_storage &a)`; nothing is set for another family. -/
def ofStorage (a : SockaddrStorage) : Checked GeneralSocketAddress :=
  if a.ss_family = AF_INET then
    match a with
    | .in4 rhs => pure ⟨.kIp4, .addr4 (NewSockAddress4.ofSockaddrIn rhs)⟩
    | _ => .error .indeterminate
  else if a.ss_family = AF_INET6 then
    match a with
    | .in6 rhs => pure ⟨.kIp6, .addr6 (SocketAddress6.ofSockaddrIn6 rhs)⟩
    | _ => .error .indeterminate
  else if a.ss_family = AF_UNIX then
    match a with
    | .un rhs => do
      let x ← SocketAddressUnix.ofSockaddrUn rhs
      pure ⟨.kUnix, .addr_unix x⟩
    | _ => .error .indeterminate
  else .error .indeterminate

/-- `operator sockaddr_storage()` -/
def toStorage (a : GeneralSocketAddress) : Checked SockaddrStorage :=
  match a.version_ with
  | .kIp4 => do
    let x ← a.addr_.getAddr4
    pure (.in4 x.toSockaddrIn)
  | .kIp6 => do
    let x ← a.addr_.getAddr6
    pure (.in6 x.toSockaddrIn6)
  | .kUnix => do
    let x ← a.addr_.getUnix
    let x ← x.toSockaddrUn
    pure (.un x)

end GeneralSocketAddress

/-! ## The storage -/

namespace Address

/-- There and back, and then `==`. -/
def RoundTrip (a : Address) : Prop :=
  ∃ s g, a.object.toStorage = .ok s ∧ GeneralSocketAddress.ofStorage s = .ok g ∧
    g.equal a.object = .ok true

/-- A path without NUL that is at most 106 bytes long. -/
def FitsStorage : Address → Prop
  | ip4 _ => True
  | ip6 _ => True
  | unix a => 0 ∉ a.path ∧ a.path.length ≤ 106

/-- An address equals itself. -/
theorem equal_self (a : Address) : a.object.equal a.object = .ok true := by
  obtain ⟨r, hr, heq⟩ := GeneralSocketAddress.equal_object a a
  rw [hr, heq.mpr rfl]

/-- What an address comes back as. -/
theorem roundTrip_iff {a b : Address} {s : SockaddrStorage} (hto : a.object.toStorage = .ok s)
    (hof : GeneralSocketAddress.ofStorage s = .ok b.object) : a.RoundTrip ↔ b = a := by
  constructor
  · rintro ⟨s', g, hs, hg, heq⟩
    obtain rfl : s = s' := Except.ok.inj (hto.symm.trans hs)
    obtain rfl : b.object = g := Except.ok.inj (hof.symm.trans hg)
    obtain ⟨r, hr, hiff⟩ := GeneralSocketAddress.equal_object b a
    rw [hr] at heq
    exact hiff.mp (Except.ok.inj heq)
  · rintro rfl
    exact ⟨s, b.object, hto, hof, equal_self b⟩

/-- `NewSockAddress4` comes back from `sockaddr_in`. -/
theorem newSockAddress4_back (a : NewSockAddress4) :
    NewSockAddress4.ofSockaddrIn a.toSockaddrIn = a := by
  rw [NewSockAddress4.ofSockaddrIn, NewSockAddress4.toSockaddrIn,
    GeneralSocketAddress.htonl_htonl, GeneralSocketAddress.htons_htons]

/-- A path comes back up to its first NUL, and at most 106 bytes of it. -/
theorem unix_back (a : SocketAddressUnix) :
    ∃ path x, cstr (a.path ++ [0]) = some path ∧ a.toSockaddrUn = .ok x ∧
      x.sun_family = AF_UNIX ∧ SocketAddressUnix.ofSockaddrUn x = .ok ⟨path.take 106⟩ := by
  cases hpath : cstr (a.path ++ [0]) with
  | none => exact absurd (List.mem_append_right _ List.mem_cons_self) (cstr_eq_none.mp hpath)
  | some path =>
    refine ⟨path, ⟨AF_UNIX, snprintf (List.replicate 108 0) (108 - 1) path⟩, rfl, ?_, rfl, ?_⟩
    · rw [SocketAddressUnix.toSockaddrUn, stringAt, hpath]
      rfl
    · rw [SocketAddressUnix.ofSockaddrUn, stringAt, cstr_snprintf (cstr_eq_some.mp hpath).1]
      rfl

/-- The path comes back whole when no NUL cuts it and it is short enough. -/
theorem cut_iff {p path : List UInt8} (h : cstr (p ++ [0]) = some path) (n : Nat) :
    path.take n = p ↔ 0 ∉ p ∧ p.length ≤ n := by
  constructor
  · intro heq
    refine ⟨fun h0 => (cstr_eq_some.mp h).1 (List.mem_of_mem_take (heq ▸ h0)), ?_⟩
    rw [← heq]
    exact List.length_take_le n path
  · rintro ⟨h0, hlen⟩
    obtain rfl : p = path := Option.some_inj.mp ((cstr_append h0 []).symm.trans h)
    exact List.take_of_length_le hlen

/-- **Exactly when an address survives the storage.** -/
theorem roundTrip_iff_fits (a : Address) : a.RoundTrip ↔ a.FitsStorage := by
  cases a with
  | ip4 a =>
    refine iff_of_true ((roundTrip_iff (b := ip4 a) rfl ?_).mpr rfl) trivial
    show Except.ok (object (ip4 (NewSockAddress4.ofSockaddrIn a.toSockaddrIn))) = _
    rw [newSockAddress4_back]
  | ip6 a => exact iff_of_true ((roundTrip_iff (b := ip6 a) rfl rfl).mpr rfl) trivial
  -- a path longer than the field is cut at 106 bytes, and comes back cut
  | unix a =>
    obtain ⟨path, x, hpath, hto, hfamily, hof⟩ := unix_back a
    have hstorage : (unix a).object.toStorage = .ok (.un x) := by
      show (a.toSockaddrUn >>= fun x => pure (SockaddrStorage.un x)) = _
      rw [hto]
      rfl
    have hback : GeneralSocketAddress.ofStorage (.un x) =
        .ok (object (unix ⟨path.take 106⟩)) := by
      rw [GeneralSocketAddress.ofStorage, SockaddrStorage.ss_family, hfamily,
        if_neg (by decide), if_neg (by decide), if_pos rfl, hof]
      rfl
    -- the path comes back exactly if the cut leaves it alone
    rw [roundTrip_iff hstorage hback, FitsStorage, ← cut_iff hpath, unix.injEq]
    constructor
    · intro h
      rw [← h]
    · intro h
      cases a
      exact congrArg SocketAddressUnix.mk h

end Address

/-! ## The forms of an IPv4 address -/

/-- An object that holds an IPv4 address. -/
inductive Ip4
  | socketAddress4 (a : SocketAddress4)
  | newSockAddress4 (a : NewSockAddress4)
  | sockaddrIn (a : SockaddrIn)

/-- The type of such an object. -/
inductive Ip4Type
  | socketAddress4
  | newSockAddress4
  | sockaddrIn

namespace Ip4

/-- Construction of, assignment to, or conversion to an object of the type. -/
def convert : Ip4 → Ip4Type → Ip4
  | socketAddress4 a, .socketAddress4 => socketAddress4 a
  | socketAddress4 a, .newSockAddress4 => newSockAddress4 (.ofSocketAddress4 a)
  | socketAddress4 a, .sockaddrIn => sockaddrIn a.toSockaddrIn
  | newSockAddress4 a, .socketAddress4 => socketAddress4 a.toSocketAddress4
  | newSockAddress4 a, .newSockAddress4 => newSockAddress4 a
  | newSockAddress4 a, .sockaddrIn => sockaddrIn a.toSockaddrIn
  | sockaddrIn a, .socketAddress4 => socketAddress4 (.ofSockaddrIn a)
  | sockaddrIn a, .newSockAddress4 => newSockAddress4 (.ofSockaddrIn a)
  | sockaddrIn a, .sockaddrIn => sockaddrIn a

/-- The ip and the port as the object holds them. -/
def fields : Ip4 → UInt32 × UInt16
  | socketAddress4 a => (a.ip, a.port)
  | newSockAddress4 a => (a.ip_, a.port_)
  | sockaddrIn a => (a.s_addr, a.sin_port)

/-- The type of an IPv4 address. -/
def type : Ip4 → Ip4Type
  | socketAddress4 _ => .socketAddress4
  | newSockAddress4 _ => .newSockAddress4
  | sockaddrIn _ => .sockaddrIn

/-- Host order for one type, and network order for the others. -/
def ofHost (host : UInt32 × UInt16) : Ip4Type → UInt32 × UInt16
  | .newSockAddress4 => host
  | _ => (htonl host.1, htons host.2)

/-- The ip and the port in host order. -/
def hostOrder (a : Ip4) : UInt32 × UInt16 := ofHost a.fields a.type

@[simp] theorem type_convert (a : Ip4) (t : Ip4Type) : (a.convert t).type = t := by
  cases a <;> cases t <;> rfl

/-- A conversion on the way changes nothing. -/
theorem ofHost_ofHost (x : UInt32 × UInt16) (t : Ip4Type) : ofHost (ofHost x t) t = x := by
  cases t <;> simp [ofHost, GeneralSocketAddress.htonl_htonl, GeneralSocketAddress.htons_htons]

/-- A conversion keeps the address. -/
@[simp] theorem hostOrder_convert (a : Ip4) (t : Ip4Type) :
    (a.convert t).hostOrder = a.hostOrder := by
  cases a <;> cases t <;>
    simp [convert, hostOrder, fields, type, ofHost, GeneralSocketAddress.htonl_htonl,
      GeneralSocketAddress.htons_htons, NewSockAddress4.ofSocketAddress4,
      NewSockAddress4.ofSockaddrIn, NewSockAddress4.toSockaddrIn, NewSockAddress4.toSocketAddress4,
      SocketAddress4.hostIp, SocketAddress4.hostPort, SocketAddress4.toSockaddrIn,
      SocketAddress4.ofSockaddrIn]

/-- So does any number of them. -/
theorem hostOrder_foldl (ts : List Ip4Type) (a : Ip4) :
    (ts.foldl convert a).hostOrder = a.hostOrder := by
  induction ts generalizing a with
  | nil => rfl
  | cons t ts ih => rw [List.foldl_cons, ih, hostOrder_convert]

/-- Back in the type it had, an object has the fields it had. -/
theorem fields_foldl (ts : List Ip4Type) (a : Ip4) :
    ((ts.foldl convert a).convert a.type).fields = a.fields := by
  have h := hostOrder_foldl ts a
  rw [← hostOrder_convert _ a.type, hostOrder, type_convert, hostOrder] at h
  rw [← ofHost_ofHost (Ip4.fields _) a.type, h, ofHost_ofHost]

end Ip4

/-- **What the conversions keep.** -/
theorem storage_iff (a : Address) (ts : List Ip4Type) (x : Ip4) :
    (a.RoundTrip ↔ a.FitsStorage) ∧ (ts.foldl Ip4.convert x).hostOrder = x.hostOrder ∧
      ((ts.foldl Ip4.convert x).convert x.type).fields = x.fields :=
  ⟨a.roundTrip_iff_fits, Ip4.hostOrder_foldl ts x, Ip4.fields_foldl ts x⟩

/-- A path of 107 bytes has no NUL and fits into `sun_path` with its terminator, and it comes back one
    byte shorter. -/
theorem storage_fails :
    0 ∉ List.replicate 107 (97 : UInt8) ∧ (List.replicate 107 (97 : UInt8)).length + 1 ≤ 108 ∧
      ¬ (Address.unix ⟨List.replicate 107 97⟩).RoundTrip := by
  refine ⟨?_, ?_, ?_⟩
  · rw [List.mem_replicate]
    decide
  · rw [List.length_replicate]
  · rw [Address.roundTrip_iff_fits, Address.FitsStorage, List.length_replicate]
    rintro ⟨-, hlen⟩
    exact absurd hlen (by decide)

end Turnserver
