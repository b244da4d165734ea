/-
  THE CONNECTIONS OF AN LBS CLIENT (`lbs/uni_lbs_client.cpp`) — which objects the map owns.

  `connections_` maps an ip to a `unique_ptr`.  `ReloadLbsAddresses` builds a new map: it MOVES the
  pointer of an address that it finds in the old map, which leaves a null entry behind, and creates and
  connects an object for every other address.  The swap at the end destroys what the old map still owns.

  1. `Accounted` — every object that was created has one owner, or was destroyed once.  It is a field
     of the states, so nothing below has to say it again.
  2. `Reloading` — what one round of the loop keeps.  The old map has the same keys as before, and a
     null entry exactly where an address was met.  A repeated address finds that null entry, but also
     its key in the new map, and the null pointer stays where it is.
  3. `view` — behind the pointers is the client of `UniLbsClient`, step by step (`view_next`).

  The test for the key in the new map is made for addresses of the old map only.  So the keys and the
  kept objects are as they should be (`reloadLbsAddresses_reconciles`), and an object is created for
  every occurrence of a new address (`reloadLbsAddresses_created_iff`).
-/
import Turnserver.Lbs.UniLbsClient
import Mathlib.Data.List.AList
import Mathlib.Data.List.Dedup

set_option linter.unusedVariables false

namespace Turnserver

open Transition

/-! ## Maps of pointers -/

/-- A `UniLbsConnectionPtr`: null, or the number of an object. -/
abbrev UniLbsConnectionPtr := Option Nat

/-- `std::unordered_map<uint32_t, UniLbsConnectionPtr>` -/
abbrev ConnectionMap := AList fun _ : UInt32 => UniLbsConnectionPtr

namespace ConnectionMap

/-- The objects that a map owns. -/
def owned (m : ConnectionMap) : List Nat := m.entries.filterMap Sigma.snd

/-- The object that an entry owns. -/
def ownedAt (m : ConnectionMap) (ip : UInt32) : List Nat := (m.lookup ip).join.toList

/-- No entry is null. -/
def NonNull (m : ConnectionMap) : Prop := ∀ ip, m.lookup ip ≠ some none

@[simp] theorem owned_empty : owned ∅ = [] := rfl

/-- What the map owns under an address that it has. -/
theorem ownedAt_of_lookup {m : ConnectionMap} {ip : UInt32} {ptr : UniLbsConnectionPtr}
    (h : m.lookup ip = some ptr) : m.ownedAt ip = ptr.toList := by
  unfold ownedAt
  rw [h]
  rfl

/-- The map owns nothing under an address that it does not have. -/
theorem ownedAt_of_not_mem {m : ConnectionMap} {ip : UInt32} (h : ip ∉ m) : m.ownedAt ip = [] := by
  unfold ownedAt
  rw [AList.lookup_eq_none.mpr h]
  rfl

/-- The objects in a list of entries. -/
theorem filterMap_cons (e : Sigma fun _ : UInt32 => UniLbsConnectionPtr)
    (l : List (Sigma fun _ : UInt32 => UniLbsConnectionPtr)) :
    (e :: l).filterMap Sigma.snd = e.2.toList ++ l.filterMap Sigma.snd := by
  rcases e with ⟨ip, _ | o⟩
  · rfl
  · rfl

/-- What a map owns is what one entry owns, and the rest. -/
theorem owned_erase (m : ConnectionMap) (ip : UInt32) :
    (owned m).Perm (ownedAt m ip ++ owned (m.erase ip)) := by
  -- erasing removes the only entry of the address, if there is one
  by_cases hmem : ip ∈ m
  · obtain ⟨ptr, l₁, l₂, hfirst, hentries, herase⟩ := List.exists_of_kerase (AList.mem_keys.mp hmem)
    have hlookup : m.lookup ip = some ptr := by
      show m.entries.dlookup ip = some ptr
      rw [hentries, List.dlookup_append, List.dlookup_eq_none.mpr hfirst, List.dlookup_cons_eq]
      rfl
    have hrest : owned (m.erase ip) = (l₁ ++ l₂).filterMap Sigma.snd := by
      rw [← herase]
      rfl
    rw [ownedAt_of_lookup hlookup, hrest, owned, hentries, List.filterMap_append, filterMap_cons,
      List.filterMap_append, ← List.append_assoc, ← List.append_assoc]
    exact List.perm_append_comm.append_right _
  · have hrest : owned (m.erase ip) = owned m := by
      show (m.entries.kerase ip).filterMap Sigma.snd = _
      rw [List.kerase_of_notMem_keys (mt AList.mem_keys.mpr hmem), owned]
    rw [ownedAt_of_not_mem hmem, hrest]
    exact List.Perm.refl _

/-- An entry is overwritten. -/
theorem owned_insert (m : ConnectionMap) (ip : UInt32) (ptr : UniLbsConnectionPtr) :
    (ownedAt m ip ++ owned (m.insert ip ptr)).Perm (ptr.toList ++ owned m) := by
  have hinsert : owned (m.insert ip ptr) = ptr.toList ++ owned (m.erase ip) := filterMap_cons ⟨ip, ptr⟩ _
  rw [hinsert, ← List.append_assoc]
  refine (List.perm_append_comm.append_right _).trans ?_
  rw [List.append_assoc]
  exact (owned_erase m ip).symm.append_left _

/-- What an address leads to is owned. -/
theorem mem_owned {m : ConnectionMap} {ip : UInt32} {o : Nat} (h : m.lookup ip = some (some o)) :
    o ∈ owned m := by
  refine (owned_erase m ip).mem_iff.mpr (List.mem_append_left _ ?_)
  rw [ownedAt_of_lookup h]
  exact List.mem_singleton.mpr rfl

/-- What is owned, some address leads to. -/
theorem lookup_of_mem_owned {m : ConnectionMap} {o : Nat} (h : o ∈ owned m) :
    ∃ ip, m.lookup ip = some (some o) := by
  obtain ⟨⟨ip, ptr⟩, hmem, hptr⟩ := List.mem_filterMap.mp h
  obtain rfl : ptr = some o := hptr
  exact ⟨ip, AList.mem_lookup_iff.mpr hmem⟩

end ConnectionMap

open ConnectionMap

/-! ## The code -/

/-- Every object that was created has one owner, or was destroyed, and that once. -/
def Accounted (owners destroyed : List Nat) (objects : List LbsWorld) : Prop :=
  (owners ++ destroyed).Perm (List.range objects.length)

/-- The client with its connections behind pointers. -/
structure LbsPointers where
  service_name : List UInt8
  service_id : UInt32
  service_port : UInt32
  release_version : List UInt8
  /-- whether `timer_` is set -/
  timer : Bool
  connections : ConnectionMap
  /-- all objects that were created, in order -/
  objects : List LbsWorld
  /-- the numbers of those that were destroyed -/
  destroyed : List Nat
  accounted : Accounted (owned connections) destroyed objects

/-- The loop of `ReloadLbsAddresses`, between two addresses. -/
structure Reload where
  connections : ConnectionMap
  new_connections : ConnectionMap
  objects : List LbsWorld
  destroyed : List Nat
  accounted : Accounted (owned connections ++ owned new_connections) destroyed objects

namespace Reload

/-- `new_connections.insert(make_pair(ip, std::move(conn_iter->second)))` -/
def move (r : Reload) (ip : UInt32) (ptr : UniLbsConnectionPtr)
    (hold : r.connections.lookup ip = some ptr) (hnew : ip ∉ r.new_connections) : Reload :=
  { r with
    connections := r.connections.insert ip none
    new_connections := r.new_connections.insert ip ptr
    accounted := by
      have hnone := owned_insert r.connections ip none
      have hptr := owned_insert r.new_connections ip ptr
      have hall := r.accounted
      rw [ownedAt_of_lookup hold] at hnone
      rw [ownedAt_of_not_mem hnew] at hptr
      unfold Accounted at *
      simp only [List.perm_iff_count, List.count_append, Option.toList_none, List.count_nil] at *
      intro o
      have := hnone o
      have := hptr o
      have := hall o
      omega }

/-- `new UniLbsConnection(...)`, `Connect`, and the assignment to `new_connections[ip]`, which destroys
    the object that the entry owned. -/
def create (r : Reload) (ip : UInt32) (conn : LbsWorld) : Reload :=
  { r with
    new_connections := r.new_connections.insert ip (some r.objects.length)
    objects := r.objects ++ [conn]
    destroyed := r.destroyed ++ ownedAt r.new_connections ip
    accounted := by
      have hptr := owned_insert r.new_connections ip (some r.objects.length)
      have hall := r.accounted
      unfold Accounted at *
      rw [List.length_append, List.length_singleton, List.range_succ]
      simp only [List.perm_iff_count, List.count_append, Option.toList_some] at *
      intro o
      have := hptr o
      have := hall o
      omega }

/-- One round. -/
def address (connect : LbsAddress → LbsWorld) (r : Reload) (addr : LbsAddress) : Reload :=
  match hold : r.connections.lookup addr.ip with
  | some ptr => if hnew : addr.ip ∈ r.new_connections then r else r.move addr.ip ptr hold hnew
  | none => r.create addr.ip (connect addr)

end Reload

namespace LbsPointers

/-- The constructor. -/
def create (service_name release_version : List UInt8) : LbsPointers :=
  ⟨service_name, 0, 0, release_version, false, ∅, [], [], List.Perm.refl _⟩

/-- `new UniLbsConnection(...)` and its `Connect`. -/
def newConnection (now : Int) (c : LbsPointers) (addr : LbsAddress) : LbsWorld :=
  UniLbsConnection.connected now addr.syscalls c.service_name c.service_id c.service_port.toUInt16
    c.release_version

/-- Before the first address. -/
def startReload (c : LbsPointers) : Reload where
  connections := c.connections
  new_connections := ∅
  objects := c.objects
  destroyed := c.destroyed
  accounted := by
    rw [owned_empty, List.append_nil]
    exact c.accounted

/-- After the last address. -/
def reloaded (now : Int) (new_addresses : List LbsAddress) (c : LbsPointers) : Reload :=
  new_addresses.foldl (Reload.address (c.newConnection now)) c.startReload

/-- The maps are swapped, and the old one is destroyed with what it owns. -/
def reloadLbsAddresses (now : Int) (new_addresses : List LbsAddress) (c : LbsPointers) : LbsPointers :=
  let r := c.reloaded now new_addresses
  { c with
    connections := r.new_connections
    objects := r.objects
    destroyed := r.destroyed ++ owned r.connections
    accounted := by
      have hall := r.accounted
      unfold Accounted at *
      rw [List.append_assoc] at hall
      refine List.Perm.trans ?_ hall
      rw [← List.append_assoc]
      exact List.perm_append_comm }

/-- `reloadLbsHosts`: the loopback address, if the name has no address. -/
def reloadLbsHosts (now : Int) (resolved : List LbsAddress) (loopback : Syscalls) (c : LbsPointers) :
    LbsPointers :=
  c.reloadLbsAddresses now
    (if resolved.isEmpty then [⟨UniLbsClient.INADDR_LOOPBACK, loopback⟩] else resolved)

/-- `updateLbsAddresses`, when the timer fires. -/
def updateLbsAddresses (now : Int) (new_addresses : List LbsAddress) (c : LbsPointers) : LbsPointers :=
  let c := { c with timer := false }
  if c.service_id ≠ 0 then c.reloadLbsAddresses now new_addresses else c

/-- `setServiceInformation`: reload at once, and start the timer. -/
def setServiceInformation (now : Int) (service_id service_port : UInt32) (resolved : List LbsAddress)
    (loopback : Syscalls) (c : LbsPointers) : LbsPointers :=
  let c := { c with service_id := service_id, service_port := service_port }
  { c.reloadLbsHosts now resolved loopback with timer := true }

/-- Something is done to the objects that `p` holds of. -/
def onObjects (c : LbsPointers) (p : Nat → Bool) (f : LbsWorld → LbsWorld) : LbsPointers :=
  { c with
    objects := c.objects.mapIdx fun o w => if p o then f w else w
    accounted := by
      have hall := c.accounted
      unfold Accounted at *
      rwa [List.length_mapIdx] }

/-- Something is done to every connection in the map, through its pointer: a null entry would be
    dereferenced here, and there is none (`NonNull.next`). -/
def forEach (f : LbsWorld → LbsWorld) (c : LbsPointers) : LbsPointers :=
  c.onObjects (fun o => o ∈ owned c.connections) f

/-- What the inputs of `LbsSystem` do.  `reloadLbsHosts` is the timer's. -/
def next (c : LbsPointers) : LbsSystem.Input → LbsPointers
  | .create vid cid name => c.forEach (UniLbsConnection.doChannelCreate ⟨vid, cid, name⟩)
  | .destroy vid cid name => c.forEach (UniLbsConnection.doChannelDestroy ⟨vid, cid, name⟩)
  | .event ip i =>
    c.onObjects (fun o => o ∈ ownedAt c.connections ip) (UniLbsConnection.next · i)
  | .setServiceInformation now service_id service_port resolved loopback =>
    c.setServiceInformation now service_id service_port resolved loopback
  | .updateLbsAddresses now new_addresses => c.updateLbsAddresses now new_addresses
  | .reloadLbsHosts now resolved loopback => c.reloadLbsHosts now resolved loopback

/-- The client with the objects in the place of the pointers. -/
def view (c : LbsPointers) : UniLbsClient where
  service_name := c.service_name
  service_id := c.service_id
  service_port := c.service_port
  release_version := c.release_version
  connections ip := (c.connections.lookup ip).join.bind (c.objects[·]?)

end LbsPointers

/-! ## The loop -/

/-- The ips of a list of addresses. -/
def ips (addresses : List LbsAddress) : List UInt32 := addresses.map LbsAddress.ip

/-- The occurrences of new addresses. -/
def unknown (m : ConnectionMap) (addresses : List LbsAddress) : List LbsAddress :=
  addresses.filter fun addr => addr.ip ∉ m

/-- The addresses of a longer list. -/
theorem ips_concat (addresses : List LbsAddress) (addr : LbsAddress) :
    ips (addresses ++ [addr]) = ips addresses ++ [addr.ip] := List.map_append

/-- An address of a longer list. -/
theorem mem_ips_concat {addresses : List LbsAddress} {addr : LbsAddress} {ip : UInt32} :
    ip ∈ ips (addresses ++ [addr]) ↔ ip ∈ ips addresses ∨ ip = addr.ip := by
  rw [ips_concat, List.mem_append, List.mem_singleton]

/-- An address that the map has is not new. -/
theorem unknown_concat_of_mem {m : ConnectionMap} {addr : LbsAddress} (hmem : addr.ip ∈ m)
    (met : List LbsAddress) : unknown m (met ++ [addr]) = unknown m met := by
  unfold unknown
  rw [List.filter_append]
  simp [hmem]

/-- An address that the map does not have is new. -/
theorem unknown_concat_of_not_mem {m : ConnectionMap} {addr : LbsAddress} (hmem : addr.ip ∉ m)
    (met : List LbsAddress) : unknown m (met ++ [addr]) = unknown m met ++ [addr] := by
  unfold unknown
  rw [List.filter_append]
  simp [hmem]

/-- **The loop**, `met` being the addresses behind it. -/
structure Reloading (connect : LbsAddress → LbsWorld) (c : LbsPointers) (met : List LbsAddress)
    (r : Reload) : Prop where
  /-- The old map has lost its pointers to the addresses met, and nothing else. -/
  old : ∀ ip, r.connections.lookup ip =
    if ip ∈ ips met then (c.connections.lookup ip).map fun _ => none else c.connections.lookup ip
  keys : ∀ ip, ip ∈ r.new_connections ↔ ip ∈ ips met
  kept : ∀ ip ptr, ip ∈ ips met → c.connections.lookup ip = some ptr →
    r.new_connections.lookup ip = some ptr
  created : ∀ ip, ip ∈ ips met → ip ∉ c.connections →
    ∃ o, r.new_connections.lookup ip = some (some o)
  objects : r.objects = c.objects ++ (unknown c.connections met).map connect
  /-- Only a repeated new address destroys an object. -/
  destroyed : (ips (unknown c.connections met)).Nodup → r.destroyed = c.destroyed

namespace Reloading

variable {connect : LbsAddress → LbsWorld} {c : LbsPointers} {met : List LbsAddress} {r : Reload}

/-- Before the loop nothing was met. -/
theorem start (connect : LbsAddress → LbsWorld) (c : LbsPointers) :
    Reloading connect c [] c.startReload where
  old ip := rfl
  keys ip := by
    constructor
    · exact fun h => absurd h (AList.notMem_empty ip)
    · exact fun h => absurd h List.not_mem_nil
  kept ip ptr h := absurd h List.not_mem_nil
  created ip h := absurd h List.not_mem_nil
  objects := by
    show c.objects = c.objects ++ []
    rw [List.append_nil]
  destroyed _ := rfl

/-- The old map keeps its keys. -/
theorem old_mem (h : Reloading connect c met r) (ip : UInt32) :
    ip ∈ r.connections ↔ ip ∈ c.connections := by
  rw [← AList.lookup_isSome, ← AList.lookup_isSome, h.old ip]
  split
  · rw [Option.isSome_map]
  · rfl

/-- The objects that there were are not touched. -/
theorem object (h : Reloading connect c met r) {o : Nat} (ho : o < c.objects.length) :
    r.objects[o]? = c.objects[o]? := by
  rw [h.objects, List.getElem?_append_left ho]

/-- An address is met again: nothing happens. -/
theorem again (h : Reloading connect c met r) {addr : LbsAddress} (hold : addr.ip ∈ c.connections)
    (hmet : addr.ip ∈ ips met) : Reloading connect c (met ++ [addr]) r := by
  -- the address was met before, so nothing changes
  have hsame : ∀ ip, ip ∈ ips (met ++ [addr]) ↔ ip ∈ ips met := by
    intro ip
    rw [mem_ips_concat]
    constructor
    · rintro (hip | rfl)
      · exact hip
      · exact hmet
    · exact Or.inl
  have hunknown := unknown_concat_of_mem hold met
  refine ⟨fun ip => ?_, fun ip => ?_, fun ip ptr hip => ?_, fun ip hip => ?_, ?_, ?_⟩
  · simp only [hsame]
    exact h.old ip
  · rw [hsame]
    exact h.keys ip
  · exact h.kept ip ptr ((hsame ip).mp hip)
  · exact h.created ip ((hsame ip).mp hip)
  · rw [hunknown]
    exact h.objects
  · rw [hunknown]
    exact h.destroyed

/-- The pointer to an address of the old map is moved. -/
theorem move (h : Reloading connect c met r) {addr : LbsAddress} {ptr : UniLbsConnectionPtr}
    (hold : r.connections.lookup addr.ip = some ptr) (hnew : addr.ip ∉ r.new_connections) :
    Reloading connect c (met ++ [addr]) (r.move addr.ip ptr hold hnew) := by
  -- the address is met for the first time
  have hmet : addr.ip ∉ ips met := mt (h.keys addr.ip).mpr hnew
  have hptr : c.connections.lookup addr.ip = some ptr := by
    rw [← hold, h.old addr.ip, if_neg hmet]
  have hmem : addr.ip ∈ c.connections := AList.lookup_isSome.mp (by rw [hptr]; rfl)
  have hunknown := unknown_concat_of_mem hmem met
  refine ⟨fun ip => ?_, fun ip => ?_, fun ip ptr' hip hlookup => ?_, fun ip hip hnot => ?_, ?_, ?_⟩
  -- the pointer leaves the old map
  · show (r.connections.insert addr.ip none).lookup ip = _
    rw [ips_concat]
    by_cases hip : ip = addr.ip
    · rw [hip, AList.lookup_insert, hptr]
      simp
    · rw [AList.lookup_insert_ne hip, h.old ip]
      simp [hip]
  · show ip ∈ r.new_connections.insert addr.ip ptr ↔ _
    rw [AList.mem_insert, h.keys ip, mem_ips_concat, or_comm]
  -- and stands in the new one
  · show (r.new_connections.insert addr.ip ptr).lookup ip = _
    by_cases heq : ip = addr.ip
    · rw [heq, AList.lookup_insert, ← hptr, ← heq, hlookup]
    · rw [mem_ips_concat, or_iff_left heq] at hip
      rw [AList.lookup_insert_ne heq, h.kept ip ptr' hip hlookup]
  -- an address that is not in the old map is another one
  · have hne : ip ≠ addr.ip := by
      rintro rfl
      exact hnot hmem
    rw [mem_ips_concat, or_iff_left hne] at hip
    obtain ⟨o, ho⟩ := h.created ip hip hnot
    exact ⟨o, (AList.lookup_insert_ne hne).trans ho⟩
  · rw [hunknown]
    exact h.objects
  · rw [hunknown]
    exact h.destroyed

/-- An object is created for a new address. -/
theorem create (h : Reloading connect c met r) {addr : LbsAddress}
    (hold : r.connections.lookup addr.ip = none) :
    Reloading connect c (met ++ [addr]) (r.create addr.ip (connect addr)) := by
  have hnot : addr.ip ∉ c.connections := by
    rw [← h.old_mem]
    exact AList.lookup_eq_none.mp hold
  have hunknown := unknown_concat_of_not_mem hnot met
  refine ⟨fun ip => ?_, fun ip => ?_, fun ip ptr hip hlookup => ?_, fun ip hip hnot' => ?_, ?_, ?_⟩
  · show r.connections.lookup ip = _
    rw [h.old ip, ips_concat]
    by_cases hip : ip = addr.ip
    · rw [hip, AList.lookup_eq_none.mpr hnot]
      simp
    · simp [hip]
  · show ip ∈ r.new_connections.insert addr.ip (some r.objects.length) ↔ _
    rw [AList.mem_insert, h.keys ip, mem_ips_concat, or_comm]
  · have hne : ip ≠ addr.ip := by
      rintro rfl
      rw [AList.lookup_eq_none.mpr hnot] at hlookup
      cases hlookup
    rw [mem_ips_concat, or_iff_left hne] at hip
    exact (AList.lookup_insert_ne hne).trans (h.kept ip ptr hip hlookup)
  · by_cases heq : ip = addr.ip
    · rw [heq]
      exact ⟨_, AList.lookup_insert _⟩
    · rw [mem_ips_concat, or_iff_left heq] at hip
      obtain ⟨o, ho⟩ := h.created ip hip hnot'
      exact ⟨o, (AList.lookup_insert_ne heq).trans ho⟩
  · show r.objects ++ [connect addr] = _
    rw [hunknown, List.map_append, ← List.append_assoc, ← h.objects]
    rfl
  · intro hnodup
    rw [hunknown, ips_concat] at hnodup
    have hlast : addr.ip ∉ ips (unknown c.connections met) := by
      intro hmem
      exact (List.nodup_append.mp hnodup).2.2 _ hmem _ List.mem_cons_self rfl
    -- so this is its first occurrence, and its entry owns nothing
    have hnew : addr.ip ∉ r.new_connections := by
      rw [h.keys]
      intro hmet
      obtain ⟨addr', haddr', hip⟩ := List.mem_map.mp hmet
      refine hlast (List.mem_map.mpr ⟨addr', List.mem_filter.mpr ⟨haddr', ?_⟩, hip⟩)
      rw [hip]
      exact decide_eq_true hnot
    show r.destroyed ++ ownedAt r.new_connections addr.ip = _
    rw [ownedAt_of_not_mem hnew, List.append_nil]
    exact h.destroyed (List.nodup_append.mp hnodup).1

/-- One round. -/
theorem address (h : Reloading connect c met r) (addr : LbsAddress) :
    Reloading connect c (met ++ [addr]) (r.address connect addr) := by
  unfold Reload.address
  split
  · next ptr hold =>
    split
    · next hnew =>
      refine h.again ?_ ((h.keys _).mp hnew)
      rw [← h.old_mem]
      exact AList.lookup_isSome.mp (by rw [hold]; rfl)
    · next hnew => exact h.move hold hnew
  · next hold => exact h.create hold

end Reloading

namespace LbsPointers

/-- All rounds. -/
theorem reloaded_reloading (now : Int) (new_addresses : List LbsAddress) (c : LbsPointers) :
    Reloading (c.newConnection now) c new_addresses (c.reloaded now new_addresses) := by
  unfold reloaded
  induction new_addresses using List.reverseRecOn with
  | nil => exact Reloading.start _ c
  | append_singleton met addr ih =>
    rw [List.foldl_append]
    exact ih.address addr

/-! ## Behind the pointers -/

/-- What lies behind the pointers of a map. -/
def behind (m : ConnectionMap) (objects : List LbsWorld) (ip : UInt32) : Option LbsWorld :=
  (m.lookup ip).join.bind (objects[·]?)

/-- What stands behind an address that the map has. -/
theorem behind_of_lookup {m : ConnectionMap} {objects : List LbsWorld} {ip : UInt32} {o : Nat}
    (h : m.lookup ip = some (some o)) : behind m objects ip = objects[o]? := by
  unfold behind
  rw [h]
  rfl

/-- Nothing stands behind an address that the map does not have. -/
theorem behind_of_not_mem {m : ConnectionMap} {objects : List LbsWorld} {ip : UInt32}
    (h : ip ∉ m) : behind m objects ip = none := by
  unfold behind
  rw [AList.lookup_eq_none.mpr h]
  rfl

/-- Another entry does not matter. -/
theorem behind_insert_ne {m : ConnectionMap} {objects : List LbsWorld} {ip ip' : UInt32}
    {ptr : UniLbsConnectionPtr} (h : ip ≠ ip') :
    behind (m.insert ip' ptr) objects ip = behind m objects ip := by
  unfold behind
  rw [AList.lookup_insert_ne h]

end LbsPointers

/-- An owner's object was created. -/
theorem Accounted.lt {owners destroyed : List Nat} {objects : List LbsWorld}
    (h : Accounted owners destroyed objects) {o : Nat} (ho : o ∈ owners) : o < objects.length :=
  List.mem_range.mp (h.mem_iff.mp (List.mem_append_left _ ho))

/-- No object is accounted for twice. -/
theorem Accounted.nodup {owners destroyed : List Nat} {objects : List LbsWorld}
    (h : Accounted owners destroyed objects) : (owners ++ destroyed).Nodup :=
  h.nodup_iff.mpr List.nodup_range

/-- No object has two owners. -/
theorem ConnectionMap.lookup_inj {m : ConnectionMap} (hm : (owned m).Nodup) {ip ip' : UInt32} {o : Nat}
    (h : m.lookup ip = some (some o)) (h' : m.lookup ip' = some (some o)) : ip' = ip := by
  by_contra hne
  have hrest : o ∈ owned (m.erase ip) := mem_owned ((AList.lookup_erase_ne hne).trans h')
  have hnodup := (owned_erase m ip).nodup_iff.mp hm
  rw [ownedAt_of_lookup h] at hnodup
  exact (List.nodup_append.mp hnodup).2.2 o (List.mem_singleton.mpr rfl) o hrest rfl

namespace LbsPointers

/-- A client without null entries. -/
def NonNull (c : LbsPointers) : Prop := ConnectionMap.NonNull c.connections

/-- In a map without null pointers every address leads to an object. -/
theorem NonNull.lookup {c : LbsPointers} (h : c.NonNull) {ip : UInt32} (hip : ip ∈ c.connections) :
    ∃ o, c.connections.lookup ip = some (some o) := by
  obtain ⟨_ | o, hptr⟩ := Option.isSome_iff_exists.mp (AList.lookup_isSome.mpr hip)
  · exact absurd hptr (h ip)
  · exact ⟨o, hptr⟩

/-- An object that an address leads to was made. -/
theorem lookup_lt {c : LbsPointers} {ip : UInt32} {o : Nat}
    (h : c.connections.lookup ip = some (some o)) : o < c.objects.length :=
  c.accounted.lt (mem_owned h)

/-- One round, and the round of `UniLbsClient`. -/
theorem behind_address {c : LbsPointers} (hc : c.NonNull) {now : Int} {met : List LbsAddress}
    {r : Reload} (h : Reloading (c.newConnection now) c met r) (addr : LbsAddress) :
    behind (r.address (c.newConnection now) addr).new_connections
        (r.address (c.newConnection now) addr).objects =
      c.view.reloadAddress now (behind r.new_connections r.objects) addr := by
  unfold Reload.address UniLbsClient.reloadAddress
  split
  · next ptr hold =>
    have hmem : addr.ip ∈ c.connections := by
      rw [← h.old_mem]
      exact AList.lookup_isSome.mp (by rw [hold]; rfl)
    obtain ⟨o, ho⟩ := hc.lookup hmem
    have hlt := lookup_lt ho
    have hview : c.view.connections addr.ip = some c.objects[o] :=
      (behind_of_lookup ho).trans (List.getElem?_eq_getElem hlt)
    have hobject : r.objects[o]? = some c.objects[o] :=
      (h.object hlt).trans (List.getElem?_eq_getElem hlt)
    rw [hview]
    dsimp only
    split
    · next hnew =>
      rw [if_neg]
      rw [behind_of_lookup (h.kept _ _ ((h.keys _).mp hnew) ho), hobject]
      exact nofun
    · next hnew =>
      have hptr : ptr = some o := by
        have := h.old addr.ip
        rw [hold, if_neg (mt (h.keys _).mpr hnew), ho] at this
        exact Option.some.inj this
      rw [if_pos (behind_of_not_mem hnew)]
      funext ip
      show behind (r.new_connections.insert addr.ip ptr) r.objects ip = _
      by_cases hip : ip = addr.ip
      · rw [hip, Function.update_self, hptr, behind_of_lookup (AList.lookup_insert _), hobject]
      · rw [Function.update_of_ne hip, behind_insert_ne hip]
  · next hold =>
    have hnot : addr.ip ∉ c.connections := by
      rw [← h.old_mem]
      exact AList.lookup_eq_none.mp hold
    have hview : c.view.connections addr.ip = none := behind_of_not_mem hnot
    rw [hview]
    funext ip
    show behind (r.new_connections.insert addr.ip (some r.objects.length))
      (r.objects ++ [c.newConnection now addr]) ip = _
    by_cases hip : ip = addr.ip
    · rw [hip]
      dsimp only
      rw [Function.update_self, behind_of_lookup (AList.lookup_insert _),
        List.getElem?_concat_length]
      rfl
    · dsimp only
      rw [Function.update_of_ne hip, behind_insert_ne hip]
      -- the other entries own older objects
      unfold behind
      rcases hptr : r.new_connections.lookup ip with _ | _ | o
      · rfl
      · rfl
      · have hlt := r.accounted.lt (List.mem_append_right _ (mem_owned hptr))
        exact List.getElem?_append_left hlt

/-- The reload. -/
theorem view_reload {c : LbsPointers} (hc : c.NonNull) (now : Int) (new_addresses : List LbsAddress) :
    (c.reloadLbsAddresses now new_addresses).view = c.view.reloadLbsAddresses now new_addresses := by
  suffices h : behind (c.reloaded now new_addresses).new_connections
      (c.reloaded now new_addresses).objects =
      new_addresses.foldl (c.view.reloadAddress now) fun _ => none by
    unfold UniLbsClient.reloadLbsAddresses
    rw [← h]
    rfl
  induction new_addresses using List.reverseRecOn with
  | nil => rfl
  | append_singleton met addr ih =>
    have hmet := reloaded_reloading now met c
    rw [reloaded, List.foldl_append, List.foldl_append, ← reloaded, ← ih]
    exact behind_address hc hmet addr

/-- Something is done to the connection behind one pointer, or behind all of them. -/
theorem behind_onObjects (c : LbsPointers) (p : Nat → Bool) (f : LbsWorld → LbsWorld) {ip : UInt32}
    {o : Nat} (h : c.connections.lookup ip = some (some o)) :
    (c.onObjects p f).view.connections ip =
      if p o then (c.view.connections ip).map f else c.view.connections ip := by
  have hold : c.view.connections ip = c.objects[o]? := behind_of_lookup h
  have hnew : (c.onObjects p f).view.connections ip =
      (c.objects.mapIdx fun o w => if p o then f w else w)[o]? := behind_of_lookup h
  rw [hold, hnew, List.getElem?_mapIdx, List.getElem?_eq_getElem (lookup_lt h)]
  split
  · rfl
  · rfl

/-- A broadcast on the pointers is the broadcast on what they point to. -/
theorem view_forEach {c : LbsPointers} (hc : c.NonNull) (f : LbsWorld → LbsWorld) :
    (c.forEach f).view = c.view.forEach f := by
  unfold UniLbsClient.forEach
  suffices h : (c.forEach f).view.connections = fun ip => (c.view.connections ip).map f by
    rw [← h]
    rfl
  funext ip
  by_cases hip : ip ∈ c.connections
  · obtain ⟨o, ho⟩ := hc.lookup hip
    rw [forEach, behind_onObjects c _ f ho, if_pos (decide_eq_true (mem_owned ho))]
  · have hview : c.view.connections ip = none := behind_of_not_mem hip
    rw [hview]
    exact behind_of_not_mem hip

/-- No object is owned twice. -/
theorem owned_nodup (c : LbsPointers) : (owned c.connections).Nodup :=
  (List.nodup_append.mp c.accounted.nodup).1

/-- An event of one connection. -/
theorem view_event {c : LbsPointers} (hc : c.NonNull) (ip ip' : UInt32) (f : LbsWorld → LbsWorld) :
    (c.onObjects (fun o => o ∈ ownedAt c.connections ip) f).view.connections ip' =
      if ip' = ip then (c.view.connections ip).map f else c.view.connections ip' := by
  -- only the objects that the address owns change, and two addresses own none in common
  by_cases hip' : ip' ∈ c.connections
  · obtain ⟨o', ho'⟩ := hc.lookup hip'
    rw [behind_onObjects c _ f ho']
    by_cases hip : ip' = ip
    · have howned : o' ∈ ownedAt c.connections ip := by
        rw [← hip, ownedAt_of_lookup ho']
        exact List.mem_singleton.mpr rfl
      rw [if_pos hip, if_pos (decide_eq_true howned), hip]
    · have howned : o' ∉ ownedAt c.connections ip := by
        -- an object has one owner
        intro howned
        by_cases hmem : ip ∈ c.connections
        · obtain ⟨o, ho⟩ := hc.lookup hmem
          rw [ownedAt_of_lookup ho] at howned
          obtain rfl := List.mem_singleton.mp howned
          exact hip (lookup_inj c.owned_nodup ho ho')
        · rw [ownedAt_of_not_mem hmem] at howned
          exact absurd howned List.not_mem_nil
      rw [if_neg hip, if_neg (by simpa using howned)]
  · have hview : c.view.connections ip' = none := behind_of_not_mem hip'
    have hnew : (c.onObjects (fun o => o ∈ ownedAt c.connections ip) f).view.connections ip' = none :=
      behind_of_not_mem hip'
    rw [hnew]
    split
    · next hip => rw [← hip, hview]; rfl
    · exact hview.symm

/-! ## The map after a reload -/

section Reloaded

variable (now : Int) (new_addresses : List LbsAddress) (c : LbsPointers)

/-- After a reload the map has exactly the listed addresses. -/
theorem reload_mem (ip : UInt32) :
    ip ∈ (c.reloadLbsAddresses now new_addresses).connections ↔ ip ∈ ips new_addresses :=
  (reloaded_reloading now new_addresses c).keys ip

variable {c}

/-- A listed address that was connected keeps its object, as it is. -/
theorem reload_kept {ip : UInt32} {o : Nat} (h : c.connections.lookup ip = some (some o))
    (hip : ip ∈ ips new_addresses) :
    (c.reloadLbsAddresses now new_addresses).connections.lookup ip = some (some o) ∧
      (c.reloadLbsAddresses now new_addresses).objects[o]? = c.objects[o]? ∧
      o ∉ (c.reloadLbsAddresses now new_addresses).destroyed := by
  have hloop := reloaded_reloading now new_addresses c
  have hkept : (c.reloadLbsAddresses now new_addresses).connections.lookup ip = some (some o) :=
    hloop.kept ip _ hip h
  refine ⟨hkept, hloop.object (lookup_lt h), fun hgone => ?_⟩
  have hnodup := (c.reloadLbsAddresses now new_addresses).accounted.nodup
  exact (List.nodup_append.mp hnodup).2.2 o (mem_owned hkept) o hgone rfl

/-- The object of an address that is not listed is destroyed. -/
theorem reload_dropped {ip : UInt32} {o : Nat} (h : c.connections.lookup ip = some (some o))
    (hip : ip ∉ ips new_addresses) : o ∈ (c.reloadLbsAddresses now new_addresses).destroyed := by
  have hold : (c.reloaded now new_addresses).connections.lookup ip = some (some o) := by
    rw [(reloaded_reloading now new_addresses c).old ip, if_neg hip, h]
  exact List.mem_append_right _ (mem_owned hold)

/-- A reload leaves no null pointer in the map. -/
theorem NonNull.reload (hc : c.NonNull) : (c.reloadLbsAddresses now new_addresses).NonNull := by
  have hloop := reloaded_reloading now new_addresses c
  intro ip hnull
  have hip : ip ∈ ips new_addresses :=
    (reload_mem now new_addresses c ip).mp (AList.lookup_isSome.mp (by rw [hnull]; rfl))
  by_cases hmem : ip ∈ c.connections
  · obtain ⟨o, ho⟩ := hc.lookup hmem
    cases (hloop.kept ip _ hip ho).symm.trans hnull
  · obtain ⟨o, ho⟩ := hloop.created ip hip hmem
    cases ho.symm.trans hnull

end Reloaded

/-- The new client has no null pointer. -/
theorem nonNull_create (service_name release_version : List UInt8) :
    (create service_name release_version).NonNull := by
  intro ip h
  rw [show (create service_name release_version).connections = ∅ from rfl, AList.lookup_empty] at h
  cases h

/-- **One step.**  No null entry comes up. -/
theorem NonNull.next {c : LbsPointers} (hc : c.NonNull) (i : LbsSystem.Input) : (c.next i).NonNull := by
  cases i with
  | create vid cid name => exact hc
  | destroy vid cid name => exact hc
  | event ip i => exact hc
  | setServiceInformation now service_id service_port resolved loopback =>
    exact NonNull.reload (c := { c with service_id := service_id, service_port := service_port })
      now _ hc
  | updateLbsAddresses now new_addresses =>
    show (c.updateLbsAddresses now new_addresses).NonNull
    unfold updateLbsAddresses
    dsimp only
    split
    · exact NonNull.reload (c := { c with timer := false }) now _ hc
    · exact hc
  | reloadLbsHosts now resolved loopback => exact hc.reload now _

end LbsPointers

/-! ## Whole runs -/

/-- The client, and the visitor's set of channels. -/
structure PointerSystem where
  client : LbsPointers
  channels : Set Channel

namespace PointerSystem

open LbsSystem

/-- The system with the connections in place of the pointers. -/
def view (s : PointerSystem) : LbsSystem := ⟨s.client.view, s.channels⟩

/-- `ReloadLbsHosts` is called by the timer, while there is one. -/
def Timed (s : PointerSystem) : Input → Prop
  | .reloadLbsHosts .. => s.client.timer = true
  | _ => True

/-- What the system without pointers takes, with the timer running where it is the one to call. -/
def Enabled (s : PointerSystem) (i : Input) : Prop := s.view.Enabled i ∧ s.Timed i

/-- What an input does. -/
def next (s : PointerSystem) (i : Input) : PointerSystem := ⟨s.client.next i, (s.view.next i).channels⟩

/-- One step of the system. -/
def Step (s : PointerSystem) (i : Input) (s' : PointerSystem) : Prop := s.Enabled i ∧ s' = s.next i

/-- The system at the start. -/
def create (service_name release_version : List UInt8) (channels : Set Channel) : PointerSystem :=
  ⟨LbsPointers.create service_name release_version, channels⟩

/-- **The pointers are not seen**: a step does behind them what `LbsSystem` does. -/
theorem view_next {s : PointerSystem} (hs : s.client.NonNull) (i : Input) :
    (s.next i).view = s.view.next i := by
  -- the channels change alike in both systems
  suffices h : (s.client.next i).view = (s.view.next i).client by
    exact congrArg (fun client => LbsSystem.mk client (s.view.next i).channels) h
  cases i with
  | create vid cid name => exact LbsPointers.view_forEach hs _
  | destroy vid cid name => exact LbsPointers.view_forEach hs _
  | event ip i =>
    have hconnections : (s.client.next (.event ip i)).view.connections =
        (s.view.next (.event ip i)).client.connections :=
      funext fun ip' => LbsPointers.view_event hs ip ip' (UniLbsConnection.next · i)
    show UniLbsClient.mk _ _ _ _ (s.client.next (.event ip i)).view.connections = _
    rw [hconnections]
    rfl
  | setServiceInformation now service_id service_port resolved loopback =>
    exact LbsPointers.view_reload (c := { s.client with
      service_id := service_id, service_port := service_port }) hs now _
  | updateLbsAddresses now new_addresses =>
    show (s.client.updateLbsAddresses now new_addresses).view =
      s.client.view.updateLbsAddresses now new_addresses
    -- the timer only fires once: it is cleared in one model, and not there in the other
    unfold LbsPointers.updateLbsAddresses UniLbsClient.updateLbsAddresses
    have hid : s.client.view.service_id = s.client.service_id := rfl
    rw [hid]
    dsimp only
    split
    · exact LbsPointers.view_reload (c := { s.client with timer := false }) hs now _
    · rfl
  | reloadLbsHosts now resolved loopback => exact LbsPointers.view_reload hs now _

/-- **A whole run**: no entry is null in any state, and what the run does is a run of `LbsSystem`. -/
theorem run_nonNull {service_name release_version : List UInt8} {channels : Set Channel}
    {s : PointerSystem} {ts : List (PointerSystem × Input × PointerSystem)}
    (hrun : Run Step (create service_name release_version channels) ts s) :
    s.client.NonNull ∧ ∀ x ∈ ts, x.1.client.NonNull ∧ x.2.2.client.NonNull := by
  have hstep : ∀ (s : PointerSystem) (i : Input) (t : PointerSystem), s.client.NonNull → Step s i t →
      t.client.NonNull := by
    rintro s i t hs ⟨-, rfl⟩
    exact hs.next i
  exact Run.invariant hstep hrun (LbsPointers.nonNull_create service_name release_version)

/-- A run on pointers is a run on what they point to. -/
theorem run_view {service_name release_version : List UInt8} {channels : Set Channel}
    {s : PointerSystem} {ts : List (PointerSystem × Input × PointerSystem)}
    (hrun : Run Step (create service_name release_version channels) ts s) :
    Run LbsSystem.Step (create service_name release_version channels).view
      (ts.map fun x => (x.1.view, x.2.1, x.2.2.view)) s.view := by
  generalize hstart : create service_name release_version channels = start at hrun
  induction hrun with
  | nil => exact Run.nil _
  | snoc hrun hstep ih =>
    subst hstart
    obtain ⟨⟨henabled, -⟩, rfl⟩ := hstep
    have hnonNull := (run_nonNull hrun).1
    rw [List.map_append]
    exact Run.snoc ih ⟨henabled, view_next hnonNull _⟩

end PointerSystem

/-! ## The reconciliation -/

namespace LbsPointers

open PointerSystem

/-- **The reload reconciles the map** with the list, from any map without null entries; and in every
    run, from the empty map on, no entry is null. -/
theorem reloadLbsAddresses_reconciles :
    (∀ (c : LbsPointers) (now : Int) (new_addresses : List LbsAddress), c.NonNull →
      let c' := c.reloadLbsAddresses now new_addresses
      (∀ ip, ip ∈ c'.connections ↔ ip ∈ new_addresses.map LbsAddress.ip) ∧
      c'.NonNull ∧
      ∀ ip o, c.connections.lookup ip = some (some o) →
        (ip ∈ new_addresses.map LbsAddress.ip →
          c'.connections.lookup ip = some (some o) ∧ c'.objects[o]? = c.objects[o]? ∧
            o ∉ c'.destroyed) ∧
        (ip ∉ new_addresses.map LbsAddress.ip → o ∈ c'.destroyed)) ∧
    ∀ (service_name release_version : List UInt8) (channels : Set Channel) (s : PointerSystem)
      (ts : List (PointerSystem × LbsSystem.Input × PointerSystem)),
      Run Step (PointerSystem.create service_name release_version channels) ts s →
        s.client.NonNull ∧ ∀ x ∈ ts, x.2.2.client.NonNull := by
  -- the loop over the new list decides the keys, the check on `find` that no null stays
  refine ⟨fun c now new_addresses hc => ⟨?_, ?_, fun ip o h => ⟨?_, ?_⟩⟩, ?_⟩
  · exact reload_mem now new_addresses c
  · exact hc.reload now new_addresses
  · exact reload_kept now new_addresses h
  · exact reload_dropped now new_addresses h
  · intro service_name release_version channels s ts hrun
    obtain ⟨hlast, hall⟩ := run_nonNull hrun
    exact ⟨hlast, fun x hx => (hall x hx).2⟩

/-- A client of two load balancers, and a list that repeats one of them and a new one. -/
def sampleClient : LbsPointers :=
  (create [0x74] [0x31]).setServiceInformation 0 1 443 [⟨1, World.routed⟩, ⟨2, World.routed⟩]
    World.routed

/-- Two balancers, each listed twice. -/
def sampleAddresses : List LbsAddress :=
  [⟨2, World.routed⟩, ⟨3, World.routed⟩, ⟨2, World.routed⟩, ⟨3, World.routed⟩]

/-- The same in a run: the list by the service, the timer, and a list by the user. -/
def sampleInputs : List LbsSystem.Input :=
  [.setServiceInformation 0 1 443 [⟨1, World.routed⟩, ⟨2, World.routed⟩] World.routed,
    .reloadLbsHosts 600 [⟨1, World.routed⟩, ⟨2, World.routed⟩] World.routed,
    .updateLbsAddresses 700 sampleAddresses]

theorem reloadLbsAddresses_reconciles_sample :
    (let c' := sampleClient.reloadLbsAddresses 0 sampleAddresses
     (∀ ip, ip ∈ c'.connections ↔ ip ∈ [(2 : UInt32), 3, 2, 3]) ∧ c'.NonNull ∧
      c'.connections.lookup 2 = some (some 1) ∧ 0 ∈ c'.destroyed) ∧
    (sampleInputs.foldl PointerSystem.next (PointerSystem.create [0x74] [0x31] ∅)).client.NonNull := by
  have hsample : sampleClient.NonNull := (nonNull_create _ _).next
    (.setServiceInformation 0 1 443 [⟨1, World.routed⟩, ⟨2, World.routed⟩] World.routed)
  obtain ⟨hkeys, hnonNull, hobjects⟩ :=
    reloadLbsAddresses_reconciles.1 sampleClient 0 sampleAddresses hsample
  have hrun : Run Step (PointerSystem.create [0x74] [0x31] ∅)
      (trace PointerSystem.next (PointerSystem.create [0x74] [0x31] ∅) sampleInputs)
      (sampleInputs.foldl PointerSystem.next (PointerSystem.create [0x74] [0x31] ∅)) := by
    apply Run.of_inputs Enabled PointerSystem.next
    intro x hx
    simp only [sampleInputs, trace, List.mem_cons, List.not_mem_nil, or_false] at hx
    -- the reload needs the timer, the other two inputs are always possible
    rcases hx with rfl | rfl | rfl
    · exact ⟨trivial, trivial⟩
    · exact ⟨trivial, rfl⟩
    · exact ⟨trivial, trivial⟩
  refine ⟨⟨hkeys, hnonNull, ?_, ?_⟩, (reloadLbsAddresses_reconciles.2 _ _ _ _ _ hrun).1⟩
  · exact ((hobjects 2 1 rfl).1 (by decide)).1
  · exact (hobjects 1 0 rfl).2 (by decide)

/-! ## What is created -/

/-- If no new ip is repeated, the call destroys only objects that were there before. -/
theorem reload_destroyed_lt {c : LbsPointers} {now : Int} {new_addresses : List LbsAddress}
    (hnodup : (ips (unknown c.connections new_addresses)).Nodup) {o : Nat}
    (h : o ∈ (c.reloadLbsAddresses now new_addresses).destroyed) : o < c.objects.length := by
  have hloop := reloaded_reloading now new_addresses c
  rcases List.mem_append.mp h with hloop' | hmap
  · rw [hloop.destroyed hnodup] at hloop'
    exact List.mem_range.mp (c.accounted.mem_iff.mp (List.mem_append_right _ hloop'))
  · obtain ⟨ip, hip⟩ := lookup_of_mem_owned hmap
    rw [hloop.old ip] at hip
    split at hip
    · obtain ⟨ptr, -, hnone⟩ := Option.map_eq_some_iff.mp hip
      cases hnone
    · exact lookup_lt hip

/-- **Nothing is created in vain** — one object for each new ip of the list, and all of them kept — iff
    no ip without a connection is repeated. -/
theorem reloadLbsAddresses_created_iff (c : LbsPointers) (now : Int) (new_addresses : List LbsAddress) :
    (let c' := c.reloadLbsAddresses now new_addresses
     let created := (new_addresses.map LbsAddress.ip).filter fun ip => ip ∉ c.connections
     c'.objects.length = c.objects.length + created.dedup.length ∧
      ∀ o, c.objects.length ≤ o → o < c'.objects.length →
        ∃ ip, c'.connections.lookup ip = some (some o)) ↔
    ((new_addresses.map LbsAddress.ip).filter fun ip => ip ∉ c.connections).Nodup := by
  have hloop := reloaded_reloading now new_addresses c
  have hips : (new_addresses.map LbsAddress.ip).filter (fun ip => ip ∉ c.connections) =
      ips (unknown c.connections new_addresses) := List.filter_map
  have hlength : (c.reloadLbsAddresses now new_addresses).objects.length =
      c.objects.length + (ips (unknown c.connections new_addresses)).length := by
    -- the loop allocates one object for each new address it meets
    show (c.reloaded now new_addresses).objects.length = _
    rw [hloop.objects, List.length_append, List.length_map, ips, List.length_map]
  dsimp only
  rw [hips, hlength]
  constructor
  · rintro ⟨hcount, -⟩
    -- no shorter without repeats, so there are none
    have hlen : (ips (unknown c.connections new_addresses)).dedup.length =
        (ips (unknown c.connections new_addresses)).length := by omega
    exact List.dedup_eq_self.mp ((List.dedup_sublist _).eq_of_length hlen)
  · intro hnodup
    rw [List.dedup_eq_self.mpr hnodup]
    refine ⟨rfl, fun o hlow hhigh => ?_⟩
    rw [← hlength] at hhigh
    -- an object below the counter is held by the map or was destroyed; without repeats it is held
    have hall := (c.reloadLbsAddresses now new_addresses).accounted
    rcases List.mem_append.mp (hall.mem_iff.mpr (List.mem_range.mpr hhigh)) with hheld | hgone
    · exact lookup_of_mem_owned hheld
    · have := reload_destroyed_lt hnodup hgone
      omega

/-- A new ip, twice in the list: two connections, the first of them destroyed at once. -/
theorem reloadLbsAddresses_creates_twice :
    let c' := (create [] []).reloadLbsAddresses 0 [⟨7, World.routed⟩, ⟨7, World.routed⟩]
    c'.objects.length = 2 ∧ [(7 : UInt32), 7].dedup.length = 1 ∧
      c'.connections.lookup 7 = some (some 1) ∧ c'.destroyed = [0] := by
  intro c'
  refine ⟨rfl, by decide, rfl, rfl⟩

end LbsPointers

end Turnserver
