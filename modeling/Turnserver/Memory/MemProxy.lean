/-
  BORROWED PROXIES (`memory/mem_proxy.h`: `BorrowedMemProxy`) — a list of POD types over a span.

  `Layer<N>()` points at the N-th type.  In a span of one block that is the begin and an offset.  In
  a span of several blocks a scan skips whole blocks and shortens the offset by them; where the type
  does not lie in one block, the proxy makes a single block of its span and asks again.

  * The types are given by their sizes; `PrefixSize` and `FullSize` are the constants of `ProxyLayout`.
  * A pointer is a block and an offset; what it points at is read from the block (`Shows`).
  * `Merged` — one block that starts with the bytes of the span.  `Holds` — that, or the span as it
    was: what every `Layer` leaves behind.

  `layer_contiguous`: every layer shows the bytes that it would show in a contiguous span, if `size_` of
  the span covers its bytes, and the types together take less than 2^64.  `CloneSpannedMem` allocates
  `size_` bytes, and that is a `uint32_t`; `FullSize`, which the constructor looks at, is a `size_t`.
-/
import Turnserver.Memory.ProxyLayout
import Turnserver.Memory.SpanPrefix

set_option linter.unusedVariables false

namespace Turnserver

/-! ## Pointers -/

/-- A pointer into a block. -/
structure BlockPointer where
  block : Block
  offset : Nat

namespace BlockPointer

/-- Pointer arithmetic on the bytes of a block. -/
def advance (n : Nat) (p : BlockPointer) : BlockPointer := { p with offset := p.offset + n }

/-- The bytes that `p` points at are `bs`. -/
structure Shows (p : BlockPointer) (bs : List (Option UInt8)) : Prop where
  inside : p.offset + bs.length ≤ p.block.mem.capacity
  cells : (List.range bs.length).map (fun i => p.block.mem.cells (p.offset + i)) = bs

/-- A part of what is shown. -/
theorem Shows.advance {p : BlockPointer} {bs : List (Option UInt8)} (h : p.Shows bs) {n size : Nat}
    (hn : n + size ≤ bs.length) : (p.advance n).Shows ((bs.drop n).take size) := by
  have hlength : ((bs.drop n).take size).length = size := by
    rw [List.length_take, List.length_drop]
    omega
  have hinside := h.inside
  refine ⟨?_, ?_⟩
  · rw [hlength]
    show p.offset + n + size ≤ p.block.mem.capacity
    omega
  · rw [hlength]
    -- byte `i` of the part is byte `n + i` of the whole
    apply List.ext_getElem
    · rw [List.length_map, List.length_range, hlength]
    · intro i hi hi'
      rw [hlength] at hi'
      have hcell := List.getElem_of_eq h.cells.symm (show n + i < bs.length by omega)
      rw [List.getElem_map, List.getElem_range] at hcell
      rw [List.getElem_map, List.getElem_range, List.getElem_take, List.getElem_drop, hcell]
      show p.block.mem.cells (p.offset + n + i) = _
      rw [Nat.add_assoc]

end BlockPointer

namespace MemSlice

/-- `Begin()` -/
def begin (s : MemSlice) : Checked BlockPointer :=
  match s.buffer with
  | none => .error .nullPointer
  | some b => .ok ⟨b, s.begin_offset.toNat⟩

/-- `Begin()` of a slice shows its window. -/
theorem Window.begin {s : MemSlice} (h : s.Window) (hbuffer : s.buffer ≠ none) :
    ∃ p, s.begin = .ok p ∧ p.Shows s.bytes := by
  obtain ⟨b, hb⟩ := Option.ne_none_iff_exists'.mp hbuffer
  obtain ⟨hused, hbegin, hend⟩ := h.used
  have hlength := h.bytes_length
  rw [limit_some hb] at hend
  refine ⟨⟨b, s.begin_offset.toNat⟩, ?_, ?_, ?_⟩
  · unfold MemSlice.begin
    rw [hb]
  · show s.begin_offset.toNat + _ ≤ b.mem.capacity
    omega
  · rw [hlength]
    unfold bytes
    rw [hb]

end MemSlice

/-! ## The code -/

namespace BorrowedMemProxy

open MemSliceSpan

/-- `MemProxy<Ts...>::PrefixSize<N>::value` -/
def prefixSize (types : List UInt64) (n : Nat) : UInt64 := (MemProxy.prefixSize id types n).getD 0

/-- `MemProxy<Ts...>::FullSize::value` -/
def fullSize (types : List UInt64) : UInt64 := (MemProxy.fullSize id types).getD 0

/-- `BorrowedMemProxy(buffer)`: the `buffer_` of the new proxy. -/
def create (ndebug : Bool) (types : List UInt64) (buffer : MemSliceSpan) : Checked MemSliceSpan := do
  require ndebug (decide (fullSize types ≤ buffer.getUsedSize.toUInt64))
  pure buffer.copy

/-- What the loop of `Layer` finds. -/
inductive Found
  | nothing
  | layer (p : BlockPointer)
  /-- the type starts in a block and does not end there -/
  | straddling

/-- The loop over the blocks from `pos` on, with `skip_sz` bytes to go. -/
def scan (buffer : Nat → MemSlice) (size : UInt64) (skip_sz : UInt64) (pos : Nat) :
    (remaining : Nat) → Checked Found
  | 0 => pure .nothing
  | remaining + 1 => do
    let start ← (buffer pos).begin
    let used := (buffer pos).getUsedSize.toUInt64
    if used < skip_sz then scan buffer size (skip_sz - used) (pos + 1) remaining
    else if used < skip_sz + size then pure .straddling
    else pure (.layer (start.advance skip_sz.toNat))

/-- `buffer_ = buffer_.ToSingleBlock()` -/
def merge (ndebug : Bool) (addr : Nat) (buffer : MemSliceSpan) : Checked MemSliceSpan := do
  let single ← buffer.toSingleBlock ndebug addr
  let (buffer, _) ← single.moveAssign ndebug buffer
  pure buffer

/-- Only several blocks can be straddled, and merging leaves one. -/
theorem merge_single {ndebug : Bool} {addr : Nat} {size skip_sz : UInt64}
    {buffer merged : MemSliceSpan}
    (hmany : buffer.block_count ≠ 1)
    (hscan : scan buffer.buffer size skip_sz 0 buffer.block_count.toNat = .ok .straddling)
    (h : merge ndebug addr buffer = .ok merged) : merged.block_count = 1 := by
  obtain ⟨single, hsingle, hrest⟩ := Checked.bind_ok.mp h
  obtain ⟨⟨assigned, left⟩, hassign, hpure⟩ := Checked.bind_ok.mp hrest
  cases hpure
  obtain ⟨-, -, hfields⟩ := Checked.bind_ok.mp hassign
  cases hfields
  show single.block_count = 1
  rcases toSingleBlock_cases hsingle with ⟨hone, -⟩ | ⟨-, b, -, rfl⟩
  · rw [show buffer.block_count.toNat = 0 by omega] at hscan
    cases hscan
  · rfl

/-- `Layer<N>()`: the pointer, and `buffer_` afterwards. -/
def layer (ndebug : Bool) (types : List UInt64) (n addr : Nat) (buffer : MemSliceSpan) :
    Checked (Option BlockPointer × MemSliceSpan) :=
  if hone : buffer.block_count = 1 then do
    let start ← (buffer.buffer 0).begin
    pure (some (start.advance (prefixSize types n).toNat), buffer)
  else
    match hscan : scan buffer.buffer (types.getD n 0) (prefixSize types n) 0 buffer.block_count.toNat with
    | .error e => .error e
    | .ok .nothing => pure (none, buffer)
    | .ok (.layer p) => pure (some p, buffer)
    | .ok .straddling =>
      match hmerge : merge ndebug addr buffer with
      | .error e => .error e
      | .ok merged => layer ndebug types n addr merged
termination_by if buffer.block_count = 1 then 0 else 1
decreasing_by
  rw [if_pos (merge_single hone hscan hmerge), if_neg hone]
  exact Nat.one_pos

/-- A sequence of calls, each with its `N` and with the address that `malloc` would return. -/
def layers (ndebug : Bool) (types : List UInt64) : List (Nat × Nat) → MemSliceSpan → Checked MemSliceSpan
  | [], buffer => pure buffer
  | (n, addr) :: calls, buffer => do
    let (_, buffer) ← layer ndebug types n addr buffer
    layers ndebug types calls buffer

/-! ## The scan -/

section Scan

variable {buffer : Nat → MemSlice} {size : UInt64}

/-- One round. -/
theorem scan_succ {pos : Nat} (hbuffer : (buffer pos).buffer ≠ none) (hw : (buffer pos).Window)
    (size skip_sz : UInt64) (remaining : Nat) :
    ∃ start : BlockPointer, start.Shows (buffer pos).bytes ∧
      scan buffer size skip_sz pos (remaining + 1) =
        if (buffer pos).getUsedSize.toUInt64 < skip_sz then
          scan buffer size (skip_sz - (buffer pos).getUsedSize.toUInt64) (pos + 1) remaining
        else if (buffer pos).getUsedSize.toUInt64 < skip_sz + size then .ok .straddling
        else .ok (.layer (start.advance skip_sz.toNat)) := by
  obtain ⟨start, hbegin, hshows⟩ := hw.begin hbuffer
  refine ⟨start, hshows, ?_⟩
  rw [scan, hbegin, Checked.ok_bind]
  rfl

/-- **The scan**: the type that `skip_sz` bytes are in front of lies in one block, or straddles. -/
theorem scan_spec {remaining pos : Nat} {skip_sz : UInt64}
    (hblocks : ∀ i, pos ≤ i → i < pos + remaining → (buffer i).buffer ≠ none ∧ (buffer i).Window)
    (hpos : 0 < size.toNat) (hlt : skip_sz.toNat + size.toNat < 2 ^ 64)
    (hfits : skip_sz.toNat + size.toNat ≤ (chunks buffer pos remaining).flatten.length) :
    scan buffer size skip_sz pos remaining = .ok .straddling ∨
      ∃ p, scan buffer size skip_sz pos remaining = .ok (.layer p) ∧
        p.Shows (((chunks buffer pos remaining).flatten.drop skip_sz.toNat).take size.toNat) := by
  induction remaining generalizing pos skip_sz with
  | zero =>
    rw [chunks, List.range'_zero, List.map_nil, List.flatten_nil, List.length_nil] at hfits
    omega
  | succ remaining ih =>
    obtain ⟨hbuffer, hw⟩ := hblocks pos (Nat.le_refl _) (by omega)
    obtain ⟨start, hshows, hscan⟩ := scan_succ hbuffer hw size skip_sz remaining
    have hused : (buffer pos).getUsedSize.toUInt64.toNat = (buffer pos).bytes.length := by
      rw [hw.bytes_length]
      exact UInt32.toNat_toUInt64 _
    -- nothing wraps around, since the type ends below 2^64
    have hsum : (skip_sz + size).toNat = skip_sz.toNat + size.toNat := by
      rw [UInt64.toNat_add, Nat.mod_eq_of_lt hlt]
    rw [chunks_succ, List.flatten_cons] at hfits ⊢
    rw [List.length_append] at hfits
    rw [hscan]
    by_cases hskip : (buffer pos).getUsedSize.toUInt64 < skip_sz
    · have hle := Nat.le_of_lt (UInt64.lt_iff_toNat_lt.mp hskip)
      have hleft := UInt64.toNat_sub_of_le _ _ (UInt64.le_iff_toNat_le.mpr hle)
      rw [hused] at hle hleft
      rw [if_pos hskip, List.drop_append, List.drop_eq_nil_of_le hle, List.nil_append, ← hleft]
      refine ih (fun i hi hi' => hblocks i (by omega) (by omega)) ?_ ?_
      · omega
      · omega
    · rw [UInt64.lt_iff_toNat_lt, hused] at hskip
      rw [if_neg (by rwa [UInt64.lt_iff_toNat_lt, hused])]
      by_cases hstraddle : (buffer pos).getUsedSize.toUInt64 < skip_sz + size
      · rw [if_pos hstraddle]
        exact Or.inl rfl
      · rw [if_neg hstraddle]
        rw [UInt64.lt_iff_toNat_lt, hused, hsum] at hstraddle
        rw [List.drop_append_of_le_length (by omega),
          List.take_append_of_le_length (by rw [List.length_drop]; omega)]
        exact Or.inr ⟨_, rfl, hshows.advance (by omega)⟩

end Scan

/-! ## What the proxy holds -/

/-- A single block that starts with `bs`. -/
def Merged (bs : List (Option UInt8)) (a : MemSliceSpan) : Prop :=
  a.block_count = 1 ∧ ∃ start : BlockPointer, (a.buffer 0).begin = .ok start ∧ start.Shows bs

/-- Several blocks, and a `size_` that covers their bytes. -/
structure Scattered (a : MemSliceSpan) : Prop where
  many : 1 < a.block_count
  few : a.block_count < kMaxBlocks
  block : ∀ i : Nat, (i : Int) < a.block_count → (a.buffer i).buffer ≠ none ∧ (a.buffer i).Window
  room : a.bytes.length ≤ a.size.toNat

/-- What every `Layer` leaves behind. -/
def Holds (bs : List (Option UInt8)) (a : MemSliceSpan) : Prop :=
  Merged bs a ∨ (Scattered a ∧ a.bytes = bs)

/-- The single block has the bytes of the span at its beginning; its window may show fewer. -/
theorem Scattered.merge {a : MemSliceSpan} (h : Scattered a) (ndebug : Bool) (addr : Nat) :
    ∃ merged, merge ndebug addr a = .ok merged ∧ Merged a.bytes merged := by
  have hmany := h.many
  obtain ⟨b, hclone, hcap, hcells⟩ :=
    cloneSpannedMem_bytes (fun i hi => (h.block i hi).2) h.room (fun _ => h.few) addr
  have hroom := h.room
  have hassert : require ndebug (decide (a.block_count < kMaxBlocks)) = .ok () :=
    require_iff.mpr fun _ => h.few
  have hone : ¬a.block_count ≤ 1 := by omega
  -- the copy goes into one block, and the span is built on that block
  have hsingle : a.toSingleBlock ndebug addr = .ok (ofBuffer (some b)) := by
    rw [toSingleBlock, hassert, Checked.ok_bind, if_neg hone, hclone]
    rfl
  refine ⟨⟨(ofBuffer (some b)).size, 1, fill 1 a.block_count (fun _ => .reset none)
    (fill 0 1 (ofBuffer (some b)).buffer a.buffer)⟩, ?_, rfl, ⟨b, 0⟩, rfl, ?_, ?_⟩
  · unfold BorrowedMemProxy.merge
    rw [hsingle, Checked.ok_bind]
    -- the assertion of `operator=` holds: the new span has one block
    cases ndebug with
    | true => rfl
    | false => rfl
  · show 0 + a.bytes.length ≤ b.mem.capacity
    omega
  · show (List.range a.bytes.length).map (fun i => b.mem.cells (0 + i)) = a.bytes
    simp only [Nat.zero_add]
    exact hcells

/-! ## The layers -/

section Equations

variable {ndebug : Bool} {types : List UInt64} {n addr : Nat} {a : MemSliceSpan}

/-- The scan finds the type. -/
theorem layer_found (hone : a.block_count ≠ 1) {p : BlockPointer}
    (hscan : scan a.buffer (types.getD n 0) (prefixSize types n) 0 a.block_count.toNat = .ok (.layer p)) :
    layer ndebug types n addr a = .ok (some p, a) := by
  rw [layer, dif_neg hone]
  split
  · next he => cases he.symm.trans hscan
  · next he => cases he.symm.trans hscan
  · next he =>
    cases he.symm.trans hscan
    rfl
  · next he => cases he.symm.trans hscan

/-- The type straddles, and the call is made again. -/
theorem layer_straddling (hone : a.block_count ≠ 1) {merged : MemSliceSpan}
    (hscan : scan a.buffer (types.getD n 0) (prefixSize types n) 0 a.block_count.toNat = .ok .straddling)
    (hmerge : merge ndebug addr a = .ok merged) :
    layer ndebug types n addr a = layer ndebug types n addr merged := by
  rw [layer, dif_neg hone]
  split
  · next he => cases he.symm.trans hscan
  · next he => cases he.symm.trans hscan
  · next he => cases he.symm.trans hscan
  · split
    · next he => cases he.symm.trans hmerge
    · next he =>
      cases he.symm.trans hmerge
      rfl

/-- The memory for the single block is not enough. -/
theorem layer_fault (hone : a.block_count ≠ 1) {e : Fault}
    (hscan : scan a.buffer (types.getD n 0) (prefixSize types n) 0 a.block_count.toNat = .ok .straddling)
    (hmerge : merge ndebug addr a = .error e) : layer ndebug types n addr a = .error e := by
  rw [layer, dif_neg hone]
  split
  · next he => cases he.symm.trans hscan
  · next he => cases he.symm.trans hscan
  · next he => cases he.symm.trans hscan
  · split
    · next he =>
      cases he.symm.trans hmerge
      rfl
    · next he => cases he.symm.trans hmerge

end Equations

/-- The types that a proxy may have over a span: `sizeof` is positive, and all of them together have a
    size. -/
structure Sized (types : List UInt64) : Prop where
  positive : ∀ t ∈ types, 0 < t.toNat
  total : MemProxy.totalSize id types < 2 ^ 64

/-- `FullSize` is the sum of the sizes where that has not wrapped around. -/
theorem Sized.fullSize_eq {types : List UInt64} (h : Sized types) :
    (fullSize types).toNat = MemProxy.totalSize id types := by
  rw [fullSize, MemProxy.fullSize, MemProxy.sumOfSizes_eq]
  exact MemProxy.foldl_sum_of_lt h.total

/-- The N-th type ends where the types end, or before. -/
theorem Sized.prefixSize_add {types : List UInt64} (h : Sized types) {n : Nat} (hn : n < types.length) :
    (prefixSize types n).toNat + types[n].toNat ≤ (fullSize types).toNat := by
  have hsplit := MemProxy.totalSize_take_add id types n
  have htotal := h.total
  have hfront : (prefixSize types n).toNat = MemProxy.totalSize id (types.take n) := by
    rw [prefixSize, MemProxy.prefixSize_eq (Nat.le_of_lt hn)]
    exact MemProxy.foldl_sum_of_lt (by omega)
  have hback : types[n].toNat ≤ MemProxy.totalSize id (types.drop n) := by
    rw [List.drop_eq_getElem_cons hn, MemProxy.totalSize, List.map_cons, List.sum_cons]
    exact Nat.le_add_right _ _
  rw [hfront, h.fullSize_eq]
  omega

section Layer

variable {ndebug : Bool} {types : List UInt64} {bs : List (Option UInt8)} {a : MemSliceSpan} {n : Nat}

/-- In one block of all the bytes, layer `n` points at the byte where the layers before it end. -/
theorem Merged.layer (h : Merged bs a) (htypes : Sized types) (hn : n < types.length)
    (hfull : (fullSize types).toNat ≤ bs.length) (addr : Nat) :
    ∃ p, layer ndebug types n addr a = .ok (some p, a) ∧
      p.Shows ((bs.drop (prefixSize types n).toNat).take types[n].toNat) := by
  obtain ⟨hone, start, hbegin, hshows⟩ := h
  have hle := htypes.prefixSize_add hn
  refine ⟨start.advance (prefixSize types n).toNat, ?_, hshows.advance (by omega)⟩
  rw [BorrowedMemProxy.layer, dif_pos hone, hbegin, Checked.ok_bind]
  rfl

/-- **One call**, whatever the calls before it left. -/
theorem Holds.layer (h : Holds bs a) (htypes : Sized types) (hn : n < types.length)
    (hfull : (fullSize types).toNat ≤ bs.length) (addr : Nat) :
    ∃ p a', layer ndebug types n addr a = .ok (some p, a') ∧ Holds bs a' ∧
      p.Shows ((bs.drop (prefixSize types n).toNat).take types[n].toNat) := by
  rcases h with hmerged | ⟨hscattered, rfl⟩
  · obtain ⟨p, hlayer, hshows⟩ := @Merged.layer ndebug _ _ _ _ hmerged htypes hn hfull addr
    exact ⟨p, a, hlayer, Or.inl hmerged, hshows⟩
  · have hmany := hscattered.many
    have hone : ¬a.block_count = 1 := by omega
    have hle := htypes.prefixSize_add hn
    have hlt := (fullSize types).toNat_lt
    have hbytes : a.bytes = (chunks a.buffer 0 a.block_count.toNat).flatten := a.blocks_flatten.symm
    have hfits : (prefixSize types n).toNat + types[n].toNat ≤
        (chunks a.buffer 0 a.block_count.toNat).flatten.length := by
      rw [← hbytes]
      omega
    have hblocks : ∀ i, 0 ≤ i → i < 0 + a.block_count.toNat →
        (a.buffer i).buffer ≠ none ∧ (a.buffer i).Window := fun i _ hi => hscattered.block i (by omega)
    have hscan := scan_spec hblocks (htypes.positive _ (List.getElem_mem hn)) (by omega) hfits
    rw [← List.getD_eq_getElem _ 0 hn, ← hbytes] at hscan
    rw [← List.getD_eq_getElem _ 0 hn]
    rcases hscan with hscan | ⟨p, hscan, hshows⟩
    · -- the second time round there is one block
      obtain ⟨merged, hmerge, hmerged⟩ := hscattered.merge ndebug addr
      obtain ⟨p, hlayer, hshows⟩ := @Merged.layer ndebug _ _ _ _ hmerged htypes hn hfull addr
      rw [← List.getD_eq_getElem _ 0 hn] at hshows
      exact ⟨p, merged, (layer_straddling hone hscan hmerge).trans hlayer, Or.inl hmerged, hshows⟩
    · exact ⟨p, a, layer_found hone hscan, Or.inr ⟨hscattered, rfl⟩, hshows⟩

/-- **All calls before** leave what the last one needs. -/
theorem Holds.layers (h : Holds bs a) (htypes : Sized types)
    (hfull : (fullSize types).toNat ≤ bs.length) {calls : List (Nat × Nat)}
    (hcalls : ∀ c ∈ calls, c.1 < types.length) :
    ∃ a', layers ndebug types calls a = .ok a' ∧ Holds bs a' := by
  induction calls generalizing a with
  | nil => exact ⟨a, rfl, h⟩
  | cons c calls ih =>
    have hc := hcalls c List.mem_cons_self
    obtain ⟨p, a', hlayer, ha', -⟩ := @Holds.layer ndebug _ _ _ _ h htypes hc hfull c.2
    obtain ⟨a'', hlayers, ha''⟩ := ih ha' fun c' hc' => hcalls c' (List.mem_cons_of_mem _ hc')
    refine ⟨a'', ?_, ha''⟩
    rw [BorrowedMemProxy.layers, hlayer, Checked.ok_bind]
    exact hlayers

end Layer

/-! ## Any proxy -/

/-- A span that a proxy of `types` may borrow. -/
structure Lendable (types : List UInt64) (a : MemSliceSpan) : Prop where
  nonneg : 0 ≤ a.block_count
  few : a.block_count < kMaxBlocks
  block : ∀ i : Nat, (i : Int) < a.block_count → (a.buffer i).buffer ≠ none ∧ (a.buffer i).Window
  full : (fullSize types).toNat ≤ a.usedSum

/-- The bytes of the blocks, counted. -/
theorem frontBytes_length {a : MemSliceSpan} {n : Nat} (hw : ∀ i < n, (a.buffer i).Window) :
    (frontBytes a n).length = ∑ i ∈ Finset.range n, (a.buffer i).getUsedSize.toNat := by
  induction n with
  | zero => rfl
  | succ n ih =>
    rw [frontBytes_succ, List.length_append, ih fun i hi => hw i (Nat.lt_succ_of_lt hi),
      Finset.sum_range_succ, (hw n (Nat.lt_succ_self n)).bytes_length]

/-- A lendable span has as many bytes as its blocks use. -/
theorem Lendable.bytes_length {types : List UInt64} {a : MemSliceSpan} (h : Lendable types a) :
    a.bytes.length = a.usedSum :=
  frontBytes_length fun i hi => (h.block i (by omega)).2

/-- A copy of the span, in the proxy. -/
theorem Lendable.holds {types : List UInt64} {a : MemSliceSpan} (h : Lendable types a)
    (htypes : Sized types) (hsome : types ≠ []) (hroom : a.usedSum ≤ a.getUsedSize.toNat) :
    Holds a.bytes a.copy := by
  have hlength := h.bytes_length
  have hbuffer : ∀ i : Nat, (i : Int) < a.block_count → a.copy.buffer i = a.buffer i :=
    fun i hi => fill_of_lt hi _ _
  by_cases hone : a.block_count = 1
  · refine Or.inl ⟨hone, ?_⟩
    obtain ⟨hne, hw⟩ := h.block 0 (by omega)
    have hbytes : a.bytes = (a.buffer 0).bytes := by
      rw [bytes, hone]
      exact List.append_nil _
    rw [hbuffer 0 (by omega), hbytes]
    exact hw.begin hne
  · -- no blocks would hold no type
    have hmany : 1 < a.block_count := by
      have hnonneg := h.nonneg
      have hfull := h.full
      obtain ⟨t, types, rfl⟩ := List.exists_cons_of_ne_nil hsome
      have ht := htypes.positive t List.mem_cons_self
      rw [htypes.fullSize_eq, MemProxy.totalSize, List.map_cons, List.sum_cons, usedSum] at hfull
      have ht' : 0 < (id t : UInt64).toNat := ht
      by_contra hfew
      rw [show a.block_count.toNat = 0 by omega, Finset.sum_range_zero] at hfull
      omega
    refine Or.inr ⟨⟨hmany, h.few, fun i hi => ?_, ?_⟩, copy_bytes a⟩
    · rw [hbuffer i hi]
      exact h.block i hi
    · rw [copy_bytes, hlength]
      exact hroom

/-- **Layers are contiguous.**  Over any span whose `size_` covers its blocks, after any calls of `Layer`,
    the N-th layer points at the bytes that it has in the concatenation of the blocks. -/
theorem layer_contiguous {ndebug : Bool} {types : List UInt64} {a : MemSliceSpan} (htypes : Sized types)
    (h : Lendable types a) (hroom : a.usedSum ≤ a.getUsedSize.toNat) {calls : List (Nat × Nat)}
    (hcalls : ∀ c ∈ calls, c.1 < types.length) {n : Nat} (hn : n < types.length) (addr : Nat) :
    ∃ a₀ a₁ a₂ p, create ndebug types a = .ok a₀ ∧ layers ndebug types calls a₀ = .ok a₁ ∧
      layer ndebug types n addr a₁ = .ok (some p, a₂) ∧
      p.Shows ((a.bytes.drop (prefixSize types n).toNat).take types[n].toNat) ∧
      ((a.bytes.drop (prefixSize types n).toNat).take types[n].toNat).length = types[n].toNat := by
  have hlength := h.bytes_length
  have hfull := h.full
  have hle := htypes.prefixSize_add hn
  have hsome : types ≠ [] := List.ne_nil_of_length_pos (by omega)
  have hcreate : create ndebug types a = .ok a.copy := by
    -- the size is asked of the span as 32 bits, and there are enough bytes
    have hassert : decide (fullSize types ≤ a.getUsedSize.toUInt64) = true := by
      refine decide_eq_true (UInt64.le_iff_toNat_le.mpr ?_)
      rw [UInt32.toNat_toUInt64]
      omega
    unfold create
    rw [hassert]
    cases ndebug with
    | true => rfl
    | false => rfl
  -- earlier calls of `Layer` leave the bytes in place, merged or not
  obtain ⟨a₁, hlayers, h₁⟩ := @Holds.layers ndebug _ _ _ (h.holds htypes hsome hroom) htypes
    (by omega) _ hcalls
  obtain ⟨p, a₂, hlayer, -, hshows⟩ := @Holds.layer ndebug _ _ _ _ h₁ htypes hn (by omega) addr
  refine ⟨a.copy, a₁, a₂, p, hcreate, hlayers, hlayer, hshows, ?_⟩
  rw [List.length_take, List.length_drop]
  omega

/-- Three bytes and one, for two types of two bytes. -/
def sampleSpan : MemSliceSpan :=
  ((MemSliceSpan.empty.pushBack (sampleSlice 8 3)).1.pushBack (sampleSlice 9 1)).1

theorem sampleSpan_usedSum : sampleSpan.usedSum = 4 := by
  show ∑ i ∈ Finset.range 2, _ = 4
  rw [Finset.sum_range_succ, Finset.sum_range_one]
  rfl

theorem layer_contiguous_straddling :
    ∃ a₀ a₁ a₂ p, create false [2, 2] sampleSpan = .ok a₀ ∧
      layers false [2, 2] [(0, 5), (1, 6), (0, 7)] a₀ = .ok a₁ ∧
      layer false [2, 2] 1 8 a₁ = .ok (some p, a₂) ∧ p.Shows [some 2, some 0] := by
  have htypes : Sized [2, 2] := ⟨by simp, by decide +kernel⟩
  have hlend : Lendable [2, 2] sampleSpan := by
    refine ⟨by decide, by decide, ?_, by rw [sampleSpan_usedSum]; decide⟩
    intro i hi
    have hi : (i : Int) < 2 := hi
    have h₀ : sampleSpan.buffer 0 = sampleSlice 8 3 := rfl
    have h₁ : sampleSpan.buffer 1 = sampleSlice 9 1 := rfl
    rcases (show i = 0 ∨ i = 1 by omega) with rfl | rfl
    · rw [h₀]
      exact ⟨Option.some_ne_none _, MemSlice.window_new _ _⟩
    · rw [h₁]
      exact ⟨Option.some_ne_none _, MemSlice.window_new _ _⟩
  have hroom : sampleSpan.usedSum ≤ sampleSpan.getUsedSize.toNat := by
    rw [sampleSpan_usedSum]
    decide
  have hcalls : ∀ c ∈ [(0, 5), (1, 6), (0, 7)], c.1 < [2, 2].length := by decide
  have hn : 1 < [2, 2].length := by decide
  obtain ⟨a₀, a₁, a₂, p, hcreate, hlayers, hlayer, hshows, -⟩ :=
    @layer_contiguous false [2, 2] sampleSpan htypes hlend hroom _ hcalls 1 hn 8
  exact ⟨a₀, a₁, a₂, p, hcreate, hlayers, hlayer, hshows⟩

/-- One byte, and two blocks of 2^32 - 1 bytes. -/
def wrappedSpan : MemSliceSpan :=
  (((MemSliceSpan.empty.pushBack (sampleSlice 8 1)).1.pushBack
    (.reset (some (.create 9 0xFFFFFFFF)))).1.pushBack (.reset (some (.create 10 0xFFFFFFFF)))).1

/-- **Counterexample**: `size_` wraps around, the constructor does not notice, and the single block that is
    made for a straddling type is too small. -/
theorem layer_overflows :
    Sized [2] ∧ Lendable [2] wrappedSpan ∧ create false [2] wrappedSpan = .ok wrappedSpan.copy ∧
      ∀ addr, layer false [2] 0 addr wrappedSpan.copy = .error .outOfBounds := by
  -- three blocks of one byte and twice `0xFFFFFFFF`: the 32-bit size wraps to `0xFFFFFFFF`
  have hsum : wrappedSpan.usedSum = 1 + 0xFFFFFFFF + 0xFFFFFFFF := by
    show ∑ i ∈ Finset.range 3, _ = _
    rw [Finset.sum_range_succ, Finset.sum_range_succ, Finset.sum_range_one]
    rfl
  refine ⟨⟨by simp, by decide +kernel⟩, ⟨by decide, by decide, ?_, by rw [hsum]; decide⟩, rfl, ?_⟩
  · intro i hi
    have hi : (i : Int) < 3 := hi
    have h₀ : wrappedSpan.buffer 0 = sampleSlice 8 1 := rfl
    have h₁ : wrappedSpan.buffer 1 = .reset (some (.create 9 0xFFFFFFFF)) := rfl
    have h₂ : wrappedSpan.buffer 2 = .reset (some (.create 10 0xFFFFFFFF)) := rfl
    rcases (show i = 0 ∨ i = 1 ∨ i = 2 by omega) with rfl | rfl | rfl
    · rw [h₀]
      exact ⟨Option.some_ne_none _, MemSlice.window_new _ _⟩
    · rw [h₁]
      exact ⟨Option.some_ne_none _, MemSlice.window_reset _⟩
    · rw [h₂]
      exact ⟨Option.some_ne_none _, MemSlice.window_reset _⟩
  · intro addr
    have hscan : scan wrappedSpan.copy.buffer 2 0 0 3 = .ok .straddling := rfl
    have hmerge : merge false addr wrappedSpan.copy = .error .outOfBounds := rfl
    -- the two used bytes lie in two blocks, so `Layer` merges, and the copy overruns its buffer
    exact layer_fault (by decide) hscan hmerge

/-- Two blocks of one byte. -/
def smallSpan : MemSliceSpan :=
  ((MemSliceSpan.empty.pushBack (sampleSlice 8 1)).1.pushBack (sampleSlice 9 1)).1

/-- Sixteen types of 2^60 bytes have a `FullSize` of 0.  The constructor accepts two bytes for them, and
    the first layer points at two bytes. -/
theorem layer_past_end :
    create false (List.replicate 16 0x1000000000000000) smallSpan = .ok smallSpan.copy ∧
      ∃ p a, layer false (List.replicate 16 0x1000000000000000) 0 5 smallSpan.copy = .ok (some p, a) ∧
        ∀ bs, p.Shows bs → bs.length ≤ 2 := by
  have hscan : scan smallSpan.copy.buffer 0x1000000000000000 0 0 2 = .ok .straddling := rfl
  obtain ⟨merged, hmerge⟩ : ∃ merged, merge false 5 smallSpan.copy = .ok merged := ⟨_, rfl⟩
  have hblock : merged.block_count = 1 ∧ ∃ b : Block, (merged.buffer 0).begin = .ok ⟨b, 0⟩ ∧
      b.mem.capacity = 2 := by
    cases hmerge
    exact ⟨rfl, _, rfl, rfl⟩
  obtain ⟨hone, b, hbegin, hcapacity⟩ := hblock
  refine ⟨rfl, ⟨b, 0⟩, merged, ?_, fun bs hbs => ?_⟩
  · rw [layer_straddling (by decide) hscan hmerge, layer, dif_pos hone, hbegin]
    rfl
  · have hinside := hbs.inside
    rw [hcapacity] at hinside
    omega

end BorrowedMemProxy

end Turnserver
