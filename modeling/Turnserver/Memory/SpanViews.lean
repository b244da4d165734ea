/-
  VIEWS OF A SPAN (`memory/mem_slice_span.cpp`) — `Clone`, `ToSingleBlock`, `CloneSpannedMem` and
  `ToRawBuffer` of a span that was put together by `PushBack`.

  A slice denotes the bytes of its window (`MemSlice.bytes`), a span those of its blocks one after
  the other.  Each view walks the blocks in a loop of its own:

  * `Blocks a ss` — the span `a` consists of the slices `ss`; `Pushed` spans are such;
  * `rawBlocks_eq`, `copyBlocks_eq`, `cloneBlocks_eq` — what each loop yields after `n` blocks.

  All four assert that there are fewer than four blocks, where `PushBack` allows four; `Clone` goes
  through the buffer of every slice, where a slice may have none; and the single block of
  `ToSingleBlock` is a slice whose window ends at 65536.

  `views_iff`: the views denote the bytes of the span exactly when none of these is in the way.
-/
import Turnserver.Memory.MemSliceSpan

namespace Turnserver

/-! ## What is denoted -/

namespace MemSlice

/-- The bytes of the window. -/
def bytes (s : MemSlice) : List (Option UInt8) :=
  match s.buffer with
  | none => []
  | some b =>
    (List.range s.getUsedSize.toNat).map fun i => b.mem.cells (s.begin_offset.toNat + i)

/-- Any window of any buffer of at most 65536 bytes, or an empty slice. -/
structure Proper (s : MemSlice) : Prop where
  window : s.Window
  small : ∀ b, s.buffer = some b → b.mem.capacity ≤ 65536

/-- The sizes of a window, as natural numbers. -/
theorem Window.used {s : MemSlice} (h : s.Window) :
    s.getUsedSize.toNat = s.end_offset.toNat - s.begin_offset.toNat ∧
      s.begin_offset.toNat ≤ s.end_offset.toNat ∧ s.end_offset.toNat ≤ s.limit.toNat := by
  obtain ⟨hbegin, hend⟩ := h
  exact ⟨UInt32.toNat_sub_of_le _ _ hbegin, UInt32.le_iff_toNat_le.mp hbegin,
    UInt32.le_iff_toNat_le.mp hend⟩

/-- A slice without a buffer ends at zero. -/
theorem limit_none {s : MemSlice} (h : s.buffer = none) : s.limit.toNat = 0 := by
  rw [limit, h]
  rfl

/-- A slice ends with its buffer. -/
theorem limit_some {s : MemSlice} {b : Block} (h : s.buffer = some b) :
    s.limit.toNat = b.mem.capacity := by
  rw [limit, h]
  exact b.capacity_toNat

/-- A slice of nothing is empty. -/
theorem Window.used_none {s : MemSlice} (h : s.Window) (hnone : s.buffer = none) :
    s.getUsedSize.toNat = 0 := by
  obtain ⟨hused, -, hend⟩ := h.used
  rw [limit_none hnone] at hend
  omega

/-- The bytes of a window are as many as it uses. -/
theorem Window.bytes_length {s : MemSlice} (h : s.Window) : s.bytes.length = s.getUsedSize.toNat := by
  rw [bytes]
  split
  · next hnone => exact (h.used_none hnone).symm
  · rw [List.length_map, List.length_range]

/-- A proper slice uses at most 65536 bytes. -/
theorem Proper.used_le {s : MemSlice} (h : s.Proper) : s.getUsedSize.toNat ≤ 65536 := by
  obtain ⟨hused, hbegin, hend⟩ := h.window.used
  cases hbuffer : s.buffer with
  | none =>
    rw [h.window.used_none hbuffer]
    exact Nat.zero_le _
  | some b =>
    have hsmall := h.small b hbuffer
    rw [limit_some hbuffer] at hend
    omega

/-- A read of the whole window yields its bytes. -/
theorem Window.read {s : MemSlice} (h : s.Window) :
    ∃ src, s.read s.getUsedSize.toNat = .ok src ∧
      (List.range s.getUsedSize.toNat).map src = s.bytes := by
  obtain ⟨hused, hbegin, hend⟩ := h.used
  -- no block reads as no byte; otherwise the window lies inside the memory of the block
  cases hbuffer : s.buffer with
  | none =>
    rw [h.used_none hbuffer]
    refine ⟨fun _ => none, ?_, ?_⟩
    · rw [MemSlice.read, hbuffer]
      rfl
    · rw [bytes, hbuffer]
      rfl
  | some b =>
    have hfits : s.begin_offset.toNat + s.getUsedSize.toNat ≤ b.mem.capacity := by
      rw [limit_some hbuffer] at hend
      omega
    refine ⟨fun i => b.mem.cells (s.begin_offset.toNat + i), ?_, ?_⟩
    · rw [MemSlice.read, hbuffer]
      exact if_pos hfits
    · rw [bytes, hbuffer]

/-- The range of a proper slice is its bytes. -/
theorem Proper.range {s : MemSlice} (h : s.Proper) : s.range = .ok s.bytes := by
  obtain ⟨hused, -, -⟩ := h.window.used
  obtain ⟨src, hread, hbytes⟩ := h.window.read
  rw [MemSlice.range, if_pos h.window.begin_le, ← hused]
  exact Checked.bind_ok.mpr ⟨src, hread, congrArg _ hbytes⟩

end MemSlice

namespace MemSliceSpan

/-- The bytes of the blocks. -/
def bytes (a : MemSliceSpan) : List (Option UInt8) :=
  (List.range a.block_count.toNat).flatMap fun i => (a.buffer i).bytes

/-- `a` is made by pushing the slices `ss` to an empty span. -/
inductive Pushed : List MemSlice → MemSliceSpan → Prop
  | empty : Pushed [] .empty
  | push {ss : List MemSlice} {a a' : MemSliceSpan} {s : MemSlice} :
      Pushed ss a → s.Proper → a.pushBack s = (a', true) → Pushed (ss ++ [s]) a'

/-- `malloc` returns memory that is not in use. -/
def Fresh (addr : Nat → Nat) (a : MemSliceSpan) : Prop :=
  ∀ (i j : Nat) b, (j : Int) < a.block_count → (a.buffer j).buffer = some b → addr i ≠ b.addr

/-- No block of `c` is in a buffer of `a`. -/
def SharesNothing (c a : MemSliceSpan) : Prop :=
  ∀ (i j : Nat) b b', (i : Int) < c.block_count → (j : Int) < a.block_count →
    (c.buffer i).buffer = some b → (a.buffer j).buffer = some b' → b.addr ≠ b'.addr

/-- All views of `a` complete and denote `bytes`. -/
structure Views (ndebug : Bool) (a : MemSliceSpan) (bytes : List (Option UInt8)) : Prop where
  clone : ∀ addr, ∃ c, a.clone ndebug addr = .ok c ∧ c.bytes = bytes ∧
    (Fresh addr a → SharesNothing c a)
  toSingleBlock : ∀ addr, ∃ c, a.toSingleBlock ndebug addr = .ok c ∧ c.bytes = bytes ∧
    (bytes.length ≤ 65536 → c.block_count ≤ 1)
  cloneSpannedMem : ∀ addr, ∃ p q, a.cloneSpannedMem ndebug addr = .ok (p, q) ∧
    (List.range p.mem.capacity).map p.mem.cells = bytes
  toRawBuffer : a.toRawBuffer ndebug = .ok bytes

/-! ## The blocks -/

/-- The span consists of the slices `ss`. -/
structure Blocks (a : MemSliceSpan) (ss : List MemSlice) : Prop where
  count : a.block_count = ss.length
  le_max : a.block_count ≤ kMaxBlocks
  block : ∀ i (hi : i < ss.length), a.buffer i = ss[i]
  proper : ∀ s ∈ ss, s.Proper
  size : a.size.toNat = (ss.flatMap MemSlice.bytes).length

/-- One block is not longer than a window may be. -/
theorem flatMap_bytes_le {ss : List MemSlice} (h : ∀ s ∈ ss, s.Proper) :
    (ss.flatMap MemSlice.bytes).length ≤ 65536 * ss.length := by
  induction ss with
  | nil => exact Nat.zero_le _
  | cons s ss ih =>
    have hhead := h s List.mem_cons_self
    have htail := ih fun t ht => h t (List.mem_cons_of_mem _ ht)
    have hle := hhead.used_le
    rw [List.flatMap_cons, List.length_append, hhead.window.bytes_length, List.length_cons]
    omega

/-- A span of pushed slices has them as its blocks. -/
theorem Pushed.blocks {ss : List MemSlice} {a : MemSliceSpan} (h : Pushed ss a) : Blocks a ss := by
  -- induction on the pushes; one more block is accepted up to `kMaxBlocks`
  induction h with
  | empty =>
    refine ⟨rfl, by decide, fun i hi => absurd hi (Nat.not_lt_zero i), ?_, rfl⟩
    intro s hs
    cases hs
  | @push ss a a' s _ hs hpush ih =>
    rw [pushBack] at hpush
    split at hpush
    · cases hpush
    · next hroom =>
      cases hpush
      have hcount := ih.count
      have hlt : ss.length < 4 := by
        rw [kMaxBlocks] at hroom
        omega
      have hnat : a.block_count.toNat = ss.length := by omega
      refine ⟨?_, ?_, fun i hi => ?_, fun t ht => ?_, ?_⟩
      · show a.block_count + 1 = _
        rw [List.length_append, List.length_singleton]
        omega
      · show a.block_count + 1 ≤ 4
        omega
      -- the new block is the last one, and the others keep their places
      · show setBlock a.block_count.toNat s a.buffer i = _
        rw [List.length_append, List.length_singleton] at hi
        rw [hnat]
        rcases Nat.lt_succ_iff_lt_or_eq.mp hi with hlt | rfl
        · rw [setBlock_of_ne (Nat.ne_of_lt hlt), ih.block i hlt, List.getElem_append_left hlt]
        · rw [setBlock_same, List.getElem_concat_length rfl]
      · rcases List.mem_append.mp ht with ht | ht
        · exact ih.proper t ht
        · rw [List.mem_singleton.mp ht]
          exact hs
      -- four blocks have at most 2^18 bytes, so the size does not wrap
      · have hle := flatMap_bytes_le ih.proper
        have hused := hs.used_le
        have hsize : UInt32.size = 4294967296 := rfl
        show (a.size + s.getUsedSize).toNat = _
        rw [UInt32.toNat_add, ih.size, List.flatMap_append, List.length_append, List.flatMap_singleton,
          hs.window.bytes_length, Nat.mod_eq_of_lt (by omega)]

section Loops

variable {a : MemSliceSpan} {ss : List MemSlice}

/-- The bytes of a span are those of its slices. -/
theorem Blocks.bytes (h : Blocks a ss) : a.bytes = ss.flatMap MemSlice.bytes := by
  have hcount := h.count
  have hnat : a.block_count.toNat = ss.length := by omega
  rw [MemSliceSpan.bytes, hnat, List.flatMap_def, List.flatMap_def]
  congr 1
  apply List.ext_getElem
  · rw [List.length_map, List.length_map, List.length_range]
  · intro i hi hi'
    rw [List.length_map] at hi'
    rw [List.getElem_map, List.getElem_map, List.getElem_range, h.block i hi']

/-- The bytes of one block more. -/
theorem flatMap_take_succ {n : Nat} (hn : n < ss.length) :
    (ss.take (n + 1)).flatMap MemSlice.bytes =
      (ss.take n).flatMap MemSlice.bytes ++ ss[n].bytes := by
  rw [List.take_succ_eq_append_getElem hn, List.flatMap_append, List.flatMap_singleton]

/-- The raw blocks are the bytes of the first slices. -/
theorem rawBlocks_eq (h : Blocks a ss) {n : Nat} (hn : n ≤ ss.length) :
    rawBlocks a n = .ok ((ss.take n).flatMap MemSlice.bytes) := by
  induction n with
  | zero => rfl
  | succ n ih =>
    have hs := h.proper ss[n] (List.getElem_mem hn)
    rw [flatMap_take_succ hn, rawBlocks, ih (Nat.le_of_succ_le hn), Checked.ok_bind, h.block n hn,
      hs.range]
    rfl

theorem copyIn_fits {p : Block} {q n : Nat} (src : Nat → Option UInt8) (h : q + n ≤ p.mem.capacity) :
    ∃ p', p.copyIn q n src = .ok p' ∧ p'.mem.capacity = p.mem.capacity ∧
      (List.range (q + n)).map p'.mem.cells =
        (List.range q).map p.mem.cells ++ (List.range n).map src := by
  refine ⟨_, if_pos h, rfl, ?_⟩
  rw [List.range_add, List.map_append, List.map_map]
  congr 1
  · apply List.map_congr_left
    intro i hi
    have hlt := List.mem_range.mp hi
    exact if_neg (by omega)
  · apply List.map_congr_left
    intro i hi
    have hlt := List.mem_range.mp hi
    show (if q ≤ q + i ∧ q + i < q + n then src (q + i - q) else _) = _
    rw [if_pos (by omega), Nat.add_sub_cancel_left]

/-- The bytes of the first `n` blocks. -/
def frontBytes (a : MemSliceSpan) (n : Nat) : List (Option UInt8) :=
  (List.range n).flatMap fun i => (a.buffer i).bytes

/-- The bytes in front of one block more. -/
theorem frontBytes_succ (a : MemSliceSpan) (n : Nat) :
    frontBytes a (n + 1) = frontBytes a n ++ (a.buffer n).bytes := by
  rw [frontBytes, List.range_succ, List.flatMap_append, List.flatMap_singleton]
  rfl

/-- What is written of the block `p` after `n` blocks, if it has room for them. -/
theorem copyBlocks_eq {p : Block} {n : Nat} (hw : ∀ i < n, (a.buffer i).Window)
    (hroom : (frontBytes a n).length ≤ p.mem.capacity) :
    ∃ p', copyBlocks a p n = .ok (p', (frontBytes a n).length) ∧
      p'.mem.capacity = p.mem.capacity ∧
      (List.range (frontBytes a n).length).map p'.mem.cells = frontBytes a n := by
  -- induction on the blocks: what is copied so far, and then one block behind it
  induction n with
  | zero => exact ⟨p, rfl, rfl, rfl⟩
  | succ n ih =>
    rw [frontBytes_succ, List.length_append] at hroom
    obtain ⟨p', hcopy, hcap, hcells⟩ := ih (fun i hi => hw i (Nat.lt_succ_of_lt hi)) (by omega)
    obtain ⟨src, hread, hsrc⟩ := (hw n (Nat.lt_succ_self n)).read
    have hlen := (hw n (Nat.lt_succ_self n)).bytes_length
    have hfits : (frontBytes a n).length + (a.buffer n).getUsedSize.toNat ≤ p'.mem.capacity := by
      omega
    obtain ⟨p'', hin, hcap', hcells'⟩ := copyIn_fits src hfits
    rw [frontBytes_succ, copyBlocks, hcopy, Checked.ok_bind]
    dsimp only
    rw [hread, Checked.ok_bind, hin, Checked.ok_bind, List.length_append, hlen]
    exact ⟨p'', rfl, hcap'.trans hcap, by rw [hcells', hcells, hsrc]⟩

/-- The clones of the first `n` blocks. -/
theorem cloneBlocks_eq (h : Blocks a ss) (addr : Nat → Nat) {n : Nat} (hn : n ≤ ss.length)
    (hsome : ∀ s ∈ ss.take n, s.buffer ≠ none) :
    ∃ buffer, cloneBlocks addr a n = .ok buffer ∧ ∀ i (_ : i < n) (hi : i < ss.length),
      ∃ b, ss[i].buffer = some b ∧
        buffer i = ⟨some (b.clone (addr i)), ss[i].begin_offset, ss[i].end_offset⟩ := by
  -- induction on the blocks; each of them needs a buffer to be cloned
  induction n with
  | zero => exact ⟨empty.buffer, rfl, fun i hi => absurd hi (Nat.not_lt_zero i)⟩
  | succ n ih =>
    rw [List.take_succ_eq_append_getElem hn] at hsome
    obtain ⟨buffer, hclone, hbuffer⟩ := ih (Nat.le_of_succ_le hn)
      fun s hs => hsome s (List.mem_append_left _ hs)
    have hne := hsome ss[n] (List.mem_append_right _ (List.mem_singleton.mpr rfl))
    obtain ⟨b, hb⟩ := Option.ne_none_iff_exists'.mp hne
    refine ⟨setBlock n ⟨some (b.clone (addr n)), ss[n].begin_offset, ss[n].end_offset⟩ buffer, ?_, ?_⟩
    · rw [cloneBlocks, hclone, Checked.ok_bind, h.block n hn, MemSlice.clone, hb]
      rfl
    · intro i hlt hi
      rcases Nat.lt_succ_iff_lt_or_eq.mp hlt with hlt | rfl
      · rw [setBlock_of_ne (Nat.ne_of_lt hlt)]
        exact hbuffer i hlt hi
      · rw [setBlock_same]
        exact ⟨b, hb, rfl⟩

/-- `Clone` goes through the buffer of every block. -/
theorem cloneBlocks_some (h : Blocks a ss) {addr : Nat → Nat} {n : Nat} {buffer : Nat → MemSlice}
    (hn : n ≤ ss.length) (hclone : cloneBlocks addr a n = .ok buffer) :
    ∀ s ∈ ss.take n, s.buffer ≠ none := by
  induction n generalizing buffer with
  | zero =>
    intro s hs
    cases hs
  | succ n ih =>
    obtain ⟨buffer₁, hclone₁, hrest⟩ := Checked.bind_ok.mp hclone
    obtain ⟨s', hs', -⟩ := Checked.bind_ok.mp hrest
    rw [List.take_succ_eq_append_getElem hn]
    intro s hs
    rcases List.mem_append.mp hs with hs | hs
    · exact ih (Nat.le_of_succ_le hn) hclone₁ s hs
    · intro hnone
      rw [h.block n hn, ← List.mem_singleton.mp hs, MemSlice.clone, hnone] at hs'
      cases hs'

end Loops

/-! ## The views -/

/-- The window of a clone shows the same bytes. -/
theorem clone_bytes {b : Block} {addr : Nat} {begin_offset end_offset : UInt32}
    (hbegin : begin_offset ≤ end_offset) (hend : end_offset.toNat ≤ b.mem.capacity) :
    MemSlice.bytes ⟨some (b.clone addr), begin_offset, end_offset⟩ =
      MemSlice.bytes ⟨some b, begin_offset, end_offset⟩ := by
  have hused : (end_offset - begin_offset).toNat = end_offset.toNat - begin_offset.toNat :=
    UInt32.toNat_sub_of_le _ _ hbegin
  have hle := UInt32.le_iff_toNat_le.mp hbegin
  apply List.map_congr_left
  intro i hi
  have hlt : i < (end_offset - begin_offset).toNat := List.mem_range.mp hi
  exact if_pos (show begin_offset.toNat + i < b.mem.capacity by omega)

section

variable {a : MemSliceSpan} {ss : List MemSlice} {ndebug : Bool}

/-- The assertion of every view. -/
theorem require_iff :
    require ndebug (decide (a.block_count < kMaxBlocks)) = .ok () ↔
      (ndebug = false → a.block_count < kMaxBlocks) := by
  cases ndebug with
  | true => exact ⟨fun _ hno => (nomatch hno), fun _ => rfl⟩
  | false =>
    by_cases hlt : a.block_count < kMaxBlocks
    · rw [decide_eq_true hlt]
      exact ⟨fun _ _ => hlt, fun _ => rfl⟩
    · rw [decide_eq_false hlt]
      constructor
      · intro hno
        cases hno
      · intro hall
        exact absurd (hall rfl) hlt

/-- A clone goes through and has the bytes of the span, in fresh buffers. -/
theorem Blocks.clone_ok (h : Blocks a ss) (hasserts : ndebug = false → a.block_count < kMaxBlocks)
    (hsome : ∀ s ∈ ss, s.buffer ≠ none) (addr : Nat → Nat) :
    ∃ c, a.clone ndebug addr = .ok c ∧ c.bytes = a.bytes ∧ (Fresh addr a → SharesNothing c a) := by
  have hcount := h.count
  have hnat : a.block_count.toNat = ss.length := by omega
  obtain ⟨buffer, hclone, hbuffer⟩ := cloneBlocks_eq h addr (Nat.le_refl ss.length)
    (by rwa [List.take_length])
  refine ⟨⟨a.size, a.block_count, buffer⟩, ?_, ?_, ?_⟩
  -- the assertion holds, and every block has a buffer
  · rw [clone, require_iff.mpr hasserts, Checked.ok_bind, hnat, hclone]
    rfl
  · rw [MemSliceSpan.bytes, MemSliceSpan.bytes]
    apply List.flatMap_congr
    intro i hi
    have hlt : i < ss.length := hnat ▸ List.mem_range.mp hi
    obtain ⟨b, hb, heq⟩ := hbuffer i hlt hlt
    have hs := h.proper ss[i] (List.getElem_mem hlt)
    obtain ⟨-, -, hend⟩ := hs.window.used
    rw [MemSlice.limit_some hb] at hend
    show (buffer i).bytes = (a.buffer i).bytes
    rw [heq, h.block i hlt, clone_bytes hs.window.begin_le hend, ← hb]
  -- the copies lie at fresh addresses, so none is one of the old blocks
  · intro hfresh i j b b' hi hj hb hb'
    have hcount' : (i : Int) < a.block_count := hi
    have hlt : i < ss.length := by omega
    obtain ⟨b₀, -, heq⟩ := hbuffer i hlt hlt
    have hb : (buffer i).buffer = some b := hb
    rw [heq] at hb
    cases hb
    exact hfresh i j b' hj hb'

/-- `CloneSpannedMem` of any span whose `size_` covers its bytes. -/
theorem cloneSpannedMem_bytes (hw : ∀ i : Nat, (i : Int) < a.block_count → (a.buffer i).Window)
    (hroom : a.bytes.length ≤ a.size.toNat)
    (hasserts : ndebug = false → a.block_count < kMaxBlocks) (addr : Nat) :
    ∃ p, a.cloneSpannedMem ndebug addr = .ok (p, a.bytes.length) ∧
      p.mem.capacity = a.size.toNat ∧ (List.range a.bytes.length).map p.mem.cells = a.bytes := by
  have hw' : ∀ i < a.block_count.toNat, (a.buffer i).Window := fun i hi => hw i (by omega)
  obtain ⟨p, hcopy, hcap, hcells⟩ := copyBlocks_eq (p := .create addr a.size) hw' hroom
  refine ⟨p, ?_, hcap, hcells⟩
  rw [cloneSpannedMem, require_iff.mpr hasserts, Checked.ok_bind, hcopy]
  rfl

/-- Cloning the memory goes through and copies the bytes of the span into one block. -/
theorem Blocks.cloneSpannedMem_ok (h : Blocks a ss)
    (hasserts : ndebug = false → a.block_count < kMaxBlocks) (addr : Nat) :
    ∃ p, a.cloneSpannedMem ndebug addr = .ok (p, a.bytes.length) ∧
      p.mem.capacity = a.bytes.length ∧ (List.range p.mem.capacity).map p.mem.cells = a.bytes := by
  have hcount := h.count
  have hsize : a.size.toNat = a.bytes.length := by rw [h.size, h.bytes]
  have hw : ∀ i : Nat, (i : Int) < a.block_count → (a.buffer i).Window := by
    intro i hi
    have hlt : i < ss.length := by omega
    rw [h.block i hlt]
    exact (h.proper _ (List.getElem_mem hlt)).window
  obtain ⟨p, hclone, hcap, hcells⟩ := cloneSpannedMem_bytes hw (Nat.le_of_eq hsize.symm) hasserts addr
  rw [hsize] at hcap
  refine ⟨p, hclone, hcap, ?_⟩
  rw [hcap, hcells]

/-- The raw buffer is the bytes of the span. -/
theorem Blocks.toRawBuffer_ok (h : Blocks a ss)
    (hasserts : ndebug = false → a.block_count < kMaxBlocks) : a.toRawBuffer ndebug = .ok a.bytes := by
  have hcount := h.count
  have hnat : a.block_count.toNat = ss.length := by omega
  rw [toRawBuffer, require_iff.mpr hasserts, Checked.ok_bind, h.bytes]
  split
  · next hempty =>
    have hnil : ss.flatMap MemSlice.bytes = [] := by
      rcases hempty with hnone | hzero
      · have hzero : ss.length = 0 := by omega
        rw [List.length_eq_zero_iff.mp hzero]
        rfl
      · have hsize := h.size
        rw [hzero] at hsize
        exact List.length_eq_zero_iff.mp hsize.symm
    rw [hnil]
    rfl
  · rw [hnat, rawBlocks_eq h (Nat.le_refl _), List.take_length]

/-- A copy has the bytes of the span. -/
theorem copy_bytes (a : MemSliceSpan) : a.copy.bytes = a.bytes := by
  rw [MemSliceSpan.bytes, MemSliceSpan.bytes]
  apply List.flatMap_congr
  intro i hi
  have hlt : (i : Int) < a.block_count := by
    have hlt : i < a.block_count.toNat := List.mem_range.mp hi
    omega
  show (fill 0 a.block_count a.buffer empty.buffer i).bytes = _
  rw [fill_of_lt hlt]

/-- A block as a span of its own shows 65536 bytes of it. -/
theorem ofBuffer_bytes (p : Block) :
    (ofBuffer (some p)).bytes = (List.range (min 65536 p.mem.capacity)).map p.mem.cells := by
  have hone : (ofBuffer (some p)).bytes = (MemSlice.new (some p) MemSlice.kDefaultWindow).bytes :=
    List.append_nil _
  rw [hone, ← MemSlice.new_getUsedSize]
  apply List.map_congr_left
  intro i hi
  show p.mem.cells (0 + i) = _
  rw [Nat.zero_add]

/-- `ToSingleBlock` keeps the bytes, in one block, exactly if they are at most 65536. -/
theorem Blocks.toSingleBlock_iff (h : Blocks a ss)
    (hasserts : ndebug = false → a.block_count < kMaxBlocks) (addr : Nat) :
    (∃ c, a.toSingleBlock ndebug addr = .ok c ∧ c.bytes = a.bytes ∧
      (a.bytes.length ≤ 65536 → c.block_count ≤ 1)) ↔ a.bytes.length ≤ 65536 := by
  have hcount := h.count
  rw [toSingleBlock, require_iff.mpr hasserts, Checked.ok_bind]
  -- a single block is returned as it is, and has at most 65536 bytes
  by_cases hone : a.block_count ≤ 1
  · have hle : a.bytes.length ≤ 65536 := by
      have := flatMap_bytes_le h.proper
      rw [h.bytes]
      omega
    rw [if_pos hone]
    exact ⟨fun _ => hle, fun _ => ⟨a.copy, rfl, copy_bytes a, fun _ => hone⟩⟩
  -- more are copied into one buffer, and the span on it is cut at 65536
  · obtain ⟨p, hclone, hcap, hcells⟩ := h.cloneSpannedMem_ok hasserts addr
    rw [if_neg hone, hclone, Checked.ok_bind]
    constructor
    · rintro ⟨c, hc, hbytes, -⟩
      cases hc
      have hlen := congrArg List.length hbytes
      rw [ofBuffer_bytes, List.length_map, List.length_range, hcap] at hlen
      omega
    · intro hle
      refine ⟨_, rfl, ?_, fun _ => Int.le_refl 1⟩
      rw [ofBuffer_bytes, hcap, Nat.min_eq_right hle, ← hcap, hcells]

/-- **Views of a span**: all four denote the bytes of the blocks exactly when there are fewer than four
    blocks (where the asserts are compiled in), none without a buffer, and at most 65536 bytes. -/
theorem views_iff (h : Pushed ss a) :
    Views ndebug a (ss.flatMap MemSlice.bytes) ↔
      (ndebug = false → a.block_count < kMaxBlocks) ∧ (∀ s ∈ ss, s.buffer ≠ none) ∧
        (ss.flatMap MemSlice.bytes).length ≤ 65536 := by
  have hblocks := h.blocks
  have hcount := hblocks.count
  have hnat : a.block_count.toNat = ss.length := by omega
  rw [← hblocks.bytes]
  constructor
  -- each of the three conditions is read off one of the views
  · intro hviews
    have hasserts : ndebug = false → a.block_count < kMaxBlocks := by
      obtain ⟨⟨⟩, hrequire, -⟩ := Checked.bind_ok.mp hviews.toRawBuffer
      exact require_iff.mp hrequire
    refine ⟨hasserts, ?_, (hblocks.toSingleBlock_iff hasserts 0).mp (hviews.toSingleBlock 0)⟩
    obtain ⟨c, hc, -⟩ := hviews.clone fun _ => 0
    obtain ⟨-, -, hrest⟩ := Checked.bind_ok.mp hc
    obtain ⟨buffer, hclone, -⟩ := Checked.bind_ok.mp hrest
    rw [hnat] at hclone
    have hsome := cloneBlocks_some hblocks (Nat.le_refl _) hclone
    rwa [List.take_length] at hsome
  -- and the three together give every view
  · rintro ⟨hasserts, hsome, hle⟩
    constructor
    · exact hblocks.clone_ok hasserts hsome
    · intro addr
      exact (hblocks.toSingleBlock_iff hasserts addr).mpr hle
    · intro addr
      obtain ⟨p, hclone, -, hcells⟩ := hblocks.cloneSpannedMem_ok hasserts addr
      exact ⟨p, _, hclone, hcells⟩
    · exact hblocks.toRawBuffer_ok hasserts

end

/-- A slice of a written block of `n` bytes at `addr`. -/
def sampleSlice (addr : Nat) (n : UInt32) : MemSlice :=
  .new (some (.createCopy addr (fun i => some (.ofNat i)) n)) MemSlice.kDefaultWindow

theorem sampleSlice_proper {addr : Nat} {n : UInt32} (hn : n.toNat ≤ 65536) :
    (sampleSlice addr n).Proper := by
  refine ⟨MemSlice.window_new _ _, ?_⟩
  rintro b ⟨⟩
  exact hn

/-- Two blocks of three bytes and of one. -/
theorem views_iff_two :
    ∃ a, Pushed [sampleSlice 8 3, sampleSlice 9 1] a ∧
      Views false a [some 0, some 1, some 2, some 0] := by
  have hone : Pushed [sampleSlice 8 3] _ :=
    .push .empty (sampleSlice_proper (by decide)) rfl
  have htwo : Pushed [sampleSlice 8 3, sampleSlice 9 1] _ :=
    .push hone (sampleSlice_proper (by decide)) rfl
  refine ⟨_, htwo, (views_iff htwo).mpr ⟨fun _ => by decide, ?_, by decide⟩⟩
  intro s hs
  rcases List.mem_pair.mp hs with rfl | rfl
  · exact Option.some_ne_none _
  · exact Option.some_ne_none _

/-- **Counterexample**: `PushBack` admits a fourth block, and every view asserts. -/
theorem views_four :
    ∃ ss a, Pushed ss a ∧ ss.length = 4 ∧ a.toRawBuffer false = .error .assertion ∧
      ¬Views false a (ss.flatMap MemSlice.bytes) := by
  have hproper : ∀ addr, (sampleSlice addr 1).Proper := fun addr => sampleSlice_proper (by decide)
  have hone : Pushed [sampleSlice 8 1] _ := .push .empty (hproper 8) rfl
  have htwo : Pushed [sampleSlice 8 1, sampleSlice 9 1] _ := .push hone (hproper 9) rfl
  have hthree : Pushed [sampleSlice 8 1, sampleSlice 9 1, sampleSlice 10 1] _ :=
    .push htwo (hproper 10) rfl
  have hfour : Pushed [sampleSlice 8 1, sampleSlice 9 1, sampleSlice 10 1, sampleSlice 11 1] _ :=
    .push hthree (hproper 11) rfl
  refine ⟨_, _, hfour, rfl, rfl, ?_⟩
  intro hviews
  have hraw := hviews.toRawBuffer
  cases hraw

end MemSliceSpan

end Turnserver
