/-
  ONE FRAME (`base/packer.h`, `base/packet.h`) — what the accessors of a packed `Packer` return.

  `Pack` writes the header in front of the body, in the width that the body needs.  The accessors find
  the body again by comparing the length of the frame; `TakeBuffer` gives the block away as a slice,
  whose window ends at 65536 until `SetEndPointer` moves it to the end of the frame.

  1. `PackerCall.bytes` — what a push writes.  Below the size limit a sequence of pushes is allowed
     (`valid_of_pushes`) and leaves their bytes as the body (`foldl_pushes`).
  2. `Shows.takeBuffer` — the slice shows the frame.
  3. `header_decodes` — the header announces the length of the frame.

  `packed_accessors` puts them together with `Shows.view`.
-/
import Turnserver.Base.Unpacker
import Turnserver.Base.VectorPacker
import Turnserver.Memory.SpanViews

namespace Turnserver

open Bytes

/-! ## The code -/

namespace Packer

/-- The size of the buffer when the constructor is given none. -/
def kDefaultSize : UInt32 := 1024

/-- `TakeBuffer()`.  The capacity of a `MemBuf` is a `uint32_t`. -/
def takeBuffer (p : Packer) (addr : Nat) (hcap : p.mem.capacity < UInt32.size) : Checked MemSlice := do
  let slice := MemSlice.new (some ⟨addr, p.mem, hcap⟩) MemSlice.kDefaultWindow
  let slice ← slice.setBeginPointer (.ofNat p.position)
  slice.setEndPointer (.ofNat (p.position + p.length))

/-- `BodyStart()[0 .. BodySize())` -/
def bodyStart (p : Packer) : Checked (List UInt8) := p.mem.load 4 p.bodySize

/-- `PackedBuffer(t)`, for a `t` that is written by `calls`. -/
def packedBuffer (calls : List PackerCall) : Checked (List UInt8) := do
  let pkr ← (new kDefaultSize).run calls
  let pkr ← pkr.pack
  pkr.body2

end Packer

/-! ## Pushes -/

namespace PackerCall

/-- The bytes that a push writes. -/
def bytes : PackerCall → Option (List UInt8)
  | pushBoolean val => some (leBytes 1 val.toUInt8.toNat)
  | pushUint8 val => some (leBytes 1 val.toNat)
  | pushUint16 val => some (leBytes 2 val.toNat)
  | pushUint32 val => some (leBytes 4 val.toNat)
  | pushUint64 val => some (leBytes 8 val.toNat)
  | pushDouble val => some (leBytes 8 val.toNat)
  | pushVariableUint32 value => some (Packer.encVar value.toNat)
  | pushString val => some (Content.stringBytes val)
  | pushBuffer val => some (Content.stringBytes val)
  | pushBinary data => some data
  | _ => none

/-- A push appends its bytes, and is allowed where there is room for them. -/
theorem exec_bytes {call : PackerCall} {bs : List UInt8} (h : call.bytes = some bs) (c : Content) :
    c.exec call = c.push bs ∧ (c.Room bs.length → c.Allows call) := by
  cases call with
  -- these calls append nothing
  | writeUint16 val position => cases h
  | writeUint32 val position => cases h
  | pack => cases h
  | reset => cases h
  | pushVariableUint32 value =>
    cases h
    refine ⟨rfl, fun hroom => ?_⟩
    rw [Packer.encVar_length] at hroom
    exact hroom
  | pushString val =>
    cases h
    exact ⟨rfl, id⟩
  | pushBuffer val =>
    cases h
    exact ⟨rfl, id⟩
  | pushBinary data =>
    cases h
    exact ⟨rfl, id⟩
  -- numbers are appended with their width
  | _ =>
    cases h
    refine ⟨rfl, fun hroom => ?_⟩
    rw [leBytes_length] at hroom
    exact hroom

end PackerCall

/-- The calls are pushes, and what they write is `body`. -/
inductive Writes : List PackerCall → List UInt8 → Prop
  | nil : Writes [] []
  | cons {call : PackerCall} {bs : List UInt8} {calls : List PackerCall} {body : List UInt8} :
      call.bytes = some bs → Writes calls body → Writes (call :: calls) (bs ++ body)

/-- Pushes leave their bytes as the body. -/
theorem Writes.foldl_exec {calls : List PackerCall} {body : List UInt8} (h : Writes calls body)
    (c : Content) : calls.foldl Content.exec c = c.push body := by
  induction h generalizing c with
  | nil =>
    rw [Content.push, List.append_nil]
    rfl
  | cons hbytes hrest ih =>
    rw [List.foldl_cons, (PackerCall.exec_bytes hbytes c).1, ih]
    simp only [Content.push, List.append_assoc]

/-- Below the limit every push is allowed. -/
theorem Writes.valid {calls : List PackerCall} {body : List UInt8} (h : Writes calls body)
    {c : Content} (hopen : c.header = none) (hmax : 4 + (c.body ++ body).length < kMaxPacketSize) :
    c.Valid calls := by
  induction h generalizing c with
  | nil => trivial
  | cons hbytes hrest ih =>
    obtain ⟨hexec, hallows⟩ := PackerCall.exec_bytes hbytes c
    rw [← List.append_assoc] at hmax
    refine ⟨hallows ⟨hopen, ?_⟩, ?_⟩
    · rw [List.length_append, List.length_append] at hmax
      omega
    · rw [hexec]
      exact ih hopen hmax

/-! ## The accessors -/

/-- The bytes of a segment, read one by one. -/
theorem map_range_of_segment {cells : Nat → Option UInt8} {pos : Nat} {bs : List UInt8}
    (h : Segment cells pos bs) :
    (List.range bs.length).map (fun i => cells (pos + i)) = bs.map some := by
  apply List.ext_getElem
  · rw [List.length_map, List.length_map, List.length_range]
  · intro i hi hi'
    rw [List.length_map] at hi'
    rw [List.getElem_map, List.getElem_map, List.getElem_range, h i hi', List.getElem?_eq_getElem hi']

/-- **The slice** shows the frame.  Its window is first that of the block, or of 65536 bytes, which hold
    the begin of the frame; then the block holds its end. -/
theorem Shows.takeBuffer {p : Packer} {c : Content} {header : List UInt8} (h : Shows p c)
    (hpacked : c.header = some header) (addr : Nat) :
    ∃ slice, p.takeBuffer addr h.capacity_lt = .ok slice ∧
      slice.bytes = (header ++ c.body).map some := by
  obtain ⟨hseg, hend, hlength, hlen⟩ := h.frame hpacked
  have hle := h.body_le
  have hlt : p.mem.capacity < 2 ^ 32 := h.capacity_lt
  have htotal : (header ++ c.body).length = header.length + c.body.length := List.length_append
  have hpos : (UInt32.ofNat p.position).toNat = p.position :=
    UInt32.toNat_ofNat_of_lt' (show p.position < 2 ^ 32 by omega)
  have hstop : (UInt32.ofNat (p.position + p.length)).toNat = p.position + p.length :=
    UInt32.toNat_ofNat_of_lt' (show p.position + p.length < 2 ^ 32 by omega)
  let b : Block := ⟨addr, p.mem, h.capacity_lt⟩
  have hcap : b.capacity.toNat = p.mem.capacity := b.capacity_toNat
  -- the begin is inside the window of the new slice
  have hbegin : (MemSlice.new (some b) MemSlice.kDefaultWindow).setBeginPointer (.ofNat p.position) =
      .ok { MemSlice.new (some b) MemSlice.kDefaultWindow with begin_offset := .ofNat p.position } := by
    have hused := MemSlice.new_getUsedSize b
    have hin : ¬UInt32.ofNat p.position > (MemSlice.new (some b) MemSlice.kDefaultWindow).end_offset := by
      rw [gt_iff_lt, UInt32.lt_iff_toNat_lt, hpos]
      have hsame : (MemSlice.new (some b) MemSlice.kDefaultWindow).getUsedSize =
          (MemSlice.new (some b) MemSlice.kDefaultWindow).end_offset := UInt32.sub_zero _
      rw [← hsame, hused]
      show ¬min 65536 p.mem.capacity < p.position
      omega
    unfold MemSlice.setBeginPointer
    rw [if_neg hin]
    rfl
  -- the end is behind the begin, and inside the block
  have hset : MemSlice.setEndPointer (.ofNat (p.position + p.length))
      { MemSlice.new (some b) MemSlice.kDefaultWindow with begin_offset := .ofNat p.position } =
      .ok ⟨some b, .ofNat p.position, .ofNat (p.position + p.length)⟩ := by
    have hafter : ¬UInt32.ofNat (p.position + p.length) < UInt32.ofNat p.position := by
      rw [UInt32.lt_iff_toNat_lt, hpos, hstop]
      omega
    have hinside : ¬UInt32.ofNat (p.position + p.length) > b.capacity := by
      rw [gt_iff_lt, UInt32.lt_iff_toNat_lt, hstop, hcap]
      omega
    unfold MemSlice.setEndPointer
    show (Except.ok _ : Checked MemSlice) = _
    dsimp only
    rw [if_neg hafter, if_neg hinside]
    rfl
  refine ⟨_, Checked.bind_ok.mpr ⟨_, hbegin, hset⟩, ?_⟩
  have hused : (UInt32.ofNat (p.position + p.length) - UInt32.ofNat p.position).toNat =
      (header ++ c.body).length := by
    rw [UInt32.toNat_sub_of_le _ _ (by rw [UInt32.le_iff_toNat_le, hpos, hstop]; omega), hpos, hstop]
    omega
  show (List.range (UInt32.ofNat (p.position + p.length) - UInt32.ofNat p.position).toNat).map
    (fun i => p.mem.cells ((UInt32.ofNat p.position).toNat + i)) = _
  rw [hused, hpos]
  exact map_range_of_segment hseg

/-- **The header** that is popped is the length of the frame. -/
theorem header_decodes {body : List UInt8} (hmax : 4 + body.length < kMaxPacketSize) (len : UInt32)
    (heap : Nat → UInt8) :
    (Unpacker.popVariableUint32.run
      (Unpacker.raw (blockOf (Packer.frameOf body) heap) len none)).1 = (Packer.frameOf body).length := by
  have hlen := Packer.frameOf_length body
  have hval : Packer.frameLength body.length < 2 ^ 23 := by
    rw [kMaxPacketSize] at hmax
    rw [Packer.frameLength]
    split <;> omega
  have hat : (Unpacker.raw (blockOf (Packer.frameOf body) heap) len none).At (Packer.frameOf body) := by
    refine ⟨?_, fun i hi => ?_⟩
    · show 0 + _ < 2 ^ 32
      omega
    · show blockOf (Packer.frameOf body) heap (0 + i) = _
      rw [Nat.zero_add]
      exact blockOf_lt hi
  have hrun := Strict.popVariableUint32_yields hval body
  rw [hlen]
  exact (Unpacker.Follows.popVariableUint32.success hat hrun).1

namespace Packer

/-- Pushes and `Pack` succeed below the limit. -/
theorem packed_shows (buffer_sz : UInt32) {calls : List PackerCall} {body : List UInt8}
    (h : Writes calls body) (hmax : 4 + body.length < kMaxPacketSize) :
    ∃ pkr p, (new buffer_sz).run calls = .ok pkr ∧ pkr.pack = .ok p ∧
      Shows p ⟨some (encVar (frameLength body.length)), body⟩ := by
  obtain ⟨pkr, hrun, hshows⟩ := run_shows (new_shows buffer_sz) (h.valid rfl hmax)
  rw [h.foldl_exec] at hshows
  obtain ⟨p, hpack, hpacked⟩ := pack_shows hshows rfl
  exact ⟨pkr, p, hrun, hpack, hpacked⟩

/-- The header is wider from the body size on that makes the frame 32769 bytes long. -/
theorem header_length (n : Nat) :
    (encVar (frameLength n)).length = if n < 0x7FFE then 2 else 3 := by
  rw [encVar_length, variableUint32Length, frameLength]
  split <;> split <;> split <;> omega

/-- The accessors, one by one. -/
theorem view_ok {p : Packer} {v : PackedView} (h : p.view = .ok v) :
    p.length = v.length ∧ p.buffer = .ok v.buffer ∧ p.data = .ok v.data ∧ p.data2 = .ok v.data2 ∧
      p.body = .ok v.body ∧ p.body2 = .ok v.body2 ∧ p.bodySize = v.bodySize := by
  obtain ⟨buffer, hbuffer, hrest⟩ := Checked.bind_ok.mp h
  obtain ⟨data, hdata, hrest⟩ := Checked.bind_ok.mp hrest
  obtain ⟨data2, hdata2, hrest⟩ := Checked.bind_ok.mp hrest
  obtain ⟨body, hbody, hrest⟩ := Checked.bind_ok.mp hrest
  obtain ⟨body2, hbody2, hview⟩ := Checked.bind_ok.mp hrest
  obtain rfl := (Checked.pure_ok _ _).mp hview
  exact ⟨rfl, hbuffer, hdata, hdata2, hbody, hbody2, rfl⟩

/-- **Packed accessors.**  After any pushes that write `body`, all accessors describe one frame: a header
    of two bytes or three, which announces the length of the frame, and `body`. -/
theorem packed_accessors (buffer_sz : UInt32) {calls : List PackerCall} {body : List UInt8}
    (h : Writes calls body) (hmax : 4 + body.length < kMaxPacketSize) (addr : Nat)
    (heap : Nat → UInt8) :
    ∃ (pkr p : Packer) (hcap : p.mem.capacity < UInt32.size) (header : List UInt8) (slice : MemSlice),
      (new buffer_sz).run calls = .ok pkr ∧ pkr.pack = .ok p ∧
      header.length = (if body.length < 0x7FFE then 2 else 3) ∧
      p.data = .ok (header ++ body) ∧ p.data2 = .ok (header ++ body) ∧
      p.buffer = .ok (header ++ body) ∧ p.length = (header ++ body).length ∧
      p.takeBuffer addr hcap = .ok slice ∧ slice.bytes = (header ++ body).map some ∧
      (Unpacker.popVariableUint32.run
        (Unpacker.raw (blockOf (header ++ body) heap) (.ofNat (header ++ body).length) none)).1 =
          (header ++ body).length ∧
      p.body = .ok body ∧ p.body2 = .ok body ∧ p.bodyStart = .ok body ∧
      packedBuffer calls = .ok body := by
  obtain ⟨pkr, p, hrun, hpack, hshows⟩ := packed_shows buffer_sz h hmax
  -- `packedBuffer` packs the same calls into another packer, of the default size
  obtain ⟨pkr', p', hrun', hpack', hshows'⟩ := packed_shows kDefaultSize h hmax
  obtain ⟨slice, hslice, hbytes⟩ := hshows.takeBuffer rfl addr
  obtain ⟨hlength, hbuffer, hdata, hdata2, hbody, hbody2, hsize⟩ := view_ok (hshows.view rfl).1
  obtain ⟨-, -, -, -, -, hbody2', -⟩ := view_ok (hshows'.view rfl).1
  have hpacked : packedBuffer calls = .ok body := by
    unfold packedBuffer
    rw [hrun', Checked.ok_bind, hpack', Checked.ok_bind]
    exact hbody2'
  have hstart : p.bodyStart = .ok body := by
    unfold bodyStart
    rw [hsize]
    exact MemBuf.load_of_segment hshows.body_le hshows.body
  have hframe : p.length = (encVar (frameLength body.length) ++ body).length := by
    rw [List.length_append]
    exact hlength
  exact ⟨pkr, p, hshows.capacity_lt, _, slice, hrun, hpack, header_length body.length, hdata, hdata2,
    hbuffer, hframe, hslice, hbytes, header_decodes hmax _ heap, hbody, hbody2, hstart, hpacked⟩

/-- A word and 32764 bytes: the frame is the first one with a header of three bytes. -/
theorem packed_accessors_three :
    ∃ (p : Packer) (header : List UInt8), header.length = 3 ∧
      p.data = .ok (header ++ ([5, 0] ++ (List.replicate 32764 7 ++ []))) ∧ p.length = 32769 := by
  have hwrites : Writes [.pushUint16 5, .pushBinary (List.replicate 32764 7)]
      ([5, 0] ++ (List.replicate 32764 7 ++ [])) := .cons rfl (.cons rfl .nil)
  have hlen : ([5, 0] ++ (List.replicate 32764 7 ++ []) : List UInt8).length = 32766 := by
    rw [List.length_append, List.append_nil, List.length_replicate]
    rfl
  have hmax : 4 + ([5, 0] ++ (List.replicate 32764 7 ++ []) : List UInt8).length < kMaxPacketSize := by
    rw [hlen]
    decide
  obtain ⟨-, p, -, header, -, -, -, hheader, hdata, -, -, hlength, -⟩ :=
    packed_accessors 0 hwrites hmax 8 fun _ => 0
  rw [hlen] at hheader
  refine ⟨p, header, hheader, hdata, ?_⟩
  rw [hlength, List.length_append, hlen, hheader]
  rfl

end Packer

end Turnserver
