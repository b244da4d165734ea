/-
  THE WORKER-MANAGER SOCKET (`turnserver_main.cc`: `WorkerTCPSocket::ProcessInput`,
  `Worker::OnWorkerManagerPacket`, `WorkerTCPSocket::Send`) — what becomes of a byte stream that is
  not reassembled, and what of one that is sent.

  The socket base class calls `ProcessInput` with the bytes that are not consumed yet and drops those
  that it reports as consumed.  This one passes everything on as one packet and sets `*len` to 0:
  the loop that would look for packet boundaries is commented out.  The handler decodes one frame
  from whatever lies at `data`, also behind the bytes received, where older input lies (`stale`).

  `processInput_reassembles_iff`: the worker acts on exactly the texts that were sent, and consumes
  nothing but whole frames, if and only if every read is exactly one whole frame.

  On the other side the socket buffers at most one packet: `Send` drops a packet while the buffer is
  not empty, and drops it again, with all that is buffered, where the flush makes no progress.  That
  never hits a packet that is sent in part, since then the buffer would not have been empty
  (`send_stream`).
-/
import Turnserver.Base.Format
import Turnserver.Lib.Framing
import Turnserver.Lib.Transition

namespace Turnserver

open Bytes Framing Transition

/-! ## The code -/

/-- `Worker::OnWorkerManagerPacket(data, size)`, up to the JSON text that it acts on. -/
def onWorkerManagerPacket (data : Nat → UInt8) (size : Nat) : List UInt8 :=
  let unpkr := Unpacker.new data (.ofNat size) none
  let service_type := Unpacker.popUint16.run unpkr
  let uri := Unpacker.popUint16.run service_type.2
  (Unpacker.popString.run uri.2).1

/-- A read of 1 to 65536 bytes, and what lies behind them in the input buffer. -/
structure Read where
  bytes : List UInt8
  stale : Nat → UInt8
  nonempty : bytes ≠ []
  length_le : bytes.length ≤ 65536

namespace WorkerTCPSocket

/-- `ProcessInput(data, len)`: the packet passed on has the length narrowed to `PacketLength`; the new
    `*len` is 0. -/
def processInput (data : List UInt8) (stale : Nat → UInt8) : List UInt8 × Nat :=
  (onWorkerManagerPacket (blockOf data stale) (u16 data.length), 0)

/-- The input side of the socket: the bytes not consumed, and, call by call, the text acted on and the
    bytes reported as consumed. -/
structure State where
  unconsumed : List UInt8
  texts : List (List UInt8)
  consumed : List (List UInt8)

/-- `AsyncTCPSocketBase`: a read joins what is not consumed yet, then `ProcessInput` runs. -/
def onRead (s : State) (r : Read) : State :=
  let data := s.unconsumed ++ r.bytes
  let result := processInput data r.stale
  { unconsumed := data.drop (data.length - result.2)
    texts := s.texts ++ [result.1]
    consumed := s.consumed ++ [data.take (data.length - result.2)] }

/-- A new connection, and all the reads from it. -/
def run (reads : List Read) : State := reads.foldl onRead ⟨[], [], []⟩

/-! ## A run, read by read -/

/-- The text acted on after one read. -/
def textOf (r : Read) : List UInt8 :=
  onWorkerManagerPacket (blockOf r.bytes r.stale) (u16 r.bytes.length)

/-- One read is one packet, whatever came before. -/
theorem onRead_eq (texts consumed : List (List UInt8)) (r : Read) :
    onRead ⟨[], texts, consumed⟩ r = ⟨[], texts ++ [textOf r], consumed ++ [r.bytes]⟩ := by
  rw [onRead]
  simp only [processInput, List.nil_append, Nat.sub_zero, List.drop_length, List.take_length]
  rfl

/-- Every read is handled on its own, and nothing is left over. -/
theorem foldl_onRead (reads : List Read) (texts consumed : List (List UInt8)) :
    reads.foldl onRead ⟨[], texts, consumed⟩ =
      ⟨[], texts ++ reads.map textOf, consumed ++ reads.map Read.bytes⟩ := by
  induction reads generalizing texts consumed with
  | nil =>
    rw [List.map_nil, List.map_nil, List.append_nil, List.append_nil]
    rfl
  | cons r rs ih =>
    rw [List.foldl_cons, onRead_eq, ih, List.map_cons, List.map_cons, List.append_assoc,
      List.append_assoc]
    rfl

/-- A run handles the reads one by one. -/
theorem run_eq (reads : List Read) :
    run reads = ⟨[], reads.map textOf, reads.map Read.bytes⟩ := by
  rw [run, foldl_onRead, List.nil_append, List.nil_append]

/-! ## A read that is one frame -/

/-- A frame of the worker manager. -/
abbrev CommFrame := Packed Elbs.WorkerManagerComm

/-- The JSON of a frame. -/
def CommFrame.json (f : CommFrame) : List UInt8 := f.value.members.1

/-- What the packer writes of a text: its length is narrowed to 32 bits. -/
def writtenText (json : List UInt8) : List UInt8 := json.take (u32 json.length)

/-- Written text has its length, up to 32 bits. -/
theorem writtenText_length (json : List UInt8) : (writtenText json).length = u32 json.length := by
  have : u32 json.length ≤ json.length := Nat.mod_le _ _
  rw [writtenText, List.length_take]
  omega

/-- Text is written as it is exactly below `2^32` bytes. -/
theorem writtenText_eq_iff (json : List UInt8) : writtenText json = json ↔ json.length < 2 ^ 32 := by
  constructor
  · intro h
    have := writtenText_length json
    rw [h] at this
    rw [this]
    exact u32_lt _
  · intro h
    rw [writtenText, u32_of_lt h, List.take_length]

/-- The bytes of a frame behind its size. -/
theorem CommFrame.body_eq (f : CommFrame) :
    f.body = leBytes 2 f.value.serverType.toNat ++ (leBytes 2 f.value.uri.toNat ++
      (Packer.encVar (u32 f.json.length) ++ writtenText f.json)) := by
  show _ ++ (_ ++ ((Packer.encVar _ ++ _) ++ [])) = _
  rw [List.append_nil]
  rfl

/-- The text is a part of the frame. -/
theorem CommFrame.text_le (f : CommFrame) : (writtenText f.json).length ≤ f.frame.length := by
  rw [f.frame_eq, Packer.frameOf, f.body_eq]
  simp only [List.length_append]
  omega

/-- Where a read is one whole frame, the handler gets the text that was written, whatever lies behind
    the read and whatever the length was narrowed to. -/
theorem textOf_frame {r : Read} {f : CommFrame} (h : r.bytes = f.frame) :
    textOf r = writtenText f.json := by
  have hframe := f.frame_eq
  have hbody := f.body_eq
  -- a body is shorter than `kMaxPacketSize`, and so is its text
  have hsmall : (writtenText f.json).length < 2 ^ 23 := by
    have hlt := f.body_lt
    rw [hbody, kMaxPacketSize] at hlt
    simp only [List.length_append] at hlt
    omega
  have hbuf : ∀ i (hi : i < (Packer.frameOf f.body).length),
      blockOf r.bytes r.stale i = (Packer.frameOf f.body)[i] := by
    rw [h, ← hframe]
    exact fun i hi => blockOf_lt hi
  have hat := (Unpacker.new_at (.ofNat (u16 r.bytes.length)) f.body_lt hbuf none (Or.inl rfl)).1
  rw [hbody] at hat
  -- past the two words the string is read with its length
  obtain ⟨-, hat₁, -⟩ :=
    Unpacker.Follows.popUint16.success hat (uint16_yields f.value.serverType _)
  obtain ⟨-, hat₂, -⟩ := Unpacker.Follows.popUint16.success hat₁ (uint16_yields f.value.uri _)
  have hyields := Strict.popData_yields hsmall []
  rw [List.append_nil, writtenText_length] at hyields
  exact (Unpacker.Follows.popString.success hat₂ hyields).1

/-! ## What consuming whole frames means -/

/-- Every byte of every consumption belongs to a frame that lies in that consumption: `k` is a position
    of the stream, the `i`-th consumption reaches from the seam `i` to the seam `i + 1`. -/
def ConsumesWhole (frames consumed : List (List UInt8)) : Prop :=
  ∀ i, i < consumed.length → ∀ k, seam consumed i ≤ k → k < seam consumed (i + 1) →
    ∃ g, g < frames.length ∧ seam consumed i ≤ seam frames g ∧ seam frames g ≤ k ∧
      k < seam frames (g + 1) ∧ seam frames (g + 1) ≤ seam consumed (i + 1)

/-- Frames consume themselves. -/
theorem consumesWhole_refl (frames : List (List UInt8)) : ConsumesWhole frames frames := by
  intro i hi k hk hlt
  exact ⟨i, hi, Nat.le_refl _, hk, hlt, Nat.le_refl _⟩

/-- No frame is empty. -/
theorem frame_ne_nil {frames : List CommFrame} : ∀ w ∈ frames.map Packed.frame, w ≠ [] := by
  intro w hw
  obtain ⟨f, -, rfl⟩ := List.mem_map.mp hw
  have hlen := Packer.encVar_length_pos (Packer.frameLength f.body.length)
  rw [f.frame_eq, Packer.frameOf]
  intro hnil
  rw [(List.append_eq_nil_iff.mp hnil).1] at hlen
  exact absurd hlen (by decide)

/-- No read is empty. -/
theorem read_ne_nil {reads : List Read} : ∀ w ∈ reads.map Read.bytes, w ≠ [] := by
  intro w hw
  obtain ⟨r, -, rfl⟩ := List.mem_map.mp hw
  exact r.nonempty

/-- As many reads as frames, and only whole frames consumed: the reads are the frames. -/
theorem reads_eq_of_consumesWhole {frames : List CommFrame} {reads : List Read}
    (hcut : (reads.map Read.bytes).flatten = (frames.map Packed.frame).flatten)
    (hlen : reads.length = frames.length)
    (hwhole : ConsumesWhole (frames.map Packed.frame) (reads.map Read.bytes)) :
    reads.map Read.bytes = frames.map Packed.frame := by
  refine eq_of_seams read_ne_nil frame_ne_nil hcut ?_ ?_
  · rw [List.length_map, List.length_map, hlen]
  · intro i hi
    -- the first byte of a read lies in a frame that begins no earlier than the read
    have hlt := seam_lt (@read_ne_nil reads) (Nat.lt_succ_self i) hi
    obtain ⟨g, hg, hstart, hle, -, -⟩ := hwhole i hi _ (Nat.le_refl _) hlt
    exact ⟨g, hg, Nat.le_antisymm hle hstart⟩

/-- Frame by frame, the texts are the ones that were written. -/
theorem texts_of_frames {frames : List CommFrame} {reads : List Read}
    (h : reads.map Read.bytes = frames.map Packed.frame) :
    reads.map textOf = frames.map fun f => writtenText f.json := by
  induction frames generalizing reads with
  | nil =>
    rw [List.map_nil, List.map_eq_nil_iff] at h
    rw [h]
    rfl
  | cons f fs ih =>
    cases reads with
    | nil => cases h
    | cons r rs =>
      rw [List.map_cons, List.map_cons] at h
      obtain ⟨hr, hrs⟩ := List.cons_eq_cons.mp h
      rw [List.map_cons, List.map_cons, textOf_frame hr, ih hrs]

/-- All texts are written as they are exactly if all are below `2^32` bytes. -/
theorem map_writtenText_eq_iff (frames : List CommFrame) :
    (frames.map fun f => writtenText f.json) = frames.map CommFrame.json ↔
      ∀ f ∈ frames, (CommFrame.json f).length < 2 ^ 32 := by
  rw [List.map_inj_left]
  constructor
  · intro h f hf
    exact (writtenText_eq_iff _).mp (h f hf)
  · intro h f hf
    exact (writtenText_eq_iff _).mpr (h f hf)

/-- **No reassembly, exactly.**  For every sequence of frames and every way of cutting their
    concatenation into reads: the worker acts on exactly the texts of the frames, in order, and
    everything it consumes belongs to frames that it got whole, if and only if every read is
    exactly one frame (of a text that the packer can write). -/
theorem processInput_reassembles_iff (frames : List CommFrame) (reads : List Read)
    (hcut : (reads.map Read.bytes).flatten = (frames.map Packed.frame).flatten) :
    ((run reads).texts = frames.map CommFrame.json ∧
      ConsumesWhole (frames.map Packed.frame) (run reads).consumed) ↔
    (reads.map Read.bytes = frames.map Packed.frame ∧
      ∀ f ∈ frames, (CommFrame.json f).length < 2 ^ 32) := by
  rw [run_eq]
  constructor
  -- as many reads as frames, and each of them a whole one
  · rintro ⟨htexts, hwhole⟩
    have hlen : reads.length = frames.length := by
      have := congrArg List.length htexts
      simpa using this
    have heq := reads_eq_of_consumesWhole hcut hlen hwhole
    have htexts' : reads.map textOf = frames.map CommFrame.json := htexts
    rw [texts_of_frames heq] at htexts'
    exact ⟨heq, (map_writtenText_eq_iff frames).mp htexts'⟩
  · rintro ⟨heq, hsmall⟩
    constructor
    · show reads.map textOf = _
      rw [texts_of_frames heq]
      exact (map_writtenText_eq_iff frames).mpr hsmall
    · show ConsumesWhole _ (reads.map Read.bytes)
      rw [heq]
      exact consumesWhole_refl _

/-- A frame with the text `[]`. -/
def sampleComm : CommFrame :=
  ⟨⟨1000, 1000, [0x5b, 0x5d], ()⟩, 0, _, _, [10, 0, 0xe8, 3, 0xe8, 3, 2, 0, 0x5b, 0x5d],
    rfl, rfl, rfl⟩

/-- One of them in one read. -/
def sampleRead : Read := ⟨sampleComm.frame, fun _ => 0, by decide, by decide⟩

/-- Two of them in one read. -/
def coalescedRead : Read := ⟨sampleComm.frame ++ sampleComm.frame, fun _ => 0, by decide, by decide⟩

theorem processInput_reassembles_iff_sample :
    (run [sampleRead, sampleRead]).texts = [[0x5b, 0x5d], [0x5b, 0x5d]] ∧
      ConsumesWhole [sampleComm.frame, sampleComm.frame] (run [sampleRead, sampleRead]).consumed :=
  (processInput_reassembles_iff [sampleComm, sampleComm] [sampleRead, sampleRead] rfl).mpr
    ⟨rfl, fun f hf => by
      rcases List.mem_pair.mp hf with rfl | rfl <;> decide⟩

/-- Two frames that arrive together: the second one is consumed and lost. -/
theorem processInput_loses_coalesced :
    ([coalescedRead].map Read.bytes).flatten = [sampleComm.frame, sampleComm.frame].flatten ∧
      (run [coalescedRead]).texts ≠ [sampleComm, sampleComm].map CommFrame.json := by
  refine ⟨rfl, ?_⟩
  intro h
  have := congrArg List.length h
  rw [run_eq] at this
  exact absurd this (by decide)

/-! ## Sending -/

/-- `WorkerConstants::kMaxPacketSize` -/
def workerMaxPacketSize : Nat := 64 * 1024

/-- `EMSGSIZE` -/
def kMessageTooLong : Int := 90

/-- The output side of the socket. -/
structure Output where
  outbuf : List UInt8
  error : Int

/-- `FlushOutBuffer()` of the base class, where the kernel takes `res` bytes or reports `res`: the
    bytes put on the wire, and the new output side. -/
def flushOutBuffer (res : Int) (o : Output) : List UInt8 × Output :=
  if res > 0 then (o.outbuf.take res.toNat, { o with outbuf := o.outbuf.drop res.toNat }) else ([], o)

/-- What a call has done: its return value, the bytes put on the wire, the new output side. -/
structure Sent where
  result : Int
  transmitted : List UInt8
  output : Output

/-- `Send(pv, cb)` -/
def send (pv : List UInt8) (res : Int) (o : Output) : Sent :=
  if pv.length > workerMaxPacketSize then ⟨-1, [], { o with error := kMessageTooLong }⟩
  -- if we are blocking on send, then silently drop this packet
  else if o.outbuf ≠ [] then ⟨pv.length, [], o⟩
  else
    let flushed := flushOutBuffer res { o with outbuf := o.outbuf ++ pv }
    -- drop packet if we made no progress
    if res ≤ 0 then ⟨res, flushed.1, { flushed.2 with outbuf := [] }⟩
    else ⟨pv.length, flushed.1, flushed.2⟩

/-- `Worker::sendMessage(pv, cb)`; `connected` is the state of its socket, if it has one. -/
def sendMessage (connected : Bool) (pv : List UInt8) (res : Int) (o : Output) : Sent :=
  if connected then send pv res o else ⟨0, [], o⟩

/-- The operations on the output of a socket. -/
inductive SendOp
  | send (pv : List UInt8) (res : Int)
  | sendMessage (connected : Bool) (pv : List UInt8) (res : Int)
  /-- the socket is ready for writing -/
  | writeReady (res : Int)

/-- The packet that is passed to `Send`, if one is. -/
def SendOp.packet : SendOp → Option (List UInt8)
  | .send pv _ => some pv
  | .sendMessage connected pv _ => if connected then some pv else none
  | .writeReady _ => none

/-- What an operation does to the output. -/
def SendOp.exec (o : Output) : SendOp → Sent
  | .send pv res => WorkerTCPSocket.send pv res o
  | .sendMessage connected pv res => WorkerTCPSocket.sendMessage connected pv res o
  | .writeReady res => ⟨0, (flushOutBuffer res o).1, (flushOutBuffer res o).2⟩

/-- The output side, all that has been put on the wire, all packets passed to `Send`, and those of
    them of which anything was put on the wire or buffered. -/
structure Stream where
  output : Output
  wire : List UInt8
  passed : List (List UInt8)
  accepted : List (List UInt8)

namespace Stream

/-- Nothing was sent. -/
def initial : Stream := ⟨⟨[], 0⟩, [], [], []⟩

/-- The stream after the call `op` has done `r`. -/
def after (s : Stream) (op : SendOp) (r : Sent) : Stream where
  output := r.output
  wire := s.wire ++ r.transmitted
  passed := s.passed ++ op.packet.toList
  accepted :=
    if s.wire ++ r.transmitted ++ r.output.outbuf = s.wire ++ s.output.outbuf then s.accepted
    else s.accepted ++ op.packet.toList

/-- One step: what the operation returns is appended to the record. -/
def Step (s : Stream) (op : SendOp) (t : Stream) : Prop := t = s.after op (op.exec s.output)

/-- The wire and the buffer are the accepted packets, whole and in order. -/
structure Whole (s : Stream) : Prop where
  sublist : s.accepted.Sublist s.passed
  stream : s.wire ++ s.output.outbuf = s.accepted.flatten

/-- A call keeps what is on its way and appends the whole packet or nothing, and refuses a packet that
    is too long. -/
structure Sends (s : Stream) (op : SendOp) (t : Stream) : Prop where
  appended : ∃ kept, (kept = [] ∨ kept = op.packet.toList) ∧ t.accepted = s.accepted ++ kept ∧
    t.wire ++ t.output.outbuf = s.wire ++ s.output.outbuf ++ kept.flatten
  refused : ∀ pv, op.packet = some pv → pv.length > workerMaxPacketSize →
    t.output.outbuf = s.output.outbuf ∧ t.wire = s.wire ∧ t.accepted = s.accepted

end Stream

/-- Flushing moves bytes from the buffer to the wire. -/
theorem flushOutBuffer_append (res : Int) (o : Output) :
    (flushOutBuffer res o).1 ++ (flushOutBuffer res o).2.outbuf = o.outbuf := by
  rw [flushOutBuffer]
  split
  · exact List.take_append_drop _ _
  · exact List.nil_append _

/-- What `Send` leaves on the wire and in the buffer: what was there, and the whole packet or
    nothing. -/
theorem send_appends (pv : List UInt8) (res : Int) (o : Output) :
    (send pv res o).transmitted ++ (send pv res o).output.outbuf = o.outbuf ∨
      (send pv res o).transmitted ++ (send pv res o).output.outbuf = o.outbuf ++ pv := by
  rw [send]
  split
  · exact Or.inl rfl
  · split
    · exact Or.inl rfl
    · next hempty =>
      have hnil : o.outbuf = [] := not_not.mp hempty
      dsimp only
      split
      · next hno =>
        -- nothing of the packet was sent, and nothing else was in the buffer
        rw [flushOutBuffer, if_neg (by omega), hnil]
        exact Or.inl rfl
      · exact Or.inr (flushOutBuffer_append res _)

/-- A packet that is too long is refused. -/
theorem send_refused {pv : List UInt8} (hlong : pv.length > workerMaxPacketSize) (res : Int)
    (o : Output) : send pv res o = ⟨-1, [], { o with error := kMessageTooLong }⟩ := if_pos hlong

/-- An operation appends a whole packet, or nothing. -/
theorem exec_appends (op : SendOp) (o : Output) :
    (op.exec o).transmitted ++ (op.exec o).output.outbuf = o.outbuf ∨
      (op.exec o).transmitted ++ (op.exec o).output.outbuf = o.outbuf ++ op.packet.toList.flatten := by
  cases op with
  | send pv res =>
    rw [SendOp.packet, Option.toList_some, List.flatten_singleton]
    exact send_appends pv res o
  | sendMessage connected pv res =>
    cases connected with
    | true =>
      rw [SendOp.packet, if_pos rfl, Option.toList_some, List.flatten_singleton]
      exact send_appends pv res o
    | false => exact Or.inl rfl
  | writeReady res => exact Or.inl (flushOutBuffer_append res o)

/-- A packet that is too long is refused by every operation. -/
theorem exec_refused {op : SendOp} {pv : List UInt8} (hpacket : op.packet = some pv)
    (hlong : pv.length > workerMaxPacketSize) (o : Output) :
    op.exec o = ⟨-1, [], { o with error := kMessageTooLong }⟩ := by
  cases op with
  | send pv' res =>
    cases hpacket
    exact send_refused hlong res o
  | sendMessage connected pv' res =>
    cases connected with
    | true =>
      cases hpacket
      exact send_refused hlong res o
    | false => cases hpacket
  | writeReady res => cases hpacket

namespace Stream

/-- A step sends a whole packet, or nothing. -/
theorem step_sends {s t : Stream} {op : SendOp} (hst : Step s op t) : Sends s op t := by
  rw [Step] at hst
  -- the step put its packet out, or the packet was dropped
  rw [hst]
  constructor
  · by_cases hsame : s.wire ++ (op.exec s.output).transmitted ++ (op.exec s.output).output.outbuf =
        s.wire ++ s.output.outbuf
    · refine ⟨[], Or.inl rfl, ?_, ?_⟩
      · rw [List.append_nil]
        exact if_pos hsame
      · rw [List.flatten_nil, List.append_nil]
        exact hsame
    · refine ⟨op.packet.toList, Or.inr rfl, if_neg hsame, ?_⟩
      rcases exec_appends op s.output with happ | happ
      · rw [List.append_assoc, happ] at hsame
        exact absurd rfl hsame
      · show s.wire ++ (op.exec s.output).transmitted ++ (op.exec s.output).output.outbuf = _
        rw [List.append_assoc, happ, List.append_assoc]
  -- a packet that is too long is refused, and nothing changes
  · intro pv hpacket hlong
    have hexec := exec_refused hpacket hlong s.output
    refine ⟨?_, ?_, ?_⟩
    · show (op.exec s.output).output.outbuf = _
      rw [hexec]
    · show s.wire ++ (op.exec s.output).transmitted = _
      rw [hexec, List.append_nil]
    · show (if _ then _ else _) = _
      rw [hexec, List.append_nil, if_pos rfl]

/-- A step keeps the packets whole. -/
theorem step_whole {s t : Stream} {op : SendOp} (h : Whole s) (hst : Step s op t) : Whole t := by
  obtain ⟨kept, hkept, haccepted, hstream⟩ := (step_sends hst).appended
  have hpassed : t.passed = s.passed ++ op.packet.toList := by
    rw [Step] at hst
    rw [hst]
    rfl
  constructor
  · rw [haccepted, hpassed]
    apply h.sublist.append
    rcases hkept with rfl | rfl
    · exact List.nil_sublist _
    · exact List.Sublist.refl _
  · rw [haccepted, hstream, h.stream, List.flatten_append]

/-- **The outgoing stream**: at all times what is on the wire is a prefix of the accepted packets, in
    order and whole, and every call accepts the whole of its packet or nothing of it. -/
theorem send_stream {ts : List (Stream × SendOp × Stream)} {s : Stream}
    (hrun : Run Step initial ts s) :
    ∀ x ∈ ts, x.2.2.accepted.Sublist x.2.2.passed ∧ x.2.2.wire <+: x.2.2.accepted.flatten ∧
      Sends x.1 x.2.1 x.2.2 := by
  have hinitial : Whole initial := ⟨List.Sublist.refl _, rfl⟩
  have hall := (Run.invariant (fun s op t h hst => step_whole h hst) hrun hinitial).2
  intro x hx
  have hwhole := (hall x hx).2
  exact ⟨hwhole.sublist, ⟨_, hwhole.stream⟩, step_sends (Run.step_of_mem hrun x hx)⟩

/-- A packet is sent in part, the next one dropped, and the rest sent when the socket is ready. -/
theorem send_stream_partial :
    ∃ ts s, Run Step initial ts s ∧
      ts.map (fun x => x.2.1) = [.send [1, 2, 3] 2, .send [4] 1, .writeReady 1] ∧
      s.wire = [1, 2, 3] ∧ s.accepted = [[1, 2, 3]] ∧ s.passed = [[1, 2, 3], [4]] ∧
      s.accepted.Sublist s.passed := by
  let s₁ := initial.after (.send [1, 2, 3] 2) ⟨3, [1, 2], ⟨[3], 0⟩⟩
  let s₂ := s₁.after (.send [4] 1) ⟨1, [], ⟨[3], 0⟩⟩
  let s₃ := s₂.after (.writeReady 1) ⟨0, [3], ⟨[], 0⟩⟩
  have h₁ : Step initial (.send [1, 2, 3] 2) s₁ := rfl
  have h₂ : Step s₁ (.send [4] 1) s₂ := rfl
  have h₃ : Step s₂ (.writeReady 1) s₃ := rfl
  have hrun := Run.cons h₁ (Run.cons h₂ (Run.single h₃))
  have hlast := send_stream hrun _ (List.mem_cons_of_mem _ (List.mem_cons_of_mem _ List.mem_cons_self))
  exact ⟨_, s₃, hrun, rfl, rfl, rfl, rfl, hlast.1⟩

end Stream

end WorkerTCPSocket

end Turnserver
