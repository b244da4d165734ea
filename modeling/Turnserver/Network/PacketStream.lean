/-
  A STREAM OF PACKETS (`base/packet.h`, `network/tcp_connection.cpp`) — what one end sends, the other
  end reads.

  `SendPacket` packs a packet into a packer of its own and writes its frame behind those of the packets
  before it.  The other end gets the bytes in chunks of any sizes; its callback unmarshalls each packet
  from the unpacker that it is called with.

  1. `AnyPacket.written_packed` — what is written is the frame of a packed packet.
  2. `Unmarshalls.of_delivers` — where it is delivered, reading the packet's type gives its value, and
     uses the unpacker up.

  `stream_unmarshalled` is the conclusion: of what has arrived, exactly the whole packets are read, in
  the order in which they were sent.
-/
import Turnserver.Base.PackedFrame
import Turnserver.Network.TcpConnection

namespace Turnserver

/-! ## The code -/

/-- A packet: its class, as the uri and the members that the class has, and what is in them. -/
structure AnyPacket where
  uri : UInt16
  ms : Members
  value : PacketVal ms.Val

namespace AnyPacket

/-- The type of a packet. -/
def ty (p : AnyPacket) : Ty := .packet p.uri p.ms

/-- `Packer pk; p.Pack(&pk); bufferevent_write(bev_, pk.Buffer(), pk.Length());` -/
def written (p : AnyPacket) : Checked (List UInt8) := do
  let pk ← p.ty.insert p.value (Packer.new Packer.kDefaultSize)
  let pk ← pk.pack
  pk.buffer

/-- A value that a program can have: its maps are sorted, and no string or vector is too long for the
    32 bits of its size. -/
def Sound (p : AnyPacket) : Prop := p.ty.Wf p.value ∧ p.ty.Narrow p.value

/-- The packet that was packed. -/
def ofPacked (q : PackedPacket) : AnyPacket := ⟨q.uri, q.ms, q.value⟩

/-- **What is written** is the frame of a packed packet. -/
theorem written_packed {p : AnyPacket} {frame : List UInt8} (h : p.written = .ok frame) :
    ∃ q : PackedPacket, ofPacked q = p ∧ q.frame = frame := by
  rcases Checked.bind_ok.mp h with ⟨filled, hfilled, h⟩
  rcases Checked.bind_ok.mp h with ⟨packer, hpacker, hbuffer⟩
  exact ⟨⟨p.uri, p.ms, p.value, Packer.kDefaultSize, filled, packer, frame, hfilled, hpacker, hbuffer⟩,
    rfl, rfl⟩

/-- One frame after the other. -/
def Writes (ps : List AnyPacket) (frames : List (List UInt8)) : Prop :=
  List.Forall₂ (fun p frame => p.written = .ok frame) ps frames

/-- Packets that were written are packed packets. -/
theorem Writes.packed {ps : List AnyPacket} {frames : List (List UInt8)} (h : Writes ps frames) :
    ∃ qs : List PackedPacket, qs.map ofPacked = ps ∧ qs.map PackedPacket.frame = frames := by
  induction h with
  | nil => exact ⟨[], rfl, rfl⟩
  | cons hwritten _ ih =>
    rcases written_packed hwritten with ⟨q, rfl, rfl⟩
    rcases ih with ⟨qs, rfl, rfl⟩
    exact ⟨q :: qs, rfl, rfl⟩

end AnyPacket

namespace TcpConnection

/-! ## Reading -/

/-- The event is the call with a packet of which reading its class gives what was in it, and uses the
    unpacker up. -/
def Unmarshalls (H : Hashing) (e : Event) (p : AnyPacket) : Prop :=
  ∃ pkr, e = .packetReceived pkr p.value.serverType p.value.uri ∧
    p.ty.Same p.value ((p.ty.decode H).run pkr).1 ∧ ((p.ty.decode H).run pkr).2.position = pkr.length

/-- A delivered packet is unmarshalled to what was packed. -/
theorem Unmarshalls.of_delivers (H : Hashing) {e : Event} {q : PackedPacket}
    (hsound : (AnyPacket.ofPacked q).Sound) (h : Delivers e q) :
    Unmarshalls H e (AnyPacket.ofPacked q) := by
  rcases h with ⟨pkr, rfl, -, -, hat, hend⟩
  have hshort : q.body.length < 2 ^ 23 := by
    have hlt : 4 + q.body.length < kMaxPacketSize := q.sent.body_lt
    rw [kMaxPacketSize] at hlt
    omega
  rcases Ty.decode_at H _ hsound.1 hsound.2 hshort hat with ⟨hsame, hposition, -⟩
  exact ⟨pkr, rfl, hsame, hposition.trans hend⟩

/-- **A stream is read packet by packet.**  For packets of any classes, cut into any chunks: when `n`
    bytes of what `SendPacket` wrote have arrived, the packets that have arrived completely were read, in
    order, each to what it was sent with, and nothing else happened. -/
theorem stream_unmarshalled {cb : Callback} (hcb : NeverCloses cb) (heap : List Event → Nat → UInt8)
    (H : Hashing) {ps : List AnyPacket} (hsound : ∀ p ∈ ps, p.Sound) {frames : List (List UInt8)}
    (hsent : AnyPacket.Writes ps frames) {chunks : List (List UInt8)} {n : Nat}
    (hcut : chunks.flatten = frames.flatten.take n) :
    ∃ k, k ≤ ps.length ∧ (frames.take k).flatten.length ≤ n ∧
      (k < ps.length → n < (frames.take (k + 1)).flatten.length) ∧
      List.Forall₂ (Unmarshalls H) (run cb heap chunks).2 (ps.take k) := by
  rcases hsent.packed with ⟨qs, rfl, rfl⟩
  rcases run_packets hcb heap qs chunks n hcut with ⟨k, hk, hall, hle, hlt⟩
  rw [List.length_map]
  refine ⟨k, hk, by rwa [← List.map_take], fun h => by rw [← List.map_take]; exact hlt h, ?_⟩
  rw [← List.map_take, List.forall₂_map_right_iff]
  have hboth : ∀ q ∈ qs.take k, (AnyPacket.ofPacked q).Sound := by
    intro q hq
    exact hsound _ (List.mem_map_of_mem (List.mem_of_mem_take hq))
  have hflip := (List.forall₂_and_left _ _).mpr ⟨hboth, hall.flip⟩
  exact hflip.flip.imp fun _ _ h => Unmarshalls.of_delivers H h.1 h.2

/-- The request of `sampleRequest`, and a map. -/
def samplePackets : List AnyPacket :=
  [⟨Elbs.kRejoinRequestUri, .of [.uint32, .uint16], ⟨305, 6, (0x0100007f : UInt32), (8000 : UInt16), ()⟩⟩,
    ⟨Lbs.kLbsPingUri, .of [.uint32, Lbs.DetailInfoMap], ⟨17, 1003, (7 : UInt32),
      [((1 : UInt32), (9 : UInt32)), ((2 : UInt32), (8 : UInt32))], ()⟩⟩]

def sampleFrames : List (List UInt8) :=
  [[12, 0, 0x31, 1, 6, 0, 0x7f, 0, 0, 1, 0x40, 0x1f],
    [28, 0, 17, 0, 0xeb, 3, 7, 0, 0, 0, 2, 0, 1, 0, 0, 0, 9, 0, 0, 0, 2, 0, 0, 0, 8, 0, 0, 0]]

/-- All of the first packet and some of the second, in two chunks. -/
theorem stream_unmarshalled_sample :
    AnyPacket.Writes samplePackets sampleFrames ∧
      List.Forall₂ (Unmarshalls Hashing.first)
        (run ⟨fun _ _ => 0⟩ (fun _ _ => 0) [sampleFrames.flatten.take 5,
          (sampleFrames.flatten.drop 5).take 15]).2
        (samplePackets.take 1) := by
  have hsent : AnyPacket.Writes samplePackets sampleFrames := .cons rfl (.cons rfl .nil)
  have hsound : ∀ p ∈ samplePackets, p.Sound := by
    intro p hp
    rcases List.mem_pair.mp hp with rfl | rfl
    · exact ⟨⟨trivial, trivial, trivial⟩, trivial, trivial, trivial⟩
    · refine ⟨⟨trivial, ⟨?_, fun e _ => ⟨trivial, trivial⟩⟩, trivial⟩, trivial,
        fun e _ => ⟨trivial, trivial⟩, trivial⟩
      exact .cons (by simp; decide) (List.pairwise_singleton ..)
  -- twenty bytes hold the first frame and a part of the second, so one packet is received
  refine ⟨hsent, ?_⟩
  have hcb : NeverCloses ⟨fun _ _ => 0⟩ := fun _ _ => rfl
  rcases stream_unmarshalled hcb (fun _ _ => 0) Hashing.first hsound hsent
    (show List.flatten [sampleFrames.flatten.take 5, (sampleFrames.flatten.drop 5).take 15] =
      sampleFrames.flatten.take 20 from rfl) with ⟨k, hk, hle, hlt, hall⟩
  -- no other number of packets meets the bounds
  have hone : k = 1 := by
    have hk : k ≤ 2 := hk
    rcases (show k = 0 ∨ k = 1 ∨ k = 2 by omega) with rfl | rfl | rfl
    · exact absurd (hlt (by decide)) (by decide)
    · rfl
    · exact absurd hle (by decide)
  rwa [hone] at hall

end TcpConnection

end Turnserver
