/-
  THE READS OF THE DISPATCH (`network/tcp_connection.cpp`, `base/unpacker.h`).

  `OnDataReady` decodes the length of a packet itself and asks for six bytes at least: two of length,
  two of `server_type`, two of `uri`.  The `Unpacker` that it puts on the packet decodes the length
  once more, and both take the 3-byte form whenever the highest bit of the first word is set, however
  small the length is.  `high` of the unpacker says how far its reads went.

  1. `received_high` — the dispatch reads the header in the width it has, and four bytes behind it.
  2. `run_dispatched` — whatever the callback closes, what it gets are packets that the framing finds
     in the stream.
  3. `dispatch_inside_iff` — so all reads stay inside iff no packet of the stream is six bytes
     long under a header of three (`Cramped`).
-/
import Turnserver.Network.TcpConnection

namespace Turnserver

open Bytes Framing

/-- `PopUint16` as a whole. -/
theorem Unpacker.popUint16_run (u : Unpacker) :
    ∃ k v, popUint16.run u = (v, { u with
      position := u32 (u.position + 2), high := max u.high (u.position + 2), overflows := k }) :=
  ⟨_, _, rfl⟩

/-- The reads of the dispatch lie inside the packet. -/
def Event.Inside : Event → Prop
  | .packetReceived pkr _ _ => pkr.high ≤ pkr.length
  | .error _ => True

namespace TcpConnection

/-- Six bytes, three of them header. -/
def Cramped (packet : List UInt8) : Prop :=
  packet.length = kMinPacketLen ∧ 0x8000 ≤ leNat (packet.take 2)

/-! ## One packet -/

/-- The width of the header at the front of a packet. -/
def headerWidth (packet : List UInt8) : Nat := if leNat (packet.take 2) < 0x8000 then 2 else 3

/-- The header takes two or three bytes. -/
theorem headerWidth_le (packet : List UInt8) : 2 ≤ headerWidth packet ∧ headerWidth packet ≤ 3 := by
  unfold headerWidth
  split <;> omega

/-- Popping the header, in front of a packet. -/
theorem pop_header {u : Unpacker} {packet : List UInt8} (hat : u.At packet) (hpos : u.position = 0)
    (hlen : 2 ≤ packet.length) :
    (Unpacker.popVariableUint32.run u).2.position = headerWidth packet ∧
      (Unpacker.popVariableUint32.run u).2.high = max u.high (headerWidth packet) := by
  have hword := hat.peek (show 0 + 2 ≤ packet.length by omega)
  rw [List.drop_zero] at hword
  obtain ⟨k, hk⟩ := Unpacker.popVariableUint32_run u
  rw [hword] at hk
  rw [hk]
  unfold headerWidth
  by_cases hlo : leNat (packet.take 2) < 0x8000
  · simp [hlo, hpos, u32]
  · simp [hlo, hpos, u32]

/-- The whole packet lies ahead of an unpacker that stands at its beginning. -/
theorem at_packet {u : Unpacker} {packet : List UInt8} {heap : Nat → UInt8}
    (hmem : u.mem = blockOf packet heap) (hpos : u.position = 0) (hlen : packet.length < 2 ^ 32) :
    u.At packet where
  position_lt := by omega
  bytes i hi := by
    rw [hmem, hpos, Nat.zero_add]
    exact blockOf_lt hi

/-- **The dispatch** reads the header and the four bytes behind it. -/
theorem received_high {packet : List UInt8} (hmin : kMinPacketLen ≤ packet.length)
    (hlen : packet.length < 2 ^ 32) (heap : Nat → UInt8) :
    ∃ pkr server_type uri, received packet heap = .packetReceived pkr server_type uri ∧
      pkr.length = packet.length ∧ pkr.high = headerWidth packet + 4 := by
  rw [kMinPacketLen] at hmin
  have hwidth := headerWidth_le packet
  obtain ⟨u₀, u₁, u₂, u₃, h₀, h₁, h₂, h₃, hrec, hmem, hlength⟩ := received_eq packet heap
  rw [UInt32.toNat_ofNat', Nat.mod_eq_of_lt hlen] at hlength
  -- the constructor pops the header, at the beginning of the packet
  obtain ⟨hpos, hhigh⟩ : u₀.position = headerWidth packet ∧ u₀.high = max 0 (headerWidth packet) := by
    rw [h₀]
    exact pop_header (u := Unpacker.raw (blockOf packet heap) (.ofNat packet.length) none)
      (at_packet rfl rfl hlen) rfl (by omega)
  -- two words
  obtain ⟨k₁, v₁, hrun₁⟩ := Unpacker.popUint16_run u₀
  obtain ⟨k₂, v₂, hrun₂⟩ := Unpacker.popUint16_run u₁
  have hhigh₁ : u₁.high = headerWidth packet + 2 := by
    rw [h₁, hrun₁]
    show max u₀.high (u₀.position + 2) = _
    omega
  have hpos₁ : u₁.position = headerWidth packet + 2 := by
    rw [h₁, hrun₁]
    show u32 (u₀.position + 2) = _
    rw [hpos, u32_of_lt (by omega)]
  have hhigh₂ : u₂.high = headerWidth packet + 4 := by
    rw [h₂, hrun₂]
    show max u₁.high (u₁.position + 2) = _
    omega
  -- and the header once more
  have hmem₂ : u₂.mem = blockOf packet heap := by
    rw [← hmem, h₃]
    exact (Unpacker.rewind_frame u₂).1.symm
  have hhigh₃ : u₃.high = max u₂.high (headerWidth packet) := by
    rw [h₃, Unpacker.rewind_run]
    exact (pop_header (u := { u₂ with position := 0 }) (at_packet hmem₂ rfl hlen) rfl (by omega)).2
  refine ⟨u₃, _, _, hrec, hlength, ?_⟩
  omega

/-- The reads stay inside a packet that the dispatch is given, unless it is cramped. -/
theorem received_inside_iff {packet : List UInt8} (hmin : kMinPacketLen ≤ packet.length)
    (hlen : packet.length < 2 ^ 32) (heap : Nat → UInt8) :
    (received packet heap).Inside ↔ ¬ Cramped packet := by
  obtain ⟨pkr, server_type, uri, hrec, hlength, hhigh⟩ := received_high hmin hlen heap
  rw [hrec]
  show pkr.high ≤ pkr.length ↔ _
  rw [hlength, hhigh]
  unfold Cramped headerWidth
  rw [kMinPacketLen] at *
  split <;> omega

/-! ## A run -/

/-- The packets of a stream. -/
def packets (stream : List UInt8) : List (List UInt8) := (framer.scan stream).1

/-- A packet has six bytes at least, and less than `2 ^ 23`. -/
theorem packets_length {stream packet : List UInt8} (h : packet ∈ packets stream) :
    kMinPacketLen ≤ packet.length ∧ packet.length < 2 ^ 32 := by
  obtain ⟨b, hb⟩ := framer.verdict_of_mem_scan h
  obtain ⟨hlen, hmin, -⟩ := front_eq_frame hb
  have := packetLength_lt b
  omega

/-- The event reports one of the packets, or an error. -/
def Dispatched (ps : List (List UInt8)) (e : Event) : Prop :=
  (∃ packet ∈ ps, Receives e packet) ∨ ∃ events, e = .error events

/-- What was dispatched is among more packets too. -/
theorem Dispatched.mono {ps qs : List (List UInt8)} {e : Event} (h : Dispatched ps e) (hsub : ps ⊆ qs) :
    Dispatched qs e := by
  rcases h with ⟨packet, hmem, hrec⟩ | herr
  · exact Or.inl ⟨packet, hsub hmem, hrec⟩
  · exact Or.inr herr

/-- The buffer, while there is one, goes on as the stream does, and the callback got packets of it. -/
structure Scanning (stream : List UInt8) (s : TcpConnection × List Event) : Prop where
  ahead : ∀ input, s.1.input = some input →
    packets input ⊆ packets stream ∧ (framer.scan input).2 = (framer.scan stream).2
  dispatched : ∀ e ∈ s.2, Dispatched (packets stream) e

namespace Scanning

variable {stream : List UInt8} {s : TcpConnection × List Event}

/-- Only the buffer and the events matter. -/
theorem of_input {c : TcpConnection} (h : Scanning stream s) (hc : c.input = s.1.input) :
    Scanning stream (c, s.2) :=
  ⟨fun input hin => h.ahead input (hc.symm.trans hin), h.dispatched⟩

/-- A callback closes the connection, or not. -/
theorem notify (h : Scanning stream s) {e : Event} (he : Dispatched (packets stream) e) :
    Scanning stream (notify e s) where
  ahead input hin := by
    rcases notify_input e s with hsame | hnone
    · exact h.ahead input (hsame.symm.trans hin)
    · rw [hnone] at hin
      cases hin
  dispatched e' he' := by
    unfold TcpConnection.notify at he'
    split at he'
    · exact h.dispatched e' he'
    · rcases List.mem_append.mp he' with hold | hnew
      · exact h.dispatched e' hold
      · rw [List.mem_singleton.mp hnew]
        exact he

/-- One packet is cut off the buffer and dispatched. -/
theorem cut (h : Scanning stream s) {input : List UInt8} (hin : s.1.input = some input) {n : Nat}
    (hfront : front input = .frame n) (heap : Nat → UInt8) :
    Scanning stream (TcpConnection.notify (received (input.take n) heap)
      ({ s.1 with input := some (input.drop n) }, s.2)) := by
  obtain ⟨hsub, hrest⟩ := h.ahead input hin
  have hscan := framer.scan_of_frame hfront
  have hpackets : packets input = input.take n :: packets (input.drop n) := congrArg Prod.fst hscan
  rw [hpackets, List.cons_subset] at hsub
  have hnext : Scanning stream ({ s.1 with input := some (input.drop n) }, s.2) :=
    { ahead := fun next hnext => by
        cases hnext
        exact ⟨hsub.2, (congrArg Prod.snd hscan).symm.trans hrest⟩
      dispatched := h.dispatched }
  exact hnext.notify (Or.inl ⟨_, hsub.1, heap, rfl⟩)

/-- The loop. -/
theorem processPackets (heap : List Event → Nat → UInt8) (h : Scanning stream s) :
    Scanning stream (processPackets heap s) := by
  fun_induction TcpConnection.processPackets heap s with
  | case1 => exact h
  | case2 => exact h
  | case3 => exact h.notify (Or.inr ⟨_, rfl⟩)
  | case4 s input hin n hfront ih => exact ih (h.cut hin hfront _)

/-- A chunk extends the buffer and the stream alike. -/
theorem append (h : Scanning stream s) {input : List UInt8} (hin : s.1.input = some input)
    (chunk : List UInt8) :
    Scanning (stream ++ chunk) ({ s.1 with input := some (input ++ chunk) }, s.2) := by
  obtain ⟨hsub, hrest⟩ := h.ahead input hin
  have hinput := framer.scan_append input chunk
  have hstream := framer.scan_append stream chunk
  rw [hrest] at hinput
  have hmore : packets (stream ++ chunk) =
      packets stream ++ packets ((framer.scan stream).2 ++ chunk) := congrArg Prod.fst hstream
  refine ⟨fun next hnext => ?_, fun e he => ?_⟩
  · cases hnext
    refine ⟨?_, (congrArg Prod.snd hinput).trans (congrArg Prod.snd hstream).symm⟩
    rw [hmore, show packets (input ++ chunk) = packets input ++ _ from congrArg Prod.fst hinput]
    exact List.append_subset.mpr ⟨fun p hp => List.mem_append_left _ (hsub hp),
      List.subset_append_right _ _⟩
  · rw [hmore]
    exact (h.dispatched e he).mono (List.subset_append_left _ _)

/-- A read keeps the scan: what is left over is what the packets before did not take. -/
theorem onDataReady (heap : List Event → Nat → UInt8) (h : Scanning stream s) :
    Scanning stream (onDataReady heap s) := by
  have hloop := (h.of_input (c := { s.1 with is_in_processing := true }) rfl).processPackets heap
  unfold TcpConnection.onDataReady
  dsimp only
  split
  · exact hloop.of_input rfl
  · exact hloop.of_input rfl

/-- A chunk arrives. -/
theorem arrive (heap : List Event → Nat → UInt8) (h : Scanning stream s) (chunk : List UInt8) :
    Scanning (stream ++ chunk) (arrive heap s chunk) := by
  unfold TcpConnection.arrive
  split
  · next hin =>
    refine ⟨fun input hin' => ?_, fun e he => ?_⟩
    · rw [hin] at hin'
      cases hin'
    · refine (h.dispatched e he).mono fun p hp => ?_
      show p ∈ (framer.scan (stream ++ chunk)).1
      rw [framer.scan_append]
      exact List.mem_append_left _ hp
  · next input hin => exact (h.append hin chunk).onDataReady heap

end Scanning

/-- **A whole run**, over any callback: it gets packets of the stream, and errors. -/
theorem run_dispatched (cb : Callback) (heap : List Event → Nat → UInt8) (chunks : List (List UInt8)) :
    ∀ e ∈ (run cb heap chunks).2, Dispatched (packets chunks.flatten) e := by
  suffices h : Scanning chunks.flatten (run cb heap chunks) from h.dispatched
  induction chunks using List.reverseRecOn with
  | nil =>
    refine ⟨fun input hin => ?_, fun e he => ?_⟩
    · cases hin
      exact ⟨List.Subset.refl _, rfl⟩
    · cases he
  | append_singleton chunks chunk ih =>
    have hflat : (chunks ++ [chunk]).flatten = chunks.flatten ++ chunk := by simp
    rw [hflat, run, List.foldl_append, ← run]
    exact ih.arrive heap chunk

/-- A callback that never closes gets every packet. -/
theorem run_received {cb : Callback} (hcb : NeverCloses cb) (heap : List Event → Nat → UInt8)
    (chunks : List (List UInt8)) {packet : List UInt8} (h : packet ∈ packets chunks.flatten) :
    ∃ heap', received packet heap' ∈ (run cb heap chunks).2 := by
  have hmem : packet ∈ (deliveries (run cb heap chunks).2).map Event.frame := by
    rw [run_frames hcb]
    exact h
  obtain ⟨e, he, hframe⟩ := List.mem_map.mp hmem
  obtain ⟨hlog, hdelivery⟩ := List.mem_filter.mp he
  rcases run_dispatched cb heap chunks e hlog with ⟨packet', hpacket', heap', rfl⟩ | ⟨events, rfl⟩
  · rw [received_frame (packets_length hpacket').2] at hframe
    exact ⟨heap', hframe ▸ hlog⟩
  · cases hdelivery

/-- **Where the dispatch stays inside.**  Over a stream, whatever its chunks, the callback and the heap,
    no read of the dispatch leaves its packet iff no packet of the stream is six bytes long under a
    header of three. -/
theorem dispatch_inside_iff (stream : List UInt8) :
    (∀ (cb : Callback) (heap : List Event → Nat → UInt8) (chunks : List (List UInt8)),
      chunks.flatten = stream → ∀ e ∈ (run cb heap chunks).2, e.Inside) ↔
    ∀ packet ∈ packets stream, ¬ Cramped packet := by
  constructor
  · intro hinside packet hpacket
    have hflat : [stream].flatten = stream := by simp
    obtain ⟨hmin, hlen⟩ := packets_length hpacket
    rw [← hflat] at hpacket
    have hcb : NeverCloses ⟨fun _ _ => 0⟩ := fun _ _ => rfl
    obtain ⟨heap, hmem⟩ := run_received hcb (fun _ _ => 0) [stream] hpacket
    exact (received_inside_iff hmin hlen heap).mp (hinside _ _ _ hflat _ hmem)
  · rintro hroomy cb heap chunks rfl e he
    rcases run_dispatched cb heap chunks e he with ⟨packet, hpacket, heap', rfl⟩ | ⟨events, rfl⟩
    · obtain ⟨hmin, hlen⟩ := packets_length hpacket
      exact (received_inside_iff hmin hlen heap').mpr (hroomy packet hpacket)
    · trivial

/-- Six bytes that announce themselves in the 3-byte form: the dispatch reads seven. -/
theorem dispatch_leaves_packet :
    ∃ pkr server_type uri, .packetReceived pkr server_type uri ∈
      (run ⟨fun _ _ => 0⟩ (fun _ _ => 0) [[6, 0x80, 0, 1, 0, 2]]).2 ∧
        pkr.length = 6 ∧ pkr.high = 7 := by
  have hfront : framer.verdict [6, 0x80, 0, 1, 0, 2] = .frame 6 :=
    show front [6, 0x80, 0, 1, 0, 2] = .frame 6 by decide
  have hpacket : [6, 0x80, 0, 1, 0, 2] ∈ packets [[6, 0x80, 0, 1, 0, 2]].flatten := by
    show _ ∈ (framer.scan [6, 0x80, 0, 1, 0, 2]).1
    rw [framer.scan_of_frame hfront]
    exact List.mem_cons_self
  have hcb : NeverCloses ⟨fun _ _ => 0⟩ := fun _ _ => rfl
  obtain ⟨heap, hmem⟩ := run_received hcb (fun _ _ => 0) _ hpacket
  have hmin : kMinPacketLen ≤ [(6 : UInt8), 0x80, 0, 1, 0, 2].length := by decide
  obtain ⟨pkr, server_type, uri, hrec, hlength, hhigh⟩ := received_high hmin (by decide) heap
  rw [hrec] at hmem
  exact ⟨pkr, server_type, uri, hmem, hlength, hhigh⟩

end TcpConnection

end Turnserver
