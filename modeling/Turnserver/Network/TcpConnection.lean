/-
  THE TCP CONNECTION (`network/tcp_connection.cpp`) — reassembling packets from a byte stream.

  libevent appends what arrives to the input buffer of the `bufferevent` and calls `OnDataReady`,
  which looks at the front of the buffer: fewer than six bytes, or fewer than the announced
  packet length, and it waits for more; an announced length below six, and it reports an error and
  leaves the buffer alone; otherwise it cuts the packet off, puts an `Unpacker` on it and calls back.

  * `input = none` is a freed bufferevent.  Closing while `OnDataReady` runs delays the destruction
    to its end (`is_in_processing`).
  * The callback may call `CloseAndDestroy` any number of times; how often is a function of what it
    has seen (`Callback.closes`).
  * The copy of a packet that the `Unpacker` reads lies in a heap block; `heap` is what lies behind it.

  The decision at the front of the buffer is a `Framing.Framer`, so chunking does not matter
  (`run_spec`), and a stream of packed packets is delivered packet by packet, each
  with its last byte (`run_packets`).
-/
import Turnserver.Base.Format
import Turnserver.Lib.Framing
import Mathlib.Data.List.Induction

set_option linter.unusedVariables false

namespace Turnserver

open Bytes Framing

/-! ## The code -/

/-- What a `TcpConnectionCallback` gets to see. -/
inductive Event
  /-- `OnPacketReceived(conn, pkr, server_type, uri)` -/
  | packetReceived (pkr : Unpacker) (server_type uri : UInt16)
  /-- `OnError(conn, events)` -/
  | error (events : Nat)

/-- A callback: how often it calls `CloseAndDestroy` on an event, after those it saw before. -/
structure Callback where
  closes : List Event → Event → Nat

/-- The members of `TcpConnection`, and how often it was deleted. -/
structure TcpConnection where
  /-- the input buffer of `bev_`, while there is one -/
  input : Option (List UInt8)
  is_in_processing : Bool
  callback : Option Callback
  /-- how often the object was deleted -/
  destroyed : Nat

namespace TcpConnection

/-- `BEV_EVENT_READING` -/
def BEV_EVENT_READING : Nat := 0x01

/-- `BEV_EVENT_ERROR` -/
def BEV_EVENT_ERROR : Nat := 0x20

/-- `kMinPacketLen` -/
def kMinPacketLen : Nat := 6

/-- A new connection over a bufferevent, with its callback registered. -/
def create (cb : Callback) : TcpConnection := ⟨some [], false, some cb, 0⟩

/-- `delete this` -/
def destroy (c : TcpConnection) : TcpConnection := { c with destroyed := c.destroyed + 1 }

/-- `CloseAndDestroy`: while `OnDataReady` runs the destruction is delayed. -/
def closeAndDestroy (c : TcpConnection) : TcpConnection :=
  let c := { c with input := none }
  if c.is_in_processing then c else c.destroy

/-- `callback_->On...`, if there is a callback. -/
def notify (e : Event) (s : TcpConnection × List Event) : TcpConnection × List Event :=
  match s.1.callback with
  | none => s
  | some cb => (Nat.repeat closeAndDestroy (cb.closes s.2 e) s.1, s.2 ++ [e])

/-- The announced length: the 16-bit word at the front or, when its highest bit is set, the first
    three of the four bytes there. -/
def packetLength (input : List UInt8) : Nat :=
  let lower := leNat (input.take 2)
  if lower ≥ 0x8000 then
    let value := leNat (input.take 4) &&& 0xFFFFFF
    (lower &&& 0x7FFF) + ((value >>> 16) <<< 15)
  else lower

/-- The tests at the top of the loop. -/
def front (input : List UInt8) : Verdict :=
  if input.length < kMinPacketLen then .more
  else if packetLength input < kMinPacketLen then .bad
  else if input.length < packetLength input then .more
  else .frame (packetLength input)

/-- The unpacker over a packet, its two identifying words, and the rewind before the callback. -/
def received (buffer : List UInt8) (heap : Nat → UInt8) : Event :=
  let p := Unpacker.new (blockOf buffer heap) (.ofNat buffer.length) none
  let server_type := Unpacker.popUint16.run p
  let uri := Unpacker.popUint16.run server_type.2
  let rewound := Unpacker.rewind.run uri.2
  .packetReceived rewound.2 server_type.1 uri.1

/-- After `CloseAndDestroy` there is no input buffer. -/
theorem closeAndDestroy_input (c : TcpConnection) : c.closeAndDestroy.input = none := by
  rw [closeAndDestroy]
  split <;> rfl

/-- A callback leaves the input buffer alone, or closes the connection. -/
theorem notify_input (e : Event) (s : TcpConnection × List Event) :
    (notify e s).1.input = s.1.input ∨ (notify e s).1.input = none := by
  rw [notify]
  split
  · exact Or.inl rfl
  · next cb _ =>
    show (Nat.repeat closeAndDestroy (cb.closes s.2 e) s.1).input = _ ∨ _
    cases cb.closes s.2 e with
    | zero => exact Or.inl rfl
    | succ k => exact Or.inr (closeAndDestroy_input _)

/-- A frame at the front has a length that is allowed, and is all there. -/
theorem front_eq_frame {input : List UInt8} {n : Nat} (h : front input = .frame n) :
    packetLength input = n ∧ kMinPacketLen ≤ n ∧ n ≤ input.length := by
  rw [front] at h
  split at h
  · cases h
  split at h
  · cases h
  split at h
  · cases h
  · have hn := Verdict.frame.inj h
    omega

/-- The loop of `OnDataReady`: it ends when the connection is closed, when the front of the buffer is
    not a whole packet, or with an error. -/
def processPackets (heap : List Event → Nat → UInt8) (s : TcpConnection × List Event) :
    TcpConnection × List Event :=
  match hin : s.1.input with
  | none => s
  | some input =>
    match hfront : front input with
    | .more => s
    | .bad => notify (.error (BEV_EVENT_ERROR ||| BEV_EVENT_READING)) s
    | .frame n =>
      processPackets heap (notify (received (input.take n) (heap s.2))
        ({ s.1 with input := some (input.drop n) }, s.2))
termination_by (s.1.input.getD []).length
decreasing_by
  obtain ⟨-, hmin, hle⟩ := front_eq_frame hfront
  have hpos : 0 < kMinPacketLen := by decide
  rw [hin]
  rcases notify_input (received (input.take n) (heap s.2))
    ({ s.1 with input := some (input.drop n) }, s.2) with h | h
  · rw [h, Option.getD_some, Option.getD_some, List.length_drop]
    omega
  · rw [h, Option.getD_some, Option.getD_none, List.length_nil]
    omega

/-- `OnDataReady`. -/
def onDataReady (heap : List Event → Nat → UInt8) (s : TcpConnection × List Event) :
    TcpConnection × List Event :=
  let (c, log) := processPackets heap ({ s.1 with is_in_processing := true }, s.2)
  let c := { c with is_in_processing := false }
  if c.input.isNone then (c.destroy, log) else (c, log)

/-- A chunk arrives: libevent appends it and runs the read callback; a freed bufferevent gets neither. -/
def arrive (heap : List Event → Nat → UInt8) (s : TcpConnection × List Event) (chunk : List UInt8) :
    TcpConnection × List Event :=
  match s.1.input with
  | none => s
  | some input => onDataReady heap ({ s.1 with input := some (input ++ chunk) }, s.2)

/-- All the chunks of a stream, in order. -/
def run (cb : Callback) (heap : List Event → Nat → UInt8) (chunks : List (List UInt8)) :
    TcpConnection × List Event :=
  chunks.foldl (arrive heap) (create cb, [])

/-! ## The framing -/

/-- The header is in the first six bytes. -/
theorem packetLength_append {input : List UInt8} (h : kMinPacketLen ≤ input.length)
    (c : List UInt8) : packetLength (input ++ c) = packetLength input := by
  rw [kMinPacketLen] at h
  rw [packetLength, packetLength, List.take_append_of_le_length (by omega),
    List.take_append_of_le_length (by omega)]

/-- **The framing** of the connection. -/
def framer : Framer UInt8 where
  verdict := front
  frame_pos h := by
    have := (front_eq_frame h).2.1
    rw [kMinPacketLen] at this
    omega
  frame_le h := (front_eq_frame h).2.2
  frame_append {b n} c h := by
    obtain ⟨hlen, hmin, hle⟩ := front_eq_frame h
    have happ := packetLength_append (Nat.le_trans hmin hle) c
    have hlong : b.length ≤ (b ++ c).length := by rw [List.length_append]; omega
    rw [front, happ, hlen, if_neg (by omega), if_neg (by omega), if_neg (by omega)]
  bad_append {b} c h := by
    rw [front] at h
    split at h
    · cases h
    next hmin =>
    have happ := packetLength_append (Nat.le_of_not_lt hmin) c
    have hlong : b.length ≤ (b ++ c).length := by rw [List.length_append]; omega
    split at h
    · next hbad => rw [front, happ, if_neg (by omega), if_pos hbad]
    · split at h <;> cases h

/-- A packed frame announces its own length, in either width of the header. -/
theorem packetLength_frame {n : Nat} (hn : n < 2 ^ 23) {body : List UInt8} (hbody : 4 ≤ body.length) :
    packetLength (Packer.encVar n ++ body) = n := by
  rw [Packer.encVar]
  by_cases hlo : n < 0x8000
  · have htake : (leBytes 2 n ++ body).take 2 = leBytes 2 n := List.take_left' (leBytes_length 2 n)
    have hread : leNat (leBytes 2 n) = n := leNat_leBytes_of_lt (by omega)
    rw [if_pos hlo, packetLength, htake, hread, if_neg (by omega)]
  · rw [if_neg hlo]
    have hread : leNat (leBytes 2 (n % 0x8000 + 0x8000)) = n % 0x8000 + 0x8000 :=
      leNat_leBytes_of_lt (by omega)
    have hup : leNat (leBytes 1 (n / 0x8000 % 256)) = n / 0x8000 := by
      rw [leNat_leBytes_of_lt (by omega)]
      omega
    generalize hlow : leBytes 2 (n % 0x8000 + 0x8000) = low at hread
    generalize hupper : leBytes 1 (n / 0x8000 % 256) = upper at hup
    have hlowlen : low.length = 2 := by rw [← hlow, leBytes_length]
    have hupperlen : upper.length = 1 := by rw [← hupper, leBytes_length]
    have htake2 : (low ++ upper ++ body).take 2 = low := by
      rw [List.append_assoc]
      exact List.take_left' hlowlen
    have htake4 : (low ++ upper ++ body).take 4 = low ++ (upper ++ body.take 1) := by
      rw [List.take_append, List.take_of_length_le (by simp [hlowlen, hupperlen])]
      simp [hlowlen, hupperlen]
    -- of the four bytes, the mask keeps three and the shift the third
    have hvalue : (leNat (low ++ (upper ++ body.take 1)) &&& 0xFFFFFF) >>> 16 = n / 0x8000 := by
      rw [show (0xFFFFFF : Nat) = 2 ^ 24 - 1 from rfl, Nat.and_two_pow_sub_one_eq_mod,
        Nat.shiftRight_eq_div_pow, leNat_append, leNat_append, hread, hup, hlowlen, hupperlen]
      omega
    rw [packetLength, htake2, hread, if_pos (by omega), htake4]
    show (n % 0x8000 + 0x8000 &&& 0x7FFF) +
      ((leNat (low ++ (upper ++ body.take 1)) &&& 0xFFFFFF) >>> 16) <<< 15 = n
    rw [hvalue, and_mask15, Nat.shiftLeft_eq]
    omega

/-- A packed body of at least four bytes is a whole frame. -/
theorem whole_frameOf {body : List UInt8} (hbody : 4 ≤ body.length)
    (hmax : 4 + body.length < kMaxPacketSize) : framer.Whole (Packer.frameOf body) := by
  have hlen := Packer.frameOf_length body
  have hbound : body.length + 2 ≤ Packer.frameLength body.length ∧
      Packer.frameLength body.length < 2 ^ 23 := by
    rw [kMaxPacketSize] at hmax
    rw [Packer.frameLength]
    split <;> omega
  have hannounced : packetLength (Packer.frameOf body) = Packer.frameLength body.length :=
    packetLength_frame hbound.2 hbody
  show front (Packer.frameOf body) = .frame (Packer.frameOf body).length
  rw [front, hannounced, hlen, kMinPacketLen, if_neg (by omega), if_neg (by omega),
    if_neg (by omega)]

/-! ## What the loop delivers -/

/-- The callback never closes the connection. -/
def NeverCloses (cb : Callback) : Prop := ∀ log e, cb.closes log e = 0

/-- The event is the delivery of the packet `frame`. -/
def Receives (e : Event) (frame : List UInt8) : Prop := ∃ heap, e = received frame heap

/-- The deliveries among the events. -/
def deliveries (log : List Event) : List Event :=
  log.filter fun e => match e with
    | .packetReceived .. => true
    | .error _ => false

/-- The connection between two read callbacks, `rest` not yet used. -/
def idle (cb : Callback) (rest : List UInt8) : TcpConnection := ⟨some rest, false, some cb, 0⟩

/-- The deliveries of two logs. -/
theorem deliveries_append (log log' : List Event) :
    deliveries (log ++ log') = deliveries log ++ deliveries log' := List.filter_append ..

section Loop

variable {cb : Callback} (hcb : NeverCloses cb) (heap : List Event → Nat → UInt8)

include hcb

/-- A callback that never closes leaves the connection alone. -/
theorem notify_neverCloses (e : Event) (c : TcpConnection) (log : List Event)
    (hc : c.callback = some cb) : notify e (c, log) = (c, log ++ [e]) := by
  rw [notify]
  show (match c.callback with | none => _ | some cb => _) = _
  rw [hc]
  show (Nat.repeat closeAndDestroy (cb.closes log e) c, log ++ [e]) = _
  rw [hcb log e]
  rfl

/-- The loop cuts off the frames that the framing finds, delivers each, and reports an error where
    the framing breaks. -/
theorem processPackets_spec (b : List UInt8) (log : List Event) :
    ∃ evs, processPackets heap (⟨some b, true, some cb, 0⟩, log) =
        (⟨some (framer.scan b).2, true, some cb, 0⟩, log ++ evs) ∧
      List.Forall₂ Receives (deliveries evs) (framer.scan b).1 ∧
      (front (framer.scan b).2 ≠ .bad → deliveries evs = evs) := by
  -- strong induction on the bytes that are left
  induction hb : b.length using Nat.strongRecOn generalizing b log with
  | _ k ih =>
    rw [processPackets]
    split
    · next hin => cases hin
    next input hin =>
    obtain rfl : b = input := Option.some.inj hin
    split
    -- too few bytes for a packet: the loop stops without a word
    · next hfront =>
      have hscan : framer.scan b = ([], b) :=
        framer.scan_of_not_frame fun n hn => Verdict.noConfusion (hfront.symm.trans hn)
      rw [hscan]
      exact ⟨[], by rw [List.append_nil], .nil, fun _ => rfl⟩
    -- a bad length: the error is the last event
    · next hfront =>
      have hscan : framer.scan b = ([], b) :=
        framer.scan_of_not_frame fun n hn => Verdict.noConfusion (hfront.symm.trans hn)
      rw [hscan, notify_neverCloses hcb _ _ _ rfl]
      exact ⟨_, rfl, .nil, fun h => absurd hfront h⟩
    -- a whole packet is delivered, and the loop goes on with the rest
    · next n hfront =>
      obtain ⟨-, hmin, hle⟩ := front_eq_frame hfront
      rw [kMinPacketLen] at hmin
      rw [framer.scan_of_frame hfront, notify_neverCloses hcb _ _ _ rfl]
      obtain ⟨evs, hrun, hall, herr⟩ := ih (b.drop n).length (by rw [List.length_drop]; omega)
        (b.drop n) (log ++ [received (b.take n) (heap log)]) rfl
      have hrec : Receives (received (b.take n) (heap log)) (b.take n) := ⟨heap log, rfl⟩
      refine ⟨received (b.take n) (heap log) :: evs, ?_, ?_, ?_⟩
      · rw [hrun, List.append_assoc]
        rfl
      · exact .cons hrec hall
      · intro hbad
        rw [show deliveries (received (b.take n) (heap log) :: evs) =
          received (b.take n) (heap log) :: deliveries evs from rfl, herr hbad]

/-- One chunk delivers the frames that end in it, and leaves what a scan leaves. -/
theorem arrive_spec (rest chunk : List UInt8) (log : List Event) :
    ∃ evs, arrive heap (idle cb rest, log) chunk =
        (idle cb (framer.scan (rest ++ chunk)).2, log ++ evs) ∧
      List.Forall₂ Receives (deliveries evs) (framer.scan (rest ++ chunk)).1 ∧
      (front (framer.scan (rest ++ chunk)).2 ≠ .bad → deliveries evs = evs) := by
  obtain ⟨evs, hrun, hall, herr⟩ := processPackets_spec hcb heap (rest ++ chunk) log
  refine ⟨evs, ?_, hall, herr⟩
  show onDataReady heap (⟨some (rest ++ chunk), false, some cb, 0⟩, log) = _
  rw [onDataReady]
  dsimp only
  rw [hrun]
  rfl

/-- **A whole run.**  After any chunks, what was delivered is what the framing finds in the bytes
    received, and errors were reported only if it broke on the way. -/
theorem run_spec (chunks : List (List UInt8)) :
    ∃ log, run cb heap chunks = (idle cb (framer.scan chunks.flatten).2, log) ∧
      List.Forall₂ Receives (deliveries log) (framer.scan chunks.flatten).1 ∧
      ((∀ k, front (framer.scan (chunks.take k).flatten).2 ≠ .bad) → deliveries log = log) := by
  -- induction on the reads, the last one split off
  induction chunks using List.reverseRecOn with
  | nil =>
    have hscan : framer.scan ([] : List UInt8) = ([], []) :=
      framer.scan_of_not_frame framer.verdict_nil
    refine ⟨[], ?_, ?_, fun _ => rfl⟩
    · rw [List.flatten_nil, hscan]
      rfl
    · rw [List.flatten_nil, hscan]
      exact .nil
  | append_singleton chunks chunk ih =>
    obtain ⟨log, hrun, hall, herr⟩ := ih
    obtain ⟨evs, hstep, hevs, herr'⟩ :=
      arrive_spec hcb heap (framer.scan chunks.flatten).2 chunk log
    have hflat : (chunks ++ [chunk]).flatten = chunks.flatten ++ chunk := by simp
    have hrest := framer.scan_append chunks.flatten chunk
    refine ⟨log ++ evs, ?_, ?_, fun hbad => ?_⟩
    · rw [run, List.foldl_append, ← run, hrun, hflat, hrest]
      exact hstep
    · rw [deliveries_append, hflat, hrest]
      exact List.rel_append hall hevs
    · rw [deliveries_append]
      congr 1
      -- the error was not reported before, since no beginning of the stream is bad
      · refine herr fun k => ?_
        have hk := hbad (min k chunks.length)
        rw [List.take_append_of_le_length (Nat.min_le_right _ _)] at hk
        rwa [← List.take_eq_take_min] at hk
      · refine herr' ?_
        have hk := hbad (chunks ++ [chunk]).length
        rwa [List.take_length, hflat, hrest] at hk

end Loop

/-! ## What the callback gets -/

/-- A length on the wire is below `2^23`. -/
theorem packetLength_lt (input : List UInt8) : packetLength input < 2 ^ 23 := by
  have hlower : leNat (input.take 2) < 2 ^ 16 := by
    have hlt := leNat_lt (input.take 2)
    have hle : (input.take 2).length ≤ 2 := by rw [List.length_take]; omega
    have := Nat.pow_le_pow_right (show 0 < 256 by decide) hle
    omega
  rw [packetLength]
  split
  · show (_ &&& 0x7FFF) + ((leNat (input.take 4) &&& 0xFFFFFF) >>> 16) <<< 15 < 2 ^ 23
    rw [and_mask15, show (0xFFFFFF : Nat) = 2 ^ 24 - 1 from rfl, Nat.and_two_pow_sub_one_eq_mod,
      Nat.shiftRight_eq_div_pow, Nat.shiftLeft_eq]
    omega
  · omega

/-- The bytes of a delivered packet. -/
def Event.frame : Event → List UInt8
  | .packetReceived pkr _ _ => pkr.contents
  | .error _ => []

/-- The dispatch written out: its three unpackers look at the same buffer. -/
theorem received_eq (buffer : List UInt8) (heap : Nat → UInt8) :
    ∃ u₀ u₁ u₂ u₃ : Unpacker,
      u₀ = Unpacker.new (blockOf buffer heap) (.ofNat buffer.length) none ∧
      u₁ = (Unpacker.popUint16.run u₀).2 ∧ u₂ = (Unpacker.popUint16.run u₁).2 ∧
      u₃ = (Unpacker.rewind.run u₂).2 ∧
      received buffer heap =
        .packetReceived u₃ (Unpacker.popUint16.run u₀).1 (Unpacker.popUint16.run u₁).1 ∧
      u₃.mem = blockOf buffer heap ∧ u₃.length = (UInt32.ofNat buffer.length).toNat := by
  let u₀ := Unpacker.new (blockOf buffer heap) (.ofNat buffer.length) none
  let u₁ := (Unpacker.popUint16.run u₀).2
  let u₂ := (Unpacker.popUint16.run u₁).2
  obtain ⟨hm₀, hl₀⟩ : u₀.mem = blockOf buffer heap ∧ u₀.length = _ := Unpacker.new_buffer _ _ _
  obtain ⟨hm₁, hl₁, -⟩ := Unpacker.Follows.popUint16.frame u₀
  obtain ⟨hm₂, hl₂, -⟩ := Unpacker.Follows.popUint16.frame u₁
  obtain ⟨hm₃, hl₃⟩ := Unpacker.rewind_frame u₂
  exact ⟨u₀, u₁, u₂, (Unpacker.rewind.run u₂).2, rfl, rfl, rfl, rfl, rfl,
    ((hm₃.trans hm₂).trans hm₁).trans hm₀, ((hl₃.trans hl₂).trans hl₁).trans hl₀⟩

/-- Popping leaves the buffer alone, so the callback's unpacker still has all of it. -/
theorem received_frame {buffer : List UInt8} (hlen : buffer.length < 2 ^ 32) (heap : Nat → UInt8) :
    Event.frame (received buffer heap) = buffer := by
  obtain ⟨u₀, u₁, u₂, u₃, -, -, -, -, hrec, hmem, hlength⟩ := received_eq buffer heap
  rw [hrec, Event.frame, Unpacker.contents, hmem, hlength, UInt32.toNat_ofNat', Nat.mod_eq_of_lt hlen,
    blockOf_map]

/-- **The delivery of a packet**: an unpacker over exactly the packet's bytes that stands in front of
    its body, with the packet's `server_type` and `uri`. -/
def Delivers (e : Event) (p : PackedPacket) : Prop :=
  ∃ u, e = .packetReceived u p.value.serverType p.value.uri ∧ u.contents = p.frame ∧
    u.length = p.frame.length ∧ u.At p.body ∧ u.position + p.body.length = u.length

/-- A received frame of a packed packet delivers the packet. -/
theorem receives_delivers {e : Event} {p : PackedPacket} (h : Receives e p.frame) :
    Delivers e p := by
  obtain ⟨heap, rfl⟩ := h
  have hsmall : p.frame.length < 2 ^ 32 := p.sent.frame_length_lt
  have hnat : (UInt32.ofNat p.frame.length).toNat = p.frame.length := by
    rw [UInt32.toNat_ofNat', Nat.mod_eq_of_lt hsmall]
  obtain ⟨u₀, u₁, u₂, u₃, h₀, h₁, h₂, h₃, hrec, -⟩ := received_eq p.frame heap
  obtain ⟨hserver, huri, -, hlength, hat, hpos⟩ :=
    p.dispatch (fun i hi => blockOf_lt hi) _ h₀ h₁ h₂ h₃
  refine ⟨u₃, ?_, ?_, hlength.trans hnat, hat, ?_⟩
  · rw [hrec]
    exact congrArg₂ _ hserver huri
  · have := received_frame hsmall heap
    rwa [hrec] at this
  · rw [hlength, hnat]
    exact hpos

/-! ## The packets of a run -/

/-- A packed packet is one whole frame. -/
theorem frame_whole (p : PackedPacket) : framer.Whole p.frame := by
  have h := whole_frameOf p.body_length p.sent.body_lt
  rwa [show Packer.frameOf p.body = p.frame from p.sent.frame_eq.symm] at h

/-- What a run delivers, as byte strings: the frames of the concatenated stream. -/
theorem run_frames {cb : Callback} (hcb : NeverCloses cb) (heap : List Event → Nat → UInt8)
    (chunks : List (List UInt8)) :
    (deliveries (run cb heap chunks).2).map Event.frame = (framer.scan chunks.flatten).1 := by
  obtain ⟨log, hrun, hall, -⟩ := run_spec hcb heap chunks
  rw [hrun]
  -- a length field has four bytes, so the size of a frame does not wrap
  have hsmall : ∀ f ∈ (framer.scan chunks.flatten).1, f.length < 2 ^ 32 := fun f hf => by
    obtain ⟨b, hb⟩ := framer.verdict_of_mem_scan hf
    have hlen := (front_eq_frame hb).1
    have := packetLength_lt b
    omega
  show (deliveries log).map Event.frame = _
  -- the two lists go together, packet by packet
  generalize deliveries log = es at hall ⊢
  generalize (framer.scan chunks.flatten).1 = fs at hall hsmall ⊢
  induction hall with
  | nil => rfl
  | @cons e f es fs he _ ih =>
    obtain ⟨heap', rfl⟩ := he
    rw [List.map_cons, received_frame (hsmall f List.mem_cons_self) heap',
      ih fun g hg => hsmall g (List.mem_cons_of_mem f hg)]

/-- A list of lists splits at every index. -/
theorem flatten_split {α : Type} (xss : List (List α)) (k : Nat) :
    xss.flatten = (xss.take k).flatten ++ (xss.drop k).flatten := by
  rw [← List.flatten_append, List.take_append_drop]

/-- A run over the first bytes of a stream of packed packets: the deliveries are those of the packets
    that have arrived completely, and there is nothing else. -/
theorem run_packets {cb : Callback} (hcb : NeverCloses cb) (heap : List Event → Nat → UInt8)
    (ps : List PackedPacket) (chunks : List (List UInt8)) (n : Nat)
    (hcut : chunks.flatten = (ps.map PackedPacket.frame).flatten.take n) :
    ∃ k, k ≤ ps.length ∧ List.Forall₂ Delivers (run cb heap chunks).2 (ps.take k) ∧
      ((ps.take k).map PackedPacket.frame).flatten.length ≤ n ∧
      (k < ps.length → n < ((ps.take (k + 1)).map PackedPacket.frame).flatten.length) := by
  have hwhole : ∀ w ∈ ps.map PackedPacket.frame, framer.Whole w := fun w hw => by
    obtain ⟨p, -, rfl⟩ := List.mem_map.mp hw
    exact frame_whole p
  obtain ⟨log, hrun, hall, herr⟩ := run_spec hcb heap chunks
  obtain ⟨k, hk, hscan, hle, hlt⟩ := framer.scan_take_wellFormed _ hwhole n
  rw [List.length_map] at hk hlt
  rw [← List.map_take] at hscan hle
  refine ⟨k, hk, ?_, hle, fun h => by rw [List.map_take]; exact hlt h⟩
  -- every prefix of the stream is a prefix of the packets, so nothing broke on the way
  have hclean : deliveries log = log := herr fun j => by
    have hsplit : (chunks.take j).flatten =
        (ps.map PackedPacket.frame).flatten.take (min (chunks.take j).flatten.length n) := by
      have h' := congrArg (List.take (chunks.take j).flatten.length)
        ((flatten_split chunks j).symm.trans hcut)
      rwa [List.take_left, List.take_take] at h'
    rw [hsplit]
    exact framer.scan_take_not_bad (by decide) _ hwhole _
  rw [hcut, hscan, hclean] at hall
  rw [hrun]
  show List.Forall₂ Delivers log (ps.take k)
  rw [List.forall₂_map_right_iff] at hall
  exact hall.imp fun _ _ h => receives_delivers h

/-- **Framing exactness and chunk independence.**  Over a callback that never closes the connection:

    * packed packets, cut into any chunks, are delivered in order, each exactly once, after all of
      its bytes and no later than its last one, and nothing else happens;
    * for any stream, what is delivered depends on the concatenation of the chunks only;
    * nothing is delivered from the first packet on whose announced length is below six. -/
theorem onDataReady_framing (cb : Callback) (hcb : NeverCloses cb)
    (heap : List Event → Nat → UInt8) :
    (∀ (ps : List PackedPacket) (chunks : List (List UInt8)),
      chunks.flatten = (ps.map PackedPacket.frame).flatten →
      List.Forall₂ Delivers (run cb heap chunks).2 ps ∧
      ∀ m, ∃ k, k ≤ ps.length ∧
        List.Forall₂ Delivers (run cb heap (chunks.take m)).2 (ps.take k) ∧
        ((ps.take k).map PackedPacket.frame).flatten.length ≤ (chunks.take m).flatten.length ∧
        (k < ps.length →
          (chunks.take m).flatten.length < ((ps.take (k + 1)).map PackedPacket.frame).flatten.length)) ∧
    (∀ (chunks chunks' : List (List UInt8)) (heap' : List Event → Nat → UInt8),
      chunks.flatten = chunks'.flatten →
      (deliveries (run cb heap chunks).2).map Event.frame =
        (deliveries (run cb heap' chunks').2).map Event.frame) ∧
    (∀ (chunks ws : List (List UInt8)) (rest : List UInt8),
      chunks.flatten = ws.flatten ++ rest → (∀ w ∈ ws, framer.Whole w) → front rest = .bad →
      (deliveries (run cb heap chunks).2).map Event.frame = ws) := by
  refine ⟨fun ps chunks hcut => ⟨?_, fun m => ?_⟩, fun chunks chunks' heap' hflat => ?_,
    fun chunks ws rest hflat hws hbad => ?_⟩
  -- the whole stream: every packet is complete
  · obtain ⟨k, hk, hall, -, hlt⟩ := run_packets hcb heap ps chunks chunks.flatten.length
      (by rw [← hcut, List.take_length])
    have hkall : k = ps.length := by
      by_contra hne
      have hshort := hlt (by omega)
      rw [hcut] at hshort
      have hsub : ((ps.take (k + 1)).map PackedPacket.frame).flatten.length ≤
          (ps.map PackedPacket.frame).flatten.length := by
        rw [flatten_split (ps.map PackedPacket.frame) (k + 1), List.map_take, List.length_append]
        omega
      omega
    rwa [hkall, List.take_length] at hall
  -- a part of it: the packets that are complete in it
  · refine run_packets hcb heap ps (chunks.take m) _ ?_
    rw [← hcut, flatten_split chunks m, List.take_left]
  -- the frames depend on the concatenation alone
  · rw [run_frames hcb, run_frames hcb, hflat]
  -- a bad length stops the scan behind the packets before it
  · rw [run_frames hcb, hflat, framer.scan_wellFormed_append ws hws, framer.scan_of_not_frame
      fun n hn => Verdict.noConfusion (hbad.symm.trans hn)]
    exact List.append_nil ws

/-- A packed rejoin request. -/
def sampleRequest : PackedPacket :=
  ⟨Elbs.kRejoinRequestUri, .of [.uint32, .uint16],
    ⟨⟨305, 6, (0x0100007f : UInt32), (8000 : UInt16), ()⟩, 0, _, _,
      [12, 0, 0x31, 1, 6, 0, 0x7f, 0, 0, 1, 0x40, 0x1f], rfl, rfl, rfl⟩⟩

/-- Two of them, cut at odd places. -/
def sampleChunks : List (List UInt8) :=
  [[12, 0, 0x31, 1, 6, 0, 0x7f], [0, 0, 1, 0x40, 0x1f, 12, 0, 0x31, 1, 6, 0, 0x7f, 0, 0], [],
    [1, 0x40, 0x1f]]

theorem onDataReady_framing_twice :
    NeverCloses ⟨fun _ _ => 0⟩ ∧
    List.Forall₂ Delivers (run ⟨fun _ _ => 0⟩ (fun _ _ => 0) sampleChunks).2
      [sampleRequest, sampleRequest] :=
  ⟨fun _ _ => rfl, ((onDataReady_framing ⟨fun _ _ => 0⟩ (fun _ _ => rfl) fun _ _ => 0).1
    [sampleRequest, sampleRequest] sampleChunks rfl).1⟩

end TcpConnection

end Turnserver
