/-
  THE EDGE SERVER CONNECTION (`turnserver_main.cc`: `ElbsConnection`) — asking a balancer which edge
  server to use, and connecting to the one it names.

  Every minute the connection opens sockets to the balancers; each one that connects is sent a
  `RejoinRequest` and answers with a `RejoinResponse`, which names an edge server.  That address is
  remembered in `connect_Addr_` BEFORE the attempt to connect, and a response that names the
  remembered address again is ignored, whatever became of the attempt.

  * The sockets are numbered in the order of creation.  Whether `Create` returns one is part of the
    input, and so is the time.
  * `attempts` records the calls of `connectEdgeServer`, and what they returned.

  `rejoin_attempts_iff`: outside the 3-second throttle a response starts an attempt exactly when it
  names another address than the last attempt did.
-/
import Turnserver.Lib.Transition
import Turnserver.Worker.WorkerTCPSocket

namespace Turnserver

open Bytes Transition

/-! ## The code -/

/-- `rtc::SocketAddress`, with its IPv4 address in host order. -/
structure SocketAddress where
  ip : UInt32
  port : UInt16
deriving DecidableEq

/-- `rtc::NetworkToHost32` -/
def networkToHost32 (x : UInt32) : UInt32 := .ofNat (leNat (leBytes 4 x.toNat).reverse)

/-- The states of a socket. -/
inductive SocketState
  | connecting
  | connected
  | closed
deriving DecidableEq

/-- A `WorkerTCPSocket`: to an edge server (Argus), or to a balancer. -/
structure EdgeSocket where
  edge : Bool
  state : SocketState

/-- What is written to a socket. -/
inductive ElbsSent
  | rejoinRequest (ip : UInt32) (port : UInt16)
  | quitReport
  | connectReport
  | ping

/-- The members of `ElbsConnection`, and what was sent. -/
structure ElbsConnection where
  /-- all sockets ever created -/
  sockets : List EdgeSocket
  elbs_socket : List Nat
  socket_connecting : Option Nat
  socket : Option Nat
  connect_Addr : SocketAddress
  last_connect_ts : Int
  attempts : List (SocketAddress × Bool)
  sent : List (Nat × ElbsSent)

namespace ElbsConnection

/-- A new connection; nothing is known of an address yet. -/
def initial : ElbsConnection := ⟨[], [], none, none, ⟨0, 0⟩, 0, [], []⟩

/-- A socket changes its state. -/
def setState (i : Nat) (state : SocketState) (s : ElbsConnection) : ElbsConnection :=
  { s with sockets := s.sockets.modify i fun k => { k with state := state } }

/-- `socket->Close()` -/
def close (i : Nat) : ElbsConnection → ElbsConnection := setState i .closed

/-- `send` of a socket. -/
def send (i : Nat) (p : ElbsSent) (s : ElbsConnection) : ElbsConnection :=
  { s with sent := s.sent ++ [(i, p)] }

/-- `WorkerTCPSocket::Create`, if it succeeds. -/
def createSocket (edge : Bool) (s : ElbsConnection) : ElbsConnection :=
  { s with sockets := s.sockets ++ [⟨edge, .connecting⟩] }

/-- `connectElbs`, with the result of creating the socket. -/
def connectElbs (created : Bool) (s : ElbsConnection) : ElbsConnection :=
  if !created then s
  else { s.createSocket false with elbs_socket := s.elbs_socket ++ [s.sockets.length] }

/-- `joinElbs()`, with one entry for each address of the balancers. -/
def joinElbs (created : List Bool) (s : ElbsConnection) : ElbsConnection :=
  created.foldl (fun s c => s.connectElbs c) { s with elbs_socket := [] }

/-- `connectEdgeServer`, with the result of creating the socket. -/
def connectEdgeServer (serverAddr : SocketAddress) (created : Bool) (s : ElbsConnection) :
    ElbsConnection × Bool :=
  let s := { s with attempts := s.attempts ++ [(serverAddr, created)] }
  if !created then (s, false)
  else ({ s.createSocket true with socket_connecting := some s.sockets.length }, true)

/-- The case `kRejoinResponseUri` of `OnResponsePacket`. -/
def onRejoinResponse (i : Nat) (ip : UInt32) (port : UInt16) (now : Int) (created : Bool)
    (s : ElbsConnection) : ElbsConnection :=
  if s.last_connect_ts + 3000 > now then s.close i
  else if networkToHost32 ip = s.connect_Addr.ip ∧ port = s.connect_Addr.port then s
  else
    let s := { s with connect_Addr := ⟨networkToHost32 ip, port⟩ }
    let result := s.connectEdgeServer s.connect_Addr created
    let s := if result.2 then { result.1 with last_connect_ts := now } else result.1
    s.close i

/-- The top of `OnResponsePacket`: the uri of what arrived, and the unpacker after the rewind. -/
def identified (data : Nat → UInt8) (size : Nat) : UInt16 × Unpacker :=
  let unpkr := Unpacker.new data (.ofNat size) none
  let service_type := Unpacker.popUint16.run unpkr
  let uri := Unpacker.popUint16.run service_type.2
  (uri.1, (Unpacker.rewind.run uri.2).2)

/-- `resp.Unmarshall(&unpkr)` -/
def unmarshalled (unpkr : Unpacker) : Elbs.RejoinResponseProtocol.Val :=
  ((Elbs.RejoinResponseProtocol.decode Hashing.first).run unpkr).1

/-- `onResponsePacket`: nothing below four bytes, and nothing but responses. -/
def onResponsePacket (i : Nat) (data : Nat → UInt8) (size : Nat) (now : Int) (created : Bool)
    (s : ElbsConnection) : ElbsConnection :=
  if size < 4 then s
  else if (identified data size).1 = Elbs.kRejoinResponseUri then
    let resp := unmarshalled (identified data size).2
    s.onRejoinResponse i resp.members.2.1 resp.members.2.2.1 now created
  else s

/-- `OnElbsSocketConnect`: the request for an edge server. -/
def onElbsSocketConnect (i : Nat) (s : ElbsConnection) : ElbsConnection :=
  s.send i (.rejoinRequest s.connect_Addr.ip s.connect_Addr.port)

/-- `OnElbsSocketClose` -/
def onElbsSocketClose (i : Nat) (s : ElbsConnection) : ElbsConnection := s.close i

/-- `sameLocal` is the comparison of the local addresses of the socket and of `socket_connecting_`. -/
def onArgusSocketConnect (i : Nat) (sameLocal : Bool) (s : ElbsConnection) : ElbsConnection :=
  if sameLocal then
    let s := match s.socket with
      | some old => s.close old
      | none => s
    let s := { s with socket := s.socket_connecting }
    match s.socket with
    | some new => (s.send new .quitReport).send new .connectReport
    | none => s
  else s.close i

/-- `OnArgusSocketClose` -/
def onArgusSocketClose (i : Nat) (s : ElbsConnection) : ElbsConnection := s.close i

/-- `OnMessage` of the timer `MSG_ARGUS_ONTIMER`. -/
def onArgusTimer (s : ElbsConnection) : ElbsConnection :=
  match s.socket with
  | some i =>
    match s.sockets[i]? with
    | some ⟨_, .connected⟩ => s.send i .ping
    | _ => s
  | none => s

/-! ## Runs -/

/-- What happens next. -/
inductive Input
  /-- `start()`, or the timer `MSG_ELBS_ONTIMER` -/
  | join (created : List Bool)
  | argusTimer
  | elbsConnect (i : Nat)
  | elbsClose (i : Nat)
  | argusConnect (i : Nat) (sameLocal : Bool)
  | argusClose (i : Nat)
  /-- `SignalReadPacket` of either kind of socket -/
  | read (i : Nat) (r : Read) (now : Int) (created : Bool)

/-- What an input does. -/
def next (s : ElbsConnection) : Input → ElbsConnection
  | .join created => s.joinElbs created
  | .argusTimer => s.onArgusTimer
  | .elbsConnect i => (s.setState i .connected).onElbsSocketConnect i
  | .elbsClose i => s.onElbsSocketClose i
  | .argusConnect i sameLocal => (s.setState i .connected).onArgusSocketConnect i sameLocal
  | .argusClose i => s.onArgusSocketClose i
  | .read i r now created =>
    s.onResponsePacket i (blockOf r.bytes r.stale) (u16 r.bytes.length) now created

/-- The socket `i` is of this kind and in this state. -/
def Is (i : Nat) (edge : Bool) (state : SocketState) (s : ElbsConnection) : Prop :=
  (s.sockets[i]?).map (fun k => (k.edge, k.state)) = some (edge, state)

instance (i : Nat) (edge : Bool) (state : SocketState) (s : ElbsConnection) :
    Decidable (s.Is i edge state) :=
  inferInstanceAs (Decidable (_ = _))

/-- The signals that a socket can give in its state. -/
def Enabled (s : ElbsConnection) : Input → Prop
  | .join _ => True
  | .argusTimer => True
  | .elbsConnect i => s.Is i false .connecting
  | .elbsClose i => s.Is i false .connecting ∨ s.Is i false .connected
  | .argusConnect i sameLocal =>
    s.Is i true .connecting ∧ (s.socket_connecting = some i → sameLocal = true)
  | .argusClose i => s.Is i true .connecting ∨ s.Is i true .connected
  | .read i _ _ _ => s.Is i false .connected ∨ s.Is i true .connected

instance (s : ElbsConnection) : (i : Input) → Decidable (s.Enabled i)
  | .join _ => inferInstanceAs (Decidable True)
  | .argusTimer => inferInstanceAs (Decidable True)
  | .elbsConnect i => inferInstanceAs (Decidable (s.Is i false .connecting))
  | .elbsClose i => inferInstanceAs (Decidable (s.Is i false .connecting ∨ s.Is i false .connected))
  | .argusConnect i sameLocal => inferInstanceAs
      (Decidable (s.Is i true .connecting ∧ (s.socket_connecting = some i → sameLocal = true)))
  | .argusClose i => inferInstanceAs (Decidable (s.Is i true .connecting ∨ s.Is i true .connected))
  | .read i _ _ _ => inferInstanceAs (Decidable (s.Is i false .connected ∨ s.Is i true .connected))

/-- One step of a connection. -/
def Step (s : ElbsConnection) (i : Input) (s' : ElbsConnection) : Prop := s.Enabled i ∧ s' = s.next i

/-- No edge connection is established or in progress. -/
def NoEdge (s : ElbsConnection) : Prop := ∀ k ∈ s.sockets, k.edge = true → k.state = .closed

/-! ## Silent handlers -/

/-- New sockets are created, and nothing is said on them. -/
theorem joinElbs_sent (created : List Bool) (s : ElbsConnection) : (s.joinElbs created).sent = s.sent := by
  rw [joinElbs]
  have hclear : ({ s with elbs_socket := [] } : ElbsConnection).sent = s.sent := rfl
  generalize ({ s with elbs_socket := [] } : ElbsConnection) = s₁ at hclear ⊢
  induction created generalizing s₁ with
  | nil => exact hclear
  | cons c cs ih =>
    refine ih (s₁.connectElbs c) ?_
    unfold connectElbs
    split
    · exact hclear
    · exact hclear

/-- A response is not answered. -/
theorem onRejoinResponse_sent (i : Nat) (ip : UInt32) (port : UInt16) (now : Int) (created : Bool)
    (s : ElbsConnection) : (s.onRejoinResponse i ip port now created).sent = s.sent := by
  unfold onRejoinResponse
  split
  · rfl
  split
  · rfl
  · cases created with
    | true => rfl
    | false => rfl

/-! ## The remembered address -/

/-- The address of the last attempt; before the first one, the address of a new `SocketAddress`. -/
def lastAttempted (attempts : List (SocketAddress × Bool)) : SocketAddress :=
  (attempts.getLast?.map Prod.fst).getD ⟨0, 0⟩

/-- The last attempt decides. -/
theorem lastAttempted_concat (attempts : List (SocketAddress × Bool)) (a : SocketAddress × Bool) :
    lastAttempted (attempts ++ [a]) = a.1 := by
  rw [lastAttempted, List.getLast?_concat]
  rfl

/-- Whether it succeeded or not, an attempt is what `connect_Addr_` remembers. -/
def Remembers (s : ElbsConnection) : Prop := s.connect_Addr = lastAttempted s.attempts

/-- The handlers but one leave the address and the attempts alone. -/
def SameAttempts (s s' : ElbsConnection) : Prop :=
  s'.connect_Addr = s.connect_Addr ∧ s'.attempts = s.attempts

/-- Without a new attempt the address is still the last one. -/
theorem SameAttempts.remembers {s s' : ElbsConnection} (h : SameAttempts s s') (hs : s.Remembers) :
    s'.Remembers := by
  rw [Remembers, h.1, h.2]
  exact hs

theorem connectElbs_same (created : Bool) (s : ElbsConnection) :
    SameAttempts s (s.connectElbs created) := by
  rw [connectElbs]
  split
  · exact ⟨rfl, rfl⟩
  · exact ⟨rfl, rfl⟩

theorem joinElbs_same (created : List Bool) (s : ElbsConnection) :
    SameAttempts s (s.joinElbs created) := by
  rw [joinElbs]
  have hclear : SameAttempts s { s with elbs_socket := [] } := ⟨rfl, rfl⟩
  generalize ({ s with elbs_socket := [] } : ElbsConnection) = s₁ at hclear ⊢
  induction created generalizing s₁ with
  | nil => exact hclear
  | cons c cs ih =>
    obtain ⟨haddr, hattempts⟩ := connectElbs_same c s₁
    exact ih _ ⟨haddr.trans hclear.1, hattempts.trans hclear.2⟩

theorem onArgusSocketConnect_same (i : Nat) (sameLocal : Bool) (s : ElbsConnection) :
    SameAttempts s (s.onArgusSocketConnect i sameLocal) := by
  rw [onArgusSocketConnect]
  cases sameLocal with
  | false => exact ⟨rfl, rfl⟩
  | true =>
    cases hsocket : s.socket <;> cases hnew : s.socket_connecting <;>
      simp only [if_true, hnew, close, setState] <;> exact ⟨rfl, rfl⟩

theorem onArgusTimer_same (s : ElbsConnection) : SameAttempts s s.onArgusTimer := by
  rw [onArgusTimer]
  split
  · split
    · exact ⟨rfl, rfl⟩
    · exact ⟨rfl, rfl⟩
  · exact ⟨rfl, rfl⟩

/-- What a response does to the attempts: nothing while it is too early or names the remembered address
    again, and else one more attempt, remembered. -/
theorem onRejoinResponse_cases (i : Nat) (ip : UInt32) (port : UInt16) (now : Int) (created : Bool)
    (s : ElbsConnection) :
    ((now < s.last_connect_ts + 3000 ∨ ⟨networkToHost32 ip, port⟩ = s.connect_Addr) ∧
      SameAttempts s (s.onRejoinResponse i ip port now created)) ∨
    (s.last_connect_ts + 3000 ≤ now ∧ ⟨networkToHost32 ip, port⟩ ≠ s.connect_Addr ∧
      (s.onRejoinResponse i ip port now created).connect_Addr = ⟨networkToHost32 ip, port⟩ ∧
      (s.onRejoinResponse i ip port now created).attempts =
        s.attempts ++ [(⟨networkToHost32 ip, port⟩, created)]) := by
  rw [onRejoinResponse]
  -- the two guards of `OnRejoinResponse`, in its order
  by_cases hearly : s.last_connect_ts + 3000 > now
  · rw [if_pos hearly]
    exact Or.inl ⟨Or.inl hearly, rfl, rfl⟩
  · rw [if_neg hearly]
    by_cases hsame : networkToHost32 ip = s.connect_Addr.ip ∧ port = s.connect_Addr.port
    · rw [if_pos hsame]
      refine Or.inl ⟨Or.inr ?_, rfl, rfl⟩
      rw [hsame.1, hsame.2]
    · rw [if_neg hsame]
      refine Or.inr ⟨by omega, ?_, ?_⟩
      · intro heq
        rw [← heq] at hsame
        exact hsame ⟨rfl, rfl⟩
      · cases created with
        | true => exact ⟨rfl, rfl⟩
        | false => exact ⟨rfl, rfl⟩

/-- A response remembers the address that it attempts. -/
theorem onRejoinResponse_remembers (i : Nat) (ip : UInt32) (port : UInt16) (now : Int)
    (created : Bool) {s : ElbsConnection} (h : s.Remembers) :
    (s.onRejoinResponse i ip port now created).Remembers := by
  rcases onRejoinResponse_cases i ip port now created s with ⟨-, hsame⟩ | ⟨-, -, haddr, hattempts⟩
  · exact hsame.remembers h
  · rw [Remembers, haddr, hattempts, lastAttempted_concat]

/-- Every input remembers the address attempted last. -/
theorem next_remembers {s : ElbsConnection} (h : s.Remembers) (i : Input) : (s.next i).Remembers := by
  cases i with
  | join created => exact (joinElbs_same created s).remembers h
  | argusTimer => exact (onArgusTimer_same s).remembers h
  | elbsConnect i => exact h
  | elbsClose i => exact h
  | argusConnect i sameLocal =>
    exact (onArgusSocketConnect_same i sameLocal (s.setState i .connected)).remembers h
  | argusClose i => exact h
  | read i r now created =>
    rw [next, onResponsePacket]
    split
    · exact h
    · split
      · exact onRejoinResponse_remembers _ _ _ _ _ h
      · exact h

/-- In every reachable state. -/
theorem run_remembers {s : ElbsConnection} {ts : List (ElbsConnection × Input × ElbsConnection)}
    (hrun : Run Step initial ts s) : s.Remembers := by
  have hstep : ∀ s i t, Remembers s → Step s i t → Remembers t := by
    rintro s i t hs ⟨-, rfl⟩
    exact next_remembers hs i
  exact (Run.invariant hstep hrun rfl).1

/-! ## A response as it arrives -/

/-- A packed `RejoinResponse`. -/
structure RejoinResponse where
  sent : Packed Elbs.RejoinResponseProtocol
  uri_eq : sent.value.uri = Elbs.kRejoinResponseUri

namespace RejoinResponse

variable (p : RejoinResponse)

/-- The address that it names. -/
def ip : UInt32 := p.sent.value.members.2.1

/-- The port of the response. -/
def port : UInt16 := p.sent.value.members.2.2.1

/-- The address of the response, in host order. -/
def address : SocketAddress := ⟨networkToHost32 p.ip, p.port⟩

/-- The length of a packed response. -/
theorem body_length : p.sent.body.length = 14 := by
  show (leBytes 2 _ ++ (leBytes 2 _ ++ (leBytes 4 _ ++ (leBytes 4 _ ++ (leBytes 2 _ ++ []))))).length
    = 14
  simp only [List.length_append, leBytes_length, List.length_nil]

/-- The length of a response with its size. -/
theorem frame_length : p.sent.frame.length = 16 := by
  rw [p.sent.frame_eq, Packer.frameOf_length, p.body_length]
  rfl

end RejoinResponse

/-- The same response names the same address. -/
theorem same_address {x y : Elbs.RejoinResponseProtocol.Val} (h : Elbs.RejoinResponseProtocol.Same x y) :
    x.members.2.1 = y.members.2.1 ∧ x.members.2.2.1 = y.members.2.2.1 := by
  obtain ⟨-, -, -, hip, hport, -⟩ := h
  exact ⟨hip, hport⟩

/-- A packed response is unpacked to its ip and port. -/
theorem RejoinResponse.unmarshalled_eq (p : RejoinResponse) {u : Unpacker}
    (hat : u.At p.sent.body) :
    p.ip = (unmarshalled u).members.2.1 ∧ p.port = (unmarshalled u).members.2.2.1 := by
  have hlen : (Elbs.RejoinResponseProtocol.wire p.sent.value).length < 2 ^ 23 := by
    have : (Elbs.RejoinResponseProtocol.wire p.sent.value).length = 14 := p.body_length
    omega
  have hsame : Elbs.RejoinResponseProtocol.Same p.sent.value (unmarshalled u) :=
    (Elbs.RejoinResponseProtocol.decode_at Hashing.first ⟨trivial, trivial, trivial, trivial⟩
      ⟨trivial, trivial, trivial, trivial⟩ hlen hat).1
  exact same_address hsame

/-- A packed response is recognised. -/
theorem RejoinResponse.identified_eq (p : RejoinResponse) {data : Nat → UInt8}
    (hdata : ∀ k (hk : k < p.sent.frame.length), data k = p.sent.frame[k]) (size : Nat) :
    (identified data size).1 = Elbs.kRejoinResponseUri ∧
      (identified data size).2.At p.sent.body := by
  let packet : PackedPacket := ⟨Elbs.kRejoinResponseUri, .of [.uint32, .uint32, .uint16], p.sent⟩
  obtain ⟨-, huri, -, -, hat, -⟩ := packet.dispatch hdata (.ofNat size) rfl rfl rfl rfl
  simp only [identified]
  exact ⟨huri.trans p.uri_eq, hat⟩

/-- A read that is one response, whatever lies behind it: `OnResponsePacket` gets its address. -/
theorem onResponsePacket_response (p : RejoinResponse) {r : Read} (hr : r.bytes = p.sent.frame)
    (i : Nat) (now : Int) (created : Bool) (s : ElbsConnection) :
    s.onResponsePacket i (blockOf r.bytes r.stale) (u16 r.bytes.length) now created =
      s.onRejoinResponse i p.ip p.port now created := by
  have hsize : ¬u16 r.bytes.length < 4 := by
    rw [hr, p.frame_length]
    decide
  have hdata : ∀ k (hk : k < p.sent.frame.length), blockOf r.bytes r.stale k = p.sent.frame[k] := by
    rw [hr]
    exact fun k hk => blockOf_lt hk
  obtain ⟨huri, hat⟩ := p.identified_eq hdata (u16 r.bytes.length)
  obtain ⟨hip, hport⟩ := p.unmarshalled_eq hat
  rw [onResponsePacket, if_neg hsize, if_pos huri, hip, hport]

/-- **When a response starts an attempt.**  In every reachable state, with or without an edge connection,
    a response that arrives 3 seconds after the last connection or later starts an attempt to connect
    to the edge server that it names, if and only if this is not the address of the last attempt.  What
    became of the last attempt makes no difference. -/
theorem rejoin_attempts_iff {s : ElbsConnection}
    {ts : List (ElbsConnection × Input × ElbsConnection)} (hrun : Run Step initial ts s)
    (p : RejoinResponse) {r : Read} (hr : r.bytes = p.sent.frame) (i : Nat) {now : Int}
    (hnow : s.last_connect_ts + 3000 ≤ now) (created : Bool) :
    (s.next (.read i r now created)).attempts = s.attempts ++ [(p.address, created)] ↔
      p.address ≠ lastAttempted s.attempts := by
  have hremembers : s.connect_Addr = lastAttempted s.attempts := run_remembers hrun
  rw [next, onResponsePacket_response p hr, ← hremembers]
  -- the response is ignored, or it starts an attempt
  rcases onRejoinResponse_cases i p.ip p.port now created s with
    ⟨hignored, -, hattempts⟩ | ⟨-, hdiffers, -, hattempts⟩
  · rw [hattempts]
    constructor
    · intro hmore
      have := congrArg List.length hmore
      simp at this
    · intro hdiffers
      rcases hignored with hearly | hsame
      · omega
      · exact absurd hsame hdiffers
  · exact ⟨fun _ => hdiffers, fun _ => hattempts⟩

/-- A response that names 10.0.0.1:4000. -/
def sampleResponse : RejoinResponse :=
  ⟨⟨⟨Elbs.ELBS_SERVER_TYPE, Elbs.kRejoinResponseUri,
      (0 : UInt32), (0x0100000a : UInt32), (4000 : UInt16), ()⟩, 0, _, _,
    [16, 0, 0x31, 1, 7, 0, 0, 0, 0, 0, 10, 0, 0, 1, 0xa0, 0x0f], rfl, rfl, rfl⟩, rfl⟩

/-- The response in one read. -/
def sampleRead : Read := ⟨sampleResponse.sent.frame, fun _ => 0, by decide, by decide⟩

/-- A balancer connects. -/
def sampleJoin : List Input := [.join [true], .elbsConnect 0]

/-- The first response leads to an attempt. -/
theorem rejoin_attempts_iff_first :
    let s := sampleJoin.foldl next initial
    (s.next (.read 0 sampleRead 5000 true)).attempts = [(⟨0x0a000001, 4000⟩, true)] :=
  (rejoin_attempts_iff (Run.of_inputs Enabled next (by decide)) sampleResponse rfl 0 (by decide)
    true).mpr (by decide)

/-- The attempt fails; a minute later the balancer names the same server again. -/
def sampleRetry : List Input :=
  [.join [true], .elbsConnect 0, .read 0 sampleRead 5000 false, .join [true], .elbsConnect 1]

/-- No edge connection is there or in progress, the response is not too early, and nothing happens. -/
theorem rejoin_never_retried :
    let s := sampleRetry.foldl next initial
    (∃ ts, Run Step initial ts s) ∧ s.NoEdge ∧ s.last_connect_ts + 3000 ≤ 65000 ∧
      s.attempts = [(⟨0x0a000001, 4000⟩, false)] ∧
      (s.next (.read 1 sampleRead 65000 true)).attempts = s.attempts := by
  intro s
  refine ⟨⟨_, Run.of_inputs Enabled next (by decide)⟩, ?_, by decide, by decide, by decide⟩
  show ∀ k ∈ s.sockets, k.edge = true → k.state = .closed
  decide

end ElbsConnection

end Turnserver
