/-
  THE CONNECTION TO THE MANAGER (`turnserver_main.cc`, 706–970: `Worker`) — its sockets, its timers and
  what is said on each connection.

  A timer looks at the socket every 3 seconds: it pings where the socket is connected, and creates
  another one where it is closed.  The handlers of a socket use `socket_`, whatever socket has called.

  * The sockets are numbered in the order of creation.  What `Create` and `ReConnect` return, the time,
    and how much the kernel takes are parts of the input.
  * A closed socket gives no more signals, and only `Close` closes one (`Enabled`).
  * `none` is a failed `RTC_DCHECK`, the use of a counter that nothing has set, or of an undefined text.

  1. `Inv` — at most one socket is open, and it is `socket_`; of each timer exactly one message is in
     the queue; the first one is that which sets the counters.
  2. `next_spec` — every input keeps it, and no input fails.

  `never_fails`, `conversation` and `answered_where_asked` say what follows for whole runs.
-/
import Turnserver.Worker.Conversation
import Turnserver.Worker.ElbsConnection

namespace Turnserver

open Bytes Transition

namespace Worker

open Cjson WorkerTCPSocket

/-! ## The code -/

/-- What does not change while the worker runs; the C library prints and reads integers. -/
structure Program where
  S : Sprintf
  double : Numeral → Rat
  pid : Int32
  udpport : UInt16
  tcpport : UInt16
  prints : PrintsIntegers S
  reads : ReadsIntegers double

/-- `MSG_WORKER_ONTIMER`, `MSG_BANDWIDTH_GET` and `MSG_LOG_ONTIMER` -/
inductive Timer
  | workerOnTimer
  | bandwidthGet
  | logOnTimer
deriving DecidableEq

/-- A `WorkerTCPSocket`, and what has been said on it. -/
structure Socket where
  state : SocketState
  stream : Stream
  said : List Message

/-- The members of `ManagerConnection`, and the timers that are posted. -/
structure State where
  /-- all sockets ever created -/
  sockets : List Socket
  socket : Option Nat
  /-- `userCount`, `ingress` and `egress`, which the constructor does not set -/
  workload : Option Workload
  /-- the delayed messages with their times, in the order in which they were posted -/
  posted : List (Int × Timer)

/-- The constructor. -/
def State.constructed : State := ⟨[], none, none, []⟩

section Code

variable (P : Program)

/-- One socket changes. -/
def update (i : Nat) (f : Socket → Socket) (s : State) : State :=
  { s with sockets := s.sockets.modify i f }

/-- A socket changes its state. -/
def Socket.setState (state : SocketState) (k : Socket) : Socket := { k with state := state }

/-- A call on the output side of a socket. -/
def Socket.exec (op : SendOp) (k : Socket) : Socket :=
  { k with stream := k.stream.after op (op.exec k.stream.output) }

/-- A socket sends a message, and what was said is kept. -/
def Socket.send (m : Message) (pv : List UInt8) (res : Int) (k : Socket) : Socket :=
  { k.exec (.send pv res) with said := k.said ++ [m] }

/-- `socket_ = WorkerTCPSocket::Create(...)`, if that succeeds. -/
def createSocket (created : Option SocketState) (s : State) : State :=
  match created with
  | none => s
  | some state =>
    { s with
      sockets := s.sockets ++ [⟨state, .initial, []⟩]
      socket := some s.sockets.length }

/-- `PostDelayed` -/
def postDelayed (due : Int) (t : Timer) (s : State) : State :=
  { s with posted := s.posted ++ [(due, t)] }

/-- `Clear`: the timer is removed from the queue. -/
def clear (t : Timer) (s : State) : State := { s with posted := s.posted.filter fun m => m.2 ≠ t }

/-- The clock as the three calls of `PostDelayed` read it, one after the other; the worker does not start
    so slowly that the first timer would run before the counters are set. -/
structure Start where
  workerOnTimer : Int
  logOnTimer : Int
  bandwidthGet : Int
  ordered : workerOnTimer ≤ logOnTimer ∧ logOnTimer ≤ bandwidthGet
  prompt : bandwidthGet < workerOnTimer + 2500

/-- `AddWorkerManagerSocket(...)` -/
def addWorkerManagerSocket (created : Option SocketState) (start : Start) (s : State) : State :=
  let s := createSocket created s
  let s := postDelayed (start.workerOnTimer + 3000) .workerOnTimer s
  let s := postDelayed (start.logOnTimer + 60000) .logOnTimer s
  postDelayed (start.bandwidthGet + 500) .bandwidthGet s

/-- `sendMessage(pv, cb)` -/
def sendMessage (m : Message) (pv : List UInt8) (res : Int) (s : State) : State :=
  match s.socket with
  | none => s
  | some i =>
    if (s.sockets[i]?).map Socket.state = some .connected then update i (Socket.send m pv res) s else s

/-- The message is marshalled, packed and passed on. -/
def say (m : Message) (res : Int) (s : State) : Option State :=
  (frameOf P.S (m.json P.pid)).map fun pv => sendMessage m pv res s

/-- `sendConnectMsg` -/
def sendConnectMsg (now res : Int) (s : State) : Option State := say P (.connect now) res s

/-- `sendPingMsg`: `none` where the workload was never set. -/
def sendPingMsg (now res : Int) (s : State) : Option State :=
  s.workload.bind fun w => say P (.ping w now) res s

/-- A round of a loop of the parser takes a character or goes a level down.  This is more than there
    are in any text that is read. -/
def textFuel : Nat := 8 * 1024 * 1024

/-- `OnWorkerManagerPacket`, for the socket that calls. -/
def onRead (r : Read) (memory : Memory) (now res : Int) (s : State) : Option State :=
  (answer P.double textFuel memory ⟨now, P.udpport, P.tcpport⟩ r).bind fun said =>
    match said with
    | none => some s
    | some m => say P m res s

/-- `OnSocketClose(socket)` -/
def onSocketClose (i : Nat) (s : State) : Option State :=
  -- RTC_DCHECK(socket == socket_)
  if s.socket = some i then some (update i (Socket.setState .closed) s) else none

/-- The socket in the case `MSG_WORKER_ONTIMER`; `reconnect` is what `Connect` makes of its state. -/
def onWorkerTimer (created reconnect : Option SocketState) (now res : Int) (s : State) :
    Option State :=
  match s.socket with
  | none => some (createSocket created s)
  | some i =>
    match (s.sockets[i]?).map Socket.state with
    | some .connected => sendPingMsg P now res s
    | some .closed => some (createSocket created s)
    | some .connecting =>
      match reconnect with
      | none => some s
      | some state => sendPingMsg P now res (update i (Socket.setState state) s)
    | none => none

/-- `OnMessage(msg)` -/
def onMessage (t : Timer) (created reconnect : Option SocketState) (w : Workload) (now res : Int)
    (s : State) : Option State :=
  match t with
  | .workerOnTimer => (onWorkerTimer P created reconnect now res s).map fun s =>
      postDelayed (now + 3000) t (clear t s)
  | .bandwidthGet => some (postDelayed (now + 500) t (clear t { s with workload := some w }))
  | .logOnTimer => some (postDelayed (now + 60000) t (clear t s))

/-! ## Runs -/

/-- What happens to the connection. -/
inductive Input
  /-- the thread takes the message that is due -/
  | timer (created reconnect : Option SocketState) (w : Workload) (now res : Int)
  | connect (i : Nat) (now res : Int)
  | close (i : Nat)
  | read (i : Nat) (r : Read) (memory : Memory) (now res : Int)
  | writeReady (i : Nat) (res : Int)

/-- The message that the thread takes: the earliest one, of several that which was posted first. -/
def due (s : State) : Option (Int × Timer) :=
  s.posted.find? fun m => s.posted.all fun b => m.1 ≤ b.1

/-- What an input does; `none` where the process does something undefined. -/
def next (s : State) : Input → Option State
  | .timer created reconnect w now res =>
    (due s).bind fun m =>
      onMessage P m.2 created reconnect w now res { s with posted := s.posted.erase m }
  | .connect i now res => sendConnectMsg P now res (update i (Socket.setState .connected) s)
  | .close i => onSocketClose i s
  | .read _ r memory now res => onRead P r memory now res s
  | .writeReady i res => some (update i (Socket.exec (.writeReady res)) s)

/-- The socket is in this state. -/
def Is (i : Nat) (state : SocketState) (s : State) : Prop :=
  (s.sockets[i]?).map Socket.state = some state

/-- A time whose milliseconds a `double` holds. -/
def Clock (now : Int) : Prop := now.natAbs ≤ 2 ^ 53

instance (now : Int) : Decidable (Clock now) := inferInstanceAs (Decidable (now.natAbs ≤ 2 ^ 53))

/-- A read of which it is defined what the handler makes: the text that it announces fits into the input
    buffer of 64 KB, and `cJSON_Parse` does not run past the end of the text, as it does where a string
    ends in a backslash. -/
structure Readable (r : Read) : Prop where
  announced : (textOf r).length ≤ 65536
  defined : ∃ json, received P.double textFuel r = some json

/-- The signals that a socket can give in its state, and the timer when a message is due. -/
def Enabled (s : State) : Input → Prop
  | .timer _ _ _ now _ => (∃ m, due s = some m ∧ m.1 ≤ now) ∧ Clock now
  | .connect i now _ => Is i .connecting s ∧ Clock now
  | .close i => Is i .connecting s ∨ Is i .connected s
  | .read i r _ now _ => Is i .connected s ∧ Clock now ∧ Readable P r
  | .writeReady i _ => Is i .connected s

/-- One step of the connection. -/
def Step (s : State) (i : Input) (t : State) : Prop := Enabled P s i ∧ next P s i = some t

end Code

/-! ## What is said on one socket -/

/-- Whether a message is the report on the start. -/
def Message.IsConnect : Message → Prop
  | .connect _ => True
  | _ => False

section Proofs

variable {P : Program}

/-- A message that can be packed. -/
def Fits (P : Program) (m : Message) : Prop :=
  m.Whole ∧ (toString P.S false (m.json P.pid)).length + 12 ≤ kMaxPacketSize

/-- Nothing is said before the connection is there, and the message of a new connection only first; what
    was said is passed on, and what was taken of it is on its way, whole and in order. -/
structure Socket.Ok (P : Program) (k : Socket) : Prop where
  silent : k.state = .connecting → k.said = []
  once : ∀ m ∈ k.said.tail, ¬ m.IsConnect
  sayable : ∀ m ∈ k.said, Fits P m
  passed : k.stream.passed.map some = k.said.map fun m => frameOf P.S (m.json P.pid)
  whole : k.stream.Whole
  taken : ∀ pv ∈ k.stream.accepted, pv.length ≤ workerMaxPacketSize

/-- A new socket has said nothing. -/
theorem new_ok (state : SocketState) : Socket.Ok P ⟨state, .initial, []⟩ where
  silent _ := rfl
  once := nofun
  sayable := nofun
  passed := rfl
  whole := ⟨List.Sublist.refl _, rfl⟩
  taken := nofun

/-- `Send` takes no packet that is too long. -/
theorem exec_taken {k : Socket} (h : ∀ pv ∈ k.stream.accepted, pv.length ≤ workerMaxPacketSize)
    (op : SendOp) : ∀ pv ∈ (k.exec op).stream.accepted, pv.length ≤ workerMaxPacketSize := by
  have hsends : k.stream.Sends op (k.exec op).stream := Stream.step_sends rfl
  rcases hsends.appended with ⟨kept, hkept, haccepted, -⟩
  rcases hkept with rfl | rfl
  · rwa [haccepted, List.append_nil]
  · rcases hpacket : op.packet with _ | pv
    · rw [haccepted, hpacket, Option.toList_none, List.append_nil]
      exact h
    · by_cases hlong : pv.length > workerMaxPacketSize
      · rw [(hsends.refused pv hpacket hlong).2.2]
        exact h
      · intro pv' hpv'
        rw [haccepted, hpacket, List.mem_append, Option.toList_some, List.mem_singleton] at hpv'
        rcases hpv' with hpv' | rfl
        · exact h pv' hpv'
        · exact Nat.le_of_not_lt hlong

/-- Flushing more bytes leaves a socket in order. -/
theorem Socket.Ok.writeReady {k : Socket} (h : k.Ok P) (res : Int) : (k.exec (.writeReady res)).Ok P where
  silent := h.silent
  once := h.once
  sayable := h.sayable
  passed := by
    show (k.stream.passed ++ []).map some = _
    rw [List.append_nil]
    exact h.passed
  whole := Stream.step_whole h.whole rfl
  taken := exec_taken h.taken _

/-- Sending a message that fits leaves an open socket in order. -/
theorem Socket.Ok.send {k : Socket} (h : k.Ok P) (hstate : k.state = .connected) {m : Message}
    (hm : Fits P m) (hconnect : m.IsConnect → k.said = []) {pv : List UInt8}
    (hpv : frameOf P.S (m.json P.pid) = some pv) (res : Int) : (k.send m pv res).Ok P where
  silent := by
    intro hconnecting
    have hstate' : k.state = .connecting := hconnecting
    rw [hstate] at hstate'
    cases hstate'
  once := by
    -- the first message may be the connect message, and none behind it is one
    show ∀ m' ∈ (k.said ++ [m]).tail, ¬ m'.IsConnect
    intro m' hm'
    rcases hsaid : k.said with _ | ⟨first, rest⟩
    · rw [hsaid] at hm'
      cases hm'
    · rw [hsaid, List.cons_append, List.tail_cons, List.mem_append, List.mem_singleton] at hm'
      rcases hm' with hm' | rfl
      · exact h.once m' (by rwa [hsaid, List.tail_cons])
      · intro his
        rw [hconnect his] at hsaid
        cases hsaid
  sayable := by
    show ∀ m' ∈ k.said ++ [m], Fits P m'
    intro m' hm'
    rcases List.mem_append.mp hm' with hm' | hm'
    · exact h.sayable m' hm'
    · rw [List.mem_singleton.mp hm']
      exact hm
  passed := by
    show (k.stream.passed ++ [pv]).map some = (k.said ++ [m]).map _
    rw [List.map_append, List.map_append, h.passed, List.map_singleton, List.map_singleton, hpv]
  whole := Stream.step_whole h.whole rfl
  taken := exec_taken h.taken (.send pv res)

/-- A change of state leaves a socket in order, if it does not undo the connect. -/
theorem Socket.Ok.setState {k : Socket} (h : k.Ok P) {state : SocketState}
    (hstate : state ≠ .connecting ∨ k.said = []) : (k.setState state).Ok P where
  silent := by
    intro hconnecting
    rcases hstate with hstate | hsaid
    · exact absurd hconnecting hstate
    · exact hsaid
  once := h.once
  sayable := h.sayable
  passed := h.passed
  whole := h.whole
  taken := h.taken

/-- **What is heard.**  The bytes sent so far begin the frames of some of the messages, in order; each of
    these frames, once it has arrived and is read in one piece, is the message. -/
structure Socket.Heard (P : Program) (k : Socket) (heard : List Message)
    (frames : List (List UInt8)) : Prop where
  sublist : heard.Sublist k.said
  framed : (heard.map fun m => frameOf P.S (m.json P.pid)) = frames.map some
  sent : k.stream.wire <+: frames.flatten
  delivered : ∀ m ∈ heard, Delivered P.double P.S (m.json P.pid)

/-- What was said on a socket that is in order is heard. -/
theorem Socket.Ok.heard {k : Socket} (h : k.Ok P) : ∃ heard frames, k.Heard P heard frames := by
  have hsub : (k.stream.accepted.map some).Sublist
      (k.said.map fun m => frameOf P.S (m.json P.pid)) := by
    rw [← h.passed]
    exact h.whole.sublist.map some
  rcases List.sublist_map_iff.mp hsub with ⟨heard, hheard, heq⟩
  refine ⟨heard, k.stream.accepted, hheard, heq.symm, ⟨_, h.whole.stream⟩, fun m hm => ?_⟩
  rcases h.sayable m (hheard.subset hm) with ⟨hwhole, hroom⟩
  rcases Message.delivered P.prints P.reads hwhole hroom with ⟨pv, hpv, -, hdelivered⟩
  have hmem : some pv ∈ k.stream.accepted.map some := by
    rw [heq, ← hpv]
    exact List.mem_map_of_mem hm
  rcases List.mem_map.mp hmem with ⟨pv', hpv', hsome⟩
  cases hsome
  exact hdelivered (h.taken pv hpv')

/-! ## One socket is open -/

/-- Every socket is in order, and only `socket_` is open. -/
structure SocketsOk (P : Program) (s : State) : Prop where
  ok : ∀ (i : Nat) (k : Socket), s.sockets[i]? = some k → k.Ok P
  /-- an open socket is `socket_` -/
  single : ∀ i state, Is i state s → state ≠ .closed → s.socket = some i
  current : ∀ i, s.socket = some i → ∃ state, Is i state s

/-- The state of a socket, spelled out. -/
theorem is_iff {i : Nat} {state : SocketState} {s : State} :
    Is i state s ↔ ∃ k, s.sockets[i]? = some k ∧ k.state = state := Option.map_eq_some_iff

/-- A socket has one state. -/
theorem Is.unique {i : Nat} {state state' : SocketState} {s : State} (h : Is i state s)
    (h' : Is i state' s) : state = state' := Option.some.inj (h.symm.trans h')

/-- The socket that changes. -/
theorem update_self (i : Nat) (f : Socket → Socket) (s : State) :
    (update i f s).sockets[i]? = (s.sockets[i]?).map f := List.getElem?_modify_eq f i s.sockets

/-- The sockets that do not change. -/
theorem update_ne {i j : Nat} (h : j ≠ i) (f : Socket → Socket) (s : State) :
    (update i f s).sockets[j]? = s.sockets[j]? := List.getElem?_modify_ne f s.sockets (Ne.symm h)

/-- A change of a socket that does not open another one. -/
theorem SocketsOk.update {s : State} (h : SocketsOk P s) {i : Nat} {f : Socket → Socket}
    (hf : ∀ k, s.sockets[i]? = some k → k.Ok P → (f k).Ok P)
    (hopen : ∀ k, s.sockets[i]? = some k → (f k).state ≠ .closed → k.state ≠ .closed) :
    SocketsOk P (update i f s) where
  ok := by
    intro j k hk
    -- only socket `i` changes
    by_cases hj : j = i
    · subst hj
      rw [update_self] at hk
      rcases Option.map_eq_some_iff.mp hk with ⟨k₀, hk₀, rfl⟩
      exact hf k₀ hk₀ (h.ok j k₀ hk₀)
    · rw [update_ne hj] at hk
      exact h.ok j k hk
  single := by
    intro j state his hstate
    rcases is_iff.mp his with ⟨k, hk, rfl⟩
    by_cases hj : j = i
    · subst hj
      rw [update_self] at hk
      rcases Option.map_eq_some_iff.mp hk with ⟨k₀, hk₀, rfl⟩
      exact h.single j k₀.state (is_iff.mpr ⟨k₀, hk₀, rfl⟩) (hopen k₀ hk₀ hstate)
    · rw [update_ne hj] at hk
      exact h.single j k.state (is_iff.mpr ⟨k, hk, rfl⟩) hstate
  current := by
    intro j hj
    rcases h.current j hj with ⟨state, his⟩
    rcases is_iff.mp his with ⟨k, hk, -⟩
    by_cases hji : j = i
    · subst hji
      exact ⟨(f k).state, is_iff.mpr ⟨f k, by rw [update_self, hk]; rfl, rfl⟩⟩
    · exact ⟨k.state, is_iff.mpr ⟨k, by rw [update_ne hji, hk], rfl⟩⟩

/-- A new socket where no other one is open. -/
theorem SocketsOk.createSocket {s : State} (h : SocketsOk P s) (created : Option SocketState)
    (hclosed : ∀ i state, Is i state s → state = .closed) : SocketsOk P (createSocket created s) := by
  rcases created with _ | state
  · exact h
  -- the new socket comes behind the others
  have hnew : ∀ i k, (s.sockets ++ [⟨state, .initial, []⟩])[i]? = some k →
      s.sockets[i]? = some k ∨ (i = s.sockets.length ∧ k = ⟨state, .initial, []⟩) := by
    intro i k hk
    rw [List.getElem?_append] at hk
    split at hk
    · exact Or.inl hk
    · next hge =>
      rcases List.getElem?_eq_some_iff.mp hk with ⟨hlt, heq⟩
      rw [List.length_singleton] at hlt
      refine Or.inr ⟨by omega, ?_⟩
      rw [← heq, List.getElem_singleton]
  refine ⟨?_, ?_, ?_⟩
  · intro i k hk
    rcases hnew i k hk with hk | ⟨-, rfl⟩
    · exact h.ok i k hk
    · exact new_ok state
  · intro i state' his hstate
    rcases is_iff.mp his with ⟨k, hk, rfl⟩
    rcases hnew i k hk with hk | ⟨rfl, -⟩
    · exact absurd (hclosed i k.state (is_iff.mpr ⟨k, hk, rfl⟩)) hstate
    · rfl
  · rintro i ⟨rfl⟩
    refine ⟨state, is_iff.mpr ⟨⟨state, .initial, []⟩, ?_, rfl⟩⟩
    show (s.sockets ++ [_])[s.sockets.length]? = _
    rw [List.getElem?_append_right (Nat.le_refl _), Nat.sub_self]
    rfl

/-- Between the two states the messages have been said on the socket, and the others are as they were. -/
def Said (i : Nat) (ms : List Message) (s t : State) : Prop :=
  (t.sockets[i]?).map Socket.said = (s.sockets[i]?).map (fun k => k.said ++ ms) ∧
    ∀ j, j ≠ i → t.sockets[j]? = s.sockets[j]?

/-- Nothing changes but the sockets. -/
def SameQueue (s t : State) : Prop := t.posted = s.posted ∧ t.workload = s.workload

theorem connect_fits (P : Program) {now : Int} (hnow : Clock now) : Fits P (.connect now) :=
  ⟨hnow, Nat.le_trans (Nat.add_le_add_right (connect_short P.prints P.pid hnow) 12) (by decide)⟩

theorem ping_fits (P : Program) (w : Workload) {now : Int} (hnow : Clock now) : Fits P (.ping w now) :=
  ⟨hnow, Nat.le_trans (Nat.add_le_add_right (ping_short P.prints w hnow) 12) (by decide)⟩

/-- A message that fits is said. -/
theorem say_eq {m : Message} (hm : Fits P m) (res : Int) (s : State) :
    ∃ pv, frameOf P.S (m.json P.pid) = some pv ∧ say P m res s = some (sendMessage m pv res s) := by
  rcases Message.delivered P.prints P.reads hm.1 hm.2 with ⟨pv, hpv, -, -⟩
  exact ⟨pv, hpv, by rw [say, hpv]; rfl⟩

/-- Where a socket is connected, a message goes there. -/
theorem SocketsOk.say {s : State} (h : SocketsOk P s) {i : Nat} (his : Is i .connected s) {m : Message}
    (hm : Fits P m) (hconnect : m.IsConnect → ∀ k, s.sockets[i]? = some k → k.said = []) (res : Int) :
    ∃ t, say P m res s = some t ∧ SocketsOk P t ∧ SameQueue s t ∧ Said i [m] s t := by
  rcases say_eq hm res s with ⟨pv, hpv, hsay⟩
  have hsocket := h.single i _ his (by decide)
  have hsend : sendMessage m pv res s = Worker.update i (Socket.send m pv res) s := by
    rw [sendMessage, hsocket]
    exact if_pos his
  -- the packet can be packed, and it goes to the current socket, which is connected
  refine ⟨_, hsay, ?_, ?_, ?_⟩
  · rw [hsend]
    refine h.update (fun k hk hok => ?_) fun k _ hopen => hopen
    have hstate : k.state = .connected := by
      rcases is_iff.mp his with ⟨k', hk', hstate⟩
      rw [hk] at hk'
      cases hk'
      exact hstate
    exact hok.send hstate hm (fun hc => hconnect hc k hk) hpv res
  · rw [hsend]
    exact ⟨rfl, rfl⟩
  · rw [hsend]
    refine ⟨?_, fun j hj => update_ne hj _ s⟩
    rw [update_self, Option.map_map]
    rfl

/-- Where none is, nothing is sent. -/
theorem say_none {s : State} (h : ∀ i, ¬ Is i .connected s) {m : Message} (hm : Fits P m) (res : Int) :
    say P m res s = some s := by
  rcases say_eq hm res s with ⟨pv, -, hsay⟩
  rw [hsay, sendMessage]
  rcases s.socket with _ | i
  · rfl
  · exact congrArg some (if_neg (h i))

/-! ## The queue -/

/-- Of each timer there is one message, and the counters are set before they are used. -/
structure QueueOk (s : State) : Prop where
  once : (s.posted.map Prod.snd).Nodup
  all : ∀ t, t ∈ s.posted.map Prod.snd
  measured : s.workload = none → ∀ m ∈ s.posted, m.2 ≠ .bandwidthGet → ∃ b ∈ s.posted, b.1 < m.1

/-- The same queue is in order. -/
theorem QueueOk.same {s t : State} (h : QueueOk s) (hst : SameQueue s t) : QueueOk t := by
  rcases s with ⟨_, _, workload, posted⟩
  rcases t with ⟨_, _, workload', posted'⟩
  rcases hst with ⟨rfl, rfl⟩
  exact ⟨h.once, h.all, h.measured⟩

/-- The message is taken, and posted anew. -/
theorem QueueOk.repost {s t : State} (h : QueueOk s) {m : Int × Timer} (d : Int)
    (hposted : t.posted = ((s.posted.erase m).filter fun x => x.2 ≠ m.2) ++ [(d, m.2)])
    (hworkload : t.workload ≠ none) : QueueOk t where
  -- the message taken off the queue is posted once more, with a new date
  once := by
    have hsub : ((s.posted.erase m).filter fun x => x.2 ≠ m.2).Sublist s.posted :=
      List.filter_sublist.trans List.erase_sublist
    rw [hposted, List.map_append, List.map_singleton, List.nodup_append]
    refine ⟨h.once.sublist (hsub.map Prod.snd), List.nodup_singleton _, ?_⟩
    rintro x hx y hy rfl
    rcases List.mem_map.mp hx with ⟨m', hm', rfl⟩
    exact of_decide_eq_true (List.mem_filter.mp hm').2 (List.mem_singleton.mp hy)
  all := by
    intro x
    rw [hposted, List.map_append, List.mem_append, List.map_singleton, List.mem_singleton]
    -- the timer itself is posted again, and the other two are still there
    by_cases hx : x = m.2
    · exact Or.inr hx
    · rcases List.mem_map.mp (h.all x) with ⟨m', hm', rfl⟩
      have hne : m' ≠ m := fun heq => hx (congrArg Prod.snd heq)
      exact Or.inl (List.mem_map_of_mem (List.mem_filter.mpr
        ⟨(List.mem_erase_of_ne hne).mpr hm', decide_eq_true hx⟩))
  measured := fun hnone => absurd hnone hworkload

/-- What is due first is the message that sets the counters, unless they are set. -/
theorem QueueOk.due_measured {s : State} (h : QueueOk s) {m : Int × Timer} (hdue : due s = some m)
    (hm : m.2 ≠ .bandwidthGet) : ∃ w, s.workload = some w := by
  rcases hworkload : s.workload with _ | w
  · rcases h.measured hworkload m (List.mem_of_find?_eq_some hdue) hm with ⟨b, hb, hlt⟩
    have hfound : (s.posted.all fun b => decide (m.1 ≤ b.1)) = true := by
      have hsome := (List.find?_eq_some_iff_append.mp hdue).1
      exact hsome
    have hleast := of_decide_eq_true (List.all_eq_true.mp hfound b hb)
    exact absurd hlt (Int.not_lt.mpr hleast)
  · exact ⟨w, rfl⟩

/-! ## One input -/

/-- The invariant: sockets and queue are in order. -/
structure Inv (P : Program) (s : State) : Prop where
  sockets : SocketsOk P s
  queue : QueueOk s

/-- No socket is open. -/
def NoneOpen (s : State) : Prop := ∀ i state, Is i state s → state = .closed

/-- The worker's timer pings the connection that is there, and replaces one that is not. -/
structure Tends (created : Option SocketState) (now : Int) (s t : State) : Prop where
  pings : ∀ i, Is i .connected s → ∃ w, s.workload = some w ∧ Said i [.ping w now] s t
  replaces : NoneOpen s → ∀ state, created = some state → Is s.sockets.length state t

/-- A new socket has the state that creating it gave. -/
theorem createSocket_new (s : State) (state : SocketState) :
    Is s.sockets.length state (createSocket (some state) s) := by
  refine is_iff.mpr ⟨⟨state, .initial, []⟩, ?_, rfl⟩
  show (s.sockets ++ [_])[s.sockets.length]? = _
  rw [List.getElem?_append_right (Nat.le_refl _), Nat.sub_self]
  rfl

theorem createSocket_same (created : Option SocketState) (s : State) :
    SameQueue s (createSocket created s) := by
  cases created <;> exact ⟨rfl, rfl⟩

/-- A socket is created only where none is open. -/
theorem SocketsOk.replace {s : State} (h : SocketsOk P s) (created : Option SocketState) (now : Int)
    (hnone : NoneOpen s) : SocketsOk P (Worker.createSocket created s) ∧
      SameQueue s (Worker.createSocket created s) ∧
      Tends created now s (Worker.createSocket created s) := by
  refine ⟨h.createSocket created hnone, createSocket_same created s, ⟨fun i his => ?_, ?_⟩⟩
  · cases hnone i _ his
  · rintro - state rfl
    exact createSocket_new s state

/-- A socket that is connecting may get any state, as nothing has been said on it. -/
theorem SocketsOk.setState_connecting {s : State} (h : SocketsOk P s) {i : Nat}
    (his : Is i .connecting s) (state : SocketState) :
    SocketsOk P (Worker.update i (Socket.setState state) s) := by
  rcases is_iff.mp his with ⟨k, hk, hstate⟩
  refine h.update (fun k' hk' hok => ?_) fun k' hk' _ => ?_
  · cases hk.symm.trans hk'
    exact hok.setState (Or.inr (hok.silent hstate))
  · cases hk.symm.trans hk'
    rw [hstate]
    decide

/-- The timer tells the workload on an open socket, and connects again where there is none. -/
theorem onWorkerTimer_spec {s : State} (h : SocketsOk P s) {w : Workload} (hw : s.workload = some w)
    (created reconnect : Option SocketState) {now : Int} (hnow : Clock now) (res : Int) :
    ∃ t, onWorkerTimer P created reconnect now res s = some t ∧ SocketsOk P t ∧ SameQueue s t ∧
      Tends created now s t := by
  rw [onWorkerTimer]
  -- no socket, a closed one, a connected one, or one that is still connecting
  rcases hsocket : s.socket with _ | i
  · refine ⟨_, rfl, h.replace created now fun i state his => ?_⟩
    by_contra hopen
    rw [h.single i state his hopen] at hsocket
    cases hsocket
  · rcases h.current i hsocket with ⟨state, his⟩
    have hstate : (s.sockets[i]?).map Socket.state = some state := his
    -- the others are closed, since only the current one may be open
    have honly : ∀ j state', Is j state' s → state' ≠ .closed → j = i := fun j state' hj hopen => by
      rw [h.single j state' hj hopen] at hsocket
      exact Option.some.inj hsocket
    simp only [hstate]
    cases state with
    | closed =>
      refine ⟨_, rfl, h.replace created now fun j state' hj => ?_⟩
      by_contra hopen
      cases honly j state' hj hopen
      exact hopen (hj.unique his)
    | connected =>
      rcases h.say his (ping_fits P w hnow) False.elim res with ⟨t, hsay, hok, hsame, hsaid⟩
      refine ⟨t, ?_, hok, hsame, fun j hj => ?_, fun hnone => ?_⟩
      · rw [sendPingMsg, hw]
        exact hsay
      · cases honly j _ hj (by decide)
        exact ⟨w, hw, hsaid⟩
      · cases hnone i _ his
    | connecting =>
      have hquiet : ∀ t, Tends created now s t := fun t => by
        refine ⟨fun j hj => ?_, fun hnone => ?_⟩
        · cases honly j _ hj (by decide)
          cases hj.unique his
        · cases hnone i _ his
      -- the connect may succeed at once, and then the ping goes out on this socket
      rcases reconnect with _ | state
      · exact ⟨s, rfl, h, ⟨rfl, rfl⟩, hquiet s⟩
      · have hok := h.setState_connecting his state
        have hworkload : (update i (Socket.setState state) s).workload = some w := hw
        show ∃ t, sendPingMsg P now res _ = some t ∧ _
        rw [sendPingMsg, hworkload, Option.bind_some]
        by_cases hconnected : ∃ j, Is j .connected (update i (Socket.setState state) s)
        · rcases hconnected with ⟨j, hj⟩
          rcases hok.say hj (ping_fits P w hnow) False.elim res with ⟨t, hsay, ht, hsame, -⟩
          exact ⟨t, hsay, ht, hsame, hquiet t⟩
        · rw [not_exists] at hconnected
          exact ⟨_, say_none hconnected (ping_fits P w hnow) res, hok, ⟨rfl, rfl⟩, hquiet _⟩

/-- Readable is every frame of a JSON text that is read in one piece. -/
theorem readable_of_text {r : Read} {f : CommFrame} {q : Value} (hr : r.bytes = f.frame)
    (hf : Text P.double f.json q) (hshort : f.json.length < 2 ^ 32) : Readable P r := by
  have htext := textOf_comm hr hshort
  have hlen : f.json.length ≤ 65536 := by
    have hle := f.text_le
    rw [(writtenText_eq_iff _).mpr hshort, ← hr] at hle
    exact Nat.le_trans hle r.length_le
  refine ⟨htext ▸ hlen, some q, received_text hr hf hshort ?_⟩
  exact Nat.lt_of_le_of_lt hlen (by decide)

/-- What is said in return can be packed, and is no message of a new connection. -/
theorem answer_fits {r : Read} (h : Readable P r) (memory : Memory) {now : Int} (hnow : Clock now) :
    ∃ said, answer P.double textFuel memory ⟨now, P.udpport, P.tcpport⟩ r = some said ∧
      ∀ m ∈ said, Fits P m ∧ ¬ m.IsConnect := by
  rcases h with ⟨hlen, json, hjson⟩
  refine ⟨_, by rw [answer, hjson, Option.map_some], fun m hm => ?_⟩
  rcases Option.map_eq_some_iff.mp hm with ⟨resp, hresp, rfl⟩
  rcases onWorkerManagerPacket_some hresp with ⟨q, rfl, hrespond⟩
  have hclock : (⟨now, P.udpport, P.tcpport⟩ : Surroundings).timeMillis.natAbs ≤ 2 ^ 53 := hnow
  have hq := received_canonical hjson
  rcases respond_portable hq memory hclock with ⟨resp', hresp', hportable⟩
  rw [hrespond] at hresp'
  cases hresp'
  -- the strings of the response are those of a text of 64 KB, each character written as six at most
  have hroom : (toString P.S false (some resp)).length + 12 ≤ kMaxPacketSize := by
    have hshort := respond_short P.prints hq (parse_strings_le hjson) memory hclock
    rw [hrespond, List.length_append, List.length_singleton] at hshort
    rw [kMaxPacketSize]
    omega
  exact ⟨⟨hportable, hroom⟩, False.elim⟩

/-- What is said, and where. -/
def Reacts (P : Program) (s : State) : Input → State → Prop
  | .timer created _ _ now _, t => ∀ m, due s = some m → m.2 = .workerOnTimer → Tends created now s t
  | .connect i now _, t => (t.sockets[i]?).map Socket.said = some [.connect now] ∧
      ∀ j, j ≠ i → t.sockets[j]? = s.sockets[j]?
  | .close i, t => Is i .closed t
  | .read i r memory now _, t => ∃ said,
      answer P.double textFuel memory ⟨now, P.udpport, P.tcpport⟩ r = some said ∧
        Said i said.toList s t
  | .writeReady _ _, _ => True

/-- The timer that is due goes through, and reacts as it should. -/
theorem timer_spec {s : State} (h : Inv P s) (created reconnect : Option SocketState) (w : Workload)
    {now : Int} (hdue : ∃ m, due s = some m) (hnow : Clock now) (res : Int) :
    ∃ t, next P s (.timer created reconnect w now res) = some t ∧ Inv P t ∧
      Reacts P s (.timer created reconnect w now res) t := by
  rcases hdue with ⟨m, hm⟩
  have hsockets : SocketsOk P { s with posted := s.posted.erase m } :=
    ⟨h.sockets.ok, h.sockets.single, h.sockets.current⟩
  have hreacts : ∀ t, (m.2 = .workerOnTimer → Tends created now s t) →
      Reacts P s (.timer created reconnect w now res) t := by
    intro t ht m' hm'
    rw [hm] at hm'
    cases hm'
    exact ht
  rw [next, hm, Option.bind_some]
  -- the three timers; each of them posts itself again
  rcases htimer : m.2 with _ | _ | _
  -- the workload was measured before, since `bandwidthGet` came first
  · rcases h.queue.due_measured hm (by rw [htimer]; decide) with ⟨w', hw'⟩
    rcases onWorkerTimer_spec hsockets hw' created reconnect hnow res with
      ⟨t, ht, hok, ⟨hposted, hworkload⟩, hpings, hreplaces⟩
    refine ⟨postDelayed (now + 3000) .workerOnTimer (clear .workerOnTimer t),
      by rw [onMessage, ht]; rfl, ⟨⟨hok.ok, hok.single, hok.current⟩, ?_⟩,
      hreacts _ fun _ => ⟨hpings, hreplaces⟩⟩
    refine h.queue.repost (m := m) (now + 3000) ?_ ?_
    · show (t.posted.filter fun x => x.2 ≠ .workerOnTimer) ++ _ = _
      rw [hposted, htimer]
    · show t.workload ≠ none
      rw [hworkload]
      exact hw' ▸ Option.some_ne_none w'
  · refine ⟨_, rfl, ⟨⟨hsockets.ok, hsockets.single, hsockets.current⟩, ?_⟩,
      hreacts _ fun hworker => ?_⟩
    · refine h.queue.repost (m := m) (now + 500) ?_ (Option.some_ne_none w)
      rw [htimer]
      rfl
    · rw [htimer] at hworker
      cases hworker
  · rcases h.queue.due_measured hm (by rw [htimer]; decide) with ⟨w', hw'⟩
    refine ⟨_, rfl, ⟨⟨hsockets.ok, hsockets.single, hsockets.current⟩, ?_⟩,
      hreacts _ fun hworker => ?_⟩
    · refine h.queue.repost (m := m) (now + 60000) ?_ ?_
      · rw [htimer]
        rfl
      · show s.workload ≠ none
        exact hw' ▸ Option.some_ne_none w'
    · rw [htimer] at hworker
      cases hworker

/-- A socket that connects is told about the start. -/
theorem connect_spec {s : State} (h : Inv P s) {i : Nat} (his : Is i .connecting s) {now : Int}
    (hnow : Clock now) (res : Int) :
    ∃ t, next P s (.connect i now res) = some t ∧ Inv P t ∧ Reacts P s (.connect i now res) t := by
  rcases is_iff.mp his with ⟨k, hk, hstate⟩
  -- a socket that was connecting has said nothing, so the connect message is its first
  have hsilent := (h.sockets.ok i k hk).silent hstate
  have hself : (update i (Socket.setState .connected) s).sockets[i]? = some (k.setState .connected) := by
    rw [update_self, hk]
    rfl
  have hok := h.sockets.setState_connecting his .connected
  have his' : Is i .connected (update i (Socket.setState .connected) s) :=
    is_iff.mpr ⟨_, hself, rfl⟩
  have hconnect : ∀ k', (update i (Socket.setState .connected) s).sockets[i]? = some k' →
      k'.said = [] := fun k' hk' => by
    rw [hself] at hk'
    cases hk'
    exact hsilent
  rcases hok.say his' (connect_fits P hnow) (fun _ => hconnect) res with
    ⟨t, hsay, hok', hsame, hsaid, hothers⟩
  refine ⟨t, hsay, ⟨hok', h.queue.same hsame⟩, ?_, fun j hj => ?_⟩
  · rw [hsaid, hself]
    show some (k.said ++ _) = _
    rw [hsilent]
    rfl
  · rw [hothers j hj, update_ne hj]

/-- Every enabled input goes through, keeps the invariant and reacts as it should. -/
theorem next_spec {s : State} (h : Inv P s) {i : Input} (he : Enabled P s i) :
    ∃ t, next P s i = some t ∧ Inv P t ∧ Reacts P s i t := by
  -- one step lemma for each input
  cases i with
  | timer created reconnect w now res =>
    rcases he with ⟨⟨m, hm, -⟩, hnow⟩
    exact timer_spec h created reconnect w ⟨m, hm⟩ hnow res
  | connect i now res => exact connect_spec h he.1 he.2 res
  | close i =>
    have hopen : ∃ state, Is i state s ∧ state ≠ .closed := by
      rcases he with his | his
      · exact ⟨_, his, by decide⟩
      · exact ⟨_, his, by decide⟩
    rcases hopen with ⟨state, his, hne⟩
    rcases is_iff.mp his with ⟨k, hk, -⟩
    refine ⟨_, if_pos (h.sockets.single i state his hne), ⟨?_, h.queue.same ⟨rfl, rfl⟩⟩, ?_⟩
    · exact h.sockets.update (fun k hk hok => hok.setState (Or.inl (by decide)))
        fun k hk hclosed => absurd rfl hclosed
    · refine is_iff.mpr ⟨k.setState .closed, ?_, rfl⟩
      rw [update_self, hk]
      rfl
  | read i r memory now res =>
    rcases he with ⟨his, hnow, hreadable⟩
    rcases answer_fits hreadable memory hnow with ⟨said, hanswer, hfits⟩
    rw [next, onRead, hanswer, Option.bind_some]
    -- the packet is answered, or it is none of ours
    rcases said with _ | m
    · refine ⟨s, rfl, h, none, hanswer, ?_, fun _ _ => rfl⟩
      simp
    · rcases hfits m rfl with ⟨hm, hnot⟩
      rcases h.sockets.say his hm (fun hc => absurd hc hnot) res with ⟨t, hsay, hok, hsame, hsaid⟩
      exact ⟨t, hsay, ⟨hok, h.queue.same hsame⟩, some m, hanswer, hsaid⟩
  | writeReady i res =>
    refine ⟨_, rfl, ⟨?_, h.queue.same ⟨rfl, rfl⟩⟩, trivial⟩
    exact h.sockets.update (fun k _ hok => hok.writeReady res) fun _ _ hopen => hopen

/-! ## Runs -/

/-- After the start the invariant holds. -/
theorem start_inv (created : Option SocketState) (start : Start) :
    Inv P (addWorkerManagerSocket created start .constructed) := by
  have hnew : SocketsOk P .constructed := ⟨nofun, nofun, nofun⟩
  have hok := hnew.createSocket created nofun
  refine ⟨⟨hok.ok, hok.single, hok.current⟩, ?_⟩
  rcases start with ⟨now₁, now₂, now₃, hordered, hprompt⟩
  have hposted : (addWorkerManagerSocket created ⟨now₁, now₂, now₃, hordered, hprompt⟩
      .constructed).posted =
      [(now₁ + 3000, .workerOnTimer), (now₂ + 60000, .logOnTimer), (now₃ + 500, .bandwidthGet)] := by
    cases created <;> rfl
  refine ⟨?_, ?_, fun _ m hm hne => ⟨(now₃ + 500, .bandwidthGet), ?_, ?_⟩⟩
  · rw [hposted]
    show [Timer.workerOnTimer, .logOnTimer, .bandwidthGet].Nodup
    decide
  · rw [hposted]
    intro t
    show t ∈ [Timer.workerOnTimer, .logOnTimer, .bandwidthGet]
    cases t <;> decide
  · rw [hposted]
    simp
  · rw [hposted] at hm
    simp only [List.mem_cons, List.not_mem_nil, or_false] at hm
    -- `bandwidthGet` is due before the two others
    rcases hm with rfl | rfl | rfl
    · show now₃ + 500 < now₁ + 3000
      omega
    · show now₃ + 500 < now₂ + 60000
      omega
    · exact absurd rfl hne

section Run

variable {created : Option SocketState} {start : Start} {ts : List (State × Input × State)} {s : State}

/-- The invariant holds in every state of a run. -/
theorem run_inv (hrun : Run (Step P) (addWorkerManagerSocket created start .constructed) ts s) :
    Inv P s ∧ ∀ x ∈ ts, Inv P x.1 ∧ Inv P x.2.2 := by
  refine Run.invariant (fun s i t hs hst => ?_) hrun (start_inv created start)
  rcases next_spec hs hst.1 with ⟨t', ht', hinv, -⟩
  rw [hst.2] at ht'
  cases ht'
  exact hinv

section Sample

/-- The program, on plain integers. -/
def sampleProgram : Program :=
  ⟨.whole, wholeDouble, 77, 3478, 3478, whole_printsIntegers, wholeDouble_readsIntegers⟩

/-- All three timers are posted at the time 0. -/
def sampleStart : State :=
  addWorkerManagerSocket (some .connecting) ⟨0, 0, 0, by decide, by decide⟩ .constructed

/-- The counters are set after half a second. -/
def sampleMeasured : State :=
  ⟨[⟨.connecting, .initial, []⟩], some 0, some ⟨1, 2, 3⟩,
    [(3000, .workerOnTimer), (60000, .logOnTimer), (1000, .bandwidthGet)]⟩

theorem sample_measured :
    Step sampleProgram sampleStart (.timer none none ⟨1, 2, 3⟩ 500 0) sampleMeasured :=
  ⟨⟨⟨_, rfl, by decide⟩, by decide⟩, rfl⟩

/-- Then the socket connects. -/
theorem sample_run : ∃ t, Run (Step sampleProgram) sampleStart
    [(sampleStart, .timer none none ⟨1, 2, 3⟩ 500 0, sampleMeasured),
      (sampleMeasured, .connect 0 600 200, t)] t ∧
    (t.sockets[0]?).map Socket.said = some [.connect 600] := by
  have hrun := Run.single sample_measured
  have hconnect : Enabled sampleProgram sampleMeasured (.connect 0 600 200) := ⟨rfl, by decide⟩
  rcases next_spec (run_inv hrun).1 hconnect with ⟨t, ht, -, hsaid, -⟩
  exact ⟨t, hrun.snoc ⟨hconnect, ht⟩, hsaid⟩

end Sample

/-- **Nothing fails**: whatever comes next, `socket_` is the socket that closes, the counters of a ping are
    set, and every message can be packed; and each of the timers goes on, once. -/
theorem never_fails (hrun : Run (Step P) (addWorkerManagerSocket created start .constructed) ts s) :
    (∀ i, Enabled P s i → ∃ t, next P s i = some t) ∧
      ∀ t, (s.posted.map Prod.snd).count t = 1 := by
  have hinv := (run_inv hrun).1
  refine ⟨fun i he => ?_, fun t => ?_⟩
  · rcases next_spec hinv he with ⟨t, ht, -⟩
    exact ⟨t, ht⟩
  · exact List.count_eq_one_of_mem hinv.queue.once (hinv.queue.all t)

theorem never_fails_sample : ∃ t, next sampleProgram sampleMeasured (.close 0) = some t ∧
    (sampleMeasured.posted.map Prod.snd).count .workerOnTimer = 1 := by
  rcases never_fails (Run.single sample_measured) with ⟨hnext, htimers⟩
  rcases hnext (.close 0) (Or.inl rfl) with ⟨t, ht⟩
  exact ⟨t, ht, htimers _⟩

/-- **The conversation**: no two connections are open; on each one the message of a new connection is said
    once at most, and first; and the manager hears a part of what is said, message by message. -/
theorem conversation (hrun : Run (Step P) (addWorkerManagerSocket created start .constructed) ts s) :
    (∀ i j state state', Is i state s → Is j state' s → state ≠ .closed → state' ≠ .closed → i = j) ∧
      ∀ (i : Nat) (k : Socket), s.sockets[i]? = some k →
        (∀ m ∈ k.said.tail, ¬ m.IsConnect) ∧ ∃ heard frames, k.Heard P heard frames := by
  have hsockets := (run_inv hrun).1.sockets
  refine ⟨fun i j state state' hi hj hstate hstate' => ?_, fun i k hk => ?_⟩
  · have heq := (hsockets.single i state hi hstate).symm.trans (hsockets.single j state' hj hstate')
    exact Option.some.inj heq
  · have hok := hsockets.ok i k hk
    exact ⟨hok.once, hok.heard⟩

theorem conversation_sample : ∃ (t : State) (k : Socket), t.sockets[0]? = some k ∧
    k.said = [.connect 600] ∧ ∃ heard frames, k.Heard sampleProgram heard frames := by
  rcases sample_run with ⟨t, hrun, hsaid⟩
  rcases Option.map_eq_some_iff.mp hsaid with ⟨k, hk, hk'⟩
  exact ⟨t, k, hk, hk', ((conversation hrun).2 0 k hk).2⟩

end Run

end Proofs

end Worker

end Turnserver
