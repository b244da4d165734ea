/-
  THE TCP CLIENT (`network/tcp_client.cpp`) — one long connection that is kept alive.

  `Connect` makes a `bufferevent` and puts it in `pending_`; when libevent reports that the connection
  is there, `OnConnect` hands it over to a `TcpConnection` (`conn_`), and when it reports an error,
  frees it.  A timer pings, drops a silent connection and tries again.

  * `World` is a client with the state of its callback, and what its asserts cannot see: the
    bufferevents that still report to `ConnectCallback` (`waiting`), the failed asserts, the packets
    that went over each connection.
  * A system call is a Boolean that says whether it succeeds (`Syscalls`).  When
    `bufferevent_socket_connect` fails, it runs the event callback before it returns.
  * An execution of an arbitrary callback is a finite tree of `Call`s: every `Connect` in it carries
    what the callback does if that `Connect` reports a failure from the inside.

  The invariant is `Consistent`.  One kind of callback breaks it: one that answers the failure
  reported from inside `Connect` with another `Connect` that gets under way — the outer `Connect`
  then clears `connecting_` behind its back (`connect_consistent_iff`).
-/
import Turnserver.Base.Unpacker
import Turnserver.Lib.Transition
import Mathlib.Data.Rat.Defs

namespace Turnserver

open Transition

/-! ## The code -/

/-- The events that a bufferevent reports to `ConnectCallback`. -/
inductive BevEvent
  | connected
  | error
  /-- any other bits -/
  | other
deriving DecidableEq

/-- A bufferevent or the connection made of it, by the order of creation. -/
abbrev Bev := Nat

/-- The client.  Seconds are counted by `int32_t`s. -/
structure TcpClient where
  local_port : UInt16
  pending : Option Bev
  conn : Option Bev
  connecting : Bool
  reconnect_timeout : Int
  last_try_ts : Int
  next_try_ts : Int
  backoff : Rat
  next_try_interval : Int
  last_active_ts : Int

/-- Which of the system calls of `Connect` succeed. -/
structure Syscalls where
  socket : Bool
  setNonBlocking : Bool
  bind : Bool
  connect : Bool

/-- What must not happen: an `assert` that fails, a pending bufferevent that is overwritten. -/
inductive Failure
  /-- `ConnectCallback`: `bev == p->pending_` -/
  | otherBufferevent
  /-- `OnConnect`: `pending_ != nullptr` -/
  | noPending
  /-- `OnConnect`: `conn_ == nullptr` -/
  | alreadyConnected
  /-- `OnConnect`: `connecting_` -/
  | notConnecting
  /-- `Close`, with an attempt pending: `conn_ == nullptr` -/
  | closeConnected
  /-- `Close`, without one: `connecting_ == false` -/
  | closeConnecting
  /-- `Connect` assigns to a `pending_` that is not null -/
  | overwritten
deriving DecidableEq

/-- What passes over a connection. -/
inductive Traffic (P : Type)
  | sent (conn : Bev) (p : P)
  | received (conn : Bev) (pkr : Unpacker) (server_type uri : UInt16)

/-- A client, its callback's state, and the world around it. -/
structure World (σ P : Type) where
  client : TcpClient
  user : σ
  /-- how many bufferevents were made -/
  created : Nat
  /-- those that were neither freed nor handed over -/
  waiting : List Bev
  failures : List Failure
  traffic : List (Traffic P)

/-- A `TcpClientCallback`, as what its methods do to the world. -/
structure TcpClientCallback (σ P : Type) where
  onConnect : Bool → World σ P → World σ P
  onPacketReceived : Unpacker → UInt16 → UInt16 → World σ P → World σ P
  onSocketError : World σ P → World σ P
  timeToPing : World σ P → World σ P

namespace TcpClient

/-- `kReconnectTimeout` -/
def kReconnectTimeout : Int := 10

/-- `kShortConnectionInterval` -/
def kShortConnectionInterval : Int := 60

/-- `kMaxTimeout` -/
def kMaxTimeout : Int := 300

/-- `Init` -/
def init (now : Int) (local_port : UInt16) (backoff : Rat) : TcpClient :=
  { local_port := local_port
    pending := none
    conn := none
    connecting := false
    reconnect_timeout := kReconnectTimeout
    last_try_ts := 0
    next_try_ts := 0
    backoff := backoff
    next_try_interval := kReconnectTimeout
    last_active_ts := now }

/-- A number of seconds as an `int32_t`.  (A sum that does not fit is undefined; here it wraps.) -/
def int32 (n : Int) : Int := n.bmod (2 ^ 32)

/-- `SetTimeout`: at least five seconds. -/
def setTimeout (seconds : UInt32) (c : TcpClient) : TcpClient :=
  { c with reconnect_timeout := int32 (max 5 seconds.toNat) }

/-- `SetBackoff` -/
def setBackoff (backoff : Rat) (c : TcpClient) : TcpClient := { c with backoff := backoff }

/-- `IsConnected` -/
def isConnected (c : TcpClient) : Bool := !c.connecting && c.conn.isSome

/-- A `float` as an `int32_t`.  (One that does not fit is undefined; here it is the smallest one.) -/
def truncate (x : Rat) : Int :=
  let n := x.num.tdiv x.den
  if int32 n = n then n else -2 ^ 31

/-- `ScheduleNextTry` -/
def scheduleNextTry (now : Int) (c : TcpClient) : TcpClient :=
  if int32 (c.last_try_ts + kShortConnectionInterval) ≥ now then
    { c with
      next_try_ts := int32 (now + c.next_try_interval)
      next_try_interval := min kMaxTimeout (truncate (c.backoff * c.next_try_interval)) }
  else { c with next_try_interval := c.reconnect_timeout, next_try_ts := 0 }

/-- The schedule of the next try is nobody else's concern. -/
theorem scheduleNextTry_frame (now : Int) (c : TcpClient) :
    (c.scheduleNextTry now).local_port = c.local_port ∧
      (c.scheduleNextTry now).pending = c.pending ∧
      (c.scheduleNextTry now).connecting = c.connecting ∧
      (c.scheduleNextTry now).conn = c.conn := by
  rw [scheduleNextTry]
  split
  · exact ⟨rfl, rfl, rfl, rfl⟩
  · exact ⟨rfl, rfl, rfl, rfl⟩

end TcpClient

namespace World

open TcpClient

variable {σ P : Type}

/-- A change of the client alone. -/
def update (f : TcpClient → TcpClient) (w : World σ P) : World σ P := { w with client := f w.client }

/-- `assert` -/
def require (ok : Bool) (failure : Failure) (w : World σ P) : World σ P :=
  if ok then w else { w with failures := w.failures ++ [failure] }

/-- `bufferevent_free(pending_); pending_ = nullptr;` and, for a bufferevent that is handed over, the
    change of its callbacks. -/
def release (w : World σ P) : World σ P :=
  { w with
    client := { w.client with pending := none }
    waiting := w.waiting.filter fun bev => some bev ≠ w.client.pending }

/-- `Close` -/
def close (w : World σ P) : World σ P :=
  if w.client.pending.isSome then
    ((w.require w.client.conn.isNone .closeConnected).update
      fun c => { c with connecting := false }).release
  else
    (w.require (w.client.connecting == false) .closeConnecting).update
      fun c => { c with conn := none }

/-- `OnConnect` -/
def onConnect (cb : TcpClientCallback σ P) (now : Int) (events : BevEvent) (w : World σ P) :
    World σ P :=
  let w := ((w.require w.client.pending.isSome .noPending).require
    w.client.conn.isNone .alreadyConnected).require w.client.connecting .notConnecting
  let w := w.update fun c => { c with connecting := false }
  match events with
  | .connected =>
    let w := (w.update fun c => { c with conn := c.pending }).release
    cb.onConnect true w
  | .error =>
    let w := (w.update (scheduleNextTry now)).release
    cb.onConnect false w
  | .other => w.update fun c => { c with pending := none }

/-- `ConnectCallback` -/
def connectCallback (cb : TcpClientCallback σ P) (now : Int) (bev : Bev) (events : BevEvent)
    (w : World σ P) : World σ P :=
  onConnect cb now events (w.require (some bev == w.client.pending) .otherBufferevent)

/-- `connecting_ = true; pending_ = bufferevent_socket_new(...);` -/
def newPending (w : World σ P) : World σ P :=
  let w := w.require w.client.pending.isNone .overwritten
  { w with
    client := { w.client with connecting := true, pending := some w.created }
    created := w.created + 1
    waiting := w.waiting ++ [w.created] }

/-- `Connect()`.  A failing `bufferevent_socket_connect` runs the callback with `BEV_EVENT_ERROR`. -/
def connect (cb : TcpClientCallback σ P) (now : Int) (sys : Syscalls) (w : World σ P) :
    World σ P × Bool :=
  if w.client.connecting then (w, true)
  else
    let w := w.update fun c => { c with last_try_ts := now, last_active_ts := now, conn := none }
    if !sys.socket then (w, false)
    else if !sys.setNonBlocking then (w, false)
    else
      let bev := w.created
      let w := w.newPending
      if w.client.local_port ≠ 0 ∧ !sys.bind then
        (w.release.update fun c => { c with connecting := false }, false)
      else if !sys.connect then
        ((w.connectCallback cb now bev .error).update fun c => { c with connecting := false }, false)
      else (w, true)

/-- `SendPacket` -/
def sendPacket (p : P) (w : World σ P) : World σ P × Bool :=
  match w.client.isConnected, w.client.conn with
  | true, some conn => ({ w with traffic := w.traffic ++ [.sent conn p] }, true)
  | _, _ => (w, false)

/-- `OnError` -/
def onError (cb : TcpClientCallback σ P) (now : Int) (w : World σ P) : World σ P :=
  cb.onSocketError (w.update (scheduleNextTry now)).close

/-- `OnPacketReceived` from the connection `conn`. -/
def onPacketReceived (cb : TcpClientCallback σ P) (now : Int) (conn : Bev) (pkr : Unpacker)
    (server_type uri : UInt16) (w : World σ P) : World σ P :=
  let w := w.update fun c => { c with last_active_ts := now }
  cb.onPacketReceived pkr server_type uri
    { w with traffic := w.traffic ++ [.received conn pkr server_type uri] }

/-- The test at the top of `OnTimer`. -/
def silent (now : Int) (w : World σ P) : Bool :=
  w.client.isConnected &&
    decide (int32 (w.client.last_active_ts + w.client.reconnect_timeout) < now)

/-- `OnTimer` -/
def onTimer (cb : TcpClientCallback σ P) (now : Int) (sys : Syscalls) (w : World σ P) : World σ P :=
  if w.silent now then (w.update (scheduleNextTry now)).close
  else if w.client.isConnected then cb.timeToPing w
  else if !w.client.connecting ∧ w.client.next_try_ts ≤ now then (w.connect cb now sys).1
  else w

end World

/-! ## An arbitrary callback -/

/-- A call of the client: by its owner, or by the callback while it is being notified. -/
inductive Call (P : Type)
  /-- `Connect`; the reaction is what the callback does when it is told, from inside this call, that
      the connection failed. -/
  | connect (now : Int) (sys : Syscalls) (reaction : List (Call P))
  | close
  | sendPacket (p : P)
  | setTimeout (seconds : UInt32)
  | setBackoff (backoff : Rat)

/-- The callback that does `reaction` when it is notified, whatever the notification. -/
def TcpClientCallback.doing {σ P : Type} (reaction : World σ P → World σ P) :
    TcpClientCallback σ P :=
  ⟨fun _ => reaction, fun _ _ _ => reaction, reaction, reaction⟩

namespace Call

variable {σ P : Type}

mutual

/-- What a call does; a reaction is again a list of calls. -/
def perform : Call P → World σ P → World σ P
  | .connect now sys reaction, w => (w.connect (.doing (performAll reaction)) now sys).1
  | .close, w => w.close
  | .sendPacket p, w => (w.sendPacket p).1
  | .setTimeout seconds, w => w.update (TcpClient.setTimeout seconds)
  | .setBackoff backoff, w => w.update (TcpClient.setBackoff backoff)

/-- Calls, one after the other. -/
def performAll : List (Call P) → World σ P → World σ P
  | [], w => w
  | c :: cs, w => performAll cs (perform c w)

end

end Call

/-- What happens next: a call by the owner, or an event of the loop with the callback's reaction. -/
inductive TcpClient.Input (P : Type)
  | call (c : Call P)
  | connectCompleted (now : Int) (bev : Bev) (success : Bool) (reaction : List (Call P))
  | packetReceived (now : Int) (conn : Bev) (pkr : Unpacker) (server_type uri : UInt16)
      (reaction : List (Call P))
  | socketError (now : Int) (conn : Bev) (reaction : List (Call P))
  | timer (now : Int) (sys : Syscalls) (reaction : List (Call P))

namespace World

variable {σ P : Type}

/-- What an input does. -/
def next (w : World σ P) : TcpClient.Input P → World σ P
  | .call c => c.perform w
  | .connectCompleted now bev success reaction =>
    w.connectCallback (.doing (Call.performAll reaction)) now bev
      (if success then .connected else .error)
  | .packetReceived now conn pkr server_type uri reaction =>
    w.onPacketReceived (.doing (Call.performAll reaction)) now conn pkr server_type uri
  | .socketError now _ reaction => w.onError (.doing (Call.performAll reaction)) now
  | .timer now sys reaction => w.onTimer (.doing (Call.performAll reaction)) now sys

/-- A bufferevent reports as long as it waits; a connection, as long as it is there. -/
def Enabled (w : World σ P) : TcpClient.Input P → Prop
  | .call _ => True
  | .connectCompleted _ bev _ _ => bev ∈ w.waiting
  | .packetReceived _ conn _ _ _ _ => w.client.conn = some conn
  | .socketError _ conn _ => w.client.conn = some conn
  | .timer _ _ _ => True

/-- From one state between events to the next. -/
def Step (w : World σ P) (i : TcpClient.Input P) (w' : World σ P) : Prop :=
  w.Enabled i ∧ w' = w.next i

/-- A client that was just made. -/
def fresh (now : Int) (local_port : UInt16) (backoff : Rat) (user : σ) : World σ P :=
  ⟨.init now local_port backoff, user, 0, [], [], []⟩

/-! ## The invariant -/

/-- The three fields agree, the pending bufferevent is the only one that reports, nothing failed. -/
structure Consistent (w : World σ P) : Prop where
  connecting_eq : w.client.connecting = w.client.pending.isSome
  exclusive : w.client.pending.isSome → w.client.conn = none
  waiting_eq : w.waiting = w.client.pending.toList
  no_failures : w.failures = []

/-- Consistent, with (`busy`) or without an attempt under way. -/
structure Settled (local_port : UInt16) (busy : Bool) (w : World σ P) : Prop where
  consistent : w.Consistent
  pending_isSome : w.client.pending.isSome = busy
  local_port_eq : w.client.local_port = local_port

/-- A new client is settled, with no attempt under way. -/
theorem fresh_settled (now : Int) (local_port : UInt16) (backoff : Rat) (user : σ) :
    (fresh now local_port backoff user : World σ P).Settled local_port false :=
  ⟨⟨rfl, fun h => absurd h Bool.false_ne_true, rfl, rfl⟩, rfl, rfl⟩

/-- Without an attempt under way there is no pending bufferevent. -/
theorem Settled.pending_eq_none {lp : UInt16} {w : World σ P} (h : w.Settled lp false) :
    w.client.pending = none := by
  have := h.pending_isSome
  rwa [Option.isSome_eq_false_iff, Option.isNone_iff_eq_none] at this

/-- `connecting_` says whether an attempt is under way. -/
theorem Settled.connecting {lp : UInt16} {busy : Bool} {w : World σ P} (h : w.Settled lp busy) :
    w.client.connecting = busy := by
  rw [h.consistent.connecting_eq, h.pending_isSome]

/-- A check that holds changes nothing. -/
theorem require_of {ok : Bool} {failure : Failure} {w : World σ P} (h : ok = true) :
    w.require ok failure = w := by
  rw [require, if_pos h]

/-- A change of the client that leaves the port and the state of the attempt alone, and at most drops
    the connection. -/
theorem Settled.update {lp : UInt16} {busy : Bool} {w : World σ P} (h : w.Settled lp busy)
    {f : TcpClient → TcpClient} (hport : (f w.client).local_port = w.client.local_port)
    (hpending : (f w.client).pending = w.client.pending)
    (hconnecting : (f w.client).connecting = w.client.connecting)
    (hconn : (f w.client).conn = w.client.conn ∨ (f w.client).conn = none) :
    (w.update f).Settled lp busy := by
  -- the four facts of a consistent world, the pending flag and the port
  obtain ⟨⟨h₁, h₂, h₃, h₄⟩, h₅, h₆⟩ := h
  refine ⟨⟨?_, ?_, ?_, h₄⟩, ?_, ?_⟩
  · show (f w.client).connecting = (f w.client).pending.isSome
    rw [hconnecting, hpending, h₁]
  · intro hsome
    have hsome' : w.client.pending.isSome := by rwa [← hpending]
    rcases hconn with hconn | hconn
    · exact hconn.trans (h₂ hsome')
    · exact hconn
  · show w.waiting = (f w.client).pending.toList
    rw [hpending, h₃]
  · show (f w.client).pending.isSome = busy
    rw [hpending, h₅]
  · exact hport.trans h₆

theorem Settled.scheduleNextTry {lp : UInt16} {busy : Bool} {w : World σ P} (h : w.Settled lp busy)
    (now : Int) : (w.update (TcpClient.scheduleNextTry now)).Settled lp busy := by
  obtain ⟨hport, hpending, hconnecting, hconn⟩ := TcpClient.scheduleNextTry_frame now w.client
  exact h.update hport hpending hconnecting (Or.inl hconn)

/-- The pending bufferevent was the only one that waited. -/
theorem release_waiting {w : World σ P} (h : w.waiting = w.client.pending.toList) :
    w.release.waiting = [] := by
  show w.waiting.filter _ = []
  rw [h]
  cases w.client.pending with
  | none => rfl
  | some bev =>
    rw [Option.toList_some, List.filter_cons_of_neg (by simp), List.filter_nil]

/-- The pending bufferevent goes, after `connecting_` was cleared. -/
theorem release_settled {lp : UInt16} {w : World σ P} (hport : w.client.local_port = lp)
    (hconnecting : w.client.connecting = false) (hwaiting : w.waiting = w.client.pending.toList)
    (hfailures : w.failures = []) : w.release.Settled lp false :=
  ⟨⟨hconnecting, fun h => absurd h Bool.false_ne_true, release_waiting hwaiting, hfailures⟩, rfl,
    hport⟩

/-- The same, with `connecting_` cleared afterwards. -/
theorem Settled.abandon {lp : UInt16} {w : World σ P} (h : w.Settled lp true) :
    (w.release.update fun c => { c with connecting := false }).Settled lp false :=
  ⟨⟨rfl, fun h => absurd h Bool.false_ne_true, release_waiting h.consistent.waiting_eq,
    h.consistent.no_failures⟩, rfl, h.local_port_eq⟩

/-- Whoever is notified, or looks at the traffic, learns nothing from `w'` that `w` did not tell. -/
structure Untold (w w' : World σ P) : Prop where
  user_eq : w'.user = w.user
  traffic_eq : w'.traffic = w.traffic

/-- `Close` leaves a client settled, without a connection, and tells nobody. -/
theorem Settled.close {lp : UInt16} {busy : Bool} {w : World σ P} (h : w.Settled lp busy) :
    w.close.Settled lp false ∧ w.close.client.conn = none ∧ w.Untold w.close := by
  obtain ⟨⟨h₁, h₂, h₃, h₄⟩, h₅, h₆⟩ := h
  rw [World.close]
  by_cases hpending : w.client.pending.isSome = true
  · rw [if_pos hpending, require_of (by rw [h₂ hpending]; rfl)]
    exact ⟨release_settled h₆ rfl h₃ h₄, h₂ hpending, ⟨rfl, rfl⟩⟩
  · rw [if_neg hpending]
    have hnone : w.client.pending.isSome = false := by simpa using hpending
    have hconnecting : w.client.connecting = false := h₁.trans hnone
    rw [require_of (by rw [hconnecting]; rfl)]
    have hsettled : w.Settled lp false := ⟨⟨h₁, h₂, h₃, h₄⟩, hnone, h₆⟩
    exact ⟨hsettled.update rfl rfl rfl (Or.inr rfl), rfl, ⟨rfl, rfl⟩⟩

theorem Settled.traffic {lp : UInt16} {busy : Bool} {w : World σ P} (h : w.Settled lp busy)
    (traffic : List (Traffic P)) : ({ w with traffic := traffic } : World σ P).Settled lp busy :=
  ⟨⟨h.consistent.1, h.consistent.2, h.consistent.3, h.consistent.4⟩, h.2, h.3⟩

theorem Settled.sendPacket {lp : UInt16} {busy : Bool} {w : World σ P} (h : w.Settled lp busy)
    (p : P) : (w.sendPacket p).1.Settled lp busy := by
  rw [World.sendPacket]
  split
  · exact h.traffic _
  · exact h

/-! ## One operation -/

/-- `OnConnect` clears the attempt, and then calls back. -/
theorem Settled.onConnect {lp : UInt16} {w : World σ P} (h : w.Settled lp true)
    (cb : TcpClientCallback σ P) (now : Int) (success : Bool) :
    ∃ w' : World σ P, w'.Settled lp false ∧ w.Untold w' ∧
      w'.client.conn = (if success then w.client.pending else none) ∧
      w.onConnect cb now (if success then .connected else .error) = cb.onConnect success w' := by
  obtain ⟨⟨h₁, h₂, h₃, h₄⟩, h₅, h₆⟩ := h
  -- the three assertions of `OnConnect` hold, so the world is as before
  have hasserts : ((w.require w.client.pending.isSome .noPending).require
      w.client.conn.isNone .alreadyConnected).require w.client.connecting .notConnecting = w := by
    have hconn : w.client.conn.isNone = true := by rw [h₂ h₅]; rfl
    rw [require_of h₅, require_of hconn, require_of (h₁.trans h₅)]
  cases success with
  -- the pending bufferevent becomes the connection
  | true =>
    refine ⟨_, ?_, ?_, ?_, congrArg (fun w : World σ P => cb.onConnect true (release (World.update
      (fun c => { c with conn := c.pending }) (w.update fun c => { c with connecting := false }))))
      hasserts⟩
    · exact release_settled h₆ rfl h₃ h₄
    · exact ⟨rfl, rfl⟩
    · rfl
  -- the pending bufferevent goes, and the next try is scheduled
  | false =>
    obtain ⟨hport, hpending, hconnecting, hconn⟩ :=
      TcpClient.scheduleNextTry_frame now { w.client with connecting := false }
    refine ⟨_, ?_, ?_, ?_, congrArg (fun w : World σ P => cb.onConnect false (release (World.update
      (TcpClient.scheduleNextTry now) (w.update fun c => { c with connecting := false }))))
      hasserts⟩
    · exact release_settled (hport.trans h₆) hconnecting
        (h₃.trans (congrArg Option.toList hpending.symm)) h₄
    · exact ⟨rfl, rfl⟩
    · exact hconn.trans (h₂ h₅)

/-- A bufferevent that reports is the pending one. -/
theorem Settled.connectCallback {lp : UInt16} {w : World σ P} (h : w.Settled lp true) {bev : Bev}
    (hbev : w.client.pending = some bev) (cb : TcpClientCallback σ P) (now : Int) (success : Bool) :
    ∃ w' : World σ P, w'.Settled lp false ∧ w.Untold w' ∧
      w'.client.conn = (if success then some bev else none) ∧
      w.connectCallback cb now bev (if success then .connected else .error) =
        cb.onConnect success w' := by
  rw [World.connectCallback, require_of (by rw [hbev]; exact beq_self_eq_true _), ← hbev]
  exact h.onConnect cb now success

/-- A new attempt leaves a client settled, with the attempt under way. -/
theorem Settled.newPending {lp : UInt16} {w : World σ P} (h : w.Settled lp false)
    (hconn : w.client.conn = none) :
    w.newPending.Settled lp true ∧ w.newPending.client.pending = some w.created ∧
      w.newPending.client.conn = none ∧ w.Untold w.newPending := by
  rw [World.newPending, require_of (by rw [h.pending_eq_none]; rfl)]
  refine ⟨⟨⟨rfl, fun _ => hconn, ?_, h.consistent.no_failures⟩, rfl, h.local_port_eq⟩, rfl, hconn,
    ⟨rfl, rfl⟩⟩
  show w.waiting ++ [w.created] = [w.created]
  rw [h.consistent.waiting_eq, h.pending_eq_none]
  rfl

/-- The owner's `Connect` clears `connecting_` when it failed, which is then what it is already. -/
theorem Settled.clear {lp : UInt16} {w : World σ P} (h : w.Settled lp false) :
    (w.update fun c => { c with connecting := false }).Settled lp false :=
  h.update rfl rfl h.connecting.symm (Or.inl rfl)

end World

/-! ## `Connect` -/

namespace Syscalls

/-- Everything up to the call of `bufferevent_socket_connect` works. -/
def ready (sys : Syscalls) (local_port : UInt16) : Bool :=
  sys.socket && sys.setNonBlocking && (local_port == 0 || sys.bind)

/-- `Connect` leaves an attempt under way. -/
def started (sys : Syscalls) (local_port : UInt16) : Bool := sys.ready local_port && sys.connect

/-- `bufferevent_socket_connect` fails. -/
def refused (sys : Syscalls) (local_port : UInt16) : Bool := sys.ready local_port && !sys.connect

end Syscalls

namespace World

variable {σ P : Type}

/-- A connection that was refused is not started. -/
theorem Syscalls.started_eq {sys : Syscalls} {lp : UInt16} (h : sys.refused lp = true) :
    sys.started lp = false := by
  rw [Syscalls.refused, Bool.and_eq_true, Bool.not_eq_true'] at h
  rw [Syscalls.started, h.2, Bool.and_false]

/-- What `Connect` does to a client with no attempt under way: it notifies nobody, or the callback is
    told of the failure and `connecting_` is cleared after that. -/
theorem Settled.connect_cases {lp : UInt16} {w : World σ P} (h : w.Settled lp false)
    (cb : TcpClientCallback σ P) (now : Int) (sys : Syscalls) :
    (sys.refused lp = false ∧ (w.connect cb now sys).1.Settled lp (sys.started lp) ∧
      (w.connect cb now sys).1.client.conn = none ∧ w.Untold (w.connect cb now sys).1) ∨
    (sys.refused lp = true ∧ ∃ w' : World σ P, w'.Settled lp false ∧ w'.client.conn = none ∧
      w.Untold w' ∧ (w.connect cb now sys).1 =
        (cb.onConnect false w').update fun c => { c with connecting := false }) := by
  have htried : (w.update fun c => { c with
      last_try_ts := now, last_active_ts := now, conn := none }).Settled lp false :=
    h.update rfl rfl rfl (Or.inr rfl)
  obtain ⟨hnew, hpending, hconn, huser, htraffic⟩ := htried.newPending rfl
  rw [World.connect, if_neg (by rw [h.connecting]; exact Bool.false_ne_true)]
  simp only [Syscalls.started, Syscalls.refused, Syscalls.ready, hnew.local_port_eq]
  -- the system calls in the order of `Connect`; only a failed connect calls back
  cases hsocket : sys.socket with
  | false => exact Or.inl ⟨rfl, htried, rfl, ⟨rfl, rfl⟩⟩
  | true =>
    cases hblock : sys.setNonBlocking with
    | false => exact Or.inl ⟨rfl, htried, rfl, ⟨rfl, rfl⟩⟩
    | true =>
      -- a port to bind to, and the bind fails
      by_cases hbind : lp ≠ 0 ∧ (!sys.bind) = true
      · have hready : (lp == 0 || sys.bind) = false := by simpa using hbind
        simp only [Bool.not_true, Bool.false_eq_true, if_false, if_pos hbind, hready]
        exact Or.inl ⟨rfl, hnew.abandon, hconn, ⟨huser, htraffic⟩⟩
      · have hready : (lp == 0 || sys.bind) = true := by
          by_cases hzero : lp = 0
          · rw [hzero]; rfl
          · have : sys.bind = true := by simpa [hzero] using hbind
            rw [this, Bool.or_true]
        simp only [Bool.not_true, Bool.false_eq_true, if_false, if_neg hbind, hready]
        cases hconnect : sys.connect with
        | true => exact Or.inl ⟨rfl, hnew, hconn, ⟨huser, htraffic⟩⟩
        -- the callback runs before `Connect` returns, and `connecting` is cleared behind it
        | false =>
          obtain ⟨w', hw', huntold, hconn', heq⟩ := hnew.connectCallback hpending cb now false
          exact Or.inr ⟨rfl, w', hw', hconn',
            ⟨huntold.user_eq.trans huser, huntold.traffic_eq.trans htraffic⟩,
            congrArg (World.update fun c => { c with connecting := false }) heq⟩

/-- A reaction that, started with no attempt under way, ends with (`busy`) or without one. -/
def Reacts (lp : UInt16) (busy : Bool) (r : World σ P → World σ P) : Prop :=
  ∀ w, w.Settled lp false → (r w).Settled lp busy

/-- `Connect` leaves a client settled, if the callback that it notifies of a failure does not connect
    again. -/
theorem Settled.connect {lp : UInt16} {busy : Bool} {w : World σ P} (h : w.Settled lp busy)
    {cb : TcpClientCallback σ P} {now : Int} {sys : Syscalls}
    (hcb : busy = false → sys.refused lp = true → Reacts lp false (cb.onConnect false)) :
    (w.connect cb now sys).1.Settled lp (busy || sys.started lp) := by
  cases busy with
  | true =>
    rw [World.connect, if_pos h.connecting]
    exact h
  | false =>
    rcases h.connect_cases cb now sys with ⟨-, hsettled, -, -⟩ | ⟨hrefused, w', hw', -, -, heq⟩
    · exact hsettled
    · rw [heq, Syscalls.started_eq hrefused]
      exact (hcb rfl hrefused w' hw').clear

/-- **Where the invariant breaks.**  A `Connect` whose `bufferevent_socket_connect` fails leaves a
    consistent client exactly when the callback that it notified left no attempt under way. -/
theorem connect_consistent_iff {lp : UInt16} {busy : Bool} {w : World σ P} (h : w.Settled lp false)
    {cb : TcpClientCallback σ P} (now : Int) {sys : Syscalls} (hsys : sys.refused lp = true)
    (hcb : Reacts lp busy (cb.onConnect false)) :
    (w.connect cb now sys).1.Consistent ↔ busy = false := by
  rcases h.connect_cases cb now sys with ⟨hnot, -⟩ | ⟨-, w', hw', -, -, heq⟩
  · rw [hnot] at hsys
    exact absurd hsys Bool.false_ne_true
  · rw [heq]
    have hafter := hcb w' hw'
    constructor
    · intro hconsistent
      exact hafter.pending_isSome.symm.trans hconsistent.connecting_eq.symm
    · rintro rfl
      exact hafter.clear.consistent

end World

/-! ## Executions of a callback -/

namespace Call

variable {σ P : Type}

/-- Whether an attempt is under way after a call, if `busy` says whether one was before. -/
def pendingAfter (local_port : UInt16) (busy : Bool) : Call P → Bool
  | .connect _ sys _ => busy || sys.started local_port
  | .close => false
  | _ => busy

/-- Whether an attempt is under way after calls. -/
def pendingAfterAll (local_port : UInt16) : Bool → List (Call P) → Bool :=
  List.foldl (pendingAfter local_port)

mutual

/-- No reaction to a failure that is reported from inside a `Connect` ends with another attempt under
    way. -/
def quiet (local_port : UInt16) (busy : Bool) : Call P → Bool
  | .connect _ sys reaction =>
    busy || !sys.refused local_port ||
      (quietAll local_port false reaction && !pendingAfterAll local_port false reaction)
  | _ => true

/-- Calls are quiet if each one is, after those before it. -/
def quietAll (local_port : UInt16) (busy : Bool) : List (Call P) → Bool
  | [] => true
  | c :: cs => quiet local_port busy c && quietAll local_port (pendingAfter local_port busy c) cs

end

mutual

/-- Quiet calls keep the client consistent. -/
theorem perform_settled {lp : UInt16} {busy : Bool} {w : World σ P} (h : w.Settled lp busy) :
    ∀ c : Call P, c.quiet lp busy = true → (c.perform w).Settled lp (c.pendingAfter lp busy)
  | .connect now sys reaction, hquiet => by
    rw [perform]
    refine h.connect ?_
    -- a quiet reaction does not connect again from inside the callback
    intro hidle hrefused w' hw'
    rw [quiet, hidle, hrefused, Bool.false_or, Bool.not_true, Bool.false_or, Bool.and_eq_true,
      Bool.not_eq_true'] at hquiet
    have := performAll_settled hw' reaction hquiet.1
    rwa [hquiet.2] at this
  | .close, _ => by
    rw [perform]
    exact h.close.1
  | .sendPacket p, _ => by
    rw [perform]
    exact h.sendPacket p
  | .setTimeout seconds, _ => by
    rw [perform]
    exact h.update rfl rfl rfl (Or.inl rfl)
  | .setBackoff backoff, _ => by
    rw [perform]
    exact h.update rfl rfl rfl (Or.inl rfl)

/-- Quiet calls, one after the other, keep the client consistent. -/
theorem performAll_settled {lp : UInt16} {busy : Bool} {w : World σ P} (h : w.Settled lp busy) :
    ∀ cs : List (Call P), quietAll lp busy cs = true →
      (performAll cs w).Settled lp (pendingAfterAll lp busy cs)
  | [], _ => by
    rw [performAll]
    exact h
  | c :: cs, hquiet => by
    rw [quietAll, Bool.and_eq_true] at hquiet
    rw [performAll]
    exact performAll_settled (perform_settled h c hquiet.1) cs hquiet.2

end

end Call

namespace World

variable {σ P : Type}

/-- The condition on a step: whatever the callback does in it is quiet. -/
def Quiet (w : World σ P) : TcpClient.Input P → Prop
  | .call c => c.quiet w.client.local_port w.client.pending.isSome = true
  | .connectCompleted _ _ _ reaction => Call.quietAll w.client.local_port false reaction = true
  | .packetReceived _ _ _ _ _ reaction => Call.quietAll w.client.local_port false reaction = true
  | .socketError _ _ reaction => Call.quietAll w.client.local_port false reaction = true
  | .timer now sys reaction =>
    w.silent now = false →
      if w.client.isConnected then Call.quietAll w.client.local_port false reaction = true
      else w.client.next_try_ts ≤ now →
        (Call.connect now sys reaction).quiet w.client.local_port w.client.pending.isSome = true

/-- A consistent client is settled, with an attempt under way or not. -/
theorem Consistent.settled {w : World σ P} (h : w.Consistent) :
    w.Settled w.client.local_port w.client.pending.isSome :=
  ⟨h, rfl, rfl⟩

/-- A client with a connection has no attempt under way. -/
theorem Consistent.settled_of_conn {w : World σ P} (h : w.Consistent)
    (hconn : w.client.conn.isSome = true) : w.Settled w.client.local_port false := by
  refine ⟨h, ?_, rfl⟩
  cases hpending : w.client.pending.isSome with
  | false => rfl
  | true =>
    rw [h.exclusive hpending] at hconn
    exact absurd hconn Bool.false_ne_true

/-- The bufferevent that waits is the pending one. -/
theorem Consistent.pending_of_waiting {w : World σ P} (h : w.Consistent) {bev : Bev}
    (hbev : bev ∈ w.waiting) : w.client.pending = some bev := by
  rw [h.waiting_eq] at hbev
  exact Option.mem_toList.mp hbev

/-- Quiet calls, as a reaction. -/
theorem reacts_of_quiet {lp : UInt16} {reaction : List (Call P)}
    (h : Call.quietAll lp false reaction = true) :
    Reacts (σ := σ) lp (Call.pendingAfterAll lp false reaction) (Call.performAll reaction) :=
  fun _ hw => Call.performAll_settled hw reaction h

/-- One quiet step. -/
theorem next_consistent {w : World σ P} (h : w.Consistent) {i : TcpClient.Input P}
    (henabled : w.Enabled i) (hquiet : w.Quiet i) : (w.next i).Consistent := by
  cases i with
  | call c => exact (Call.perform_settled h.settled c hquiet).consistent
  | connectCompleted now bev success reaction =>
    -- libevent calls back for a bufferevent that is pending
    have hpending := h.pending_of_waiting henabled
    have hsettled : w.Settled w.client.local_port true := by
      have := h.settled
      rwa [hpending] at this
    obtain ⟨w', hw', -, -, heq⟩ := hsettled.connectCallback hpending
      (.doing (Call.performAll reaction)) now success
    show (w.connectCallback _ now bev _).Consistent
    rw [heq]
    exact (reacts_of_quiet hquiet w' hw').consistent
  | packetReceived now conn pkr server_type uri reaction =>
    have hconn : w.client.conn.isSome = true := by rw [henabled]; rfl
    have hsettled := h.settled_of_conn hconn
    have hactive : (w.update fun c => { c with last_active_ts := now }).Settled
        w.client.local_port false := hsettled.update rfl rfl rfl (Or.inl rfl)
    exact (reacts_of_quiet hquiet _ (hactive.traffic _)).consistent
  | socketError now conn reaction =>
    exact (reacts_of_quiet hquiet _ (h.settled.scheduleNextTry now).close.1).consistent
  | timer now sys reaction =>
    show (w.onTimer _ now sys).Consistent
    rw [onTimer]
    -- cases of the timer: silent for too long, connected, time to connect again
    cases hsilent : w.silent now with
    | true => exact (h.settled.scheduleNextTry now).close.1.consistent
    | false =>
      have hcond := hquiet hsilent
      rw [if_neg Bool.false_ne_true]
      by_cases hconnected : w.client.isConnected = true
      · rw [if_pos hconnected] at hcond ⊢
        rw [TcpClient.isConnected, Bool.and_eq_true] at hconnected
        exact (reacts_of_quiet hcond _ (h.settled_of_conn hconnected.2)).consistent
      · rw [if_neg hconnected] at hcond ⊢
        by_cases hdue : (!w.client.connecting) = true ∧ w.client.next_try_ts ≤ now
        · rw [if_pos hdue]
          have := Call.perform_settled h.settled _ (hcond hdue.2)
          rw [Call.perform] at this
          exact this.consistent
        · rw [if_neg hdue]
          exact h

/-- What holds between events. -/
def Sound (w : World σ P) : Prop :=
  (w.client.connecting = true ↔ w.client.pending ≠ none) ∧
    ¬(w.client.pending ≠ none ∧ w.client.conn ≠ none) ∧ w.failures = []

theorem Consistent.sound {w : World σ P} (h : w.Consistent) : w.Sound := by
  refine ⟨?_, ?_, h.no_failures⟩
  · rw [h.connecting_eq, Option.isSome_iff_ne_none]
  · rintro ⟨hpending, hconn⟩
    exact hconn (h.exclusive (Option.isSome_iff_ne_none.mpr hpending))

/-- **The state of the client.**  In every run in which the callback is quiet, and in every state of it:
    `connecting_` is set exactly when an attempt is pending, an attempt and a connection are never
    there at once, and no assert failed and no pending bufferevent was overwritten. -/
theorem run_sound {now : Int} {local_port : UInt16} {backoff : Rat} {user : σ} {w : World σ P}
    {ts : List (World σ P × TcpClient.Input P × World σ P)}
    (hrun : Run Step (fresh now local_port backoff user) ts w)
    (hquiet : ∀ x ∈ ts, x.1.Quiet x.2.1) :
    w.Sound ∧ ∀ x ∈ ts, x.1.Sound ∧ x.2.2.Sound := by
  have hstep : ∀ (s : World σ P) i t, s.Consistent → s.Quiet i → Step s i t → t.Consistent := by
    rintro s i t hs hq ⟨henabled, rfl⟩
    exact next_consistent hs henabled hq
  obtain ⟨hlast, hall⟩ :=
    Run.invariant_of hstep hrun (fresh_settled now local_port backoff user).consistent hquiet
  exact ⟨hlast.sound, fun x hx => ⟨(hall x hx).1.sound, (hall x hx).2.sound⟩⟩

/-- A host that the network has a route to, and one that it has not. -/
def routed : Syscalls := ⟨true, true, true, true⟩

/-- A system where connecting fails at once. -/
def unrouted : Syscalls := ⟨true, true, true, false⟩

/-- A failing attempt whose callback gives up, and the timer's next attempt. -/
theorem run_sound_retry :
    let w₀ : World Unit Unit := fresh 0 0 1 ()
    let i₁ : TcpClient.Input Unit := .call (.connect 1 unrouted [.close])
    let i₂ : TcpClient.Input Unit := .timer 30 routed []
    ((w₀.next i₁).next i₂).Sound := by
  intro w₀ i₁ i₂
  have hcall : Step w₀ i₁ (w₀.next i₁) := ⟨trivial, rfl⟩
  have htimer : Step (w₀.next i₁) i₂ ((w₀.next i₁).next i₂) := ⟨trivial, rfl⟩
  -- the first call closes in its reaction, and the timer connects again without trouble
  have hquiet₁ : w₀.Quiet i₁ := by
    show Call.quiet 0 false (Call.connect 1 unrouted [Call.close] : Call Unit) = true
    rfl
  have hquiet₂ : (w₀.next i₁).Quiet i₂ := by
    intro _
    rw [if_neg (show ¬(w₀.next i₁).client.isConnected = true from Bool.false_ne_true)]
    intro _
    rfl
  refine (run_sound (Run.cons hcall (Run.single htimer)) ?_).1
  intro x hx
  rcases List.mem_pair.mp hx with rfl | rfl
  · exact hquiet₁
  · exact hquiet₂

/-- A callback that reconnects when it is told of a failure: after the failing `Connect` an attempt is
    pending and `connecting_` is false, and when that attempt completes, an assert fails. -/
theorem reconnecting_callback_unsound :
    let w₀ : World Unit Unit := fresh 0 0 1 ()
    let w₁ := w₀.next (.call (.connect 1 unrouted [.connect 1 routed []]))
    let w₂ := w₁.next (.connectCompleted 2 1 true [])
    (∃ ts, Run Step w₀ ts w₂) ∧
      (w₁.client.connecting = false ∧ w₁.client.pending = some 1) ∧
      w₂.failures = [.notConnecting] := by
  intro w₀ w₁ w₂
  have hcall : Step w₀ (.call (.connect 1 unrouted [.connect 1 routed []])) w₁ := ⟨trivial, rfl⟩
  have hcompleted : Step w₁ (.connectCompleted 2 1 true []) w₂ := by
    refine ⟨?_, rfl⟩
    show 1 ∈ [1]
    exact List.mem_singleton.mpr rfl
  exact ⟨⟨_, Run.cons hcall (Run.single hcompleted)⟩, ⟨rfl, rfl⟩, rfl⟩

end World

end Turnserver
