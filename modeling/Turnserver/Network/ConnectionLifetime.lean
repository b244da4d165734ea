/-
  THE LIFE OF A TCP CONNECTION (`network/tcp_connection.cpp`, 163–302) — when the object is deleted,
  and who still touches it.

  `CloseAndDestroy` frees the bufferevent and deletes the object, unless `OnDataReady` is running: then
  `is_in_processing` delays the deletion to its end.  `OnEvent` sets no such flag.

  * A callback is what it calls on the connection when it is told something, after what it was told
    before (`Callback.calls`).
  * Every access to a member goes through `touch`, which counts the accesses after a deletion.
  * libevent runs no callback of a freed bufferevent, and none inside another (`Enabled`).

  While `OnDataReady` runs nothing is deleted, whatever the callback does (`Processing`).  In `OnError`
  from `OnEvent` the first `CloseAndDestroy` deletes the object, and what the callback calls after that
  is a call on an object that is gone (`react_alive`).  Hence `destroyed_once_iff`.  With a callback
  that only closes, this is the connection of `TcpConnection` (`view_onDataReady`).
-/
import Turnserver.Network.TcpConnection
import Turnserver.Lib.Transition

set_option linter.unusedVariables false

namespace Turnserver

open Framing Transition TcpConnection

namespace Lifetime

/-! ## The code -/

/-- A call on the connection. -/
inductive Call
  | closeAndDestroy
  | sendPacket (packed : List UInt8)
  | sendRawData (data : List UInt8)
deriving DecidableEq

/-- A callback: its calls on the connection, after what it was told before, when it is told more. -/
structure Callback where
  calls : List Event → Event → List Call

/-- The members of `TcpConnection`, and what a run of it leaves to be seen. -/
structure Connection where
  /-- the input buffer of `bev_`, while there is one -/
  bev : Option (List UInt8)
  is_in_processing : Bool
  callback : Option Callback
  /-- what the callback was told -/
  told : List Event
  sent : List UInt8
  /-- how often `CloseAndDestroy` was called -/
  closes : Nat
  /-- how often the object was deleted -/
  destroyed : Nat
  /-- accesses to members of the deleted object -/
  stale : Nat
  /-- packets delivered after the connection was closed -/
  late : Nat
  /-- whether an external caller has called `CloseAndDestroy` -/
  released : Bool

/-- `BEV_EVENT_EOF` -/
def BEV_EVENT_EOF : Nat := 0x10

namespace Connection

/-- A new connection over a bufferevent, with its callback registered. -/
def create (callback : Option Callback) : Connection :=
  ⟨some [], false, callback, [], [], 0, 0, 0, 0, false⟩

/-- A member is accessed. -/
def touch (c : Connection) : Connection :=
  { c with stale := if c.destroyed = 0 then c.stale else c.stale + 1 }

/-- `Close`: the bufferevent is freed. -/
def close (c : Connection) : Connection := { c.touch with bev := none }

/-- `delete this` -/
def destroy (c : Connection) : Connection := { c with destroyed := c.destroyed + 1 }

/-- `CloseAndDestroy` -/
def closeAndDestroy (c : Connection) : Connection :=
  let c := { c.close with closes := c.closes + 1 }
  -- delay this destruction
  if c.is_in_processing then c else c.destroy

/-- `SendRawData`, and `SendPacket` with the packed bytes. -/
def sendRawData (data : List UInt8) (c : Connection) : Connection :=
  let c := c.touch
  if c.bev.isNone then c else { c with sent := c.sent ++ data }

/-- A call of the callback or of an external caller. -/
def perform (c : Connection) : Call → Connection
  | .closeAndDestroy => c.closeAndDestroy
  | .sendPacket packed => c.sendRawData packed
  | .sendRawData data => c.sendRawData data

/-- Calls, one after the other. -/
def react (calls : List Call) (c : Connection) : Connection := calls.foldl perform c

/-- Whether the event is a packet. -/
def isPacket : Event → Bool
  | .packetReceived .. => true
  | .error _ => false

/-- `if (callback_) callback_->On...` -/
def notify (e : Event) (c : Connection) : Connection :=
  let c := c.touch
  match c.callback with
  | none => c
  | some cb =>
    react (cb.calls c.told e)
      { c with
        told := c.told ++ [e]
        late := if isPacket e ∧ c.bev.isNone then c.late + 1 else c.late }

/-- A call leaves the bufferevent, or frees it. -/
theorem perform_bev (c : Connection) (call : Call) :
    (c.perform call).bev = c.bev ∨ (c.perform call).bev = none := by
  have hsend : ∀ data, (c.sendRawData data).bev = c.bev := by
    intro data
    rw [sendRawData]
    split
    · rfl
    · rfl
  cases call with
  | closeAndDestroy =>
    right
    rw [perform, closeAndDestroy]
    dsimp only
    split
    · rfl
    · rfl
  | sendPacket packed => exact Or.inl (hsend packed)
  | sendRawData data => exact Or.inl (hsend data)

/-- Calls leave the bufferevent, or free it. -/
theorem react_bev (calls : List Call) (c : Connection) :
    (react calls c).bev = c.bev ∨ (react calls c).bev = none := by
  induction calls generalizing c with
  | nil => exact Or.inl rfl
  | cons call calls ih =>
    show (react calls (c.perform call)).bev = _ ∨ (react calls (c.perform call)).bev = none
    rcases ih (c.perform call) with h | h
    · rw [h]
      exact perform_bev c call
    · exact Or.inr h

/-- A notification leaves the input buffer alone, or closes the connection. -/
theorem notify_bev (e : Event) (c : Connection) :
    (notify e c).bev = c.bev ∨ (notify e c).bev = none := by
  rw [notify]
  split
  · exact Or.inl rfl
  · exact react_bev _ _

/-- The loop of `OnDataReady`; `reads` says whether `bufferevent_read` succeeds. -/
def processPackets (reads : List Event → Bool) (heap : List Event → Nat → UInt8) (c : Connection) :
    Connection :=
  match hin : c.bev with
  | none => c.touch
  | some input =>
    match hfront : front input with
    | .more => c.touch
    | .bad => notify (.error (BEV_EVENT_ERROR ||| BEV_EVENT_READING)) c.touch
    | .frame n =>
      if reads c.told then
        processPackets reads heap (notify (received (input.take n) (heap c.told))
          { c.touch with bev := some (input.drop n) })
      else c.touch
termination_by (c.bev.getD []).length
decreasing_by
  obtain ⟨-, hmin, hle⟩ := front_eq_frame hfront
  have hpos : 0 < kMinPacketLen := by decide
  rw [hin]
  rcases notify_bev (received (input.take n) (heap c.told))
    { c.touch with bev := some (input.drop n) } with h | h
  · rw [h, Option.getD_some, Option.getD_some, List.length_drop]
    omega
  · rw [h, Option.getD_some, Option.getD_none, List.length_nil]
    omega

/-- `OnDataReady`: what was to be destroyed meanwhile is destroyed at the end. -/
def onDataReady (reads : List Event → Bool) (heap : List Event → Nat → UInt8) (c : Connection) :
    Connection :=
  let c := processPackets reads heap { c.touch with is_in_processing := true }
  let c := { c.touch with is_in_processing := false }
  let c := c.touch
  if c.bev.isNone then c.destroy else c

/-- `OnEvent`: errors and the end of the stream are reported, nothing else. -/
def onEvent (events : Nat) (c : Connection) : Connection :=
  let c := c.touch
  if events &&& (BEV_EVENT_ERROR ||| BEV_EVENT_EOF) ≠ 0 then notify (.error events) c else c

end Connection

/-- What happens next: data arrive and are read, another event, or a call from outside. -/
inductive Input
  | read (chunk : List UInt8) (reads : List Event → Bool) (heap : List Event → Nat → UInt8)
  | event (events : Nat)
  | external (call : Call)

namespace Connection

/-- What an input does. -/
def next (c : Connection) : Input → Connection
  | .read chunk reads heap => onDataReady reads heap { c with bev := c.bev.map (· ++ chunk) }
  | .event events => c.onEvent events
  | .external call =>
    let c := c.perform call
    { c with released := c.released || call = .closeAndDestroy }

/-- A freed bufferevent reports nothing; external callers do not use the pointer after their own
    `CloseAndDestroy`. -/
def Enabled (c : Connection) : Input → Prop
  | .read .. => c.bev.isSome
  | .event _ => c.bev.isSome
  | .external _ => c.released = false

/-- One step of a connection. -/
def Step (c : Connection) (i : Input) (c' : Connection) : Prop := c.Enabled i ∧ c' = c.next i

/-- A registered callback is told, and does what it does. -/
theorem notify_some {c : Connection} {cb : Callback} (h : c.callback = some cb) (e : Event) :
    notify e c = react (cb.calls c.told e)
      { c.touch with
        told := c.told ++ [e]
        late := if isPacket e ∧ c.bev.isNone then c.late + 1 else c.late } := by
  have htouch : c.touch.callback = some cb := h
  rw [notify]
  split
  · next hnone => cases htouch.symm.trans hnone
  · next cb' hsome =>
    cases htouch.symm.trans hsome
    rfl

/-! ## The connection of `TcpConnection` -/

section View

variable (cb : Turnserver.Callback)

/-- The callback that only closes. -/
def onlyCloses : Callback where
  calls log e := List.replicate (cb.closes log e) .closeAndDestroy

/-- The connection and its events, without what is only watched here. -/
def view (c : Connection) : TcpConnection × List Event :=
  (⟨c.bev, c.is_in_processing, some cb, c.destroyed⟩, c.told)

/-- `CloseAndDestroy` in both models. -/
theorem view_closeAndDestroy (c : Connection) :
    (view cb c.closeAndDestroy).1 = (view cb c).1.closeAndDestroy ∧
      c.closeAndDestroy.told = c.told ∧ c.closeAndDestroy.callback = c.callback := by
  rw [closeAndDestroy, TcpConnection.closeAndDestroy]
  cases hproc : c.is_in_processing with
  | false => simp [view, close, touch, destroy, TcpConnection.destroy, hproc]
  | true => simp [view, close, touch, hproc]

/-- A callback that only closes, in both models: induction on how often. -/
theorem view_react (n : Nat) (c : Connection) :
    (view cb (react (.replicate n .closeAndDestroy) c)).1 =
        Nat.repeat TcpConnection.closeAndDestroy n (view cb c).1 ∧
      (react (.replicate n .closeAndDestroy) c).told = c.told ∧
      (react (.replicate n .closeAndDestroy) c).callback = c.callback := by
  -- induction on the number of calls, split off at the end
  induction n with
  | zero => exact ⟨rfl, rfl, rfl⟩
  | succ n ih =>
    have hlast : react (.replicate (n + 1) .closeAndDestroy) c =
        (react (.replicate n .closeAndDestroy) c).closeAndDestroy := by
      rw [List.replicate_succ', react, List.foldl_append]
      rfl
    obtain ⟨hview, htold, hcallback⟩ := ih
    obtain ⟨hview', htold', hcallback'⟩ :=
      view_closeAndDestroy cb (react (.replicate n .closeAndDestroy) c)
    rw [hlast]
    refine ⟨?_, htold'.trans htold, hcallback'.trans hcallback⟩
    rw [hview', hview]
    rfl

/-- Telling the callback, in both models. -/
theorem view_notify (e : Event) {c : Connection} (hc : c.callback = some (onlyCloses cb)) :
    view cb (notify e c) = TcpConnection.notify e (view cb c) ∧
      (notify e c).callback = some (onlyCloses cb) := by
  rw [notify_some hc]
  obtain ⟨hview, htold, hcallback⟩ := view_react cb (cb.closes c.told e)
    { c.touch with
      told := c.told ++ [e]
      late := if isPacket e ∧ c.bev.isNone then c.late + 1 else c.late }
  exact ⟨Prod.ext hview htold, hcallback.trans hc⟩

/-- One round of the loop. -/
theorem processPackets_round (reads : List Event → Bool) (heap : List Event → Nat → UInt8)
    (c : Connection) : processPackets reads heap c =
      match c.bev with
      | none => c.touch
      | some input =>
        match front input with
        | .more => c.touch
        | .bad => notify (.error (BEV_EVENT_ERROR ||| BEV_EVENT_READING)) c.touch
        | .frame n =>
          if reads c.told then
            processPackets reads heap (notify (received (input.take n) (heap c.told))
              { c.touch with bev := some (input.drop n) })
          else c.touch := by
  -- the model's loop with the proof of termination taken out
  rw [processPackets]
  split
  · next hin => rw [hin]
  next input hin =>
  rw [hin]
  dsimp only
  split
  · next hfront => rw [hfront]
  · next hfront => rw [hfront]
  · next n hfront => rw [hfront]

/-- One round of the loop of `TcpConnection`. -/
theorem view_round (heap : List Event → Nat → UInt8) (s : TcpConnection × List Event) :
    TcpConnection.processPackets heap s =
      match s.1.input with
      | none => s
      | some input =>
        match front input with
        | .more => s
        | .bad => TcpConnection.notify (.error (BEV_EVENT_ERROR ||| BEV_EVENT_READING)) s
        | .frame n =>
          TcpConnection.processPackets heap (TcpConnection.notify (received (input.take n) (heap s.2))
            ({ s.1 with input := some (input.drop n) }, s.2)) := by
  -- the same for the model without lifetimes
  rw [TcpConnection.processPackets]
  split
  · next hin => rw [hin]
  next input hin =>
  rw [hin]
  dsimp only
  split
  · next hfront => rw [hfront]
  · next hfront => rw [hfront]
  · next n hfront => rw [hfront]

/-- The loop, in both models: by recursion on the bytes that are left. -/
theorem view_processPackets (heap : List Event → Nat → UInt8) {c : Connection}
    (hc : c.callback = some (onlyCloses cb)) :
    view cb (processPackets (fun _ => true) heap c) =
      TcpConnection.processPackets heap (view cb c) := by
  -- strong induction on the bytes in the buffer: each packet takes at least its header
  induction hk : (c.bev.getD []).length using Nat.strongRecOn generalizing c with
  | _ k ih =>
    have hin : (view cb c).1.input = c.bev := rfl
    rw [processPackets_round, view_round, hin]
    cases hbev : c.bev with
    | none => rfl
    | some input =>
      dsimp only
      cases hfront : front input with
      | more => rfl
      | bad => exact (view_notify cb (.error _) (c := c.touch) hc).1
      | frame n =>
        dsimp only
        obtain ⟨-, hmin, hle⟩ := front_eq_frame hfront
        have hpos : 0 < kMinPacketLen := by decide
        rw [hbev, Option.getD_some] at hk
        obtain ⟨hview, hcallback⟩ := view_notify cb (received (input.take n) (heap c.told))
          (c := { c.touch with bev := some (input.drop n) }) hc
        rw [if_pos rfl, ih _ ?_ hcallback rfl, hview]
        · rfl
        -- the callback kept the input or dropped it, and both are shorter
        · rcases notify_bev (received (input.take n) (heap c.told))
            { c.touch with bev := some (input.drop n) } with hrest | hrest
          · rw [hrest, Option.getD_some, List.length_drop]
            omega
          · rw [hrest, Option.getD_none, List.length_nil]
            omega

/-- For a callback that only closes, and reads that succeed, it is the same `OnDataReady`. -/
theorem view_onDataReady (heap : List Event → Nat → UInt8) {c : Connection}
    (hc : c.callback = some (onlyCloses cb)) :
    view cb (onDataReady (fun _ => true) heap c) = TcpConnection.onDataReady heap (view cb c) := by
  have hloop := view_processPackets cb heap (c := { c.touch with is_in_processing := true }) hc
  have hstart : view cb { c.touch with is_in_processing := true } =
      ({ (view cb c).1 with is_in_processing := true }, (view cb c).2) := rfl
  rw [onDataReady, TcpConnection.onDataReady, ← hstart, ← hloop]
  generalize processPackets (fun _ => true) heap { c.touch with is_in_processing := true } = d
  cases hbev : d.bev with
  | none => simp [view, touch, destroy, TcpConnection.destroy, hbev]
  | some input => simp [view, touch, hbev]

end View

/-! ## What has to hold -/

/-- Between two events: deleted at most once, and exactly once if it was to be; nothing touched the
    object after that, and no packet came after the close. -/
structure DestroyedOnce (c : Connection) : Prop where
  once : c.destroyed ≤ 1
  closed : c.destroyed = 1 ↔ 0 < c.closes
  stale : c.stale = 0
  late : c.late = 0

/-- Nothing is called after a `CloseAndDestroy`. -/
def LastCloses (calls : List Call) : Prop :=
  ∀ before after, calls = before ++ .closeAndDestroy :: after → after = []

/-- In `OnError` from `OnEvent` the callback calls nothing after a `CloseAndDestroy`; there are no calls
    from outside when the object is gone. -/
def LetsGo (c : Connection) : Input → Prop
  | .read .. => True
  | .event events => events &&& (BEV_EVENT_ERROR ||| BEV_EVENT_EOF) ≠ 0 →
      ∀ cb, c.callback = some cb → LastCloses (cb.calls c.told (.error events))
  | .external _ => c.destroyed = 0

/-! ## While `OnDataReady` runs -/

/-- Nothing is deleted yet; what was closed is to be deleted. -/
structure Processing (c : Connection) : Prop where
  is_in_processing : c.is_in_processing = true
  destroyed : c.destroyed = 0
  stale : c.stale = 0
  late : c.late = 0
  closes : c.bev = none ↔ 0 < c.closes

/-- A member of an object that is there. -/
theorem touch_of_not_destroyed {c : Connection} (h : c.destroyed = 0) : c.touch = c := by
  rw [touch, if_pos h]

/-- Any call while `OnDataReady` runs deletes nothing. -/
theorem Processing.perform {c : Connection} (h : Processing c) (call : Call) :
    Processing (c.perform call) := by
  have htouch := touch_of_not_destroyed h.destroyed
  have hsend : ∀ data, Processing (c.sendRawData data) := by
    intro data
    rw [sendRawData, htouch]
    split
    · exact h
    · exact ⟨h.is_in_processing, h.destroyed, h.stale, h.late, h.closes⟩
  cases call with
  | closeAndDestroy =>
    rw [Connection.perform, closeAndDestroy, close, htouch]
    dsimp only
    rw [if_pos h.is_in_processing]
    exact ⟨h.is_in_processing, h.destroyed, h.stale, h.late,
      ⟨fun _ => Nat.succ_pos _, fun _ => rfl⟩⟩
  | sendPacket packed => exact hsend packed
  | sendRawData data => exact hsend data

/-- Any calls while `OnDataReady` runs delete nothing. -/
theorem Processing.react {c : Connection} (h : Processing c) (calls : List Call) :
    Processing (react calls c) := by
  induction calls generalizing c with
  | nil => exact h
  | cons call calls ih => exact ih (h.perform call)

/-- A callback that is told while `OnDataReady` runs deletes nothing. -/
theorem Processing.notify {c : Connection} (h : Processing c) {e : Event}
    (he : isPacket e = true → c.bev ≠ none) : Processing (notify e c) := by
  rw [Connection.notify, touch_of_not_destroyed h.destroyed]
  split
  · exact h
  · refine Processing.react ?_ _
    refine ⟨h.is_in_processing, h.destroyed, h.stale, ?_, h.closes⟩
    dsimp only
    rw [if_neg]
    · exact h.late
    · rintro ⟨hpacket, hnone⟩
      exact he hpacket (Option.isNone_iff_eq_none.mp hnone)

/-- **Whatever the callback does, the loop touches a live object.** -/
theorem Processing.processPackets (reads : List Event → Bool) (heap : List Event → Nat → UInt8)
    {c : Connection} (h : Processing c) : Processing (processPackets reads heap c) := by
  induction hk : (c.bev.getD []).length using Nat.strongRecOn generalizing c with
  | _ k ih =>
    have htouch := touch_of_not_destroyed h.destroyed
    rw [Connection.processPackets, htouch]
    split
    · exact h
    next input hin =>
    split
    · exact h
    · exact h.notify nofun
    · next n hfront =>
      split
      · obtain ⟨-, hmin, hle⟩ := front_eq_frame hfront
        have hpos : 0 < kMinPacketLen := by decide
        rw [hin, Option.getD_some] at hk
        -- the packet is cut off a buffer that is there
        have hcut : Processing { c with bev := some (input.drop n) } := by
          refine ⟨h.is_in_processing, h.destroyed, h.stale, h.late, ?_⟩
          rw [← h.closes, hin]
          exact iff_of_false nofun nofun
        refine ih _ ?_ (hcut.notify fun _ => nofun) rfl
        rcases notify_bev (received (input.take n) (heap c.told))
          { c with bev := some (input.drop n) } with hbev | hbev
        · rw [hbev, Option.getD_some, List.length_drop]
          omega
        · rw [hbev, Option.getD_none, List.length_nil]
          omega
      · exact h

/-! ## Between two events -/

/-- Nothing runs; the object is there as long as it was not closed. -/
structure Idle (c : Connection) : Prop where
  is_in_processing : c.is_in_processing = false
  good : DestroyedOnce c
  closes : c.bev = none ↔ 0 < c.closes

/-- Nothing was closed so far. -/
structure Alive (c : Connection) : Prop where
  is_in_processing : c.is_in_processing = false
  bev : c.bev ≠ none
  closes : c.closes = 0
  destroyed : c.destroyed = 0
  stale : c.stale = 0
  late : c.late = 0

/-- Between events a connection with a bufferevent was not closed. -/
theorem Idle.alive {c : Connection} (h : Idle c) (hbev : c.bev ≠ none) : Alive c := by
  have hcloses : ¬ 0 < c.closes := fun hpos => hbev (h.closes.mpr hpos)
  have hdestroyed : c.destroyed ≠ 1 := fun hone => hcloses (h.good.closed.mp hone)
  have honce := h.good.once
  exact ⟨h.is_in_processing, hbev, by omega, by omega, h.good.stale, h.good.late⟩

/-- A connection that was not closed is at rest. -/
theorem Alive.idle {c : Connection} (h : Alive c) : Idle c := by
  have hdestroyed := h.destroyed
  have hcloses := h.closes
  refine ⟨h.is_in_processing, ⟨by omega, by omega, h.stale, h.late⟩, ?_⟩
  exact iff_of_false h.bev (by omega)

/-- **`OnDataReady` leaves at most one deletion behind, at its end.** -/
theorem onDataReady_idle (reads : List Event → Bool) (heap : List Event → Nat → UInt8)
    {c : Connection} (h : Alive c) : Idle (onDataReady reads heap c) := by
  have hstart : Processing { c with is_in_processing := true } :=
    ⟨rfl, h.destroyed, h.stale, h.late, iff_of_false h.bev (by rw [h.closes]; exact Nat.lt_irrefl 0)⟩
  rw [onDataReady, touch_of_not_destroyed h.destroyed]
  have hend := hstart.processPackets reads heap
  -- the loop may have closed the connection; `is_in_processing` held its destruction back
  generalize processPackets reads heap { c with is_in_processing := true } = d at hend
  have hdestroyed := hend.destroyed
  have htouch : ({ d with is_in_processing := false } : Connection).touch =
      { d with is_in_processing := false } := touch_of_not_destroyed hdestroyed
  rw [touch_of_not_destroyed hdestroyed, htouch]
  split
  -- a callback closed it, so it is destroyed here
  · next hnone =>
    have hcloses := hend.closes.mp (Option.isNone_iff_eq_none.mp hnone)
    refine ⟨rfl, ⟨?_, ?_, hend.stale, hend.late⟩, hend.closes⟩
    · show d.destroyed + 1 ≤ 1
      omega
    · exact iff_of_true (congrArg (· + 1) hdestroyed) hcloses
  -- nobody closed it, and it stays
  · next hsome =>
    have hcloses : ¬ 0 < d.closes :=
      fun hpos => hsome (Option.isNone_iff_eq_none.mpr (hend.closes.mpr hpos))
    refine ⟨rfl, ⟨?_, ?_, hend.stale, hend.late⟩, hend.closes⟩
    · show d.destroyed ≤ 1
      omega
    · show d.destroyed = 1 ↔ 0 < d.closes
      omega

/-! ## Calls that delete at once -/

/-- Sending closes nothing. -/
theorem Alive.send {c : Connection} (h : Alive c) (data : List UInt8) :
    Alive (c.sendRawData data) := by
  rw [sendRawData, touch_of_not_destroyed h.destroyed]
  split
  · exact h
  · exact ⟨h.is_in_processing, h.bev, h.closes, h.destroyed, h.stale, h.late⟩

/-- `CloseAndDestroy` outside of `OnDataReady`. -/
theorem Alive.closeAndDestroy {c : Connection} (h : Alive c) :
    Idle c.closeAndDestroy ∧ c.closeAndDestroy.destroyed = 1 := by
  have hoff : ¬ c.is_in_processing = true := by
    rw [h.is_in_processing]
    exact Bool.false_ne_true
  rw [Connection.closeAndDestroy, close, touch_of_not_destroyed h.destroyed]
  dsimp only
  rw [if_neg hoff]
  have hdestroyed : c.destroyed + 1 = 1 := congrArg (· + 1) h.destroyed
  refine ⟨⟨h.is_in_processing, ⟨Nat.le_of_eq hdestroyed, ?_, h.stale, h.late⟩, ?_⟩, hdestroyed⟩
  · exact iff_of_true hdestroyed (Nat.succ_pos _)
  · exact iff_of_true rfl (Nat.succ_pos _)

/-- Every call touches the object. -/
theorem stale_perform (c : Connection) (call : Call) :
    c.stale + (if c.destroyed = 0 then 0 else 1) ≤ (c.perform call).stale ∧
      c.destroyed ≤ (c.perform call).destroyed := by
  -- a call on a destroyed connection is counted, whichever call it is
  have htouch : c.touch.stale = c.stale + if c.destroyed = 0 then 0 else 1 := by
    rw [touch]
    dsimp only
    split
    · rfl
    · rfl
  have hsend : ∀ data, (c.sendRawData data).stale = c.touch.stale ∧
      (c.sendRawData data).destroyed = c.destroyed := by
    intro data
    rw [sendRawData]
    split
    · exact ⟨rfl, rfl⟩
    · exact ⟨rfl, rfl⟩
  rw [← htouch]
  -- only `CloseAndDestroy` can destroy
  cases call with
  | closeAndDestroy =>
    rw [perform, Connection.closeAndDestroy]
    dsimp only
    split
    · exact ⟨Nat.le_refl _, Nat.le_refl _⟩
    · exact ⟨Nat.le_refl _, Nat.le_succ _⟩
  | sendPacket packed => exact ⟨Nat.le_of_eq (hsend packed).1.symm, Nat.le_of_eq (hsend packed).2.symm⟩
  | sendRawData data => exact ⟨Nat.le_of_eq (hsend data).1.symm, Nat.le_of_eq (hsend data).2.symm⟩

/-- Calls only add to what was touched too late. -/
theorem stale_react (calls : List Call) (c : Connection) : c.stale ≤ (react calls c).stale := by
  induction calls generalizing c with
  | nil => exact Nat.le_refl _
  | cons call calls ih =>
    have hfirst := (stale_perform c call).1
    have hrest : (c.perform call).stale ≤ (react (call :: calls) c).stale := ih (c.perform call)
    omega

/-- Calls on an object that is gone are seen. -/
theorem stale_of_destroyed {c : Connection} (h : c.destroyed ≠ 0) (call : Call)
    (calls : List Call) : 0 < (react (call :: calls) c).stale := by
  have hfirst := (stale_perform c call).1
  rw [if_neg h] at hfirst
  have hrest : (c.perform call).stale ≤ (react (call :: calls) c).stale :=
    stale_react calls (c.perform call)
  omega

/-- A call that does not close may stand in front. -/
theorem lastCloses_cons {call : Call} {calls : List Call} (h : call ≠ .closeAndDestroy) :
    LastCloses (call :: calls) ↔ LastCloses calls := by
  constructor
  · intro hlast before after heq
    exact hlast (call :: before) after (by rw [heq, List.cons_append])
  · intro hlast before after heq
    cases before with
    | nil =>
      cases heq
      exact absurd rfl h
    | cons b before =>
      cases heq
      exact hlast before after rfl

/-- Behind a `CloseAndDestroy` nothing may stand. -/
theorem lastCloses_close {calls : List Call} :
    LastCloses (.closeAndDestroy :: calls) ↔ calls = [] := by
  constructor
  · intro hlast
    exact hlast [] calls rfl
  · rintro rfl before after heq
    cases before with
    | nil =>
      cases heq
      rfl
    | cons b before => exact absurd (List.cons.inj heq).2 (by simp)

/-- **Outside of `OnDataReady` a callback may call nothing after a `CloseAndDestroy`.** -/
theorem react_alive {c : Connection} (h : Alive c) (calls : List Call) :
    (LastCloses calls → Idle (react calls c)) ∧
      (DestroyedOnce (react calls c) → LastCloses calls) := by
  -- induction on the calls: behind a close nothing may follow
  induction calls generalizing c with
  | nil => exact ⟨fun _ => h.idle, fun _ before after heq => absurd heq (by simp)⟩
  | cons call calls ih =>
    cases call with
    | closeAndDestroy =>
      obtain ⟨hidle, hdestroyed⟩ := h.closeAndDestroy
      rw [lastCloses_close]
      constructor
      · rintro rfl
        exact hidle
      -- a call behind the close touches a destroyed connection
      · intro hgood
        cases calls with
        | nil => rfl
        | cons call calls =>
          have hstale : 0 < (react (call :: calls) c.closeAndDestroy).stale :=
            stale_of_destroyed (by omega) call calls
          have hzero : (react (call :: calls) c.closeAndDestroy).stale = 0 := hgood.stale
          omega
    | sendPacket packed =>
      have hne : Call.sendPacket packed ≠ .closeAndDestroy := nofun
      rw [lastCloses_cons hne]
      exact ih (h.send packed)
    | sendRawData data =>
      have hne : Call.sendRawData data ≠ .closeAndDestroy := nofun
      rw [lastCloses_cons hne]
      exact ih (h.send data)

/-! ## Steps -/

/-- Telling an error to the callback of a living connection. -/
theorem notify_error {c : Connection} (h : Alive c) {cb : Callback} (hcb : c.callback = some cb)
    (events : Nat) : notify (.error events) c =
      react (cb.calls c.told (.error events)) { c with told := c.told ++ [.error events] } := by
  rw [notify_some hcb, touch_of_not_destroyed h.destroyed]
  rfl

/-- `OnEvent` deletes once exactly if the callback calls nothing after a `CloseAndDestroy`. -/
theorem onEvent_alive {c : Connection} (h : Alive c) (events : Nat) :
    (LetsGo c (.event events) → Idle (c.onEvent events)) ∧
      (DestroyedOnce (c.onEvent events) → LetsGo c (.event events)) := by
  rw [onEvent, touch_of_not_destroyed h.destroyed]
  split
  · next hmask =>
    cases hcb : c.callback with
    | none =>
      rw [notify, touch_of_not_destroyed h.destroyed, hcb]
      exact ⟨fun _ => h.idle, fun _ _ cb hsome => by cases hcb.symm.trans hsome⟩
    | some cb =>
      rw [notify_error h hcb]
      -- the callback is told of an error, which is no packet
      have htold : Alive { c with told := c.told ++ [.error events] } :=
        ⟨h.is_in_processing, h.bev, h.closes, h.destroyed, h.stale, h.late⟩
      obtain ⟨hidle, hlast⟩ := react_alive htold (cb.calls c.told (.error events))
      constructor
      · intro hlets
        exact hidle (hlets hmask cb hcb)
      · intro hgood _ cb' hcb'
        cases hcb.symm.trans hcb'
        exact hlast hgood
  · next hmask => exact ⟨fun _ => h.idle, fun _ hmask' => absurd hmask' hmask⟩

/-- Whether an external caller has closed plays no role. -/
theorem Idle.released {c : Connection} (h : Idle c) (b : Bool) : Idle { c with released := b } :=
  ⟨h.is_in_processing, ⟨h.good.once, h.good.closed, h.good.stale, h.good.late⟩, h.closes⟩

/-- A call from outside goes well exactly if the object is there. -/
theorem external_idle {c : Connection} (h : Idle c) (call : Call) :
    (c.destroyed = 0 → Idle (c.next (.external call))) ∧
      (DestroyedOnce (c.next (.external call)) → c.destroyed = 0) := by
  constructor
  · intro hdestroyed
    have hcloses : ¬ 0 < c.closes := by
      intro hpos
      have hone := h.good.closed.mpr hpos
      omega
    -- what is not destroyed was never closed, since nothing is being processed
    have halive : Alive c := h.alive fun hbev => hcloses (h.closes.mp hbev)
    refine Idle.released ?_ _
    cases call with
    | closeAndDestroy => exact halive.closeAndDestroy.1
    | sendPacket packed => exact (halive.send packed).idle
    | sendRawData data => exact (halive.send data).idle
  -- a call on a destroyed connection is stale
  · intro hgood
    by_contra hdestroyed
    have hstale : 0 < (c.perform call).stale := stale_of_destroyed hdestroyed call []
    have hzero : (c.perform call).stale = 0 := hgood.stale
    omega

/-- A step ends at rest exactly if the condition on it holds. -/
theorem step_idle {c c' : Connection} {i : Input} (h : Idle c) (hstep : Step c i c') :
    (LetsGo c i → Idle c') ∧ (DestroyedOnce c' → LetsGo c i) := by
  obtain ⟨henabled, rfl⟩ := hstep
  cases i with
  | read chunk reads heap =>
    have hbev : c.bev ≠ none := Option.isSome_iff_ne_none.mp henabled
    have halive := h.alive hbev
    have hmore : Alive { c with bev := c.bev.map (· ++ chunk) } := by
      refine ⟨halive.is_in_processing, ?_, halive.closes, halive.destroyed, halive.stale,
        halive.late⟩
      exact fun hnone => hbev (Option.map_eq_none_iff.mp hnone)
    exact ⟨fun _ => onDataReady_idle reads heap hmore, fun _ => trivial⟩
  | event events => exact onEvent_alive (h.alive (Option.isSome_iff_ne_none.mp henabled)) events
  | external call => exact external_idle h call

/-- A new connection is at rest. -/
theorem idle_create (callback : Option Callback) : Idle (create callback) :=
  ⟨rfl, ⟨Nat.zero_le _, iff_of_false nofun (Nat.lt_irrefl 0), rfl, rfl⟩,
    iff_of_false nofun (Nat.lt_irrefl 0)⟩

/-- **Exactly one deletion, and nothing after it: in every run, exactly as long as nothing is called on
    an object that is gone.** -/
theorem destroyed_once_iff {callback : Option Callback} {c : Connection}
    {ts : List (Connection × Input × Connection)} (hrun : Run Step (create callback) ts c) :
    (∀ x ∈ ts, DestroyedOnce x.2.2) ↔ ∀ x ∈ ts, LetsGo x.1 x.2.1 := by
  apply Run.property_iff _ _ hrun (idle_create callback)
  · intro c i c' hidle hstep
    obtain ⟨hlets, hgood⟩ := step_idle hidle hstep
    exact ⟨hgood, fun h => (hlets h).good⟩
  · intro c i c' hidle hlets hstep
    exact (step_idle hidle hstep).1 hlets

/-- A callback that sends and closes three times on a packet, and closes once on an error. -/
def closing : Callback where
  calls _ e := if isPacket e then [.closeAndDestroy, .sendRawData [1], .closeAndDestroy,
    .closeAndDestroy] else [.sendRawData [2], .closeAndDestroy]

theorem destroyed_once_closing : ∃ ts c, Run Step (create (some closing)) ts c ∧
    ts.map (·.2.1) = [.external (.sendRawData [0]), .event 0x02, .read [6, 0, 1, 0, 2, 0]
      (fun _ => true) fun _ _ => 0] ∧ ∀ x ∈ ts, DestroyedOnce x.2.2 := by
  have h₁ : Step (create (some closing)) (.external (.sendRawData [0])) _ := ⟨rfl, rfl⟩
  have hrun₂ := (Run.single h₁).snoc (i := Input.event 0x02) ⟨rfl, rfl⟩
  have hrun := hrun₂.snoc (i := Input.read [6, 0, 1, 0, 2, 0] (fun _ => true) fun _ _ => 0) ⟨rfl, rfl⟩
  refine ⟨_, _, hrun, rfl, (destroyed_once_iff hrun).mpr ?_⟩
  simp only [List.mem_append, List.mem_singleton]
  rintro x ((rfl | rfl) | rfl)
  · rfl
  · exact fun hmask => absurd hmask (by decide)
  · trivial

/-- A callback that closes twice. -/
def closingTwice : Callback where
  calls _ _ := [.closeAndDestroy, .closeAndDestroy]

/-- **On EOF, a callback that closes twice deletes the object twice.** -/
theorem closingTwice_destroys_twice : ∃ c, Run Step (create (some closingTwice))
      [(create (some closingTwice), .event BEV_EVENT_EOF, c)] c ∧
    c.destroyed = 2 ∧ c.stale = 1 ∧ ¬ DestroyedOnce c := by
  refine ⟨_, Run.single ⟨rfl, rfl⟩, rfl, rfl, ?_⟩
  rintro ⟨honce, -, -, -⟩
  exact absurd honce (by decide)

end Connection

end Lifetime

end Turnserver
