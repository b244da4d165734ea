/-
  THE RECONNECT SCHEDULE (`network/tcp_client.cpp`) — when a `TcpClient` tries again.

  `ScheduleNextTry` is called for every connection that ends with an error or falls silent.  After a
  short-lived one the next try is `next_try_interval_` seconds away, and the interval grows by the
  factor `backoff_` up to `kMaxTimeout`; after any other the interval starts again from
  `reconnect_timeout_`.  The cap is on the interval that is computed, not on the one that is used: an
  interval that starts from a `reconnect_timeout_` beyond `kMaxTimeout` is used once as it is, and what
  follows it is shorter.

  1. `Recorded` — the client beside a ghost, the log of all calls of `ScheduleNextTry` and of the
     `Connect`s of `OnTimer`.  Every function is the one of `World`, with the log; without the log
     nothing changes (`next_world`, `record_world`).
  2. `Kept` — nobody but `ScheduleNextTry` writes `next_try_interval_` and `next_try_ts_`.  So the log
     tells what each call finds in them (`record_kept`).
  3. `Unfolds` of `Finds` — the invariant of the delays is an induction on the calls alone
     (`delay_bounds`): a call finds what the call before it left.

  The delays are within their bounds exactly in the runs in which no short-lived connection follows a
  reset to more than `kMaxTimeout` seconds (`run_bounded_iff`).
-/
import Turnserver.Network.TcpClient
import Mathlib.Data.List.Chain
import Mathlib.Data.Rat.Floor

namespace Turnserver

open Transition

/-! ## What is recorded -/

/-- A call of `ScheduleNextTry`: the time, and the client as the call finds it. -/
structure Scheduling where
  now : Int
  client : TcpClient

namespace Scheduling

/-- The client as the call leaves it. -/
def after (s : Scheduling) : TcpClient := s.client.scheduleNextTry s.now

/-- The connection that ended did not outlive `kShortConnectionInterval`. -/
def Short (s : Scheduling) : Prop := s.now ≤ s.client.last_try_ts + TcpClient.kShortConnectionInterval

instance (s : Scheduling) : Decidable s.Short := inferInstanceAs (Decidable (_ ≤ _))

/-- The retry delay that the call chooses for a short-lived connection. -/
def delay (s : Scheduling) : Int := s.after.next_try_ts - s.now

end Scheduling

/-- What the log says, in the order of events. -/
inductive Entry
  | scheduled (s : Scheduling)
  /-- `OnTimer` calls `Connect`. -/
  | timerConnect (now : Int)

/-- The calls of `ScheduleNextTry` in a log. -/
def schedulings (log : List Entry) : List Scheduling :=
  log.filterMap fun
    | .scheduled s => some s
    | .timerConnect _ => none

/-- A client and its log. -/
structure Recorded (σ P : Type) where
  world : World σ P
  log : List Entry

/-! ## The functions of the client, recorded -/

namespace Recorded

variable {σ P : Type}

/-- What is not logged. -/
def map (f : World σ P → World σ P) (x : Recorded σ P) : Recorded σ P := { x with world := f x.world }

/-- An entry is written. -/
def write (e : Entry) (x : Recorded σ P) : Recorded σ P := { x with log := x.log ++ [e] }

/-- `ScheduleNextTry`, recorded. -/
def scheduleNextTry (now : Int) (x : Recorded σ P) : Recorded σ P :=
  (x.write (.scheduled ⟨now, x.world.client⟩)).map fun w => w.update (TcpClient.scheduleNextTry now)

/-- `OnConnect`, recorded. -/
def onConnect (reaction : Recorded σ P → Recorded σ P) (now : Int) (events : BevEvent)
    (x : Recorded σ P) : Recorded σ P :=
  let x := x.map fun w => (((w.require w.client.pending.isSome .noPending).require
    w.client.conn.isNone .alreadyConnected).require w.client.connecting .notConnecting).update
      fun c => { c with connecting := false }
  match events with
  | .connected => reaction (x.map fun w => (w.update fun c => { c with conn := c.pending }).release)
  | .error => reaction ((x.scheduleNextTry now).map World.release)
  | .other => x.map fun w => w.update fun c => { c with pending := none }

/-- `ConnectCallback`, recorded. -/
def connectCallback (reaction : Recorded σ P → Recorded σ P) (now : Int) (bev : Bev)
    (events : BevEvent) (x : Recorded σ P) : Recorded σ P :=
  (x.map fun w => w.require (some bev == w.client.pending) .otherBufferevent).onConnect reaction now
    events

/-- `Connect`, recorded. -/
def connect (reaction : Recorded σ P → Recorded σ P) (now : Int) (sys : Syscalls) (x : Recorded σ P) :
    Recorded σ P :=
  if x.world.client.connecting then x
  else
    let x := x.map fun w =>
      w.update fun c => { c with last_try_ts := now, last_active_ts := now, conn := none }
    if !sys.socket then x
    else if !sys.setNonBlocking then x
    else
      let bev := x.world.created
      let x := x.map World.newPending
      if x.world.client.local_port ≠ 0 ∧ !sys.bind then
        x.map fun w => w.release.update fun c => { c with connecting := false }
      else if !sys.connect then
        (x.connectCallback reaction now bev .error).map
          fun w => w.update fun c => { c with connecting := false }
      else x

/-- `OnError`, recorded. -/
def onError (reaction : Recorded σ P → Recorded σ P) (now : Int) (x : Recorded σ P) : Recorded σ P :=
  reaction ((x.scheduleNextTry now).map World.close)

/-- `OnPacketReceived`, recorded. -/
def onPacketReceived (reaction : Recorded σ P → Recorded σ P) (now : Int) (conn : Bev) (pkr : Unpacker)
    (server_type uri : UInt16) (x : Recorded σ P) : Recorded σ P :=
  reaction (x.map fun w =>
    let w := w.update fun c => { c with last_active_ts := now }
    { w with traffic := w.traffic ++ [.received conn pkr server_type uri] })

/-- `OnTimer`, recorded. -/
def onTimer (reaction : Recorded σ P → Recorded σ P) (now : Int) (sys : Syscalls) (x : Recorded σ P) :
    Recorded σ P :=
  if x.world.silent now then (x.scheduleNextTry now).map World.close
  else if x.world.client.isConnected then reaction x
  else if !x.world.client.connecting ∧ x.world.client.next_try_ts ≤ now then
    (x.write (.timerConnect now)).connect reaction now sys
  else x

mutual

/-- A call, recorded. -/
def perform : Call P → Recorded σ P → Recorded σ P
  | .connect now sys reaction, x => x.connect (performAll reaction) now sys
  | .close, x => x.map World.close
  | .sendPacket p, x => x.map fun w => (w.sendPacket p).1
  | .setTimeout seconds, x => x.map fun w => w.update (TcpClient.setTimeout seconds)
  | .setBackoff backoff, x => x.map fun w => w.update (TcpClient.setBackoff backoff)

/-- Calls, recorded one after the other. -/
def performAll : List (Call P) → Recorded σ P → Recorded σ P
  | [], x => x
  | c :: cs, x => performAll cs (perform c x)

end

/-- An input, recorded. -/
def next (x : Recorded σ P) : TcpClient.Input P → Recorded σ P
  | .call c => x.perform c
  | .connectCompleted now bev success reaction =>
    x.connectCallback (performAll reaction) now bev (if success then .connected else .error)
  | .packetReceived now conn pkr server_type uri reaction =>
    x.onPacketReceived (performAll reaction) now conn pkr server_type uri
  | .socketError now _ reaction => x.onError (performAll reaction) now
  | .timer now sys reaction => x.onTimer (performAll reaction) now sys

/-- A run from `w`, recorded. -/
def record (w : World σ P) (inputs : List (TcpClient.Input P)) : Recorded σ P :=
  inputs.foldl next ⟨w, []⟩

/-! ## Without the log, nothing changes -/

/-- A reaction that is recorded, and the one that is not. -/
def Records (recorded : Recorded σ P → Recorded σ P) (reaction : World σ P → World σ P) : Prop :=
  ∀ x, (recorded x).world = reaction x.world

theorem Records.onConnect {recorded : Recorded σ P → Recorded σ P} {reaction : World σ P → World σ P}
    (h : Records recorded reaction) (now : Int) (events : BevEvent) (x : Recorded σ P) :
    (x.onConnect recorded now events).world = x.world.onConnect (.doing reaction) now events := by
  cases events with
  | connected => exact h _
  | error => exact h _
  | other => rfl

theorem Records.connect {recorded : Recorded σ P → Recorded σ P} {reaction : World σ P → World σ P}
    (h : Records recorded reaction) (now : Int) (sys : Syscalls) (x : Recorded σ P) :
    (x.connect recorded now sys).world = (x.world.connect (.doing reaction) now sys).1 := by
  unfold Recorded.connect World.connect
  split
  · rfl
  · dsimp only [map]
    split
    · rfl
    · split
      · rfl
      · split
        · rfl
        · split
          · exact congrArg (World.update fun c => { c with connecting := false })
              (h.onConnect now .error _)
          · rfl

theorem Records.onTimer {recorded : Recorded σ P → Recorded σ P} {reaction : World σ P → World σ P}
    (h : Records recorded reaction) (now : Int) (sys : Syscalls) (x : Recorded σ P) :
    (x.onTimer recorded now sys).world = x.world.onTimer (.doing reaction) now sys := by
  unfold Recorded.onTimer World.onTimer
  split
  · rfl
  · split
    · exact h x
    · split
      · exact h.connect now sys _
      · rfl

mutual

theorem perform_world : ∀ (c : Call P) (x : Recorded σ P), (x.perform c).world = c.perform x.world
  | .connect now sys reaction, x => by
    unfold perform Call.perform
    exact Records.connect (performAll_world reaction) now sys x
  | .close, x => by
    unfold perform Call.perform
    rfl
  | .sendPacket p, x => by
    unfold perform Call.perform
    rfl
  | .setTimeout seconds, x => by
    unfold perform Call.perform
    rfl
  | .setBackoff backoff, x => by
    unfold perform Call.perform
    rfl

/-- Calls do what they do unrecorded. -/
theorem performAll_world : ∀ cs : List (Call P),
    Records (σ := σ) (performAll cs) (Call.performAll cs)
  | [], x => by
    unfold performAll Call.performAll
    rfl
  | c :: cs, x => by
    unfold performAll Call.performAll
    rw [performAll_world cs, perform_world c]

end

theorem next_world (x : Recorded σ P) (i : TcpClient.Input P) : (x.next i).world = x.world.next i := by
  cases i with
  | call c => exact perform_world c x
  | connectCompleted now bev success reaction =>
    exact Records.onConnect (performAll_world reaction) now _ _
  | packetReceived now conn pkr server_type uri reaction => exact performAll_world reaction _
  | socketError now conn reaction => exact performAll_world reaction _
  | timer now sys reaction => exact Records.onTimer (performAll_world reaction) now sys x

/-- The recorded run is the run. -/
theorem record_world {w w' : World σ P} {ts : List (World σ P × TcpClient.Input P × World σ P)}
    (h : Run World.Step w ts w') : (record w (ts.map fun x => x.2.1)).world = w' := by
  induction h with
  | nil => rfl
  | snoc hrun hstep ih =>
    unfold record at ih ⊢
    rw [List.map_append, List.foldl_append, List.map_singleton, List.foldl_cons, List.foldl_nil,
      next_world, ih, hstep.2]

end Recorded

/-! ## What a call finds -/

@[simp] theorem schedulings_scheduled (log : List Entry) (s : Scheduling) :
    schedulings (log ++ [.scheduled s]) = schedulings log ++ [s] := by
  simp [schedulings]

@[simp] theorem schedulings_timerConnect (log : List Entry) (now : Int) :
    schedulings (log ++ [.timerConnect now]) = schedulings log := by
  simp [schedulings]

/-- The two fields that `ScheduleNextTry` writes: the interval, and the time of the next try. -/
def TcpClient.schedule (c : TcpClient) : Int × Int := (c.next_try_interval, c.next_try_ts)

/-- What the calls so far left in them. -/
def scheduleAfter (ss : List Scheduling) : Int × Int :=
  (ss.getLast?.map fun s => s.after.schedule).getD (TcpClient.kReconnectTimeout, 0)

@[simp] theorem scheduleAfter_concat (ss : List Scheduling) (s : Scheduling) :
    scheduleAfter (ss ++ [s]) = s.after.schedule := by
  simp [scheduleAfter]

/-- What an entry says about the entries before it. -/
def Finds (before : List Entry) : Entry → Prop
  | .scheduled s => s.client.schedule = scheduleAfter (schedulings before)
  | .timerConnect now => (scheduleAfter (schedulings before)).2 ≤ now

namespace Recorded

variable {σ P : Type}

/-- The two fields are what the last call left, now and at every entry. -/
structure Kept (x : Recorded σ P) : Prop where
  schedule_eq : x.world.client.schedule = scheduleAfter (schedulings x.log)
  unfolds : Unfolds Finds x.log

/-- A new client has the schedule of an empty log. -/
theorem fresh_kept (now : Int) (local_port : UInt16) (backoff : Rat) (user : σ) :
    (⟨World.fresh now local_port backoff user, []⟩ : Recorded σ P).Kept :=
  ⟨rfl, unfolds_nil _⟩

/-- `f` leaves the two fields alone. -/
def Spares (f : World σ P → World σ P) : Prop := ∀ w, (f w).client.schedule = w.client.schedule

theorem Kept.map {x : Recorded σ P} (h : x.Kept) {f : World σ P → World σ P} (hf : Spares f) :
    (x.map f).Kept :=
  ⟨(hf x.world).trans h.schedule_eq, h.unfolds⟩

/-- `ScheduleNextTry` writes the two fields, and the log says so. -/
theorem Kept.scheduleNextTry {x : Recorded σ P} (h : x.Kept) (now : Int) :
    (x.scheduleNextTry now).Kept := by
  refine ⟨?_, unfolds_concat.mpr ⟨h.unfolds, h.schedule_eq⟩⟩
  show _ = scheduleAfter (schedulings (x.log ++ [_]))
  rw [schedulings_scheduled, scheduleAfter_concat]
  rfl

/-- When the timer calls `Connect`, the time of the next try has come. -/
theorem Kept.timerConnect {x : Recorded σ P} (h : x.Kept) {now : Int}
    (hdue : x.world.client.next_try_ts ≤ now) : (x.write (.timerConnect now)).Kept := by
  have hdue' : (scheduleAfter (schedulings x.log)).2 ≤ now := by
    rw [← h.schedule_eq]
    exact hdue
  refine ⟨?_, unfolds_concat.mpr ⟨h.unfolds, hdue'⟩⟩
  show _ = scheduleAfter (schedulings (x.log ++ [_]))
  rw [schedulings_timerConnect]
  exact h.schedule_eq

/-- A check leaves the client alone. -/
theorem require_client (ok : Bool) (failure : Failure) (w : World σ P) :
    (w.require ok failure).client = w.client := by
  unfold World.require
  split <;> rfl

theorem spares_close : Spares (World.close : World σ P → World σ P) := by
  intro w
  unfold World.close
  split
  · show TcpClient.schedule (World.require _ _ w).client = _
    rw [require_client]
  · show TcpClient.schedule (World.require _ _ w).client = _
    rw [require_client]

theorem spares_newPending : Spares (World.newPending : World σ P → World σ P) := by
  intro w
  show TcpClient.schedule (World.require _ _ w).client = _
  rw [require_client]

theorem spares_sendPacket (p : P) : Spares fun w : World σ P => (w.sendPacket p).1 := by
  intro w
  dsimp only
  unfold World.sendPacket
  split <;> rfl

/-- A reaction after which the log is still right. -/
def Keeps (reaction : Recorded σ P → Recorded σ P) : Prop := ∀ x, x.Kept → (reaction x).Kept

theorem Kept.onConnect {x : Recorded σ P} (h : x.Kept) {reaction : Recorded σ P → Recorded σ P}
    (hreaction : Keeps reaction) (now : Int) (events : BevEvent) :
    (x.onConnect reaction now events).Kept := by
  have hcleared : (x.map fun w => (((w.require w.client.pending.isSome .noPending).require
      w.client.conn.isNone .alreadyConnected).require w.client.connecting .notConnecting).update
        fun c => { c with connecting := false }).Kept := by
    refine h.map fun w => ?_
    show TcpClient.schedule (World.require _ _ _).client = _
    rw [require_client, require_client, require_client]
  unfold Recorded.onConnect
  cases events with
  | connected => exact hreaction _ (hcleared.map fun _ => rfl)
  | error => exact hreaction _ ((hcleared.scheduleNextTry now).map fun _ => rfl)
  | other => exact hcleared.map fun _ => rfl

theorem Kept.connectCallback {x : Recorded σ P} (h : x.Kept)
    {reaction : Recorded σ P → Recorded σ P} (hreaction : Keeps reaction) (now : Int) (bev : Bev)
    (events : BevEvent) : (x.connectCallback reaction now bev events).Kept := by
  refine Kept.onConnect (h.map fun w => ?_) hreaction now events
  rw [require_client]

theorem Kept.connect {x : Recorded σ P} (h : x.Kept) {reaction : Recorded σ P → Recorded σ P}
    (hreaction : Keeps reaction) (now : Int) (sys : Syscalls) :
    (x.connect reaction now sys).Kept := by
  have htried : (x.map fun w => w.update fun c =>
      { c with last_try_ts := now, last_active_ts := now, conn := none }).Kept :=
    h.map fun _ => rfl
  have hnew := htried.map spares_newPending
  unfold Recorded.connect
  -- the same cases as in `Connect`; only a failed connect reaches the reaction
  split
  · exact h
  · dsimp only
    split
    · exact htried
    · split
      · exact htried
      · split
        · exact hnew.map fun _ => rfl
        · split
          -- the system call fails at once, and libevent reports the error from inside `Connect`
          · exact (hnew.connectCallback hreaction now _ .error).map fun _ => rfl
          · exact hnew

theorem Kept.onTimer {x : Recorded σ P} (h : x.Kept) {reaction : Recorded σ P → Recorded σ P}
    (hreaction : Keeps reaction) (now : Int) (sys : Syscalls) :
    (x.onTimer reaction now sys).Kept := by
  unfold Recorded.onTimer
  split
  · exact (h.scheduleNextTry now).map spares_close
  · split
    · exact hreaction x h
    · split
      · rename_i hdue
        exact (h.timerConnect hdue.2).connect hreaction now sys
      · exact h

mutual

theorem perform_kept : ∀ c : Call P, Keeps (σ := σ) (perform c)
  | .connect now sys reaction, x, h => by
    unfold perform
    exact h.connect (performAll_kept reaction) now sys
  | .close, x, h => by
    unfold perform
    exact h.map spares_close
  | .sendPacket p, x, h => by
    unfold perform
    exact h.map (spares_sendPacket p)
  | .setTimeout seconds, x, h => by
    unfold perform
    exact h.map fun _ => rfl
  | .setBackoff backoff, x, h => by
    unfold perform
    exact h.map fun _ => rfl

/-- Calls keep the log right. -/
theorem performAll_kept : ∀ cs : List (Call P), Keeps (σ := σ) (performAll cs)
  | [], x, h => by
    unfold performAll
    exact h
  | c :: cs, x, h => by
    unfold performAll
    exact performAll_kept cs _ (perform_kept c x h)

end

theorem Kept.next {x : Recorded σ P} (h : x.Kept) (i : TcpClient.Input P) : (x.next i).Kept := by
  cases i with
  | call c => exact perform_kept c x h
  | connectCompleted now bev success reaction =>
    exact h.connectCallback (performAll_kept reaction) now bev _
  | packetReceived now conn pkr server_type uri reaction =>
    exact performAll_kept reaction _ (h.map fun _ => rfl)
  | socketError now conn reaction =>
    exact performAll_kept reaction _ ((h.scheduleNextTry now).map spares_close)
  | timer now sys reaction => exact h.onTimer (performAll_kept reaction) now sys

/-- The record of a run is right. -/
theorem record_kept (now : Int) (local_port : UInt16) (backoff : Rat) (user : σ)
    (inputs : List (TcpClient.Input P)) :
    (record (World.fresh now local_port backoff user) inputs).Kept := by
  unfold record
  generalize hx : (⟨World.fresh now local_port backoff user, []⟩ : Recorded σ P) = x
  have h : x.Kept := hx ▸ fresh_kept now local_port backoff user
  clear hx
  induction inputs generalizing x with
  | nil => exact h
  | cons i is ih => exact ih _ (h.next i)

end Recorded

/-! ## One call -/

/-- An `int32_t` holds `n`. -/
def FitsInt32 (n : Int) : Prop := -2 ^ 31 ≤ n ∧ n < 2 ^ 31

theorem int32_of_fits {n : Int} (h : FitsInt32 n) : TcpClient.int32 n = n := by
  unfold TcpClient.int32
  unfold FitsInt32 at h
  apply Int.bmod_eq_of_le_mul_two
  · omega
  · omega

/-- A product with a factor that is not less than one, towards zero. -/
theorem le_tdiv {b : Rat} {n : Int} (hb : 1 ≤ b) (hn : 0 ≤ n) : n ≤ (b * n).num.tdiv (b * n).den := by
  have hn' : (0 : Rat) ≤ n := by exact_mod_cast hn
  have hle : (n : Rat) ≤ b * n := by
    calc (n : Rat) = 1 * n := (one_mul _).symm
      _ ≤ b * n := mul_le_mul_of_nonneg_right hb hn'
  have hnum : 0 ≤ (b * n).num := Rat.num_nonneg.mpr (hn'.trans hle)
  rw [Int.tdiv_eq_ediv_of_nonneg hnum, ← Rat.floor_def']
  exact Int.le_floor.mpr hle

namespace Scheduling

/-- Nothing that the call computes overflows an `int32_t`. -/
structure Defined (s : Scheduling) : Prop where
  last_try : FitsInt32 (s.client.last_try_ts + TcpClient.kShortConnectionInterval)
  next_try : s.Short → FitsInt32 (s.now + s.client.next_try_interval)
  product : s.Short → FitsInt32 ((s.client.backoff * s.client.next_try_interval).num.tdiv
    (s.client.backoff * s.client.next_try_interval).den)

/-- After a short-lived connection. -/
theorem after_of_short {s : Scheduling} (hdefined : s.Defined) (hshort : s.Short) :
    s.after.schedule = (min TcpClient.kMaxTimeout
      ((s.client.backoff * s.client.next_try_interval).num.tdiv
        (s.client.backoff * s.client.next_try_interval).den), s.now + s.client.next_try_interval) := by
  have htest : TcpClient.int32 (s.client.last_try_ts + TcpClient.kShortConnectionInterval) ≥ s.now := by
    rw [int32_of_fits hdefined.last_try]
    exact hshort
  unfold after TcpClient.scheduleNextTry
  rw [if_pos htest]
  unfold TcpClient.schedule TcpClient.truncate
  simp only [int32_of_fits (hdefined.next_try hshort), int32_of_fits (hdefined.product hshort), if_true]

/-- After a connection that outlived `kShortConnectionInterval`. -/
theorem after_of_long {s : Scheduling} (hdefined : s.Defined) (hlong : ¬s.Short) :
    s.after.schedule = (s.client.reconnect_timeout, 0) := by
  have htest : ¬TcpClient.int32 (s.client.last_try_ts + TcpClient.kShortConnectionInterval) ≥ s.now := by
    rw [int32_of_fits hdefined.last_try]
    exact hlong
  unfold after TcpClient.scheduleNextTry
  rw [if_neg htest]
  rfl

/-- After a short-lived connection the delay is the interval that the call finds. -/
theorem delay_eq {s : Scheduling} (hdefined : s.Defined) (hshort : s.Short) :
    s.delay = s.client.next_try_interval := by
  have hdue : s.after.next_try_ts = s.now + s.client.next_try_interval :=
    congrArg Prod.snd (after_of_short hdefined hshort)
  unfold delay
  rw [hdue]
  omega

/-- The interval grows, up to the cap, when it starts below. -/
theorem interval_grows {s : Scheduling} (hdefined : s.Defined) (hshort : s.Short)
    (hbackoff : 1 ≤ s.client.backoff) (hpos : 0 ≤ s.client.next_try_interval)
    (hmax : s.client.next_try_interval ≤ TcpClient.kMaxTimeout) :
    s.client.next_try_interval ≤ s.after.next_try_interval ∧
      s.after.next_try_interval ≤ TcpClient.kMaxTimeout := by
  have hinterval : s.after.next_try_interval = min TcpClient.kMaxTimeout _ :=
    congrArg Prod.fst (after_of_short hdefined hshort)
  rw [hinterval]
  exact ⟨le_min hmax (le_tdiv hbackoff hpos), min_le_left _ _⟩

end Scheduling

/-! ## All calls -/

/-- A call finds what the call before it left. -/
def Continues (before : List Scheduling) (s : Scheduling) : Prop :=
  s.client.schedule = scheduleAfter before

/-- In a log that is right every call finds what the one before it left. -/
theorem continues_of_finds {log : List Entry} (h : Unfolds Finds log) :
    Unfolds Continues (schedulings log) := by
  induction log using List.reverseRecOn with
  | nil => exact unfolds_nil _
  | append_singleton log e ih =>
    obtain ⟨hlog, he⟩ := unfolds_concat.mp h
    cases e with
    | scheduled s =>
      rw [schedulings_scheduled]
      exact unfolds_concat.mpr ⟨ih hlog, he⟩
    | timerConnect now =>
      rw [schedulings_timerConnect]
      exact ih hlog

/-- Every call is defined, with a factor that is not less than one. -/
def Regular (ss : List Scheduling) : Prop := ∀ s ∈ ss, s.Defined ∧ 1 ≤ s.client.backoff

/-- A short-lived connection comes after a longer one only if the interval was reset to at most
    `kMaxTimeout`. -/
def Capped (ss : List Scheduling) : Prop :=
  ∀ before s t after, ss = before ++ s :: t :: after → ¬s.Short → t.Short →
    1 ≤ s.client.reconnect_timeout ∧ s.client.reconnect_timeout ≤ TcpClient.kMaxTimeout

/-- A call after another one. -/
theorem interval_of_split {before after : List Scheduling} {s t : Scheduling} {ss : List Scheduling}
    (h : Unfolds Continues ss) (hsplit : ss = before ++ s :: t :: after) :
    t.client.next_try_interval = s.after.next_try_interval := by
  have ht : Continues (before ++ [s]) t :=
    h (before ++ [s]) t after (by rw [hsplit, List.append_assoc, List.singleton_append])
  unfold Continues at ht
  rw [scheduleAfter_concat] at ht
  exact congrArg Prod.fst ht

/-- **The delays.**  The induction is on the calls before the one in question: a reset brings the
    interval within its bounds, and a short-lived connection keeps it there. -/
theorem delay_bounds {ss : List Scheduling} (h : Unfolds Continues ss) (hregular : Regular ss)
    (hcapped : Capped ss) :
    ∀ before s after, ss = before ++ s :: after → s.Short →
      1 ≤ s.client.next_try_interval ∧ s.client.next_try_interval ≤ TcpClient.kMaxTimeout := by
  intro before
  -- induction on the schedulings before: the first delay is `kReconnectTimeout`
  induction before using List.reverseRecOn with
  | nil =>
    intro s after hsplit hshort
    have hs : s.client.next_try_interval = TcpClient.kReconnectTimeout :=
      congrArg Prod.fst (h [] s after hsplit)
    rw [hs]
    exact ⟨by decide, by decide⟩
  | append_singleton before s ih =>
    intro t after hsplit hshort
    rw [List.append_assoc, List.singleton_append] at hsplit
    obtain ⟨hdefined, hbackoff⟩ := hregular s (by simp [hsplit])
    rw [interval_of_split h hsplit]
    -- within a series the delay grows up to the cap; a connection that lasted resets it
    by_cases hs : s.Short
    · obtain ⟨hpos, hmax⟩ := ih s (t :: after) hsplit hs
      obtain ⟨hgrows, hcap⟩ := s.interval_grows hdefined hs hbackoff (by omega) hmax
      exact ⟨by omega, hcap⟩
    · have hreset : s.after.next_try_interval = s.client.reconnect_timeout :=
        congrArg Prod.fst (Scheduling.after_of_long hdefined hs)
      rw [hreset]
      exact hcapped before s t after hsplit hs hshort

/-- Each reset brings the interval within its bounds. -/
theorem capped_of_resets {ss : List Scheduling}
    (h : ∀ s ∈ ss, ¬s.Short →
      1 ≤ s.client.reconnect_timeout ∧ s.client.reconnect_timeout ≤ TcpClient.kMaxTimeout) :
    Capped ss := by
  intro before s t after hsplit hs ht
  exact h s (by simp [hsplit]) hs

/-- Two short-lived connections, one after the other. -/
theorem delay_le_next {ss before after : List Scheduling} {s t : Scheduling}
    (h : Unfolds Continues ss) (hregular : Regular ss) (hcapped : Capped ss)
    (hsplit : ss = before ++ s :: t :: after) (hs : s.Short) (ht : t.Short) : s.delay ≤ t.delay := by
  obtain ⟨hdefined, hbackoff⟩ := hregular s (by simp [hsplit])
  obtain ⟨hdefined', -⟩ := hregular t (by simp [hsplit])
  obtain ⟨hpos, hmax⟩ := delay_bounds h hregular hcapped before s (t :: after) hsplit hs
  obtain ⟨hgrows, -⟩ := s.interval_grows hdefined hs hbackoff (by omega) hmax
  rw [s.delay_eq hdefined hs, t.delay_eq hdefined' ht, interval_of_split h hsplit]
  exact hgrows

/-- In a series of short-lived connections the delays do not decrease: induction on the series. -/
theorem series_chain {ss after : List Scheduling} (h : Unfolds Continues ss) (hregular : Regular ss)
    (hcapped : Capped ss) (series : List Scheduling) (hshort : ∀ s ∈ series, s.Short) :
    ∀ before, ss = before ++ series ++ after → (series.map Scheduling.delay).IsChain (· ≤ ·) := by
  induction series with
  | nil => exact fun _ _ => .nil
  | cons s series ih =>
    intro before hsplit
    cases series with
    | nil => exact .singleton _
    | cons t series =>
      have hpair : ss = before ++ s :: t :: (series ++ after) := by simp [hsplit]
      have hle := delay_le_next h hregular hcapped hpair (hshort s (by simp)) (hshort t (by simp))
      have htail := ih (fun u hu => hshort u (List.mem_cons_of_mem _ hu)) (before ++ [s])
        (by simp [hsplit])
      exact .cons_cons hle htail

/-- What the schedule is for. -/
structure Bounded (log : List Entry) : Prop where
  delay : ∀ s ∈ schedulings log, s.Short → 1 ≤ s.delay ∧ s.delay ≤ TcpClient.kMaxTimeout
  /-- among short-lived connections that come one after the other -/
  series : ∀ before series after, schedulings log = before ++ series ++ after →
    (∀ s ∈ series, s.Short) → (series.map Scheduling.delay).Pairwise (· ≤ ·)
  /-- A connection that is not short-lived starts another series. -/
  reset : ∀ before s t after, schedulings log = before ++ s :: t :: after → ¬s.Short → t.Short →
    t.delay = s.client.reconnect_timeout
  timer : ∀ before now after, log = before ++ .timerConnect now :: after →
    ∀ s, (schedulings before).getLast? = some s → s.Short → s.now + s.delay ≤ now

/-- After a connection that was not short-lived the delay starts again. -/
theorem reset_delay {ss before after : List Scheduling} {s t : Scheduling} (h : Unfolds Continues ss)
    (hregular : Regular ss) (hsplit : ss = before ++ s :: t :: after) (hs : ¬s.Short) (ht : t.Short) :
    t.delay = s.client.reconnect_timeout := by
  obtain ⟨hdefined, -⟩ := hregular s (by simp [hsplit])
  obtain ⟨hdefined', -⟩ := hregular t (by simp [hsplit])
  rw [t.delay_eq hdefined' ht, interval_of_split h hsplit]
  exact congrArg Prod.fst (Scheduling.after_of_long hdefined hs)

/-- The timer waits for the delay. -/
theorem timer_waits {log before after : List Entry} {now : Int} {s : Scheduling}
    (h : Unfolds Finds log) (hsplit : log = before ++ .timerConnect now :: after)
    (hlast : (schedulings before).getLast? = some s) : s.now + s.delay ≤ now := by
  have hdue : (scheduleAfter (schedulings before)).2 ≤ now := h before (.timerConnect now) after hsplit
  unfold scheduleAfter at hdue
  rw [hlast] at hdue
  have hdue' : s.after.next_try_ts ≤ now := hdue
  unfold Scheduling.delay
  omega

/-- The schedule is bounded exactly if the interval is never reset out of bounds. -/
theorem bounded_iff {log : List Entry} (h : Unfolds Finds log) (hregular : Regular (schedulings log)) :
    Bounded log ↔ Capped (schedulings log) := by
  have hcontinues := continues_of_finds h
  constructor
  · intro hbounded before s t after hsplit hs ht
    rw [← hbounded.reset before s t after hsplit hs ht]
    -- the delay after a reset is the timeout it was reset to, and bounded as every delay
    exact hbounded.delay t (by simp [hsplit]) ht
  · intro hcapped
    constructor
    · intro s hs hshort
      obtain ⟨before, after, hsplit⟩ := List.append_of_mem hs
      rw [s.delay_eq (hregular s hs).1 hshort]
      -- the first part is a bound on each delay, the second one on a series, the third the reset
      exact delay_bounds hcontinues hregular hcapped before s after hsplit hshort
    · intro before series after hsplit hshort
      exact (series_chain hcontinues hregular hcapped series hshort before hsplit).pairwise
    · intro before s t after hsplit hs ht
      exact reset_delay hcontinues hregular hsplit hs ht
    · intro before now after hsplit s hlast _
      exact timer_waits h hsplit hlast

/-- **The reconnect schedule.**  In every run whose calls of `ScheduleNextTry` are regular, the log is
    as it should be exactly when no short-lived connection comes after a reset to more than
    `kMaxTimeout` seconds. -/
theorem run_bounded_iff {σ P : Type} {now : Int} {local_port : UInt16} {backoff : Rat} {user : σ}
    {w : World σ P} {ts : List (World σ P × TcpClient.Input P × World σ P)} {x : Recorded σ P}
    (hrun : Run World.Step (World.fresh now local_port backoff user) ts w)
    (hx : x = .record (World.fresh now local_port backoff user) (ts.map fun t => t.2.1))
    (hregular : Regular (schedulings x.log)) :
    x.world = w ∧ (Bounded x.log ↔ Capped (schedulings x.log)) := by
  subst hx
  exact ⟨Recorded.record_world hrun, bounded_iff (Recorded.record_kept ..).unfolds hregular⟩

/-! ## Two runs -/

instance (n : Int) : Decidable (FitsInt32 n) := inferInstanceAs (Decidable (_ ∧ _))

instance (s : Scheduling) : Decidable s.Defined :=
  decidable_of_iff
    (FitsInt32 (s.client.last_try_ts + TcpClient.kShortConnectionInterval) ∧
      (s.Short → FitsInt32 (s.now + s.client.next_try_interval)) ∧
      (s.Short → FitsInt32 ((s.client.backoff * s.client.next_try_interval).num.tdiv
        (s.client.backoff * s.client.next_try_interval).den)))
    ⟨fun ⟨h₁, h₂, h₃⟩ => ⟨h₁, h₂, h₃⟩, fun ⟨h₁, h₂, h₃⟩ => ⟨h₁, h₂, h₃⟩⟩

instance (ss : List Scheduling) : Decidable (Regular ss) :=
  inferInstanceAs (Decidable (∀ s ∈ ss, s.Defined ∧ 1 ≤ s.client.backoff))

instance {σ P : Type} (w : World σ P) : DecidablePred w.Enabled
  | .call _ => inferInstanceAs (Decidable True)
  | .connectCompleted _ bev _ _ => inferInstanceAs (Decidable (bev ∈ w.waiting))
  | .packetReceived _ conn _ _ _ _ => inferInstanceAs (Decidable (w.client.conn = some conn))
  | .socketError _ conn _ => inferInstanceAs (Decidable (w.client.conn = some conn))
  | .timer _ _ _ => inferInstanceAs (Decidable True)

/-- A client with a timeout of 20 seconds and the factor 2: two attempts fail, a connection lasts, and
    another attempt fails. -/
def doublingInputs : List (TcpClient.Input Unit) :=
  [.call (.setTimeout 20), .call (.setBackoff 2), .call (.connect 1000 World.routed []),
    .connectCompleted 1001 0 false [], .timer 1011 World.routed [], .connectCompleted 1012 1 false [],
    .timer 1032 World.routed [], .connectCompleted 1033 2 true [], .socketError 1200 2 [],
    .timer 1203 World.routed [], .connectCompleted 1204 3 false []]

/-- The delays are 10 and 20 seconds, and 20 after the connection that lasted. -/
theorem run_bounded_doubling :
    Bounded (Recorded.record (World.fresh 1000 0 1 () : World Unit Unit) doublingInputs).log := by
  have hrun : Run World.Step (World.fresh 1000 0 1 () : World Unit Unit)
      (trace World.next _ doublingInputs) _ := Run.of_inputs World.Enabled World.next (by decide +kernel)
  refine (run_bounded_iff hrun rfl (by decide +kernel)).2.mpr (capped_of_resets ?_)
  decide +kernel

/-- A timeout of 400 seconds, a connection that lasts, and two attempts that fail. -/
def beyondInputs : List (TcpClient.Input Unit) :=
  [.call (.setTimeout 400), .call (.connect 1000 World.routed []), .connectCompleted 1001 0 true [],
    .socketError 1100 0 [], .timer 1103 World.routed [], .connectCompleted 1104 1 false [],
    .timer 1504 World.routed [], .connectCompleted 1505 2 false []]

/-- The first retry is 400 seconds away, the second one 300. -/
theorem run_exceeds_max :
    let w₀ : World Unit Unit := World.fresh 1000 0 1 ()
    let log := (Recorded.record w₀ beyondInputs).log
    (∃ ts w, Run World.Step w₀ ts w ∧ ts.map (fun t => t.2.1) = beyondInputs) ∧
      Regular (schedulings log) ∧
      (schedulings log).map (fun s => decide s.Short) = [false, true, true] ∧
      ((schedulings log).map Scheduling.delay).tail = [400, 300] ∧ ¬Bounded log := by
  intro w₀ log
  have hrun : Run World.Step w₀ (trace World.next w₀ beyondInputs) _ :=
    Run.of_inputs World.Enabled World.next (by decide +kernel)
  refine ⟨⟨_, _, hrun, rfl⟩, by decide +kernel, by decide +kernel, by decide +kernel, ?_⟩
  intro hbounded
  have hdelay : ∀ s ∈ schedulings log, s.Short → 1 ≤ s.delay ∧ s.delay ≤ TcpClient.kMaxTimeout :=
    hbounded.delay
  revert hdelay
  decide +kernel

end Turnserver
