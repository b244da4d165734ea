/-
  THE LBS CLIENT (`lbs/uni_lbs_client.cpp`) — reporting the channels to every load balancer.

  A `UniLbsClient` has one `UniLbsConnection` for each address.  When a channel comes or goes it hands
  the change to all of them, and each sends it if it is joined.  On a join reply a connection sends all
  the channels there are.

  * The visitor's set of channels changes in no other way, and is what it answers when it is asked
    (`LbsSystem`, `Answers`).
  * What a load balancer knows is a `replay`: the last full list on the session, and the changes
    after it.

  The invariant is `Viewed`: a session on which a full list was sent belongs to a joined connection,
  so no change is missed from then on (`Shows.sendDelta`).  A change that is dropped before that is in
  the next full list.  That nothing was sent yet on a new session needs `Numbered`: bufferevents are
  not used twice.  `channel_view_converges` is the conclusion for whole runs.
-/
import Turnserver.Lbs.UniLbsConnection
import Mathlib.Data.List.Induction
import Mathlib.Data.Set.Insert

namespace Turnserver

open Transition UniLbsConnection

/-! ## The code -/

/-- An address that a `UniLbsClient` is given, and how the system calls of a `Connect` to it end. -/
structure LbsAddress where
  ip : UInt32
  syscalls : Syscalls

/-- The members of `UniLbsClient`; a connection stands under the address of its balancer. -/
structure UniLbsClient where
  service_name : List UInt8
  service_id : UInt32
  service_port : UInt32
  release_version : List UInt8
  connections : UInt32 → Option LbsWorld

namespace UniLbsClient

/-- `INADDR_LOOPBACK` -/
def INADDR_LOOPBACK : UInt32 := 0x7f000001

/-- The constructor. -/
def create (service_name release_version : List UInt8) : UniLbsClient :=
  ⟨service_name, 0, 0, release_version, fun _ => none⟩

/-- `new UniLbsConnection(...)` and its `Connect`; the constructor takes the port as a `uint16_t`. -/
def newConnection (now : Int) (syscalls : Syscalls) (c : UniLbsClient) : LbsWorld :=
  connected now syscalls c.service_name c.service_id c.service_port.toUInt16 c.release_version

/-- One round of the loop of `ReloadLbsAddresses`. -/
def reloadAddress (now : Int) (c : UniLbsClient) (new_connections : UInt32 → Option LbsWorld)
    (addr : LbsAddress) : UInt32 → Option LbsWorld :=
  match c.connections addr.ip with
  | some conn =>
    if new_connections addr.ip = none then Function.update new_connections addr.ip (some conn)
    else new_connections
  | none => Function.update new_connections addr.ip (some (c.newConnection now addr.syscalls))

/-- What is not in the new map is destroyed, and its session closed, when the maps are swapped. -/
def reloadLbsAddresses (now : Int) (new_addresses : List LbsAddress) (c : UniLbsClient) :
    UniLbsClient :=
  { c with connections := new_addresses.foldl (c.reloadAddress now) fun _ => none }

/-- `resolved` is what `ResolveHost` returns; `loopback` is for the address that is used without. -/
def reloadLbsHosts (now : Int) (resolved : List LbsAddress) (loopback : Syscalls)
    (c : UniLbsClient) : UniLbsClient :=
  c.reloadLbsAddresses now (if resolved.isEmpty then [⟨INADDR_LOOPBACK, loopback⟩] else resolved)

/-- `updateLbsAddresses` -/
def updateLbsAddresses (now : Int) (new_addresses : List LbsAddress) (c : UniLbsClient) :
    UniLbsClient :=
  if c.service_id ≠ 0 then c.reloadLbsAddresses now new_addresses else c

/-- `setServiceInformation` -/
def setServiceInformation (now : Int) (service_id service_port : UInt32) (resolved : List LbsAddress)
    (loopback : Syscalls) (c : UniLbsClient) : UniLbsClient :=
  reloadLbsHosts now resolved loopback
    { c with service_id := service_id, service_port := service_port }

/-- Something is done to every connection. -/
def forEach (f : LbsWorld → LbsWorld) (c : UniLbsClient) : UniLbsClient :=
  { c with connections := fun ip => (c.connections ip).map f }

/-- `doChannelCreate`: to every connection. -/
def doChannelCreate (vid cid : UInt32) (name : List UInt8) : UniLbsClient → UniLbsClient :=
  forEach (UniLbsConnection.doChannelCreate ⟨vid, cid, name⟩)

/-- `doChannelDestroy`: to every connection. -/
def doChannelDestroy (vid cid : UInt32) (name : List UInt8) : UniLbsClient → UniLbsClient :=
  forEach (UniLbsConnection.doChannelDestroy ⟨vid, cid, name⟩)

end UniLbsClient

/-! ## The client, its visitor and the network -/

/-- A channel as the load balancers see it. -/
abbrev Channel := UInt32 × List UInt8

/-- The client, and the visitor's set of channels. -/
structure LbsSystem where
  client : UniLbsClient
  channels : Set Channel

namespace LbsSystem

/-- What happens next.  An event of a connection is one of `UniLbsConnection.Input`. -/
inductive Input
  | create (vid cid : UInt32) (name : List UInt8)
  | destroy (vid cid : UInt32) (name : List UInt8)
  | event (ip : UInt32) (i : UniLbsConnection.Input)
  | setServiceInformation (now : Int) (service_id service_port : UInt32)
      (resolved : List LbsAddress) (loopback : Syscalls)
  | updateLbsAddresses (now : Int) (new_addresses : List LbsAddress)
  | reloadLbsHosts (now : Int) (resolved : List LbsAddress) (loopback : Syscalls)

/-- A list of channels, as it is sent. -/
def entries (channels : List ChannelInfo) : List Channel := channelEntries channels

/-- The visitor answers with its set of channels. -/
def Answers (channels : Set Channel) : UniLbsConnection.Input → Prop
  | .packetReceived _ _ _ _ _ visitor => ∀ e, e ∈ entries visitor.channels ↔ e ∈ channels
  | .doChannelCreate _ => False
  | .doChannelDestroy _ => False
  | _ => True

/-- An event is one of a connection in the map. -/
def Enabled (s : LbsSystem) : Input → Prop
  | .event ip i => ∃ w, s.client.connections ip = some w ∧ UniLbsConnection.Enabled w i ∧
      Answers s.channels i
  | _ => True

/-- What an input does to the client and to the channels that there are. -/
def next (s : LbsSystem) : Input → LbsSystem
  | .create vid cid name =>
    ⟨s.client.doChannelCreate vid cid name, insert (vid, name) s.channels⟩
  | .destroy vid cid name =>
    ⟨s.client.doChannelDestroy vid cid name, s.channels \ {(vid, name)}⟩
  | .event ip i =>
    { s with client := { s.client with
        connections := fun ip' =>
          if ip' = ip then (s.client.connections ip).map (UniLbsConnection.next · i)
          else s.client.connections ip' } }
  | .setServiceInformation now service_id service_port resolved loopback =>
    { s with client := s.client.setServiceInformation now service_id service_port resolved loopback }
  | .updateLbsAddresses now new_addresses =>
    { s with client := s.client.updateLbsAddresses now new_addresses }
  | .reloadLbsHosts now resolved loopback =>
    { s with client := s.client.reloadLbsHosts now resolved loopback }

/-- One step of the system. -/
def Step (s : LbsSystem) (i : Input) (s' : LbsSystem) : Prop := s.Enabled i ∧ s' = s.next i

/-! ## What a load balancer knows -/

/-- The channels of a full list. -/
def listed (v : Lbs.LbsFullChannelList.Val) : Set Channel :=
  let channels : List Channel := v.members.2.1
  {e | e ∈ channels}

/-- A change applied to what is known. -/
def applied (known : Set Channel) (v : Lbs.LbsDeltaChannelList.Val) : Set Channel :=
  let added : List Channel := v.members.2.1
  let removed : List Channel := v.members.2.2.1
  {e | (e ∈ known ∨ e ∈ added) ∧ e ∉ removed}

/-- The changes that are sent on a session. -/
def deltasOn (session : Bev) (traffic : List (Traffic LbsPacket)) :
    List Lbs.LbsDeltaChannelList.Val :=
  traffic.filterMap fun
    | .sent s (.deltaChannelList v) => if s = session then some v else none
    | _ => none

/-- **The view converges**: on every session that is still connected, the last full list with all
    changes after it is the visitor's set. -/
def Converged (s : LbsSystem) : Prop :=
  ∀ ip w session v before after, s.client.connections ip = some w →
    w.client.conn = some session →
    w.traffic = before ++ .sent session (.fullChannelList v) :: after →
    (∀ v', .sent session (.fullChannelList v') ∉ after) →
    (deltasOn session after).foldl applied (listed v) = s.channels

/-- What is known on a session after one more entry of the traffic, if a full list was sent. -/
def observe (session : Bev) (known : Option (Set Channel)) :
    Traffic LbsPacket → Option (Set Channel)
  | .sent s (.fullChannelList v) => if s = session then some (listed v) else known
  | .sent s (.deltaChannelList v) =>
    if s = session then known.map fun known => applied known v else known
  | _ => known

/-- What is known on a session after some traffic. -/
def replay (session : Bev) (traffic : List (Traffic LbsPacket)) : Option (Set Channel) :=
  traffic.foldl (observe session) none

/-- The traffic is replayed one by one. -/
theorem replay_concat (session : Bev) (traffic : List (Traffic LbsPacket)) (e : Traffic LbsPacket) :
    replay session (traffic ++ [e]) = observe session (replay session traffic) e := by
  rw [replay, List.foldl_append]
  rfl

/-- Without another full list, the changes are applied one after the other. -/
theorem foldl_observe {session : Bev} {after : List (Traffic LbsPacket)}
    (h : ∀ v, .sent session (.fullChannelList v) ∉ after) (known : Set Channel) :
    after.foldl (observe session) (some known) =
      some ((deltasOn session after).foldl applied known) := by
  -- induction on the log behind the full list: only what goes out on this session counts
  induction after generalizing known with
  | nil => rfl
  | cons e after ih =>
    have hrest := ih fun v hv => h v (List.mem_cons_of_mem _ hv)
    rw [List.foldl_cons]
    cases e with
    | received s pkr server_type uri => exact hrest known
    | sent s p =>
      cases p with
      | joinReq2 v => exact hrest known
      | ping v => exact hrest known
      | fullChannelList v =>
        have hne : s ≠ session := by
          rintro rfl
          exact h v List.mem_cons_self
        rw [observe, if_neg hne]
        exact hrest known
      -- a delta on the session is applied; one on an older session leaves the view
      | deltaChannelList v =>
        by_cases hs : s = session
        · rw [observe, if_pos hs, Option.map_some, hrest, deltasOn, deltasOn, List.filterMap_cons]
          simp only [hs, if_true, List.foldl_cons]
        · rw [observe, if_neg hs, hrest, deltasOn, deltasOn, List.filterMap_cons]
          simp only [hs, if_false]

/-- What is known is the last full list and the deltas since. -/
theorem replay_of_last {session : Bev} {before after : List (Traffic LbsPacket)}
    {v : Lbs.LbsFullChannelList.Val} (h : ∀ v', .sent session (.fullChannelList v') ∉ after) :
    replay session (before ++ .sent session (.fullChannelList v) :: after) =
      some ((deltasOn session after).foldl applied (listed v)) := by
  rw [replay, List.foldl_append, List.foldl_cons, observe, if_pos rfl]
  exact foldl_observe h (listed v)

/-- Nothing is known where nothing was sent. -/
theorem replay_of_unused {session : Bev} {traffic : List (Traffic LbsPacket)}
    (h : ∀ p, .sent session p ∉ traffic) : replay session traffic = none := by
  induction traffic using List.reverseRecOn with
  | nil => rfl
  | append_singleton traffic e ih =>
    rw [replay_concat, ih fun p hp => h p (List.mem_append_left _ hp)]
    cases e with
    | received s pkr server_type uri => rfl
    | sent s p =>
      have hne : s ≠ session := by
        rintro rfl
        exact h p (List.mem_append_right _ (List.mem_singleton.mpr rfl))
      cases p with
      | joinReq2 v => rfl
      | ping v => rfl
      | fullChannelList v => exact if_neg hne
      | deltaChannelList v => exact if_neg hne

end LbsSystem

/-! ## Numbers of bufferevents -/

namespace World

open TcpClient

variable {σ P : Type}

/-- The numbers in use were given out, and the pending one was not used yet. -/
structure Numbered (w : World σ P) : Prop where
  conn : ∀ s, w.client.conn = some s → s < w.created
  pending : ∀ s, w.client.pending = some s →
    s < w.created ∧ w.client.conn ≠ some s ∧ ∀ p, .sent s p ∉ w.traffic
  sent : ∀ s p, .sent s p ∈ w.traffic → s < w.created

/-- The connection and the attempt may go; nothing else that counts changes. -/
theorem Numbered.drop {w w' : World σ P} (h : w.Numbered)
    (hconn : w'.client.conn = w.client.conn ∨ w'.client.conn = none)
    (hpending : w'.client.pending = w.client.pending ∨ w'.client.pending = none)
    (hcreated : w'.created = w.created) (htraffic : w'.traffic = w.traffic) : w'.Numbered := by
  refine ⟨?_, ?_, ?_⟩
  · intro s hs
    rw [hcreated]
    rcases hconn with hconn | hconn
    · exact h.conn s (hconn.symm.trans hs)
    · cases hconn.symm.trans hs
  · intro s hs
    rw [hcreated, htraffic]
    rcases hpending with hpending | hpending
    · obtain ⟨hlt, hne, hunused⟩ := h.pending s (hpending.symm.trans hs)
      refine ⟨hlt, ?_, hunused⟩
      -- a pending bufferevent stays different from a connection that can only go away
      rcases hconn with hconn | hconn
      · rw [hconn]
        exact hne
      · rw [hconn]
        exact nofun
    · cases hpending.symm.trans hs
  · rw [hcreated, htraffic]
    exact h.sent

theorem Numbered.require {w : World σ P} (h : w.Numbered) (ok : Bool) (failure : Failure) :
    (w.require ok failure).Numbered := by
  rw [World.require]
  split
  · exact h
  · exact ⟨h.conn, h.pending, h.sent⟩

/-- The user part does not number sessions. -/
theorem Numbered.setUser {w : World σ P} (h : w.Numbered) (user : σ) :
    ({ w with user := user } : World σ P).Numbered :=
  ⟨h.conn, h.pending, h.sent⟩

/-- Scheduling the next try numbers nothing. -/
theorem Numbered.scheduleNextTry {w : World σ P} (h : w.Numbered) (now : Int) :
    (w.update (TcpClient.scheduleNextTry now)).Numbered := by
  obtain ⟨-, hpending, -, hconn⟩ := TcpClient.scheduleNextTry_frame now w.client
  exact h.drop (Or.inl hconn) (Or.inl hpending) rfl rfl

theorem Numbered.close {w : World σ P} (h : w.Numbered) : w.close.Numbered := by
  rw [World.close]
  split
  · exact (h.require _ _).drop (Or.inl rfl) (Or.inr rfl) rfl rfl
  · exact (h.require _ _).drop (Or.inr rfl) (Or.inl rfl) rfl rfl

/-- The next number is one that nobody used. -/
theorem Numbered.newPending {w : World σ P} (h : w.Numbered) : w.newPending.Numbered := by
  rw [World.newPending]
  have h := h.require w.client.pending.isNone .overwritten
  generalize w.require w.client.pending.isNone .overwritten = w at h
  refine ⟨?_, ?_, ?_⟩
  · intro s hs
    exact Nat.lt_succ_of_lt (h.conn s hs)
  · intro s hs
    obtain rfl : w.created = s := Option.some_inj.mp hs
    refine ⟨Nat.lt_succ_self _, ?_, ?_⟩
    · intro hconn
      exact Nat.lt_irrefl _ (h.conn _ hconn)
    · intro p hp
      exact Nat.lt_irrefl _ (h.sent _ p hp)
  · intro s p hp
    exact Nat.lt_succ_of_lt (h.sent s p hp)

/-- A packet goes out on the connection, which is not the attempt. -/
theorem Numbered.sendPacket {w : World σ P} (h : w.Numbered) (p : P) :
    (w.sendPacket p).1.Numbered := by
  rw [World.sendPacket]
  split
  · next conn _ hconn =>
    refine ⟨h.conn, ?_, ?_⟩
    -- the packet goes out on the connection, and not on the pending bufferevent
    · intro s hs
      obtain ⟨hlt, hne, hunused⟩ := h.pending s hs
      refine ⟨hlt, hne, ?_⟩
      intro p' hp'
      rcases List.mem_append.mp hp' with hp' | hp'
      · exact hunused p' hp'
      · cases List.mem_singleton.mp hp'
        exact hne hconn
    · intro s p' hp'
      rcases List.mem_append.mp hp' with hp' | hp'
      · exact h.sent s p' hp'
      · cases List.mem_singleton.mp hp'
        exact h.conn conn hconn
  · exact h

/-- The attempt becomes the connection, or is dropped, before the callback is told. -/
theorem Numbered.connectCallback {w : World σ P} (h : w.Numbered) {cb : TcpClientCallback σ P}
    (hcb : ∀ success w', w'.Numbered → (cb.onConnect success w').Numbered) (now : Int) (bev : Bev)
    (events : BevEvent) : (w.connectCallback cb now bev events).Numbered := by
  have hcleared : ∀ ok ok₁ ok₂ ok₃, (((((w.require ok .otherBufferevent).require ok₁
      .noPending).require ok₂ .alreadyConnected).require ok₃ .notConnecting).update
      fun c => { c with connecting := false }).Numbered := by
    intro ok ok₁ ok₂ ok₃
    exact ((((h.require ok _).require ok₁ _).require ok₂ _).require ok₃ _).drop
      (Or.inl rfl) (Or.inl rfl) rfl rfl
  -- libevent reports three outcomes; each clears `connecting` first
  cases events with
  | connected =>
    apply hcb
    -- `BEV_EVENT_CONNECTED` makes the pending bufferevent the connection
    refine ⟨?_, nofun, (hcleared _ _ _ _).sent⟩
    intro s hs
    exact ((hcleared _ _ _ _).pending s hs).1
  | error =>
    apply hcb
    exact ((hcleared _ _ _ _).scheduleNextTry now).drop (Or.inl rfl) (Or.inr rfl) rfl rfl
  | other => exact (hcleared _ _ _ _).drop (Or.inl rfl) (Or.inr rfl) rfl rfl

/-- Connecting gives the new session a new number. -/
theorem Numbered.connect {w : World σ P} (h : w.Numbered) {cb : TcpClientCallback σ P}
    (hcb : ∀ success w', w'.Numbered → (cb.onConnect success w').Numbered) (now : Int)
    (sys : Syscalls) : (w.connect cb now sys).1.Numbered := by
  rw [World.connect]
  have htried : (w.update fun c => { c with
      last_try_ts := now, last_active_ts := now, conn := none }).Numbered :=
    h.drop (Or.inr rfl) (Or.inl rfl) rfl rfl
  -- the cases of `Connect`: still connecting, then the four system calls, each of which may fail
  split
  · exact h
  split
  · exact htried
  split
  · exact htried
  dsimp only
  split
  · exact htried.newPending.drop (Or.inl rfl) (Or.inr rfl) rfl rfl
  split
  · exact (htried.newPending.connectCallback hcb ..).drop (Or.inl rfl) (Or.inl rfl) rfl rfl
  · exact htried.newPending

end World

/-! ## One connection -/

namespace UniLbsConnection

theorem onConnect_numbered (success : Bool) {w : LbsWorld} (h : w.Numbered) :
    (onConnect success w).Numbered := by
  cases success with
  | true => exact (h.setUser _).sendPacket _
  | false => exact h.setUser _

/-- Sending uses the session that there is. -/
theorem send_numbered {w : LbsWorld} (h : w.Numbered) (p : LbsPacket) :
    (sendPacket p w).1.Numbered := by
  rw [sendPacket_eq]
  exact h.sendPacket p

theorem sendDelta_numbered {w : LbsWorld} (h : w.Numbered) (added removed : List ChannelInfo) :
    (sendDelta added removed w).Numbered := by
  rw [sendDelta]
  split
  · exact h
  · exact send_numbered h _

theorem onReply_numbered {w : LbsWorld} (h : w.Numbered) (visitor : Visitor) (code : UInt32)
    (details : Lbs.DetailInfo2Map.Val) : (onReply visitor code details w).Numbered := by
  rw [onReply]
  split
  · exact send_numbered (h.setUser _) _
  · exact h

theorem onPacketReceived_numbered {w : LbsWorld} (h : w.Numbered) (visitor : Visitor)
    (pkr : Unpacker) (server_type uri : UInt16) :
    (onPacketReceived visitor pkr server_type uri w).Numbered := by
  rw [onPacketReceived]
  split
  · exact h
  split
  · exact onReply_numbered h ..
  split
  · exact onReply_numbered h ..
  split
  · exact h.setUser _
  · exact h.setUser _

/-- Something arrived, which is nobody's number. -/
theorem received_numbered {w : LbsWorld} (h : w.Numbered) (conn : Bev) (pkr : Unpacker)
    (server_type uri : UInt16) :
    ({ w with traffic := w.traffic ++ [.received conn pkr server_type uri] } : LbsWorld).Numbered := by
  have hsent : ∀ s p, .sent s p ∈ w.traffic ++ [.received conn pkr server_type uri] →
      .sent s p ∈ w.traffic := by
    intro s p hp
    rcases List.mem_append.mp hp with hp | hp
    · exact hp
    · cases List.mem_singleton.mp hp
  refine ⟨h.conn, ?_, ?_⟩
  · intro s hs
    obtain ⟨hlt, hne, hunused⟩ := h.pending s hs
    exact ⟨hlt, hne, fun p hp => hunused p (hsent s p hp)⟩
  · intro s p hp
    exact h.sent s p (hsent s p hp)

theorem next_numbered {w : LbsWorld} (h : w.Numbered) (i : Input) : (next w i).Numbered := by
  cases i with
  | connectCompleted now bev success =>
    -- the callback of libevent, with what `OnConnect` sends on success
    exact h.connectCallback (fun success _ h => onConnect_numbered success h) now bev _
  | packetReceived now conn pkr server_type uri visitor =>
    have hactive : (w.update fun c => { c with last_active_ts := now }).Numbered :=
      h.drop (Or.inl rfl) (Or.inl rfl) rfl rfl
    exact onPacketReceived_numbered (received_numbered hactive ..) visitor pkr server_type uri
  | socketError now conn => exact (h.scheduleNextTry now).close.setUser _
  | timer now sys visitor =>
    rw [next, World.onTimer]
    -- cases of the timer: silent for too long, time to ping, time to connect again, nothing
    split
    · exact (h.scheduleNextTry now).close
    split
    · show (timeToPing visitor w).Numbered
      rw [timeToPing]
      split
      · exact h
      · exact send_numbered h _
    split
    · exact h.connect (fun success _ h => onConnect_numbered success h) now sys
    · exact h
  | doChannelCreate c => exact sendDelta_numbered h [c] []
  | doChannelDestroy c => exact sendDelta_numbered h [] [c]

/-- A callback that is told of a failure starts no attempt. -/
theorem onConnect_reacts (lp : UInt16) : World.Reacts lp false (onConnect false) := by
  intro w hw
  exact ⟨(onConnect_onlySends false w).consistent hw.consistent, hw.pending_isSome, hw.local_port_eq⟩

/-- Whether joined or not, a connection stays consistent. -/
theorem next_consistent {w : LbsWorld} (h : w.Consistent) {i : Input} (henabled : Enabled w i) :
    (next w i).Consistent := by
  cases i with
  | connectCompleted now bev success =>
    have hpending := h.pending_of_waiting henabled
    have hsettled : w.Settled w.client.local_port true := ⟨h, by rw [hpending]; rfl, rfl⟩
    obtain ⟨w', hw', -, -, heq⟩ :=
      hsettled.connectCallback hpending (callback noVisitor) now success
    rw [next, heq]
    exact (onConnect_onlySends success w').consistent hw'.consistent
  -- marking the client as active touches nothing that `Consistent` speaks of
  | packetReceived now conn pkr server_type uri visitor =>
    have hactive := h.settled.update (f := fun c => { c with last_active_ts := now })
      rfl rfl rfl (Or.inl rfl)
    exact (onPacketReceived_onlySends ..).consistent (hactive.traffic _).consistent
  | socketError now conn =>
    obtain ⟨hsettled, -, -⟩ := (h.settled.scheduleNextTry now).close
    have hsends : OnlySends (w.update (TcpClient.scheduleNextTry now)).close
        (onSocketError (w.update (TcpClient.scheduleNextTry now)).close) := ⟨rfl, rfl, rfl⟩
    exact hsends.consistent hsettled.consistent
  | timer now sys visitor =>
    rw [next, World.onTimer]
    split
    · exact (h.settled.scheduleNextTry now).close.1.consistent
    split
    · exact (timeToPing_onlySends visitor w).consistent h
    split
    · exact (h.settled.connect fun _ _ => onConnect_reacts _).consistent
    · exact h
  | doChannelCreate c => exact (sendDelta_onlySends [c] [] w).consistent h
  | doChannelDestroy c => exact (sendDelta_onlySends [] [c] w).consistent h

/-- After a `Connect` nobody is connected, unless it found an attempt under way. -/
theorem connect_conn {w : LbsWorld} (h : w.Consistent) (visitor : Visitor) (now : Int)
    (sys : Syscalls) : (w.connect (callback visitor) now sys).1.client.conn = none := by
  cases hpending : w.client.pending.isSome with
  | true =>
    rw [World.connect, if_pos (h.connecting_eq.trans hpending)]
    exact h.exclusive hpending
  | false =>
    have hsettled : w.Settled w.client.local_port false := ⟨h, hpending, rfl⟩
    rcases hsettled.connect_cases (callback visitor) now sys with
      ⟨-, -, hnone, -⟩ | ⟨-, w', -, hnone, -, heq⟩
    · exact hnone
    · rw [heq]
      exact hnone

end UniLbsConnection

/-! ## The view of one load balancer -/

namespace LbsSystem

/-- What is known on the current session is the set of channels, and the connection is joined. -/
def Shows (channels : Set Channel) (w : LbsWorld) : Prop :=
  ∀ s known, w.client.conn = some s → replay s w.traffic = some known →
    known = channels ∧ w.user.joined = true

/-- A connection that is down shows the channels: it has no session. -/
theorem Shows.of_disconnected {channels : Set Channel} {w : LbsWorld}
    (hconn : w.client.conn = none) : Shows channels w := by
  intro s known hs
  cases hconn.symm.trans hs

/-- The user part may change, as long as the connection stays joined. -/
theorem Shows.setUser {channels : Set Channel} {w : LbsWorld} (h : Shows channels w)
    {user : UniLbsConnection} (hjoined : w.user.joined = true → user.joined = true) :
    Shows channels { w with user := user } := by
  intro s known hs hknown
  obtain ⟨heq, hj⟩ := h s known hs hknown
  exact ⟨heq, hjoined hj⟩

/-- What is received does not change what is known. -/
theorem Shows.receive {channels : Set Channel} {w : LbsWorld} (h : Shows channels w) (conn : Bev)
    (pkr : Unpacker) (server_type uri : UInt16) :
    Shows channels { w with traffic := w.traffic ++ [.received conn pkr server_type uri] } := by
  intro s known hs hknown
  have hknown : replay s (w.traffic ++ [.received conn pkr server_type uri]) = some known := hknown
  rw [replay_concat] at hknown
  exact h s known hs hknown

/-- After a packet is sent, what is known on the session is what it was with that packet. -/
theorem replay_sendPacket {w : LbsWorld} {s : Bev} (hconnected : w.client.isConnected = true)
    (hconn : w.client.conn = some s) (p : LbsPacket) :
    replay s (sendPacket p w).1.traffic = observe s (replay s w.traffic) (.sent s p) := by
  rw [sendPacket_eq, World.sendPacket, hconnected, hconn]
  exact replay_concat s w.traffic (.sent s p)

/-- A consistent connection with a session is connected. -/
theorem isConnected_of_conn {w : LbsWorld} (hw : w.Consistent) {s : Bev}
    (hconn : w.client.conn = some s) : w.client.isConnected = true := by
  have hconnecting : w.client.connecting = false := by
    rw [hw.connecting_eq]
    cases hpending : w.client.pending.isSome with
    | false => rfl
    | true => cases hconn.symm.trans (hw.exclusive hpending)
  rw [TcpClient.isConnected, hconnecting, hconn]
  rfl

/-- A packet after which what is known is what it should be then. -/
theorem Shows.send {channels : Set Channel} {w : LbsWorld} (hw : w.Consistent)
    {p : LbsPacket} (h : ∀ s known, w.client.conn = some s →
      observe s (replay s w.traffic) (.sent s p) = some known →
        known = channels ∧ w.user.joined = true) : Shows channels (sendPacket p w).1 := by
  intro s known hs hknown
  have hs : w.client.conn = some s := by
    rw [← ((OnlySends.refl w).send p).client_eq]
    exact hs
  rw [replay_sendPacket (isConnected_of_conn hw hs) hs] at hknown
  have huser : (sendPacket p w).1.user = w.user := by
    rw [sendPacket_eq, World.sendPacket]
    split
    · rfl
    · rfl
  rw [huser]
  exact h s known hs hknown

/-- A full list makes known what the visitor answered. -/
theorem Shows.sendFull {channels : Set Channel} {w : LbsWorld} (hw : w.Consistent)
    (hjoined : w.user.joined = true) {answer : List ChannelInfo}
    (hanswer : ∀ e, e ∈ entries answer ↔ e ∈ channels) :
    Shows channels (sendFullChannelList answer w) := by
  refine Shows.send hw ?_
  intro s known _ hknown
  rw [observe, if_pos rfl] at hknown
  obtain rfl := Option.some_inj.mp hknown
  exact ⟨Set.ext hanswer, hjoined⟩

/-- **No change falls between**: a change that is not sent on a session comes before its first full
    list, and a change that is sent is applied to what is known. -/
theorem Shows.sendDelta {channels : Set Channel} {w : LbsWorld} (h : Shows channels w)
    (hw : w.Consistent) (added removed : List ChannelInfo) :
    Shows (applied channels (deltaChannelList w.user added removed))
      (UniLbsConnection.sendDelta added removed w) := by
  rw [UniLbsConnection.sendDelta]
  split
  · next hjoined =>
    intro s known hs hknown
    rw [(h s known hs hknown).2] at hjoined
    cases hjoined
  · refine Shows.send hw ?_
    intro s known hs hknown
    rw [observe, if_pos rfl] at hknown
    obtain ⟨before, hbefore, rfl⟩ := Option.map_eq_some_iff.mp hknown
    obtain ⟨rfl, hjoined⟩ := h s before hs hbefore
    exact ⟨rfl, hjoined⟩

/-- A created channel is added. -/
theorem applied_create (channels : Set Channel) (c : UniLbsConnection) (vid cid : UInt32)
    (name : List UInt8) :
    applied channels (deltaChannelList c [⟨vid, cid, name⟩] []) = insert (vid, name) channels := by
  ext e
  show (e ∈ channels ∨ e ∈ [(vid, name)]) ∧ e ∉ [] ↔ e = (vid, name) ∨ e ∈ channels
  rw [List.mem_singleton, or_comm]
  exact and_iff_left List.not_mem_nil

/-- A destroyed channel is taken away. -/
theorem applied_destroy (channels : Set Channel) (c : UniLbsConnection) (vid cid : UInt32)
    (name : List UInt8) :
    applied channels (deltaChannelList c [] [⟨vid, cid, name⟩]) = channels \ {(vid, name)} := by
  ext e
  show (e ∈ channels ∨ e ∈ []) ∧ e ∉ [(vid, name)] ↔ e ∈ channels ∧ e ≠ (vid, name)
  rw [List.mem_singleton]
  constructor
  · rintro ⟨he | he, hne⟩
    · exact ⟨he, hne⟩
    · cases he
  · rintro ⟨he, hne⟩
    exact ⟨Or.inl he, hne⟩

/-- After a reply with all channels the balancer knows all channels. -/
theorem Shows.onReply {channels : Set Channel} {w : LbsWorld} (h : Shows channels w)
    (hw : w.Consistent) {visitor : Visitor}
    (hanswer : ∀ e, e ∈ entries visitor.channels ↔ e ∈ channels) (code : UInt32)
    (details : Lbs.DetailInfo2Map.Val) : Shows channels (onReply visitor code details w) := by
  rw [UniLbsConnection.onReply]
  split
  · have htold : OnlySends w (tell (.joinReplied details) (setJoined true w)) := ⟨rfl, rfl, rfl⟩
    exact Shows.sendFull (htold.consistent hw) rfl hanswer
  · exact h

/-- A packet leaves the balancer with the channels that there are. -/
theorem Shows.onPacketReceived {channels : Set Channel} {w : LbsWorld} (h : Shows channels w)
    (hw : w.Consistent) {visitor : Visitor}
    (hanswer : ∀ e, e ∈ entries visitor.channels ↔ e ∈ channels) (pkr : Unpacker)
    (server_type uri : UInt16) :
    Shows channels (onPacketReceived visitor pkr server_type uri w) := by
  rw [UniLbsConnection.onPacketReceived]
  split
  · exact h
  split
  · exact h.onReply hw hanswer _ _
  split
  · exact h.onReply hw hanswer _ _
  split
  · exact h.setUser id
  · exact h.setUser id

/-- A new session: nothing was sent on its number. -/
theorem shows_connectCompleted {channels : Set Channel} {w : LbsWorld} (hw : w.Consistent)
    (hnumbered : w.Numbered) {bev : Bev} (hbev : bev ∈ w.waiting) (now : Int) (success : Bool) :
    Shows channels (UniLbsConnection.next w (.connectCompleted now bev success)) := by
  have hpending := hw.pending_of_waiting hbev
  have hsettled : w.Settled w.client.local_port true := ⟨hw, by rw [hpending]; rfl, rfl⟩
  obtain ⟨w', hw', huntold, hconn, heq⟩ :=
    hsettled.connectCallback hpending (callback noVisitor) now success
  rw [UniLbsConnection.next, heq]
  cases success with
  | false => exact Shows.of_disconnected hconn
  | true =>
    -- nothing was sent on the session before, so nothing is known of it
    have hunused : replay bev w'.traffic = none := by
      rw [huntold.traffic_eq]
      exact replay_of_unused (hnumbered.pending bev hpending).2.2
    show Shows channels (World.sendPacket _ (tell .lbsConnected w')).1
    rw [← sendPacket_eq]
    -- `LbsConnected` goes to the application and not to the wire
    have htold : OnlySends w' (tell .lbsConnected w') := ⟨rfl, rfl, rfl⟩
    refine Shows.send (htold.consistent hw'.consistent) ?_
    intro s known hs hknown
    obtain rfl : bev = s := Option.some_inj.mp (hconn.symm.trans hs)
    have hknown : replay bev w'.traffic = some known := hknown
    cases hunused.symm.trans hknown

/-- The timer leaves what the balancer knows. -/
theorem Shows.timer {channels : Set Channel} {w : LbsWorld} (h : Shows channels w)
    (hw : w.Consistent) (now : Int) (sys : Syscalls) (visitor : Visitor) :
    Shows channels (UniLbsConnection.next w (.timer now sys visitor)) := by
  rw [UniLbsConnection.next, World.onTimer]
  split
  · exact Shows.of_disconnected (hw.settled.scheduleNextTry now).close.2.1
  split
  · show Shows channels (timeToPing visitor w)
    rw [timeToPing]
    split
    · exact h
    · exact Shows.send hw fun s known hs hknown => h s known hs hknown
  split
  · exact Shows.of_disconnected (connect_conn hw visitor now sys)
  · exact h

/-- The invariant of a connection in the map. -/
structure Viewed (channels : Set Channel) (w : LbsWorld) : Prop where
  consistent : w.Consistent
  numbered : w.Numbered
  shows : Shows channels w

/-- The events of a connection leave the set of channels alone. -/
theorem Viewed.next {channels : Set Channel} {w : LbsWorld} (h : Viewed channels w)
    {i : UniLbsConnection.Input} (henabled : UniLbsConnection.Enabled w i)
    (hanswers : Answers channels i) : Viewed channels (UniLbsConnection.next w i) := by
  refine ⟨next_consistent h.consistent henabled, next_numbered h.numbered i, ?_⟩
  cases i with
  | connectCompleted now bev success =>
    exact shows_connectCompleted h.consistent h.numbered henabled now success
  | packetReceived now conn pkr server_type uri visitor =>
    have hactive : Shows channels (w.update fun c => { c with last_active_ts := now }) := h.shows
    have hsettled := h.consistent.settled.update (f := fun c => { c with last_active_ts := now })
      rfl rfl rfl (Or.inl rfl)
    exact (hactive.receive conn pkr server_type uri).onPacketReceived
      (hsettled.traffic _).consistent hanswers pkr server_type uri
  | socketError now conn =>
    exact Shows.of_disconnected (h.consistent.settled.scheduleNextTry now).close.2.1
  | timer now sys visitor => exact h.shows.timer h.consistent now sys visitor
  | doChannelCreate c => exact absurd hanswers id
  | doChannelDestroy c => exact absurd hanswers id

/-- After a delta the balancer knows the changed channels. -/
theorem Viewed.sendDelta {channels : Set Channel} {w : LbsWorld} (h : Viewed channels w)
    (added removed : List ChannelInfo) :
    Viewed (applied channels (deltaChannelList w.user added removed))
      (UniLbsConnection.sendDelta added removed w) :=
  ⟨(sendDelta_onlySends added removed w).consistent h.consistent,
    sendDelta_numbered h.numbered added removed, h.shows.sendDelta h.consistent added removed⟩

/-- A connection that `UniLbsClient` has just made. -/
theorem viewed_newConnection (channels : Set Channel) (now : Int) (syscalls : Syscalls)
    (c : UniLbsClient) : Viewed channels (c.newConnection now syscalls) := by
  have hfresh : (World.fresh now 0 1 (UniLbsConnection.create c.service_name c.service_id
      c.service_port.toUInt16 c.release_version) : LbsWorld).Numbered :=
    ⟨nofun, nofun, nofun⟩
  have hsettled := World.fresh_settled (P := LbsPacket) now 0 1 (UniLbsConnection.create
    c.service_name c.service_id c.service_port.toUInt16 c.release_version)
  refine ⟨(connected_invariant ..).consistent, ?_, ?_⟩
  · exact hfresh.connect (fun success _ h => onConnect_numbered success h) now syscalls
  · exact Shows.of_disconnected (connect_conn hsettled.consistent noVisitor now syscalls)

/-! ## All connections -/

/-- Every connection in a map shows the set of channels. -/
def AllViewed (channels : Set Channel) (connections : UInt32 → Option LbsWorld) : Prop :=
  ∀ ip w, connections ip = some w → Viewed channels w

/-- No connection, nothing to know. -/
theorem AllViewed.empty (channels : Set Channel) : AllViewed channels fun _ => none := by
  intro ip w hw
  cases hw

/-- Setting one connection that shows the channels. -/
theorem AllViewed.update {channels : Set Channel} {connections : UInt32 → Option LbsWorld}
    (h : AllViewed channels connections) (ip : UInt32) {w : LbsWorld} (hw : Viewed channels w) :
    AllViewed channels (Function.update connections ip (some w)) := by
  intro ip' w' hw'
  by_cases hip : ip' = ip
  · rw [hip, Function.update_self] at hw'
    rw [← Option.some_inj.mp hw']
    exact hw
  · rw [Function.update_of_ne hip] at hw'
    exact h ip' w' hw'

/-- A kept connection goes on where it was; a new one has no session yet. -/
theorem AllViewed.reloadAddress {channels : Set Channel} {c : UniLbsClient}
    (hc : AllViewed channels c.connections) {new_connections : UInt32 → Option LbsWorld}
    (h : AllViewed channels new_connections) (now : Int) (addr : LbsAddress) :
    AllViewed channels (c.reloadAddress now new_connections addr) := by
  rw [UniLbsClient.reloadAddress]
  split
  · next conn hconn =>
    split
    · exact h.update addr.ip (hc addr.ip conn hconn)
    · exact h
  · exact h.update addr.ip (viewed_newConnection channels now addr.syscalls c)

/-- A reload keeps the view of the connections that stay; the new ones have none. -/
theorem AllViewed.reload {channels : Set Channel} {c : UniLbsClient}
    (hc : AllViewed channels c.connections) (now : Int) (addresses : List LbsAddress) :
    AllViewed channels (c.reloadLbsAddresses now addresses).connections := by
  have hfold : ∀ new_connections, AllViewed channels new_connections →
      AllViewed channels (addresses.foldl (c.reloadAddress now) new_connections) := by
    induction addresses with
    | nil => exact fun _ h => h
    | cons addr addresses ih =>
      intro new_connections h
      exact ih _ (hc.reloadAddress h now addr)
  exact hfold _ (AllViewed.empty channels)

/-- A change of the set, and the report of it to every connection. -/
theorem AllViewed.forEach {channels channels' : Set Channel} {c : UniLbsClient}
    (hc : AllViewed channels c.connections) {f : LbsWorld → LbsWorld}
    (hf : ∀ w, Viewed channels w → Viewed channels' (f w)) :
    AllViewed channels' (c.forEach f).connections := by
  intro ip w hw
  obtain ⟨before, hbefore, rfl⟩ := Option.map_eq_some_iff.mp hw
  exact hf before (hc ip before hbefore)

/-- One step of the system. -/
theorem next_allViewed {s : LbsSystem} (h : AllViewed s.channels s.client.connections) {i : Input}
    (henabled : s.Enabled i) : AllViewed (s.next i).channels (s.next i).client.connections := by
  cases i with
  | create vid cid name =>
    apply h.forEach
    intro w hw
    have hsent := hw.sendDelta [⟨vid, cid, name⟩] []
    rw [applied_create] at hsent
    exact hsent
  | destroy vid cid name =>
    apply h.forEach
    intro w hw
    have hsent := hw.sendDelta [] [⟨vid, cid, name⟩]
    rw [applied_destroy] at hsent
    exact hsent
  | event ip i =>
    obtain ⟨w, hw, hevent, hanswers⟩ := henabled
    -- only the client of `ip` moves; every other one keeps its view
    intro ip' w' hw'
    have hw' : (if ip' = ip then (s.client.connections ip).map (UniLbsConnection.next · i)
      else s.client.connections ip') = some w' := hw'
    split at hw'
    · rw [hw] at hw'
      rw [← Option.some_inj.mp hw']
      exact (h ip w hw).next hevent hanswers
    · exact h ip' w' hw'
  | setServiceInformation now service_id service_port resolved loopback =>
    exact AllViewed.reload (c := { s.client with
      service_id := service_id, service_port := service_port }) h now _
  | updateLbsAddresses now new_addresses =>
    -- outside its window the new list is dropped, and nothing changes
    show AllViewed s.channels (s.client.updateLbsAddresses now new_addresses).connections
    rw [UniLbsClient.updateLbsAddresses]
    split
    · exact h.reload now new_addresses
    · exact h
  | reloadLbsHosts now resolved loopback => exact h.reload now _

/-- What the invariant says about the traffic. -/
theorem AllViewed.converged {s : LbsSystem} (h : AllViewed s.channels s.client.connections) :
    s.Converged := by
  intro ip w session v before after hw hconn htraffic hlast
  have hknown := @replay_of_last session before after v hlast
  rw [← htraffic] at hknown
  exact ((h ip w hw).shows session _ hconn hknown).1

/-- **The channel views converge.**  In every run of a client, from any set of channels, with any
    interleaving of changes, connects, disconnects, timeouts, join replies and reloads: in every
    state, on every session that is connected and on which a full list was sent, the last full list
    and the changes sent after it give the visitor's set of channels. -/
theorem channel_view_converges {service_name release_version : List UInt8} {channels : Set Channel}
    {s : LbsSystem} {ts : List (LbsSystem × Input × LbsSystem)}
    (hrun : Run Step ⟨UniLbsClient.create service_name release_version, channels⟩ ts s) :
    ∀ x ∈ ts, Converged x.2.2 := by
  have hstep : ∀ s i t, AllViewed s.channels s.client.connections → Step s i t →
      AllViewed t.channels t.client.connections := by
    rintro s i t hs ⟨henabled, rfl⟩
    exact next_allViewed hs henabled
  have hall := (Run.invariant hstep hrun (AllViewed.empty channels)).2
  intro x hx
  exact (hall x hx).2.converged

/-- A client of one load balancer: a channel comes before the reply, and another one after it. -/
def sampleInputs : List Input :=
  [.setServiceInformation 0 1 443 [⟨1, World.routed⟩] World.routed,
    .create 7 1 [0x61],
    .event 1 (.connectCompleted 1 0 true),
    .event 1 (.packetReceived 2 0 sampleReply kUniLbsType Lbs.kLbsJoinResUri
      ⟨[⟨7, 1, [0x61]⟩], 0, 0, 0, 0⟩),
    .create 8 1 [0x62],
    .destroy 7 1 [0x61]]

def sampleStart : LbsSystem := ⟨UniLbsClient.create [0x74] [0x31], ∅⟩

theorem channel_view_converges_sample :
    let s := sampleInputs.foldl next sampleStart
    Converged s ∧ ∃ w v v' v'', s.client.connections 1 = some w ∧ w.client.conn = some 0 ∧
      w.traffic.drop 2 = [.sent 0 (.fullChannelList v), .sent 0 (.deltaChannelList v'),
        .sent 0 (.deltaChannelList v'')] := by
  intro s
  have hrun : Run Step sampleStart (trace next sampleStart sampleInputs) s := by
    apply Run.of_inputs Enabled next
    intro x hx
    simp only [sampleInputs, trace, List.mem_cons, List.not_mem_nil, or_false] at hx
    rcases hx with rfl | rfl | rfl | rfl | rfl | rfl
    · trivial
    · trivial
    · exact ⟨_, rfl, by decide, trivial⟩
    · refine ⟨_, rfl, by decide, ?_⟩
      intro e
      show e ∈ [((7 : UInt32), [(0x61 : UInt8)])] ↔ e = (7, [0x61]) ∨ e ∈ (∅ : Set Channel)
      simp
    · trivial
    · trivial
  have hlast : (_, _, s) ∈ trace next sampleStart sampleInputs :=
    List.mem_of_getLast? rfl
  exact ⟨channel_view_converges hrun _ hlast, _, _, _, _, rfl, rfl, rfl⟩

end LbsSystem

end Turnserver
