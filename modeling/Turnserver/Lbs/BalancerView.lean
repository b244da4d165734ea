/-
  WHAT A LOAD BALANCER HEARS (`lbs/uni_lbs_client.cpp` over `network/tcp_connection.cpp`) — the channel
  view, from the bytes.

  The packets of a session are packed, framed and cut into chunks on their way.  A load balancer that
  reads them as this code reads packets, takes a full list for what there is, and applies the changes,
  knows the visitor's set of channels — that of the moment in which the last packet was sent that has
  arrived completely.

  1. `Filled` — every packet that is sent names itself and has sorted maps.
  2. `Adds` — all that one event does to the traffic: on each session one more packet or none, and one
     more only on the session that is connected (`next_adds`, `next_connections`).
  3. `Moment` — the first packets of a session were all of them once, in a state of the run (`run_told`).
  4. `hear_packet` — hearing a packet from its bytes is learning what was sent.

  `view_on_the_wire` puts these together with `stream_unmarshalled` and the invariant of
  `UniLbsClient`.
-/
import Turnserver.Lbs.UniLbsClient
import Turnserver.Network.PacketStream

namespace Turnserver

open Transition UniLbsConnection

/-! ## The packets -/

/-- The class of a packet, and what is in it. -/
def LbsPacket.packet : LbsPacket → AnyPacket
  | joinReq2 v => ⟨Lbs.kLbsJoinReq2Uri, _, v⟩
  | ping v => ⟨Lbs.kLbsPingUri, _, v⟩
  | fullChannelList v => ⟨Lbs.kLbsFullChannelListUri, _, v⟩
  | deltaChannelList v => ⟨Lbs.kLbsDeltaChannelListUri, _, v⟩

/-- The packet names itself, and its maps are sorted. -/
structure LbsPacket.Filled (p : LbsPacket) : Prop where
  server_type : p.packet.value.serverType = kUniLbsType
  uri : p.packet.value.uri = p.packet.uri
  wf : p.packet.ty.Wf p.packet.value

/-- A request to join carries its type and uri, and its map in order. -/
theorem joinRequest_filled (c : UniLbsConnection) : (LbsPacket.joinReq2 (joinRequest c)).Filled :=
  ⟨rfl, rfl, trivial, trivial, trivial,
    ⟨List.pairwise_singleton .., fun _ _ => ⟨trivial, trivial⟩⟩, trivial⟩

/-- `less` on `uint32_t` -/
theorem uint32_less {x y : UInt32} (h : x < y) : Ty.uint32.less x y = true :=
  decide_eq_true (Int.ofNat_lt.mpr (UInt32.lt_iff_toNat_lt.mp h))

/-- A report of the load carries its type and uri, and its map in order. -/
theorem loadReport_filled (c : UniLbsConnection) (visitor : Visitor) :
    (LbsPacket.ping (loadReport c visitor)).Filled := by
  refine ⟨rfl, rfl, trivial, ⟨?_, fun _ _ => ⟨trivial, trivial⟩⟩, trivial⟩
  have hsorted : List.Pairwise (fun e e' : UInt32 × UInt32 => e.1 < e'.1)
      [(kUserLoad, visitor.users), (kCpuLoad, visitor.cpu), (kTrafficInLoad, visitor.rx_kbps),
        (kTrafficOutLoad, visitor.tx_kbps)] := by
    simp [kUserLoad, kCpuLoad, kTrafficInLoad, kTrafficOutLoad]
  exact hsorted.imp uint32_less

/-- A full channel list carries its type and uri, and has no maps. -/
theorem fullChannelList_filled (c : UniLbsConnection) (channels : List ChannelInfo) :
    (LbsPacket.fullChannelList (fullChannelList c channels)).Filled :=
  ⟨rfl, rfl, trivial, fun _ _ => ⟨trivial, trivial⟩, trivial⟩

/-- A delta carries its type and uri, and has no maps. -/
theorem deltaChannelList_filled (c : UniLbsConnection) (added removed : List ChannelInfo) :
    (LbsPacket.deltaChannelList (deltaChannelList c added removed)).Filled :=
  ⟨rfl, rfl, trivial, fun _ _ => ⟨trivial, trivial⟩, fun _ _ => ⟨trivial, trivial⟩, trivial⟩

namespace LbsSystem

/-! ## What is sent on a session -/

/-- What was sent on a session, in order. -/
def sentOn (session : Bev) (traffic : List (Traffic LbsPacket)) : List LbsPacket :=
  traffic.filterMap fun
    | .sent s p => if s = session then some p else none
    | .received .. => none

/-- What is known after one more packet. -/
def learn (known : Option (Set Channel)) : LbsPacket → Option (Set Channel)
  | .fullChannelList v => some (listed v)
  | .deltaChannelList v => known.map fun known => applied known v
  | .joinReq2 _ => known
  | .ping _ => known

/-- What is sent on the session is learned. -/
theorem observe_eq_learn (session : Bev) (known : Option (Set Channel)) (p : LbsPacket) :
    observe session known (.sent session p) = learn known p := by
  cases p with
  | joinReq2 v => rfl
  | ping v => rfl
  | fullChannelList v => exact if_pos rfl
  | deltaChannelList v => exact if_pos rfl

/-- What is sent on another session is not observed. -/
theorem observe_other {session s : Bev} (hs : s ≠ session) (known : Option (Set Channel))
    (p : LbsPacket) : observe session known (.sent s p) = known := by
  cases p with
  | joinReq2 v => rfl
  | ping v => rfl
  | fullChannelList v => exact if_neg hs
  | deltaChannelList v => exact if_neg hs

/-- What is known depends on what is sent on the session. -/
theorem replay_eq (session : Bev) (traffic : List (Traffic LbsPacket)) :
    replay session traffic = (sentOn session traffic).foldl learn none := by
  induction traffic using List.reverseRecOn with
  | nil => rfl
  | append_singleton traffic e ih =>
    rw [replay_concat, ih, sentOn, sentOn, List.filterMap_append, List.foldl_append]
    cases e with
    | received s pkr server_type uri => rfl
    | sent s p =>
      by_cases hs : s = session
      · rw [hs, observe_eq_learn, List.filterMap_cons]
        simp
      · rw [observe_other hs, List.filterMap_cons]
        simp [hs]

/-- A full list makes something known, and it stays so. -/
theorem foldl_learn_isSome {ps : List LbsPacket} {v : Lbs.LbsFullChannelList.Val}
    (h : .fullChannelList v ∈ ps) (known : Option (Set Channel)) :
    ∃ channels, ps.foldl learn known = some channels := by
  induction ps using List.reverseRecOn with
  | nil => cases h
  | append_singleton ps p ih =>
    rw [List.foldl_append]
    rcases List.mem_append.mp h with h | h
    · rcases ih h with ⟨channels, hchannels⟩
      rw [hchannels]
      cases p with
      | joinReq2 v => exact ⟨_, rfl⟩
      | ping v => exact ⟨_, rfl⟩
      | fullChannelList v => exact ⟨_, rfl⟩
      | deltaChannelList v => exact ⟨_, rfl⟩
    · rw [← List.mem_singleton.mp h]
      exact ⟨_, rfl⟩

/-! ## What an event adds -/

/-- On every session one more packet or none, and one more only where `w'` is connected. -/
def Adds (w w' : LbsWorld) : Prop :=
  ∀ session, sentOn session w'.traffic = sentOn session w.traffic ∨
    ∃ p : LbsPacket, p.Filled ∧ w'.client.conn = some session ∧
      sentOn session w'.traffic = sentOn session w.traffic ++ [p]

/-- Nothing new was sent. -/
theorem Adds.refl (w : LbsWorld) : Adds w w := fun _ => Or.inl rfl

/-- What happens before does not add anything. -/
theorem Adds.after {w w₁ w' : LbsWorld} (h : Adds w₁ w')
    (hsame : ∀ session, sentOn session w₁.traffic = sentOn session w.traffic) : Adds w w' := by
  intro session
  rw [← hsame session]
  exact h session

/-- Traffic that stays the same adds nothing. -/
theorem Adds.of_traffic {w w' : LbsWorld} (h : w'.traffic = w.traffic) : Adds w w' := by
  intro session
  exact Or.inl (by rw [h])

/-- What is received was not sent. -/
theorem sentOn_received (session s : Bev) (pkr : Unpacker) (server_type uri : UInt16)
    (traffic : List (Traffic LbsPacket)) :
    sentOn session (traffic ++ [.received s pkr server_type uri]) = sentOn session traffic := by
  rw [sentOn, List.filterMap_append]
  exact List.append_nil _

/-- One packet more was sent, if the connection takes it. -/
theorem adds_sendPacket {w : LbsWorld} {p : LbsPacket} (hp : p.Filled) :
    Adds w (w.sendPacket p).1 := by
  rw [World.sendPacket]
  split
  · next s _ hconn =>
    intro session
    by_cases hs : s = session
    · refine Or.inr ⟨p, hp, hs ▸ hconn, ?_⟩
      rw [sentOn, List.filterMap_append, List.filterMap_cons]
      simp [hs, sentOn]
    · refine Or.inl ?_
      rw [sentOn, List.filterMap_append, List.filterMap_cons]
      simp [hs, sentOn]
  · exact Adds.refl w

/-- `sendPacket` adds the packet, if it adds anything. -/
theorem adds_send {w : LbsWorld} {p : LbsPacket} (hp : p.Filled) : Adds w (sendPacket p w).1 := by
  rw [sendPacket_eq]
  exact adds_sendPacket hp

theorem adds_onConnect (success : Bool) (w : LbsWorld) : Adds w (onConnect success w) := by
  cases success with
  | false => exact Adds.of_traffic rfl
  | true => exact (adds_sendPacket (joinRequest_filled _)).after fun _ => rfl

theorem adds_onReply (visitor : Visitor) (code : UInt32) (details : Lbs.DetailInfo2Map.Val)
    (w : LbsWorld) : Adds w (onReply visitor code details w) := by
  rw [onReply]
  split
  · exact (adds_send (fullChannelList_filled _ _)).after fun _ => rfl
  · exact Adds.refl w

theorem adds_onPacketReceived (visitor : Visitor) (pkr : Unpacker) (server_type uri : UInt16)
    (w : LbsWorld) : Adds w (onPacketReceived visitor pkr server_type uri w) := by
  rw [onPacketReceived]
  split
  · exact Adds.refl w
  split
  · exact adds_onReply _ _ _ w
  split
  · exact adds_onReply _ _ _ w
  split
  · exact Adds.of_traffic rfl
  · exact Adds.of_traffic rfl

theorem adds_sendDelta (added removed : List ChannelInfo) (w : LbsWorld) :
    Adds w (UniLbsConnection.sendDelta added removed w) := by
  rw [UniLbsConnection.sendDelta]
  split
  · exact Adds.refl w
  · exact adds_send (deltaChannelList_filled _ _ _)

/-- A `Connect` of a client that is not connected sends nothing. -/
theorem connect_traffic {w : LbsWorld} (h : w.Consistent) (visitor : Visitor) (now : Int)
    (sys : Syscalls) : (w.connect (callback visitor) now sys).1.traffic = w.traffic := by
  cases hpending : w.client.pending.isSome with
  | true => rw [World.connect, if_pos (h.connecting_eq.trans hpending)]
  | false =>
    have hsettled : w.Settled w.client.local_port false := ⟨h, hpending, rfl⟩
    rcases hsettled.connect_cases (callback visitor) now sys with
      ⟨-, -, -, huntold⟩ | ⟨-, w', -, -, huntold, heq⟩
    · exact huntold.traffic_eq
    · rw [heq]
      exact huntold.traffic_eq

/-- **One event of a connection.** -/
theorem next_adds {w : LbsWorld} (h : w.Consistent) {i : UniLbsConnection.Input}
    (henabled : UniLbsConnection.Enabled w i) : Adds w (UniLbsConnection.next w i) := by
  cases i with
  -- the callback runs on a client that has told nothing since
  | connectCompleted now bev success =>
    have hpending := h.pending_of_waiting henabled
    have hsettled : w.Settled w.client.local_port true := ⟨h, by rw [hpending]; rfl, rfl⟩
    rcases hsettled.connectCallback hpending (callback noVisitor) now success with
      ⟨w', -, huntold, -, heq⟩
    rw [UniLbsConnection.next, heq]
    refine (adds_onConnect success w').after fun session => ?_
    rw [huntold.traffic_eq]
  | packetReceived now conn pkr server_type uri visitor =>
    exact (adds_onPacketReceived visitor pkr server_type uri _).after fun session =>
      sentOn_received session conn pkr server_type uri w.traffic
  | socketError now conn =>
    rcases (h.settled.scheduleNextTry now).close with ⟨-, -, huntold⟩
    exact Adds.of_traffic huntold.traffic_eq
  -- the timer closes a silent connection, reports the load, or connects again
  | timer now sys visitor =>
    rw [UniLbsConnection.next, World.onTimer]
    split
    · rcases (h.settled.scheduleNextTry now).close with ⟨-, -, huntold⟩
      exact Adds.of_traffic huntold.traffic_eq
    split
    · show Adds w (timeToPing visitor w)
      rw [timeToPing]
      split
      · exact Adds.refl w
      · exact adds_send (loadReport_filled _ _)
    split
    · exact Adds.of_traffic (connect_traffic h visitor now sys)
    · exact Adds.refl w
  | doChannelCreate c => exact adds_sendDelta [c] [] w
  | doChannelDestroy c => exact adds_sendDelta [] [c] w

/-! ## What a step of the system adds -/

/-- Every connection of the new map is in the old one, or new. -/
def Keeps (connections new_connections : UInt32 → Option LbsWorld) : Prop :=
  ∀ ip w, new_connections ip = some w → connections ip = some w ∨ w.traffic = []

/-- A new connection has sent nothing. -/
theorem newConnection_traffic (now : Int) (syscalls : Syscalls) (c : UniLbsClient) :
    (c.newConnection now syscalls).traffic = [] := by
  have hsettled := World.fresh_settled (P := LbsPacket) now 0 1 (UniLbsConnection.create
    c.service_name c.service_id c.service_port.toUInt16 c.release_version)
  exact connect_traffic hsettled.consistent noVisitor now syscalls

/-- A map keeps its connections when one is set that it had or that has sent nothing. -/
theorem Keeps.update {connections new_connections : UInt32 → Option LbsWorld}
    (h : Keeps connections new_connections) {ip : UInt32} {w : LbsWorld}
    (hw : connections ip = some w ∨ w.traffic = []) :
    Keeps connections (Function.update new_connections ip (some w)) := by
  intro ip' w' hw'
  by_cases hip : ip' = ip
  · rw [hip, Function.update_self] at hw'
    rw [hip, ← Option.some_inj.mp hw']
    exact hw
  · rw [Function.update_of_ne hip] at hw'
    exact h ip' w' hw'

/-- A reload keeps the traffic of the connections that stay. -/
theorem keeps_reload (c : UniLbsClient) (now : Int) (addresses : List LbsAddress) :
    Keeps c.connections (c.reloadLbsAddresses now addresses).connections := by
  -- the map that is built holds connections of the old map and new ones
  have hfold : ∀ new_connections, Keeps c.connections new_connections →
      Keeps c.connections (addresses.foldl (c.reloadAddress now) new_connections) := by
    induction addresses with
    | nil => exact fun _ h => h
    | cons addr addresses ih =>
      intro new_connections h
      refine ih _ ?_
      -- an address of the old map keeps its connection, unless it was met before
      rw [UniLbsClient.reloadAddress]
      split
      · next conn hconn =>
        split
        · exact h.update (Or.inl hconn)
        · exact h
      · exact h.update (Or.inr (newConnection_traffic now addr.syscalls c))
  apply hfold
  intro ip w hw
  cases hw

/-- **One step of the system**: a connection goes on from where it was, or is new. -/
theorem next_connections {s : LbsSystem} (h : AllViewed s.channels s.client.connections) {i : Input}
    (henabled : s.Enabled i) {ip : UInt32} {w' : LbsWorld}
    (hw' : (s.next i).client.connections ip = some w') :
    (∃ w, s.client.connections ip = some w ∧ Adds w w') ∨ w'.traffic = [] := by
  -- a reload keeps every connection or makes a new one, which has sent nothing
  have hkept : Keeps s.client.connections (s.next i).client.connections →
      (∃ w, s.client.connections ip = some w ∧ Adds w w') ∨ w'.traffic = [] := by
    intro hkeeps
    rcases hkeeps ip w' hw' with hsame | hnew
    · exact Or.inl ⟨w', hsame, Adds.refl w'⟩
    · exact Or.inr hnew
  cases i with
  -- a broadcast sends at most one packet on each connection
  | create vid cid name =>
    rcases Option.map_eq_some_iff.mp hw' with ⟨w, hw, rfl⟩
    exact Or.inl ⟨w, hw, adds_sendDelta _ _ w⟩
  | destroy vid cid name =>
    rcases Option.map_eq_some_iff.mp hw' with ⟨w, hw, rfl⟩
    exact Or.inl ⟨w, hw, adds_sendDelta _ _ w⟩
  | event ip' i =>
    rcases henabled with ⟨w, hw, hevent, -⟩
    have hw' : (if ip = ip' then (s.client.connections ip').map (UniLbsConnection.next · i)
      else s.client.connections ip) = some w' := hw'
    split at hw'
    -- only the connection of the event changes
    · next hip =>
      rw [hw] at hw'
      rw [hip, ← Option.some_inj.mp hw']
      exact Or.inl ⟨w, hw, next_adds (h ip' w hw).consistent hevent⟩
    · exact Or.inl ⟨w', hw', Adds.refl w'⟩
  | setServiceInformation now service_id service_port resolved loopback =>
    exact hkept (keeps_reload { s.client with
      service_id := service_id, service_port := service_port } now _)
  -- before the service is known, nothing is reloaded
  | updateLbsAddresses now new_addresses =>
    refine hkept ?_
    show Keeps s.client.connections (s.client.updateLbsAddresses now new_addresses).connections
    rw [UniLbsClient.updateLbsAddresses]
    split
    · exact keeps_reload s.client now new_addresses
    · exact fun _ _ hw => Or.inl hw
  | reloadLbsHosts now resolved loopback => exact hkept (keeps_reload s.client now _)

/-! ## Runs -/

/-- These were once all the packets of the session, and what they make known was the visitor's set. -/
def Moment (ts : List (LbsSystem × Input × LbsSystem)) (ip : UInt32) (session : Bev)
    (ps : List LbsPacket) : Prop :=
  ∃ x ∈ ts, (∃ w, x.2.2.client.connections ip = some w ∧ w.client.conn = some session ∧
      sentOn session w.traffic = ps) ∧
    ∀ known, ps.foldl learn none = some known → known = x.2.2.channels

/-- What was a moment of a run is one of the longer run. -/
theorem Moment.later {ts : List (LbsSystem × Input × LbsSystem)} {ip : UInt32} {session : Bev}
    {ps : List LbsPacket} (h : Moment ts ip session ps) (x : LbsSystem × Input × LbsSystem) :
    Moment (ts ++ [x]) ip session ps := by
  rcases h with ⟨y, hy, hmoment⟩
  exact ⟨y, List.mem_append_left _ hy, hmoment⟩

/-- What holds of the packets of a session, for the connection `w` to `ip`. -/
structure Told (ts : List (LbsSystem × Input × LbsSystem)) (ip : UInt32) (w : LbsWorld) : Prop where
  filled : ∀ session, ∀ p ∈ sentOn session w.traffic, p.Filled
  moment : ∀ session k, 0 < k → k ≤ (sentOn session w.traffic).length →
    Moment ts ip session ((sentOn session w.traffic).take k)

/-- A connection that has sent nothing was told nothing. -/
theorem told_empty (ts : List (LbsSystem × Input × LbsSystem)) (ip : UInt32) {w : LbsWorld}
    (h : w.traffic = []) : Told ts ip w := by
  constructor
  · intro session p hp
    rw [h] at hp
    cases hp
  · intro session k hpos hk
    rw [h] at hk
    exact absurd (Nat.lt_of_lt_of_le hpos hk) (Nat.lt_irrefl 0)

/-- One more step: the packet that it adds makes a moment of its own. -/
theorem Told.step {ts : List (LbsSystem × Input × LbsSystem)} {ip : UInt32} {w w' : LbsWorld}
    (h : Told ts ip w) (hadds : Adds w w') {t : LbsSystem} (i : Input) {u : LbsSystem}
    (hw' : u.client.connections ip = some w') (hshows : Shows u.channels w') :
    Told (ts ++ [(t, i, u)]) ip w' := by
  constructor
  · intro session p hp
    rcases hadds session with hsame | ⟨q, hq, -, hmore⟩
    · rw [hsame] at hp
      exact h.filled session p hp
    · rw [hmore] at hp
      rcases List.mem_append.mp hp with hp | hp
      · exact h.filled session p hp
      · rwa [List.mem_singleton.mp hp]
  -- the moments of the shorter run are still there; the new one is the state itself
  · intro session k hpos hk
    rcases hadds session with hsame | ⟨q, -, hconn, hmore⟩
    · rw [hsame] at hk ⊢
      exact (h.moment session k hpos hk).later _
    by_cases hold : k ≤ (sentOn session w.traffic).length
    · rw [hmore, List.take_append_of_le_length hold]
      exact (h.moment session k hpos hold).later _
    -- all packets so far: what they make known is the visitor's set
    · have hall : (sentOn session w'.traffic).length ≤ k := by
        rw [hmore, List.length_append, List.length_singleton]
        omega
      rw [List.take_of_length_le hall]
      refine ⟨_, List.mem_append_right _ (List.mem_singleton.mpr rfl), ⟨w', hw', hconn, rfl⟩, ?_⟩
      intro known hknown
      rw [← replay_eq] at hknown
      exact (hshows session known hconn hknown).1

/-- **Every run.** -/
theorem run_told {service_name release_version : List UInt8} {channels : Set Channel} {s : LbsSystem}
    {ts : List (LbsSystem × Input × LbsSystem)}
    (hrun : Run Step ⟨UniLbsClient.create service_name release_version, channels⟩ ts s) :
    AllViewed s.channels s.client.connections ∧
      ∀ ip w, s.client.connections ip = some w → Told ts ip w := by
  generalize hstart : (⟨UniLbsClient.create service_name release_version, channels⟩ : LbsSystem) = s₀
    at hrun
  -- induction on the run; the invariant of the views gives the last moment
  induction hrun with
  | nil =>
    subst hstart
    refine ⟨AllViewed.empty channels, ?_⟩
    intro ip w hw
    cases hw
  | @snoc t u ts i _ hstep ih =>
    rcases ih with ⟨hviewed, htold⟩
    rcases hstep with ⟨henabled, rfl⟩
    have hviewed' := next_allViewed hviewed henabled
    refine ⟨hviewed', fun ip w' hw' => ?_⟩
    rcases next_connections hviewed henabled hw' with ⟨w, hw, hadds⟩ | hnew
    · exact (htold ip w hw).step hadds i hw' (hviewed' ip w' hw').shows
    · exact told_empty _ ip hnew

/-! ## Hearing -/

/-- A load balancer takes the lists out of the packets that it is called with. -/
def hear (known : Option (Set Channel)) : Event → Option (Set Channel)
  | .packetReceived pkr server_type uri =>
    if server_type ≠ kUniLbsType then known
    else if uri = Lbs.kLbsFullChannelListUri then
      some (listed ((Lbs.LbsFullChannelList.decode Hashing.first).run pkr).1)
    else if uri = Lbs.kLbsDeltaChannelListUri then
      known.map fun known => applied known ((Lbs.LbsDeltaChannelList.decode Hashing.first).run pkr).1
    else known
  | .error _ => known

/-- Lists of entries that are the same are equal. -/
theorem channels_same {x y : Lbs.AllChannelVector.Val} (h : Lbs.AllChannelVector.Same x y) : x = y := by
  have heq : List.Forall₂ Eq x y := h.imp fun _ _ hboth => Prod.ext hboth.1 hboth.2
  rwa [List.forall₂_eq_eq_eq] at heq

/-- Full lists that are the same list the same channels. -/
theorem listed_same {x y : Lbs.LbsFullChannelList.Val} (h : Lbs.LbsFullChannelList.Same x y) :
    listed x = listed y := by
  rcases h with ⟨-, -, -, hchannels, -⟩
  exact congrArg (fun channels : List Channel => {e | e ∈ channels}) (channels_same hchannels)

/-- Deltas that are the same change the channels alike. -/
theorem applied_same (known : Set Channel) {x y : Lbs.LbsDeltaChannelList.Val}
    (h : Lbs.LbsDeltaChannelList.Same x y) : applied known x = applied known y := by
  rcases h with ⟨-, -, -, hadded, hremoved, -⟩
  exact congrArg₂ (fun added removed : List Channel => {e | (e ∈ known ∨ e ∈ added) ∧ e ∉ removed})
    (channels_same hadded) (channels_same hremoved)

/-- **Hearing a packet is learning what was sent.** -/
theorem hear_packet {p : LbsPacket} (hp : p.Filled) {e : Event}
    (h : TcpConnection.Unmarshalls Hashing.first e p.packet) (known : Option (Set Channel)) :
    hear known e = learn known p := by
  rcases h with ⟨pkr, rfl, hsame, -⟩
  rw [hear, hp.server_type, hp.uri, if_neg (not_not.mpr rfl)]
  -- the balancer looks at the two lists only
  cases p with
  | joinReq2 v =>
    have huri : (LbsPacket.joinReq2 v).packet.uri = Lbs.kLbsJoinReq2Uri := rfl
    rw [huri, if_neg (by decide), if_neg (by decide)]
    rfl
  | ping v =>
    have huri : (LbsPacket.ping v).packet.uri = Lbs.kLbsPingUri := rfl
    rw [huri, if_neg (by decide), if_neg (by decide)]
    rfl
  | fullChannelList v =>
    have huri : (LbsPacket.fullChannelList v).packet.uri = Lbs.kLbsFullChannelListUri := rfl
    rw [huri, if_pos rfl]
    exact congrArg some (listed_same hsame).symm
  | deltaChannelList v =>
    have huri : (LbsPacket.deltaChannelList v).packet.uri = Lbs.kLbsDeltaChannelListUri := rfl
    rw [huri, if_neg (by decide), if_pos rfl]
    exact Option.map_congr fun known _ => (applied_same known hsame).symm

/-- What a load balancer knows that got these chunks on one connection. -/
def heard (cb : Callback) (heap : List Event → Nat → UInt8) (chunks : List (List UInt8)) :
    Option (Set Channel) := (TcpConnection.run cb heap chunks).2.foldl hear none

/-- What the balancer unpacks it learns from as from what was packed. -/
theorem foldl_hear {es : List Event} {ps : List LbsPacket} (hfilled : ∀ p ∈ ps, p.Filled)
    (h : List.Forall₂ (TcpConnection.Unmarshalls Hashing.first) es (ps.map LbsPacket.packet))
    (known : Option (Set Channel)) : es.foldl hear known = ps.foldl learn known := by
  induction ps generalizing es known with
  | nil =>
    cases h
    rfl
  | cons p ps ih =>
    rcases h with _ | ⟨hhead, htail⟩
    rw [List.foldl_cons, List.foldl_cons, hear_packet (hfilled p List.mem_cons_self) hhead]
    exact ih (fun q hq => hfilled q (List.mem_cons_of_mem _ hq)) htail _

/-- **The view on the wire.**  In every run of a client, for every session: whichever part of the bytes
    sent on it has arrived, in whatever chunks, as soon as a full list is in it a load balancer knows
    exactly the set of channels that the visitor had when the last packet was sent that is complete.  If
    all has arrived and the session is still connected, that is the set which the visitor has now. -/
theorem view_on_the_wire {service_name release_version : List UInt8} {channels : Set Channel}
    {s : LbsSystem} {ts : List (LbsSystem × Input × LbsSystem)}
    (hrun : Run Step ⟨UniLbsClient.create service_name release_version, channels⟩ ts s)
    {ip : UInt32} {w : LbsWorld} (hw : s.client.connections ip = some w) {session : Bev}
    (hnarrow : ∀ p ∈ sentOn session w.traffic, p.packet.ty.Narrow p.packet.value)
    {frames : List (List UInt8)}
    (hsent : AnyPacket.Writes ((sentOn session w.traffic).map LbsPacket.packet) frames)
    {cb : Callback} (hcb : TcpConnection.NeverCloses cb) (heap : List Event → Nat → UInt8)
    {chunks : List (List UInt8)} {n : Nat} (hcut : chunks.flatten = frames.flatten.take n) :
    ∃ k, k ≤ (sentOn session w.traffic).length ∧ (frames.take k).flatten.length ≤ n ∧
      (k < (sentOn session w.traffic).length → n < (frames.take (k + 1)).flatten.length) ∧
      ∀ v, .fullChannelList v ∈ (sentOn session w.traffic).take k →
        (∃ x ∈ ts, heard cb heap chunks = some x.2.2.channels ∧
          ∃ w', x.2.2.client.connections ip = some w' ∧ w'.client.conn = some session ∧
            sentOn session w'.traffic = (sentOn session w.traffic).take k) ∧
        (w.client.conn = some session → k = (sentOn session w.traffic).length →
          heard cb heap chunks = some s.channels) := by
  rcases run_told hrun with ⟨hviewed, htold⟩
  rcases htold ip w hw with ⟨hfilled, hmoment⟩
  have hsound : ∀ p ∈ (sentOn session w.traffic).map LbsPacket.packet, p.Sound := by
    intro p hp
    rcases List.mem_map.mp hp with ⟨q, hq, rfl⟩
    exact ⟨(hfilled session q hq).wf, hnarrow q hq⟩
  rcases TcpConnection.stream_unmarshalled hcb heap Hashing.first hsound hsent hcut with
    ⟨k, hk, hle, hlt, hall⟩
  rw [List.length_map] at hk hlt
  rw [← List.map_take] at hall
  -- the balancer hears what was sent, up to the cut
  have hheard : heard cb heap chunks = ((sentOn session w.traffic).take k).foldl learn none :=
    foldl_hear (fun p hp => hfilled session p (List.mem_of_mem_take hp)) hall none
  refine ⟨k, hk, hle, hlt, fun v hv => ?_⟩
  rcases foldl_learn_isSome hv none with ⟨known, hknown⟩
  rw [hheard, hknown]
  -- after some packets the view is that of a moment of the run; after all of them, of the end
  constructor
  -- a full list was sent, so at least one packet is there
  · have hpos : 0 < k := by
      rcases Nat.eq_zero_or_pos k with rfl | hpos
      · cases hv
      · exact hpos
    rcases hmoment session k hpos hk with ⟨x, hx, hworld, hset⟩
    exact ⟨x, hx, congrArg some (hset known hknown), hworld⟩
  · intro hconn hend
    rw [hend, List.take_length, ← replay_eq] at hknown
    exact congrArg some ((hviewed ip w hw).shows session known hconn hknown).1

/-- The packets that `sampleInputs` makes the client send, and their frames. -/
def sampleSent : List LbsPacket :=
  [.joinReq2 ⟨17, 1007, (1 : UInt32), ([0x74] : List UInt8), (443 : UInt16),
      [((6 : UInt32), ([0x31] : List UInt8))], ()⟩,
    .fullChannelList ⟨17, 1005, (1 : UInt32), [((7 : UInt32), ([0x61] : List UInt8))], ()⟩,
    .deltaChannelList ⟨17, 1006, (1 : UInt32), [((8 : UInt32), ([0x62] : List UInt8))], [], ()⟩,
    .deltaChannelList ⟨17, 1006, (1 : UInt32), [], [((7 : UInt32), ([0x61] : List UInt8))], ()⟩]

def sampleStream : List (List UInt8) :=
  [[24, 0, 17, 0, 239, 3, 1, 0, 0, 0, 1, 0, 116, 187, 1, 1, 0, 6, 0, 0, 0, 1, 0, 49],
    [19, 0, 17, 0, 237, 3, 1, 0, 0, 0, 1, 0, 7, 0, 0, 0, 1, 0, 97],
    [21, 0, 17, 0, 238, 3, 1, 0, 0, 0, 1, 0, 8, 0, 0, 0, 1, 0, 98, 0, 0],
    [21, 0, 17, 0, 238, 3, 1, 0, 0, 0, 0, 0, 1, 0, 7, 0, 0, 0, 1, 0, 97]]

/-- The request, the full list, and some of the first change. -/
theorem view_on_the_wire_sample :
    ∃ x ∈ trace next sampleStart sampleInputs,
      heard ⟨fun _ _ => 0⟩ (fun _ _ => 0) [sampleStream.flatten.take 30,
        (sampleStream.flatten.drop 30).take 23] = some x.2.2.channels := by
  have hrun : Run Step sampleStart (trace next sampleStart sampleInputs)
      (sampleInputs.foldl next sampleStart) := by
    apply Run.of_inputs Enabled next
    intro x hx
    simp only [sampleInputs, trace, List.mem_cons, List.not_mem_nil, or_false] at hx
    rcases hx with rfl | rfl | rfl | rfl | rfl | rfl
    · trivial
    · trivial
    -- the first bufferevent waits and reports that it is connected
    · exact ⟨_, rfl, by decide, trivial⟩
    · refine ⟨_, rfl, by decide, ?_⟩
      intro e
      show e ∈ [((7 : UInt32), [(0x61 : UInt8)])] ↔ e = (7, [0x61]) ∨ e ∈ (∅ : Set Channel)
      simp
    · trivial
    · trivial
  have hworld : ∃ w, (sampleInputs.foldl next sampleStart).client.connections 1 = some w ∧
      sentOn 0 w.traffic = sampleSent := ⟨_, rfl, rfl⟩
  rcases hworld with ⟨w, hw, hsentOn⟩
  have hname : ∀ (m : UInt32) (b : UInt8), ∀ e ∈ [(m, [b])], (e.2 : List UInt8).length < 2 ^ 32 := by
    intro m b e he
    rw [List.mem_singleton.mp he]
    exact Nat.lt_of_lt_of_le Nat.one_lt_two (Nat.le_of_ble_eq_true rfl)
  have hnarrow : ∀ p ∈ sentOn 0 w.traffic, p.packet.ty.Narrow p.packet.value := by
    rw [hsentOn]
    simp only [sampleSent, List.forall_mem_cons, List.not_mem_nil, false_imp_iff, implies_true, and_true]
    have hservice : ([0x74] : List UInt8).length < 2 ^ 32 := by decide
    have hnone : ∀ ty : Ty, (Ty.vector ty).Narrow [] := by
      intro ty
      exact ⟨Nat.two_pow_pos 32, fun _ he => absurd he List.not_mem_nil⟩
    refine ⟨⟨trivial, hservice, trivial, fun e he => ⟨trivial, hname _ _ e he⟩, trivial⟩,
      ⟨trivial, ⟨by decide, fun e he => ⟨trivial, hname _ _ e he⟩⟩, trivial⟩,
      ⟨trivial, ⟨by decide, fun e he => ⟨trivial, hname _ _ e he⟩⟩, hnone _, trivial⟩,
      trivial, hnone _, ⟨by decide, fun e he => ⟨trivial, hname _ _ e he⟩⟩, trivial⟩
  have hsent : AnyPacket.Writes ((sentOn 0 w.traffic).map LbsPacket.packet) sampleStream := by
    rw [hsentOn]
    exact .cons rfl (.cons rfl (.cons rfl (.cons rfl .nil)))
  have hcb : TcpConnection.NeverCloses ⟨fun _ _ => 0⟩ := fun _ _ => rfl
  have hcut : List.flatten [sampleStream.flatten.take 30, (sampleStream.flatten.drop 30).take 23] =
      sampleStream.flatten.take 53 := rfl
  rcases view_on_the_wire hrun hw hnarrow hsent hcb (fun _ _ => 0) hcut with ⟨k, hk, hle, hlt, hset⟩
  rw [hsentOn] at hk hlt hset
  -- the third packet is not there as a whole
  have htwo : k = 2 := by
    have hk : k ≤ 4 := hk
    rcases (show k ≤ 1 ∨ k = 2 ∨ k = 3 ∨ k = 4 by omega) with hfew | rfl | rfl | rfl
    · rcases (show k = 0 ∨ k = 1 by omega) with rfl | rfl
      · exact absurd (hlt (by decide)) (by decide)
      · exact absurd (hlt (by decide)) (by decide)
    · rfl
    · exact absurd hle (by decide)
    · exact absurd hle (by decide)
  rw [htwo] at hset
  rcases (hset _ (List.mem_cons_of_mem _ List.mem_cons_self)).1 with ⟨x, hx, hheard, -⟩
  exact ⟨x, hx, hheard⟩

end LbsSystem

end Turnserver
