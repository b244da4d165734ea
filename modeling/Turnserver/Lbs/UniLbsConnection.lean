/-
  THE LBS CONNECTION (`lbs/uni_lbs_connection.cpp`) — joining a load balancer, and staying joined.

  A `UniLbsConnection` is the callback of its own `TcpClient`.  On a new TCP session it asks to join
  (`LbsJoinReq2`); a reply with code `kOk` sets `joined_`, and from then on it reports its load and
  its channels.  The flag lives here, the session lives in the client.

  * What the visitor (`UniLbsEventCallback`) answers is part of the input; what it is told is recorded
    in `notices`.
  * `InSession` ties the flag to the session, and the session to what was sent on it.
  * One way a session ends is not reported: `OnTimer` closes a silent connection and calls nobody.
    `session_order_iff` says that the order holds in a run exactly when that never happens to a
    joined connection.
-/
import Turnserver.Base.Format
import Turnserver.Network.TcpClient

namespace Turnserver

open Transition

/-! ## The code -/

/-- `ChannelInfo` -/
structure ChannelInfo where
  vid : UInt32
  cid : UInt32
  channel_name : List UInt8

/-- What a `UniLbsEventCallback` is told. -/
inductive Notice
  | lbsConnected
  | lbsDisconnected
  | lbsMessageReceived (uri : UInt16)
  | updateEdgeServerLoadQuota (max_users : UInt32)
  | joinReplied (details : Lbs.DetailInfo2Map.Val)

/-- What it answers when it is asked. -/
structure Visitor where
  channels : List ChannelInfo
  users : UInt32
  cpu : UInt32
  rx_kbps : UInt32
  tx_kbps : UInt32

/-- The packets that a `UniLbsConnection` sends. -/
inductive LbsPacket
  | joinReq2 (v : Lbs.LbsJoinReq2.Val)
  | ping (v : Lbs.LbsPing.Val)
  | fullChannelList (v : Lbs.LbsFullChannelList.Val)
  | deltaChannelList (v : Lbs.LbsDeltaChannelList.Val)

/-- The members of `UniLbsConnection` beside the client. -/
structure UniLbsConnection where
  joined : Bool
  service_id : UInt32
  service_port : UInt16
  service_name : List UInt8
  release_version : List UInt8
  notices : List Notice

/-- The connection, its `connection_`, and the traffic. -/
abbrev LbsWorld := World UniLbsConnection LbsPacket

namespace UniLbsConnection

/-- `kUniLbsType` -/
def kUniLbsType : UInt16 := 17

/-- `kOk` -/
def kOk : UInt32 := 0

/-- `kUserLoad` -/
def kUserLoad : UInt32 := 1

/-- `kCpuLoad` -/
def kCpuLoad : UInt32 := 2

/-- `kTrafficInLoad` -/
def kTrafficInLoad : UInt32 := 3

/-- `kTrafficOutLoad` -/
def kTrafficOutLoad : UInt32 := 4

/-- `kUserLoadMax` -/
def kUserLoadMax : UInt32 := 5

/-- `kServerVersion` -/
def kServerVersion : UInt32 := 6

/-- The constructor. -/
def create (service_name : List UInt8) (service_id : UInt32) (service_port : UInt16)
    (release_version : List UInt8) : UniLbsConnection :=
  ⟨false, service_id, service_port, service_name, release_version, []⟩

/-- `joined_ = joined` -/
def setJoined (joined : Bool) (w : LbsWorld) : LbsWorld :=
  { w with user := { w.user with joined := joined } }

/-- A call of the visitor that returns nothing. -/
def tell (n : Notice) (w : LbsWorld) : LbsWorld :=
  { w with user := { w.user with notices := w.user.notices ++ [n] } }

/-- `sendPacket`: only while connected. -/
def sendPacket (p : LbsPacket) (w : LbsWorld) : LbsWorld × Bool :=
  if w.client.isConnected then w.sendPacket p else (w, false)

/-- The packets as the functions below fill them. -/
def joinRequest (c : UniLbsConnection) : Lbs.LbsJoinReq2.Val :=
  ⟨kUniLbsType, Lbs.kLbsJoinReq2Uri, c.service_id, c.service_name, c.service_port,
    [(kServerVersion, c.release_version)], ()⟩

/-- The entries of a list of channels, as the packets hold them. -/
def channelEntries (channels : List ChannelInfo) : Lbs.AllChannelVector.Val :=
  channels.map fun c => (c.vid, c.channel_name)

/-- The packet of `sendFullChannelList`. -/
def fullChannelList (c : UniLbsConnection) (channels : List ChannelInfo) :
    Lbs.LbsFullChannelList.Val :=
  ⟨kUniLbsType, Lbs.kLbsFullChannelListUri, c.service_id, channelEntries channels, ()⟩

/-- The packet of `doChannelCreate` and `doChannelDestroy`. -/
def deltaChannelList (c : UniLbsConnection) (added removed : List ChannelInfo) :
    Lbs.LbsDeltaChannelList.Val :=
  ⟨kUniLbsType, Lbs.kLbsDeltaChannelListUri, c.service_id, channelEntries added,
    channelEntries removed, ()⟩

/-- The packet of `timeToPing`. -/
def loadReport (c : UniLbsConnection) (visitor : Visitor) : Lbs.LbsPing.Val :=
  ⟨kUniLbsType, Lbs.kLbsPingUri, c.service_id,
    [(kUserLoad, visitor.users), (kCpuLoad, visitor.cpu), (kTrafficInLoad, visitor.rx_kbps),
      (kTrafficOutLoad, visitor.tx_kbps)], ()⟩

/-- `onConnect` -/
def onConnect (connected : Bool) (w : LbsWorld) : LbsWorld :=
  if !connected then tell .lbsDisconnected (setJoined false w)
  else
    let w := tell .lbsConnected w
    (w.sendPacket (.joinReq2 (joinRequest w.user))).1

/-- `sendFullChannelList` -/
def sendFullChannelList (channels : List ChannelInfo) (w : LbsWorld) : LbsWorld :=
  (sendPacket (.fullChannelList (fullChannelList w.user channels)) w).1

/-- The part after the reply is unmarshalled. -/
def onReply (visitor : Visitor) (code : UInt32) (details : Lbs.DetailInfo2Map.Val) (w : LbsWorld) :
    LbsWorld :=
  if code = kOk then
    sendFullChannelList visitor.channels (tell (.joinReplied details) (setJoined true w))
  else w

/-- What is unpacked of a `LbsJoinRes`. -/
def joinRes (p : Unpacker) : Lbs.LbsJoinRes.Val := ((Lbs.LbsJoinRes.decode Hashing.first).run p).1

/-- What is unpacked of a `LbsJoinRes2`. -/
def joinRes2 (p : Unpacker) : Lbs.LbsJoinRes2.Val :=
  ((Lbs.LbsJoinRes2.decode Hashing.first).run p).1

/-- `reply.code` -/
def joinResCode (p : Unpacker) : UInt32 := (joinRes p).members.2.1

/-- The code of a `LbsJoinRes2`. -/
def joinRes2Code (p : Unpacker) : UInt32 := (joinRes2 p).members.2.1

/-- `onJoinReplied` -/
def onJoinReplied (visitor : Visitor) (p : Unpacker) : LbsWorld → LbsWorld :=
  onReply visitor (joinResCode p) []

/-- `onJoin2Replied` -/
def onJoin2Replied (visitor : Visitor) (p : Unpacker) : LbsWorld → LbsWorld :=
  onReply visitor (joinRes2Code p) (joinRes2 p).members.2.2.1

/-- `onPong` -/
def onPong (p : Unpacker) : LbsWorld → LbsWorld :=
  let pong : Lbs.LbsPong.Val := ((Lbs.LbsPong.decode Hashing.first).run p).1
  let load_detail : List (UInt32 × UInt32) := pong.members.2.1
  tell (.updateEdgeServerLoadQuota ((load_detail.lookup kUserLoadMax).getD 0))

/-- `onPacketReceived` -/
def onPacketReceived (visitor : Visitor) (p : Unpacker) (service_type uri : UInt16) (w : LbsWorld) :
    LbsWorld :=
  if service_type ≠ kUniLbsType then w
  else if uri = Lbs.kLbsJoinResUri then onJoinReplied visitor p w
  else if uri = Lbs.kLbsJoinRes2Uri then onJoin2Replied visitor p w
  else if uri = Lbs.kLbsPongUri then onPong p w
  else tell (.lbsMessageReceived uri) w

/-- `timeToPing` -/
def timeToPing (visitor : Visitor) (w : LbsWorld) : LbsWorld :=
  if !w.user.joined then w else (sendPacket (.ping (loadReport w.user visitor)) w).1

/-- `onSocketError` -/
def onSocketError (w : LbsWorld) : LbsWorld := setJoined false w

/-- `DoChannelCreate` and `DoChannelDestroy` differ in the list that the channel goes into. -/
def sendDelta (added removed : List ChannelInfo) (w : LbsWorld) : LbsWorld :=
  if !w.user.joined then w
  else (sendPacket (.deltaChannelList (deltaChannelList w.user added removed)) w).1

/-- `doChannelCreate` -/
def doChannelCreate (c : ChannelInfo) : LbsWorld → LbsWorld := sendDelta [c] []

/-- `doChannelDestroy` -/
def doChannelDestroy (c : ChannelInfo) : LbsWorld → LbsWorld := sendDelta [] [c]

/-- The connection as the callback of its client. -/
def callback (visitor : Visitor) : TcpClientCallback UniLbsConnection LbsPacket :=
  ⟨onConnect, onPacketReceived visitor, onSocketError, timeToPing visitor⟩

/-- What happens next. -/
inductive Input
  | connectCompleted (now : Int) (bev : Bev) (success : Bool)
  | packetReceived (now : Int) (conn : Bev) (pkr : Unpacker) (server_type uri : UInt16)
      (visitor : Visitor)
  | socketError (now : Int) (conn : Bev)
  | timer (now : Int) (sys : Syscalls) (visitor : Visitor)
  | doChannelCreate (c : ChannelInfo)
  | doChannelDestroy (c : ChannelInfo)

/-- A visitor that answers nothing: for the callbacks that do not ask. -/
def noVisitor : Visitor := ⟨[], 0, 0, 0, 0⟩

/-- What an input does. -/
def next (w : LbsWorld) : Input → LbsWorld
  | .connectCompleted now bev success =>
    w.connectCallback (callback noVisitor) now bev (if success then .connected else .error)
  | .packetReceived now conn pkr server_type uri visitor =>
    w.onPacketReceived (callback visitor) now conn pkr server_type uri
  | .socketError now _ => w.onError (callback noVisitor) now
  | .timer now sys visitor => w.onTimer (callback visitor) now sys
  | .doChannelCreate c => UniLbsConnection.doChannelCreate c w
  | .doChannelDestroy c => UniLbsConnection.doChannelDestroy c w

/-- As for the client alone. -/
def Enabled (w : LbsWorld) : Input → Prop
  | .connectCompleted _ bev _ => bev ∈ w.waiting
  | .packetReceived _ conn _ _ _ _ => w.client.conn = some conn
  | .socketError _ conn => w.client.conn = some conn
  | .timer _ _ _ => True
  | .doChannelCreate _ => True
  | .doChannelDestroy _ => True

instance (w : LbsWorld) : (i : Input) → Decidable (Enabled w i)
  | .connectCompleted _ bev _ => inferInstanceAs (Decidable (bev ∈ w.waiting))
  | .packetReceived _ conn _ _ _ _ => inferInstanceAs (Decidable (w.client.conn = some conn))
  | .socketError _ conn => inferInstanceAs (Decidable (w.client.conn = some conn))
  | .timer _ _ _ => inferInstanceAs (Decidable True)
  | .doChannelCreate _ => inferInstanceAs (Decidable True)
  | .doChannelDestroy _ => inferInstanceAs (Decidable True)

/-- One step of a connection. -/
def Step (w : LbsWorld) (i : Input) (w' : LbsWorld) : Prop := Enabled w i ∧ w' = next w i

/-- A connection that was made (`create`) and told to `Connect`, as `UniLbsClient` does for each new
    address. -/
def connected (now : Int) (sys : Syscalls) (service_name : List UInt8) (service_id : UInt32)
    (service_port : UInt16) (release_version : List UInt8) : LbsWorld :=
  ((World.fresh now 0 1
    (create service_name service_id service_port release_version)).connect
      (callback noVisitor) now sys).1

/-! ## Sessions -/

/-- A join reply with code `kOk`. -/
def isJoinOk (pkr : Unpacker) (server_type uri : UInt16) : Bool :=
  server_type == kUniLbsType &&
    ((uri == Lbs.kLbsJoinResUri && joinResCode pkr == kOk) ||
      (uri == Lbs.kLbsJoinRes2Uri && joinRes2Code pkr == kOk))

/-- Whether a packet of the traffic is an answer on the session that lets the connection join. -/
def isReply (s : Bev) : Traffic LbsPacket → Bool
  | .received s' pkr server_type uri => s' == s && isJoinOk pkr server_type uri
  | .sent _ _ => false

/-- Such a reply was received on the session. -/
def Replied (s : Bev) (traffic : List (Traffic LbsPacket)) : Prop :=
  ∃ pkr server_type uri, .received s pkr server_type uri ∈ traffic ∧
    isJoinOk pkr server_type uri = true

/-- The list test for `Replied`. -/
theorem replied_iff (s : Bev) (traffic : List (Traffic LbsPacket)) :
    Replied s traffic ↔ traffic.any (isReply s) = true := by
  rw [List.any_eq_true]
  constructor
  · rintro ⟨pkr, server_type, uri, hmem, hok⟩
    refine ⟨_, hmem, ?_⟩
    rw [isReply, hok, Bool.and_true]
    exact beq_self_eq_true s
  · rintro ⟨e, hmem, hreply⟩
    cases e with
    | sent s' p => exact absurd hreply Bool.false_ne_true
    | received s' pkr server_type uri =>
      rw [isReply, Bool.and_eq_true, beq_iff_eq] at hreply
      obtain ⟨rfl, hok⟩ := hreply
      exact ⟨pkr, server_type, uri, hmem, hok⟩

instance (s : Bev) (traffic : List (Traffic LbsPacket)) : Decidable (Replied s traffic) :=
  decidable_of_iff (traffic.any (isReply s) = true) (replied_iff s traffic).symm

/-- The packets that only a joined service sends. -/
def LbsPacket.needsJoin : LbsPacket → Bool
  | .ping _ => true
  | .deltaChannelList _ => true
  | _ => false

/-- What may follow `before`: the first packet of a session is `LbsJoinReq2`, and pings and channel
    lists wait for the reply. -/
def Allowed (before : List (Traffic LbsPacket)) : Traffic LbsPacket → Prop
  | .received _ _ _ _ => True
  | .sent s p =>
    ((∀ q, .sent s q ∉ before) → ∃ request, p = .joinReq2 request) ∧
      (LbsPacket.needsJoin p = true → Replied s before)

/-- `joined_` is set only if the current session got a successful reply. -/
def JoinedInSession (w : LbsWorld) : Prop :=
  w.user.joined = true → ∃ s, w.client.conn = some s ∧ Replied s w.traffic

/-- **The order of a session**, in one state: the flag, and everything sent up to now. -/
def SessionOrder (w : LbsWorld) : Prop := JoinedInSession w ∧ Unfolds Allowed w.traffic

/-! ## The invariant -/

/-- The flag and the traffic are in order, and whoever is connected has sent a packet. -/
structure InSession (w : LbsWorld) : Prop where
  joined : JoinedInSession w
  traffic : Unfolds Allowed w.traffic
  greeted : ∀ s, w.client.conn = some s → ∃ p, .sent s p ∈ w.traffic

/-- What was replied stays replied. -/
theorem Replied.append {s : Bev} {traffic : List (Traffic LbsPacket)} (h : Replied s traffic)
    (more : List (Traffic LbsPacket)) : Replied s (traffic ++ more) := by
  obtain ⟨pkr, server_type, uri, hmem, hok⟩ := h
  exact ⟨pkr, server_type, uri, List.mem_append_left _ hmem, hok⟩

/-- Without a session nobody is joined. -/
theorem JoinedInSession.not_joined {w : LbsWorld} (h : JoinedInSession w)
    (hconn : w.client.conn = none) : w.user.joined = false := by
  cases hjoined : w.user.joined with
  | false => rfl
  | true =>
    obtain ⟨s, hs, -⟩ := h hjoined
    rw [hconn] at hs
    cases hs

/-- Nothing was told and the connection is the same. -/
theorem InSession.untold {w w' : LbsWorld} (h : InSession w) (hw : w.Untold w')
    (hconn : w'.client.conn = w.client.conn) : InSession w' := by
  obtain ⟨h₁, h₂, h₃⟩ := h
  refine ⟨?_, ?_, ?_⟩
  · rw [JoinedInSession, hw.user_eq, hconn, hw.traffic_eq]
    exact h₁
  · rw [hw.traffic_eq]
    exact h₂
  · rw [hconn, hw.traffic_eq]
    exact h₃

/-- The session is over, and the flag says so. -/
theorem InSession.ended {w w' : LbsWorld} (h : InSession w)
    (hjoined : w'.user.joined = false) (htraffic : w'.traffic = w.traffic)
    (hconn : w'.client.conn = none) : InSession w' := by
  refine ⟨?_, ?_, ?_⟩
  · intro hj
    rw [hjoined] at hj
    cases hj
  · rw [htraffic]
    exact h.traffic
  · intro s hs
    rw [hconn] at hs
    cases hs

/-- A notice, and a reset of the flag, change nothing else. -/
theorem InSession.setUser {w : LbsWorld} (h : InSession w) {user : UniLbsConnection}
    (hjoined : user.joined = true → w.user.joined = true) : InSession { w with user := user } :=
  ⟨fun hj => h.joined (hjoined hj), h.traffic, h.greeted⟩

/-- A packet goes out on the session, or nowhere. -/
theorem InSession.send {w : LbsWorld} (h : InSession w) {p : LbsPacket}
    (hp : LbsPacket.needsJoin p = true → w.user.joined = true) : InSession (w.sendPacket p).1 := by
  rw [World.sendPacket]
  split
  -- only an open connection sends; the log grows by one entry
  · next s _ hconn =>
    refine ⟨?_, ?_, ?_⟩
    · intro hj
      obtain ⟨s', hs', hreplied⟩ := h.joined hj
      exact ⟨s', hs', hreplied.append _⟩
    -- the entry is allowed: it is not the first of its session, and the join was answered before
    · refine unfolds_concat.mpr ⟨h.traffic, ?_, ?_⟩
      · intro hfirst
        obtain ⟨q, hq⟩ := h.greeted s hconn
        exact absurd hq (hfirst q)
      · intro hneeds
        obtain ⟨s', hs', hreplied⟩ := h.joined (hp hneeds)
        rw [hconn] at hs'
        rw [Option.some.inj hs']
        exact hreplied
    · intro s' hs'
      obtain ⟨q, hq⟩ := h.greeted s' hs'
      exact ⟨q, List.mem_append_left _ hq⟩
  · exact h

/-- `World.sendPacket` looks at the connection itself. -/
theorem sendPacket_eq (p : LbsPacket) (w : LbsWorld) : sendPacket p w = w.sendPacket p := by
  rw [sendPacket]
  split
  · rfl
  · next h =>
    rw [World.sendPacket]
    split
    · next hconnected _ => exact absurd hconnected h
    · rfl

/-- What is received keeps the order of the session. -/
theorem InSession.receive {w : LbsWorld} (h : InSession w) (s : Bev) (pkr : Unpacker)
    (server_type uri : UInt16) :
    InSession { w with traffic := w.traffic ++ [.received s pkr server_type uri] } := by
  refine ⟨?_, ?_, ?_⟩
  · intro hj
    obtain ⟨s', hs', hreplied⟩ := h.joined hj
    exact ⟨s', hs', hreplied.append _⟩
  · exact unfolds_concat.mpr ⟨h.traffic, trivial⟩
  · intro s' hs'
    obtain ⟨q, hq⟩ := h.greeted s' hs'
    exact ⟨q, List.mem_append_left _ hq⟩

/-! ## The callbacks -/

/-- The callbacks call nothing of the client but `SendPacket`. -/
structure OnlySends (w w' : LbsWorld) : Prop where
  client_eq : w'.client = w.client
  waiting_eq : w'.waiting = w.waiting
  failures_eq : w'.failures = w.failures

/-- Nothing was sent. -/
theorem OnlySends.refl (w : LbsWorld) : OnlySends w w := ⟨rfl, rfl, rfl⟩

/-- One packet more was sent. -/
theorem OnlySends.send {w w' : LbsWorld} (h : OnlySends w w') (p : LbsPacket) :
    OnlySends w (sendPacket p w').1 := by
  rw [sendPacket_eq, World.sendPacket]
  split
  · exact ⟨h.client_eq, h.waiting_eq, h.failures_eq⟩
  · exact h

/-- Sending leaves the client as consistent as it was. -/
theorem OnlySends.consistent {w w' : LbsWorld} (h : OnlySends w w') (hw : w.Consistent) :
    w'.Consistent := by
  obtain ⟨h₁, h₂, h₃⟩ := h
  refine ⟨?_, ?_, ?_, ?_⟩
  · rw [h₁]
    exact hw.connecting_eq
  · rw [h₁]
    exact hw.exclusive
  · rw [h₁, h₂]
    exact hw.waiting_eq
  · rw [h₃]
    exact hw.no_failures

theorem onConnect_onlySends (connected : Bool) (w : LbsWorld) : OnlySends w (onConnect connected w) := by
  cases connected with
  | true =>
    have htold : OnlySends w (tell .lbsConnected w) := ⟨rfl, rfl, rfl⟩
    show OnlySends w (World.sendPacket _ (tell .lbsConnected w)).1
    rw [← sendPacket_eq]
    exact htold.send _
  | false => exact ⟨rfl, rfl, rfl⟩

/-- A reply is only answered. -/
theorem onReply_onlySends (visitor : Visitor) (code : UInt32) (details : Lbs.DetailInfo2Map.Val)
    (w : LbsWorld) : OnlySends w (onReply visitor code details w) := by
  rw [onReply]
  split
  · have htold : OnlySends w (tell (.joinReplied details) (setJoined true w)) := ⟨rfl, rfl, rfl⟩
    exact htold.send _
  · exact OnlySends.refl w

/-- A packet is only answered. -/
theorem onPacketReceived_onlySends (visitor : Visitor) (pkr : Unpacker) (server_type uri : UInt16)
    (w : LbsWorld) : OnlySends w (onPacketReceived visitor pkr server_type uri w) := by
  rw [onPacketReceived]
  split
  · exact OnlySends.refl w
  split
  · exact onReply_onlySends ..
  split
  · exact onReply_onlySends ..
  split
  · exact ⟨rfl, rfl, rfl⟩
  · exact ⟨rfl, rfl, rfl⟩

theorem timeToPing_onlySends (visitor : Visitor) (w : LbsWorld) :
    OnlySends w (timeToPing visitor w) := by
  rw [timeToPing]
  split
  · exact OnlySends.refl w
  · exact (OnlySends.refl w).send _

theorem sendDelta_onlySends (added removed : List ChannelInfo) (w : LbsWorld) :
    OnlySends w (sendDelta added removed w) := by
  rw [sendDelta]
  split
  · exact OnlySends.refl w
  · exact (OnlySends.refl w).send _

/-- A new session begins with `LbsJoinReq2`. -/
theorem onConnect_true_inSession {w : LbsWorld} (hconnected : w.client.isConnected = true) {s : Bev}
    (hconn : w.client.conn = some s) (hjoined : w.user.joined = false)
    (htraffic : Unfolds Allowed w.traffic) : InSession (onConnect true w) := by
  show InSession (World.sendPacket _ _).1
  rw [World.sendPacket]
  split
  -- the first packet of a session is the join request, which needs no join itself
  · next s' _ hs' =>
    have hsame : s' = s := Option.some.inj (hs'.symm.trans hconn)
    subst hsame
    refine ⟨?_, ?_, ?_⟩
    · intro hj
      exact absurd (hjoined.symm.trans hj) Bool.false_ne_true
    · refine unfolds_concat.mpr ⟨htraffic, fun _ => ⟨_, rfl⟩, ?_⟩
      intro hneeds
      exact absurd hneeds Bool.false_ne_true
    · intro s'' hs''
      have hsame : s'' = s' := Option.some.inj (hs''.symm.trans hconn)
      subst hsame
      exact ⟨_, List.mem_append_right _ (List.mem_singleton.mpr rfl)⟩
  · next hnot => exact absurd hconn (hnot s hconnected)

/-- A reply on the session may set the flag. -/
theorem onReply_inSession {w : LbsWorld} (h : InSession w) {s : Bev} (hconn : w.client.conn = some s)
    (visitor : Visitor) {code : UInt32} (details : Lbs.DetailInfo2Map.Val)
    (hreplied : code = kOk → Replied s w.traffic) : InSession (onReply visitor code details w) := by
  rw [onReply]
  split
  · next hcode =>
    rw [sendFullChannelList, sendPacket_eq]
    have hjoined : InSession (tell (.joinReplied details) (setJoined true w)) :=
      ⟨fun _ => ⟨s, hconn, hreplied hcode⟩, h.traffic, h.greeted⟩
    exact hjoined.send fun hneeds => absurd hneeds Bool.false_ne_true
  · exact h

/-- A packet keeps the order of the session: the full list goes out before anything else. -/
theorem onPacketReceived_inSession {w : LbsWorld} (h : InSession w) {s : Bev}
    (hconn : w.client.conn = some s) (visitor : Visitor) {pkr : Unpacker} {server_type uri : UInt16}
    (hreplied : isJoinOk pkr server_type uri = true → Replied s w.traffic) :
    InSession (onPacketReceived visitor pkr server_type uri w) := by
  rw [onPacketReceived]
  split
  -- a packet of another server type is dropped
  · exact h
  · next hty =>
    have hty : server_type = kUniLbsType := by simpa using hty
    split
    -- the reply to the first version of the join
    · next huri =>
      apply onReply_inSession h hconn
      intro hcode
      apply hreplied
      rw [isJoinOk, hty, huri, hcode]
      rfl
    split
    -- the reply to the second version
    · next huri =>
      apply onReply_inSession h hconn
      intro hcode
      apply hreplied
      rw [isJoinOk, hty, huri, hcode]
      rfl
    -- a ping reply and any other packet change only the state of the user
    split
    · exact h.setUser id
    · exact h.setUser id

/-- A report of the load keeps the order of the session. -/
theorem timeToPing_inSession {w : LbsWorld} (h : InSession w) (visitor : Visitor) :
    InSession (timeToPing visitor w) := by
  rw [timeToPing]
  split
  · exact h
  · next hjoined =>
    rw [sendPacket_eq]
    exact h.send fun _ => by simpa using hjoined

/-- A delta keeps the order of the session. -/
theorem sendDelta_inSession {w : LbsWorld} (h : InSession w) (added removed : List ChannelInfo) :
    InSession (sendDelta added removed w) := by
  rw [sendDelta]
  split
  · exact h
  · next hjoined =>
    rw [sendPacket_eq]
    exact h.send fun _ => by simpa using hjoined

/-! ## The steps -/

/-- The invariant of the two machines together. -/
structure Invariant (w : LbsWorld) : Prop where
  consistent : w.Consistent
  inSession : InSession w

/-- A failed attempt: nobody was joined, nobody is connected. -/
theorem onConnect_false_invariant {w w' : LbsWorld} (h : InSession w) (hw : w.Untold w')
    (hconsistent : w'.Consistent) (hconn : w'.client.conn = none) :
    Invariant (onConnect false w') :=
  ⟨(onConnect_onlySends false w').consistent hconsistent,
    h.ended rfl hw.traffic_eq hconn⟩

/-- The owner's or the timer's `Connect`, when there is no session. -/
theorem connect_invariant {w : LbsWorld} (h : Invariant w) (hconn : w.client.conn = none)
    (visitor : Visitor) (now : Int) (sys : Syscalls) :
    Invariant (w.connect (callback visitor) now sys).1 := by
  cases hpending : w.client.pending.isSome with
  | true =>
    rw [World.connect, if_pos (h.consistent.connecting_eq.trans hpending)]
    exact h
  | false =>
    have hsettled : w.Settled w.client.local_port false := ⟨h.consistent, hpending, rfl⟩
    rcases hsettled.connect_cases (callback visitor) now sys with
      ⟨-, hafter, hnone, huntold⟩ | ⟨-, w', hw', hnone, huntold, heq⟩
    · exact ⟨hafter.consistent, h.inSession.untold huntold (hnone.trans hconn.symm)⟩
    · rw [heq]
      have hfailed := onConnect_false_invariant h.inSession huntold hw'.consistent hnone
      have hsame : (onConnect false w').Settled w.client.local_port false :=
        ⟨hfailed.consistent, hw'.pending_isSome, hw'.local_port_eq⟩
      exact ⟨hsame.clear.consistent, hfailed.inSession.untold ⟨rfl, rfl⟩ rfl⟩

/-- The condition on a step: no tick finds a joined connection silent. -/
def KeepsAlive (w : LbsWorld) : Input → Prop
  | .timer now _ _ => ¬(w.user.joined = true ∧ w.silent now = true)
  | _ => True

instance (w : LbsWorld) : (i : Input) → Decidable (KeepsAlive w i)
  | .timer now _ _ =>
    inferInstanceAs (Decidable ¬(w.user.joined = true ∧ w.silent now = true))
  | .connectCompleted _ _ _ => inferInstanceAs (Decidable True)
  | .packetReceived _ _ _ _ _ _ => inferInstanceAs (Decidable True)
  | .socketError _ _ => inferInstanceAs (Decidable True)
  | .doChannelCreate _ => inferInstanceAs (Decidable True)
  | .doChannelDestroy _ => inferInstanceAs (Decidable True)

/-- An attempt completes: what was there before is over. -/
theorem connectCompleted_invariant {w : LbsWorld} (h : Invariant w) {bev : Bev}
    (hbev : bev ∈ w.waiting) (now : Int) (success : Bool) :
    Invariant (next w (.connectCompleted now bev success)) := by
  have hpending := h.consistent.pending_of_waiting hbev
  have hsome : w.client.pending.isSome = true := by
    rw [hpending]
    rfl
  have hsettled : w.Settled w.client.local_port true := ⟨h.consistent, hsome, rfl⟩
  obtain ⟨w', hw', huntold, hconn, heq⟩ :=
    hsettled.connectCallback hpending (callback noVisitor) now success
  rw [next, heq]
  cases success with
  | false => exact onConnect_false_invariant h.inSession huntold hw'.consistent hconn
  | true =>
    -- no connection was there while the attempt was pending, so the flag is not set
    have hjoined : w'.user.joined = false := by
      rw [huntold.user_eq]
      exact h.inSession.joined.not_joined (h.consistent.exclusive hsome)
    have hconnected : w'.client.isConnected = true := by
      rw [TcpClient.isConnected, hw'.connecting, hconn]
      rfl
    have htraffic : Unfolds Allowed w'.traffic := by
      rw [huntold.traffic_eq]
      exact h.inSession.traffic
    exact ⟨(onConnect_onlySends true w').consistent hw'.consistent,
      onConnect_true_inSession hconnected hconn hjoined htraffic⟩

/-- A packet keeps the invariant. -/
theorem packetReceived_invariant {w : LbsWorld} (h : Invariant w) {conn : Bev}
    (hconn : w.client.conn = some conn) (now : Int) (pkr : Unpacker) (server_type uri : UInt16)
    (visitor : Visitor) :
    Invariant (next w (.packetReceived now conn pkr server_type uri visitor)) := by
  have hactive : InSession (w.update fun c => { c with last_active_ts := now }) :=
    h.inSession.untold ⟨rfl, rfl⟩ rfl
  have hconsistent : (w.update fun c => { c with last_active_ts := now }).Consistent :=
    (h.consistent.settled.update rfl rfl rfl (Or.inl rfl)).consistent
  refine ⟨(onPacketReceived_onlySends ..).consistent (hconsistent.settled.traffic _).consistent,
    onPacketReceived_inSession (hactive.receive conn pkr server_type uri) hconn visitor ?_⟩
  intro hok
  exact ⟨pkr, server_type, uri, List.mem_append_right _ (List.mem_singleton.mpr rfl), hok⟩

/-- An error keeps the invariant: the session is over. -/
theorem socketError_invariant {w : LbsWorld} (h : Invariant w) (now : Int) (conn : Bev) :
    Invariant (next w (.socketError now conn)) := by
  obtain ⟨hsettled, hconn, huntold⟩ := (h.consistent.settled.scheduleNextTry now).close
  have hsends : OnlySends (w.update (TcpClient.scheduleNextTry now)).close
      (onSocketError (w.update (TcpClient.scheduleNextTry now)).close) := ⟨rfl, rfl, rfl⟩
  exact ⟨hsends.consistent hsettled.consistent, h.inSession.ended rfl huntold.traffic_eq hconn⟩

/-- A tick that finds a silent connection closes it, and nobody is told. -/
theorem next_timer_silent {w : LbsWorld} (h : w.Consistent) {now : Int} (hsilent : w.silent now = true)
    (sys : Syscalls) (visitor : Visitor) :
    (next w (.timer now sys visitor)).Consistent ∧
      (next w (.timer now sys visitor)).client.conn = none ∧
      w.Untold (next w (.timer now sys visitor)) := by
  obtain ⟨hsettled, hconn, huntold⟩ := (h.settled.scheduleNextTry now).close
  rw [next, World.onTimer, if_pos hsilent]
  exact ⟨hsettled.consistent, hconn, ⟨huntold.user_eq, huntold.traffic_eq⟩⟩

/-- The timer keeps the invariant, unless it closes a silent session that was joined. -/
theorem timer_invariant {w : LbsWorld} (h : Invariant w) {now : Int}
    (halive : ¬(w.user.joined = true ∧ w.silent now = true)) (sys : Syscalls) (visitor : Visitor) :
    Invariant (next w (.timer now sys visitor)) := by
  -- a silent client is closed, which ends the session
  cases hsilent : w.silent now with
  | true =>
    obtain ⟨hconsistent, hconn, huntold⟩ := next_timer_silent h.consistent hsilent sys visitor
    have hjoined : w.user.joined = false := by
      cases hjoined : w.user.joined with
      | false => rfl
      | true => exact absurd ⟨hjoined, hsilent⟩ halive
    rw [← huntold.user_eq] at hjoined
    exact ⟨hconsistent, h.inSession.ended hjoined huntold.traffic_eq hconn⟩
  | false =>
    rw [next, World.onTimer, if_neg (by rw [hsilent]; exact Bool.false_ne_true)]
    by_cases hconnected : w.client.isConnected = true
    · rw [if_pos hconnected]
      exact ⟨(timeToPing_onlySends visitor w).consistent h.consistent,
        timeToPing_inSession h.inSession visitor⟩
    · rw [if_neg hconnected]
      split
      -- the retry is due, and no connection is left to be confused with the new one
      · next hdue =>
        have hconnecting : w.client.connecting = false := by simpa using hdue.1
        have hconn : w.client.conn = none := by
          rw [TcpClient.isConnected, hconnecting, Bool.not_false, Bool.true_and] at hconnected
          simpa using hconnected
        exact connect_invariant h hconn visitor now sys
      · exact h

/-- One step in which no joined connection is dropped silently. -/
theorem next_invariant {w : LbsWorld} (h : Invariant w) {i : Input} (henabled : Enabled w i)
    (halive : KeepsAlive w i) : Invariant (next w i) := by
  cases i with
  | connectCompleted now bev success => exact connectCompleted_invariant h henabled now success
  | packetReceived now conn pkr server_type uri visitor =>
    exact packetReceived_invariant h henabled now pkr server_type uri visitor
  | socketError now conn => exact socketError_invariant h now conn
  | timer now sys visitor => exact timer_invariant h halive sys visitor
  | doChannelCreate c =>
    exact ⟨(sendDelta_onlySends [c] [] w).consistent h.consistent,
      sendDelta_inSession h.inSession [c] []⟩
  | doChannelDestroy c =>
    exact ⟨(sendDelta_onlySends [] [c] w).consistent h.consistent,
      sendDelta_inSession h.inSession [] [c]⟩

/-- A joined connection that is dropped silently stays joined, without a session. -/
theorem next_not_joinedInSession {w : LbsWorld} (h : Invariant w) {i : Input}
    (hdropped : ¬KeepsAlive w i) : ¬JoinedInSession (next w i) := by
  cases i with
  | timer now sys visitor =>
    obtain ⟨hjoined, hsilent⟩ := not_not.mp hdropped
    obtain ⟨-, hconn, huntold⟩ := next_timer_silent h.consistent hsilent sys visitor
    intro hcontra
    have hfalse := hcontra.not_joined hconn
    rw [huntold.user_eq, hjoined] at hfalse
    cases hfalse
  | _ => exact absurd trivial hdropped

/-- A new connection meets the invariant. -/
theorem connected_invariant (now : Int) (sys : Syscalls) (service_name : List UInt8)
    (service_id : UInt32) (service_port : UInt16) (release_version : List UInt8) :
    Invariant (connected now sys service_name service_id service_port release_version) := by
  refine connect_invariant ⟨(World.fresh_settled ..).consistent, ?_, unfolds_nil _, ?_⟩ rfl _ now sys
  · intro hj
    exact absurd hj Bool.false_ne_true
  · intro s hs
    exact absurd hs (by simp [World.fresh, TcpClient.init])

/-- **The order of LBS sessions, exactly.**  For every run of a connection that was told to connect:
    in every state of it the flag is set only if the current session got a successful join reply, and
    on every session the first packet is `LbsJoinReq2` and no ping or channel list was sent before
    such a reply, if and only if no tick found a joined connection silent. -/
theorem session_order_iff {now : Int} {sys : Syscalls} {service_name : List UInt8}
    {service_id : UInt32} {service_port : UInt16} {release_version : List UInt8} {w : LbsWorld}
    {ts : List (LbsWorld × Input × LbsWorld)}
    (hrun : Run Step (connected now sys service_name service_id service_port release_version) ts w) :
    (∀ x ∈ ts, SessionOrder x.2.2) ↔ ∀ x ∈ ts, KeepsAlive x.1 x.2.1 := by
  have hstep : ∀ s i t, Invariant s → KeepsAlive s i → Step s i t → Invariant t := by
    rintro s i t hs halive ⟨henabled, rfl⟩
    exact next_invariant hs henabled halive
  refine Run.property_iff ?_ hstep hrun (connected_invariant ..)
  intro s i t hs hst
  constructor
  · intro horder
    by_contra hdropped
    rw [hst.2] at horder
    exact next_not_joinedInSession hs hdropped horder.1
  · intro halive
    have := hstep s i t hs halive hst
    exact ⟨this.inSession.joined, this.inSession.traffic⟩

/-- A join reply with code `kOk`, as it arrives. -/
def sampleReply : Unpacker :=
  Unpacker.new (blockOf [14, 0, 17, 0, 0xea, 3, 1, 0, 0, 0, 0, 0, 0, 0] fun _ => 0) 14 none

/-- A service that was told to connect. -/
def sampleConnected : LbsWorld := connected 0 World.routed [0x74] 1 443 [0x31]

/-- The service joins, and pings. -/
def sampleJoin : List Input :=
  [.connectCompleted 1 0 true,
    .packetReceived 2 0 sampleReply kUniLbsType Lbs.kLbsJoinResUri noVisitor,
    .timer 5 World.routed noVisitor]

/-- A tick finds the joined connection silent, the next one reconnects, and the one after pings. -/
def sampleTimeout : List Input :=
  [.connectCompleted 1 0 true,
    .packetReceived 2 0 sampleReply kUniLbsType Lbs.kLbsJoinResUri noVisitor,
    .timer 20 World.routed noVisitor,
    .timer 30 World.routed noVisitor,
    .connectCompleted 31 1 true,
    .timer 33 World.routed noVisitor]

theorem session_order_iff_join : SessionOrder (sampleJoin.foldl next sampleConnected) := by
  have hrun : Run Step sampleConnected (trace next sampleConnected sampleJoin) _ :=
    Run.of_inputs Enabled next (by decide)
  have horder := (session_order_iff hrun).mpr (by decide)
  have hlast : (_, _, sampleJoin.foldl next sampleConnected) ∈ trace next sampleConnected sampleJoin :=
    List.mem_cons_of_mem _ (List.mem_cons_of_mem _ List.mem_cons_self)
  exact horder _ hlast

/-- The service was joined on session 0 and pings on session 1, where no reply was received. -/
theorem silent_timeout_breaks_order :
    let w := sampleTimeout.foldl next sampleConnected
    (∃ ts, Run Step sampleConnected ts w) ∧
      ∃ before ping, w.traffic = before ++ [.sent 1 (.ping ping)] ∧ ¬Replied 1 before := by
  intro w
  refine ⟨⟨_, Run.of_inputs Enabled next (by decide)⟩, w.traffic.take 4, _, rfl, ?_⟩
  decide

end UniLbsConnection

end Turnserver
