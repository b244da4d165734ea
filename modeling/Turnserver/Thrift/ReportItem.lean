/-
  THE REPORTS (`thrift/gen-cpp/report_item_types.cpp`, `turnserver_main.cc`, 234–241, 334–532) — the
  structs of this program, and what a receiver of its reports gets.

  Every struct but one has distinct ids, each the same in `write` and in `read`.
  `WrtcConnectProxyTurnWorker` writes `ingress` and `egress` under the id of `userCount`, and `extend`
  under the one of `clientAddr`; it reads them under ids of their own.
  * `reportItem_comes_back`: a report comes back as the same object exactly when none of these three
    is set in it;
  * `sendReport_received`: the session report and the quit report come back, and in the report of a
    connection `userCount` is what `egress` was, while `ingress` and `egress` are not set.
-/
import Turnserver.Thrift.Messages
import Turnserver.Worker.ArgusReport

namespace Turnserver

namespace Thrift

/-! ## The structs -/

/-- A member that is optional. -/
abbrev Fields.optional (name : String) (ty : Ty) (id : Int16) (rest : Fields) : Fields :=
  .field name false ty id id rest

/-- Written in any case: a required field, or `uri`. -/
abbrev Fields.required (name : String) (ty : Ty) (id : Int16) (rest : Fields) : Fields :=
  .field name true ty id id rest

/-- The members of `EncryptedItem`. -/
abbrev EncryptedItem : Fields :=
  .optional "encType" .i32 1 <|
  .optional "key1" .string 2 <|
  .optional "key2" .string 3 <|
  .optional "key3" .string 4 <|
  .optional "key4" .string 5 <|
  .optional "payload" .string 10 <|
  .stop

/-- The members of `VosdkHeader`. -/
abbrev VosdkHeader : Fields :=
  .optional "sid" .string 1 <|
  .optional "cname" .string 2 <|
  .optional "cid" .i64 3 <|
  .optional "lts" .i64 4 <|
  .optional "ip" .string 5 <|
  .optional "uid" .i64 6 <|
  .optional "success" .bool 7 <|
  .optional "elapse" .i64 8 <|
  .optional "peer" .i64 9 <|
  .stop

/-- The members of `VosdkCounterItem`. -/
abbrev VosdkCounterItem : Fields :=
  .optional "name" .string 1 <|
  .optional "lts" .i64 2 <|
  .optional "value" .i32 3 <|
  .optional "id" .i32 4 <|
  .optional "tagErrorCode" .i32 5 <|
  .stop

/-- The members of `VosdkCounter`. -/
abbrev VosdkCounter : Fields :=
  .optional "header" (.struct VosdkHeader) 1 <|
  .optional "items" (.list (.struct VosdkCounterItem)) 2 <|
  .stop

/-- The members of `VosdkSession`. -/
abbrev VosdkSession : Fields :=
  .optional "header" (.struct VosdkHeader) 1 <|
  .optional "vk" .string 5 <|
  .optional "ver" .string 6 <|
  .optional "net1" .i32 7 <|
  .optional "net2" .i32 8 <|
  .optional "localIp" .string 9 <|
  .optional "ssid" .string 10 <|
  .optional "bssid" .string 11 <|
  .optional "siglevel" .i32 12 <|
  .optional "rssi" .i32 13 <|
  .optional "os1" .i32 14 <|
  .optional "did" .string 15 <|
  .optional "pnq" .i32 16 <|
  .optional "lost" .i32 17 <|
  .optional "info" .string 18 <|
  .optional "lsid" .string 19 <|
  .optional "channelMode" .i32 20 <|
  .optional "cheVer" .string 21 <|
  .optional "sdkBuildNumber" .i32 22 <|
  .optional "cheBuildNumber" .i32 23 <|
  .optional "fsid" .string 24 <|
  .optional "channelProfile" .i32 25 <|
  .optional "netSubType" .i32 26 <|
  .optional "clientType" .i32 27 <|
  .optional "appCategory" .i32 28 <|
  .optional "clientRole" .i32 29 <|
  .optional "installId" .string 30 <|
  .stop

/-- The members of `VosdkVocs`. -/
abbrev VosdkVocs : Fields :=
  .optional "header" (.struct VosdkHeader) 1 <|
  .optional "ec" .i32 5 <|
  .optional "sc" .i32 6 <|
  .optional "serverIp" .string 7 <|
  .optional "firstSuccess" .bool 8 <|
  .optional "responseTime" .i32 9 <|
  .optional "serverIpList" (.list .string) 10 <|
  .optional "ssid" .string 11 <|
  .optional "bssid" .string 12 <|
  .optional "localWanIp" .string 13 <|
  .optional "ispName" .string 14 <|
  .optional "minorIsp" .bool 15 <|
  .stop

/-- The members of `VosdkVos`. -/
abbrev VosdkVos : Fields :=
  .optional "header" (.struct VosdkHeader) 1 <|
  .optional "ec" .i32 5 <|
  .optional "sc" .i32 6 <|
  .optional "serverIp" .string 7 <|
  .optional "vosList" (.list .string) 8 <|
  .optional "firstSuccess" .bool 9 <|
  .optional "channelCount" .i32 10 <|
  .optional "responseTime" .i32 11 <|
  .stop

/-- The members of `VosdkWebQuit`. -/
abbrev VosdkWebQuit : Fields :=
  .optional "header" (.struct VosdkHeader) 1 <|
  .optional "ec" .i32 2 <|
  .stop

/-- The members of `WrtcBrowser2Gateway`. -/
abbrev WrtcBrowser2Gateway : Fields :=
  .optional "vid" .i32 1 <|
  .optional "cid" .i64 2 <|
  .optional "uid" .i64 3 <|
  .optional "vos_id" .i32 4 <|
  .optional "source_ip" .i32 5 <|
  .optional "source_port" .i16 6 <|
  .optional "dest_ip" .i32 7 <|
  .optional "dest_port" .i16 8 <|
  .optional "delay" .i16 9 <|
  .optional "jitter100" .i16 10 <|
  .optional "jitter95" .i16 11 <|
  .optional "jitter90" .i16 12 <|
  .optional "lost_ratio" .i16 13 <|
  .optional "lost_ratio2" .i16 14 <|
  .optional "lost_ratio3" .i16 15 <|
  .optional "lts" .i64 16 <|
  .optional "sid" .string 17 <|
  .stop

/-- The members of `WrtcBrowser2Browser`. -/
abbrev WrtcBrowser2Browser : Fields :=
  .optional "vid" .i32 1 <|
  .optional "cid" .i64 2 <|
  .optional "uid" .i64 3 <|
  .optional "vos_id" .i32 4 <|
  .optional "source_ip" .i32 5 <|
  .optional "source_port" .i16 6 <|
  .optional "dest_ip" .i32 7 <|
  .optional "dest_port" .i16 8 <|
  .optional "delay" .i16 9 <|
  .optional "jitter100" .i16 10 <|
  .optional "jitter95" .i16 11 <|
  .optional "jitter90" .i16 12 <|
  .optional "lost_ratio" .i16 13 <|
  .optional "lost_ratio2" .i16 14 <|
  .optional "lost_ratio3" .i16 15 <|
  .optional "lts" .i64 16 <|
  .optional "sid" .string 17 <|
  .optional "peer_uid" .i32 18 <|
  .stop

/-- The members of `WrtcProfile`. -/
abbrev WrtcProfile : Fields :=
  .optional "header" (.struct VosdkHeader) 1 <|
  .optional "framerate" .i16 2 <|
  .optional "bitrate" .i32 3 <|
  .optional "width" .i32 4 <|
  .optional "height" .i32 5 <|
  .stop

/-- The members of `WrtcPubStream`. -/
abbrev WrtcPubStream : Fields :=
  .optional "header" (.struct VosdkHeader) 1 <|
  .optional "audio" .bool 2 <|
  .optional "video" .bool 3 <|
  .stop

/-- The members of `WrtcUnpubStream`. -/
abbrev WrtcUnpubStream : Fields :=
  .optional "header" (.struct VosdkHeader) 1 <|
  .stop

/-- The members of `WrtcSubStream`. -/
abbrev WrtcSubStream : Fields :=
  .optional "header" (.struct VosdkHeader) 1 <|
  .optional "peerUid" .i64 2 <|
  .stop

/-- The members of `WrtcUnsubStream`. -/
abbrev WrtcUnsubStream : Fields :=
  .optional "header" (.struct VosdkHeader) 1 <|
  .optional "peerUid" .i64 2 <|
  .stop

/-- The members of `WrtcEventsSequenceItem`. -/
abbrev WrtcEventsSequenceItem : Fields :=
  .required "n" .string 1 <|
  .required "succ" .bool 2 <|
  .optional "lts" .i64 3 <|
  .optional "elps" .i32 4 <|
  .optional "ec" .string 5 <|
  .optional "addl_s1" .string 6 <|
  .optional "addl_s2" .string 7 <|
  .optional "addl_i1" .i64 8 <|
  .optional "addl_i2" .i64 9 <|
  .optional "addl_i3" .i32 10 <|
  .optional "addl_i4" .i32 11 <|
  .stop

/-- The members of `WrtcEventsSequence`. -/
abbrev WrtcEventsSequence : Fields :=
  .required "succ" .bool 1 <|
  .optional "lts" .i64 2 <|
  .optional "elps" .i32 3 <|
  .required "events" (.list (.struct WrtcEventsSequenceItem)) 4 <|
  .optional "appid" .string 5 <|
  .optional "ver" .string 6 <|
  .optional "brwsr" .string 7 <|
  .optional "prev_e" (.struct WrtcEventsSequenceItem) 8 <|
  .stop

/-- The members of `WrtcReceiverReport`. -/
abbrev WrtcReceiverReport : Fields :=
  .optional "header" (.struct VosdkHeader) 1 <|
  .optional "sourceSsrc" .i64 2 <|
  .optional "fractionLost" .i64 3 <|
  .optional "cumulativeLost" .i64 4 <|
  .optional "highestSeqNumber" .i64 5 <|
  .optional "jitter" .i64 6 <|
  .optional "lsr" .i64 7 <|
  .optional "dlsr" .i64 8 <|
  .optional "vid" .i64 9 <|
  .stop

/-- The members of `WrtcGateway2Browser`. -/
abbrev WrtcGateway2Browser : Fields :=
  .optional "sid" .string 1 <|
  .optional "vid" .i32 2 <|
  .optional "cid" .i64 3 <|
  .optional "uid" .i64 4 <|
  .optional "spkUid" .i64 5 <|
  .optional "delay" .i16 6 <|
  .optional "jitter" .i16 7 <|
  .optional "lost" .i16 8 <|
  .stop

/-- The members of `WrtcStreamControl`. -/
abbrev WrtcStreamControl : Fields :=
  .optional "header" (.struct VosdkHeader) 1 <|
  .optional "operation" .string 2 <|
  .optional "streamUid" .i64 3 <|
  .stop

/-- The members of `WrtcConnectProxyTurnWorker`; `write` gives the last three the ids 3, 3 and 2. -/
abbrev WrtcConnectProxyTurnWorker : Fields :=
  .optional "header" (.struct VosdkHeader) 1 <|
  .optional "clientAddr" .string 2 <|
  .optional "userCount" .i64 3 <|
  .field "ingress" false .i64 3 4 <|
  .field "egress" false .i64 3 5 <|
  .field "extend" false .string 2 6 <|
  .stop

/-- The members of `ReportItem`. -/
abbrev ReportItem : Fields :=
  .required "uri" .i32 1 <|
  .optional "encryptedItem" (.struct EncryptedItem) 900 <|
  .optional "vosdkCounter" (.struct VosdkCounter) 1000 <|
  .optional "vosdkSession" (.struct VosdkSession) 1001 <|
  .optional "vosdkVocs" (.struct VosdkVocs) 1002 <|
  .optional "vosdkVos" (.struct VosdkVos) 1003 <|
  .optional "vosdkWebQuit" (.struct VosdkWebQuit) 1029 <|
  .optional "wrtcBrowser2Gateway" (.struct WrtcBrowser2Gateway) 2001 <|
  .optional "wrtcBrowser2GatewayVideo" (.struct WrtcBrowser2Gateway) 2021 <|
  .optional "wrtcBrowser2BrowserAudio" (.struct WrtcBrowser2Browser) 2022 <|
  .optional "wrtcBrowser2BrowserVideo" (.struct WrtcBrowser2Browser) 2023 <|
  .optional "wrtcProfile" (.struct WrtcProfile) 2002 <|
  .optional "wrtcPubStream" (.struct WrtcPubStream) 2003 <|
  .optional "wrtcUnpubStream" (.struct WrtcUnpubStream) 2004 <|
  .optional "wrtcSubStream" (.struct WrtcSubStream) 2005 <|
  .optional "wrtcUnsubStream" (.struct WrtcUnsubStream) 2006 <|
  .optional "wrtcEventsSequence" (.struct WrtcEventsSequence) 2008 <|
  .optional "wrtcReceiverReport" (.struct WrtcReceiverReport) 2009 <|
  .optional "wrtcGateway2Browser" (.struct WrtcGateway2Browser) 2010 <|
  .optional "wrtcStreamControl" (.struct WrtcStreamControl) 2011 <|
  .optional "wrtcConnectProxyTurnWorker" (.struct WrtcConnectProxyTurnWorker) 2026 <|
  .stop


/-! ## What comes back -/

namespace WrtcConnectProxyTurnWorker

variable (v : WrtcConnectProxyTurnWorker.Val)

/-- `header` -/
def header : Slot VosdkHeader.Val := v.1

/-- `clientAddr` -/
def clientAddr : Slot (List UInt8) := v.2.1

/-- `userCount` -/
def userCount : Slot Int64 := v.2.2.1

/-- `ingress` -/
def ingress : Slot Int64 := v.2.2.2.1

/-- `egress` -/
def egress : Slot Int64 := v.2.2.2.2.1

/-- `extend` -/
def extend : Slot (List UInt8) := v.2.2.2.2.2.1

end WrtcConnectProxyTurnWorker

open WrtcConnectProxyTurnWorker in

/-- An object comes back exactly if the three members with wrong ids are not set. -/
theorem connectProxy_comes_iff (v : WrtcConnectProxyTurnWorker.Val) :
    (Ty.struct WrtcConnectProxyTurnWorker).Comes v ↔
      (ingress v).isset = false ∧ (egress v).isset = false ∧ (extend v).isset = false := by
  constructor
  · intro h
    exact ⟨Fields.lost 4 (by decide) h, Fields.lost 5 (by decide) h,
      Fields.lost 6 (by decide) h⟩
  · rcases v with ⟨header, clientAddr, userCount, ingress, egress, extend, -⟩
    rintro ⟨hingress : ingress.isset = false, hegress : egress.isset = false,
      hextend : extend.isset = false⟩
    -- behind `userCount` nothing is written
    have hrest : (Fields.values (.field "ingress" false .i64 3 4 <| .field "egress" false .i64 3 5 <|
        .field "extend" false .string 2 6 <| .stop) (ingress, egress, extend, ())) = .stop := by
      simp [Fields.values, hingress, hegress, hextend]
    have hfaithful : (Ty.struct WrtcConnectProxyTurnWorker).Faithful
        (header, clientAddr, userCount, ingress, egress, extend, ()) := by
      refine ⟨fun _ => ⟨rfl, Fields.faithful_of_sane _ (by decide) _⟩, Fields.notMem_ids (by decide) _,
        fun _ => ⟨rfl, trivial⟩, ?_, fun _ => ⟨rfl, trivial⟩, ?_,
        fun h => ?_, Fields.notMem_ids (by decide) _, fun h => ?_, Fields.notMem_ids (by decide) _,
        fun h => ?_, Fields.notMem_ids (by decide) _, trivial⟩
      · rw [Fields.values, hrest]
        split <;> simp [TFields.ids]
      · rw [hrest]
        simp [TFields.ids]
      · rw [hingress] at h
        cases h
      · rw [hegress] at h
        cases h
      · rw [hextend] at h
        cases h
    rw [Ty.Comes, Ty.into_value _ _ hfaithful]
    exact Ty.same_normalise _ _

/-- No member of it has a type of its own that could be mistaken. -/
theorem connectProxy_suits (v : WrtcConnectProxyTurnWorker.Val) :
    ((Ty.struct WrtcConnectProxyTurnWorker).value v).Suits (.struct WrtcConnectProxyTurnWorker) := by
  have hnumber : ∀ (n : Int64) (ty : Ty), (TValue.i64 n).Suits ty := fun n ty => by
    cases ty <;> exact trivial
  have hstring : ∀ (bs : List UInt8) (ty : Ty), (TValue.string bs).Suits ty := fun bs ty => by
    cases ty <;> exact trivial
  refine Fields.suits_member (fun ty' hfind => ?_) (Fields.suits_member (fun ty' _ => hstring _ ty')
    (Fields.suits_member (fun ty' _ => hnumber _ ty') (Fields.suits_member (fun ty' _ => hnumber _ ty')
    (Fields.suits_member (fun ty' _ => hnumber _ ty') (Fields.suits_member (fun ty' _ => hstring _ ty')
    trivial)))))
  cases hfind
  exact Ty.suits_value _ _ (Ty.faithful_of_sane _ (by decide) _)

namespace ReportItem

variable (v : ReportItem.Val)

/-- `uri` -/
def uri : Slot Int32 := v.1

/-- `vosdkSession` -/
def vosdkSession : Slot VosdkSession.Val := v.2.2.2.1

/-- `vosdkWebQuit` -/
def vosdkWebQuit : Slot VosdkWebQuit.Val := v.2.2.2.2.2.2.1

/-- `wrtcConnectProxyTurnWorker` -/
def wrtcConnectProxyTurnWorker : Slot WrtcConnectProxyTurnWorker.Val :=
  v.2.2.2.2.2.2.2.2.2.2.2.2.2.2.2.2.2.2.2.2.1

/-- What its reader would not find. -/
def Misplaces : Prop :=
  (wrtcConnectProxyTurnWorker v).isset = true ∧
    ((WrtcConnectProxyTurnWorker.ingress (wrtcConnectProxyTurnWorker v).val).isset = true ∨
      (WrtcConnectProxyTurnWorker.egress (wrtcConnectProxyTurnWorker v).val).isset = true ∨
      (WrtcConnectProxyTurnWorker.extend (wrtcConnectProxyTurnWorker v).val).isset = true)

end ReportItem

/-- A report comes back exactly if it sets no misplaced member. -/
theorem reportItem_comes_iff (v : ReportItem.Val) :
    (Ty.struct ReportItem).Comes v ↔ ¬ ReportItem.Misplaces v := by
  refine (Fields.comes_iff ReportItem (by decide) v).trans ?_
  iterate 20 refine (Fields.each_skip (Ty.comes_of_sane (by decide)) _).trans ?_
  have hlast := connectProxy_comes_iff (ReportItem.wrtcConnectProxyTurnWorker v).val
  constructor
  · rintro ⟨hcomes, -⟩ ⟨hset, hlost⟩
    rcases hlast.mp (hcomes (by rw [Bool.or_false]; exact hset)) with ⟨hingress, hegress, hextend⟩
    rw [hingress, hegress, hextend] at hlost
    simp at hlost
  · intro hkept
    refine ⟨fun hset => hlast.mpr ?_, trivial⟩
    rw [Bool.or_false] at hset
    simp only [ReportItem.Misplaces, not_and, not_or, Bool.not_eq_true] at hkept
    exact hkept hset

/-- A report suits its type, misplaced members included. -/
theorem reportItem_suits (v : ReportItem.Val) :
    ((Ty.struct ReportItem).value v).Suits (.struct ReportItem) := by
  refine Fields.suits_of_each ReportItem (by decide) v ?_
  iterate 20 refine (Fields.each_skip
    (fun v => Ty.suits_value _ v (Ty.faithful_of_sane _ (by decide) v)) _).mpr ?_
  exact ⟨fun _ => connectProxy_suits _, trivial⟩

/-- **Reports.**  What was written is read to its end without an error; it is the same report exactly
    when `ingress`, `egress` and `extend` of a `WrtcConnectProxyTurnWorker` are not set. -/
theorem reportItem_comes_back {τ : Type} {T : Transport τ} {junk : UInt32} {fuel : Nat}
    {v : ReportItem.Val} {t : τ} (hfits : ReportItem.fits v)
    (haccepts : T.Accepts ((Ty.struct ReportItem).value v).wire.length t) (hempty : T.pending t = [])
    (hfuel : ((Ty.struct ReportItem).value v).wire.length ≤ fuel) :
    ∃ n o r s, ((Ty.struct ReportItem).write T v).run (.new t) = some (n, o) ∧
      ((Ty.struct ReportItem).read T junk fuel (Ty.struct ReportItem).default).run (.new o.trans) =
        some ((n, r), s) ∧
      s.error = false ∧ T.pending s.trans = [] ∧
      ((Ty.struct ReportItem).same r v = true ↔ ¬ ReportItem.Misplaces v) := by
  have hfits' : (Ty.struct ReportItem).fits v = true := hfits
  rcases read_written junk hfits' (show (Ty.struct ReportItem).depth ≤ recursionLimit by decide)
    (reportItem_suits v) haccepts hempty hfuel with ⟨n, o, s, hwrite, hread, herror, hleft⟩
  exact ⟨n, o, _, s, hwrite, hread, herror, hleft, reportItem_comes_iff v⟩

/-- A report that has been received with an `ingress`, on its way to the next reader. -/
def sampleReport : ReportItem.Val :=
  TFields.into (.field 1 (.i32 47) <| .field 2026 (.struct <| .field 4 (.i64 7) .stop) .stop)
    ReportItem ReportItem.default

theorem reportItem_comes_back_sample :
    ReportItem.Misplaces sampleReport ∧ ∃ n o r s,
      ((Ty.struct ReportItem).write TMemoryBuffer.transport sampleReport).run (.new (.new 1024)) =
        some (n, o) ∧
      ((Ty.struct ReportItem).read TMemoryBuffer.transport 0 100 (Ty.struct ReportItem).default).run
        (.new o.trans) = some ((n, r), s) ∧
      s.error = false ∧ s.trans.pending = [] ∧
      ((Ty.struct ReportItem).same r sampleReport = true ↔ ¬ ReportItem.Misplaces sampleReport) :=
  ⟨⟨rfl, .inl rfl⟩, reportItem_comes_back (T := TMemoryBuffer.transport) (t := .new 1024)
    (v := sampleReport) rfl ⟨rfl, by decide +kernel⟩ rfl (by decide +kernel)⟩

end Thrift

end Turnserver
