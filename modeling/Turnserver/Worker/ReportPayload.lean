/-
  WHAT IS IN A REPORT (`turnserver_main.cc`, 234–241, 334–532) — from the values of the program to the
  values that the receiver reads.

  Each builder fills in a `ReportItem`, has it written to a new memory buffer, and puts the bytes into a
  frame behind an `ArgusReportHead`.  Nothing in it fails.
  * `length_wire_le`: a bound for the bytes of any generated struct;
  * `sendReport_received`: whoever reads the payload finds what the session report and the quit report
    say.  Of a connection it finds `egress` as the number of users, and neither `ingress` nor
    `egress`.
-/
import Turnserver.Thrift.ReportItem
import Turnserver.Json.JsonValue

namespace Turnserver

namespace Thrift

open Varint

/-! ## The size of a message -/

mutual

/-- So many bytes are enough. -/
def Ty.room : (ty : Ty) → ty.Val → Nat
  | .bool, _ => 1
  | .i16, _ => 5
  | .i32, _ => 5
  | .i64, _ => 10
  | .string, v => 5 + List.length v
  | .struct fields, v => fields.room v
  | .list elem, vs => 6 + (List.map (fun v => elem.room v) vs).sum

/-- Bytes that are enough for the members of an object. -/
def Fields.room : (fields : Fields) → fields.Val → Nat
  | .stop, _ => 1
  | .field _ required ty _ _ rest, v =>
    (if v.1.isset || required then 6 + ty.room v.1.val else 0) + rest.room v.2

end

/-- A short varint takes at most five bytes. -/
theorem length_varintWire_le (n : UInt32) : (varintWire n).length ≤ 5 :=
  encode_length_le (by decide) (Nat.lt_trans n.toNat_lt (by decide))

/-- The header of a field takes at most six bytes. -/
theorem length_headerWire_le (last id : Int16) (type : UInt8) :
    (headerWire last id type).length ≤ 6 := by
  rw [headerWire]
  split
  · simp
  · rw [List.length_cons]
    exact Nat.succ_le_succ (length_varintWire_le _)

mutual

/-- A bound for the bytes of any object. -/
theorem Ty.length_wire_le : (ty : Ty) → (v : ty.Val) → ty.fits v →
    (ty.value v).wire.length ≤ ty.room v
  -- a number takes at most ten bytes, a string its bytes and five more
  | .bool, _, _ => Nat.le_refl 1
  | .i16, v, _ => length_varintWire_le _
  | .i32, v, _ => length_varintWire_le _
  | .i64, v, _ => by
    have hlt := (i64ToZigzag v).toNat_lt
    exact encode_length_le (k := 10) (by decide) (by omega)
  | .string, v, h => by
    have hlen : List.length v < 2 ^ 31 := of_decide_eq_true h
    rw [Ty.value, TValue.wire, List.length_append, Ty.room]
    exact Nat.add_le_add_right (encode_length_le (by decide) (by omega)) _
  | .struct fields, v, h => fields.length_wire_le v h 0
  | .list elem, vs, h => by
    rw [Ty.fits, Bool.and_eq_true] at h
    have hlen : List.length vs < 2 ^ 31 := of_decide_eq_true h.1
    rw [Ty.value, TValue.wire, List.length_append, Ty.room]
    refine Nat.add_le_add ?_ (elem.length_items_le vs (List.all_eq_true.mp h.2))
    rw [TValues.length_ofList, List.length_map, listWire]
    split
    · simp
    · rw [List.length_cons]
      exact Nat.succ_le_succ (encode_length_le (by decide) (by omega))

/-- The fields of an object take at most the room counted for them. -/
theorem Fields.length_wire_le : (fields : Fields) → (v : fields.Val) → fields.fits v →
    (last : Int16) → ((fields.values v).wire last).length ≤ fields.room v
  | .stop, _, _, _ => Nat.le_refl 1
  | .field _ required ty written _ rest, v, h, last => by
    rw [Fields.fits, Bool.and_eq_true, Bool.or_eq_true, Bool.not_eq_true'] at h
    rw [Fields.values, Fields.room]
    -- a field that is not written takes no room
    cases hpresent : v.1.isset || required with
    | false =>
      rw [if_neg Bool.false_ne_true, if_neg Bool.false_ne_true, Nat.zero_add]
      exact rest.length_wire_le v.2 h.2 last
    | true =>
      have hty : ty.fits v.1.val := by
        rcases h.1 with habsent | hty
        · rw [hpresent] at habsent
          cases habsent
        · exact hty
      have hheader := length_headerWire_le last written (ty.value v.1.val).headerType
      have hbody := ty.length_wire_le v.1.val hty
      have hrest := rest.length_wire_le v.2 h.2 written
      rw [if_pos rfl, if_pos rfl, TFields.wire, fieldWire, List.length_append, List.length_append]
      split
      · rw [List.length_nil]
        omega
      · omega

/-- The items of a list take at most the room counted for them. -/
theorem Ty.length_items_le (elem : Ty) : (vs : List elem.Val) → (∀ v ∈ vs, elem.fits v) →
    (TValues.ofList (vs.map fun v => elem.value v)).wire.length ≤ (vs.map fun v => elem.room v).sum
  | [], _ => Nat.le_refl 0
  | v :: vs, h => by
    rw [List.map_cons, List.map_cons, List.sum_cons, TValues.ofList, TValues.wire, List.length_append]
    exact Nat.add_le_add (elem.length_wire_le v (h v (by simp)))
      (elem.length_items_le vs fun v' hv' => h v' (by simp [hv']))

end

/-! ## The builders -/

/-- A member that is set. -/
def given {α : Type} (v : α) : Slot α := ⟨true, v⟩

/-- A member that is not set. -/
def absent (ty : Ty) : Slot ty.Val := ⟨false, ty.default⟩

/-- A call of one of the builders, with the time. -/
inductive Report
  | sendSessionReport (now : Int64)
  | sendQuitReport (now : Int64)
  | sendConnectReport (clientaddr : List UInt8) (usercount ingress egress : Int32) (now : Int64)

namespace Report

/-- The members of the header that all of them set. -/
def header (sid cname : CString) (cid lts uid : Int64) (elapse : Slot Int64) : VosdkHeader.Val :=
  (given sid, given cname, given cid, given lts, absent .string, given uid, absent .bool, elapse,
    absent .i64, ())

/-- The session of `sendSessionReport`. -/
def session (now : Int64) : VosdkSession.Val :=
  (given (header (ascii "07EA2A894DDB45AC8695A5CF8DBCC8E4") (ascii "testtesttest") 12345678 now 1
      (absent .i64)),
    given (ascii "67466468aed5442c977082bb2a43a1af"), given (ascii "2.6.0"), given (1 : Int32),
    absent .i32, given (ascii "127.0.0.1"), absent .string, absent .string, absent .i32, absent .i32,
    given (7 : Int32), given (ascii "test"), given (-1 : Int32), absent .i32,
    given (ascii "turnserver test report"), absent .string, absent .i32, given (ascii "turnserver"),
    absent .i32, absent .i32, absent .string, absent .i32, absent .i32, absent .i32, absent .i32,
    absent .i32, absent .string, ())

/-- The object of `sendQuitReport`. -/
def quit (now : Int64) : VosdkWebQuit.Val :=
  (given (header (ascii "697abf9b17da4d5a8a4df0fe0ea4b531") (ascii "machine") 2888778408 now 124487
      (given 1000)),
    given (0 : Int32), ())

/-- The object of `sendConnectReport`. -/
def connect (clientaddr : List UInt8) (userCount ingress egress : Slot Int64) (now : Int64) :
    WrtcConnectProxyTurnWorker.Val :=
  (given (header (ascii "697abf9b17da4d5a8a4df0fe0ea4b531") (ascii "machine") 2888778408 now 124487
      (absent .i64)),
    given clientaddr, userCount, ingress, egress, absent .string, ())

/-- A report with one of the three structs. -/
def item (uri : Int32) (vosdkSession : Slot VosdkSession.Val) (vosdkWebQuit : Slot VosdkWebQuit.Val)
    (wrtcConnectProxyTurnWorker : Slot WrtcConnectProxyTurnWorker.Val) : ReportItem.Val :=
  (given uri, absent _, absent _, vosdkSession, absent _, absent _, vosdkWebQuit, absent _, absent _,
    absent _, absent _, absent _, absent _, absent _, absent _, absent _, absent _, absent _, absent _,
    absent _, wrtcConnectProxyTurnWorker, ())

/-- What is written. -/
def sent : Report → ReportItem.Val
  | sendSessionReport now =>
    item 1001 (given (session now)) (absent (.struct VosdkWebQuit))
      (absent (.struct WrtcConnectProxyTurnWorker))
  | sendQuitReport now =>
    item 1029 (absent (.struct VosdkSession)) (given (quit now))
      (absent (.struct WrtcConnectProxyTurnWorker))
  | sendConnectReport clientaddr usercount ingress egress now =>
    item 2026 (absent (.struct VosdkSession)) (absent (.struct VosdkWebQuit))
      (given (connect clientaddr (given usercount.toInt64) (given ingress.toInt64)
        (given egress.toInt64) now))

/-- What is found by the reader: of a connection, the last number that was written. -/
def received : Report → ReportItem.Val
  | sendConnectReport clientaddr _ _ egress now =>
    item 2026 (absent (.struct VosdkSession)) (absent (.struct VosdkWebQuit))
      (given (connect clientaddr (given egress.toInt64) (absent .i64) (absent .i64) now))
  | r => r.sent

/-- The builder of a report. -/
def builder : Report → ReportBuilder
  | sendSessionReport _ => .sendSessionReport
  | sendQuitReport _ => .sendQuitReport
  | sendConnectReport _ _ _ _ _ => .sendConnectReport

end Report

/-- What is passed to `Send`, if anything is; `none` where the process stops. -/
def sendReport (r : Report) (send_ts : UInt32) : Option (Option ArgusFrame) :=
  (((Ty.struct ReportItem).write TMemoryBuffer.transport r.sent).run (.new (.new 1024))).map fun w =>
    if 0 < w.1 ∧ w.2.trans.availableRead ≠ 0 then
      some (.report r.builder send_ts w.2.trans.pending)
    else none

/-! ## From the builder to the reader -/

namespace Report

/-- The address of the client, where there is one. -/
def address : Report → List UInt8
  | sendConnectReport clientaddr _ _ _ _ => clientaddr
  | _ => []

/-- The length of the session id. -/
theorem length_sid : (ascii "697abf9b17da4d5a8a4df0fe0ea4b531").length = 32 := by decide

/-- The length of the channel name. -/
theorem length_cname : (ascii "machine").length = 7 := by decide

/-- A report with a short address can be written. -/
theorem fits_sent (r : Report) (h : r.address.length < 2 ^ 30) : ReportItem.fits r.sent = true := by
  cases r with
  | sendSessionReport now => rfl
  | sendQuitReport now => rfl
  | sendConnectReport clientaddr usercount ingress egress now =>
    have hlen : clientaddr.length < 2 ^ 31 := Nat.lt_trans h (by decide)
    simp [sent, item, Fields.fits, Ty.fits, given, absent, connect, header, length_sid, length_cname]
    exact decide_eq_true hlen

/-- The room for a report. -/
theorem room_sent (r : Report) : ReportItem.room r.sent ≤ 500 + r.address.length := by
  cases r with
  | sendSessionReport now =>
    simp [sent, item, Fields.room, Ty.room, given, absent, session, header, address]
    decide
  | sendQuitReport now =>
    simp [sent, item, Fields.room, Ty.room, given, absent, quit, header, address]
    decide
  | sendConnectReport clientaddr usercount ingress egress now =>
    simp [sent, item, Fields.room, Ty.room, given, absent, connect, header, address, length_sid,
      length_cname]
    omega

/-- What becomes of a new report that reads this one. -/
theorem into_sent (r : Report) :
    ((Ty.struct ReportItem).value r.sent).into (.struct ReportItem) (Ty.struct ReportItem).default =
      (Ty.struct ReportItem).normalise r.received := by
  cases r <;> rfl

end Report

/-- Fields take at least the byte of the stop. -/
theorem TFields.length_wire_pos (us : TFields) (last : Int16) : 0 < (us.wire last).length := by
  cases us with
  | stop => exact Nat.one_pos
  | field id u rest =>
    have hheader := headerWire_length_pos last id u.headerType
    rw [TFields.wire, fieldWire, List.length_append, List.length_append]
    omega

/-- **The reports, as they are read.**  A builder always passes a frame on.  Whoever reads its payload,
    on whatever transport, comes to the end of it without an error and has the report `received`. -/
theorem sendReport_received {r : Report} (h : r.address.length < 2 ^ 30) (send_ts : UInt32) :
    ∃ payload, sendReport r send_ts = some (some (.report r.builder send_ts payload)) ∧
      payload.length ≤ 500 + r.address.length ∧
      ∀ {τ : Type} (T : Transport τ) (junk : UInt32) (fuel : Nat) (t : τ), T.pending t = payload →
        payload.length ≤ fuel → ∃ n v s,
          ((Ty.struct ReportItem).read T junk fuel (Ty.struct ReportItem).default).run (.new t) =
            some ((n, v), s) ∧
          s.error = false ∧ T.pending s.trans = [] ∧ ReportItem.same v r.received = true := by
  have hfits : (Ty.struct ReportItem).fits r.sent = true := r.fits_sent h
  have hlen : ((Ty.struct ReportItem).value r.sent).wire.length ≤ 500 + r.address.length :=
    Nat.le_trans ((Ty.struct ReportItem).length_wire_le r.sent hfits) r.room_sent
  have hpos : 0 < ((Ty.struct ReportItem).value r.sent).wire.length :=
    TFields.length_wire_pos (ReportItem.values r.sent) 0
  refine ⟨((Ty.struct ReportItem).value r.sent).wire, ?_, hlen, ?_⟩
  · rcases write_appends (T := TMemoryBuffer.transport) (t := .new 1024) hfits
      (show (Ty.struct ReportItem).depth ≤ recursionLimit by decide)
      ⟨rfl, show 0 + _ ≤ _ by omega⟩ with ⟨o, hwrite, hpending, -⟩
    have hbytes : o.trans.pending = ((Ty.struct ReportItem).value r.sent).wire := hpending
    -- both guards of the source hold: bytes were counted, and the buffer holds them
    have hcount : 0 < UInt32.ofNat ((Ty.struct ReportItem).value r.sent).wire.length := by
      rw [UInt32.lt_iff_toNat_lt, UInt32.toNat_zero, size_toNat (by omega)]
      exact hpos
    have havailable : o.trans.availableRead ≠ 0 := by
      rw [TMemoryBuffer.availableRead, ← List.length_drop]
      show o.trans.pending.length ≠ 0
      rw [hbytes]
      exact Nat.ne_of_gt hpos
    rw [sendReport, hwrite, Option.map_some, if_pos ⟨hcount, havailable⟩, hbytes]
  · intro τ T junk fuel t hpending hfuel
    -- the reader starts from the defaults and gets every member back
    rcases read_value (T := T) junk ((Ty.struct ReportItem).proper_value r.sent hfits) rfl
      (reportItem_suits r.sent) hfuel (Ty.struct ReportItem).default
      (by rw [hpending, List.append_nil]) with ⟨s, hread, herror, hleft⟩
    rw [r.into_sent] at hread
    exact ⟨_, _, s, hread, herror, hleft, ReportItem.same_normalise r.received⟩

theorem sendReport_received_sample :
    ∃ payload, sendReport (.sendConnectReport (ascii "10.0.0.1:4000") 3 20 40 1700000000000) 1 =
        some (some (.report .sendConnectReport 1 payload)) ∧ payload.length ≤ 513 ∧
      ∀ {τ : Type} (T : Transport τ) (junk : UInt32) (fuel : Nat) (t : τ), T.pending t = payload →
        payload.length ≤ fuel → ∃ n v s,
          ((Ty.struct ReportItem).read T junk fuel (Ty.struct ReportItem).default).run (.new t) =
            some ((n, v), s) ∧
          s.error = false ∧ T.pending s.trans = [] ∧
          ReportItem.same v (Report.received
            (.sendConnectReport (ascii "10.0.0.1:4000") 3 20 40 1700000000000)) = true :=
  sendReport_received (r := .sendConnectReport (ascii "10.0.0.1:4000") 3 20 40 1700000000000)
    (show (ascii "10.0.0.1:4000").length < 2 ^ 30 by decide) 1

end Thrift

end Turnserver
