/-
  REPORTS TO THE EDGE SERVER (`turnserver_main.cc`, 224–232, 262–290, 334–523, 547–548) — frames that
  begin with their own length.

  The three builders of reports differ in the id that they write.  The length of a frame is narrowed to
  the 16 bits of `size_`; what `Send` accepts is bounded by another constant, which is one too large
  for that.
  * `size_report`: `size_` is the length of an accepted frame, but for the largest one;
  * `argus_iff`: a receiver that cuts the stream by `size_` gets back the frames that were sent, pings
    included, exactly when none of them is that frame.
-/
import Turnserver.Worker.WorkerTCPSocket

namespace Turnserver

open Bytes Framing WorkerTCPSocket

/-! ## The frames -/

/-- The function that builds a report. -/
inductive ReportBuilder
  | sendSessionReport
  | sendQuitReport
  | sendConnectReport

/-- `head.cid_` -/
def ReportBuilder.cid : ReportBuilder → Nat
  | sendSessionReport => 12345678
  | sendQuitReport => 2888778408
  | sendConnectReport => 2888778408

/-- `sizeof(ArgusReportHead)` -/
def sizeofArgusReportHead : Nat := 20

/-- The fields of `ArgusReportHead`, as they lie in memory. -/
def argusReportHead (size type qos seq send_ts vid cid : Nat) : List UInt8 :=
  leBytes 2 size ++ leBytes 1 type ++ leBytes 1 qos ++ leBytes 4 seq ++ leBytes 4 send_ts ++
    leBytes 4 vid ++ leBytes 4 cid

/-- `ARGUS_PING_LENGTH` -/
def argusPingLength : Nat := 2

/-- What is passed to `Send` of the edge server's socket. -/
inductive ArgusFrame
  /-- a report with its time and its serialized payload, which the builder has found not empty -/
  | report (builder : ReportBuilder) (send_ts : UInt32) (payload : List UInt8)
  | ping

namespace ArgusFrame

/-- The bytes of a frame: a head and the payload, or the fixed bytes of a ping. -/
def bytes : ArgusFrame → List UInt8
  | report builder send_ts payload =>
    let size := payload.length + sizeofArgusReportHead
    argusReportHead (u16 size) 3 0 0 send_ts.toNat 161891 builder.cid ++ payload
  | ping => leBytes 2 argusPingLength

/-- `size_`: the first 16 bits of a frame. -/
def size (frame : List UInt8) : Nat := leNat (frame.take 2)

/-- The head of a report has a fixed length. -/
theorem length_argusReportHead (size type qos seq send_ts vid cid : Nat) :
    (argusReportHead size type qos seq send_ts vid cid).length = sizeofArgusReportHead := by
  simp only [argusReportHead, List.length_append, leBytes_length, sizeofArgusReportHead]

/-- A report is as long as its head and its payload. -/
theorem length_report (builder : ReportBuilder) (send_ts : UInt32) (payload : List UInt8) :
    (report builder send_ts payload).bytes.length = payload.length + sizeofArgusReportHead := by
  rw [bytes, List.length_append, length_argusReportHead, Nat.add_comm]

/-- A report announces its length, up to 16 bits. -/
theorem size_report (builder : ReportBuilder) (send_ts : UInt32) (payload : List UInt8) :
    size (report builder send_ts payload).bytes =
      u16 (report builder send_ts payload).bytes.length := by
  rw [length_report, size, bytes, argusReportHead]
  simp only [List.append_assoc]
  have hlt : u16 (payload.length + sizeofArgusReportHead) < 256 ^ 2 := Nat.mod_lt _ (by decide)
  rw [List.take_left' (leBytes_length 2 _), leNat_leBytes_of_lt hlt]

/-- A ping announces its length. -/
theorem size_ping : size ping.bytes = ping.bytes.length := by decide

/-- A frame holds its size. -/
theorem length_ge (f : ArgusFrame) : 2 ≤ f.bytes.length := by
  cases f with
  | report builder send_ts payload =>
    rw [length_report, sizeofArgusReportHead]
    omega
  | ping => decide

end ArgusFrame

/-! ## What `Send` accepts -/

/-- `Send` returns the number of bytes, if the socket is as it should be. -/
def Accepted (frame : List UInt8) : Prop := ∃ res o, (send frame res o).result = frame.length

/-- A frame is accepted up to the largest packet. -/
theorem accepted_iff (frame : List UInt8) :
    Accepted frame ↔ frame.length ≤ workerMaxPacketSize := by
  constructor
  · rintro ⟨res, o, h⟩
    by_contra hlong
    rw [send_refused (Nat.not_le.mp hlong)] at h
    cases h
  · intro hle
    refine ⟨1, ⟨[], 0⟩, ?_⟩
    rw [send, if_neg (Nat.not_lt.mpr hle), if_neg (by simp), if_neg (by decide)]

/-! ## A receiver that frames by `size_` -/

/-- What lies at the front of the stream: a frame of `size_` bytes, once they are there.  A `size_`
    that does not even count its own two bytes frames nothing. -/
def sizeVerdict (b : List UInt8) : Verdict :=
  if b.length < 2 then .more
  else if ArgusFrame.size b < 2 then .bad
  else if b.length < ArgusFrame.size b then .more
  else .frame (ArgusFrame.size b)

/-- The size is read from the first two bytes. -/
theorem size_append {b : List UInt8} (h : 2 ≤ b.length) (c : List UInt8) :
    ArgusFrame.size (b ++ c) = ArgusFrame.size b := by
  rw [ArgusFrame.size, ArgusFrame.size, List.take_append_of_le_length h]

/-- When a frame is recognised. -/
theorem sizeVerdict_frame {b : List UInt8} {n : Nat} :
    sizeVerdict b = .frame n ↔
      2 ≤ b.length ∧ 2 ≤ ArgusFrame.size b ∧ ArgusFrame.size b ≤ b.length ∧
        n = ArgusFrame.size b := by
  rw [sizeVerdict]
  constructor
  · intro h
    split_ifs at h
    cases h
    exact ⟨by omega, by omega, by omega, rfl⟩
  · rintro ⟨hlen, hpos, hle, rfl⟩
    rw [if_neg (Nat.not_lt.mpr hlen), if_neg (Nat.not_lt.mpr hpos), if_neg (Nat.not_lt.mpr hle)]

/-- When a size is refused. -/
theorem sizeVerdict_bad {b : List UInt8} :
    sizeVerdict b = .bad ↔ 2 ≤ b.length ∧ ArgusFrame.size b < 2 := by
  rw [sizeVerdict]
  constructor
  · intro h
    split_ifs at h
    exact ⟨by omega, by omega⟩
  · rintro ⟨hlen, hzero⟩
    rw [if_neg (Nat.not_lt.mpr hlen), if_pos hzero]

/-- The receiver. -/
def argusFramer : Framer UInt8 where
  verdict := sizeVerdict
  frame_pos h := by
    obtain ⟨-, hpos, -, rfl⟩ := sizeVerdict_frame.mp h
    omega
  frame_le h := by
    obtain ⟨-, -, hle, rfl⟩ := sizeVerdict_frame.mp h
    exact hle
  frame_append c h := by
    obtain ⟨hlen, hpos, hle, rfl⟩ := sizeVerdict_frame.mp h
    rw [sizeVerdict_frame, size_append hlen, List.length_append]
    omega
  bad_append c h := by
    obtain ⟨hlen, hzero⟩ := sizeVerdict_bad.mp h
    rw [sizeVerdict_bad, size_append hlen, List.length_append]
    omega

/-- A frame that announces its length is cut off whole. -/
theorem whole_of_size {f : ArgusFrame} (h : ArgusFrame.size f.bytes = f.bytes.length) :
    argusFramer.Whole f.bytes := by
  have hlen := f.length_ge
  show sizeVerdict f.bytes = .frame f.bytes.length
  rw [sizeVerdict_frame, h]
  exact ⟨hlen, hlen, Nat.le_refl _, rfl⟩

/-! ## The law -/

namespace ArgusFrame

/-- The report whose frame has one byte more than `size_` can count. -/
def Wraps : ArgusFrame → Prop
  | report _ _ payload => payload.length + sizeofArgusReportHead = workerMaxPacketSize
  | ping => False

instance : DecidablePred Wraps
  | report _ _ payload =>
    inferInstanceAs (Decidable (payload.length + sizeofArgusReportHead = workerMaxPacketSize))
  | ping => inferInstanceAs (Decidable False)

/-- `size_` is the length of an accepted frame, but for the largest one. -/
theorem size_iff {f : ArgusFrame} (h : Accepted f.bytes) :
    size f.bytes = f.bytes.length ↔ ¬ f.Wraps := by
  rw [accepted_iff] at h
  cases f with
  | report builder send_ts payload =>
    rw [size_report, length_report, Wraps, u16] at *
    rw [workerMaxPacketSize] at *
    omega
  | ping => exact ⟨fun _ hwraps => hwraps, fun _ => size_ping⟩

end ArgusFrame

/-- Every frame begins with its length, and a receiver that frames by `size_` gets back the frames, in
    order and with nothing left over. -/
def ArgusLaw (frames : List ArgusFrame) : Prop :=
  (∀ f ∈ frames, ArgusFrame.size f.bytes = f.bytes.length) ∧
    argusFramer.scan (frames.map ArgusFrame.bytes).flatten = (frames.map ArgusFrame.bytes, [])

/-- Frames that announce their length are found one by one. -/
theorem scan_of_sizes {frames : List ArgusFrame}
    (h : ∀ f ∈ frames, ArgusFrame.size f.bytes = f.bytes.length) :
    argusFramer.scan (frames.map ArgusFrame.bytes).flatten = (frames.map ArgusFrame.bytes, []) := by
  have hwhole : ∀ w ∈ frames.map ArgusFrame.bytes, argusFramer.Whole w := by
    intro w hw
    rcases List.mem_map.mp hw with ⟨f, hf, rfl⟩
    exact whole_of_size (h f hf)
  have hscan := argusFramer.scan_wellFormed_append _ hwhole []
  rw [argusFramer.scan_of_not_frame (argusFramer.verdict_nil)] at hscan
  simpa using hscan

/-- **Reports announce their length, exactly.**  For every sequence of accepted frames: each of them
    begins with its length, and a receiver that frames by `size_` gets them back, if and only if none
    of them is a report of `kMaxPacketSize` bytes. -/
theorem argus_iff {frames : List ArgusFrame} (h : ∀ f ∈ frames, Accepted f.bytes) :
    ArgusLaw frames ↔ ∀ f ∈ frames, ¬ f.Wraps := by
  constructor
  · intro hlaw f hf
    exact (ArgusFrame.size_iff (h f hf)).mp (hlaw.1 f hf)
  · intro hnone
    have hsizes : ∀ f ∈ frames, ArgusFrame.size f.bytes = f.bytes.length := fun f hf =>
      (ArgusFrame.size_iff (h f hf)).mpr (hnone f hf)
    exact ⟨hsizes, scan_of_sizes hsizes⟩

/-- A report, a ping and a report: three frames. -/
def sampleReports : List ArgusFrame :=
  [.report .sendConnectReport 7 [1, 2, 3], .ping, .report .sendQuitReport 8 [4]]

theorem argus_iff_sample : ArgusLaw sampleReports := by
  refine (argus_iff ?_).mpr (by decide)
  intro f hf
  rw [accepted_iff]
  revert f
  decide

/-- A report whose frame has `kMaxPacketSize` bytes announces none. -/
theorem argus_fails :
    ∃ payload : List UInt8, payload.length = 65516 ∧
      Accepted (ArgusFrame.report .sendConnectReport 0 payload).bytes ∧
      ArgusFrame.size (ArgusFrame.report .sendConnectReport 0 payload).bytes = 0 ∧
      ¬ ArgusLaw [.report .sendConnectReport 0 payload] := by
  have hlen : (List.replicate 65516 (1 : UInt8)).length = 65516 := List.length_replicate
  have hsize : ArgusFrame.size
      (ArgusFrame.report .sendConnectReport 0 (List.replicate 65516 1)).bytes = 0 := by
    rw [ArgusFrame.size_report, ArgusFrame.length_report, hlen]
    rfl
  refine ⟨List.replicate 65516 1, hlen, ?_, hsize, ?_⟩
  · rw [accepted_iff, ArgusFrame.length_report, hlen]
    exact Nat.le_refl _
  · intro hlaw
    have hfirst := hlaw.1 _ List.mem_cons_self
    rw [hsize, ArgusFrame.length_report, hlen] at hfirst
    cases hfirst

end Turnserver
