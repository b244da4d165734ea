/-
  THE CONVERSATION WITH THE MANAGER (`turnserver_main.cc`, 740–875: `sendConnectMsg`, `sendPingMsg`,
  `OnWorkerManagerPacket`) — what the worker says, and what of it is understood.

  A message is built member by member, printed without white space, marshalled as the `json` of a
  `WorkerManagerComm` and packed.  What comes in is unpacked, parsed as a C string and looked up member
  by member.  Both ways pass through all layers: the tree, its text, the frame, and one read.

  1. `packed_frame` — a text that is short enough makes a frame, which `Send` does not refuse.
  2. `Message.received` — what a frame of a message is parsed as: the message.  Its numbers are integers
     that a `double` holds (`Message.portable`).
  3. `respond_portable` — this is so for a response, since its strings come from a text.

  `request_answered` puts them together: from the text of a request to the response as it is read.
-/
import Turnserver.Base.PackedFrame
import Turnserver.Json.Integers
import Turnserver.Json.ParsedStrings
import Turnserver.Network.AddressTypes
import Turnserver.Worker.Response
import Turnserver.Worker.WorkerTCPSocket

namespace Turnserver

open Bytes LinkedTree Node

namespace Worker

open Cjson

/-! ## The code -/

/-- `json.toString(formatted)` -/
def toString (S : Sprintf) (formatted : Bool) (json : Option Value) : CString :=
  match json with
  | none => []
  | some root => print_value S formatted 0 root

/-- The message of `sendConnectMsg`. -/
def connectJson (pid : Int32) (timeMillis : Int) : Option Value :=
  let json := some createObject
  let json := setStringValue (ascii "command") (some (ascii "connect")) json
  let json := setStringValue (ascii "name") (some (ascii "webrtc_proxy")) json
  let json := setIntValue (ascii "pid") pid.toInt json
  let json := setDoubleValue (ascii "ts") timeMillis json
  let json := setStringValue (ascii "appId") (some []) json
  let json := setStringValue (ascii "cname") (some []) json
  let json := setStringValue (ascii "uid") (some []) json
  let json := setStringValue (ascii "minSdkVersion") (some (ascii "2.3.1")) json
  setStringValue (ascii "maxSdkVersion") (some (ascii "2.6.2")) json

/-- What the worker knows of the server, as of the last `MSG_BANDWIDTH_GET`. -/
structure Workload where
  userCount : Int32
  ingress : Int32
  egress : Int32
deriving DecidableEq

/-- The message of `sendPingMsg`. -/
def pingJson (w : Workload) (timeMillis : Int) : Option Value :=
  let json := some createObject
  let json := setStringValue (ascii "command") (some (ascii "ping")) json
  let json := setStringValue (ascii "state") (some (ascii "idle")) json
  let json := setDoubleValue (ascii "ts") timeMillis json
  let msg := some createObject
  let msg := setIntValue (ascii "cpu") 0 msg
  let msg := setIntValue (ascii "ingress") w.ingress.toInt msg
  let msg := setIntValue (ascii "egress") w.egress.toInt msg
  let msg := setIntValue (ascii "userCount") w.userCount.toInt msg
  setObjectValue (ascii "workload") msg json

/-- What the worker says. -/
inductive Message
  | connect (timeMillis : Int)
  | ping (w : Workload) (timeMillis : Int)
  | response (json : Value)

/-- The JSON of a message. -/
def Message.json (pid : Int32) : Message → Option Value
  | connect timeMillis => connectJson pid timeMillis
  | ping w timeMillis => pingJson w timeMillis
  | response json => some json

/-- `WorkerManagerComm comm(UAP_SERVER_TYPE); comm.json = json; Packer pk; pk << comm; pk.Pack();` -/
def packed (json : CString) : Checked Packer := do
  let pk ← Elbs.WorkerManagerComm.insert ⟨Elbs.UAP_SERVER_TYPE, Elbs.kUapUri, json, ()⟩
    (Packer.new Packer.kDefaultSize)
  pk.pack

/-- `pk.Buffer()` and `pk.Length()`, if nothing has failed. -/
def frameOf (S : Sprintf) (json : Option Value) : Option (List UInt8) := do
  let pk ← (packed (toString S false json)).toOption
  pk.buffer.toOption

section Receiving

variable (double : Numeral → Rat) (fuel : Nat)

/-- `JsonWrapper json(jcstr.c_str())`, for the text of a packet. -/
def received (r : Read) : Option (Option Value) :=
  Cjson.parse double fuel (WorkerTCPSocket.textOf r ++ [0])

/-- `OnWorkerManagerPacket`: what is said in return, if anything is. -/
def answer (memory : Memory) (env : Surroundings) (r : Read) : Option (Option Message) :=
  (received double fuel r).map fun json => (onWorkerManagerPacket memory env json).map .response

end Receiving

/-! ## Member by member -/

/-- The report on the start, member by member. -/
theorem connectJson_eq (pid : Int32) (timeMillis : Int) :
    connectJson pid timeMillis = some (members [
      (ascii "command", createString (ascii "connect")),
      (ascii "name", createString (ascii "webrtc_proxy")),
      (ascii "pid", createNumber pid.toInt),
      (ascii "ts", createNumber timeMillis),
      (ascii "appId", createString []),
      (ascii "cname", createString []),
      (ascii "uid", createString []),
      (ascii "minSdkVersion", createString (ascii "2.3.1")),
      (ascii "maxSdkVersion", createString (ascii "2.6.2"))]) := by
  have hnil : some createObject = some (members []) := rfl
  rw [connectJson, hnil]
  rw [setStringValue_unused rfl, setStringValue_unused rfl, setIntValue_unused rfl,
    setDoubleValue_unused rfl, setStringValue_unused rfl, setStringValue_unused rfl,
    setStringValue_unused rfl, setStringValue_unused rfl, setStringValue_unused rfl]
  rfl

/-- The workload as the ping tells it. -/
def workloadJson (w : Workload) : Value :=
  members [(ascii "cpu", createNumber (0 : Int)), (ascii "ingress", createNumber w.ingress.toInt),
    (ascii "egress", createNumber w.egress.toInt),
    (ascii "userCount", createNumber w.userCount.toInt)]

/-- The ping, member by member. -/
theorem pingJson_eq (w : Workload) (timeMillis : Int) :
    pingJson w timeMillis = some (members [
      (ascii "command", createString (ascii "ping")),
      (ascii "state", createString (ascii "idle")),
      (ascii "ts", createNumber timeMillis),
      (ascii "workload", workloadJson w)]) := by
  have hnil : some createObject = some (members []) := rfl
  -- `setObjectValue` puts a copy of the workload into the message
  have hdup : duplicate (workloadJson w) = workloadJson w := by
    rw [duplicate_eq]
    rfl
  have hmsg : setIntValue (ascii "userCount") w.userCount.toInt
      (setIntValue (ascii "egress") w.egress.toInt
        (setIntValue (ascii "ingress") w.ingress.toInt
          (setIntValue (ascii "cpu") 0 (some createObject)))) = some (workloadJson w) := by
    rw [hnil, setIntValue_unused rfl, setIntValue_unused rfl, setIntValue_unused rfl,
      setIntValue_unused rfl]
    rfl
  rw [pingJson, hmsg, hnil, setStringValue_unused rfl, setStringValue_unused rfl,
    setDoubleValue_unused rfl, setObjectValue_unused rfl, hdup]
  rfl

/-! ## Nothing is rounded -/

theorem members_portable {l : List (CString × Value)} (h : ∀ m ∈ l, 0 ∉ m.1 ∧ Portable m.2) :
    Portable (members l) :=
  .object (fun m hm => (h m hm).1) fun m hm => (h m hm).2

theorem number_portable {i : Int} (hi : i.natAbs ≤ 2 ^ 53) : Portable (createNumber i) := .number hi

/-- An `int32` value is below `2^53`. -/
theorem int32_natAbs_le (i : Int32) : i.toInt.natAbs ≤ 2 ^ 53 := by
  have hlow := i.le_toInt
  have hhigh := i.toInt_lt
  omega

theorem int32_portable (i : Int32) : Portable (createNumber i.toInt) := .number (int32_natAbs_le i)

/-- The numbers of the message are integers that a `double` holds. -/
def Message.Whole : Message → Prop
  | connect timeMillis => timeMillis.natAbs ≤ 2 ^ 53
  | ping _ timeMillis => timeMillis.natAbs ≤ 2 ^ 53
  | response json => Portable json

/-- A whole message has portable JSON. -/
theorem Message.portable {m : Message} (h : m.Whole) (pid : Int32) :
    ∃ v, m.json pid = some v ∧ Portable v := by
  -- each member has a name without a null byte and a portable value
  cases m with
  | connect timeMillis =>
    refine ⟨_, connectJson_eq pid timeMillis, members_portable ?_⟩
    simp only [List.forall_mem_cons, List.not_mem_nil, false_imp_iff, implies_true, and_true]
    have hnil : Portable (createString []) := .string List.not_mem_nil
    refine ⟨⟨by decide, .string (by decide)⟩, ⟨by decide, .string (by decide)⟩,
      ⟨by decide, int32_portable _⟩, ⟨by decide, number_portable h⟩, ⟨by decide, hnil⟩, ⟨by decide, hnil⟩,
      ⟨by decide, hnil⟩, ⟨by decide, .string (by decide)⟩, by decide, .string (by decide)⟩
  | ping w timeMillis =>
    refine ⟨_, pingJson_eq w timeMillis, members_portable ?_⟩
    have hworkload : Portable (workloadJson w) := by
      refine members_portable ?_
      simp only [List.forall_mem_cons, List.not_mem_nil, false_imp_iff, implies_true, and_true]
      exact ⟨⟨by decide, number_portable (by decide)⟩, ⟨by decide, int32_portable _⟩,
        ⟨by decide, int32_portable _⟩, by decide, int32_portable _⟩
    simp only [List.forall_mem_cons, List.not_mem_nil, false_imp_iff, implies_true, and_true]
    exact ⟨⟨by decide, .string (by decide)⟩, ⟨by decide, .string (by decide)⟩,
      ⟨by decide, number_portable h⟩, by decide, hworkload⟩
  | response json => exact ⟨json, rfl, h⟩

/-- What is found by its name and type is an item of the tree. -/
theorem findNodeOf_mem {type : JsonType} {name : CString} {q node : Value}
    (h : findNodeOf type name (some q) = some node) :
    node.item ∈ q.items ∧ node.item.type = type := by
  rw [findNodeOf, Option.filter_eq_some_iff] at h
  exact ⟨mem_items_findItem h.1, of_decide_eq_true h.2⟩

/-- A number of a parsed request, or what was in the memory instead: an `int` in either case. -/
theorem number_of_parsed_le {q : Value} (hq : Canonical q) (name : CString) (memory : Int32) :
    (number name memory (some q)).natAbs ≤ 2 ^ 53 := by
  rcases hnode : findNodeOf .Number name (some q) with _ | node
  · rw [number, tryGetIntValue, hnode]
    exact int32_natAbs_le memory
  · rcases findNodeOf_mem hnode with ⟨hmem, htype⟩
    have hint := hq.valueint node.item hmem htype
    have hrange := toInt_range node.item.valuedouble
    rw [number, tryGetIntValue, hnode]
    show node.item.valueint.natAbs ≤ 2 ^ 53
    rw [hint]
    omega

/-- A string of the request is a string of its tree, or it is empty. -/
theorem text_cases (name : CString) (q : Value) :
    text name (some q) = [] ∨ ∃ i ∈ q.items, i.valuestring = some (text name (some q)) := by
  rcases hnode : findNodeOf .String name (some q) with _ | node
  · rw [text, tryGetStringValue, hnode]
    exact Or.inl rfl
  · rcases hstring : node.item.valuestring with _ | s
    · rw [text, tryGetStringValue, hnode]
      show node.item.valuestring.getD [] = [] ∨ _
      rw [hstring]
      exact Or.inl rfl
    · rw [text_of_string hnode hstring]
      exact Or.inr ⟨node.item, (findNodeOf_mem hnode).1, hstring⟩

theorem text_portable {q : Value} (hq : Canonical q) (name : CString) :
    Portable (createString (text name (some q))) := by
  rcases text_cases name q with hnil | ⟨i, hi, hs⟩
  · rw [hnil]
    exact .string List.not_mem_nil
  · exact .string (hq.valuestring i hi _ hs)

/-- **Nothing of a response is rounded**, whatever the parser has made of the request: its strings come
    from the request and its numbers are integers. -/
theorem respond_portable {q : Value} (hq : Canonical q) (memory : Memory) {env : Surroundings}
    (hts : env.timeMillis.natAbs ≤ 2 ^ 53) :
    ∃ resp, respond memory env (some q) = some resp ∧ Portable resp := by
  refine ⟨_, respond_eq memory env (some q), members_portable ?_⟩
  have hport : ∀ port : UInt16, Portable (createNumber (port.toNat : Int)) := fun port => by
    have hlt := port.toNat_lt
    exact number_portable (by omega)
  have hserver : Portable (serverResponse env) := by
    refine members_portable ?_
    simp only [List.forall_mem_cons, List.not_mem_nil, false_imp_iff, implies_true, and_true]
    exact ⟨⟨by decide, hport _⟩, ⟨by decide, hport _⟩, ⟨by decide, .string (by decide)⟩, by decide,
      .string (by decide)⟩
  -- one case for each member, in the order in which `respond` sets them
  simp only [List.forall_mem_cons, List.not_mem_nil, false_imp_iff, implies_true, and_true]
  refine ⟨⟨by decide, .string (by decide)⟩, ⟨by decide, text_portable hq _⟩,
    ⟨by decide, text_portable hq _⟩, ⟨by decide, text_portable hq _⟩,
    ⟨by decide, text_portable hq _⟩, ⟨by decide, number_portable (number_of_parsed_le hq _ _)⟩,
    ⟨by decide, number_portable hts⟩, ⟨by decide, number_portable (number_of_parsed_le hq _ _)⟩,
    ⟨by decide, number_portable (i := 200) (by decide)⟩, ⟨by decide, .string (by decide)⟩, by decide,
    hserver⟩

/-! ## Frames -/

/-- **A frame**: a text that leaves 12 bytes of what a packer takes. -/
theorem packed_frame {S : Sprintf} {json : Option Value}
    (h : (toString S false json).length + 12 ≤ kMaxPacketSize) :
    ∃ f : WorkerTCPSocket.CommFrame, frameOf S json = some f.frame ∧ f.json = toString S false json ∧
      f.json.length < f.frame.length ∧ f.frame.length ≤ f.json.length + 10 := by
  rw [kMaxPacketSize] at h
  generalize htext : toString S false json = text at h
  -- the two words and the text, each with room left in the packer
  have hnew := Packer.holds_new Packer.kDefaultSize
  have hposition := hnew.position_eq
  have hwidth₁ : (Packer.new Packer.kDefaultSize).position + 2 < 2 ^ 32 := by rw [hposition]; decide
  rcases hnew.pushWord_ok Elbs.UAP_SERVER_TYPE.toNat hwidth₁ with ⟨p₁, hp₁, hholds₁⟩
  have hposition₁ := hholds₁.position_eq
  have hwidth₂ : p₁.position + 2 < 2 ^ 32 := by rw [hposition₁]; decide
  rcases hholds₁.pushWord_ok Elbs.kUapUri.toNat hwidth₂ with ⟨p₂, hp₂, hholds₂⟩
  have hposition₂ := hholds₂.position_eq
  simp only [List.nil_append, List.length_append, leBytes_length] at hposition₂
  have hroom₃ : p₂.position + 3 + text.length < 2 ^ 32 := by omega
  rcases hholds₂.pushString_ok hroom₃ with ⟨p₃, hp₃⟩
  have hholds₃ := Packer.pushString_holds hholds₂ hp₃
  have hwhole : text.take (u32 text.length) = text := by
    rw [u32_of_lt (by omega), List.take_length]
  rw [hwhole] at hholds₃
  have hwidth : ∀ n, 2 ≤ (Packer.encVar n).length ∧ (Packer.encVar n).length ≤ 3 := fun n => by
    rw [Packer.encVar_length, Packer.variableUint32Length]
    split <;> omega
  have hvar := hwidth (u32 text.length)
  -- the length field in front of the text takes two or three bytes
  have hposition₃ := hholds₃.position_eq
  simp only [List.nil_append, List.length_append, leBytes_length] at hposition₃
  rcases hholds₃.pack_ok (show p₃.position < kMaxPacketSize by rw [kMaxPacketSize]; omega)
    with ⟨pk, hpk⟩
  rcases Packer.pack_data hholds₃ hpk with ⟨hdata, -, -⟩
  have hinsert : Elbs.WorkerManagerComm.insert ⟨Elbs.UAP_SERVER_TYPE, Elbs.kUapUri, text, ()⟩
      (Packer.new Packer.kDefaultSize) = .ok p₃ :=
    Checked.bind_ok.mpr ⟨p₁, hp₁, Checked.bind_ok.mpr ⟨p₂, hp₂, Checked.bind_ok.mpr ⟨p₃, hp₃, rfl⟩⟩⟩
  have hpacked : packed text = .ok pk := Checked.bind_ok.mpr ⟨p₃, hinsert, hpk⟩
  have hbuffer : pk.buffer = pk.data := rfl
  -- so does the one in front of the frame
  refine ⟨⟨_, _, p₃, pk, _, hinsert, hpk, hdata⟩, ?_, rfl, ?_⟩
  · rw [frameOf, htext, hpacked]
    show pk.buffer.toOption = _
    rw [hbuffer, hdata]
    rfl
  · show text.length < (Packer.frameOf _).length ∧ (Packer.frameOf _).length ≤ text.length + 10
    rw [Packer.frameOf, List.length_append]
    have hheader := hwidth (Packer.frameLength ([] ++ leBytes 2 Elbs.UAP_SERVER_TYPE.toNat ++
      leBytes 2 Elbs.kUapUri.toNat ++ Packer.encVar (u32 text.length) ++ text).length)
    simp only [List.nil_append, List.length_append, leBytes_length] at hheader ⊢
    omega

/-! ## What is understood -/

section Understood

variable {double : Numeral → Rat} {S : Sprintf} {fuel : Nat}

/-- The text of a value, with white space around it, is parsed as a C string. -/
theorem parse_spoken {before s after : CString} {v : Value} (hbefore : Ws before)
    (h : Says double Ws .value s [v]) (hafter : Ws after) (hfuel : s.length < fuel) :
    Cjson.parse double fuel (before ++ (s ++ after) ++ [0]) = some (some v) := by
  rcases JsonText.head_ne_zero ⟨before, s, after, hbefore, h.json, hafter⟩ with ⟨c, tail, htext, hc⟩
  have hparse := says_parse hbefore h hafter [] hfuel
  have hinput : before ++ (s ++ after) ++ [0] = before ++ (s ++ (after ++ [0])) := by simp
  have hhead : before ++ (s ++ (after ++ [0])) = c :: (tail ++ (after ++ [0])) := by
    rw [← List.append_assoc, htext, List.cons_append]
  rw [hinput]
  rw [hhead] at hparse ⊢
  rw [Cjson.parse, if_neg hc]
  exact hparse

theorem canonical_of_spoken {s : CString} {v : Value} (h : Says double Ws .value s [v]) :
    Canonical v := by
  have hread := says_read h v rfl (s.length + 1) [0] (Nat.lt_succ_self _) fun _ =>
    ⟨0, [], rfl, by decide⟩
  exact parse_value_canonical double _ _ _ _ hread v rfl

theorem received_canonical {r : Read} {q : Value} (h : received double fuel r = some (some q)) :
    Canonical q := parse_canonical h

/-- There is a response to requests only. -/
theorem onWorkerManagerPacket_some {memory : Memory} {env : Surroundings} {json : Option Value}
    {resp : Value} (h : onWorkerManagerPacket memory env json = some resp) :
    ∃ q, json = some q ∧ respond memory env (some q) = some resp := by
  rw [onWorkerManagerPacket] at h
  split at h
  · cases h
  · next command hcommand =>
    rcases json with _ | q
    · cases hcommand
    · split at h
      · exact ⟨q, rfl, h⟩
      · cases h

/-- The text of a frame is what the handler gets of it. -/
theorem textOf_comm {r : Read} {f : WorkerTCPSocket.CommFrame} (hr : r.bytes = f.frame)
    (hshort : f.json.length < 2 ^ 32) : WorkerTCPSocket.textOf r = f.json := by
  rw [WorkerTCPSocket.textOf_frame hr, (WorkerTCPSocket.writtenText_eq_iff _).mpr hshort]

/-- **A message is understood**: its frame is read as what was built. -/
theorem Message.understood (hS : PrintsIntegers S) (hdouble : ReadsIntegers double) {m : Message}
    (hm : m.Whole) {pid : Int32} {r : Read} {f : WorkerTCPSocket.CommFrame} (hr : r.bytes = f.frame)
    (hf : f.json = toString S false (m.json pid)) (hshort : f.json.length < 2 ^ 32)
    (hfuel : f.json.length < fuel) : received double fuel r = some (m.json pid) := by
  rcases m.portable hm pid with ⟨v, hv, hportable⟩
  rw [hv] at hf ⊢
  have hprint : f.json = print_value S false 0 v := hf
  rw [hprint] at hfuel
  have hparse := parse_spoken ws_nil (hportable.spoken hS hdouble false) ws_nil hfuel
  rw [List.nil_append, List.append_nil] at hparse
  rw [received, textOf_comm hr hshort, hprint, hparse]

/-- `Send` does not refuse the frame, and anybody who gets it in one read, and reads as the worker does,
    gets what was built. -/
def Delivered (double : Numeral → Rat) (S : Sprintf) (json : Option Value) : Prop :=
  ∃ frame, frameOf S json = some frame ∧ frame.length ≤ WorkerTCPSocket.workerMaxPacketSize ∧
    ∀ r : Read, r.bytes = frame → ∀ fuel, WorkerTCPSocket.workerMaxPacketSize ≤ fuel →
      received double fuel r = some json

/-- A whole message that has room in a packet is delivered. -/
theorem Message.delivered (hS : PrintsIntegers S) (hdouble : ReadsIntegers double) {m : Message}
    (hm : m.Whole) {pid : Int32}
    (hroom : (toString S false (m.json pid)).length + 12 ≤ kMaxPacketSize) :
    ∃ frame, frameOf S (m.json pid) = some frame ∧
      frame.length ≤ (toString S false (m.json pid)).length + 10 ∧
      (frame.length ≤ WorkerTCPSocket.workerMaxPacketSize → Delivered double S (m.json pid)) := by
  rcases packed_frame hroom with ⟨f, hframe, hjson, hlow, hhigh⟩
  rw [hjson] at hhigh
  refine ⟨f.frame, hframe, hhigh, fun hlen => ⟨f.frame, hframe, hlen, fun r hr fuel hfuel => ?_⟩⟩
  have hlt := Nat.lt_of_lt_of_le hlow hlen
  exact Message.understood hS hdouble hm hr hjson (Nat.lt_trans hlt (by decide))
    (Nat.lt_of_lt_of_le hlt hfuel)

/-- A text that leaves 10 bytes of what `Send` takes. -/
theorem Message.short_delivered (hS : PrintsIntegers S) (hdouble : ReadsIntegers double) {m : Message}
    (hm : m.Whole) {pid : Int32}
    (hroom : (toString S false (m.json pid)).length + 10 ≤ WorkerTCPSocket.workerMaxPacketSize) :
    Delivered double S (m.json pid) := by
  have hkMax : (toString S false (m.json pid)).length + 12 ≤ kMaxPacketSize := by
    rw [WorkerTCPSocket.workerMaxPacketSize] at hroom
    rw [kMaxPacketSize]
    omega
  rcases Message.delivered hS hdouble hm hkMax with ⟨frame, -, hlen, hdelivered⟩
  exact hdelivered (Nat.le_trans hlen hroom)

/-! ## Connect messages and pings are short -/

/-- A name is not printed with the value. -/
theorem print_named (name : CString) (v : Value) (depth : Nat) :
    print_value S false depth (named name v) = print_value S false depth v := by
  cases v
  rfl

/-- The length of printed members: for each the name, the punctuation and the value. -/
theorem print_members_le {k : Nat} {depth : Nat} : ∀ {l : List (CString × Value)},
    (∀ m ∈ l, (print_string_ptr (some m.1)).length ≤ 20 ∧
      (print_value S false (depth + 1) m.2).length ≤ k) →
    (print_members S false depth (l.map fun m => named m.1 m.2)).length ≤ l.length * (22 + k)
  | [], _ => Nat.zero_le _
  | m :: l, h => by
    rw [List.forall_mem_cons] at h
    have ih := print_members_le h.2
    have hname : (named m.1 m.2).item.string = some m.1 := named_string_eq _ _
    have hcomma : (if (l.map fun m => named m.1 m.2).isEmpty then ([] : CString)
        else [Ascii.comma]).length ≤ 1 := by
      split <;> decide
    rw [List.map_cons, print_members, print_named, hname]
    simp only [List.length_append, List.length_cons, tabs, newline, Bool.false_eq_true, if_false,
      List.length_nil, Nat.add_mul, Nat.one_mul]
    omega

/-- An object with short names and values that take no more than `k`. -/
theorem print_object_le {l : List (CString × Value)} {k : Nat} {depth : Nat}
    (h : ∀ m ∈ l, (print_string_ptr (some m.1)).length ≤ 20 ∧
      (print_value S false (depth + 1) m.2).length ≤ k) :
    (print_value S false depth (members l)).length ≤ l.length * (22 + k) + 2 := by
  have hmembers := print_members_le h
  show (print_value S false depth (.mk () { newItem with type := .Object }
    (l.map fun m => named m.1 m.2))).length ≤ _
  rw [print_value]
  dsimp only
  split
  · simp [tabs, newline]
  · simp only [List.length_append, List.length_cons, tabs, newline, Bool.false_eq_true, if_false,
      List.length_nil]
    omega

theorem print_integer_le (hS : PrintsIntegers S) {i : Int} (hi : i.natAbs ≤ 2 ^ 53) (depth : Nat) :
    (print_value S false depth (createNumber i)).length ≤ 20 := by
  show (print_number S (createNumber i).item).length ≤ 20
  rw [print_number_int hS hi]
  exact Nat.le_trans (signed_length_le hi) (by decide)

theorem print_int32_le (hS : PrintsIntegers S) (i : Int32) (depth : Nat) :
    (print_value S false depth (createNumber i.toInt)).length ≤ 20 :=
  print_integer_le hS (int32_natAbs_le i) depth

theorem print_string_le {s : CString} (h : (print_string_ptr (some s)).length ≤ 20) (depth : Nat) :
    (print_value S false depth (createString s)).length ≤ 20 := h

/-- The report on the start takes at most 400 bytes. -/
theorem connect_short (hS : PrintsIntegers S) (pid : Int32) {timeMillis : Int}
    (hts : timeMillis.natAbs ≤ 2 ^ 53) :
    (toString S false (connectJson pid timeMillis)).length ≤ 400 := by
  rw [connectJson_eq]
  show (print_value S false 0 _).length ≤ _
  refine Nat.le_trans (print_object_le (k := 20) ?_) (by simp)
  simp only [List.forall_mem_cons, List.not_mem_nil, false_imp_iff, implies_true, and_true]
  have hstring : ∀ s : CString, (print_string_ptr (some s)).length ≤ 20 →
      (print_value S false 1 (createString s)).length ≤ 20 := fun s h => print_string_le h 1
  exact ⟨⟨by decide, hstring _ (by decide)⟩, ⟨by decide, hstring _ (by decide)⟩,
    ⟨by decide, print_int32_le hS pid _⟩, ⟨by decide, print_integer_le hS hts _⟩,
    ⟨by decide, hstring _ (by decide)⟩, ⟨by decide, hstring _ (by decide)⟩,
    ⟨by decide, hstring _ (by decide)⟩, ⟨by decide, hstring _ (by decide)⟩, by decide,
    hstring _ (by decide)⟩

/-- The ping takes at most 800 bytes. -/
theorem ping_short (hS : PrintsIntegers S) (w : Workload) {timeMillis : Int}
    (hts : timeMillis.natAbs ≤ 2 ^ 53) :
    (toString S false (pingJson w timeMillis)).length ≤ 800 := by
  rw [pingJson_eq]
  have hworkload : (print_value S false 1 (workloadJson w)).length ≤ 170 := by
    refine Nat.le_trans (print_object_le (k := 20) ?_) (by simp)
    simp only [List.forall_mem_cons, List.not_mem_nil, false_imp_iff, implies_true, and_true]
    exact ⟨⟨by decide, print_integer_le hS (by decide) _⟩, ⟨by decide, print_int32_le hS _ _⟩,
      ⟨by decide, print_int32_le hS _ _⟩, by decide, print_int32_le hS _ _⟩
  have hle : ∀ {n : Nat}, n ≤ 20 → n ≤ 170 := fun h => Nat.le_trans h (by decide)
  show (print_value S false 0 _).length ≤ _
  refine Nat.le_trans (print_object_le (k := 170) ?_) (by simp)
  simp only [List.forall_mem_cons, List.not_mem_nil, false_imp_iff, implies_true, and_true]
  exact ⟨⟨by decide, hle (print_string_le (by decide) 1)⟩,
    ⟨by decide, hle (print_string_le (by decide) 1)⟩,
    ⟨by decide, hle (print_integer_le hS hts 1)⟩, by decide, hworkload⟩

/-- **What the worker says of itself is always understood**: the message of a new connection and every
    ping fit into a packet and are read as what was built. -/
theorem reports_delivered (hS : PrintsIntegers S) (hdouble : ReadsIntegers double) (pid : Int32)
    (w : Workload) {timeMillis : Int} (hts : timeMillis.natAbs ≤ 2 ^ 53) :
    Delivered double S (connectJson pid timeMillis) ∧ Delivered double S (pingJson w timeMillis) := by
  have hconnect := connect_short hS pid hts
  have hping := ping_short hS w hts
  constructor
  · exact Message.short_delivered hS hdouble (m := .connect timeMillis) hts
      (Nat.le_trans (Nat.add_le_add_right hconnect 10) (by decide))
  · have hwhole : (Message.ping w timeMillis).Whole := hts
    show Delivered double S ((Message.ping w timeMillis).json 0)
    exact Message.short_delivered hS hdouble hwhole
      (Nat.le_trans (Nat.add_le_add_right hping 10) (by decide))

theorem reports_delivered_sample :
    Delivered wholeDouble .whole (connectJson 77 1700000000000) ∧
      Delivered wholeDouble .whole (pingJson ⟨1, 20, -3⟩ 1700000000000) :=
  reports_delivered whole_printsIntegers wholeDouble_readsIntegers 77 ⟨1, 20, -3⟩ (by decide)

/-! ## Requests -/

/-- The text says `q`, with white space around it. -/
def Text (double : Numeral → Rat) (text : CString) (q : Value) : Prop :=
  ∃ before s after, text = before ++ (s ++ after) ∧ Ws before ∧ Ws after ∧ Says double Ws .value s [q]

/-- A frame that is read is received as the value of its JSON. -/
theorem received_text {r : Read} {f : WorkerTCPSocket.CommFrame} {q : Value}
    (hr : r.bytes = f.frame) (hf : Text double f.json q) (hshort : f.json.length < 2 ^ 32)
    (hfuel : f.json.length < fuel) : received double fuel r = some (some q) := by
  rcases hf with ⟨before, s, after, htext, hbefore, hafter, hspoken⟩
  have hlen : s.length < fuel := by
    rw [htext, List.length_append, List.length_append] at hfuel
    omega
  rw [received, textOf_comm hr hshort, htext]
  exact parse_spoken hbefore hspoken hafter hlen

/-- A text of the request prints to at most six times its length. -/
theorem print_text_le {q : Value} {n : Nat} (hq : StringsLe n q) (name : CString) (depth : Nat) :
    (print_value S false depth (createString (text name (some q)))).length ≤ 6 * n + 2 := by
  have hprint := print_string_length_le (text name (some q))
  show (print_string_ptr (some (text name (some q)))).length ≤ _
  rcases text_cases name q with hnil | ⟨i, hi, hs⟩
  · rw [hnil] at hprint ⊢
    exact Nat.le_trans hprint (by simp)
  · have hlen := hq i hi _ hs
    omega

/-- **A response is short**: four strings of the request, and what is always the same. -/
theorem respond_short (hS : PrintsIntegers S) {q : Value} (hq : Canonical q) {n : Nat}
    (hn : StringsLe n q) (memory : Memory) {env : Surroundings} (hts : env.timeMillis.natAbs ≤ 2 ^ 53) :
    (toString S false (respond memory env (some q))).length ≤ 66 * n + 2136 := by
  rw [respond_eq]
  have hshort : ∀ {k}, k ≤ 20 → k ≤ 6 * n + 172 := fun h => by omega
  have hnumber : ∀ {i : Int}, i.natAbs ≤ 2 ^ 53 →
      (print_value S false 1 (createNumber i)).length ≤ 6 * n + 172 := fun hi =>
    hshort (print_integer_le hS hi 1)
  have hrequest : ∀ name memory, (print_value S false 1
      (createNumber (number name memory (some q)))).length ≤ 6 * n + 172 := fun name memory =>
    hnumber (number_of_parsed_le hq name memory)
  have htext : ∀ name, (print_value S false 1 (createString (text name (some q)))).length ≤
      6 * n + 172 := fun name => Nat.le_trans (print_text_le hn name 1) (by omega)
  have hport : ∀ port : UInt16, (print_value S false 2 (createNumber (port.toNat : Int))).length ≤ 20 :=
    fun port => by
      have hlt := port.toNat_lt
      exact print_integer_le hS (by omega) 2
  have hserver : (print_value S false 1 (serverResponse env)).length ≤ 6 * n + 172 := by
    refine Nat.le_trans (print_object_le (k := 20) ?_) ?_
    · simp only [List.forall_mem_cons, List.not_mem_nil, false_imp_iff, implies_true, and_true]
      exact ⟨⟨by decide, hport _⟩, ⟨by decide, hport _⟩, ⟨by decide, print_string_le (by decide) 2⟩,
        by decide, print_string_le (by decide) 2⟩
    · simp
  show (print_value S false 0 _).length ≤ _
  refine Nat.le_trans (print_object_le (k := 6 * n + 172) ?_) ?_
  · -- one case for each member, in the order in which `respond` sets them
    simp only [List.forall_mem_cons, List.not_mem_nil, false_imp_iff, implies_true, and_true]
    exact ⟨⟨by decide, hshort (print_string_le (by decide) 1)⟩, ⟨by decide, htext _⟩,
      ⟨by decide, htext _⟩, ⟨by decide, htext _⟩, ⟨by decide, htext _⟩, ⟨by decide, hrequest _ _⟩,
      ⟨by decide, hnumber hts⟩, ⟨by decide, hrequest _ _⟩, ⟨by decide, hnumber (i := 200) (by decide)⟩,
      ⟨by decide, hshort (print_string_le (by decide) 1)⟩, by decide, hserver⟩
  · simp only [List.length_cons, List.length_nil]
    omega

/-- **A request is answered.**  However its text is laid out, the frame of a request in one read makes
    the worker answer, whatever was in the memory; the answer carries back what identifies the request,
    and is understood by anybody who reads as the worker does, unless it is too long for a packet. -/
theorem request_answered (hS : PrintsIntegers S) (hdouble : ReadsIntegers double)
    {r : Read} {f : WorkerTCPSocket.CommFrame} {q : Value} (hr : r.bytes = f.frame)
    (hf : Text double f.json q) (hshort : f.json.length < 2 ^ 32) (hfuel : f.json.length < fuel)
    (hcommand : tryGetStringValue (ascii "command") [] (some q) = (true, ascii "request"))
    (memory : Memory) {env : Surroundings} (hts : env.timeMillis.natAbs ≤ 2 ^ 53) :
    ∃ resp, respond memory env (some q) = some resp ∧
      answer double fuel memory env r = some (some (.response resp)) ∧
      CarriesBack (some q) (some resp) ∧
      ((toString S false (some resp)).length + 10 ≤ WorkerTCPSocket.workerMaxPacketSize →
        Delivered double S (some resp)) := by
  have hq : Canonical q := by
    rcases hf with ⟨-, s, -, -, -, -, hspoken⟩
    exact canonical_of_spoken hspoken
  rcases respond_portable hq memory hts with ⟨resp, hresp, hportable⟩
  refine ⟨resp, hresp, ?_, hresp ▸ respond_carriesBack memory env (some q), fun hroom => ?_⟩
  · rw [answer, received_text hr hf hshort hfuel, Option.map_some,
      onWorkerManagerPacket_request hcommand, hresp, Option.map_some]
  · have hwhole : (Message.response resp).Whole := hportable
    show Delivered double S ((Message.response resp).json 0)
    exact Message.short_delivered hS hdouble hwhole hroom

end Understood

theorem request_answered_sample :
    ∃ r resp, answer wholeDouble 100 ⟨5, 6⟩ ⟨1700000000000, 3, 4⟩ r = some (some (.response resp)) ∧
      CarriesBack (some numberedRequest) (some resp) ∧ Delivered wholeDouble .whole (some resp) := by
  have htext : (print_value .whole false 0 numberedRequest).length = 43 := by decide +kernel
  have hportable : Portable numberedRequest := by
    refine members_portable ?_
    simp only [List.forall_mem_cons, List.not_mem_nil, false_imp_iff, implies_true, and_true]
    exact ⟨⟨by decide, .string (by decide)⟩, ⟨by decide, number_portable (i := 7) (by decide)⟩,
      by decide, number_portable (i := 8) (by decide)⟩
  have hroom : (toString .whole false (some numberedRequest)).length = 43 := htext
  have hfits₀ : (toString .whole false (some numberedRequest)).length + 12 ≤ kMaxPacketSize := by
    rw [hroom]; decide
  rcases packed_frame hfits₀ with ⟨f, -, hjson, -, hlen⟩
  have hin : f.frame ∈ [f].map Packed.frame := by simp
  have hne : f.frame ≠ [] := WorkerTCPSocket.frame_ne_nil _ hin
  have hspoken : Text wholeDouble f.json numberedRequest :=
    ⟨[], _, [], by rw [hjson, List.append_nil, List.nil_append]; rfl, ws_nil, ws_nil,
      hportable.spoken whole_printsIntegers wholeDouble_readsIntegers false⟩
  have hshort : f.json.length = 43 := by rw [hjson, hroom]
  have henough : f.json.length < 100 := by rw [hshort]; decide
  have hnow : (⟨1700000000000, 3, 4⟩ : Surroundings).timeMillis.natAbs ≤ 2 ^ 53 := by decide
  rcases request_answered whole_printsIntegers wholeDouble_readsIntegers
    (r := ⟨f.frame, fun _ => 0, hne, by omega⟩) rfl hspoken (by rw [hshort]; decide) henough (by decide)
    ⟨5, 6⟩ hnow with ⟨resp, hresp, hanswer, hback, hdelivered⟩
  refine ⟨_, resp, hanswer, hback, hdelivered ?_⟩
  rw [← hresp]
  decide +kernel

end Worker

end Turnserver
