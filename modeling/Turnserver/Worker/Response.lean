/-
  THE RESPONSE OF THE WORKER (`turnserver_main.cc`, 813–875: `Worker::OnWorkerManagerPacket`) — what
  the manager gets back for a request.

  Seven members of the request are read by try-getters, whose results are ignored.  The strings are
  empty where a member is missing; `seq` and `requestId` are integers that nothing has initialized
  (`Memory`), and are sent all the same.

  * `respond_eq` — the response, member by member;
  * `response_iff`: the response does not depend on the memory, and carries back what the request
    has, exactly when `seq` and `requestId` of the request are numbers.
-/
import Turnserver.Json.JsonValue

namespace Turnserver

open LinkedTree Node

namespace Worker

/-- What is in the memory of `seq` and `requestid` when the handler is entered. -/
structure Memory where
  seq : Int32
  requestid : Int32

/-- What a response depends on besides the request and the memory. -/
structure Surroundings where
  timeMillis : Int
  udpport : UInt16
  tcpport : UInt16

/-- The response to a request, from `if (command.compare("request") == 0)` on. -/
def respond (memory : Memory) (env : Surroundings) (json : Option Value) : Option Value :=
  let appid := (tryGetStringValue (ascii "appId") [] json).2
  let cname := (tryGetStringValue (ascii "cname") [] json).2
  let uid := (tryGetStringValue (ascii "uid") [] json).2
  let sid := (tryGetStringValue (ascii "sid") [] json).2
  let seq := (tryGetIntValue (ascii "seq") memory.seq.toInt json).2
  let requestid := (tryGetIntValue (ascii "requestId") memory.requestid.toInt json).2
  let resp := some createObject
  let resp := setStringValue (ascii "command") (some (ascii "response")) resp
  let resp := setStringValue (ascii "appId") (some appid) resp
  let resp := setStringValue (ascii "cname") (some cname) resp
  let resp := setStringValue (ascii "uid") (some uid) resp
  let resp := setStringValue (ascii "sid") (some sid) resp
  let resp := setIntValue (ascii "seq") seq resp
  let resp := setDoubleValue (ascii "ts") env.timeMillis resp
  let resp := setIntValue (ascii "requestId") requestid resp
  let resp := setIntValue (ascii "code") 200 resp
  let resp := setStringValue (ascii "reason") (some (ascii "Success")) resp
  let msg := some createObject
  let msg := setIntValue (ascii "udpport") env.udpport.toNat msg
  let msg := setIntValue (ascii "tcpport") env.tcpport.toNat msg
  let msg := setStringValue (ascii "username") (some (ascii "test")) msg
  let msg := setStringValue (ascii "password") (some (ascii "111111")) msg
  setObjectValue (ascii "serverResponse") msg resp

/-- `OnWorkerManagerPacket`, from the parsed text on: the response, if there is one. -/
def onWorkerManagerPacket (memory : Memory) (env : Surroundings) (json : Option Value) :
    Option Value :=
  match tryGetStringValue (ascii "command") [] json with
  | (false, _) => none
  | (true, command) => if command = ascii "request" then respond memory env json else none

/-! ## The response, member by member -/

/-- An object of named members. -/
def members (l : List (CString × Value)) : Value :=
  createObject.withChild (l.map fun m => named m.1 m.2)

/-- No member has the name, up to case. -/
def unused (name : CString) (l : List (CString × Value)) : Bool :=
  l.all fun m => strcasecmp (some m.1) (some name) != 0

/-- A name that is not used finds nothing. -/
theorem lookup_unused {name : CString} {l : List (CString × Value)} (h : unused name l = true) :
    lookup name (members l).child = none := by
  induction l with
  | nil => rfl
  | cons m l ih =>
    rw [unused, List.all_cons, Bool.and_eq_true, bne_iff_ne] at h
    have htail : lookup name (l.map fun m => named m.1 m.2) = none := ih h.2
    show lookup name (named m.1 m.2 :: l.map fun m => named m.1 m.2) = none
    rw [lookup, htail]
    have hname : (named m.1 m.2).item.string = some m.1 := by
      rw [named]
      cases m.2
      rfl
    rw [hname, if_neg h.1]
    rfl

/-- Where the name is unused, a setter appends a member. -/
theorem setMember_unused {name : CString} {f : Item → Option Item} {newitem : Value}
    {l : List (CString × Value)} (h : unused name l = true) :
    setMember name f newitem (members l) = members (l ++ [(name, newitem)]) := by
  have hfind : findItem name (members l) = none := by
    rw [findItem, lookup_unused h]
    exact ite_self none
  rw [setMember, hfind]
  show (members l).withChild ((l.map fun m => named m.1 m.2) ++ [named name newitem]) = _
  rw [members, members, List.map_append]
  rfl

section

variable {name : CString} {l : List (CString × Value)} (h : unused name l = true)

include h

/-- Setting a text under a new name appends it. -/
theorem setStringValue_unused (value : CString) :
    setStringValue name (some value) (some (members l)) =
      some (members (l ++ [(name, createString value)])) :=
  congrArg some (setMember_unused h)

/-- Setting an integer under a new name appends it. -/
theorem setIntValue_unused (value : Int) :
    setIntValue name value (some (members l)) = some (members (l ++ [(name, createNumber value)])) :=
  congrArg some (setMember_unused h)

/-- Setting a number under a new name appends it. -/
theorem setDoubleValue_unused (value : Rat) :
    setDoubleValue name value (some (members l)) =
      some (members (l ++ [(name, createNumber value)])) :=
  congrArg some (setMember_unused h)

/-- Setting an object under a new name appends a duplicate. -/
theorem setObjectValue_unused (value : Value) :
    setObjectValue name (some value) (some (members l)) =
      some (members (l ++ [(name, duplicate value)])) :=
  congrArg some (setMember_unused h)

end

/-- The string that a member of the request contributes. -/
def text (name : CString) (json : Option Value) : CString := (tryGetStringValue name [] json).2

/-- The number that a member of the request contributes. -/
def number (name : CString) (memory : Int32) (json : Option Value) : Int :=
  (tryGetIntValue name memory.toInt json).2

/-- The addresses of the server. -/
def serverResponse (env : Surroundings) : Value :=
  members [(ascii "udpport", createNumber (env.udpport.toNat : Int)),
    (ascii "tcpport", createNumber (env.tcpport.toNat : Int)),
    (ascii "username", createString (ascii "test")),
    (ascii "password", createString (ascii "111111"))]

/-- The response, member by member. -/
theorem respond_eq (memory : Memory) (env : Surroundings) (json : Option Value) :
    respond memory env json = some (members [
      (ascii "command", createString (ascii "response")),
      (ascii "appId", createString (text (ascii "appId") json)),
      (ascii "cname", createString (text (ascii "cname") json)),
      (ascii "uid", createString (text (ascii "uid") json)),
      (ascii "sid", createString (text (ascii "sid") json)),
      (ascii "seq", createNumber (number (ascii "seq") memory.seq json)),
      (ascii "ts", createNumber env.timeMillis),
      (ascii "requestId", createNumber (number (ascii "requestId") memory.requestid json)),
      (ascii "code", createNumber 200),
      (ascii "reason", createString (ascii "Success")),
      (ascii "serverResponse", serverResponse env)]) := by
  have hnil : some createObject = some (members []) := rfl
  have hdup : duplicate (serverResponse env) = serverResponse env := by
    rw [duplicate_eq]
    rfl
  have hmsg : setStringValue (ascii "password") (some (ascii "111111"))
      (setStringValue (ascii "username") (some (ascii "test"))
        (setIntValue (ascii "tcpport") env.tcpport.toNat
          (setIntValue (ascii "udpport") env.udpport.toNat (some createObject)))) =
      some (serverResponse env) := by
    rw [hnil, setIntValue_unused rfl, setIntValue_unused rfl, setStringValue_unused rfl,
      setStringValue_unused rfl]
    rfl
  rw [respond, hmsg, hnil]
  -- every member is new when it is set
  rw [setStringValue_unused rfl, setStringValue_unused rfl, setStringValue_unused rfl,
    setStringValue_unused rfl, setStringValue_unused rfl, setIntValue_unused rfl,
    setDoubleValue_unused rfl, setIntValue_unused rfl, setIntValue_unused rfl,
    setStringValue_unused rfl, setObjectValue_unused rfl, hdup]
  rfl

/-! ## Two runs -/

/-- A response without its member `ts`. -/
def apartFromTs (response : Option Value) : Option Value :=
  response.map fun r => r.withChild (r.child.filter fun m => m.item.string != some (ascii "ts"))

/-- Every string and every `int` that identifies the request comes back. -/
structure CarriesBack (request response : Option Value) : Prop where
  strings : ∀ name ∈ [ascii "appId", ascii "cname", ascii "uid", ascii "sid"],
    ∀ node, findNodeOf .String name request = some node → ∀ s, node.item.valuestring = some s →
      ∃ node', findNodeOf .String name response = some node' ∧ node'.item.valuestring = some s
  numbers : ∀ name ∈ [ascii "seq", ascii "requestId"],
    ∀ node, findNodeOf .Number name request = some node → ∀ n : Int32,
      node.item.valueint = n.toInt → node.item.valuedouble = n.toInt →
        ∃ node', findNodeOf .Number name response = some node' ∧
          node'.item.valueint = n.toInt ∧ node'.item.valuedouble = n.toInt

/-- The response depends on nothing but the request, and answers it. -/
structure DependsOnRequest (json : Option Value) : Prop where
  same : ∀ memory memory' env timeMillis,
    apartFromTs (onWorkerManagerPacket memory env json) =
      apartFromTs (onWorkerManagerPacket memory' { env with timeMillis } json)
  carriesBack : ∀ memory env, CarriesBack json (onWorkerManagerPacket memory env json)

/-- The member is a number. -/
def isNumber (name : CString) (json : Option Value) : Bool := (findNodeOf .Number name json).isSome

/-- A request is answered. -/
theorem onWorkerManagerPacket_request {json : Option Value}
    (h : tryGetStringValue (ascii "command") [] json = (true, ascii "request")) (memory : Memory)
    (env : Surroundings) : onWorkerManagerPacket memory env json = respond memory env json := by
  rw [onWorkerManagerPacket, h]
  exact if_pos rfl

/-- The memory reaches the number exactly where the request has none. -/
theorem number_of_isNumber {name : CString} {json : Option Value} (h : isNumber name json = true)
    (memory memory' : Int32) : number name memory json = number name memory' json := by
  obtain ⟨node, hnode⟩ := Option.isSome_iff_exists.mp h
  rw [number, number, tryGetIntValue, tryGetIntValue, hnode]

/-- A number that is missing is read from the memory that was not set. -/
theorem number_of_not {name : CString} {json : Option Value} (h : isNumber name json = false)
    (memory : Int32) : number name memory json = memory.toInt := by
  have hnone : findNodeOf .Number name json = none := Option.not_isSome_iff_eq_none.mp (by
    rw [← isNumber, h]
    exact Bool.false_ne_true)
  rw [number, tryGetIntValue, hnone]

/-- The response carries the `seq` that was read. -/
theorem seq_of_respond (memory : Memory) (env : Surroundings) (json : Option Value) :
    getIntValue (ascii "seq") 0 (apartFromTs (respond memory env json)) =
      toInt (number (ascii "seq") memory.seq json) := by
  rw [respond_eq]
  rfl

/-- The response carries the `requestId` that was read. -/
theorem requestId_of_respond (memory : Memory) (env : Surroundings) (json : Option Value) :
    getIntValue (ascii "requestId") 0 (apartFromTs (respond memory env json)) =
      toInt (number (ascii "requestId") memory.requestid json) := by
  rw [respond_eq]
  rfl

/-- A text of the request. -/
theorem text_of_string {name : CString} {json : Option Value} {node : Value} {s : CString}
    (hnode : findNodeOf .String name json = some node) (hs : node.item.valuestring = some s) :
    text name json = s := by
  rw [text, tryGetStringValue, hnode]
  show node.item.valuestring.getD [] = s
  rw [hs, Option.getD_some]

/-- A number of the request. -/
theorem number_of_int {name : CString} {json : Option Value} {node : Value} {n : Int32}
    (hnode : findNodeOf .Number name json = some node) (hn : node.item.valueint = n.toInt)
    (memory : Int32) : number name memory json = n.toInt := by
  rw [number, tryGetIntValue, hnode]
  exact hn

/-- **Whatever is in the memory, a response carries back what the request has.** -/
theorem respond_carriesBack (memory : Memory) (env : Surroundings) (json : Option Value) :
    CarriesBack json (respond memory env json) := by
  rw [respond_eq]
  constructor
  · intro name hname node hnode s hs
    have htext := text_of_string hnode hs
    -- the string members of the request, and then the two numbers
    simp only [List.mem_cons, List.not_mem_nil, or_false] at hname
    rcases hname with rfl | rfl | rfl | rfl
    all_goals exact ⟨_, rfl, congrArg some htext⟩
  · intro name hname node hnode n hint hdouble
    have hnumber := number_of_int hnode hint
    simp only [List.mem_cons, List.not_mem_nil, or_false] at hname
    rcases hname with rfl | rfl
    · refine ⟨_, rfl, ?_, ?_⟩
      · show toInt (number _ memory.seq json) = _
        rw [hnumber, toInt_int32]
      · show ((number _ memory.seq json : Int) : Rat) = _
        rw [hnumber]
    · refine ⟨_, rfl, ?_, ?_⟩
      · show toInt (number _ memory.requestid json) = _
        rw [hnumber, toInt_int32]
      · show ((number _ memory.requestid json : Int) : Rat) = _
        rw [hnumber]

/-- With both numbers in the request, the response depends on nothing else. -/
theorem respond_same {json : Option Value} (hseq : isNumber (ascii "seq") json = true)
    (hrequestid : isNumber (ascii "requestId") json = true) (memory memory' : Memory)
    (env : Surroundings) (timeMillis : Int) :
    apartFromTs (respond memory env json) =
      apartFromTs (respond memory' { env with timeMillis } json) := by
  rw [respond_eq, respond_eq, number_of_isNumber hseq memory.seq memory'.seq,
    number_of_isNumber hrequestid memory.requestid memory'.requestid]
  rfl

/-- **The response depends on nothing but the request exactly when the request has both numbers.** -/
theorem response_iff {json : Option Value}
    (h : tryGetStringValue (ascii "command") [] json = (true, ascii "request")) :
    DependsOnRequest json ↔
      isNumber (ascii "seq") json = true ∧ isNumber (ascii "requestId") json = true := by
  constructor
  · rintro ⟨hsame, -⟩
    -- two memories that differ in both integers
    have hresponse := hsame ⟨0, 0⟩ ⟨1, 1⟩ ⟨0, 0, 0⟩ 0
    rw [onWorkerManagerPacket_request h, onWorkerManagerPacket_request h] at hresponse
    constructor
    · by_contra hseq
      have hseq := eq_false_of_ne_true hseq
      have hget := congrArg (getIntValue (ascii "seq") 0) hresponse
      rw [seq_of_respond, seq_of_respond, number_of_not hseq, number_of_not hseq, toInt_int32,
        toInt_int32] at hget
      exact absurd hget (by decide)
    · by_contra hrequestid
      have hrequestid := eq_false_of_ne_true hrequestid
      have hget := congrArg (getIntValue (ascii "requestId") 0) hresponse
      rw [requestId_of_respond, requestId_of_respond, number_of_not hrequestid,
        number_of_not hrequestid, toInt_int32, toInt_int32] at hget
      exact absurd hget (by decide)
  · rintro ⟨hseq, hrequestid⟩
    constructor
    · intro memory memory' env timeMillis
      rw [onWorkerManagerPacket_request h, onWorkerManagerPacket_request h]
      exact respond_same hseq hrequestid memory memory' env timeMillis
    · intro memory env
      rw [onWorkerManagerPacket_request h]
      exact respond_carriesBack memory env json

/-- `{"command":"request","seq":7,"requestId":8}` -/
def numberedRequest : Value :=
  members [(ascii "command", createString (ascii "request")), (ascii "seq", createNumber 7),
    (ascii "requestId", createNumber 8)]

theorem numberedRequest_dependsOnRequest : DependsOnRequest (some numberedRequest) :=
  (response_iff (by decide)).mpr (by decide)

/-- `{"command":"request"}` -/
def bareRequest : Value := members [(ascii "command", createString (ascii "request"))]

/-- **The response to a request without numbers shows what was in the memory.** -/
theorem bareRequest_shows_memory :
    tryGetStringValue (ascii "command") [] (some bareRequest) = (true, ascii "request") ∧
      ∃ memory memory' env,
        apartFromTs (onWorkerManagerPacket memory env (some bareRequest)) ≠
          apartFromTs (onWorkerManagerPacket memory' env (some bareRequest)) := by
  have hcommand : tryGetStringValue (ascii "command") [] (some bareRequest) =
      (true, ascii "request") := by decide
  refine ⟨hcommand, ⟨0, 0⟩, ⟨1, 0⟩, ⟨0, 0, 0⟩, ?_⟩
  intro hresponse
  rw [onWorkerManagerPacket_request hcommand, onWorkerManagerPacket_request hcommand] at hresponse
  have hget := congrArg (getIntValue (ascii "seq") 0) hresponse
  have hseq : isNumber (ascii "seq") (some bareRequest) = false := by decide
  rw [seq_of_respond, seq_of_respond, number_of_not hseq, number_of_not hseq, toInt_int32,
    toInt_int32] at hget
  exact absurd hget (by decide)

end Worker

end Turnserver
