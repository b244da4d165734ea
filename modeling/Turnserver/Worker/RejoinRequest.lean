/-
  THE ADDRESS IN A REJOIN REQUEST (`turnserver_main.cc`: `ElbsConnection`, `new_elbs_protocol.h`).

  `RejoinRequest` and `RejoinResponse` both name an edge server, and the protocol asks for the same
  byte orders in both: `ip` network-ordered, `port` host-ordered.  The address goes from the response
  to `connect_Addr_` through `NetworkToHost32`, and from there to the next request as it is.

  * `accepted` — the fields of the response that a step takes `connect_Addr_` from, if it does.
  * `Returns` — a request carries the fields of the last accepted response.

  `requests_return_iff`: the requests of a run do that exactly as long as the ip of the response that
  each of them follows reads the same in both orders.
-/
import Turnserver.Worker.ElbsConnection

namespace Turnserver

open Bytes Transition

namespace ElbsConnection

/-- `ip` and `port` of what `OnResponsePacket` takes for a `RejoinResponse`. -/
def response (r : Read) : Option (UInt32 × UInt16) :=
  let data := blockOf r.bytes r.stale
  let size := u16 r.bytes.length
  if size < 4 then none
  else if (identified data size).1 = Elbs.kRejoinResponseUri then
    let resp := unmarshalled (identified data size).2
    some (resp.members.2.1, resp.members.2.2.1)
  else none

/-- The fields of the response that is accepted: it is not too early, and names another address. -/
def accepted (s : ElbsConnection) : Input → Option (UInt32 × UInt16)
  | .read _ r now _ => (response r).filter fun f =>
      decide (s.last_connect_ts + 3000 ≤ now ∧ ⟨networkToHost32 f.1, f.2⟩ ≠ s.connect_Addr)
  | _ => none

/-- The fields that `connect_Addr_` was last set from. -/
def lastAccepted (ts : List (ElbsConnection × Input × ElbsConnection)) : Option (UInt32 × UInt16) :=
  ts.foldl (fun last x => (accepted x.1 x.2.1).or last) none

/-- What a step sends. -/
def sentBy (x : ElbsConnection × Input × ElbsConnection) : List (Nat × ElbsSent) :=
  x.2.2.sent.drop x.1.sent.length

/-- The requests of a step carry the fields of the last accepted response. -/
def Returns (before : List (ElbsConnection × Input × ElbsConnection))
    (x : ElbsConnection × Input × ElbsConnection) : Prop :=
  ∀ ip port, lastAccepted before = some (ip, port) →
    ∀ i ip' port', (i, .rejoinRequest ip' port') ∈ sentBy x → ip' = ip ∧ port' = port

/-- A request that follows a response whose ip is not the same in network and in host order. -/
def Symmetric (before : List (ElbsConnection × Input × ElbsConnection))
    (x : ElbsConnection × Input × ElbsConnection) : Prop :=
  ∀ ip port i, lastAccepted before = some (ip, port) → x.2.1 = .elbsConnect i →
    networkToHost32 ip = ip

/-- The last response that was accepted decides. -/
theorem lastAccepted_concat (ts : List (ElbsConnection × Input × ElbsConnection))
    (x : ElbsConnection × Input × ElbsConnection) :
    lastAccepted (ts ++ [x]) = (accepted x.1 x.2.1).or (lastAccepted ts) := by
  rw [lastAccepted, List.foldl_concat]
  rfl

/-- A read is a response with its fields, or nothing. -/
theorem next_read (i : Nat) (r : Read) (now : Int) (created : Bool) (s : ElbsConnection) :
    s.next (.read i r now created) =
      match response r with
      | none => s
      | some f => s.onRejoinResponse i f.1 f.2 now created := by
  unfold next onResponsePacket response
  dsimp only
  by_cases hsize : u16 r.bytes.length < 4
  · rw [if_pos hsize, if_pos hsize]
  · rw [if_neg hsize, if_neg hsize]
    by_cases huri : (identified (blockOf r.bytes r.stale) (u16 r.bytes.length)).1 = Elbs.kRejoinResponseUri
    · rw [if_pos huri, if_pos huri]
    · rw [if_neg huri, if_neg huri]

/-! ## What is remembered -/

/-- A response is accepted if it is not too early and names another address. -/
theorem onRejoinResponse_connect_Addr (i : Nat) (f : UInt32 × UInt16) (now : Int) (created : Bool)
    (s : ElbsConnection) :
    (s.onRejoinResponse i f.1 f.2 now created).connect_Addr =
      (((some f).filter fun f =>
          decide (s.last_connect_ts + 3000 ≤ now ∧ ⟨networkToHost32 f.1, f.2⟩ ≠ s.connect_Addr)).map
        fun f => ⟨networkToHost32 f.1, f.2⟩).getD s.connect_Addr := by
  rw [Option.filter_some]
  rcases onRejoinResponse_cases i f.1 f.2 now created s with
    ⟨hignored, hsame⟩ | ⟨hdue, hdiffers, haddr, -⟩
  · rw [if_neg, hsame.1]
    · rfl
    · rw [decide_eq_true_eq]
      rintro ⟨hdue, hdiffers⟩
      rcases hignored with hearly | hsame
      · omega
      · exact hdiffers hsame
  · rw [if_pos (decide_eq_true ⟨hdue, hdiffers⟩), haddr]
    rfl

/-- A step takes the address from the response that it accepts, and else leaves it alone. -/
theorem next_connect_Addr (s : ElbsConnection) (i : Input) :
    (s.next i).connect_Addr =
      ((accepted s i).map fun f => ⟨networkToHost32 f.1, f.2⟩).getD s.connect_Addr := by
  cases i with
  | join created => exact (joinElbs_same created s).1
  | argusTimer => exact (onArgusTimer_same s).1
  | elbsConnect i => rfl
  | elbsClose i => rfl
  | argusConnect i sameLocal =>
    exact (onArgusSocketConnect_same i sameLocal (s.setState i .connected)).1
  | argusClose i => rfl
  | read i r now created =>
    rw [next_read, accepted]
    cases response r with
    | none => rfl
    | some f => exact onRejoinResponse_connect_Addr i f now created s

/-- In every reachable state: the address is the last accepted one, with its ip in host order. -/
theorem run_connect_Addr {s : ElbsConnection} {ts : List (ElbsConnection × Input × ElbsConnection)}
    (hrun : Run Step initial ts s) {ip : UInt32} {port : UInt16}
    (hlast : lastAccepted ts = some (ip, port)) : s.connect_Addr = ⟨networkToHost32 ip, port⟩ := by
  induction hrun generalizing ip port with
  | nil => cases hlast
  | @snoc t u ts i hrun hstep ih =>
    obtain ⟨-, rfl⟩ := hstep
    rw [lastAccepted_concat] at hlast
    rw [next_connect_Addr]
    cases haccepted : accepted t i with
    | none =>
      rw [haccepted, Option.none_or] at hlast
      exact ih hlast
    | some f =>
      rw [haccepted, Option.some_or] at hlast
      obtain rfl := Option.some_inj.mp hlast
      rfl

/-! ## What is sent -/

/-- No request is among what is sent. -/
def NoRequest (s s' : ElbsConnection) : Prop :=
  ∃ new, s'.sent = s.sent ++ new ∧ ∀ i ip port, (i, .rejoinRequest ip port) ∉ new

/-- What was sent already is no new request. -/
theorem NoRequest.of_eq {s s' : ElbsConnection} (h : s'.sent = s.sent) : NoRequest s s' :=
  ⟨[], by rw [h, List.append_nil], fun _ _ _ => List.not_mem_nil⟩

/-- Without a new request no request was sent in the step. -/
theorem NoRequest.notMem {s s' : ElbsConnection} (h : NoRequest s s') (i : Input) (j : Nat) (ip : UInt32)
    (port : UInt16) : (j, .rejoinRequest ip port) ∉ sentBy (s, i, s') := by
  obtain ⟨new, hnew, hnone⟩ := h
  rw [sentBy, hnew, List.drop_left]
  exact hnone j ip port

theorem onArgusSocketConnect_noRequest (i : Nat) (sameLocal : Bool) (s : ElbsConnection) :
    NoRequest s (s.onArgusSocketConnect i sameLocal) := by
  rw [onArgusSocketConnect]
  -- a socket bound to another address is closed
  cases sameLocal with
  | false => exact .of_eq rfl
  | true =>
    -- without a socket in the making there is nobody to report to
    cases hnew : s.socket_connecting with
    | none => cases hsocket : s.socket <;> simp only [if_true, hnew, close, setState] <;> exact .of_eq rfl
    | some new =>
      have hreports : ∀ s' : ElbsConnection, s'.sent = s.sent →
          NoRequest s ((s'.send new .quitReport).send new .connectReport) := by
        intro s' hs'
        refine ⟨[(new, .quitReport), (new, .connectReport)], ?_, ?_⟩
        · show s'.sent ++ [_] ++ [_] = _
          rw [hs', List.append_assoc]
          rfl
        · intro j ip port hmem
          rcases List.mem_pair.mp hmem with heq | heq
          · cases heq
          · cases heq
      cases hsocket : s.socket <;> simp only [if_true, hnew, close, setState] <;> exact hreports _ rfl

theorem onArgusTimer_noRequest (s : ElbsConnection) : NoRequest s s.onArgusTimer := by
  rw [onArgusTimer]
  split
  · next i _ =>
    split
    · refine ⟨[(i, .ping)], rfl, ?_⟩
      intro j ip port hmem
      cases List.mem_singleton.mp hmem
    · exact .of_eq rfl
  · exact .of_eq rfl

/-- A read sends nothing. -/
theorem next_read_sent (i : Nat) (r : Read) (now : Int) (created : Bool) (s : ElbsConnection) :
    (s.next (.read i r now created)).sent = s.sent := by
  rw [next_read]
  cases response r with
  | none => rfl
  | some f => exact onRejoinResponse_sent i f.1 f.2 now created s

/-- A balancer that connects is sent the address that is remembered, and nothing else is a request. -/
theorem next_requests (s : ElbsConnection) (i : Input) (j : Nat) (ip : UInt32) (port : UInt16) :
    (j, .rejoinRequest ip port) ∈ sentBy (s, i, s.next i) ↔
      i = .elbsConnect j ∧ s.connect_Addr = ⟨ip, port⟩ := by
  have hnone : NoRequest s (s.next i) → (∀ k, i ≠ .elbsConnect k) →
      ((j, .rejoinRequest ip port) ∈ sentBy (s, i, s.next i) ↔
        i = .elbsConnect j ∧ s.connect_Addr = ⟨ip, port⟩) := by
    intro hno hi
    exact iff_of_false (hno.notMem i j ip port) fun h => hi j h.1
  -- only `OnElbsSocketConnect` asks for a balancer
  cases i with
  | join created => exact hnone (.of_eq (joinElbs_sent created s)) nofun
  | argusTimer => exact hnone (onArgusTimer_noRequest s) nofun
  | elbsConnect k =>
    have hsent : sentBy (s, .elbsConnect k, s.next (.elbsConnect k)) =
        [(k, .rejoinRequest s.connect_Addr.ip s.connect_Addr.port)] := List.drop_left
    rw [hsent, List.mem_singleton]
    constructor
    · intro heq
      cases heq
      exact ⟨rfl, rfl⟩
    · rintro ⟨heq, haddr⟩
      cases heq
      rw [haddr]
  | elbsClose k => exact hnone (.of_eq rfl) nofun
  | argusConnect k sameLocal =>
    exact hnone (onArgusSocketConnect_noRequest k sameLocal (s.setState k .connected)) nofun
  | argusClose k => exact hnone (.of_eq rfl) nofun
  | read k r now created => exact hnone (.of_eq (next_read_sent k r now created s)) nofun

/-! ## Runs -/

/-- One step: the request carries the ip of the response with its bytes reversed. -/
theorem returns_iff {s : ElbsConnection} {ts : List (ElbsConnection × Input × ElbsConnection)}
    (hrun : Run Step initial ts s) (i : Input) :
    Returns ts (s, i, s.next i) ↔ Symmetric ts (s, i, s.next i) := by
  constructor
  · intro h ip port j hlast hi
    have haddr := run_connect_Addr hrun hlast
    exact (h ip port hlast j _ _ ((next_requests s i j _ _).mpr ⟨hi, haddr⟩)).1
  · intro h ip port hlast j ip' port' hmem
    obtain ⟨hi, haddr⟩ := (next_requests s i j ip' port').mp hmem
    have hsame := haddr.symm.trans (run_connect_Addr hrun hlast)
    cases hsame
    exact ⟨h ip port j hlast hi, rfl⟩

/-- **When the requests return the address.**  In every run, every request carries the ip and the port
    of the last accepted response if and only if, whenever a balancer connects, the ip of the last
    accepted response is its own byte reversal. -/
theorem requests_return_iff {s : ElbsConnection}
    {ts : List (ElbsConnection × Input × ElbsConnection)} (hrun : Run Step initial ts s) :
    Unfolds Returns ts ↔ Unfolds Symmetric ts := by
  induction hrun with
  | nil => exact iff_of_true (unfolds_nil _) (unfolds_nil _)
  | @snoc t u ts i hrun hstep ih =>
    obtain ⟨-, rfl⟩ := hstep
    rw [unfolds_concat, unfolds_concat, ih, returns_iff hrun i]

/-- The balancer names 10.0.0.1:4000, and a minute later another balancer is asked. -/
def sampleReturn : List Input :=
  [.join [true], .elbsConnect 0, .read 0 sampleRead 5000 true, .join [true], .elbsConnect 2]

/-- The address comes back as 1.0.0.10. -/
theorem requests_return_reversed :
    let ts := trace next initial sampleReturn
    Run Step initial ts (sampleReturn.foldl next initial) ∧
      lastAccepted (ts.take 4) = some (0x0100000a, 4000) ∧
      (∃ x ∈ ts.drop 4, (2, .rejoinRequest 0x0a000001 4000) ∈ sentBy x) ∧ ¬Unfolds Returns ts := by
  intro ts
  have hlast : lastAccepted (ts.take 4) = some (0x0100000a, 4000) := by decide
  let s := (sampleReturn.take 4).foldl next initial
  have haddr : s.connect_Addr = ⟨0x0a000001, 4000⟩ := by decide
  have hrequest : (2, .rejoinRequest 0x0a000001 4000) ∈
      sentBy (s, .elbsConnect 2, s.next (.elbsConnect 2)) :=
    (next_requests s (.elbsConnect 2) 2 _ _).mpr ⟨rfl, haddr⟩
  refine ⟨Run.of_inputs Enabled next (by decide), hlast, ⟨_, List.mem_singleton.mpr rfl, hrequest⟩, ?_⟩
  intro hreturns
  obtain ⟨hip, -⟩ := hreturns (ts.take 4) _ [] rfl _ _ hlast 2 _ _ hrequest
  exact absurd hip (by decide)

/-- The same run: it does not return the address, because the ip does not read the same. -/
theorem requests_return_iff_sample :
    let ts := trace next initial sampleReturn
    Unfolds Returns ts ↔ Unfolds Symmetric ts :=
  requests_return_iff (Run.of_inputs Enabled next (by decide))

end ElbsConnection

end Turnserver
