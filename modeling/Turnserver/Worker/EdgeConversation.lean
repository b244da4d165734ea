/-
  TALKING TO ONE EDGE SERVER (`turnserver_main.cc`: `ElbsConnection`) — what is said on its sockets, in
  any run.

  Sockets to balancers come and go every minute; a response to the request on one of them opens a socket
  to an edge server, and when that connects it takes the place of the one before.  The handler knows the
  new socket by its local address only, so all of this rests on open sockets having different ones
  (`Distinct`).

  1. `Said` — what may have been said on a socket, by its kind and its state.
  2. `Inv` — it was; and the edge socket that is connected is `socket_`.
  3. One lemma for each handler: a new socket, a closed one, a balancer or an edge server that connects,
     a ping.
  4. `Told` — what was said on a socket, by the events of the run.

  `edge_conversation` is the conclusion for the states of a run, `told_balancers_and_edge` for its steps.
-/
import Turnserver.Worker.ElbsConnection

namespace Turnserver

open Transition

namespace ElbsConnection

/-! ## What is said -/

/-- What was written to the socket `i`. -/
def sentTo (i : Nat) (s : ElbsConnection) : List ElbsSent :=
  s.sent.filterMap fun x => if x.1 = i then some x.2 else none

/-- The two reports of a new edge server connection, and pings. -/
def Reported (l : List ElbsSent) : Prop :=
  ∃ n, l = .quitReport :: .connectReport :: List.replicate n .ping

/-- The request, with an address. -/
def Requested (l : List ElbsSent) : Prop := ∃ ip port, l = [.rejoinRequest ip port]

/-- What may have been said on a socket. -/
def Said : Bool → SocketState → List ElbsSent → Prop
  | _, .connecting, l => l = []
  | true, .connected, l => Reported l
  | true, .closed, l => l = [] ∨ Reported l
  | false, .connected, l => Requested l
  | false, .closed, l => l = [] ∨ Requested l

/-- Closing a socket leaves what was said on it. -/
theorem Said.closed {edge : Bool} {state : SocketState} {l : List ElbsSent} (h : Said edge state l) :
    Said edge .closed l := by
  cases edge with
  | true =>
    cases state with
    | connecting => exact Or.inl h
    | connected => exact Or.inr h
    | closed => exact h
  | false =>
    cases state with
    | connecting => exact Or.inl h
    | connected => exact Or.inr h
    | closed => exact h

/-- On other sockets than the one that is told something, nothing new is said. -/
theorem sentTo_append {s s' : ElbsConnection} {j : Nat} {l : List ElbsSent}
    (h : s'.sent = s.sent ++ l.map (Prod.mk j)) (i : Nat) :
    s'.sentTo i = s.sentTo i ++ if j = i then l else [] := by
  rw [sentTo, h, List.filterMap_append, List.filterMap_map]
  congr 1
  split
  · next hij =>
    subst hij
    induction l with
    | nil => rfl
    | cons p l ih => simp
  · next hij => simp [hij]

/-! ## Sockets -/

/-- The state of a socket, spelled out. -/
theorem is_iff {i : Nat} {edge : Bool} {state : SocketState} {s : ElbsConnection} :
    s.Is i edge state ↔ s.sockets[i]? = some ⟨edge, state⟩ := by
  rw [Is, Option.map_eq_some_iff]
  constructor
  · rintro ⟨k, hk, heq⟩
    cases heq
    exact hk
  · intro hk
    exact ⟨_, hk, rfl⟩

/-- A socket after `setState`. -/
theorem setState_cases {i j : Nat} {state : SocketState} {s : ElbsConnection} {k' : EdgeSocket}
    (h : (s.setState i state).sockets[j]? = some k') :
    (j ≠ i ∧ s.sockets[j]? = some k') ∨
      ∃ k, j = i ∧ s.sockets[i]? = some k ∧ k' = ⟨k.edge, state⟩ := by
  rw [setState, List.getElem?_modify] at h
  rcases Option.map_eq_some_iff.mp h with ⟨k, hk, rfl⟩
  by_cases hij : i = j
  · subst hij
    rw [if_pos rfl]
    exact Or.inr ⟨k, rfl, hk, rfl⟩
  · rw [if_neg hij]
    exact Or.inl ⟨fun hji => hij hji.symm, hk⟩

/-- A socket after another one is created. -/
theorem createSocket_cases {edge : Bool} {j : Nat} {s : ElbsConnection} {k' : EdgeSocket}
    (h : (s.createSocket edge).sockets[j]? = some k') :
    s.sockets[j]? = some k' ∨ j = s.sockets.length ∧ k' = ⟨edge, .connecting⟩ := by
  rw [createSocket, List.getElem?_append] at h
  split at h
  · exact Or.inl h
  · next hge =>
    have hzero : j - s.sockets.length = 0 := by
      have hlt := (List.getElem?_eq_some_iff.mp h).1
      rw [List.length_singleton] at hlt
      omega
    rw [hzero] at h
    exact Or.inr ⟨by omega, (Option.some.inj h).symm⟩

/-! ## The invariant -/

/-- What every socket was told, and which of them is the edge socket. -/
structure Inv (s : ElbsConnection) : Prop where
  said : ∀ i k, s.sockets[i]? = some k → Said k.edge k.state (s.sentTo i)
  fresh : ∀ i, s.sockets.length ≤ i → s.sentTo i = []
  edge : ∀ i, s.sockets[i]? = some ⟨true, .connected⟩ → s.socket = some i
  known : ∀ i, s.socket = some i → ∃ state, state ≠ .connecting ∧ s.sockets[i]? = some ⟨true, state⟩
  trying : ∀ i, s.socket_connecting = some i → ∃ state, s.sockets[i]? = some ⟨true, state⟩

/-- Without sockets nothing was told. -/
theorem inv_initial : Inv initial := by
  constructor
  · intro i k hk
    cases hk
  · exact fun _ _ => rfl
  · intro i hi
    cases hi
  · intro i hi
    cases hi
  · intro i hi
    cases hi

/-- What becomes of the edge sockets that are remembered, when the state of one is set. -/
theorem setState_known {s : ElbsConnection} {i j : Nat} {state : SocketState} (state' : SocketState)
    (h : s.sockets[j]? = some ⟨true, state⟩) :
    (s.setState i state').sockets[j]? = some ⟨true, if i = j then state' else state⟩ := by
  rw [setState, List.getElem?_modify, h]
  split
  · rfl
  · rfl

/-- A change of state makes no sockets. -/
theorem setState_length (i : Nat) (state : SocketState) (s : ElbsConnection) :
    (s.setState i state).sockets.length = s.sockets.length := List.length_modify ..

/-- The edge socket is still known after a change of state. -/
theorem Inv.known_setState {s : ElbsConnection} (h : Inv s) (i : Nat) {state' : SocketState}
    (hstate' : state' ≠ .connecting) {j : Nat} (hj : s.socket = some j) :
    ∃ state, state ≠ .connecting ∧ (s.setState i state').sockets[j]? = some ⟨true, state⟩ := by
  rcases h.known j hj with ⟨state, hstate, hk⟩
  refine ⟨_, ?_, setState_known _ hk⟩
  split
  · exact hstate'
  · exact hstate

/-- So is the one that is tried. -/
theorem Inv.trying_setState {s : ElbsConnection} (h : Inv s) (i : Nat) (state' : SocketState) {j : Nat}
    (hj : s.socket_connecting = some j) :
    ∃ state, (s.setState i state').sockets[j]? = some ⟨true, state⟩ := by
  rcases h.trying j hj with ⟨state, hk⟩
  exact ⟨_, setState_known _ hk⟩

/-- **The first packets**: what a socket is told when it connects is all that was said on it, and nothing
    is said on another one. -/
theorem Inv.greets {s u : ElbsConnection} (h : Inv s) {i : Nat} {edge : Bool} {l : List ElbsSent}
    (hk : s.sockets[i]? = some ⟨edge, .connecting⟩) (hl : Said edge .connected l)
    (hsockets : u.sockets = (s.setState i .connected).sockets)
    (hsent : u.sent = s.sent ++ l.map (Prod.mk i)) :
    (∀ j k, u.sockets[j]? = some k → Said k.edge k.state (u.sentTo j)) ∧
      ∀ j, u.sockets.length ≤ j → u.sentTo j = [] := by
  have hnothing : s.sentTo i = [] := h.said i _ hk
  constructor
  · intro j k' hk'
    rw [hsockets] at hk'
    rw [sentTo_append hsent]
    rcases setState_cases hk' with ⟨hne, hbefore⟩ | ⟨k, rfl, hbefore, rfl⟩
    · rw [if_neg (Ne.symm hne), List.append_nil]
      exact h.said j k' hbefore
    · rw [hk] at hbefore
      cases hbefore
      rw [if_pos rfl, hnothing, List.nil_append]
      exact hl
  · intro j hj
    rw [hsockets, setState_length] at hj
    have hlt := (List.getElem?_eq_some_iff.mp hk).1
    rw [sentTo_append hsent, if_neg (by omega), List.append_nil]
    exact h.fresh j hj

/-- A closed socket has nothing more to say. -/
theorem Inv.close {s : ElbsConnection} (h : Inv s) (i : Nat) : Inv (s.close i) := by
  -- what was said to a socket stays said when it is closed
  constructor
  · intro j k' hk'
    rcases setState_cases hk' with ⟨-, hk⟩ | ⟨k, rfl, hk, rfl⟩
    · exact h.said j k' hk
    · exact (h.said j k hk).closed
  · intro j hj
    rw [ElbsConnection.close, setState_length] at hj
    exact h.fresh j hj
  · intro j hj
    rcases setState_cases hj with ⟨-, hk⟩ | ⟨k, -, -, heq⟩
    · exact h.edge j hk
    · exact SocketState.noConfusion (congrArg EdgeSocket.state heq)
  · exact fun _ => h.known_setState i SocketState.noConfusion
  · exact fun _ => h.trying_setState i .closed

/-- Nothing was said on a new socket. -/
theorem Inv.create {s : ElbsConnection} (h : Inv s) (edge : Bool) : Inv (s.createSocket edge) := by
  have hold : ∀ {j : Nat} {k : EdgeSocket}, s.sockets[j]? = some k →
      (s.createSocket edge).sockets[j]? = some k := by
    intro j k hk
    rw [createSocket, List.getElem?_append_left (List.getElem?_eq_some_iff.mp hk).1]
    exact hk
  constructor
  -- nothing was ever sent to a socket that is new
  · intro j k' hk'
    rcases createSocket_cases hk' with hk | ⟨rfl, rfl⟩
    · exact h.said j k' hk
    · have hnothing : s.sentTo s.sockets.length = [] := h.fresh _ (Nat.le_refl _)
      cases edge with
      | true => exact hnothing
      | false => exact hnothing
  · intro j hj
    rw [createSocket, List.length_append] at hj
    exact h.fresh j (Nat.le_trans (Nat.le_add_right _ _) hj)
  · intro j hj
    rcases createSocket_cases hj with hk | ⟨-, heq⟩
    · exact h.edge j hk
    · cases heq
  · intro j hj
    rcases h.known j hj with ⟨state, hstate, hk⟩
    exact ⟨state, hstate, hold hk⟩
  · intro j hj
    rcases h.trying j hj with ⟨state, hk⟩
    exact ⟨state, hold hk⟩

/-- The attempt to connect to an edge server. -/
theorem Inv.createEdge {s : ElbsConnection} (h : Inv s) :
    Inv { s.createSocket true with socket_connecting := some s.sockets.length } := by
  have hcreated := h.create true
  refine ⟨hcreated.said, hcreated.fresh, hcreated.edge, hcreated.known, ?_⟩
  rintro j ⟨⟩
  refine ⟨.connecting, ?_⟩
  show (s.sockets ++ [_])[s.sockets.length]? = _
  exact List.getElem?_concat_length

/-- A balancer connects, and gets the request. -/
theorem Inv.balancerConnect {s : ElbsConnection} (h : Inv s) {i : Nat} (hi : s.Is i false .connecting) :
    Inv ((s.setState i .connected).onElbsSocketConnect i) := by
  have hk := is_iff.mp hi
  rcases h.greets (u := (s.setState i .connected).onElbsSocketConnect i)
    (l := [.rejoinRequest s.connect_Addr.ip s.connect_Addr.port]) hk ⟨_, _, rfl⟩ rfl rfl with ⟨hsaid, hfresh⟩
  refine ⟨hsaid, hfresh, fun j hj => ?_, fun _ => h.known_setState i SocketState.noConfusion,
    fun _ => h.trying_setState i .connected⟩
  -- the socket that connects is one of a balancer
  rcases setState_cases hj with ⟨-, hbefore⟩ | ⟨k, rfl, hbefore, heq⟩
  · exact h.edge j hbefore
  · rw [hk] at hbefore
    cases hbefore
    cases heq

/-- The new connection takes the place of the old one. -/
def takeOver (i : Nat) (s : ElbsConnection) : ElbsConnection :=
  (({ s.setState i .connected with socket := some i } : ElbsConnection).send i .quitReport).send i
    .connectReport

/-- When no other edge server is connected, the new one gets the two reports. -/
theorem Inv.takeOver {s : ElbsConnection} (h : Inv s) {i : Nat}
    (hk : s.sockets[i]? = some ⟨true, .connecting⟩)
    (hnone : ∀ j : Nat, s.sockets[j]? ≠ some ⟨true, .connected⟩) : Inv (s.takeOver i) := by
  have hsent : (s.takeOver i).sent = s.sent ++ [.quitReport, .connectReport].map (Prod.mk i) :=
    List.append_assoc s.sent [_] [_]
  rcases h.greets (u := s.takeOver i) (l := [.quitReport, .connectReport]) hk ⟨0, rfl⟩ rfl hsent
    with ⟨hsaid, hfresh⟩
  refine ⟨hsaid, hfresh, ?_, ?_, fun _ => h.trying_setState i .connected⟩
  -- no other socket of the edge is connected, so the new one is the only one
  · intro j hj
    rcases setState_cases hj with ⟨-, hbefore⟩ | ⟨k, rfl, -, -⟩
    · exact absurd hbefore (hnone j)
    · rfl
  · rintro j ⟨⟩
    refine ⟨.connected, SocketState.noConfusion, ?_⟩
    have hself := setState_known (i := i) .connected hk
    rwa [if_pos rfl] at hself

/-- **The handover.**  The old connection, if there is one, is closed before the new one takes over. -/
theorem Inv.handover {s : ElbsConnection} (h : Inv s) {i : Nat} (hi : s.Is i true .connecting)
    (htrying : s.socket_connecting = some i) :
    ∃ u : ElbsConnection, Inv u ∧ u.sockets[i]? = some ⟨true, .connecting⟩ ∧
      (∀ j : Nat, u.sockets[j]? ≠ some ⟨true, .connected⟩) ∧ u.sent = s.sent ∧
      (s.setState i .connected).onArgusSocketConnect i true = u.takeOver i := by
  have hk := is_iff.mp hi
  -- the old socket of the edge, if there is one, is closed first
  rcases hsocket : s.socket with _ | old
  · refine ⟨s, h, hk, fun j hj => ?_, rfl, ?_⟩
    · cases hsocket.symm.trans (h.edge j hj)
    · rw [onArgusSocketConnect, ElbsConnection.takeOver]
      simp only [if_true, setState, hsocket, htrying]
  · rcases h.known old hsocket with ⟨state, hstate, hold⟩
    have hne : old ≠ i := by
      rintro rfl
      rw [hk] at hold
      cases hold
      exact hstate rfl
    refine ⟨s.close old, h.close old, ?_, fun j hj => ?_, rfl, ?_⟩
    · have hkept := setState_known (i := old) .closed hk
      rwa [if_neg hne] at hkept
    · have hsame : some old = some j := hsocket.symm.trans ((h.close old).edge j hj)
      cases hsame
      rcases setState_cases hj with ⟨hother, -⟩ | ⟨k, -, -, heq⟩
      · exact hother rfl
      · exact SocketState.noConfusion (congrArg EdgeSocket.state heq)
    · rw [onArgusSocketConnect, ElbsConnection.takeOver]
      simp only [if_true, setState, ElbsConnection.close, hsocket, htrying]
      rw [List.modify_modify_ne _ _ _ hne]

/-- When the edge socket connects, it is the one that was tried last. -/
theorem Inv.edgeConnect {s : ElbsConnection} (h : Inv s) {i : Nat} (hi : s.Is i true .connecting)
    (htrying : s.socket_connecting = some i) :
    Inv ((s.setState i .connected).onArgusSocketConnect i true) := by
  rcases h.handover hi htrying with ⟨u, hu, hk, hnone, -, heq⟩
  rw [heq]
  exact hu.takeOver hk hnone

/-- A socket that connects and is not the one opened last is closed. -/
theorem Inv.edgeReject {s : ElbsConnection} (h : Inv s) (i : Nat) :
    Inv ((s.setState i .connected).onArgusSocketConnect i false) := by
  have hclose : (s.setState i .connected).onArgusSocketConnect i false = s.close i := by
    rw [onArgusSocketConnect, if_neg Bool.false_ne_true, ElbsConnection.close, setState, setState,
      List.modify_modify_eq]
    rfl
  rw [hclose]
  exact h.close i

/-- The timer pings the edge socket that is connected. -/
theorem Inv.timer_pings {s : ElbsConnection} (h : Inv s) {i : Nat} (hi : s.Is i true .connected) :
    s.onArgusTimer = s.send i .ping := by
  have hk := is_iff.mp hi
  rw [onArgusTimer]
  simp only [h.edge i hk, hk]

/-- `socket_` is an edge socket: when none is connected, it is not. -/
theorem Inv.timer_rests {s : ElbsConnection} (h : Inv s) (hnone : ∀ i, ¬ s.Is i true .connected) :
    s.onArgusTimer = s := by
  rw [onArgusTimer]
  split
  · next i hsocket =>
    split
    · next edge hk =>
      rcases h.known i hsocket with ⟨state, -, hedge⟩
      rw [hk] at hedge
      cases hedge
      exact absurd (is_iff.mpr hk) (hnone i)
    · rfl
  · rfl

/-- One ping more is still a report. -/
theorem Reported.ping {l : List ElbsSent} (h : Reported l) : Reported (l ++ [.ping]) := by
  rcases h with ⟨n, rfl⟩
  refine ⟨n + 1, ?_⟩
  rw [List.replicate_succ']
  rfl

/-- A ping, on the edge socket that is connected. -/
theorem Inv.ping {s : ElbsConnection} (h : Inv s) : Inv s.onArgusTimer := by
  -- the ping goes to the connected socket of the edge, or nowhere
  by_cases hping : ∃ i, s.Is i true .connected
  · rcases hping with ⟨i, hi⟩
    have hk := is_iff.mp hi
    rw [h.timer_pings hi]
    have hsent : ∀ j, (s.send i .ping).sentTo j = s.sentTo j ++ if i = j then [.ping] else [] :=
      sentTo_append (l := [.ping]) rfl
    refine ⟨fun j k hj => ?_, fun j hj => ?_, h.edge, h.known, h.trying⟩
    · rw [hsent]
      split
      · next hij =>
        subst hij
        have hj : s.sockets[i]? = some k := hj
        rw [hk] at hj
        cases hj
        exact Reported.ping (h.said i _ hk)
      · rw [List.append_nil]
        exact h.said j k hj
    · have hlt := (List.getElem?_eq_some_iff.mp hk).1
      have hj : s.sockets.length ≤ j := hj
      rw [hsent, if_neg (by omega), List.append_nil]
      exact h.fresh j hj
  · rwa [h.timer_rests fun i hi => hping ⟨i, hi⟩]

/-- A response starts at most another attempt, and tells nobody. -/
theorem Inv.response {s : ElbsConnection} (h : Inv s) (i : Nat) (ip : UInt32) (port : UInt16) (now : Int)
    (created : Bool) : Inv (s.onRejoinResponse i ip port now created) := by
  rw [onRejoinResponse]
  split
  · exact h.close i
  split
  · exact h
  cases created with
  | false =>
    refine Inv.close ?_ i
    exact ⟨h.said, h.fresh, h.edge, h.known, h.trying⟩
  | true =>
    refine Inv.close ?_ i
    have hcreated := h.createEdge
    exact ⟨hcreated.said, hcreated.fresh, hcreated.edge, hcreated.known, hcreated.trying⟩

/-- Joining makes sockets, and tells nobody. -/
theorem Inv.join {s : ElbsConnection} (h : Inv s) (created : List Bool) : Inv (s.joinElbs created) := by
  rw [joinElbs]
  have hclear : Inv { s with elbs_socket := [] } := ⟨h.said, h.fresh, h.edge, h.known, h.trying⟩
  generalize ({ s with elbs_socket := [] } : ElbsConnection) = s₁ at hclear ⊢
  induction created generalizing s₁ with
  | nil => exact hclear
  | cons c cs ih =>
    refine ih _ ?_
    show Inv (s₁.connectElbs c)
    rw [connectElbs]
    split
    · exact hclear
    · have hcreated := hclear.create false
      exact ⟨hcreated.said, hcreated.fresh, hcreated.edge, hcreated.known, hcreated.trying⟩

/-! ## Runs -/

/-- Open sockets have different local addresses: the comparison finds the socket that it looks for. -/
def Distinct (s : ElbsConnection) : Input → Prop
  | .argusConnect i sameLocal => sameLocal = true → s.socket_connecting = some i
  | _ => True

instance (s : ElbsConnection) : (i : Input) → Decidable (s.Distinct i)
  | .argusConnect i sameLocal =>
    inferInstanceAs (Decidable (sameLocal = true → s.socket_connecting = some i))
  | .join _ => inferInstanceAs (Decidable True)
  | .argusTimer => inferInstanceAs (Decidable True)
  | .elbsConnect _ => inferInstanceAs (Decidable True)
  | .elbsClose _ => inferInstanceAs (Decidable True)
  | .argusClose _ => inferInstanceAs (Decidable True)
  | .read _ _ _ _ => inferInstanceAs (Decidable True)

/-- **One event.** -/
theorem next_inv {s : ElbsConnection} (h : Inv s) {i : Input} (henabled : s.Enabled i)
    (hdistinct : s.Distinct i) : Inv (s.next i) := by
  -- one lemma for each handler
  cases i with
  | join created => exact h.join created
  | argusTimer => exact h.ping
  | elbsConnect i => exact h.balancerConnect henabled
  | elbsClose i => exact h.close i
  | argusConnect i sameLocal =>
    cases sameLocal with
    | true => exact h.edgeConnect henabled.1 (hdistinct rfl)
    | false => exact h.edgeReject i
  | argusClose i => exact h.close i
  | read i r now created =>
    rw [next, onResponsePacket]
    split
    · exact h
    · split
      · exact h.response _ _ _ _ _
      · exact h

/-- The invariant holds in every state of a run. -/
theorem run_inv {s : ElbsConnection} {ts : List (ElbsConnection × Input × ElbsConnection)}
    (hrun : Run Step initial ts s) (hdistinct : ∀ x ∈ ts, x.1.Distinct x.2.1) :
    Inv s ∧ ∀ x ∈ ts, Inv x.1 ∧ Inv x.2.2 := by
  have hstep : ∀ s i t, Inv s → Distinct s i → Step s i t → Inv t := by
    rintro s i t hs hok ⟨henabled, rfl⟩
    exact next_inv hs henabled hok
  exact Run.invariant_of hstep hrun inv_initial hdistinct

/-! ## What was said after which events -/

/-- What an event makes the handler say on a socket. -/
inductive Says (s : ElbsConnection) : Input → Nat → List ElbsSent → Prop
  | request {i : Nat} (h : s.Is i false .connecting) :
      Says s (.elbsConnect i) i [.rejoinRequest s.connect_Addr.ip s.connect_Addr.port]
  | reports {i : Nat} (h : s.Is i true .connecting) :
      Says s (.argusConnect i true) i [.quitReport, .connectReport]
  | ping {i : Nat} (h : s.Is i true .connected) : Says s .argusTimer i [.ping]
  | nothing {input : Input} {i : Nat} (hbalancer : ∀ j, input ≠ .elbsConnect j)
      (hedge : ∀ j, input ≠ .argusConnect j true) : Says s input i []

/-- A step tells one socket what the event calls for, and the others nothing. -/
theorem next_says {s : ElbsConnection} (h : Inv s) {input : Input} (henabled : s.Enabled input)
    (hdistinct : s.Distinct input) :
    ∃ i l, Says s input i l ∧ (s.next input).sent = s.sent ++ l.map (Prod.mk i) := by
  -- most handlers send nothing
  have hsilent : (∀ j, input ≠ .elbsConnect j) → (∀ j, input ≠ .argusConnect j true) →
      (s.next input).sent = s.sent →
      ∃ i l, Says s input i l ∧ (s.next input).sent = s.sent ++ l.map (Prod.mk i) :=
    fun hbalancer hedge hsent => ⟨0, [], .nothing hbalancer hedge, by simpa using hsent⟩
  cases input with
  | join created => exact hsilent (by simp) (by simp) (joinElbs_sent created s)
  | elbsConnect i => exact ⟨i, _, .request henabled, rfl⟩
  | elbsClose i => exact hsilent (by simp) (by simp) rfl
  | argusClose i => exact hsilent (by simp) (by simp) rfl
  | read i r now created =>
    refine hsilent (by simp) (by simp) ?_
    rw [next, onResponsePacket]
    split
    · rfl
    · split
      · exact onRejoinResponse_sent _ _ _ _ _ _
      · rfl
  | argusConnect i sameLocal =>
    cases sameLocal with
    | false => exact hsilent (by simp) (by simp) rfl
    | true =>
      rcases h.handover henabled.1 (hdistinct rfl) with ⟨u, -, -, -, hsent, heq⟩
      have hnext : s.next (.argusConnect i true) = u.takeOver i := heq
      refine ⟨i, _, .reports henabled.1, ?_⟩
      rw [hnext, ← hsent]
      exact List.append_assoc u.sent [_] [_]
  | argusTimer =>
    by_cases hping : ∃ i, s.Is i true .connected
    · rcases hping with ⟨i, hi⟩
      exact ⟨i, _, .ping hi, congrArg ElbsConnection.sent (h.timer_pings hi)⟩
    · exact hsilent (by simp) (by simp)
        (congrArg ElbsConnection.sent (h.timer_rests fun i hi => hping ⟨i, hi⟩))

/-- After these events this was said on the socket `i`. -/
structure Told (events : List Input) (i : Nat) (l : List ElbsSent) : Prop where
  balancer : .elbsConnect i ∈ events → Requested l
  edge : .argusConnect i true ∈ events → Reported l
  other : .elbsConnect i ∉ events → .argusConnect i true ∉ events → l = []

/-- A silent socket was asked for nothing. -/
theorem not_requested_nil : ¬ Requested [] := by
  rintro ⟨ip, port, h⟩
  cases h

/-- A silent socket got no report. -/
theorem not_reported_nil : ¬ Reported [] := by
  rintro ⟨n, h⟩
  cases h

namespace Told

variable {events : List Input} {input : Input} {i : Nat} {l : List ElbsSent}

/-- An event of another socket. -/
theorem same (h : Told events i l) (hbalancer : input ≠ .elbsConnect i)
    (hedge : input ≠ .argusConnect i true) : Told (events ++ [input]) i l := by
  have hold : ∀ {x : Input}, input ≠ x → x ∈ events ++ [input] → x ∈ events := fun hne hx =>
    (List.mem_append.mp hx).resolve_right fun hlast => hne (List.mem_singleton.mp hlast).symm
  exact ⟨fun hx => h.balancer (hold hbalancer hx), fun hx => h.edge (hold hedge hx),
    fun hb he => h.other (fun hx => hb (List.mem_append_left _ hx))
      fun hx => he (List.mem_append_left _ hx)⟩

/-- A balancer connects on a socket on which nothing was said. -/
theorem request (h : Told events i []) (hl : Requested l) : Told (events ++ [.elbsConnect i]) i l := by
  refine ⟨fun _ => hl, fun hx => ?_, fun hb _ => absurd (by simp) hb⟩
  refine absurd (h.edge ?_) not_reported_nil
  simpa using hx

/-- A socket that connects is told what a report needs. -/
theorem reports (h : Told events i []) (hl : Reported l) :
    Told (events ++ [.argusConnect i true]) i l := by
  refine ⟨fun hx => ?_, fun _ => hl, fun _ he => absurd (by simp) he⟩
  refine absurd (h.balancer ?_) not_requested_nil
  simpa using hx

/-- Only an edge server has got the reports. -/
theorem ping (h : Told events i l) (hl : Reported l) : Told events i (l ++ [.ping]) := by
  refine ⟨fun hx => ?_, fun _ => hl.ping, fun hb he => ?_⟩
  · rcases hl with ⟨n, rfl⟩
    rcases h.balancer hx with ⟨ip, port, heq⟩
    cases heq
  · rw [h.other hb he] at hl
    exact absurd hl not_reported_nil

end Told

/-- **One event more.**  A socket that connects was told nothing before; one that is pinged has got the
    reports. -/
theorem next_told {events : List Input} {s : ElbsConnection} (h : ∀ i, Told events i (s.sentTo i))
    (hinv : Inv s) {input : Input} (henabled : s.Enabled input) (hdistinct : s.Distinct input) (i : Nat) :
    Told (events ++ [input]) i ((s.next input).sentTo i) := by
  rcases next_says hinv henabled hdistinct with ⟨j, l, hsays, hsent⟩
  rw [sentTo_append hsent i]
  -- only the socket that was sent to is told more
  cases hsays with
  | request hj =>
    by_cases hij : j = i
    · subst hij
      have hnothing : s.sentTo j = [] := hinv.said j _ (is_iff.mp hj)
      rw [if_pos rfl, hnothing]
      exact (hnothing ▸ h j).request ⟨_, _, rfl⟩
    · rw [if_neg hij, List.append_nil]
      refine (h i).same (fun heq => hij ?_) (by simp)
      cases heq
      rfl
  | reports hj =>
    by_cases hij : j = i
    · subst hij
      have hnothing : s.sentTo j = [] := hinv.said j _ (is_iff.mp hj)
      rw [if_pos rfl, hnothing]
      exact (hnothing ▸ h j).reports ⟨0, rfl⟩
    · rw [if_neg hij, List.append_nil]
      refine (h i).same (by simp) fun heq => hij ?_
      cases heq
      rfl
  | ping hj =>
    by_cases hij : j = i
    · subst hij
      have hreported : Reported (s.sentTo j) := hinv.said j _ (is_iff.mp hj)
      rw [if_pos rfl]
      exact ((h j).ping hreported).same (by simp) (by simp)
    · rw [if_neg hij, List.append_nil]
      exact (h i).same (by simp) (by simp)
  | nothing hbalancer hedge =>
    rw [ite_self, List.append_nil]
    exact (h i).same (hbalancer i) (hedge i)

/-- Along a run, with the events so far. -/
theorem run_told {s : ElbsConnection} {ts : List (ElbsConnection × Input × ElbsConnection)}
    (hrun : Run Step initial ts s) (hdistinct : ∀ x ∈ ts, x.1.Distinct x.2.1) (i : Nat) :
    Told (ts.map fun x => x.2.1) i (s.sentTo i) := by
  induction hrun generalizing i with
  | nil => exact ⟨fun h => absurd h List.not_mem_nil, fun h => absurd h List.not_mem_nil, fun _ _ => rfl⟩
  | @snoc t u ts input hbefore hstep ih =>
    have hearlier : ∀ x ∈ ts, x.1.Distinct x.2.1 := fun x hx =>
      hdistinct x (List.mem_append_left _ hx)
    have hlast : t.Distinct input := hdistinct (t, input, u) (by simp)
    rcases hstep with ⟨henabled, rfl⟩
    rw [List.map_append]
    exact next_told (ih hearlier) (run_inv hbefore hearlier).1 henabled hlast i

/-- **What is said on the sockets.**  In every run in which open sockets have different local addresses:
    at most one edge server is connected, and it is `socket_`; an edge server that connected on the
    socket opened last got the two reports and after them nothing but pings; a balancer that connected
    got one request, and nothing else; nothing was said on any other socket. -/
theorem edge_conversation {s : ElbsConnection} {ts : List (ElbsConnection × Input × ElbsConnection)}
    (hrun : Run Step initial ts s) (hdistinct : ∀ x ∈ ts, x.1.Distinct x.2.1) :
    (∀ i j, s.Is i true .connected → s.Is j true .connected → i = j) ∧
      (∀ i, s.Is i true .connected → s.socket = some i) ∧
      ∀ i, Told (ts.map fun x => x.2.1) i (s.sentTo i) := by
  have hinv := run_inv hrun hdistinct
  refine ⟨fun i j hi hj => ?_, fun i hi => hinv.1.edge i (is_iff.mp hi), run_told hrun hdistinct⟩
  have hsame := (hinv.1.edge i (is_iff.mp hi)).symm.trans (hinv.1.edge j (is_iff.mp hj))
  exact Option.some.inj hsame

/-- A balancer names an edge server, which connects and is pinged. -/
def sampleEdge : List Input := sampleJoin ++ [.read 0 sampleRead 5000 true, .argusConnect 1 true, .argusTimer]

theorem edge_conversation_sample :
    (sampleEdge.foldl next initial).socket = some 1 ∧ Reported ((sampleEdge.foldl next initial).sentTo 1) := by
  have hrun : Run Step initial (trace next initial sampleEdge) (sampleEdge.foldl next initial) :=
    Run.of_inputs Enabled next (by decide)
  rcases edge_conversation hrun (by decide) with ⟨-, hsocket, hsaid⟩
  exact ⟨hsocket 1 (by decide), (hsaid 1).edge (List.mem_of_getElem? (i := 3) rfl)⟩

/-- **What is said, and when.**  In every step of such a run: a balancer that connects is told the edge
    server of the last attempt; an edge server that connects on the socket opened last gets the two
    reports, and is the only one connected then; the timer pings the edge server that is connected, and
    does nothing when none is. -/
theorem told_balancers_and_edge {s : ElbsConnection}
    {ts : List (ElbsConnection × Input × ElbsConnection)} (hrun : Run Step initial ts s)
    (hdistinct : ∀ x ∈ ts, x.1.Distinct x.2.1) : ∀ x ∈ ts,
      (∀ i, x.2.1 = .elbsConnect i → x.2.2.sent = x.1.sent ++
        [(i, .rejoinRequest (lastAttempted x.1.attempts).ip (lastAttempted x.1.attempts).port)]) ∧
      (∀ i, x.2.1 = .argusConnect i true →
        x.2.2.sent = x.1.sent ++ [(i, .quitReport), (i, .connectReport)] ∧
        ∀ j, x.2.2.Is j true .connected ↔ j = i) ∧
      (x.2.1 = .argusTimer →
        (∀ i, x.1.Is i true .connected → x.2.2.sent = x.1.sent ++ [(i, .ping)]) ∧
        ((∀ i, ¬x.1.Is i true .connected) → x.2.2 = x.1)) := by
  rintro ⟨t, i, u⟩ hx
  have hinv := ((run_inv hrun hdistinct).2 _ hx).1
  have hremembers : t.Remembers := by
    have hstep : ∀ s i t, Remembers s → Step s i t → Remembers t := by
      rintro s i t hs ⟨-, rfl⟩
      exact next_remembers hs i
    exact ((Run.invariant hstep hrun rfl).2 _ hx).1
  rcases hrun.step_of_mem _ hx with ⟨henabled, hu⟩
  dsimp only at hinv henabled hu hremembers ⊢
  subst hu
  rcases next_says hinv henabled (hdistinct _ hx) with ⟨k, l, hsays, hsent⟩
  refine ⟨?_, ?_, ?_⟩
  · rintro i rfl
    cases hsays with
    | request _ =>
      rw [hsent, show t.connect_Addr = lastAttempted t.attempts from hremembers]
      rfl
    | nothing hbalancer _ => exact absurd rfl (hbalancer i)
  · rintro i rfl
    constructor
    · cases hsays with
      | reports _ => exact hsent
      | nothing _ hedge => exact absurd rfl (hedge i)
    · rcases hinv.handover henabled.1 (hdistinct _ hx rfl) with ⟨v, hv, hk, hnone, -, heq⟩
      have hnext : t.next (.argusConnect i true) = v.takeOver i := heq
      rw [hnext]
      intro j
      constructor
      · intro hj
        exact (Option.some.inj ((hv.takeOver hk hnone).edge j (is_iff.mp hj))).symm
      · rintro rfl
        have hself := setState_known (i := j) .connected hk
        rw [if_pos rfl] at hself
        exact is_iff.mpr hself
  · rintro rfl
    exact ⟨fun i hi => congrArg ElbsConnection.sent (hinv.timer_pings hi), hinv.timer_rests⟩

theorem told_balancers_and_edge_sample :
    ∃ x ∈ trace next initial sampleEdge, ∀ j, x.2.2.Is j true .connected ↔ j = 1 := by
  have hrun : Run Step initial (trace next initial sampleEdge) (sampleEdge.foldl next initial) :=
    Run.of_inputs Enabled next (by decide)
  refine ⟨_, List.mem_of_getElem? (i := 3) rfl, fun j => ?_⟩
  exact ((told_balancers_and_edge hrun (by decide) _ (List.mem_of_getElem? (i := 3) rfl)).2.1 1 rfl).2 j

end ElbsConnection

end Turnserver
