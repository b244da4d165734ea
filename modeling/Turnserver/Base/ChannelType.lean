/-
  CHANNELS (`base/channel_type.h`, `base/channel_type.cpp`) — comparison by a hash that is kept.

  A `ChannelType` keeps the hash of its vendor id and its name, and all comparisons look at the hash
  first.  `CityHash64` is whatever it is.

  * `channel_order`: the order is strict and total up to `==`, for all objects, since it compares the
    hash, the id and the name in turn;
  * `Made`: in every run an object has the hash of its fields, or it was made by the default
    constructor, which sets the hash to 0;
  * `channel_iff`: so `==` means the same channel exactly when no object of the default constructor
    meets one that was made for id 0 and the empty name.
-/
import Turnserver.Lib.Bytes
import Turnserver.Lib.KeyOrder
import Turnserver.Lib.Transition

namespace Turnserver

open Bytes KeyOrder Transition

/-- A `ChannelType`: the two members of `ChannelInfo`, and the hash that was computed of them. -/
structure ChannelType where
  vid_ : UInt32
  cname_ : List UInt8
  hash_val_ : UInt64
  deriving DecidableEq

namespace ChannelType

/-- `std::pair<uint32_t, std::string>`: the vendor id and the name of a channel. -/
abbrev ChannelInfo := UInt32 × List UInt8

/-- `ChannelType()` -/
def new : ChannelType := ⟨0, [], 0⟩

/-- `CalculateHash`: the bytes of the name, and then the four bytes of the id. -/
def calculateHash (CityHash64 : List UInt8 → UInt64) (c : ChannelType) : ChannelType :=
  { c with hash_val_ := CityHash64 (c.cname_ ++ leBytes 4 c.vid_.toNat) }

/-- `ChannelType(vid, cname)` -/
def ofName (CityHash64 : List UInt8 → UInt64) (vid : UInt32) (cname : List UInt8) : ChannelType :=
  calculateHash CityHash64 ⟨vid, cname, 0⟩

/-- `ChannelType(c)` -/
def ofInfo (CityHash64 : List UInt8 → UInt64) (c : ChannelInfo) : ChannelType :=
  calculateHash CityHash64 ⟨c.1, c.2, 0⟩

/-- `unique_name()` -/
def uniqueName (c : ChannelType) : ChannelInfo := (c.vid_, c.cname_)

/-- `GetHash()` -/
def getHash (c : ChannelType) : UInt64 := c.hash_val_

/-- `operator==` -/
def equal (a b : ChannelType) : Bool :=
  a.hash_val_ == b.hash_val_ && a.vid_ == b.vid_ && a.cname_ == b.cname_

/-- `operator<` -/
def lessThan (a b : ChannelType) : Bool :=
  a.hash_val_ < b.hash_val_ || (a.hash_val_ == b.hash_val_ && a.vid_ < b.vid_) ||
    (a.hash_val_ == b.hash_val_ && a.vid_ == b.vid_ && a.cname_ < b.cname_)

/-! ## Runs -/

/-- What a program does with its channels, which are numbered. -/
inductive Act
  | default
  | ofName (vid : UInt32) (cname : List UInt8)
  | ofInfo (c : ChannelInfo)
  | copy (i : Nat)
  | move (i : Nat)
  | copyAssign (i j : Nat)
  | moveAssign (i j : Nat)
  | destroy (i : Nat)

/-- The channels; `none` is one that is gone, or that was moved from and has no value of its own. -/
abbrev Channels := List (Option ChannelType)

/-- The channel `i`, if it is live. -/
def channel (s : Channels) (i : Nat) : Option ChannelType := s[i]?.join

/-- What an act does to the objects that exist; `none` where it names an object that does not. -/
def Act.perform (CityHash64 : List UInt8 → UInt64) (s : Channels) : Act → Option Channels
  | .default => some (s ++ [some new])
  | .ofName vid cname => some (s ++ [some (.ofName CityHash64 vid cname)])
  | .ofInfo c => some (s ++ [some (.ofInfo CityHash64 c)])
  | .copy i => (channel s i).map fun c => s ++ [some c]
  | .move i => (channel s i).map fun c => s.set i none ++ [some c]
  | .copyAssign i j => (channel s j).map fun c => s.set i (some c)
  | .moveAssign i j => (channel s j).map fun c => (s.set i (some c)).set j none
  | .destroy i => some (s.set i none)

/-- The objects after an act that is possible. -/
def Step (CityHash64 : List UInt8 → UInt64) (s : Channels) (act : Act) (s' : Channels) : Prop :=
  act.perform CityHash64 s = some s'

/-! ## The order -/

/-- What decides between two channels, the most important first. -/
def key (c : ChannelType) : List Nat :=
  c.hash_val_.toNat :: c.vid_.toNat :: c.cname_.map UInt8.toNat

/-- The pair that the comparisons look at determines the channel. -/
theorem key_inj {a b : ChannelType} : a.key = b.key ↔ a = b := by
  refine ⟨fun h => ?_, fun h => h ▸ rfl⟩
  cases a
  cases b
  simp only [key, List.cons.injEq, UInt64.toNat_inj, UInt32.toNat_inj] at h
  obtain ⟨rfl, rfl, hname⟩ := h
  rw [List.map_injective_iff.mpr (fun x y => UInt8.toNat_inj.mp) hname]

/-- `==` compares what identifies a channel. -/
theorem equal_iff {a b : ChannelType} : a.equal b = true ↔ a = b := by
  cases a
  cases b
  simp only [equal, Bool.and_eq_true, beq_iff_eq, ChannelType.mk.injEq]
  tauto

/-- `<` is the order of these pairs. -/
theorem lessThan_iff {a b : ChannelType} : a.lessThan b = true ↔ a.key < b.key := by
  simp only [lessThan, key, List.cons_lt_cons_iff, Bool.or_eq_true, Bool.and_eq_true,
    decide_eq_true_iff, beq_iff_eq, UInt64.lt_iff_toNat_lt, UInt32.lt_iff_toNat_lt,
    UInt64.toNat_inj, UInt32.toNat_inj,
    map_lt_map (fun x y => UInt8.toNat_inj.mp) (fun x y => UInt8.lt_iff_toNat_lt.symm)]
  tauto

/-- **The order is total up to `==`**, whatever hash the objects have. -/
theorem channel_order :
    StrictTotal (fun a b : ChannelType => a.lessThan b = true) fun a b => a.equal b = true :=
  StrictTotal.of_key key (fun _ _ => lessThan_iff) fun _ _ => equal_iff.trans key_inj.symm

/-! ## The objects of a run -/

variable {CityHash64 : List UInt8 → UInt64}

/-- An object of the default constructor, or one with the hash of its fields. -/
def Made (CityHash64 : List UInt8 → UInt64) (c : ChannelType) : Prop :=
  c = new ∨ ∃ info, c = ofInfo CityHash64 info

/-- All live channels are. -/
def AllMade (CityHash64 : List UInt8 → UInt64) (s : Channels) : Prop :=
  ∀ c, some c ∈ s → Made CityHash64 c

/-- A channel that can be named is one of those that exist. -/
theorem mem_of_channel {s : Channels} {i : Nat} {c : ChannelType} (h : channel s i = some c) :
    some c ∈ s :=
  List.mem_of_getElem? (Option.join_eq_some_iff.mp h)

/-- One more channel, made as they all are. -/
theorem AllMade.append {s : Channels} (hs : AllMade CityHash64 s) {c : ChannelType}
    (hc : Made CityHash64 c) : AllMade CityHash64 (s ++ [some c]) := by
  intro x hx
  rcases List.mem_append.mp hx with hx | hx
  · exact hs x hx
  · cases List.mem_singleton.mp hx
    exact hc

/-- A channel in the place of another. -/
theorem AllMade.set {s : Channels} (hs : AllMade CityHash64 s) (i : Nat) {o : Option ChannelType}
    (ho : ∀ c, o = some c → Made CityHash64 c) : AllMade CityHash64 (s.set i o) := by
  intro x hx
  rcases List.mem_or_eq_of_mem_set hx with hx | hx
  · exact hs x hx
  · exact ho x hx.symm

/-- A channel that was destroyed. -/
theorem AllMade.set_none {s : Channels} (hs : AllMade CityHash64 s) (i : Nat) :
    AllMade CityHash64 (s.set i none) :=
  hs.set i fun c h => by cases h

/-- A step makes objects only by a constructor, or from a live object. -/
theorem AllMade.step {s s' : Channels} {act : Act} (hs : AllMade CityHash64 s)
    (h : Step CityHash64 s act s') : AllMade CityHash64 s' := by
  -- what an act reads was made before
  have hlive : ∀ {i c}, channel s i = some c → Made CityHash64 c := fun h => hs _ (mem_of_channel h)
  cases act with
  | default =>
    cases h
    exact hs.append (Or.inl rfl)
  | ofName vid cname =>
    cases h
    exact hs.append (Or.inr ⟨(vid, cname), rfl⟩)
  | ofInfo c =>
    cases h
    exact hs.append (Or.inr ⟨c, rfl⟩)
  | copy i =>
    obtain ⟨c, hc, rfl⟩ := Option.map_eq_some_iff.mp h
    exact hs.append (hlive hc)
  | move i =>
    obtain ⟨c, hc, rfl⟩ := Option.map_eq_some_iff.mp h
    -- the moved-from object goes
    exact (hs.set_none i).append (hlive hc)
  | copyAssign i j =>
    obtain ⟨c, hc, rfl⟩ := Option.map_eq_some_iff.mp h
    exact hs.set i fun x hx => Option.some_inj.mp hx ▸ hlive hc
  | moveAssign i j =>
    obtain ⟨c, hc, rfl⟩ := Option.map_eq_some_iff.mp h
    exact (hs.set i fun x hx => Option.some_inj.mp hx ▸ hlive hc).set_none j
  | destroy i =>
    cases h
    exact hs.set_none i

/-- In a run every channel is made by a constructor, or is a copy of one. -/
theorem AllMade.run {s : Channels} {ts : List (Channels × Act × Channels)}
    (h : Run (Step CityHash64) [] ts s) : AllMade CityHash64 s :=
  (h.invariant (fun _ _ _ (hs : AllMade CityHash64 _) hstep => hs.step hstep)
    fun _ hc => absurd hc List.not_mem_nil).1

/-! ## What the comparison means -/

/-- Comparison of the live channels means identity, and fits the order and the hash. -/
structure Law (s : Channels) : Prop where
  identity : ∀ a b, some a ∈ s → some b ∈ s → (a.equal b = true ↔ a.uniqueName = b.uniqueName)
  hash : ∀ a b, some a ∈ s → some b ∈ s → a.equal b = true → a.getHash = b.getHash
  order : StrictTotal (fun a b : ChannelType => a.lessThan b = true) fun a b => a.equal b = true
  incomparable : ∀ a b : ChannelType,
    (¬ a.lessThan b = true ∧ ¬ b.lessThan a = true) ↔ a.equal b = true

/-- The four zero bytes hash to 0, or no object of the default constructor is live together with one
    that was made for id 0 and the empty name. -/
def Fits (CityHash64 : List UInt8 → UInt64) (s : Channels) : Prop :=
  CityHash64 [0, 0, 0, 0] = 0 ∨ ¬(some new ∈ s ∧ some (ofName CityHash64 0 []) ∈ s)

/-- Objects with the hash of their fields are the same when their fields are. -/
theorem identity_ofInfo (info info' : ChannelInfo) :
    ofInfo CityHash64 info = ofInfo CityHash64 info' ↔
      (ofInfo CityHash64 info).uniqueName = (ofInfo CityHash64 info').uniqueName := by
  constructor
  · intro h
    rw [h]
  · intro (h : info = info')
    rw [h]

/-- The default constructor makes what the other one makes for id 0 and the empty name, up to the
    hash. -/
theorem new_eq_iff (info : ChannelInfo) :
    new = ofInfo CityHash64 info ↔ info = (0, []) ∧ CityHash64 [0, 0, 0, 0] = 0 := by
  constructor
  · intro h
    obtain ⟨vid, cname⟩ := info
    have hvid : 0 = vid := congrArg vid_ h
    have hname : [] = cname := congrArg cname_ h
    have hhash : 0 = CityHash64 (cname ++ leBytes 4 vid.toNat) := congrArg hash_val_ h
    subst hvid
    subst hname
    exact ⟨rfl, hhash.symm⟩
  · rintro ⟨rfl, hhash⟩
    exact congrArg (ChannelType.mk 0 []) hhash.symm

/-- Where no hash misleads, equal channels are those with the same name. -/
theorem identity_of_fits {s : Channels} (hs : AllMade CityHash64 s) (hfits : Fits CityHash64 s)
    {a b : ChannelType} (ha : some a ∈ s) (hb : some b ∈ s) :
    a.equal b = true ↔ a.uniqueName = b.uniqueName := by
  -- the only two different objects of one name are the ones that the condition is about
  have hzero : ∀ info, some new ∈ s → some (ofInfo CityHash64 info) ∈ s →
      info = (0, []) → CityHash64 [0, 0, 0, 0] = 0 := by
    rintro info hnew hinfo rfl
    exact hfits.resolve_right fun h => h ⟨hnew, hinfo⟩
  rw [equal_iff]
  rcases hs a ha with rfl | ⟨info, rfl⟩
  · rcases hs b hb with rfl | ⟨info', rfl⟩
    · exact iff_of_true rfl rfl
    · rw [new_eq_iff]
      exact ⟨fun h => h.1.symm, fun h => ⟨Eq.symm h, hzero info' ha hb (Eq.symm h)⟩⟩
  · rcases hs b hb with rfl | ⟨info', rfl⟩
    · rw [eq_comm, new_eq_iff]
      exact ⟨fun h => h.1, fun h => ⟨h, hzero info hb ha h⟩⟩
    · exact identity_ofInfo info info'

/-- **Exactly when comparison means identity**, in every state of every run. -/
theorem channel_iff (CityHash64 : List UInt8 → UInt64) {ts : List (Channels × Act × Channels)} {s : Channels}
    (h : Run (Step CityHash64) [] ts s) : Law s ↔ Fits CityHash64 s := by
  constructor
  · intro hlaw
    by_contra hnot
    rw [Fits, not_or, not_not] at hnot
    obtain ⟨hhash, hnew, hzero⟩ := hnot
    have heq := equal_iff.mp ((hlaw.identity _ _ hnew hzero).mpr rfl)
    exact hhash ((new_eq_iff (0, [])).mp heq).2
  · intro hfits
    refine ⟨fun a b => identity_of_fits (AllMade.run h) hfits, fun a b _ _ heq => ?_,
      channel_order, channel_order.incomparable_iff⟩
    rw [equal_iff.mp heq]

/-- A run that makes two channels. -/
theorem run_two (CityHash64 : List UInt8 → UInt64) (vid : UInt32) (cname : List UInt8) :
    ∃ ts, Run (Step CityHash64) [] ts [some new, some (ofName CityHash64 vid cname)] := by
  have hnew : Step CityHash64 [] .default [some new] := rfl
  have hname : Step CityHash64 [some new] (.ofName vid cname)
      [some new, some (ofName CityHash64 vid cname)] := rfl
  exact ⟨_, (Run.single hnew).append (Run.single hname)⟩

/-- With a hash that is 1 for all bytes, the condition holds for two channels of different names. -/
theorem channel_iff_two : Law [some new, some (ofName (fun _ => 1) 7 [65])] := by
  obtain ⟨ts, hrun⟩ := run_two (fun _ => 1) 7 [65]
  refine (channel_iff (fun _ => 1) hrun).mpr (Or.inr ?_)
  rintro ⟨-, hmem⟩
  revert hmem
  decide

/-- With that hash `ChannelType()` and `ChannelType(0, "")` have one name and are not `==`. -/
theorem channel_fails :
    (∃ ts, Run (Step fun _ => 1) [] ts [some new, some (ofName (fun _ => 1) 0 [])]) ∧
      ¬ Law [some new, some (ofName (fun _ => 1) 0 [])] ∧
      new.uniqueName = (ofName (fun _ => 1) 0 []).uniqueName ∧
      new.equal (ofName (fun _ => 1) 0 []) = false := by
  refine ⟨run_two (fun _ => 1) 0 [], fun hlaw => ?_, rfl, by decide⟩
  have h := (hlaw.identity new (ofName (fun _ => 1) 0 []) (by decide) (by decide)).mpr rfl
  revert h
  decide

end ChannelType

end Turnserver
