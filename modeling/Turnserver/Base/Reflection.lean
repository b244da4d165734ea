/-
  REFLECTED TYPES (`base/compile_time_utility.h`, 20–48; `base/reflection.hpp`, 679–778) — the index of
  a member by its name.

  `GenSequence<N>` is built from two halves, the second one moved behind the first.  `GetId` goes
  through it from the front and compares the names of the members as views, with the `==` that also
  looks at the byte behind both of them.
  * `genSequence_eq` — the halves make up 0, 1, ..., N-1, and no element is narrowed on the way;
  * `equal_view` — a name that a NUL stands behind is compared exactly with the name of a member;
  * `getIdIsSame_eq` — the search finds the first index of the sequence whose name is the same;
  * `reflection_exact` — so `GetId` is exact, and undoes `GetName`.
-/
import Mathlib.Order.Bounds.Basic
import Turnserver.Base.StringRef

namespace Turnserver

/-! ## Sequences -/

/-- An argument for a `uint32_t` of a template: a value that has to be narrowed is refused. -/
def templateArgument (n : Nat) : Option UInt32 := if n < 2 ^ 32 then some (.ofNat n) else none

/-- `_ConcatSequence` -/
def concatSequence (s₁ s₂ : List UInt32) : Option (List UInt32) := do
  let moved ← s₂.mapM fun i => templateArgument (s₁.length + i.toNat)
  pure (s₁ ++ moved)

/-- Two halves of a number from 2 on -/
theorem halves {n : UInt32} (h0 : n ≠ 0) (h1 : n ≠ 1) :
    2 ≤ n.toNat ∧ (n / 2).toNat = n.toNat / 2 ∧
      (n - n / 2).toNat = n.toNat - n.toNat / 2 := by
  have h0' : n.toNat ≠ 0 := fun h => h0 (UInt32.toNat_inj.mp h)
  have h1' : n.toNat ≠ 1 := fun h => h1 (UInt32.toNat_inj.mp h)
  have hdiv : (n / 2).toNat = n.toNat / 2 := UInt32.toNat_div n 2
  have hle : n / 2 ≤ n := UInt32.le_iff_toNat_le.mpr (by omega)
  refine ⟨by omega, hdiv, ?_⟩
  rw [UInt32.toNat_sub_of_le _ _ hle, hdiv]

/-- `_GenSequence` -/
def genSequence (n : UInt32) : Option (List UInt32) :=
  if n = 0 then some []
  else if n = 1 then some [0]
  else do
    let s₁ ← genSequence (n / 2)
    let s₂ ← genSequence (n - n / 2)
    concatSequence s₁ s₂
termination_by n.toNat
decreasing_by
  all_goals
    next h0 h1 =>
      have := halves h0 h1
      omega

/-- The numbers below `n` -/
def below (n : Nat) : List UInt32 := (List.range n).map UInt32.ofNat

/-- Adding a constant to all indices, where none of them passes 2^32. -/
theorem mapM_templateArgument {k : Nat} {s : List UInt32}
    (h : ∀ i ∈ s, k + i.toNat < 2 ^ 32) :
    s.mapM (fun i => templateArgument (k + i.toNat)) =
      some (s.map fun i => UInt32.ofNat (k + i.toNat)) := by
  induction s with
  | nil => rfl
  | cons i s ih =>
    obtain ⟨hi, hs⟩ := List.forall_mem_cons.mp h
    rw [List.mapM_cons, ih hs, templateArgument, if_pos hi]
    rfl

/-- There are `n` indices below `n`. -/
theorem length_below (n : Nat) : (below n).length = n := by
  rw [below, List.length_map, List.length_range]

/-- Each of them is below `n`. -/
theorem toNat_of_mem_below {n : Nat} (h : n ≤ 2 ^ 32) {i : UInt32} (hi : i ∈ below n) :
    i.toNat < n := by
  obtain ⟨j, hj, rfl⟩ := List.mem_map.mp hi
  have hjn := List.mem_range.mp hj
  rw [UInt32.toNat_ofNat', Nat.mod_eq_of_lt (by omega)]
  exact hjn

/-- The sequences of the two halves make the sequence of the whole. -/
theorem concatSequence_below {m n : Nat} (h : m + n ≤ 2 ^ 32) :
    concatSequence (below m) (below n) = some (below (m + n)) := by
  have hfits : ∀ i ∈ below n, m + i.toNat < 2 ^ 32 := by
    intro i hi
    have := toNat_of_mem_below (by omega) hi
    omega
  -- the second half, moved behind the first
  have hmoved : (below n).map (fun i => UInt32.ofNat (m + i.toNat)) =
      (List.range n).map fun j => UInt32.ofNat (m + j) := by
    rw [below, List.map_map]
    refine List.map_congr_left fun j hj => ?_
    have hjn := List.mem_range.mp hj
    show UInt32.ofNat (m + (UInt32.ofNat j).toNat) = _
    rw [UInt32.toNat_ofNat', Nat.mod_eq_of_lt (by omega)]
  rw [concatSequence, length_below, mapM_templateArgument hfits, hmoved]
  show some (below m ++ _) = _
  rw [below, below, List.range_add, List.map_append, List.map_map]
  rfl

/-- **`GenSequence<N>` is the list 0, 1, ..., N-1.** -/
theorem genSequence_eq (n : UInt32) : genSequence n = some (below n.toNat) := by
  induction n using genSequence.induct with
  | case1 => rw [genSequence, if_pos rfl]; rfl
  | case2 h0 => rw [genSequence, if_neg h0, if_pos rfl]; rfl
  | case3 n h0 h1 ih₁ ih₂ =>
    obtain ⟨htwo, hdiv, hsub⟩ := halves h0 h1
    have hlt := n.toNat_lt
    have hconcat := concatSequence_below (m := n.toNat / 2) (n := n.toNat - n.toNat / 2) (by omega)
    rw [Nat.add_sub_cancel' (Nat.div_le_self _ _)] at hconcat
    rw [genSequence, if_neg h0, if_neg h1, ih₁, ih₂, hdiv, hsub]
    exact hconcat

/-! ## Reflected types -/

/-- A letter or an underscore -/
def isNondigit (c : UInt8) : Bool :=
  c.toNat = 95 || (65 ≤ c.toNat && c.toNat ≤ 90) || (97 ≤ c.toNat && c.toNat ≤ 122)

/-- A decimal digit. -/
def isDecimal (c : UInt8) : Bool := 48 ≤ c.toNat && c.toNat ≤ 57

/-- Whether `s` is the text of a C identifier -/
def isIdentifier : List UInt8 → Bool
  | [] => false
  | c :: s => isNondigit c && s.all fun d => isNondigit d || isDecimal d

/-- The name of a member.  The length of its literal is a `uint32_t`. -/
structure Identifier where
  text : List UInt8
  valid : isIdentifier text = true
  short : text.length < 2 ^ 32

/-- `__ADD_VIEW(ele)`: the view of the literal `#ele` -/
def Identifier.view (i : Identifier) : StringRef := .ofLiteral i.text i.short

/-- No name contains a NUL. -/
theorem Identifier.zero_notMem (i : Identifier) : 0 ∉ i.text := by
  obtain ⟨text, valid, -⟩ := i
  cases text with
  | nil => exact List.not_mem_nil
  | cons c s =>
    rw [isIdentifier, Bool.and_eq_true, List.all_eq_true] at valid
    intro h0
    rcases List.mem_cons.mp h0 with rfl | h0
    · exact absurd valid.1 (by decide)
    · exact absurd (valid.2 0 h0) (by decide)

/-- The members that `__REFLECTION` declares.  Its macros count up to 119 of them; all that is used is
    that every index is an `int`. -/
structure Reflected where
  names : List Identifier
  few : names.length < 2 ^ 31

namespace Reflected

/-- `Arr()` -/
def arr (T : Reflected) : List StringRef := T.names.map Identifier.view

/-- `GetMembersCount<T>()` -/
def getMembersCount (T : Reflected) : UInt32 := .ofNat T.names.length

/-- `GetName<T>(i)` -/
def getName (T : Reflected) (i : UInt32) : Option StringRef := T.arr[i.toNat]?

/-- `GetIdIsSame`.  The common type of `First` and of the `int` behind it is `uint32_t`. -/
def getIdIsSame (T : Reflected) (name : StringRef) : List UInt32 → Option Int32
  | [] => some (-1)
  | first :: rest => do
    let same ← name.equal (← T.getName first)
    if same then pure first.toInt32
    else
      let id ← T.getIdIsSame name rest
      pure id.toUInt32.toInt32

/-- `GetId<T>(name)` -/
def getId (T : Reflected) (name : StringRef) : Option Int32 := do
  let ids ← genSequence T.getMembersCount
  T.getIdIsSame name ids

/-- The names of the members, as texts -/
def texts (T : Reflected) : List (List UInt8) := T.names.map Identifier.text

/-- `id` is the least index of a member named `s`, and -1 where there is none. -/
structure Finds (T : Reflected) (s : List UInt8) (id : Int32) : Prop where
  least : ∀ i : Nat, id.toInt = i ↔ IsLeast {j | T.texts[j]? = some s} i
  absent : id = -1 ↔ s ∉ T.texts

end Reflected

/-! ## Names as views -/

namespace StringRef

/-- A NUL stands behind the view. -/
def NulTerminated (a : StringRef) : Prop := a.behind.head? = some 0

end StringRef

namespace Identifier

/-- A name is viewed without its NUL. -/
theorem contents_view (i : Identifier) : i.view.contents = i.text := by
  show ((i.text ++ [0]).drop 0).take (UInt32.ofNat i.text.length).toNat = i.text
  rw [UInt32.toNat_ofNat', Nat.mod_eq_of_lt i.short, List.drop_zero, List.take_left]

/-- Behind a name stands its NUL. -/
theorem behind_view (i : Identifier) : i.view.behind = [0] := by
  show (i.text ++ [0]).drop (0 + (UInt32.ofNat i.text.length).toNat) = [0]
  rw [UInt32.toNat_ofNat', Nat.mod_eq_of_lt i.short, Nat.zero_add, List.drop_left]

/-- `==` of a name that a NUL stands behind and the name of a member. -/
theorem equal_view {name : StringRef} (h : name.NulTerminated) (i : Identifier) :
    name.equal i.view = some (decide (name.contents = i.text)) := by
  by_cases heq : name.contents = i.text
  · rw [StringRef.equal_of_eq (heq.trans i.contents_view.symm), heq, if_neg i.zero_notMem,
      i.behind_view, decide_eq_true rfl]
    exact (stringEqual_zero _ _).mpr ⟨0, 0, h, rfl, Iff.rfl⟩
  · rw [decide_eq_false heq]
    exact StringRef.equal_of_ne fun hc => heq (hc.trans i.contents_view)

end Identifier

/-! ## The search -/

namespace Reflected

variable {T : Reflected} {name : StringRef}

/-- The name of a member that there is. -/
theorem getName_ofNat {i : Nat} (h : i < T.names.length) :
    T.getName (.ofNat i) = some T.names[i].view := by
  have hfew := T.few
  rw [getName, UInt32.toNat_ofNat', Nat.mod_eq_of_lt (by omega), arr, List.getElem?_map,
    List.getElem?_eq_getElem h]
  rfl

/-- The text of a member that there is. -/
theorem texts_getElem? {i : Nat} (h : i < T.names.length) :
    T.texts[i]? = some T.names[i].text := by
  rw [texts, List.getElem?_map, List.getElem?_eq_getElem h]
  rfl

/-- Only a member that there is has a text. -/
theorem lt_of_texts {i : Nat} {s : List UInt8} (h : T.texts[i]? = some s) :
    i < T.names.length := by
  obtain ⟨hlt, -⟩ := List.getElem?_eq_some_iff.mp h
  rwa [texts, List.length_map] at hlt

/-- The search finds the first index whose name is the same. -/
theorem getIdIsSame_eq (hname : name.NulTerminated) {ids : List Nat}
    (hids : ∀ i ∈ ids, i < T.names.length) :
    T.getIdIsSame name (ids.map UInt32.ofNat) =
      some ((ids.find? fun i => T.texts[i]? = some name.contents).elim (-1) Int32.ofNat) := by
  induction ids with
  | nil => rfl
  | cons i ids ih =>
    obtain ⟨hi, hids⟩ := List.forall_mem_cons.mp hids
    have hequal := T.names[i].equal_view hname
    rw [List.map_cons, getIdIsSame, getName_ofNat hi, List.find?_cons, texts_getElem? hi]
    show (name.equal T.names[i].view).bind _ = _
    rw [hequal, Option.bind_some]
    by_cases heq : name.contents = T.names[i].text
    · simp [heq]
    · rw [decide_eq_false heq, if_neg Bool.false_ne_true, ih hids,
        decide_eq_false fun h => heq (Option.some_inj.mp h).symm]
      rfl

/-- The search of `GetId`, as a search in the list of texts. -/
theorem getId_eq (hname : name.NulTerminated) :
    T.getId name = some (((List.range T.names.length).find? fun i =>
      T.texts[i]? = some name.contents).elim (-1) Int32.ofNat) := by
  have hfew := T.few
  rw [getId, genSequence_eq, getMembersCount, UInt32.toNat_ofNat', Nat.mod_eq_of_lt (by omega)]
  exact getIdIsSame_eq hname fun i hi => List.mem_range.mp hi

/-- The least index with the text is the one that is found. -/
theorem Finds.of_isLeast {s : List UInt8} {i : Nat} (h : IsLeast {j | T.texts[j]? = some s} i) :
    T.Finds s (.ofNat i) := by
  have hmem : T.texts[i]? = some s := h.1
  have hlt := lt_of_texts hmem
  have hfew := T.few
  have hid : (Int32.ofNat i).toInt = i := Int32.toInt_ofNat_of_lt (by omega)
  constructor
  · intro j
    rw [hid]
    constructor
    · intro heq
      obtain rfl : i = j := by omega
      exact h
    · intro hj
      rw [h.unique hj]
  · refine iff_of_false (fun heq => ?_) (not_not.mpr (List.mem_of_getElem? hmem))
    rw [heq] at hid
    have : (-1 : Int32).toInt = -1 := rfl
    omega

/-- A text that no member has is not found. -/
theorem Finds.of_notMem {s : List UInt8} (h : s ∉ T.texts) : T.Finds s (-1) := by
  constructor
  · intro i
    refine iff_of_false (fun heq => ?_) fun hi => h (List.mem_of_getElem? hi.1)
    have : (-1 : Int32).toInt = -1 := rfl
    omega
  · exact iff_of_true rfl h

/-- `GetId` finds the name, or says that it is not there. -/
theorem getId_finds (hname : name.NulTerminated) :
    ∃ id, T.getId name = some id ∧ T.Finds name.contents id := by
  refine ⟨_, getId_eq hname, ?_⟩
  cases hfind : (List.range T.names.length).find? fun i =>
      T.texts[i]? = some name.contents with
  | none =>
    refine Finds.of_notMem fun hmem => ?_
    obtain ⟨i, hi⟩ := List.mem_iff_getElem?.mp hmem
    have hno := List.find?_range_eq_none.mp hfind i (lt_of_texts hi)
    simp [hi] at hno
  | some i =>
    obtain ⟨hi, -, hbefore⟩ := List.find?_range_eq_some.mp hfind
    refine Finds.of_isLeast ⟨of_decide_eq_true hi, fun j hj => ?_⟩
    by_contra hlt
    have hno := hbefore j (Nat.lt_of_not_le hlt)
    have hj' : T.texts[j]? = some name.contents := hj
    simp [hj'] at hno

/-- The view of a name ends in front of a NUL. -/
theorem nulTerminated_view (i : Identifier) : i.view.NulTerminated := by
  rw [StringRef.NulTerminated, i.behind_view]
  rfl

/-- Where the names are distinct, `GetId` undoes `GetName`. -/
theorem getId_getName (hdistinct : T.texts.Nodup) {i : UInt32} (h : i.toNat < T.names.length) :
    ((T.getName i).bind T.getId).map Int32.toInt = some (i.toNat : Int) := by
  have hget : T.getName i = some T.names[i.toNat].view := by
    rw [← getName_ofNat h, UInt32.ofNat_toNat]
  obtain ⟨id, hid, hfinds⟩ := getId_finds (T := T) (nulTerminated_view T.names[i.toNat])
  rw [hget, Option.bind_some, hid, Option.map_some, Option.some_inj, hfinds.least,
    Identifier.contents_view]
  refine ⟨texts_getElem? h, fun j hj => ?_⟩
  have hsame : T.texts[i.toNat]? = T.texts[j]? := (texts_getElem? h).trans hj.symm
  rw [List.getElem?_inj (by rwa [texts, List.length_map]) hdistinct] at hsame
  exact Nat.le_of_eq hsame

/-- What `GetId` owes a name that a NUL stands behind, and the names of the members. -/
structure Exact (T : Reflected) : Prop where
  finds : ∀ name : StringRef, name.NulTerminated →
    ∃ id, T.getId name = some id ∧ T.Finds name.contents id
  undoes : T.texts.Nodup → ∀ i : UInt32, i.toNat < T.names.length →
    ((T.getName i).bind T.getId).map Int32.toInt = some (i.toNat : Int)

/-- **Reflection is exact**, for every sequence and every reflected type. -/
theorem reflection_exact (n : UInt32) (T : Reflected) :
    genSequence n = some (below n.toNat) ∧ T.Exact :=
  ⟨genSequence_eq n, fun _ hname => getId_finds hname, fun hdistinct _ h =>
    getId_getName hdistinct h⟩

/-- The members `x` and `y` -/
example : (⟨[⟨[120], by decide, by decide⟩, ⟨[121], by decide, by decide⟩], by decide⟩ :
    Reflected).getId (.ofLiteral [121] (by decide)) = some 1 := by decide +kernel

end Reflected

end Turnserver
