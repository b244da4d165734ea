/-
  JSON NODES (`new_elbs/cJSON.h`, `new_elbs/cJSON.cc`) — the list operations that the wrapper uses.

  A `struct cJSON` is a cell of the heap with the links `next`, `prev` and `child`; its other fields
  are its `Item`.  An operation fails (`none`) where the C function would access a cell that is not
  there, and where a loop does not end within `fuel` rounds.  Allocation of strings succeeds.

  On a tree that the heap holds (`Node.Holds`), each operation does to the list of children what its
  name says:
  * `getObjectItem_spec` — the first item of that name, up to case (`lookup`);
  * `addItemToArray_spec` — a tree is appended;
  * `detachItemFromArray_spec` — the item at a position is taken out and stands alone;
  * `replaceItemInObject_spec` — a tree takes the place of an item, which is freed.
-/
import Turnserver.Lib.LinkedTree
import Mathlib.Data.Rat.Defs

namespace Turnserver

open LinkedTree

/-! ## Items -/

/-- The types of nodes; a reference (`cJSON_IsReference`) is never made here. -/
inductive JsonType
  | False
  | True
  | NULL
  | Number
  | String
  | Array
  | Object
deriving DecidableEq

/-- A C string without its terminator. -/
abbrev CString := List UInt8

/-- The fields of a node other than its links.  The number is a rational one, so there is no infinity
    and no NaN here: `1e999` and `0e999`, of which the source makes these, have no item. -/
structure Item where
  type : JsonType
  valuestring : Option CString
  valueint : Int
  valuedouble : Rat
  string : Option CString

/-- `item->string = cJSON_strdup(string)` -/
def Item.withString (string : CString) (i : Item) : Item := { i with string := some string }

/-- An ordered JSON value. -/
abbrev Value := Node Unit Item

/-- `tolower` in the C locale -/
def tolower (c : UInt8) : UInt8 := if 65 ≤ c ∧ c ≤ 90 then c + 32 else c

/-- The loop of `cJSON_strcasecmp`; both strings end in a NUL. -/
def strcasecmpFrom : CString → CString → Int
  | [], s2 => (tolower 0).toNat - (tolower (s2.headD 0)).toNat
  | c :: s1, s2 =>
    if tolower c = tolower (s2.headD 0) then
      if c = 0 then 0 else strcasecmpFrom s1 s2.tail
    else (tolower c).toNat - (tolower (s2.headD 0)).toNat

/-- `cJSON_strcasecmp` -/
def strcasecmp (s1 s2 : Option CString) : Int :=
  match s1, s2 with
  | none, none => 0
  | none, some _ => 1
  | some _, none => 1
  | some s1, some s2 => strcasecmpFrom s1 s2

/-- A text agrees with itself up to case. -/
theorem strcasecmpFrom_self (s : CString) : strcasecmpFrom s s = 0 := by
  induction s with
  | nil => exact Int.sub_self _
  | cons c s ih =>
    rw [strcasecmpFrom, List.headD_cons, if_pos rfl, List.tail_cons, ih]
    exact ite_self 0

/-- A name is equal to itself. -/
theorem strcasecmp_self (s : Option CString) : strcasecmp s s = 0 := by
  cases s with
  | none => rfl
  | some s => exact strcasecmpFrom_self s

section Operations

variable {α : Type} [DecidableEq α]

/-- `while (c && cJSON_strcasecmp(c->string, string)) i++, c = c->next` -/
def search : Nat → Heap α Item → Option α → CString → Nat → Option (Option α × Nat)
  | _, _, none, _, i => some (none, i)
  | 0, _, some _, _, _ => none
  | fuel + 1, h, some c, string, i => do
    let cell ← h c
    if strcasecmp cell.item.string (some string) = 0 then some (some c, i)
    else search fuel h cell.next string (i + 1)

/-- `while (c && which > 0) c = c->next, which--` -/
def skipTo (h : Heap α Item) : Nat → Option α → Option (Option α)
  | _, none => some none
  | 0, some c => some (some c)
  | which + 1, some c => do
    let cell ← h c
    skipTo h which cell.next

/-- `cJSON_GetObjectItem` -/
def getObjectItem (fuel : Nat) (h : Heap α Item) (object : α) (string : CString) :
    Option (Option α) := do
  let o ← h object
  let (c, _) ← search fuel h o.child string 0
  some c

/-- `suffix_object` -/
def suffixObject (h : Heap α Item) (prev item : α) : Option (Heap α Item) := do
  let h ← h.write prev ({ · with next := some item })
  h.write item ({ · with prev := some prev })

/-- `cJSON_AddItemToArray` -/
def addItemToArray (fuel : Nat) (h : Heap α Item) (array : α) (item : Option α) :
    Option (Heap α Item) := do
  let a ← h array
  match item with
  | none => some h
  | some item =>
    match a.child with
    | none => h.write array ({ · with child := some item })
    | some c =>
      let last ← lastFrom fuel h c
      suffixObject h last item

/-- `cJSON_DetachItemFromArray`: the item and the heap. -/
def detachItemFromArray (h : Heap α Item) (array : α) (which : Nat) :
    Option (Option α × Heap α Item) := do
  let a ← h array
  match ← skipTo h which a.child with
  | none => some (none, h)
  | some c =>
    let cell ← h c
    let h ← linkNext h cell.prev cell.next
    let h ← linkPrev h cell.next cell.prev
    let h ← (if a.child = some c then h.write array ({ · with child := cell.next }) else some h)
    let h ← h.write c ({ · with next := none, prev := none })
    some (some c, h)

/-- `cJSON_ReplaceItemInArray` -/
def replaceItemInArray (fuel : Nat) (h : Heap α Item) (array : α) (which : Nat) (newitem : α) :
    Option (Heap α Item) := do
  let a ← h array
  match ← skipTo h which a.child with
  | none => some h
  | some c =>
    let cell ← h c
    let h ← h.write newitem ({ · with next := cell.next, prev := cell.prev })
    let h ← linkPrev h cell.next (some newitem)
    let h ← (if a.child = some c then h.write array ({ · with child := some newitem })
      else cell.prev.bind fun prev => h.write prev ({ · with next := some newitem }))
    let h ← h.write c ({ · with next := none, prev := none })
    -- `cJSON_Delete(c)`
    deleteAll fuel h (some c)

/-- `cJSON_ReplaceItemInObject` -/
def replaceItemInObject (fuel : Nat) (h : Heap α Item) (object : α) (string : CString)
    (newitem : Option α) : Option (Heap α Item) := do
  let o ← h object
  match ← search fuel h o.child string 0 with
  | (none, _) => some h
  | (some _, i) =>
    let newitem ← newitem
    let h ← h.write newitem fun c => { c with item := c.item.withString string }
    replaceItemInArray fuel h object i newitem

end Operations

/-! ## What the operations do to the list of children -/

section Lists

variable {α : Type}

/-- The first item of that name, up to case, with the items before and after it. -/
def lookup (string : CString) :
    List (Node α Item) → Option (List (Node α Item) × Node α Item × List (Node α Item))
  | [] => none
  | c :: cs =>
    if strcasecmp c.item.string (some string) = 0 then some ([], c, cs)
    else (lookup string cs).map fun (before, m, after) => (c :: before, m, after)

/-- Nothing is looked up exactly when no child has the name. -/
theorem lookup_eq_none {string : CString} {cs : List (Node α Item)} :
    lookup string cs = none ↔ ∀ c ∈ cs, strcasecmp c.item.string (some string) ≠ 0 := by
  induction cs with
  | nil => exact ⟨fun _ c hc => absurd hc List.not_mem_nil, fun _ => rfl⟩
  | cons c cs ih =>
    rw [lookup, List.forall_mem_cons, ← ih]
    split
    · next heq =>
      constructor
      · intro h
        cases h
      · rintro ⟨hne, -⟩
        exact absurd heq hne
    · next hne =>
      rw [Option.map_eq_none_iff]
      exact ⟨fun h => ⟨hne, h⟩, fun h => h.2⟩

/-- What is looked up is the first match. -/
theorem lookup_eq_some {string : CString} {cs before after : List (Node α Item)}
    {m : Node α Item} :
    lookup string cs = some (before, m, after) ↔ cs = before ++ m :: after ∧
      (∀ c ∈ before, strcasecmp c.item.string (some string) ≠ 0) ∧
      strcasecmp m.item.string (some string) = 0 := by
  -- induction on the children: the first one has the name, or the others decide
  induction cs generalizing before with
  | nil =>
    constructor
    · intro h
      cases h
    · rintro ⟨hcs, -⟩
      exact absurd hcs (by simp)
  | cons c cs ih =>
    rw [lookup]
    split
    · next heq =>
      constructor
      · intro h
        cases h
        exact ⟨rfl, fun c hc => absurd hc List.not_mem_nil, heq⟩
      · rintro ⟨hcs, hbefore, -⟩
        cases before with
        | nil =>
          cases hcs
          rfl
        -- nothing stands in front of the first match
        | cons b before =>
          cases hcs
          exact absurd heq (hbefore c List.mem_cons_self)
    · next hne =>
      constructor
      · intro h
        obtain ⟨⟨before', m', after'⟩, hrec, heq⟩ := Option.map_eq_some_iff.mp h
        cases heq
        obtain ⟨rfl, hbefore, hm⟩ := ih.mp hrec
        refine ⟨rfl, fun x hx => ?_, hm⟩
        rcases List.mem_cons.mp hx with rfl | hx
        · exact hne
        · exact hbefore x hx
      · rintro ⟨hcs, hbefore, hm⟩
        cases before with
        | nil =>
          cases hcs
          exact absurd hm hne
        | cons b before =>
          cases hcs
          rw [ih.mpr ⟨rfl, fun x hx => hbefore x (List.mem_cons_of_mem _ hx), hm⟩]
          rfl

/-- What is looked up splits the children in two around it. -/
theorem lookup_some {string : CString} {cs before after : List (Node α Item)} {m : Node α Item}
    (h : lookup string cs = some (before, m, after)) : cs = before ++ m :: after :=
  (lookup_eq_some.mp h).1

/-- Looking up does not depend on the addresses. -/
theorem lookup_eraseAll (string : CString) (cs : List (Node α Item)) :
    lookup string (Node.eraseAll cs) = (lookup string cs).map fun (before, m, after) =>
      (Node.eraseAll before, m.erase, Node.eraseAll after) := by
  induction cs with
  | nil => rfl
  | cons c cs ih =>
    rw [Node.eraseAll, lookup, lookup, Node.erase_item, ih]
    split
    · rfl
    · rw [Option.map_map, Option.map_map]
      rfl

end Lists

/-! ## The operations on a heap that holds the tree -/

section Specs

open Node

variable {α : Type} {h : Heap α Item} {p q : Option α}

/-- The walk along the `next` pointers is the lookup among the listed children. -/
theorem search_seg {ns : List (Node α Item)} (hs : Seg h p none ns) {fuel : Nat}
    (hf : ns.length ≤ fuel) (string : CString) (i : Nat) :
    search fuel h (head ns) string i =
      some (match lookup string ns with
        | none => (none, i + ns.length)
        | some (before, m, _) => (some m.addr, i + before.length)) := by
  induction ns generalizing p fuel i with
  | nil => rw [head_nil, search, lookup, List.length_nil, Nat.add_zero]
  | cons n ns ih =>
    -- one unit of the bound for each child that is passed
    cases fuel with
    | zero => cases hf
    | succ fuel =>
      rw [Seg, Option.or_none] at hs
      rw [head_cons, search, (holds_iff.mp hs.1).1, Option.bind_eq_bind, Option.bind_some, lookup]
      split
      · rfl
      · rw [ih hs.2 (Nat.le_of_succ_le_succ hf)]
        cases lookup string ns with
        -- the index counts the child that was passed
        | none => simp only [Option.map_none, List.length_cons, Nat.add_assoc, Nat.add_comm 1]
        | some r => simp only [Option.map_some, List.length_cons, Nat.add_assoc, Nat.add_comm 1]

/-- Counting along the `next` pointers reaches the child at the index. -/
theorem skipTo_seg {before after : List (Node α Item)} {n : Node α Item}
    (hs : Seg h p none (before ++ n :: after)) :
    skipTo h before.length (head (before ++ n :: after)) = some (some n.addr) := by
  induction before generalizing p with
  | nil => rw [List.nil_append, head_cons, List.length_nil, skipTo]
  | cons b before ih =>
    rw [List.cons_append, Seg, Option.or_none] at hs
    rw [List.cons_append, head_cons, List.length_cons, skipTo, (holds_iff.mp hs.1).1,
      Option.bind_eq_bind, Option.bind_some]
    exact ih hs.2

/-- `cJSON_GetObjectItem` on a heap that holds a tree returns the child that the lookup returns. -/
theorem getObjectItem_spec {root : Node α Item} (hr : root.Holds h p q) {fuel : Nat}
    (hf : root.child.length ≤ fuel) (string : CString) :
    getObjectItem fuel h root.addr string =
      some ((lookup string root.child).map fun (_, m, _) => m.addr) := by
  obtain ⟨hcell, hseg⟩ := holds_iff.mp hr
  rw [getObjectItem, hcell, Option.bind_eq_bind, Option.bind_some, search_seg hseg hf]
  cases lookup string root.child with
  | none => rfl
  | some r => rfl

variable [DecidableEq α]

/-- `cJSON_AddItemToArray` leaves a heap that holds the tree with one child more. -/
theorem addItemToArray_spec {root item : Node α Item} (hr : root.Holds h p q)
    (hi : item.Holds h none none) (hn : (root.addrs ++ item.addrs).Nodup) {fuel : Nat}
    (hf : root.child.length ≤ fuel) :
    ∃ h', addItemToArray fuel h root.addr (some item.addr) = some h' ∧
      (root.withChild (root.child ++ [item])).Holds h' p q ∧
      ∀ a, a ∉ root.addrs → a ∉ item.addrs → h' a = h a := by
  obtain ⟨hcell, hseg⟩ := holds_iff.mp hr
  rw [addrs_eq root, List.cons_append, List.nodup_cons, List.mem_append, not_or,
    List.nodup_append'] at hn
  obtain ⟨⟨hroot_child, hroot_item⟩, hnchild, hnitem, hdisj⟩ := hn
  cases hchild : root.child with
  | nil =>
    rw [hchild] at hcell
    refine ⟨Function.update h root.addr (some ⟨q, p, some item.addr, root.item⟩), ?_, ?_, ?_⟩
    · rw [addItemToArray, hcell, Option.bind_eq_bind, Option.bind_some, head_nil]
      exact Heap.write_eq hcell _
    · refine Node.Holds.rechild ?_ ?_
      · rw [Function.update_self]
        rfl
      · rw [List.nil_append, seg_singleton]
        refine hi.frame fun a ha => Function.update_of_ne (fun heq => ?_) _ _
        rw [heq] at ha
        exact hroot_item ha
    · intro a ha _
      refine Function.update_of_ne (fun heq => ha ?_) _ _
      rw [heq, addrs_eq]
      exact List.mem_cons_self
  | cons n ns =>
    have hlast : lastFrom fuel h n.addr = last (n :: ns) := by
      rw [hchild] at hseg hf
      exact lastFrom_seg hseg hf
    rw [← hchild] at hlast ⊢
    obtain ⟨l, hl⟩ : ∃ l, last root.child = some l := by
      rw [hchild, last_cons]
      exact ⟨_, (Option.or_some).trans rfl⟩
    -- the two writes of `suffix_object`
    obtain ⟨h₁, heq₁, hseg₁, hframe₁⟩ := linkNext_seg hseg hnchild (some item.addr)
    have hitem₁ : Seg h₁ none none [item] :=
      seg_singleton.mpr (hi.frame fun a ha => hframe₁ a fun hmem => hdisj hmem ha)
    obtain ⟨h₂, heq₂, hseg₂, hframe₂⟩ :=
      linkPrev_seg hitem₁ (by rwa [addrsAll_singleton]) (last root.child)
    rw [addrsAll_singleton] at hframe₂
    refine ⟨h₂, ?_, Node.Holds.rechild ?_ (seg_append.mpr ⟨?_, ?_⟩), ?_⟩
    · rw [hl] at hlast heq₁ heq₂
      rw [linkNext] at heq₁
      rw [head_cons, linkPrev] at heq₂
      rw [addItemToArray, hcell, Option.bind_eq_bind, Option.bind_some, hchild, head_cons]
      show (lastFrom fuel h n.addr).bind (fun last => suffixObject h last item.addr) = some h₂
      rw [hlast, Option.bind_some, suffixObject, heq₁, Option.bind_eq_bind, Option.bind_some, heq₂]
    · rw [hframe₂ _ hroot_item, hframe₁ _ hroot_child, hcell, hchild]
      rfl
    · exact hseg₁.frame fun a ha => hframe₂ a fun hmem => hdisj ha hmem
    · rw [Option.or_none]
      exact hseg₂
    · intro a ha hitem
      rw [addrs_eq, List.mem_cons, not_or] at ha
      rw [hframe₂ a hitem, hframe₁ a ha.2]

omit [DecidableEq α] in

/-- The first address of a segment is that of a member exactly when nothing stands before it. -/
theorem head_eq_iff {before after : List (Node α Item)} {m : Node α Item}
    (hn : (addrsAll (before ++ m :: after)).Nodup) :
    head (before ++ m :: after) = some m.addr ↔ before = [] := by
  constructor
  · intro hhead
    cases before with
    | nil => rfl
    | cons b before =>
      rw [List.cons_append, head_cons, Option.some_inj] at hhead
      rw [List.cons_append, addrsAll, List.nodup_append', addrsAll_append, addrsAll, addrs_eq b,
        addrs_eq m, hhead] at hn
      exact absurd (List.mem_append_right _ List.mem_cons_self) (hn.2.2 List.mem_cons_self)
  · rintro rfl
    rfl

omit [DecidableEq α] in
/-- What the code finds at a child: the parent's cell, the walk to the child, the siblings before and
    after it, and its own cell. -/
theorem holds_at_child {root n : Node α Item} {before after : List (Node α Item)}
    (hr : (root.withChild (before ++ n :: after)).Holds h p q)
    (hn : (root.withChild (before ++ n :: after)).addrs.Nodup) :
    h root.addr = some ⟨q, p, head (before ++ n :: after), root.item⟩ ∧
      skipTo h before.length (head (before ++ n :: after)) = some (some n.addr) ∧
      (head (before ++ n :: after) = some n.addr ↔ before = []) ∧
      Seg h none (some n.addr) before ∧ n.Holds h (last before) (head after) ∧
      Seg h (some n.addr) none after ∧
      h n.addr = some ⟨head after, last before, head n.child, n.item⟩ := by
  obtain ⟨hcell, hseg⟩ := holds_iff.mp hr
  rw [addr_withChild, child_withChild, item_withChild] at hcell
  rw [child_withChild] at hseg
  have hskip := skipTo_seg hseg
  -- the first address is that of the child only when nothing stands before it, for no address comes
  -- twice
  have hhead := head_eq_iff (List.nodup_cons.mp (addrs_withChild root _ ▸ hn)).2
  obtain ⟨hbefore, hrest⟩ := seg_append.mp hseg
  rw [head_cons, Option.some_or] at hbefore
  rw [Option.or_none, Seg, Option.or_none] at hrest
  obtain ⟨hitem, hafter⟩ := hrest
  exact ⟨hcell, hskip, hhead, hbefore, hitem, hafter, (holds_iff.mp hitem).1⟩

/-- `if (c == array->child) array->child = c->next`: the array starts behind its first item. -/
theorem unlinkFirst {root n : Node α Item} {before after : List (Node α Item)}
    (hroot : h root.addr = some ⟨q, p, head (before ++ n :: after), root.item⟩)
    (hhead : head (before ++ n :: after) = some n.addr ↔ before = []) :
    ∃ h', (if head (before ++ n :: after) = some n.addr then
        h.write root.addr ({ · with child := head after }) else some h) = some h' ∧
      h' root.addr = some ⟨q, p, head (before ++ after), root.item⟩ ∧
      ∀ a, a ≠ root.addr → h' a = h a := by
  by_cases hb : before = []
  · refine ⟨_, (if_pos (hhead.mpr hb)).trans (Heap.write_eq hroot _), ?_, fun a ha => ?_⟩
    · rw [Function.update_self, hb]
      rfl
    · exact Function.update_of_ne ha _ _
  · refine ⟨h, if_neg fun hh => hb (hhead.mp hh), ?_, fun a _ => rfl⟩
    obtain ⟨b, bs, rfl⟩ := List.exists_cons_of_ne_nil hb
    exact hroot

/-- `if (c == array->child) array->child = newitem; else newitem->prev->next = newitem`: what was
    before the item is before the new one. -/
theorem linkInstead {root m n : Node α Item} {before after : List (Node α Item)}
    (hroot : h root.addr = some ⟨q, p, head (before ++ m :: after), root.item⟩)
    (hbefore : Seg h none (some m.addr) before) (hn : (addrsAll before).Nodup)
    (hroot_before : root.addr ∉ addrsAll before)
    (hhead : head (before ++ m :: after) = some m.addr ↔ before = []) :
    ∃ h', (if head (before ++ m :: after) = some m.addr then
        h.write root.addr ({ · with child := some n.addr })
        else (last before).bind fun prev => h.write prev ({ · with next := some n.addr })) =
          some h' ∧
      h' root.addr = some ⟨q, p, head (before ++ n :: after), root.item⟩ ∧
      Seg h' none (some n.addr) before ∧ ∀ a, a ≠ root.addr → a ∉ addrsAll before → h' a = h a := by
  -- the child is the first one, which the root points at, or another one points at it
  rcases List.eq_nil_or_concat before with hb | ⟨bs, b, hb⟩
  · refine ⟨_, (if_pos (hhead.mpr hb)).trans (Heap.write_eq hroot _), ?_, ?_, fun a ha _ => ?_⟩
    · rw [Function.update_self, hb]
      rfl
    · rw [hb]
      exact seg_nil
    · exact Function.update_of_ne ha _ _
  · obtain ⟨h', heq, hseg, hframe⟩ := linkNext_seg hbefore hn (some n.addr)
    -- then the first address does not change, and the root is left alone
    have hne : before ≠ [] := by
      simp [hb]
    obtain ⟨b', bs', hb'⟩ := List.exists_cons_of_ne_nil hne
    have hlast : last before = some b.addr := by
      rw [hb, List.concat_eq_append, last_concat]
    rw [hlast, linkNext] at heq
    refine ⟨h', ?_, ?_, hseg, fun a _ ha => hframe a ha⟩
    · rw [if_neg fun hh => hne (hhead.mp hh), hlast, Option.bind_some, heq]
    · rw [hframe _ hroot_before, hroot, hb']
      rfl

/-- `cJSON_DetachItemFromArray` leaves the tree without the child, and the child as a tree of its own.
    -/
theorem detachItemFromArray_spec {root n : Node α Item} {before after : List (Node α Item)}
    (hr : (root.withChild (before ++ n :: after)).Holds h p q)
    (hn : (root.withChild (before ++ n :: after)).addrs.Nodup) :
    ∃ h', detachItemFromArray h root.addr before.length = some (some n.addr, h') ∧
      (root.withChild (before ++ after)).Holds h' p q ∧ n.Holds h' none none ∧
      ∀ a, a ∉ (root.withChild (before ++ n :: after)).addrs → h' a = h a := by
  obtain ⟨hcell, hskip, hhead, hbefore, hitem, hafter, hitem_cell⟩ := holds_at_child hr hn
  rw [addrs_withChild, addrsAll_append, addrsAll] at hn ⊢
  simp only [List.nodup_cons, List.nodup_append', List.mem_append, List.disjoint_append_right,
    not_or] at hn
  obtain ⟨⟨hroot_before, hroot_n, hroot_after⟩, hnb, ⟨hnn, hna, hd_n_after⟩, hd_before_n,
    hd_before_after⟩ := hn
  have hmem : n.addr ∈ n.addrs := by
    rw [addrs_eq]
    exact List.mem_cons_self
  have hne_root : root.addr ≠ n.addr := fun heq => hroot_n (heq ▸ hmem)
  -- `c->prev->next = c->next`
  obtain ⟨h₁, heq₁, hbefore₁, hframe₁⟩ := linkNext_seg hbefore hnb (head after)
  -- `c->next->prev = c->prev`
  obtain ⟨h₂, heq₂, hafter₂, hframe₂⟩ := linkPrev_seg
    (hafter.frame fun a ha => hframe₁ a fun hb => hd_before_after hb ha) hna (last before)
  have hroot₂ : h₂ root.addr = some ⟨q, p, head (before ++ n :: after), root.item⟩ := by
    rw [hframe₂ _ hroot_after, hframe₁ _ hroot_before, hcell]
  -- `if (c == array->child) array->child = c->next`
  obtain ⟨h₃, heq₃, hroot₃, hframe₃⟩ := unlinkFirst hroot₂ hhead
  -- `c->prev = c->next = 0`
  have hitem₃ : h₃ n.addr = some ⟨head after, last before, head n.child, n.item⟩ := by
    rw [hframe₃ _ hne_root.symm, hframe₂ _ (hd_n_after hmem),
      hframe₁ _ fun hb => hd_before_n hb hmem, hitem_cell]
  have hframe₄ : ∀ a, a ≠ n.addr →
      Function.update h₃ n.addr (some ⟨none, none, head n.child, n.item⟩) a = h₃ a :=
    fun a ha => Function.update_of_ne ha _ _
  have hne_of : ∀ {a : α} {as : List α}, a ∈ as → root.addr ∉ as → a ≠ root.addr :=
    fun ha hr heq => hr (heq ▸ ha)
  refine ⟨Function.update h₃ n.addr (some ⟨none, none, head n.child, n.item⟩), ?_,
    Node.Holds.rechild ?_ (seg_append.mpr ⟨?_, ?_⟩), hitem.relink ?_ ?_, ?_⟩
  · simp only [detachItemFromArray, hcell, hskip, hitem_cell, heq₁, heq₂, heq₃,
      Heap.write_eq hitem₃, Option.bind_eq_bind, Option.bind_some]
  · rw [hframe₄ _ hne_root, hroot₃]
  · rw [Option.or_none]
    refine hbefore₁.frame fun a ha => ?_
    rw [hframe₄ a fun heq => hd_before_n ha (heq ▸ hmem), hframe₃ a (hne_of ha hroot_before),
      hframe₂ a (hd_before_after ha)]
  · rw [Option.or_none]
    refine hafter₂.frame fun a ha => ?_
    rw [hframe₄ a fun heq => hd_n_after hmem (heq ▸ ha), hframe₃ a (hne_of ha hroot_after)]
  · rw [Function.update_self]
  · intro a ha
    have hin : a ∈ n.addrs := by
      rw [addrs_eq]
      exact List.mem_cons_of_mem _ ha
    rw [hframe₄ a fun heq => notMem_child hnn (heq ▸ ha), hframe₃ a (hne_of hin hroot_n),
      hframe₂ a (hd_n_after hin), hframe₁ a fun hb => hd_before_n hb hin]
  · intro a ha
    simp only [List.mem_cons, List.mem_append, not_or] at ha
    rw [hframe₄ a fun heq => ha.2.2.1 (heq ▸ hmem), hframe₃ a ha.1, hframe₂ a ha.2.2.2,
      hframe₁ a ha.2.1]

/-- `cJSON_ReplaceItemInArray` leaves the tree with the new child in the place of the old one. -/
theorem replaceItemInArray_spec {root m n : Node α Item} {before after : List (Node α Item)}
    (hr : (root.withChild (before ++ m :: after)).Holds h p q) (hnew : n.Holds h none none)
    (hn : ((root.withChild (before ++ m :: after)).addrs ++ n.addrs).Nodup) {fuel : Nat}
    (hf : m.size ≤ fuel) :
    ∃ h', replaceItemInArray fuel h root.addr before.length n.addr = some h' ∧
      (root.withChild (before ++ n :: after)).Holds h' p q ∧ (∀ a ∈ m.addrs, h' a = none) ∧
      ∀ a, a ∉ (root.withChild (before ++ m :: after)).addrs → a ∉ n.addrs → h' a = h a := by
  obtain ⟨hcell, hskip, hhead, hbefore, hitem, hafter, hitem_cell⟩ :=
    holds_at_child hr (List.nodup_append'.mp hn).1
  have hnew_cell := (holds_iff.mp hnew).1
  rw [addrs_withChild, addrsAll_append, addrsAll] at hn ⊢
  simp only [List.cons_append, List.nodup_cons, List.nodup_append', List.mem_append,
    List.disjoint_append_right, List.disjoint_append_left, not_or] at hn
  obtain ⟨⟨⟨hroot_before, hroot_m, hroot_after⟩, hroot_n⟩, ⟨hnb, ⟨hnm, hna, hd_m_after⟩,
    hd_before_m, hd_before_after⟩, hnn, hd_before_n, hd_m_n, hd_after_n⟩ := hn
  have hmem_m : m.addr ∈ m.addrs := by
    rw [addrs_eq]
    exact List.mem_cons_self
  have hmem_n : n.addr ∈ n.addrs := by
    rw [addrs_eq]
    exact List.mem_cons_self
  have hne_of : ∀ {a b : α} {as : List α}, a ∈ as → b ∉ as → a ≠ b :=
    fun ha hb heq => hb (heq ▸ ha)
  -- `newitem->next = c->next; newitem->prev = c->prev`
  have hframe₁ : ∀ a, a ≠ n.addr →
      Function.update h n.addr (some ⟨head after, last before, head n.child, n.item⟩) a = h a :=
    fun a ha => Function.update_of_ne ha _ _
  have hnew₁ := hnew.relink (Function.update_self n.addr
      (some ⟨head after, last before, head n.child, n.item⟩) h)
    fun a ha => hframe₁ a (hne_of ha (notMem_child hnn))
  have heq₁ := Heap.write_eq hnew_cell
    fun c => { c with next := head after, prev := last before }
  generalize Function.update h n.addr
    (some ⟨head after, last before, head n.child, n.item⟩) = h₁ at hframe₁ hnew₁ heq₁
  -- `if (newitem->next) newitem->next->prev = newitem`
  obtain ⟨h₂, heq₂, hafter₂, hframe₂⟩ := linkPrev_seg
    (hafter.frame fun a ha => hframe₁ a fun heq => hd_after_n ha (heq ▸ hmem_n)) hna (some n.addr)
  have hroot₂ : h₂ root.addr = some ⟨q, p, head (before ++ m :: after), root.item⟩ := by
    rw [hframe₂ _ hroot_after, hframe₁ _ (hne_of hmem_n hroot_n).symm, hcell]
  have hbefore₂ : Seg h₂ none (some m.addr) before := by
    refine hbefore.frame fun a ha => ?_
    rw [hframe₂ a (hd_before_after ha), hframe₁ a fun heq => hd_before_n ha (heq ▸ hmem_n)]
  -- `if (c == array->child) array->child = newitem; else newitem->prev->next = newitem`
  obtain ⟨h₃, heq₃, hroot₃, hbefore₃, hframe₃⟩ :=
    linkInstead (n := n) hroot₂ hbefore₂ hnb hroot_before hhead
  -- `c->next = c->prev = 0`
  have hitem₃ : h₃ m.addr = some ⟨head after, last before, head m.child, m.item⟩ := by
    rw [hframe₃ _ (hne_of hmem_m hroot_m) fun hb => hd_before_m hb hmem_m,
      hframe₂ _ (hd_m_after hmem_m), hframe₁ m.addr fun heq => hd_m_n hmem_m (heq ▸ hmem_n),
      hitem_cell]
  have hframe₄ : ∀ a, a ≠ m.addr →
      Function.update h₃ m.addr (some ⟨none, none, head m.child, m.item⟩) a = h₃ a :=
    fun a ha => Function.update_of_ne ha _ _
  have hitem₄ : m.Holds (Function.update h₃ m.addr (some ⟨none, none, head m.child, m.item⟩))
      none none := by
    refine hitem.relink (Function.update_self _ _ _) fun a ha => ?_
    have hin : a ∈ m.addrs := by
      rw [addrs_eq]
      exact List.mem_cons_of_mem _ ha
    rw [hframe₄ a (hne_of ha (notMem_child hnm)),
      hframe₃ a (hne_of hin hroot_m) fun hb => hd_before_m hb hin, hframe₂ a (hd_m_after hin),
      hframe₁ a fun heq => hd_m_n hin (heq ▸ hmem_n)]
  have heq₄ := Heap.write_eq hitem₃ ({ · with next := none, prev := none })
  generalize Function.update h₃ m.addr (some ⟨none, none, head m.child, m.item⟩) = h₄
    at hframe₄ hitem₄ heq₄
  -- `cJSON_Delete(c)`
  have hdelete : deleteAll fuel h₄ (head [m]) = _ :=
    deleteAll_seg (seg_singleton.mpr hitem₄) (addrsAll_singleton m ▸ hnm) (by rwa [sizeAll, sizeAll])
  rw [addrsAll_singleton, head_cons] at hdelete
  have hframe₅ : ∀ a, a ∉ m.addrs → Heap.without h₄ m.addrs a = h₃ a := by
    intro a ha
    rw [Heap.without_of_notMem ha, hframe₄ a fun heq => ha (heq ▸ hmem_m)]
  refine ⟨Heap.without h₄ m.addrs, ?_, Node.Holds.rechild ?_ (seg_append.mpr ⟨?_, ?_⟩), ?_, ?_⟩
  · simp only [replaceItemInArray, hcell, hskip, hitem_cell, heq₁, heq₂, heq₃, heq₄, hdelete,
      Option.bind_eq_bind, Option.bind_some]
  · rw [hframe₅ _ hroot_m, hroot₃]
  · rw [head_cons, Option.some_or]
    exact hbefore₃.frame fun a ha => hframe₅ a (hd_before_m ha)
  · rw [Option.or_none, Seg, Option.or_none]
    constructor
    · refine hnew₁.frame fun a ha => ?_
      rw [hframe₅ a fun hm => hd_m_n hm ha,
        hframe₃ a (hne_of ha hroot_n) fun hb => hd_before_n hb ha,
        hframe₂ a fun hafter => hd_after_n hafter ha]
    · refine hafter₂.frame fun a ha => ?_
      rw [hframe₅ a fun hm => hd_m_after hm ha,
        hframe₃ a (hne_of ha hroot_after) fun hb => hd_before_after hb ha]
  · exact fun a ha => Heap.without_of_mem ha
  · intro a ha hnew
    simp only [List.mem_cons, List.mem_append, not_or] at ha
    rw [hframe₅ a ha.2.2.1, hframe₃ a ha.1 ha.2.1, hframe₂ a ha.2.2.2,
      hframe₁ a fun heq => hnew (heq ▸ hmem_n)]

/-- `cJSON_ReplaceItemInObject` names the new child and puts it in the place of the old one. -/
theorem replaceItemInObject_spec {root m n : Node α Item} {before after : List (Node α Item)}
    {string : CString} (hl : lookup string root.child = some (before, m, after))
    (hr : root.Holds h p q) (hnew : n.Holds h none none) (hn : (root.addrs ++ n.addrs).Nodup)
    {fuel : Nat} (hf : root.size ≤ fuel) :
    ∃ h', replaceItemInObject fuel h root.addr string (some n.addr) = some h' ∧
      (root.withChild (before ++ n.withItem (n.item.withString string) :: after)).Holds
        h' p q ∧
      (∀ a ∈ m.addrs, h' a = none) ∧ ∀ a, a ∉ root.addrs → a ∉ n.addrs → h' a = h a := by
  have hchild := lookup_some hl
  have hroot : root.withChild (before ++ m :: after) = root := by
    rw [← hchild, withChild_child]
  obtain ⟨hcell, hseg⟩ := holds_iff.mp hr
  obtain ⟨hnew_cell, hnew_seg⟩ := holds_iff.mp hnew
  obtain ⟨-, hnn, hdisj⟩ := List.nodup_append'.mp hn
  have hmem_n : n.addr ∈ n.addrs := by
    rw [addrs_eq]
    exact List.mem_cons_self
  have hsize : sizeAll root.child ≤ fuel := by
    rw [size_eq] at hf
    omega
  have hsearch := search_seg hseg (Nat.le_trans (length_le_sizeAll _) hsize) string 0
  rw [hl] at hsearch
  dsimp only at hsearch
  rw [Nat.zero_add] at hsearch
  -- `newitem->string = cJSON_strdup(string)`
  obtain ⟨h₁, hdef₁⟩ : ∃ h₁ : Heap α Item, h₁ = Function.update h n.addr
      (some ⟨none, none, head n.child, (n.item.withString string)⟩) := ⟨_, rfl⟩
  have heq₁ : h.write n.addr (fun c => { c with item := c.item.withString string }) =
      some h₁ := by
    rw [hdef₁, Heap.write_eq hnew_cell]
  have hframe₁ : ∀ a, a ≠ n.addr → h₁ a = h a := by
    intro a ha
    rw [hdef₁, Function.update_of_ne ha]
  have hnew₁ : (n.withItem (n.item.withString string)).Holds h₁ none none := by
    refine holds_iff.mpr ⟨?_, ?_⟩
    · rw [addr_withItem, child_withItem, item_withItem, hdef₁, Function.update_self]
    · rw [child_withItem]
      exact hnew_seg.frame fun a ha => hframe₁ a fun heq => notMem_child hnn (heq ▸ ha)
  have hroot₁ : root.Holds h₁ p q :=
    hr.frame fun a ha => hframe₁ a fun heq => hdisj ha (heq ▸ hmem_n)
  have hm : m.size ≤ fuel := by
    rw [hchild, sizeAll_append, sizeAll] at hsize
    omega
  obtain ⟨h', heq', hres, hfreed, hframe⟩ := @replaceItemInArray_spec _ _ _ _ _ root _ _ _ _
    (hroot ▸ hroot₁) hnew₁ (by rwa [hroot, addrs_withItem]) _ hm
  rw [hroot, addrs_withItem] at hframe
  rw [addr_withItem] at heq'
  refine ⟨h', ?_, hres, hfreed, fun a ha hna => ?_⟩
  · simp only [replaceItemInObject, hcell, hsearch, heq₁, heq', Option.bind_eq_bind,
      Option.bind_some]
  · rw [hframe a ha hna, hframe₁ a fun heq => hna (heq ▸ hmem_n)]

end Specs

/-! ## Items -/

section Items

variable {α : Type} [DecidableEq α] {h h' : Heap α Item} {P : Item → Prop}

theorem Everywhere.addItemToArray (hh : h.Everywhere P) {fuel : Nat} {array : α} {item : Option α}
    (heq : Turnserver.addItemToArray fuel h array item = some h') : h'.Everywhere P := by
  obtain ⟨a, -, heq⟩ := Option.bind_eq_some_iff.mp heq
  -- a null item is not appended
  cases item with
  | none =>
    cases heq
    exact hh
  | some item =>
    -- the first item hangs on the root, others on the last child
    cases hchild : a.child with
    | none =>
      rw [hchild] at heq
      exact hh.write (f := ({ · with child := some item })) (fun c hc => hc) heq
    | some c =>
      rw [hchild] at heq
      obtain ⟨last, -, heq⟩ := Option.bind_eq_some_iff.mp heq
      obtain ⟨h₁, heq₁, heq₂⟩ := Option.bind_eq_some_iff.mp heq
      have hh₁ : h₁.Everywhere P :=
        hh.write (f := ({ · with next := some item })) (fun c hc => hc) heq₁
      exact hh₁.write (f := ({ · with prev := some last })) (fun c hc => hc) heq₂

theorem Everywhere.detachItemFromArray (hh : h.Everywhere P) {array : α} {which : Nat}
    {item : Option α} (heq : Turnserver.detachItemFromArray h array which = some (item, h')) :
    h'.Everywhere P := by
  obtain ⟨a, -, heq⟩ := Option.bind_eq_some_iff.mp heq
  obtain ⟨c, -, heq⟩ := Option.bind_eq_some_iff.mp heq
  -- nothing is detached at an index out of range
  cases c with
  | none =>
    cases heq
    exact hh
  | some c =>
    obtain ⟨cell, -, heq⟩ := Option.bind_eq_some_iff.mp heq
    obtain ⟨h₁, heq₁, heq⟩ := Option.bind_eq_some_iff.mp heq
    obtain ⟨h₂, heq₂, heq⟩ := Option.bind_eq_some_iff.mp heq
    obtain ⟨h₃, heq₃, heq⟩ := Option.bind_eq_some_iff.mp heq
    obtain ⟨h₄, heq₄, heq⟩ := Option.bind_eq_some_iff.mp heq
    cases heq
    -- the neighbours are linked to each other
    have hh₂ : h₂.Everywhere P := (hh.linkNext heq₁).linkPrev heq₂
    have hh₃ : h₃.Everywhere P := by
      -- the first child is also the one that the root points at
      split at heq₃
      · exact hh₂.write (f := ({ · with child := cell.next })) (fun c hc => hc) heq₃
      · cases heq₃
        exact hh₂
    exact hh₃.write (f := ({ · with next := none, prev := none })) (fun c hc => hc) heq₄

theorem Everywhere.replaceItemInArray (hh : h.Everywhere P) {fuel : Nat} {array newitem : α}
    {which : Nat} (heq : Turnserver.replaceItemInArray fuel h array which newitem = some h') :
    h'.Everywhere P := by
  obtain ⟨a, -, heq⟩ := Option.bind_eq_some_iff.mp heq
  obtain ⟨c, -, heq⟩ := Option.bind_eq_some_iff.mp heq
  -- nothing is replaced at an index out of range
  cases c with
  | none =>
    cases heq
    exact hh
  | some c =>
    obtain ⟨cell, -, heq⟩ := Option.bind_eq_some_iff.mp heq
    obtain ⟨h₁, heq₁, heq⟩ := Option.bind_eq_some_iff.mp heq
    obtain ⟨h₂, heq₂, heq⟩ := Option.bind_eq_some_iff.mp heq
    obtain ⟨h₃, heq₃, heq⟩ := Option.bind_eq_some_iff.mp heq
    obtain ⟨h₄, heq₄, heq⟩ := Option.bind_eq_some_iff.mp heq
    -- the new item takes over the links of the old one
    have hh₁ : h₁.Everywhere P :=
      hh.write (f := ({ · with next := cell.next, prev := cell.prev })) (fun c hc => hc) heq₁
    have hh₂ : h₂.Everywhere P := hh₁.linkPrev heq₂
    have hh₃ : h₃.Everywhere P := by
      split at heq₃
      · exact hh₂.write (f := ({ · with child := some newitem })) (fun c hc => hc) heq₃
      · obtain ⟨prev, -, heq₃⟩ := Option.bind_eq_some_iff.mp heq₃
        exact hh₂.write (f := ({ · with next := some newitem })) (fun c hc => hc) heq₃
    have hh₄ : h₄.Everywhere P :=
      hh₃.write (f := ({ · with next := none, prev := none })) (fun c hc => hc) heq₄
    -- the old item is deleted in the end
    exact hh₄.deleteAll heq

/-- Replacing by name keeps what holds of every item, if naming an item does. -/
theorem Everywhere.replaceItemInObject (hname : ∀ i s, P i → P (i.withString s))
    (hh : h.Everywhere P) {fuel : Nat} {object : α} {string : CString} {newitem : Option α}
    (heq : Turnserver.replaceItemInObject fuel h object string newitem = some h') :
    h'.Everywhere P := by
  obtain ⟨o, -, heq⟩ := Option.bind_eq_some_iff.mp heq
  obtain ⟨⟨c, i⟩, -, heq⟩ := Option.bind_eq_some_iff.mp heq
  cases c with
  | none =>
    cases heq
    exact hh
  | some c =>
    obtain ⟨newitem, -, heq⟩ := Option.bind_eq_some_iff.mp heq
    obtain ⟨h₁, heq₁, heq⟩ := Option.bind_eq_some_iff.mp heq
    have hh₁ : h₁.Everywhere P := hh.write (fun c hc => hname c.item string hc) heq₁
    exact Everywhere.replaceItemInArray hh₁ heq

end Items

end Turnserver
