/-
  THE WRAPPER (`new_elbs/json_wrapper.h`, `new_elbs/json_wrapper.cc`, 765–805) — `merge` and
  `reverse_merge`.

  A `JsonWrapper` is a pointer to a node, or to nothing, and a flag that says whether the wrapper owns
  the tree below it.  `merge` merges the profile into the wrapper's tree; `reverse_merge` merges the
  wrapper's tree into the profile's and takes that over.
-/
import Turnserver.Json.Merge

namespace Turnserver

open LinkedTree Node

/-- The members of `JsonWrapper`. -/
structure JsonWrapper (α : Type) where
  m_root : Option α
  m_owner : Bool

namespace JsonWrapper

variable {α : Type} [DecidableEq α]

/-- `isValid` -/
def isValid (w : JsonWrapper α) : Bool := w.m_root.isSome

/-- `parse(nullptr)` -/
def parseNull (fuel : Nat) (h : Heap α Item) (w : JsonWrapper α) :
    Option (Heap α Item × JsonWrapper α) := do
  let h ← (if w.m_owner then deleteAll fuel h w.m_root else some h)
  some (h, ⟨none, true⟩)

/-- `merge(JsonWrapper& profile)`, for another wrapper: the heap, the wrapper and the profile. -/
def merge (fuel : Nat) (h : Heap α Item) (w profile : JsonWrapper α) :
    Option (Heap α Item × JsonWrapper α × JsonWrapper α) := do
  if w.isValid && profile.isValid then
    let (h, _) ← doMerge fuel h w.m_root profile.m_root
    some (h, w, profile)
  else if profile.isValid then
    let (h, w) ← w.parseNull fuel h
    some (h, { w with m_root := profile.m_root, m_owner := true }, { profile with m_owner := false })
  else some (h, w, profile)

/-- `reverse_merge(JsonWrapper& profile)`, for another wrapper. -/
def reverse_merge (fuel : Nat) (h : Heap α Item) (w profile : JsonWrapper α) :
    Option (Heap α Item × JsonWrapper α × JsonWrapper α) := do
  let (h, _) ← (if w.isValid && profile.isValid then doMerge fuel h profile.m_root w.m_root
    else some (h, []))
  if profile.isValid then
    let (h, w) ← w.parseNull fuel h
    some (h, { w with m_root := profile.m_root, m_owner := true }, { profile with m_owner := false })
  else some (h, w, profile)

/-- The wrapper points to this tree, or to nothing. -/
def Holding (h : Heap α Item) (w : JsonWrapper α) (t : Option (Node α Item)) : Prop :=
  w.m_root = t.map addr ∧ ∀ n, t = some n → n.Holds h none none

/-- The nodes of a tree, if there is one. -/
def nodes (t : Option (Node α Item)) : List α := t.elim [] addrs

/-- Parsing nothing leaves an empty wrapper that owns itself. -/
theorem parseNull_none {fuel : Nat} {h : Heap α Item} {w : JsonWrapper α} (hw : w.m_root = none) :
    w.parseNull fuel h = some (h, ⟨none, true⟩) := by
  rw [parseNull, hw, deleteAll, ite_self]
  rfl

/-- What is left of the heap when a wrapper gives up a tree: the tree is freed if the wrapper owns it. -/
def afterParse (h : Heap α Item) (w : JsonWrapper α) (as : List α) : Heap α Item :=
  if w.m_owner then h.without as else h

/-- The heap behind the old tree is not touched. -/
theorem afterParse_of_notMem {h : Heap α Item} {w : JsonWrapper α} {as : List α} {a : α}
    (ha : a ∉ as) : w.afterParse h as a = h a := by
  rw [afterParse]
  split
  · exact Heap.without_of_notMem ha
  · rfl

/-- Parsing nothing frees exactly the tree of an owner. -/
theorem parseNull_some {fuel : Nat} {h : Heap α Item} {w : JsonWrapper α} {n : Node α Item}
    (hroot : w.m_root = some n.addr) (hn : n.Holds h none none) (hnodup : n.addrs.Nodup)
    (hf : n.size ≤ fuel) :
    w.parseNull fuel h = some (w.afterParse h n.addrs, ⟨none, true⟩) := by
  have hdelete : deleteAll fuel h (head [n]) = _ :=
    deleteAll_seg (seg_singleton.mpr hn) (addrsAll_singleton n ▸ hnodup) (by rwa [sizeAll, sizeAll])
  rw [addrsAll_singleton, head_cons] at hdelete
  rw [parseNull, hroot, hdelete, afterParse]
  cases w.m_owner with
  | false => rfl
  | true => rfl

/-- `j.reverse_merge(p)` leaves in `j` the tree that `p.merge(j)` would leave in `p`. -/
theorem reverse_merge_eq_merge {h : Heap α Item} {j p : JsonWrapper α} {tj tp : Option (Node α Item)}
    (hj : j.Holding h tj) (hp : p.Holding h tp) (hn : (nodes tp ++ nodes tj).Nodup) :
    ∃ N hr hm j' p' j₁ p₁ t, ∀ fuel, N ≤ fuel →
      j.reverse_merge fuel h p = some (hr, j', p₁) ∧ p.merge fuel h j = some (hm, p', j₁) ∧
      j'.Holding hr t ∧ p'.Holding hm t := by
  cases tj with
  | none =>
    have hroot_j : j.m_root = none := hj.1
    cases tp with
    | none =>
      have hroot_p : p.m_root = none := hp.1
      refine ⟨0, h, h, j, p, j, p, none, fun fuel _ => ⟨?_, ?_, hj, hp⟩⟩
      · rw [reverse_merge, isValid, isValid, hroot_j, hroot_p]
        rfl
      · rw [merge, isValid, isValid, hroot_j, hroot_p]
        rfl
    | some n =>
      have hroot_p : p.m_root = some n.addr := hp.1
      refine ⟨0, h, h, ⟨some n.addr, true⟩, p, j, ⟨some n.addr, false⟩, some n,
        fun fuel _ => ⟨?_, ?_, ⟨rfl, hp.2⟩, hp⟩⟩
      · simp [reverse_merge, isValid, hroot_j, hroot_p, parseNull_none hroot_j]
      · rw [merge, isValid, isValid, hroot_j, hroot_p]
        rfl
  | some m =>
    have hroot_j : j.m_root = some m.addr := hj.1
    cases tp with
    | none =>
      have hroot_p : p.m_root = none := hp.1
      refine ⟨0, h, h, j, ⟨some m.addr, true⟩, ⟨some m.addr, false⟩, p, some m,
        fun fuel _ => ⟨?_, ?_, hj, ⟨rfl, hj.2⟩⟩⟩
      · rw [reverse_merge, isValid, isValid, hroot_j, hroot_p]
        rfl
      · simp [merge, isValid, hroot_j, hroot_p, parseNull_none hroot_p]
    | some n =>
      have hroot_p : p.m_root = some n.addr := hp.1
      obtain ⟨h', merged, t1, t2, gone, hmerge, ht1, haddr1, ht2, haddr2, hperm, -, -, -⟩ :=
        doMerge_ends (hp.2 n rfl) (hj.2 m rfl) hn
      obtain ⟨hn1, hn2, hdisj⟩ := List.nodup_append'.mp (hperm.nodup_iff.mpr hn)
      have hsize : t2.size ≤ n.size + m.size := by
        have hlen := hperm.length_eq
        simp only [List.length_append, ← size_eq_length] at hlen
        omega
      -- the remains of the tree of `j` are given up; the tree of `p` is elsewhere
      have hkeep : t1.Holds (j.afterParse h' t2.addrs) none none :=
        ht1.frame fun a ha => afterParse_of_notMem (hdisj (List.mem_append_left _ ha))
      refine ⟨n.size + 3 * m.size, j.afterParse h' t2.addrs, h', ⟨some n.addr, true⟩, p, j,
        ⟨some n.addr, false⟩, some t1, fun fuel hf => ⟨?_, ?_, ⟨?_, ?_⟩, ⟨?_, ?_⟩⟩⟩
      · have hsize2 : t2.size ≤ fuel := by omega
        have hclear := parseNull_some (hroot_j.trans (by rw [haddr2])) ht2 hn2 hsize2
        rw [reverse_merge]
        simp only [isValid, hroot_j, hroot_p, Option.isSome_some, Bool.and_self, if_true, hmerge fuel hf,
          Option.bind_eq_bind, Option.bind_some, hclear]
      · rw [merge]
        simp only [isValid, hroot_j, hroot_p, Option.isSome_some, Bool.and_self, if_true, hmerge fuel hf,
          Option.bind_eq_bind, Option.bind_some]
      · rw [Option.map_some, haddr1]
      · rintro _ ⟨⟩
        exact hkeep
      · rw [Option.map_some, haddr1]
        exact hroot_p
      · rintro _ ⟨⟩
        exact ht1

end JsonWrapper

/-- **Merging is right, and moves every node exactly once.** -/
theorem doMerge_moves_once {α : Type} [DecidableEq α] (h : Heap α Item) :
    (∀ (root1 root2 : Node α Item) (p1 q1 p2 q2 : Option α),
      root1.Holds h p1 q1 → root2.Holds h p2 q2 → (root1.addrs ++ root2.addrs).Nodup →
      root1.item.type = root2.item.type →
      ∃ (h' : Heap α Item) (root1' root2' : Node α Item) (moved freed : List (Node α Item))
        (merged : List α),
        (∀ fuel, root1.size + 3 * root2.size ≤ fuel →
          doMerge fuel h (some root1.addr) (some root2.addr) = some (h', merged)) ∧
        (root1'.Holds h' p1 q1 ∧ root1'.addr = root1.addr) ∧
        (root2'.Holds h' p2 q2 ∧ root2'.addr = root2.addr) ∧
        root1'.erase = doMergeCopy root1.erase root2.erase ∧
        (root1'.addrs ++ root2'.addrs).Nodup ∧
        root2'.addrs = root2.addr :: merged ∧
        (root2'.addrs ++ addrsAll moved).Perm root2.addrs ∧
        (root1'.addrs ++ addrsAll freed).Perm (root1.addrs ++ addrsAll moved) ∧
        (∀ a ∈ addrsAll freed, h' a = none) ∧
        ∀ a, a ∉ root1.addrs ++ root2.addrs → h' a = h a) ∧
    ∀ (j p : JsonWrapper α) (tj tp : Option (Node α Item)),
      j.Holding h tj → p.Holding h tp → (JsonWrapper.nodes tp ++ JsonWrapper.nodes tj).Nodup →
      ∃ N hr hm j' p' j₁ p₁ t, ∀ fuel, N ≤ fuel →
        j.reverse_merge fuel h p = some (hr, j', p₁) ∧ p.merge fuel h j = some (hm, p', j₁) ∧
        j'.Holding hr t ∧ p'.Holding hm t := by
  refine ⟨?_, fun j p tj tp hj hp hn => JsonWrapper.reverse_merge_eq_merge hj hp hn⟩
  intro root1 root2 p1 q1 p2 q2 hr1 hr2 hn ht
  obtain ⟨h', heq, hm⟩ := doMerge_spec hr1 hr2 hn ht
  -- at the start no child was met
  have hself : root2.withChild ([] ++ root2.child) = root2 := by
    rw [List.nil_append, withChild_child]
  have hperm := withChild_mergeItems_perm root1 root2 [] root2.child
  have htarget := mergeItems_target root2.child root1.child
  have hsource := mergeItems_source root2.child root1.child
  have hframe := hm.frame
  have hholds2 := hm.holds2
  rw [hself] at hperm hframe
  rw [List.nil_append] at hperm hholds2
  -- the lists of the recursion describe all three kinds of nodes
  generalize hs : mergeItems root1.child root2.child = s at heq hperm htarget hsource
  refine ⟨h', root1.withChild s.child1, root2.withChild s.child2, s.moved, s.freed, addrsAll s.child2,
    heq, ⟨hs ▸ hm.holds1, addr_withChild _ _⟩, ⟨hs ▸ hholds2, addr_withChild _ _⟩, ?_, ?_, ?_, ?_, ?_,
    hs ▸ hm.freed, hframe⟩
  · rw [erase_withChild, ← hs, eraseAll_mergeItems, doMergeCopy, erase_item, erase_item,
      if_neg (not_not.mpr ht), erase_child, erase_child]
  -- the two trees share no node, for the nodes were only moved around
  · have hnodup := hperm.nodup_iff.mpr hn
    simp only [List.nodup_append', List.disjoint_append_left] at hnodup ⊢
    exact ⟨hnodup.1.1, hnodup.2.1, hnodup.2.2.1⟩
  · rw [addrs_withChild]
  · rw [addrs_withChild, addrs_eq root2, List.cons_append]
    exact hsource.cons _
  · rw [addrs_withChild, addrs_eq root1, List.cons_append, List.cons_append]
    exact htarget.cons _

/-- `{"a":1,"b":{"c":3}}` -/
def sampleBase : Node Nat Item :=
  let item (type : JsonType) (valueint : Int) (string : Option CString) : Item :=
    ⟨type, none, valueint, valueint, string⟩
  .mk 0 (item .Object 0 none) [.mk 1 (item .Number 1 (some [97])) [],
    .mk 2 (item .Object 0 (some [98])) [.mk 3 (item .Number 3 (some [99])) []]]

/-- `{"A":7,"B":{"d":4},"e":5}` -/
def sampleProfile : Node Nat Item :=
  let item (type : JsonType) (valueint : Int) (string : Option CString) : Item :=
    ⟨type, none, valueint, valueint, string⟩
  .mk 10 (item .Object 0 none) [.mk 11 (item .Number 7 (some [65])) [],
    .mk 12 (item .Object 0 (some [66])) [.mk 13 (item .Number 4 (some [100])) []],
    .mk 14 (item .Number 5 (some [101])) []]

/-- Both, and nothing else. -/
def sampleHeap : Heap Nat Item := (Heap.empty.alloc sampleBase).alloc sampleProfile

theorem doMerge_moves_once_sample :
    ∃ (h' : Heap Nat Item) (root1' : Node Nat Item) (merged : List Nat),
      doMerge 19 sampleHeap (some 0) (some 10) = some (h', merged) ∧
      root1'.Holds h' none none ∧
      root1'.erase = doMergeCopy sampleBase.erase sampleProfile.erase := by
  have hdisj : ∀ a ∈ sampleBase.addrs, a ∉ sampleProfile.addrs := by decide
  have hbase : sampleBase.Holds sampleHeap none none :=
    Node.Holds.frame (Heap.alloc_holds (by decide) fun _ _ => rfl)
      fun a ha => Heap.alloc_of_notMem (hdisj a ha)
  have hprofile : sampleProfile.Holds sampleHeap none none := by
    refine Heap.alloc_holds (by decide) fun a ha => ?_
    rw [Heap.alloc_of_notMem fun hbase => hdisj a hbase ha]
    rfl
  obtain ⟨h', root1', -, -, -, merged, heq, ⟨hholds, -⟩, -, herase, -⟩ :=
    (doMerge_moves_once sampleHeap).1 sampleBase sampleProfile none none none none hbase hprofile
      (by decide) rfl
  exact ⟨h', root1', merged, heq 19 (by decide), hholds, herase⟩

end Turnserver
