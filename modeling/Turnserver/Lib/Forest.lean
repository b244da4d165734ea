/-
  FORESTS — trees that share a heap, and the trees inside them.

  A forest is a list of trees that have no node in common and have every live cell between them.  A
  pointer to a live cell points to the root of a `subtree`.

  * `graft f` puts other trees in the place of subtrees; `cuts f` are the subtrees that go and
    `kept f` the addresses of the nodes that stay (`addrsAll_cuts`, `addrsAll_graft`).
  * `seg_graft` — what is around the grafts is framed, and the grafts have the siblings of what they
    replace.
  * `Forest.alloc`, `Forest.delete`, `Forest.graft` — a tree comes, a tree goes, two subtrees change.
-/
import Turnserver.Lib.LinkedTree
import Mathlib.Data.List.Count
import Mathlib.Data.List.Perm.Subperm

namespace LinkedTree

variable {α ι : Type}

/-! ## Subtrees and grafts -/

namespace Node

mutual

/-- The tree, and everything below it. -/
def subtrees : Node α ι → List (Node α ι)
  | mk a i c => mk a i c :: subtreesAll c

/-- All subtrees of a list of trees. -/
def subtreesAll : List (Node α ι) → List (Node α ι)
  | [] => []
  | n :: ns => subtrees n ++ subtreesAll ns

end

mutual

/-- Other trees in the place of the subtrees at some addresses. -/
def graft (f : α → Option (Node α ι)) : Node α ι → Node α ι
  | mk a i c =>
    match f a with
    | some n => n
    | none => mk a i (graftAll f c)

/-- Every tree is grafted. -/
def graftAll (f : α → Option (Node α ι)) : List (Node α ι) → List (Node α ι)
  | [] => []
  | n :: ns => graft f n :: graftAll f ns

end

mutual

/-- The subtrees that are replaced. -/
def cuts (f : α → Option (Node α ι)) : Node α ι → List (Node α ι)
  | mk a i c =>
    match f a with
    | some _ => [mk a i c]
    | none => cutsAll f c

/-- What is cut from each of the trees. -/
def cutsAll (f : α → Option (Node α ι)) : List (Node α ι) → List (Node α ι)
  | [] => []
  | n :: ns => cuts f n ++ cutsAll f ns

end

mutual

/-- The addresses of the nodes that stay. -/
def kept (f : α → Option (Node α ι)) : Node α ι → List α
  | mk a _ c =>
    match f a with
    | some _ => []
    | none => a :: keptAll f c

/-- What is kept of each of the trees. -/
def keptAll (f : α → Option (Node α ι)) : List (Node α ι) → List α
  | [] => []
  | n :: ns => kept f n ++ keptAll f ns

end

/-- The first subtree is the tree. -/
theorem subtrees_eq (n : Node α ι) : n.subtrees = n :: subtreesAll n.child := by
  cases n
  rw [subtrees]
  rfl

theorem subtreesAll_append (ns ms : List (Node α ι)) :
    subtreesAll (ns ++ ms) = subtreesAll ns ++ subtreesAll ms := by
  induction ns with
  | nil => rfl
  | cons n ns ih => rw [List.cons_append, subtreesAll, subtreesAll, ih, List.append_assoc]

/-- A subtree of a list is in its first tree or in the others. -/
theorem mem_subtreesAll_cons {m n : Node α ι} {ns : List (Node α ι)} :
    m ∈ subtreesAll (n :: ns) ↔ (m = n ∨ m ∈ subtreesAll n.child) ∨ m ∈ subtreesAll ns := by
  rw [subtreesAll, subtrees_eq, List.mem_append, List.mem_cons]

section Graft

variable {f : α → Option (Node α ι)} {n n' : Node α ι}

/-- Where something is grafted it takes the place of the tree. -/
theorem graft_some (h : f n.addr = some n') : graft f n = n' := by
  cases n
  rw [addr] at h
  rw [graft, h]

/-- Where nothing is, the children are grafted. -/
theorem graft_none (h : f n.addr = none) : graft f n = n.withChild (graftAll f n.child) := by
  cases n
  rw [addr] at h
  rw [graft, h]
  rfl

theorem cuts_some (h : f n.addr = some n') : cuts f n = [n] := by
  cases n
  rw [addr] at h
  rw [cuts, h]

theorem cuts_none (h : f n.addr = none) : cuts f n = cutsAll f n.child := by
  cases n
  rw [addr] at h
  rw [cuts, h]
  rfl

theorem kept_some (h : f n.addr = some n') : kept f n = [] := by
  cases n
  rw [addr] at h
  rw [kept, h]

theorem kept_none (h : f n.addr = none) : kept f n = n.addr :: keptAll f n.child := by
  cases n
  rw [addr] at h
  rw [kept, h]
  rfl

end Graft

/-! ## Addresses -/

/-- The addresses of a list are those of its trees. -/
theorem mem_addrsAll {a : α} {ns : List (Node α ι)} :
    a ∈ addrsAll ns ↔ ∃ n ∈ ns, a ∈ n.addrs := by
  induction ns with
  | nil => simp [addrsAll]
  | cons n ns ih => simp [addrsAll, ih]

theorem addr_mem_addrs (n : Node α ι) : n.addr ∈ n.addrs := by
  rw [addrs_eq]
  exact List.mem_cons_self

/-- The order of the trees does not matter for their addresses. -/
theorem addrsAll_perm {ns ms : List (Node α ι)} (h : ns.Perm ms) :
    (addrsAll ns).Perm (addrsAll ms) := by
  have heq : ∀ ns : List (Node α ι), addrsAll ns = ns.flatMap addrs := by
    intro ns
    induction ns with
    | nil => rfl
    | cons n ns ih => rw [addrsAll, ih, List.flatMap_cons]
  rw [heq, heq]
  exact h.flatMap_right addrs

/-- Trees that share no node are different. -/
theorem nodup_of_addrsAll {ns : List (Node α ι)} (h : (addrsAll ns).Nodup) : ns.Nodup := by
  induction ns with
  | nil => exact List.nodup_nil
  | cons n ns ih =>
    rw [addrsAll] at h
    obtain ⟨-, hns, hdisj⟩ := List.nodup_append'.mp h
    refine List.nodup_cons.mpr ⟨?_, ih hns⟩
    intro hmem
    exact hdisj (addr_mem_addrs n) (mem_addrsAll.mpr ⟨n, hmem, addr_mem_addrs n⟩)

/-- The addresses of a subtree come in their order. -/
theorem sublist_of_mem_subtreesAll {m : Node α ι} {ns : List (Node α ι)}
    (h : m ∈ subtreesAll ns) : m.addrs.Sublist (addrsAll ns) := by
  induction ns using list_induction with
  | nil => cases h
  | cons n ns ihc ih =>
    rw [addrsAll]
    rcases mem_subtreesAll_cons.mp h with (rfl | h) | h
    · exact List.sublist_append_left _ _
    · rw [addrs_eq n]
      exact ((ihc h).trans (List.sublist_cons_self _ _)).trans (List.sublist_append_left _ _)
    · exact (ih h).trans (List.sublist_append_right _ _)

/-- Every address is the root of a subtree. -/
theorem exists_subtree {a : α} {ns : List (Node α ι)} (h : a ∈ addrsAll ns) :
    ∃ m ∈ subtreesAll ns, m.addr = a := by
  induction ns using list_induction with
  | nil => cases h
  | cons n ns ihc ih =>
    rw [addrsAll, addrs_eq, List.cons_append, List.mem_cons, List.mem_append] at h
    rcases h with rfl | h | h
    · exact ⟨n, mem_subtreesAll_cons.mpr (Or.inl (Or.inl rfl)), rfl⟩
    · obtain ⟨m, hm, rfl⟩ := ihc h
      exact ⟨m, mem_subtreesAll_cons.mpr (Or.inl (Or.inr hm)), rfl⟩
    · obtain ⟨m, hm, rfl⟩ := ih h
      exact ⟨m, mem_subtreesAll_cons.mpr (Or.inr hm), rfl⟩

section Perm

variable [DecidableEq α] (f : α → Option (Node α ι))

/-- The nodes of a list stay or are in one of the cuts. -/
theorem addrsAll_cuts (ns : List (Node α ι)) :
    (addrsAll ns).Perm (keptAll f ns ++ addrsAll (cutsAll f ns)) := by
  induction ns using list_induction with
  | nil => exact List.Perm.nil
  | cons n ns ihc ih =>
    rw [List.perm_iff_count] at ihc ih ⊢
    intro a
    rw [addrsAll, keptAll, cutsAll, addrsAll_append]
    cases hf : f n.addr with
    | some n' =>
      rw [kept_some hf, cuts_some hf, addrsAll_singleton]
      simp only [List.count_append, List.count_nil, ih a]
      omega
    | none =>
      rw [kept_none hf, cuts_none hf, addrs_eq]
      simp only [List.count_append, List.count_cons, ih a, ihc a]
      omega

/-- Afterwards they stay or are in what takes the place of a cut. -/
theorem addrsAll_graft (ns : List (Node α ι)) :
    (addrsAll (graftAll f ns)).Perm
      (keptAll f ns ++ addrsAll ((cutsAll f ns).filterMap fun n => f n.addr)) := by
  induction ns using list_induction with
  | nil => exact List.Perm.nil
  | cons n ns ihc ih =>
    rw [List.perm_iff_count] at ihc ih ⊢
    intro a
    rw [graftAll, addrsAll, keptAll, cutsAll, List.filterMap_append, addrsAll_append]
    cases hf : f n.addr with
    | some n' =>
      have hcut : [n].filterMap (fun n => f n.addr) = [n'] := by simp [hf]
      rw [graft_some hf, kept_some hf, cuts_some hf, hcut, addrsAll_singleton]
      simp only [List.count_append, List.count_nil, ih a]
      omega
    | none =>
      rw [graft_none hf, kept_none hf, cuts_none hf, addrs_withChild]
      simp only [List.count_append, List.count_cons, ih a, ihc a]
      omega

end Perm

/-- What is cut is a subtree at which something is grafted. -/
theorem mem_cutsAll {f : α → Option (Node α ι)} {m : Node α ι} {ns : List (Node α ι)}
    (h : m ∈ cutsAll f ns) : m ∈ subtreesAll ns ∧ (f m.addr).isSome = true := by
  induction ns using list_induction with
  | nil => cases h
  | cons n ns ihc ih =>
    rw [mem_subtreesAll_cons]
    rw [cutsAll, List.mem_append] at h
    rcases h with h | h
    · cases hf : f n.addr with
      | some n' =>
        rw [cuts_some hf] at h
        rw [List.mem_singleton.mp h, hf]
        exact ⟨Or.inl (Or.inl rfl), rfl⟩
      | none =>
        rw [cuts_none hf] at h
        exact ⟨Or.inl (Or.inr (ihc h).1), (ihc h).2⟩
    · exact ⟨Or.inr (ih h).1, (ih h).2⟩

/-- A subtree that is to be replaced is in a cut. -/
theorem exists_cut {f : α → Option (Node α ι)} {m : Node α ι} {ns : List (Node α ι)}
    (hm : m ∈ subtreesAll ns) (hf : (f m.addr).isSome = true) :
    ∃ k ∈ cutsAll f ns, m ∈ k.subtrees := by
  -- the first tree that `f` replaces on the way down to `m` is the cut
  induction ns using list_induction with
  | nil => cases hm
  | cons n ns ihc ih =>
    rw [cutsAll]
    rcases mem_subtreesAll_cons.mp hm with hm | hm
    · cases hn : f n.addr with
      | some n' =>
        refine ⟨n, List.mem_append_left _ ?_, ?_⟩
        · rw [cuts_some hn]
          exact List.mem_singleton.mpr rfl
        · rw [subtrees_eq]
          exact List.mem_cons.mpr hm
      -- `n` stays, so `m` lies among its children
      | none =>
        rcases hm with rfl | hm
        · rw [hn] at hf
          cases hf
        · obtain ⟨k, hk, hmk⟩ := ihc hm
          refine ⟨k, List.mem_append_left _ ?_, hmk⟩
          rw [cuts_none hn]
          exact hk
    · obtain ⟨k, hk, hmk⟩ := ih hm
      exact ⟨k, List.mem_append_right _ hk, hmk⟩

end Node

open Node

/-! ## In the heap -/

variable {h h' : Heap α ι} {p p' q q' : Option α}

/-- A subtree of a list in the heap is in the heap. -/
theorem Seg.subtree {ns : List (Node α ι)} (hs : Seg h p q ns) {m : Node α ι}
    (hm : m ∈ subtreesAll ns) : ∃ p' q', m.Holds h p' q' := by
  induction ns using list_induction generalizing p q with
  | nil => cases hm
  | cons n ns ihc ih =>
    rw [Seg] at hs
    rcases mem_subtreesAll_cons.mp hm with (rfl | hm) | hm
    · exact ⟨_, _, hs.1⟩
    · exact ihc (holds_iff.mp hs.1).2 hm
    · exact ih hs.2 hm

/-- Grafting keeps the first address, if it keeps addresses. -/
theorem head_graftAll {f : α → Option (Node α ι)} (hf : ∀ a n, f a = some n → n.addr = a)
    (ns : List (Node α ι)) : head (graftAll f ns) = head ns := by
  cases ns with
  | nil => rfl
  | cons n ns =>
    rw [graftAll, head_cons, head_cons]
    cases hn : f n.addr with
    | some n' => rw [graft_some hn, hf _ _ hn]
    | none => rw [graft_none hn, addr_withChild]

/-- Grafting keeps the address of the tree. -/
theorem addr_graft {f : α → Option (Node α ι)} (hf : ∀ a n, f a = some n → n.addr = a)
    (n : Node α ι) : (graft f n).addr = n.addr := by
  have hhead := head_graftAll hf [n]
  rw [graftAll, head_cons, head_cons] at hhead
  exact Option.some_inj.mp hhead

/-- The grafts have the siblings of what they replace, and the nodes that stay are as they were. -/
theorem seg_graft {f : α → Option (Node α ι)} (haddr : ∀ a n, f a = some n → n.addr = a)
    (hf : ∀ a n c, f a = some n → h a = some c → n.Holds h' c.prev c.next)
    {ns : List (Node α ι)} (hs : Seg h p q ns) (hag : ∀ a ∈ keptAll f ns, h' a = h a) :
    Seg h' p q (graftAll f ns) := by
  induction ns using list_induction generalizing p q with
  | nil => exact seg_nil
  | cons n ns ihc ih =>
    rw [Seg] at hs
    rw [keptAll] at hag
    rw [graftAll, Seg, head_graftAll haddr, addr_graft haddr]
    refine ⟨?_, ih hs.2 fun a ha => hag a (List.mem_append_right _ ha)⟩
    obtain ⟨hcell, hchild⟩ := holds_iff.mp hs.1
    -- a node is replaced as a whole, or keeps its cell and gets other children
    cases hn : f n.addr with
    | some n' =>
      rw [graft_some hn]
      exact hf _ _ _ hn hcell
    | none =>
      -- its own cell and the cells below it are kept
      rw [kept_none hn] at hag
      rw [graft_none hn]
      refine Node.Holds.rechild ?_ (ihc hchild fun a ha => ?_)
      · rw [hag _ (List.mem_append_left _ List.mem_cons_self), hcell, head_graftAll haddr]
      · exact hag a (List.mem_append_left _ (List.mem_cons_of_mem _ ha))

/-- Grafting keeps the addresses of the trees in a list. -/
theorem map_addr_graftAll {f : α → Option (Node α ι)} (haddr : ∀ a n, f a = some n → n.addr = a)
    (ns : List (Node α ι)) : (graftAll f ns).map addr = ns.map addr := by
  induction ns with
  | nil => rfl
  | cons n ns ih => rw [graftAll, List.map_cons, List.map_cons, addr_graft haddr, ih]

/-- The same for trees that stand alone. -/
theorem holds_graftAll {f : α → Option (Node α ι)} (haddr : ∀ a n, f a = some n → n.addr = a)
    (hf : ∀ a n c, f a = some n → h a = some c → n.Holds h' c.prev c.next)
    {ns : List (Node α ι)} (hs : ∀ n ∈ ns, n.Holds h none none)
    (hag : ∀ a ∈ keptAll f ns, h' a = h a) : ∀ n ∈ graftAll f ns, n.Holds h' none none := by
  induction ns with
  | nil =>
    intro k hk
    cases hk
  | cons n ns ih =>
    intro k hk
    rw [keptAll] at hag
    rw [graftAll] at hk
    -- every root is a list of one, without neighbours
    rcases List.mem_cons.mp hk with rfl | hk
    · have hseg : Seg h' none none (graftAll f [n]) := by
        apply seg_graft haddr hf (seg_singleton.mpr (hs n List.mem_cons_self))
        intro a ha
        rw [keptAll, keptAll, List.append_nil] at ha
        exact hag a (List.mem_append_left _ ha)
      exact seg_singleton.mp hseg
    · exact ih (fun m hm => hs m (List.mem_cons_of_mem _ hm))
        (fun a ha => hag a (List.mem_append_right _ ha)) k hk

/-! ## Reading -/

/-- The list is read where there is enough fuel for its nodes. -/
theorem readAll_seg {fuel : Nat} {ns : List (Node α ι)} (hs : Seg h p none ns)
    (hf : sizeAll ns ≤ fuel) : readAll fuel h (head ns) = some ns := by
  -- induction on the bound: each node uses one, its children and the nodes behind it the rest
  induction fuel generalizing p ns with
  | zero =>
    cases ns with
    | nil => rfl
    | cons n ns =>
      rw [sizeAll, size_eq] at hf
      omega
  | succ fuel ih =>
    cases ns with
    | nil => rfl
    | cons n ns =>
      rw [sizeAll, size_eq] at hf
      rw [Seg, Option.or_none] at hs
      obtain ⟨hcell, hchild⟩ := holds_iff.mp hs.1
      -- one cell, then the children, then what stands behind
      rw [head_cons, readAll, hcell, Option.bind_eq_bind, Option.bind_some,
        ih hchild (by omega), Option.bind_eq_bind, Option.bind_some, ih hs.2 (by omega)]
      cases n
      rfl

/-- The tree below a cell. -/
def readTree (fuel : Nat) (h : Heap α ι) (a : α) : Option (Node α ι) := do
  let cell ← h a
  let child ← readAll fuel h cell.child
  some (mk a cell.item child)

/-- Reading a tree that is in the heap gives the tree. -/
theorem readTree_holds {fuel : Nat} {n : Node α ι} (hn : n.Holds h p q) (hf : n.size ≤ fuel) :
    readTree fuel h n.addr = some n := by
  obtain ⟨hcell, hchild⟩ := holds_iff.mp hn
  rw [size_eq] at hf
  rw [readTree, hcell, Option.bind_eq_bind, Option.bind_some, readAll_seg hchild (by omega)]
  cases n
  rfl

/-- A heap holds one tree at an address. -/
theorem Node.Holds.unique {m n : Node α ι} (hm : m.Holds h p q) (hn : n.Holds h p' q')
    (haddr : m.addr = n.addr) : m = n := by
  have hread := readTree_holds hm (Nat.le_max_left m.size n.size)
  rw [haddr, readTree_holds hn (Nat.le_max_right m.size n.size)] at hread
  exact (Option.some_inj.mp hread).symm

/-! ## Forests -/

/-- The trees have no node in common, and every live cell between them. -/
structure Forest (h : Heap α ι) (F : List (Node α ι)) : Prop where
  holds : ∀ n ∈ F, n.Holds h none none
  nodup : (addrsAll F).Nodup
  covers : ∀ a c, h a = some c → a ∈ addrsAll F

/-- No trees are in the empty heap. -/
theorem Forest.empty : Forest (Heap.empty : Heap α ι) [] := by
  refine ⟨?_, List.nodup_nil, ?_⟩
  · intro n hn
    cases hn
  · intro a c hc
    cases hc

namespace Forest

variable {F : List (Node α ι)}

/-- Every subtree is in the heap. -/
theorem subtree (hF : Forest h F) {m : Node α ι} (hm : m ∈ subtreesAll F) :
    ∃ p q, m.Holds h p q := by
  have hroot : ∃ n ∈ F, m ∈ n.subtrees := by
    clear hF
    induction F with
    | nil => cases hm
    | cons n F ih =>
      rw [subtreesAll, List.mem_append] at hm
      rcases hm with hm | hm
      · exact ⟨n, List.mem_cons_self, hm⟩
      · obtain ⟨k, hk, hmk⟩ := ih hm
        exact ⟨k, List.mem_cons_of_mem _ hk, hmk⟩
  obtain ⟨n, hn, hmn⟩ := hroot
  apply Seg.subtree (seg_singleton.mpr (hF.holds n hn))
  rw [subtreesAll]
  exact List.mem_append_left _ hmn

/-- A subtree has no address twice. -/
theorem addrs_nodup (hF : Forest h F) {m : Node α ι} (hm : m ∈ subtreesAll F) : m.addrs.Nodup :=
  (sublist_of_mem_subtreesAll hm).nodup hF.nodup

/-- A live cell is the root of a subtree. -/
theorem exists_holds (hF : Forest h F) {a : α} (ha : (h a).isSome = true) :
    ∃ n ∈ subtreesAll F, n.addr = a := by
  obtain ⟨c, hc⟩ := Option.isSome_iff_exists.mp ha
  exact exists_subtree (hF.covers a c hc)

/-- A tree that is in the heap, and whose root is in a forest, is one of its subtrees. -/
theorem mem_subtreesAll (hF : Forest h F) {n : Node α ι} (hn : n.Holds h p q) :
    n ∈ subtreesAll F := by
  obtain ⟨m, hm, haddr⟩ := exists_subtree (hF.covers _ _ (holds_iff.mp hn).1)
  obtain ⟨_, _, hholds⟩ := hF.subtree hm
  rwa [hholds.unique hn haddr] at hm

/-- The addresses of the forest are in use. -/
theorem live (hF : Forest h F) {a : α} (ha : a ∈ addrsAll F) : (h a).isSome = true := by
  obtain ⟨m, hm, rfl⟩ := exists_subtree ha
  obtain ⟨_, _, hholds⟩ := hF.subtree hm
  rw [(holds_iff.mp hholds).1]
  rfl

/-- A node is in one tree only. -/
theorem root_unique (hF : Forest h F) {m n : Node α ι} (hm : m ∈ F) (hn : n ∈ F) {a : α}
    (ha : a ∈ m.addrs) (ha' : a ∈ n.addrs) : m = n := by
  obtain ⟨before, after, rfl⟩ := List.append_of_mem hm
  have hperm : (before ++ m :: after).Perm (m :: (before ++ after)) := List.perm_middle
  have hnodup := (addrsAll_perm hperm).nodup_iff.mp hF.nodup
  rw [addrsAll] at hnodup
  rcases List.mem_cons.mp (hperm.mem_iff.mp hn) with rfl | hrest
  · rfl
  · exact absurd (mem_addrsAll.mpr ⟨n, hrest, ha'⟩) ((List.nodup_append'.mp hnodup).2.2 ha)

/-! ### A tree comes, a tree goes -/

section Roots

variable [DecidableEq α]

/-- A new tree where nothing was. -/
theorem alloc (hF : Forest h F) {n : Node α ι} (hn : n.addrs.Nodup)
    (hfresh : ∀ a ∈ n.addrs, h a = none) : Forest (h.alloc n) (n :: F) := by
  -- new addresses are not in use
  have hdisj : ∀ a ∈ addrsAll F, a ∉ n.addrs := by
    intro a ha hmem
    have hlive := hF.live ha
    rw [hfresh a hmem] at hlive
    cases hlive
  refine ⟨?_, ?_, ?_⟩
  · intro m hm
    rcases List.mem_cons.mp hm with rfl | hm
    · exact Heap.alloc_holds hn hfresh
    · apply (hF.holds m hm).frame
      intro a ha
      exact Heap.alloc_of_notMem (hdisj a (mem_addrsAll.mpr ⟨m, hm, ha⟩))
  -- no address comes twice, for the new ones were free
  · rw [addrsAll]
    refine List.nodup_append'.mpr ⟨hn, hF.nodup, ?_⟩
    intro a ha hmem
    exact hdisj a hmem ha
  · intro a c hc
    rw [addrsAll, List.mem_append]
    by_cases ha : a ∈ n.addrs
    · exact Or.inl ha
    · rw [Heap.alloc_of_notMem ha] at hc
      exact Or.inr (hF.covers a c hc)

/-- A tree is freed. -/
theorem delete {before after : List (Node α ι)} {r : Node α ι}
    (hF : Forest h (before ++ r :: after)) : Forest (h.without r.addrs) (before ++ after) := by
  -- the order of the roots plays no role for the addresses
  have hperm : (addrsAll (before ++ r :: after)).Perm (r.addrs ++ addrsAll (before ++ after)) := by
    rw [← addrsAll]
    exact addrsAll_perm List.perm_middle
  obtain ⟨-, hrest, hdisj⟩ := List.nodup_append'.mp (hperm.nodup_iff.mp hF.nodup)
  refine ⟨?_, hrest, ?_⟩
  · intro m hm
    have hm' : m ∈ before ++ r :: after := by
      rcases List.mem_append.mp hm with hm | hm
      · exact List.mem_append_left _ hm
      · exact List.mem_append_right _ (List.mem_cons_of_mem _ hm)
    -- the other trees share no cell with `r`
    apply (hF.holds m hm').frame
    intro a ha
    apply Heap.without_of_notMem
    intro hmem
    exact hdisj hmem (mem_addrsAll.mpr ⟨m, hm, ha⟩)
  · intro a c hc
    by_cases ha : a ∈ r.addrs
    · rw [Heap.without_of_mem ha] at hc
      cases hc
    · rw [Heap.without_of_notMem ha] at hc
      rcases List.mem_append.mp (hperm.mem_iff.mp (hF.covers a c hc)) with hmem | hmem
      · exact absurd hmem ha
      · exact hmem

end Roots

/-- A subtree whose root is not in a tree has no node of it. -/
theorem disjoint_of_notMem {before after : List (Node α ι)} {r n : Node α ι}
    (hF : Forest h (before ++ r :: after)) (hn : n ∈ subtreesAll (before ++ r :: after))
    (hnot : n.addr ∉ r.addrs) : List.Disjoint n.addrs r.addrs := by
  have hperm : (addrsAll (before ++ r :: after)).Perm (r.addrs ++ addrsAll (before ++ after)) := by
    rw [← addrsAll]
    exact addrsAll_perm List.perm_middle
  obtain ⟨-, -, hdisj⟩ := List.nodup_append'.mp (hperm.nodup_iff.mp hF.nodup)
  -- `n` is not below `r`, else its address would be
  have hrest : n ∈ subtreesAll (before ++ after) := by
    rw [subtreesAll_append, subtreesAll, List.mem_append, List.mem_append] at hn
    rw [subtreesAll_append, List.mem_append]
    rcases hn with hn | hn | hn
    · exact Or.inl hn
    · have hin : n ∈ subtreesAll [r] := by
        rw [subtreesAll]
        exact List.mem_append_left _ hn
      have hsub := (sublist_of_mem_subtreesAll hin).subset (addr_mem_addrs n)
      rw [addrsAll_singleton] at hsub
      exact absurd hsub hnot
    · exact Or.inr hn
  intro a ha hmem
  exact hdisj hmem ((sublist_of_mem_subtreesAll hrest).subset ha)

/-! ### Two subtrees change -/

section Graft

variable [DecidableEq α]

/-- The two places, and what comes there. -/
def swap (a b : α) (t u : Node α ι) (x : α) : Option (Node α ι) :=
  if x = a then some t else if x = b then some u else none

/-- What holds of both is true of what comes to a place. -/
theorem swap_cases {P : α → Node α ι → Prop} {a b x : α} {t u k : Node α ι} (ht : P a t)
    (hu : P b u) (hk : swap a b t u x = some k) : P x k := by
  rw [swap] at hk
  split at hk
  · next hx =>
    cases hk
    rw [hx]
    exact ht
  split at hk
  · next hx =>
    cases hk
    rw [hx]
    exact hu
  · cases hk

/-- Two subtrees of which neither is in the other are what is cut. -/
theorem cutsAll_swap (hF : Forest h F) {m n : Node α ι} (hm : m ∈ subtreesAll F)
    (hn : n ∈ subtreesAll F) (hmn : m.addr ∉ n.addrs) (hnm : n.addr ∉ m.addrs) (t u : Node α ι) :
    (cutsAll (swap m.addr n.addr t u) F).Perm [m, n] := by
  have hunique : ∀ k ∈ subtreesAll F, ∀ k' ∈ subtreesAll F, k.addr = k'.addr → k = k' := by
    intro k hk k' hk' haddr
    obtain ⟨_, _, hholds⟩ := hF.subtree hk
    obtain ⟨_, _, hholds'⟩ := hF.subtree hk'
    exact hholds.unique hholds' haddr
  have hne : m ≠ n := by
    rintro rfl
    exact hmn (addr_mem_addrs m)
  have hmem : ∀ k ∈ cutsAll (swap m.addr n.addr t u) F, k = m ∨ k = n := by
    intro k hk
    obtain ⟨hsub, hsome⟩ := mem_cutsAll hk
    rw [swap] at hsome
    split at hsome
    · next haddr => exact Or.inl (hunique k hsub m hm haddr)
    split at hsome
    · next haddr => exact Or.inr (hunique k hsub n hn haddr)
    · cases hsome
  -- the cut in which one of them is has to be itself
  have hin : ∀ k k', k ∈ subtreesAll F → (swap m.addr n.addr t u k.addr).isSome = true →
      k.addr ∉ k'.addrs → (∀ c, c = m ∨ c = n → c = k ∨ c = k') →
      k ∈ cutsAll (swap m.addr n.addr t u) F := by
    intro k k' hk hsome hnot hcases
    obtain ⟨c, hc, hkc⟩ := exists_cut hk hsome
    rcases hcases c (hmem c hc) with rfl | rfl
    · exact hc
    · have hsub : k ∈ subtreesAll [c] := by
        rw [subtreesAll]
        exact List.mem_append_left _ hkc
      have hmem' := (sublist_of_mem_subtreesAll hsub).subset (addr_mem_addrs k)
      rw [addrsAll_singleton] at hmem'
      exact absurd hmem' hnot
  have hnodup : (cutsAll (swap m.addr n.addr t u) F).Nodup := by
    have hperm := addrsAll_cuts (swap m.addr n.addr t u) F
    exact nodup_of_addrsAll (List.nodup_append'.mp (hperm.nodup_iff.mp hF.nodup)).2.1
  apply (List.perm_ext_iff_of_nodup hnodup (by simp [hne])).mpr
  intro k
  rw [List.mem_pair]
  refine ⟨hmem k, ?_⟩
  rintro (rfl | rfl)
  · exact hin k n hm (by rw [swap, if_pos rfl]; rfl) hmn fun c hc => hc
  · refine hin k m hn ?_ hnm fun c hc => hc.symm
    rw [swap]
    split
    · rfl
    · rw [if_pos rfl]
      rfl

/-- Two subtrees, neither in the other, have no node in common. -/
theorem nodup_pair (hF : Forest h F) {m n : Node α ι} (hm : m ∈ subtreesAll F)
    (hn : n ∈ subtreesAll F) (hmn : m.addr ∉ n.addrs) (hnm : n.addr ∉ m.addrs) :
    (m.addrs ++ n.addrs).Nodup := by
  have hcuts := addrsAll_perm (hF.cutsAll_swap hm hn hmn hnm m n)
  have hperm := addrsAll_cuts (swap m.addr n.addr m n) F
  have hnodup := (List.nodup_append'.mp (hperm.nodup_iff.mp hF.nodup)).2.1
  rw [addrsAll, addrsAll_singleton] at hcuts
  exact hcuts.nodup_iff.mp hnodup

/-- **Two subtrees change**, and everything around them stays; the nodes in `gone` are freed. -/
theorem graft (hF : Forest h F) {m n t u : Node α ι} (hm : m.Holds h p q) (hn : n.Holds h p' q')
    (hmn : m.addr ∉ n.addrs) (hnm : n.addr ∉ m.addrs) (ht : t.Holds h' p q)
    (hu : u.Holds h' p' q') (htaddr : t.addr = m.addr) (huaddr : u.addr = n.addr) {gone : List α}
    (hperm : (t.addrs ++ gone ++ u.addrs).Perm (m.addrs ++ n.addrs))
    (hgone : ∀ a ∈ gone, h' a = none) (hframe : ∀ a, a ∉ m.addrs ++ n.addrs → h' a = h a) :
    ∃ F', Forest h' F' ∧ F'.map addr = F.map addr := by
  have hsub_m := hF.mem_subtreesAll hm
  have hsub_n := hF.mem_subtreesAll hn
  have haddr_ne : n.addr ≠ m.addr := by
    intro heq
    rw [← heq] at hmn
    exact hmn (addr_mem_addrs n)
  let f := swap m.addr n.addr t u
  have haddr : ∀ a k, f a = some k → k.addr = a := by
    intro a k hk
    exact swap_cases (P := fun a k => k.addr = a) htaddr huaddr hk
  have hholds : ∀ a k c, f a = some k → h a = some c → k.Holds h' c.prev c.next := by
    intro a k c hk
    refine swap_cases (P := fun a k => h a = some c → k.Holds h' c.prev c.next) ?_ ?_ hk
    · intro hc
      rw [(holds_iff.mp hm).1] at hc
      cases hc
      exact ht
    · intro hc
      rw [(holds_iff.mp hn).1] at hc
      cases hc
      exact hu
  -- what stays, and what comes and goes
  have hcuts : (cutsAll f F).Perm [m, n] := hF.cutsAll_swap hsub_m hsub_n hmn hnm t u
  have hcut_addrs := addrsAll_perm hcuts
  rw [addrsAll, addrsAll_singleton] at hcut_addrs
  have hold : (addrsAll F).Perm (keptAll f F ++ (m.addrs ++ n.addrs)) :=
    (addrsAll_cuts f F).trans (hcut_addrs.append_left _)
  have hnew : (addrsAll (graftAll f F)).Perm (keptAll f F ++ (t.addrs ++ u.addrs)) := by
    refine (addrsAll_graft f F).trans (List.Perm.append_left _ ?_)
    have hgrafts := addrsAll_perm (hcuts.filterMap fun k => f k.addr)
    have hpair : [m, n].filterMap (fun k => f k.addr) = [t, u] := by simp [f, swap, haddr_ne]
    rw [hpair, addrsAll, addrsAll_singleton] at hgrafts
    exact hgrafts
  have hall := hold.nodup_iff.mp hF.nodup
  obtain ⟨hkept, hpair, hdisj⟩ := List.nodup_append'.mp hall
  have hpair' := hperm.nodup_iff.mpr hpair
  refine ⟨graftAll f F, ⟨?_, ?_, ?_⟩, map_addr_graftAll haddr F⟩
  · exact holds_graftAll haddr hholds hF.holds fun a ha => hframe a (hdisj ha)
  · apply hnew.nodup_iff.mpr
    rw [List.nodup_append'] at hpair' ⊢
    refine ⟨hkept, ?_, ?_⟩
    · exact List.nodup_append'.mpr ⟨(List.nodup_append'.mp hpair'.1).1, hpair'.2.1,
        fun a ha hb => hpair'.2.2 (List.mem_append_left _ ha) hb⟩
    · intro a ha hmem
      apply hdisj ha
      apply hperm.mem_iff.mp
      rcases List.mem_append.mp hmem with hmem | hmem
      · exact List.mem_append_left _ (List.mem_append_left _ hmem)
      · exact List.mem_append_right _ hmem
  · intro a c hc
    apply hnew.mem_iff.mpr
    by_cases ha : a ∈ m.addrs ++ n.addrs
    · rcases List.mem_append.mp (hperm.mem_iff.mpr ha) with hmem | hmem
      · rcases List.mem_append.mp hmem with hmem | hmem
        · exact List.mem_append_right _ (List.mem_append_left _ hmem)
        · rw [hgone a hmem] at hc
          cases hc
      · exact List.mem_append_right _ (List.mem_append_right _ hmem)
    · rw [hframe a ha] at hc
      rcases List.mem_append.mp (hold.mem_iff.mp (hF.covers a c hc)) with hmem | hmem
      · exact List.mem_append_left _ hmem
      · exact absurd hmem ha

end Graft

end Forest

end LinkedTree
