/-
  FRAMING A BYTE STREAM — cutting a queue of symbols into frames, independently of its chunking.

  A stream transport hands a receiver its bytes in pieces of arbitrary size.  The receiver keeps
  what it could not use yet and looks at the front of its queue: either more is needed, or the
  front is a complete frame of `n` symbols, or the stream is broken.  A `Framer` is that decision
  (`verdict`), together with the three facts that make it a framing at all: a frame is not empty,
  it lies inside the queue, and neither a frame nor a break is revoked by symbols that arrive later.

  * `scan` cuts frames off the front until the verdict is not `frame`;
  * `scan_append` — **chunk independence**: what a scan keeps is scanned again when more arrives, and
    the frames are those of the whole stream;
  * `scan_wellFormed_append` — a concatenation of whole frames is cut exactly at its seams;
  * `scan_take_wellFormed` — a prefix of such a concatenation yields exactly the frames whose last
    symbol it contains.
-/
import Mathlib.Data.List.Basic

set_option linter.unusedVariables false

namespace Framing

/-! ## The decision at the front of the queue -/

/-- What the front of the queue turned out to be. -/
inductive Verdict
  /-- not enough symbols to decide, or an incomplete frame -/
  | more
  /-- the stream is broken here -/
  | bad
  /-- a complete frame of this many symbols -/
  | frame (n : Nat)
  deriving DecidableEq, Repr

/-- A framing of streams over `α`. -/
structure Framer (α : Type) where
  /-- The decision, from everything queued so far. -/
  verdict : List α → Verdict
  /-- A frame has at least one symbol. -/
  frame_pos : ∀ {b n}, verdict b = .frame n → 0 < n
  /-- A frame is complete: it lies inside the queue. -/
  frame_le : ∀ {b n}, verdict b = .frame n → n ≤ b.length
  /-- Later symbols do not change a frame... -/
  frame_append : ∀ {b n} (c), verdict b = .frame n → verdict (b ++ c) = .frame n
  /-- ... nor mend a broken stream. -/
  bad_append : ∀ {b} (c), verdict b = .bad → verdict (b ++ c) = .bad

namespace Framer

variable {α : Type} (F : Framer α)

/-! ## Cutting frames off the front -/

/-- The frames at the front of `b`, and what is left of it. -/
def scan (b : List α) : List (List α) × List α :=
  match h : F.verdict b with
  | .frame n => (b.take n :: (scan (b.drop n)).1, (scan (b.drop n)).2)
  | _ => ([], b)
termination_by b.length
decreasing_by all_goals
  have hpos := F.frame_pos h
  have hle := F.frame_le h
  simp only [List.length_drop]
  omega

/-- The empty queue holds no frame. -/
theorem verdict_nil (n : Nat) : F.verdict [] ≠ .frame n := by
  intro h
  have hpos := F.frame_pos h
  have hle := F.frame_le h
  rw [List.length_nil] at hle
  omega

/-- A frame at the front is scanned first. -/
theorem scan_of_frame {b : List α} {n : Nat} (h : F.verdict b = .frame n) :
    F.scan b = (b.take n :: (F.scan (b.drop n)).1, (F.scan (b.drop n)).2) := by
  rw [scan]
  split
  · next m hm =>
    rw [h] at hm
    cases hm
    rfl
  · next hm => exact absurd h (hm n)

/-- Where no frame is at the front, the scan ends. -/
theorem scan_of_not_frame {b : List α} (h : ∀ n, F.verdict b ≠ .frame n) :
    F.scan b = ([], b) := by
  rw [scan]
  split
  · next n hn => exact absurd hn (h n)
  · rfl

/-- **Prefix stability.**  Scanning `b ++ c` is scanning `b`, then its rest followed by `c`. -/
theorem scan_append (b c : List α) :
    F.scan (b ++ c) =
      ((F.scan b).1 ++ (F.scan ((F.scan b).2 ++ c)).1, (F.scan ((F.scan b).2 ++ c)).2) := by
  induction hb : b.length using Nat.strongRecOn generalizing b with
  | _ k ih =>
    rcases hv : F.verdict b with _ | _ | n
    · have hb0 : F.scan b = ([], b) := F.scan_of_not_frame (by simp [hv])
      rw [hb0]; rfl
    · have hb0 : F.scan b = ([], b) := F.scan_of_not_frame (by simp [hv])
      rw [hb0]; rfl
    · have hpos := F.frame_pos hv
      have hle := F.frame_le hv
      have hlt : (b.drop n).length < k := by rw [List.length_drop]; omega
      rw [F.scan_of_frame hv, F.scan_of_frame (F.frame_append c hv),
        List.take_append_of_le_length hle, List.drop_append_of_le_length hle, ih _ hlt _ rfl]
      rfl

/-! ## Streams of whole frames -/

/-- `w` is one whole frame. -/
def Whole (w : List α) : Prop := F.verdict w = .frame w.length

/-- A whole frame is recognised whatever follows it. -/
theorem verdict_whole_append {w : List α} (hw : F.Whole w) (c : List α) :
    F.verdict (w ++ c) = .frame w.length := F.frame_append c hw

/-- A stream that starts with whole frames is cut exactly at their seams; what follows them is
    scanned as if it stood alone. -/
theorem scan_wellFormed_append (ws : List (List α)) (hws : ∀ w ∈ ws, F.Whole w) (c : List α) :
    F.scan (ws.flatten ++ c) = (ws ++ (F.scan c).1, (F.scan c).2) := by
  induction ws with
  | nil => simp
  | cons w ws ih =>
    have hw : F.Whole w := hws w List.mem_cons_self
    have ih' := ih (fun v hv => hws v (List.mem_cons_of_mem w hv))
    rw [List.flatten_cons, List.append_assoc, F.scan_of_frame (F.verdict_whole_append hw _),
      List.take_left, List.drop_left, ih']
    rfl

/-- A proper prefix of a whole frame is not a frame. -/
theorem verdict_take_whole {w : List α} (hw : F.Whole w) {k : Nat} (hk : k < w.length) (n : Nat) :
    F.verdict (w.take k) ≠ .frame n := by
  intro hn
  have hle := F.frame_le hn
  have hfull := F.frame_append (w.drop k) hn
  rw [List.take_append_drop] at hfull
  rw [Whole, hfull] at hw
  cases hw
  rw [List.length_take] at hle
  omega

/-- **Delivered with the last symbol, not before.**  A prefix of a stream of whole frames yields
    the first `k` of them, where the prefix contains all of those and not all of the next. -/
theorem scan_take_wellFormed (ws : List (List α)) (hws : ∀ w ∈ ws, F.Whole w) (m : Nat) :
    ∃ k, k ≤ ws.length ∧ (F.scan (ws.flatten.take m)).1 = ws.take k ∧
      (ws.take k).flatten.length ≤ m ∧
      (k < ws.length → m < (ws.take (k + 1)).flatten.length) := by
  induction ws generalizing m with
  | nil =>
    refine ⟨0, Nat.le_refl _, ?_, Nat.zero_le _, fun h => absurd h (Nat.lt_irrefl _)⟩
    rw [List.flatten_nil, List.take_nil, F.scan_of_not_frame F.verdict_nil]
    rfl
  | cons w ws ih =>
    have hw : F.Whole w := hws w List.mem_cons_self
    by_cases hm : m < w.length
    · -- the prefix ends inside the first frame
      refine ⟨0, Nat.zero_le _, ?_, Nat.zero_le _, fun _ => by simpa using hm⟩
      have htake : (w :: ws).flatten.take m = w.take m := by
        rw [List.flatten_cons, List.take_append_of_le_length (by omega)]
      rw [htake, F.scan_of_not_frame (F.verdict_take_whole hw hm)]
      rfl
    · -- the prefix contains the first frame; the rest is a prefix of the remaining stream
      obtain ⟨k, hk, hscan, hle, hlt⟩ :=
        ih (fun v hv => hws v (List.mem_cons_of_mem w hv)) (m - w.length)
      have htake : (w :: ws).flatten.take m = w ++ ws.flatten.take (m - w.length) := by
        rw [List.flatten_cons, List.take_append, List.take_of_length_le (by omega)]
      refine ⟨k + 1, by simpa using hk, ?_, ?_, ?_⟩
      · rw [htake, F.scan_of_frame (F.verdict_whole_append hw _), List.take_left, List.drop_left,
          hscan, List.take_succ_cons]
      · rw [List.take_succ_cons, List.flatten_cons, List.length_append]
        omega
      · intro h
        have := hlt (by simpa using h)
        rw [List.take_succ_cons, List.flatten_cons, List.length_append]
        omega

/-- A prefix of a stream of whole frames is not broken. -/
theorem scan_take_not_bad (hnil : F.verdict [] ≠ .bad) (ws : List (List α))
    (hws : ∀ w ∈ ws, F.Whole w) (m : Nat) : F.verdict (F.scan (ws.flatten.take m)).2 ≠ .bad := by
  induction ws generalizing m with
  | nil =>
    rw [List.flatten_nil, List.take_nil, F.scan_of_not_frame F.verdict_nil]
    exact hnil
  | cons w ws ih =>
    have hw : F.Whole w := hws w List.mem_cons_self
    by_cases hm : m < w.length
    · have htake : (w :: ws).flatten.take m = w.take m := by
        rw [List.flatten_cons, List.take_append_of_le_length (by omega)]
      rw [htake, F.scan_of_not_frame (F.verdict_take_whole hw hm)]
      -- a prefix that is bad would stay bad in the whole frame
      intro hbad
      have hfull := F.bad_append (w.drop m) hbad
      rw [List.take_append_drop] at hfull
      exact Verdict.noConfusion (hfull.symm.trans hw)
    · have htake : (w :: ws).flatten.take m = w ++ ws.flatten.take (m - w.length) := by
        rw [List.flatten_cons, List.take_append, List.take_of_length_le (by omega)]
      rw [htake, F.scan_of_frame (F.verdict_whole_append hw _), List.drop_left]
      exact ih (fun v hv => hws v (List.mem_cons_of_mem w hv)) _

/-- Every frame that is cut off was found to be one. -/
theorem verdict_of_mem_scan {b f : List α} (hf : f ∈ (F.scan b).1) :
    ∃ b', F.verdict b' = .frame f.length := by
  induction hb : b.length using Nat.strongRecOn generalizing b with
  | _ k ih =>
    rcases hv : F.verdict b with _ | _ | n
    · rw [F.scan_of_not_frame (by simp [hv])] at hf
      cases hf
    · rw [F.scan_of_not_frame (by simp [hv])] at hf
      cases hf
    · have hpos := F.frame_pos hv
      have hle := F.frame_le hv
      rw [F.scan_of_frame hv] at hf
      rcases List.mem_cons.mp hf with rfl | hf
      · exact ⟨b, by rw [List.length_take, Nat.min_eq_left hle, hv]⟩
      · exact ih _ (by rw [List.length_drop]; omega) hf rfl

end Framer

/-! ## Seams

  Two ways of cutting one stream into as many nonempty pieces are the same way as soon as every seam
  of the one is a seam of the other. -/

section Seams

variable {α : Type}

/-- Where the `i`-th piece begins. -/
def seam (xs : List (List α)) (i : Nat) : Nat := (xs.take i).flatten.length

/-- The next seam is one string further. -/
theorem seam_succ {xs : List (List α)} {i : Nat} (hi : i < xs.length) :
    seam xs (i + 1) = seam xs i + xs[i].length := by
  rw [seam, seam, List.take_succ_eq_append_getElem hi, List.flatten_append, List.length_append]
  simp

theorem seam_cons (x : List α) (xs : List (List α)) (i : Nat) :
    seam (x :: xs) (i + 1) = x.length + seam xs i := by
  rw [seam, seam, List.take_succ_cons, List.flatten_cons, List.length_append]

/-- Seams of nonempty pieces are strictly ascending. -/
theorem seam_lt {xs : List (List α)} (hxs : ∀ x ∈ xs, x ≠ []) {i j : Nat} (hij : i < j)
    (hj : j ≤ xs.length) : seam xs i < seam xs j := by
  induction j with
  | zero => omega
  | succ j ih =>
    have hpos : 0 < xs[j].length := List.length_pos_of_ne_nil (hxs _ (List.getElem_mem _))
    rw [seam_succ (show j < xs.length by omega)]
    rcases Nat.lt_or_eq_of_le (Nat.lt_succ_iff.mp hij) with h | h
    · have := ih h (by omega)
      omega
    · rw [h]
      omega

/-- Non-empty strings: a later seam belongs to a later index. -/
theorem seam_index_lt {xs : List (List α)} (hxs : ∀ x ∈ xs, x ≠ []) {i j : Nat}
    (hi : i ≤ xs.length) (h : seam xs i < seam xs j) : i < j := by
  rcases Nat.lt_or_ge i j with hlt | hge
  · exact hlt
  · rcases Nat.lt_or_eq_of_le hge with hgt | heq
    · have := seam_lt hxs hgt hi
      omega
    · rw [heq] at h
      omega

/-- The pieces are determined by the stream and the seams. -/
theorem eq_of_seam_eq {xs ys : List (List α)} (hflat : xs.flatten = ys.flatten)
    (hlen : xs.length = ys.length) (h : ∀ i, i ≤ xs.length → seam xs i = seam ys i) : xs = ys := by
  induction xs generalizing ys with
  | nil => exact (List.length_eq_zero_iff.mp hlen.symm).symm
  | cons x xs ih =>
    cases ys with
    | nil => cases hlen
    | cons y ys =>
      rw [List.length_cons, List.length_cons] at hlen
      have hfirst := h 1 (by rw [List.length_cons]; omega)
      rw [seam_cons, seam_cons] at hfirst
      have hxy : x.length = y.length := by simpa [seam] using hfirst
      obtain ⟨rfl, hrest⟩ := List.append_inj hflat hxy
      rw [ih hrest (by omega) fun i hi => ?_]
      have := h (i + 1) (by rw [List.length_cons]; omega)
      rw [seam_cons, seam_cons] at this
      omega

/-- **Seams.**  Equally many pieces, and every piece of the one cutting begins where a piece of the
    other begins: the cuttings are equal. -/
theorem eq_of_seams {xs ys : List (List α)} (hxs : ∀ x ∈ xs, x ≠ []) (hys : ∀ y ∈ ys, y ≠ [])
    (hflat : xs.flatten = ys.flatten) (hlen : xs.length = ys.length)
    (h : ∀ i, i < xs.length → ∃ g, g < ys.length ∧ seam ys g = seam xs i) : xs = ys := by
  -- the i-th seam of xs is not an earlier seam of ys ...
  have hge : ∀ i, i < xs.length → ∀ g, g < ys.length → seam ys g = seam xs i → i ≤ g := by
    intro i
    induction i with
    | zero => exact fun _ _ _ _ => Nat.zero_le _
    | succ i ih =>
      intro hi g hg heq
      obtain ⟨g', hg', heq'⟩ := h i (by omega)
      have hprev := ih (by omega) g' hg' heq'
      have hlt := seam_lt hxs (Nat.lt_succ_self i) (by omega)
      have hseam : seam ys g' < seam ys g := by rw [heq', heq]; exact hlt
      have := seam_index_lt hys (Nat.le_of_lt hg') hseam
      omega
  -- ... nor, counted from the end, a later one
  have hle : ∀ d i, i + d + 1 = xs.length → ∀ g, g < ys.length → seam ys g = seam xs i → g ≤ i := by
    intro d
    induction d with
    | zero =>
      intro i hi g hg _
      omega
    | succ d ih =>
      intro i hi g hg heq
      obtain ⟨g', hg', heq'⟩ := h (i + 1) (by omega)
      have hnext := ih (i + 1) (by omega) g' hg' heq'
      have hlt := seam_lt hxs (Nat.lt_succ_self i) (by omega)
      have hseam : seam ys g < seam ys g' := by rw [heq', heq]; exact hlt
      have := seam_index_lt hys (Nat.le_of_lt hg) hseam
      omega
  refine eq_of_seam_eq hflat hlen fun i hi => ?_
  rcases Nat.lt_or_eq_of_le hi with hlt | heq
  · obtain ⟨g, hg, hseam⟩ := h i hlt
    have h₁ := hge i hlt g hg hseam
    have h₂ := hle (xs.length - i - 1) i (by omega) g hg hseam
    rw [← hseam, Nat.le_antisymm h₂ h₁]
  · rw [heq, seam, seam, List.take_length, hlen, List.take_length, hflat]

end Seams

end Framing
