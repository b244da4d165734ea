/-
  PARSED STRINGS (`new_elbs/cJSON.cc`, 154–251, 261–346, 406–440) — how long they are.

  `parse_string` counts the characters before it copies them, and allocates as much as it has counted.
  What it copies is therefore no longer than the text it was copied from, whatever stands in it.

  * `parse_strings_le` — no string of a parsed tree is longer than the text;
  * `print_string_length_le` — printed again, a character takes six bytes at most.
-/
import Turnserver.Json.PrintParse

namespace Turnserver

namespace Cjson

open Parsing Cursor Ascii LinkedTree Node Ensures

/-- No string of the tree is longer than `n`. -/
def StringsLe (n : Nat) (v : Value) : Prop :=
  ∀ i ∈ v.items, ∀ s, i.valuestring = some s → s.length ≤ n

/-! ## Counting -/

/-- What is counted has been passed over: two bytes for what begins with a backslash, otherwise one. -/
theorem stringLength_le {fuel : Nat} {bs rest : List UInt8} {len : Nat}
    (h : (stringLength fuel).run bs = some (len, rest)) : len + rest.length ≤ bs.length := by
  induction fuel generalizing bs len with
  | zero => cases h
  | succ fuel ih =>
    rw [stringLength] at h
    obtain ⟨c, mid, hpeek, h⟩ := exists_of_bind h
    have hmid := (Stable.peekAt 0).length_le _ _ _ hpeek
    split at h
    · cases h
      omega
    · obtain ⟨u, behind, hforward, h⟩ := exists_of_bind h
      obtain ⟨more, last, hcount, h⟩ := exists_of_bind h
      cases h
      obtain ⟨hle, rfl⟩ := Stable.forward_spec hforward
      have hcount := ih hcount
      rw [List.length_drop] at hcount
      split at hle <;> split at hcount <;> omega

variable {n : Nat}

/-- The length of a text is counted without moving, and is bounded by what lies ahead. -/
theorem lookahead_stringLength_within (fuel : Nat) :
    Within n (lookahead (stringLength fuel)) fun len => len ≤ n := by
  intro bs len rest hlen h
  have hmap : ((stringLength fuel).run bs).map (fun r => (r.1, bs)) = some (len, rest) := h
  obtain ⟨⟨len', mid⟩, hrun, heq⟩ := Option.map_eq_some_iff.mp hmap
  cases heq
  have hcount := stringLength_le hrun
  omega

/-- A string is no longer than the memory that it is read from. -/
theorem parse_string_within (fuel : Nat) :
    Within n (parse_string fuel) (OfSome fun s => s.length ≤ n) := by
  refine .bind_any (Stable.peekAt 0) fun c => .ite (.pure ofSome_none) ?_
  refine .bind_any (Stable.forward 1) fun _ => ?_
  refine .bind (stringLength_stable fuel).lookahead (lookahead_stringLength_within fuel) fun len hlen => ?_
  refine .bind_any (copyString_stable fuel) fun out => ?_
  split
  · exact .nothing
  · next hroom =>
    -- the copy fits into the room that was counted
    refine .bind_any (Stable.accept quote) fun _ => .pure (ofSome_some ?_)
    have htake : (out.takeWhile (· ≠ 0)).length ≤ out.length :=
      (List.takeWhile_sublist _).length_le
    omega

/-! ## Trees -/

/-- A node without a text of its own is bounded like its children. -/
theorem stringsLe_node {i : Item} {vs : List Value} (hi : i.valuestring = none)
    (hvs : ∀ v ∈ vs, StringsLe n v) : StringsLe n (.mk () i vs) := by
  intro j hj s hs
  rcases List.mem_cons.mp hj with rfl | hj
  · rw [hi] at hs
    cases hs
  · rcases mem_itemsAll.mp hj with ⟨v, hv, hj⟩
    exact hvs v hv j hj s hs

/-- A leaf without a text has nothing to bound. -/
theorem stringsLe_leaf {i : Item} (hi : i.valuestring = none) : StringsLe n (leaf i) :=
  stringsLe_node hi fun _ hv => nomatch hv

/-- A name is no string of the tree. -/
theorem stringsLe_named (name : CString) {v : Value} (h : StringsLe n v) : StringsLe n (named name v) := by
  intro j hj s hs
  rw [StringsLe, items_eq] at h
  rw [named, items_withItem] at hj
  rcases List.mem_cons.mp hj with rfl | hj
  · exact h v.item List.mem_cons_self s hs
  · exact h j (List.mem_cons_of_mem _ hj) s hs

section Items

variable {close : UInt8} {item value : Parser UInt8 (Option Value)}

/-- The rest of the items is bounded by what lies ahead of it. -/
theorem parse_rest_within (hstable : Stable item) (h : Within n item (OfSome (StringsLe n)))
    (fuel : Nat) : Within n (parse_rest close item fuel) (OfSome (Items (StringsLe n))) := by
  induction fuel with
  | zero => exact .nothing
  | succ fuel ih =>
    refine .bind_any (Stable.peekAt 0) fun c => .ite ?_ (.ite ?_ (.pure ofSome_none))
    · refine .bind_any (Stable.forward 1) fun _ => .bind_any skip_stable fun _ => ?_
      refine .andThen hstable h fun v hv => .andThen (parse_rest_stable hstable fuel) ih fun vs hvs => ?_
      exact .pure (ofSome_some (items_cons hv hvs))
    · exact .bind_any (Stable.forward 1) fun _ => .pure (ofSome_some items_nil)

/-- The items are bounded by what lies ahead of them. -/
theorem parse_items_within (hstable : Stable item) (h : Within n item (OfSome (StringsLe n)))
    (fuel : Nat) : Within n (parse_items close item fuel) (OfSome (Items (StringsLe n))) := by
  refine .bind_any (Stable.forward 1) fun _ => .bind_any skip_stable fun _ => ?_
  refine .bind_any (Stable.peekAt 0) fun c => .ite ?_ ?_
  · exact .bind_any (Stable.forward 1) fun _ => .pure (ofSome_some items_nil)
  · refine .andThen hstable h fun v hv => ?_
    refine .andThen (parse_rest_stable hstable fuel) (parse_rest_within hstable h fuel) fun vs hvs => ?_
    exact .pure (ofSome_some (items_cons hv hvs))

theorem parse_element_within (hstable : Stable value) (h : Within n value (OfSome (StringsLe n))) :
    Within n (parse_element value) (OfSome (StringsLe n)) :=
  .andThen hstable h fun _ hv => .bind_any skip_stable fun _ => .pure (ofSome_some hv)

theorem parse_member_within (hstable : Stable value) (h : Within n value (OfSome (StringsLe n)))
    (fuel : Nat) : Within n (parse_member fuel value) (OfSome (StringsLe n)) := by
  refine .andThen (parse_string_stable fuel) (parse_string_within fuel) fun name _ => ?_
  refine .bind_any skip_stable fun _ => .bind_any (Stable.peekAt 0) fun c => .ite (.pure ofSome_none) ?_
  refine .bind_any (Stable.forward 1) fun _ => .bind_any skip_stable fun _ => ?_
  refine .andThen hstable h fun v hv => .bind_any skip_stable fun _ => ?_
  exact .pure (ofSome_some (stringsLe_named name hv))

/-- Every other value is bounded by what lies ahead of it. -/
theorem parse_other_within (double : Numeral → Rat) (fuel : Nat) (hstable : Stable value)
    (h : Within n value (OfSome (StringsLe n))) :
    Within n (parse_other double fuel value) (OfSome (StringsLe n)) := by
  refine .bind_any (Stable.peekAt 0) fun c => .ite ?_ (.ite ?_ (.ite ?_ (.ite ?_ (.pure ofSome_none))))
  · refine .andThen (parse_string_stable fuel) (parse_string_within fuel) fun s hs => ?_
    refine .pure (ofSome_some fun i hi s' hs' => ?_)
    obtain rfl := List.mem_singleton.mp hi
    cases hs'
    exact hs
  · exact .bind_any parse_number_stable fun m => .pure (ofSome_some (stringsLe_leaf rfl))
  · have hitem := parse_element_within hstable h
    refine .andThen (parse_items_stable (parse_element_stable hstable) fuel)
      (parse_items_within (parse_element_stable hstable) hitem fuel) fun vs hvs => ?_
    exact .pure (ofSome_some (stringsLe_node rfl hvs))
  · have hitem := parse_member_within hstable h fuel
    refine .andThen (parse_items_stable (parse_member_stable fuel hstable) fuel)
      (parse_items_within (parse_member_stable fuel hstable) hitem fuel) fun vs hvs => ?_
    exact .pure (ofSome_some (stringsLe_node rfl hvs))

/-- A literal has no text. -/
theorem literal_within {lit : CString} {i : Item} (hi : i.valuestring = none)
    (h : Within n value (OfSome (StringsLe n))) : Within n (literal lit i value) (OfSome (StringsLe n)) :=
  .bind_any (Stable.startsWith lit) fun _ =>
    .ite (.bind_any (Stable.forward _) fun _ => .pure (ofSome_some (stringsLe_leaf hi))) h

end Items

/-- A value is bounded by what lies ahead of it: induction on the bound of the recursion. -/
theorem parse_value_within (double : Numeral → Rat) (fuel : Nat) :
    Within n (parse_value double fuel) (OfSome (StringsLe n)) := by
  induction fuel with
  | zero => exact .nothing
  | succ fuel ih =>
    refine literal_within rfl (literal_within rfl (literal_within rfl ?_))
    exact parse_other_within double fuel (parse_value_stable double fuel) ih

/-- **No string of a parsed tree is longer than the text.** -/
theorem parse_strings_le {double : Numeral → Rat} {fuel : Nat} {input : List UInt8} {v : Value}
    (h : parse double fuel input = some (some v)) : StringsLe input.length v := by
  cases input with
  | nil => cases h
  | cons c s =>
    rw [parse] at h
    split at h
    · cases h
    · rcases Option.map_eq_some_iff.mp h with ⟨⟨r, rest⟩, hrun, heq⟩
      cases heq
      have hwithin : Within (c :: s).length (do skip; parse_value double fuel)
          (OfSome (StringsLe (c :: s).length)) :=
        .bind_any skip_stable fun _ => parse_value_within double fuel
      exact hwithin _ _ _ (Nat.le_refl _) hrun v rfl

/-! ## Printed again -/

/-- Printing makes at most six bytes of a byte. -/
theorem printChar_length_le (token : UInt8) : (printChar token).length ≤ 6 := by
  rw [printChar]
  split_ifs
  all_goals simp

/-- A quoted text takes at most six times its length, and the quotes. -/
theorem print_string_length_le (s : CString) :
    (print_string_ptr (some s)).length ≤ 6 * s.length + 2 := by
  have hchars : (s.flatMap printChar).length ≤ 6 * s.length := by
    induction s with
    | nil => exact Nat.le_refl 0
    | cons c s ih =>
      have hc := printChar_length_le c
      rw [List.flatMap_cons, List.length_append, List.length_cons]
      omega
  rw [print_string_ptr, List.length_cons, List.length_append, List.length_singleton]
  omega

end Cjson

end Turnserver
