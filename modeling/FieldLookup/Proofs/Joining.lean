import FieldLookup.Proofs.Splitting

/-!
Which parts joining keeps apart. Main statement: `split_join_iff`, splitting undoes joining just if
each separator that joining puts in is the first one behind the separator before it, and none occurs
in the last part.
-/
namespace FieldLookup.Text

section Pieces

variable {sep : List Char} (hsep : sep ≠ [])
include hsep

theorem pieces_eq_singleton_iff {s : List Char} : pieces sep s = [s] ↔ cut? sep s = none := by
  refine ⟨fun h => ?_, pieces_of_cut?_none hsep⟩
  cases hcut : cut? sep s with
  | none => rfl
  | some cut =>
    rw [pieces_of_cut? hsep hcut] at h
    exact absurd (List.cons.inj h).2 (pieces_ne_nil _ _)

theorem pieces_joinPieces_iff {parts : List (List Char)} (hparts : parts ≠ []) :
    pieces sep (joinPieces sep parts) = parts ↔
      (∀ part ∈ parts.dropLast, cut? sep (part ++ sep) = some (part, [])) ∧
        ∀ part ∈ parts.getLast?, cut? sep part = none := by
  induction parts with
  | nil => contradiction
  | cons part rest ih =>
    cases rest with
    | nil => simpa [joinPieces] using pieces_eq_singleton_iff hsep
    | cons next rest =>
      rw [joinPieces_cons_of_ne_nil (List.cons_ne_nil _ _), pieces_eq_cons_iff hsep,
        @eq_comm _ (next :: rest), ih (List.cons_ne_nil _ _)]
      simp [and_assoc]

end Pieces

/-! ## Texts -/

/-- Parts that joining keeps apart: a separator behind any of them but the last is the first one
that occurs, and none occurs in the last. -/
structure Separable (sep : String) (parts : List String) : Prop where
  inner : ∀ part ∈ parts.dropLast, ∀ u v, part ++ sep = u ++ sep ++ v → v = ""
  last : ∀ part ∈ parts.getLast?, ∀ u v, part ≠ u ++ sep ++ v

theorem cut?_toList_eq_none_iff {sep part : String} :
    cut? sep.toList part.toList = none ↔ ∀ u v, part ≠ u ++ sep ++ v := by
  rw [cut?_eq_none_iff]
  constructor
  · rintro h u v rfl
    exact h u.toList v.toList (by simp)
  · intro h u v huv
    exact h (String.ofList u) (String.ofList v) (String.toList_inj.mp (by simp [huv]))

theorem cut?_toList_append_iff {sep part : String} :
    cut? sep.toList (part.toList ++ sep.toList) = some (part.toList, []) ↔
      ∀ u v, part ++ sep = u ++ sep ++ v → v = "" := by
  rw [cut?_eq_some_iff]
  have hlength {u v : List Char} (h : part.toList ++ sep.toList = u ++ sep.toList ++ v) :
      part.toList.length ≤ u.length ↔ v = [] := by
    have hlen := congrArg List.length h
    simp only [List.length_append] at hlen
    rw [← List.length_eq_zero_iff]
    omega
  constructor
  · rintro ⟨-, hfirst⟩ u v huv
    have hchars : part.toList ++ sep.toList = u.toList ++ sep.toList ++ v.toList := by
      simpa using congrArg String.toList huv
    simpa using (hlength hchars).mp (hfirst _ _ hchars)
  · refine fun h => ⟨by simp, fun u v huv => (hlength huv).mpr ?_⟩
    have hv := h (String.ofList u) (String.ofList v) (String.toList_inj.mp (by simpa using huv))
    simpa using congrArg String.toList hv

/-- Splitting undoes joining just for parts that joining keeps apart. -/
theorem split_join_iff {sep : String} (hsep : sep ≠ "") {parts : List String}
    (hparts : parts ≠ []) : split sep (join sep parts) = parts ↔ Separable sep parts := by
  have hchars : sep.toList ≠ [] := by simpa using hsep
  have hmap : (parts.map String.toList).map String.ofList = parts := by simp
  have hpieces := @pieces_joinPieces_iff sep.toList hchars (parts.map String.toList) (by simpa)
  rw [← (List.map_injective_iff.mpr ofList_injective).eq_iff, hmap] at hpieces
  rw [split, join, String.toList_ofList, hpieces]
  simp only [← List.map_dropLast, List.getLast?_map, List.forall_mem_map, Option.mem_def,
    Option.map_eq_some_iff, forall_exists_index, and_imp, forall_apply_eq_imp_iff₂,
    cut?_toList_eq_none_iff, cut?_toList_append_iff]
  exact ⟨fun h => ⟨h.1, h.2⟩, fun h => ⟨h.inner, h.last⟩⟩

theorem join_split {sep : String} (hsep : sep ≠ "") (s : String) : join sep (split sep s) = s := by
  have hchars : sep.toList ≠ [] := by simpa using hsep
  have hmap : (split sep s).map String.toList = pieces sep.toList s.toList := by
    simp [split, Function.comp_def]
  rw [join, hmap, joinPieces_pieces hchars, String.ofList_toList]

/-- Parts whose joins are the same text, and which agree up to the last one, agree there. -/
theorem eq_of_join_append_eq {sep : String} {front : List String} {last last' : String}
    (h : join sep (front ++ [last]) = join sep (front ++ [last'])) : last = last' := by
  rw [join, join, String.ofList_inj, List.map_append, List.map_append] at h
  rcases eq_or_ne front [] with rfl | hfront
  · exact String.toList_inj.mp h
  · have hne : front.map String.toList ≠ [] := by simpa
    rw [joinPieces_append hne (by simp), joinPieces_append hne (by simp)] at h
    exact String.toList_inj.mp (List.append_cancel_left h)

example : join "__" ["blog", "owner", "name", "in"] = "blog__owner__name__in" := by cbv

end FieldLookup.Text
