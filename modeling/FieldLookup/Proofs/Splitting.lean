import FieldLookup.Text.Pieces
import Mathlib.Data.List.Infix

/-!
Where a text is cut, and which pieces two texts share. Main statements: `cut?_eq_some_iff`, the cut
is at the first occurrence of the separator, and `split_isPrefix_iff`, the pieces of a text start
those of another one just if the other is the same text or goes on with a separator that is found;
and `lastPiece_eq`, cuts from either end find the same last piece if it shares no character with the
separator.
-/
namespace FieldLookup.Text

section Cutting

variable {sep s before after : List Char}

theorem cut?_of_dropFront? {rest : List Char} (h : dropFront? sep s = some rest) :
    cut? sep s = some ([], rest) := by
  cases s <;> simp [cut?, h]

/-- A separator that occurs is found there or earlier. -/
theorem exists_cut? (sep u v : List Char) :
    ∃ before after, cut? sep (u ++ sep ++ v) = some (before, after) ∧
      before.length ≤ u.length := by
  induction u with
  | nil => exact ⟨[], v, cut?_of_dropFront? (dropFront?_eq_some_iff.mpr rfl), le_rfl⟩
  | cons c u ih =>
    obtain ⟨before, after, hcut, hle⟩ := ih
    cases hd : dropFront? sep (c :: u ++ sep ++ v) with
    | some rest => exact ⟨[], rest, cut?_of_dropFront? hd, Nat.zero_le _⟩
    | none =>
      refine ⟨c :: before, after, ?_, Nat.succ_le_succ hle⟩
      simp only [List.cons_append] at hd ⊢
      rw [cut?, hd, hcut]
      rfl

theorem cut?_eq_none_iff : cut? sep s = none ↔ ∀ u v, s ≠ u ++ sep ++ v := by
  constructor
  · rintro h u v rfl
    obtain ⟨before, after, hcut, -⟩ := exists_cut? sep u v
    rw [hcut] at h
    cases h
  · intro h
    refine Option.eq_none_iff_forall_ne_some.mpr fun (before, after) hcut => ?_
    exact h before after (eq_append_of_cut? hcut)

/-- A text is cut at the first occurrence of the separator. -/
theorem cut?_eq_some_iff :
    cut? sep s = some (before, after) ↔
      s = before ++ sep ++ after ∧ ∀ u v, s = u ++ sep ++ v → before.length ≤ u.length := by
  constructor
  · refine fun h => ⟨eq_append_of_cut? h, ?_⟩
    rintro u v rfl
    obtain ⟨b, a, hcut, hle⟩ := exists_cut? sep u v
    rw [hcut] at h
    cases h
    exact hle
  · rintro ⟨rfl, hfirst⟩
    obtain ⟨b, a, hcut, hle⟩ := exists_cut? sep before after
    have heq := eq_append_of_cut? hcut
    have hlen : before.length = b.length := Nat.le_antisymm (hfirst b a heq) hle
    obtain ⟨hsep, rfl⟩ := List.append_inj heq (by simp [hlen])
    obtain ⟨rfl, -⟩ := List.append_inj hsep hlen
    exact hcut

/-- What stands behind the first occurrence does not move it. -/
theorem cut?_append_iff {more : List Char} :
    cut? sep (s ++ more) = some (before, after ++ more) ↔ cut? sep s = some (before, after) := by
  constructor
  · intro h
    obtain ⟨hs, hfirst⟩ := cut?_eq_some_iff.mp h
    rw [← List.append_assoc] at hs
    refine cut?_eq_some_iff.mpr ⟨List.append_cancel_right hs, fun u v huv => ?_⟩
    exact hfirst u (v ++ more) (by simp [huv])
  · intro h
    obtain ⟨hs, hfirst⟩ := cut?_eq_some_iff.mp h
    refine cut?_eq_some_iff.mpr ⟨by simp [hs], fun u v huv => ?_⟩
    by_contra hlt
    have hlen : (u ++ sep).length ≤ s.length := by
      simp only [hs, List.length_append]
      omega
    obtain ⟨w, hw⟩ : u ++ sep <+: s :=
      List.prefix_of_prefix_length_le ⟨v, huv.symm⟩ (List.prefix_append s more) hlen
    exact hlt (hfirst u w hw.symm)

theorem cut?_before_iff (more : List Char) :
    cut? sep (before ++ sep ++ more) = some (before, more) ↔
      cut? sep (before ++ sep) = some (before, []) :=
  @cut?_append_iff sep (before ++ sep) before [] more

/-- In a text without the separator that ends in no proper front of it, a separator put behind the
text is the first one. -/
theorem cut?_append_of_forall (hnone : cut? sep s = none)
    (h : ∀ front, front ≠ [] → front <+: sep → front ≠ sep → ¬front <:+ s) :
    cut? sep (s ++ sep) = some (s, []) := by
  refine cut?_eq_some_iff.mpr ⟨by simp, fun u v huv => ?_⟩
  by_contra hlt
  -- an earlier separator starts with an end `w` of the text
  obtain ⟨w, rfl⟩ : u <+: s :=
    List.prefix_of_prefix_length_le ⟨sep ++ v, by simp [huv]⟩ (List.prefix_append s sep) (by omega)
  have hw : w ++ sep = sep ++ v := by simpa using huv
  rcases le_or_gt sep.length w.length with hle | hgt
  · obtain ⟨rest, rfl⟩ := List.prefix_of_prefix_length_le ⟨v, hw.symm⟩ ⟨sep, rfl⟩ hle
    exact cut?_eq_none_iff.mp hnone u rest (by simp)
  · refine h w ?_ ?_ (fun heq => ?_) (List.suffix_append u w)
    · rintro rfl
      simp at hlt
    · exact List.prefix_of_prefix_length_le ⟨sep, hw⟩ ⟨v, rfl⟩ hgt.le
    · rw [heq] at hgt
      exact lt_irrefl _ hgt

end Cutting

section Pieces

variable {sep : List Char} (hsep : sep ≠ [])
include hsep

theorem pieces_of_cut? {s before after : List Char} (h : cut? sep s = some (before, after)) :
    pieces sep s = before :: pieces sep after := by
  rw [pieces, dif_neg hsep]
  split
  · next hc => rw [h] at hc; cases hc
  · next hc => rw [h] at hc; cases hc; rfl

theorem pieces_of_cut?_none {s : List Char} (h : cut? sep s = none) : pieces sep s = [s] := by
  rw [pieces, dif_neg hsep]
  split
  · rfl
  · next hc => rw [h] at hc; cases hc

theorem pieces_nil : pieces sep [] = [[]] := by
  refine pieces_of_cut?_none hsep (cut?_eq_none_iff.mpr fun u v h => hsep ?_)
  simp only [List.nil_eq, List.append_eq_nil_iff] at h
  exact h.1.2

omit hsep in
theorem joinPieces_append {front back : List (List Char)} (hf : front ≠ []) (hb : back ≠ []) :
    joinPieces sep (front ++ back) = joinPieces sep front ++ sep ++ joinPieces sep back := by
  induction front with
  | nil => contradiction
  | cons piece front ih =>
    cases front with
    | nil => exact joinPieces_cons_of_ne_nil hb
    | cons next front =>
      rw [List.cons_append, joinPieces_cons_of_ne_nil (by simp), ih (by simp)]
      simp [joinPieces]

theorem pieces_eq_cons_iff (s more : List Char) (back : List (List Char)) :
    pieces sep (s ++ sep ++ more) = s :: back ↔
      cut? sep (s ++ sep) = some (s, []) ∧ back = pieces sep more := by
  rw [← cut?_before_iff more]
  constructor
  · intro h
    obtain ⟨before, after, hcut, -⟩ := exists_cut? sep s more
    rw [pieces_of_cut? hsep hcut] at h
    obtain ⟨rfl, rfl⟩ := List.cons.inj h
    obtain rfl := List.append_cancel_left (eq_append_of_cut? hcut)
    exact ⟨hcut, rfl⟩
  · rintro ⟨hcut, rfl⟩
    exact pieces_of_cut? hsep hcut

/-- The pieces of a text start those of the text, a separator and more just if the separator is
found where it stands. -/
theorem pieces_append_iff {s more : List Char} {back : List (List Char)} :
    pieces sep (s ++ sep ++ more) = pieces sep s ++ back ↔
      pieces sep (s ++ sep) = pieces sep s ++ [[]] ∧ back = pieces sep more := by
  fun_induction pieces sep s with
  | case1 => contradiction
  | case2 s _ _ =>
    have hend := pieces_eq_cons_iff hsep s [] [[]]
    rw [List.append_nil, pieces_nil hsep] at hend
    simpa [hend] using pieces_eq_cons_iff hsep s _ _
  | case3 s _ before after h ih =>
    have hcut (rest : List Char) : pieces sep (s ++ rest) = before :: pieces sep (after ++ rest) :=
      pieces_of_cut? hsep (cut?_append_iff.mpr h)
    simpa [hcut] using ih

theorem pieces_isPrefix_iff {s t : List Char} :
    pieces sep s <+: pieces sep t ↔
      t = s ∨ pieces sep (s ++ sep) = pieces sep s ++ [[]] ∧ s ++ sep <+: t := by
  constructor
  · rintro ⟨back, hback⟩
    have hjoin := joinPieces_pieces hsep t
    rw [← hback] at hjoin
    rcases eq_or_ne back [] with rfl | hne
    · rw [List.append_nil, joinPieces_pieces hsep] at hjoin
      exact Or.inl hjoin.symm
    · rw [joinPieces_append (pieces_ne_nil _ _) hne, joinPieces_pieces hsep] at hjoin
      rw [← hjoin] at hback
      exact Or.inr ⟨((pieces_append_iff hsep).mp hback.symm).1, _, hjoin⟩
  · rintro (rfl | ⟨hend, more, rfl⟩)
    · exact List.prefix_refl _
    · exact ⟨_, ((pieces_append_iff hsep).mpr ⟨hend, rfl⟩).symm⟩

/-- A text that shares no character with the separator is not cut, also not by a separator behind
it. -/
theorem cut?_of_disjoint {s : List Char} (h : ∀ c ∈ sep, c ∉ s) :
    cut? sep s = none ∧ ∀ more, cut? sep (s ++ sep ++ more) = some (s, more) := by
  have hpart {part : List Char} (hne : part ≠ []) (hsub : part ⊆ sep) : ¬part ⊆ s := by
    obtain ⟨c, hc⟩ := List.exists_mem_of_ne_nil part hne
    exact fun hpart => h c (hsub hc) (hpart hc)
  have hnone : cut? sep s = none := by
    refine cut?_eq_none_iff.mpr fun u v huv => hpart hsep (List.Subset.refl _) ?_
    simp [huv]
  refine ⟨hnone, fun more => (cut?_before_iff more).mpr (cut?_append_of_forall hnone ?_)⟩
  exact fun front hne hpre _ hsuf => hpart hne hpre.subset hsuf.subset

/-- The text after the last separator is the last piece, if the two share no character. -/
theorem lastPieceChars_eq {s last : List Char} (h : (pieces sep s).getLast? = some last)
    (hlast : ∀ c ∈ sep, c ∉ last) : lastPieceChars sep s = last := by
  obtain ⟨hnone, hcut⟩ := cut?_of_disjoint (mt List.reverse_eq_nil_iff.mp hsep)
    (s := last.reverse) (by simpa using hlast)
  have hjoin := joinPieces_pieces hsep s
  obtain ⟨front, hfront⟩ := List.getLast?_eq_some_iff.mp h
  rw [hfront] at hjoin
  rcases eq_or_ne front [] with rfl | hne
  · obtain rfl : last = s := hjoin
    rw [lastPieceChars, hnone]
  · rw [joinPieces_append hne (List.cons_ne_nil _ _)] at hjoin
    have hrev : s.reverse = last.reverse ++ sep.reverse ++ (joinPieces sep front).reverse := by
      rw [← hjoin, List.reverse_append, List.reverse_append, List.append_assoc]
      rfl
    rw [lastPieceChars, hrev, hcut]
    exact List.reverse_reverse last

end Pieces

/-! ## Texts -/

/-- A separator behind the text is found where it stands, not earlier across the text's end. -/
def SplitsAfter (sep s : String) : Prop := split sep (s ++ sep) = split sep s ++ [""]

theorem ofList_injective : Function.Injective String.ofList := fun _ _ => String.ofList_injective

theorem splitsAfter_iff {sep s : String} :
    SplitsAfter sep s ↔
      pieces sep.toList (s.toList ++ sep.toList) = pieces sep.toList s.toList ++ [[]] := by
  have hmap : split sep s ++ [""] = (pieces sep.toList s.toList ++ [[]]).map String.ofList := by
    simp [split]
  rw [SplitsAfter, hmap, split, String.toList_append]
  exact (List.map_injective_iff.mpr ofList_injective).eq_iff

theorem append_isPrefix_toList_iff {s sep t : String} :
    s.toList ++ sep.toList <+: t.toList ↔ ∃ more, t = s ++ sep ++ more := by
  constructor
  · rintro ⟨more, hmore⟩
    exact ⟨String.ofList more, String.toList_inj.mp (by simp [← hmore])⟩
  · rintro ⟨more, rfl⟩
    exact ⟨more.toList, by simp⟩

/-- The pieces of a text start those of another one just if that is the same text, or goes on with
a separator that is found behind the first text. -/
theorem split_isPrefix_iff {sep s t : String} (hsep : sep ≠ "") :
    split sep s <+: split sep t ↔ t = s ∨ SplitsAfter sep s ∧ ∃ more, t = s ++ sep ++ more := by
  have hchars : sep.toList ≠ [] := by simpa using hsep
  rw [split, split, List.prefix_map_iff_of_injective ofList_injective, pieces_isPrefix_iff hchars,
    splitsAfter_iff, append_isPrefix_toList_iff, String.toList_inj]

example : split "__" ("a_" ++ "__") = ["a", "_"] := by cbv

theorem lastPiece_eq {sep s last : String} (hsep : sep ≠ "")
    (h : (split sep s).getLast? = some last) (hlast : ∀ c ∈ sep.toList, c ∉ last.toList) :
    lastPiece sep s = last := by
  rw [split, List.getLast?_map] at h
  obtain ⟨chars, hchars, rfl⟩ := Option.map_eq_some_iff.mp h
  rw [String.toList_ofList] at hlast
  rw [lastPiece, lastPieceChars_eq (by simpa using hsep) hchars hlast]

end FieldLookup.Text
