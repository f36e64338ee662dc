import FieldLookup.Query.StableSort
import Mathlib.Order.Compare

/-!
Sorting by a comparison that is a preorder of what is sorted. Main statements: `sortBy_map`, images
are sorted if and as what they are images of; and `Preorders.pairwise_sortBy`, the result is in
order, and elements that tie keep the order in which the list had them.
-/
namespace FieldLookup

variable {α β : Type} {compare : α → α → Ordering}

/-! ## Sorting images -/

theorem insertReversed_map (compare : β → β → Ordering) (f : α → β) (a : α)
    (xs : List α) :
    insertReversed compare (f a) (xs.map f) =
      (insertReversed (fun a b => compare (f a) (f b)) a xs).map f := by
  induction xs with
  | nil => rfl
  | cons b rest ih =>
    rw [List.map_cons, insertReversed, insertReversed, ih]
    split <;> rfl

theorem insertionSort_map (compare : β → β → Ordering) (f : α → β) (xs : List α) :
    insertionSort compare (xs.map f) =
      (insertionSort (fun a b => compare (f a) (f b)) xs).map f := by
  have hfold (sorted : List α) :
      (xs.map f).foldl (fun sorted b => insertReversed compare b sorted) (sorted.map f) =
        (xs.foldl (fun sorted a => insertReversed (fun a b => compare (f a) (f b)) a sorted)
          sorted).map f := by
    induction xs generalizing sorted with
    | nil => rfl
    | cons a rest ih => rw [List.map_cons, List.foldl_cons, insertReversed_map, ih]; rfl
  rw [insertionSort, insertionSort, List.map_reverse, ← hfold []]
  rfl

theorem preorders_map (compare : β → β → Ordering) (f : α → β) (xs : List α) :
    Preorders compare (xs.map f) ↔ Preorders (fun a b => compare (f a) (f b)) xs := by
  refine ⟨fun h => ⟨fun a ha b hb => ?_, fun a b c ha hb hc => ?_⟩, fun h => ⟨?_, ?_⟩⟩
  · exact h.swap _ (List.mem_map_of_mem ha) _ (List.mem_map_of_mem hb)
  · exact h.trans (f a) (f b) (f c) (List.mem_map_of_mem ha) (List.mem_map_of_mem hb)
      (List.mem_map_of_mem hc)
  · exact List.forall_mem_map.mpr fun a ha => List.forall_mem_map.mpr fun b hb => h.swap a ha b hb
  · intro _ _ _ hx hy hz
    obtain ⟨a, ha, rfl⟩ := List.mem_map.mp hx
    obtain ⟨b, hb, rfl⟩ := List.mem_map.mp hy
    obtain ⟨c, hc, rfl⟩ := List.mem_map.mp hz
    exact h.trans a b c ha hb hc

/-- Sorting images sorts what they are images of. -/
theorem sortBy_map (compare : β → β → Ordering) (f : α → β) (xs : List α) :
    sortBy compare (xs.map f) =
      (sortBy (fun a b => compare (f a) (f b)) xs).map (List.map f) := by
  unfold sortBy
  simp only [List.length_map, preorders_map, insertionSort_map]
  split <;> rfl

/-! ## Order of the result -/

/-- The order of a stably sorted list: by the comparison, and by the order before where that ties.
-/
def Stably (compare : α → α → Ordering) (R : α → α → Prop) (a b : α) : Prop :=
  compare a b = .lt ∨ (compare a b = .eq ∧ R a b)

theorem stably_of_isLE {R : α → α → Prop} {a b : α} (hle : (compare a b).isLE = true)
    (hR : R a b) : Stably compare R a b := by
  unfold Stably
  cases h : compare a b with
  | lt => exact Or.inl rfl
  | eq => exact Or.inr ⟨rfl, hR⟩
  | gt =>
    rw [h] at hle
    cases hle

theorem Stably.isLE {R : α → α → Prop} {a b : α} (h : Stably compare R a b) :
    (compare a b).isLE = true := by
  rcases h with h | ⟨h, _⟩ <;> rw [h] <;> rfl

section

variable [Std.TransCmp compare] {R : α → α → Prop}

theorem isLE_of_not_lt {a b : α} (h : ¬compare a b = .lt) : (compare b a).isLE = true := by
  have hswap : compare b a = (compare a b).swap := Std.OrientedCmp.eq_swap
  rw [hswap]
  cases hab : compare a b with
  | lt => exact absurd hab h
  | eq | gt => rfl

theorem pairwise_insertReversed {a : α} {sorted : List α}
    (h : sorted.Pairwise fun b c => Stably compare R c b) (ha : ∀ b ∈ sorted, R b a) :
    (insertReversed compare a sorted).Pairwise fun b c => Stably compare R c b := by
  induction sorted with
  | nil => exact List.pairwise_singleton _ _
  | cons b rest ih =>
    obtain ⟨hb, hrest⟩ := List.pairwise_cons.mp h
    unfold insertReversed
    split
    · next hlt =>
      refine List.pairwise_cons.mpr ⟨fun c hc => ?_, ih hrest fun c hc => ha c (by simp [hc])⟩
      rcases List.mem_cons.mp ((insertReversed_perm compare a rest).mem_iff.mp hc) with rfl | hc
      · exact Or.inl hlt
      · exact hb c hc
    · next hlt =>
      refine List.pairwise_cons.mpr ⟨fun c hc => ?_, h⟩
      have hba : (compare b a).isLE = true := isLE_of_not_lt hlt
      rcases List.mem_cons.mp hc with rfl | hrest
      · exact stably_of_isLE hba (ha c hc)
      · exact stably_of_isLE (Std.TransCmp.isLE_trans (hb c hrest).isLE hba) (ha c hc)

theorem pairwise_insertionSort {xs : List α} (h : xs.Pairwise R) :
    (insertionSort compare xs).Pairwise (Stably compare R) := by
  have hfold (sorted : List α) (hs : sorted.Pairwise fun b c => Stably compare R c b)
      (hbefore : ∀ b ∈ sorted, ∀ a ∈ xs, R b a) :
      (xs.foldl (fun sorted a => insertReversed compare a sorted) sorted).Pairwise
        fun b c => Stably compare R c b := by
    induction xs generalizing sorted with
    | nil => exact hs
    | cons a rest ih =>
      obtain ⟨ha, hrest⟩ := List.pairwise_cons.mp h
      refine ih hrest _ (pairwise_insertReversed hs fun b hb => hbefore b hb a (by simp)) ?_
      intro b hb c hc
      rcases List.mem_cons.mp ((insertReversed_perm compare a sorted).mem_iff.mp hb) with rfl | hb
      · exact ha c hc
      · exact hbefore b hb c (by simp [hc])
  exact List.pairwise_reverse.mpr (hfold [] List.Pairwise.nil (by simp))

end

namespace Preorders

variable {xs sorted : List α} {R : α → α → Prop}

theorem transCmp (h : Preorders compare xs) :
    Std.TransCmp fun a b : {a // a ∈ xs} => compare a.1 b.1 where
  eq_swap {a b} := h.swap a a.2 b b.2
  isLE_trans {a b c} := h.trans a b c a.2 b.2 c.2

theorem exists_sortBy (h : Preorders compare xs) : ∃ sorted, sortBy compare xs = some sorted :=
  exists_sortBy_iff.mpr (Or.inr h)

/-- The result is in order, and elements that tie keep the order that they had. -/
theorem pairwise_sortBy (h : Preorders compare xs) (hR : xs.Pairwise R)
    (hsorted : sortBy compare xs = some sorted) : sorted.Pairwise (Stably compare R) := by
  have := h.transCmp
  have hmap := insertionSort_map compare Subtype.val xs.attach
  have hR' : xs.attach.Pairwise fun a b => R a.1 b.1 := by
    rwa [← List.attach_map_subtype_val xs, List.pairwise_map] at hR
  rw [List.attach_map_subtype_val, ← eq_insertionSort_of_sortBy hsorted] at hmap
  rw [hmap, List.pairwise_map]
  exact pairwise_insertionSort hR'

end Preorders

end FieldLookup
