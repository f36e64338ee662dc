/-!
Stable sorting by insertion from the right. A sort asks of its comparison that it be a total
preorder of what is sorted. Where it is none, a short list is still left as the insertions leave it,
but a longer one has no order at all: the sort gives up. Main statements: `ranksAgree_iff`, by which
a comparison is seen to be a preorder of a list; `exists_sortBy_iff`, when there is a result; and
`perm_of_sortBy`, the result holds the same elements as often.
-/
namespace FieldLookup

/-! ## Comparisons -/

/-- A comparison that is transitive among the elements with a property. -/
def TransitiveOn {α : Type} (P : α → Prop) (compare : α → α → Ordering) : Prop :=
  ∀ a b c, P a → P b → P c → (compare a b).isLE → (compare b c).isLE → (compare a c).isLE

/-- A comparison that is a total preorder of the members of a list. -/
structure Preorders {α : Type} (compare : α → α → Ordering) (xs : List α) : Prop where
  swap : ∀ a ∈ xs, ∀ b ∈ xs, compare a b = (compare b a).swap
  trans : TransitiveOn (· ∈ xs) compare

/-- How many members of a list precede an element. -/
def rank {α : Type} (compare : α → α → Ordering) (xs : List α) (a : α) : Nat :=
  xs.countP fun b => compare b a == .lt

/-- Whether the members of a list compare as their ranks do. -/
def ranksAgree {α : Type} (compare : α → α → Ordering) (xs : List α) : Bool :=
  let ranked := xs.map fun a => (rank compare xs a, a)
  ranked.all fun x => ranked.all fun y => compare x.2 y.2 == Ord.compare x.1 y.1

namespace Preorders

variable {α : Type} {compare : α → α → Ordering} {xs : List α} {a b c : α}

theorem lt_of_lt_of_isLE (h : Preorders compare xs) (hc : c ∈ xs) (ha : a ∈ xs) (hb : b ∈ xs)
    (hca : compare c a = .lt) (hab : (compare a b).isLE) : compare c b = .lt := by
  have hle : (compare c b).isLE := h.trans c a b hc ha hb (by rw [hca]; rfl) hab
  cases hcb : compare c b with
  | lt => rfl
  | eq =>
    -- then the last one is in front of the first one, and so is the one between
    have hbc : (compare b c).isLE := by
      rw [h.swap b hb c hc, hcb]
      rfl
    have hac := h.trans a b c ha hb hc hab hbc
    rw [h.swap a ha c hc, hca] at hac
    cases hac
  | gt =>
    rw [hcb] at hle
    cases hle

theorem rank_le (h : Preorders compare xs) (ha : a ∈ xs) (hb : b ∈ xs)
    (hab : (compare a b).isLE) : rank compare xs a ≤ rank compare xs b :=
  List.countP_mono_left fun _ hc hca =>
    beq_iff_eq.mpr (h.lt_of_lt_of_isLE hc ha hb (beq_iff_eq.mp hca) hab)

/-- What precedes another element precedes one more that it is itself. -/
theorem rank_lt (h : Preorders compare xs) (ha : a ∈ xs) (hb : b ∈ xs)
    (hab : compare a b = .lt) : rank compare xs a < rank compare xs b := by
  have hmono (part : List α) (hpart : part ⊆ xs) :
      part.countP (compare · a == .lt) ≤ part.countP (compare · b == .lt) := by
    refine List.countP_mono_left fun c hc hca => beq_iff_eq.mpr ?_
    exact h.lt_of_lt_of_isLE (hpart hc) ha hb (beq_iff_eq.mp hca) (by rw [hab]; rfl)
  have hself : (compare a a == .lt) = false := by
    have hswap := h.swap a ha a ha
    cases haa : compare a a with
    | eq => rfl
    | lt | gt =>
      rw [haa] at hswap
      cases hswap
  obtain ⟨front, back, hsplit⟩ := List.append_of_mem ha
  have hfront := hmono front (by simp [hsplit])
  have hback := hmono back fun c hc => by simp [hsplit, hc]
  unfold rank
  rw [hsplit, List.countP_append, List.countP_append, List.countP_cons, List.countP_cons, hself,
    hab]
  simp only [beq_self_eq_true, if_true, Bool.false_eq_true, if_false]
  omega

theorem compare_rank (h : Preorders compare xs) (ha : a ∈ xs) (hb : b ∈ xs) :
    Ord.compare (rank compare xs a) (rank compare xs b) = compare a b := by
  cases hab : compare a b with
  | lt => exact Nat.compare_eq_lt.mpr (h.rank_lt ha hb hab)
  | eq =>
    have hba : compare b a = .eq := by
      rw [h.swap b hb a ha, hab]
      rfl
    refine Nat.compare_eq_eq.mpr (Nat.le_antisymm (h.rank_le ha hb ?_) (h.rank_le hb ha ?_))
    · rw [hab]
      rfl
    · rw [hba]
      rfl
  | gt =>
    refine Nat.compare_eq_gt.mpr (h.rank_lt hb ha ?_)
    rw [h.swap b hb a ha, hab]
    rfl

end Preorders

/-- A comparison is a total preorder of a list just if it compares the members as their ranks
compare. -/
theorem ranksAgree_iff {α : Type} {compare : α → α → Ordering} {xs : List α} :
    ranksAgree compare xs = true ↔ Preorders compare xs := by
  have hagree : ranksAgree compare xs = true ↔ ∀ a ∈ xs, ∀ b ∈ xs,
      compare a b = Ord.compare (rank compare xs a) (rank compare xs b) := by
    simp [ranksAgree, List.all_eq_true]
  rw [hagree]
  refine ⟨fun h => ⟨fun a ha b hb => ?_, fun a b c ha hb hc => ?_⟩, fun h a ha b hb =>
    (h.compare_rank ha hb).symm⟩
  · rw [h a ha b hb, h b hb a ha, Nat.compare_swap]
  · rw [h a ha b hb, h b hb c hc, h a ha c hc]
    simp only [Nat.isLE_compare]
    exact Nat.le_trans

instance {α : Type} (compare : α → α → Ordering) (xs : List α) :
    Decidable (Preorders compare xs) :=
  decidable_of_iff _ ranksAgree_iff

/-! ## Insertion -/

/-- Puts an element into a list in reversed order, behind all that it does not precede. -/
def insertReversed {α : Type} (compare : α → α → Ordering) (a : α) : List α → List α
  | [] => [a]
  | b :: rest =>
    if compare a b = .lt then b :: insertReversed compare a rest else a :: b :: rest

def insertionSort {α : Type} (compare : α → α → Ordering) (xs : List α) : List α :=
  (xs.foldl (fun sorted a => insertReversed compare a sorted) []).reverse

theorem insertReversed_perm {α : Type} (compare : α → α → Ordering) (a : α) (xs : List α) :
    (insertReversed compare a xs).Perm (a :: xs) := by
  induction xs with
  | nil => exact List.Perm.refl _
  | cons b rest ih =>
    unfold insertReversed
    split
    · exact (ih.cons b).trans (List.Perm.swap a b rest)
    · exact List.Perm.refl _

theorem foldl_insertReversed_perm {α : Type} (compare : α → α → Ordering) (xs sorted : List α) :
    (xs.foldl (fun sorted a => insertReversed compare a sorted) sorted).Perm (xs ++ sorted) := by
  induction xs generalizing sorted with
  | nil => exact List.Perm.refl _
  | cons a rest ih =>
    refine (ih _).trans ?_
    refine ((insertReversed_perm compare a sorted).append_left rest).trans ?_
    exact List.perm_middle

theorem insertionSort_perm {α : Type} (compare : α → α → Ordering) (xs : List α) :
    (insertionSort compare xs).Perm xs := by
  have h := foldl_insertReversed_perm compare xs []
  rw [List.append_nil] at h
  exact (List.reverse_perm _).trans h

/-! ## Sorting -/

/-- The length up to which a list is sorted whatever the comparison. -/
def shortLength : Nat := 20

/-- The list in order; elements that tie keep their places. There is none if the list is not short
and the comparison is no total preorder of it: nothing is promised of a sort then, which may leave
any order or end the run. -/
def sortBy {α : Type} (compare : α → α → Ordering) (xs : List α) : Option (List α) :=
  if xs.length ≤ shortLength ∨ Preorders compare xs then some (insertionSort compare xs) else none

section

variable {α : Type} {compare : α → α → Ordering} {xs sorted : List α}

theorem exists_sortBy_iff :
    (∃ sorted, sortBy compare xs = some sorted) ↔
      xs.length ≤ shortLength ∨ Preorders compare xs := by
  unfold sortBy
  split
  · next h => simp [h]
  · next h => simp [h]

theorem eq_insertionSort_of_sortBy (h : sortBy compare xs = some sorted) :
    sorted = insertionSort compare xs := by
  unfold sortBy at h
  split at h
  · exact (Option.some.inj h).symm
  · cases h

theorem perm_of_sortBy (h : sortBy compare xs = some sorted) : sorted.Perm xs := by
  rw [eq_insertionSort_of_sortBy h]
  exact insertionSort_perm compare xs

end

end FieldLookup
