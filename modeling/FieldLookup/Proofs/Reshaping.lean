import FieldLookup.Proofs.PatternLeaves

/-!
Predicates that differ in shape only. Main statements: `Truth.rank_all`, the truth of several
predicates is the least of theirs in the order false, unknown, true; `Predicate.Reshapes.truth_eq`,
a predicate in another shape has the same truth; and `Query.eval_kleene`, so testing a binding gives
the truth that strong Kleene logic asks for, in every shape.
-/
namespace FieldLookup

/-! ## The order of truths -/

namespace Truth

variable {t t' : Truth} {ts us : List Truth}

/-- The place of a truth in the order false, unknown, true. -/
def rank : Truth → Nat
  | some false => 0
  | none => 1
  | some true => 2

theorem rank_injective (h : t.rank = t'.rank) : t = t' := by
  rcases t with _ | _ | _ <;> rcases t' with _ | _ | _ <;> first | rfl | cases h

theorem rank_not (t : Truth) : t.not.rank = 2 - t.rank := by
  rcases t with _ | _ | _ <;> rfl

theorem rank_and (t t' : Truth) : (t.and t').rank = min t.rank t'.rank := by
  rcases t with _ | _ | _ <;> rcases t' with _ | _ | _ <;> rfl

/-- The truth of several predicates is the least of theirs, and true for none. -/
theorem rank_all (ts : List Truth) : (all ts).rank = (ts.map rank).foldr min 2 := by
  induction ts with
  | nil => rfl
  | cons t ts ih => rw [all, List.foldr_cons, rank_and, ← all, ih, List.map_cons, List.foldr_cons]

theorem le_rank_all_iff {k : Nat} : k ≤ (all ts).rank ↔ k ≤ 2 ∧ ∀ t ∈ ts, k ≤ t.rank := by
  rw [rank_all]
  induction ts with
  | nil => simp
  | cons t ts ih =>
    rw [List.map_cons, List.foldr_cons, Nat.le_min, ih, List.forall_mem_cons]
    tauto

/-- Neither order nor repetition of what is taken together matters. -/
theorem all_congr (h : ∀ t, t ∈ ts ↔ t ∈ us) : all ts = all us := by
  have hle (k : Nat) : k ≤ (all ts).rank ↔ k ≤ (all us).rank := by
    simp only [le_rank_all_iff, h]
  exact rank_injective (Nat.le_antisymm ((hle _).mp (Nat.le_refl _)) ((hle _).mpr (Nat.le_refl _)))

theorem all_append (ts us : List Truth) : all (ts ++ us) = and (all ts) (all us) := by
  induction ts with
  | nil => exact (true_and _).symm
  | cons t ts ih => rw [all, List.cons_append, List.foldr_cons, ← all, ih, ← and_assoc]; rfl

end Truth

/-! ## Shapes -/

namespace Predicate

/-- Predicates that differ, at any depth, in the order and repetition of what is taken together, in
how that is grouped, and in doubled negations. -/
inductive Reshapes : Predicate → Predicate → Prop
  | refl (p : Predicate) : Reshapes p p
  | symm {p q : Predicate} : Reshapes p q → Reshapes q p
  | trans {p q r : Predicate} : Reshapes p q → Reshapes q r → Reshapes p r
  | not {p q : Predicate} : Reshapes p q → Reshapes (.not p) (.not q)
  | item {p q : Predicate} (before after : List Predicate) :
      Reshapes p q → Reshapes (.and (before ++ p :: after)) (.and (before ++ q :: after))
  | rearranged {ps qs : List Predicate} : (∀ p, p ∈ ps ↔ p ∈ qs) → Reshapes (.and ps) (.and qs)
  | flattened (before inner after : List Predicate) :
      Reshapes (.and (before ++ .and inner :: after)) (.and (before ++ inner ++ after))
  | single (p : Predicate) : Reshapes (.and [p]) p
  | doubled (p : Predicate) : Reshapes (.not (.not p)) p

variable {p p' q leaf : Predicate} {values : Column → Value}

theorem truth_and (values : Column → Value) (ps : List Predicate) :
    (Predicate.and ps).truth values = Truth.all (ps.map (truth values)) :=
  truthOfAll_eq values ps

/-- A predicate in another shape has the same truth. -/
theorem Reshapes.truth_eq (h : p.Reshapes p') (values : Column → Value) :
    p.truth values = p'.truth values := by
  induction h with
  | refl p => rfl
  | symm _ ih => exact ih.symm
  | trans _ _ ih ih' => exact ih.trans ih'
  | not _ ih => rw [truth, truth, ih]
  | item before after _ ih =>
    rw [truth_and, truth_and, List.map_append, List.map_append, List.map_cons, List.map_cons, ih]
  | rearranged hmem =>
    rw [truth_and, truth_and]
    refine Truth.all_congr fun t => ?_
    simp only [List.mem_map, hmem]
  | flattened before inner after =>
    have hcons (t : Truth) (ts : List Truth) : Truth.all (t :: ts) = t.and (Truth.all ts) := rfl
    simp only [truth_and, List.map_append, List.map_cons, Truth.all_append, hcons,
      Truth.and_assoc]
  | single p =>
    rw [truth_and]
    exact (Truth.and_comm _ _).trans (Truth.true_and _)
  | doubled p => rw [truth, truth, Truth.not_not]

/-- A predicate in another shape has the same leaves. -/
theorem Reshapes.mem_leaves_iff (h : p.Reshapes p') : leaf ∈ p.leaves ↔ leaf ∈ p'.leaves := by
  induction h with
  | refl p => rfl
  | symm _ ih => exact ih.symm
  | trans _ _ ih ih' => exact ih.trans ih'
  | not _ ih => exact ih
  | item before after _ ih => simp [leaves, leavesOfAll_eq, ih]
  | rearranged hmem => simp only [leaves, mem_leavesOfAll, hmem]
  | flattened before inner after => simp [leaves, leavesOfAll_eq]
  | single p => simp [leaves, leavesOfAll_eq]
  | doubled p => rfl

end Predicate

/-! ## Bindings -/

/-- The binding has a stored row at the path of each column that a predicate tests. -/
def Binding.Covers (store : Store) (b : Binding) (p : Predicate) : Prop :=
  ∀ leaf : Predicate, leaf.Within p → ∀ c, leaf.column? = some c →
    ∃ id row, b.lookup c.path = some id ∧ store.row? id = some row

/-- The value of a column in a binding, or null without a stored row. -/
def Binding.valueIn (store : Store) (b : Binding) (c : Column) : Value :=
  (store.valueAt b c).toOption.getD .null

namespace Query

open Predicate

variable {store : Store} {b : Binding} {m : PatternTable} {p p' condition : Predicate}

theorem reads_of_covers (hb : b.Covers store p) : Reads store b (b.valueIn store) p := by
  intro leaf hleaf c hc
  obtain ⟨id, row, hid, hrow⟩ := hb leaf (mem_leaves_iff.mp hleaf).1 c hc
  have hvalue : store.valueAt b c = .ok (row.value c.name) := by
    rw [Store.valueAt, Binding.row, hid, Checked.ok_bind, Store.row, hrow]
    rfl
  rw [Binding.valueIn, hvalue]
  rfl

/-- Testing a binding that has the columns of a predicate gives the truth that strong Kleene logic
asks for: negation reverses the order false, unknown, true, and of several items the least counts.
A predicate in another shape has the same truth, also with a table of its own. -/
theorem eval_kleene (hm : PatternTable.ofCondition condition = .ok m) (hp : p.Within condition)
    (hb : b.Covers store p) :
    ∃ t, eval store m b p = .ok t ∧
      (∀ inner, p = .not inner → ∃ s, eval store m b inner = .ok s ∧ t.rank = 2 - s.rank) ∧
      (∀ items, p = .and items → ∃ ts, items.mapM (eval store m b) = .ok ts ∧
        t.rank = (ts.map Truth.rank).foldr min 2) ∧
      ∀ p', p.Reshapes p' → eval store m b p' = .ok t ∧
        ∃ m', PatternTable.ofCondition p' = .ok m' ∧ eval store m' b p' = .ok t := by
  have hcovers : m.Covers p := fun leaf hleaf =>
    PatternTable.covers_of_ofCondition hm leaf (hp.leaves_subset hleaf)
  have hreads := reads_of_covers hb
  -- parts and other shapes have no other leaves, so one table and binding serve all
  have heval {q : Predicate} (hq : q.leaves ⊆ p.leaves) :
      eval store m b q = .ok (q.truth (b.valueIn store)) :=
    eval_eq q (fun leaf hleaf => hcovers leaf (hq hleaf)) fun leaf hleaf => hreads leaf (hq hleaf)
  refine ⟨_, heval (List.Subset.refl _), ?_, ?_, fun p' hshape => ?_⟩
  · rintro inner rfl
    exact ⟨_, heval (List.Subset.refl inner.leaves), Truth.rank_not _⟩
  · rintro items rfl
    refine ⟨items.map (truth (b.valueIn store)), ?_, ?_⟩
    · exact Checked.mapM_eq_ok fun item hitem =>
        heval (Within.item hitem (.self item)).leaves_subset
    · rw [truth_and, Truth.rank_all]
  · have hleaves : p'.leaves ⊆ p.leaves := fun leaf => hshape.mem_leaves_iff.mpr
    have hcovers' : m.Covers p' := fun leaf hleaf => hcovers leaf (hleaves hleaf)
    obtain ⟨m', hm'⟩ := PatternTable.exists_ofCondition_iff.mpr hcovers'.readable
    rw [hshape.truth_eq]
    exact ⟨heval hleaves, m', hm', eval_eq p' (PatternTable.covers_of_ofCondition hm')
      fun leaf hleaf => hreads leaf (hleaves hleaf)⟩

open PatternTable (titleColumn shortTitle)

/-- A column of which the row with the short title has no value. -/
def viewsColumn : Column := ⟨Path.root, ⟨0⟩, "views"⟩

/-- A pattern in a conjunction within another one, under two negations. -/
def nestedTest : Predicate :=
  .not (.not (.and [.compare viewsColumn .gt (.int 3), .and [.like titleColumn "a_" false]]))

/-- The same tests at one level, one of them twice. -/
def flatTest : Predicate :=
  .and [.like titleColumn "a_" false, .compare viewsColumn .gt (.int 3),
    .like titleColumn "a_" false]

/-- The theorem at a conjunction of what is unknown and what is true, in two shapes. -/
theorem eval_kleene_nested : ∃ m, PatternTable.ofCondition nestedTest = .ok m ∧
    eval shortTitle m [(Path.root, ⟨1⟩)] nestedTest = .ok none ∧
    eval shortTitle m [(Path.root, ⟨1⟩)] flatTest = .ok none := by
  obtain ⟨m, hm, hnested⟩ : ∃ m, PatternTable.ofCondition nestedTest = .ok m ∧
      eval shortTitle m [(Path.root, ⟨1⟩)] nestedTest = .ok none := by
    have h : (PatternTable.ofCondition nestedTest).toOption.bind
        (fun m => (eval shortTitle m [(Path.root, ⟨1⟩)] nestedTest).toOption) = some none := by
      decide +kernel
    simpa only [Option.bind_eq_some_iff, Checked.toOption_eq_some_iff] using h
  have hb : Binding.Covers shortTitle [(Path.root, ⟨1⟩)] nestedTest := by
    intro leaf hleaf c hc
    have hmem : leaf ∈ nestedTest.leaves := mem_leaves_iff.mpr ⟨hleaf, c, hc⟩
    rcases List.mem_pair.mp hmem with rfl | rfl
    · cases hc
      exact ⟨⟨1⟩, _, rfl, rfl⟩
    · cases hc
      exact ⟨⟨1⟩, _, rfl, rfl⟩
  have hshape : nestedTest.Reshapes flatTest := by
    refine (Reshapes.doubled _).trans ((Reshapes.flattened [_] [_] []).trans (.rearranged ?_))
    intro q
    simp only [List.cons_append, List.nil_append, List.mem_cons, List.not_mem_nil]
    tauto
  obtain ⟨t, ht, -, -, hshapes⟩ := eval_kleene hm (.self _) hb
  cases hnested.symm.trans ht
  exact ⟨m, hm, hnested, (hshapes flatTest hshape).1⟩

end Query

end FieldLookup
