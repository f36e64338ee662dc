import FieldLookup.Proofs.Selection

/-!
Calls that add to a query narrow what it selects. Main statement: `Compiler.fetch_narrows`, each row
that is fetched after a call was fetched before it, and asking for related rows changes nothing.
-/
namespace FieldLookup

/-- Whether a call only sets the slice of a query. -/
def Call.isSlice : Call → Bool
  | limitTo _ | skipping _ => true
  | narrow _ | exclude _ | order _ | loadRelated .. | apply _ => false

namespace Query

/-- One query joins all that another joins and demands all that it demands, with the same slice. -/
structure Refines (q' q : Query) : Prop where
  root : q'.root = q.root
  joins : q.joins ⊆ q'.joins
  predicates : q.predicates ⊆ q'.predicates
  limit : q'.limit = q.limit
  offset : q'.offset = q.offset

theorem Refines.trans {q q' q'' : Query} (h : q''.Refines q') (h' : q'.Refines q) :
    q''.Refines q :=
  ⟨h.root.trans h'.root, List.Subset.trans h'.joins h.joins,
    List.Subset.trans h'.predicates h.predicates, h.limit.trans h'.limit,
    h.offset.trans h'.offset⟩

theorem truth_eq_true_iff {q : Query} {a : Assignment} :
    q.truth a = some true ↔ ∀ p ∈ q.predicates, p.truth a.value = some true := by
  rw [truth, Truth.all_eq_true_iff, List.forall_mem_map]

variable {schema : Schema} {store : Store} {q q' : Query}

/-- An assignment that makes the condition true after a refinement makes it true before. -/
theorem Refines.shows (h : q'.Refines q) {a : Assignment}
    (ha : a.Follows schema store q'.root q'.joins) (htruth : q'.truth a = some true) :
    a.Follows schema store q.root q.joins ∧ q.truth a = some true := by
  refine ⟨⟨h.root ▸ ha.root, fun j hj => ha.joined j (h.joins hj)⟩, ?_⟩
  exact truth_eq_true_iff.mpr fun p hp => truth_eq_true_iff.mp htruth p (h.predicates hp)

theorem Refines.selects (h : q'.Refines q) {row : Row} (hrow : q'.Selects schema store row) :
    q.Selects schema store row := by
  obtain ⟨a, ha, hroot, htruth⟩ := hrow
  obtain ⟨ha, htruth⟩ := h.shows ha htruth
  exact ⟨a, ha, hroot, htruth⟩

theorem Refines.sees (h : q'.Refines q) {c : Column} {v : Value}
    (hv : q'.Sees schema store c v) : q.Sees schema store c v := by
  obtain ⟨a, ha, htruth, hv⟩ := hv
  obtain ⟨ha, htruth⟩ := h.shows ha htruth
  exact ⟨a, ha, htruth, hv⟩

/-- If the patterns after a refinement can be read, so can those before. -/
theorem Refines.exists_fetch (hstore : store.Coherent) (h : q'.Refines q) (hq : q.Sound schema)
    (hq' : q'.Sound schema) (hsortable : q.Sortable schema store) {rows' : List Row}
    (hrows' : q'.fetch schema store = .ok rows') : ∃ rows, q.fetch schema store = .ok rows := by
  have hreadable := ((exists_fetch_iff hstore hq').mp ⟨rows', hrows'⟩).1
  exact hsortable.exists_fetch hstore hq fun p hp => hreadable p (h.predicates hp)

end Query

namespace Join

theorem subset_addNew (joins : List Join) (j : Join) : joins ⊆ addNew joins j := by
  unfold addNew
  split
  · exact List.Subset.refl _
  · exact List.subset_append_left _ _

theorem subset_addAllNew (joins more : List Join) : joins ⊆ addAllNew joins more := by
  induction more generalizing joins with
  | nil => exact List.Subset.refl _
  | cons j more ih => exact List.Subset.trans (subset_addNew joins j) (ih _)

end Join

namespace Compiler

variable {c : Compiler} {q q' : Query}

theorem restrict_refines {lookups : Lookups} {negate : Bool} {source : ValueOrigin}
    (h : c.restrict q lookups negate source = .ok q') : q'.Refines q := by
  obtain ⟨conditions, -, rfl⟩ := restrict_eq_ok h
  exact ⟨rfl, Join.subset_addAllNew _ _, List.subset_append_left _ _, rfl, rfl⟩

theorem order_refines {keys : List String} (h : c.order q keys = .ok q') : q'.Refines q := by
  obtain ⟨sorts, -, rfl⟩ := order_eq_ok h
  exact ⟨rfl, Join.subset_addAllNew _ _, List.Subset.refl _, rfl, rfl⟩

theorem loadRelated_refines {paths : List String} {depth : Option Nat}
    (h : c.loadRelated q paths depth = .ok q') : q'.Refines q := by
  obtain ⟨resolved, eager, -, rfl, -⟩ := loadRelated_eq_ok h
  exact ⟨rfl, List.Subset.refl _, List.Subset.refl _, rfl, rfl⟩

theorem run_refines {call : Call} (hcall : call.isSlice = false) (h : call.run c q = .ok q') :
    q'.Refines q := by
  cases call with
  | narrow lookups | exclude lookups => exact restrict_refines h
  | order keys => exact order_refines h
  | loadRelated paths depth => exact loadRelated_refines h
  | apply request =>
    obtain ⟨narrowed, hn, ho⟩ := Checked.bind_eq_ok_iff.mp h
    exact (order_refines ho).trans (restrict_refines hn)
  | limitTo n | skipping n => cases hcall

/-- No call that adds to a query widens it: each row that is fetched after the call is fetched
before it, in the same order if nothing is sorted. Before the call no pattern is refused that is not
refused after it, so only its own sort keys can keep the query from being fetched. Asking for
related rows changes nothing that is fetched, also within a slice. -/
theorem fetch_narrows {store : Store} {root : EntityId} (hs : c.schema.Declared)
    (hf : store.Filled) (hq : Query.Composed c.schema root q) :
    (∀ call q' rows', Call.isSlice call = false → call.run c q = .ok q' → q.limit = none →
        q.offset = none → q'.fetch c.schema store = .ok rows' →
          (q.Sortable c.schema store → ∃ rows, q.fetch c.schema store = .ok rows) ∧
            ∀ rows, q.fetch c.schema store = .ok rows → rows' ⊆ rows ∧
              (q.order = [] → q'.order = [] → rows'.Sublist rows)) ∧
      ∀ paths depth q', c.loadRelated q paths depth = .ok q' →
        q'.fetch c.schema store = q.fetch c.schema store := by
  have hstore := hf.coherent
  have hsound := (hq.sound hs).1
  constructor
  · intro call q' rows' hcall hrun hlimit hoffset hrows'
    have hrefines := run_refines hcall hrun
    have hsound' := (Call.run_sound hs hsound hrun).1
    have hlimit' := hrefines.limit.trans hlimit
    have hoffset' := hrefines.offset.trans hoffset
    refine ⟨fun h => hrefines.exists_fetch hstore hsound hsound' h hrows', fun rows hrows => ?_⟩
    obtain ⟨-, hmem⟩ := Query.mem_fetch_iff hstore hsound hlimit hoffset hrows
    obtain ⟨hnodup', hmem'⟩ := Query.mem_fetch_iff hstore hsound' hlimit' hoffset' hrows'
    have hsub : rows' ⊆ rows := fun row hrow =>
      (hmem row).mpr (hrefines.selects ((hmem' row).mp hrow))
    refine ⟨hsub, fun horder horder' => Row.sublist_of_pairwise hsub ?_ ?_⟩
    · exact hstore.pairwise.sublist
        (Query.sublist_of_fetch hstore hsound' horder' hlimit' hoffset' hrows')
    · exact hstore.pairwise.sublist
        (Query.sublist_of_fetch hstore hsound horder hlimit hoffset hrows)
  · intro paths depth q' h
    obtain ⟨resolved, eager, -, rfl, -⟩ := loadRelated_eq_ok h
    rfl

/-- The theorem at the authors of the blog, narrowed through two joins to many rows. -/
theorem fetch_narrows_praised :
    Blog.built.Declared ∧ (Blog.fill Blog.built).Filled ∧
      Query.Composed Blog.built ⟨0⟩ (Query.ofRoot ⟨0⟩) ∧
        Call.run (ofSchema Blog.built) (Query.ofRoot ⟨0⟩) (.narrow Blog.praiseLookups) =
          .ok Blog.praised ∧
        Blog.praised.fetch Blog.built (Blog.fill Blog.built) =
          .ok ((Blog.fill Blog.built).rows.take 1) ∧
        ∃ rows, (Query.ofRoot ⟨0⟩).fetch Blog.built (Blog.fill Blog.built) = .ok rows ∧
          ((Blog.fill Blog.built).rows.take 1).Sublist rows := by
  have hrun : Call.run (ofSchema Blog.built) (Query.ofRoot ⟨0⟩) (.narrow Blog.praiseLookups) =
      .ok Blog.praised := by cbv
  obtain ⟨hexists, hnarrows⟩ :=
    (fetch_narrows (c := ofSchema Blog.built) Blog.declared_built (Blog.filled_fill Blog.built)
      .ofRoot).1 _ _ _ rfl hrun rfl rfl rfl
  obtain ⟨rows, hrows⟩ := hexists (Query.sortable_of_nil rfl)
  exact ⟨Blog.declared_built, Blog.filled_fill Blog.built, .ofRoot, hrun, rfl, rows, hrows,
    (hnarrows rows hrows).2 rfl rfl⟩

end Compiler

end FieldLookup
