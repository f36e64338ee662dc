import FieldLookup.Proofs.Assignment
import FieldLookup.Proofs.Meaning
import FieldLookup.Proofs.SortPreorder
import FieldLookup.Proofs.WellFormed

/-!
What a query fetches. Main statements: `Query.fetch_eq_ok_iff` and `Query.fetch_eq_error_iff`,
fetching a sound query fails only for a pattern that cannot be read, and for many values of its sort
keys that are in no order (`Query.Sortable`); and `Query.fetch_exact`, without sort keys and slice
it gives the rows of the root for which some assignment makes the condition true, each once and in
the order of their insertion.
-/
namespace FieldLookup.Query

/-- The truth of all predicates of a query in an assignment. -/
def truth (q : Query) (a : Assignment) : Truth :=
  Truth.all (q.predicates.map (Predicate.truth a.value))

/-- Some assignment that follows the joins from a row of the root makes the condition true. -/
def Selects (schema : Schema) (store : Store) (q : Query) (row : Row) : Prop :=
  ∃ a : Assignment, a.Follows schema store q.root q.joins ∧ a Path.root = row ∧
    q.truth a = some true

/-- A column has a value in some assignment that follows the joins and makes the condition true. -/
def Sees (schema : Schema) (store : Store) (q : Query) (c : Column) (v : Value) : Prop :=
  ∃ a : Assignment, a.Follows schema store q.root q.joins ∧ q.truth a = some true ∧ a.value c = v

/-- The values that each sort key sees are in a total preorder, so that they can be sorted. -/
def Comparable (schema : Schema) (store : Store) (q : Query) : Prop :=
  ∀ key ∈ q.order, TransitiveOn (q.Sees schema store key.column) Value.sortCompare

/-- The assignments that make the condition true. -/
def chosen (schema : Schema) (store : Store) (q : Query) : List Assignment :=
  (Assignment.all schema store q.root q.joins).filter (q.truth · = some true)

/-- The assignments that make the condition true can be sorted: they are few, or what the sort keys
see in them is comparable. -/
def Sortable (schema : Schema) (store : Store) (q : Query) : Prop :=
  (q.chosen schema store).length ≤ shortLength ∨ q.Comparable schema store

variable {schema : Schema} {store : Store} {q : Query} {m : PatternTable} {a a' : Assignment}

/-! ## Conditions -/

theorem truth_eq_of_condition {p : Predicate} (hp : q.condition = some p) (a : Assignment) :
    q.truth a = p.truth a.value :=
  (Predicate.truth_all hp a.value).symm

theorem truth_of_no_condition (hp : q.condition = none) (a : Assignment) :
    q.truth a = some true := by
  rw [truth, Predicate.eq_nil_of_all_eq_none hp]
  rfl

/-- A column that a sound query tests is one that its joins reach. -/
theorem Sound.reach_of_leaf (hq : q.Sound schema) {p leaf : Predicate} (hp : p ∈ q.predicates)
    (hl : leaf ∈ p.leaves) {c : Column} (hc : leaf.column? = some c) :
    Join.Reach q.joins c.path := by
  obtain ⟨c', hleaf, hcov⟩ := hq.leaves p hp leaf hl
  obtain rfl : c' = c := Option.some.inj (hleaf.column.symm.trans hc)
  exact hcov.reached

theorem Sound.truth_congr (hq : q.Sound schema)
    (h : ∀ path, Join.Reach q.joins path → a' path = a path) : q.truth a' = q.truth a := by
  unfold truth
  refine congrArg Truth.all (List.map_congr_left fun p hp => ?_)
  refine Predicate.truth_congr p fun leaf hl c hc => ?_
  unfold Assignment.value
  rw [h _ (hq.reach_of_leaf hp hl hc)]

theorem Sound.reads (hstore : store.Coherent) (hq : q.Sound schema)
    (ha : a.Follows schema store q.root q.joins) {p : Predicate} (hp : q.condition = some p) :
    Reads store (a.binding q.joins) a.value p := by
  intro leaf hl c hc
  obtain ⟨p', hp', hl'⟩ := (Predicate.mem_leaves_all hp).mp hl
  exact ha.valueAt_eq hstore (hq.reach_of_leaf hp' hl' hc)

theorem keep_eq {joins : List Join} {as : List Assignment} {p : Predicate} (hm : m.Covers p)
    (has : ∀ a ∈ as, Reads store (a.binding joins) a.value p) :
    keep store m p (as.map (·.binding joins)) =
      .ok ((as.filter (p.truth ·.value = some true)).map (·.binding joins)) := by
  induction as with
  | nil => rfl
  | cons a as ih =>
    rw [List.map_cons, keep, eval_eq p hm (has a List.mem_cons_self), Checked.ok_bind,
      ih fun a ha => has a (List.mem_cons_of_mem _ ha), Checked.ok_bind, List.filter_cons]
    by_cases h : p.truth a.value = some true
    · simp only [h, if_true, decide_true, List.map_cons]
      rfl
    · simp only [h, if_false, decide_false]
      rfl

/-- If the patterns can be read, restricting keeps just the bindings that make the condition true.
-/
theorem Sound.restrict_eq (hstore : store.Coherent) (hq : q.Sound schema)
    (hp : ∀ p, q.condition = some p → ∃ m, PatternTable.ofCondition p = .ok m) :
    restrict store q.condition
        ((Assignment.all schema store q.root q.joins).map (·.binding q.joins)) =
      .ok ((q.chosen schema store).map (·.binding q.joins)) := by
  unfold chosen
  cases hc : q.condition with
  | none =>
    have htrue : ∀ a ∈ Assignment.all schema store q.root q.joins,
        decide (q.truth a = some true) = true := fun a _ =>
      decide_eq_true (truth_of_no_condition hc a)
    rw [List.filter_eq_self.mpr htrue]
    rfl
  | some p =>
    obtain ⟨m, hm⟩ := hp p hc
    have hreads : ∀ a ∈ Assignment.all schema store q.root q.joins,
        Reads store (a.binding q.joins) a.value p := fun a ha =>
      hq.reads hstore (Assignment.follows_of_mem_all hstore hq.linked ha) hc
    have hkeep := keep_eq (PatternTable.covers_of_ofCondition hm) hreads
    simp only [truth_eq_of_condition hc]
    rw [restrict, hm, Checked.ok_bind, hkeep]

/-! ## Order -/

/-- The values of the sort keys in an assignment. -/
def keysOf (q : Query) (a : Assignment) : List Value := q.order.map fun key => a.value key.column

/-- Assignments in the order of the sort keys, if they can be sorted by them. -/
def arranged (q : Query) (as : List Assignment) : Option (List Assignment) :=
  arrangedBy q.order q.keysOf as

theorem arranged_of_nil (horder : q.order = []) (as : List Assignment) :
    q.arranged as = some as := by
  rw [arranged, horder]
  rfl

theorem arranged_perm {as sorted : List Assignment} (h : q.arranged as = some sorted) :
    sorted.Perm as :=
  perm_of_arrangedBy h

/-- Arranging the bindings of assignments arranges the assignments. -/
theorem Sound.arrange_eq (hstore : store.Coherent) (hq : q.Sound schema) {as : List Assignment}
    (has : ∀ a ∈ as, a.Follows schema store q.root q.joins) :
    arrange store q.order (as.map (·.binding q.joins)) =
      (q.arranged as).elim (.error .unsortable) fun sorted =>
        .ok (sorted.map (·.binding q.joins)) :=
  arrange_map fun a ha => Checked.mapM_eq_ok fun key hk =>
    (has a ha).valueAt_eq hstore (hq.order key hk).reached

theorem follows_of_chosen (hstore : store.Coherent) (hq : q.Sound schema)
    (ha : a ∈ q.chosen schema store) : a.Follows schema store q.root q.joins :=
  Assignment.follows_of_mem_all hstore hq.linked (List.mem_of_mem_filter ha)

/-- An assignment that makes the condition true is listed, up to paths that are not reached. -/
theorem exists_chosen_of_follows (hstore : store.Coherent) (hq : q.Sound schema)
    (ha : a.Follows schema store q.root q.joins) (htruth : q.truth a = some true) :
    ∃ b ∈ q.chosen schema store, ∀ path, Join.Reach q.joins path → b path = a path := by
  obtain ⟨b, hb, heq⟩ := Assignment.exists_of_follows hstore hq.linked ha
  refine ⟨b, List.mem_filter.mpr ⟨hb, ?_⟩, heq⟩
  rw [hq.truth_congr heq, htruth]
  rfl

theorem comparable_of_nil (horder : q.order = []) : q.Comparable schema store := by
  intro key hkey
  rw [horder] at hkey
  cases hkey

theorem sortable_of_nil (horder : q.order = []) : q.Sortable schema store :=
  Or.inr (comparable_of_nil horder)

/-- Of fewer values under some of the sort keys, none are out of order that were in order before. -/
theorem Comparable.of_sees {q' : Query} {store' : Store} (h : q.Comparable schema store)
    (horder : q'.order ⊆ q.order)
    (hsees : ∀ c v, q'.Sees schema store' c v → q.Sees schema store c v) :
    q'.Comparable schema store' :=
  fun key hkey => (h key (horder hkey)).mono (hsees key.column)

/-- Where attributes hold values of their types, none of which is no number, all that a sound query
sorts by is comparable. -/
theorem Sound.comparable (hstore : store.Coherent) (hq : q.Sound schema)
    (htyped : store.Typed schema) (hnum : store.AvoidsNaN) : q.Comparable schema store := by
  intro key hkey
  have hcovered := hq.order key hkey
  obtain ⟨sorted, hsorted⟩ := Option.isSome_iff_exists.mp hcovered.found
  have htype : ∀ v, q.Sees schema store key.column v → v.OfType sorted.type := by
    rintro _ ⟨a, ha, -, rfl⟩
    have hentity := ha.entityAt?_eq hstore hq.linked hcovered.reached
    rw [hcovered.entity] at hentity
    exact htyped.ofType (ha.stored hcovered.reached) (Option.some.inj hentity).symm hsorted
  refine Value.transitiveOn_of_ofType htype ?_
  rintro _ ⟨a, ha, -, rfl⟩
  exact hnum.isNaN_value (ha.stored hcovered.reached) key.column.name

/-- Comparable values put the assignments that make the condition true into a preorder. -/
theorem Comparable.preorders (hstore : store.Coherent) (hq : q.Sound schema)
    (h : q.Comparable schema store) :
    Preorders (fun a b => compareKeys q.order (q.keysOf a) (q.keysOf b))
      (q.chosen schema store) := by
  refine preorders_compareKeys h fun a ha => ?_
  unfold keysOf
  rw [List.forall₂_map_right_iff, List.forall₂_same]
  exact fun key _ => ⟨a, follows_of_chosen hstore hq ha,
    of_decide_eq_true (List.mem_filter.mp ha).2, rfl⟩

theorem Sortable.exists_arranged (hstore : store.Coherent) (hq : q.Sound schema)
    (h : q.Sortable schema store) : ∃ as, q.arranged (q.chosen schema store) = some as :=
  h.elim exists_arrangedBy_of_short fun h => (h.preorders hstore hq).exists_arrangedBy

/-! ## Rows -/

theorem mem_distinctFrom {seen ids : List RowId} {id : RowId} :
    id ∈ distinctFrom seen ids ↔ id ∈ ids ∧ id ∉ seen := by
  induction ids generalizing seen with
  | nil => simp [distinctFrom]
  | cons first rest ih =>
    unfold distinctFrom
    split
    · next hold =>
      rw [ih, List.mem_cons]
      refine and_congr_left fun hid => (or_iff_right ?_).symm
      rintro rfl
      exact hid hold
    · next hnew =>
      rw [List.mem_cons, ih, List.mem_cons, List.mem_cons]
      by_cases h : id = first
      · simp [h, hnew]
      · simp [h]

theorem nodup_distinctFrom (seen ids : List RowId) : (distinctFrom seen ids).Nodup := by
  induction ids generalizing seen with
  | nil => exact List.nodup_nil
  | cons first rest ih =>
    unfold distinctFrom
    split
    · exact ih seen
    · refine List.nodup_cons.mpr ⟨fun h => ?_, ih _⟩
      exact (mem_distinctFrom.mp h).2 List.mem_cons_self

theorem distinctFrom_sublist (seen ids : List RowId) : (distinctFrom seen ids).Sublist ids := by
  induction ids generalizing seen with
  | nil => exact List.Sublist.refl _
  | cons first rest ih =>
    unfold distinctFrom
    split
    · exact (ih seen).cons _
    · exact (ih _).cons_cons _

/-- Identifiers in order, each once, are in strict order. -/
theorem pairwise_distinctFrom (seen : List RowId) {ids : List RowId}
    (h : ids.Pairwise fun i k => i.index ≤ k.index) :
    (distinctFrom seen ids).Pairwise fun i k => i.index < k.index := by
  have hle := h.sublist (distinctFrom_sublist seen ids)
  refine hle.imp₂ (fun i k hik hne => ?_) (nodup_distinctFrom seen ids)
  exact Nat.lt_of_le_of_ne hik fun h => hne (by cases i; cases k; cases h; rfl)

theorem rootIds_eq (as : List Assignment) (joins : List Join) :
    rootIds (as.map (·.binding joins)) = distinctFrom [] (as.map fun a => (a Path.root).id) := by
  unfold rootIds
  rw [List.filterMap_map]
  have hroot : (fun b : Binding => b.lookup Path.root) ∘ (fun a : Assignment => a.binding joins) =
      fun a => some (a Path.root).id :=
    funext fun a => a.lookup_binding (Join.reach_root joins)
  rw [hroot, List.filterMap_eq_map']

theorem slice_none {α : Type} (xs : List α) : slice none none xs = xs := rfl

/-- The rows of the root in arranged assignments, each once, from the slice of the query. -/
def rowsIn (store : Store) (q : Query) (as : List Assignment) : List Row :=
  (slice q.offset q.limit (distinctFrom [] (as.map fun a => (a Path.root).id))).filterMap store.row?

/-- If the patterns of a sound query can be read, its rows are those of the assignments that make
the condition true, in the order of the sort keys. -/
theorem fetch_eq (hstore : store.Coherent) (hq : q.Sound schema)
    (hp : ∀ p, q.condition = some p → ∃ m, PatternTable.ofCondition p = .ok m) :
    q.fetch schema store =
      (q.arranged (q.chosen schema store)).elim (.error .unsortable) fun as =>
        .ok (q.rowsIn store as) := by
  rw [fetch, joined, Assignment.joined_eq hstore hq.linked, Checked.ok_bind,
    hq.restrict_eq hstore hp, Checked.ok_bind,
    hq.arrange_eq hstore fun a => follows_of_chosen hstore hq]
  cases q.arranged (q.chosen schema store) with
  | none => rfl
  | some as =>
    rw [Option.elim_some, Checked.ok_bind, rootIds_eq]
    rfl

theorem fetch_of_unreadable (hstore : store.Coherent) (hq : q.Sound schema) {p : Predicate}
    {e : QueryError} (hc : q.condition = some p) (ht : PatternTable.ofCondition p = .error e) :
    q.fetch schema store = .error e := by
  rw [fetch, joined, Assignment.joined_eq hstore hq.linked, Checked.ok_bind, hc, restrict, ht]
  rfl

theorem readable_or_exists_error (q : Query) :
    (∀ p, q.condition = some p → ∃ m, PatternTable.ofCondition p = .ok m) ∨
      ∃ p e, q.condition = some p ∧ PatternTable.ofCondition p = .error e := by
  cases hc : q.condition with
  | none => exact Or.inl (by simp)
  | some p =>
    cases ht : PatternTable.ofCondition p with
    | ok m => exact Or.inl fun p' hp' => ⟨m, Option.some.inj hp' ▸ ht⟩
    | error e => exact Or.inr ⟨p, e, rfl, ht⟩

/-- Fetching a sound query succeeds just if its patterns can be read and the assignments that make
its condition true can be arranged, and then gives the rows of these. -/
theorem fetch_eq_ok_iff (hstore : store.Coherent) (hq : q.Sound schema) {rows : List Row} :
    q.fetch schema store = .ok rows ↔
      (∀ p, q.condition = some p → ∃ m, PatternTable.ofCondition p = .ok m) ∧
        ∃ as, q.arranged (q.chosen schema store) = some as ∧ rows = q.rowsIn store as := by
  rcases q.readable_or_exists_error with hp | ⟨p, e, hc, ht⟩
  · rw [fetch_eq hstore hq hp, and_iff_right hp]
    cases q.arranged (q.chosen schema store) with
    | none => simp
    | some as => simp [eq_comm]
  · rw [fetch_of_unreadable hstore hq hc ht]
    refine iff_of_false (by simp) fun ⟨hp, _⟩ => ?_
    obtain ⟨m, hm⟩ := hp p hc
    rw [ht] at hm
    cases hm

/-- Fetching a sound query fails just if its condition has a pattern that is no expression, or else
if the assignments that make its condition true cannot be arranged. -/
theorem fetch_eq_error_iff (hstore : store.Coherent) (hq : q.Sound schema) {e : QueryError} :
    q.fetch schema store = .error e ↔
      (∃ p, q.condition = some p ∧ PatternTable.ofCondition p = .error e) ∨
        (∀ p, q.condition = some p → ∃ m, PatternTable.ofCondition p = .ok m) ∧
          q.arranged (q.chosen schema store) = none ∧ e = .unsortable := by
  rcases q.readable_or_exists_error with hp | ⟨p, e', hc, ht⟩
  · have hno : ¬∃ p, q.condition = some p ∧ PatternTable.ofCondition p = .error e := by
      rintro ⟨p, hc, ht⟩
      obtain ⟨m, hm⟩ := hp p hc
      rw [ht] at hm
      cases hm
    rw [fetch_eq hstore hq hp, or_iff_right hno, and_iff_right hp]
    cases q.arranged (q.chosen schema store) with
    | none => simp [eq_comm]
    | some as => simp
  · have hno : ¬∀ p, q.condition = some p → ∃ m, PatternTable.ofCondition p = .ok m := by
      intro hp
      obtain ⟨m, hm⟩ := hp p hc
      rw [ht] at hm
      cases hm
    rw [fetch_of_unreadable hstore hq hc ht, or_iff_left fun h => hno h.1]
    simp [hc, ht]

/-- The condition of a query gets its table just if the patterns of all predicates can be read. -/
theorem readable_iff {q : Query} :
    (∀ p, q.condition = some p → ∃ m, PatternTable.ofCondition p = .ok m) ↔
      ∀ p ∈ q.predicates, p.Readable := by
  simp only [PatternTable.exists_ofCondition_iff]
  cases hc : q.condition with
  | none => simp [Predicate.eq_nil_of_all_eq_none hc]
  | some p =>
    simp only [Option.some.injEq, forall_eq']
    constructor
    · exact fun h demand hd leaf hl => h leaf ((Predicate.mem_leaves_all hc).mpr ⟨demand, hd, hl⟩)
    · intro h leaf hl
      obtain ⟨demand, hd, hl⟩ := (Predicate.mem_leaves_all hc).mp hl
      exact h demand hd leaf hl

/-- A sound query can be fetched just if the patterns of its predicates can be read and what makes
its condition true can be arranged. -/
theorem exists_fetch_iff (hstore : store.Coherent) (hq : q.Sound schema) :
    (∃ rows, q.fetch schema store = .ok rows) ↔
      (∀ p ∈ q.predicates, p.Readable) ∧
        ∃ as, q.arranged (q.chosen schema store) = some as := by
  rw [← readable_iff]
  simp only [fetch_eq_ok_iff hstore hq]
  exact ⟨fun ⟨_, hp, as, has, _⟩ => ⟨hp, as, has⟩, fun ⟨hp, as, has⟩ => ⟨_, hp, as, has, rfl⟩⟩

/-- Fetching a sound query that can be sorted fails just for a pattern that is no expression. -/
theorem Sortable.fetch_eq_error_iff (h : q.Sortable schema store) (hstore : store.Coherent)
    (hq : q.Sound schema) {e : QueryError} :
    q.fetch schema store = .error e ↔
      ∃ p, q.condition = some p ∧ PatternTable.ofCondition p = .error e := by
  rw [Query.fetch_eq_error_iff hstore hq, or_iff_left]
  rintro ⟨-, hnone, -⟩
  obtain ⟨as, has⟩ := h.exists_arranged hstore hq
  rw [hnone] at has
  cases has

theorem Sortable.exists_fetch (h : q.Sortable schema store) (hstore : store.Coherent)
    (hq : q.Sound schema) (hp : ∀ p ∈ q.predicates, p.Readable) :
    ∃ rows, q.fetch schema store = .ok rows :=
  (exists_fetch_iff hstore hq).mpr ⟨hp, h.exists_arranged hstore hq⟩

theorem selects_iff (hstore : store.Coherent) (hq : q.Sound schema) {row : Row} :
    q.Selects schema store row ↔ ∃ a ∈ q.chosen schema store, a Path.root = row := by
  constructor
  · rintro ⟨a, ha, hroot, htruth⟩
    obtain ⟨b, hb, heq⟩ := exists_chosen_of_follows hstore hq ha htruth
    exact ⟨b, hb, (heq _ (Join.reach_root _)).trans hroot⟩
  · rintro ⟨a, ha, hroot⟩
    obtain ⟨ha, htruth⟩ := List.mem_filter.mp ha
    exact ⟨a, Assignment.follows_of_mem_all hstore hq.linked ha, hroot, of_decide_eq_true htruth⟩

/-- The rows that identifiers of the root's rows lead to. -/
theorem mem_filterMap_row? (hstore : store.Coherent) {as : List Assignment}
    (hmem : ∀ a ∈ as, a Path.root ∈ store.rows) {ids : List RowId}
    (hids : ∀ id, id ∈ ids ↔ ∃ a ∈ as, (a Path.root).id = id) (row : Row) :
    row ∈ ids.filterMap store.row? ↔ ∃ a ∈ as, a Path.root = row := by
  simp only [List.mem_filterMap, hids, hstore.row?_eq_some_iff]
  constructor
  · rintro ⟨_, ⟨a, ha, rfl⟩, hrow, hid⟩
    exact ⟨a, ha, hstore.eq_of_id_eq (hmem a ha) hrow hid.symm⟩
  · rintro ⟨a, ha, rfl⟩
    exact ⟨_, ⟨a, ha, rfl⟩, hmem a ha, rfl⟩

/-- Identifiers of the root's rows all have rows. -/
theorem map_id_filterMap_row? (hstore : store.Coherent) {as : List Assignment}
    (hmem : ∀ a ∈ as, a Path.root ∈ store.rows) {ids : List RowId}
    (hids : ∀ id, id ∈ ids ↔ ∃ a ∈ as, (a Path.root).id = id) :
    (ids.filterMap store.row?).map (·.id) = ids := by
  refine hstore.map_id_filterMap_row? fun id hid => ?_
  obtain ⟨a, ha, rfl⟩ := (hids id).mp hid
  exact ⟨_, hstore.row?_eq_some_iff.mpr ⟨hmem a ha, rfl⟩⟩

theorem mem_distinctFrom_roots {as : List Assignment} {id : RowId} :
    id ∈ distinctFrom [] (as.map fun a => (a Path.root).id) ↔
      ∃ a ∈ as, (a Path.root).id = id := by
  rw [mem_distinctFrom, List.mem_map]
  exact and_iff_left List.not_mem_nil

/-- The distinct rows of the root, if assignments are listed in the order of those rows. -/
theorem rows_of_assignments (hstore : store.Coherent) {as : List Assignment}
    (hmem : ∀ a ∈ as, a Path.root ∈ store.rows)
    (hle : as.Pairwise fun a b => (a Path.root).id.index ≤ (b Path.root).id.index)
    {ids : List RowId} (hids : ids = distinctFrom [] (as.map fun a => (a Path.root).id)) :
    (ids.filterMap store.row?).Sublist store.rows ∧
      ∀ row, row ∈ ids.filterMap store.row? ↔ ∃ a ∈ as, a Path.root = row := by
  have hmemIds : ∀ id, id ∈ ids ↔ ∃ a ∈ as, (a Path.root).id = id := by
    rw [hids]
    exact fun _ => mem_distinctFrom_roots
  have hiff := mem_filterMap_row? hstore hmem hmemIds
  have hrows : (ids.filterMap store.row?).Pairwise fun r t => r.id.index < t.id.index := by
    have hlt := pairwise_distinctFrom [] (List.pairwise_map.mpr hle)
    rw [← hids, ← map_id_filterMap_row? hstore hmem hmemIds, List.pairwise_map] at hlt
    exact hlt
  refine ⟨hstore.sublist (fun row hrow => ?_) hrows, hiff⟩
  obtain ⟨a, ha, rfl⟩ := (hiff row).mp hrow
  exact hmem a ha

theorem root_mem_of_chosen (hstore : store.Coherent) (hq : q.Sound schema)
    (ha : a ∈ q.chosen schema store) : a Path.root ∈ store.rows :=
  (Assignment.follows_of_mem_all hstore hq.linked (List.mem_of_mem_filter ha)).stored
    (Join.reach_root _)

/-- The rows of a sound query without a slice, in whatever order, are those that it selects, and
each comes once. -/
theorem mem_fetch_iff (hstore : store.Coherent) (hq : q.Sound schema) (hlimit : q.limit = none)
    (hoffset : q.offset = none) {rows : List Row} (h : q.fetch schema store = .ok rows) :
    rows.Nodup ∧ ∀ row, row ∈ rows ↔ q.Selects schema store row := by
  obtain ⟨-, as, has, rfl⟩ := (fetch_eq_ok_iff hstore hq).mp h
  have hmem : ∀ a ∈ q.chosen schema store, a Path.root ∈ store.rows := fun a =>
    root_mem_of_chosen hstore hq
  have hids (id : RowId) : id ∈ distinctFrom [] (as.map fun a => (a Path.root).id) ↔
      ∃ a ∈ q.chosen schema store, (a Path.root).id = id := by
    simp only [mem_distinctFrom_roots, (arranged_perm has).mem_iff]
  rw [rowsIn, hlimit, hoffset, slice_none]
  refine ⟨List.Nodup.of_map (·.id) ?_, fun row => ?_⟩
  · rw [map_id_filterMap_row? hstore hmem hids]
    exact nodup_distinctFrom _ _
  · rw [selects_iff hstore hq]
    exact mem_filterMap_row? hstore hmem hids row

/-- Sound queries without slices that select the same rows fetch them, perhaps in another order. -/
theorem perm_of_selects {q' : Query} (hstore : store.Coherent) (hq : q.Sound schema)
    (hq' : q'.Sound schema) (hslice : q.limit = none ∧ q.offset = none)
    (hslice' : q'.limit = none ∧ q'.offset = none) {rows rows' : List Row}
    (h : q.fetch schema store = .ok rows) (h' : q'.fetch schema store = .ok rows')
    (hselects : ∀ row, q.Selects schema store row ↔ q'.Selects schema store row) :
    rows.Perm rows' := by
  obtain ⟨hnodup, hmem⟩ := mem_fetch_iff hstore hq hslice.1 hslice.2 h
  obtain ⟨hnodup', hmem'⟩ := mem_fetch_iff hstore hq' hslice'.1 hslice'.2 h'
  refine (List.perm_ext_iff_of_nodup hnodup hnodup').mpr fun row => ?_
  rw [hmem, hmem', hselects]

/-- Without sort keys and slice, the rows of a sound query come in the order of their insertion. -/
theorem sublist_of_fetch (hstore : store.Coherent) (hq : q.Sound schema) (horder : q.order = [])
    (hlimit : q.limit = none) (hoffset : q.offset = none) {rows : List Row}
    (h : q.fetch schema store = .ok rows) : rows.Sublist store.rows := by
  obtain ⟨-, as, has, rfl⟩ := (fetch_eq_ok_iff hstore hq).mp h
  rw [arranged_of_nil horder] at has
  obtain rfl := Option.some.inj has
  rw [rowsIn, hlimit, hoffset, slice_none]
  have hle := (Assignment.pairwise_all hstore hq.linked).filter (q.truth · = some true)
  exact (rows_of_assignments hstore (fun a => root_mem_of_chosen hstore hq) hle rfl).1

/-- Without sort keys and slice, a composed query gives the rows of the root for which some
assignment makes the condition true: none is lost, none is added, and each comes once. -/
theorem fetch_exact {root : EntityId} (hs : schema.Declared) (hf : store.Filled)
    (hq : Composed schema root q) (horder : q.order = []) (hlimit : q.limit = none)
    (hoffset : q.offset = none)
    (hp : ∀ p, q.condition = some p → ∃ m, PatternTable.ofCondition p = .ok m) :
    ∃ rows, q.fetch schema store = .ok rows ∧ rows.Sublist store.rows ∧ rows.Nodup ∧
      ∀ row, row ∈ rows ↔ q.Selects schema store row := by
  have hstore := hf.coherent
  have hsound := (hq.sound hs).1
  obtain ⟨rows, hrows⟩ :=
    (sortable_of_nil horder).exists_fetch hstore hsound (readable_iff.mp hp)
  exact ⟨rows, hrows, sublist_of_fetch hstore hsound horder hlimit hoffset hrows,
    mem_fetch_iff hstore hsound hlimit hoffset hrows⟩

/-- The theorem at a query of the blog that joins two paths to many rows and has a pattern. -/
theorem fetch_exact_praised :
    Blog.built.Declared ∧ (Blog.fill Blog.built).Filled ∧ Composed Blog.built ⟨0⟩ Blog.praised ∧
      Blog.praised.order = [] ∧ Blog.praised.limit = none ∧ Blog.praised.offset = none ∧
        ∃ rows, Blog.praised.fetch Blog.built (Blog.fill Blog.built) = .ok rows ∧
          rows.Sublist (Blog.fill Blog.built).rows ∧ rows.Nodup ∧
            ∀ row, row ∈ rows ↔ Blog.praised.Selects Blog.built (Blog.fill Blog.built) row := by
  have hp : ∀ p, Blog.praised.condition = some p → ∃ m, PatternTable.ofCondition p = .ok m := by
    intro p h
    cases h
    exact ⟨_, rfl⟩
  exact ⟨Blog.declared_built, Blog.filled_fill Blog.built, Blog.composed_praised, rfl, rfl, rfl,
    fetch_exact Blog.declared_built (Blog.filled_fill Blog.built) Blog.composed_praised rfl rfl rfl
      hp⟩

end FieldLookup.Query
