import FieldLookup.Proofs.Rearrangement
import FieldLookup.Proofs.OrderedFetch

/-!
Slices of what a query fetches. Main statements: `Query.fetch_sliced`, a slice is cut out of the
rows that are fetched without one; and `Query.fetch_paged`, pages put together are these rows,
counting gives their number, and the first and the only row are those of the query's own slice.
-/
namespace FieldLookup

/-- Linked joins are distinct, so adding them to none gives them back. -/
theorem Join.Linked.addAllNew_nil {schema : Schema} {root : EntityId} {joins : List Join}
    (h : Join.Linked schema root joins) : Join.addAllNew [] joins = joins := by
  induction h with
  | nil => rfl
  | @snoc front j _ hnew _ ih =>
    rw [Join.addAllNew_snoc, ih, Join.addNew_of_not_mem]
    intro hmem
    obtain ⟨k, hk, hpath⟩ := List.mem_map.mp hmem
    exact hnew k hk hpath

namespace Query

/-- The query without its slice. -/
def unsliced (q : Query) : Query := { q with limit := none, offset := none }

/-! ## Lists -/

section Lists

variable {α β : Type} {f : α → Option β} {xs : List α}

theorem filterMap_drop (h : ∀ x ∈ xs, (f x).isSome) (n : Nat) :
    (xs.drop n).filterMap f = (xs.filterMap f).drop n := by
  induction xs generalizing n with
  | nil => simp
  | cons x xs ih =>
    obtain ⟨hx, hxs⟩ := List.forall_mem_cons.mp h
    obtain ⟨y, hy⟩ := Option.isSome_iff_exists.mp hx
    cases n with
    | zero => rfl
    | succ n => rw [List.drop_succ_cons, ih hxs, List.filterMap_cons_some hy, List.drop_succ_cons]

theorem filterMap_take (h : ∀ x ∈ xs, (f x).isSome) (n : Nat) :
    (xs.take n).filterMap f = (xs.filterMap f).take n := by
  induction xs generalizing n with
  | nil => simp
  | cons x xs ih =>
    obtain ⟨hx, hxs⟩ := List.forall_mem_cons.mp h
    obtain ⟨y, hy⟩ := Option.isSome_iff_exists.mp hx
    cases n with
    | zero => rfl
    | succ n =>
      rw [List.take_succ_cons, List.filterMap_cons_some hy, ih hxs, List.filterMap_cons_some hy,
        List.take_succ_cons]

/-- Members that all have an image may be cut before or after they are mapped. -/
theorem filterMap_slice (h : ∀ x ∈ xs, (f x).isSome) (offset limit : Option Nat) :
    (slice offset limit xs).filterMap f = slice offset limit (xs.filterMap f) := by
  cases limit with
  | none => exact filterMap_drop h _
  | some n =>
    rw [slice, slice, filterMap_take fun x hx => h x (List.mem_of_mem_drop hx), filterMap_drop h]

theorem slice_eq (offset limit : Option Nat) (xs : List α) :
    slice offset limit xs = (xs.drop (offset.getD 0)).take (limit.getD xs.length) := by
  cases limit with
  | none => exact (List.take_of_length_le (by simp [slice])).symm
  | some n => rfl

theorem head?_slice (offset limit : Option Nat) (xs : List α) :
    (slice offset limit xs).head? = if limit = some 0 then none else xs[offset.getD 0]? := by
  cases limit with
  | none => simp [slice]
  | some n => simp [slice, List.head?_take]

/-- Pages of one size put together, by induction on their number. -/
theorem flatten_pages (n pages : Nat) (xs : List α) :
    ((List.range pages).map fun i => (xs.drop (i * n)).take n).flatten = xs.take (pages * n) := by
  induction pages with
  | zero => simp
  | succ pages ih =>
    rw [List.range_succ, List.map_append, List.flatten_append, ih, List.map_singleton,
      List.flatten_singleton, Nat.succ_mul, List.take_add]

end Lists

/-! ## Slices -/

variable {schema : Schema} {store : Store} {q : Query} {rows : List Row}

theorem Sound.sliced (hq : q.Sound schema) (limit offset : Option Nat) :
    Sound schema { q with limit := limit, offset := offset } :=
  ⟨hq.linked, hq.leaves, hq.order, hq.eager⟩

/-- The rows of a slice are cut out of those that are fetched without one, and a slice does not
change which patterns are refused. -/
theorem fetch_sliced (hstore : store.Coherent) (hq : q.Sound schema) (limit offset : Option Nat) :
    fetch schema store { q with limit := limit, offset := offset } =
      (q.unsliced.fetch schema store).map (slice offset limit) := by
  have hsliced := hq.sliced limit offset
  have hplain : q.unsliced.Sound schema := hq.sliced none none
  rcases q.readable_or_exists_error with hp | ⟨p, e, hc, ht⟩
  · have harranged : arranged { q with limit := limit, offset := offset } =
        q.unsliced.arranged := rfl
    have hchosen : chosen schema store { q with limit := limit, offset := offset } =
        q.unsliced.chosen schema store := rfl
    rw [fetch_eq hstore hplain hp, fetch_eq hstore hsliced hp, harranged, hchosen]
    cases has : q.unsliced.arranged (q.unsliced.chosen schema store) with
    | none => rfl
    | some as =>
      -- Cutting comes before the rows are looked up: no identifier without a row may be lost.
      refine congrArg Except.ok (filterMap_slice (fun id hid => ?_) offset limit)
      obtain ⟨a, ha, rfl⟩ := mem_distinctFrom_roots.mp hid
      have hmem := root_mem_of_chosen hstore hplain ((arranged_perm has).mem_iff.mp ha)
      rw [hstore.row?_eq_some_iff.mpr ⟨hmem, rfl⟩]
      rfl
  · rw [fetch_of_unreadable hstore hsliced hc ht, fetch_of_unreadable hstore hplain hc ht]
    rfl

/-- The pages of one size, up to one that ends behind the last row. -/
theorem mapM_fetch_pages (hstore : store.Coherent) (hq : q.Sound schema)
    (h : q.unsliced.fetch schema store = .ok rows) {n pages : Nat}
    (hpages : rows.length ≤ pages * n) :
    ∃ parts, (List.range pages).mapM
        (fun i => ((q.limitTo n).skipping (i * n)).fetch schema store) = .ok parts ∧
      parts.flatten = rows := by
  refine ⟨(List.range pages).map fun i => (rows.drop (i * n)).take n,
    Checked.mapM_eq_ok fun i _ => ?_, ?_⟩
  · exact (fetch_sliced hstore hq (some n) (some (i * n))).trans (by rw [h]; rfl)
  · rw [flatten_pages, List.take_of_length_le hpages]

/-! ## How many, the first and the only one -/

theorem Sound.unordered_eq (hq : q.Sound schema) :
    q.unordered = { q.unsliced with order := [], eager := [] } := by
  have hjoins : q.joins.foldl join (ofRoot q.root) = { ofRoot q.root with joins := q.joins } :=
    ((ofRoot q.root).joinAll_eq q.joins).trans (by rw [ofRoot, hq.linked.addAllNew_nil])
  rw [unordered, hjoins, foldl_filter]
  rfl

/-- Sort keys only move the rows that are counted. -/
theorem fetch_unordered (hstore : store.Coherent) (hq : q.Sound schema)
    (h : q.unsliced.fetch schema store = .ok rows) :
    ∃ plain, q.unordered.fetch schema store = .ok plain ∧ plain.Perm rows := by
  rw [hq.unordered_eq]
  have hsliced : q.unsliced.Sound schema := hq.sliced none none
  have hplain : Sound schema { q.unsliced with order := [], eager := [] } :=
    ⟨hq.linked, hq.leaves, nofun, nofun⟩
  have hreadable := ((exists_fetch_iff hstore hsliced).mp ⟨rows, h⟩).1
  obtain ⟨plain, hfetch⟩ := (sortable_of_nil rfl).exists_fetch hstore hplain hreadable
  exact ⟨plain, hfetch, perm_of_selects hstore hplain hsliced ⟨rfl, rfl⟩ ⟨rfl, rfl⟩ hfetch h
    fun _ => Iff.rfl⟩

/-- The number of rows depends on neither the slice nor the sort keys. -/
theorem count_eq (hstore : store.Coherent) (hq : q.Sound schema)
    (h : q.unsliced.fetch schema store = .ok rows) (limit offset : Option Nat)
    (order : List SortKey) :
    count schema store { q with limit := limit, offset := offset, order := order } =
      .ok rows.length := by
  obtain ⟨plain, hfetch, hperm⟩ := fetch_unordered hstore hq h
  have hcount : count schema store { q with limit := limit, offset := offset, order := order } =
      q.unordered.fetch schema store >>= fun rows => .ok rows.length := rfl
  rw [hcount, hfetch, ← hperm.length_eq]
  rfl

/-- Of the rows of a query, the first is the head. -/
theorem first?_eq (hstore : store.Coherent) (hq : q.Sound schema) :
    q.first? schema store = (q.fetch schema store).map List.head? := by
  -- The first row is fetched under a limit of its own, which leaves a limit of zero as it is.
  obtain ⟨limit, hfirst, hlimit⟩ : ∃ limit, q.first? schema store =
      ((q.limitTo limit).fetch schema store >>= fun rows => .ok rows.head?) ∧
        (some limit = some 0 ↔ q.limit = some 0) := by
    cases hlimit : q.limit with
    | none => exact ⟨1, by rw [first?, hlimit]; rfl, by simp⟩
    | some n => exact ⟨min n 1, by rw [first?, hlimit]; rfl, by simp⟩
  have hone := fetch_sliced hstore hq (some limit) q.offset
  have hown := fetch_sliced hstore hq q.limit q.offset
  rw [hfirst, limitTo, hone, hown]
  cases q.unsliced.fetch schema store with
  | error e => rfl
  | ok rows => exact congrArg Except.ok (by simp only [head?_slice, hlimit])

/-- The only row of a query is there just if one row is fetched, and else it is told whether none
or how many are. -/
theorem one_spec {own : List Row} (h : q.fetch schema store = .ok own) :
    (∀ row, q.one schema store = .ok row ↔ own = [row]) ∧
      (q.one schema store = .error .noResult ↔ own = []) ∧
        ∀ n, q.one schema store = .error (.multipleResults n) ↔ own.length = n ∧ 2 ≤ n := by
  match own with
  | [] =>
    have hone : q.one schema store = .error .noResult := by
      rw [one, h]
      rfl
    simp [hone]
  | [row] =>
    have hone : q.one schema store = .ok row := by
      rw [one, h]
      rfl
    simp [hone]
  | row :: next :: rest =>
    have hone : q.one schema store = .error (.multipleResults (rest.length + 2)) := by
      rw [one, h]
      rfl
    simp [hone]

/-! ## Together -/

/-- What a composed query fetches without its slice decides about every slice of it: the slice is
cut out of these rows, pages of one size put together are these rows, and each comes once; counting
gives their number under any slice and sort keys; and the first and the only row are those of the
query's own slice. -/
theorem fetch_paged {root : EntityId} (hs : schema.Declared) (hf : store.Filled)
    (hq : Composed schema root q) (h : q.unsliced.fetch schema store = .ok rows) :
    rows.Nodup ∧
      (∀ limit offset, fetch schema store { q with limit := limit, offset := offset } =
        .ok ((rows.drop (offset.getD 0)).take (limit.getD rows.length))) ∧
      (∀ n pages, rows.length ≤ pages * n →
        ∃ parts, (List.range pages).mapM
            (fun i => ((q.limitTo n).skipping (i * n)).fetch schema store) = .ok parts ∧
          parts.flatten = rows) ∧
      (∀ limit offset order,
        count schema store { q with limit := limit, offset := offset, order := order } =
          .ok rows.length) ∧
      ∃ own, q.fetch schema store = .ok own ∧ q.first? schema store = .ok own.head? ∧
        own.head? = (if q.limit = some 0 then none else rows[q.offset.getD 0]?) ∧
        (∀ row, q.one schema store = .ok row ↔ own = [row]) ∧
        (q.one schema store = .error .noResult ↔ own = []) ∧
        ∀ n, q.one schema store = .error (.multipleResults n) ↔ own.length = n ∧ 2 ≤ n := by
  have hstore := hf.coherent
  have hsound := (hq.sound hs).1
  have hslice (limit offset : Option Nat) :
      fetch schema store { q with limit := limit, offset := offset } =
        .ok (slice offset limit rows) :=
    (fetch_sliced hstore hsound limit offset).trans (by rw [h]; rfl)
  have hown : q.fetch schema store = .ok (slice q.offset q.limit rows) := hslice q.limit q.offset
  refine ⟨(mem_fetch_iff hstore (hsound.sliced none none) rfl rfl h).1, fun limit offset => ?_,
    fun n pages => mapM_fetch_pages hstore hsound h, count_eq hstore hsound h,
    _, hown, ?_, head?_slice _ _ _, one_spec hown⟩
  · rw [hslice, slice_eq]
  · rw [first?_eq hstore hsound, hown]
    rfl

/-- The second of the authors that are sorted by the views of their posts. -/
def secondRanked : Query := (ranked.skipping 1).limitTo 3

/-- The theorem at the second of two authors: they come on two pages of one row, and the second one
is the first and the only one of its slice. -/
theorem fetch_paged_ranked :
    Blog.built.Declared ∧ (Blog.fill Blog.built).Filled ∧ Composed Blog.built ⟨0⟩ secondRanked ∧
      ∃ rows, secondRanked.unsliced.fetch Blog.built (Blog.fill Blog.built) = .ok rows ∧
        rows.map (·.id.index) = [2, 1] ∧ rows.Nodup ∧
        (∃ parts, (List.range 2).mapM (fun i =>
            ((secondRanked.limitTo 1).skipping (i * 1)).fetch Blog.built (Blog.fill Blog.built)) =
              .ok parts ∧ parts.flatten = rows) ∧
        secondRanked.count Blog.built (Blog.fill Blog.built) = .ok rows.length ∧
        ∃ own, secondRanked.fetch Blog.built (Blog.fill Blog.built) = .ok own ∧
          secondRanked.first? Blog.built (Blog.fill Blog.built) = .ok own.head? ∧
          own.head? = rows[1]? ∧
          ∀ row, secondRanked.one Blog.built (Blog.fill Blog.built) = .ok row ↔ own = [row] := by
  have hcomposed : Composed Blog.built ⟨0⟩ secondRanked :=
    .call (Compiler.ofSchema _) (.limitTo 3) rfl
      (.call (Compiler.ofSchema _) (.skipping 1) rfl composed_ranked rfl) rfl
  obtain ⟨hnodup, -, hpages, hcount, own, hfetch, hfirst, hhead, hone, -⟩ :=
    fetch_paged Blog.declared_built (Blog.filled_fill Blog.built) hcomposed rfl
  exact ⟨Blog.declared_built, Blog.filled_fill Blog.built, hcomposed, _, rfl, rfl,
    hnodup, hpages 1 2 (Nat.le_refl 2), hcount _ _ _, own, hfetch, hfirst, hhead, hone⟩

end Query

end FieldLookup
