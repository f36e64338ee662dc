import FieldLookup.Proofs.Selection
import FieldLookup.Proofs.SortOrder

/-!
What a query with sort keys fetches. Main statement: `Query.fetch_ordered`, sort keys only move the
rows, each of which stands where its least list of key values puts it, and behind the rows that were
inserted before it if theirs is the same.
-/
namespace FieldLookup.Query

/-- An assignment that follows the joins from a row and makes the condition true. -/
def Shows (schema : Schema) (store : Store) (q : Query) (a : Assignment) (row : Row) : Prop :=
  a.Follows schema store q.root q.joins ∧ a Path.root = row ∧ q.truth a = some true

/-- The values of the sort keys in an assignment that shows a row, and before which those of no
other such assignment come. -/
structure BestKeys (schema : Schema) (store : Store) (q : Query) (row : Row) (vs : List Value) :
    Prop where
  shown : ∃ a, q.Shows schema store a row ∧ q.keysOf a = vs
  least : ∀ a, q.Shows schema store a row → ¬SortKey.Precede q.order (q.keysOf a) vs

/-- Each sort key meets null and values of one type, which is not that of numbers with fractions. -/
def SortsAlike (schema : Schema) (store : Store) (q : Query) : Prop :=
  ∀ key ∈ q.order, ∃ type, type ≠ .float ∧
    ∀ a row, q.Shows schema store a row → (a.value key.column).OfType type

variable {schema : Schema} {store : Store} {q : Query} {a b : Assignment} {row : Row}

theorem shows_of_chosen (hstore : store.Coherent) (hq : q.Sound schema)
    (ha : a ∈ q.chosen schema store) : q.Shows schema store a (a Path.root) := by
  obtain ⟨ha, htruth⟩ := List.mem_filter.mp ha
  exact ⟨Assignment.follows_of_mem_all hstore hq.linked ha, rfl, of_decide_eq_true htruth⟩

/-- An assignment that shows a row is listed, up to paths that are not reached. -/
theorem Shows.exists_chosen (hstore : store.Coherent) (hq : q.Sound schema)
    (h : q.Shows schema store a row) :
    ∃ b ∈ q.chosen schema store, b Path.root = row ∧ q.keysOf b = q.keysOf a := by
  obtain ⟨ha, hroot, htruth⟩ := h
  obtain ⟨b, hb, heq⟩ := exists_chosen_of_follows hstore hq ha htruth
  refine ⟨b, hb, (heq _ (Join.reach_root _)).trans hroot, List.map_congr_left fun key hk => ?_⟩
  rw [Assignment.value, heq _ (hq.order key hk).reached, Assignment.value]

theorem SortsAlike.exists_types (h : q.SortsAlike schema store) :
    ∃ type : SortKey → ScalarType, (∀ key ∈ q.order, type key ≠ .float) ∧
      ∀ a row, q.Shows schema store a row → OfTypes type q.order (q.keysOf a) := by
  have : Nonempty ScalarType := ⟨.int⟩
  choose! type htype hvalues using h
  refine ⟨type, htype, fun a row ha => ?_⟩
  unfold OfTypes keysOf
  rw [List.forall₂_map_right_iff, List.forall₂_same]
  exact fun key hk => hvalues key hk a row ha

/-- A store whose rows have values of one type under the name of each sort key sorts alike. -/
theorem Sound.sortsAlike (hstore : store.Coherent) (hq : q.Sound schema)
    (h : ∀ key ∈ q.order, ∃ type, type ≠ .float ∧ ∀ row ∈ store.rows,
      row.entity = key.column.entity → (row.value key.column.name).OfType type) :
    q.SortsAlike schema store := by
  intro key hk
  obtain ⟨type, htype, hrows⟩ := h key hk
  refine ⟨type, htype, fun a row ha => ?_⟩
  have hcovered := hq.order key hk
  refine hrows _ (ha.1.stored hcovered.reached) ?_
  have hentity := ha.1.entityAt?_eq hstore hq.linked hcovered.reached
  rw [hcovered.entity] at hentity
  exact (Option.some.inj hentity).symm

/-! ## Assignments in order -/

/-- The order of arranged assignments: by the sort keys, and by the row of the root where these
have the same values. -/
def Arranged (q : Query) (a b : Assignment) : Prop :=
  SortKey.Precede q.order (q.keysOf a) (q.keysOf b) ∨
    (q.keysOf a = q.keysOf b ∧ (a Path.root).id.index ≤ (b Path.root).id.index)

/-- Values of one type are comparable. -/
theorem SortsAlike.comparable (h : q.SortsAlike schema store) : q.Comparable schema store := by
  intro key hk
  obtain ⟨type, htype, hvalues⟩ := h key hk
  refine TransitiveOn.mono (P := (·.OfType type)) ?_ ?_
  · exact fun _ _ _ ha hb hc => (Value.linearOn_sortCompare htype).isLE_trans ha hb hc
  · rintro _ ⟨a, ha, htruth, rfl⟩
    exact hvalues a _ ⟨ha, rfl, htruth⟩

theorem pairwise_arranged (hstore : store.Coherent) (hq : q.Sound schema)
    (halike : q.SortsAlike schema store) {as : List Assignment}
    (has : q.arranged (q.chosen schema store) = some as) : as.Pairwise q.Arranged := by
  have hle : (q.chosen schema store).Pairwise fun a b =>
      (a Path.root).id.index ≤ (b Path.root).id.index :=
    (Assignment.pairwise_all hstore hq.linked).filter _
  obtain ⟨type, htype, hvalues⟩ := halike.exists_types
  have hof (a : Assignment) (ha : a ∈ as) : OfTypes type q.order (q.keysOf a) :=
    hvalues a _ (shows_of_chosen hstore hq ((arranged_perm has).mem_iff.mp ha))
  refine ((halike.comparable.preorders hstore hq).pairwise_arrangedBy hle has).imp_of_mem ?_
  intro a b ha hb hab
  rcases hab with hlt | ⟨heq, hab⟩
  · exact Or.inl ((compareKeys_eq_lt_iff htype (hof a ha) (hof b hb)).mp hlt)
  · exact Or.inr ⟨((linearOn_compareKeys htype).eq_iff (hof a ha) (hof b hb)).mp heq, hab⟩

/-! ## Rows in order -/

/-- The elements that come first among those with their image. -/
theorem exists_firsts {α : Type} (f : α → RowId) {S : α → α → Prop} {xs : List α}
    (h : xs.Pairwise S) (seen : List RowId) :
    ∃ firsts : List α, firsts.Sublist xs ∧ distinctFrom seen (xs.map f) = firsts.map f ∧
      ∀ x ∈ firsts, ∀ y ∈ xs, f y = f x → y = x ∨ S x y := by
  induction xs generalizing seen with
  | nil => exact ⟨[], List.Sublist.refl _, rfl, by simp⟩
  | cons x rest ih =>
    obtain ⟨hx, hrest⟩ := List.pairwise_cons.mp h
    have hnew {seen : List RowId} {firsts : List α}
        (heq : distinctFrom seen (rest.map f) = firsts.map f) : ∀ y ∈ firsts, f y ∉ seen := by
      intro y hy
      have hmem : f y ∈ distinctFrom seen (rest.map f) := heq ▸ List.mem_map_of_mem hy
      exact (mem_distinctFrom.mp hmem).2
    rw [List.map_cons, distinctFrom]
    split
    · next hold =>
      obtain ⟨firsts, hsub, heq, hfirst⟩ := ih hrest seen
      refine ⟨firsts, hsub.cons _, heq, fun y hy z hz hf => ?_⟩
      rcases List.mem_cons.mp hz with rfl | hz
      · exact absurd (hf ▸ hold) (hnew heq y hy)
      · exact hfirst y hy z hz hf
    · obtain ⟨firsts, hsub, heq, hfirst⟩ := ih hrest (f x :: seen)
      refine ⟨x :: firsts, hsub.cons_cons _, by rw [heq, List.map_cons], fun y hy z hz hf => ?_⟩
      rcases List.mem_cons.mp hy with rfl | hmem
      · exact (List.mem_cons.mp hz).imp_right (hx z)
      · rcases List.mem_cons.mp hz with rfl | hz
        · exact absurd (hf ▸ List.mem_cons_self) (hnew heq y hmem)
        · exact hfirst y hmem z hz hf

/-- The rows of a sound query are those of the assignments that come first for their row. -/
theorem exists_first_assignments (hstore : store.Coherent) (hq : q.Sound schema)
    (hlimit : q.limit = none) (hoffset : q.offset = none) (halike : q.SortsAlike schema store)
    {rows : List Row} (h : q.fetch schema store = .ok rows) :
    ∃ firsts : List Assignment, rows = firsts.map (· Path.root) ∧ firsts.Pairwise q.Arranged ∧
      ∀ a ∈ firsts, a ∈ q.chosen schema store ∧
        ∀ b ∈ q.chosen schema store, b Path.root = a Path.root → b = a ∨ q.Arranged a b := by
  obtain ⟨-, as, has, rfl⟩ := (fetch_eq_ok_iff hstore hq).mp h
  have harranged := pairwise_arranged hstore hq halike has
  obtain ⟨firsts, hsub, hids, hfirst⟩ := exists_firsts (fun a => (a Path.root).id) harranged []
  have hchosen : ∀ a ∈ firsts, a ∈ q.chosen schema store := fun a ha =>
    (arranged_perm has).mem_iff.mp (hsub.subset ha)
  refine ⟨firsts, ?_, harranged.sublist hsub, fun a ha => ⟨hchosen a ha, fun b hb hroot => ?_⟩⟩
  · rw [rowsIn, hlimit, hoffset, slice_none, hids, List.filterMap_map, ← List.filterMap_eq_map]
    refine List.filterMap_congr fun a ha => ?_
    exact hstore.row?_eq_some_iff.mpr ⟨root_mem_of_chosen hstore hq (hchosen a ha), rfl⟩
  · exact hfirst a ha b ((arranged_perm has).mem_iff.mpr hb) (congrArg Row.id hroot)

/-- No other list of key values of a row comes before that of its first assignment. -/
theorem bestKeys_of_first (hstore : store.Coherent) (hq : q.Sound schema)
    (halike : q.SortsAlike schema store) (ha : a ∈ q.chosen schema store)
    (hfirst : ∀ b ∈ q.chosen schema store, b Path.root = a Path.root → b = a ∨ q.Arranged a b) :
    q.BestKeys schema store (a Path.root) (q.keysOf a) := by
  obtain ⟨type, htype, hvalues⟩ := halike.exists_types
  refine ⟨⟨a, shows_of_chosen hstore hq ha, rfl⟩, fun b hb hbefore => ?_⟩
  obtain ⟨b', hb', hroot, hkeys⟩ := hb.exists_chosen hstore hq
  have hof := hvalues b _ hb
  rw [← hkeys] at hbefore hof
  have hof' := hvalues a _ (shows_of_chosen hstore hq ha)
  have hnot := not_precede_of_precede htype hof hof' hbefore
  rcases hfirst b' hb' hroot with rfl | hprecede | ⟨hsame, -⟩
  · exact hnot hbefore
  · exact hnot hprecede
  · rw [hsame] at hbefore hnot
    exact hnot hbefore

theorem BestKeys.unique (halike : q.SortsAlike schema store) {vs ws : List Value}
    (hv : q.BestKeys schema store row vs) (hw : q.BestKeys schema store row ws) : vs = ws := by
  obtain ⟨type, htype, hvalues⟩ := halike.exists_types
  obtain ⟨a, ha, rfl⟩ := hv.shown
  obtain ⟨b, hb, rfl⟩ := hw.shown
  exact eq_of_not_precede htype (hvalues a _ ha) (hvalues b _ hb) (hw.least a ha) (hv.least b hb)

/-- Sort keys that each meet values of one type only move the rows. A row has one least list of key
values among the assignments that show it, and the rows come in the order of these lists, those with
the same list in the order of their insertion. -/
theorem fetch_ordered {root : EntityId} (hs : schema.Declared) (hf : store.Filled)
    (hq : Composed schema root q) (hlimit : q.limit = none) (hoffset : q.offset = none)
    (halike : q.SortsAlike schema store) :
    (∀ e, q.fetch schema store = .error e ↔
        fetch schema store { q with order := [] } = .error e) ∧
      ∀ rows, q.fetch schema store = .ok rows →
        (∃ plain, fetch schema store { q with order := [] } = .ok plain ∧ rows.Perm plain) ∧
          rows.Nodup ∧ (∀ row ∈ rows, ∃! vs, q.BestKeys schema store row vs) ∧
            rows.Pairwise fun r s => ∀ vs ws, q.BestKeys schema store r vs →
              q.BestKeys schema store s ws →
                SortKey.Precede q.order vs ws ∨ (vs = ws ∧ r.id.index < s.id.index) := by
  have hstore := hf.coherent
  have hsound := (hq.sound hs).1
  have hplain : Sound schema { q with order := [] } :=
    ⟨hsound.linked, hsound.leaves, by simp, hsound.eager⟩
  have herror (e : QueryError) : q.fetch schema store = .error e ↔
      fetch schema store { q with order := [] } = .error e := by
    have hsortable : q.Sortable schema store := Or.inr halike.comparable
    have hplain' : Sortable schema store { q with order := [] } := sortable_of_nil rfl
    rw [hsortable.fetch_eq_error_iff hstore hsound, hplain'.fetch_eq_error_iff hstore hplain]
    rfl
  refine ⟨herror, fun rows hrows => ?_⟩
  obtain ⟨hnodup, hmem⟩ := mem_fetch_iff hstore hsound hlimit hoffset hrows
  obtain ⟨firsts, rfl, harranged, hfirst⟩ :=
    exists_first_assignments hstore hsound hlimit hoffset halike hrows
  have hbest (a : Assignment) (ha : a ∈ firsts) :
      q.BestKeys schema store (a Path.root) (q.keysOf a) :=
    bestKeys_of_first hstore hsound halike (hfirst a ha).1 (hfirst a ha).2
  refine ⟨?_, hnodup, List.forall_mem_map.mpr fun a ha => ?_, ?_⟩
  · cases hfetch : fetch schema store { q with order := [] } with
    | error e =>
      rw [(herror e).mpr hfetch] at hrows
      cases hrows
    | ok plain =>
      obtain ⟨hnodup', hmem'⟩ := mem_fetch_iff hstore hplain hlimit hoffset hfetch
      refine ⟨plain, rfl, (List.perm_ext_iff_of_nodup hnodup hnodup').mpr fun row => ?_⟩
      rw [hmem, hmem']
      rfl
  · exact ⟨_, hbest a ha, fun ws hw => hw.unique halike (hbest a ha)⟩
  · rw [List.pairwise_map]
    refine (harranged.and (List.pairwise_map.mp hnodup)).imp_of_mem ?_
    intro a b ha hb ⟨hab, hne⟩ vs ws hv hw
    obtain rfl := (hbest a ha).unique halike hv
    obtain rfl := (hbest b hb).unique halike hw
    refine hab.imp_right fun ⟨hsame, hle⟩ => ⟨hsame, Nat.lt_of_le_of_ne hle fun hid => hne ?_⟩
    have hroot (a : Assignment) (ha : a ∈ firsts) : a Path.root ∈ store.rows :=
      root_mem_of_chosen hstore hsound (hfirst a ha).1
    exact hstore.eq_of_id_eq (hroot a ha) (hroot b hb) (congrArg RowId.mk hid)

/-- The authors of the blog by the views of their posts, the most viewed first, then by name. -/
def ranked : Query where
  root := ⟨0⟩
  joins := [⟨[⟨5⟩], ⟨5⟩, "posts", ⟨2⟩⟩]
  predicates := []
  order := [⟨⟨[⟨5⟩], ⟨2⟩, "views"⟩, .descending⟩, ⟨⟨[], ⟨0⟩, "name"⟩, .ascending⟩]
  eager := []
  limit := none
  offset := none

theorem composed_ranked : Composed Blog.built ⟨0⟩ ranked :=
  .call (Compiler.ofSchema Blog.built) (.order ["-posts__views", "name"]) rfl .ofRoot (by cbv)

theorem sortsAlike_ranked : ranked.SortsAlike Blog.built (Blog.fill Blog.built) := by
  refine Sound.sortsAlike (Blog.filled_fill _).coherent
    (composed_ranked.sound Blog.declared_built).1 fun key hk => ?_
  rcases List.mem_cons.mp hk with rfl | hk
  · exact ⟨.int, nofun, by unfold Value.OfType; decide +kernel⟩
  · rw [List.mem_singleton.mp hk]
    exact ⟨.text, nofun, by unfold Value.OfType; decide +kernel⟩

/-- The theorem at authors who have several posts: each stands where the most viewed one puts it.
-/
theorem fetch_ordered_ranked :
    Blog.built.Declared ∧ (Blog.fill Blog.built).Filled ∧ Composed Blog.built ⟨0⟩ ranked ∧
      ranked.limit = none ∧ ranked.offset = none ∧
        ranked.SortsAlike Blog.built (Blog.fill Blog.built) ∧
          ∃ rows, ranked.fetch Blog.built (Blog.fill Blog.built) = .ok rows ∧
            rows.map (·.id.index) = [2, 1] ∧
              rows.Pairwise fun r s => ∀ vs ws,
                ranked.BestKeys Blog.built (Blog.fill Blog.built) r vs →
                  ranked.BestKeys Blog.built (Blog.fill Blog.built) s ws →
                    SortKey.Precede ranked.order vs ws ∨
                      (vs = ws ∧ r.id.index < s.id.index) := by
  obtain ⟨-, hrows⟩ := fetch_ordered Blog.declared_built (Blog.filled_fill Blog.built)
    composed_ranked rfl rfl sortsAlike_ranked
  exact ⟨Blog.declared_built, Blog.filled_fill Blog.built, composed_ranked, rfl, rfl,
    sortsAlike_ranked, _, rfl, by decide +kernel, (hrows _ rfl).2.2.2⟩

end FieldLookup.Query
