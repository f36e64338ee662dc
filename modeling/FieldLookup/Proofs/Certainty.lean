import FieldLookup.Proofs.Rounding
import FieldLookup.Proofs.Selection
import FieldLookup.Proofs.SortOrder

/-!
Conditions that are known. Main statements: `Operator.unknown_only_at_null`, what an operator builds
of a value is unknown of a value of the column's type only if that is null or null is among the
members that are looked for; and `Compiler.known_unless_null`, a row of the root with another value
is kept by either narrowing or excluding, never by both and never by neither.
-/
namespace FieldLookup

namespace Value

/-- A value that those of a type are compared with: one of the type or, for integers, any number. -/
def ComparesWith (type : ScalarType) (w : Value) : Prop :=
  w.type? = some type ∨ type = .int ∧ w.type? = some .float

theorem exists_compare? {type : ScalarType} {v w : Value} (hv : v.type? = some type)
    (hw : w.ComparesWith type) (hnum : v.isNaN = false) (hnum' : w.isNaN = false) :
    ∃ o, v.compare? w = some o := by
  have hfloats {x y : Binary64} (hx : x.isNaN = false) (hy : y.isNaN = false) :
      ∃ o, Binary64.compare? x y = some o :=
    Option.isSome_iff_exists.mp (Binary64.compare?_isSome_iff.mpr ⟨hx, hy⟩)
  rcases hw with hw | ⟨rfl, hw⟩
  · cases v with
    | null | list _ => cases hv
    | float x =>
      cases hv
      cases w <;> cases hw
      exact hfloats hnum hnum'
    | bool _ | int _ | text _ | timestamp _ | date _ =>
      cases hv
      cases w <;> cases hw
      exact ⟨_, rfl⟩
  · cases v <;> cases hv
    cases w <;> cases hw
    exact hfloats (Binary64.isNaN_ofRatio _ _ _) hnum'

/-! ## Conversions -/

theorem type?_of_read? {s : String} {type : ScalarType} {w : Value} (h : read? s type = some w) :
    w.type? = some type := by
  cases type with
  | bool =>
    simp only [read?] at h
    split at h
    · cases h
      rfl
    · split at h <;> cases h
      rfl
  | text =>
    cases h
    rfl
  | int | float | date | timestamp =>
    obtain ⟨_, -, rfl⟩ := Option.map_eq_some_iff.mp h
    rfl

/-- Conversion to a type gives null, of null alone, or a value of the type. -/
theorem type?_of_convert? {v w : Value} {type : ScalarType} (hv : v.isNull = false)
    (h : v.convert? type = some w) : w.type? = some type := by
  unfold convert? at h
  split at h
  · cases hv
  · cases h
    rfl
  · exact type?_of_read? h
  · cases h
    rfl
  · cases h
    rfl
  · split at h
    · next htype => exact Option.some.inj h ▸ htype
    · cases h

theorem comparesWith_of_convertFor? {a : Attribute} {v w : Value} (hv : v.isNull = false)
    (h : Operator.convertFor? a v = some w) : w.ComparesWith a.type := by
  rcases Option.or_eq_some_iff.mp h with h | ⟨-, h⟩
  · exact Or.inl (type?_of_convert? hv h)
  · split at h
    · next hint => exact Or.inr ⟨hint, type?_of_convert? hv h⟩
    · cases h

/-! ## Values that are supplied and stored -/

/-- The members of a list, or the one value. -/
def scalars : Value → List Value
  | list items => items
  | v => [v]

/-- Nothing that a lookup supplies for an attribute is, or is read as, a value that is no number. -/
def AvoidsNaN (a : Attribute) (v : Value) : Prop :=
  ∀ item ∈ v.scalars, ∀ w, Operator.convertFor? a item = some w → w.isNaN = false

theorem scalars_of_not_list {v : Value} (h : v.isList = false) : v.scalars = [v] := by
  cases v with
  | list items => cases h
  | _ => rfl

theorem AvoidsNaN.of_mem {a : Attribute} {items : List Value} {item : Value}
    (h : (list items).AvoidsNaN a) (hitem : item ∈ items) (hscalar : item.isList = false) :
    item.AvoidsNaN a := by
  intro item' hitem'
  rw [scalars_of_not_list hscalar, List.mem_singleton] at hitem'
  exact hitem' ▸ h item hitem

/-- A value that an attribute holds: null or of its type, and not one that is no number. Where date
parts are asked for, a timestamp falls on a day of the calendar. -/
structure HeldBy (a : Attribute) (op : Operator) (v : Value) : Prop where
  type : v.OfType a.type
  number : v.isNaN = false
  dated : op.datePart?.isSome → ∀ ms, v = timestamp ms →
    (Calendar.dateOfInstant? ms.toInt).isSome

end Value

/-! ## Tests of one value -/

theorem Pattern.exists_truth {source : String} {node : Pattern.Node} {actual : Value}
    (hnode : Pattern.Node.ofText source = .ok node) (htype : actual.type? = some .text) :
    ∃ b, Pattern.truth source actual = some b := by
  cases actual <;> cases htype
  rw [Pattern.truth, hnode]
  exact ⟨_, rfl⟩

theorem DatePart.exists_test {part : DatePart} {a : Attribute} {actual : Value} {n : Int64}
    (ha : a.type = .date ∨ a.type = .timestamp) (htype : actual.type? = some a.type)
    (hdated : ∀ ms, actual = .timestamp ms → (Calendar.dateOfInstant? ms.toInt).isSome) :
    ∃ b, part.test actual (.int n) = some b := by
  obtain ⟨d, hd⟩ : ∃ d, actual.calendarDate? = some d := by
    rcases ha with ha | ha
    · rw [ha] at htype
      cases actual <;> cases htype
      exact ⟨_, rfl⟩
    · rw [ha] at htype
      cases actual <;> cases htype
      exact Option.isSome_iff_exists.mp (hdated _ rfl)
  rw [DatePart.test, hd]
  exact ⟨_, rfl⟩

/-- A value is missed without certainty only after a null. -/
theorem null_mem_of_memberFrom {actual : Value} {vs : List Value} {unknown : Bool}
    (h : memberFrom actual unknown vs = none) : unknown = true ∨ .null ∈ vs := by
  induction vs generalizing unknown with
  | nil =>
    cases unknown with
    | true => exact Or.inl rfl
    | false => cases h
  | cons w vs ih =>
    unfold memberFrom at h
    split at h
    · cases h
    · -- a candidate in no order with the value raises the flag only if it is null
      rcases ih h with h | h
      · rcases Bool.or_eq_true_iff.mp h with h | h
        · exact Or.inl h
        · exact Or.inr (Value.isNull_iff.mp h ▸ List.mem_cons_self)
      · exact Or.inr (List.mem_cons_of_mem _ h)
    · exact (ih h).imp_right (List.mem_cons_of_mem _)

theorem null_mem_of_memberTest {actual : Value} {vs : List Value}
    (h : memberTest actual vs = none) (hactual : actual ≠ .null) : .null ∈ vs := by
  unfold memberTest at h
  split at h
  · cases h
  · split at h
    · next hnull => exact absurd (Value.isNull_iff.mp hnull) hactual
    · exact (null_mem_of_memberFrom h).resolve_left Bool.false_ne_true

/-! ## Truth of what is built -/

namespace Operator

variable {op : Operator} {c : Column} {a : Attribute} {v w : Value} {p : Predicate}
  {values : Column → Value}

theorem Takes.exists_compare? {actual : Value} (h : Takes a v w) (hv : v.AvoidsNaN a)
    (htype : actual.type? = some a.type) (hnum : actual.isNaN = false) :
    ∃ o, actual.compare? w = some o := by
  have hmem : v ∈ v.scalars := by
    rw [Value.scalars_of_not_list h.isList]
    exact List.mem_singleton_self v
  have hw : w.isNaN = false := hv v hmem w h.convert
  exact Value.exists_compare? htype (Value.comparesWith_of_convertFor? h.isNull h.convert) hnum hw

/-- What is built for a column is unknown of a value that the column may hold only if that is null,
or if null is among the members that are looked for. -/
theorem unknown_only_at_null (h : op.build c a v true = .ok p) (hv : v.AvoidsNaN a)
    (hread : p.Readable) (hheld : (values c).HeldBy a op) (hunknown : p.truth values = none) :
    values c = .null ∨ ∃ vs, p = .oneOf c vs ∧ .null ∈ vs := by
  obtain ⟨hcolumn, h⟩ := builds_of_build h
  obtain ⟨hdate, htext⟩ := ensureColumn_eq_ok_iff.mp hcolumn
  -- of a value of the column's own type every form but membership is known
  refine hheld.type.imp_right fun htype => ?_
  have hknown : ¬∃ b, p.truth values = some b := by
    rintro ⟨b, hb⟩
    rw [hunknown] at hb
    cases hb
  have hcompare {item w : Value} (hw : op.bound a item true = .ok w) (hitem : item.AvoidsNaN a) :
      ∃ o, (values c).compare? w = some o :=
    (bound_eq_ok_iff.mp hw).exists_compare? hitem htype hheld.number
  cases h with
  | null _ _ | isNull _ _ _ => exact absurd ⟨_, rfl⟩ hknown
  | compare _ hw =>
    obtain ⟨o, ho⟩ := hcompare hw hv
    exact absurd ⟨_, congrArg (Option.map _) ho⟩ hknown
  | like hop _ =>
    obtain ⟨node, hnode⟩ := hread _ List.mem_cons_self _ _ rfl
    exact absurd (Pattern.exists_truth hnode (htext hop ▸ htype)) hknown
  | regex hop _ hnode => exact absurd (Pattern.exists_truth hnode (htext hop ▸ htype)) hknown
  | @oneOf items ws _ _ _ =>
    refine ⟨ws, rfl, null_mem_of_memberTest hunknown fun hnull => ?_⟩
    rw [hnull] at htype
    cases htype
  | between _ hlist hlow hhigh =>
    subst hlist
    obtain ⟨o, ho⟩ := hcompare hlow (hv.of_mem (by simp) (bound_eq_ok_iff.mp hlow).isList)
    obtain ⟨o', ho'⟩ := hcompare hhigh (hv.of_mem (by simp) (bound_eq_ok_iff.mp hhigh).isList)
    refine absurd ⟨o.isGE && o'.isLE, ?_⟩ hknown
    rw [Predicate.truth, betweenTest, ho, ho']
  | datePart hop _ =>
    have hsome : op.datePart?.isSome = true := by rw [hop]; rfl
    exact absurd (DatePart.exists_test (hdate hsome) htype (hheld.dated hsome)) hknown

end Operator

/-! ## Queries of one lookup -/

theorem Predicate.Readable.not {p : Predicate} (h : p.Readable) : (Predicate.not p).Readable := h

namespace Query

variable {schema : Schema} {store : Store} {root : EntityId} {q : Query} {p : Predicate}

/-- The rows of a root for which a predicate is true. -/
def testing (root : EntityId) (p : Predicate) : Query := { ofRoot root with predicates := [p] }

/-- A query without joins selects the rows of the root for which its condition is true. -/
theorem Sound.selects_of_no_joins (hq : q.Sound schema) (hjoins : q.joins = []) {row : Row} :
    q.Selects schema store row ↔
      row ∈ store.rowsOf q.root ∧ q.truth (fun _ => row) = some true := by
  constructor
  · rintro ⟨a, ha, rfl, htruth⟩
    refine ⟨ha.root, (hq.truth_congr fun path hpath => ?_).trans htruth⟩
    rw [hjoins, Join.reach_nil] at hpath
    rw [hpath]
  · rintro ⟨hrow, htruth⟩
    refine ⟨fun _ => row, ⟨hrow, ?_⟩, rfl, htruth⟩
    rw [hjoins]
    exact nofun

theorem exists_fetch_testing (hstore : store.Coherent) (hq : (testing root p).Sound schema)
    (hread : p.Readable) :
    ∃ rows, (testing root p).fetch schema store = .ok rows ∧
      ∀ row ∈ store.rowsOf root, row ∈ rows ↔ p.truth (row.value ·.name) = some true := by
  obtain ⟨rows, hrows⟩ := (sortable_of_nil rfl).exists_fetch hstore hq fun p' hp' =>
    List.mem_singleton.mp hp' ▸ hread
  refine ⟨rows, hrows, fun row hrow => ?_⟩
  rw [(mem_fetch_iff hstore hq rfl rfl hrows).2, hq.selects_of_no_joins rfl,
    truth_eq_of_condition rfl]
  exact and_iff_right hrow

end Query

namespace Compiler

variable {c : Compiler} {root : EntityId} {key : String} {r : Resolved} {v : Value}

/-- A column of the root is reached without a join. -/
theorem joins_eq_nil_of_resolve (hr : c.resolve root key = .ok r)
    (hpath : r.column.path = Path.root) : r.joins = [] := by
  have hpaths := (Resolved.ofKey_eq_ok_iff.mp hr).map_path_joins
  rw [hpath] at hpaths
  exact List.map_eq_nil_iff.mp hpaths

/-- What narrowing adds for one of its lookups. -/
theorem exists_predicate_of_narrow {q q' : Query} {lookups : Lookups}
    (hr : c.resolve q.root key = .ok r) (hmem : (key, v) ∈ lookups.entries)
    (h : c.narrow q lookups = .ok q') :
    ∃ p ∈ q'.predicates,
      (r.operator.getD .eq).build r.column r.field v c.settings.coerce = .ok p := by
  obtain ⟨conditions, hconditions, rfl⟩ := restrict_eq_ok h
  obtain ⟨d, hd⟩ := Checked.exists_mapM_iff.mp ⟨_, hconditions⟩ _ hmem
  have hmem' : d ∈ conditions := (Checked.mem_iff_of_mapM hconditions).mpr ⟨_, hmem, hd⟩
  rw [condition_of_resolve hr] at hd
  obtain ⟨p, hp, rfl⟩ := Checked.map_eq_ok_iff.mp hd
  exact ⟨p, List.mem_append_right _ (List.mem_map.mpr ⟨_, hmem', rfl⟩), hp⟩

/-- Narrowing and excluding by a column of the root test it and the opposite. -/
theorem narrow_ofRoot_eq_ok {q' : Query} (hr : c.resolve root key = .ok r)
    (hpath : r.column.path = Path.root)
    (h : c.narrow (Query.ofRoot root) (Ordered.empty.insert key v) = .ok q') :
    ∃ p, (r.operator.getD .eq).build r.column r.field v c.settings.coerce = .ok p ∧
      q' = Query.testing root p ∧
      c.exclude (Query.ofRoot root) (Ordered.empty.insert key v) =
        .ok (Query.testing root (.not p)) := by
  have hcondition := condition_of_resolve hr .typed v
  rw [joins_eq_nil_of_resolve hr hpath] at hcondition
  rw [narrow, restrict_single] at h
  obtain ⟨d, hd, rfl⟩ := Checked.map_eq_ok_iff.mp h
  obtain ⟨p, hp, rfl⟩ := Checked.map_eq_ok_iff.mp (hcondition.symm.trans hd)
  refine ⟨p, hp, rfl, ?_⟩
  rw [exclude, restrict_single, hd]
  rfl

/-- What narrowing adds for a lookup is unknown only of null, or of any value if null is among the
members that are looked for, as long as no value that is no number is stored or supplied. So a row
of the root with a known value under the column is kept either by narrowing or by excluding. -/
theorem known_unless_null (hs : c.schema.Declared) (hcoerce : c.settings.coerce = true)
    (hr : c.resolve root key = .ok r) (hv : v.AvoidsNaN r.field) :
    (∀ q q' lookups, q.root = root → (key, v) ∈ lookups.entries → c.narrow q lookups = .ok q' →
        ∃ p ∈ q'.predicates,
          (r.operator.getD .eq).build r.column r.field v c.settings.coerce = .ok p ∧
          ∀ store m b actual, m.Covers p → store.valueAt b r.column = .ok actual →
            actual.HeldBy r.field (r.operator.getD .eq) →
              ∃ t, Query.eval store m b p = .ok t ∧
                (t = none → actual = .null ∨ ∃ vs, p = .oneOf r.column vs ∧ .null ∈ vs)) ∧
      ∀ store q', store.Filled → r.column.path = Path.root →
        c.narrow (Query.ofRoot root) (Ordered.empty.insert key v) = .ok q' →
          (∀ p ∈ q'.predicates, p.Readable) →
            ∃ q'' rows rows',
              c.exclude (Query.ofRoot root) (Ordered.empty.insert key v) = .ok q'' ∧
              q'.fetch c.schema store = .ok rows ∧ q''.fetch c.schema store = .ok rows' ∧
              ∀ row ∈ store.rowsOf root,
                (row.value r.column.name).HeldBy r.field (r.operator.getD .eq) →
                  row.value r.column.name ≠ .null →
                    (∀ vs, .oneOf r.column vs ∈ q'.predicates → .null ∉ vs) →
                      (row ∈ rows ↔ row ∉ rows') := by
  constructor
  · rintro q q' lookups rfl hmem h
    obtain ⟨p, hp, hbuild⟩ := exists_predicate_of_narrow hr hmem h
    refine ⟨p, hp, hbuild, fun store m b actual hm hb hheld => ?_⟩
    rw [hcoerce] at hbuild
    have hleaf := Operator.build_isLeaf hbuild
    have hreads : Query.Reads store b (fun _ => actual) p := by
      intro leaf hl c hc
      rw [hleaf.leaves, List.mem_singleton] at hl
      rw [hl, hleaf.column] at hc
      exact Option.some.inj hc ▸ hb
    refine ⟨_, Query.eval_eq p hm hreads, fun hunknown => ?_⟩
    exact Operator.unknown_only_at_null hbuild hv hm.readable hheld hunknown
  · -- without joins, both queries test each row of the root by itself, one of them the opposite
    intro store q' hf hpath h hread
    obtain ⟨p, hbuild, rfl, hexclude⟩ := narrow_ofRoot_eq_ok hr hpath h
    rw [hcoerce] at hbuild
    have hp : p.Readable := hread p (List.mem_singleton_self p)
    have hsound (call : Call) {q' : Query} (h : call.run c (Query.ofRoot root) = .ok q') :
        q'.Sound c.schema :=
      ((Query.Composed.call c call rfl .ofRoot h).sound hs).1
    obtain ⟨rows, hrows, hmem⟩ :=
      Query.exists_fetch_testing hf.coherent (hsound (.narrow _) h) hp
    obtain ⟨rows', hrows', hmem'⟩ :=
      Query.exists_fetch_testing hf.coherent (hsound (.exclude _) hexclude) hp.not
    refine ⟨_, rows, rows', hexclude, hrows, hrows', fun row hrow hheld hnull hvs => ?_⟩
    rw [hmem row hrow, hmem' row hrow, Predicate.truth]
    cases htruth : p.truth (row.value ·.name) with
    | some b => cases b <;> simp [Truth.not]
    | none =>
      rcases Operator.unknown_only_at_null hbuild hv hp hheld htruth with heq | ⟨vs, rfl, hin⟩
      · exact absurd heq hnull
      · exact absurd hin (hvs vs (List.mem_singleton_self _))

/-- The theorem at a number with a fraction, which the integers of a column are compared with. -/
theorem known_unless_null_views :
    Blog.built.Declared ∧ (ofSchema Blog.built).settings.coerce = true ∧
      (ofSchema Blog.built).resolve ⟨2⟩ "views__gt" =
        .ok ⟨[], ⟨Path.root, ⟨2⟩, "views"⟩, Blog.field "views" .int, some .gt⟩ ∧
      (Value.text "44.5").AvoidsNaN (Blog.field "views" .int) ∧
      ∃ q' q'' rows rows',
        (ofSchema Blog.built).narrow (Query.ofRoot ⟨2⟩)
          (Ordered.empty.insert "views__gt" (.text "44.5")) = .ok q' ∧
        (ofSchema Blog.built).exclude (Query.ofRoot ⟨2⟩)
          (Ordered.empty.insert "views__gt" (.text "44.5")) = .ok q'' ∧
        q'.fetch Blog.built (Blog.fill Blog.built) = .ok rows ∧
        q''.fetch Blog.built (Blog.fill Blog.built) = .ok rows' ∧
        ∀ row ∈ (Blog.fill Blog.built).rowsOf ⟨2⟩, row ∈ rows ↔ row ∉ rows' := by
  have hr : (ofSchema Blog.built).resolve ⟨2⟩ "views__gt" =
      .ok ⟨[], ⟨Path.root, ⟨2⟩, "views"⟩, Blog.field "views" .int, some .gt⟩ := by cbv
  have hconvert : Operator.convertFor? (Blog.field "views" .int) (.text "44.5") =
      some (.float ⟨0x4046400000000000⟩) := by decide +kernel
  have hv : (Value.text "44.5").AvoidsNaN (Blog.field "views" .int) := by
    intro item hitem w hw
    rw [List.mem_singleton.mp hitem, hconvert] at hw
    obtain rfl := Option.some.inj hw
    decide
  have hbuild : Operator.gt.build ⟨Path.root, ⟨2⟩, "views"⟩ (Blog.field "views" .int)
      (.text "44.5") true =
        .ok (.compare ⟨Path.root, ⟨2⟩, "views"⟩ .gt (.float ⟨0x4046400000000000⟩)) :=
    Operator.build_compare rfl ⟨rfl, rfl, hconvert⟩
  have hcondition := (condition_of_resolve hr .typed _).trans (congrArg (Except.map _) hbuild)
  have hnarrow : (ofSchema Blog.built).narrow (Query.ofRoot ⟨2⟩)
      (Ordered.empty.insert "views__gt" (.text "44.5")) =
        .ok (Query.testing ⟨2⟩
          (.compare ⟨Path.root, ⟨2⟩, "views"⟩ .gt (.float ⟨0x4046400000000000⟩))) :=
    (restrict_single _ (Query.ofRoot ⟨2⟩) _ _ false .typed).trans
      (congrArg (Except.map _) hcondition)
  have hints : ∀ row ∈ (Blog.fill Blog.built).rowsOf ⟨2⟩,
      (row.value "views").type? = some .int := by decide
  obtain ⟨q'', rows, rows', hexclude, hrows, hrows', hmem⟩ :=
    (known_unless_null Blog.declared_built rfl hr hv).2 (Blog.fill Blog.built) _
      (Blog.filled_fill Blog.built) rfl hnarrow (Query.readable_iff.mp fun p h => by
        cases h
        exact ⟨_, rfl⟩)
  refine ⟨Blog.declared_built, rfl, hr, hv, _, q'', rows, rows', hnarrow, hexclude, hrows, hrows',
    fun row hrow => hmem row hrow ⟨Or.inr (hints row hrow), ?_, fun hpart => ?_⟩ ?_ ?_⟩
  · have hint := hints row hrow
    revert hint
    cases row.value "views" <;> simp [Value.type?, Value.isNaN]
  · exact absurd hpart (by decide)
  · intro hnull
    have hint := hints row hrow
    rw [hnull] at hint
    cases hint
  · intro vs hvs
    cases List.mem_singleton.mp hvs

end Compiler

end FieldLookup
