import FieldLookup.Proofs.Insertions
import FieldLookup.Proofs.TermByTerm

/-!
What a call adds to a query, and that it leaves all else alone. Main statements:
`Join.map_path_addAllNew`, joins that are added bring the paths that are not joined yet, each once
and where it comes first; and `Compiler.call_adds`, lookups and sort keys add one predicate or sort
key each, in their order, and the joins of the paths that they pass.
-/
namespace FieldLookup

/-! ## Joins that are added -/

namespace Join

/-- Joins are added behind those that are there, and in the order in which they are given. -/
theorem exists_addAllNew_eq (joins more : List Join) :
    ∃ new, addAllNew joins more = joins ++ new ∧ new.Sublist more := by
  induction more using List.reverseRecOn with
  | nil => exact ⟨[], (List.append_nil joins).symm, .slnil⟩
  | append_singleton front j ih =>
    obtain ⟨new, heq, hsub⟩ := ih
    rw [addAllNew_snoc]
    by_cases h : j.path ∈ (addAllNew joins front).map (·.path)
    · rw [addNew_of_mem h]
      exact ⟨new, heq, hsub.trans (List.sublist_append_left front [j])⟩
    · rw [addNew_of_not_mem h, heq, List.append_assoc]
      exact ⟨new ++ [j], rfl, hsub.append (List.Sublist.refl [j])⟩

/-- What is added are the paths that are not joined yet, each where it comes first. -/
theorem map_path_addAllNew (joins more : List Join) :
    (addAllNew joins more).map (·.path) = joins.map (·.path) ++
      (more.map (·.path)).eraseDups.filter (· ∉ joins.map (·.path)) := by
  induction more using List.reverseRecOn with
  | nil => exact (List.append_nil _).symm
  | append_singleton front j ih =>
    rw [addAllNew_snoc, List.map_append, List.map_singleton, eraseDups_snoc]
    by_cases hold : j.path ∈ joins.map (·.path)
    · rw [addNew_of_mem (mem_map_path_addAllNew.mpr (Or.inl hold)), ih]
      split
      · rfl
      · rw [List.filter_append, List.filter_singleton]
        simp [hold]
    · by_cases hfront : j.path ∈ front.map (·.path)
      · rw [addNew_of_mem (mem_map_path_addAllNew.mpr (Or.inr hfront)), ih, if_pos hfront]
      · have hnew : j.path ∉ (addAllNew joins front).map (·.path) := by
          rw [mem_map_path_addAllNew]
          exact not_or.mpr ⟨hold, hfront⟩
        rw [addNew_of_not_mem hnew, List.map_append, ih, if_neg hfront, List.filter_append,
          List.append_assoc, List.filter_singleton, decide_eq_true hold]
        rfl

end Join

/-- The paths that keys pass on the way to their columns, each where it is passed first. -/
def Resolved.passed (rs : List Resolved) : List Path :=
  (rs.flatMap fun r => r.column.path.inits.tail).eraseDups

/-- The joins of a query and, behind them, one join of the keys for each path that they pass and the
query does not join. -/
def Query.Gains (q : Query) (rs : List Resolved) (joins : List Join) : Prop :=
  ∃ new, joins = q.joins ++ new ∧ new.Sublist (rs.flatMap (·.joins)) ∧
    new.map (·.path) = (Resolved.passed rs).filter (· ∉ q.joins.map (·.path))

namespace Compiler

variable {c : Compiler} {q : Query} {root : EntityId}

theorem addAllNew_joinsOf (joins : List Join) (chains : List (List Join)) :
    Join.addAllNew joins (joinsOf chains) = Join.addAllNew joins chains.flatten := by
  rw [← foldl_addAllNew]
  exact List.foldl_flatten.symm

theorem map_path_of_resolve {key : String} {r : Resolved} (h : c.resolve root key = .ok r) :
    r.joins.map (·.path) = r.column.path.inits.tail :=
  (Resolved.ofKey_eq_ok_iff.mp h).map_path_joins

/-- The joins of a call are those that its keys gain. -/
theorem gains_joinsOf {rs : List Resolved} (h : ∀ r ∈ rs, ∃ key, c.resolve root key = .ok r) :
    q.Gains rs (Join.addAllNew q.joins (joinsOf (rs.map (·.joins)))) := by
  have hpaths : (rs.flatMap (·.joins)).map (·.path) =
      rs.flatMap fun r => r.column.path.inits.tail := by
    rw [List.map_flatMap]
    refine List.flatMap_congr fun r hr => ?_
    obtain ⟨key, hkey⟩ := h r hr
    exact map_path_of_resolve hkey
  obtain ⟨new, heq, hsub⟩ := Join.exists_addAllNew_eq q.joins (rs.flatMap (·.joins))
  have hmap := Join.map_path_addAllNew q.joins (rs.flatMap (·.joins))
  rw [addAllNew_joinsOf, ← List.flatMap_def]
  refine ⟨new, heq, hsub, ?_⟩
  rw [heq, List.map_append, hpaths] at hmap
  exact List.append_cancel_left hmap

/-! ## Lookups -/

/-- The keys of lookups resolve, and operators build predicates of their columns and values. A key
without an operator asks for equality. -/
def Compiles (c : Compiler) (root : EntityId) (lookups : Lookups)
    (built : List (Resolved × Predicate)) : Prop :=
  List.Forall₂ (fun e b => c.resolve root e.1 = .ok b.1 ∧
    (b.1.operator.getD .eq).build b.1.column b.1.field e.2 c.settings.coerce = .ok b.2)
    lookups.entries built

theorem condition_typed_eq_ok_iff (c : Compiler) (root : EntityId) (key : String) (v : Value)
    (d : Condition) :
    c.condition root .typed key v = .ok d ↔
      ∃ b : Resolved × Predicate, (c.resolve root key = .ok b.1 ∧
        (b.1.operator.getD .eq).build b.1.column b.1.field v c.settings.coerce = .ok b.2) ∧
          ⟨b.1.joins, b.2⟩ = d := by
  constructor
  · intro h
    obtain ⟨r, hr, -⟩ := Checked.bind_eq_ok_iff.mp h
    rw [condition_of_resolve hr] at h
    obtain ⟨p, hp, rfl⟩ := Checked.map_eq_ok_iff.mp h
    exact ⟨(r, p), ⟨hr, hp⟩, rfl⟩
  · rintro ⟨⟨r, p⟩, ⟨hr, hp⟩, rfl⟩
    rw [condition_of_resolve hr]
    exact Checked.map_eq_ok_iff.mpr ⟨p, hp, rfl⟩

/-- Lookups that can be compiled narrow and exclude alike, by predicates and by their negations. -/
theorem restrict_of_compiles {lookups : Lookups} {built : List (Resolved × Predicate)}
    (h : c.Compiles q.root lookups built) (negate : Bool) :
    c.restrict q lookups negate .typed = .ok
      { q with
        joins := Join.addAllNew q.joins (joinsOf (built.map (·.1.joins)))
        predicates := q.predicates ++
          built.map fun b => if negate then .not b.2 else b.2 } := by
  have hmap := (Checked.mapM_eq_ok_map_iff fun e : String × Value =>
    condition_typed_eq_ok_iff c q.root e.1 e.2).mpr ⟨built, h, rfl⟩
  rw [restrict_eq, hmap]
  refine congrArg Except.ok ?_
  simp only [List.map_map, Function.comp_def]

theorem compiles_of_restrict {lookups : Lookups} {negate : Bool} {q' : Query}
    (h : c.restrict q lookups negate .typed = .ok q') :
    ∃ built, c.Compiles q.root lookups built := by
  obtain ⟨conditions, hc, -⟩ := restrict_eq_ok h
  obtain ⟨built, hbuilt, -⟩ := (Checked.mapM_eq_ok_map_iff fun e : String × Value =>
    condition_typed_eq_ok_iff c q.root e.1 e.2).mp hc
  exact ⟨built, hbuilt⟩

theorem Compiles.exists_key {lookups : Lookups} {built : List (Resolved × Predicate)}
    (h : c.Compiles root lookups built) :
    ∀ r ∈ built.map (·.1), ∃ key, c.resolve root key = .ok r :=
  List.forall_mem_map.mpr (Checked.forall_mem_of_forall₂ (fun e _ he => ⟨e.1, he.1⟩) h)

/-! ## Sort keys -/

/-- Keys resolve to columns without an operator; the front of a key gives the direction. -/
def Sorts (c : Compiler) (root : EntityId) (keys : List String)
    (sorted : List (Resolved × Direction)) : Prop :=
  List.Forall₂ (fun key s => c.resolve root (direction key).1 = .ok s.1 ∧ s.1.operator = none ∧
    (direction key).2 = s.2) keys sorted

theorem sortKey_eq_ok_iff (c : Compiler) (root : EntityId) (key : String)
    (sort : List Join × SortKey) :
    c.sortKey root key = .ok sort ↔
      ∃ s : Resolved × Direction, (c.resolve root (direction key).1 = .ok s.1 ∧
        s.1.operator = none ∧ (direction key).2 = s.2) ∧
          (s.1.joins, ⟨s.1.column, s.2⟩) = sort := by
  constructor
  · intro h
    obtain ⟨r, hr, hop, hjoins, hsort⟩ := sortKey_eq_ok h
    exact ⟨(r, (direction key).2), ⟨hr, hop, rfl⟩, Prod.ext hjoins.symm hsort.symm⟩
  · rintro ⟨⟨r, d⟩, ⟨hr, hop, rfl⟩, rfl⟩
    dsimp only at hr hop
    rw [sortKey]
    dsimp only
    rw [hr, Checked.ok_bind, hop]
    rfl

theorem order_of_sorts {keys : List String} {sorted : List (Resolved × Direction)}
    (h : c.Sorts q.root keys sorted) :
    c.order q keys = .ok
      { q with
        joins := Join.addAllNew q.joins (joinsOf (sorted.map (·.1.joins)))
        order := q.order ++ sorted.map fun s => ⟨s.1.column, s.2⟩ } := by
  have hmap := (Checked.mapM_eq_ok_map_iff (sortKey_eq_ok_iff c q.root)).mpr ⟨sorted, h, rfl⟩
  rw [order_eq, hmap]
  refine congrArg Except.ok ?_
  simp only [List.map_map, Function.comp_def]

theorem sorts_of_order {keys : List String} {q' : Query} (h : c.order q keys = .ok q') :
    ∃ sorted, c.Sorts q.root keys sorted := by
  obtain ⟨sorts, hs, -⟩ := order_eq_ok h
  obtain ⟨sorted, hsorted, -⟩ := (Checked.mapM_eq_ok_map_iff (sortKey_eq_ok_iff c q.root)).mp hs
  exact ⟨sorted, hsorted⟩

theorem Sorts.exists_key {keys : List String} {sorted : List (Resolved × Direction)}
    (h : c.Sorts root keys sorted) :
    ∀ r ∈ sorted.map (·.1), ∃ key, c.resolve root key = .ok r :=
  List.forall_mem_map.mpr (Checked.forall_mem_of_forall₂ (fun _ _ hs => ⟨_, hs.1⟩) h)

end Compiler

/-! ## Signs -/

/-- What may stand in front of the path of a sort key. -/
inductive SortSign where
  | bare
  | plus
  | minus
  deriving DecidableEq, Repr

namespace SortSign

def front : SortSign → String
  | bare => ""
  | plus => "+"
  | minus => "-"

def direction : SortSign → Direction
  | bare | plus => .ascending
  | minus => .descending

/-- The key of a path behind a sign. -/
def key (sign : SortSign) (path : String) : String := sign.front ++ path

/-- A path that does not start with a sign itself. -/
def IsUnsigned (path : String) : Prop :=
  path.toList.head? ≠ some '-' ∧ path.toList.head? ≠ some '+'

instance (path : String) : Decidable (IsUnsigned path) :=
  inferInstanceAs (Decidable (_ ∧ _))

/-- Keys that are the same but for the signs in front of their paths. -/
inductive Resigned : String → String → Prop
  | same (key : String) : Resigned key key
  | signs (sign other : SortSign) {path : String} :
      IsUnsigned path → Resigned (sign.key path) (other.key path)

theorem direction_key (sign : SortSign) {path : String} (h : IsUnsigned path) :
    Compiler.direction (sign.key path) = (path, sign.direction) := by
  obtain ⟨hminus, hplus⟩ := h
  unfold Compiler.direction key
  cases sign with
  | bare =>
    rw [front, String.empty_append]
    split
    · next heq => simp [heq] at hminus
    · next heq => simp [heq] at hplus
    · rfl
  | plus | minus => simp [front, direction]

theorem Resigned.path_eq {key key' : String} (h : Resigned key key') :
    (Compiler.direction key').1 = (Compiler.direction key).1 := by
  cases h with
  | same key => rfl
  | signs sign other hpath => rw [direction_key sign hpath, direction_key other hpath]

end SortSign

/-- Posts of blogs under another name, sorted from the last of these names to the first. -/
def Blog.sortedEssays : Query :=
  { Blog.outsideEssays with
    order := [⟨⟨[⟨2⟩], ⟨1⟩, "name"⟩, .descending⟩, ⟨⟨[], ⟨2⟩, "title"⟩, .ascending⟩] }

namespace Compiler

variable {c : Compiler} {q q' : Query} {root : EntityId}

/-- The sort keys take their directions from the fronts of the keys. -/
theorem Sorts.map_eq_zipWith {keys : List String} {sorted : List (Resolved × Direction)}
    (h : c.Sorts root keys sorted) :
    sorted.map (fun s => (⟨s.1.column, s.2⟩ : SortKey)) =
      List.zipWith SortKey.mk (sorted.map (·.1.column))
        (keys.map fun key => (direction key).2) := by
  unfold Sorts at h
  induction h with
  | nil => rfl
  | cons hs _ ih =>
    rw [List.map_cons, List.map_cons, List.map_cons, List.zipWith_cons_cons, ih, hs.2.2]

/-- Keys behind other signs resolve to the same columns. -/
theorem Sorts.resigned {keys keys' : List String} {sorted : List (Resolved × Direction)}
    (h : c.Sorts root keys sorted) (hkeys : List.Forall₂ SortSign.Resigned keys keys') :
    ∃ sorted', c.Sorts root keys' sorted' ∧ sorted'.map (·.1) = sorted.map (·.1) := by
  unfold Sorts at h ⊢
  induction hkeys generalizing sorted with
  | nil =>
    cases h
    exact ⟨[], .nil, rfl⟩
  | @cons key key' keys keys' hkey _ ih =>
    cases h with
    | @cons _ s _ sorted hs hrest =>
      obtain ⟨sorted', hsorted', hfst⟩ := ih hrest
      rw [← hkey.path_eq] at hs
      refine ⟨(s.1, (direction key').2) :: sorted', .cons ⟨hs.1, hs.2.1, rfl⟩ hsorted', ?_⟩
      rw [List.map_cons, List.map_cons, hfst]

/-- What a call that succeeds adds to a query, all else being left alone. Lookups add one predicate
each in their order, to exclude the negations of those to narrow; sort keys add one sort key each in
their order; and to the joins are added those of the paths that the keys pass, where they are passed
first, but for paths that are joined already. The signs of sort keys only give the directions. -/
theorem call_adds (c : Compiler) (q : Query) :
    (∀ lookups q', c.narrow q lookups = .ok q' ∨ c.exclude q lookups = .ok q' →
        ∃ built joins, c.Compiles q.root lookups built ∧ q.Gains (built.map (·.1)) joins ∧
          c.narrow q lookups = .ok
            { q with joins := joins, predicates := q.predicates ++ built.map (·.2) } ∧
          c.exclude q lookups = .ok
            { q with joins := joins, predicates := q.predicates ++ built.map (.not ·.2) }) ∧
      (∀ keys q', c.order q keys = .ok q' →
        ∃ sorted joins, c.Sorts q.root keys sorted ∧ q.Gains (sorted.map (·.1)) joins ∧
          q' = { q with
            joins := joins
            order := q.order ++ sorted.map fun s => ⟨s.1.column, s.2⟩ }) ∧
      (∀ (sign : SortSign) path, SortSign.IsUnsigned path →
        direction (sign.key path) = (path, sign.direction)) ∧
      ∀ keys keys' q', List.Forall₂ SortSign.Resigned keys keys' → c.order q keys = .ok q' →
        ∃ columns : List Column,
          q'.order = q.order ++
            List.zipWith SortKey.mk columns (keys.map fun key => (direction key).2) ∧
          c.order q keys' = .ok
            { q' with
              order := q.order ++
                List.zipWith SortKey.mk columns (keys'.map fun key => (direction key).2) } := by
  refine ⟨fun lookups q' h => ?_, fun keys q' h => ?_, fun sign _ => sign.direction_key,
    fun keys keys' q' hkeys h => ?_⟩
  · obtain ⟨built, hbuilt⟩ : ∃ built, c.Compiles q.root lookups built :=
      h.elim compiles_of_restrict compiles_of_restrict
    have hgains := gains_joinsOf (q := q) hbuilt.exists_key
    rw [List.map_map] at hgains
    exact ⟨built, _, hbuilt, hgains, restrict_of_compiles hbuilt false,
      restrict_of_compiles hbuilt true⟩
  · obtain ⟨sorted, hsorted⟩ := sorts_of_order h
    have hgains := gains_joinsOf (q := q) hsorted.exists_key
    rw [List.map_map] at hgains
    rw [order_of_sorts hsorted] at h
    exact ⟨sorted, _, hsorted, hgains, (Except.ok.inj h).symm⟩
  · obtain ⟨sorted, hsorted⟩ := sorts_of_order h
    rw [order_of_sorts hsorted] at h
    obtain rfl := (Except.ok.inj h).symm
    obtain ⟨sorted', hsorted', hfst⟩ := hsorted.resigned hkeys
    have hcolumns := congrArg (List.map (·.column)) hfst
    have hjoins := congrArg (List.map (·.joins)) hfst
    simp only [List.map_map, Function.comp_def] at hcolumns hjoins
    refine ⟨sorted.map (·.1.column), ?_, ?_⟩
    · dsimp only
      rw [hsorted.map_eq_zipWith]
    · rw [order_of_sorts hsorted', hsorted'.map_eq_zipWith, hcolumns, hjoins]

/-- The theorem at posts whose blogs are joined already. The lookups pass one more path, and the
sort keys pass none. -/
theorem call_adds_owned :
    (ofSchema Blog.built).exclude Blog.outsideEssays Blog.ownerLookups =
        .ok Blog.ownedOutsideEssays ∧
      (∃ built, (ofSchema Blog.built).Compiles ⟨2⟩ Blog.ownerLookups built ∧
        Blog.outsideEssays.Gains (built.map (·.1)) Blog.ownedOutsideEssays.joins) ∧
      (ofSchema Blog.built).order Blog.outsideEssays ["-blog__name", "title"] =
        .ok Blog.sortedEssays ∧
      ∃ columns : List Column,
        Blog.sortedEssays.order = List.zipWith SortKey.mk columns [.descending, .ascending] ∧
          (ofSchema Blog.built).order Blog.outsideEssays ["blog__name", "-title"] = .ok
            { Blog.sortedEssays with
              order := List.zipWith SortKey.mk columns [.ascending, .descending] } := by
  have hexclude : (ofSchema Blog.built).exclude Blog.outsideEssays Blog.ownerLookups =
      .ok Blog.ownedOutsideEssays := by cbv
  have horder : (ofSchema Blog.built).order Blog.outsideEssays ["-blog__name", "title"] =
      .ok Blog.sortedEssays := by cbv
  have hname : SortSign.IsUnsigned "blog__name" := by decide
  have htitle : SortSign.IsUnsigned "title" := by decide
  obtain ⟨hadds, -, -, hsigns⟩ := call_adds (ofSchema Blog.built) Blog.outsideEssays
  refine ⟨hexclude, ?_, horder, ?_⟩
  · obtain ⟨built, joins, hbuilt, hgains, -, heq⟩ := hadds Blog.ownerLookups _ (Or.inr hexclude)
    have hquery := Except.ok.inj (heq.symm.trans hexclude)
    exact ⟨built, hbuilt, congrArg Query.joins hquery ▸ hgains⟩
  · exact hsigns _ ["blog__name", "-title"] _
      (.cons (.signs .minus .bare hname) (.cons (.signs .bare .minus htitle) .nil)) horder

end Compiler

end FieldLookup
