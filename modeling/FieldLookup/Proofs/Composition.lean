import FieldLookup.Proofs.Declared
import Mathlib

/-!
Queries that calls of compilers compose from the query of a root, and what each call does to a
query. Main statements: `restrict_eq`, `order_eq` and `loadRelated_eq_ok`.
-/
namespace FieldLookup

/-- A call that extends a query. -/
inductive Call where
  | narrow (lookups : Lookups)
  | exclude (lookups : Lookups)
  | order (keys : List String)
  | loadRelated (paths : List String) (depth : Option Nat)
  | apply (request : Request)
  | limitTo (n : Nat)
  | skipping (n : Nat)

def Call.run (c : Compiler) (q : Query) : Call → Except LookupError Query
  | narrow lookups => c.narrow q lookups
  | exclude lookups => c.exclude q lookups
  | order keys => c.order q keys
  | loadRelated paths depth => c.loadRelated q paths depth
  | apply request => c.apply q request
  | limitTo n => .ok (q.limitTo n)
  | skipping n => .ok (q.skipping n)

/-- The queries that successful calls of compilers for a schema compose. -/
inductive Query.Composed (schema : Schema) (root : EntityId) : Query → Prop
  | ofRoot : Composed schema root (Query.ofRoot root)
  | call {q q' : Query} (c : Compiler) (call : Call) :
      c.schema = schema → Composed schema root q → call.run c q = .ok q' → Composed schema root q'

/-! ## What a call does to a query -/

theorem Query.join_eq (q : Query) (j : Join) :
    q.join j = { q with joins := Join.addNew q.joins j } := by
  unfold Query.join Query.reaches Join.addNew
  split <;> rfl

theorem Query.joinAll_eq (q : Query) (joins : List Join) :
    q.joinAll joins = { q with joins := Join.addAllNew q.joins joins } := by
  induction joins generalizing q with
  | nil => rfl
  | cons j joins ih => exact (congrArg (·.joinAll joins) (q.join_eq j)).trans (ih _)

theorem Query.foldl_filter (q : Query) (ps : List Predicate) :
    ps.foldl Query.filter q = { q with predicates := q.predicates ++ ps } := by
  induction ps generalizing q with
  | nil => simp
  | cons p ps ih => rw [List.foldl_cons, ih]; simp [Query.filter]

theorem Query.foldl_thenBy (q : Query) (keys : List SortKey) :
    keys.foldl Query.thenBy q = { q with order := q.order ++ keys } := by
  induction keys generalizing q with
  | nil => simp
  | cons key keys ih => rw [List.foldl_cons, ih]; simp [Query.thenBy]

theorem Query.foldl_addEager (q : Query) (loads : List EagerPath) :
    ∃ eager, loads.foldl Query.addEager q = { q with eager := eager } ∧
      ∀ load ∈ eager, load ∈ q.eager ∨ load ∈ loads := by
  induction loads generalizing q with
  | nil => exact ⟨q.eager, rfl, fun load hl => Or.inl hl⟩
  | cons first loads ih =>
    obtain ⟨eager, heq, hmem⟩ := ih (q.addEager first)
    rw [List.foldl_cons, heq]
    unfold Query.addEager at hmem ⊢
    split at hmem
    · next hold =>
      refine ⟨eager, by rw [if_pos hold], fun load hl => ?_⟩
      exact (hmem load hl).imp_right (List.mem_cons_of_mem _)
    · next hnew =>
      refine ⟨eager, by rw [if_neg hnew], fun load hl => ?_⟩
      rcases hmem load hl with h | h
      · rcases List.mem_append.mp h with h | h
        · exact Or.inl h
        · exact Or.inr (List.mem_cons.mpr (Or.inl (List.mem_singleton.mp h)))
      · exact Or.inr (List.mem_cons_of_mem _ h)

namespace Compiler

variable {c : Compiler} {q q' : Query}

theorem condition_of_resolve {root : EntityId} {key : String} {r : Resolved}
    (hr : c.resolve root key = .ok r) (source : ValueOrigin) (v : Value) :
    c.condition root source key v =
      ((r.operator.getD .eq).build r.column r.field
        (match source with
          | .typed => v
          | .request => convertRaw (r.operator.getD .eq) r.field.type v)
        c.settings.coerce).map (⟨r.joins, ·⟩) := by
  have hmap (x : Except LookupError Predicate) :
      (x >>= fun p => pure (⟨r.joins, p⟩ : Condition)) = x.map (⟨r.joins, ·⟩) := by
    cases x <;> rfl
  rw [condition, hr, Checked.ok_bind]
  exact hmap _

theorem condition_eq_ok {root : EntityId} {source : ValueOrigin} {key : String} {v : Value}
    {d : Condition} (h : c.condition root source key v = .ok d) :
    ∃ r w, c.resolve root key = .ok r ∧ d.joins = r.joins ∧
      (r.operator.getD .eq).build r.column r.field w c.settings.coerce = .ok d.predicate := by
  obtain ⟨r, hr, -⟩ := Checked.bind_eq_ok_iff.mp h
  rw [condition_of_resolve hr] at h
  obtain ⟨p, hp, rfl⟩ := Checked.map_eq_ok_iff.mp h
  exact ⟨r, _, hr, rfl, hp⟩

/-- The joins of a call, each path once. -/
def joinsOf (chains : List (List Join)) : List Join := chains.foldl Join.addAllNew []

/-- What lookups add to a query depends on its root only. -/
theorem restrict_eq (c : Compiler) (q : Query) (lookups : Lookups) (negate : Bool)
    (source : ValueOrigin) :
    c.restrict q lookups negate source =
      (lookups.entries.mapM fun e => c.condition q.root source e.1 e.2).map fun conditions =>
        { q with
          joins := Join.addAllNew q.joins (joinsOf (conditions.map (·.joins)))
          predicates := q.predicates ++
            conditions.map fun d => if negate then .not d.predicate else d.predicate } := by
  rw [restrict]
  cases lookups.entries.mapM fun e => c.condition q.root source e.1 e.2 with
  | error e => rfl
  | ok conditions =>
    refine congrArg Except.ok ?_
    rw [Query.foldl_filter, Query.joinAll_eq]
    simp only [joinsOf, List.foldl_map]

theorem restrict_eq_ok {lookups : Lookups} {negate : Bool} {source : ValueOrigin}
    (h : c.restrict q lookups negate source = .ok q') :
    ∃ conditions,
      lookups.entries.mapM (fun e => c.condition q.root source e.1 e.2) = .ok conditions ∧
        q' = { q with
          joins := Join.addAllNew q.joins (joinsOf (conditions.map (·.joins)))
          predicates := q.predicates ++
            conditions.map fun d => if negate then .not d.predicate else d.predicate } := by
  rw [restrict_eq] at h
  obtain ⟨conditions, hc, h⟩ := Checked.map_eq_ok_iff.mp h
  exact ⟨conditions, hc, h.symm⟩

/-- What one lookup adds to a query. -/
theorem restrict_single (c : Compiler) (q : Query) (key : String) (v : Value) (negate : Bool)
    (source : ValueOrigin) :
    c.restrict q (Ordered.empty.insert key v) negate source =
      (c.condition q.root source key v).map fun d =>
        { q with
          joins := Join.addAllNew q.joins (joinsOf [d.joins])
          predicates := q.predicates ++ [if negate then .not d.predicate else d.predicate] } := by
  have hentries : (Ordered.empty.insert key v).entries = [(key, v)] := rfl
  rw [restrict_eq, hentries, Checked.mapM_cons]
  cases c.condition q.root source key v <;> rfl

theorem sortKey_eq_ok {root : EntityId} {key : String} {sort : List Join × SortKey}
    (h : c.sortKey root key = .ok sort) :
    ∃ r, c.resolve root (direction key).1 = .ok r ∧ r.operator = none ∧ sort.1 = r.joins ∧
      sort.2 = ⟨r.column, (direction key).2⟩ := by
  obtain ⟨r, hr, h⟩ := Checked.bind_eq_ok_iff.mp h
  split at h
  · cases h
  · next hop =>
    cases h
    exact ⟨r, hr, hop, rfl, rfl⟩

/-- What sort keys add to a query depends on its root only. -/
theorem order_eq (c : Compiler) (q : Query) (keys : List String) :
    c.order q keys = (keys.mapM (c.sortKey q.root)).map fun sorts =>
      { q with
        joins := Join.addAllNew q.joins (joinsOf (sorts.map (·.1)))
        order := q.order ++ sorts.map (·.2) } := by
  rw [order]
  cases keys.mapM (c.sortKey q.root) with
  | error e => rfl
  | ok sorts =>
    refine congrArg Except.ok ?_
    rw [Query.joinAll_eq, Query.foldl_thenBy]
    simp only [joinsOf, List.foldl_map]

theorem order_eq_ok {keys : List String} (h : c.order q keys = .ok q') :
    ∃ sorts, keys.mapM (c.sortKey q.root) = .ok sorts ∧
      q' = { q with
        joins := Join.addAllNew q.joins (joinsOf (sorts.map (·.1)))
        order := q.order ++ sorts.map (·.2) } := by
  rw [order_eq] at h
  obtain ⟨sorts, hs, h⟩ := Checked.map_eq_ok_iff.mp h
  exact ⟨sorts, hs, h.symm⟩

theorem loadRelated_eq_ok {paths : List String} {depth : Option Nat}
    (h : c.loadRelated q paths depth = .ok q') :
    ∃ resolved eager,
      paths.mapM (fun key =>
        c.relationPath key q.root Path.root (Text.split c.settings.separator key)) =
          .ok resolved ∧
        q' = { q with eager := eager } ∧
          ∀ load ∈ eager, load ∈ q.eager ∨ load.path ∈ resolved := by
  unfold loadRelated at h
  split at h
  · cases h
  · cases h
  · obtain ⟨resolved, hr, h⟩ := Checked.bind_eq_ok_iff.mp h
    obtain ⟨eager, heq, hmem⟩ := q.foldl_addEager
      (resolved.map fun path => ⟨path, depth.isNone || resolved.any (1 < ·.length)⟩)
    rw [List.foldl_map] at heq
    refine ⟨resolved, eager, hr, (Except.ok.inj h).symm.trans heq, fun load hl => ?_⟩
    refine (hmem load hl).imp_right fun h => ?_
    obtain ⟨path, hp, rfl⟩ := List.mem_map.mp h
    exact hp

end Compiler

namespace Blog

/-- Authors by the front of their name and what comments on their posts do not say. -/
def praiseLookups : Lookups :=
  Ordered.ofList
    [("posts__comments__text__ne", .text "meh"), ("name__startswith", .text "al")]

/-- The query of the authors that `praiseLookups` ask for. -/
def praised : Query where
  root := ⟨0⟩
  joins := [⟨[⟨5⟩], ⟨5⟩, "posts", ⟨2⟩⟩, ⟨[⟨5⟩, ⟨7⟩], ⟨7⟩, "comments", ⟨3⟩⟩]
  predicates :=
    [.compare ⟨[⟨5⟩, ⟨7⟩], ⟨3⟩, "text"⟩ .ne (.text "meh"), .like ⟨[], ⟨0⟩, "name"⟩ "al%" false]
  order := []
  eager := []
  limit := none
  offset := none

theorem composed_praised : Query.Composed built ⟨0⟩ praised :=
  .call (Compiler.ofSchema built) (.narrow praiseLookups) rfl .ofRoot (by cbv)

end Blog

end FieldLookup
