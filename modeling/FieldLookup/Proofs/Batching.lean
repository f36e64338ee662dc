import FieldLookup.Proofs.Insertions
import FieldLookup.Proofs.Rearrangement

/-!
Calls made in parts. Main statement: `Compiler.batches_compose`, lookups and sort keys may be given
to one call or, in the same order, to two: the query is the same, and so is the error if there is
one.
-/
namespace FieldLookup

namespace Ordered

variable {α : Type}

/-- The entries of a map and those of another one behind them. Of two entries with one name the
later replaces the earlier. -/
def append (m n : Ordered α) : Ordered α := n.entries.foldl (fun m e => m.insert e.1 e.2) m

/-- Maps without a common name keep all their entries. -/
theorem entries_append {m n : Ordered α} (h : ∀ key ∈ m.keys, key ∉ n.keys) :
    (m.append n).entries = m.entries ++ n.entries :=
  entries_foldl_insert m n.nodup h

end Ordered

namespace Compiler

theorem foldl_addAllNew (joins : List Join) (chains : List (List Join)) :
    chains.foldl Join.addAllNew joins = Join.addAllNew joins (joinsOf chains) := by
  induction chains generalizing joins with
  | nil => rfl
  | cons chain chains ih =>
    rw [joinsOf, List.foldl_cons, List.foldl_cons, ih, ih (Join.addAllNew [] chain),
      Join.addAllNew_assoc, Join.addAllNew_assoc]
    rfl

/-- The joins of two calls put together are those of one call. -/
theorem joinsOf_append (chains more : List (List Join)) :
    joinsOf (chains ++ more) = Join.addAllNew (joinsOf chains) (joinsOf more) := by
  rw [joinsOf, List.foldl_append, foldl_addAllNew]
  rfl

theorem addAllNew_joinsOf_append (joins : List Join) (chains more : List (List Join)) :
    Join.addAllNew joins (joinsOf (chains ++ more)) =
      Join.addAllNew (Join.addAllNew joins (joinsOf chains)) (joinsOf more) := by
  rw [joinsOf_append, Join.addAllNew_assoc]

/-- Lookups without a common key may be given to one call or to two. -/
theorem restrict_append (c : Compiler) (q : Query) {a b : Lookups}
    (h : ∀ key ∈ a.keys, key ∉ b.keys) (negate : Bool) (source : ValueOrigin) :
    c.restrict q (a.append b) negate source =
      c.restrict q a negate source >>= fun q' => c.restrict q' b negate source := by
  simp only [restrict_eq, Ordered.entries_append h]
  rw [List.mapM_append]
  cases a.entries.mapM fun e => c.condition q.root source e.1 e.2 with
  | error e => rfl
  | ok conditions =>
    simp only [Checked.ok_bind, Except.map]
    cases b.entries.mapM fun e => c.condition q.root source e.1 e.2 with
    | error e => rfl
    | ok more =>
      refine congrArg Except.ok ?_
      simp only [List.map_append, addAllNew_joinsOf_append, List.append_assoc]

theorem order_append (c : Compiler) (q : Query) (keys more : List String) :
    c.order q (keys ++ more) = c.order q keys >>= fun q' => c.order q' more := by
  simp only [order_eq]
  rw [List.mapM_append]
  cases keys.mapM (c.sortKey q.root) with
  | error e => rfl
  | ok sorts =>
    simp only [Checked.ok_bind, Except.map]
    cases more.mapM (c.sortKey q.root) with
    | error e => rfl
    | ok others =>
      refine congrArg Except.ok ?_
      simp only [List.map_append, addAllNew_joinsOf_append, List.append_assoc]

/-- Whatever the compiler and the query, lookups without a common key narrow or exclude in one call
as they do in two, the first ones first: the queries are equal, joins and predicates in the same
order, or the same error is met first. The same holds of any two lists of sort keys. -/
theorem batches_compose (c : Compiler) (q : Query) :
    (∀ a b : Lookups, (∀ key ∈ a.keys, key ∉ b.keys) →
      c.narrow q (a.append b) = (c.narrow q a >>= fun q' => c.narrow q' b) ∧
        c.exclude q (a.append b) = (c.exclude q a >>= fun q' => c.exclude q' b)) ∧
      ∀ keys more : List String,
        c.order q (keys ++ more) = (c.order q keys >>= fun q' => c.order q' more) :=
  ⟨fun _ _ h => ⟨c.restrict_append q h false .typed, c.restrict_append q h true .typed⟩,
    c.order_append q⟩

end Compiler

namespace Blog

/-- The part of `praiseLookups` that asks for comments. -/
def commentLookups : Lookups := Ordered.ofList [("posts__comments__text__ne", .text "meh")]

/-- The part of `praiseLookups` that asks for names. -/
def nameLookups : Lookups := Ordered.ofList [("name__startswith", .text "al")]

theorem disjoint_nameLookups : ∀ key ∈ commentLookups.keys, key ∉ nameLookups.keys := by
  decide

end Blog

/-- The theorem at authors who are narrowed by comments and then by their names. -/
theorem Compiler.batches_compose_praised :
    (∀ key ∈ Blog.commentLookups.keys, key ∉ Blog.nameLookups.keys) ∧
      (ofSchema Blog.built).narrow (.ofRoot ⟨0⟩) (Blog.commentLookups.append Blog.nameLookups) =
        .ok Blog.praised ∧
      ((ofSchema Blog.built).narrow (.ofRoot ⟨0⟩) Blog.commentLookups >>= fun q =>
        (ofSchema Blog.built).narrow q Blog.nameLookups) = .ok Blog.praised := by
  have hwhole : (ofSchema Blog.built).narrow (.ofRoot ⟨0⟩)
      (Blog.commentLookups.append Blog.nameLookups) = .ok Blog.praised := by cbv
  refine ⟨Blog.disjoint_nameLookups, hwhole, ?_⟩
  rw [← ((batches_compose (ofSchema Blog.built) (.ofRoot ⟨0⟩)).1 _ _ Blog.disjoint_nameLookups).1,
    hwhole]

end FieldLookup
