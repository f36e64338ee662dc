import FieldLookup.Proofs.Declared
import FieldLookup.Proofs.Derivation

/-!
Lists of joins in which each join extends a path joined before it. Main statements: adding such
lists to each other keeps them so (`Linked.addAllNew`), and the joins of names that lead along
relations can be added wherever the path before them is joined (`Linked.addAllNew_along`).
-/
namespace FieldLookup

/-- The entity that relations lead to, if each leaves the entity that those before it reach. -/
def Schema.entityAt? (s : Schema) : EntityId → Path → Option EntityId
  | e, [] => some e
  | e, id :: rest =>
    (s.relation? id).bind fun r => if r.source = e then s.entityAt? r.target rest else none

theorem Schema.entityAt?_append (s : Schema) (e : EntityId) (p p' : Path) :
    s.entityAt? e (p ++ p') = (s.entityAt? e p).bind fun e' => s.entityAt? e' p' := by
  induction p generalizing e with
  | nil => rfl
  | cons id rest ih =>
    simp only [List.cons_append, entityAt?, Option.bind_assoc]
    refine Option.bind_congr fun r _ => ?_
    split
    · exact ih r.target
    · rfl

theorem Schema.entityAt?_child {s : Schema} {root : EntityId} {path : Path} {r : Relation}
    (hr : s.relation? r.id = some r) (hpath : s.entityAt? root path = some r.source) :
    s.entityAt? root (path.child r.id) = some r.target := by
  rw [Path.child, entityAt?_append, hpath]
  simp [entityAt?, hr]

theorem Schema.Declared.entityAt?_along {s : Schema} (hs : s.Declared) {root e last : EntityId}
    {names : List String} {rs : List Relation} (h : s.Leads e names rs last) {path : Path}
    (hpath : s.entityAt? root path = some e) : s.entityAt? root (path.along rs) = some last := by
  induction h generalizing path with
  | here e => simpa using hpath
  | along _ hr _ ih =>
    rw [Path.along_cons]
    refine ih (Schema.entityAt?_child (Schema.relation?_of_relationFrom? hr) ?_)
    rw [hs.source_eq hr, hpath]

namespace Join

/-! ## Paths that are joined -/

/-- Whether a path is the root or one that is joined. -/
def Reach (joins : List Join) (path : Path) : Prop := path = Path.root ∨ ∃ j ∈ joins, j.path = path

theorem reach_root (joins : List Join) : Reach joins Path.root := Or.inl rfl

@[simp] theorem reach_nil {path : Path} : Reach [] path ↔ path = Path.root := by simp [Reach]

theorem Reach.mono {joins more : List Join} {path : Path} (h : Reach joins path)
    (hsub : joins ⊆ more) : Reach more path := by
  rcases h with h | ⟨j, hj, h⟩
  · exact Or.inl h
  · exact Or.inr ⟨j, hsub hj, h⟩

theorem reach_snoc {front : List Join} {j : Join} {path : Path} :
    Reach (front ++ [j]) path ↔ Reach front path ∨ j.path = path := by
  simp only [Reach, List.mem_append, List.mem_singleton, or_and_right, exists_or, exists_eq_left,
    or_assoc]

theorem reach_addNew (joins : List Join) (j : Join) (path : Path) :
    Reach (addNew joins j) path ↔ Reach joins path ∨ j.path = path := by
  unfold addNew
  split
  · next h =>
    obtain ⟨k, hk, hp⟩ := List.any_eq_true.mp h
    have hp : k.path = j.path := by simpa using hp
    constructor
    · exact Or.inl
    · rintro (h | rfl)
      · exact h
      · exact Or.inr ⟨k, hk, hp⟩
  · exact reach_snoc

theorem reach_addAllNew (joins more : List Join) (path : Path) :
    Reach (addAllNew joins more) path ↔ Reach joins path ∨ ∃ j ∈ more, j.path = path := by
  induction more generalizing joins with
  | nil => simp [addAllNew]
  | cons j more ih =>
    have hstep : addAllNew joins (j :: more) = addAllNew (addNew joins j) more := rfl
    rw [hstep, ih, reach_addNew, or_assoc]
    simp

theorem reach_along (joins : List Join) (path : Path) (rs : List Relation)
    (h : Reach joins path) : Reach (addAllNew joins (Join.along path rs)) (path.along rs) := by
  induction rs generalizing joins path with
  | nil => simpa [Join.along, addAllNew] using h
  | cons r rs ih =>
    rw [Path.along_cons]
    exact ih _ _ ((reach_addNew ..).mpr (Or.inr rfl))

theorem addAllNew_snoc (joins front : List Join) (j : Join) :
    addAllNew joins (front ++ [j]) = addNew (addAllNew joins front) j := by
  simp [addAllNew]

/-! ## Joins in order -/

/-- A join that extends a path joined before it, by a relation that leaves the entity there. -/
structure Fits (schema : Schema) (root : EntityId) (front : List Join) (j : Join) : Prop where
  parent : Reach front j.path.parent
  ends : j.path = j.path.parent.child j.relation
  relation : ∃ r, schema.relation? j.relation = some r ∧
    schema.entityAt? root j.path.parent = some r.source ∧ r.target = j.target

/-- Joins of distinct paths, each of which fits behind those before it. -/
inductive Linked (schema : Schema) (root : EntityId) : List Join → Prop
  | nil : Linked schema root []
  | snoc {front : List Join} {j : Join} :
      Linked schema root front → (∀ k ∈ front, k.path ≠ j.path) → Fits schema root front j →
        Linked schema root (front ++ [j])

variable {schema : Schema} {root : EntityId}

theorem Fits.mono {front more : List Join} {j : Join} (h : Fits schema root front j)
    (hreach : ∀ path, Reach front path → Reach more path) : Fits schema root more j :=
  ⟨hreach _ h.parent, h.ends, h.relation⟩

theorem Fits.path_ne_root {front : List Join} {j : Join} (h : Fits schema root front j) :
    j.path ≠ Path.root := by
  rw [h.ends]
  simp [Path.child, Path.root]

theorem Fits.getLast? {front : List Join} {j : Join} (h : Fits schema root front j) :
    j.path.getLast? = some j.relation := by
  rw [h.ends]
  simp [Path.child]

/-- The entity at the path of a join is the join's target. -/
theorem Fits.entityAt?_path {front : List Join} {j : Join} (h : Fits schema root front j) :
    schema.entityAt? root j.path = some j.target := by
  obtain ⟨r, hr, hsource, htarget⟩ := h.relation
  have hid := Schema.relation?_id hr
  rw [h.ends, ← hid, Schema.entityAt?_child (hid ▸ hr) hsource, htarget]

theorem Linked.addNew {joins : List Join} (h : Linked schema root joins) {j : Join}
    (hj : Fits schema root joins j) : Linked schema root (addNew joins j) := by
  unfold Join.addNew
  split
  · exact h
  · next hnew =>
    refine h.snoc (fun k hk hp => hnew ?_) hj
    exact List.any_eq_true.mpr ⟨k, hk, by simpa using hp⟩

theorem Linked.addAllNew {joins more : List Join} (h : Linked schema root joins)
    (hm : Linked schema root more) : Linked schema root (addAllNew joins more) := by
  induction hm with
  | nil => exact h
  | @snoc front j _ _ hfits ih =>
    rw [addAllNew_snoc]
    refine ih.addNew (hfits.mono fun path hp => (reach_addAllNew ..).mpr ?_)
    rcases hp with rfl | hp
    · exact Or.inl (reach_root joins)
    · exact Or.inr hp

/-- The joins of names that lead along relations can be added where the path before is joined. -/
theorem Linked.addAllNew_along (hs : schema.Declared) {e last : EntityId} {names : List String}
    {rs : List Relation} (hl : schema.Leads e names rs last) {joins : List Join}
    (h : Linked schema root joins) {path : Path} (hreach : Reach joins path)
    (hpath : schema.entityAt? root path = some e) :
    Linked schema root (Join.addAllNew joins (Join.along path rs)) := by
  induction hl generalizing joins path with
  | here e => exact h
  | @along e last name names r rs _ hr _ ih =>
    have hsource : schema.entityAt? root path = some r.source := by rw [hs.source_eq hr, hpath]
    have hid := Schema.relation?_of_relationFrom? hr
    have hfits : Fits schema root joins ⟨path.child r.id, r.id, r.name, r.target⟩ :=
      ⟨by simpa using hreach, by simp, r, hid, by simpa using hsource, rfl⟩
    exact ih (h.addNew hfits) ((reach_addNew ..).mpr (Or.inr rfl))
      (Schema.entityAt?_child hid hsource)

/-- The joins of names that lead along relations from the root. -/
def Chain (schema : Schema) (root : EntityId) (joins : List Join) : Prop :=
  ∃ names rs last, schema.Leads root names rs last ∧ joins = Join.along Path.root rs

theorem Linked.addAllNew_chains (hs : schema.Declared) {joins : List Join}
    (h : Linked schema root joins) {chains : List (List Join)}
    (hc : ∀ chain ∈ chains, Chain schema root chain) :
    Linked schema root (chains.foldl Join.addAllNew joins) := by
  induction chains generalizing joins with
  | nil => exact h
  | cons chain chains ih =>
    obtain ⟨names, rs, last, hl, rfl⟩ := hc chain (by simp)
    exact ih (h.addAllNew_along hs hl (reach_root joins) rfl)
      fun chain hchain => hc chain (List.mem_cons_of_mem _ hchain)

theorem reach_addAllNew_chains (joins : List Join) (chains : List (List Join)) (path : Path) :
    Reach (chains.foldl Join.addAllNew joins) path ↔
      Reach joins path ∨ ∃ chain ∈ chains, ∃ j ∈ chain, j.path = path := by
  induction chains generalizing joins with
  | nil => simp
  | cons chain chains ih => rw [List.foldl_cons, ih, reach_addAllNew, or_assoc]; simp

theorem Linked.nodup {joins : List Join} (h : Linked schema root joins) :
    (joins.map (·.path)).Nodup := by
  induction h with
  | nil => simp
  | @snoc front j _ hnew _ ih =>
    rw [List.map_append, List.nodup_append]
    refine ⟨ih, by simp, fun path hp other ho => ?_⟩
    obtain ⟨k, hk, rfl⟩ := List.mem_map.mp hp
    rw [List.map_singleton, List.mem_singleton] at ho
    exact ho ▸ hnew k hk

/-- Each join of a linked list fits behind the joins before it. -/
theorem Linked.fits {joins : List Join} (h : Linked schema root joins) :
    ∀ front j back, joins = front ++ j :: back → Fits schema root front j := by
  induction h with
  | nil => simp
  | @snoc front₀ j₀ _ _ hfits ih =>
    intro front j back hsplit
    rcases List.eq_nil_or_concat back with rfl | ⟨back', last, rfl⟩
    · obtain ⟨rfl, hj⟩ := List.append_inj' hsplit rfl
      cases hj
      exact hfits
    · rw [List.concat_eq_append, ← List.cons_append, ← List.append_assoc] at hsplit
      exact ih front j back' (List.append_inj' hsplit rfl).1

theorem Linked.fits_of_mem {joins : List Join} (h : Linked schema root joins) {j : Join}
    (hj : j ∈ joins) : Fits schema root joins j := by
  obtain ⟨front, back, rfl⟩ := List.append_of_mem hj
  exact (h.fits front j back rfl).mono fun path hp => hp.mono (List.subset_append_left ..)

end Join

end FieldLookup
