import FieldLookup.Lookup.Compiler
import FieldLookup.Proofs.Declared
import FieldLookup.Proofs.Derivation

/-!
Paths of relations, read in one go for eager loads and token by token for columns. Main statement:
`Compiler.relationPath_exact`, a key that has no empty token is read as a path just if the walker of
columns joins once for each of its tokens, last along that path, and then misses a column; and any
other key is refused at the first token for which the walker does not join.
-/
namespace FieldLookup

/-! ## Relations and one token more -/

namespace Schema

variable {s : Schema}

/-- Tokens lead along relations to their end, or to one of them that names no relation. -/
theorem leads_or_stuck {tokens : List String} (h : ∀ token ∈ tokens, token ≠ "") (e : EntityId) :
    (∃ rs last, s.Leads e tokens rs last) ∨
      ∃ front token back rs last, tokens = front ++ token :: back ∧ s.Leads e front rs last ∧
        s.relationFrom? last token = none := by
  induction tokens generalizing e with
  | nil => exact Or.inl ⟨[], e, .here e⟩
  | cons token tokens ih =>
    obtain ⟨hname, hrest⟩ := List.forall_mem_cons.mp h
    cases hr : s.relationFrom? e token with
    | none => exact Or.inr ⟨[], token, tokens, [], e, rfl, .here e, hr⟩
    | some r =>
      rcases ih hrest r.target with
        ⟨rs, last, hl⟩ | ⟨front, stuck, back, rs, last, rfl, hl, hnone⟩
      · exact Or.inl ⟨r :: rs, last, .along hname hr hl⟩
      · exact Or.inr ⟨token :: front, stuck, back, r :: rs, last, rfl, .along hname hr hl, hnone⟩

theorem Leads.length_eq {e last : EntityId} {names : List String} {rs : List Relation}
    (h : s.Leads e names rs last) : rs.length = names.length := by
  induction h with
  | here => rfl
  | along _ _ _ ih => simp [ih]

end Schema

/-! ## Joins and the path they lead to -/

/-- The step that joins a relation. -/
def Step.hop (x : Join × Relation) : Except LookupError Step := .ok (.join x.1 x.2)

theorem Step.hop_injective : Function.Injective Step.hop := by
  rintro ⟨join, relation⟩ ⟨join', relation'⟩ h
  cases h
  rfl

/-- The joins along relations, each with its relation. -/
def Join.hops (path : Path) (rs : List Relation) : List (Join × Relation) :=
  (Join.along path rs).zip rs

namespace Join

theorem hops_cons (path : Path) (r : Relation) (rs : List Relation) :
    hops path (r :: rs) =
      (⟨path.child r.id, r.id, r.name, r.target⟩, r) :: hops (path.child r.id) rs := rfl

theorem length_hops (path : Path) (rs : List Relation) : (hops path rs).length = rs.length := by
  induction rs generalizing path with
  | nil => rfl
  | cons r rs ih => simp [hops_cons, ih]

/-- The last join leads to the end of the whole path. -/
theorem getLast?_hops (path : Path) {rs : List Relation} (h : rs ≠ []) :
    ((hops path rs).getLast?.map fun x => x.1.path) = some (path.along rs) := by
  induction rs generalizing path with
  | nil => exact absurd rfl h
  | cons r rs ih =>
    cases rs with
    | nil => simp [hops, along]
    | cons r' rs =>
      have hlast := ih (path.child r.id) (by simp)
      rw [hops_cons] at hlast
      rw [hops_cons, hops_cons, List.getLast?_cons_cons, hlast, Path.along_cons path]

end Join

/-! ## The walker along relations -/

namespace Walker

/-- Steps that join as often as there are tokens, last along a path, and then fail because a column
is expected where the path ends at a table. -/
def EndsAtTable (key : String) (tokens : List String) (path : Path)
    (steps : List (Except LookupError Step)) : Prop :=
  ∃ (hops : List (Join × Relation)) (token entity : String),
    steps = hops.map Step.hop ++ [.error (.malformed key token (.endsAtTable entity))] ∧
      hops.length = tokens.length ∧ (hops.getLast?.map fun x => x.1.path) = some path

/-- The first of the steps that is no join has `n` before it: it is a column or an error. -/
def LeavesAt (n : Nat) (steps : List (Except LookupError Step)) : Prop :=
  (∀ m < n, ∃ x, steps[m]? = some (Step.hop x)) ∧
    ∃ step, steps[n]? = some step ∧
      ((∃ column field, step = .ok (.column column field)) ∨ ∃ e, step = .error e)

section Steps

variable {key : String} {tokens : List String} {steps : List (Except LookupError Step)}

/-- Steps end at one path only. -/
theorem EndsAtTable.unique {path path' : Path} (h : EndsAtTable key tokens path steps)
    (h' : EndsAtTable key tokens path' steps) : path = path' := by
  obtain ⟨hops, token, entity, rfl, -, hpath⟩ := h
  obtain ⟨hops', token', entity', hsteps, -, hpath'⟩ := h'
  have hmap : hops.map Step.hop = hops'.map Step.hop := (List.append_inj' hsteps rfl).1
  obtain rfl : hops = hops' := List.map_injective_iff.mpr Step.hop_injective hmap
  exact Option.some.inj (hpath.symm.trans hpath')

/-- Steps that join for every token do not leave the path at one of them. -/
theorem EndsAtTable.not_leavesAt {path : Path} {n : Nat} (h : EndsAtTable key tokens path steps)
    (hn : n < tokens.length) : ¬LeavesAt n steps := by
  rintro ⟨-, step, hstep, hleaves⟩
  obtain ⟨hops, token, entity, rfl, hlength, -⟩ := h
  have hlt : n < hops.length := by omega
  rw [List.getElem?_append_left (by simpa using hlt), List.getElem?_map,
    List.getElem?_eq_getElem hlt] at hstep
  obtain rfl : Step.hop hops[n] = step := Option.some.inj hstep
  rcases hleaves with ⟨column, field, hcolumn⟩ | ⟨e, herror⟩
  · cases hcolumn
  · cases herror

end Steps

variable {ctx : KeyContext} {e last : EntityId} {names : List String} {rs : List Relation}

/-- Over the names of relations the walker joins each of them, and goes on from the last. -/
theorem run_of_leads (h : ctx.schema.Leads e names rs last) (path : Path) (before : String)
    (tokens : List String) :
    ∃ token, ((walking e path before (names ++ tokens)).run ctx).1 =
      (Join.hops path rs).map Step.hop ++
        ((walking last (path.along rs) token tokens).run ctx).1 := by
  induction h generalizing path before with
  | here e => exact ⟨before, by simp [Join.hops, Join.along]⟩
  | @along e last name names r rs hname hr _ ih =>
    obtain ⟨token, hrun⟩ := ih (path.child r.id) name
    refine ⟨token, ?_⟩
    rw [List.cons_append, run_relation hname hr, hrun, Path.along_cons]
    rfl

/-- At a token that names no relation the walker has a step, which is no join. -/
theorem run_stuck {token : String} (h : ctx.schema.relationFrom? e token = none) (path : Path)
    (before : String) (tokens : List String) :
    ∃ step rest, ((walking e path before (token :: tokens)).run ctx).1 = step :: rest ∧
      ((∃ column field, step = .ok (.column column field)) ∨ ∃ e, step = .error e) := by
  by_cases hc : ∃ field, ctx.schema.NamesColumn e token field
  · obtain ⟨field, hc⟩ := hc
    exact ⟨_, _, run_column hc, Or.inl ⟨_, _, rfl⟩⟩
  · have ha := Schema.attributeOf?_eq_none (fun _ => h) hc
    obtain ⟨fault, -, hrun⟩ := run_nothing (fun _ => h) ha path before tokens
    exact ⟨_, _, hrun, Or.inr ⟨_, rfl⟩⟩

theorem endsAtTable_of_leads (h : ctx.schema.Leads e names rs last) (hne : names ≠ [])
    (before : String) :
    EndsAtTable ctx.key names (Path.root.along rs)
      ((walking e Path.root before names).run ctx).1 := by
  obtain ⟨token, hrun⟩ := run_of_leads h Path.root before []
  rw [List.append_nil, run_unended] at hrun
  have hlength : (Join.hops Path.root rs).length = names.length := by
    rw [Join.length_hops, h.length_eq]
  have hrs : rs ≠ [] := by
    rintro rfl
    exact hne (List.length_eq_zero_iff.mp hlength.symm)
  exact ⟨_, _, _, hrun, hlength, Join.getLast?_hops _ hrs⟩

theorem leavesAt_of_stuck (h : ctx.schema.Leads e names rs last) {token : String}
    (hnone : ctx.schema.relationFrom? last token = none) (path : Path) (before : String)
    (tokens : List String) :
    LeavesAt names.length ((walking e path before (names ++ token :: tokens)).run ctx).1 := by
  obtain ⟨before', hrun⟩ := run_of_leads h path before (token :: tokens)
  obtain ⟨step, rest, hstep, hleaves⟩ := run_stuck hnone (path.along rs) before' tokens
  have hlength : names.length = ((Join.hops path rs).map Step.hop).length := by
    simp [Join.length_hops, h.length_eq]
  rw [hrun, hstep, hlength]
  constructor
  · intro m hm
    have hlt : m < (Join.hops path rs).length := by simpa using hm
    refine ⟨(Join.hops path rs)[m], ?_⟩
    rw [List.getElem?_append_left hm, List.getElem?_map, List.getElem?_eq_getElem hlt]
    rfl
  · exact ⟨step, by simp, hleaves⟩

end Walker

/-! ## The path of a key -/

namespace Compiler

variable {c : Compiler} {e last : EntityId} {names : List String} {rs : List Relation}

theorem relationPath_of_leads (h : c.schema.Leads e names rs last) (key : String) (path : Path)
    (tokens : List String) :
    c.relationPath key e path (names ++ tokens) =
      c.relationPath key last (path.along rs) tokens := by
  induction h generalizing path with
  | here e => simp
  | along _ hr _ ih => rw [List.cons_append, relationPath, hr, Path.along_cons]; exact ih _

theorem relationPath_stuck {token : String} (h : c.schema.relationFrom? e token = none)
    (key : String) (path : Path) (tokens : List String) :
    c.relationPath key e path (token :: tokens) =
      .error (.malformed key token (.noRelation token (c.schema.entityName e))) := by
  rw [relationPath, h]

/-- Of a key without an empty token, the path of relations is found just if the walker of columns
joins once for each token, last along that path, and then fails for want of a column. A key that has
no such path is refused at a token, the first for which the walker finds a column or an error. -/
theorem relationPath_exact (c : Compiler) (root : EntityId) (key : String)
    (h : ∀ token ∈ Text.split c.settings.separator key, token ≠ "") :
    (∀ path, c.relationPath key root Path.root (Text.split c.settings.separator key) = .ok path ↔
        Walker.EndsAtTable key (Text.split c.settings.separator key) path
          ((Walker.start root key c.settings.separator).run (c.context key)).1) ∧
      ∀ error,
        c.relationPath key root Path.root (Text.split c.settings.separator key) = .error error →
          ∃ n token entity, (Text.split c.settings.separator key)[n]? = some token ∧
            error = .malformed key token (.noRelation token entity) ∧
              Walker.LeavesAt n
                ((Walker.start root key c.settings.separator).run (c.context key)).1 := by
  have hne := Text.split_ne_nil c.settings.separator key
  unfold Walker.start
  generalize Text.split c.settings.separator key = tokens at h hne
  rcases Schema.leads_or_stuck (s := c.schema) h root with
    ⟨rs, last, hl⟩ | ⟨front, token, back, rs, last, rfl, hl, hnone⟩
  · have hpath : c.relationPath key root Path.root tokens = .ok (Path.root.along rs) := by
      simpa [relationPath] using relationPath_of_leads hl key Path.root []
    have hleads : (c.context key).schema.Leads root tokens rs last := hl
    have hends := Walker.endsAtTable_of_leads hleads hne key
    rw [hpath]
    constructor
    · intro path
      constructor
      · rintro ⟨⟩
        exact hends
      · intro hends'
        rw [hends.unique hends']
    · intro error herror
      cases herror
  · have hpath := relationPath_stuck hnone key (Path.root.along rs) back
    rw [← relationPath_of_leads hl] at hpath
    have hleads : (c.context key).schema.Leads root front rs last := hl
    have hleaves := Walker.leavesAt_of_stuck hleads hnone Path.root key back
    rw [hpath]
    constructor
    · intro path
      constructor
      · intro hok
        cases hok
      · intro hends
        exact absurd hleaves (hends.not_leavesAt (by simp))
    · intro error herror
      cases herror
      exact ⟨front.length, token, _, by simp, rfl, hleaves⟩

/-- The owner of the blog of a post is found by both, and a field of that blog by neither. -/
theorem relationPath_of_owner :
    Walker.EndsAtTable "blog__owner" ["blog", "owner"] [⟨2⟩, ⟨0⟩]
        ((Walker.start ⟨2⟩ "blog__owner" "__").run
          ((ofSchema Blog.built).context "blog__owner")).1 ∧
      ∃ n token entity, ["blog", "name", "owner"][n]? = some token ∧
        LookupError.malformed "blog__name__owner" "name" (.noRelation "name" "Blog") =
          .malformed "blog__name__owner" token (.noRelation token entity) ∧
        Walker.LeavesAt n ((Walker.start ⟨2⟩ "blog__name__owner" "__").run
          ((ofSchema Blog.built).context "blog__name__owner")).1 := by
  have hfound : Text.split "__" "blog__owner" = ["blog", "owner"] := by decide +kernel
  have hlost : Text.split "__" "blog__name__owner" = ["blog", "name", "owner"] := by
    decide +kernel
  constructor
  · have h := (relationPath_exact (ofSchema Blog.built) ⟨2⟩ "blog__owner" (by decide +kernel)).1
    rw [show (ofSchema Blog.built).settings.separator = "__" from rfl, hfound] at h
    exact (h _).mp (by decide +kernel)
  · have h :=
      (relationPath_exact (ofSchema Blog.built) ⟨2⟩ "blog__name__owner" (by decide +kernel)).2
    rw [show (ofSchema Blog.built).settings.separator = "__" from rfl, hlost] at h
    exact h _ (by decide +kernel)

end Compiler

end FieldLookup
