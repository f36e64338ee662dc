import FieldLookup.Proofs.Consistency
import FieldLookup.Proofs.Derivation
import FieldLookup.Proofs.Joining
import FieldLookup.Proofs.OperatorTokens
import FieldLookup.Lookup.Compiler
import Mathlib

/-!
Keys that address the columns of a schema: the names of relations, of an attribute and of an
operator, joined by the separator. Main statement: `Compiler.resolve_join_iff`, such a key resolves
to the column and the operator just if joining keeps its tokens apart and none of the names is
empty.
-/
namespace FieldLookup

namespace Schema

/-- The relations to which names lead from an entity, whatever the names are, and the entity at
their end. -/
inductive Reaches (s : Schema) : EntityId → List String → List Relation → EntityId → Prop
  | here (e : EntityId) : Reaches s e [] [] e
  | along {e last : EntityId} {name : String} {names : List String} {r : Relation}
      {rs : List Relation} :
      s.relationFrom? e name = some r → Reaches s r.target names rs last →
        Reaches s e (name :: names) (r :: rs) last

variable {s : Schema} {e last : EntityId} {names : List String} {rs : List Relation}

theorem leads_iff : s.Leads e names rs last ↔ s.Reaches e names rs last ∧ "" ∉ names := by
  constructor
  · intro h
    induction h with
    | here e => exact ⟨.here e, List.not_mem_nil⟩
    | along hname hr _ ih =>
      exact ⟨.along hr ih.1, List.not_mem_cons_of_ne_of_not_mem hname.symm ih.2⟩
  · rintro ⟨h, hnames⟩
    induction h with
    | here e => exact .here e
    | along hr _ ih =>
      obtain ⟨hname, hnames⟩ := List.ne_and_not_mem_of_not_mem_cons hnames
      exact .along hname.symm hr (ih hnames)

/-- The names are those of the relations. -/
theorem Reaches.names_eq (hs : s.Consistent) (h : s.Reaches e names rs last) :
    names = rs.map (·.name) := by
  induction h with
  | here e => rfl
  | along hr _ ih => rw [List.map_cons, ← ih, (hs.relationFrom?_eq_some_iff.mp hr).2.2]

/-- The name of an attribute is that of no relation. -/
theorem Consistent.relationFrom?_eq_none (hs : s.Consistent) {name : String} {field : Attribute}
    (hfield : s.attributeOf? e name = some field) : s.relationFrom? e name = none := by
  obtain ⟨entity, he, hfield⟩ := Option.bind_eq_some_iff.mp hfield
  have hattribute : name ∈ entity.attributes.map (·.name) := by
    by_contra hnot
    rw [Entity.attribute?_eq_none_iff.mpr hnot] at hfield
    cases hfield
  have hnot : name ∉ entity.relations.map (·.1) := fun hmem =>
    List.disjoint_of_nodup_append (hs.apart entity (hs.entity?_eq_some_iff.mp he).1) hattribute hmem
  have hentity : s.relationFrom? e name = (entity.relation? name).bind s.relation? := by
    rw [relationFrom?, he]
    rfl
  rw [hentity, Entity.relation?_eq_none_iff.mpr hnot, Option.bind_none]

end Schema

/-! ## Tokens of a column -/

@[simp] theorem Join.map_name_along (path : Path) (rs : List Relation) :
    (Join.along path rs).map (·.name) = rs.map (·.name) := by
  induction rs generalizing path with
  | nil => rfl
  | cons r rs ih => rw [Join.along, List.map_cons, ih, List.map_cons]

namespace Resolved

/-- A column behind relations from the root, with an operator or none. -/
def behind (rs : List Relation) (e : EntityId) (field : Attribute) (op : Option Operator) :
    Resolved :=
  ⟨Join.along Path.root rs, ⟨Path.root.along rs, e, field.name⟩, field, op⟩

variable {ctx : KeyContext} {root : EntityId}

/-- What a key resolves to tells its tokens, up to the token of the operator. -/
theorem Derives.tokens_eq (hs : ctx.schema.Consistent) {tokens : List String} {r : Resolved}
    (h : Derives ctx root tokens r) :
    ∃ suffix, tokens = r.joins.map (·.name) ++ [r.column.name] ++ suffix ∧
      ctx.Ends suffix r.operator ∧ "" ∉ r.joins.map (·.name) ++ [r.column.name] := by
  obtain @⟨names, suffix, rs, e, name, field, op, hl, hc, hend⟩ := h
  obtain ⟨hreaches, hnames⟩ := Schema.leads_iff.mp hl
  rw [Join.map_name_along, ← hreaches.names_eq hs]
  refine ⟨suffix, List.append_cons names name suffix, hend, ?_⟩
  rw [List.mem_append, List.mem_singleton, not_or]
  exact ⟨hnames, hc.nonempty.symm⟩

/-- The column is derived from its tokens just if no name in front of the operator is empty. -/
theorem derives_behind_iff (hs : ctx.schema.Consistent) {names suffix : List String}
    {rs : List Relation} {e : EntityId} {field : Attribute} {op : Option Operator}
    (hr : ctx.schema.Reaches root names rs e)
    (hfield : ctx.schema.attributeOf? e field.name = some field) (hend : ctx.Ends suffix op) :
    Derives ctx root (names ++ [field.name] ++ suffix) (behind rs e field op) ↔
      "" ∉ names ++ [field.name] := by
  constructor
  · intro h
    obtain ⟨_, _, _, hnames⟩ := h.tokens_eq hs
    rwa [behind, Join.map_name_along, ← hr.names_eq hs] at hnames
  · intro h
    rw [List.mem_append, List.mem_singleton, not_or] at h
    have hc : ctx.schema.NamesColumn e field.name field :=
      ⟨Ne.symm h.2, hs.relationFrom?_eq_none hfield, hfield⟩
    rw [← List.append_cons]
    exact .intro (Schema.leads_iff.mpr ⟨hr, h.1⟩) hc hend

end Resolved

/-! ## Compilers -/

namespace Compiler

theorem ofSettings_eq_ok {schema : Schema} {settings : Settings} {c : Compiler}
    (h : ofSettings schema settings = .ok c) :
    settings.separator ≠ "" ∧ c.schema = schema ∧ c.settings = settings := by
  obtain ⟨_, hvalid, h⟩ := Checked.bind_eq_ok_iff.mp h
  obtain ⟨_, _, h⟩ := Checked.bind_eq_ok_iff.mp h
  cases h
  refine ⟨fun hempty => ?_, rfl, rfl⟩
  rw [Settings.validate, hempty] at hvalid
  cases hvalid

theorem ofSettings_standard (schema : Schema) :
    ofSettings schema Settings.standard = .ok (ofSchema schema) := by
  have hsorted : Settings.standard.aliases.sorted = [] := List.mergeSort_nil
  simp only [ofSettings, OperatorTable.ofSettings, hsorted]
  rfl

theorem resolve_eq_ok_iff {c : Compiler} {root : EntityId} {key : String} {r : Resolved} :
    c.resolve root key = .ok r ↔
      Resolved.Derives (c.context key) root (Text.split c.settings.separator key) r :=
  Resolved.ofKey_eq_ok_iff

/-- A column and what ends its key are resolved from their joined tokens just if joining keeps these
apart and no name in front of the operator is empty. -/
theorem resolve_join_append_iff {c : Compiler} {root e : EntityId} {names suffix : List String}
    {rs : List Relation} {field : Attribute} {op : Option Operator} (hs : c.schema.Consistent)
    (hsep : c.settings.separator ≠ "") (hr : c.schema.Reaches root names rs e)
    (hfield : c.schema.attributeOf? e field.name = some field)
    (hend : ∀ key, (c.context key).Ends suffix op) :
    c.resolve root (Text.join c.settings.separator (names ++ [field.name] ++ suffix)) =
        .ok (.behind rs e field op) ↔
      Text.Separable c.settings.separator (names ++ [field.name] ++ suffix) ∧
        "" ∉ names ++ [field.name] := by
  rw [resolve_eq_ok_iff, ← Text.split_join_iff hsep (by simp)]
  constructor
  · intro h
    obtain ⟨suffix', htokens, hend', hnames⟩ := h.tokens_eq hs
    rw [Resolved.behind, Join.map_name_along, ← hr.names_eq hs] at htokens hnames
    suffices suffix' = suffix from ⟨this ▸ htokens, hnames⟩
    -- two tokens may find one operator, but the key has only one text at its end
    have hjoin := Text.join_split hsep
      (Text.join c.settings.separator (names ++ [field.name] ++ suffix))
    rw [htokens] at hjoin
    cases hend "" with
    | column => cases hend'; rfl
    | operator _ =>
      cases hend' with
      | operator _ => rw [Text.eq_of_join_append_eq hjoin]
  · rintro ⟨hsplit, hnames⟩
    rw [hsplit]
    exact (Resolved.derives_behind_iff hs hr hfield (hend _)).mpr hnames

/-- The names of relations from the root on and that of an attribute, joined by the separator of a
compiler, resolve to the attribute's column without an operator just if joining keeps the names
apart and none is empty. The same holds of the column with an operator if a token that finds it is
joined behind them. -/
theorem resolve_join_iff {schema : Schema} {settings : Settings} {c : Compiler}
    {root e : EntityId} {names : List String} {rs : List Relation} {name : String}
    {field : Attribute} (hs : schema.Declared) (hc : ofSettings schema settings = .ok c)
    (hr : schema.Reaches root names rs e) (hfield : schema.attributeOf? e name = some field) :
    (c.resolve root (Text.join settings.separator (names ++ [name])) =
        .ok (.behind rs e field none) ↔
      Text.Separable settings.separator (names ++ [name]) ∧ "" ∉ names ++ [name]) ∧
    ∀ token op, c.operators.find? token = some op →
      (c.resolve root (Text.join settings.separator (names ++ [name, token])) =
          .ok (.behind rs e field (some op)) ↔
        Text.Separable settings.separator (names ++ [name, token]) ∧ "" ∉ names ++ [name]) := by
  obtain ⟨hsep, rfl, rfl⟩ := ofSettings_eq_ok hc
  obtain rfl := Schema.attributeOf?_name hfield
  refine ⟨?_, fun token op hop => ?_⟩
  · have hkey := resolve_join_append_iff hs.consistent hsep hr hfield fun _ => .column
    rwa [List.append_nil] at hkey
  · have hkey := resolve_join_append_iff hs.consistent hsep hr hfield fun _ => .operator hop
    rwa [List.append_assoc] at hkey

/-- The theorem at the name of the owner of a post's blog. -/
theorem resolve_join_iff_owner :
    ∃ rs c, Blog.built.Declared ∧ ofSettings Blog.built Settings.standard = .ok c ∧
      Blog.built.Reaches ⟨2⟩ ["blog", "owner"] rs ⟨0⟩ ∧
        Blog.built.attributeOf? ⟨0⟩ "name" = some (Blog.field "name" .text) ∧
        c.operators.find? "icontains" = some .icontains ∧
          c.resolve ⟨2⟩ (Text.join "__" ["blog", "owner", "name"]) =
            .ok (.behind rs ⟨0⟩ (Blog.field "name" .text) none) ∧
          c.resolve ⟨2⟩ (Text.join "__" ["blog", "owner", "name", "icontains"]) =
            .ok (.behind rs ⟨0⟩ (Blog.field "name" .text) (some .icontains)) := by
  have hc := ofSettings_standard Blog.built
  have hr : Blog.built.Reaches ⟨2⟩ ["blog", "owner"] _ ⟨0⟩ := .along rfl (.along rfl (.here _))
  have hop : (ofSchema Blog.built).operators.find? "icontains" = some .icontains :=
    OperatorTable.find?_standard _
  have hfield : Blog.built.attributeOf? ⟨0⟩ "name" = some (Blog.field "name" .text) := rfl
  have hsplit : Text.Separable "__" ["blog", "owner", "name"] :=
    (Text.split_join_iff (by decide) (by simp)).mp (by cbv)
  have hsplit' : Text.Separable "__" ["blog", "owner", "name", "icontains"] :=
    (Text.split_join_iff (by decide) (by simp)).mp (by cbv)
  obtain ⟨hcolumn, hoperator⟩ := resolve_join_iff Blog.declared_built hc hr hfield
  exact ⟨_, _, Blog.declared_built, hc, hr, hfield, hop, hcolumn.mpr ⟨hsplit, by decide⟩,
    (hoperator _ _ hop).mpr ⟨hsplit', by decide⟩⟩

/-- Documents with an attribute that ends in half a separator. -/
def docDeclarations : List Declaration := [.entity "Doc" [Blog.field "a_" .text]]

/-- A separator behind an attribute that ends in half of one is found half a separator too early. -/
theorem resolve_join_overlap :
    ∃ schema, (Draft.ofDeclarations docDeclarations).build = .ok schema ∧
      ofSettings schema Settings.standard = .ok (ofSchema schema) ∧
        schema.Reaches ⟨0⟩ [] [] ⟨0⟩ ∧
        schema.attributeOf? ⟨0⟩ "a_" = some (Blog.field "a_" .text) ∧
        (ofSchema schema).operators.find? "eq" = some .eq ∧
          (ofSchema schema).resolve ⟨0⟩ (Text.join "__" ["a_", "eq"]) =
            .error (.malformed "a___eq" "a" (.noField "a" "Doc")) := by
  refine ⟨⟨[⟨⟨0⟩, "Doc", [Blog.field "a_" .text], []⟩], [("Doc", ⟨0⟩)], []⟩, rfl,
    ofSettings_standard _, .here _, rfl, OperatorTable.find?_standard _, ?_⟩
  cbv

end Compiler

end FieldLookup
