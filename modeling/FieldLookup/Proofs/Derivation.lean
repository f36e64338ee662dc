import FieldLookup.Lookup.Resolution
import Mathlib.Data.List.Infix

/-!
The grammar of keys: names of relations, each leaving the entity that those before it reach, then an
attribute of the entity reached last, then at most one token of an operator. Main statement:
`ofKey_exact`, a key resolves just if its tokens derive a column, and then to what they derive; any
other key is malformed at one of its tokens.
-/
namespace FieldLookup

/-! ## What tokens derive -/

/-- The relations that names lead along from an entity, and the entity at their end. -/
inductive Schema.Leads (s : Schema) : EntityId → List String → List Relation → EntityId → Prop
  | here (e : EntityId) : Leads s e [] [] e
  | along {e last : EntityId} {name : String} {names : List String} {r : Relation}
      {rs : List Relation} :
      name ≠ "" → s.relationFrom? e name = some r → Leads s r.target names rs last →
        Leads s e (name :: names) (r :: rs) last

/-- A name of an entity that stands for an attribute and not for a relation. -/
structure Schema.NamesColumn (s : Schema) (e : EntityId) (name : String) (field : Attribute) :
    Prop where
  nonempty : name ≠ ""
  noRelation : s.relationFrom? e name = none
  found : s.attributeOf? e name = some field

/-- The path that follows relations. -/
def Path.along (path : Path) (rs : List Relation) : Path := path ++ rs.map (·.id)

/-- A join along each relation, one behind the other. -/
def Join.along (path : Path) : List Relation → List Join
  | [] => []
  | r :: rs => ⟨path.child r.id, r.id, r.name, r.target⟩ :: Join.along (path.child r.id) rs

/-- What may follow a column: nothing, or the token of an operator. -/
inductive KeyContext.Ends (ctx : KeyContext) : List String → Option Operator → Prop
  | column : Ends ctx [] none
  | operator {token : String} {op : Operator} :
      ctx.operators.find? token = some op → Ends ctx [token] (some op)

/-- Relations from the root on, a column, and an operator or none. -/
inductive Resolved.Derives (ctx : KeyContext) (root : EntityId) : List String → Resolved → Prop
  | intro {names suffix : List String} {rs : List Relation} {e : EntityId} {name : String}
      {field : Attribute} {op : Option Operator} :
      ctx.schema.Leads root names rs e → ctx.schema.NamesColumn e name field →
        ctx.Ends suffix op →
          Derives ctx root (names ++ name :: suffix)
            ⟨Join.along Path.root rs, ⟨Path.root.along rs, e, name⟩, field, op⟩

theorem Schema.attributeOf?_name {s : Schema} {e : EntityId} {name : String} {field : Attribute}
    (h : s.attributeOf? e name = some field) : field.name = name := by
  obtain ⟨entity, _, hf⟩ := Option.bind_eq_some_iff.mp h
  simpa using List.find?_some hf

/-- A nonempty name that stands for neither a column nor a relation is that of no attribute. -/
theorem Schema.attributeOf?_eq_none {s : Schema} {e : EntityId} {name : String}
    (hr : name ≠ "" → s.relationFrom? e name = none) (hc : ¬∃ field, s.NamesColumn e name field)
    (hname : name ≠ "") : s.attributeOf? e name = none := by
  by_contra ha
  obtain ⟨field, hfield⟩ := Option.ne_none_iff_exists'.mp ha
  exact hc ⟨field, hname, hr hname, hfield⟩

@[simp] theorem Path.along_nil (path : Path) : path.along [] = path := List.append_nil path

@[simp] theorem Path.along_cons (path : Path) (r : Relation) (rs : List Relation) :
    path.along (r :: rs) = (path.child r.id).along rs := by
  simp [Path.along, Path.child]

/-- The paths joined are the nonempty fronts of the whole path. -/
theorem Join.map_path_along (path : Path) (rs : List Relation) :
    (Join.along path rs).map (·.path) = ((rs.map (·.id)).inits.tail).map (path ++ ·) := by
  induction rs generalizing path with
  | nil => rfl
  | cons r rs ih =>
    have hinits (ids : List RelationId) : ids.inits = [] :: ids.inits.tail := by
      cases ids <;> rfl
    rw [Join.along, List.map_cons, ih, List.map_cons, List.inits_cons, List.tail_cons,
      hinits (rs.map _)]
    simp [Path.child, Function.comp_def]

/-! ## The steps of a walker -/

namespace Walker

variable {ctx : KeyContext}

theorem run_of_next? {w v : Walker} {r : Except LookupError Step}
    (h : w.next? ctx = some (r, v)) : (w.run ctx).1 = r :: (v.run ctx).1 := by
  rw [run]
  split
  · next hn => rw [h] at hn; cases hn
  · next hn => rw [h] at hn; cases hn; rfl

theorem run_of_next?_none {w : Walker} (h : w.next? ctx = none) : (w.run ctx).1 = [] := by
  rw [run]
  split
  · rfl
  · next hn => rw [h] at hn; cases hn

@[simp] theorem run_done : (done.run ctx).1 = [] := run_of_next?_none rfl

theorem run_relation {e : EntityId} {path : Path} {last name : String} {tokens : List String}
    {r : Relation} (hname : name ≠ "") (hr : ctx.schema.relationFrom? e name = some r) :
    ((walking e path last (name :: tokens)).run ctx).1 =
      .ok (.join ⟨path.child r.id, r.id, r.name, r.target⟩ r) ::
        ((walking r.target (path.child r.id) name tokens).run ctx).1 :=
  run_of_next? (by simp [next?, walk, hname, hr])

theorem run_column {e : EntityId} {path : Path} {last name : String} {tokens : List String}
    {field : Attribute} (h : ctx.schema.NamesColumn e name field) :
    ((walking e path last (name :: tokens)).run ctx).1 =
      .ok (.column ⟨path, e, name⟩ field) :: ((atColumn tokens).run ctx).1 :=
  run_of_next? (by
    simp [next?, walk, h.nonempty, h.noRelation, h.found, Schema.attributeOf?_name h.found])

/-- A token that names neither a relation nor a column is an error at that token. -/
theorem run_nothing {e : EntityId} {name : String}
    (hr : name ≠ "" → ctx.schema.relationFrom? e name = none)
    (ha : name ≠ "" → ctx.schema.attributeOf? e name = none) (path : Path) (last : String)
    (tokens : List String) :
    ∃ fault, fault ≠ .columnExpected ∧
      ((walking e path last (name :: tokens)).run ctx).1 =
        [.error (.malformed ctx.key name fault)] := by
  by_cases hname : name = ""
  · subst hname
    exact ⟨.emptySegment, by simp, by rw [run_of_next? (v := done) rfl, run_done]⟩
  · refine ⟨if ctx.operators.contains name then .operatorBeforeColumn (ctx.schema.entityName e)
      else .noField name (ctx.schema.entityName e), by split <;> simp, ?_⟩
    rw [run_of_next? (v := done)
      (by simp only [next?, walk, hr hname, ha hname, String.isEmpty_iff, hname]; rfl), run_done]

theorem run_unended {e : EntityId} {path : Path} {last : String} :
    ((walking e path last []).run ctx).1 =
      [.error (.malformed ctx.key last (.endsAtTable (ctx.schema.entityName e)))] := by
  rw [run_of_next? (v := done) rfl, run_done]

theorem run_ended {tokens : List String} {op : Option Operator} (h : ctx.Ends tokens op) :
    ((atColumn tokens).run ctx).1 = op.toList.map fun op => .ok (.operator op) := by
  cases h with
  | column => exact run_of_next?_none rfl
  | @operator token op hop =>
    rw [run_of_next? (r := .ok (.operator op)) (v := afterOperator []) (by simp [next?, hop]),
      run_of_next?_none rfl]
    rfl

/-- Tokens behind a column end the key, or one of them is an error. -/
theorem ends_or_run_error (ctx : KeyContext) (tokens : List String) :
    (∃ op, ctx.Ends tokens op) ∨
      ∃ token ∈ tokens, ∃ fault, fault ≠ .columnExpected ∧
        ∃ front, (∀ r ∈ front, ∃ op, r = .ok (.operator op)) ∧
          ((atColumn tokens).run ctx).1 =
            front ++ [.error (.malformed ctx.key token fault)] := by
  cases tokens with
  | nil => exact Or.inl ⟨none, .column⟩
  | cons token tokens =>
    cases hop : ctx.operators.find? token with
    | none =>
      refine Or.inr ⟨token, by simp, .unknownOperator token, by simp, [], by simp, ?_⟩
      rw [run_of_next? (v := done) (by simp only [next?, hop]; rfl), run_done]
      rfl
    | some op =>
      have hstep : ((atColumn (token :: tokens)).run ctx).1 =
          .ok (.operator op) :: ((afterOperator tokens).run ctx).1 :=
        run_of_next? (by simp [next?, hop])
      cases tokens with
      | nil => exact Or.inl ⟨some op, .operator hop⟩
      | cons extra tokens =>
        refine Or.inr ⟨extra, by simp, .afterOperator, by simp, [.ok (.operator op)], by simp, ?_⟩
        rw [hstep, run_of_next? (v := done) rfl, run_done]
        rfl

/-! ## Calls for steps -/

/-- What a walker answers to the call for a step after `n` earlier calls. -/
def call (ctx : KeyContext) (w : Walker) : Nat → Option (Except LookupError Step)
  | 0 => (w.next? ctx).map (·.1)
  | n + 1 =>
    match w.next? ctx with
    | some (_, v) => v.call ctx n
    | none => w.call ctx n

theorem call_of_next?_none {w : Walker} (h : w.next? ctx = none) (n : Nat) :
    w.call ctx n = none := by
  induction n with
  | zero => simp [call, h]
  | succ n ih => simp [call, h, ih]

theorem eq_done_of_next?_error {w v : Walker} {e : LookupError}
    (h : w.next? ctx = some (.error e, v)) : v = done := by
  unfold next? at h
  split at h
  · unfold walk fail at h
    repeat' split at h
    all_goals cases h
    all_goals rfl
  · cases h
    rfl
  · cases h
  · unfold fail at h
    split at h <;> cases h
    rfl
  · cases h
  · cases h
    rfl
  · cases h

/-- The steps of a run are the answers to calls, and no further call is answered. -/
theorem getElem?_run (w : Walker) (n : Nat) : (w.run ctx).1[n]? = w.call ctx n := by
  induction n generalizing w with
  | zero =>
    cases h : w.next? ctx with
    | none => simp [run_of_next?_none h, call, h]
    | some step => simp [run_of_next? h, call, h]
  | succ n ih =>
    cases h : w.next? ctx with
    | none => rw [run_of_next?_none h, call_of_next?_none h]; rfl
    | some step => simp [run_of_next? h, call, h, ih]

/-- After a call that yields no step, no call is answered. -/
theorem call_eq_none_of_lt {w : Walker} {m n : Nat} (hlt : m < n)
    (hm : ∀ step, w.call ctx m ≠ some (.ok step)) : w.call ctx n = none := by
  obtain ⟨n, rfl⟩ : ∃ k, n = k + 1 := ⟨n - 1, by omega⟩
  induction m generalizing w n with
  | zero =>
    cases h : w.next? ctx with
    | none => exact call_of_next?_none h _
    | some next =>
      obtain ⟨r, v⟩ := next
      cases r with
      | ok step => exact absurd (by simp [call, h]) (hm step)
      | error e =>
        rw [call, h, eq_done_of_next?_error h]
        exact call_of_next?_none rfl n
  | succ m ih =>
    cases h : w.next? ctx with
    | none => exact call_of_next?_none h _
    | some next =>
      obtain ⟨n, rfl⟩ : ∃ k, n = k + 1 := ⟨n - 1, by omega⟩
      simp only [call, h] at hm ⊢
      exact ih hm n (by omega)

end Walker

/-! ## Resolution -/

namespace Resolved

variable {ctx : KeyContext}

theorem collect_append_error {key : String} {p : Partly} {front : List (Except LookupError Step)}
    {e : LookupError} (h : ∀ r ∈ front, ∃ step, r = .ok step) :
    collect key p (front ++ [.error e]) = .error e := by
  induction front generalizing p with
  | nil => rfl
  | cons r front ih =>
    obtain ⟨step, rfl⟩ := h r (by simp)
    exact ih fun r hr => h r (by simp [hr])

theorem collect_column {e : EntityId} {path : Path} {last name : String} {suffix : List String}
    {field : Attribute} {op : Option Operator} {p : Partly}
    (hc : ctx.schema.NamesColumn e name field) (hend : ctx.Ends suffix op)
    (hp : p.operator = none) :
    collect ctx.key p ((Walker.walking e path last (name :: suffix)).run ctx).1 =
      .ok ⟨p.joins, ⟨path, e, name⟩, field, op⟩ := by
  rw [Walker.run_column hc, Walker.run_ended hend]
  cases hend <;> simp [collect, Partly.add, hp]

/-- Tokens that derive a column resolve to it. -/
theorem collect_of_leads {e last : EntityId} {names : List String} {rs : List Relation}
    (h : ctx.schema.Leads e names rs last) {path : Path} {before name : String}
    {suffix : List String} {field : Attribute} {op : Option Operator} {p : Partly}
    (hc : ctx.schema.NamesColumn last name field) (hend : ctx.Ends suffix op)
    (hp : p.operator = none) :
    collect ctx.key p ((Walker.walking e path before (names ++ name :: suffix)).run ctx).1 =
      .ok ⟨p.joins ++ Join.along path rs, ⟨path.along rs, last, name⟩, field, op⟩ := by
  induction h generalizing path before p with
  | here e => simpa [Join.along] using collect_column hc hend hp
  | along hname hr _ ih =>
    rw [List.cons_append, Walker.run_relation hname hr, collect, ih hc (p := p.add (.join _ _)) hp]
    simp [Join.along, Partly.add]

theorem collect_of_derives {root : EntityId} {tokens : List String} {r : Resolved}
    (h : Derives ctx root tokens r) (last : String) :
    collect ctx.key ⟨[], none, none⟩
      ((Walker.walking root Path.root last tokens).run ctx).1 = .ok r := by
  obtain ⟨hl, hc, hend⟩ := h
  simpa using collect_of_leads hl (p := ⟨[], none, none⟩) hc hend rfl

theorem exists_derives_of_relation {e : EntityId} {name : String} {tokens : List String}
    {r : Relation} (hname : name ≠ "") (hr : ctx.schema.relationFrom? e name = some r)
    (h : ∃ x, Derives ctx r.target tokens x) : ∃ x, Derives ctx e (name :: tokens) x := by
  obtain ⟨_, hl, hc, hend⟩ := h
  exact ⟨_, .intro (.along hname hr hl) hc hend⟩

/-- The failure of a key at one of some tokens. -/
def Malformed (ctx : KeyContext) (tokens : List String) (r : Except LookupError Resolved) : Prop :=
  ∃ token ∈ tokens, ∃ fault, fault ≠ .columnExpected ∧
    r = .error (.malformed ctx.key token fault)

/-- A token that names no relation is a column, and the tokens behind it end the key, or one of them
is at fault. -/
theorem derives_or_malformed_of_noRelation {e : EntityId} {name : String}
    (hr : name ≠ "" → ctx.schema.relationFrom? e name = none) (tokens : List String)
    (path : Path) (last : String) (p : Partly) :
    (∃ x, Derives ctx e (name :: tokens) x) ∨
      Malformed ctx (name :: tokens)
        (collect ctx.key p ((Walker.walking e path last (name :: tokens)).run ctx).1) := by
  by_cases hc : ∃ field, ctx.schema.NamesColumn e name field
  · obtain ⟨field, hc⟩ := hc
    rcases Walker.ends_or_run_error ctx tokens with
      ⟨op, hend⟩ | ⟨token, ht, fault, hf, front, ho, hrun⟩
    · exact Or.inl ⟨_, .intro (.here e) hc hend⟩
    · refine Or.inr ⟨token, List.mem_cons_of_mem _ ht, fault, hf, ?_⟩
      rw [Walker.run_column hc, hrun, collect]
      refine collect_append_error fun r hr => ?_
      obtain ⟨op, rfl⟩ := ho r hr
      exact ⟨_, rfl⟩
  · have ha := Schema.attributeOf?_eq_none hr hc
    obtain ⟨fault, hf, hrun⟩ := Walker.run_nothing hr ha path last tokens
    exact Or.inr ⟨name, by simp, fault, hf, by rw [hrun, collect]⟩

/-- Tokens derive a column, or one of them is at fault. -/
theorem derives_or_malformed (tokens : List String) (e : EntityId) (path : Path)
    (last name : String) (p : Partly) :
    (∃ x, Derives ctx e (name :: tokens) x) ∨
      Malformed ctx (name :: tokens)
        (collect ctx.key p ((Walker.walking e path last (name :: tokens)).run ctx).1) := by
  induction tokens generalizing e path last name p with
  | nil =>
    by_cases hnone : name ≠ "" → ctx.schema.relationFrom? e name = none
    · exact derives_or_malformed_of_noRelation hnone [] path last p
    · obtain ⟨hname, hsome⟩ := Classical.not_imp.mp hnone
      obtain ⟨r, hr⟩ := Option.ne_none_iff_exists'.mp hsome
      refine Or.inr ⟨name, by simp, .endsAtTable (ctx.schema.entityName r.target), by simp, ?_⟩
      rw [Walker.run_relation hname hr, collect, Walker.run_unended, collect]
  | cons token tokens ih =>
    by_cases hnone : name ≠ "" → ctx.schema.relationFrom? e name = none
    · exact derives_or_malformed_of_noRelation hnone (token :: tokens) path last p
    · obtain ⟨hname, hsome⟩ := Classical.not_imp.mp hnone
      obtain ⟨r, hr⟩ := Option.ne_none_iff_exists'.mp hsome
      rcases ih r.target (path.child r.id) name token (p.add (.join _ r)) with hd | ⟨t, ht, hf⟩
      · exact Or.inl (exists_derives_of_relation hname hr hd)
      · refine Or.inr ⟨t, List.mem_cons_of_mem _ ht, ?_⟩
        rwa [Walker.run_relation hname hr, collect]

theorem ofKey_of_derives {root : EntityId} {separator : String} {r : Resolved}
    (h : Derives ctx root (Text.split separator ctx.key) r) : ofKey ctx root separator = .ok r :=
  collect_of_derives h ctx.key

theorem derives_or_ofKey_malformed (ctx : KeyContext) (root : EntityId) (separator : String) :
    (∃ r, Derives ctx root (Text.split separator ctx.key) r) ∨
      Malformed ctx (Text.split separator ctx.key) (ofKey ctx root separator) := by
  unfold ofKey Walker.start
  cases h : Text.split separator ctx.key with
  | nil => exact absurd h (Text.split_ne_nil _ _)
  | cons name tokens => exact derives_or_malformed tokens root Path.root ctx.key name _

theorem ofKey_eq_ok_iff {root : EntityId} {separator : String} {r : Resolved} :
    ofKey ctx root separator = .ok r ↔ Derives ctx root (Text.split separator ctx.key) r := by
  refine ⟨fun h => ?_, ofKey_of_derives⟩
  rcases derives_or_ofKey_malformed ctx root separator with ⟨x, hx⟩ | ⟨t, _, fault, _, hm⟩
  · have hx' := ofKey_of_derives hx
    rw [h] at hx'
    cases hx'
    exact hx
  · rw [h] at hm
    cases hm

/-- The joins of a key that resolves are one for each nonempty front of its path. -/
theorem Derives.map_path_joins {root : EntityId} {tokens : List String} {r : Resolved}
    (h : Derives ctx root tokens r) : r.joins.map (·.path) = r.column.path.inits.tail := by
  obtain ⟨_, _, _⟩ := h
  simp [Join.map_path_along, Path.along, Path.root]

/-- The last token names the column or, if there is an operator, finds it. -/
theorem Derives.getLast? {root : EntityId} {tokens : List String} {r : Resolved}
    (h : Derives ctx root tokens r) {token : String} (htoken : tokens.getLast? = some token) :
    (r.operator = none ∧ r.column.name = token) ∨
      ∃ op, r.operator = some op ∧ ctx.operators.find? token = some op := by
  obtain ⟨_, _, hend⟩ := h
  cases hend with
  | column => exact Or.inl ⟨rfl, by simpa using htoken⟩
  | operator hfind =>
    obtain rfl : _ = token := by simpa using htoken
    exact Or.inr ⟨_, rfl, hfind⟩

/-- The operator of a key is found by the last token. -/
theorem exists_token_of_operator {root : EntityId} {separator : String} {r : Resolved}
    {op : Operator} (hr : ofKey ctx root separator = .ok r) (hop : r.operator = some op) :
    ∃ token, (Text.split separator ctx.key).getLast? = some token ∧
      ctx.operators.find? token = some op := by
  have hlast := List.getLast?_eq_some_getLast (Text.split_ne_nil separator ctx.key)
  refine ⟨_, hlast, ?_⟩
  rcases (ofKey_eq_ok_iff.mp hr).getLast? hlast with ⟨hnone, -⟩ | ⟨op', hop', hfind⟩
  · rw [hop] at hnone
    cases hnone
  · rw [hop] at hop'
    cases hop'
    exact hfind

theorem collect_of_no_column {key : String} {p : Partly} {steps : List (Except LookupError Step)}
    (hp : p.terminal = none)
    (h : ∀ step ∈ steps, ¬((∃ e, step = .error e) ∨ ∃ c field, step = .ok (.column c field))) :
    collect key p steps = .error (.malformed key key .columnExpected) := by
  induction steps generalizing p with
  | nil => simp [collect, hp]
  | cons step steps ih =>
    have hstep := h step (by simp)
    have hrest := fun step hs => h step (List.mem_cons_of_mem _ hs)
    cases step with
    | error e => exact absurd (Or.inl ⟨e, rfl⟩) hstep
    | ok s =>
      cases s with
      | column c field => exact absurd (Or.inr ⟨c, field, rfl⟩) hstep
      | join j r => exact ih (p := p.add (.join j r)) hp hrest
      | operator op => exact ih (p := p.add (.operator op)) hp hrest

/-- Steps without an error hold a column, so that a key never ends without one. -/
theorem exists_error_or_column (ctx : KeyContext) (root : EntityId) (separator : String) :
    ∃ step ∈ ((Walker.start root ctx.key separator).run ctx).1,
      (∃ e, step = .error e) ∨ ∃ c field, step = .ok (.column c field) := by
  by_contra h
  have hfail : ofKey ctx root separator = .error (.malformed ctx.key ctx.key .columnExpected) :=
    collect_of_no_column rfl fun step hs hc => h ⟨step, hs, hc⟩
  rcases derives_or_ofKey_malformed ctx root separator with ⟨r, hr⟩ | ⟨t, _, fault, hf, hm⟩
  · rw [ofKey_of_derives hr] at hfail
    cases hfail
  · rw [hfail] at hm
    cases hm
    exact hf rfl

/-- A key resolves just if its tokens derive a column. Any other key is malformed at one of its
tokens, but never for want of a column at its end; and a walker that has once failed to yield a step
answers no further call. -/
theorem ofKey_exact (ctx : KeyContext) (root : EntityId) (separator : String) :
    (∀ r, ofKey ctx root separator = .ok r ↔
        Derives ctx root (Text.split separator ctx.key) r) ∧
      (∀ r, ofKey ctx root separator = .ok r →
        r.joins.map (·.path) = r.column.path.inits.tail) ∧
      ((∀ r, ¬Derives ctx root (Text.split separator ctx.key) r) →
        Malformed ctx (Text.split separator ctx.key) (ofKey ctx root separator)) ∧
      (∃ step ∈ ((Walker.start root ctx.key separator).run ctx).1,
        (∃ e, step = .error e) ∨ ∃ c field, step = .ok (.column c field)) ∧
      (∀ n, ((Walker.start root ctx.key separator).run ctx).1[n]? =
        (Walker.start root ctx.key separator).call ctx n) ∧
      ∀ m n, m < n →
        (∀ step, (Walker.start root ctx.key separator).call ctx m ≠ some (.ok step)) →
          (Walker.start root ctx.key separator).call ctx n = none := by
  refine ⟨fun r => ofKey_eq_ok_iff, fun r h => (ofKey_eq_ok_iff.mp h).map_path_joins, fun h => ?_,
    exists_error_or_column ctx root separator, Walker.getElem?_run _,
    fun m n => Walker.call_eq_none_of_lt⟩
  exact (derives_or_ofKey_malformed ctx root separator).resolve_left fun ⟨r, hr⟩ => h r hr

end Resolved

end FieldLookup
