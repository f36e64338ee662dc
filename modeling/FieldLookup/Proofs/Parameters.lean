import FieldLookup.Lookup.Compiler
import FieldLookup.Proofs.Declared
import FieldLookup.Proofs.Derivation
import FieldLookup.Proofs.OperatorTokens
import FieldLookup.Proofs.Splitting
import Mathlib

/-!
What a parameter of a request is read as. Main statements: `accepts_iff`, which keys an allow-list
lets through, and `reads_iff`, when the text of a parameter is split as the operator of its key asks
for.
-/
namespace FieldLookup.Request

/-- The request of one lookup. -/
def single (key : String) (v : Value) : Request := ⟨Ordered.empty.insert key v, []⟩

theorem single_injective (key : String) : Function.Injective (single key) := by
  intro v w h
  have hget : (Ordered.empty.insert key v).get? key = (Ordered.empty.insert key w).get? key :=
    congrArg (·.lookups.get? key) h
  simpa using hget

/-- A parameter that is not reserved is a lookup, if its key is allowed and its value is read. -/
theorem ofParameters_one {separator key : String} (horder : key ≠ orderParameter)
    (hpage : key ∉ pageParameters) (allowed : Option (List String)) (raw : String) :
    ofParameters separator allowed [(key, raw)] =
      if allowed.all fun fields => fields.any (permits separator key) then
        (rawValue separator key raw).map (single key)
      else .error (.notAllowed key) := by
  have hfold : ofParameters separator allowed [(key, raw)] =
      addParameter separator allowed empty key raw >>= pure := rfl
  rw [hfold, bind_pure, addParameter, if_neg horder, if_neg hpage]
  rfl

/-! ## Allowed keys -/

/-- No error says that the key of a parameter is not allowed. -/
def Accepts (separator : String) (fields : List String) (key raw : String) : Prop :=
  ofParameters separator (some fields) [(key, raw)] ≠ .error (.notAllowed key)

theorem rawValue_ne_notAllowed {separator key raw other : String} :
    rawValue separator key raw ≠ .error (.notAllowed other) := by
  unfold rawValue
  dsimp only
  repeat' split
  all_goals simp

theorem accepts_iff_permits {separator key : String} (horder : key ≠ orderParameter)
    (hpage : key ∉ pageParameters) (fields : List String) (raw : String) :
    Accepts separator fields key raw ↔ ∃ field ∈ fields, permits separator key field = true := by
  rw [Accepts, ofParameters_one horder hpage, Option.all_some, ← List.any_eq_true]
  split
  · next h =>
    refine iff_of_true (fun he => ?_) h
    cases hv : rawValue separator key raw with
    | ok v => rw [hv] at he; cases he
    | error e =>
      rw [hv] at he
      cases he
      exact rawValue_ne_notAllowed hv
  · next h => exact iff_of_false (fun hne => hne rfl) h

theorem permits_iff {separator key field : String} :
    permits separator key field = true ↔
      key = field ∨ ∃ more, key = field ++ separator ++ more := by
  rw [permits, Bool.or_eq_true, decide_eq_true_eq, ← Text.append_isPrefix_toList_iff]
  refine or_congr_right ?_
  cases hfield : Text.dropFront? field.toList key.toList with
  | none =>
    refine iff_of_false Bool.false_ne_true ?_
    rintro ⟨more, hmore⟩
    rw [List.append_assoc] at hmore
    rw [Text.dropFront?_eq_some_iff.mpr hmore.symm] at hfield
    cases hfield
  | some rest =>
    rw [Text.dropFront?_eq_some_iff] at hfield
    rw [hfield, List.prefix_append_right_inj, Option.isSome_iff_exists]
    exact exists_congr fun more => Text.dropFront?_eq_some_iff.trans eq_comm

/-- A field permits the keys whose tokens start with its own, and those where it is followed by a
separator that is found earlier, across the end of the field. -/
theorem permits_iff_split {separator key field : String} (hsep : separator ≠ "") :
    permits separator key field = true ↔
      Text.split separator field <+: Text.split separator key ∨
        ¬Text.SplitsAfter separator field ∧ ∃ more, key = field ++ separator ++ more := by
  rw [permits_iff, Text.split_isPrefix_iff hsep]
  tauto

/-- An allow-list lets a key through just if the key's tokens start with those of a listed field, or
if a listed field and a separator that overlaps its end start the key. If no listed field overlaps
the separator, the tokens alone decide, and a key that is let through resolves to what the tokens of
a listed field and others behind them derive. -/
theorem accepts_iff {separator key : String} (hsep : separator ≠ "") (horder : key ≠ orderParameter)
    (hpage : key ∉ pageParameters) (fields : List String) (raw : String) :
    (Accepts separator fields key raw ↔
        ∃ field ∈ fields, Text.split separator field <+: Text.split separator key ∨
          ¬Text.SplitsAfter separator field ∧ ∃ more, key = field ++ separator ++ more) ∧
      ((∀ field ∈ fields, Text.SplitsAfter separator field) →
        (Accepts separator fields key raw ↔
          ∃ field ∈ fields, Text.split separator field <+: Text.split separator key) ∧
        ∀ schema operators root r, Accepts separator fields key raw →
          Resolved.ofKey ⟨schema, operators, key⟩ root separator = .ok r →
            ∃ field ∈ fields, ∃ more,
              Resolved.Derives ⟨schema, operators, key⟩ root
                (Text.split separator field ++ more) r) := by
  have hexact : Accepts separator fields key raw ↔
      ∃ field ∈ fields, Text.split separator field <+: Text.split separator key ∨
        ¬Text.SplitsAfter separator field ∧ ∃ more, key = field ++ separator ++ more := by
    simp only [accepts_iff_permits horder hpage, permits_iff_split hsep]
  refine ⟨hexact, fun hclear => ?_⟩
  have htokens : Accepts separator fields key raw ↔
      ∃ field ∈ fields, Text.split separator field <+: Text.split separator key := by
    rw [hexact]
    refine exists_congr fun field => and_congr_right fun hfield => or_iff_left ?_
    exact fun h => h.1 (hclear field hfield)
  refine ⟨htokens, fun schema operators root r haccepts hr => ?_⟩
  obtain ⟨field, hfield, more, hmore⟩ := htokens.mp haccepts
  exact ⟨field, hfield, more, hmore ▸ Resolved.ofKey_eq_ok_iff.mp hr⟩

/-- The theorem at a key of the blog that goes on from a listed field. -/
theorem accepts_iff_name :
    "__" ≠ "" ∧ "blog__name__in" ≠ orderParameter ∧ "blog__name__in" ∉ pageParameters ∧
      Accepts "__" ["title", "blog__name"] "blog__name__in" "a,b" := by
  refine ⟨by decide, by decide, by decide, ?_⟩
  have hfield : Text.split "__" "blog__name" = ["blog", "name"] := by cbv
  have hkey : Text.split "__" "blog__name__in" = ["blog", "name", "in"] := by cbv
  refine (accepts_iff (by decide) (by decide) (by decide) _ _).1.mpr
    ⟨"blog__name", by simp, Or.inl ?_⟩
  rw [hfield, hkey]
  exact ⟨["in"], rfl⟩

/-- A listed field that ends in an underscore lets through the columns of a relation whose name is
that of the field without it. -/
theorem accepts_overlap :
    Accepts "__" ["a_"] "a___b" "x" ∧
      ¬∃ field ∈ ["a_"], Text.split "__" field <+: Text.split "__" "a___b" := by
  have hfield : Text.split "__" "a_" = ["a_"] := by cbv
  have hkey : Text.split "__" "a___b" = ["a", "_b"] := by cbv
  constructor
  · exact (accepts_iff_permits (by decide) (by decide) _ _).mpr ⟨"a_", by simp, by decide⟩
  · simp [hfield, hkey]

/-! ## Values -/

/-- What the text of a parameter is for an operator: a list of members, two bounds, or the text. -/
def valueFor (operator : Option Operator) (raw : String) : Except LookupError Value :=
  match operator with
  | some .isIn => .ok (.list ((nonemptyParts raw).map .text))
  | some .range =>
    match commaParts raw with
    | [low, high] => .ok (.list [.text low, .text high])
    | _ => .error (.invalidValue "range" .bounds (.text raw))
  | _ => .ok (.text raw)

theorem valueFor_of_ne {operator : Option Operator} (hin : operator ≠ some .isIn)
    (hrange : operator ≠ some .range) (raw : String) : valueFor operator raw = .ok (.text raw) := by
  unfold valueFor
  split
  · contradiction
  · contradiction
  · rfl

theorem valueFor_in_empty : valueFor (some .isIn) "" = .ok (.list []) := by cbv

theorem valueFor_range_empty :
    valueFor (some .range) "" = .error (.invalidValue "range" .bounds (.text "")) := by cbv

theorem valueFor_empty_eq_nil_iff {operator : Option Operator} :
    valueFor operator "" = .ok (.list []) ↔ operator = some .isIn := by
  constructor
  · intro h
    by_contra hin
    by_cases hrange : operator = some .range
    · rw [hrange, valueFor_range_empty] at h
      cases h
    · rw [valueFor_of_ne hin hrange] at h
      cases h
  · rintro rfl
    exact valueFor_in_empty

theorem valueFor_empty_eq_error_iff {operator : Option Operator} :
    (∃ e, valueFor operator "" = .error e) ↔ operator = some .range := by
  constructor
  · rintro ⟨e, h⟩
    by_contra hrange
    by_cases hin : operator = some .isIn
    · rw [hin, valueFor_in_empty] at h
      cases h
    · rw [valueFor_of_ne hin hrange] at h
      cases h
  · rintro rfl
    exact ⟨_, valueFor_range_empty⟩

/-- Two operators take the same values of all texts just if both or neither take lists, and both or
neither take bounds. -/
theorem valueFor_congr_iff {operator other : Option Operator} :
    (∀ raw, valueFor operator raw = valueFor other raw) ↔
      (operator = some .isIn ↔ other = some .isIn) ∧
        (operator = some .range ↔ other = some .range) := by
  constructor
  · intro h
    exact ⟨by rw [← valueFor_empty_eq_nil_iff, h, valueFor_empty_eq_nil_iff],
      by rw [← valueFor_empty_eq_error_iff, h, valueFor_empty_eq_error_iff]⟩
  · rintro ⟨hin, hrange⟩ raw
    by_cases hi : operator = some .isIn
    · rw [hi, hin.mp hi]
    · by_cases hr : operator = some .range
      · rw [hr, hrange.mp hr]
      · rw [valueFor_of_ne hi hr, valueFor_of_ne (mt hin.mpr hi) (mt hrange.mpr hr)]

theorem ofToken?_eq_in_iff {token : String} :
    Operator.ofToken? token = some .isIn ↔ token = "in" :=
  Operator.ofToken?_eq_some_iff.trans eq_comm

theorem ofToken?_eq_range_iff {token : String} :
    Operator.ofToken? token = some .range ↔ token = "range" :=
  Operator.ofToken?_eq_some_iff.trans eq_comm

/-- A value is read for the operator whose own token the key ends with, cut from the right. -/
theorem rawValue_eq (separator key raw : String) :
    rawValue separator key raw =
      valueFor (Operator.ofToken? (Text.lastPiece separator key)) raw := by
  unfold rawValue
  dsimp only
  split
  · next h => rw [ofToken?_eq_in_iff.mpr h]; rfl
  · next h =>
    split
    · next h' => rw [ofToken?_eq_range_iff.mpr h']; rfl
    · next h' => rw [valueFor_of_ne (mt ofToken?_eq_in_iff.mp h) (mt ofToken?_eq_range_iff.mp h')]

/-- A parameter that is not reserved is read for an operator, whatever its text, just if its key
ends with the operator's own token or that of another one which takes the same values. -/
theorem forall_ofParameters_iff (separator : String) {key : String} (horder : key ≠ orderParameter)
    (hpage : key ∉ pageParameters) (operator : Option Operator) :
    (∀ raw, ofParameters separator none [(key, raw)] =
        (valueFor operator raw).map (single key)) ↔
      (Text.lastPiece separator key = "in" ↔ operator = some .isIn) ∧
        (Text.lastPiece separator key = "range" ↔ operator = some .range) := by
  have hmap {x y : Except LookupError Value} :
      x.map (single key) = y.map (single key) ↔ x = y := by
    cases x <;> cases y <;> simp [Except.map, (single_injective key).eq_iff]
  rw [← ofToken?_eq_in_iff, ← ofToken?_eq_range_iff, ← valueFor_congr_iff]
  refine forall_congr' fun raw => ?_
  rw [ofParameters_one horder hpage, Option.all_none, if_pos rfl, hmap, rawValue_eq]

/-- The spelling of the last token of a key says how the value is split: no alias takes `in` or
`range` away from its operator or leads to it from another token, and no column has such a name. -/
structure Spelled (s : Settings) (token : String) (r : Resolved) : Prop where
  aliases : r.operator ≠ none → ∀ target, s.aliases.get? token = some target →
    (token = "in" ↔ target = "in") ∧ (token = "range" ↔ target = "range")
  column : r.operator = none → r.column.name ≠ "in" ∧ r.column.name ≠ "range"

theorem eq_iff_of_ofToken? {token : String} {op : Operator}
    (h : Operator.ofToken? token = some op) :
    (op = .isIn ↔ token = "in") ∧ (op = .range ↔ token = "range") := by
  rw [← ofToken?_eq_in_iff, ← ofToken?_eq_range_iff, h]
  simp

theorem spelled_iff {schema : Schema} {s : Settings} {t : OperatorTable} {root : EntityId}
    {key token : String} {r : Resolved} (ht : OperatorTable.ofSettings s = .ok t)
    (hr : Resolved.Derives ⟨schema, t, key⟩ root (Text.split s.separator key) r)
    (htoken : (Text.split s.separator key).getLast? = some token) :
    Spelled s token r ↔
      (token = "in" ↔ r.operator = some .isIn) ∧ (token = "range" ↔ r.operator = some .range) := by
  rcases hr.getLast? htoken with ⟨hnone, rfl⟩ | ⟨op, hop, hfind⟩
  · refine ⟨fun h => by simp [hnone, h.column hnone], fun h => ⟨fun hne => absurd hnone hne, ?_⟩⟩
    simpa [hnone] using h
  · rw [OperatorTable.find?_ofSettings ht] at hfind
    simp only [hop, Option.some.injEq]
    split at hfind
    · cases hfind
    · split at hfind
      · next target halias =>
        rw [(eq_iff_of_ofToken? hfind).1, (eq_iff_of_ofToken? hfind).2]
        refine ⟨fun h => h.aliases (by simp [hop]) target halias, fun h => ⟨?_, by simp [hop]⟩⟩
        rintro - other hother
        obtain rfl : target = other := Option.some.inj (halias.symm.trans hother)
        exact h
      · next halias =>
        refine iff_of_true ⟨by simp [halias], by simp [hop]⟩ ?_
        exact ⟨(eq_iff_of_ofToken? hfind).1.symm, (eq_iff_of_ofToken? hfind).2.symm⟩

/-- The text of a parameter is split as the operator of its key asks for, whatever the text, just if
the last token of the key, cut from the right, is `in` for membership alone and `range` for ranges
alone. If that token is also the last one cut from the left, this holds just if its spelling says
how the value is split. -/
theorem reads_iff {schema : Schema} {settings : Settings} {c : Compiler} {root : EntityId}
    {key : String} {r : Resolved} (hc : Compiler.ofSettings schema settings = .ok c)
    (hr : c.resolve root key = .ok r) (horder : key ≠ orderParameter)
    (hpage : key ∉ pageParameters) :
    ((∀ raw, ofParameters c.settings.separator none [(key, raw)] =
          (valueFor r.operator raw).map (single key)) ↔
        (Text.lastPiece settings.separator key = "in" ↔ r.operator = some .isIn) ∧
          (Text.lastPiece settings.separator key = "range" ↔ r.operator = some .range)) ∧
      ((Text.split settings.separator key).getLast? =
          some (Text.lastPiece settings.separator key) →
        ((∀ raw, ofParameters c.settings.separator none [(key, raw)] =
            (valueFor r.operator raw).map (single key)) ↔
          Spelled settings (Text.lastPiece settings.separator key) r)) := by
  obtain ⟨_, -, hc⟩ := Checked.bind_eq_ok_iff.mp hc
  obtain ⟨t, ht, hc⟩ := Checked.bind_eq_ok_iff.mp hc
  cases hc
  have hexact := forall_ofParameters_iff settings.separator horder hpage r.operator
  refine ⟨hexact, fun htoken => ?_⟩
  rw [hexact, spelled_iff ht (Resolved.ofKey_eq_ok_iff.mp hr) htoken]

/-- The theorem at membership in a list of names of authors. -/
theorem reads_iff_name :
    ∃ r, Compiler.ofSettings Blog.built Settings.standard = .ok (Compiler.ofSchema Blog.built) ∧
      (Compiler.ofSchema Blog.built).resolve ⟨0⟩ "name__in" = .ok r ∧
        "name__in" ≠ orderParameter ∧ "name__in" ∉ pageParameters ∧
        (Text.split "__" "name__in").getLast? = some (Text.lastPiece "__" "name__in") ∧
        Spelled Settings.standard (Text.lastPiece "__" "name__in") r ∧
          ofParameters "__" none [("name__in", "bob, eve")] =
            .ok (single "name__in" (.list [.text "bob", .text "eve"])) := by
  have hc : Compiler.ofSettings Blog.built Settings.standard =
      .ok (Compiler.ofSchema Blog.built) := by
    have hsorted : Settings.standard.aliases.sorted = [] := List.mergeSort_nil
    simp only [Compiler.ofSettings, OperatorTable.ofSettings, hsorted]
    rfl
  have hr : (Compiler.ofSchema Blog.built).resolve ⟨0⟩ "name__in" =
      .ok ⟨[], ⟨Path.root, ⟨0⟩, "name"⟩, Blog.field "name" .text, some .isIn⟩ := by cbv
  have htoken : (Text.split "__" "name__in").getLast? = some (Text.lastPiece "__" "name__in") := by
    cbv
  have hspelled : Spelled Settings.standard (Text.lastPiece "__" "name__in")
      ⟨[], ⟨Path.root, ⟨0⟩, "name"⟩, Blog.field "name" .text, some .isIn⟩ :=
    ⟨fun _ _ h => (Option.some_ne_none _ h.symm).elim, fun h => (Option.some_ne_none _ h).elim⟩
  refine ⟨_, hc, hr, by decide, by decide, htoken, hspelled, ?_⟩
  refine (((reads_iff hc hr (by decide) (by decide)).2 htoken).mpr hspelled "bob, eve").trans ?_
  cbv

/-- Events with an attribute that has the name of an operator. -/
def eventSchema : Schema :=
  ⟨[⟨⟨0⟩, "Event", [Blog.key "id", Blog.field "range" .int], []⟩], [("Event", ⟨0⟩)], []⟩

/-- The name of a column is taken for that of an operator, and its one value for two bounds. -/
theorem reads_column_name :
    ∃ r, (Compiler.ofSchema eventSchema).resolve ⟨0⟩ "range" = .ok r ∧ r.operator = none ∧
      ofParameters "__" none [("range", "5")] =
        .error (.invalidValue "range" .bounds (.text "5")) := by
  exact ⟨⟨[], ⟨Path.root, ⟨0⟩, "range"⟩, Blog.field "range" .int, none⟩, by cbv, rfl, by cbv⟩

end FieldLookup.Request
