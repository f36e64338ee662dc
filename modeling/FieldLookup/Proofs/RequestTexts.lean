import FieldLookup.Proofs.Building
import FieldLookup.Proofs.Composition
import FieldLookup.Proofs.Decimals
import FieldLookup.Proofs.Parameters

/-!
Requests that say in text what a call says in values. Main statements:
`Request.ofParameters_of_operator`, the parameter of a key with an operator is split as the operator
asks for; and `Compiler.applyText_eq_narrow`, a pattern, a decimal and decimals joined by commas are
compiled to what the text, the integer and the integers themselves are.
-/
namespace FieldLookup

namespace Request

/-! ## The operator of a key -/

variable {c : Compiler} {root : EntityId} {key : String} {r : Resolved} {op : Operator}

/-- The last token of a key is that of its operator, cut from either end. -/
theorem lastPiece_eq_token (hops : c.operators = .standard)
    (hsep : c.settings.separator = standardSeparator) (hr : c.resolve root key = .ok r)
    (hop : r.operator = some op) : Text.lastPiece standardSeparator key = op.token := by
  rw [Compiler.resolve, hsep] at hr
  obtain ⟨token, hlast, hfind⟩ := Resolved.exists_token_of_operator hr hop
  rw [Compiler.context, hops, OperatorTable.find?_standard, Operator.ofToken?_eq_some_iff] at hfind
  rw [← hfind] at hlast
  -- no token of an operator has an underscore, so no separator is found across its front
  refine Text.lastPiece_eq (by decide) hlast fun ch hch => ?_
  have hseparator : standardSeparator.toList = ['_', '_'] := rfl
  obtain rfl : ch = '_' := by simpa [hseparator] using hch
  exact op.underscore_not_mem_token

/-- No parameter with another meaning ends in the token of an operator. -/
theorem ofToken?_of_reserved :
    ∀ reserved ∈ orderParameter :: pageParameters,
      Operator.ofToken? (Text.lastPiece standardSeparator reserved) = none := by
  decide

/-- The parameter of a key with an operator is a lookup, of the value that the operator asks for. -/
theorem ofParameters_of_operator (hops : c.operators = .standard)
    (hsep : c.settings.separator = standardSeparator) (hr : c.resolve root key = .ok r)
    (hop : r.operator = some op) (raw : String) :
    ofParameters standardSeparator none [(key, raw)] =
      (valueFor (some op) raw).map (single key) := by
  have htoken : Operator.ofToken? (Text.lastPiece standardSeparator key) = some op := by
    rw [lastPiece_eq_token hops hsep hr hop, Operator.ofToken?_token]
  have hfree : key ∉ orderParameter :: pageParameters := fun hmem => by
    rw [ofToken?_of_reserved key hmem] at htoken
    cases htoken
  obtain ⟨horder, hpage⟩ := not_or.mp (mt List.mem_cons.mpr hfree)
  rw [ofParameters_one horder hpage, Option.all_none, if_pos rfl, rawValue_eq, htoken]

end Request

/-! ## Decimals as values -/

section Decimals

open Request Text.Numeral

/-- The decimals of integers. -/
def decimals (ns : List Int64) : List String := (ns.map (·.toInt)).map intText

theorem commaParts_decimals {ns : List Int64} (h : ns ≠ []) :
    commaParts (Text.join "," (decimals ns)) = decimals ns := by
  have hne : ns.map (·.toInt) ≠ [] := by simpa
  rw [commaParts, decimals, Text.split_join_decimals hne, List.map_map]
  exact List.map_congr_left fun n _ => trim_intText n

/-- Decimals between commas are the members of a list, also if there are none. -/
theorem valueFor_isIn_decimals (ns : List Int64) :
    valueFor (some .isIn) (Text.join "," (decimals ns)) =
      .ok (.list ((decimals ns).map .text)) := by
  cases ns with
  | nil => exact valueFor_in_empty
  | cons n ns =>
    have hparts : nonemptyParts (Text.join "," (decimals (n :: ns))) = decimals (n :: ns) := by
      rw [nonemptyParts, commaParts_decimals (List.cons_ne_nil n ns), List.filter_eq_self]
      intro part hpart
      obtain ⟨m, -, rfl⟩ := List.mem_map.mp hpart
      simp [intText, intDigits_ne_nil]
    rw [valueFor, hparts]

theorem valueFor_range_decimals (low high : Int64) :
    valueFor (some .range) (Text.join "," (decimals [low, high])) =
      .ok (.list ((decimals [low, high]).map .text)) := by
  have hparts : commaParts (Text.join "," (decimals [low, high])) = decimals [low, high] :=
    commaParts_decimals (List.cons_ne_nil _ _)
  rw [valueFor, hparts]
  rfl

theorem intText_not_mem_nullTexts (n : Int) : intText n ∉ nullTexts := by
  intro h
  have hletter : ∀ s ∈ nullTexts, 'n' ∈ s.toList := by decide
  have hmem := hletter _ h
  rw [intText, String.toList_ofList] at hmem
  exact absurd (isDecimal_of_mem_intDigits hmem).toNat.2 (by decide)

variable {op : Operator} (htextual : op.isTextual = false) (hnull : op ≠ .isNull)
include htextual hnull

/-- A decimal stays the text that it is until it is read as an integer. -/
theorem convertRaw_decimal (n : Int) :
    convertRaw op .int (.text (intText n)) = .text (intText n) := by
  simp [convertRaw, convertText, htextual, hnull, intText_not_mem_nullTexts]

theorem convertRaw_decimals (ns : List Int64) :
    convertRaw op .int (.list ((decimals ns).map .text)) = .list ((decimals ns).map .text) := by
  rw [convertRaw]
  refine congrArg Value.list ?_
  induction ns with
  | nil => rfl
  | cons n ns ih =>
    simp only [decimals, List.map_cons, convertRawItems, convertRaw_decimal htextual hnull] at ih ⊢
    rw [ih]

end Decimals

namespace Operator

variable {a : Attribute}

theorem takes_int (ha : a.type = .int) (n : Int64) : Takes a (.int n) (.int n) :=
  ⟨rfl, rfl, by rw [convertFor?, ha]; rfl⟩

theorem takes_decimal (ha : a.type = .int) (n : Int64) :
    Takes a (.text (Text.Numeral.intText n.toInt)) (.int n) := by
  refine ⟨rfl, rfl, ?_⟩
  have hconvert : (Value.text (Text.Numeral.intText n.toInt)).convert? .int = some (.int n) := by
    simp only [Value.convert?, Text.Numeral.trim_intText, Value.read?]
    rw [Text.Numeral.intText, String.toList_ofList, Text.Numeral.int64Of?_intDigits]
    rfl
  rw [convertFor?, ha, hconvert]
  rfl

theorem forall₂_takes {f g : Int64 → Value} (h : ∀ n, Takes a (f n) (g n)) (ns : List Int64) :
    List.Forall₂ (Takes a) (ns.map f) (ns.map g) := by
  rw [List.forall₂_map_left_iff, List.forall₂_map_right_iff, List.forall₂_same]
  exact fun n _ => h n

theorem takes_ints (ha : a.type = .int) (ns : List Int64) :
    List.Forall₂ (Takes a) (ns.map .int) (ns.map .int) :=
  forall₂_takes (takes_int ha) ns

theorem takes_decimals (ha : a.type = .int) (ns : List Int64) :
    List.Forall₂ (Takes a) ((decimals ns).map .text) (ns.map .int) := by
  have hmap : (decimals ns).map .text =
      ns.map fun n => Value.text (Text.Numeral.intText n.toInt) := by
    simp [decimals]
  rw [hmap]
  exact forall₂_takes (takes_decimal ha) ns

end Operator

/-! ## Calls -/

namespace Compiler

open Request Text.Numeral

/-- Adds what one parameter of a request asks for. -/
def applyText (c : Compiler) (q : Query) (key raw : String) : Except LookupError Query := do
  c.apply q (← Request.ofParameters standardSeparator none [(key, raw)])

variable {c : Compiler} {q : Query} {key : String} {r : Resolved} {op : Operator}

/-- A parameter and a value for one key are compiled alike, if the operator builds one predicate of
them. -/
theorem applyText_eq_of_build (hops : c.operators = .standard)
    (hsep : c.settings.separator = standardSeparator) (hr : c.resolve q.root key = .ok r)
    (hop : r.operator = some op) {raw : String} {v w : Value}
    (hv : valueFor (some op) raw = .ok v)
    (hbuild : op.build r.column r.field (convertRaw op r.field.type v) c.settings.coerce =
      op.build r.column r.field w c.settings.coerce) :
    c.applyText q key raw = c.narrow q (Ordered.empty.insert key w) := by
  have hcondition : c.condition q.root .request key v = c.condition q.root .typed key w := by
    rw [condition_of_resolve hr, condition_of_resolve hr, hop]
    exact congrArg (Except.map _) hbuild
  have happly : c.apply q (single key v) =
      c.restrict q (Ordered.empty.insert key v) false .request := by
    rw [apply]
    exact bind_pure _
  rw [applyText, ofParameters_of_operator hops hsep hr hop, hv]
  refine happly.trans ?_
  rw [narrow, restrict_single, restrict_single, hcondition]

/-- A text that stays what it is until values are converted adds what its value does, if the
operator builds one predicate of both. -/
theorem exists_both_of_build (hops : c.operators = .standard)
    (hsep : c.settings.separator = standardSeparator) (hcoerce : c.settings.coerce = true)
    (hr : c.resolve q.root key = .ok r) (hop : r.operator = some op) {raw : String} {v w : Value}
    {p : Predicate} (hv : valueFor (some op) raw = .ok v) (hraw : convertRaw op r.field.type v = v)
    (hp : op.build r.column r.field v true = .ok p)
    (hw : op.build r.column r.field w true = .ok p) :
    ∃ q', c.applyText q key raw = .ok q' ∧ c.narrow q (Ordered.empty.insert key w) = .ok q' := by
  rw [← hcoerce] at hp hw
  obtain ⟨q', hq'⟩ : ∃ q', c.narrow q (Ordered.empty.insert key w) = .ok q' := by
    rw [narrow, restrict_single, condition_of_resolve hr, hop, Option.getD_some, hw]
    exact ⟨_, rfl⟩
  have heq : c.applyText q key raw = c.narrow q (Ordered.empty.insert key w) :=
    applyText_eq_of_build hops hsep hr hop hv (by rw [hraw, hp, hw])
  exact ⟨q', heq.trans hq', hq'⟩

/-- A parameter of a key with an operator is compiled as its value is. The text of a pattern is
taken as it stands, also where the pattern is refused. Under an integer column a decimal is the
integer, and decimals between commas are the members of a list, which may be empty, or two bounds.
-/
theorem applyText_eq_narrow (hops : c.operators = .standard)
    (hsep : c.settings.separator = standardSeparator) (hcoerce : c.settings.coerce = true)
    (hr : c.resolve q.root key = .ok r) (hop : r.operator = some op) :
    (op.isTextual = true → ∀ s : String,
        c.applyText q key s = c.narrow q (Ordered.empty.insert key (.text s))) ∧
      (r.field.type = .int →
        (∀ comparison, op.comparison? = some comparison → ∀ n : Int64,
          ∃ q', c.applyText q key (intText n.toInt) = .ok q' ∧
            c.narrow q (Ordered.empty.insert key (.int n)) = .ok q') ∧
        (op = .isIn → ∀ ns : List Int64,
          ∃ q', c.applyText q key (Text.join "," (decimals ns)) = .ok q' ∧
            c.narrow q (Ordered.empty.insert key (.list (ns.map .int))) = .ok q') ∧
        (op = .range → ∀ low high : Int64,
          ∃ q', c.applyText q key (Text.join "," (decimals [low, high])) = .ok q' ∧
            c.narrow q (Ordered.empty.insert key (.list [.int low, .int high])) = .ok q')) := by
  have hboth {raw : String} {v w : Value} {p : Predicate} (hv : valueFor (some op) raw = .ok v) :=
    exists_both_of_build (q := q) (p := p) (w := w) hops hsep hcoerce hr hop hv
  refine ⟨fun htextual s => ?_, fun htype => ⟨fun comparison hcomparison n => ?_, ?_, ?_⟩⟩
  · have hv : valueFor (some op) s = .ok (.text s) :=
      valueFor_of_ne (by rintro ⟨⟩; cases htextual) (by rintro ⟨⟩; cases htextual) s
    refine applyText_eq_of_build hops hsep hr hop hv ?_
    rw [convertRaw, convertText, if_pos htextual]
  · have hv : valueFor (some op) (intText n.toInt) = .ok (.text (intText n.toInt)) :=
      valueFor_of_ne (by rintro ⟨⟩; cases hcomparison) (by rintro ⟨⟩; cases hcomparison) _
    have hraw := convertRaw_decimal (Operator.isTextual_of_comparison? hcomparison)
      (by rintro rfl; cases hcomparison) n.toInt
    exact hboth hv (htype ▸ hraw)
      (Operator.build_compare hcomparison (Operator.takes_decimal htype n))
      (Operator.build_compare hcomparison (Operator.takes_int htype n))
  · rintro rfl ns
    have hraw := @convertRaw_decimals .isIn rfl (by decide) ns
    exact hboth (valueFor_isIn_decimals ns) (htype ▸ hraw)
      (Operator.build_oneOf (Operator.takes_decimals htype ns))
      (Operator.build_oneOf (Operator.takes_ints htype ns))
  · rintro rfl low high
    have hraw := @convertRaw_decimals .range rfl (by decide) [low, high]
    exact hboth (valueFor_range_decimals low high) (htype ▸ hraw)
      (Operator.build_between (Operator.takes_decimal htype low)
        (Operator.takes_decimal htype high))
      (Operator.build_between (Operator.takes_int htype low) (Operator.takes_int htype high))

/-- The theorem at members of which one is the least integer. -/
theorem applyText_eq_narrow_views :
    (ofSchema Blog.built).operators = .standard ∧
      (ofSchema Blog.built).settings.separator = standardSeparator ∧
      (ofSchema Blog.built).settings.coerce = true ∧
      (ofSchema Blog.built).resolve ⟨2⟩ "views__in" =
        .ok ⟨[], ⟨Path.root, ⟨2⟩, "views"⟩, Blog.field "views" .int, some .isIn⟩ ∧
      ∃ q', (ofSchema Blog.built).applyText (Query.ofRoot ⟨2⟩) "views__in"
          "-9223372036854775808,0,300" = .ok q' ∧
        (ofSchema Blog.built).narrow (Query.ofRoot ⟨2⟩) (Ordered.empty.insert "views__in"
          (.list [.int Int64.minValue, .int 0, .int 300])) = .ok q' := by
  have hr : (ofSchema Blog.built).resolve ⟨2⟩ "views__in" =
      .ok ⟨[], ⟨Path.root, ⟨2⟩, "views"⟩, Blog.field "views" .int, some .isIn⟩ := by cbv
  have htext : Text.join "," (decimals [Int64.minValue, 0, 300]) =
      "-9223372036854775808,0,300" := by cbv
  refine ⟨rfl, rfl, rfl, hr, ?_⟩
  rw [← htext]
  exact ((applyText_eq_narrow (q := Query.ofRoot ⟨2⟩) rfl rfl rfl hr rfl).2 rfl).2.1 rfl _

end Compiler

end FieldLookup
