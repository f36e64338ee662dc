import FieldLookup.Lookup.Request
import FieldLookup.Proofs.Certainty

/-!
Values that conversions give: what is converted is of the wanted type, and stays what it is when it
is converted once more. Main statements: `Value.convert?_of_type?`, a value of a type is converted
to itself; `convertText_cases`, what the text of a request is read as; and `conversion_stable`, each
of the three conversions gives again what it gave.
-/
namespace FieldLookup

/-! ## To the type of an attribute -/

namespace Value

variable {v w : Value} {type : ScalarType}

/-- A value of a type is converted to itself. -/
theorem convert?_of_type? (h : v.type? = some type) : v.convert? type = some v := by
  cases v with
  | null | list items => cases h
  | bool b | int n | float x | text s | timestamp ms | date d =>
    cases h
    rfl

/-- What takes null for null either does so or takes a value that is not null. -/
theorem cases_of_null {f : Value → Option Value} {P : Prop} (hnull : f null = some null)
    (hP : v.isNull = false → P) (h : f v = some w) : (v = null ∧ w = null) ∨ (v ≠ null ∧ P) := by
  cases hv : v.isNull with
  | true =>
    obtain rfl := isNull_iff.mp hv
    exact Or.inl ⟨rfl, Option.some.inj (h.symm.trans hnull)⟩
  | false =>
    refine Or.inr ⟨?_, hP hv⟩
    rintro rfl
    cases hv

/-- Null is converted to null, and any other value to one of the type. -/
theorem convert?_cases (h : v.convert? type = some w) :
    (v = null ∧ w = null) ∨ (v ≠ null ∧ w.type? = some type) :=
  cases_of_null (f := fun v => v.convert? type) rfl (fun hv => type?_of_convert? hv h) h

theorem ComparesWith.ne_null (h : w.ComparesWith type) : w ≠ null := by
  rintro rfl
  rcases h with h | ⟨-, h⟩ <;> cases h

theorem ComparesWith.isList (h : w.ComparesWith type) : w.isList = false := by
  cases w with
  | list items => rcases h with h | ⟨-, h⟩ <;> cases h
  | _ => rfl

end Value

/-! ## As a scalar of an operator -/

namespace Operator

variable {a : Attribute} {v w : Value}

/-- A value that those of an attribute are compared with is taken as it is. -/
theorem convertFor?_of_comparesWith (h : w.ComparesWith a.type) : convertFor? a w = some w := by
  rcases h with h | ⟨hint, hfloat⟩
  · rw [convertFor?, Value.convert?_of_type? h, Option.some_or]
  · rw [convertFor?, hint, if_pos rfl, Value.convert?_of_type? hfloat]
    cases w <;> cases hfloat
    rfl

/-- Null is taken for null, and any other value for one that those of the attribute are compared
with. -/
theorem convertFor?_cases (h : convertFor? a v = some w) :
    (v = .null ∧ w = .null) ∨ (v ≠ .null ∧ w.ComparesWith a.type) :=
  Value.cases_of_null (f := convertFor? a) rfl
    (fun hv => Value.comparesWith_of_convertFor? hv h) h

end Operator

/-! ## From the text of a request -/

/-- The text of a request is kept, or it is read as null or as a truth value. -/
theorem convertText_cases (op : Operator) (type : ScalarType) (s : String) :
    convertText op type s = .text s ∨ convertText op type s = .null ∨
      ∃ b, convertText op type s = .bool b := by
  unfold convertText
  split
  · exact Or.inl rfl
  · split
    · cases hread : (Value.text s).convert? .bool with
      | none => exact Or.inl rfl
      | some w =>
        have htype := Value.type?_of_convert? rfl hread
        cases w <;> cases htype
        exact Or.inr (Or.inr ⟨_, rfl⟩)
    · split
      · exact Or.inr (Or.inl rfl)
      · split
        · exact Or.inr (Or.inr ⟨_, rfl⟩)
        · split
          · exact Or.inr (Or.inr ⟨_, rfl⟩)
          · exact Or.inl rfl

mutual

theorem convertRaw_convertRaw (op : Operator) (type : ScalarType) (v : Value) :
    convertRaw op type (convertRaw op type v) = convertRaw op type v := by
  cases v with
  | list items => rw [convertRaw, convertRaw, convertRawItems_convertRawItems op type items]
  | text s =>
    rw [convertRaw]
    rcases convertText_cases op type s with h | h | ⟨b, h⟩
    · rw [h, convertRaw, h]
    · rw [h]
      rfl
    · rw [h]
      rfl
  | null | bool _ | int _ | float _ | timestamp _ | date _ => rfl

theorem convertRawItems_convertRawItems (op : Operator) (type : ScalarType) (items : List Value) :
    convertRawItems op type (convertRawItems op type items) = convertRawItems op type items := by
  cases items with
  | nil => rfl
  | cons v rest =>
    rw [convertRawItems, convertRawItems, convertRaw_convertRaw op type v,
      convertRawItems_convertRawItems op type rest]

end

/-! ## Together -/

/-- Converting to a type gives null of null alone and else a value of the type; an operator takes
null for null alone and else a value of the attribute's type or, for integers, another number. Each
of the two, and reading a request, leaves what it gave as it is. -/
theorem conversion_stable :
    (∀ (v w : Value) (type : ScalarType), v.convert? type = some w →
        (w = .null ↔ v = .null) ∧ (w ≠ .null → w.type? = some type) ∧
          w.convert? type = some w) ∧
      (∀ (op op' : Operator) (a : Attribute) (v w : Value), op.scalar a v true = .ok w →
        (w = .null ↔ v = .null) ∧ (w ≠ .null → w.ComparesWith a.type) ∧
          op'.scalar a w true = .ok w) ∧
      ∀ (op : Operator) (type : ScalarType) (raw : Value),
        convertRaw op type (convertRaw op type raw) = convertRaw op type raw := by
  refine ⟨fun v w type h => ?_, fun op op' a v w h => ?_, convertRaw_convertRaw⟩
  · rcases Value.convert?_cases h with ⟨rfl, rfl⟩ | ⟨hv, hw⟩
    · exact ⟨Iff.rfl, fun hnull => absurd rfl hnull, rfl⟩
    · have hnull : w ≠ .null := Value.ComparesWith.ne_null (Or.inl hw)
      exact ⟨iff_of_false hnull hv, fun _ => hw, Value.convert?_of_type? hw⟩
  · rcases Operator.convertFor?_cases (Operator.scalar_eq_ok_iff.mp h).2 with
      ⟨rfl, rfl⟩ | ⟨hv, hw⟩
    · exact ⟨Iff.rfl, fun hnull => absurd rfl hnull, rfl⟩
    · exact ⟨iff_of_false hw.ne_null hv, fun _ => hw,
        Operator.scalar_eq_ok_iff.mpr ⟨hw.isList, Operator.convertFor?_of_comparesWith hw⟩⟩

/-- The theorem at a number with a fraction for a column of integers, which is taken as a number,
and at a request with lists in a list. -/
theorem conversion_stable_views :
    Operator.lt.scalar (Blog.field "views" .int) (.text " 4.5e1 ") true =
        .ok (.float ⟨0x4046800000000000⟩) ∧
      Operator.ne.scalar (Blog.field "views" .int) (.float ⟨0x4046800000000000⟩) true =
        .ok (.float ⟨0x4046800000000000⟩) ∧
      (Value.text "\u20031\n").convert? .bool = some (.bool true) ∧
      (Value.bool true).convert? .bool = some (.bool true) ∧
      convertRaw .eq .bool (.list [.text "None", .list [.text "True", .text " 1"]]) =
        .list [.null, .list [.bool true, .text " 1"]] ∧
      convertRaw .eq .bool (.list [.null, .list [.bool true, .text " 1"]]) =
        .list [.null, .list [.bool true, .text " 1"]] := by
  have hscalar : Operator.lt.scalar (Blog.field "views" .int) (.text " 4.5e1 ") true =
      .ok (.float ⟨0x4046800000000000⟩) := by decide +kernel
  have hbool : (Value.text "\u20031\n").convert? .bool = some (.bool true) := by decide +kernel
  have hraw : convertRaw .eq .bool (.list [.text "None", .list [.text "True", .text " 1"]]) =
      .list [.null, .list [.bool true, .text " 1"]] := by decide +kernel
  have hagain := conversion_stable.2.2 .eq .bool
    (.list [.text "None", .list [.text "True", .text " 1"]])
  rw [hraw] at hagain
  exact ⟨hscalar, (conversion_stable.2.1 .lt .ne _ _ _ hscalar).2.2, hbool,
    (conversion_stable.1 _ _ _ hbool).2.2, hraw, hagain⟩

end FieldLookup
