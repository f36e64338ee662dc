import FieldLookup.Proofs.Filled
import Mathlib.Order.Compare

/-!
The rows that a value leads to under an attribute, against those whose attribute compares equal to
it. Main statement: `Store.rowsWith_exact`, looking a value up gives just the rows that comparing
gives, in the order of their insertion, but where an integer is looked up: the index finds the rows
that hold it as an integer, and none of those that hold an equal floating-point number.
-/
namespace FieldLookup

namespace Value

/-- Whether an integer is asked for where a floating-point number is stored. The two may compare
equal, but are never the same exact value. -/
def isIntForFloat : (asked stored : Value) → Bool
  | int _, float _ => true
  | _, _ => false

/-- A stored value is the exact value that is asked for just if the two compare equal and are of
one kind. -/
theorem ofValue?_eq_some_iff {asked : Value} {exact : ExactValue}
    (h : ExactValue.ofValue? asked = some exact) (stored : Value) :
    ExactValue.ofValue? stored = some exact ↔
      stored.compare? asked = some .eq ∧ isIntForFloat asked stored = false := by
  cases asked with
  | bool b =>
    cases h
    cases stored with
    | bool c => cases b <;> cases c <;> decide
    | _ => simp [ExactValue.ofValue?, compare?]
  | int n =>
    cases h
    cases stored <;> simp [ExactValue.ofValue?, compare?, isIntForFloat, Int64.toInt_inj]
  | text s =>
    cases h
    cases stored <;> simp [ExactValue.ofValue?, compare?, isIntForFloat]
  | null | float x | timestamp ms | date d | list items => cases h

theorem isIntForFloat_of_ofValue?_eq_none {asked : Value} (h : ExactValue.ofValue? asked = none)
    (stored : Value) : isIntForFloat asked stored = false := by
  cases asked with
  | int n => cases h
  | _ => rfl

end Value

namespace Row

/-- Whether a row of an entity has an attribute that compares equal to a value. -/
def equals (r : Row) (entity : EntityId) (field : String) (v : Value) : Bool :=
  r.entity = entity && (r.attribute? field).any fun w => w.compare? v == some .eq

/-- Whether a row holds a floating-point number where an integer is asked for. -/
def isPassedOver (r : Row) (field : String) (v : Value) : Bool :=
  (r.attribute? field).any v.isIntForFloat

theorem equals_iff {r : Row} {entity : EntityId} {field : String} {v : Value} :
    r.equals entity field v = true ↔
      r.entity = entity ∧ ∃ w, r.attribute? field = some w ∧ w.compare? v = some .eq := by
  simp [equals, Option.any_eq_true]

theorem isPassedOver_eq_false_iff {r : Row} {field : String} {v : Value} :
    r.isPassedOver field v = false ↔
      ∀ w, r.attribute? field = some w → v.isIntForFloat w = false := by
  simp [isPassedOver, Option.any_eq_false]

/-- Whether comparing finds a row that is not passed over. -/
def isFound (r : Row) (entity : EntityId) (field : String) (v : Value) : Bool :=
  r.equals entity field v && !r.isPassedOver field v

theorem isFound_iff {r : Row} {entity : EntityId} {field : String} {v : Value} :
    r.isFound entity field v = true ↔
      r.entity = entity ∧ ∃ w, r.attribute? field = some w ∧ w.compare? v = some .eq ∧
        v.isIntForFloat w = false := by
  rw [isFound, Bool.and_eq_true, Bool.not_eq_true', equals_iff, isPassedOver_eq_false_iff]
  cases hw : r.attribute? field with
  | none => simp
  | some w => simp [and_assoc]

/-- The index keeps a row under the exact value that is asked for just if the row is found. -/
theorem holds_eq {v : Value} {exact : ExactValue} (h : ExactValue.ofValue? v = some exact) (r : Row)
    (entity : EntityId) (field : String) :
    r.holds ⟨entity, field, exact⟩ = r.isFound entity field v := by
  rw [Bool.eq_iff_iff, isFound_iff]
  simp [holds, Option.bind_eq_some_iff, Value.ofValue?_eq_some_iff h]

end Row

namespace Store

variable {s : Store}

theorem Coherent.scan_eq (h : s.Coherent) (entity : EntityId) (field : String) (v : Value) :
    s.scan entity field v = (s.rows.filter (·.equals entity field v)).map (·.id) := by
  rw [scan, h.rowsOf_eq, List.filter_filter]
  exact congrArg _ (List.filter_congr fun r _ => Bool.and_comm _ _)

/-- A value leads to the rows that compare equal to it and are not passed over. -/
theorem Coherent.rowsWith_eq (h : s.Coherent) (entity : EntityId) (field : String) (v : Value) :
    s.rowsWith entity field v =
      (s.rows.filter (·.isFound entity field v)).map (·.id) := by
  unfold rowsWith
  split
  · next hnull =>
    have hnone : ∀ r ∈ s.rows, ¬r.isFound entity field v = true := by
      rw [Value.isNull_iff.mp hnull]
      simp [Row.isFound_iff, Value.compare?_null_right]
    rw [List.filter_eq_nil_iff.mpr hnone, List.map_nil]
  · split
    · next exact hexact =>
      rw [h.indexed]
      exact congrArg _ (List.filter_congr fun r _ => Row.holds_eq hexact r entity field)
    · next hnone =>
      rw [h.scan_eq]
      refine congrArg _ (List.filter_congr fun r _ => ?_)
      have hpassed : r.isPassedOver field v = false :=
        Row.isPassedOver_eq_false_iff.mpr fun w _ =>
          Value.isIntForFloat_of_ofValue?_eq_none hnone w
      rw [Row.isFound, hpassed, Bool.not_false, Bool.and_true]

/-- Looking a value up agrees with comparing just if no row is passed over. -/
theorem Coherent.rowsWith_eq_scan_iff (h : s.Coherent) (entity : EntityId) (field : String)
    (v : Value) :
    s.rowsWith entity field v = s.scan entity field v ↔
      ∀ r ∈ s.rows, r.equals entity field v = true → r.isPassedOver field v = false := by
  rw [h.rowsWith_eq, h.scan_eq]
  constructor
  · intro heq r hr hequals
    have hmem : r.id ∈ (s.rows.filter (·.equals entity field v)).map (·.id) :=
      List.mem_map_of_mem (List.mem_filter.mpr ⟨hr, hequals⟩)
    rw [← heq] at hmem
    obtain ⟨t, ht, hid⟩ := List.mem_map.mp hmem
    obtain ⟨ht, hkept⟩ := List.mem_filter.mp ht
    obtain rfl := h.eq_of_id_eq ht hr hid
    simpa [Row.isFound, hequals] using hkept
  · intro hnone
    refine congrArg _ (List.filter_congr fun r hr => ?_)
    by_cases hequals : r.equals entity field v = true
    · simp [Row.isFound, hnone r hr hequals]
    · simp [Row.isFound, hequals]

/-- A value leads to just the rows of an entity whose attribute is there and compares equal to it,
each once and in the order of their insertion, but where the value is an integer and the attribute a
floating-point number. It leads to all that comparing finds just if there is no such row. -/
theorem rowsWith_exact (hs : s.Filled) (entity : EntityId) (field : String) (v : Value) :
    (s.rowsWith entity field v).Sublist (s.rows.map (·.id)) ∧
      (s.rowsWith entity field v).Nodup ∧
        (∀ id, id ∈ s.rowsWith entity field v ↔
          ∃ r ∈ s.rows, r.id = id ∧ r.entity = entity ∧ ∃ w, r.attribute? field = some w ∧
            w.compare? v = some .eq ∧ v.isIntForFloat w = false) ∧
          (s.rowsWith entity field v = s.scan entity field v ↔
            ∀ r ∈ s.rows, r.entity = entity → ∀ w, r.attribute? field = some w →
              w.compare? v = some .eq → v.isIntForFloat w = false) := by
  have h := hs.coherent
  have hsub := h.rowsWith_sublist entity field v
  refine ⟨hsub, hsub.nodup h.nodup_ids, fun id => ?_, ?_⟩
  · rw [h.rowsWith_eq, List.mem_map]
    refine exists_congr fun r => ?_
    rw [List.mem_filter, Row.isFound_iff, and_assoc, and_congr_right_iff]
    exact fun _ => and_comm
  · rw [h.rowsWith_eq_scan_iff]
    simp only [Row.equals_iff, Row.isPassedOver_eq_false_iff]
    refine forall₂_congr fun r hr => ?_
    constructor
    · exact fun hall hentity w hw heq => hall ⟨hentity, w, hw, heq⟩ w hw
    · rintro hall ⟨hentity, w, hw, heq⟩ w' hw'
      obtain rfl := Option.some.inj (hw.symm.trans hw')
      exact hall hentity w hw heq

/-- The number one as two rows hold it, the first with a fraction and the second without. -/
def ones : Store :=
  let s := (empty.insert ⟨0⟩ (Ordered.ofList [("n", .float ⟨0x3ff0000000000000⟩)])).2
  (s.insert ⟨0⟩ (Ordered.ofList [("n", .int 1)])).2

theorem filled_ones : ones.Filled := (filled_empty.insert _ _).insert _ _

/-- The theorem at a floating-point number that is looked up: it leads to both rows. -/
theorem rowsWith_exact_ones :
    ones.Filled ∧ ones.rowsWith ⟨0⟩ "n" (.float ⟨0x3ff0000000000000⟩) = [⟨1⟩, ⟨2⟩] ∧
      ones.rowsWith ⟨0⟩ "n" (.float ⟨0x3ff0000000000000⟩) =
        ones.scan ⟨0⟩ "n" (.float ⟨0x3ff0000000000000⟩) :=
  ⟨filled_ones, by decide +kernel,
    (rowsWith_exact filled_ones _ _ _).2.2.2.mpr fun _ _ _ _ _ _ => rfl⟩

/-- An integer leads past a row whose attribute compares equal to it. -/
theorem rowsWith_missed :
    ones.rowsWith ⟨0⟩ "n" (.int 1) = [⟨2⟩] ∧ ones.scan ⟨0⟩ "n" (.int 1) = [⟨1⟩, ⟨2⟩] := by
  decide +kernel

end Store

end FieldLookup
