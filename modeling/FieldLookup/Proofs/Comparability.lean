import FieldLookup.Proofs.Rounding
import FieldLookup.Proofs.SortOrder

/-!
Which values are in some order. Main statements: `compare?_swap`, exchanging two values reverses
their order; and `compare?_isSome_iff`, two values are in some order just if they are of one kind.
-/
namespace FieldLookup.Value

theorem compareFloats?_swap (a b : Value) :
    compareFloats? b a = (compareFloats? a b).map Ordering.swap := by
  unfold compareFloats?
  cases a.asFloat? <;> cases b.asFloat?
  · rfl
  · rfl
  · rfl
  · exact Binary64.compare?_swap _ _

/-- Exchanging two values reverses their order, and leaves them without one if they have none. -/
theorem compare?_swap (a b : Value) : compare? b a = (compare? a b).map Ordering.swap := by
  have hswap {α : Type} [Ord α] [Std.OrientedOrd α] (x y : α) :
      some (compare y x) = (some (compare x y)).map Ordering.swap :=
    congrArg some Std.OrientedOrd.eq_swap
  cases a with
  | null =>
    rw [compare?_null_left, compare?_null_right]
    rfl
  | bool p => cases b <;> first | rfl | exact hswap _ _
  | int m =>
    cases b with
    | int n => exact hswap _ _
    | float x => exact compareFloats?_swap (int m) (float x)
    | _ => rfl
  | float x =>
    cases b with
    | int n => exact compareFloats?_swap (float x) (int n)
    | float y => exact Binary64.compare?_swap x y
    | _ => rfl
  | text s => cases b <;> first | rfl | exact hswap _ _
  | timestamp ms => cases b <;> first | rfl | exact hswap _ _
  | date d => cases b <;> first | rfl | exact hswap d _
  | list items => cases b <;> rfl

/-- The type that a value is compared under, which is one for both sorts of number. Null, lists and
what is no number are in no order with anything. -/
def kind? : Value → Option ScalarType
  | int _ => some .float
  | float x => if x.isNaN then none else some .float
  | v => v.type?

theorem kind?_float_of_isNaN {x : Binary64} (h : x.isNaN = true) : (float x).kind? = none :=
  if_pos h

theorem kind?_float {x : Binary64} (h : x.isNaN = false) : (float x).kind? = some .float :=
  if_neg (by simp [h])

theorem compare?_isSome_iff {a b : Value} :
    (compare? a b).isSome ↔ a.kind?.isSome ∧ a.kind? = b.kind? := by
  have hint (n : Int64) : (Binary64.ofInt n.toInt).isNaN = false := Binary64.isNaN_ofInt _
  cases a with
  | null | list _ => simp [compare?, kind?, type?]
  | float x =>
    cases hx : x.isNaN with
    | true =>
      rw [kind?_float_of_isNaN hx]
      cases b <;> simp [compare?, compareFloats?, asFloat?, Binary64.compare?, hx]
    | false =>
      rw [kind?_float hx]
      cases b with
      | float y =>
        cases hy : y.isNaN <;>
          simp [compare?, kind?, Binary64.compare?, hx, hy]
      | _ => simp [compare?, compareFloats?, asFloat?, kind?, type?, Binary64.compare?, hx, hint]
  | int m =>
    cases b with
    | float y =>
      cases hy : y.isNaN <;>
        simp [compare?, compareFloats?, asFloat?, kind?, Binary64.compare?, hint, hy]
    | _ => simp [compare?, kind?, type?]
  | bool _ | text _ | timestamp _ | date _ =>
    cases b with
    | float y => cases hy : y.isNaN <;> simp [compare?, kind?, type?, hy]
    | _ => simp [compare?, kind?, type?]

def isNaN : Value → Bool
  | float x => x.isNaN
  | _ => false

/-- Values of one type, none of which is no number, are in some order. -/
theorem isSome_compare?_of_ofType {type : ScalarType} {a b : Value} (ha : a.OfType type)
    (hb : b.OfType type) (hna : a ≠ null) (hnb : b ≠ null) (hnum : a.isNaN = false)
    (hnum' : b.isNaN = false) : (compare? a b).isSome := by
  have hkind {v : Value} (hv : v.OfType type) (hne : v ≠ null) (hnum : v.isNaN = false) :
      v.kind? = some (if type = .int then .float else type) := by
    have htype := hv.resolve_left hne
    cases v with
    | null | list _ => cases htype
    | float x =>
      cases htype
      exact kind?_float hnum
    | _ =>
      cases htype
      rfl
  rw [compare?_isSome_iff, hkind ha hna hnum, hkind hb hnb hnum']
  exact ⟨rfl, rfl⟩

end FieldLookup.Value

/-! ## Stores of comparable values -/

namespace FieldLookup.Store

variable {store : Store} {s : Row}

/-- Every row holds, under each attribute of its entity, null or a value of the attribute's type. -/
def Typed (store : Store) (schema : Schema) : Prop :=
  ∀ row ∈ store.rows, ∀ e ∈ schema.entities, e.id = row.entity → ∀ a ∈ e.attributes,
    (row.value a.name).OfType a.type

theorem Typed.ofType {schema : Schema} (h : store.Typed schema) (hs : s ∈ store.rows)
    {entity : EntityId} (hentity : s.entity = entity) {name : String} {a : Attribute}
    (ha : schema.attributeOf? entity name = some a) : (s.value name).OfType a.type := by
  obtain ⟨e, he, ha⟩ := Option.bind_eq_some_iff.mp ha
  have hid : e.id = entity := by simpa using List.find?_some he
  have hname : a.name = name := by simpa using List.find?_some ha
  exact hname ▸ h s hs e (List.mem_of_find?_eq_some he) (hid.trans hentity.symm) a
    (List.mem_of_find?_eq_some ha)

/-- No row holds a value that is no number. -/
def AvoidsNaN (store : Store) : Prop :=
  ∀ row ∈ store.rows, ∀ entry ∈ row.attributes.entries, entry.2.isNaN = false

theorem AvoidsNaN.isNaN_value (h : store.AvoidsNaN) (hs : s ∈ store.rows) (name : String) :
    (s.value name).isNaN = false := by
  rw [Row.value]
  cases hvalue : s.attribute? name with
  | none => rfl
  | some v => exact h s hs _ (s.attributes.get?_eq_some_iff.mp hvalue)

end FieldLookup.Store
