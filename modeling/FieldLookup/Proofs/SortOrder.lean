import FieldLookup.Query.Fetch
import Mathlib.Data.Bool.Basic
import Mathlib.Data.List.Forall2
import Mathlib.Order.Compare

/-!
The order of sort keys. Main statements: `Value.linearOn_sortCompare`, values of one type, numbers
with fractions apart, are in a linear order with null first; and `Query.compareKeys_eq_lt_iff`, one
list of values comes before another just if it does in the first key in which they differ.
-/
namespace FieldLookup

/-- A comparison that puts the elements with a property into a linear order. -/
structure LinearOn {α : Type} (P : α → Prop) (compare : α → α → Ordering) : Prop where
  eq_iff : ∀ {a b}, P a → P b → (compare a b = .eq ↔ a = b)
  swap : ∀ {a b}, P a → P b → compare a b = (compare b a).swap
  isLE_trans : ∀ {a b c}, P a → P b → P c → (compare a b).isLE → (compare b c).isLE →
    (compare a c).isLE

namespace LinearOn

variable {α β : Type} {P : α → Prop} {compare : α → α → Ordering}

/-- Elements that compare as their ranks do, of which no two have the same. -/
theorem of_rank {κ : Type} [Ord κ] [Std.TransOrd κ] [Std.LawfulEqOrd κ] (rank : α → κ)
    (hcompare : ∀ a b, P a → P b → compare a b = Ord.compare (rank a) (rank b))
    (hinj : ∀ a b, P a → P b → rank a = rank b → a = b) : LinearOn P compare where
  eq_iff {a b} ha hb := by
    rw [hcompare a b ha hb, Std.LawfulEqOrd.compare_eq_iff_eq]
    exact ⟨hinj a b ha hb, fun h => congrArg rank h⟩
  swap {a b} ha hb := by
    rw [hcompare a b ha hb, hcompare b a hb ha]
    exact Std.OrientedOrd.eq_swap
  isLE_trans {a b c} ha hb hc := by
    rw [hcompare a b ha hb, hcompare b c hb hc, hcompare a c ha hc]
    exact Std.TransOrd.isLE_trans

theorem reversed (h : LinearOn P compare) : LinearOn P fun a b => compare b a where
  eq_iff ha hb := (h.eq_iff hb ha).trans eq_comm
  swap ha hb := h.swap hb ha
  isLE_trans ha hb hc hab hbc := h.isLE_trans hc hb ha hbc hab

/-- What compares as such elements do is in a preorder. -/
theorem transCmp (h : LinearOn P compare) {f : β → α} (hf : ∀ b, P (f b)) :
    Std.TransCmp fun b c => compare (f b) (f c) where
  eq_swap := h.swap (hf _) (hf _)
  isLE_trans := h.isLE_trans (hf _) (hf _) (hf _)

theorem isLE_iff (h : LinearOn P compare) {a b : α} (ha : P a) (hb : P b) :
    (compare a b).isLE ↔ compare a b = .lt ∨ a = b := by
  rw [Ordering.isLE_iff_eq_lt_or_eq_eq, h.eq_iff ha hb]

theorem lt_trans (h : LinearOn P compare) {a b c : α} (ha : P a) (hb : P b) (hc : P c)
    (hab : compare a b = .lt) (hbc : compare b c = .lt) : compare a c = .lt := by
  have hle := h.isLE_trans ha hb hc (by rw [hab]; rfl) (by rw [hbc]; rfl)
  refine ((h.isLE_iff ha hc).mp hle).resolve_right ?_
  rintro rfl
  rw [h.swap ha hb, hbc] at hab
  cases hab

end LinearOn

/-! ## Values of one type -/

instance : Ord Date := ⟨Date.compare⟩

instance : Std.TransOrd Date :=
  inferInstanceAs (Std.TransCmp
    (compareLex (compareOn Date.year) (compareLex (compareOn Date.month) (compareOn Date.day))))

instance : Std.LawfulEqOrd Date where
  eq_of_compare {a b} h := by
    obtain ⟨hyear, h⟩ := Ordering.then_eq_eq.mp h
    obtain ⟨hmonth, hday⟩ := Ordering.then_eq_eq.mp h
    cases a
    cases b
    simp_all

namespace Value

/-- Null, or a value of the type. -/
def OfType (type : ScalarType) (v : Value) : Prop := v = null ∨ v.type? = some type

def asTimestamp? : Value → Option Int64
  | timestamp ms => some ms
  | _ => none

def asDate? : Value → Option Date
  | date d => some d
  | _ => none

/-- Values of one type are in a linear order, if it is not the type of numbers with fractions. -/
theorem linearOn_sortCompare {type : ScalarType} (h : type ≠ .float) :
    LinearOn (OfType type) sortCompare := by
  cases type with
  | float => exact absurd rfl h
  | bool =>
    refine .of_rank (fun v => v.asBool?.map Bool.toNat) (fun a b ha hb => ?_) fun a b ha hb => ?_
    · cases a <;> cases b <;> simp [OfType, type?] at ha hb <;> rfl
    · cases a <;> cases b <;> simp [OfType, type?] at ha hb <;>
        simp [asBool?, (Function.LeftInverse.injective Bool.ofNat_toNat).eq_iff]
  | int =>
    refine .of_rank (fun v => v.asInt?.map Int64.toInt) (fun a b ha hb => ?_) fun a b ha hb => ?_
    · cases a <;> cases b <;> simp [OfType, type?] at ha hb <;> rfl
    · cases a <;> cases b <;> simp [OfType, type?] at ha hb <;> simp [asInt?, Int64.toInt_inj]
  | text =>
    refine .of_rank asText? (fun a b ha hb => ?_) fun a b ha hb => ?_
    · cases a <;> cases b <;> simp [OfType, type?] at ha hb <;> rfl
    · cases a <;> cases b <;> simp [OfType, type?] at ha hb <;> simp [asText?]
  | timestamp =>
    refine .of_rank (fun v => v.asTimestamp?.map Int64.toInt) (fun a b ha hb => ?_)
      fun a b ha hb => ?_
    · cases a <;> cases b <;> simp [OfType, type?] at ha hb <;> rfl
    · cases a <;> cases b <;> simp [OfType, type?] at ha hb <;>
        simp [asTimestamp?, Int64.toInt_inj]
  | date =>
    refine .of_rank asDate? (fun a b ha hb => ?_) fun a b ha hb => ?_
    · cases a <;> cases b <;> simp [OfType, type?] at ha hb <;> rfl
    · cases a <;> cases b <;> simp [OfType, type?] at ha hb <;> simp [asDate?]

/-- Null comes before every other value; other values come in the order of their comparison. -/
def Before (a b : Value) : Prop := (a = null ∧ b ≠ null) ∨ a.compare? b = some .lt

theorem sortCompare_eq_lt_iff {a b : Value} : a.sortCompare b = .lt ↔ a.Before b := by
  unfold sortCompare Before
  split
  · simp [compare?_null_left]
  · next hb => exact ⟨fun _ => Or.inl ⟨rfl, hb⟩, fun _ => rfl⟩
  · simp [compare?_null_right]
  · next ha _ _ =>
    rw [Option.getD_eq_iff]
    simpa using fun h _ => absurd h ha

end Value

/-! ## Sort keys -/

/-- The order that a key asks for. -/
def SortKey.Before (key : SortKey) (a b : Value) : Prop :=
  match key.direction with
  | .ascending => a.Before b
  | .descending => b.Before a

/-- One list of values comes before another by the first key in which they differ. -/
inductive SortKey.Precede : List SortKey → List Value → List Value → Prop
  | first {key : SortKey} {keys : List SortKey} {a b : Value} {as bs : List Value} :
      key.Before a b → Precede (key :: keys) (a :: as) (b :: bs)
  | later {key : SortKey} {keys : List SortKey} {a : Value} {as bs : List Value} :
      Precede keys as bs → Precede (key :: keys) (a :: as) (a :: bs)

namespace Query

/-- A value of the type of its key for each key. -/
def OfTypes (type : SortKey → ScalarType) : List SortKey → List Value → Prop :=
  List.Forall₂ fun key v => v.OfType (type key)

theorem compareKey_eq_lt_iff {key : SortKey} {a b : Value} :
    compareKey key a b = .lt ↔ key.Before a b := by
  unfold compareKey SortKey.Before
  cases key.direction <;> exact Value.sortCompare_eq_lt_iff

theorem linearOn_compareKey (key : SortKey) {type : ScalarType} (h : type ≠ .float) :
    LinearOn (Value.OfType type) (compareKey key) := by
  unfold compareKey
  cases key.direction with
  | ascending => exact Value.linearOn_sortCompare h
  | descending => exact (Value.linearOn_sortCompare h).reversed

variable {type : SortKey → ScalarType} {keys : List SortKey}

theorem linearOn_compareKeys (h : ∀ key ∈ keys, type key ≠ .float) :
    LinearOn (OfTypes type keys) (compareKeys keys) := by
  induction keys with
  | nil =>
    refine ⟨fun {a b} ha hb => ?_, fun _ _ => rfl, fun _ _ _ _ _ => rfl⟩
    cases ha
    cases hb
    exact ⟨fun _ => rfl, fun _ => rfl⟩
  | cons key keys ih =>
    have hkey := linearOn_compareKey key (h key List.mem_cons_self)
    have hkeys := ih fun key hk => h key (List.mem_cons_of_mem _ hk)
    refine ⟨?_, ?_, ?_⟩
    · rintro _ _ (_ | ⟨ha, has⟩) (_ | ⟨hb, hbs⟩)
      rw [compareKeys, Ordering.then_eq_eq, hkey.eq_iff ha hb, hkeys.eq_iff has hbs,
        List.cons.injEq]
    · rintro _ _ (_ | ⟨ha, has⟩) (_ | ⟨hb, hbs⟩)
      rw [compareKeys, compareKeys, Ordering.swap_then, ← hkey.swap ha hb, ← hkeys.swap has hbs]
    · rintro _ _ _ (_ | ⟨ha, has⟩) (_ | ⟨hb, hbs⟩) (_ | ⟨hc, hcs⟩)
      rw [compareKeys, compareKeys, compareKeys, Ordering.isLE_then_iff_or,
        Ordering.isLE_then_iff_or, Ordering.isLE_then_iff_or, hkey.eq_iff ha hb,
        hkey.eq_iff hb hc, hkey.eq_iff ha hc]
      rintro (hab | ⟨rfl, hab⟩) (hbc | ⟨rfl, hbc⟩)
      · exact Or.inl (hkey.lt_trans ha hb hc hab hbc)
      · exact Or.inl hab
      · exact Or.inl hbc
      · exact Or.inr ⟨rfl, hkeys.isLE_trans has hbs hcs hab hbc⟩

theorem compareKeys_eq_lt_iff (h : ∀ key ∈ keys, type key ≠ .float) {as bs : List Value}
    (has : OfTypes type keys as) (hbs : OfTypes type keys bs) :
    compareKeys keys as bs = .lt ↔ SortKey.Precede keys as bs := by
  induction has generalizing bs with
  | nil =>
    cases hbs
    exact ⟨nofun, nofun⟩
  | @cons key a keys as ha has ih =>
    obtain _ | ⟨hb, hbs⟩ := hbs
    rw [compareKeys, Ordering.then_eq_lt, compareKey_eq_lt_iff,
      (linearOn_compareKey key (h key List.mem_cons_self)).eq_iff ha hb,
      ih (fun key hk => h key (List.mem_cons_of_mem _ hk)) hbs]
    constructor
    · rintro (hfirst | ⟨rfl, hlater⟩)
      · exact .first hfirst
      · exact .later hlater
    · rintro (hfirst | hlater)
      · exact Or.inl hfirst
      · exact Or.inr ⟨rfl, hlater⟩

theorem not_precede_of_precede (h : ∀ key ∈ keys, type key ≠ .float) {as bs : List Value}
    (has : OfTypes type keys as) (hbs : OfTypes type keys bs)
    (hab : SortKey.Precede keys as bs) : ¬SortKey.Precede keys bs as := by
  rw [← compareKeys_eq_lt_iff h hbs has, (linearOn_compareKeys h).swap hbs has,
    (compareKeys_eq_lt_iff h has hbs).mpr hab]
  exact nofun

/-- Of two lists one comes before the other, unless they are the same. -/
theorem eq_of_not_precede (h : ∀ key ∈ keys, type key ≠ .float) {as bs : List Value}
    (has : OfTypes type keys as) (hbs : OfTypes type keys bs)
    (hab : ¬SortKey.Precede keys as bs) (hba : ¬SortKey.Precede keys bs as) : as = bs := by
  have hlinear := linearOn_compareKeys h
  rw [← compareKeys_eq_lt_iff h has hbs] at hab
  rw [← compareKeys_eq_lt_iff h hbs has, hlinear.swap hbs has] at hba
  refine (hlinear.eq_iff has hbs).mp ?_
  cases hcompare : compareKeys keys as bs with
  | lt => exact absurd hcompare hab
  | eq => rfl
  | gt => exact absurd (congrArg Ordering.swap hcompare) hba

end Query

end FieldLookup
