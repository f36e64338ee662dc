import FieldLookup.Proofs.Checked
import FieldLookup.Proofs.Comparability
import FieldLookup.Proofs.StableOrder

/-!
When the comparison of sorting is a preorder. Main statements: `Value.transitiveOn_sortCompare_iff`,
on values that rounding does not confuse it is transitive just if they all tie or are all in some
order; `Query.transitiveOn_compareKeys_iff`, on lists of key values just if it is under each key;
and `Query.compareKeys_preorder`, sorting then puts nothing before what precedes it.
-/
namespace FieldLookup

namespace TransitiveOn

variable {α β : Type} {P : α → Prop} {compare : α → α → Ordering}

theorem mono (h : TransitiveOn P compare) {Q : α → Prop} (hQ : ∀ a, Q a → P a) :
    TransitiveOn Q compare :=
  fun a b c ha hb hc => h a b c (hQ a ha) (hQ b hb) (hQ c hc)

theorem reversed (h : TransitiveOn P compare) : TransitiveOn P fun a b => compare b a :=
  fun a b c ha hb hc hab hbc => h c b a hc hb ha hbc hab

/-- What compares as such elements do is in a preorder. -/
theorem transCmp [Std.OrientedCmp compare] (h : TransitiveOn P compare) {f : β → α}
    (hf : ∀ b, P (f b)) : Std.TransCmp fun b c => compare (f b) (f c) where
  eq_swap := Std.OrientedCmp.eq_swap
  isLE_trans := h _ _ _ (hf _) (hf _) (hf _)

/-- Pairs that are compared by their first parts, and by the second ones where these tie. -/
theorem lex [Std.OrientedCmp compare] (h : TransitiveOn P compare) {Q : β → Prop}
    {compare' : β → β → Ordering} [Std.OrientedCmp compare'] (h' : TransitiveOn Q compare') :
    TransitiveOn (fun x : α × β => P x.1 ∧ Q x.2)
      fun x y => (compare x.1 y.1).then (compare' x.2 y.2) := by
  intro a b c ha hb hc
  have hfirst : Std.TransCmp fun x y : {x : α × β // P x.1 ∧ Q x.2} => compare x.1.1 y.1.1 :=
    h.transCmp fun x => x.2.1
  have hsecond : Std.TransCmp fun x y : {x : α × β // P x.1 ∧ Q x.2} => compare' x.1.2 y.1.2 :=
    h'.transCmp fun x => x.2.2
  have hlex : Std.TransCmp (compareLex (fun x y : {x : α × β // P x.1 ∧ Q x.2} =>
      compare x.1.1 y.1.1) fun x y => compare' x.1.2 y.1.2) := inferInstance
  exact hlex.isLE_trans (a := ⟨a, ha⟩) (b := ⟨b, hb⟩) (c := ⟨c, hc⟩)

end TransitiveOn

/-! ## Values -/

namespace Value

theorem sortCompare_swap (a b : Value) : sortCompare a b = (sortCompare b a).swap := by
  have hgetD : (compare? a b).getD .eq = ((compare? b a).getD .eq).swap := by
    rw [compare?_swap b a]
    cases compare? b a <;> rfl
  cases a with
  | null => cases b <;> rfl
  | _ =>
    cases b with
    | null => rfl
    | _ => exact hgetD

instance : Std.OrientedCmp sortCompare := ⟨sortCompare_swap _ _⟩

theorem sortCompare_of_ne_null {a b : Value} (ha : a ≠ null) (hb : b ≠ null) :
    sortCompare a b = (compare? a b).getD .eq := by
  unfold sortCompare
  split
  · exact absurd rfl ha
  · exact absurd rfl ha
  · exact absurd rfl hb
  · rfl

/-- No number with a fraction compares equal to two integers. -/
def Unrounded (V : Value → Prop) : Prop :=
  ∀ m n x, V (int m) → V (int n) → V (float x) → compare? (int m) (float x) = some .eq →
    compare? (int n) (float x) = some .eq → m = n

/-- All values but null tie, or any two of them are in some order. -/
def Uniform (V : Value → Prop) : Prop :=
  (∀ a b, V a → V b → a ≠ null → b ≠ null → sortCompare a b = .eq) ∨
    ∀ a b, V a → V b → a ≠ null → b ≠ null → (compare? a b).isSome

theorem isLE_null_left (b : Value) : (sortCompare null b).isLE = true := by
  cases b <;> rfl

/-- Only null is in front of null. -/
theorem eq_null_of_isLE {a b : Value} (h : (sortCompare a b).isLE = true) (hb : b = null) :
    a = null := by
  subst hb
  cases a with
  | null => rfl
  | _ => cases h

theorem sortCompare_eq_of_compare? {a b : Value} (ha : a ≠ null) (hb : b ≠ null)
    (h : ¬(compare? a b).isSome) : sortCompare a b = .eq ∧ sortCompare b a = .eq := by
  have heq : sortCompare a b = .eq := by
    rw [sortCompare_of_ne_null ha hb, Option.not_isSome_iff_eq_none.mp h]
    rfl
  exact ⟨heq, Std.OrientedCmp.eq_symm heq⟩

/-- A value that is in no order with either of two ties with both, and so makes them tie. -/
theorem sortCompare_eq_of_stranger {V : Value → Prop} (h : TransitiveOn V sortCompare)
    {a b e : Value} (ha : V a) (hb : V b) (he : V e) (hna : a ≠ null) (hnb : b ≠ null)
    (hne : e ≠ null) (hae : ¬(compare? a e).isSome) (hbe : ¬(compare? b e).isSome) :
    sortCompare a b = .eq := by
  obtain ⟨hae, hea⟩ := sortCompare_eq_of_compare? hna hne hae
  obtain ⟨hbe, heb⟩ := sortCompare_eq_of_compare? hnb hne hbe
  have hab : (sortCompare a b).isLE := h a e b ha he hb (by rw [hae]; rfl) (by rw [heb]; rfl)
  have hba : (sortCompare b a).isLE := h b e a hb he ha (by rw [hbe]; rfl) (by rw [hea]; rfl)
  rw [sortCompare_swap b a] at hba
  cases hcompare : sortCompare a b with
  | eq => rfl
  | lt =>
    rw [hcompare] at hba
    cases hba
  | gt =>
    rw [hcompare] at hab
    cases hab

theorem uniform_of_transitiveOn {V : Value → Prop} (h : TransitiveOn V sortCompare) :
    Uniform V := by
  refine or_iff_not_imp_right.mpr fun hnot a b ha hb hna hnb => ?_
  by_cases hab : (compare? a b).isSome
  · -- of two values in no order one is of another kind than the two that are in one
    push Not at hnot
    obtain ⟨c, d, hc, hd, hnc, hnd, hcd⟩ := hnot
    obtain ⟨e, he, hne, hkind⟩ : ∃ e, V e ∧ e ≠ null ∧ a.kind? ≠ e.kind? := by
      by_contra hall
      push Not at hall
      refine hcd (compare?_isSome_iff.mpr ?_)
      rw [← hall c hc hnc, ← hall d hd hnd]
      exact ⟨(compare?_isSome_iff.mp hab).1, rfl⟩
    refine sortCompare_eq_of_stranger h ha hb he hna hnb hne ?_ ?_
    · exact fun hae => hkind (compare?_isSome_iff.mp hae).2
    · exact fun hbe =>
        hkind ((compare?_isSome_iff.mp hab).2.trans (compare?_isSome_iff.mp hbe).2)
  · exact (sortCompare_eq_of_compare? hna hnb hab).1

/-! ## Numbers -/

/-- The place of a number in the order of all numbers; an integer is rounded. -/
def rank : Value → Int
  | int n => (Binary64.ofInt n.toInt).rank
  | float x => x.rank
  | _ => 0

theorem kind?_eq_float_iff {v : Value} :
    v.kind? = some .float ↔ (∃ n, v = int n) ∨ ∃ x, v = float x ∧ x.isNaN = false := by
  cases v <;> simp [kind?, type?]

theorem type?_of_kind? {v : Value} {type : ScalarType} (h : v.kind? = some type)
    (hfloat : type ≠ .float) : v.type? = some type := by
  cases v with
  | int n => exact absurd (Option.some.inj h).symm hfloat
  | float x =>
    rw [kind?] at h
    split at h <;> cases h
    exact absurd rfl hfloat
  | _ => exact h

/-- Numbers that are not both integers compare as their ranks do. -/
theorem sortCompare_eq_compare_rank {a b : Value} (ha : a.kind? = some .float)
    (hb : b.kind? = some .float) (hnot : ∀ m n, a = int m → b ≠ int n) :
    sortCompare a b = compare a.rank b.rank := by
  have hfloats {x y : Binary64} (hx : x.isNaN = false) (hy : y.isNaN = false) :
      (Binary64.compare? x y).getD .eq = compare x.rank y.rank := by
    rw [Binary64.compare?_eq_some hx hy, Option.getD_some]
  rcases kind?_eq_float_iff.mp ha with ⟨m, rfl⟩ | ⟨x, rfl, hx⟩ <;>
    rcases kind?_eq_float_iff.mp hb with ⟨n, rfl⟩ | ⟨y, rfl, hy⟩
  · exact absurd rfl (hnot m n rfl)
  · exact hfloats (Binary64.isNaN_ofInt _) hy
  · exact hfloats hx (Binary64.isNaN_ofInt _)
  · exact hfloats hx hy

theorem sortCompare_int (m n : Int64) : sortCompare (int m) (int n) = compare m.toInt n.toInt := rfl

/-- Numbers in order have ranks in order. -/
theorem rank_le_of_isLE {a b : Value} (ha : a.kind? = some .float) (hb : b.kind? = some .float)
    (h : (sortCompare a b).isLE) : a.rank ≤ b.rank := by
  by_cases hints : ∃ m n, a = int m ∧ b = int n
  · obtain ⟨m, n, rfl, rfl⟩ := hints
    rw [sortCompare_int, Int.isLE_compare] at h
    exact Binary64.rank_ofInt_mono h
  · push Not at hints
    rwa [sortCompare_eq_compare_rank ha hb hints, Int.isLE_compare] at h

/-- Numbers of which no fraction is rounded to from two integers are in a preorder. -/
theorem isLE_trans_of_numbers {V : Value → Prop} (hV : Unrounded V) {a b c : Value} (ha : V a)
    (hb : V b) (hc : V c) (hka : a.kind? = some .float) (hkb : b.kind? = some .float)
    (hkc : c.kind? = some .float) (hab : (sortCompare a b).isLE) (hbc : (sortCompare b c).isLE) :
    (sortCompare a c).isLE := by
  have hrank := rank_le_of_isLE hka hkb hab
  have hrank' := rank_le_of_isLE hkb hkc hbc
  by_cases hints : ∃ m n, a = int m ∧ c = int n
  · obtain ⟨m, n, rfl, rfl⟩ := hints
    rcases kind?_eq_float_iff.mp hkb with ⟨k, rfl⟩ | ⟨x, rfl, hx⟩
    · rw [sortCompare_int, Int.isLE_compare] at *
      exact hab.trans hbc
    · -- the larger of two integers around a fraction would be rounded to it, as would the smaller
      rw [sortCompare_int, Int.isLE_compare]
      by_contra hlt
      have hmono : (int n).rank ≤ (int m).rank :=
        Binary64.rank_ofInt_mono (Int.le_of_lt (Int.not_le.mp hlt))
      have heq (k : Int64) (hk : (int k).rank = (float x).rank) :
          compare? (int k) (float x) = some .eq := by
        rw [compare?, compareFloats?, asFloat?, asFloat?]
        exact (Binary64.compare?_eq_some (Binary64.isNaN_ofInt _) hx).trans
          (congrArg some (Int.compare_eq_eq.mpr hk))
      have hmn := hV m n x ha hc hb (heq m (by omega)) (heq n (by omega))
      rw [hmn] at hlt
      exact hlt (Int.le_refl _)
  · push Not at hints
    rw [sortCompare_eq_compare_rank hka hkc hints, Int.isLE_compare]
    exact hrank.trans hrank'

/-! ## Values in a preorder -/

theorem transitiveOn_of_uniform {V : Value → Prop} (hV : Unrounded V) (h : Uniform V) :
    TransitiveOn V sortCompare := by
  intro a b c ha hb hc hab hbc
  -- null is in front of all values, so only values behind one that is not null matter
  by_cases hna : a = null
  · exact hna ▸ isLE_null_left c
  have hnb : b ≠ null := fun hb => hna (eq_null_of_isLE hab hb)
  have hnc : c ≠ null := fun hc => hnb (eq_null_of_isLE hbc hc)
  rcases h with htie | hsome
  · rw [htie a c ha hc hna hnc]
    rfl
  · obtain ⟨hkind, hkab⟩ := compare?_isSome_iff.mp (hsome a b ha hb hna hnb)
    have hkac := (compare?_isSome_iff.mp (hsome a c ha hc hna hnc)).2
    obtain ⟨kind, hka⟩ := Option.isSome_iff_exists.mp hkind
    rw [hka] at hkab hkac
    by_cases hfloat : kind = .float
    · subst hfloat
      exact isLE_trans_of_numbers hV ha hb hc hka hkab.symm hkac.symm hab hbc
    · have hof {v : Value} (hv : v.kind? = some kind) : v.OfType kind :=
        Or.inr (type?_of_kind? hv hfloat)
      exact (linearOn_sortCompare hfloat).isLE_trans (hof hka) (hof hkab.symm) (hof hkac.symm)
        hab hbc

/-- Values of one type, none of which is no number, are in a preorder. -/
theorem transitiveOn_of_ofType {V : Value → Prop} {type : ScalarType}
    (htype : ∀ v, V v → v.OfType type) (hnum : ∀ v, V v → v.isNaN = false) :
    TransitiveOn V sortCompare := by
  refine transitiveOn_of_uniform (fun m n x hm _ hx _ _ => ?_) (Or.inr fun a b ha hb hna hnb => ?_)
  · -- an integer and a number with a fraction are of different types
    have hint : some .int = some type := (htype _ hm).resolve_left (by simp)
    have hfloat : some .float = some type := (htype _ hx).resolve_left (by simp)
    cases hint.trans hfloat.symm
  · exact isSome_compare?_of_ofType (htype a ha) (htype b hb) hna hnb (hnum a ha) (hnum b hb)

/-- On values that rounding does not confuse, the comparison of sorting is transitive just if all
but null tie, or any two of them are in some order. -/
theorem transitiveOn_sortCompare_iff {V : Value → Prop} (hV : Unrounded V) :
    TransitiveOn V sortCompare ↔ Uniform V :=
  ⟨uniform_of_transitiveOn, transitiveOn_of_uniform hV⟩

end Value

/-! ## Sort keys -/

namespace Query

theorem compareKey_swap (key : SortKey) (a b : Value) :
    compareKey key a b = (compareKey key b a).swap := by
  unfold compareKey
  cases key.direction <;> exact Value.sortCompare_swap _ _

instance (key : SortKey) : Std.OrientedCmp (compareKey key) := ⟨compareKey_swap key _ _⟩

theorem transitiveOn_compareKey_iff (key : SortKey) {V : Value → Prop} :
    TransitiveOn V (compareKey key) ↔ TransitiveOn V Value.sortCompare := by
  unfold compareKey
  cases key.direction with
  | ascending => exact Iff.rfl
  | descending => exact ⟨TransitiveOn.reversed, TransitiveOn.reversed⟩

theorem compareKeys_swap (keys : List SortKey) (as bs : List Value) :
    compareKeys keys as bs = (compareKeys keys bs as).swap := by
  induction keys generalizing as bs with
  | nil => rfl
  | cons key keys ih =>
    cases as with
    | nil => cases bs <;> rfl
    | cons a as =>
      cases bs with
      | nil => rfl
      | cons b bs =>
        rw [compareKeys, compareKeys, Ordering.swap_then, ← ih as bs, ← compareKey_swap key a b]

instance (keys : List SortKey) : Std.OrientedCmp (compareKeys keys) := ⟨compareKeys_swap keys _ _⟩

theorem compareKeys_self (keys : List SortKey) (as : List Value) :
    compareKeys keys as as = .eq :=
  Std.ReflCmp.compare_self

variable {keys front back : List SortKey} {key : SortKey} {V : SortKey → Value → Prop}

/-- Lists that differ under one key only compare as they do under it. -/
theorem compareKeys_of_differ (w : SortKey → Value) (a b : Value) :
    compareKeys (front ++ key :: back) (front.map w ++ a :: back.map w)
      (front.map w ++ b :: back.map w) = compareKey key a b := by
  induction front with
  | nil =>
    rw [List.map_nil, List.nil_append, List.nil_append, List.nil_append, compareKeys,
      compareKeys_self, Ordering.then_eq]
  | cons first front ih =>
    have hself : compareKey first (w first) (w first) = .eq := Std.ReflCmp.compare_self
    rw [List.map_cons, List.cons_append, List.cons_append, List.cons_append, compareKeys, ih, hself,
      Ordering.eq_then]

theorem transitiveOn_compareKeys
    (h : ∀ key ∈ keys, TransitiveOn (V key) Value.sortCompare) :
    TransitiveOn (List.Forall₂ V keys) (compareKeys keys) := by
  induction keys with
  | nil =>
    rintro _ _ _ (_ | _) (_ | _) (_ | _) _ _
    rfl
  | cons key keys ih =>
    have hkey := (transitiveOn_compareKey_iff key).mpr (h key List.mem_cons_self)
    have hkeys := ih fun key hkey => h key (List.mem_cons_of_mem _ hkey)
    rintro _ _ _ (_ | ⟨ha, has⟩) (_ | ⟨hb, hbs⟩) (_ | ⟨hc, hcs⟩)
    exact hkey.lex hkeys (_, _) (_, _) (_, _) ⟨ha, has⟩ ⟨hb, hbs⟩ ⟨hc, hcs⟩

/-- Comparing lists of key values is transitive just if comparing values is so under each key. -/
theorem transitiveOn_compareKeys_iff (hne : ∀ key ∈ keys, ∃ v, V key v) :
    TransitiveOn (List.Forall₂ V keys) (compareKeys keys) ↔
      ∀ key ∈ keys, TransitiveOn (V key) Value.sortCompare := by
  refine ⟨fun h key hkey => ?_, transitiveOn_compareKeys⟩
  have : Nonempty Value := ⟨.null⟩
  choose! w hw using hne
  obtain ⟨front, back, rfl⟩ := List.append_of_mem hkey
  have hof (v : Value) (hv : V key v) :
      List.Forall₂ V (front ++ key :: back) (front.map w ++ v :: back.map w) := by
    refine List.rel_append ?_ (.cons hv ?_) <;>
      exact List.forall₂_map_right_iff.mpr
        (List.forall₂_same.mpr fun key hkey => hw key (by simp [hkey]))
  rw [← transitiveOn_compareKey_iff key]
  intro a b c ha hb hc
  rw [← compareKeys_of_differ w a b, ← compareKeys_of_differ w b c, ← compareKeys_of_differ w a c]
  exact h _ _ _ (hof a ha) (hof b hb) (hof c hc)

/-! ## Arranging -/

section

variable {α : Type} {k : α → List Value} {xs sorted : List α}

/-- Elements in the order of the key values that each of them has, if they can be sorted. Without
keys they stay as they are. -/
def arrangedBy (keys : List SortKey) (k : α → List Value) (xs : List α) : Option (List α) :=
  if keys.isEmpty then some xs else sortBy (fun x y => compareKeys keys (k x) (k y)) xs

theorem perm_of_arrangedBy (h : arrangedBy keys k xs = some sorted) : sorted.Perm xs := by
  unfold arrangedBy at h
  split at h
  · cases h
    exact List.Perm.refl _
  · exact perm_of_sortBy h

/-- Few elements are sorted whatever their key values. -/
theorem exists_arrangedBy_of_short (h : xs.length ≤ shortLength) :
    ∃ sorted, arrangedBy keys k xs = some sorted := by
  unfold arrangedBy
  split
  · exact ⟨xs, rfl⟩
  · exact exists_sortBy_iff.mpr (Or.inl h)

/-- Values that are in a preorder under each key put the lists of them into one. -/
theorem preorders_compareKeys (h : ∀ key ∈ keys, TransitiveOn (V key) Value.sortCompare)
    (hk : ∀ x ∈ xs, List.Forall₂ V keys (k x)) :
    Preorders (fun x y => compareKeys keys (k x) (k y)) xs where
  swap _ _ _ _ := compareKeys_swap ..
  trans _ _ _ hx hy hz := transitiveOn_compareKeys h _ _ _ (hk _ hx) (hk _ hy) (hk _ hz)

end

end Query

namespace Preorders

variable {α : Type} {keys : List SortKey} {k : α → List Value} {xs sorted : List α}

theorem exists_arrangedBy (h : Preorders (fun x y => Query.compareKeys keys (k x) (k y)) xs) :
    ∃ sorted, Query.arrangedBy keys k xs = some sorted := by
  unfold Query.arrangedBy
  split
  · exact ⟨xs, rfl⟩
  · exact h.exists_sortBy

theorem pairwise_arrangedBy {R : α → α → Prop}
    (h : Preorders (fun x y => Query.compareKeys keys (k x) (k y)) xs) (hR : xs.Pairwise R)
    (hsorted : Query.arrangedBy keys k xs = some sorted) :
    sorted.Pairwise (Stably (fun x y => Query.compareKeys keys (k x) (k y)) R) := by
  unfold Query.arrangedBy at hsorted
  split at hsorted
  · next hnil =>
    -- without sort keys all elements tie
    cases hsorted
    rw [List.isEmpty_iff.mp hnil]
    exact hR.imp fun h => Or.inr ⟨rfl, h⟩
  · exact h.pairwise_sortBy hR hsorted

end Preorders

namespace Query

variable {keys : List SortKey} {key : SortKey}

/-! ## Sorted bindings -/

/-- A value that a sort key meets in some binding. -/
def Meets (store : Store) (bindings : List Binding) (key : SortKey) (v : Value) : Prop :=
  ∃ b ∈ bindings, store.valueAt b key.column = .ok v

variable {store : Store} {bindings : List Binding}

theorem meets_iff_of_mapM {vs : List Value} {v : Value}
    (h : bindings.mapM (store.valueAt · key.column) = .ok vs) :
    Meets store bindings key v ↔ v ∈ vs :=
  (Checked.mem_iff_of_mapM h).symm

theorem forall₂_meets {b : Binding} (hb : b ∈ bindings) {vs : List Value}
    (h : keyValues store keys b = .ok vs) : List.Forall₂ (Meets store bindings) keys vs :=
  (Checked.mapM_eq_ok_iff.mp h).imp fun _ _ hv => ⟨b, hb, hv⟩

/-- What is read for all bindings of a list arranges what they belong to. -/
theorem arrange_map {α : Type} {g : α → Binding} {k : α → List Value} {as : List α}
    (h : ∀ a ∈ as, keyValues store keys (g a) = .ok (k a)) :
    arrange store keys (as.map g) =
      (arrangedBy keys k as).elim (.error .unsortable) fun sorted => .ok (sorted.map g) := by
  unfold arrange arrangedBy
  split
  · rfl
  · have hkeyed : (as.map g).mapM (fun b => do return (← keyValues store keys b, b)) =
        .ok (as.map fun a => (k a, g a)) := by
      refine Checked.mapM_eq_ok_iff.mpr ?_
      rw [List.forall₂_map_left_iff, List.forall₂_map_right_iff, List.forall₂_same]
      intro a ha
      rw [h a ha]
      rfl
    rw [hkeyed, Checked.ok_bind, sortBy_map]
    cases sortBy (fun a b => compareKeys keys (k a) (k b)) as with
    | none => rfl
    | some sorted => exact congrArg Except.ok (List.map_map ..)

/-- If the values that meet under each key are in a preorder, no binding is put behind one that it
precedes. -/
theorem arrange_in_order (hread : ∀ b ∈ bindings, ∀ key ∈ keys, ∃ v,
      store.valueAt b key.column = .ok v)
    (h : ∀ key ∈ keys, TransitiveOn (Meets store bindings key) Value.sortCompare) :
    ∃ sorted, arrange store keys bindings = .ok sorted ∧ sorted.Perm bindings ∧
      sorted.Pairwise fun b c => ∀ vs ws, keyValues store keys b = .ok vs →
        keyValues store keys c = .ok ws → compareKeys keys ws vs ≠ .lt := by
  have hvalues : ∀ b ∈ bindings, ∃ vs, keyValues store keys b = .ok vs := fun b hb =>
    Checked.exists_mapM_iff.mpr (hread b hb)
  choose! f hf using hvalues
  have hpreorders := preorders_compareKeys h fun b hb => forall₂_meets hb (hf b hb)
  obtain ⟨sorted, hsorted⟩ := hpreorders.exists_arrangedBy
  have hperm := perm_of_arrangedBy hsorted
  refine ⟨sorted, ?_, hperm, ?_⟩
  · have harrange := arrange_map (g := id) hf
    rw [hsorted, List.map_id] at harrange
    exact harrange.trans (congrArg Except.ok (List.map_id sorted))
  · have hpairwise := hpreorders.pairwise_arrangedBy
      (List.pairwise_of_forall fun _ _ => trivial : bindings.Pairwise fun _ _ => True) hsorted
    refine hpairwise.imp_of_mem fun {b c} hb hc hbc vs ws hvs hws hlt => ?_
    rw [hf b (hperm.mem_iff.mp hb)] at hvs
    rw [hf c (hperm.mem_iff.mp hc)] at hws
    rw [← Except.ok.inj hvs, ← Except.ok.inj hws] at hlt
    exact Std.OrientedCmp.not_isLE_of_lt hlt hbc.isLE

/-- The comparison of sorting is reflexive, and exchanging two lists of key values reverses it. On
values that rounding does not confuse it is transitive just if those under each key tie, null apart,
or are all in some order; and sorting then puts no binding behind one that it precedes. -/
theorem compareKeys_preorder (keys : List SortKey) :
    (∀ as, compareKeys keys as as = .eq) ∧
      (∀ as bs, compareKeys keys as bs = (compareKeys keys bs as).swap) ∧
      (∀ V : SortKey → Value → Prop,
        (∀ key ∈ keys, (∃ v, V key v) ∧ Value.Unrounded (V key)) →
          (TransitiveOn (List.Forall₂ V keys) (compareKeys keys) ↔
            ∀ key ∈ keys, Value.Uniform (V key))) ∧
      ∀ store bindings,
        (∀ b ∈ bindings, ∀ key ∈ keys, ∃ v, Store.valueAt store b key.column = .ok v) →
        (∀ key ∈ keys, Value.Unrounded (Meets store bindings key) ∧
          Value.Uniform (Meets store bindings key)) →
          ∃ sorted, arrange store keys bindings = .ok sorted ∧ sorted.Perm bindings ∧
            sorted.Pairwise fun b c => ∀ vs ws, keyValues store keys b = .ok vs →
              keyValues store keys c = .ok ws → compareKeys keys ws vs ≠ .lt := by
  refine ⟨compareKeys_self keys, compareKeys_swap keys, fun V hV => ?_,
    fun store bindings hread h => ?_⟩
  · rw [transitiveOn_compareKeys_iff fun key hkey => (hV key hkey).1]
    exact forall₂_congr fun key hkey => Value.transitiveOn_sortCompare_iff (hV key hkey).2
  · exact arrange_in_order hread fun key hkey =>
      Value.transitiveOn_of_uniform (h key hkey).1 (h key hkey).2

/-- Rows of one entity with these values under one name. -/
def column (vs : List Value) : Store :=
  vs.foldl (fun store v => (store.insert ⟨0⟩ (Ordered.ofList [("n", v)])).2) .empty

/-- By the values of `column`, the largest first. -/
def falling : SortKey := ⟨⟨Path.root, ⟨0⟩, "n"⟩, .descending⟩

/-- Two, null, one and a half and one. -/
def numbers : List Value := [.int 2, .null, .float ⟨0x3ff8000000000000⟩, .int 1]

theorem read_numbers :
    (rootBindings (column numbers) ⟨0⟩).mapM (Store.valueAt (column numbers) · falling.column) =
      .ok numbers := rfl

theorem unrounded_numbers : Value.Unrounded (· ∈ numbers) := by
  have hall : ∀ a ∈ numbers, ∀ b ∈ numbers, ∀ c ∈ numbers, a.type? = some .int →
      b.type? = some .int → c.type? = some .float → a.compare? c = some .eq →
        b.compare? c = some .eq → a = b := by decide +kernel
  exact fun m n x hm hn hx hmx hnx => Value.int.inj (hall _ hm _ hn _ hx rfl rfl rfl hmx hnx)

theorem uniform_numbers : Value.Uniform (· ∈ numbers) := by
  have hall : ∀ a ∈ numbers, ∀ b ∈ numbers, a ≠ .null → b ≠ .null → (a.compare? b).isSome := by
    decide +kernel
  exact Or.inr fun a b ha hb => hall a ha b hb

/-- The theorem at numbers of both sorts and null. -/
theorem compareKeys_preorder_numbers :
    (∀ b ∈ rootBindings (column numbers) ⟨0⟩, ∀ key ∈ [falling], ∃ v,
        Store.valueAt (column numbers) b key.column = .ok v) ∧
      (∀ key ∈ [falling],
        Value.Unrounded (Meets (column numbers) (rootBindings (column numbers) ⟨0⟩) key) ∧
          Value.Uniform (Meets (column numbers) (rootBindings (column numbers) ⟨0⟩) key)) ∧
      ∃ sorted,
        arrange (column numbers) [falling] (rootBindings (column numbers) ⟨0⟩) = .ok sorted ∧
          rootIds sorted = [⟨1⟩, ⟨3⟩, ⟨4⟩, ⟨2⟩] ∧
            sorted.Pairwise fun b c => ∀ vs ws,
              keyValues (column numbers) [falling] b = .ok vs →
                keyValues (column numbers) [falling] c = .ok ws →
                  compareKeys [falling] ws vs ≠ .lt := by
  have hmeets : Meets (column numbers) (rootBindings (column numbers) ⟨0⟩) falling =
      (· ∈ numbers) :=
    funext fun v => propext (meets_iff_of_mapM read_numbers)
  have hread : ∀ b ∈ rootBindings (column numbers) ⟨0⟩, ∀ key ∈ [falling], ∃ v,
      Store.valueAt (column numbers) b key.column = .ok v := by
    intro b hb key hkey
    rw [List.mem_singleton.mp hkey]
    exact Checked.exists_mapM_iff.mp ⟨_, read_numbers⟩ b hb
  have hvalues : ∀ key ∈ [falling],
      Value.Unrounded (Meets (column numbers) (rootBindings (column numbers) ⟨0⟩) key) ∧
        Value.Uniform (Meets (column numbers) (rootBindings (column numbers) ⟨0⟩) key) := by
    intro key hkey
    rw [List.mem_singleton.mp hkey, hmeets]
    exact ⟨unrounded_numbers, uniform_numbers⟩
  have hsorted : (arrange (column numbers) [falling]
      (rootBindings (column numbers) ⟨0⟩)).toOption.map rootIds = some [⟨1⟩, ⟨3⟩, ⟨4⟩, ⟨2⟩] := by
    decide +kernel
  obtain ⟨sorted, harrange, -, hpairwise⟩ :=
    (compareKeys_preorder [falling]).2.2.2 _ _ hread hvalues
  rw [harrange] at hsorted
  exact ⟨hread, hvalues, sorted, harrange, Option.some.inj hsorted, hpairwise⟩

/-- A text ties with either of two integers that do not tie. So sorting leaves the larger one in
front of the smaller one, as it was. -/
theorem compareKeys_mixed :
    compareKeys [falling] [.int 1] [.text "x"] = .eq ∧
      compareKeys [falling] [.text "x"] [.int 2] = .eq ∧
      compareKeys [falling] [.int 1] [.int 2] = .gt ∧
      (arrange (column [.int 1, .text "x", .int 2]) [falling]
        (rootBindings (column [.int 1, .text "x", .int 2]) ⟨0⟩)).toOption.map rootIds =
          some [⟨1⟩, ⟨2⟩, ⟨3⟩] := by
  decide +kernel

/-- Among twenty integers of two sizes the text leaves no order at all. -/
def disordered : Store :=
  column (.text "x" :: List.replicate 10 (.int 1) ++ List.replicate 10 (.int 2))

example : (arrange disordered [falling] (rootBindings disordered ⟨0⟩)).toOption = none := by
  decide +kernel

end Query

end FieldLookup
