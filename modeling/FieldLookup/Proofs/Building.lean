import FieldLookup.Lookup.Operator
import FieldLookup.Proofs.Checked

/-!
The predicates that operators build. Main statements: `builds_of_build`, the forms of what an
operator builds; `build_isLeaf`, it is one test of the column, whose pattern can be read if it is a
regular expression; and `build_refuses`, an operator fails only by refusing a value under its own
token.
-/
namespace FieldLookup

/-- One test of a column; the pattern of a regular expression can be read. -/
structure Predicate.IsLeaf (p : Predicate) (c : Column) : Prop where
  leaves : p.leaves = [p]
  column : p.column? = some c
  readable : ∀ column pattern ignoreCase, p = .regex column pattern ignoreCase →
    ∃ node, Pattern.Node.ofText (Pattern.sourceOfRegex pattern ignoreCase) = .ok node

namespace Operator

variable {op : Operator} {c : Column} {a : Attribute} {v : Value} {coerce : Bool} {p : Predicate}

/-! ## Values that are taken -/

/-- A value that is taken for another one under an attribute, as a scalar that is not null. -/
structure Takes (a : Attribute) (v w : Value) : Prop where
  isNull : v.isNull = false
  isList : v.isList = false
  convert : convertFor? a v = some w

theorem scalar_eq_ok_iff {w : Value} :
    op.scalar a v true = .ok w ↔ v.isList = false ∧ convertFor? a v = some w := by
  unfold scalar
  split
  · next h => simp [refuse, h]
  · next h =>
    rw [if_pos rfl]
    split
    · next w' hw => simp [h, hw]
    · next hnone => simp [refuse, hnone]

theorem bound_eq_ok_iff {w : Value} : op.bound a v true = .ok w ↔ Takes a v w := by
  unfold bound
  split
  · next h => exact iff_of_false nofun fun hv => by simp [hv.isNull] at h
  · next h =>
    rw [scalar_eq_ok_iff]
    exact ⟨fun ⟨hlist, hw⟩ => ⟨by simpa using h, hlist, hw⟩, fun hv => ⟨hv.isList, hv.convert⟩⟩

theorem ensureColumn_eq_ok_iff :
    op.ensureColumn a v = .ok () ↔
      (op.datePart?.isSome → a.type = .date ∨ a.type = .timestamp) ∧
        (op.isTextual → a.type = .text) := by
  unfold ensureColumn
  split
  · next h => exact iff_of_false nofun fun hc => by tauto
  · next h =>
    split
    · next h' => exact iff_of_false nofun fun hc => h'.2 (hc.2 h'.1)
    · next h' => exact iff_of_true rfl ⟨by tauto, by tauto⟩

/-! ## What is built -/

theorem compareWith_eq_ok {comparison : Comparison}
    (h : op.compareWith comparison c a v coerce = .ok p) :
    ∃ w, op.bound a v coerce = .ok w ∧ p = .compare c comparison w := by
  obtain ⟨w, hw, h⟩ := Checked.bind_eq_ok_iff.mp h
  exact ⟨w, hw, (Except.ok.inj h).symm⟩

theorem likeWith_eq_ok {before after : String} {ignoreCase : Bool}
    (h : op.likeWith before after ignoreCase c v coerce = .ok p) :
    ∃ s, op.text v coerce = .ok s ∧
      p = .like c (before ++ Pattern.likeLiteral s ++ after) ignoreCase := by
  obtain ⟨s, hs, h⟩ := Checked.bind_eq_ok_iff.mp h
  exact ⟨s, hs, (Except.ok.inj h).symm⟩

theorem regexWith_eq_ok {ignoreCase : Bool} (h : op.regexWith ignoreCase c v coerce = .ok p) :
    ∃ s node, op.text v coerce = .ok s ∧
      Pattern.Node.ofText (Pattern.sourceOfRegex s ignoreCase) = .ok node ∧
        p = .regex c s ignoreCase := by
  obtain ⟨s, hs, h⟩ := Checked.bind_eq_ok_iff.mp h
  split at h
  · next node hn => exact ⟨s, node, hs, hn, (Except.ok.inj h).symm⟩
  · cases h

theorem memberWith_eq_ok (h : op.memberWith c a v coerce = .ok p) :
    ∃ items ws, v = .list items ∧ items.mapM (fun item => op.scalar a item coerce) = .ok ws ∧
      p = .oneOf c ws := by
  unfold memberWith at h
  split at h
  · next items =>
    obtain ⟨ws, hws, h⟩ := Checked.bind_eq_ok_iff.mp h
    exact ⟨items, ws, rfl, hws, (Except.ok.inj h).symm⟩
  · cases h

theorem nullWith_eq_ok (h : op.nullWith c v coerce = .ok p) :
    ∃ b, v.convert? .bool = some (.bool b) ∧ (coerce || v.asBool?.isSome) = true ∧
      p = .isNull c b := by
  unfold nullWith at h
  split at h
  · next b hb =>
    split at h
    · next hc => exact ⟨b, hb, hc, (Except.ok.inj h).symm⟩
    · cases h
  · cases h

theorem betweenWith_eq_ok (h : op.betweenWith c a v coerce = .ok p) :
    ∃ low high low' high', v = .list [low, high] ∧ op.bound a low coerce = .ok low' ∧
      op.bound a high coerce = .ok high' ∧ p = .between c low' high' := by
  unfold betweenWith at h
  split at h
  · next low high =>
    obtain ⟨low', hlow, h⟩ := Checked.bind_eq_ok_iff.mp h
    obtain ⟨high', hhigh, h⟩ := Checked.bind_eq_ok_iff.mp h
    exact ⟨low, high, low', high', rfl, hlow, hhigh, (Except.ok.inj h).symm⟩
  · cases h

theorem partWith_eq_ok {part : DatePart} (h : op.partWith part c v coerce = .ok p) :
    ∃ n, (if coerce then v.convert? .int else v.asInt?.map .int) = some (.int n) ∧
      p = .datePart c part (.int n) := by
  unfold partWith at h
  split at h
  · next n hn => exact ⟨n, hn, (Except.ok.inj h).symm⟩
  · cases h

/-- The comparison of an operator that compares with one value. -/
def comparison? : Operator → Option Comparison
  | eq | exact => some .eq
  | ne => some .ne
  | gt => some .gt
  | lt => some .lt
  | gte => some .ge
  | lte => some .le
  | _ => none

theorem ensureColumn_eq_ok (hpart : op.datePart? = none) (htextual : op.isTextual = false) :
    op.ensureColumn a v = .ok () :=
  ensureColumn_eq_ok_iff.mpr ⟨by simp [hpart], by simp [htextual]⟩

theorem isTextual_of_comparison? {comparison : Comparison} (h : op.comparison? = some comparison) :
    op.isTextual = false := by
  cases op with
  | eq | exact | ne | gt | lt | gte | lte => rfl
  | _ => cases h

theorem build_of_comparison? {comparison : Comparison} (h : op.comparison? = some comparison)
    (hv : v.isNull = false) : op.build c a v coerce = op.compareWith comparison c a v coerce := by
  cases op with
  | eq | exact | ne =>
    cases h
    rw [build, ensureColumn_eq_ok rfl rfl, Checked.ok_bind]
    simp only [hv, Bool.false_eq_true, if_false]
  | gt | lt | gte | lte =>
    cases h
    rw [build, ensureColumn_eq_ok rfl rfl, Checked.ok_bind]
  | _ => cases h

theorem build_compare {comparison : Comparison} {w : Value} (hop : op.comparison? = some comparison)
    (h : Takes a v w) : op.build c a v true = .ok (.compare c comparison w) := by
  rw [build_of_comparison? hop h.isNull, compareWith, bound_eq_ok_iff.mpr h]
  rfl

theorem build_oneOf {vs ws : List Value} (h : List.Forall₂ (Takes a) vs ws) :
    isIn.build c a (.list vs) true = .ok (.oneOf c ws) := by
  have hmap : vs.mapM (fun v => isIn.scalar a v true) = .ok ws :=
    Checked.mapM_eq_ok_iff.mpr (h.imp fun _ _ hv => scalar_eq_ok_iff.mpr ⟨hv.isList, hv.convert⟩)
  rw [build, ensureColumn_eq_ok rfl rfl, Checked.ok_bind]
  simp only [memberWith, hmap, Checked.ok_bind]
  rfl

theorem build_between {low low' high high' : Value} (hlow : Takes a low low')
    (hhigh : Takes a high high') :
    range.build c a (.list [low, high]) true = .ok (.between c low' high') := by
  rw [build, ensureColumn_eq_ok rfl rfl, Checked.ok_bind]
  simp only [betweenWith, bound_eq_ok_iff.mpr hlow, bound_eq_ok_iff.mpr hhigh, Checked.ok_bind]
  rfl

theorem build_isNull_bool {expected : Bool} :
    isNull.build c a (.bool expected) coerce = .ok (.isNull c expected) := by
  rw [build, ensureColumn_eq_ok rfl rfl, Checked.ok_bind]
  simp [nullWith, Value.convert?, Value.type?, Value.asBool?]

/-- The predicates that an operator builds of a value: each form, and what it takes for it. -/
inductive Builds (op : Operator) (c : Column) (a : Attribute) (v : Value) (coerce : Bool) :
    Predicate → Prop
  | null {expected : Bool} :
      op.comparison? = some (if expected then .eq else .ne) → v.isNull = true →
        Builds op c a v coerce (.isNull c expected)
  | compare {comparison : Comparison} {w : Value} :
      op.comparison? = some comparison → op.bound a v coerce = .ok w →
        Builds op c a v coerce (.compare c comparison w)
  | like {s before after : String} {ignoreCase : Bool} :
      op.isTextual = true → op.text v coerce = .ok s →
        Builds op c a v coerce (.like c (before ++ Pattern.likeLiteral s ++ after) ignoreCase)
  | regex {s : String} {ignoreCase : Bool} {node : Pattern.Node} :
      op.isTextual = true → op.text v coerce = .ok s →
        Pattern.Node.ofText (Pattern.sourceOfRegex s ignoreCase) = .ok node →
          Builds op c a v coerce (.regex c s ignoreCase)
  | oneOf {items ws : List Value} :
      op = .isIn → v = .list items →
        items.mapM (fun item => op.scalar a item coerce) = .ok ws →
          Builds op c a v coerce (.oneOf c ws)
  | isNull {expected : Bool} :
      op = .isNull → v.convert? .bool = some (.bool expected) →
        (coerce || v.asBool?.isSome) = true → Builds op c a v coerce (.isNull c expected)
  | between {low low' high high' : Value} :
      op = .range → v = .list [low, high] → op.bound a low coerce = .ok low' →
        op.bound a high coerce = .ok high' → Builds op c a v coerce (.between c low' high')
  | datePart {part : DatePart} {n : Int64} :
      op.datePart? = some part →
        (if coerce then v.convert? .int else v.asInt?.map .int) = some (.int n) →
          Builds op c a v coerce (.datePart c part (.int n))

/-- What is built has one of these forms, under a column that the operator allows. -/
theorem builds_of_build (h : op.build c a v coerce = .ok p) :
    op.ensureColumn a v = .ok () ∧ Builds op c a v coerce p := by
  obtain ⟨_, hcolumn, h⟩ := Checked.bind_eq_ok_iff.mp h
  refine ⟨hcolumn, ?_⟩
  have hcompare {comparison : Comparison} (hop : op.comparison? = some comparison)
      (h : op.compareWith comparison c a v coerce = .ok p) : Builds op c a v coerce p := by
    obtain ⟨w, hw, rfl⟩ := compareWith_eq_ok h
    exact .compare hop hw
  have hequal (expected : Bool) (hop : op.comparison? = some (if expected then .eq else .ne))
      (h : (if v.isNull then return .isNull c expected
        else op.compareWith (if expected then .eq else .ne) c a v coerce) = .ok p) :
      Builds op c a v coerce p := by
    split at h
    · next hnull =>
      cases h
      exact .null hop hnull
    · exact hcompare hop h
  have hlike {before after : String} {ignoreCase : Bool} (hop : op.isTextual = true)
      (h : op.likeWith before after ignoreCase c v coerce = .ok p) : Builds op c a v coerce p := by
    obtain ⟨s, hs, rfl⟩ := likeWith_eq_ok h
    exact .like hop hs
  have hregex {ignoreCase : Bool} (hop : op.isTextual = true)
      (h : op.regexWith ignoreCase c v coerce = .ok p) : Builds op c a v coerce p := by
    obtain ⟨s, node, hs, hnode, rfl⟩ := regexWith_eq_ok h
    exact .regex hop hs hnode
  have hpart {part : DatePart} (hop : op.datePart? = some part)
      (h : op.partWith part c v coerce = .ok p) : Builds op c a v coerce p := by
    obtain ⟨n, hn, rfl⟩ := partWith_eq_ok h
    exact .datePart hop hn
  cases op with
  | eq | exact => exact hequal true rfl h
  | ne => exact hequal false rfl h
  | gt | lt | gte | lte => exact hcompare rfl h
  | iexact | contains | icontains | startsWith | istartsWith | endsWith | iendsWith =>
    exact hlike rfl h
  | regex | iregex => exact hregex rfl h
  | isIn =>
    obtain ⟨items, ws, hv, hws, rfl⟩ := memberWith_eq_ok h
    exact .oneOf rfl hv hws
  | isNull =>
    obtain ⟨expected, hv, hcoerce, rfl⟩ := nullWith_eq_ok h
    exact .isNull rfl hv hcoerce
  | range =>
    obtain ⟨low, high, low', high', hv, hlow, hhigh, rfl⟩ := betweenWith_eq_ok h
    exact .between rfl hv hlow hhigh
  | year | month | day => exact hpart rfl h

theorem build_isLeaf (h : op.build c a v coerce = .ok p) : p.IsLeaf c := by
  cases (builds_of_build h).2 with
  | null _ _ | compare _ _ | like _ _ | oneOf _ _ _ | isNull _ _ _ | between _ _ _ _
  | datePart _ _ =>
    exact ⟨rfl, rfl, nofun⟩
  | regex _ _ hnode =>
    refine ⟨rfl, rfl, fun _ _ _ he => ?_⟩
    cases he
    exact ⟨_, hnode⟩

/-! ## What is refused -/

/-- The refusal of a value under the token of an operator. -/
def Refuses (op : Operator) (e : LookupError) : Prop :=
  ∃ expected v, e = .invalidValue op.token expected v

variable {e : LookupError}

theorem refuses_of_refuse {α : Type} {expected : Expected}
    (h : (op.refuse expected v : Except LookupError α) = .error e) : op.Refuses e :=
  ⟨expected, v, (Except.error.inj h).symm⟩

theorem ensureColumn_refuses (h : op.ensureColumn a v = .error e) : op.Refuses e := by
  unfold ensureColumn at h
  split at h
  · exact refuses_of_refuse h
  · split at h
    · exact refuses_of_refuse h
    · cases h

theorem scalar_refuses (h : op.scalar a v coerce = .error e) : op.Refuses e := by
  unfold scalar at h
  split at h
  · exact refuses_of_refuse h
  · split at h
    · split at h
      · cases h
      · exact refuses_of_refuse h
    · cases h

theorem bound_refuses (h : op.bound a v coerce = .error e) : op.Refuses e := by
  unfold bound at h
  split at h
  · exact refuses_of_refuse h
  · exact scalar_refuses h

theorem text_refuses (h : op.text v coerce = .error e) : op.Refuses e := by
  unfold text at h
  split at h
  · cases h
  · split at h
    · cases h
    · exact refuses_of_refuse h
  · split at h
    · cases h
    · exact refuses_of_refuse h
  · exact refuses_of_refuse h

theorem compareWith_refuses {comparison : Comparison}
    (h : op.compareWith comparison c a v coerce = .error e) : op.Refuses e := by
  rcases Checked.bind_eq_error_iff.mp h with h | ⟨_, _, h⟩
  · exact bound_refuses h
  · cases h

theorem likeWith_refuses {before after : String} {ignoreCase : Bool}
    (h : op.likeWith before after ignoreCase c v coerce = .error e) : op.Refuses e := by
  rcases Checked.bind_eq_error_iff.mp h with h | ⟨_, _, h⟩
  · exact text_refuses h
  · cases h

theorem regexWith_refuses {ignoreCase : Bool}
    (h : op.regexWith ignoreCase c v coerce = .error e) : op.Refuses e := by
  rcases Checked.bind_eq_error_iff.mp h with h | ⟨_, _, h⟩
  · exact text_refuses h
  · split at h
    · cases h
    · exact refuses_of_refuse h

theorem memberWith_refuses (h : op.memberWith c a v coerce = .error e) : op.Refuses e := by
  unfold memberWith at h
  split at h
  · rcases Checked.bind_eq_error_iff.mp h with h | ⟨_, _, h⟩
    · obtain ⟨item, _, h⟩ := Checked.mapM_eq_error h
      exact scalar_refuses h
    · cases h
  · exact refuses_of_refuse h

theorem nullWith_refuses (h : op.nullWith c v coerce = .error e) : op.Refuses e := by
  unfold nullWith at h
  split at h
  · split at h
    · cases h
    · exact refuses_of_refuse h
  · exact refuses_of_refuse h

theorem betweenWith_refuses (h : op.betweenWith c a v coerce = .error e) : op.Refuses e := by
  unfold betweenWith at h
  split at h
  · rcases Checked.bind_eq_error_iff.mp h with h | ⟨_, _, h⟩
    · exact bound_refuses h
    · rcases Checked.bind_eq_error_iff.mp h with h | ⟨_, _, h⟩
      · exact bound_refuses h
      · cases h
  · exact refuses_of_refuse h

theorem partWith_refuses {part : DatePart} (h : op.partWith part c v coerce = .error e) :
    op.Refuses e := by
  unfold partWith at h
  split at h
  · cases h
  · exact refuses_of_refuse h

theorem build_refuses (h : op.build c a v coerce = .error e) : op.Refuses e := by
  rcases Checked.bind_eq_error_iff.mp h with h | ⟨_, _, h⟩
  · exact ensureColumn_refuses h
  have hequal {b : Bool} {comparison : Comparison}
      (h : (if v.isNull then return .isNull c b
        else op.compareWith comparison c a v coerce) = .error e) : op.Refuses e := by
    split at h
    · cases h
    · exact compareWith_refuses h
  cases op with
  | eq | exact | ne => exact hequal h
  | gt | lt | gte | lte => exact compareWith_refuses h
  | iexact | contains | icontains | startsWith | istartsWith | endsWith | iendsWith =>
    exact likeWith_refuses h
  | regex | iregex => exact regexWith_refuses h
  | isIn => exact memberWith_refuses h
  | isNull => exact nullWith_refuses h
  | range => exact betweenWith_refuses h
  | year | month | day => exact partWith_refuses h

end Operator

end FieldLookup
