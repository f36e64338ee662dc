import FieldLookup.Proofs.Certainty
import FieldLookup.Proofs.SingleLookup

/-!
Membership against equality. Main statements: `memberTest_eq_any`, being a member is the disjunction
of the equalities, but a value in no order with a member is known not to be it; and
`Compiler.member_exact`, where this matters for a lookup among one value.
-/
namespace FieldLookup

namespace Truth

variable {t t' : Truth} {ts : List Truth}

theorem eq_of_iff (htrue : t = some true ↔ t' = some true)
    (hfalse : t = some false ↔ t' = some false) : t = t' := by
  rcases t with _ | _ | _ <;> rcases t' with _ | _ | _ <;> simp_all

theorem any_eq_true_iff : any ts = some true ↔ some true ∈ ts := by
  induction ts with
  | nil => simp [any]
  | cons t ts ih =>
    rw [List.mem_cons, ← ih, any, List.foldr_cons, ← any]
    rcases t with _ | _ | _ <;> rcases any ts with _ | _ | _ <;> simp [or]

theorem any_eq_false_iff : any ts = some false ↔ ∀ t ∈ ts, t = some false := by
  induction ts with
  | nil => simp [any]
  | cons t ts ih =>
    rw [List.forall_mem_cons, ← ih, any, List.foldr_cons, ← any]
    rcases t with _ | _ | _ <;> rcases any ts with _ | _ | _ <;> simp [or]

end Truth

/-! ## Members -/

variable {a v : Value} {vs : List Value} {unknown : Bool}

theorem Comparison.eq_test_eq_true_iff : Comparison.eq.test a v = some true ↔
    a.compare? v = some .eq := by
  unfold Comparison.test Comparison.holds
  cases a.compare? v with
  | none => simp
  | some o => cases o <;> simp

theorem Comparison.eq_test_eq_false_iff : Comparison.eq.test a v = some false ↔
    (a.compare? v).isSome ∧ a.compare? v ≠ some .eq := by
  unfold Comparison.test Comparison.holds
  cases a.compare? v with
  | none => simp
  | some o => cases o <;> simp

/-- The truth that a value is one member of a list. Values in no order of which neither is null are
known to differ, though whether they are equal is unknown. -/
def memberTruth (actual v : Value) : Truth :=
  if actual.isNull || v.isNull || (actual.compare? v).isSome then Comparison.eq.test actual v
  else some false

theorem memberTruth_eq_true_iff : memberTruth a v = some true ↔ a.compare? v = some .eq := by
  rw [← Comparison.eq_test_eq_true_iff]
  unfold memberTruth
  split
  · exact Iff.rfl
  · next h =>
    rw [Bool.not_eq_true, Bool.or_eq_false_iff, Option.isSome_eq_false_iff,
      Option.isNone_iff_eq_none] at h
    simp [Comparison.test, h.2]

theorem memberTruth_eq_false_iff :
    memberTruth a v = some false ↔ a ≠ .null ∧ v ≠ .null ∧ a.compare? v ≠ some .eq := by
  unfold memberTruth
  split
  · next h =>
    rw [Comparison.eq_test_eq_false_iff, ← and_assoc]
    simp only [Bool.or_eq_true, Value.isNull_iff, or_assoc] at h
    refine and_congr_left fun hne => ⟨fun hsome => ?_, fun ⟨ha, hv⟩ => ?_⟩
    · constructor <;> rintro rfl
      · simp [Value.compare?_null_left] at hsome
      · simp [Value.compare?_null_right] at hsome
    · exact (h.resolve_left ha).resolve_left hv
  · next h =>
    simp only [Bool.or_eq_true, Value.isNull_iff, not_or] at h
    refine iff_of_true rfl ⟨h.1.1, h.1.2, fun heq => h.2 ?_⟩
    rw [heq]
    rfl

theorem memberFrom_eq_true_iff :
    memberFrom a unknown vs = some true ↔ ∃ v ∈ vs, a.compare? v = some .eq := by
  induction vs generalizing unknown with
  | nil => cases unknown <;> simp [memberFrom]
  | cons w vs ih =>
    rw [List.exists_mem_cons_iff]
    unfold memberFrom
    split
    · next h => simp [h]
    · next h => simp [ih, h]
    · next h _ => rw [ih, or_iff_right h]

theorem memberFrom_eq_false_iff :
    memberFrom a unknown vs = some false ↔
      unknown = false ∧ ∀ v ∈ vs, v ≠ .null ∧ a.compare? v ≠ some .eq := by
  induction vs generalizing unknown with
  | nil => cases unknown <;> simp [memberFrom]
  | cons w vs ih =>
    rw [List.forall_mem_cons]
    unfold memberFrom
    split
    · next h => simp [h]
    · next h =>
      rw [ih, Bool.or_eq_false_iff, Bool.eq_false_iff, Bool.eq_false_iff, Ne, Ne, Value.isNull_iff]
      simp [h, and_assoc]
    · next hne hsome =>
      have hw : w ≠ .null ∧ a.compare? w ≠ some .eq :=
        ⟨by rintro rfl; exact hsome (Value.compare?_null_right a), hne⟩
      rw [ih, and_iff_right hw]

theorem memberTest_eq_true_iff :
    memberTest a vs = some true ↔ ∃ v ∈ vs, a.compare? v = some .eq := by
  unfold memberTest
  split
  · next h => simp [List.isEmpty_iff.mp h]
  · split
    · next h => simp [Value.isNull_iff.mp h, Value.compare?_null_left]
    · exact memberFrom_eq_true_iff

theorem memberTest_eq_false_iff :
    memberTest a vs = some false ↔
      ∀ v ∈ vs, a ≠ .null ∧ v ≠ .null ∧ a.compare? v ≠ some .eq := by
  unfold memberTest
  split
  · next h => simp [List.isEmpty_iff.mp h]
  · next h =>
    obtain ⟨v, vs, rfl⟩ := List.exists_cons_of_ne_nil (mt List.isEmpty_iff.mpr h)
    split
    · next h =>
      exact iff_of_false nofun fun hall =>
        (hall v List.mem_cons_self).1 (Value.isNull_iff.mp h)
    · next h =>
      have ha : a ≠ .null := mt Value.isNull_iff.mpr h
      rw [memberFrom_eq_false_iff, and_iff_right rfl]
      exact forall₂_congr fun v _ => (and_iff_right ha).symm

/-- Being a member is the disjunction of being each member. -/
theorem memberTest_eq_any (a : Value) (vs : List Value) :
    memberTest a vs = Truth.any (vs.map (memberTruth a)) := by
  refine Truth.eq_of_iff ?_ ?_
  · rw [memberTest_eq_true_iff, Truth.any_eq_true_iff, List.mem_map]
    simp only [memberTruth_eq_true_iff]
  · rw [memberTest_eq_false_iff, Truth.any_eq_false_iff, List.forall_mem_map]
    simp only [memberTruth_eq_false_iff]

/-- It is the disjunction of the equalities where the value is null, null or an equal value is among
the members, or the value is in some order with each of them; and only there. -/
theorem memberTest_eq_any_test_iff (a : Value) (vs : List Value) :
    memberTest a vs = Truth.any (vs.map (Comparison.eq.test a)) ↔
      a = .null ∨ .null ∈ vs ∨ (∃ v ∈ vs, a.compare? v = some .eq) ∨
        ∀ v ∈ vs, (a.compare? v).isSome := by
  have htrue : memberTest a vs = some true ↔
      Truth.any (vs.map (Comparison.eq.test a)) = some true := by
    rw [memberTest_eq_true_iff, Truth.any_eq_true_iff, List.mem_map]
    simp only [Comparison.eq_test_eq_true_iff]
  have hfalse : Truth.any (vs.map (Comparison.eq.test a)) = some false ↔
      ∀ v ∈ vs, (a.compare? v).isSome ∧ a.compare? v ≠ some .eq := by
    rw [Truth.any_eq_false_iff, List.forall_mem_map]
    simp only [Comparison.eq_test_eq_false_iff]
  constructor
  · -- if none of these holds, the value is known not to be a member, but some equality is unknown
    intro heq
    by_contra hnot
    push Not at hnot
    obtain ⟨ha, hnull, hne, v, hv, hnone⟩ := hnot
    have hmember : memberTest a vs = some false :=
      memberTest_eq_false_iff.mpr fun w hw =>
        ⟨ha, fun h => hnull (h ▸ hw), hne w hw⟩
    rw [heq] at hmember
    exact hnone (hfalse.mp hmember v hv).1
  · intro h
    refine Truth.eq_of_iff htrue ?_
    rw [memberTest_eq_false_iff, hfalse]
    constructor
    · intro hall
      rcases h with rfl | hnull | ⟨v, hv, heq⟩ | hsome
      · exact fun v hv => absurd rfl (hall v hv).1
      · exact absurd rfl (hall _ hnull).2.1
      · exact absurd heq (hall v hv).2.2
      · exact fun v hv => ⟨hsome v hv, (hall v hv).2.2⟩
    · intro hall v hv
      obtain ⟨hsome, hne⟩ := hall v hv
      refine ⟨?_, ?_, hne⟩ <;> rintro rfl
      · simp [Value.compare?_null_left] at hsome
      · simp [Value.compare?_null_right] at hsome

/-! ## Values that are taken -/

namespace Operator

variable {op op' : Operator} {c : Column} {field : Attribute} {w : Value} {coerce : Bool}
  {p : Predicate}

/-- What a value is taken for does not depend on the operator that takes it. -/
theorem scalar_eq_ok_congr (op op' : Operator) :
    op.scalar field v coerce = .ok w ↔ op'.scalar field v coerce = .ok w := by
  unfold scalar
  split
  · exact iff_of_false nofun nofun
  · split
    · split
      · exact Iff.rfl
      · exact iff_of_false nofun nofun
    · exact Iff.rfl

/-- A value other than null is not taken for null. -/
theorem ne_null_of_scalar (hv : v.isNull = false) (h : op.scalar field v coerce = .ok w) :
    w ≠ .null := by
  cases coerce with
  | true =>
    rintro rfl
    have hconvert := (scalar_eq_ok_iff.mp h).2
    rcases Value.comparesWith_of_convertFor? hv hconvert with h | ⟨-, h⟩ <;> cases h
  | false =>
    unfold scalar at h
    split at h
    · cases h
    · cases h
      rintro rfl
      cases hv

theorem build_member_of_one :
    isIn.build c field (.list [v]) coerce = .ok p ↔
      ∃ w, eq.scalar field v coerce = .ok w ∧ .oneOf c [w] = p := by
  rw [build, ensureColumn_eq_ok rfl rfl, Checked.ok_bind]
  simp only [memberWith, Checked.mapM_cons, Checked.bind_eq_ok_iff, scalar_eq_ok_congr isIn eq]
  constructor
  · rintro ⟨_, ⟨w, hw, _, hnil, hws⟩, hp⟩
    cases hnil
    cases hws
    exact ⟨w, hw, Except.ok.inj hp⟩
  · rintro ⟨w, hw, rfl⟩
    exact ⟨_, ⟨w, hw, _, rfl, rfl⟩, rfl⟩

theorem build_eq_of_ne_null (hv : v.isNull = false) :
    eq.build c field v coerce = .ok p ↔
      ∃ w, eq.scalar field v coerce = .ok w ∧ .compare c .eq w = p := by
  rw [build_of_comparison? rfl hv, compareWith, bound, hv, if_neg Bool.false_ne_true,
    Checked.bind_eq_ok_iff]
  exact exists_congr fun w => and_congr_right fun _ => ⟨Except.ok.inj, congrArg Except.ok⟩

end Operator

namespace Predicate

variable {c : Column} {w : Value} {values : Column → Value}

theorem not_truth_eq_true_iff {p : Predicate} :
    (not p).truth values = some true ↔ p.truth values = some false := by
  rw [truth]
  rcases p.truth values with _ | _ | _ <;> simp [Truth.not]

theorem member_of_one_truth_iff : (oneOf c [w]).truth values = some true ↔
    (compare c .eq w).truth values = some true := by
  rw [truth, truth, memberTest_eq_true_iff, Comparison.eq_test_eq_true_iff]
  simp

/-- Where a value is known to differ from a member, they are unequal, or in no order. -/
theorem not_member_of_one_truth_iff (hw : w ≠ .null) :
    (not (oneOf c [w])).truth values = some true ↔
      (not (compare c .eq w)).truth values = some true ∨
        values c ≠ .null ∧ (values c).compare? w = none := by
  rw [not_truth_eq_true_iff, not_truth_eq_true_iff, truth, truth, memberTest_eq_false_iff,
    Comparison.eq_test_eq_false_iff]
  cases hcompare : (values c).compare? w with
  | none => simp [hcompare, hw]
  | some o =>
    have hnull : values c ≠ .null := by
      intro hnull
      rw [hnull, Value.compare?_null_left] at hcompare
      cases hcompare
    simp [hcompare, hnull, hw]

end Predicate

/-! ## Lookups -/

namespace Compiler

variable {c : Compiler} {q : Query} {key key' token : String} {r : Resolved}

/-- A call with one more token behind a key, whose operator makes a predicate of what it takes the
value for. -/
theorem restrict_with_operator_iff {op taking : Operator} {test : Value → Predicate}
    {v supplied : Value} (negate : Bool) (q' : Query) (hr : c.resolve q.root key = .ok r)
    (hnone : r.operator = none)
    (hkey : Text.split c.settings.separator key' = Text.split c.settings.separator key ++ [token])
    (hop : c.operators.find? token = some op)
    (hbuild : ∀ p, op.build r.column r.field supplied c.settings.coerce = .ok p ↔
      ∃ w, taking.scalar r.field v c.settings.coerce = .ok w ∧ test w = p) :
    c.restrict q (Ordered.empty.insert key' supplied) negate .typed = .ok q' ↔
      ∃ w, taking.scalar r.field v c.settings.coerce = .ok w ∧
        q.withTest r.joins (if negate then .not (test w) else test w) = q' := by
  rw [restrict_eq_ok_iff (resolve_with_operator hr hnone hkey hop)]
  simp only [Option.getD_some, hbuild]
  constructor
  · rintro ⟨_, ⟨w, hw, rfl⟩, hq⟩
    exact ⟨w, hw, hq⟩
  · rintro ⟨w, hw, hq⟩
    exact ⟨_, ⟨w, hw, rfl⟩, hq⟩

/-- Being a member of a list is the disjunction of the equalities, except that a value in no order
with a member, neither of them null, is known not to be it. So narrowing by membership among one
value fetches what narrowing by equality does; and excluding by membership fetches, besides what
excluding by equality does, the rows that show a value in no order with the one that is supplied. -/
theorem member_exact :
    (∀ a vs, memberTest a vs = Truth.any (vs.map (memberTruth a))) ∧
      (∀ a vs, memberTest a vs = Truth.any (vs.map (Comparison.eq.test a)) ↔
        a = .null ∨ .null ∈ vs ∨ (∃ v ∈ vs, a.compare? v = some .eq) ∨
          ∀ v ∈ vs, (a.compare? v).isSome) ∧
      ∀ (c : Compiler) root q key r member equal v, c.schema.Declared →
        c.operators.find? "in" = some .isIn → c.operators.find? "eq" = some .eq →
        Query.Composed c.schema root q → c.resolve root key = .ok r → r.operator = none →
        Text.split c.settings.separator member = Text.split c.settings.separator key ++ ["in"] →
        Text.split c.settings.separator equal = Text.split c.settings.separator key ++ ["eq"] →
        Value.isNull v = false →
          ((∃ q', c.narrow q (Ordered.empty.insert member (.list [v])) = .ok q') ↔
            ∃ q', c.narrow q (Ordered.empty.insert equal v) = .ok q') ∧
          ((∃ q', c.exclude q (Ordered.empty.insert member (.list [v])) = .ok q') ↔
            ∃ q', c.exclude q (Ordered.empty.insert equal v) = .ok q') ∧
          ∀ store : Store, store.Filled →
            (∀ q₁ q₂, c.narrow q (Ordered.empty.insert member (.list [v])) = .ok q₁ →
              c.narrow q (Ordered.empty.insert equal v) = .ok q₂ →
                q₁.fetch c.schema store = q₂.fetch c.schema store) ∧
            ∀ q₁ q₂, c.exclude q (Ordered.empty.insert member (.list [v])) = .ok q₁ →
              c.exclude q (Ordered.empty.insert equal v) = .ok q₂ →
                ∃ w, Operator.eq.scalar r.field v c.settings.coerce = .ok w ∧
                  ((∀ a : Assignment, a.Follows c.schema store q₂.root q₂.joins →
                      q.truth a = some true →
                        a.value r.column = .null ∨ ((a.value r.column).compare? w).isSome) →
                    q₁.fetch c.schema store = q₂.fetch c.schema store) ∧
                  (q.limit = none → q.offset = none → ∀ rows₁ rows₂,
                    q₁.fetch c.schema store = .ok rows₁ → q₂.fetch c.schema store = .ok rows₂ →
                      ∀ row, row ∈ rows₁ ↔ row ∈ rows₂ ∨
                        ∃ a : Assignment, a.Follows c.schema store q₂.root q₂.joins ∧
                          a Path.root = row ∧ q.truth a = some true ∧
                            a.value r.column ≠ .null ∧
                              (a.value r.column).compare? w = none) := by
  refine ⟨memberTest_eq_any, memberTest_eq_any_test_iff, ?_⟩
  intro c root q key r member equal v hs hin heq hq hr hnone hmember hequal hv
  obtain ⟨hsound, rfl⟩ := hq.sound hs
  have hmembers (negate : Bool) (q' : Query) :=
    restrict_with_operator_iff negate q' hr hnone hmember hin
      fun _ => Operator.build_member_of_one (v := v)
  have hequals (negate : Bool) (q' : Query) :=
    restrict_with_operator_iff negate q' hr hnone hequal heq
      fun _ => Operator.build_eq_of_ne_null hv
  have hsucceed (negate : Bool) :
      (∃ q', c.restrict q (Ordered.empty.insert member (.list [v])) negate .typed = .ok q') ↔
        ∃ q', c.restrict q (Ordered.empty.insert equal v) negate .typed = .ok q' := by
    simp only [hmembers, hequals]
    exact ⟨fun ⟨_, w, hw, _⟩ => ⟨_, w, hw, rfl⟩, fun ⟨_, w, hw, _⟩ => ⟨_, w, hw, rfl⟩⟩
  refine ⟨hsucceed false, hsucceed true, fun store hf => ⟨?_, ?_⟩⟩
  · intro q₁ q₂ h₁ h₂
    have hsound₁ := (restrict_sound hs hsound h₁).1
    have hsound₂ := (restrict_sound hs hsound h₂).1
    obtain ⟨w, hw, rfl⟩ := (hmembers false q₁).mp h₁
    obtain ⟨w', hw', rfl⟩ := (hequals false q₂).mp h₂
    obtain rfl : w = w' := Except.ok.inj (hw.symm.trans hw')
    exact Query.fetch_withTest_congr hf.coherent hsound₂ hsound₁ rfl rfl fun a _ _ =>
      Predicate.member_of_one_truth_iff
  · intro q₁ q₂ h₁ h₂
    have hsound₁ := (restrict_sound hs hsound h₁).1
    have hsound₂ := (restrict_sound hs hsound h₂).1
    obtain ⟨w, hw, rfl⟩ := (hmembers true q₁).mp h₁
    obtain ⟨w', hw', rfl⟩ := (hequals true q₂).mp h₂
    obtain rfl : w = w' := Except.ok.inj (hw.symm.trans hw')
    have hnull := Operator.ne_null_of_scalar hv hw
    refine ⟨w, hw, fun hordered => ?_, fun hlimit hoffset rows₁ rows₂ hrows₁ hrows₂ row => ?_⟩
    · refine Query.fetch_withTest_congr hf.coherent hsound₂ hsound₁ rfl rfl fun a ha htruth => ?_
      refine (Predicate.not_member_of_one_truth_iff hnull).trans (or_iff_left ?_)
      rintro ⟨hne, hnone⟩
      rcases hordered a ha htruth with h | h
      · exact hne h
      · rw [hnone] at h
        cases h
    · rw [Query.mem_fetch_withTest_iff hf.coherent hsound₁ hlimit hoffset hrows₁,
        Query.mem_fetch_withTest_iff hf.coherent hsound₂ hlimit hoffset hrows₂, ← exists_or]
      refine exists_congr fun a => ?_
      rw [if_pos rfl, if_pos rfl, Predicate.not_member_of_one_truth_iff hnull]
      simp only [Query.withTest, ← and_or_left]

/-- Scores, each with a number. -/
def scores : Schema where
  entities := [⟨⟨0⟩, "Score", [Blog.key "id", Blog.field "n" .float], []⟩]
  names := [("Score", ⟨0⟩)]
  relations := []

theorem declared_scores : scores.Declared :=
  ⟨[.entity "Score" [Blog.key "id", Blog.field "n" .float]], rfl⟩

/-- Scores of one, of two and of what is no number. -/
def scored : Store :=
  [0x3ff0000000000000, 0x4000000000000000, 0x7ff8000000000000].foldl (fun store bits =>
    (store.insert ⟨0⟩ (Ordered.ofList [("n", .float ⟨bits⟩)])).2) .empty

theorem filled_scored : scored.Filled :=
  ((Store.filled_empty.insert _ _).insert _ _).insert _ _

def isOne : Lookups := Ordered.empty.insert "n__eq" (.float ⟨0x3ff0000000000000⟩)

def isAmongOne : Lookups := Ordered.empty.insert "n__in" (.list [.float ⟨0x3ff0000000000000⟩])

/-- The theorem at scores of one, which both lookups find. Excluding by the first keeps what shows
no number besides what excluding by the second does. -/
theorem member_exact_scores :
    scores.Declared ∧ scored.Filled ∧
      (ofSchema scores).resolve ⟨0⟩ "n" =
        .ok ⟨[], ⟨Path.root, ⟨0⟩, "n"⟩, Blog.field "n" .float, none⟩ ∧
      (∃ q₁ q₂, (ofSchema scores).narrow (Query.ofRoot ⟨0⟩) isAmongOne = .ok q₁ ∧
        (ofSchema scores).narrow (Query.ofRoot ⟨0⟩) isOne = .ok q₂ ∧
          q₁.fetch scores scored = q₂.fetch scores scored ∧
            ((q₂.fetch scores scored).toOption.map fun rows => rows.map (·.id)) = some [⟨1⟩]) ∧
      ∃ q₁ q₂ rows₁ rows₂, (ofSchema scores).exclude (Query.ofRoot ⟨0⟩) isAmongOne = .ok q₁ ∧
        (ofSchema scores).exclude (Query.ofRoot ⟨0⟩) isOne = .ok q₂ ∧
          q₁.fetch scores scored = .ok rows₁ ∧ q₂.fetch scores scored = .ok rows₂ ∧
            ∀ row, row ∈ rows₁ ↔ row ∈ rows₂ ∨
              ∃ a : Assignment, a.Follows scores scored q₂.root q₂.joins ∧ a Path.root = row ∧
                a.value ⟨Path.root, ⟨0⟩, "n"⟩ ≠ .null ∧
                  (a.value ⟨Path.root, ⟨0⟩, "n"⟩).compare? (.float ⟨0x3ff0000000000000⟩) =
                    none := by
  have hr : (ofSchema scores).resolve ⟨0⟩ "n" =
      .ok ⟨[], ⟨Path.root, ⟨0⟩, "n"⟩, Blog.field "n" .float, none⟩ := by cbv
  have hnarrow : (ofSchema scores).narrow (Query.ofRoot ⟨0⟩) isAmongOne =
      .ok (Query.testing ⟨0⟩ (.oneOf ⟨Path.root, ⟨0⟩, "n"⟩ [.float ⟨0x3ff0000000000000⟩])) := by cbv
  have hnarrow' : (ofSchema scores).narrow (Query.ofRoot ⟨0⟩) isOne =
      .ok (Query.testing ⟨0⟩
        (.compare ⟨Path.root, ⟨0⟩, "n"⟩ .eq (.float ⟨0x3ff0000000000000⟩))) := by cbv
  have hexclude : (ofSchema scores).exclude (Query.ofRoot ⟨0⟩) isAmongOne =
      .ok (Query.testing ⟨0⟩
        (.not (.oneOf ⟨Path.root, ⟨0⟩, "n"⟩ [.float ⟨0x3ff0000000000000⟩]))) := by cbv
  have hexclude' : (ofSchema scores).exclude (Query.ofRoot ⟨0⟩) isOne =
      .ok (Query.testing ⟨0⟩
        (.not (.compare ⟨Path.root, ⟨0⟩, "n"⟩ .eq (.float ⟨0x3ff0000000000000⟩)))) := by cbv
  obtain ⟨-, -, hfetch⟩ := member_exact.2.2 (ofSchema scores) _ _ _ _ "n__in" "n__eq"
    (.float ⟨0x3ff0000000000000⟩) declared_scores (by decide) (by decide) .ofRoot hr rfl (by cbv)
    (by cbv) rfl
  obtain ⟨hsame, hexcluded⟩ := hfetch scored filled_scored
  obtain ⟨w, hw, -, hrows⟩ := hexcluded _ _ hexclude hexclude'
  obtain rfl : .float ⟨0x3ff0000000000000⟩ = w := Except.ok.inj hw
  refine ⟨declared_scores, filled_scored, hr, ⟨_, _, hnarrow, hnarrow',
    hsame _ _ hnarrow hnarrow', by decide +kernel⟩, _, _, _, _, hexclude, hexclude', rfl, rfl,
    fun row => (hrows rfl rfl _ _ rfl rfl row).trans (or_congr_right (exists_congr fun a => ?_))⟩
  exact and_congr_right fun _ => and_congr_right fun _ => and_iff_right rfl

/-- What is no number is known not to be among other values, though not to be unequal to them; so
excluding the lookup of a single member keeps it. -/
theorem member_unordered :
    memberTest (.float .nan) [.float ⟨0x3ff0000000000000⟩] = some false ∧
      Truth.any ([.float ⟨0x3ff0000000000000⟩].map (Comparison.eq.test (.float .nan))) = none ∧
      (((ofSchema scores).exclude (Query.ofRoot ⟨0⟩) isAmongOne).toOption.bind fun q =>
        ((q.fetch scores scored).toOption.map fun rows => rows.map (·.id))) = some [⟨2⟩, ⟨3⟩] ∧
      (((ofSchema scores).exclude (Query.ofRoot ⟨0⟩) isOne).toOption.bind fun q =>
        ((q.fetch scores scored).toOption.map fun rows => rows.map (·.id))) = some [⟨2⟩] := by
  decide +kernel

end Compiler

end FieldLookup
