import FieldLookup.Proofs.Checked
import FieldLookup.Query.Fetch

/-!
What a condition means: its truth in strong Kleene logic when columns have values. Main statements:
`PatternTable.exists_ofCondition_iff`, a condition gets its table just if each of its patterns can
be read; and `Query.eval_eq`, testing a binding gives the truth of the predicate for the values that
the binding leads to.
-/
namespace FieldLookup

/-! ## Patterns of a condition -/

/-- Every pattern in a predicate's leaves can be read. -/
def Predicate.Readable (p : Predicate) : Prop :=
  ∀ leaf ∈ p.leaves, ∀ pattern source, PatternTable.patternOf? leaf = some (pattern, source) →
    ∃ node, Pattern.Node.ofText source = .ok node

namespace PatternTable

/-- Every expression of a table is that of its source. -/
def Sound (m : PatternTable) : Prop :=
  ∀ source node, m.find? source = some node → Pattern.Node.ofText source = .ok node

/-- A table that has the expression of every pattern of a predicate. -/
def Covers (m : PatternTable) (p : Predicate) : Prop :=
  ∀ leaf ∈ p.leaves, ∀ pattern source, patternOf? leaf = some (pattern, source) →
    ∃ node, Pattern.Node.ofText source = .ok node ∧ m.find? source = some node

variable {m m' : PatternTable}

theorem Covers.readable {p : Predicate} (h : m.Covers p) : p.Readable := by
  intro leaf hleaf pattern source hp
  obtain ⟨node, hnode, -⟩ := h leaf hleaf pattern source hp
  exact ⟨node, hnode⟩

theorem sound_empty : empty.Sound := nofun

theorem find?_snoc (m : PatternTable) (source s : String) (node : Pattern.Node) :
    find? ⟨m.entries ++ [(source, node)]⟩ s =
      (m.find? s).or (if s = source then some node else none) := by
  unfold find?
  rw [List.lookup_append]
  by_cases h : s = source
  · simp [h]
  · simp [List.lookup_cons, h, beq_eq_false_iff_ne.mpr h]

theorem add_eq_ok {pattern source : String} (hm : m.Sound) (h : m.add pattern source = .ok m') :
    m'.Sound ∧ (∀ s, (m.find? s).isSome → (m'.find? s).isSome) ∧ (m'.find? source).isSome := by
  unfold add at h
  split at h
  · next hold =>
    cases h
    exact ⟨hm, fun s hs => hs, hold⟩
  · split at h
    · next node hnode =>
      cases h
      refine ⟨fun s n hn => ?_, fun s hs => ?_, ?_⟩
      · rw [find?_snoc] at hn
        rcases Option.or_eq_some_iff.mp hn with hn | ⟨_, hn⟩
        · exact hm s n hn
        · split at hn
          · next hsource =>
            cases hn
            rw [hsource, hnode]
          · cases hn
      · rw [find?_snoc, Option.isSome_or, hs, Bool.true_or]
      · rw [find?_snoc, if_pos rfl, Option.isSome_or, Option.isSome_some, Bool.or_true]
    · cases h

theorem add_eq_error {pattern source : String} {e : QueryError}
    (h : m.add pattern source = .error e) :
    ∃ cause, Pattern.Node.ofText source = .error cause ∧ e = .invalidPattern pattern cause := by
  unfold add at h
  split at h
  · cases h
  · split at h
    · cases h
    · next cause hcause => exact ⟨cause, hcause, (Except.error.inj h).symm⟩

theorem ofPatterns_eq_ok {patterns : List (String × String)} (hm : m.Sound)
    (h : ofPatterns m patterns = .ok m') :
    m'.Sound ∧ (∀ s, (m.find? s).isSome → (m'.find? s).isSome) ∧
      ∀ p ∈ patterns, (m'.find? p.2).isSome := by
  induction patterns generalizing m with
  | nil =>
    cases h
    exact ⟨hm, fun s hs => hs, by simp⟩
  | cons p rest ih =>
    obtain ⟨pattern, source⟩ := p
    obtain ⟨added, hadd, h⟩ := Checked.bind_eq_ok_iff.mp h
    obtain ⟨hsound, hkept, hnew⟩ := add_eq_ok hm hadd
    obtain ⟨hsound', hkept', hrest⟩ := ih hsound h
    refine ⟨hsound', fun s hs => hkept' s (hkept s hs), fun p hp => ?_⟩
    rcases List.mem_cons.mp hp with rfl | hp
    · exact hkept' source hnew
    · exact hrest p hp

/-- Reading patterns fails only at one that is no expression. -/
theorem ofPatterns_eq_error {patterns : List (String × String)} {e : QueryError}
    (h : ofPatterns m patterns = .error e) :
    ∃ pattern source cause, (pattern, source) ∈ patterns ∧
      Pattern.Node.ofText source = .error cause ∧ e = .invalidPattern pattern cause := by
  induction patterns generalizing m with
  | nil => cases h
  | cons p rest ih =>
    obtain ⟨pattern, source⟩ := p
    rcases Checked.bind_eq_error_iff.mp h with h | ⟨added, _, h⟩
    · obtain ⟨cause, hcause, he⟩ := add_eq_error h
      exact ⟨pattern, source, cause, List.mem_cons_self, hcause, he⟩
    · obtain ⟨pattern', source', cause, hp, hcause, he⟩ := ih h
      exact ⟨pattern', source', cause, List.mem_cons_of_mem _ hp, hcause, he⟩

/-- Reads the patterns of a predicate from left to right. -/
def read (m : PatternTable) (p : Predicate) : Except QueryError PatternTable :=
  ofPatterns m (p.leaves.filterMap patternOf?)

theorem covers_of_read {p : Predicate} (hm : m.Sound) (h : m.read p = .ok m') :
    m'.Sound ∧ m'.Covers p := by
  obtain ⟨hsound, _, hall⟩ := ofPatterns_eq_ok hm h
  refine ⟨hsound, fun leaf hleaf pattern source hp => ?_⟩
  have hmem : (pattern, source) ∈ p.leaves.filterMap patternOf? :=
    List.mem_filterMap.mpr ⟨leaf, hleaf, hp⟩
  obtain ⟨node, hnode⟩ := Option.isSome_iff_exists.mp (hall _ hmem)
  exact ⟨node, hsound source node hnode, hnode⟩

theorem read_eq_error {p : Predicate} {e : QueryError} (h : m.read p = .error e) :
    ∃ leaf ∈ p.leaves, ∃ pattern source cause, patternOf? leaf = some (pattern, source) ∧
      Pattern.Node.ofText source = .error cause ∧ e = .invalidPattern pattern cause := by
  obtain ⟨pattern, source, cause, hmem, hcause, he⟩ := ofPatterns_eq_error h
  obtain ⟨leaf, hleaf, hp⟩ := List.mem_filterMap.mp hmem
  exact ⟨leaf, hleaf, pattern, source, cause, hp, hcause, he⟩

/-- The patterns of a predicate are read behind others just if each of them can be read. -/
theorem exists_read_iff {p : Predicate} (hm : m.Sound) :
    (∃ m', m.read p = .ok m') ↔ p.Readable := by
  constructor
  · rintro ⟨m', hm'⟩
    exact (covers_of_read hm hm').2.readable
  · intro h
    cases hm' : m.read p with
    | ok m' => exact ⟨m', rfl⟩
    | error e =>
      obtain ⟨leaf, hleaf, pattern, source, cause, hp, hcause, _⟩ := read_eq_error hm'
      obtain ⟨node, hnode⟩ := h leaf hleaf pattern source hp
      rw [hcause] at hnode
      cases hnode

theorem covers_of_ofCondition {p : Predicate} (h : ofCondition p = .ok m) : m.Covers p :=
  (covers_of_read sound_empty h).2

/-- A condition without a table has a leaf whose pattern is no expression. -/
theorem ofCondition_eq_error {p : Predicate} {e : QueryError} (h : ofCondition p = .error e) :
    ∃ leaf ∈ p.leaves, ∃ pattern source cause, patternOf? leaf = some (pattern, source) ∧
      Pattern.Node.ofText source = .error cause ∧ e = .invalidPattern pattern cause :=
  read_eq_error h

theorem exists_ofCondition_iff {p : Predicate} : (∃ m, ofCondition p = .ok m) ↔ p.Readable :=
  exists_read_iff sound_empty

end PatternTable

/-! ## Truth -/

/-- Whether a text matches the expression of a source; unknown for a value that is no text. -/
def Pattern.truth (source : String) (actual : Value) : Truth :=
  actual.asText?.bind fun s => (Node.ofText source).toOption.map fun node => node.occursIn s

theorem PatternTable.test_eq {m : PatternTable} {source : String} {node : Pattern.Node}
    (hnode : Pattern.Node.ofText source = .ok node) (hfind : m.find? source = some node)
    (actual : Value) : m.test source actual = Pattern.truth source actual := by
  rw [test, Pattern.truth, hfind, hnode]
  rfl

theorem Truth.all_eq_true_iff {ts : List Truth} :
    Truth.all ts = some true ↔ ∀ t ∈ ts, t = some true := by
  induction ts with
  | nil => simp [Truth.all]
  | cons t ts ih =>
    rw [List.forall_mem_cons, ← ih, Truth.all, List.foldr_cons, ← Truth.all]
    rcases t with _ | _ | _ <;> rcases Truth.all ts with _ | _ | _ <;> simp [Truth.and]

namespace Predicate

mutual

/-- The truth of a predicate when columns have values. -/
def truth (values : Column → Value) : Predicate → Truth
  | compare c op v => op.test (values c) v
  | like c pattern ignoreCase => Pattern.truth (Pattern.sourceOfLike pattern ignoreCase) (values c)
  | regex c pattern ignoreCase =>
    Pattern.truth (Pattern.sourceOfRegex pattern ignoreCase) (values c)
  | oneOf c vs => memberTest (values c) vs
  | isNull c expected => some ((values c).isNull == expected)
  | between c low high => betweenTest (values c) low high
  | datePart c part v => part.test (values c) v
  | not inner => (truth values inner).not
  | and items => truthOfAll values items

/-- False if one predicate is false, else unknown if one is unknown. -/
def truthOfAll (values : Column → Value) : List Predicate → Truth
  | [] => some true
  | p :: rest => (truth values p).and (truthOfAll values rest)

end

theorem truthOfAll_eq (values : Column → Value) (ps : List Predicate) :
    truthOfAll values ps = Truth.all (ps.map (truth values)) := by
  induction ps with
  | nil => rfl
  | cons p rest ih => rw [truthOfAll, ih]; rfl

theorem leavesOfAll_eq (ps : List Predicate) : leavesOfAll ps = ps.flatMap leaves := by
  induction ps with
  | nil => rfl
  | cons p rest ih => rw [leavesOfAll, ih, List.flatMap_cons]

theorem mem_leavesOfAll {ps : List Predicate} {leaf : Predicate} :
    leaf ∈ leavesOfAll ps ↔ ∃ p ∈ ps, leaf ∈ p.leaves := by
  rw [leavesOfAll_eq, List.mem_flatMap]

theorem eq_nil_of_all_eq_none {ps : List Predicate} (h : all ps = none) : ps = [] := by
  match ps, h with
  | [], _ => rfl
  | [_], h => cases h
  | _ :: _ :: _, h => cases h

/-- One condition for several predicates has the leaves of all. -/
theorem mem_leaves_all {ps : List Predicate} {p leaf : Predicate} (h : all ps = some p) :
    leaf ∈ p.leaves ↔ ∃ q ∈ ps, leaf ∈ q.leaves := by
  match ps, h with
  | [q], h =>
    cases h
    simp
  | q :: r :: rest, h =>
    cases h
    exact mem_leavesOfAll

/-- One condition for several predicates has the truth of their conjunction. -/
theorem truth_all {ps : List Predicate} {p : Predicate} (h : all ps = some p)
    (values : Column → Value) : p.truth values = Truth.all (ps.map (truth values)) := by
  match ps, h with
  | [q], h =>
    cases h
    exact ((Truth.and_comm _ _).trans (Truth.true_and _)).symm
  | q :: r :: rest, h =>
    cases h
    exact truthOfAll_eq values _

variable {values values' : Column → Value}

mutual

/-- The truth of a predicate depends on the values of its columns. -/
theorem truth_congr (p : Predicate)
    (h : ∀ leaf ∈ p.leaves, ∀ c, leaf.column? = some c → values c = values' c) :
    p.truth values = p.truth values' := by
  cases p with
  | compare c op v | like c pattern ignoreCase | regex c pattern ignoreCase | oneOf c vs
  | isNull c expected | between c low high | datePart c part v =>
    simp only [truth, h _ List.mem_cons_self c rfl]
  | not inner => rw [truth, truth, truth_congr inner h]
  | and items => rw [truth, truth, truthOfAll_congr items h]

theorem truthOfAll_congr (ps : List Predicate)
    (h : ∀ leaf ∈ leavesOfAll ps, ∀ c, leaf.column? = some c → values c = values' c) :
    truthOfAll values ps = truthOfAll values' ps := by
  cases ps with
  | nil => rfl
  | cons p rest =>
    rw [truthOfAll, truthOfAll, truth_congr p fun leaf hl => h leaf (List.mem_append_left _ hl),
      truthOfAll_congr rest fun leaf hl => h leaf (List.mem_append_right _ hl)]

end

end Predicate

namespace Query

variable {store : Store} {m : PatternTable} {b : Binding} {values : Column → Value}

/-- The binding leads to values for the columns of a predicate. -/
def Reads (store : Store) (b : Binding) (values : Column → Value) (p : Predicate) : Prop :=
  ∀ leaf ∈ p.leaves, ∀ c, leaf.column? = some c → store.valueAt b c = .ok (values c)

theorem Reads.head {p : Predicate} {rest : List Predicate}
    (h : Reads store b values (.and (p :: rest))) : Reads store b values p :=
  fun leaf hl => h leaf (List.mem_append_left _ hl)

theorem Reads.tail {p : Predicate} {rest : List Predicate}
    (h : Reads store b values (.and (p :: rest))) : Reads store b values (.and rest) :=
  fun leaf hl => h leaf (List.mem_append_right _ hl)

/-- Another unknown changes nothing for truths of which one is unknown. -/
theorem and_unknown (unknown : Bool) (t : Truth) :
    Truth.and (if unknown then none else some true) (Truth.and none t) = Truth.and none t := by
  cases unknown <;> rcases t with _ | _ | _ <;> rfl

mutual

/-- Testing a binding gives the truth of the predicate, by induction on the predicate. -/
theorem eval_eq (p : Predicate) (hm : m.Covers p) (hb : Reads store b values p) :
    eval store m b p = .ok (p.truth values) := by
  cases p with
  | compare c op v | oneOf c vs | isNull c expected | between c low high | datePart c part v =>
    rw [eval, hb _ List.mem_cons_self c rfl]
    rfl
  | like c pattern ignoreCase | regex c pattern ignoreCase =>
    obtain ⟨node, hnode, hfind⟩ := hm _ List.mem_cons_self pattern _ rfl
    rw [eval, hb _ List.mem_cons_self c rfl, Predicate.truth, ← PatternTable.test_eq hnode hfind]
    rfl
  | not inner =>
    rw [eval, eval_eq inner hm hb]
    rfl
  | and items =>
    rw [eval, evalAll_eq items hm hb, Predicate.truth]
    exact congrArg Except.ok (Truth.true_and _)

theorem evalAll_eq (ps : List Predicate) (hm : m.Covers (.and ps))
    (hb : Reads store b values (.and ps)) (unknown : Bool) :
    evalAll store m b unknown ps =
      .ok (Truth.and (if unknown then none else some true) (Predicate.truthOfAll values ps)) := by
  cases ps with
  | nil =>
    rw [evalAll, Predicate.truthOfAll]
    cases unknown <;> rfl
  | cons p rest =>
    have hp := eval_eq p (fun leaf hl => hm leaf (List.mem_append_left _ hl)) hb.head
    have hrest (unknown : Bool) :=
      evalAll_eq rest (fun leaf hl => hm leaf (List.mem_append_right _ hl)) hb.tail unknown
    rw [evalAll, hp, Predicate.truthOfAll]
    rcases p.truth values with _ | _ | _
    · exact (hrest true).trans (congrArg Except.ok (and_unknown unknown _).symm)
    · cases unknown <;> rfl
    · exact (hrest unknown).trans (by rw [Truth.true_and])

end

end Query

end FieldLookup
