import FieldLookup.Proofs.Meaning

/-!
The pattern leaves of a condition and its table. Main statements: `Predicate.mem_leaves_iff`, the
leaves of a predicate are the tests that occur in it at any depth; `PatternTable.read_eq_error_iff`,
reading stops at the first pattern from the left that cannot be read; and
`PatternTable.ofCondition_exact`, a table has what each pattern leaf is tested with.
-/
namespace FieldLookup

namespace Predicate

/-! ## Occurrences -/

/-- Induction over predicates, with all tests of a column as one case. -/
theorem induct {motive : Predicate → Prop} (test : ∀ p c, p.column? = some c → motive p)
    (not : ∀ inner, motive inner → motive (.not inner))
    (and : ∀ items, (∀ item ∈ items, motive item) → motive (.and items)) (p : Predicate) :
    motive p :=
  match p with
  | compare c _ _ | like c _ _ | regex c _ _ | oneOf c _ | isNull c _ | between c _ _
  | datePart c _ _ => test _ c rfl
  | .not inner => not inner (induct test not and inner)
  | .and items => and items fun item _ => induct test not and item

/-- A predicate that another one is built with, at any depth, or that is the other one. -/
inductive Within : Predicate → Predicate → Prop
  | self (p : Predicate) : Within p p
  | not {p inner : Predicate} : Within p inner → Within p (.not inner)
  | item {p item : Predicate} {items : List Predicate} :
      item ∈ items → Within p item → Within p (.and items)

variable {p q leaf item : Predicate} {items : List Predicate} {c : Column}

theorem leaves_of_column? (h : p.column? = some c) : p.leaves = [p] := by
  cases p <;> first | rfl | cases h

theorem Within.eq_of_column? (h : p.Within q) (hq : q.column? = some c) : p = q := by
  cases h with
  | self => rfl
  | not _ => cases hq
  | item _ _ => cases hq

/-- The leaves are the tests that occur in a predicate. -/
theorem mem_leaves_iff : leaf ∈ p.leaves ↔ leaf.Within p ∧ ∃ c, leaf.column? = some c := by
  induction p using induct with
  | test p c hc =>
    rw [leaves_of_column? hc, List.mem_singleton]
    constructor
    · rintro rfl
      exact ⟨.self _, c, hc⟩
    · rintro ⟨h, -⟩
      exact h.eq_of_column? hc
  | not inner ih =>
    rw [leaves, ih]
    constructor
    · rintro ⟨h, hc⟩
      exact ⟨.not h, hc⟩
    · rintro ⟨h, c, hc⟩
      cases h with
      | self => cases hc
      | not h => exact ⟨h, c, hc⟩
  | and items ih =>
    rw [leaves, mem_leavesOfAll]
    constructor
    · rintro ⟨item, hitem, hleaf⟩
      obtain ⟨h, hc⟩ := (ih item hitem).mp hleaf
      exact ⟨.item hitem h, hc⟩
    · rintro ⟨h, c, hc⟩
      cases h with
      | self => cases hc
      | item hitem h => exact ⟨_, hitem, (ih _ hitem).mpr ⟨h, c, hc⟩⟩

/-- What occurs in a predicate has no other leaves. -/
theorem Within.leaves_subset (h : p.Within q) : p.leaves ⊆ q.leaves := by
  induction h with
  | self => exact List.Subset.refl _
  | not _ ih => exact ih
  | item hitem _ ih => exact fun leaf hleaf => mem_leavesOfAll.mpr ⟨_, hitem, ih hleaf⟩

/-! ## Patterns -/

/-- A test of a column against a pattern, with the source of its expression. -/
inductive IsPattern : Predicate → Column → String → String → Prop
  | like (c : Column) (pattern : String) (ignoreCase : Bool) :
      IsPattern (.like c pattern ignoreCase) c pattern (Pattern.sourceOfLike pattern ignoreCase)
  | regex (c : Column) (pattern : String) (ignoreCase : Bool) :
      IsPattern (.regex c pattern ignoreCase) c pattern (Pattern.sourceOfRegex pattern ignoreCase)

variable {pattern source : String}

theorem IsPattern.column?_eq (h : leaf.IsPattern c pattern source) : leaf.column? = some c := by
  cases h <;> rfl

theorem patternOf?_eq_some_iff : PatternTable.patternOf? leaf = some (pattern, source) ↔
    ∃ c, leaf.IsPattern c pattern source := by
  constructor
  · intro h
    cases leaf with
    | like c pattern ignoreCase =>
      cases h
      exact ⟨c, .like c pattern ignoreCase⟩
    | regex c pattern ignoreCase =>
      cases h
      exact ⟨c, .regex c pattern ignoreCase⟩
    | _ => cases h
  · rintro ⟨c, h⟩
    cases h <;> rfl

/-- Every pattern that occurs in a predicate can be read. -/
theorem readable_iff_within : p.Readable ↔
    ∀ leaf : Predicate, ∀ c pattern source, leaf.Within p → leaf.IsPattern c pattern source →
      ∃ node, Pattern.Node.ofText source = .ok node := by
  constructor
  · intro h leaf c pattern source hw hp
    exact h leaf (mem_leaves_iff.mpr ⟨hw, c, hp.column?_eq⟩) pattern source
      (patternOf?_eq_some_iff.mpr ⟨c, hp⟩)
  · intro h leaf hleaf pattern source hp
    obtain ⟨c, hp⟩ := patternOf?_eq_some_iff.mp hp
    exact h leaf c pattern source (mem_leaves_iff.mp hleaf).1 hp

/-- The pattern of the first leaf from the left whose pattern cannot be read, and why not. -/
inductive FirstUnreadable : Predicate → String → PatternError → Prop
  | leaf {p : Predicate} {c : Column} {pattern source : String} {cause : PatternError} :
      p.IsPattern c pattern source → Pattern.Node.ofText source = .error cause →
        FirstUnreadable p pattern cause
  | not {inner : Predicate} {pattern : String} {cause : PatternError} :
      FirstUnreadable inner pattern cause → FirstUnreadable (.not inner) pattern cause
  | item {before after : List Predicate} {item : Predicate} {pattern : String}
      {cause : PatternError} :
      (∀ p ∈ before, p.Readable) → FirstUnreadable item pattern cause →
        FirstUnreadable (.and (before ++ item :: after)) pattern cause

variable {inner : Predicate} {cause : PatternError}

theorem firstUnreadable_test_iff (hc : p.column? = some c) : p.FirstUnreadable pattern cause ↔
    ∃ c source, p.IsPattern c pattern source ∧ Pattern.Node.ofText source = .error cause := by
  constructor
  · intro h
    cases h with
    | leaf hp hcause => exact ⟨_, _, hp, hcause⟩
    | not _ => cases hc
    | item _ _ => cases hc
  · rintro ⟨c, source, hp, hcause⟩
    exact .leaf hp hcause

theorem firstUnreadable_not_iff :
    (Predicate.not inner).FirstUnreadable pattern cause ↔ inner.FirstUnreadable pattern cause := by
  constructor
  · intro h
    cases h with
    | leaf hp _ => cases hp
    | not h => exact h
  · exact .not

theorem firstUnreadable_and_iff :
    (Predicate.and items).FirstUnreadable pattern cause ↔
      ∃ before item after, items = before ++ item :: after ∧ (∀ p ∈ before, p.Readable) ∧
        item.FirstUnreadable pattern cause := by
  constructor
  · intro h
    generalize hp : Predicate.and items = p at h
    cases h with
    | leaf hp' _ => cases hp' <;> cases hp
    | not _ => cases hp
    | item hbefore h => exact ⟨_, _, _, Predicate.and.inj hp, hbefore, h⟩
  · rintro ⟨before, item, after, rfl, hbefore, h⟩
    exact .item hbefore h

/-- The first item with an unreadable pattern is the first of all, or it is behind that one. -/
theorem firstUnreadable_cons_iff :
    (Predicate.and (item :: items)).FirstUnreadable pattern cause ↔
      item.FirstUnreadable pattern cause ∨
        item.Readable ∧ (Predicate.and items).FirstUnreadable pattern cause := by
  rw [firstUnreadable_and_iff, firstUnreadable_and_iff]
  constructor
  · rintro ⟨before, found, after, hitems, hbefore, h⟩
    cases before with
    | nil =>
      obtain ⟨rfl, -⟩ := List.cons.inj hitems
      exact Or.inl h
    | cons first before =>
      obtain ⟨rfl, rfl⟩ := List.cons.inj hitems
      rw [List.forall_mem_cons] at hbefore
      exact Or.inr ⟨hbefore.1, before, found, after, rfl, hbefore.2, h⟩
  · rintro (h | ⟨hread, before, found, after, rfl, hbefore, h⟩)
    · exact ⟨[], item, items, rfl, nofun, h⟩
    · exact ⟨item :: before, found, after, rfl, List.forall_mem_cons.mpr ⟨hread, hbefore⟩, h⟩

end Predicate

/-! ## Reading -/

namespace PatternTable

open Predicate

variable {m m' : PatternTable} {p inner leaf : Predicate} {items : List Predicate} {c : Column}
  {pattern source : String} {e : QueryError}

theorem ofPatterns_append (m : PatternTable) (ps ps' : List (String × String)) :
    ofPatterns m (ps ++ ps') = ofPatterns m ps >>= fun m' => ofPatterns m' ps' := by
  induction ps generalizing m with
  | nil => rfl
  | cons p ps ih =>
    simp only [List.cons_append, ofPatterns, bind_assoc, ih]

theorem read_not (m : PatternTable) (inner : Predicate) : m.read (.not inner) = m.read inner := rfl

theorem read_and (m : PatternTable) (items : List Predicate) :
    m.read (.and items) = items.foldlM read m := by
  induction items generalizing m with
  | nil => rfl
  | cons p rest ih =>
    have hsplit : m.read (.and (p :: rest)) = m.read p >>= fun m' => m'.read (.and rest) := by
      rw [read, leaves, leavesOfAll, List.filterMap_append, ofPatterns_append]
      rfl
    rw [hsplit, List.foldlM_cons]
    exact congrArg _ (funext ih)

theorem read_of_isPattern (h : p.IsPattern c pattern source) :
    m.read p = m.add pattern source := by
  rw [read, leaves_of_column? h.column?_eq, List.filterMap_cons_some
    (patternOf?_eq_some_iff.mpr ⟨c, h⟩), List.filterMap_nil, ofPatterns]
  exact bind_pure _

theorem read_of_test (hc : p.column? = some c) (h : patternOf? p = none) : m.read p = .ok m := by
  rw [read, leaves_of_column? hc, List.filterMap_cons_none h]
  rfl

/-- A source that was read before is an expression. -/
theorem add_eq_error_iff (hm : m.Sound) : m.add pattern source = .error e ↔
    ∃ cause, Pattern.Node.ofText source = .error cause ∧ e = .invalidPattern pattern cause := by
  constructor
  · exact add_eq_error
  · rintro ⟨cause, hcause, rfl⟩
    unfold add
    split
    · next hold =>
      obtain ⟨node, hnode⟩ := Option.isSome_iff_exists.mp hold
      rw [hm source node hnode] at hcause
      cases hcause
    · rw [hcause]

/-- Predicates are read up to the first in which a pattern cannot be read. -/
theorem foldlM_read_eq_error_iff
    (h : ∀ item ∈ items, ∀ {m : PatternTable}, m.Sound → ∀ {e}, m.read item = .error e ↔
      ∃ pattern cause, item.FirstUnreadable pattern cause ∧ e = .invalidPattern pattern cause)
    (hm : m.Sound) : items.foldlM read m = .error e ↔
      ∃ pattern cause, (Predicate.and items).FirstUnreadable pattern cause ∧
        e = .invalidPattern pattern cause := by
  induction items generalizing m with
  | nil =>
    refine iff_of_false nofun ?_
    rintro ⟨pattern, cause, hfirst, -⟩
    obtain ⟨before, item, after, hitems, -⟩ := firstUnreadable_and_iff.mp hfirst
    simp at hitems
  | cons item items ih =>
    rw [List.foldlM_cons, Checked.bind_eq_error_iff, h item List.mem_cons_self hm]
    simp only [firstUnreadable_cons_iff]
    -- What is read before keeps the table sound, so the rest may start from any sound table.
    have hrest {m : PatternTable} (hm : m.Sound) :=
      ih (fun item hitem => h item (List.mem_cons_of_mem _ hitem)) hm
    constructor
    · rintro (⟨pattern, cause, hfirst, rfl⟩ | ⟨m', hm', he⟩)
      · exact ⟨pattern, cause, Or.inl hfirst, rfl⟩
      · obtain ⟨pattern, cause, hfirst, rfl⟩ := (hrest (covers_of_read hm hm').1).mp he
        exact ⟨pattern, cause, Or.inr ⟨(exists_read_iff hm).mp ⟨m', hm'⟩, hfirst⟩, rfl⟩
    · rintro ⟨pattern, cause, hfirst | ⟨hread, hfirst⟩, rfl⟩
      · exact Or.inl ⟨pattern, cause, hfirst, rfl⟩
      · obtain ⟨m', hm'⟩ := (exists_read_iff hm).mpr hread
        exact Or.inr ⟨m', hm', (hrest (covers_of_read hm hm').1).mpr
          ⟨pattern, cause, hfirst, rfl⟩⟩

/-- Reading fails at the first pattern from the left that cannot be read. -/
theorem read_eq_error_iff (p : Predicate) : ∀ {m : PatternTable}, m.Sound → ∀ {e},
    m.read p = .error e ↔
      ∃ pattern cause, p.FirstUnreadable pattern cause ∧ e = .invalidPattern pattern cause := by
  induction p using induct with
  | test p c hc =>
    intro m hm e
    simp only [firstUnreadable_test_iff hc]
    cases hp : patternOf? p with
    | none =>
      rw [read_of_test hc hp]
      refine iff_of_false nofun ?_
      rintro ⟨pattern, cause, ⟨c, source, hpattern, -⟩, -⟩
      rw [patternOf?_eq_some_iff.mpr ⟨c, hpattern⟩] at hp
      cases hp
    | some found =>
      obtain ⟨c', hpattern⟩ := patternOf?_eq_some_iff.mp hp
      rw [read_of_isPattern hpattern, add_eq_error_iff hm]
      constructor
      · rintro ⟨cause, hcause, rfl⟩
        exact ⟨found.1, cause, ⟨c', found.2, hpattern, hcause⟩, rfl⟩
      · rintro ⟨pattern, cause, ⟨c, source, hpattern', hcause⟩, rfl⟩
        cases (patternOf?_eq_some_iff.mpr ⟨c, hpattern'⟩).symm.trans hp
        exact ⟨cause, hcause, rfl⟩
  | not inner ih =>
    intro m hm e
    rw [read_not, ih hm]
    simp only [firstUnreadable_not_iff]
  | and items ih =>
    intro m hm e
    rw [read_and]
    exact foldlM_read_eq_error_iff ih hm

variable {condition : Predicate}

/-- The table of a condition decides each of its pattern leaves for every text. -/
theorem eval_of_isPattern (hm : ofCondition condition = .ok m) (hw : leaf.Within condition)
    (hp : leaf.IsPattern c pattern source) :
    ∃ node, Pattern.Node.ofText source = .ok node ∧ m.find? source = some node ∧
      ∀ store b s, store.valueAt b c = .ok (.text s) →
        Query.eval store m b leaf = .ok (some (node.occursIn s)) := by
  obtain ⟨node, hnode, hfind⟩ := covers_of_ofCondition hm leaf
    (mem_leaves_iff.mpr ⟨hw, c, hp.column?_eq⟩) pattern source
    (patternOf?_eq_some_iff.mpr ⟨c, hp⟩)
  refine ⟨node, hnode, hfind, fun store b s hs => ?_⟩
  have htest : m.test source (.text s) = some (node.occursIn s) := by
    rw [test, hfind]
    rfl
  cases hp with
  | like _ _ _ =>
    rw [Query.eval, hs, Checked.ok_bind, htest]
    rfl
  | regex _ _ _ =>
    rw [Query.eval, hs, Checked.ok_bind, htest]
    rfl

theorem exists_ofCondition_error_iff : (∃ e, ofCondition condition = .error e) ↔
    ∃ (leaf : Predicate) (c : Column) (pattern source : String) (cause : PatternError),
      leaf.Within condition ∧ leaf.IsPattern c pattern source ∧
        Pattern.Node.ofText source = .error cause := by
  rw [Checked.exists_error_iff, exists_ofCondition_iff, readable_iff_within]
  simp only [not_forall, exists_prop, exists_and_left, ← Checked.exists_error_iff]

/-- Reading the patterns of a condition fails just if some pattern in it, at any depth, cannot be
read, and then names the first one from the left. Else the table has the expression of each pattern
by its source, and with it a text is known to match the pattern or not. -/
theorem ofCondition_exact (condition : Predicate) :
    (∀ m, ofCondition condition = .ok m →
        ∀ (leaf : Predicate) c pattern source, leaf.Within condition →
          leaf.IsPattern c pattern source →
            ∃ node, Pattern.Node.ofText source = .ok node ∧ m.find? source = some node ∧
              ∀ store b s, store.valueAt b c = .ok (.text s) →
                Query.eval store m b leaf = .ok (some (node.occursIn s))) ∧
      ((∃ e, ofCondition condition = .error e) ↔
        ∃ (leaf : Predicate) (c : Column) (pattern source : String) (cause : PatternError),
          leaf.Within condition ∧ leaf.IsPattern c pattern source ∧
            Pattern.Node.ofText source = .error cause) ∧
      ∀ e, ofCondition condition = .error e ↔
        ∃ pattern cause, condition.FirstUnreadable pattern cause ∧
          e = .invalidPattern pattern cause := by
  refine ⟨fun m hm leaf c pattern source hw hp => ?_, exists_ofCondition_error_iff, fun e => ?_⟩
  · exact eval_of_isPattern hm hw hp
  · exact read_eq_error_iff condition sound_empty

def titleColumn : Column := ⟨Path.root, ⟨0⟩, "title"⟩

/-- A LIKE pattern and a regular expression that have one source. -/
def sharedSource : Predicate :=
  .and [.like titleColumn "a_" false, .not (.regex titleColumn "(?s)^a.$" false)]

/-- Two texts that are no expressions, behind two that are. -/
def brokenBehind : Predicate :=
  .and [sharedSource, .not (.and [.regex titleColumn "(" true, .regex titleColumn ")" false])]

/-- A row with a title of two characters. -/
def shortTitle : Store :=
  (Store.empty.insert ⟨0⟩ (Ordered.ofList [("title", .text "a\n")])).2

/-- The theorem at two pattern leaves that share their expression, and at a condition of which the
third pattern is the first that cannot be read. -/
theorem ofCondition_exact_shared :
    (∃ m, ofCondition sharedSource = .ok m ∧ m.entries.length = 1 ∧
        Query.eval shortTitle m [(Path.root, ⟨1⟩)] (.like titleColumn "a_" false) =
          .ok (some true) ∧
        Query.eval shortTitle m [(Path.root, ⟨1⟩)] (.regex titleColumn "(?s)^a.$" false) =
          .ok (some true)) ∧
      ∃ cause, ofCondition brokenBehind = .error (.invalidPattern "(" cause) := by
  obtain ⟨m, hm, hlength⟩ : ∃ m, ofCondition sharedSource = .ok m ∧ m.entries.length = 1 := by
    have h : (ofCondition sharedSource).toOption.map (·.entries.length) = some 1 := by
      decide +kernel
    simpa only [Option.map_eq_some_iff, Checked.toOption_eq_some_iff] using h
  obtain ⟨node, hnode, hmatch⟩ :
      ∃ node, Pattern.Node.ofText "(?s)^a.$" = .ok node ∧ node.occursIn "a\n" = true := by
    have h : (Pattern.Node.ofText "(?s)^a.$").toOption.map (·.occursIn "a\n") = some true := by
      decide +kernel
    simpa only [Option.map_eq_some_iff, Checked.toOption_eq_some_iff] using h
  obtain ⟨cause, hcause⟩ : ∃ cause, Pattern.Node.ofText "(?i)(" = .error cause :=
    Checked.toOption_eq_none_iff.mp (by decide +kernel)
  have hmatches {leaf : Predicate} {pattern : String} (hw : leaf.Within sharedSource)
      (hp : leaf.IsPattern titleColumn pattern "(?s)^a.$") :
      Query.eval shortTitle m [(Path.root, ⟨1⟩)] leaf = .ok (some true) := by
    obtain ⟨node', hnode', -, heval⟩ := (ofCondition_exact sharedSource).1 m hm _ _ _ _ hw hp
    cases hnode.symm.trans hnode'
    rw [heval shortTitle [(Path.root, ⟨1⟩)] "a\n" rfl, hmatch]
  have hlike := IsPattern.like titleColumn "a_" false
  have hsource : Pattern.sourceOfLike "a_" false = "(?s)^a.$" := by decide +kernel
  rw [hsource] at hlike
  refine ⟨⟨m, hm, hlength, hmatches (.item List.mem_cons_self (.self _)) hlike, ?_⟩, cause, ?_⟩
  · exact hmatches (.item (List.mem_cons_of_mem _ List.mem_cons_self) (.not (.self _)))
      (.regex titleColumn "(?s)^a.$" false)
  · refine ((ofCondition_exact brokenBehind).2.2 _).mpr ⟨"(", cause, ?_, rfl⟩
    refine firstUnreadable_and_iff.mpr ⟨[sharedSource], _, [], rfl, ?_, .not ?_⟩
    · exact List.forall_mem_singleton.mpr (exists_ofCondition_iff.mp ⟨m, hm⟩)
    · refine firstUnreadable_and_iff.mpr ⟨[], _, _, rfl, nofun, ?_⟩
      exact .leaf (.regex titleColumn "(" true) hcause

end PatternTable

end FieldLookup
