import FieldLookup.Proofs.OperatorTokens

/-!
Tables that settings describe. Main statement: `OperatorTable.ofSettings_exact`, when there is such
a table, what it finds under each token, and how little depends on the tokens that are disabled.
-/
namespace FieldLookup

/-- Some operator has this token as its own. -/
def Operator.IsToken (token : String) : Prop := ∃ op : Operator, op.token = token

theorem Operator.ofToken?_eq_none_iff {token : String} :
    ofToken? token = none ↔ ¬IsToken token := by
  simp only [Option.eq_none_iff_forall_ne_some, ne_eq, ofToken?_eq_some_iff, IsToken, not_exists]

instance : DecidablePred Operator.IsToken := fun token =>
  decidable_of_iff ((Operator.ofToken? token).isSome = true) <| by
    simp only [Option.isSome_iff_exists, Operator.ofToken?_eq_some_iff, Operator.IsToken]

namespace Settings

/-- What a token is read as: the target if it is an alias, else itself. -/
def standsFor (s : Settings) (token : String) : String := (s.aliases.get? token).getD token

/-- The first alias, in the order of their names, whose target is no operator's own token. -/
structure FirstUnknown (s : Settings) (name target : String) : Prop where
  listed : s.aliases.get? name = some target
  unknown : ¬Operator.IsToken target
  first : ∀ other known, other < name → s.aliases.get? other = some known → Operator.IsToken known

end Settings

namespace OperatorTable

variable {s : Settings} {t : OperatorTable} {es : List (String × String)} {e : LookupError}

/-! ## Aliases -/

/-- Aliases are refused at the first one with an unknown target. -/
theorem addAliases_eq_error_iff (t : OperatorTable) : t.addAliases es = .error e ↔
    ∃ a, es.find? (¬Operator.IsToken ·.2) = some a ∧
      e = .settings (.unknownTarget a.1 a.2) := by
  induction es generalizing t with
  | nil => simp [addAliases]
  | cons a es ih =>
    rw [addAliases, List.find?_cons]
    split
    · next op hop =>
      have htarget : Operator.IsToken a.2 := ⟨op, Operator.ofToken?_eq_some_iff.mp hop⟩
      simp [ih, htarget]
    · next hop => simp [Operator.ofToken?_eq_none_iff.mp hop, eq_comm]

theorem exists_addAliases_iff (t : OperatorTable) :
    (∃ u, t.addAliases es = .ok u) ↔ ∀ a ∈ es, Operator.IsToken a.2 := by
  have hnone : (∀ a ∈ es, Operator.IsToken a.2) ↔ es.find? (¬Operator.IsToken ·.2) = none := by
    simp
  rw [hnone, ← not_iff_not, ← Checked.exists_error_iff, ← ne_eq, Option.ne_none_iff_exists']
  simp only [addAliases_eq_error_iff]
  exact exists_comm.trans (by simp)

/-! ## Disabled tokens -/

theorem entries_foldl_erase (names : List String) (t : OperatorTable) :
    (names.foldl erase t).tokens.entries = t.tokens.entries.filter (·.1 ∉ names) := by
  induction names generalizing t with
  | nil => simp
  | cons name names ih =>
    rw [List.foldl_cons, ih, erase, Ordered.erase, List.filter_filter]
    refine List.filter_congr fun a _ => ?_
    simp [Bool.and_comm]

theorem foldl_erase_congr {names others : List String}
    (h : ∀ token, token ∈ names ↔ token ∈ others) (t : OperatorTable) :
    names.foldl erase t = others.foldl erase t := by
  have hentries : (names.foldl erase t).tokens.entries = (others.foldl erase t).tokens.entries := by
    simp only [entries_foldl_erase, h]
  exact congrArg OperatorTable.mk (Ordered.eq_of_entries hentries)

/-! ## Settings -/

theorem ofSettings_eq (s : Settings) : ofSettings s =
    (standard.addAliases s.aliases.sorted).map fun t => s.disabled.foldl erase t := by
  rw [ofSettings]
  cases standard.addAliases s.aliases.sorted with
  | error e => rfl
  | ok t => rfl

theorem exists_ofSettings_iff (s : Settings) : (∃ t, ofSettings s = .ok t) ↔
    ∀ name target, s.aliases.get? name = some target → Operator.IsToken target := by
  have hadd : (∃ t, ofSettings s = .ok t) ↔ ∃ u, standard.addAliases s.aliases.sorted = .ok u := by
    simp [ofSettings_eq, Checked.map_eq_ok_iff]
  rw [hadd, exists_addAliases_iff, Prod.forall]
  simp only [Ordered.mem_sorted_iff]

theorem ofSettings_eq_error_iff (s : Settings) : ofSettings s = .error e ↔
    ∃ name target, s.FirstUnknown name target ∧ e = .settings (.unknownTarget name target) := by
  rw [ofSettings_eq, Checked.map_eq_error_iff, addAliases_eq_error_iff]
  simp only [List.find?_eq_some_iff_append, decide_eq_true_eq]
  constructor
  · rintro ⟨⟨name, target⟩, ⟨hunknown, front, back, hsorted, hfront⟩, he⟩
    have hlisted : (name, target) ∈ s.aliases.sorted := by simp [hsorted]
    refine ⟨name, target, ⟨s.aliases.mem_sorted_iff.mp hlisted, hunknown, ?_⟩, he⟩
    intro other known hlt hother
    simpa using hfront (other, known) ((Ordered.mem_front_iff hsorted).mpr ⟨hother, hlt⟩)
  · rintro ⟨name, target, h, he⟩
    obtain ⟨front, back, hsorted⟩ := List.append_of_mem (s.aliases.mem_sorted_iff.mpr h.listed)
    refine ⟨(name, target), ⟨h.unknown, front, back, hsorted, fun a ha => ?_⟩, he⟩
    obtain ⟨hother, hlt⟩ := (Ordered.mem_front_iff hsorted).mp ha
    simpa using h.first a.1 a.2 hlt hother

/-- What is disabled matters, and neither in which order nor how often it is said. -/
theorem ofSettings_congr {names : List String}
    (h : ∀ token, token ∈ names ↔ token ∈ s.disabled) :
    ofSettings { s with disabled := names } = ofSettings s := by
  simp only [ofSettings_eq, foldl_erase_congr h]

theorem find?_eq_some_iff (ht : ofSettings s = .ok t) {token : String} {op : Operator} :
    t.find? token = some op ↔ token ∉ s.disabled ∧ op.token = s.standsFor token := by
  rw [find?_ofSettings ht, Settings.standsFor]
  split
  · next hdisabled => simp [hdisabled]
  · next henabled => cases s.aliases.get? token <;> simp [henabled, Operator.ofToken?_eq_some_iff]

/-- A token that is disabled too takes nothing else away. -/
theorem exists_disabled (ht : ofSettings s = .ok t) (token : String) :
    ∃ u, ofSettings { s with disabled := token :: s.disabled } = .ok u ∧
      u.find? token = none ∧ ∀ other, other ≠ token → u.find? other = t.find? other := by
  obtain ⟨u, hu⟩ := (exists_ofSettings_iff { s with disabled := token :: s.disabled }).mpr
    ((exists_ofSettings_iff s).mp ⟨t, ht⟩)
  refine ⟨u, hu, ?_, fun other hne => ?_⟩
  · simp [find?_ofSettings hu]
  · simp [find?_ofSettings hu, find?_ofSettings ht, hne]

/-! ## Views -/

/-- A table contains and lists the tokens that it finds, each once and in order. -/
structure ListsFound (t : OperatorTable) : Prop where
  contains_iff : ∀ token, t.contains token = true ↔ ∃ op, t.find? token = some op
  mem_sortedTokens_iff : ∀ token, token ∈ t.sortedTokens ↔ ∃ op, t.find? token = some op
  pairwise_sortedTokens : t.sortedTokens.Pairwise (· < ·)
  size_eq : t.size = t.sortedTokens.length

theorem listsFound (t : OperatorTable) : t.ListsFound where
  contains_iff _ := Option.isSome_iff_exists
  mem_sortedTokens_iff token := by
    rw [sortedTokens, (t.tokens.sorted_perm.map _).mem_iff]
    exact t.tokens.mem_keys_iff
  pairwise_sortedTokens := List.pairwise_map.mpr t.tokens.pairwise_sorted
  size_eq := by
    rw [sortedTokens, List.length_map, t.tokens.sorted_perm.length_eq, size, Ordered.size]

/-- Settings describe a table just if the target of each alias is an operator's own token; else the
first alias without such a target is named. Under a token that is not disabled the table finds the
operator of the alias or, if there is no alias, of the token itself, and under a disabled one
nothing. So the order and the repetition of disabled tokens change nothing, an alias that is not
disabled itself finds its target even if that is, and the tokens that the table contains, lists and
counts are those that find an operator. -/
theorem ofSettings_exact (s : Settings) :
    ((∃ t, ofSettings s = .ok t) ↔
        ∀ name target, s.aliases.get? name = some target → Operator.IsToken target) ∧
      (∀ e, ofSettings s = .error e ↔ ∃ name target, s.FirstUnknown name target ∧
        e = .settings (.unknownTarget name target)) ∧
      (∀ names, (∀ token, token ∈ names ↔ token ∈ s.disabled) →
        ofSettings { s with disabled := names } = ofSettings s) ∧
      ∀ t, ofSettings s = .ok t →
        (∀ token op, t.find? token = some op ↔
          token ∉ s.disabled ∧ op.token = s.standsFor token) ∧
        (∀ name target, s.aliases.get? name = some target → name ∉ s.disabled →
          ∃ op, t.find? name = some op ∧ op.token = target) ∧
        (∀ token, ∃ u, ofSettings { s with disabled := token :: s.disabled } = .ok u ∧
          u.find? token = none ∧ ∀ other, other ≠ token → u.find? other = t.find? other) ∧
        t.ListsFound := by
  refine ⟨exists_ofSettings_iff s, fun e => ofSettings_eq_error_iff s, fun names h => ?_,
    fun t ht => ⟨fun token op => find?_eq_some_iff ht, ?_, exists_disabled ht, t.listsFound⟩⟩
  · exact ofSettings_congr h
  · intro name target halias henabled
    obtain ⟨op, hop⟩ := (exists_ofSettings_iff s).mp ⟨t, ht⟩ name target halias
    have hstands : s.standsFor name = target := by rw [Settings.standsFor, halias, Option.getD_some]
    exact ⟨op, (find?_eq_some_iff ht).mpr ⟨henabled, hop.trans hstands.symm⟩, hop⟩

/-- Settings with an alias that hides a token, one whose target is disabled, and one that is
disabled itself. -/
def renamed : Settings :=
  { Settings.standard with
    aliases := Ordered.ofList [("rx", "regex"), ("eq", "ne"), ("like", "contains")]
    disabled := ["regex", "like", "regex"] }

/-- Settings with two aliases that have no built-in target, the first for another alias. -/
def misnamed : Settings :=
  { Settings.standard with
    aliases := Ordered.ofList [("sounds", "soundex"), ("like", "contains"), ("match", "like")] }

/-- The theorem at settings that describe a table and at settings that do not. -/
theorem ofSettings_exact_renamed :
    (∃ t, ofSettings renamed = .ok t ∧
        ofSettings { renamed with disabled := ["like", "regex"] } = .ok t ∧
        t.find? "rx" = some .regex ∧ t.find? "eq" = some .ne ∧ t.find? "gt" = some .gt ∧
        t.find? "regex" = none ∧ "like" ∉ t.sortedTokens) ∧
      ofSettings misnamed = .error (.settings (.unknownTarget "match" "like")) := by
  constructor
  · obtain ⟨hok, -, hcongr, htable⟩ := ofSettings_exact renamed
    have hknown : ∀ a ∈ renamed.aliases.entries, Operator.IsToken a.2 := by decide
    obtain ⟨t, ht⟩ := hok.mpr fun name target halias =>
      hknown (name, target) (renamed.aliases.get?_eq_some_iff.mp halias)
    obtain ⟨hfind, halias, -, hlists⟩ := htable t ht
    have hmissing {token : String} (h : token ∈ renamed.disabled) : t.find? token = none :=
      Option.eq_none_iff_forall_ne_some.mpr fun op hop => ((hfind token op).mp hop).1 h
    refine ⟨t, ht, (hcongr _ (by simp [renamed])).trans ht, ?_, ?_, ?_, hmissing (by decide), ?_⟩
    · exact (hfind _ _).mpr ⟨by decide, by decide⟩
    · exact (hfind _ _).mpr ⟨by decide, by decide⟩
    · exact (hfind _ _).mpr ⟨by decide, by decide⟩
    · intro hmem
      obtain ⟨op, hop⟩ := (hlists.mem_sortedTokens_iff _).mp hmem
      rw [hmissing (by decide)] at hop
      cases hop
  · have hfirst : ∀ a ∈ misnamed.aliases.entries, a.1 < "match" → Operator.IsToken a.2 := by decide
    refine ((ofSettings_exact misnamed).2.1 _).mpr
      ⟨"match", "like", ⟨by decide, by decide, ?_⟩, rfl⟩
    intro other known hlt halias
    exact hfirst (other, known) (misnamed.aliases.get?_eq_some_iff.mp halias) hlt

end OperatorTable

end FieldLookup
