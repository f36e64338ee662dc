import FieldLookup.Proofs.Building
import FieldLookup.Proofs.Wildcards

/-!
Operators that look for a needle in a text. Main statement: `Operator.finds_exact`, whatever the
needle holds, the predicate that is built of it tells whether the needle stands in the text, at its
start, at its end or for the whole of it.
-/
namespace FieldLookup

namespace Pattern

/-- A character as it is compared. -/
def foldChar (ignoreCase : Bool) : Char → Char := if ignoreCase then Char.toLower else id

theorem sameChar_iff {ignoreCase : Bool} {c d : Char} :
    sameChar ignoreCase c d = true ↔ foldChar ignoreCase c = foldChar ignoreCase d := by
  unfold sameChar foldChar
  cases ignoreCase <;> simp

/-! ## Needles in patterns -/

namespace LikePart

/-- A quoted text becomes one part for each of its characters. -/
theorem ofPattern_quoteWildcards (n p : List Char) :
    ofPattern (quoteWildcards n ++ p) = n.map char ++ ofPattern p := by
  induction n with
  | nil => rfl
  | cons c n ih =>
    unfold quoteWildcards
    split
    · rw [List.cons_append, List.cons_append, ofPattern, ih]
      rfl
    · next h =>
      obtain ⟨hany, hone, hescape⟩ : c ≠ '%' ∧ c ≠ '_' ∧ c ≠ '\\' := by
        simpa only [not_or] using h
      rw [List.cons_append, ofPattern, ih]
      · rfl
      · exact fun hc => absurd hc hescape
      · exact fun _ _ hc => absurd hc hescape
      · exact hany
      · exact hone

variable {ignoreCase : Bool} {parts : List LikePart} {n s : List Char}

/-- Characters match the front of a text that is compared as they are, by induction on them. -/
theorem matchAll_chars_append :
    matchAll ignoreCase (n.map char ++ parts) s = true ↔
      ∃ front back, front ++ back = s ∧
        front.map (foldChar ignoreCase) = n.map (foldChar ignoreCase) ∧
          matchAll ignoreCase parts back = true := by
  induction n generalizing s with
  | nil =>
    constructor
    · exact fun h => ⟨[], s, rfl, rfl, h⟩
    · rintro ⟨front, back, rfl, hfront, h⟩
      rwa [List.map_eq_nil_iff.mp hfront]
  | cons c n ih =>
    rw [List.map_cons, List.cons_append, matchAll]
    constructor
    · intro h
      cases s with
      | nil => cases h
      | cons d s =>
        obtain ⟨hsame, hrest⟩ := (Bool.and_eq_true _ _).mp h
        obtain ⟨front, back, rfl, hfront, hback⟩ := ih.mp hrest
        refine ⟨d :: front, back, rfl, ?_, hback⟩
        rw [List.map_cons, List.map_cons, hfront, sameChar_iff.mp hsame]
    · rintro ⟨front, back, rfl, hfront, hback⟩
      obtain ⟨d, front, rfl, hsame, hfront⟩ := List.map_eq_cons_iff.mp hfront
      exact (Bool.and_eq_true _ _).mpr ⟨sameChar_iff.mpr hsame.symm,
        ih.mpr ⟨front, back, rfl, hfront, hback⟩⟩

theorem matchAll_any_cons :
    matchAll ignoreCase (any :: parts) s = true ↔
      ∃ front back, front ++ back = s ∧ matchAll ignoreCase parts back = true := by
  rw [matchAll, List.any_eq_true]
  constructor
  · rintro ⟨back, hsuffix, h⟩
    obtain ⟨front, hfront⟩ := (List.mem_tails _ _).mp hsuffix
    exact ⟨front, back, hfront, h⟩
  · rintro ⟨front, back, hfront, h⟩
    exact ⟨back, (List.mem_tails _ _).mpr ⟨front, hfront⟩, h⟩

theorem matchAll_nil : matchAll ignoreCase [] s = true ↔ s = [] := List.isEmpty_iff

theorem matchAll_any : matchAll ignoreCase [any] s = true :=
  matchAll_any_cons.mpr ⟨s, [], List.append_nil s, rfl⟩

/-- Nothing around a needle: it is the whole text. -/
theorem matchAll_chars :
    matchAll ignoreCase (n.map char) s = true ↔
      n.map (foldChar ignoreCase) = s.map (foldChar ignoreCase) := by
  rw [← List.append_nil (n.map char), matchAll_chars_append]
  constructor
  · rintro ⟨front, back, rfl, hfront, hback⟩
    rw [matchAll_nil.mp hback, List.append_nil, hfront]
  · exact fun h => ⟨s, [], List.append_nil s, h.symm, rfl⟩

/-- Any text behind a needle: it is a prefix. -/
theorem matchAll_chars_any :
    matchAll ignoreCase (n.map char ++ [any]) s = true ↔
      n.map (foldChar ignoreCase) <+: s.map (foldChar ignoreCase) := by
  rw [matchAll_chars_append]
  constructor
  · rintro ⟨front, back, rfl, hfront, -⟩
    exact ⟨back.map (foldChar ignoreCase), by rw [← hfront, List.map_append]⟩
  · rintro ⟨rest, hrest⟩
    obtain ⟨front, back, rfl, hfront, -⟩ := List.map_eq_append_iff.mp hrest.symm
    exact ⟨front, back, rfl, hfront, matchAll_any⟩

/-- Any text before a needle: it is a suffix. -/
theorem matchAll_any_chars :
    matchAll ignoreCase (any :: n.map char) s = true ↔
      n.map (foldChar ignoreCase) <:+ s.map (foldChar ignoreCase) := by
  simp only [matchAll_any_cons, matchAll_chars]
  constructor
  · rintro ⟨front, back, rfl, hback⟩
    exact ⟨front.map (foldChar ignoreCase), by rw [hback, List.map_append]⟩
  · rintro ⟨rest, hrest⟩
    obtain ⟨front, back, rfl, -, hback⟩ := List.map_eq_append_iff.mp hrest.symm
    exact ⟨front, back, rfl, hback.symm⟩

/-- Any text before and behind a needle: it stands somewhere. -/
theorem matchAll_any_chars_any :
    matchAll ignoreCase (any :: (n.map char ++ [any])) s = true ↔
      n.map (foldChar ignoreCase) <:+: s.map (foldChar ignoreCase) := by
  simp only [matchAll_any_cons, matchAll_chars_any]
  constructor
  · rintro ⟨front, back, rfl, hback⟩
    rw [List.map_append]
    exact hback.isInfix.trans (List.suffix_append _ _).isInfix
  · rintro ⟨before, after, heq⟩
    rw [List.append_assoc] at heq
    obtain ⟨front, back, rfl, -, hback⟩ := List.map_eq_append_iff.mp heq.symm
    exact ⟨front, back, rfl, after, hback.symm⟩

end LikePart

/-- The wildcard for any text where there may be more text, and else nothing. -/
def wild (more : Bool) : String := if more then "%" else ""

/-- Whether a needle stands in a text, with more text before it and behind it only where there may
be some. -/
def standsIn (before behind : Bool) (needle text : List Char) : Bool :=
  match before, behind with
  | false, false => needle = text
  | false, true => needle <+: text
  | true, false => needle <:+ text
  | true, true => needle <:+: text

/-- A quoted needle between wildcards matches the texts in which the needle stands. -/
theorem likeMatches_around (before behind ignoreCase : Bool) (needle : String) (s : List Char) :
    likeMatches ignoreCase (wild before ++ likeLiteral needle ++ wild behind).toList s =
      standsIn before behind (needle.toList.map (foldChar ignoreCase))
        (s.map (foldChar ignoreCase)) := by
  have hpercent : "%".toList = ['%'] := by decide
  have hparts : LikePart.ofPattern (wild before ++ likeLiteral needle ++ wild behind).toList =
      (if before then [.any] else []) ++
        (needle.toList.map .char ++ if behind then [.any] else []) := by
    have hbehind : LikePart.ofPattern (wild behind).toList = if behind then [.any] else [] := by
      cases behind with
      | false => rfl
      | true => rw [wild, if_pos rfl, hpercent]; rfl
    rw [String.toList_append, String.toList_append, likeLiteral, String.toList_ofList,
      List.append_assoc, ← hbehind, ← LikePart.ofPattern_quoteWildcards]
    cases before with
    | false => rfl
    | true => rw [wild, if_pos rfl, hpercent]; rfl
  rw [likeMatches_eq, hparts, Bool.eq_iff_iff]
  cases before <;> cases behind <;>
    simp only [standsIn, decide_eq_true_eq, Bool.false_eq_true, if_false, if_true, List.nil_append,
      List.append_nil, List.cons_append]
  · exact LikePart.matchAll_chars
  · exact LikePart.matchAll_chars_any
  · exact LikePart.matchAll_any_chars
  · exact LikePart.matchAll_any_chars_any

theorem length_quoteWildcards_le (n : List Char) : (quoteWildcards n).length ≤ 2 * n.length := by
  induction n with
  | nil => exact Nat.zero_le _
  | cons c n ih =>
    unfold quoteWildcards
    split <;> simp only [List.length_cons] <;> omega

/-- Between wildcards there are at most two characters for each of the needle's. -/
theorem length_around_le (before behind : Bool) (needle : String) :
    (wild before ++ likeLiteral needle ++ wild behind).toList.length ≤
      2 * needle.toList.length + 2 := by
  have hwild (more : Bool) : (wild more).toList.length ≤ 1 := by cases more <;> decide
  have hbefore := hwild before
  have hbehind := hwild behind
  have hneedle := length_quoteWildcards_le needle.toList
  rw [String.toList_append, String.toList_append, likeLiteral, String.toList_ofList,
    List.length_append, List.length_append]
  omega

end Pattern

namespace Operator

variable {op : Operator} {a : Attribute}

/-- The operators that look for a needle. -/
def searching : List Operator :=
  [iexact, contains, icontains, startsWith, istartsWith, endsWith, iendsWith]

/-- Where an operator finds a needle in a text. -/
def finds (op : Operator) (needle text : List Char) : Bool :=
  match op with
  | contains => needle <:+: text
  | startsWith => needle <+: text
  | endsWith => needle <:+ text
  | icontains => needle.map Char.toLower <:+: text.map Char.toLower
  | istartsWith => needle.map Char.toLower <+: text.map Char.toLower
  | iendsWith => needle.map Char.toLower <:+ text.map Char.toLower
  | iexact => needle.map Char.toLower = text.map Char.toLower
  | _ => false

/-- What such an operator builds of a text is a quoted needle between wildcards. -/
theorem build_text (hop : op ∈ searching) (ha : a.type = .text) (c : Column) (needle : String)
    (coerce : Bool) :
    ∃ before behind ignoreCase,
      op.build c a (.text needle) coerce =
          .ok (.like c (Pattern.wild before ++ Pattern.likeLiteral needle ++ Pattern.wild behind)
            ignoreCase) ∧
        ∀ n s, op.finds n s =
          Pattern.standsIn before behind (n.map (Pattern.foldChar ignoreCase))
            (s.map (Pattern.foldChar ignoreCase)) := by
  have hid (n : List Char) : n.map (Pattern.foldChar false) = n := List.map_id n
  simp only [searching, List.mem_cons, List.not_mem_nil, or_false] at hop
  have hcolumn : op.ensureColumn a (.text needle) = .ok () := by
    refine ensureColumn_eq_ok_iff.mpr ⟨fun hpart => ?_, fun _ => ha⟩
    rcases hop with rfl | rfl | rfl | rfl | rfl | rfl | rfl <;> cases hpart
  unfold build
  rw [hcolumn, Checked.ok_bind]
  rcases hop with rfl | rfl | rfl | rfl | rfl | rfl | rfl
  · exact ⟨false, false, true, rfl, fun _ _ => rfl⟩
  · exact ⟨true, true, false, rfl, fun n s => by rw [hid, hid]; rfl⟩
  · exact ⟨true, true, true, rfl, fun _ _ => rfl⟩
  · exact ⟨false, true, false, rfl, fun n s => by rw [hid, hid]; rfl⟩
  · exact ⟨false, true, true, rfl, fun _ _ => rfl⟩
  · exact ⟨true, false, false, rfl, fun n s => by rw [hid, hid]; rfl⟩
  · exact ⟨true, false, true, rfl, fun _ _ => rfl⟩

/-- An operator that looks for a needle builds a predicate of every needle, and the predicate tells
of each text of the column whether the operator finds the needle there; wildcards, backslashes and
characters with a meaning in regular expressions stand for themselves. It is unknown for null. -/
theorem finds_exact (hop : op ∈ searching) (ha : a.type = .text) (c : Column) (needle : String)
    (coerce : Bool) :
    ∃ p, op.build c a (.text needle) coerce = .ok p ∧
      (∀ e, PatternTable.ofCondition p = .error e →
        ∃ pattern, e = .invalidPattern pattern .tooLarge ∧ 65533 < needle.toList.length) ∧
      ∀ condition m, p ∈ condition.leaves → PatternTable.ofCondition condition = .ok m →
        ∀ store b,
          (∀ s, store.valueAt b c = .ok (.text s) →
            Query.eval store m b p = .ok (some (op.finds needle.toList s.toList))) ∧
          (store.valueAt b c = .ok .null → Query.eval store m b p = .ok none) := by
  obtain ⟨before, behind, ignoreCase, hbuild, hfinds⟩ := build_text hop ha c needle coerce
  have hlength := Pattern.length_around_le before behind needle
  refine ⟨_, hbuild, fun e he => ?_, fun condition m hleaf hm store b => ⟨fun s hs => ?_, ?_⟩⟩
  · obtain ⟨rfl, hlong⟩ := Query.ofCondition_like_eq_error he
    exact ⟨_, rfl, by omega⟩
  · rw [Query.eval_like hleaf hm hs, hfinds]
    exact congrArg (fun t => Except.ok (some t)) (Pattern.likeMatches_around ..)
  · intro hnull
    rw [Query.eval_like hleaf hm hnull]
    rfl

/-- The theorem at a needle that starts with both wildcards, has a line feed and a point, and ends
in a backslash. -/
theorem finds_exact_titled :
    icontains ∈ searching ∧
      ∃ p m, icontains.build ⟨[], ⟨0⟩, "title"⟩ ⟨"title", .text, true, false⟩
            (.text "%_\nXUP.\\") true = .ok p ∧
        PatternTable.ofCondition p = .ok m ∧
          Query.eval Query.titled m [(Path.root, ⟨1⟩)] p = .ok (some true) ∧
            Query.eval Query.titled m [(Path.root, ⟨2⟩)] p = .ok none := by
  have hop : icontains ∈ searching := by decide
  have htext : Query.titled.valueAt [(Path.root, ⟨1⟩)] ⟨[], ⟨0⟩, "title"⟩ =
      .ok (.text "100%_\nxup.\\") := rfl
  have hnull : Query.titled.valueAt [(Path.root, ⟨2⟩)] ⟨[], ⟨0⟩, "title"⟩ = .ok .null := rfl
  have hfinds : icontains.finds "%_\nXUP.\\".toList "100%_\nxup.\\".toList = true := by
    decide +kernel
  obtain ⟨p, hbuild, herror, heval⟩ :=
    finds_exact (a := ⟨"title", .text, true, false⟩) hop rfl ⟨[], ⟨0⟩, "title"⟩ "%_\nXUP.\\" true
  have hleaf : p ∈ p.leaves := by
    rw [(build_isLeaf hbuild).leaves]
    exact List.mem_singleton_self p
  obtain ⟨m, hm⟩ : ∃ m, PatternTable.ofCondition p = .ok m := by
    cases h : PatternTable.ofCondition p with
    | ok m => exact ⟨m, rfl⟩
    | error e =>
      obtain ⟨-, -, hlong⟩ := herror e h
      exact absurd hlong (by decide)
  have hfirst := (heval p m hleaf hm Query.titled [(Path.root, ⟨1⟩)]).1 _ htext
  rw [hfinds] at hfirst
  exact ⟨hop, p, m, hbuild, hm, hfirst, (heval p m hleaf hm Query.titled _).2 hnull⟩

end Operator

end FieldLookup
