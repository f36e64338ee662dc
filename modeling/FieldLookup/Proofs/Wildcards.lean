import FieldLookup.Proofs.LikePatterns
import FieldLookup.Proofs.Meaning
import Mathlib.Data.List.Infix

/-!
What LIKE patterns match. Main statement: `Query.eval_like_exact`, testing a text against a pattern
gives what matching them character by character gives, since the pattern's expression leads through
the text in the same way.
-/
namespace FieldLookup.Pattern

/-- Whether the first character of a text passes a test, and the text behind it another. -/
def firstIs (test : Char → Bool) (rest : List Char → Bool) : List Char → Bool
  | [] => false
  | c :: s => test c && rest s

/-- Whether a pattern matches the whole of a text. `%` takes any number of characters, which may be
line feeds, and `_` takes one; a character behind a backslash, a backslash at the end and any other
character take one that is the same. -/
def likeMatches (ignoreCase : Bool) : (pattern text : List Char) → Bool
  | [] => List.isEmpty
  | ['\\'] => firstIs (sameChar ignoreCase '\\') List.isEmpty
  | '\\' :: c :: p => firstIs (sameChar ignoreCase c) (likeMatches ignoreCase p)
  | '%' :: p => fun s => s.tails.any (likeMatches ignoreCase p)
  | '_' :: p => firstIs (fun _ => true) (likeMatches ignoreCase p)
  | c :: p => firstIs (sameChar ignoreCase c) (likeMatches ignoreCase p)

/-- Whether the parts of a pattern match the whole of a text. -/
def LikePart.matchAll (ignoreCase : Bool) : List LikePart → List Char → Bool
  | [] => List.isEmpty
  | char c :: parts => firstIs (sameChar ignoreCase c) (matchAll ignoreCase parts)
  | one :: parts => firstIs (fun _ => true) (matchAll ignoreCase parts)
  | any :: parts => fun s => s.tails.any (matchAll ignoreCase parts)

theorem likeMatches_eq (ignoreCase : Bool) (p : List Char) :
    likeMatches ignoreCase p = LikePart.matchAll ignoreCase (LikePart.ofPattern p) := by
  fun_induction LikePart.ofPattern p with
  | case1 | case2 => rfl
  | case3 c p ih | case4 p ih | case5 p ih =>
    rw [likeMatches, ih]
    rfl
  | case6 c p h1 h2 h3 h4 ih =>
    -- neither a backslash nor a wildcard
    rw [likeMatches, ih]
    · rfl
    all_goals assumption

/-! ## Searching -/

variable {s : List Char} {i : Nat}

theorem firstIs_drop (test : Char → Bool) (rest : List Char → Bool) (s : List Char) (i : Nat) :
    firstIs test rest (s.drop i) = (ahead s test i && rest (s.drop (i + 1))) := by
  by_cases h : i < s.length
  · rw [List.drop_eq_getElem_cons h, ahead, List.getElem?_eq_getElem h]
    rfl
  · have hle : s.length ≤ i := Nat.not_lt.mp h
    rw [List.drop_of_length_le hle, ahead, List.getElem?_eq_none hle]
    rfl

/-- A character that is crossed is the first of what remains, and leaves the rest. -/
theorem exists_cross_iff {test : Char → Bool} {R : Nat → Prop} {rest : List Char → Bool}
    (h : ∀ k, k ≤ s.length → (R k ↔ rest (s.drop k) = true)) :
    (∃ k, (ahead s test i = true ∧ k = i + 1) ∧ R k) ↔ firstIs test rest (s.drop i) = true := by
  rw [firstIs_drop, Bool.and_eq_true]
  constructor
  · rintro ⟨_, ⟨hahead, rfl⟩, hrest⟩
    exact ⟨hahead, (h _ (lt_of_ahead hahead)).mp hrest⟩
  · rintro ⟨hahead, hrest⟩
    exact ⟨i + 1, ⟨hahead, rfl⟩, (h _ (lt_of_ahead hahead)).mpr hrest⟩

/-- The ends of what remains of a text are what remains further on. -/
theorem any_tails_drop (rest : List Char → Bool) (hi : i ≤ s.length) :
    (s.drop i).tails.any rest = true ↔ ∃ k, i ≤ k ∧ k ≤ s.length ∧ rest (s.drop k) = true := by
  simp only [List.any_eq_true, List.mem_tails]
  constructor
  · rintro ⟨t, hsuffix, hrest⟩
    have hle := hsuffix.length_le
    rw [List.length_drop] at hle
    have hdrop := List.suffix_iff_eq_drop.mp hsuffix
    rw [List.drop_drop, List.length_drop] at hdrop
    exact ⟨i + (s.length - i - t.length), by omega, by omega, hdrop ▸ hrest⟩
  · rintro ⟨k, hik, hk, hrest⟩
    refine ⟨s.drop k, ?_, hrest⟩
    have hdrop : s.drop k = (s.drop i).drop (k - i) := by
      rw [List.drop_drop]
      congr 1
      omega
    rw [hdrop]
    exact List.drop_suffix _ _

namespace LikePart

variable {flags : Flags}

/-- The parts of a pattern lead to the end of a text just if they match what remains of it, by
induction on the parts. -/
theorem takesSeq_iff (hdot : flags.dotAll = true) (parts : List LikePart) (hi : i ≤ s.length) :
    takesSeq s (parts.map (node flags)) i s.length ↔
      matchAll flags.ignoreCase parts (s.drop i) = true := by
  induction parts generalizing i with
  | nil =>
    rw [matchAll, List.isEmpty_iff, List.drop_eq_nil_iff, List.map_nil, takesSeq]
    exact ⟨fun h => Nat.le_of_eq h.symm, Nat.le_antisymm hi⟩
  | cons part parts ih =>
    rw [List.map_cons, takesSeq]
    cases part with
    | char c =>
      simp only [node, Flags.takes_literal]
      exact exists_cross_iff fun k hk => ih hk
    | one =>
      simp only [node, Flags.takes_dot hdot]
      exact exists_cross_iff fun k hk => ih hk
    | any =>
      simp only [node, Flags.takes_dots hdot hi, matchAll]
      rw [any_tails_drop _ hi]
      refine exists_congr fun k => ?_
      rw [and_assoc]
      exact and_congr_right fun _ => and_congr_right fun hk => ih hk

end LikePart

theorem Node.eq_of_checked {node node' : Node} (h : node.checked = .ok node') : node = node' := by
  unfold checked at h
  split at h
  · cases h
  · split at h
    · cases h
    · exact Except.ok.inj h

/-- The expression of a LIKE pattern occurs in the texts that the pattern matches. -/
theorem Node.occursIn_like {pattern : String} {ignoreCase : Bool} {node : Node}
    (h : Node.ofText (sourceOfLike pattern ignoreCase) = .ok node) (s : String) :
    node.occursIn s = likeMatches ignoreCase pattern.toList s.toList := by
  rw [ofText_sourceOfLike] at h
  have hdot : (likeFlags ignoreCase).dotAll = true := rfl
  have hparts := LikePart.takesSeq_iff hdot (LikePart.ofPattern pattern.toList)
    (Nat.zero_le s.toList.length)
  rw [← eq_of_checked h, Bool.eq_iff_iff, occursIn_iff, likeMatches_eq]
  simp only [takes_anchored]
  constructor
  · rintro ⟨_, _, -, rfl, rfl, hsubs⟩
    exact hparts.mp hsubs
  · exact fun hmatch => ⟨0, _, Nat.zero_le _, rfl, rfl, hparts.mpr hmatch⟩

end FieldLookup.Pattern

namespace FieldLookup.Query

open Pattern

/-- The table of a condition holds the expression of each LIKE pattern in it. -/
theorem eval_like {column : Column} {pattern : String} {ignoreCase : Bool} {condition : Predicate}
    {m : PatternTable} (hleaf : .like column pattern ignoreCase ∈ condition.leaves)
    (hm : PatternTable.ofCondition condition = .ok m) {store : Store} {b : Binding} {v : Value}
    (hv : store.valueAt b column = .ok v) :
    eval store m b (.like column pattern ignoreCase) =
      .ok (v.asText?.map fun s => likeMatches ignoreCase pattern.toList s.toList) := by
  obtain ⟨node, hnode, hfind⟩ := PatternTable.covers_of_ofCondition hm _ hleaf _ _ rfl
  rw [eval, hv, Checked.ok_bind, PatternTable.test, hfind]
  cases v.asText? with
  | none => rfl
  | some s => exact congrArg (fun b => Except.ok (some b)) (Node.occursIn_like hnode s)

/-- Reading a LIKE pattern fails only for its size. -/
theorem ofCondition_like_eq_error {column : Column} {pattern : String} {ignoreCase : Bool}
    {e : QueryError}
    (h : PatternTable.ofCondition (.like column pattern ignoreCase) = .error e) :
    e = .invalidPattern pattern .tooLarge ∧ 131069 < pattern.toList.length := by
  obtain ⟨leaf, hleaf, pattern', source, cause, hp, hcause, rfl⟩ :=
    PatternTable.ofCondition_eq_error h
  obtain rfl := List.mem_singleton.mp hleaf
  cases hp
  obtain ⟨rfl, hlength⟩ := Node.ofText_sourceOfLike_eq_error hcause
  exact ⟨rfl, hlength⟩

/-- Testing a text against a LIKE pattern tells whether the pattern matches the text, under every
condition whose patterns are read; and reading a LIKE pattern fails only for its size. -/
theorem eval_like_exact (column : Column) (pattern : String) (ignoreCase : Bool) :
    (∀ e, PatternTable.ofCondition (.like column pattern ignoreCase) = .error e →
        e = .invalidPattern pattern .tooLarge ∧ 131069 < pattern.toList.length) ∧
      ∀ condition m, .like column pattern ignoreCase ∈ condition.leaves →
        PatternTable.ofCondition condition = .ok m →
          ∀ store b s, store.valueAt b column = .ok (.text s) →
            eval store m b (.like column pattern ignoreCase) =
              .ok (some (likeMatches ignoreCase pattern.toList s.toList)) := by
  refine ⟨fun e => ofCondition_like_eq_error, fun condition m hleaf hm store b s hs => ?_⟩
  rw [eval_like hleaf hm hs]
  rfl

/-- A title that has a line feed and ends in a backslash, and a row without a title. -/
def titled : Store :=
  ((Store.empty.insert ⟨0⟩ (Ordered.ofList [("title", .text "100%_\nxup.\\")])).2.insert ⟨0⟩
    Ordered.empty).2

/-- The titles that start with a one and two more characters, go on with a percent sign, and end in
a letter of either case, one more character, a point and a backslash. -/
def titleTest : Predicate := .like ⟨[], ⟨0⟩, "title"⟩ "1__\\%%U_.\\" true

/-- The theorem at a pattern with both wildcards, an escape and a backslash at its end. -/
theorem eval_like_exact_titled :
    titleTest ∈ (Predicate.not titleTest).leaves ∧
      ∃ m, PatternTable.ofCondition (.not titleTest) = .ok m ∧
        titled.valueAt [(Path.root, ⟨1⟩)] ⟨[], ⟨0⟩, "title"⟩ = .ok (.text "100%_\nxup.\\") ∧
          eval titled m [(Path.root, ⟨1⟩)] titleTest = .ok (some true) := by
  have hleaf : titleTest ∈ (Predicate.not titleTest).leaves := List.mem_singleton_self _
  have htext : titled.valueAt [(Path.root, ⟨1⟩)] ⟨[], ⟨0⟩, "title"⟩ =
      .ok (.text "100%_\nxup.\\") := rfl
  have hmatch : likeMatches true "1__\\%%U_.\\".toList "100%_\nxup.\\".toList = true := by
    decide +kernel
  obtain ⟨m, hm⟩ : ∃ m, PatternTable.ofCondition (.not titleTest) = .ok m := by
    cases h : PatternTable.ofCondition (.not titleTest) with
    | ok m => exact ⟨m, rfl⟩
    | error e => exact absurd (ofCondition_like_eq_error h).2 (by decide)
  have heval := (eval_like_exact ⟨[], ⟨0⟩, "title"⟩ "1__\\%%U_.\\" true).2 _ m hleaf hm titled
    [(Path.root, ⟨1⟩)] _ htext
  rw [hmatch] at heval
  exact ⟨hleaf, m, hm, htext, heval⟩

end FieldLookup.Query
