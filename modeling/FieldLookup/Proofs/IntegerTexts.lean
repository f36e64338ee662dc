import FieldLookup.Proofs.Certainty
import FieldLookup.Proofs.Decimals
import FieldLookup.Proofs.SingleLookup
import FieldLookup.Binary64.Reader

/-!
Texts of integers that are looked up in a column of integers. Main statements:
`Binary64.ofChars?_of_intValue?`, the text of an integer is read as the nearest number; and
`Compiler.integer_text_exact`, an integer compares with what the text is read as by their values,
but at the ends of the range of 64-bit words, where both may be rounded to one number.
-/
namespace FieldLookup

/-! ## Reading numbers -/

namespace Binary64

open FieldLookup.Text

variable {negative : Bool} {s : List Char} {k : Nat} {n : Int}

/-- A number of more than 309 digits is rounded to infinity. -/
theorem roundedMagnitude_of_large (h : 10 ^ 309 ≤ k) :
    roundedMagnitude k 1 = infiniteMagnitude := by
  have hlarge : infiniteMagnitude ≤ roundedMagnitude (10 ^ 309) 1 := by decide +kernel
  exact Nat.le_antisymm (roundedMagnitude_le k 1)
    (hlarge.trans (roundedMagnitude_mono Nat.one_pos h))

theorem ofDecimal_of_ne_zero (negative : Bool) (hk : k ≠ 0) :
    ofDecimal negative k 0 = ofRatio negative k 1 := by
  unfold ofDecimal
  rw [if_neg hk]
  dsimp only
  rw [Int.zero_add]
  split
  · next hplace =>
    rw [infinity, ofRatio, roundedMagnitude_of_large]
    by_contra hsmall
    have := Numeral.length_digits_le (by decide) (Nat.lt_of_not_le hsmall)
    omega
  · rw [if_neg (by omega)]
    exact congrArg (ofRatio negative · 1) (Nat.mul_one k)

/-- Digits are no name, and are read as their value without an exponent. -/
theorem ofUnsigned?_of_value? (h : Numeral.value? s = some k) :
    ofUnsigned? negative s = some (ofDecimal negative k 0) := by
  obtain ⟨hne, hdigits⟩ := Numeral.isDigit_of_value? h
  obtain ⟨c, rest, rfl⟩ := List.exists_cons_of_ne_nil hne
  have hc := Numeral.toNat_of_isDigit (hdigits c List.mem_cons_self)
  have hlower : lower c = c := by
    refine if_neg fun hupper => ?_
    have : 'A'.toNat ≤ c.toNat := hupper.1
    exact absurd (this.trans hc.2) (by decide)
  have hname {d : Char} {name : List Char} (hd : 57 < d.toNat) :
      ¬String.ofList ((c :: rest).map lower) = String.ofList (d :: name) := by
    rw [String.ofList_inj, List.map_cons, hlower, List.cons.injEq, not_and]
    rintro rfl
    omega
  have hspan : spanDigits (c :: rest) = (c :: rest, []) := by
    rw [spanDigits, List.takeWhile_eq_self_iff.mpr hdigits, List.dropWhile_eq_nil_iff.mpr hdigits]
  unfold ofUnsigned?
  dsimp only
  rw [if_neg, if_neg (hname (d := 'n') (by decide)), hspan]
  · simp [tail?, exponent?, h]
  · rintro (h | h)
    · exact hname (d := 'i') (by decide) h
    · exact hname (d := 'i') (by decide) h

theorem ofChars?_of_isDigit {c : Char} (h : Numeral.isDigit c = true) :
    ofChars? (c :: s) = ofUnsigned? false (c :: s) := by
  have := Numeral.toNat_of_isDigit h
  unfold ofChars?
  split
  · next heq =>
    cases heq
    exact absurd this (by decide)
  · next heq =>
    cases heq
    exact absurd this (by decide)
  · rfl

/-- The text of an integer other than zero is read as the number nearest to it. -/
theorem ofChars?_of_intValue? (h : Numeral.intValue? s = some n) (hn : n ≠ 0) :
    ofChars? s = some (ofInt n) := by
  obtain ⟨k, ds, hk, hs⟩ := Numeral.intValue?_cases h
  have hread (negative : Bool) (hk0 : k ≠ 0) :
      ofUnsigned? negative ds = some (ofRatio negative k 1) := by
    rw [ofUnsigned?_of_value? hk, ofDecimal_of_ne_zero negative hk0]
  have hunsigned (hk0 : k ≠ 0) : ofRatio false k 1 = ofInt k := by
    rw [ofInt, decide_eq_false (by omega)]
    rfl
  rcases hs with ⟨rfl, rfl⟩ | ⟨rfl | rfl, rfl⟩
  · rw [ofChars?, hread true (by omega), ofInt, decide_eq_true (by omega), Int.natAbs_neg]
    rfl
  · rw [ofChars?, hread false (by omega), hunsigned (by omega)]
  · obtain ⟨hne, hdigits⟩ := Numeral.isDigit_of_value? hk
    obtain ⟨c, rest, rfl⟩ := List.exists_cons_of_ne_nil hne
    rw [ofChars?_of_isDigit (hdigits c List.mem_cons_self), hread false (by omega),
      hunsigned (by omega)]

/-! ## Integers at the ends of the range of words -/

theorem rank_ofInt_neg (n : Int) : (ofInt (-n)).rank = -(ofInt n).rank := by
  have hzero : roundedMagnitude 0 1 = 0 := by decide
  rw [rank_ofInt, rank_ofInt, Int.natAbs_neg]
  rcases lt_trichotomy n 0 with h | rfl | h
  · rw [if_neg (by omega), if_pos h, Int.neg_neg]
  · simp [hzero]
  · rw [if_pos (by omega), if_neg (by omega)]

/-- Of the integers around `2 ^ 63` those that are half a step away from it are still rounded to it,
where a step is 1024 below and 2048 above. -/
theorem rank_ofInt_eq_iff {a b : Int} (ha : a ≤ 2 ^ 63) (hb : 2 ^ 63 ≤ b) :
    (ofInt a).rank = (ofInt b).rank ↔ 2 ^ 63 - 512 ≤ a ∧ b ≤ 2 ^ 63 + 1024 := by
  have hbelow : (ofInt (2 ^ 63 - 513)).rank < (ofInt (2 ^ 63)).rank := by decide +kernel
  have hlow : (ofInt (2 ^ 63 - 512)).rank = (ofInt (2 ^ 63)).rank := by decide +kernel
  have hhigh : (ofInt (2 ^ 63 + 1024)).rank = (ofInt (2 ^ 63)).rank := by decide +kernel
  have habove : (ofInt (2 ^ 63)).rank < (ofInt (2 ^ 63 + 1025)).rank := by decide +kernel
  have hle := rank_ofInt_mono ha
  have hle' := rank_ofInt_mono hb
  constructor
  · intro heq
    constructor
    · by_contra hlt
      have := rank_ofInt_mono (show a ≤ 2 ^ 63 - 513 by omega)
      omega
    · by_contra hlt
      have := rank_ofInt_mono (show 2 ^ 63 + 1025 ≤ b by omega)
      omega
  · rintro ⟨hfrom, hto⟩
    have := rank_ofInt_mono hfrom
    have := rank_ofInt_mono hto
    omega

/-- A word and an integer out of the range of words that are rounded to one number. -/
def Merges (i n : Int) : Prop :=
  (2 ^ 63 - 512 ≤ i ∧ 2 ^ 63 ≤ n ∧ n ≤ 2 ^ 63 + 1024) ∨
    (i ≤ -2 ^ 63 + 512 ∧ -2 ^ 63 - 1024 ≤ n ∧ n < -2 ^ 63)

instance (i n : Int) : Decidable (Merges i n) := by
  unfold Merges
  infer_instance

/-- The order of a word and an integer, of which those that are rounded to one number tie. -/
def roundedOrder (i n : Int) : Ordering := if Merges i n then .eq else compare i n

theorem compare_rank_ofInt {i n : Int} (hi : -2 ^ 63 ≤ i ∧ i < 2 ^ 63)
    (hn : n < -2 ^ 63 ∨ 2 ^ 63 ≤ n) :
    compare (ofInt i).rank (ofInt n).rank = roundedOrder i n := by
  unfold roundedOrder
  rcases hn with hn | hn
  · have hmono := rank_ofInt_mono (show n ≤ i by omega)
    have hiff := rank_ofInt_eq_iff (a := -i) (b := -n) (by omega) (by omega)
    rw [rank_ofInt_neg, rank_ofInt_neg, Int.neg_inj] at hiff
    split
    · next h =>
      unfold Merges at h
      exact Int.compare_eq_eq.mpr (hiff.mpr (by omega))
    · next h =>
      unfold Merges at h
      have hne : (ofInt i).rank ≠ (ofInt n).rank := fun heq => h (by have := hiff.mp heq; omega)
      rw [Int.compare_eq_gt.mpr (by omega), Int.compare_eq_gt.mpr (by omega)]
  · have hmono := rank_ofInt_mono (show i ≤ n by omega)
    have hiff := rank_ofInt_eq_iff (a := i) (b := n) (by omega) hn
    split
    · next h =>
      unfold Merges at h
      exact Int.compare_eq_eq.mpr (hiff.mpr (by omega))
    · next h =>
      unfold Merges at h
      have hne : (ofInt i).rank ≠ (ofInt n).rank := fun heq => h (by have := hiff.mp heq; omega)
      rw [Int.compare_eq_lt.mpr (by omega), Int.compare_eq_lt.mpr (by omega)]

end Binary64

/-! ## Texts in a column of integers -/

namespace Value

variable {field : Attribute} {s : String} {n : Int}

theorem convert?_of_intValue? {type : ScalarType}
    (hn : Text.Numeral.intValue? s.toList = some n) (htype : type ≠ .text) :
    (text s).convert? type = read? s type := by
  rw [convert?, Text.Numeral.trim_of_intValue? hn]
  exact htype

/-- A text in the range of words is taken for the word. -/
theorem takes_word (htype : field.type = .int) (hn : Text.Numeral.intValue? s.toList = some n)
    (hrange : -2 ^ 63 ≤ n ∧ n < 2 ^ 63) :
    Operator.Takes field (.text s) (.int (Int64.ofInt n)) := by
  refine ⟨rfl, rfl, ?_⟩
  have hint : (text s).convert? .int = some (.int (Int64.ofInt n)) := by
    rw [convert?_of_intValue? hn (by decide), read?, Text.Numeral.int64Of?, hn, Option.bind_some,
      Text.Numeral.int64OfInt?, if_pos]
    · rfl
    · rw [Int64.toInt_minValue, Int64.toInt_maxValue]
      omega
  rw [Operator.convertFor?, htype, hint]
  rfl

/-- A text out of the range of words is taken for the nearest number with a fraction. -/
theorem takes_rounded (htype : field.type = .int)
    (hn : Text.Numeral.intValue? s.toList = some n) (hrange : n < -2 ^ 63 ∨ 2 ^ 63 ≤ n) :
    Operator.Takes field (.text s) (.float (Binary64.ofInt n)) := by
  refine ⟨rfl, rfl, ?_⟩
  have hint : (text s).convert? .int = none := by
    rw [convert?_of_intValue? hn (by decide), read?, Text.Numeral.int64Of?, hn, Option.bind_some,
      Text.Numeral.int64OfInt?, if_neg]
    · rfl
    · rw [Int64.toInt_minValue, Int64.toInt_maxValue]
      omega
  have hfloat : (text s).convert? .float = some (.float (Binary64.ofInt n)) := by
    rw [convert?_of_intValue? hn (by decide), read?, Binary64.ofChars?_of_intValue? hn (by omega)]
    rfl
  rw [Operator.convertFor?, htype, hint, if_pos rfl, hfloat]
  rfl

/-- The text of an integer is taken for a value with which a word compares as with the integer, but
for words that are rounded to it. -/
theorem exists_takes_integer (htype : field.type = .int)
    (hn : Text.Numeral.intValue? s.toList = some n) :
    ∃ w, Operator.Takes field (.text s) w ∧
      ∀ i : Int64, (int i).compare? w = some (Binary64.roundedOrder i.toInt n) := by
  by_cases hrange : -2 ^ 63 ≤ n ∧ n < 2 ^ 63
  · refine ⟨_, takes_word htype hn hrange, fun i => ?_⟩
    have hmerges : ¬Binary64.Merges i.toInt n := by
      unfold Binary64.Merges
      omega
    rw [compare?, Int64.toInt_ofInt_of_le hrange.1 hrange.2, Binary64.roundedOrder, if_neg hmerges]
  · refine ⟨_, takes_rounded htype hn (by omega), fun i => ?_⟩
    rw [compare?, compareFloats?, asFloat?, asFloat?]
    exact (Binary64.compare?_eq_some (Binary64.isNaN_ofInt _) (Binary64.isNaN_ofInt _)).trans
      (congrArg some (Binary64.compare_rank_ofInt ⟨i.le_toInt, i.toInt_lt⟩ (by omega)))

end Value

namespace Compiler

variable {c : Compiler} {root : EntityId} {q : Query} {key s : String} {r : Resolved}
  {comparison : Comparison} {n : Int}

/-- Comparing a column of integers with the text of an integer always succeeds. It keeps what shows
a word that stands in the relation to the integer, where a word at either end of the range ties with
the integers out of the range that are rounded to the same number. -/
theorem integer_text_exact (hs : c.schema.Declared) (hcoerce : c.settings.coerce = true)
    (hq : Query.Composed c.schema root q) (hr : c.resolve root key = .ok r)
    (htype : r.field.type = .int) (hop : (r.operator.getD .eq).comparison? = some comparison)
    (hn : Text.Numeral.intValue? s.toList = some n) :
    ∃ q' w, c.narrow q (Ordered.empty.insert key (.text s)) = .ok q' ∧
      (∀ i : Int64, comparison.test (.int i) w =
        some (comparison.holds (Binary64.roundedOrder i.toInt n))) ∧
      ∀ store : Store, store.Filled → q.limit = none → q.offset = none → ∀ rows,
        q.fetch c.schema store = .ok rows →
          (q.Comparable c.schema store → ∃ rows', q'.fetch c.schema store = .ok rows') ∧
          ∀ rows', q'.fetch c.schema store = .ok rows' →
            (∀ row, row ∈ rows' ↔ ∃ a : Assignment,
              a.Follows c.schema store q'.root q'.joins ∧ a Path.root = row ∧
                q.truth a = some true ∧ comparison.test (a.value r.column) w = some true) ∧
            (r.column.path = Path.root → ∀ row ∈ rows, ∀ i,
              row.value r.column.name = .int i →
                (row ∈ rows' ↔ comparison.holds (Binary64.roundedOrder i.toInt n) = true)) := by
  obtain ⟨hsound, rfl⟩ := hq.sound hs
  obtain ⟨w, hw, hcompare⟩ := Value.exists_takes_integer htype hn
  have hnarrow : c.narrow q (Ordered.empty.insert key (.text s)) =
      .ok (q.withTest r.joins (.compare r.column comparison w)) :=
    (restrict_eq_ok_iff hr).mpr ⟨_, hcoerce ▸ Operator.build_compare hop hw, rfl⟩
  have htest (i : Int64) : comparison.test (.int i) w =
      some (comparison.holds (Binary64.roundedOrder i.toInt n)) := by
    rw [Comparison.test, hcompare]
    rfl
  refine ⟨_, w, hnarrow, htest, fun store hf hlimit hoffset rows hrows => ?_⟩
  have hsound' := (restrict_sound hs hsound hnarrow).1
  have hreadable : (Predicate.compare r.column comparison w).Readable := by
    intro leaf hleaf pattern source hpattern
    rw [List.mem_singleton.mp hleaf] at hpattern
    cases hpattern
  refine ⟨fun h => Query.exists_fetch_withTest hf.coherent hsound hsound' hreadable h hrows,
    fun rows' hrows' => ⟨?_, fun hpath row hrow i hi => ?_⟩⟩
  · exact Query.mem_fetch_withTest_iff hf.coherent hsound' hlimit hoffset hrows'
  · rw [joins_eq_nil_of_resolve hr hpath] at hsound' hrows'
    have hiff := Query.mem_fetch_withTest_root_iff hf.coherent hsound hsound' hlimit hoffset hrows
      hrows' (fun row => comparison.test (row.value r.column.name) w)
      (fun a => by rw [Predicate.truth, Assignment.value, hpath]) row
    rw [hiff, hi, htest, Option.some.injEq]
    exact and_iff_right hrow

/-- Counts, each with an integer. -/
def counts : Schema where
  entities := [⟨⟨0⟩, "Count", [Blog.key "id", Blog.field "n" .int], []⟩]
  names := [("Count", ⟨0⟩)]
  relations := []

theorem declared_counts : counts.Declared :=
  ⟨[.entity "Count" [Blog.key "id", Blog.field "n" .int]], rfl⟩

/-- Counts of minus one, of seven and of the last word. -/
def counted : Store :=
  [-1, 7, Int64.maxValue].foldl (fun store n =>
    (store.insert ⟨0⟩ (Ordered.ofList [("n", .int n)])).2) .empty

theorem filled_counted : counted.Filled :=
  ((Store.filled_empty.insert _ _).insert _ _).insert _ _

/-- The counts that a text is compared with under a key. -/
def countsBy (key s : String) : Option (List RowId) :=
  ((ofSchema counts).narrow (Query.ofRoot ⟨0⟩) (Ordered.empty.insert key (.text s))).toOption.bind
    fun q => (q.fetch counts counted).toOption.map fun rows => rows.map (·.id)

/-- The theorem at counts of at least seven, which is given with a sign and a zero in front. -/
theorem integer_text_exact_counts :
    counts.Declared ∧ counted.Filled ∧
      (ofSchema counts).resolve ⟨0⟩ "n__gte" =
        .ok ⟨[], ⟨Path.root, ⟨0⟩, "n"⟩, Blog.field "n" .int, some .gte⟩ ∧
      Text.Numeral.intValue? "+07".toList = some 7 ∧ countsBy "n__gte" "+07" = some [⟨2⟩, ⟨3⟩] ∧
      ∃ q', (ofSchema counts).narrow (Query.ofRoot ⟨0⟩)
          (Ordered.empty.insert "n__gte" (.text "+07")) = .ok q' ∧
        ∀ rows, (Query.ofRoot ⟨0⟩).fetch counts counted = .ok rows →
          ∃ rows', q'.fetch counts counted = .ok rows' ∧ ∀ row ∈ rows, ∀ i,
            row.value "n" = .int i →
              (row ∈ rows' ↔
                Comparison.ge.holds (Binary64.roundedOrder i.toInt 7) = true) := by
  have hr : (ofSchema counts).resolve ⟨0⟩ "n__gte" =
      .ok ⟨[], ⟨Path.root, ⟨0⟩, "n"⟩, Blog.field "n" .int, some .gte⟩ := by cbv
  have hn : Text.Numeral.intValue? "+07".toList = some 7 := by decide
  obtain ⟨q', w, hnarrow, -, hfetch⟩ :=
    integer_text_exact declared_counts rfl .ofRoot hr rfl rfl hn
  refine ⟨declared_counts, filled_counted, hr, hn, by decide +kernel, q', hnarrow,
    fun rows hrows => ?_⟩
  obtain ⟨hexists, hkeeps⟩ := hfetch counted filled_counted rfl rfl rows hrows
  obtain ⟨rows', hrows'⟩ := hexists (Query.comparable_of_nil rfl)
  exact ⟨rows', hrows', (hkeeps rows' hrows').2 rfl⟩

/-- The last word is found by the text of the integer behind it. -/
theorem integer_text_rounded :
    Text.Numeral.intValue? "9223372036854775808".toList = some (Int64.maxValue.toInt + 1) ∧
      (counted.row? ⟨3⟩).map (·.value "n") = some (.int Int64.maxValue) ∧
      countsBy "n" "9223372036854775808" = some [⟨3⟩] := by
  decide +kernel

end Compiler

end FieldLookup
