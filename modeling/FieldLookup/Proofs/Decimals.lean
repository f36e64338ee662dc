import FieldLookup.Proofs.Joining
import FieldLookup.Value.Conversion
import Mathlib.Algebra.Group.Nat.Defs

/-!
Decimal texts of integers. Main statements: `int64Of?_intDigits`, reading a 64-bit word undoes
writing it, with either sign; and `split_join_decimals`, decimals that are joined by commas are
found again.
-/
namespace FieldLookup.Text

/-! ## Blanks -/

theorem trimStart_of_not_blank {s : List Char} (h : ∀ c ∈ s, isBlank c = false) :
    trimStart s = s := by
  cases s with
  | nil => rfl
  | cons c s => exact trimStart_cons_of_not_blank (h c List.mem_cons_self)

/-- Nothing is trimmed from a text without blanks. -/
theorem trim_of_not_blank {s : String} (h : ∀ c ∈ s.toList, isBlank c = false) : trim s = s := by
  have hback : trimStart s.toList.reverse = s.toList.reverse :=
    trimStart_of_not_blank fun c hc => h c (List.mem_reverse.mp hc)
  rw [trimStart] at hback
  rw [trim, trimChars, trimStart_of_not_blank h, trimEnd, hback, List.reverse_reverse,
    String.ofList_toList]

namespace Numeral

/-! ## Digits -/

theorem toNat_of_isDigit {c : Char} (h : isDigit c = true) : 48 ≤ c.toNat ∧ c.toNat ≤ 57 := by
  unfold isDigit digitValue? at h
  split at h
  · next hc => exact hc
  · cases h

theorem isDigit_of_mem_digits {n : Nat} {c : Char} (h : c ∈ digits n) : isDigit c = true := by
  have hdigit (d : Nat) : isDigit (digitChar d) = true := by
    rw [isDigit, digitValue?_digitChar]
    rfl
  fun_induction digits n with
  | case1 n hn =>
    rw [List.mem_singleton.mp h]
    exact hdigit n
  | case2 n hn ih =>
    rcases List.mem_append.mp h with h | h
    · exact ih h
    · rw [List.mem_singleton.mp h]
      exact hdigit _

/-- A character of a decimal: a digit or a minus. -/
def IsDecimal (c : Char) : Prop := isDigit c = true ∨ c = '-'

theorem isDecimal_of_mem_intDigits {n : Int} {c : Char} (h : c ∈ intDigits n) : IsDecimal c := by
  unfold intDigits at h
  split at h
  · rcases List.mem_cons.mp h with rfl | h
    · exact Or.inr rfl
    · exact Or.inl (isDigit_of_mem_digits h)
  · exact Or.inl (isDigit_of_mem_digits h)

theorem IsDecimal.toNat {c : Char} (h : IsDecimal c) : 45 ≤ c.toNat ∧ c.toNat ≤ 57 := by
  rcases h with h | rfl
  · have := toNat_of_isDigit h
    omega
  · decide

theorem IsDecimal.not_blank {c : Char} (h : IsDecimal c) : isBlank c = false := by
  have := h.toNat
  simp only [isBlank, blankRanges, List.any_cons, List.any_nil, Bool.or_false, Bool.or_eq_false_iff,
    Bool.and_eq_false_iff, decide_eq_false_iff_not]
  omega

theorem IsDecimal.ne_comma {c : Char} (h : IsDecimal c) : c ≠ ',' := by
  rintro rfl
  exact absurd h.toNat.1 (by decide)

theorem intDigits_ne_nil (n : Int) : intDigits n ≠ [] := by
  unfold intDigits
  split
  · exact List.cons_ne_nil _ _
  · exact digits_ne_nil _

/-! ## What is read as an integer -/

theorem isDigit_of_valueFrom? {m n : Nat} {s : List Char} (h : valueFrom? m s = some n) :
    ∀ c ∈ s, isDigit c = true := by
  induction s generalizing m with
  | nil => simp
  | cons c s ih =>
    obtain ⟨d, hd, h⟩ := Option.bind_eq_some_iff.mp h
    exact List.forall_mem_cons.mpr ⟨Option.isSome_iff_exists.mpr ⟨d, hd⟩, ih h⟩

theorem isDigit_of_value? {n : Nat} {s : List Char} (h : value? s = some n) :
    s ≠ [] ∧ ∀ c ∈ s, isDigit c = true := by
  unfold value? at h
  split at h
  · cases h
  · next hs => exact ⟨hs, isDigit_of_valueFrom? h⟩

/-- A text that stands for an integer: digits behind a minus, behind a plus, or by themselves. -/
theorem intValue?_cases {s : List Char} {n : Int} (h : intValue? s = some n) :
    ∃ k ds, value? ds = some k ∧
      ((s = '-' :: ds ∧ n = -(k : Int)) ∨ ((s = '+' :: ds ∨ s = ds) ∧ n = k)) := by
  unfold intValue? at h
  split at h
  · next ds =>
    obtain ⟨k, hk, rfl⟩ := Option.map_eq_some_iff.mp h
    exact ⟨k, ds, hk, Or.inl ⟨rfl, rfl⟩⟩
  · next ds =>
    obtain ⟨k, hk, rfl⟩ := Option.map_eq_some_iff.mp h
    exact ⟨k, ds, hk, Or.inr ⟨Or.inl rfl, rfl⟩⟩
  · obtain ⟨k, hk, rfl⟩ := Option.map_eq_some_iff.mp h
    exact ⟨k, s, hk, Or.inr ⟨Or.inr rfl, rfl⟩⟩

/-- Nothing is trimmed from a text that stands for an integer. -/
theorem trim_of_intValue? {s : String} {n : Int} (h : intValue? s.toList = some n) :
    trim s = s := by
  obtain ⟨k, ds, hk, hs⟩ := intValue?_cases h
  have hdigits : ∀ c ∈ ds, isBlank c = false := fun c hc =>
    IsDecimal.not_blank (Or.inl ((isDigit_of_value? hk).2 c hc))
  refine trim_of_not_blank ?_
  rcases hs with ⟨hs, -⟩ | ⟨hs | hs, -⟩ <;> rw [hs]
  · exact List.forall_mem_cons.mpr ⟨by decide, hdigits⟩
  · exact List.forall_mem_cons.mpr ⟨by decide, hdigits⟩
  · exact hdigits

/-- A number below a power of ten has no more digits than the power has zeros. -/
theorem length_digits_le {n k : Nat} (hk : 0 < k) (h : n < 10 ^ k) : (digits n).length ≤ k := by
  induction k generalizing n with
  | zero => cases hk
  | succ k ih =>
    unfold digits
    split
    · exact Nat.succ_le_succ (Nat.zero_le k)
    · next hn =>
      have hpos : 0 < k := by
        by_contra hzero
        rw [Nat.eq_zero_of_not_pos hzero] at h
        omega
      rw [List.length_append, List.length_singleton]
      exact Nat.succ_le_succ (ih hpos (Nat.div_lt_of_lt_mul (Nat.pow_succ' ▸ h)))

/-! ## Reading undoes writing -/

theorem intValue?_of_isDigit {c : Char} {s : List Char} (h : isDigit c = true) :
    intValue? (c :: s) = (value? (c :: s)).map Int.ofNat := by
  have := toNat_of_isDigit h
  unfold intValue?
  split
  · next heq =>
    cases heq
    exact absurd this (by decide)
  · next heq =>
    cases heq
    exact absurd this (by decide)
  · rfl

theorem intValue?_intDigits (n : Int) : intValue? (intDigits n) = some n := by
  unfold intDigits
  split
  · next h =>
    rw [intValue?, value?_digits, Option.map_some]
    refine congrArg some ?_
    rw [Int.ofNat_eq_natCast, Int.ofNat_natAbs_of_nonpos (Int.le_of_lt h), Int.neg_neg]
  · next h =>
    obtain ⟨c, s, hs⟩ := List.exists_cons_of_ne_nil (digits_ne_nil n.natAbs)
    have hc : isDigit c = true := isDigit_of_mem_digits (hs ▸ List.mem_cons_self)
    rw [hs, intValue?_of_isDigit hc, ← hs, value?_digits]
    exact congrArg some (Int.natAbs_of_nonneg (Int.not_lt.mp h))

theorem int64Of?_intDigits (n : Int64) : int64Of? (intDigits n.toInt) = some n := by
  have hlow := Int64.le_iff_toInt_le.mp (Int64.minValue_le n)
  have hhigh := Int64.le_iff_toInt_le.mp (Int64.le_maxValue n)
  rw [int64Of?, intValue?_intDigits, Option.bind_some, int64OfInt?, Int64.ofInt_toInt]
  exact if_pos ⟨hlow, hhigh⟩

/-- Nothing is trimmed from a decimal. -/
theorem trim_intText (n : Int) : trim (intText n) = intText n := by
  refine trim_of_not_blank fun c hc => ?_
  rw [intText, String.toList_ofList] at hc
  exact (isDecimal_of_mem_intDigits hc).not_blank

end Numeral

/-! ## Joining by commas -/

/-- Parts without commas are kept apart by commas. -/
theorem separable_comma {parts : List String} (h : ∀ part ∈ parts, ',' ∉ part.toList) :
    Separable "," parts where
  inner part hpart u v huv := by
    have hchars : part.toList ++ [','] = u.toList ++ [','] ++ v.toList := by
      simpa using congrArg String.toList huv
    rcases List.eq_nil_or_concat v.toList with hv | ⟨w, c, hv⟩
    · exact String.toList_eq_nil_iff.mp hv
    · rw [hv, List.concat_eq_append, ← List.append_assoc] at hchars
      refine absurd ?_ (h part (List.mem_of_mem_dropLast hpart))
      rw [(List.append_inj' hchars rfl).1]
      simp
  last part hpart u v huv := by
    refine h part (List.mem_of_getLast? hpart) ?_
    rw [huv]
    simp

/-- Decimals that are joined by commas are found again between the commas. -/
theorem split_join_decimals {ns : List Int} (h : ns ≠ []) :
    split "," (join "," (ns.map Numeral.intText)) = ns.map Numeral.intText := by
  refine (split_join_iff (by decide) (by simpa)).mpr (separable_comma fun part hpart hmem => ?_)
  obtain ⟨n, -, rfl⟩ := List.mem_map.mp hpart
  rw [Numeral.intText, String.toList_ofList] at hmem
  exact (Numeral.isDecimal_of_mem_intDigits hmem).ne_comma rfl

end FieldLookup.Text
