import FieldLookup.Proofs.Decimals
import FieldLookup.Value.Text
import Mathlib.Data.List.TakeWhile

/-!
The texts in which values are shown, read back. Main statements: `Calendar.dateOf?_eq_some_iff`,
which texts are read as a date; `Calendar.dateOf?_chars`, reading a date undoes writing it, in every
year; and `Value.convert?_display`, the text of a truth value, an integer or a date is converted
back to it, whatever blanks stand around the text.
-/
namespace FieldLookup

namespace Text

/-- Blanks around a text make no difference to trimming. -/
theorem trim_append_of_blank {before s after : String}
    (hbefore : ∀ c ∈ before.toList, isBlank c = true)
    (hafter : ∀ c ∈ after.toList, isBlank c = true) : trim (before ++ s ++ after) = trim s := by
  refine congrArg String.ofList ?_
  rw [String.toList_append, String.toList_append, List.append_assoc, trimChars,
    trimStart_append_of_blank hbefore, trimChars, trimStart, List.dropWhile_append]
  split
  · next hempty =>
    rw [List.isEmpty_iff] at hempty
    rw [trimStart, hempty, List.dropWhile_eq_nil_iff.mpr hafter]
  · exact trimEnd_append_of_blank hafter

namespace Numeral

variable {run rest : List Char} {n : Nat}

/-- A run of digits starts with one. -/
theorem exists_cons_of_value? (h : value? run = some n) :
    ∃ c ds, run = c :: ds ∧ isDigit c = true := by
  obtain ⟨hne, hdigits⟩ := isDigit_of_value? h
  obtain ⟨c, ds, rfl⟩ := List.exists_cons_of_ne_nil hne
  exact ⟨c, ds, rfl, hdigits c List.mem_cons_self⟩

theorem trimStart_of_value? (h : value? run = some n) (rest : List Char) :
    trimStart (run ++ rest) = run ++ rest := by
  obtain ⟨c, ds, rfl, hc⟩ := exists_cons_of_value? h
  exact trimStart_cons_of_not_blank (IsDecimal.not_blank (Or.inl hc))

theorem length_padded {width : Nat} (hwidth : 0 < width) (h : n < 10 ^ width) :
    (padded width n).length = width := by
  have := length_digits_le hwidth h
  rw [padded, List.length_append, List.length_replicate]
  omega

end Numeral

end Text

/-! ## Dates -/

namespace Calendar

open Text

variable {run rest : List Char} {n limit : Nat}

/-- No digit goes on from here. -/
def EndsRun (rest : List Char) : Prop := ∀ c ∈ rest.head?, Numeral.isDigit c = false

theorem endsRun_nil : EndsRun [] := nofun

theorem endsRun_dash (rest : List Char) : EndsRun ('-' :: rest) := by
  intro c hc
  cases hc
  rfl

theorem digitRun_append (hrun : ∀ c ∈ run, Numeral.isDigit c = true) (hlength : run.length ≤ limit)
    (hrest : EndsRun rest) : digitRun limit (run ++ rest) = (run, rest) := by
  induction run generalizing limit with
  | nil =>
    cases limit with
    | zero => rfl
    | succ limit =>
      cases rest with
      | nil => rfl
      | cons c rest => simp [digitRun, hrest c rfl]
  | cons c run ih =>
    cases limit with
    | zero => simp at hlength
    | succ limit =>
      have hc := hrun c List.mem_cons_self
      have htail := ih (fun d hd => hrun d (List.mem_cons_of_mem c hd)) (by simpa using hlength)
      simp [digitRun, hc, htail]

theorem takeNumber_append (h : Numeral.value? run = some n) (hlength : run.length ≤ limit)
    (hrest : EndsRun rest) : takeNumber limit (run ++ rest) = some (n, rest) := by
  rw [takeNumber, digitRun_append (Numeral.isDigit_of_value? h).2 hlength hrest]
  simp [h]

/-- A run of digits is at the front, and no longer than it may be. -/
theorem eq_append_of_digitRun {s : List Char} (h : digitRun limit s = (run, rest)) :
    s = run ++ rest ∧ run.length ≤ limit := by
  induction s generalizing limit run with
  | nil => cases limit <;> cases h <;> simp
  | cons c s ih =>
    cases limit with
    | zero =>
      cases h
      simp
    | succ limit =>
      rw [digitRun] at h
      split at h
      · cases h
        obtain ⟨heq, hlength⟩ := ih rfl
        exact ⟨congrArg (c :: ·) heq, Nat.succ_le_succ hlength⟩
      · cases h
        simp

theorem exists_of_takeNumber {s : List Char} (h : takeNumber limit s = some (n, rest)) :
    ∃ run, s = run ++ rest ∧ Numeral.value? run = some n ∧ run.length ≤ limit := by
  obtain ⟨k, hvalue, heq⟩ := Option.map_eq_some_iff.mp h
  cases heq
  obtain ⟨happend, hlength⟩ := eq_append_of_digitRun rfl
  exact ⟨_, happend, hvalue, hlength⟩

theorem exists_blanks (s : List Char) :
    ∃ blanks, (∀ c ∈ blanks, isBlank c = true) ∧ s = blanks ++ trimStart s :=
  ⟨s.takeWhile isBlank, fun _ => List.mem_takeWhile_imp, List.takeWhile_append_dropWhile.symm⟩

theorem eq_cons_of_takeChar {c : Char} {s : List Char} (h : takeChar c s = some rest) :
    s = c :: rest := by
  cases s with
  | nil => cases h
  | cons d s =>
    rw [takeChar] at h
    split at h
    · next hc =>
      cases h
      rw [hc]
    · cases h

/-- The texts of a month or a day: one or two digits. -/
def IsTwoDigits (s : List Char) (n : Nat) : Prop := Numeral.value? s = some n ∧ s.length ≤ 2

theorem takeTwo_append {blanks : List Char} (hblanks : ∀ c ∈ blanks, isBlank c = true)
    (h : IsTwoDigits run n) (hrest : EndsRun rest) :
    takeTwo (blanks ++ (run ++ rest)) = some (n, rest) := by
  rw [takeTwo, trimStart_append_of_blank hblanks, Numeral.trimStart_of_value? h.1]
  exact takeNumber_append h.1 h.2 hrest

theorem exists_of_takeTwo {s : List Char} (h : takeTwo s = some (n, rest)) :
    ∃ blanks run, (∀ c ∈ blanks, isBlank c = true) ∧ s = blanks ++ (run ++ rest) ∧
      IsTwoDigits run n := by
  obtain ⟨blanks, hblanks, hs⟩ := exists_blanks s
  obtain ⟨run, hrun, hvalue, hlength⟩ := exists_of_takeNumber h
  exact ⟨blanks, run, hblanks, hrun ▸ hs, hvalue, hlength⟩

/-- The texts of a year: up to four digits, or a sign and any number of digits. -/
inductive IsYear : List Char → Int → Prop
  | plain {run : List Char} {n : Nat} : Numeral.value? run = some n → run.length ≤ 4 → IsYear run n
  | plus {run : List Char} {n : Nat} : Numeral.value? run = some n → IsYear ('+' :: run) n
  | minus {run : List Char} {n : Nat} : Numeral.value? run = some n → IsYear ('-' :: run) (-n)

theorem takeYear_append {blanks text : List Char} {year : Int}
    (hblanks : ∀ c ∈ blanks, isBlank c = true) (h : IsYear text year) (hrest : EndsRun rest) :
    takeYear (blanks ++ (text ++ rest)) = some (year, rest) := by
  rw [takeYear, trimStart_append_of_blank hblanks]
  cases h with
  | plain hvalue hlength =>
    have hnumber := takeNumber_append hvalue hlength hrest
    rw [Numeral.trimStart_of_value? hvalue]
    obtain ⟨c, ds, rfl, hc⟩ := Numeral.exists_cons_of_value? hvalue
    have hrange := Numeral.toNat_of_isDigit hc
    rw [List.cons_append] at hnumber ⊢
    -- a digit in front is neither sign, so no more than four digits are taken
    split
    · next heq =>
      cases heq
      exact absurd hrange (by decide)
    · next heq =>
      cases heq
      exact absurd hrange (by decide)
    · rw [hnumber]
      rfl
  | @plus run n hvalue | @minus run n hvalue =>
    have hnumber : takeNumber (run ++ rest).length (run ++ rest) = some (n, rest) :=
      takeNumber_append hvalue (by simp) hrest
    rw [List.cons_append, trimStart_cons_of_not_blank (by decide)]
    simp only [hnumber, Option.map_some]

theorem exists_of_takeYear {s : List Char} {year : Int} (h : takeYear s = some (year, rest)) :
    ∃ blanks text, (∀ c ∈ blanks, isBlank c = true) ∧ s = blanks ++ (text ++ rest) ∧
      IsYear text year := by
  obtain ⟨blanks, hblanks, hs⟩ := exists_blanks s
  unfold takeYear at h
  split at h
  · next front heq =>
    obtain ⟨⟨n, _⟩, hnumber, hyear⟩ := Option.map_eq_some_iff.mp h
    cases hyear
    obtain ⟨run, rfl, hvalue, -⟩ := exists_of_takeNumber hnumber
    exact ⟨blanks, '-' :: run, hblanks, by rw [hs, heq, List.cons_append], .minus hvalue⟩
  · next front heq =>
    obtain ⟨⟨n, _⟩, hnumber, hyear⟩ := Option.map_eq_some_iff.mp h
    cases hyear
    obtain ⟨run, rfl, hvalue, -⟩ := exists_of_takeNumber hnumber
    exact ⟨blanks, '+' :: run, hblanks, by rw [hs, heq, List.cons_append], .plus hvalue⟩
  · obtain ⟨⟨n, _⟩, hnumber, hyear⟩ := Option.map_eq_some_iff.mp h
    cases hyear
    obtain ⟨run, heq, hvalue, hlength⟩ := exists_of_takeNumber hnumber
    exact ⟨blanks, run, hblanks, heq ▸ hs, .plain hvalue hlength⟩

/-- The texts of a date: year, month and day with dashes in between, and any blanks in front of each
of the three. -/
inductive IsDateText (d : Date) : List Char → Prop
  | mk {before year between month behind day : List Char}
      (hbefore : ∀ c ∈ before, isBlank c = true) (hyear : IsYear year d.year)
      (hbetween : ∀ c ∈ between, isBlank c = true) (hmonth : IsTwoDigits month d.month)
      (hbehind : ∀ c ∈ behind, isBlank c = true) (hday : IsTwoDigits day d.day) :
      IsDateText d (before ++ (year ++ '-' :: (between ++ (month ++ '-' :: (behind ++ day)))))

/-- A text is read as a date just if it is one of the texts of the date. -/
theorem dateOf?_eq_some_iff {s : List Char} {d : Date} : dateOf? s = some d ↔ IsDateText d s := by
  constructor
  · intro h
    unfold dateOf? at h
    split at h
    · next date htake =>
      cases h
      obtain ⟨⟨year, s₁⟩, hyear, htake⟩ := Option.bind_eq_some_iff.mp htake
      obtain ⟨s₂, hdash, htake⟩ := Option.bind_eq_some_iff.mp htake
      obtain ⟨⟨month, s₃⟩, hmonth, htake⟩ := Option.bind_eq_some_iff.mp htake
      obtain ⟨s₄, hdash', htake⟩ := Option.bind_eq_some_iff.mp htake
      obtain ⟨⟨day, s₅⟩, hday, htake⟩ := Option.bind_eq_some_iff.mp htake
      obtain ⟨_, hdate, htake⟩ := Option.bind_eq_some_iff.mp htake
      cases htake
      obtain ⟨rfl, rfl, rfl⟩ := Date.ofParts?_eq_some_iff.mp hdate
      obtain ⟨before, _, hbefore, rfl, hyearText⟩ := exists_of_takeYear hyear
      obtain rfl := eq_cons_of_takeChar hdash
      obtain ⟨between, _, hbetween, rfl, hmonthText⟩ := exists_of_takeTwo hmonth
      obtain rfl := eq_cons_of_takeChar hdash'
      obtain ⟨behind, _, hbehind, rfl, hdayText⟩ := exists_of_takeTwo hday
      rw [List.append_nil]
      exact .mk hbefore hyearText hbetween hmonthText hbehind hdayText
    · cases h
  · rintro ⟨hbefore, hyear, hbetween, hmonth, hbehind, hday⟩
    have hdash (s : List Char) : takeChar '-' ('-' :: s) = some s := rfl
    have hdayEnd := takeTwo_append hbehind hday endsRun_nil
    rw [List.append_nil] at hdayEnd
    simp only [dateOf?, takeDate, takeYear_append hbefore hyear (endsRun_dash _),
      takeTwo_append hbetween hmonth (endsRun_dash _), hdayEnd, hdash, Date.ofParts?_parts,
      Option.bind_eq_bind, Option.bind_some, Option.pure_def]

theorem isTwoDigits_padded (h : n < 100) : IsTwoDigits (Numeral.padded 2 n) n :=
  ⟨Numeral.value?_padded 2 n, (Numeral.length_padded (by decide) h).le⟩

/-- A year without a sign has four digits; with a sign it may have more. -/
theorem isYear_yearChars (year : Int) : IsYear (Date.yearChars year) year := by
  have hvalue := Numeral.value?_padded 4 year.natAbs
  unfold Date.yearChars
  split
  · next hplain =>
    have hyear := IsYear.plain hvalue (Numeral.length_padded (by decide) (by omega)).le
    rwa [Int.natAbs_of_nonneg hplain.1] at hyear
  · split
    · next hneg =>
      have hyear := IsYear.minus hvalue
      rwa [show -(year.natAbs : Int) = year by omega] at hyear
    · next hpos =>
      have hyear := IsYear.plus hvalue
      rwa [show (year.natAbs : Int) = year by omega] at hyear

theorem daysInMonth_le (year : Int) (month : Nat) : daysInMonth year month ≤ 31 := by
  unfold daysInMonth
  split
  · split <;> omega
  · split <;> omega

theorem isDateText_chars (d : Date) : IsDateText d d.chars := by
  have hmonth : d.month < 100 := by
    have := d.isDate.month_le
    omega
  have hday : d.day < 100 := by
    have := d.isDate.day_le
    have := daysInMonth_le d.year d.month
    omega
  have hnone : ∀ c ∈ ([] : List Char), isBlank c = true := nofun
  have htext := IsDateText.mk hnone (isYear_yearChars d.year) hnone (isTwoDigits_padded hmonth)
    hnone (isTwoDigits_padded hday)
  simpa [Date.chars] using htext

/-- Reading a date undoes writing it. -/
theorem dateOf?_chars (d : Date) : dateOf? d.chars = some d :=
  dateOf?_eq_some_iff.mpr (isDateText_chars d)

end Calendar

namespace Date

open Text

theorem not_blank_of_mem_chars {d : Date} {c : Char} (h : c ∈ d.chars) : isBlank c = false := by
  have hdigit {width n : Nat} (h : c ∈ Numeral.padded width n) : isBlank c = false :=
    Numeral.IsDecimal.not_blank
      (Or.inl ((Numeral.isDigit_of_value? (Numeral.value?_padded width n)).2 c h))
  have hyear (h : c ∈ yearChars d.year) : isBlank c = false := by
    unfold yearChars at h
    split at h
    · exact hdigit h
    · rcases List.mem_cons.mp h with rfl | h
      · split <;> decide
      · exact hdigit h
  simp only [chars, List.append_assoc, List.mem_append, List.mem_cons, List.cons_append] at h
  rcases h with h | rfl | h | rfl | h
  · exact hyear h
  · decide
  · exact hdigit h
  · decide
  · exact hdigit h

end Date

/-! ## Values -/

namespace Value

/-- The text of a truth value, an integer or a date has no blanks around it, and stands for it. -/
theorem read?_display {v : Value} {type : ScalarType} (hv : v.type? = some type)
    (htype : type = .bool ∨ type = .int ∨ type = .date) :
    Text.trim v.display = v.display ∧ read? v.display type = some v := by
  cases v with
  | bool b =>
    cases hv
    cases b <;> decide +kernel
  | int n =>
    cases hv
    refine ⟨Text.Numeral.trim_intText n.toInt, ?_⟩
    rw [read?, display, Text.Numeral.intText, String.toList_ofList,
      Text.Numeral.int64Of?_intDigits, Option.map_some]
  | date d =>
    cases hv
    refine ⟨Text.trim_of_not_blank fun c hc => ?_, ?_⟩
    · rw [display, Date.text, String.toList_ofList] at hc
      exact Date.not_blank_of_mem_chars hc
    · rw [read?, display, Date.text, String.toList_ofList, Calendar.dateOf?_chars, Option.map_some]
  | null | list items => cases hv
  | float x | text s | timestamp ms =>
    cases hv
    simp at htype

/-- The text of a truth value, an integer or a date, with any blanks around it, is converted back to
the value. -/
theorem convert?_display {v : Value} {type : ScalarType} (hv : v.type? = some type)
    (htype : type = .bool ∨ type = .int ∨ type = .date) {before after : String}
    (hbefore : ∀ c ∈ before.toList, Text.isBlank c = true)
    (hafter : ∀ c ∈ after.toList, Text.isBlank c = true) :
    (text (before ++ v.display ++ after)).convert? type = some v := by
  obtain ⟨htrim, hread⟩ := read?_display hv htype
  have hconvert : (text (before ++ v.display ++ after)).convert? type =
      read? (Text.trim (before ++ v.display ++ after)) type := by
    rcases htype with rfl | rfl | rfl <;> rfl
  rw [hconvert, Text.trim_append_of_blank hbefore hafter, htrim, hread]

/-- The first date there is, with blanks of several kinds around its text. -/
theorem convert?_display_first_date :
    ∃ d : Date, d.year = -262143 ∧ (date d).display = "-262143-01-01" ∧
      (text ("\t\u00a0" ++ (date d).display ++ "\u2003\u3000\n")).convert? .date =
        some (date d) :=
  ⟨⟨-262143, 1, 1, by decide⟩, rfl, by decide +kernel,
    convert?_display rfl (by decide) (List.all_eq_true.mp (by decide +kernel))
      (List.all_eq_true.mp (by decide +kernel))⟩

end Value

end FieldLookup
