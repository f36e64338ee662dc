/-!
Sets of places in a text as numbers: bit `i` says whether place `i` (before the character with that
index, or the end) belongs to the set. Main statements: `testBit_without` and `testBit_run`.
-/
namespace FieldLookup.Pattern

/-- The places in the first set but not in the second. -/
def without (a b : Nat) : Nat := (a ||| b) ^^^ b

theorem testBit_without (a b i : Nat) :
    (without a b).testBit i = (a.testBit i && !b.testBit i) := by
  simp only [without, Nat.testBit_xor, Nat.testBit_or]
  cases a.testBit i <;> cases b.testBit i <;> rfl

/-- `k` steps from a set of places; a set that a step leaves alone stays for good. -/
def iterate (step : Nat → Nat) : Nat → Nat → Nat
  | 0, here => here
  | k + 1, here =>
    let next := step here
    if next = here then here else iterate step k next

/-- What at most `k` steps reach from a set of places. -/
def reach (step : Nat → Nat) (k here : Nat) : Nat := iterate (fun p => p ||| step p) k here

/-! ## Runs

A run of characters is crossed at once: added to the set of places before them, a place among these
carries on to the place after the last. -/

/-- What is reached by crossing any number of characters, each at one of the given places. -/
def run (places here : Nat) : Nat := here ||| ((places + (here &&& places)) ^^^ places)

theorem carry_div_two (m s : Nat) (c : Bool) :
    (m + (s &&& m) + c.toNat) / 2 =
      m / 2 + (s / 2 &&& m / 2) + (m.testBit 0 && (s.testBit 0 || c)).toNat := by
  have h := @Nat.and_mod_two_eq_one s m
  have hd := @Nat.and_div_two s m
  rw [← hd]
  generalize s &&& m = a at h hd
  simp only [Nat.testBit_zero]
  by_cases hm : m % 2 = 1 <;> by_cases hs : s % 2 = 1 <;> cases c <;> simp [hm, hs] at h ⊢ <;> omega

/-- The sum of a set and some of its members carries on from each of these to the end of its run. -/
theorem testBit_carry (m s : Nat) (c : Bool) (j : Nat) :
    (s ||| ((m + (s &&& m) + c.toNat) ^^^ m)).testBit j = true ↔
      (∃ i, i ≤ j ∧ s.testBit i = true ∧ ∀ k, i ≤ k → k < j → m.testBit k = true) ∨
        (c = true ∧ ∀ k, k < j → m.testBit k = true) := by
  induction j generalizing m s c with
  | zero =>
    have h := @Nat.and_mod_two_eq_one s m
    simp only [Nat.testBit_zero, decide_eq_true_eq, Nat.or_mod_two_eq_one, Nat.xor_mod_two_eq_one,
      Nat.le_zero_eq]
    generalize s &&& m = a at h
    cases c <;> simp <;> omega
  | succ j ih =>
    rw [Nat.testBit_add_one, Nat.or_div_two, Nat.xor_div_two, carry_div_two, ih]
    constructor
    · rintro (⟨i, hi, hs, hk⟩ | ⟨hc, hk⟩)
      · refine Or.inl ⟨i + 1, by omega, by rwa [Nat.testBit_add_one], fun k h1 h2 => ?_⟩
        obtain ⟨k, rfl⟩ : ∃ l, k = l + 1 := ⟨k - 1, by omega⟩
        rw [Nat.testBit_add_one]
        exact hk k (by omega) (by omega)
      · have hall : ∀ k, k < j + 1 → m.testBit k = true := by
          intro k h
          cases k with
          | zero => simp only [Bool.and_eq_true] at hc; exact hc.1
          | succ k => rw [Nat.testBit_add_one]; exact hk k (by omega)
        simp only [Bool.and_eq_true, Bool.or_eq_true] at hc
        rcases hc.2 with hs | hc
        · exact Or.inl ⟨0, by omega, hs, fun k _ h => hall k h⟩
        · exact Or.inr ⟨hc, hall⟩
    · have htail : ∀ i, (∀ k, i ≤ k → k < j + 1 → m.testBit k = true) →
          ∀ k, i ≤ k + 1 → k < j → (m / 2).testBit k = true := by
        intro i hk k h1 h2
        rw [← Nat.testBit_add_one]
        exact hk (k + 1) h1 (by omega)
      rintro (⟨i, hi, hs, hk⟩ | ⟨hc, hk⟩)
      · cases i with
        | zero =>
          refine Or.inr ⟨?_, fun k h => htail 0 hk k (by omega) h⟩
          simp [hk 0 (by omega) (by omega), hs]
        | succ i =>
          rw [Nat.testBit_add_one] at hs
          exact Or.inl ⟨i, by omega, hs, fun k h1 h2 => htail (i + 1) hk k (by omega) h2⟩
      · refine Or.inr ⟨?_, fun k h => htail 0 (fun k _ h => hk k h) k (by omega) h⟩
        simp [hk 0 (by omega), hc]

theorem testBit_run (places here j : Nat) :
    (run places here).testBit j = true ↔
      ∃ i, i ≤ j ∧ here.testBit i = true ∧ ∀ k, i ≤ k → k < j → places.testBit k = true := by
  simpa [run] using testBit_carry places here false j

end FieldLookup.Pattern
