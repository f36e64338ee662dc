import FieldLookup.Proofs.Matching
import Mathlib.Data.List.Induction
import Mathlib.Data.List.Sort
import Mathlib.Data.Nat.Bitwise

/-!
Searching a text for a regular expression, on sets of places. Main statements: `Node.images_stops`,
a search goes from a set of places to those that the expression leads to; and `Node.occursIn_iff`,
an expression occurs in a text just if it leads from some place of it to some place.
-/
namespace FieldLookup.Pattern

/-! ## Places -/

namespace Layout

/-- An added place is one of the places of its character. -/
theorem any_addPlace (i : Nat) (c : Char) (test : Char → Bool) (j : Nat)
    (chars : List (Char × Nat)) :
    ((addPlace i c chars).any fun e => test e.1 && e.2.testBit j) =
      ((chars.any fun e => test e.1 && e.2.testBit j) || (test c && decide (i = j))) := by
  induction chars with
  | nil => simp [addPlace, Nat.one_shiftLeft, Nat.testBit_two_pow]
  | cons e rest ih =>
    obtain ⟨d, places⟩ := e
    unfold addPlace
    split
    · next heq =>
      subst heq
      rw [List.any_cons, List.any_cons, Nat.testBit_or, Nat.one_shiftLeft, Nat.testBit_two_pow,
        Bool.and_or_distrib_left, Bool.or_right_comm]
    · rw [List.any_cons, ih, List.any_cons, Bool.or_assoc]

theorem testBit_foldl (test : Char → Bool) (j found : Nat) (chars : List (Char × Nat)) :
    (chars.foldl (fun found e => if test e.1 then found ||| e.2 else found) found).testBit j =
      (found.testBit j || chars.any fun e => test e.1 && e.2.testBit j) := by
  induction chars generalizing found with
  | nil => simp
  | cons e rest ih =>
    rw [List.foldl_cons, ih, List.any_cons]
    cases test e.1 <;> simp [Bool.or_assoc]

theorem testBit_before (t : Layout) (test : Char → Bool) (j : Nat) :
    (t.before test).testBit j = t.chars.any fun e => test e.1 && e.2.testBit j := by
  rw [before, testBit_foldl, Nat.zero_testBit, Bool.false_or]

theorem ofChars_snoc (s : List Char) (c : Char) : ofChars (s ++ [c]) = (ofChars s).add c := by
  rw [ofChars, List.foldl_append]
  rfl

theorem length_ofChars (s : List Char) : (ofChars s).length = s.length := by
  induction s using List.reverseRecOn with
  | nil => rfl
  | append_singleton s c ih => rw [ofChars_snoc, add, ih, List.length_append, List.length_singleton]

theorem testBit_every (s : List Char) (i : Nat) :
    (ofChars s).every.testBit i = decide (i ≤ s.length) := by
  rw [every, Nat.one_shiftLeft, length_ofChars, Nat.testBit_two_pow_sub_one]
  exact decide_eq_decide.mpr Nat.lt_succ_iff

/-- The places before characters that pass a test, by induction on the text from its end. -/
theorem testBit_before_ofChars (s : List Char) (test : Char → Bool) (i : Nat) :
    ((ofChars s).before test).testBit i = s[i]?.any test := by
  induction s using List.reverseRecOn with
  | nil => simp [testBit_before, ofChars]
  | append_singleton s c ih =>
    rw [ofChars_snoc, testBit_before, add, any_addPlace, ← testBit_before, ih, length_ofChars,
      List.getElem?_append]
    split
    · next hlt => simp [Nat.ne_of_gt hlt]
    · next hle =>
      rw [List.getElem?_eq_none (Nat.not_lt.mp hle), Option.any_none, Bool.false_or,
        List.getElem?_singleton]
      by_cases heq : s.length = i
      · simp [heq]
      · have hne : i - s.length ≠ 0 := by omega
        simp [heq, hne]

end Layout

theorem testBit_after_ofChars (s : List Char) (test : Char → Bool) (i : Nat) :
    ((Layout.ofChars s).after test).testBit i = behind s test i := by
  rw [Layout.after, Nat.testBit_shiftLeft]
  cases i with
  | zero => rfl
  | succ i => simp [Layout.testBit_before_ofChars, behind]

/-- The places of a condition are those of the text at which it holds. -/
theorem testBit_places (s : List Char) (l : Look) (i : Nat) :
    (l.places (Layout.ofChars s)).testBit i = (decide (i ≤ s.length) && l.holds s i) := by
  have hbefore (test : Char → Bool) : ((Layout.ofChars s).before test).testBit i = ahead s test i :=
    Layout.testBit_before_ofChars s test i
  have hafter (test : Char → Bool) := testBit_after_ofChars s test i
  have hstart : Layout.start.testBit i = decide (i = 0) := by
    rw [Layout.start, ← Nat.pow_zero 2, Nat.testBit_two_pow]
    simp [eq_comm]
  have hstop : (Layout.ofChars s).stop.testBit i = decide (i = s.length) := by
    rw [Layout.stop, Nat.one_shiftLeft, Layout.length_ofChars, Nat.testBit_two_pow]
    simp [eq_comm]
  have hevery := Layout.testBit_every s i
  by_cases hi : i ≤ s.length
  · cases l with
    | wordEdge | noWordEdge =>
      cases hahead : ahead s isWord i <;> cases hbehind : behind s isWord i <;>
        simp [Look.places, Look.holds, testBit_without, hbefore, hafter, hevery, hi, hahead,
          hbehind]
    | _ =>
      simp [Look.places, Look.holds, testBit_without, hbefore, hafter, hstart, hstop, hevery, hi]
  · -- there are no characters on either side of a place behind the text
    have hahead (test : Char → Bool) : ahead s test i = false :=
      Bool.eq_false_iff.mpr fun h => hi (Nat.le_of_lt (lt_of_ahead h))
    have hbehind (test : Char → Bool) : behind s test i = false :=
      Bool.eq_false_iff.mpr fun h => hi (le_of_behind h)
    have hzero : i ≠ 0 := by omega
    have hend : i ≠ s.length := by omega
    cases l <;>
      simp [Look.places, testBit_without, hbefore, hafter, hstart, hstop, hevery, hahead, hbehind,
        hi, hzero, hend]

/-! ## Steps -/

/-- A step on sets of places goes from each place to those that a relation leads to. -/
def Images (step : Nat → Nat) (R : Nat → Nat → Prop) : Prop :=
  ∀ here j, (step here).testBit j = true ↔ ∃ i, here.testBit i = true ∧ R i j

variable {s : List Char} {step step' : Nat → Nat} {R S : Nat → Nat → Prop} {n : Nat}

theorem Images.comp (h : Images step R) (h' : Images step' S) :
    Images (fun here => step' (step here)) fun i j => ∃ k, R i k ∧ S k j := by
  intro here j
  rw [h']
  constructor
  · rintro ⟨k, hk, hkj⟩
    obtain ⟨i, hi, hik⟩ := (h here k).mp hk
    exact ⟨i, hi, k, hik, hkj⟩
  · rintro ⟨i, hi, k, hik, hkj⟩
    exact ⟨k, (h here k).mpr ⟨i, hi, hik⟩, hkj⟩

theorem Images.or (h : Images step R) (h' : Images step' S) :
    Images (fun here => step here ||| step' here) fun i j => R i j ∨ S i j := by
  intro here j
  rw [Nat.testBit_or, Bool.or_eq_true, h, h', ← exists_or]
  simp only [and_or_left]

theorem images_id : Images (fun here => here) fun i j => i = j := by
  intro here j
  simp

/-- A step that leaves a set alone leaves it alone however often it is made. -/
theorem iterate_of_eq {here : Nat} (h : step here = here) (n : Nat) :
    iterate step n here = here := by
  cases n with
  | zero => rfl
  | succ n => rw [iterate, h, if_pos rfl]

theorem iterate_succ (step : Nat → Nat) (n here : Nat) :
    iterate step (n + 1) here = iterate step n (step here) := by
  rw [iterate]
  split
  · next h => rw [h, iterate_of_eq h]
  · rfl

theorem Images.iterate (h : Images step R) (n : Nat) : Images (iterate step n) (Repeats R n) := by
  induction n with
  | zero => exact images_id
  | succ n ih =>
    have hsucc : Pattern.iterate step (n + 1) = fun here => Pattern.iterate step n (step here) :=
      funext (iterate_succ step n)
    rw [hsucc]
    exact h.comp ih

theorem Images.reach (h : Images step R) (n : Nat) :
    Images (reach step n) fun i j => ∃ m ≤ n, Repeats R m i j := by
  intro here j
  rw [Pattern.reach, (images_id.or h).iterate n here j]
  simp only [repeats_or_eq]

/-! ## Searching -/

theorem Images.congr (h : Images step R) (hstep : ∀ here, step' here = step here)
    (hR : ∀ i j, S i j ↔ R i j) : Images step' S := by
  intro here j
  rw [hstep, h]
  simp only [hR]

/-- A character that passes a test is crossed. -/
theorem images_read (s : List Char) (test : Char → Bool) :
    Images (Located.read ((Layout.ofChars s).before test)).stops
      fun i j => ahead s test i = true ∧ j = i + 1 := by
  intro here j
  rw [Located.stops, Nat.testBit_shiftLeft, Nat.testBit_and, Layout.testBit_before_ofChars]
  simp only [Bool.and_eq_true, decide_eq_true_eq]
  constructor
  · rintro ⟨hj, hhere, hread⟩
    exact ⟨j - 1, hhere, hread, by omega⟩
  · rintro ⟨i, hhere, hread, rfl⟩
    exact ⟨by omega, by simpa using hhere, hread⟩

theorem images_ask (s : List Char) (l : Look) :
    Images (Located.ask (l.places (Layout.ofChars s))).stops
      fun i j => (i ≤ s.length ∧ l.holds s i = true) ∧ i = j := by
  intro here j
  simp [Located.stops, testBit_places]

theorem Images.iff_testBit (h : Images step R) (i j : Nat) :
    R i j ↔ (step (2 ^ i)).testBit j = true := by
  rw [h]
  simp [Nat.testBit_two_pow]

/-- A search for any number of repetitions looks at enough of them. -/
theorem images_many {one : Located} (h : Images one.stops R) (hR : Advances s R) :
    Images (one.many (Layout.ofChars s)).stops fun i j => ∃ n, Repeats R n i j := by
  have hupTo : Images (Located.upTo (s.length + 1) one).stops fun i j => ∃ n, Repeats R n i j := by
    refine (h.reach (s.length + 1)).congr (fun _ => by rw [Located.stops]) fun i j => ?_
    refine ⟨fun ⟨n, hn⟩ => ?_, fun ⟨n, _, hn⟩ => ⟨n, hn⟩⟩
    obtain ⟨m, hm, hmj⟩ := exists_repeats_le (fun i j hij => (hR i j hij).1) hn
    have := hR.repeats n i j hn
    exact ⟨m, by omega, hmj⟩
  cases one with
  | read places =>
    -- a run is crossed at once instead
    have hread (i j : Nat) : R i j ↔ places.testBit i = true ∧ j = i + 1 := by
      rw [h.iff_testBit, Located.stops, Nat.testBit_shiftLeft, Nat.testBit_and, Nat.testBit_two_pow]
      cases j with
      | zero => simp
      | succ j =>
        simp only [Nat.add_sub_cancel, Bool.and_eq_true, decide_eq_true_eq,
          Nat.add_right_cancel_iff]
        constructor
        · rintro ⟨-, rfl, hp⟩
          exact ⟨hp, rfl⟩
        · rintro ⟨hp, rfl⟩
          exact ⟨by omega, rfl, hp⟩
    obtain rfl : R = fun i j => places.testBit i = true ∧ j = i + 1 :=
      funext fun i => funext fun j => propext (hread i j)
    intro here j
    simp only [Located.many, Located.stops, testBit_run, repeats_cross_iff]
    refine exists_congr fun i => ⟨fun ⟨hij, hi, hrun⟩ => ⟨hi, j - i, by omega, hrun⟩, ?_⟩
    rintro ⟨hi, n, hn, hrun⟩
    exact ⟨by omega, hi, hrun⟩
  | _ =>
    rw [← Layout.length_ofChars s] at hupTo
    exact hupTo

mutual

/-- A search goes from a set of places to those that the expression leads to. -/
theorem Node.images_stops (s : List Char) :
    ∀ node : Node, Images (node.locate (Layout.ofChars s)).stops (node.Takes s)
  | .empty => images_id
  | .char c => (images_read s (· = c)).congr (fun _ => rfl) fun _ _ => by
      rw [ahead_eq_iff, Node.Takes]
  | .oneOf k => images_read s k.contains
  | .look l => images_ask s l
  | .times least none sub => by
    have hsub := sub.images_stops s
    refine ((hsub.iterate least).comp (images_many hsub (sub.advances_takes s))).congr
      (fun _ => rfl) fun i j => ?_
    rw [Node.Takes, repeats_add_iff]
    simp
  | .times least (some most) sub => by
    have hsub := sub.images_stops s
    refine ((hsub.iterate least).comp (hsub.reach (most - least))).congr (fun _ => rfl)
      fun i j => ?_
    rw [Node.Takes, repeats_add_iff]
    simp
  | .group _ _ sub => sub.images_stops s
  | .seq subs => images_stopsOfSeq s subs
  | .alt subs => images_stopsOfAlt s subs

theorem images_stopsOfSeq (s : List Char) :
    ∀ subs : List Node, Images (Located.stopsOfSeq (locateAll (Layout.ofChars s) subs))
      (takesSeq s subs)
  | [] => images_id
  | sub :: rest => (sub.images_stops s).comp (images_stopsOfSeq s rest)

theorem images_stopsOfAlt (s : List Char) :
    ∀ subs : List Node, Images (Located.stopsOfAlt (locateAll (Layout.ofChars s) subs))
      (takesAlt s subs)
  | [] => fun _ _ => by simp [locateAll, Located.stopsOfAlt, takesAlt]
  | sub :: rest => (sub.images_stops s).or (images_stopsOfAlt s rest)

end

/-- An expression occurs in a text just if it leads from some place of it to some place. -/
theorem Node.occursIn_iff (node : Node) (s : String) :
    node.occursIn s = true ↔ ∃ i j, i ≤ s.toList.length ∧ node.Takes s.toList i j := by
  have hstops := node.images_stops s.toList (Layout.ofChars s.toList).every
  simp only [Layout.testBit_every, decide_eq_true_eq] at hstops
  rw [occursIn, bne_iff_ne, exists_comm]
  simp only [← hstops]
  exact ⟨Nat.exists_testBit_of_ne_zero, fun ⟨j, hj⟩ hzero => by simp [hzero] at hj⟩

end FieldLookup.Pattern
