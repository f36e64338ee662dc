import FieldLookup.Pattern.Matcher
import FieldLookup.Pattern.Reader

/-!
What regular expressions mean, whatever the way in which a text is searched for them. `Node.Takes`
says from which places of a text to which an expression leads, by the documented rules of regular
expressions. Main statements: `Node.advances_takes`, an expression never leads back;
`CharClass.contains_ofRanges`, a class made of ranges has just their characters; and
`Flags.takes_literal`, a literal crosses the characters that are the same, but for the case of ASCII
letters if case is ignored.
-/
namespace FieldLookup.Pattern

/-! ## Conditions -/

/-- Whether the character behind a place passes a test. -/
def ahead (s : List Char) (test : Char → Bool) (i : Nat) : Bool := s[i]?.any test

/-- Whether the character in front of a place passes a test. -/
def behind (s : List Char) (test : Char → Bool) : Nat → Bool
  | 0 => false
  | i + 1 => s[i]?.any test

variable {s : List Char} {test : Char → Bool} {i j k : Nat}

theorem ahead_eq_iff {c : Char} : ahead s (· = c) i = true ↔ s[i]? = some c := by
  cases h : s[i]? <;> simp [ahead, h]

theorem lt_of_ahead (h : ahead s test i = true) : i < s.length := by
  refine Nat.lt_of_not_le fun hle => ?_
  rw [ahead, List.getElem?_eq_none hle] at h
  cases h

theorem le_of_behind (h : behind s test i = true) : i ≤ s.length := by
  cases i with
  | zero => cases h
  | succ i => exact lt_of_ahead h

/-- Whether a condition holds at a place. Where any line end counts, a carriage return ends a line
as a line feed does, and the two one after the other end one line. -/
def Look.holds (s : List Char) (i : Nat) : Look → Bool
  | start => i = 0
  | stop => i = s.length
  | lineStart => i = 0 || behind s (· = '\n') i
  | lineStop => i = s.length || ahead s (· = '\n') i
  | lineStartAny =>
    i = 0 || behind s (· = '\n') i || behind s (· = '\r') i && !ahead s (· = '\n') i
  | lineStopAny =>
    i = s.length || ahead s (· = '\r') i || ahead s (· = '\n') i && !behind s (· = '\r') i
  | wordEdge => ahead s isWord i ≠ behind s isWord i
  | noWordEdge => ahead s isWord i = behind s isWord i
  | wordStart => ahead s isWord i && !behind s isWord i
  | wordStop => behind s isWord i && !ahead s isWord i
  | wordStartHalf => !behind s isWord i
  | wordStopHalf => !ahead s isWord i

/-! ## Repetition -/

/-- A relation between places, so many times one after the other. -/
def Repeats (R : Nat → Nat → Prop) : (count : Nat) → Nat → Nat → Prop
  | 0, i, j => i = j
  | n + 1, i, j => ∃ k, R i k ∧ Repeats R n k j

variable {R S : Nat → Nat → Prop} {n : Nat}

theorem repeats_add (m n : Nat) :
    Repeats R (m + n) i j ↔ ∃ k, Repeats R m i k ∧ Repeats R n k j := by
  induction m generalizing i with
  | zero => simp [Repeats]
  | succ m ih =>
    rw [Nat.succ_add]
    simp only [Repeats, ih]
    constructor
    · rintro ⟨l, hl, k, hk, hkj⟩
      exact ⟨k, ⟨l, hl, hk⟩, hkj⟩
    · rintro ⟨k, ⟨l, hl, hk⟩, hkj⟩
      exact ⟨l, hl, k, hk, hkj⟩

/-- What has to be repeated comes first, and what may be behind it. -/
theorem repeats_add_iff {P : Nat → Prop} (least : Nat) :
    (∃ more, P more ∧ Repeats R (least + more) i j) ↔
      ∃ k, Repeats R least i k ∧ ∃ more, P more ∧ Repeats R more k j := by
  simp only [repeats_add]
  constructor
  · rintro ⟨more, hmore, k, hik, hkj⟩
    exact ⟨k, hik, more, hmore, hkj⟩
  · rintro ⟨k, hik, more, hmore, hkj⟩
    exact ⟨more, hmore, k, hik, hkj⟩

/-- Staying or going on so many times is going on at most so many times. -/
theorem repeats_or_eq : Repeats (fun i j => i = j ∨ R i j) n i j ↔ ∃ m ≤ n, Repeats R m i j := by
  induction n generalizing i with
  | zero => simp [Repeats]
  | succ n ih =>
    simp only [Repeats, ih]
    constructor
    · rintro ⟨k, rfl | hik, m, hm, hkj⟩
      · exact ⟨m, Nat.le_succ_of_le hm, hkj⟩
      · exact ⟨m + 1, Nat.succ_le_succ hm, k, hik, hkj⟩
    · rintro ⟨m, hm, hij⟩
      cases m with
      | zero => exact ⟨i, Or.inl rfl, 0, Nat.zero_le n, hij⟩
      | succ m =>
        obtain ⟨k, hik, hkj⟩ := hij
        exact ⟨k, Or.inr hik, m, Nat.le_of_succ_le_succ hm, hkj⟩

/-- Of repetitions that never go back, as many are enough as there are places to cross. -/
theorem exists_repeats_le (hle : ∀ i j, R i j → i ≤ j) (h : Repeats R n i j) :
    ∃ m, i + m ≤ j ∧ Repeats R m i j := by
  induction n generalizing i with
  | zero => exact ⟨0, Nat.le_of_eq h, h⟩
  | succ n ih =>
    obtain ⟨k, hik, hkj⟩ := h
    obtain ⟨m, hm, hmj⟩ := ih hkj
    rcases Nat.eq_or_lt_of_le (hle i k hik) with rfl | hlt
    · exact ⟨m, hm, hmj⟩
    · exact ⟨m + 1, by omega, k, hik, hmj⟩

/-- Crossings of single characters make a run. -/
theorem repeats_cross_iff {P : Nat → Prop} :
    Repeats (fun i j => P i ∧ j = i + 1) n i j ↔
      j = i + n ∧ ∀ k, i ≤ k → k < j → P k := by
  induction n generalizing i with
  | zero =>
    refine ⟨fun h => ⟨h.symm, fun k hik hkj => ?_⟩, fun h => h.1.symm⟩
    have hij : i = j := h
    omega
  | succ n ih =>
    simp only [Repeats, ih]
    constructor
    · rintro ⟨k, ⟨hi, rfl⟩, rfl, hrun⟩
      refine ⟨by omega, fun l hil hlj => ?_⟩
      rcases Nat.eq_or_lt_of_le hil with rfl | hlt
      · exact hi
      · exact hrun l hlt hlj
    · rintro ⟨rfl, hrun⟩
      exact ⟨i + 1, ⟨hrun i (Nat.le_refl i) (by omega), rfl⟩, by omega,
        fun k hik hkj => hrun k (by omega) hkj⟩

/-! ## Expressions -/

mutual

/-- Whether an expression leads from one place of a text to another: a character and a class cross
one character, a condition stays where it holds, and a repetition is as many crossings as it
admits. -/
def Node.Takes (s : List Char) : Node → Nat → Nat → Prop
  | .empty, i, j => i = j
  | .char c, i, j => s[i]? = some c ∧ j = i + 1
  | .oneOf k, i, j => ahead s k.contains i = true ∧ j = i + 1
  | .look l, i, j => (i ≤ s.length ∧ l.holds s i = true) ∧ i = j
  | .times least most sub, i, j =>
    ∃ more, (∀ k, most = some k → more ≤ k - least) ∧ Repeats (sub.Takes s) (least + more) i j
  | .group _ _ sub, i, j => sub.Takes s i j
  | .seq subs, i, j => takesSeq s subs i j
  | .alt subs, i, j => takesAlt s subs i j

/-- Whether expressions lead from one place to another, each from where the one before it leads. -/
def takesSeq (s : List Char) : List Node → Nat → Nat → Prop
  | [], i, j => i = j
  | sub :: rest, i, j => ∃ k, sub.Takes s i k ∧ takesSeq s rest k j

/-- Whether one of some expressions leads from one place to another. -/
def takesAlt (s : List Char) : List Node → Nat → Nat → Prop
  | [], _, _ => False
  | sub :: rest, i, j => sub.Takes s i j ∨ takesAlt s rest i j

end

/-! ## Going on -/

/-- A relation between places that never leads back, and only into the text. -/
def Advances (s : List Char) (R : Nat → Nat → Prop) : Prop :=
  ∀ i j, R i j → i ≤ j ∧ (i < j → j ≤ s.length)

theorem advances_of_eq (h : ∀ i j, R i j → i = j) : Advances s R := by
  intro i j hij
  have := h i j hij
  omega

theorem advances_of_ahead (h : ∀ i j, R i j → ∃ test, ahead s test i = true ∧ j = i + 1) :
    Advances s R := by
  intro i j hij
  obtain ⟨test, hahead, rfl⟩ := h i j hij
  have := lt_of_ahead hahead
  omega

theorem Advances.comp (hR : Advances s R) (hS : Advances s S) :
    Advances s fun i j => ∃ k, R i k ∧ S k j := by
  rintro i j ⟨k, hik, hkj⟩
  have := hR i k hik
  have := hS k j hkj
  omega

theorem Advances.repeats (hR : Advances s R) (n : Nat) : Advances s (Repeats R n) := by
  induction n with
  | zero => exact advances_of_eq fun _ _ h => h
  | succ n ih => exact hR.comp ih

mutual

theorem Node.advances_takes (s : List Char) : ∀ node : Node, Advances s (node.Takes s)
  | .empty => advances_of_eq fun _ _ h => h
  | .char c => advances_of_ahead fun _ _ h => ⟨(· = c), ahead_eq_iff.mpr h.1, h.2⟩
  | .oneOf k => advances_of_ahead fun _ _ h => ⟨k.contains, h⟩
  | .look _ => advances_of_eq fun _ _ h => h.2
  | .times least _ sub => fun i j ⟨more, _, h⟩ =>
    (sub.advances_takes s).repeats (least + more) i j h
  | .group _ _ sub => sub.advances_takes s
  | .seq subs => advances_takesSeq s subs
  | .alt subs => advances_takesAlt s subs

theorem advances_takesSeq (s : List Char) : ∀ subs : List Node, Advances s (takesSeq s subs)
  | [] => advances_of_eq fun _ _ h => h
  | sub :: rest => (sub.advances_takes s).comp (advances_takesSeq s rest)

theorem advances_takesAlt (s : List Char) : ∀ subs : List Node, Advances s (takesAlt s subs)
  | [] => fun _ _ h => h.elim
  | sub :: rest => fun i j h =>
    h.elim (sub.advances_takes s i j) (advances_takesAlt s rest i j)

end

/-! ## Classes -/

namespace CharClass

variable {c : Char}

theorem contains_cons {r : Nat × Nat} {k : CharClass} :
    contains (r :: k) c = ((r.1 ≤ c.toNat && c.toNat ≤ r.2) || contains k c) := rfl

theorem insertByFirst_perm (r : Nat × Nat) (rs : List (Nat × Nat)) :
    (insertByFirst r rs).Perm (r :: rs) := by
  induction rs with
  | nil => exact List.Perm.refl _
  | cons s rest ih =>
    unfold insertByFirst
    split
    · exact (ih.cons s).trans (List.Perm.swap r s rest)
    · exact List.Perm.refl _

theorem pairwise_insertByFirst (r : Nat × Nat) {rs : List (Nat × Nat)}
    (h : rs.Pairwise fun s t => s.1 ≤ t.1) :
    (insertByFirst r rs).Pairwise fun s t => s.1 ≤ t.1 := by
  induction rs with
  | nil => exact List.pairwise_singleton _ r
  | cons s rest ih =>
    obtain ⟨hfirst, hrest⟩ := List.pairwise_cons.mp h
    unfold insertByFirst
    split
    · next hlt =>
      refine List.pairwise_cons.mpr ⟨fun t ht => ?_, ih hrest⟩
      rcases List.mem_cons.mp ((insertByFirst_perm r rest).mem_iff.mp ht) with rfl | ht
      · omega
      · exact hfirst t ht
    · next hle =>
      refine List.pairwise_cons.mpr ⟨fun t ht => ?_, h⟩
      rcases List.mem_cons.mp ht with rfl | ht
      · omega
      · have := hfirst t ht
        omega

/-- The ranges that a class is made of, in the order of their first code points. -/
theorem foldr_insertByFirst (rs : List (Nat × Nat)) :
    (rs.foldr insertByFirst []).Perm rs ∧
      (rs.foldr insertByFirst []).Pairwise fun s t => s.1 ≤ t.1 := by
  induction rs with
  | nil => exact ⟨List.Perm.refl _, List.Pairwise.nil⟩
  | cons r rest ih =>
    obtain ⟨hperm, hsorted⟩ := ih
    exact ⟨(insertByFirst_perm r _).trans (hperm.cons r), pairwise_insertByFirst r hsorted⟩

/-- Joining ranges that overlap or touch keeps their characters. -/
theorem contains_absorb {r : Nat × Nat} {rs : List (Nat × Nat)}
    (h : (r :: rs).Pairwise fun s t => s.1 ≤ t.1) :
    contains (joinSorted.absorb r rs) c = contains (r :: rs) c := by
  induction rs generalizing r with
  | nil => rfl
  | cons s rest ih =>
    obtain ⟨hfirst, hrest⟩ := List.pairwise_cons.mp h
    have hle := hfirst s List.mem_cons_self
    unfold joinSorted.absorb
    split
    · next htouch =>
      have hjoined : ((r.1, max r.2 s.2) :: rest).Pairwise fun s t : Nat × Nat => s.1 ≤ t.1 :=
        List.pairwise_cons.mpr ⟨fun t ht => hfirst t (List.mem_cons_of_mem s ht),
          (List.pairwise_cons.mp hrest).2⟩
      rw [ih hjoined, contains_cons, contains_cons, contains_cons, ← Bool.or_assoc]
      congr 1
      rw [Bool.eq_iff_iff]
      simp only [Bool.or_eq_true, Bool.and_eq_true, decide_eq_true_eq]
      omega
    · rw [contains_cons, ih hrest]
      rfl

/-- A class made of ranges has just the characters of the ranges. -/
theorem contains_ofRanges (rs : List (Nat × Nat)) : contains (ofRanges rs) c = contains rs c := by
  obtain ⟨hperm, hsorted⟩ := foldr_insertByFirst rs
  have hjoin : contains (ofRanges rs) c = contains (rs.foldr insertByFirst []) c := by
    unfold ofRanges
    cases h : rs.foldr insertByFirst [] with
    | nil => rfl
    | cons r rest =>
      rw [h] at hsorted
      exact contains_absorb hsorted
  rw [hjoin, Bool.eq_iff_iff, contains, contains, List.any_eq_true, List.any_eq_true]
  exact exists_congr fun r => and_congr_left fun _ => hperm.mem_iff

theorem length_absorb_le (r : Nat × Nat) (rs : List (Nat × Nat)) :
    (joinSorted.absorb r rs).length ≤ rs.length + 1 := by
  induction rs generalizing r with
  | nil => exact Nat.le_refl 1
  | cons s rest ih =>
    unfold joinSorted.absorb
    split
    · have := ih (r.1, max r.2 s.2)
      simp only [List.length_cons]
      omega
    · have := ih s
      simp only [List.length_cons]
      omega

theorem length_ofRanges_le (rs : List (Nat × Nat)) : (ofRanges rs).length ≤ rs.length := by
  rw [← (foldr_insertByFirst rs).1.length_eq, ofRanges]
  cases rs.foldr insertByFirst [] with
  | nil => exact Nat.le_refl 0
  | cons r rest => exact length_absorb_le r rest

theorem contains_single (c d : Char) : contains (single c) d = (d == c) := by
  rw [Bool.eq_iff_iff, beq_iff_eq, ← Char.toNat_inj]
  simp only [contains, single, List.any_cons, List.any_nil, Bool.or_false, Bool.and_eq_true,
    decide_eq_true_eq]
  omega

theorem contains_append (k k' : CharClass) (c : Char) :
    contains (k ++ k') c = (contains k c || contains k' c) := List.any_append

theorem contains_any (c : Char) : contains any c = true := by
  have hvalid : c.toNat < 0x110000 := by
    rcases c.valid with h | h
    · exact Nat.lt_trans h (by decide)
    · exact h.2
  simp only [contains, any, lastCode, List.any_cons, List.any_nil, Bool.or_false, Bool.and_eq_true,
    decide_eq_true_eq]
  omega

end CharClass

/-! ## Literals -/

/-- Whether characters are the same, or the same in lower case if case is ignored. -/
def sameChar (ignoreCase : Bool) (c d : Char) : Bool :=
  if ignoreCase then c.toLower == d.toLower else c == d

theorem toNat_ofNat_of_lt {n : Nat} (h : n < 128) : (Char.ofNat n).toNat = n := by
  have hvalid : n.isValidChar := Or.inl (by omega)
  rw [Char.ofNat, dif_pos hvalid]
  rfl

/-- Lower case moves the capitals of ASCII, and leaves all other characters alone. -/
theorem toNat_toLower (c : Char) :
    c.toLower.toNat = c.toNat + 32 ∧ 65 ≤ c.toNat ∧ c.toNat ≤ 90 ∨
      c.toLower.toNat = c.toNat ∧ ¬(65 ≤ c.toNat ∧ c.toNat ≤ 90) := by
  unfold Char.toLower
  by_cases h : c.val ≥ 'A'.val ∧ c.val ≤ 'Z'.val
  · have hcode : 65 ≤ c.toNat ∧ c.toNat ≤ 90 := h
    have hmove : ('a'.val - 'A'.val).toNat = 32 := rfl
    have hval : c.val.toNat = c.toNat := rfl
    rw [dif_pos h]
    refine Or.inl ⟨(UInt32.toNat_add c.val ('a'.val - 'A'.val)).trans ?_, hcode⟩
    omega
  · rw [dif_neg h]
    exact Or.inr ⟨rfl, h⟩

/-- The two cases of a letter are the same in lower case, and no other characters are. -/
theorem toLower_eq_iff {c d : Char} :
    c.toLower = d.toLower ↔ d = c ∨ otherCase? c = some d := by
  have hc := toNat_toLower c
  have hd := toNat_toLower d
  rw [← Char.toNat_inj, ← Char.toNat_inj]
  unfold otherCase?
  -- the bounds of the letters as numbers, from which the arithmetic follows
  by_cases hsmall : 'a' ≤ c ∧ c ≤ 'z'
  · have hcode : 97 ≤ c.toNat ∧ c.toNat ≤ 122 := hsmall
    rw [if_pos hsmall, Option.some.injEq, ← Char.toNat_inj, toNat_ofNat_of_lt (by omega)]
    omega
  · have hcode : ¬(97 ≤ c.toNat ∧ c.toNat ≤ 122) := hsmall
    rw [if_neg hsmall]
    by_cases hcapital : 'A' ≤ c ∧ c ≤ 'Z'
    · have hcode' : 65 ≤ c.toNat ∧ c.toNat ≤ 90 := hcapital
      rw [if_pos hcapital, Option.some.injEq, ← Char.toNat_inj, toNat_ofNat_of_lt (by omega)]
      omega
    · have hcode' : ¬(65 ≤ c.toNat ∧ c.toNat ≤ 90) := hcapital
      rw [if_neg hcapital]
      simp only [reduceCtorEq, or_false]
      omega

theorem sameChar_eq (ignoreCase : Bool) (c d : Char) :
    sameChar ignoreCase c d = (d == c || ignoreCase && otherCase? c == some d) := by
  unfold sameChar
  cases ignoreCase with
  | false => rw [if_neg Bool.false_ne_true, Bool.false_and, Bool.or_false, Bool.beq_comm]
  | true =>
    rw [if_pos rfl, Bool.true_and, Bool.eq_iff_iff, Bool.or_eq_true, beq_iff_eq, beq_iff_eq,
      beq_iff_eq]
    exact toLower_eq_iff

/-- A literal crosses the characters that are the same. -/
theorem Flags.takes_literal (flags : Flags) (c : Char) :
    (flags.literal c).Takes s i j ↔ ahead s (sameChar flags.ignoreCase c) i = true ∧ j = i + 1 := by
  have hsame {test : Char → Bool} (h : ∀ d, test d = sameChar flags.ignoreCase c d) :
      ahead s test i = ahead s (sameChar flags.ignoreCase c) i := by
    rw [funext h]
  unfold Flags.literal
  split
  · next other hother =>
    split
    · next hignore =>
      rw [Node.Takes, hsame fun d => ?_]
      rw [sameChar_eq, hignore, hother, CharClass.contains_ofRanges, CharClass.contains_append,
        CharClass.contains_single, CharClass.contains_single, Bool.true_and, Option.some_beq_some,
        Bool.beq_comm (a := other)]
    · next hignore =>
      rw [Node.Takes, ← ahead_eq_iff, hsame fun d => ?_]
      rw [sameChar_eq, Bool.eq_false_iff.mpr hignore, Bool.false_and, Bool.or_false]
      rfl
  · next hother =>
    rw [Node.Takes, ← ahead_eq_iff, hsame fun d => ?_]
    rw [sameChar_eq, hother, Option.none_beq_some, Bool.and_false, Bool.or_false]
    rfl

theorem Flags.takes_dot {flags : Flags} (hdot : flags.dotAll = true) :
    flags.dot.Takes s i j ↔ ahead s (fun _ => true) i = true ∧ j = i + 1 := by
  have hany : CharClass.contains CharClass.any = fun _ => true := funext CharClass.contains_any
  rw [Flags.dot, hdot, if_pos rfl, Node.Takes, hany]

/-- Any number of characters lead to any place that is not in front. -/
theorem Flags.takes_dots {flags : Flags} (hdot : flags.dotAll = true) (hi : i ≤ s.length) :
    (Node.times 0 none flags.dot).Takes s i j ↔ i ≤ j ∧ j ≤ s.length := by
  have hcross : flags.dot.Takes s = fun i j => ahead s (fun _ => true) i = true ∧ j = i + 1 :=
    funext fun _ => funext fun _ => propext (takes_dot hdot)
  simp only [Node.Takes, hcross, repeats_cross_iff]
  constructor
  · rintro ⟨n, -, rfl, hrun⟩
    refine ⟨by omega, ?_⟩
    rcases Nat.eq_zero_or_pos n with rfl | hpos
    · exact hi
    · have := lt_of_ahead (hrun (i + n - 1) (by omega) (by omega))
      omega
  · rintro ⟨hij, hj⟩
    refine ⟨j - i, nofun, by omega, fun k _ hkj => ?_⟩
    rw [ahead, List.getElem?_eq_getElem (by omega)]
    rfl

/-! ## Expressions one after the other -/

theorem takesSeq_append (front back : List Node) :
    takesSeq s (front ++ back) i j ↔ ∃ k, takesSeq s front i k ∧ takesSeq s back k j := by
  induction front generalizing i with
  | nil => simp [takesSeq]
  | cons sub rest ih =>
    simp only [List.cons_append, takesSeq, ih]
    constructor
    · rintro ⟨l, hl, k, hk, hkj⟩
      exact ⟨k, ⟨l, hl, hk⟩, hkj⟩
    · rintro ⟨k, ⟨l, hl, hk⟩, hkj⟩
      exact ⟨l, hl, k, hk, hkj⟩

/-- Expressions one after the other, from the start of a text to its end. -/
def Node.anchored (subs : List Node) : Node := .seq (.look .start :: subs ++ [.look .stop])

theorem Node.takes_anchored (subs : List Node) :
    (anchored subs).Takes s i j ↔ i = 0 ∧ j = s.length ∧ takesSeq s subs 0 s.length := by
  simp only [anchored, Takes, List.cons_append, takesSeq, takesSeq_append, Look.holds,
    decide_eq_true_eq]
  constructor
  · rintro ⟨_, ⟨⟨-, rfl⟩, rfl⟩, _, hsubs, _, ⟨⟨-, rfl⟩, rfl⟩, rfl⟩
    exact ⟨rfl, rfl, hsubs⟩
  · rintro ⟨rfl, rfl, hsubs⟩
    exact ⟨0, ⟨⟨Nat.zero_le _, rfl⟩, rfl⟩, s.length, hsubs, s.length,
      ⟨⟨Nat.le_refl _, rfl⟩, rfl⟩, rfl⟩

end FieldLookup.Pattern
