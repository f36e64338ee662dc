/-!
White space of a text, as the Unicode property White_Space lists it, and trimming by it. Main
statements: `trimStart_append_of_blank` and `trimEnd_append_of_blank`, blanks at either end make no
difference to trimming.
-/
namespace FieldLookup.Text

/-- The code points with the property White_Space, as closed ranges. -/
def blankRanges : List (Nat × Nat) :=
  [(0x09, 0x0D), (0x20, 0x20), (0x85, 0x85), (0xA0, 0xA0), (0x1680, 0x1680), (0x2000, 0x200A),
   (0x2028, 0x2029), (0x202F, 0x202F), (0x205F, 0x205F), (0x3000, 0x3000)]

def isBlank (c : Char) : Bool :=
  blankRanges.any fun r => r.1 ≤ c.toNat && c.toNat ≤ r.2

def trimStart (s : List Char) : List Char := s.dropWhile isBlank

def trimEnd (s : List Char) : List Char := (s.reverse.dropWhile isBlank).reverse

def trimChars (s : List Char) : List Char := trimEnd (trimStart s)

/-- The text without the blanks at either end. -/
def trim (s : String) : String := String.ofList (trimChars s.toList)

theorem trimStart_cons_of_not_blank {c : Char} {s : List Char} (h : isBlank c = false) :
    trimStart (c :: s) = c :: s := by
  simp [trimStart, h]

theorem trimStart_append_of_blank {pre s : List Char} (h : ∀ c ∈ pre, isBlank c = true) :
    trimStart (pre ++ s) = trimStart s := by
  induction pre with
  | nil => rfl
  | cons c pre ih =>
    have hc : isBlank c = true := h c (by simp)
    simpa [trimStart, hc] using ih fun d hd => h d (by simp [hd])

theorem trimEnd_append_of_blank {s post : List Char} (h : ∀ c ∈ post, isBlank c = true) :
    trimEnd (s ++ post) = trimEnd s := by
  have : trimStart (post.reverse ++ s.reverse) = trimStart s.reverse :=
    trimStart_append_of_blank fun c hc => h c (by simpa using hc)
  simpa [trimEnd, trimStart] using congrArg List.reverse this

end FieldLookup.Text
