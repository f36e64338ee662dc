/-!
Cutting a text at a separator, from the left and without overlap, and joining pieces again.
`cut?` finds the first occurrence of the separator; `pieces` repeats it. An empty separator cuts at
every place between two characters and at both ends.
-/
namespace FieldLookup.Text

/-- What follows `front`, if the text starts with it. -/
def dropFront? : (front s : List Char) → Option (List Char)
  | [], s => some s
  | _ :: _, [] => none
  | c :: front, d :: s => if c = d then dropFront? front s else none

theorem dropFront?_eq_some_iff {front s rest : List Char} :
    dropFront? front s = some rest ↔ s = front ++ rest := by
  induction front generalizing s with
  | nil => simp [dropFront?]
  | cons c front ih =>
    cases s with
    | nil => simp [dropFront?]
    | cons d s =>
      by_cases h : c = d
      · simp [dropFront?, h, ih]
      · simp [dropFront?, h, Ne.symm h]

/-- The texts before and after the first occurrence of the separator. -/
def cut? (sep : List Char) : List Char → Option (List Char × List Char)
  | [] => (dropFront? sep []).map fun rest => ([], rest)
  | c :: s =>
    match dropFront? sep (c :: s) with
    | some rest => some ([], rest)
    | none => (cut? sep s).map fun (before, after) => (c :: before, after)

theorem eq_append_of_cut? {sep s before after : List Char} (h : cut? sep s = some (before, after)) :
    s = before ++ sep ++ after := by
  induction s generalizing before with
  | nil =>
    obtain ⟨rest, hr, he⟩ := Option.map_eq_some_iff.1 h
    cases he
    simpa using dropFront?_eq_some_iff.1 hr
  | cons c s ih =>
    unfold cut? at h
    split at h
    · next rest hr =>
      cases h
      simpa using dropFront?_eq_some_iff.1 hr
    · obtain ⟨⟨b, a⟩, hc, he⟩ := Option.map_eq_some_iff.1 h
      cases he
      simp [ih hc]

theorem cut?_length_lt {sep s before after : List Char} (hsep : sep ≠ [])
    (h : cut? sep s = some (before, after)) : after.length < s.length := by
  have := List.length_pos_iff.2 hsep
  simp [eq_append_of_cut? h]
  omega

/-- The pieces of a text between the occurrences of a separator. -/
def pieces (sep s : List Char) : List (List Char) :=
  if hsep : sep = [] then [] :: s.map ([·]) ++ [[]]
  else
    match _h : cut? sep s with
    | none => [s]
    | some (before, after) => before :: pieces sep after
termination_by s.length
decreasing_by exact cut?_length_lt hsep _h

/-- The pieces, one after the other, with the separator between them. -/
def joinPieces (sep : List Char) : List (List Char) → List Char
  | [] => []
  | [piece] => piece
  | piece :: more => piece ++ sep ++ joinPieces sep more

def split (sep s : String) : List String := (pieces sep.toList s.toList).map String.ofList

def join (sep : String) (parts : List String) : String :=
  String.ofList (joinPieces sep.toList (parts.map String.toList))

/-- The text after the last occurrence of the separator, or the whole text if there is none. -/
def lastPieceChars (sep s : List Char) : List Char :=
  match cut? sep.reverse s.reverse with
  | none => s
  | some (after, _) => after.reverse

def lastPiece (sep s : String) : String := String.ofList (lastPieceChars sep.toList s.toList)

/-- Whether the text occurs somewhere in another one. -/
def occursIn (needle s : String) : Bool := (cut? needle.toList s.toList).isSome

theorem pieces_ne_nil (sep s : List Char) : pieces sep s ≠ [] := by
  unfold pieces
  split
  · simp
  · split <;> simp

theorem split_ne_nil (sep s : String) : split sep s ≠ [] := by
  simp [split, pieces_ne_nil]

theorem joinPieces_cons_of_ne_nil {sep piece : List Char} {more : List (List Char)}
    (h : more ≠ []) : joinPieces sep (piece :: more) = piece ++ sep ++ joinPieces sep more := by
  cases more with
  | nil => exact absurd rfl h
  | cons _ _ => rfl

/-- Joining undoes cutting. -/
theorem joinPieces_pieces {sep : List Char} (hsep : sep ≠ []) (s : List Char) :
    joinPieces sep (pieces sep s) = s := by
  fun_induction pieces sep s with
  | case1 => contradiction
  | case2 => rfl
  | case3 s _ before after h ih =>
    rw [joinPieces_cons_of_ne_nil (pieces_ne_nil _ _), ih]
    exact (eq_append_of_cut? h).symm

end FieldLookup.Text
