import FieldLookup.Pattern.Like
import FieldLookup.Proofs.Searching

/-!
Reading the sources of LIKE patterns. Main statements: `Node.ofText_sourceOfLike`, the source of a
pattern is read as one node for each of its parts between the anchors; and
`Node.ofText_sourceOfLike_eq_error`, which fails only for patterns of very many characters.
-/
namespace FieldLookup.Pattern

/-- What stands for texts in a LIKE pattern: a character for itself, and the wildcards for one
character and for any number of them. -/
inductive LikePart where
  | char (c : Char)
  | one
  | any
  deriving DecidableEq, Repr

namespace LikePart

/-- The parts of a LIKE pattern; a backslash makes the next character stand for itself, and stands
for itself at the end. -/
def ofPattern : List Char → List LikePart
  | [] => []
  | ['\\'] => [char '\\']
  | '\\' :: c :: s => char c :: ofPattern s
  | '%' :: s => any :: ofPattern s
  | '_' :: s => one :: ofPattern s
  | c :: s => char c :: ofPattern s

/-- What the part is in the source of a regular expression. -/
def source : LikePart → List Char
  | char c => quoteChar c
  | one => ['.']
  | any => ['.', '*']

/-- The expression of the part. -/
def node (flags : Flags) : LikePart → Node
  | char c => flags.literal c
  | one => flags.dot
  | any => .times 0 none flags.dot

theorem likeBody_eq (s : List Char) : likeBody s = (ofPattern s).flatMap source := by
  fun_induction likeBody s with
  | case1 | case2 => rfl
  | case3 c s ih | case4 s ih | case5 s ih =>
    rw [ih]
    rfl
  | case6 c s h1 h2 h3 h4 ih =>
    -- neither a backslash nor a wildcard
    rw [ih, ofPattern]
    · rfl
    all_goals assumption

theorem length_ofPattern_le (s : List Char) : (ofPattern s).length ≤ s.length := by
  fun_induction ofPattern s <;> simp only [List.length_cons, List.length_nil] <;> omega

end LikePart

/-! ## Reading -/

/-- A backslash makes each character literal that has a meaning. -/
theorem escape_of_mem_metaChars (flags : Flags) {c : Char} (h : c ∈ metaChars) (s : List Char) :
    escape flags (c :: s) = .ok (flags.literal c, s) := by
  simp only [metaChars, List.mem_cons, List.not_mem_nil, or_false] at h
  rcases h with rfl | rfl | rfl | rfl | rfl | rfl | rfl | rfl | rfl | rfl | rfl | rfl | rfl | rfl |
    rfl | rfl | rfl | rfl <;> rfl

variable {flags : Flags} {p : Partly} {opened : Opened}

/-- Nothing is skipped but in verbose expressions. -/
theorem Flags.skip_eq (hflags : flags.verbose = false) (s : List Char) : flags.skip s = s := by
  rw [skip, hflags, if_neg Bool.false_ne_true]

theorem expression_quoteChar (hflags : flags.verbose = false) (left nesting : Nat) (c : Char)
    (s : List Char) :
    expression (left + 1) nesting flags p opened (quoteChar c ++ s) =
      expression left nesting flags (p.push (flags.literal c)) opened s := by
  unfold quoteChar
  rw [expression, Flags.skip_eq hflags]
  by_cases h : c ∈ metaChars
  · rw [if_pos h]
    dsimp only [List.cons_append, List.nil_append]
    rw [escape_of_mem_metaChars flags h]
    rfl
  · rw [if_neg h]
    dsimp only [List.cons_append, List.nil_append]
    simp only [metaChars, List.mem_cons, List.not_mem_nil, or_false, not_or] at h
    split <;> simp_all

theorem expression_dot (hflags : flags.verbose = false) (left nesting : Nat) (s : List Char) :
    expression (left + 1) nesting flags p opened ('.' :: s) =
      expression left nesting flags (p.push flags.dot) opened s := by
  rw [expression, Flags.skip_eq hflags]
  rfl

/-- A star repeats the last item; a question mark behind it would make no difference. -/
theorem expression_star (hflags : flags.verbose = false) (left nesting : Nat) (node : Node)
    {s : List Char} (hs : s.head? ≠ some '?') :
    expression (left + 1) nesting flags (p.push node) opened ('*' :: s) =
      expression left nesting flags (p.push (.times 0 none node)) opened s := by
  have hlazy : dropLazy s = s := by
    unfold dropLazy
    split
    · exact absurd rfl hs
    · rfl
  rw [expression, Flags.skip_eq hflags]
  dsimp only
  rw [hlazy]
  rfl

namespace LikePart

theorem head?_source_append (part : LikePart) (s : List Char) :
    (part.source ++ s).head? ≠ some '?' := by
  cases part with
  | char c =>
    unfold source quoteChar
    by_cases h : c ∈ metaChars
    · simp [h]
    · have hc : c ≠ '?' := by
        rintro rfl
        exact h (by decide)
      simp [h, hc]
  | one | any => simp [source]

theorem length_quoteChar_pos (c : Char) : 0 < (quoteChar c).length := by
  unfold quoteChar
  split <;> simp

/-- The source of a part is read as its expression. -/
theorem expression_source (hflags : flags.verbose = false) (nesting : Nat) (p : Partly)
    (opened : Opened) (part : LikePart) {left : Nat} {s : List Char} (hs : s.head? ≠ some '?')
    (hleft : (part.source ++ s).length < left) :
    ∃ left', s.length < left' ∧
      expression left nesting flags p opened (part.source ++ s) =
        expression left' nesting flags (p.push (part.node flags)) opened s := by
  obtain ⟨left, rfl⟩ : ∃ n, left = n + 1 := ⟨left - 1, by omega⟩
  rw [List.length_append] at hleft
  cases part with
  | char c =>
    have hpos := length_quoteChar_pos c
    rw [source] at hleft
    exact ⟨left, by omega, expression_quoteChar hflags left nesting c s⟩
  | one =>
    rw [source, List.length_singleton] at hleft
    exact ⟨left, by omega, expression_dot hflags left nesting s⟩
  | any =>
    rw [source, List.length_cons, List.length_singleton] at hleft
    obtain ⟨left, rfl⟩ : ∃ n, left = n + 1 := ⟨left - 1, by omega⟩
    refine ⟨left, by omega, ?_⟩
    exact (expression_dot hflags _ nesting _).trans (expression_star hflags left nesting _ hs)

/-- The sources of parts are read as their expressions, by induction on the parts. -/
theorem expression_sources (hflags : flags.verbose = false) (nesting : Nat) (p : Partly)
    (opened : Opened) (parts : List LikePart) {left : Nat} {s : List Char}
    (hs : s.head? ≠ some '?') (hleft : (parts.flatMap source ++ s).length < left) :
    ∃ left', s.length < left' ∧
      expression left nesting flags p opened (parts.flatMap source ++ s) =
        expression left' nesting flags ⟨p.branches, (parts.map (node flags)).reverse ++ p.items⟩
          opened s := by
  induction parts generalizing left p with
  | nil => exact ⟨left, hleft, rfl⟩
  | cons part parts ih =>
    have hhead : (parts.flatMap source ++ s).head? ≠ some '?' := by
      cases parts with
      | nil => exact hs
      | cons next rest =>
        rw [List.flatMap_cons, List.append_assoc]
        exact next.head?_source_append _
    rw [List.flatMap_cons, List.append_assoc] at hleft ⊢
    obtain ⟨left₁, hleft₁, hfirst⟩ := expression_source hflags nesting p opened part hhead hleft
    obtain ⟨left₂, hleft₂, hrest⟩ := ih (p.push (part.node flags)) hleft₁
    refine ⟨left₂, hleft₂, hfirst.trans (hrest.trans ?_)⟩
    rw [List.map_cons, List.reverse_cons, List.append_assoc]
    rfl

end LikePart

/-- The flags of LIKE patterns, in which a point is any character. -/
def likeFlags (ignoreCase : Bool) : Flags :=
  { Flags.initial with ignoreCase := ignoreCase, dotAll := true }

/-- Flags in parentheses hold from there on. -/
theorem expression_flags (hflags : flags.verbose = false) (left nesting : Nat) {inner : Flags}
    {s rest : List Char} (hopening : opening flags opened s = .ok (.flags inner, rest)) :
    expression (left + 1) nesting flags p opened ('(' :: s) =
      expression left nesting inner p opened rest.tail := by
  rw [expression, Flags.skip_eq hflags]
  dsimp only
  rw [hopening]
  rfl

/-- The flags of a LIKE pattern and the anchor at its start are read first. -/
theorem expression_prefix (ignoreCase : Bool) (left : Nat) (s : List Char) :
    expression (left + 2) 0 Flags.initial Partly.start opened
        ((if ignoreCase then "(?is)^" else "(?s)^").toList ++ s) =
      expression left 0 (likeFlags ignoreCase) (Partly.start.push (.look .start)) opened s := by
  have hplain : "(?s)^".toList = ['(', '?', 's', ')', '^'] := by decide
  have hignore : "(?is)^".toList = ['(', '?', 'i', 's', ')', '^'] := by decide
  cases ignoreCase with
  | false =>
    have hopening : opening Flags.initial opened ('?' :: 's' :: ')' :: '^' :: s) =
        if (')' :: '^' :: s).length = ('s' :: ')' :: '^' :: s).length then .error .flagsEmpty
        else .ok (.flags (likeFlags false), ')' :: '^' :: s) := rfl
    rw [if_neg (by simp)] at hopening
    rw [if_neg Bool.false_ne_true, hplain]
    exact (expression_flags rfl _ _ hopening).trans rfl
  | true =>
    have hopening : opening Flags.initial opened ('?' :: 'i' :: 's' :: ')' :: '^' :: s) =
        if (')' :: '^' :: s).length = ('i' :: 's' :: ')' :: '^' :: s).length then .error .flagsEmpty
        else .ok (.flags (likeFlags true), ')' :: '^' :: s) := rfl
    rw [if_neg (by simp)] at hopening
    rw [if_pos rfl, hignore]
    exact (expression_flags rfl _ _ hopening).trans rfl

/-- The anchor at the end of a LIKE pattern is read last. -/
theorem expression_suffix (hflags : flags.verbose = false) (hlines : flags.multiLine = false)
    (left : Nat) :
    expression (left + 2) 0 flags p opened ['$'] =
      .ok (((p.push (.look .stop)).whole, opened), []) := by
  have hdollar : expression (left + 2) 0 flags p opened ['$'] =
      expression (left + 1) 0 flags (p.push flags.dollar) opened [] := by
    rw [expression, Flags.skip_eq hflags]
    rfl
  rw [hdollar, expression, Flags.skip_eq hflags, Flags.dollar, hlines]
  rfl

/-- Anchors around expressions are read as one sequence. -/
theorem whole_anchored (nodes : List Node) :
    (Partly.push ⟨[], nodes.reverse ++ [.look .start]⟩ (.look .stop)).whole =
      Node.anchored nodes := by
  have hreverse : (Node.look .stop :: (nodes.reverse ++ [.look .start])).reverse =
      .look .start :: (nodes ++ [.look .stop]) := by
    simp
  rw [Partly.whole, Partly.branch, Partly.push, hreverse]
  cases nodes <;> rfl

/-- The source of a LIKE pattern is read as the expressions of its parts between the anchors. -/
theorem Node.ofText_sourceOfLike (pattern : String) (ignoreCase : Bool) :
    Node.ofText (sourceOfLike pattern ignoreCase) =
      (anchored ((LikePart.ofPattern pattern.toList).map
        (LikePart.node (likeFlags ignoreCase)))).checked := by
  have hsource : (sourceOfLike pattern ignoreCase).toList =
      (if ignoreCase then "(?is)^" else "(?s)^").toList ++
        ((LikePart.ofPattern pattern.toList).flatMap LikePart.source ++ ['$']) := by
    rw [sourceOfLike, String.toList_append, String.toList_append, String.toList_ofList,
      LikePart.likeBody_eq, List.append_assoc]
    rfl
  have hprefix : 2 ≤ (if ignoreCase then "(?is)^" else "(?s)^").toList.length := by
    cases ignoreCase <;> decide
  have hlength := congrArg List.length hsource
  rw [List.length_append] at hlength
  obtain ⟨left, hleft⟩ : ∃ n, (sourceOfLike pattern ignoreCase).toList.length + 1 = n + 2 :=
    ⟨(sourceOfLike pattern ignoreCase).toList.length - 1, by omega⟩
  have hdollar : ['$'].head? ≠ some '?' := by decide
  have hflags : (likeFlags ignoreCase).verbose = false := rfl
  obtain ⟨left', hleft', hparts⟩ := LikePart.expression_sources hflags 0
    (Partly.start.push (.look .start)) ⟨0, []⟩ (LikePart.ofPattern pattern.toList) hdollar
    (show _ < left by omega)
  obtain ⟨last, rfl⟩ : ∃ n, left' = n + 2 := by
    rw [List.length_singleton] at hleft'
    exact ⟨left' - 2, by omega⟩
  rw [Node.ofText, Node.ofChars, hleft, hsource, expression_prefix, hparts,
    expression_suffix hflags rfl]
  exact congrArg checked (whole_anchored _)

/-! ## Size -/

namespace Node

variable {nodes : List Node} {k : Nat}

theorem bytesOfAll_append (front back : List Node) :
    bytesOfAll (front ++ back) = bytesOfAll front + bytesOfAll back := by
  induction front with
  | nil => exact (Nat.zero_add _).symm
  | cons sub rest ih => rw [List.cons_append, bytesOfAll, ih, bytesOfAll, Nat.add_assoc]

theorem bytesOfAll_le (h : ∀ node ∈ nodes, node.bytes ≤ k) :
    bytesOfAll nodes ≤ k * nodes.length := by
  induction nodes with
  | nil => exact Nat.zero_le _
  | cons sub rest ih =>
    obtain ⟨hsub, hrest⟩ := List.forall_mem_cons.mp h
    have := ih hrest
    rw [bytesOfAll, List.length_cons, Nat.mul_succ]
    omega

theorem depthOfAll_append (front back : List Node) :
    depthOfAll (front ++ back) = max (depthOfAll front) (depthOfAll back) := by
  induction front with
  | nil => exact (Nat.zero_max _).symm
  | cons sub rest ih => rw [List.cons_append, depthOfAll, ih, depthOfAll, Nat.max_assoc]

theorem depthOfAll_le (h : ∀ node ∈ nodes, node.depth ≤ k) : depthOfAll nodes ≤ k := by
  induction nodes with
  | nil => exact Nat.zero_le _
  | cons sub rest ih =>
    obtain ⟨hsub, hrest⟩ := List.forall_mem_cons.mp h
    exact Nat.max_le.mpr ⟨hsub, ih hrest⟩

theorem groupsOfAll_append (front back : List Node) :
    groupsOfAll (front ++ back) = groupsOfAll front ++ groupsOfAll back := by
  induction front with
  | nil => rfl
  | cons sub rest ih => rw [List.cons_append, groupsOfAll, ih, groupsOfAll, List.append_assoc]

theorem groupsOfAll_eq_nil (h : ∀ node ∈ nodes, node.groups = []) : groupsOfAll nodes = [] := by
  induction nodes with
  | nil => rfl
  | cons sub rest ih =>
    obtain ⟨hsub, hrest⟩ := List.forall_mem_cons.mp h
    rw [groupsOfAll, hsub, ih hrest, List.append_nil]

/-- Anchored expressions without groups are admitted unless they are deep or many. -/
theorem checked_anchored_eq_error (hdepth : ∀ node ∈ nodes, node.depth ≤ 1)
    (hgroups : ∀ node ∈ nodes, node.groups = []) (hbytes : ∀ node ∈ nodes, node.bytes ≤ k)
    {e : PatternError} (h : (anchored nodes).checked = .error e) :
    e = .tooLarge ∧ largest < k * nodes.length + 176 := by
  have hshallow : (anchored nodes).depth ≤ 2 := by
    have := depthOfAll_le hdepth
    simp only [anchored, depth, depthOfAll_append, depthOfAll, List.cons_append]
    omega
  have hflat : (anchored nodes).groups = [] := by
    simp only [anchored, groups, groupsOfAll_append, groupsOfAll, List.cons_append,
      groupsOfAll_eq_nil hgroups, List.append_nil]
  have hsize : (anchored nodes).machineBytes ≤ k * nodes.length + 176 := by
    have hsum := bytesOfAll_le hbytes
    have hself : (anchored nodes).bytes = stateBytes + (bytesOfAll nodes + stateBytes) :=
      calc (anchored nodes).bytes
        _ = 1 * bytesOfAll (.look .start :: (nodes ++ [.look .stop])) := rfl
        _ = stateBytes + bytesOfAll (nodes ++ [.look .stop]) := Nat.one_mul _
        _ = stateBytes + (bytesOfAll nodes + stateBytes) := by rw [bytesOfAll_append]; rfl
    have htable : tableBytes [] = 16 := rfl
    rw [machineBytes, hflat, hself, htable, stateBytes]
    omega
  unfold checked at h
  split at h
  · next hdeep =>
    rw [deepest] at hdeep
    omega
  · split at h
    · next hlarge => exact ⟨(Except.error.inj h).symm, by omega⟩
    · cases h

end Node

namespace LikePart

theorem literal_cases (flags : Flags) (c : Char) :
    flags.literal c = .char c ∨ ∃ k : CharClass, k.length ≤ 2 ∧ flags.literal c = .oneOf k := by
  unfold Flags.literal
  split
  · next d _ =>
    split
    · exact Or.inr ⟨_, CharClass.length_ofRanges_le (CharClass.single c ++ CharClass.single d), rfl⟩
    · exact Or.inl rfl
  · exact Or.inl rfl

variable (flags : Flags) (part : LikePart)

theorem depth_node_le : (part.node flags).depth ≤ 1 := by
  cases part with
  | char c =>
    rw [node]
    obtain h | ⟨k, -, h⟩ := literal_cases flags c <;> rw [h, Node.depth] <;> omega
  | one =>
    rw [node, Flags.dot, Node.depth]
    omega
  | any =>
    rw [node, Node.depth, Flags.dot, Node.depth]

theorem groups_node : (part.node flags).groups = [] := by
  cases part with
  | char c =>
    rw [node]
    obtain h | ⟨k, -, h⟩ := literal_cases flags c <;> rw [h, Node.groups]
  | one | any => rfl

/-- A repeated point takes most: a state with the range of all characters, and a loop. -/
theorem bytes_node_le (hdot : flags.dotAll = true) : (part.node flags).bytes ≤ 80 := by
  have hany : flags.dot = .oneOf CharClass.any := by
    rw [Flags.dot, hdot]
    rfl
  cases part with
  | char c =>
    rw [node]
    obtain h | ⟨k, hk, h⟩ := literal_cases flags c
    · rw [h]
      exact (by decide : 32 ≤ 80)
    · rw [h, Node.bytes, Node.stateBytes, Node.rangeBytes]
      omega
  | one =>
    rw [node, hany]
    decide
  | any =>
    rw [node, hany]
    decide

end LikePart

/-- Reading the source of a LIKE pattern fails only for a pattern of so many characters that the
expression may be too large. -/
theorem Node.ofText_sourceOfLike_eq_error {pattern : String} {ignoreCase : Bool} {e : PatternError}
    (h : Node.ofText (sourceOfLike pattern ignoreCase) = .error e) :
    e = .tooLarge ∧ 131069 < pattern.toList.length := by
  rw [ofText_sourceOfLike] at h
  have hlength := LikePart.length_ofPattern_le pattern.toList
  obtain ⟨he, hlarge⟩ := checked_anchored_eq_error
    (List.forall_mem_map.mpr fun part _ => part.depth_node_le _)
    (List.forall_mem_map.mpr fun part _ => part.groups_node _)
    (List.forall_mem_map.mpr fun part _ => part.bytes_node_le _ rfl) h
  rw [List.length_map, largest] at hlarge
  refine ⟨he, ?_⟩
  omega

end FieldLookup.Pattern
