/-!
Maps from names to values that keep the order in which names were first given. Main statements:
`keys_insert`, `get?_insert_self`, `get?_insert_of_ne`, `get?_erase`, `lookup_sorted` and
`pairwise_sorted`.
-/
namespace FieldLookup

/-- Entries with distinct names. -/
structure Ordered (α : Type) where
  entries : List (String × α)
  nodup : (entries.map (·.1)).Nodup

namespace Ordered

variable {α : Type}

/-- Replaces the entry of a name, or adds one at the end. -/
def put (key : String) (a : α) : List (String × α) → List (String × α)
  | [] => [(key, a)]
  | (k, b) :: rest => if k = key then (key, a) :: rest else (k, b) :: put key a rest

theorem keys_put (key : String) (a : α) (es : List (String × α)) :
    (put key a es).map (·.1) =
      if key ∈ es.map (·.1) then es.map (·.1) else es.map (·.1) ++ [key] := by
  induction es with
  | nil => rfl
  | cons e rest ih =>
    obtain ⟨k, b⟩ := e
    by_cases h : k = key
    · simp [put, h]
    · have h' : key ≠ k := fun e => h e.symm
      simp only [put, h, if_false, List.map_cons, ih, List.mem_cons, h', false_or]
      split <;> rfl

theorem put_of_not_mem {key : String} {es : List (String × α)} (h : key ∉ es.map (·.1)) (a : α) :
    put key a es = es ++ [(key, a)] := by
  induction es with
  | nil => rfl
  | cons e es ih =>
    obtain ⟨hne, hes⟩ := List.ne_and_not_mem_of_not_mem_cons h
    rw [put, if_neg hne.symm, ih hes, List.cons_append]

theorem nodup_put {key : String} {a : α} {es : List (String × α)} (h : (es.map (·.1)).Nodup) :
    ((put key a es).map (·.1)).Nodup := by
  rw [keys_put]
  split
  · exact h
  · next hk =>
    refine List.nodup_append.2 ⟨h, by simp, ?_⟩
    intro x hx y hy
    rw [List.mem_singleton.1 hy]
    exact fun e => hk (e ▸ hx)

def empty : Ordered α := ⟨[], by simp⟩

def insert (m : Ordered α) (key : String) (a : α) : Ordered α :=
  ⟨put key a m.entries, nodup_put m.nodup⟩

def erase (m : Ordered α) (key : String) : Ordered α :=
  ⟨m.entries.filter (·.1 ≠ key), (List.filter_sublist.map _).nodup m.nodup⟩

def get? (m : Ordered α) (key : String) : Option α := m.entries.lookup key

def contains (m : Ordered α) (key : String) : Bool := (m.get? key).isSome

def keys (m : Ordered α) : List String := m.entries.map (·.1)

def size (m : Ordered α) : Nat := m.entries.length

/-- The entries given one after the other, a later one replacing an earlier one of its name. -/
def ofList (es : List (String × α)) : Ordered α := es.foldl (fun m e => m.insert e.1 e.2) empty

/-- The entries in the order of their names. -/
def sorted (m : Ordered α) : List (String × α) :=
  m.entries.mergeSort fun a b => a.1 ≤ b.1

theorem eq_of_entries {m n : Ordered α} (h : m.entries = n.entries) : m = n := by
  cases m
  cases n
  cases h
  rfl

theorem keys_insert (m : Ordered α) (key : String) (a : α) :
    (m.insert key a).keys = if key ∈ m.keys then m.keys else m.keys ++ [key] :=
  keys_put key a m.entries

theorem lookup_cons (key k : String) (a : α) (es : List (String × α)) :
    ((k, a) :: es).lookup key = if key = k then some a else es.lookup key := by
  by_cases h : key = k
  · simp [h]
  · simp [List.lookup_cons, beq_eq_false_iff_ne.mpr h, h]

theorem lookup_eq_none_of_not_mem {es : List (String × α)} {key : String}
    (h : key ∉ es.map (·.1)) : es.lookup key = none := by
  refine List.lookup_eq_none_iff.mpr fun e he => bne_iff_ne.mpr fun heq => h ?_
  exact List.mem_map.mpr ⟨e, he, heq.symm⟩

theorem lookup_eq_some_iff {es : List (String × α)} (h : (es.map (·.1)).Nodup) {key : String}
    {a : α} : es.lookup key = some a ↔ (key, a) ∈ es := by
  induction es with
  | nil => simp
  | cons e es ih =>
    obtain ⟨k, b⟩ := e
    obtain ⟨hk, hes⟩ := List.nodup_cons.mp h
    rw [lookup_cons, List.mem_cons, Prod.mk.injEq]
    by_cases heq : key = k
    · subst heq
      have hnot : (key, a) ∉ es := fun hmem => hk (List.mem_map.mpr ⟨_, hmem, rfl⟩)
      simp [hnot, eq_comm]
    · simp [heq, ih hes]

theorem lookup_put_self (key : String) (a : α) (es : List (String × α)) :
    (put key a es).lookup key = some a := by
  induction es with
  | nil => simp [put]
  | cons e rest ih =>
    obtain ⟨k, b⟩ := e
    by_cases h : k = key
    · simp [put, h]
    · simp [put, h, lookup_cons, Ne.symm h, ih]

theorem lookup_put_of_ne {key other : String} (a : α) (h : other ≠ key) (es : List (String × α)) :
    (put key a es).lookup other = es.lookup other := by
  induction es with
  | nil => simp [put, lookup_cons, h]
  | cons e rest ih =>
    obtain ⟨k, b⟩ := e
    by_cases hk : k = key
    · simp [put, hk, lookup_cons, h]
    · simp [put, hk, lookup_cons, ih]

@[simp] theorem get?_insert_self (m : Ordered α) (key : String) (a : α) :
    (m.insert key a).get? key = some a :=
  lookup_put_self key a m.entries

theorem get?_insert_of_ne (m : Ordered α) {key other : String} (a : α) (h : other ≠ key) :
    (m.insert key a).get? other = m.get? other :=
  lookup_put_of_ne a h m.entries

theorem get?_eq_some_iff (m : Ordered α) {key : String} {a : α} :
    m.get? key = some a ↔ (key, a) ∈ m.entries :=
  lookup_eq_some_iff m.nodup

theorem get?_erase (m : Ordered α) (key other : String) :
    (m.erase key).get? other = if other = key then none else m.get? other := by
  refine Option.ext fun a => ?_
  rw [get?_eq_some_iff, erase, List.mem_filter, decide_eq_true_eq, ← get?_eq_some_iff]
  split <;> simp_all

theorem mem_keys_iff (m : Ordered α) {key : String} :
    key ∈ m.keys ↔ ∃ a, m.get? key = some a := by
  simp [keys, get?_eq_some_iff]

theorem sorted_perm (m : Ordered α) : m.sorted.Perm m.entries := List.mergeSort_perm _ _

theorem nodup_sorted (m : Ordered α) : (m.sorted.map (·.1)).Nodup :=
  (m.sorted_perm.map _).nodup_iff.mpr m.nodup

/-- What is found does not depend on the order of the entries. -/
theorem lookup_sorted (m : Ordered α) (key : String) : m.sorted.lookup key = m.get? key := by
  refine Option.ext fun a => ?_
  rw [get?_eq_some_iff, lookup_eq_some_iff m.nodup_sorted]
  exact m.sorted_perm.mem_iff

theorem mem_sorted_iff (m : Ordered α) {key : String} {a : α} :
    (key, a) ∈ m.sorted ↔ m.get? key = some a := by
  rw [← lookup_sorted, lookup_eq_some_iff m.nodup_sorted]

/-- No name comes twice, so the order of the names is strict. -/
theorem pairwise_sorted (m : Ordered α) : m.sorted.Pairwise fun a b => a.1 < b.1 := by
  have hle : m.sorted.Pairwise fun a b => decide (a.1 ≤ b.1) = true := by
    refine List.pairwise_mergeSort (fun a b c hab hbc => ?_) (fun a b => ?_) m.entries
    · exact decide_eq_true (String.le_trans (of_decide_eq_true hab) (of_decide_eq_true hbc))
    · simpa using String.le_total a.1 b.1
  have hne : m.sorted.Pairwise fun a b => a.1 ≠ b.1 := List.pairwise_map.mp m.nodup_sorted
  exact hle.imp₂ (fun _ _ h hn => Std.lt_of_le_of_ne (of_decide_eq_true h) hn) hne

/-- In front of an entry stand those with a name below its own. -/
theorem mem_front_iff {m : Ordered α} {front back : List (String × α)} {e a : String × α}
    (h : m.sorted = front ++ e :: back) : a ∈ front ↔ m.get? a.1 = some a.2 ∧ a.1 < e.1 := by
  obtain ⟨-, hback, hfront⟩ := List.pairwise_append.mp (h ▸ m.pairwise_sorted)
  rw [← mem_sorted_iff, h]
  constructor
  · intro ha
    exact ⟨List.mem_append_left _ ha, hfront a ha e List.mem_cons_self⟩
  · rintro ⟨ha, hlt⟩
    refine (List.mem_append.mp ha).resolve_right fun hrest => ?_
    rcases List.mem_cons.mp hrest with rfl | hbehind
    · exact String.lt_irrefl _ hlt
    · exact String.lt_asymm hlt (List.rel_of_pairwise_cons hback hbehind)

end Ordered

end FieldLookup
