import FieldLookup.Lookup.Request
import Mathlib.Data.Finset.Card

/-!
Entries put into a map one after the other. Main statements: `Ordered.Built.records`, however a map
was built, it knows each name where it was given first and with the value that it was given last;
and `Ordered.built_exact`, which adds what a later insertion changes, and that the entries of a map
build it again.
-/
namespace FieldLookup

theorem eraseDups_snoc {β : Type} [BEq β] [LawfulBEq β] (xs : List β) (x : β) :
    (xs ++ [x]).eraseDups = if x ∈ xs then xs.eraseDups else xs.eraseDups ++ [x] := by
  rw [List.eraseDups_append, List.removeAll, List.filter_singleton]
  by_cases h : x ∈ xs
  · simp [h]
  · simp [h, List.eraseDups_cons]

namespace Ordered

variable {α : Type} {m : Ordered α} {es : List (String × α)} {key : String}

/-! ## One insertion -/

theorem put_of_mem (h : key ∈ es.map (·.1)) (a : α) :
    ∃ front old back, es = front ++ (key, old) :: back ∧
      put key a es = front ++ (key, a) :: back := by
  induction es with
  | nil => cases h
  | cons e rest ih =>
    obtain ⟨k, b⟩ := e
    by_cases hk : k = key
    · subst hk
      exact ⟨[], b, rest, rfl, if_pos rfl⟩
    · have hrest : key ∈ rest.map (·.1) := (List.mem_cons.mp h).resolve_left (Ne.symm hk)
      obtain ⟨front, old, back, rfl, hput⟩ := ih hrest
      refine ⟨(k, b) :: front, old, back, rfl, ?_⟩
      rw [put, if_neg hk, hput, List.cons_append]

/-- A name that is there keeps its place, and only its value is replaced. -/
theorem entries_insert_of_mem (h : key ∈ m.keys) (a : α) :
    ∃ front old back, m.entries = front ++ (key, old) :: back ∧
      (m.insert key a).entries = front ++ (key, a) :: back :=
  put_of_mem h a

theorem entries_insert_of_not_mem (h : key ∉ m.keys) (a : α) :
    (m.insert key a).entries = m.entries ++ [(key, a)] :=
  put_of_not_mem h a

/-! ## Many insertions -/

theorem entries_foldl_insert (m : Ordered α) {es : List (String × α)}
    (hnodup : (es.map (·.1)).Nodup) (h : ∀ key ∈ m.keys, key ∉ es.map (·.1)) :
    (es.foldl (fun m e => m.insert e.1 e.2) m).entries = m.entries ++ es := by
  induction es generalizing m with
  | nil => exact (List.append_nil _).symm
  | cons e es ih =>
    obtain ⟨hnew, hnodup⟩ := List.nodup_cons.mp hnodup
    have hfresh : e.1 ∉ m.keys := fun hmem => h _ hmem List.mem_cons_self
    have hinsert : (m.insert e.1 e.2).entries = m.entries ++ [e] :=
      entries_insert_of_not_mem hfresh e.2
    have hrest : ∀ key ∈ (m.insert e.1 e.2).keys, key ∉ es.map (·.1) := by
      intro key hkey
      rw [keys, hinsert, List.map_append, List.mem_append] at hkey
      rcases hkey with hold | hlast
      · exact (List.ne_and_not_mem_of_not_mem_cons (h key hold)).2
      · rwa [List.mem_singleton.mp hlast]
    rw [List.foldl_cons, ih _ hnodup hrest, hinsert, List.append_assoc, List.singleton_append]

/-- The entries of a map build it again. -/
theorem ofList_entries (m : Ordered α) : ofList m.entries = m := by
  refine eq_of_entries ?_
  rw [ofList, entries_foldl_insert empty m.nodup (by simp [keys, empty])]
  rfl

/-- The map after a sequence of insertions: those of a list made at once, or further ones made
one by one. -/
inductive Built : List (String × α) → Ordered α → Prop
  | collected (es : List (String × α)) : Built es (ofList es)
  | inserted {es : List (String × α)} {m : Ordered α} (h : Built es m) (key : String) (a : α) :
      Built (es ++ [(key, a)]) (m.insert key a)

/-- What a map knows of the entries that it was given: each name where it came first, with the
value that it came with last. -/
structure Records (m : Ordered α) (es : List (String × α)) : Prop where
  keys_eq : m.keys = (es.map (·.1)).eraseDups
  get?_eq : ∀ key, m.get? key = es.reverse.lookup key

theorem records_empty : (empty : Ordered α).Records [] := ⟨rfl, fun _ => rfl⟩

theorem Records.insert (h : m.Records es) (key : String) (a : α) :
    (m.insert key a).Records (es ++ [(key, a)]) := by
  constructor
  · rw [keys_insert, h.keys_eq, List.map_append, List.map_singleton, eraseDups_snoc]
    simp only [List.mem_eraseDups]
  · intro other
    rw [List.reverse_append, List.reverse_singleton, List.singleton_append, lookup_cons]
    split
    · next heq => rw [heq, get?_insert_self]
    · next hne => rw [get?_insert_of_ne m a hne, h.get?_eq]

theorem Records.foldl (h : m.Records es) (more : List (String × α)) :
    (more.foldl (fun m e => m.insert e.1 e.2) m).Records (es ++ more) := by
  induction more generalizing m es with
  | nil => rwa [List.append_nil]
  | cons e more ih =>
    rw [List.foldl_cons, List.append_cons]
    exact ih (h.insert e.1 e.2)

theorem Built.records (h : Built es m) : m.Records es := by
  induction h with
  -- a list made at once is a run of insertions from the empty map
  | collected es => exact records_empty.foldl es
  | inserted _ key a ih => exact ih.insert key a

/-! ## What a map knows of its insertions -/

theorem lookup_reverse_eq_some_iff {a : α} : es.reverse.lookup key = some a ↔
    ∃ before after, es = before ++ (key, a) :: after ∧ key ∉ after.map (·.1) := by
  rw [List.lookup_eq_some_iff]
  constructor
  · rintro ⟨after, before, hes, hafter⟩
    refine ⟨before.reverse, after.reverse, ?_, fun hmem => ?_⟩
    · simpa using congrArg List.reverse hes
    · obtain ⟨e, he, rfl⟩ := List.mem_map.mp hmem
      simpa using hafter e (List.mem_reverse.mp he)
  · rintro ⟨before, after, rfl, hafter⟩
    refine ⟨after.reverse, before.reverse, by simp, fun e he => bne_iff_ne.mpr ?_⟩
    rintro rfl
    exact hafter (List.mem_map_of_mem (List.mem_reverse.mp he))

namespace Records

variable (h : m.Records es)

include h

theorem mem_keys_iff : key ∈ m.keys ↔ key ∈ es.map (·.1) := by
  rw [h.keys_eq, List.mem_eraseDups]

theorem get?_eq_some_iff {a : α} : m.get? key = some a ↔
    ∃ before after, es = before ++ (key, a) :: after ∧ key ∉ after.map (·.1) := by
  rw [h.get?_eq, lookup_reverse_eq_some_iff]

theorem get?_eq_none_iff : m.get? key = none ↔ key ∉ es.map (·.1) := by
  rw [← h.mem_keys_iff, m.mem_keys_iff, Option.eq_none_iff_forall_ne_some, not_exists]

theorem size_eq : m.size = (es.map (·.1)).toFinset.card := by
  have hsame : m.keys.toFinset = (es.map (·.1)).toFinset := by
    ext key
    rw [List.mem_toFinset, List.mem_toFinset, h.mem_keys_iff]
  calc m.size
      _ = m.keys.length := (List.length_map _).symm
      _ = m.keys.toFinset.card := (List.toFinset_card_of_nodup m.nodup).symm
      _ = (es.map (·.1)).toFinset.card := congrArg Finset.card hsame

end Records

/-- Names are distinct and stand in the order in which they were first given. A name has the value
that it was given last, and none if it was never given. There are as many entries as different
names. A name that is given again keeps its place, and no other entry changes. The entries, given
one after the other, make the same map. -/
theorem built_exact (h : Built es m) :
    m.keys.Nodup ∧ m.keys = (es.map (·.1)).eraseDups ∧
      (∀ key, (∀ a, m.get? key = some a ↔
          ∃ before after, es = before ++ (key, a) :: after ∧ key ∉ after.map (·.1)) ∧
        (m.get? key = none ↔ key ∉ es.map (·.1))) ∧
      m.size = (es.map (·.1)).toFinset.card ∧
      (∀ key ∈ m.keys, ∀ a, ∃ front old back, m.entries = front ++ (key, old) :: back ∧
        (m.insert key a).entries = front ++ (key, a) :: back) ∧
      ofList m.entries = m := by
  have hrecords := h.records
  refine ⟨m.nodup, hrecords.keys_eq, fun key => ⟨fun a => ?_, ?_⟩, hrecords.size_eq, ?_, ?_⟩
  · exact hrecords.get?_eq_some_iff
  · exact hrecords.get?_eq_none_iff
  · intro key hkey a
    exact entries_insert_of_mem hkey a
  · exact m.ofList_entries

/-- Lookups of which the first is given again, behind one that comes later. -/
def revised : Lookups :=
  ((ofList [("blog__name", .text "a"), ("id", .int 7)]).insert "views__gt" (.int 10)).insert
    "blog__name" (.text "b")

/-- The theorem at lookups that were collected and then added to. -/
theorem built_exact_revised :
    Built [("blog__name", .text "a"), ("id", .int 7), ("views__gt", .int 10),
        ("blog__name", .text "b")] revised ∧
      revised.keys = ["blog__name", "id", "views__gt"] ∧
      revised.get? "blog__name" = some (.text "b") ∧ revised.get? "name" = none ∧
      revised.size = 3 ∧
      (∃ front old back, revised.entries = front ++ ("id", old) :: back ∧
        (revised.insert "id" .null).entries = front ++ ("id", .null) :: back) ∧
      ofList revised.entries = revised := by
  have hbuilt := ((Built.collected [("blog__name", Value.text "a"), ("id", .int 7)]).inserted
    "views__gt" (.int 10)).inserted "blog__name" (.text "b")
  obtain ⟨-, hkeys, hget, hsize, hinsert, hagain⟩ := built_exact hbuilt
  refine ⟨hbuilt, hkeys.trans (by decide), ?_, ?_, hsize.trans (by decide), ?_, hagain⟩
  · exact ((hget "blog__name").1 _).mpr ⟨_, [], rfl, List.not_mem_nil⟩
  · exact (hget "name").2.mpr (by decide)
  · exact hinsert "id" (hkeys ▸ by decide) .null

end Ordered

end FieldLookup
