import FieldLookup.Lookup.OperatorTable
import FieldLookup.Proofs.Checked

/-!
What tokens select. Main statement: `OperatorTable.find?_ofSettings`, a table that settings describe
finds no operator for a disabled token, that of its target for an alias, and the built-in one for
any other token.
-/
namespace FieldLookup

namespace Operator

theorem ofToken?_eq_some_iff {token : String} {op : Operator} :
    ofToken? token = some op ↔ op.token = token := by
  constructor
  · intro h
    simpa using List.find?_some h
  · rintro rfl
    exact ofToken?_token op

theorem underscore_not_mem_token (op : Operator) : '_' ∉ op.token.toList := by
  cases op <;> decide

end Operator

namespace OperatorTable

theorem find?_insert (t : OperatorTable) (token other : String) (op : Operator) :
    (t.insert token op).find? other = if other = token then some op else t.find? other := by
  split
  · next h => exact h ▸ Ordered.get?_insert_self t.tokens token op
  · next h => exact Ordered.get?_insert_of_ne t.tokens op h

theorem lookup_map_token (ops : List Operator) (token : String) :
    (ops.map fun op => (op.token, op)).lookup token = ops.find? (·.token = token) := by
  induction ops with
  | nil => rfl
  | cons op ops ih =>
    rw [List.map_cons, Ordered.lookup_cons, List.find?_cons, ih]
    by_cases h : token = op.token <;> simp [h, eq_comm]

theorem find?_standard (token : String) : standard.find? token = Operator.ofToken? token := by
  have hentries : standard.tokens.entries = Operator.all.map fun op => (op.token, op) := rfl
  rw [find?, Ordered.get?, hentries, lookup_map_token, Operator.ofToken?]

/-- An alias selects what its target does, any other token what it did before. -/
theorem find?_of_addAliases {t u : OperatorTable} {es : List (String × String)}
    (hnodup : (es.map (·.1)).Nodup) (h : t.addAliases es = .ok u) (token : String) :
    u.find? token =
      match es.lookup token with
      | some target => Operator.ofToken? target
      | none => t.find? token := by
  induction es generalizing t with
  | nil =>
    cases h
    rfl
  | cons e es ih =>
    obtain ⟨name, target⟩ := e
    obtain ⟨hname, hes⟩ := List.nodup_cons.mp hnodup
    rw [addAliases] at h
    split at h
    · next op hop =>
      rw [ih hes h, find?_insert, Ordered.lookup_cons]
      by_cases heq : token = name
      · simp [heq, Ordered.lookup_eq_none_of_not_mem hname, hop]
      · simp [heq]
    · cases h

theorem find?_erase (t : OperatorTable) (name token : String) :
    (t.erase name).find? token = if token = name then none else t.find? token :=
  Ordered.get?_erase t.tokens name token

theorem find?_foldl_erase (names : List String) (t : OperatorTable) (token : String) :
    (names.foldl erase t).find? token = if token ∈ names then none else t.find? token := by
  induction names generalizing t with
  | nil => simp
  | cons name names ih =>
    rw [List.foldl_cons, ih, find?_erase]
    by_cases h : token = name <;> simp [h]

/-- What the settings say of a token is what the table finds. -/
theorem find?_ofSettings {s : Settings} {t : OperatorTable} (h : ofSettings s = .ok t)
    (token : String) :
    t.find? token =
      if token ∈ s.disabled then none
      else
        match s.aliases.get? token with
        | some target => Operator.ofToken? target
        | none => Operator.ofToken? token := by
  obtain ⟨u, hu, ht⟩ := Checked.bind_eq_ok_iff.mp h
  cases ht
  rw [find?_foldl_erase, find?_of_addAliases s.aliases.nodup_sorted hu, Ordered.lookup_sorted,
    find?_standard]

end OperatorTable

end FieldLookup
