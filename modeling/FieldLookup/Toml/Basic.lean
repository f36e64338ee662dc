import FieldLookup.Binary64.Basic

/-!
Documents of TOML as trees, and the growth of a table by keys and headers. A table remembers how it
came to be: a table that a header names, or that stands inline, is complete as a key sees it, while
one that only the names of others imply may still get a header of its own.
-/
namespace FieldLookup

/-- How a table came to be. -/
inductive TableKind where
  | inline
  | header
  | implied
  | dotted
  deriving DecidableEq, Repr

inductive Toml where
  | text (s : String)
  | integer (n : Int)
  | number (x : Binary64)
  | bool (b : Bool)
  | dateTime (text : String)
  | array (items : List Toml)
  | table (kind : TableKind) (entries : List (String × Toml))
  | tables (elements : List (List (String × Toml)))

namespace Toml

abbrev Entries := List (String × Toml)

/-- Replaces the entry of a name, or adds one at the end. -/
def put (key : String) (t : Toml) : Entries → Entries
  | [] => [(key, t)]
  | (k, u) :: rest => if k = key then (key, t) :: rest else (k, u) :: put key t rest

/-- Changes the table at a path. A name that is missing on the way gets a table; of an array of
tables the last one is meant. Keys with dots go through no table that has a header, and nothing goes
through inline tables and other values. -/
def update (dotted : Bool) (change : TableKind → Entries → Option Entries) :
    List String → TableKind → Entries → Option Entries
  | [], kind, es => change kind es
  | key :: path, _, es =>
    match es.lookup key with
    | none =>
      let kind := if dotted then .dotted else .implied
      (update dotted change path kind []).map fun inner => put key (table kind inner) es
    | some (table kind inner) =>
      if kind = .inline ∨ (dotted ∧ kind = .header) then none
      else (update dotted change path kind inner).map fun inner => put key (table kind inner) es
    | some (tables elements) =>
      (elements.getLast?).bind fun inner =>
        (update dotted change path .header inner).map fun inner =>
          put key (tables (elements.dropLast ++ [inner])) es
    | some _ => none

/-- Adds a key to a table; no key is given twice. -/
def addKey (key : String) (t : Toml) (es : Entries) : Option Entries :=
  if (es.lookup key).isSome then none else some (put key t es)

/-- Adds a value under a key with dots. A key with dots ends in a table made by such keys only. -/
def addDotted (path : List String) (key : String) (t : Toml) (kind : TableKind) (es : Entries) :
    Option Entries :=
  update true (fun kind es =>
    if path ≠ [] ∧ kind ≠ .dotted then none else addKey key t es) path kind es

/-- Gives a table a header. -/
def openTable (path : List String) (key : String) (es : Entries) : Option Entries :=
  update false (fun _ es =>
    match es.lookup key with
    | none => some (put key (table .header []) es)
    | some (table .implied inner) => some (put key (table .header inner) es)
    | some _ => none) path .header es

/-- Adds a table to an array of tables. -/
def openElement (path : List String) (key : String) (es : Entries) : Option Entries :=
  update false (fun _ es =>
    match es.lookup key with
    | none => some (put key (tables [[]]) es)
    | some (tables elements) => some (put key (tables (elements ++ [[]])) es)
    | some _ => none) path .header es

end Toml

end FieldLookup
