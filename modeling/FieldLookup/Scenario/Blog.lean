import FieldLookup.Lookup.Compiler
import FieldLookup.Schema.Draft
import FieldLookup.Store.Basic

/-!
A blog as an example: authors, blogs, posts and comments with a few rows of each.
-/
namespace FieldLookup

/-- A schema and a store of its rows. -/
structure Dataset where
  schema : Schema
  store : Store

namespace Blog

def key (name : String) : Attribute := ⟨name, .int, false, true⟩

def field (name : String) (type : ScalarType) : Attribute := ⟨name, type, false, false⟩

def optional (name : String) (type : ScalarType) : Attribute := ⟨name, type, true, false⟩

def entities : List (String × List Attribute) :=
  [("Author", [key "id", field "name" .text, optional "email" .text]),
   ("Blog", [key "id", field "name" .text, optional "owner_id" .int]),
   ("Post",
    [key "id", field "blog_id" .int, optional "author_id" .int, field "title" .text,
     optional "body" .text, field "views" .int, optional "rating" .float, field "published" .bool,
     field "pub_date" .date, field "created_at" .timestamp]),
   ("Comment", [key "id", field "post_id" .int, field "text" .text])]

/-- A relation to the one row whose `id` a field holds, with an inverse. -/
def toOne (source name target near backref : String) : RelationDecl :=
  ⟨source, name, target, some ⟨.toOne, near, "id"⟩, some backref⟩

def relations : List RelationDecl :=
  [toOne "Blog" "owner" "Author" "owner_id" "blogs", toOne "Post" "blog" "Blog" "blog_id" "posts",
   toOne "Post" "author" "Author" "author_id" "posts",
   toOne "Comment" "post" "Post" "post_id" "comments"]

def draft : Except SchemaError Draft := do
  let d ← entities.foldlM (fun d (name, fields) => do
    let (result, d) := d.entity name fields
    let _ ← result
    return d) Draft.empty
  relations.foldlM (fun d decl => do return (← d.relation decl).2) d

def schema : Except SchemaError Schema := do (← draft).build

/-! ## Rows -/

def num (n : Int) : Value := .int (Int64.ofInt n)

def instant (ms : Int) : Value := .timestamp (Int64.ofInt ms)

def day (year : Int) (month day : Nat) : Value :=
  match Date.ofParts? year month day with
  | some d => .date d
  | none => .null

def rating (tenths : Nat) : Value := .float (Binary64.ofRatio false tenths 10)

def post (id blog : Int) (author : Value) (title : String) (body : Value) (views : Int)
    (rating : Value) (published : Bool) (date : Value) (created : Int) : List (String × Value) :=
  [("id", num id), ("blog_id", num blog), ("author_id", author), ("title", .text title),
   ("body", body), ("views", num views), ("rating", rating), ("published", .bool published),
   ("pub_date", date), ("created_at", instant created)]

def rows : List (String × List (String × Value)) :=
  [("Author", [("id", num 1), ("name", .text "alice"), ("email", .text "alice@example.com")]),
   ("Author", [("id", num 2), ("name", .text "bob"), ("email", .null)]),
   ("Blog", [("id", num 1), ("name", .text "engineering"), ("owner_id", num 1)]),
   ("Blog", [("id", num 2), ("name", .text "Essays"), ("owner_id", num 2)]),
   ("Blog", [("id", num 3), ("name", .text "cooking"), ("owner_id", .null)]),
   ("Post",
    post 1 1 (num 1) "Rust 2008 retrospective" (.text "Looking back") 120 (rating 45) true
      (day 2008 3 14) 1205452800000),
   ("Post",
    post 2 1 (num 2) "100% uptime" (.text "Mostly") 45 (rating 30) true (day 2010 7 1)
      1277942400000),
   ("Post",
    post 3 2 (num 2) "On writing" .null 300 .null false (day 2008 11 30) 1228003200000),
   ("Post",
    post 4 2 (num 1) "1000 users" (.text "A milestone") 5 (rating 40) true (day 2012 1 5)
      1325721600000),
   ("Post", post 5 3 .null "Brisket_basics" .null 0 .null true (day 2011 7 4) 1309737600000),
   ("Comment", [("id", num 1), ("post_id", num 1), ("text", .text "great")]),
   ("Comment", [("id", num 2), ("post_id", num 1), ("text", .text "nice")]),
   ("Comment", [("id", num 3), ("post_id", num 3), ("text", .text "meh")]),
   ("Comment", [("id", num 4), ("post_id", num 4), ("text", .text "True")]),
   ("Comment", [("id", num 5), ("post_id", num 4), ("text", .text "none of it")])]

def fill (schema : Schema) : Store :=
  rows.foldl (fun store (name, attributes) =>
    match schema.entityNamed? name with
    | some e => (store.insert e.id (Ordered.ofList attributes)).2
    | none => store) Store.empty

def dataset : Except SchemaError Dataset := do
  let schema ← schema
  return ⟨schema, fill schema⟩

end Blog

end FieldLookup
