import FieldLookup.Scenario.Assertion
import FieldLookup.Scenario.Blog

/-!
Scenarios: steps that act on a running query, each with what its outcome is expected to be. A step
that fails, and one that only gets a row, leave the running query as it was.
-/
namespace FieldLookup

/-- What a step does to the running query. -/
inductive Action where
  | filter (lookups : Lookups)
  | exclude (lookups : Lookups)
  | order (keys : List String)
  | loadRelated (paths : List String) (depth : Option Nat)
  | request (parameters : List (String × String)) (allowed : Option (List String))
  | slice (offset limit : Nat)
  | get (lookups : Lookups)
  | reset

structure ScenarioStep where
  name : String
  action : Action
  assertion : Assertion

structure Scenario where
  name : String
  root : Option String
  settings : Option Settings
  steps : List ScenarioStep

inductive ScenarioError where
  | schema (e : SchemaError)
  | unknownEntity (name : String)
  | assertionFailed (step : String) (mismatch : Mismatch)
  | missingRoot (scenario : String)
  | compile (e : LookupError)
  deriving DecidableEq, Repr

namespace ScenarioError

def describe (explained : Bool) : ScenarioError → String
  | schema e => "failed to build fixture schema: " ++ e.message
  | unknownEntity name => "unknown fixture entity '" ++ name ++ "'"
  | assertionFailed step mismatch =>
    "assertion failed for step '" ++ step ++ "': " ++ mismatch.describe explained
  | missingRoot scenario => "root entity not specified for scenario '" ++ scenario ++ "'"
  | compile e => "compile error: " ++ e.describe explained

def message (e : ScenarioError) : String := e.describe true

def summary (e : ScenarioError) : String := e.describe false

end ScenarioError

namespace Action

/-- The query after an action that is not a request for one row. -/
def query (c : Compiler) (base current : Query) : Action → Except LookupError Query
  | filter lookups => c.narrow current lookups
  | exclude lookups => c.exclude current lookups
  | order keys => c.order current keys
  | loadRelated paths depth => c.loadRelated current paths depth
  | request given allowed => do
    c.apply current (← Request.ofParameters c.settings.separator allowed given)
  | slice offset limit => .ok ((current.skipping offset).limitTo limit)
  | get _ => .ok current
  | reset => .ok base

/-- The outcome of an action: the query after it and the rows it fetches, or the one row it gets. -/
def run (c : Compiler) (store : Store) (base current : Query) : Action → Outcome
  | get lookups => do return ⟨current, [← c.onlyRow store current lookups]⟩
  | action => do
    let q ← action.query c base current
    return ⟨q, ← Compiler.liftQuery (q.fetch c.schema store)⟩

end Action

namespace Scenario

/-- Runs steps from a running query on; the first outcome that differs is the error. -/
def runSteps (c : Compiler) (store : Store) (base : Query) :
    Query → List ScenarioStep → Except ScenarioError Unit
  | _, [] => .ok ()
  | current, step :: rest =>
    let outcome := step.action.run c store base current
    match step.assertion.verify outcome with
    | .error mismatch => .error (.assertionFailed step.name mismatch)
    | .ok () =>
      match outcome with
      | .ok reached => runSteps c store base reached.query rest
      | .error _ => runSteps c store base current rest

/-- The compiler that the scenario asks for. -/
def compiler (s : Scenario) (schema : Schema) : Except LookupError Compiler :=
  match s.settings with
  | some settings => Compiler.ofSettings schema settings
  | none => .ok (Compiler.ofSchema schema)

def runOn (s : Scenario) (data : Dataset) : Except ScenarioError Unit :=
  match s.root with
  | none => .error (.missingRoot s.name)
  | some root =>
    match data.schema.entityNamed? root with
    | none => .error (.unknownEntity root)
    | some e =>
      match s.compiler data.schema with
      | .error e => .error (.compile e)
      | .ok c => runSteps c data.store (Query.ofRoot e.id) (Query.ofRoot e.id) s.steps

/-- Runs the scenario on the blog. -/
def run (s : Scenario) : Except ScenarioError Unit :=
  match Blog.dataset with
  | .error e => .error (.schema e)
  | .ok data => s.runOn data

end Scenario

end FieldLookup
