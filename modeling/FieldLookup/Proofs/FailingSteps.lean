import FieldLookup.Proofs.Checked
import FieldLookup.Proofs.Declared
import FieldLookup.Scenario.Run
import Mathlib.Data.List.InsertIdx

/-!
Steps of a scenario that leave no trace: those that fail, and those that only get a row. Main
statement: `Scenario.run_exact`, the outcome of a step is that of its action on the query that the
lasting steps before it compose from the root, so that the others may be deleted without an effect
on the outcomes of the rest; and the run passes just if every assertion accepts its outcome.
-/
namespace FieldLookup

/-! ## Outcomes -/

namespace Action

def isGet : Action → Bool
  | get _ => true
  | _ => false

/-- The running query after an action. -/
def after (c : Compiler) (store : Store) (base current : Query) (action : Action) : Query :=
  match action.run c store base current with
  | .ok reached => reached.query
  | .error _ => current

/-- The outcomes of actions one after the other, whatever is expected of them. -/
def outcomes (c : Compiler) (store : Store) (base : Query) : Query → List Action → List Outcome
  | _, [] => []
  | current, action :: rest =>
    action.run c store base current ::
      outcomes c store base (action.after c store base current) rest

/-- Those of some actions that last: they succeeded, and did more than get a row. -/
def lasting (actions : List Action) (outcomes : List Outcome) : List Action :=
  ((actions.zip outcomes).filter fun x => !x.1.isGet && x.2.isOk).map (·.1)

/-- The query that actions compose, each from that of the one before it. -/
def compose (c : Compiler) (base : Query) (actions : List Action) : Except LookupError Query :=
  actions.foldlM (fun current action => action.query c base current) base

variable {c : Compiler} {store : Store} {base current : Query}

/-- An action that succeeds reaches the query that it composes. -/
theorem query_of_run {action : Action} {reached : Reached}
    (h : action.run c store base current = .ok reached) :
    action.query c base current = .ok reached.query := by
  cases action with
  | get lookups =>
    obtain ⟨row, -, h⟩ := Checked.bind_eq_ok_iff.mp h
    cases h
    rfl
  | _ =>
    obtain ⟨q, hq, h⟩ := Checked.bind_eq_ok_iff.mp h
    obtain ⟨rows, -, h⟩ := Checked.bind_eq_ok_iff.mp h
    cases h
    exact hq

theorem after_of_run {action : Action} {reached : Reached}
    (h : action.run c store base current = .ok reached) :
    action.after c store base current = reached.query := by
  rw [after, h]

/-- An action that fails, or only gets a row, leaves the running query as it is. -/
theorem after_of_idle {action : Action}
    (h : action.isGet = true ∨ ∃ e, action.run c store base current = .error e) :
    action.after c store base current = current := by
  unfold after
  cases hrun : action.run c store base current with
  | error e => rfl
  | ok reached =>
    rcases h with hget | ⟨e, he⟩
    · cases action with
      | get lookups => exact (Except.ok.inj (query_of_run hrun)).symm
      | _ => cases hget
    · rw [hrun] at he
      cases he

variable (c store base current)

@[simp] theorem length_outcomes (actions : List Action) :
    (outcomes c store base current actions).length = actions.length := by
  induction actions generalizing current with
  | nil => rfl
  | cons action rest ih => simp [outcomes, ih]

theorem take_outcomes (actions : List Action) (n : Nat) :
    (outcomes c store base current actions).take n =
      outcomes c store base current (actions.take n) := by
  induction actions generalizing current n with
  | nil => simp [outcomes]
  | cons action rest ih =>
    cases n with
    | zero => rfl
    | succ n => simp [outcomes, ih]

/-- An action runs on the query that those before it lead to. -/
theorem getElem?_outcomes (actions : List Action) (n : Nat) :
    (outcomes c store base current actions)[n]? =
      actions[n]?.map (run c store base ((actions.take n).foldl (after c store base) current)) := by
  induction actions generalizing current n with
  | nil => rfl
  | cons action rest ih =>
    cases n with
    | zero => rfl
    | succ n => simp [outcomes, ih]

theorem lasting_cons (action : Action) (rest : List Action) (outcome : Outcome)
    (outcomes : List Outcome) :
    lasting (action :: rest) (outcome :: outcomes) =
      if !action.isGet && outcome.isOk then action :: lasting rest outcomes
      else lasting rest outcomes := by
  rw [lasting, List.zip_cons_cons, List.filter_cons]
  split <;> rfl

/-- The lasting ones of some actions compose the running query. -/
theorem foldlM_lasting (actions : List Action) :
    (lasting actions (outcomes c store base current actions)).foldlM
        (fun current action => action.query c base current) current =
      .ok (actions.foldl (after c store base) current) := by
  induction actions generalizing current with
  | nil => rfl
  | cons action rest ih =>
    have hrest := ih (action.after c store base current)
    rw [outcomes, lasting_cons, List.foldl_cons]
    -- An action that does not last leaves the running query, so the rest starts where it would
    -- without it; one that lasts hands on the query that it composes.
    cases hrun : action.run c store base current with
    | error e =>
      rw [after_of_idle (Or.inr ⟨e, hrun⟩)] at hrest ⊢
      rw [if_neg (by simp [Except.isOk, Except.toBool])]
      exact hrest
    | ok reached =>
      by_cases hget : action.isGet = true
      · rw [after_of_idle (Or.inl hget)] at hrest ⊢
        rw [if_neg (by simp [hget])]
        exact hrest
      · rw [after_of_run hrun] at hrest ⊢
        rw [if_pos (by simp [hget, Except.isOk, Except.toBool]), List.foldlM_cons,
          query_of_run hrun]
        exact hrest

/-- The outcome of an action is the one that it has after the lasting ones before it. -/
theorem outcome_eq (actions : List Action) {n : Nat} {action : Action}
    (h : actions[n]? = some action) :
    ∃ q, compose c base (lasting (actions.take n)
        ((outcomes c store base base actions).take n)) = .ok q ∧
      (outcomes c store base base actions)[n]? = some (action.run c store base q) := by
  refine ⟨(actions.take n).foldl (after c store base) base, ?_, ?_⟩
  · rw [take_outcomes]
    exact foldlM_lasting c store base base (actions.take n)
  · rw [getElem?_outcomes, h]
    rfl

/-- Without an action that fails or only gets a row, the other outcomes are the same. -/
theorem outcomes_eraseIdx (actions : List Action) {n : Nat} {action : Action} {outcome : Outcome}
    (h : actions[n]? = some action)
    (ho : (outcomes c store base current actions)[n]? = some outcome)
    (hidle : action.isGet = true ∨ ∃ e, outcome = .error e) :
    outcomes c store base current (actions.eraseIdx n) =
      (outcomes c store base current actions).eraseIdx n := by
  induction actions generalizing current n with
  | nil => cases h
  | cons first rest ih =>
    cases n with
    | zero =>
      cases h
      cases ho
      rw [List.eraseIdx_cons_zero, outcomes, List.eraseIdx_cons_zero, after_of_idle hidle]
    | succ n =>
      rw [List.eraseIdx_cons_succ, outcomes, outcomes, List.eraseIdx_cons_succ]
      rw [outcomes] at ho
      rw [ih _ (by simpa using h) (by simpa using ho)]

end Action

/-! ## Runs -/

namespace Blog

theorem schema_eq : schema = .ok built := by decide +kernel

theorem dataset_eq : dataset = .ok ⟨built, fill built⟩ := by
  rw [dataset, schema_eq]
  rfl

end Blog

namespace Scenario

open FieldLookup.Action

theorem runSteps_cons (c : Compiler) (store : Store) (base current : Query) (step : ScenarioStep)
    (rest : List ScenarioStep) :
    runSteps c store base current (step :: rest) =
      (step.assertion.verify (step.action.run c store base current)).mapError
          (.assertionFailed step.name) >>=
        fun _ => runSteps c store base (step.action.after c store base current) rest := by
  rw [runSteps]
  unfold after
  cases step.assertion.verify (step.action.run c store base current) with
  | error mismatch => rfl
  | ok _ => cases step.action.run c store base current <;> rfl

/-- A run stops at the first assertion that rejects the outcome of its step, and else passes. -/
theorem runSteps_eq_forM (c : Compiler) (store : Store) (base current : Query)
    (steps : List ScenarioStep) :
    runSteps c store base current steps =
      (steps.zip (outcomes c store base current (steps.map (·.action)))).forM fun x =>
        (x.1.assertion.verify x.2).mapError (.assertionFailed x.1.name) := by
  induction steps generalizing current with
  | nil => rfl
  | cons step rest ih =>
    rw [runSteps_cons, List.map_cons, outcomes, List.zip_cons_cons, Checked.forM_cons]
    cases (step.assertion.verify (step.action.run c store base current)).mapError
        (ScenarioError.assertionFailed step.name) with
    | error e => rfl
    | ok _ => exact ih _

/-- The outcomes of the steps of a scenario on the blog. -/
def outcomes (s : Scenario) (c : Compiler) (root : EntityId) : List Outcome :=
  Action.outcomes c (Blog.fill Blog.built) (Query.ofRoot root) (Query.ofRoot root)
    (s.steps.map (·.action))

variable {s : Scenario} {root : String} {e : Entity} {c : Compiler}

theorem run_eq_forM (hroot : s.root = some root) (he : Blog.built.entityNamed? root = some e)
    (hc : s.compiler Blog.built = .ok c) :
    s.run = (s.steps.zip (s.outcomes c e.id)).forM fun x =>
      (x.1.assertion.verify x.2).mapError (.assertionFailed x.1.name) := by
  rw [outcomes, ← runSteps_eq_forM, run, Blog.dataset_eq]
  simp only [runOn, hroot, he, hc]

/-- On the blog, a step has the outcome of its action on the query that the lasting steps before it
compose from the root. Without a step that fails or only gets a row, all others have the outcomes
that they had. The run is over at the first assertion that rejects the outcome of its step, and
passes just if there is none. -/
theorem run_exact (s : Scenario) (hroot : s.root = some root)
    (he : Blog.built.entityNamed? root = some e) (hc : s.compiler Blog.built = .ok c) :
    (∀ n step, s.steps[n]? = some step → ∃ q,
        compose c (Query.ofRoot e.id) (lasting ((s.steps.take n).map (·.action))
          ((s.outcomes c e.id).take n)) = .ok q ∧
        (s.outcomes c e.id)[n]? =
          some (step.action.run c (Blog.fill Blog.built) (Query.ofRoot e.id) q)) ∧
      (∀ n step outcome, s.steps[n]? = some step → (s.outcomes c e.id)[n]? = some outcome →
        (step.action.isGet = true ∨ ∃ error, outcome = .error error) →
          { s with steps := s.steps.eraseIdx n }.outcomes c e.id =
            (s.outcomes c e.id).eraseIdx n) ∧
      s.run = (s.steps.zip (s.outcomes c e.id)).forM (fun x =>
        (x.1.assertion.verify x.2).mapError (.assertionFailed x.1.name)) ∧
      (s.run = .ok () ↔
        List.Forall₂ (fun step outcome => step.assertion.verify outcome = .ok ())
          s.steps (s.outcomes c e.id)) := by
  have hrun := run_eq_forM hroot he hc
  refine ⟨?_, ?_, hrun, ?_⟩
  · intro n step hstep
    rw [List.map_take]
    exact outcome_eq c _ _ _ (by rw [List.getElem?_map, hstep]; rfl)
  · intro n step outcome hstep houtcome hidle
    unfold outcomes at houtcome ⊢
    rw [← List.eraseIdx_map]
    exact outcomes_eraseIdx c _ _ _ _ (by rw [List.getElem?_map, hstep]; rfl) houtcome hidle
  · have hlength : s.steps.length = (s.outcomes c e.id).length := by
      simp [outcomes]
    rw [hrun, Checked.forM_eq_ok_iff, List.forall₂_iff_zip]
    simp only [Checked.mapError_eq_ok_iff, Prod.forall]
    exact ⟨fun h => ⟨hlength, fun {step outcome} => h step outcome⟩, fun h step outcome => h.2⟩

/-- Published posts, of which one is got and then the first and the last are cut off. In between a
sort key is misspelt. -/
def stumbling : Scenario where
  name := "stumbling"
  root := some "Post"
  settings := none
  steps :=
    [⟨"published", .filter (Ordered.ofList [("published", .bool true)]), { rows := some 4 }⟩,
     ⟨"misspelt", .order ["-vews"], { status := some 400 }⟩,
     ⟨"first", .get (Ordered.ofList [("id", .int 1)]), { ids := some [1] }⟩,
     ⟨"middle", .slice 1 2, { rows := some 2 }⟩]

/-- The theorem at a run that passes over a step that fails and one that gets a row. -/
theorem run_exact_stumbling :
    (∀ n, n = 1 ∨ n = 2 →
        { stumbling with steps := stumbling.steps.eraseIdx n }.outcomes
            (Compiler.ofSchema Blog.built) ⟨2⟩ =
          (stumbling.outcomes (Compiler.ofSchema Blog.built) ⟨2⟩).eraseIdx n) ∧
      List.Forall₂ (fun step outcome => step.assertion.verify outcome = .ok ())
        stumbling.steps (stumbling.outcomes (Compiler.ofSchema Blog.built) ⟨2⟩) := by
  obtain ⟨e, he, hid⟩ : ∃ e, Blog.built.entityNamed? "Post" = some e ∧ e.id = ⟨2⟩ := ⟨_, rfl, rfl⟩
  obtain ⟨-, herase, -, hpass⟩ := run_exact stumbling rfl he rfl
  rw [hid] at herase hpass
  constructor
  · rintro n (rfl | rfl)
    · have hfails : ((stumbling.outcomes (Compiler.ofSchema Blog.built) ⟨2⟩)[1]?.map
          fun outcome => !outcome.isOk) = some true := by decide +kernel
      obtain ⟨outcome, houtcome, hfail⟩ := Option.map_eq_some_iff.mp hfails
      refine herase 1 _ outcome rfl houtcome (Or.inr ?_)
      cases outcome with
      | error error => exact ⟨error, rfl⟩
      | ok reached => cases hfail
    · exact herase 2 _ _ rfl (List.getElem?_eq_getElem (by decide +kernel)) (Or.inl rfl)
  · exact hpass.mp (by decide +kernel)

end Scenario

end FieldLookup
