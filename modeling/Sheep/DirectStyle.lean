/-
This file is a library for programs that call each other, do input and output, and
return or throw. What a piece of code does is an instruction, whose parts are again
pieces of code, so that code may recur and may run forever.

`Evaluates` is the meaning of a program as ordinary nested calls. `stackMachine`
executes it with an explicit stack of the calls that wait for an outcome. The two
agree: on the outcome and the input and output of a run that ends, and on the input
and output of a run that waits for the result of a request.
-/

import Sheep.Transitions

namespace DirectStyle

/-! ### Programs -/

/-- How a call ends. -/
inductive Outcome (Value Exception : Type)
  | value (value : Value)
  | exception (exception : Exception)
deriving DecidableEq, Repr

/-- What a piece of code does next. A call goes on with the outcome of the callee: code that does
not catch an exception goes on by throwing it. -/
inductive Instruction (Code Value Exception Request Result : Type)
  | ret (value : Value)
  | throw (exception : Exception)
  | io (request : Request) (next : Result → Code)
  | call (callee : Code) (next : Outcome Value Exception → Code)

abbrev Program (Code Value Exception Request Result : Type) :=
  Code → Instruction Code Value Exception Request Result

inductive Event (Request Result : Type)
  | requested (request : Request)
  | completed (result : Result)
deriving DecidableEq, Repr

variable {Code Value Exception Request Result : Type}

/-! ### Nested calls -/

/-- The evaluation of code with some input and output: it ends with an outcome, or it waits (`none`)
for the result of its last request. -/
inductive Evaluates (program : Program Code Value Exception Request Result) :
    Code → List (Event Request Result) → Option (Outcome Value Exception) → Prop
  | ret {code : Code} {value : Value} : program code = .ret value →
      Evaluates program code [] (some (.value value))
  | throw {code : Code} {exception : Exception} : program code = .throw exception →
      Evaluates program code [] (some (.exception exception))
  | io {code : Code} {request : Request} {next : Result → Code} {result : Result}
      {trace : List (Event Request Result)} {ending : Option (Outcome Value Exception)} :
      program code = .io request next → Evaluates program (next result) trace ending →
      Evaluates program code (.requested request :: .completed result :: trace) ending
  | ioWaits {code : Code} {request : Request} {next : Result → Code} :
      program code = .io request next → Evaluates program code [.requested request] none
  | call {code callee : Code} {next : Outcome Value Exception → Code}
      {first second : List (Event Request Result)} {outcome : Outcome Value Exception}
      {ending : Option (Outcome Value Exception)} :
      program code = .call callee next → Evaluates program callee first (some outcome) →
      Evaluates program (next outcome) second ending →
      Evaluates program code (first ++ second) ending
  | callWaits {code callee : Code} {next : Outcome Value Exception → Code}
      {trace : List (Event Request Result)} :
      program code = .call callee next → Evaluates program callee trace none →
      Evaluates program code trace none

/-! ### The machine with a stack -/

inductive Mode (Code Value Exception Result : Type)
  | evaluating (code : Code)
  | waiting (next : Result → Code)
  | ended (outcome : Outcome Value Exception)

/-- What is executed, and the calls that wait for its outcome, the innermost one first. -/
structure Config (Code Value Exception Result : Type) where
  mode : Mode Code Value Exception Result
  stack : List (Outcome Value Exception → Code)

inductive Action (Result : Type)
  | run
  | complete (result : Result)

/-- The innermost call gets its outcome. -/
def return_ (outcome : Outcome Value Exception) :
    List (Outcome Value Exception → Code) → Config Code Value Exception Result
  | [] => ⟨.ended outcome, []⟩
  | next :: stack => ⟨.evaluating (next outcome), stack⟩

/-- One instruction. -/
def perform (stack : List (Outcome Value Exception → Code)) :
    Instruction Code Value Exception Request Result →
      Config Code Value Exception Result × List (Event Request Result)
  | .ret value => (return_ (.value value) stack, [])
  | .throw exception => (return_ (.exception exception) stack, [])
  | .io request next => (⟨.waiting next, stack⟩, [.requested request])
  | .call callee next => (⟨.evaluating callee, next :: stack⟩, [])

def stackMachine (program : Program Code Value Exception Request Result) :
    Transitions.System (Config Code Value Exception Result) (Action Result)
      (Event Request Result)
  | ⟨.evaluating code, stack⟩, .run => some (perform stack (program code))
  | ⟨.waiting next, stack⟩, .complete result =>
      some (⟨.evaluating (next result), stack⟩, [.completed result])
  | _, _ => none

variable {program : Program Code Value Exception Request Result} {code : Code}
  {trace events : List (Event Request Result)} {ending : Option (Outcome Value Exception)}

/-- How the machine stands when an evaluation ends or waits. -/
def Stands (stack : List (Outcome Value Exception → Code)) :
    Option (Outcome Value Exception) → Config Code Value Exception Result → Prop
  | some outcome, config => config = return_ outcome stack
  | none, config => ∃ next waiting, config = ⟨.waiting next, waiting⟩

theorem performs {stack : List (Outcome Value Exception → Code)}
    {instruction : Instruction Code Value Exception Request Result}
    (same : program code = instruction) :
    stackMachine program ⟨.evaluating code, stack⟩ .run = some (perform stack instruction) := by
  rw [← same]
  rfl

theorem answers {next : Result → Code} {stack : List (Outcome Value Exception → Code)}
    (result : Result) :
    stackMachine program ⟨.waiting next, stack⟩ (.complete result) =
      some (⟨.evaluating (next result), stack⟩, [.completed result]) :=
  rfl

/-- The machine runs where it evaluates. -/
theorem evaluating_of_run {config next : Config Code Value Exception Result}
    (step : stackMachine program config .run = some (next, events)) :
    ∃ code stack, config = ⟨.evaluating code, stack⟩ ∧
      perform stack (program code) = (next, events) := by
  obtain ⟨mode, stack⟩ := config
  cases mode with
  | evaluating code => exact ⟨code, stack, rfl, Option.some.inj step⟩
  | waiting after => cases step
  | ended outcome => cases step

/-- It takes a result where it waits. -/
theorem waiting_of_complete {config next : Config Code Value Exception Result} {result : Result}
    (step : stackMachine program config (.complete result) = some (next, events)) :
    ∃ after stack, config = ⟨.waiting after, stack⟩ ∧ next = ⟨.evaluating (after result), stack⟩ ∧
      events = [.completed result] := by
  obtain ⟨mode, stack⟩ := config
  cases mode with
  | evaluating code => cases step
  | waiting after =>
    cases step
    exact ⟨after, stack, rfl, rfl, rfl⟩
  | ended outcome => cases step

/-- It ends only where no call waits. -/
theorem stack_of_ended {stack : List (Outcome Value Exception → Code)}
    {instruction : Instruction Code Value Exception Request Result}
    {outcome : Outcome Value Exception}
    (ended : (perform stack instruction).1.mode = .ended outcome) :
    (perform stack instruction).1 = ⟨.ended outcome, []⟩ := by
  have returns (result : Outcome Value Exception)
      (mode : (return_ result stack : Config Code Value Exception Result).mode = .ended outcome) :
      (return_ result stack : Config Code Value Exception Result) = ⟨.ended outcome, []⟩ := by
    cases stack <;> cases mode
    rfl
  cases instruction with
  | ret value => exact returns _ ended
  | throw exception => exact returns _ ended
  | io request after => cases ended
  | call callee after => cases ended

/-- The machine executes what nested calls evaluate. -/
theorem reaches_of_evaluates (evaluates : Evaluates program code trace ending) :
    ∀ stack, ∃ config, Transitions.Reaches (stackMachine program) ⟨.evaluating code, stack⟩
      config trace ∧ Stands stack ending config := by
  induction evaluates with
  | ret same =>
    intro stack
    exact ⟨_, .next .start (performs same), rfl⟩
  | throw same =>
    intro stack
    exact ⟨_, .next .start (performs same), rfl⟩
  | io same _ inductionHypothesis =>
    rename_i code request next result trace ending _
    intro stack
    obtain ⟨config, later, stands⟩ := inductionHypothesis stack
    exact ⟨config, (later.after (answers result)).after (performs same), stands⟩
  | ioWaits same =>
    rename_i code request next
    intro stack
    exact ⟨_, .next .start (performs same), next, stack, rfl⟩
  | call same _ _ calleeRuns restRuns =>
    rename_i code callee next first second outcome ending _ _
    intro stack
    obtain ⟨_, calleeRun, rfl⟩ := calleeRuns (next :: stack)
    obtain ⟨config, restRun, stands⟩ := restRuns stack
    exact ⟨config, (calleeRun.trans restRun).after (performs same), stands⟩
  | callWaits same _ calleeRuns =>
    rename_i code callee next trace _
    intro stack
    obtain ⟨config, calleeRun, waits⟩ := calleeRuns (next :: stack)
    exact ⟨config, calleeRun.after (performs same), waits⟩

/-- What the calls on the stack make of an outcome. -/
inductive Unwinds (program : Program Code Value Exception Request Result) :
    Outcome Value Exception → List (Outcome Value Exception → Code) →
      List (Event Request Result) → Option (Outcome Value Exception) → Prop
  | bottom {outcome : Outcome Value Exception} : Unwinds program outcome [] [] (some outcome)
  | next {outcome result : Outcome Value Exception} {next : Outcome Value Exception → Code}
      {stack : List (Outcome Value Exception → Code)} {first second : List (Event Request Result)}
      {ending : Option (Outcome Value Exception)} :
      Evaluates program (next outcome) first (some result) →
      Unwinds program result stack second ending →
      Unwinds program outcome (next :: stack) (first ++ second) ending
  | waits {outcome : Outcome Value Exception} {next : Outcome Value Exception → Code}
      {stack : List (Outcome Value Exception → Code)} {trace : List (Event Request Result)} :
      Evaluates program (next outcome) trace none →
      Unwinds program outcome (next :: stack) trace none

/-- The evaluation of code, and then of the calls on the stack. -/
inductive Finishes (program : Program Code Value Exception Request Result) (code : Code)
    (stack : List (Outcome Value Exception → Code)) :
      List (Event Request Result) → Option (Outcome Value Exception) → Prop
  | unwinds {first second : List (Event Request Result)} {outcome : Outcome Value Exception}
      {ending : Option (Outcome Value Exception)} :
      Evaluates program code first (some outcome) → Unwinds program outcome stack second ending →
      Finishes program code stack (first ++ second) ending
  | waits {trace : List (Event Request Result)} :
      Evaluates program code trace none → Finishes program code stack trace none

/-- What a configuration comes to, in terms of nested calls. -/
inductive Completes (program : Program Code Value Exception Request Result) :
    Config Code Value Exception Result → List (Event Request Result) →
      Option (Outcome Value Exception) → Prop
  | ended {outcome : Outcome Value Exception} {stack : List (Outcome Value Exception → Code)}
      {trace : List (Event Request Result)} {ending : Option (Outcome Value Exception)} :
      Unwinds program outcome stack trace ending →
      Completes program ⟨.ended outcome, stack⟩ trace ending
  | evaluating {code : Code} {stack : List (Outcome Value Exception → Code)}
      {trace : List (Event Request Result)} {ending : Option (Outcome Value Exception)} :
      Finishes program code stack trace ending →
      Completes program ⟨.evaluating code, stack⟩ trace ending
  | waits {next : Result → Code} {stack : List (Outcome Value Exception → Code)} :
      Completes program ⟨.waiting next, stack⟩ [] none
  | answered {next : Result → Code} {stack : List (Outcome Value Exception → Code)}
      {result : Result} {trace : List (Event Request Result)}
      {ending : Option (Outcome Value Exception)} :
      Finishes program (next result) stack trace ending →
      Completes program ⟨.waiting next, stack⟩ (.completed result :: trace) ending

theorem unwinds_of_return {outcome : Outcome Value Exception}
    {stack : List (Outcome Value Exception → Code)}
    (completes : Completes program (return_ outcome stack) trace ending) :
    Unwinds program outcome stack trace ending := by
  cases stack with
  | nil =>
    cases completes with
    | ended unwinds => exact unwinds
  | cons next stack =>
    cases completes with
    | evaluating finishes =>
      cases finishes with
      | unwinds evaluates unwinds => exact .next evaluates unwinds
      | waits evaluates => exact .waits evaluates

theorem finishes_of_io {request : Request} {next : Result → Code} {result : Result}
    {stack : List (Outcome Value Exception → Code)} (same : program code = .io request next)
    (finishes : Finishes program (next result) stack trace ending) :
    Finishes program code stack (.requested request :: .completed result :: trace) ending := by
  cases finishes with
  | unwinds evaluates unwinds =>
    rw [← List.cons_append, ← List.cons_append]
    exact .unwinds (.io same evaluates) unwinds
  | waits evaluates => exact .waits (.io same evaluates)

/-- A call that is finished inside its caller. -/
theorem finishes_of_call {callee : Code} {next : Outcome Value Exception → Code}
    {stack : List (Outcome Value Exception → Code)} (same : program code = .call callee next)
    (finishes : Finishes program callee (next :: stack) trace ending) :
    Finishes program code stack trace ending := by
  cases finishes with
  | unwinds evaluates unwinds =>
    cases unwinds with
    | next continues unwinds =>
      rw [← List.append_assoc]
      exact .unwinds (.call same evaluates continues) unwinds
    | waits continues => exact .waits (.call same evaluates continues)
  | waits evaluates => exact .waits (.callWaits same evaluates)

/-- What a step leads to, the configuration before it leads to. -/
theorem completes_of_step {config next : Config Code Value Exception Result}
    {action : Action Result} (step : stackMachine program config action = some (next, events))
    (completes : Completes program next trace ending) :
    Completes program config (events ++ trace) ending := by
  obtain ⟨mode, stack⟩ := config
  cases mode with
  | ended outcome => cases action <;> cases step
  | waiting after =>
    cases action with
    | run => cases step
    | complete result =>
      cases step
      cases completes with
      | evaluating finishes => exact .answered finishes
  | evaluating code =>
    cases action with
    | complete result => cases step
    | run =>
      cases same : program code with
      | ret value =>
        rw [performs same] at step
        cases step
        exact .evaluating (.unwinds (.ret same) (unwinds_of_return completes))
      | throw exception =>
        rw [performs same] at step
        cases step
        exact .evaluating (.unwinds (.throw same) (unwinds_of_return completes))
      | io request after =>
        rw [performs same] at step
        cases step
        cases completes with
        | waits => exact .evaluating (.waits (.ioWaits same))
        | answered finishes => exact .evaluating (finishes_of_io same finishes)
      | call callee after =>
        rw [performs same] at step
        cases step
        cases completes with
        | evaluating finishes => exact .evaluating (finishes_of_call same finishes)

theorem completes_of_reaches {start config : Config Code Value Exception Result}
    (run : Transitions.Reaches (stackMachine program) start config trace)
    (completes : Completes program config events ending) :
    Completes program start (trace ++ events) ending := by
  induction run generalizing events with
  | start => exact completes
  | next _ step inductionHypothesis =>
    rw [List.append_assoc]
    exact inductionHypothesis (completes_of_step step completes)

theorem evaluates_of_finishes (finishes : Finishes program code [] trace ending) :
    Evaluates program code trace ending := by
  cases finishes with
  | unwinds evaluates unwinds =>
    cases unwinds with
    | bottom =>
      rw [List.append_nil]
      exact evaluates
  | waits evaluates => exact evaluates

/-- The machine ends as nested calls do. -/
theorem ends_iff_evaluates {outcome : Outcome Value Exception} :
    Transitions.Reaches (stackMachine program) ⟨.evaluating code, []⟩ ⟨.ended outcome, []⟩ trace ↔
      Evaluates program code trace (some outcome) := by
  constructor
  · intro run
    have completes := completes_of_reaches run (.ended .bottom)
    rw [List.append_nil] at completes
    cases completes with
    | evaluating finishes => exact evaluates_of_finishes finishes
  · intro evaluates
    obtain ⟨config, run, rfl⟩ := reaches_of_evaluates evaluates []
    exact run

/-- The machine waits where nested calls do. -/
theorem waits_iff_evaluates :
    (∃ next stack, Transitions.Reaches (stackMachine program) ⟨.evaluating code, []⟩
      ⟨.waiting next, stack⟩ trace) ↔ Evaluates program code trace none := by
  constructor
  · rintro ⟨next, stack, run⟩
    have completes := completes_of_reaches run .waits
    rw [List.append_nil] at completes
    cases completes with
    | evaluating finishes => exact evaluates_of_finishes finishes
  · intro evaluates
    obtain ⟨config, run, next, stack, rfl⟩ := reaches_of_evaluates evaluates []
    exact ⟨next, stack, run⟩

end DirectStyle
