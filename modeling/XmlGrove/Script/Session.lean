import XmlGrove.Script.Command
import XmlGrove.Script.Report
import XmlGrove.Script.Term

/-!
# Sessions

A session performs commands one after the other in a workspace. It goes on when
one of them fails, with what was done until then.
-/

namespace XmlGrove.Script

structure Step where
  command : String
  subject : Option String := none
  arguments : List Term := []
  register : Option String := none
  observed : Bool := false

structure StepReport where
  outcome : Except Fault Shown
  state : Option (Option Snapshot)

namespace Step

def subject? (step : Step) (workspace : Workspace) : Option Value :=
  step.subject.bind workspace.resolve?

def perform (step : Step) : Action Answer := do
  let subject ← step.subject.mapM resolve
  let arguments ← Term.evaluateAll step.arguments
  match subject with
  | some subject => Script.perform subject step.command arguments
  | none => performFree step.command arguments

def execute (step : Step) : Action Answer := do
  let answer ← step.perform
  match step.register with
  | some name => modify fun workspace => workspace.hold name answer.held
  | none => pure ()
  return answer

def report (step : Step) (workspace : Workspace) (numbering : Numbering) :
    Except Fault (StepReport × Workspace × Numbering) := do
  let subject := step.subject? workspace
  let (result, after) := step.execute.run.run workspace
  let (outcome, later) ← match result with
    | .error fault => pure (.error fault, numbering)
    | .ok answer =>
      let (shown, later) ← (showAnswer after answer).run numbering
      pure (.ok shown, later)
  let around := (subject.map (snapshot? after)).getD (.ok none)
  let state ← if step.observed then some <$> around else pure none
  return (⟨outcome, state⟩, after, later)

end Step

structure SessionReport where
  steps : List StepReport
  registers : List (String × RegisterReport)
  notes : List String

namespace Session

def runFrom (workspace : Workspace) (numbering : Numbering) :
    List Step → Except Fault (List StepReport × Workspace × Numbering)
  | [] => .ok ([], workspace, numbering)
  | first :: rest => do
    let (report, after, later) ← first.report workspace numbering
    let (reports, final, numbers) ← runFrom after later rest
    return (report :: reports, final, numbers)

/-- Execute a session from an empty workspace and report it. It is a fault if something
can't be reported. -/
def run (steps : List Step) : Except Fault SessionReport := do
  let (reports, workspace, numbering) ← runFrom {} {} steps
  let (registers, _) ← (reportRegisters workspace workspace.sortedRegisters).run numbering
  return { steps := reports, registers := registers, notes := workspace.notes }

end Session

end XmlGrove.Script
