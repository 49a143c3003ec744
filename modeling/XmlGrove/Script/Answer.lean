import XmlGrove.Grove.Comparison
import XmlGrove.Script.Construction

/-!
# Answers

What a command yields, and how the arguments that it is given are checked.
-/

namespace XmlGrove.Script

inductive Answer where
  | plain (value : Value)
  | compared (report : Grove.ComparisonReport)

namespace Answer

def held : Answer → Value
  | plain value => value
  | compared _ => .null

def asObject : Answer → Action Answer
  | plain value => return plain (← Script.asObject value)
  | compared report => return compared report

instance : Coe Value Answer := ⟨plain⟩

end Answer

def optionalNode (id : Option NodeId) : Value := (id.map .node).getD .null

def nodeTuple (ids : List NodeId) : Value := .tuple (ids.map .node)

def noCommand : Action Answer := throw .noMember

/-! ## Arguments -/

def acceptsCount (command : String) (count : Nat) : Bool :=
  match command with
  | "bool" | "copy" | "deepcopy" | "len" | "list" | "repr" | "reversed" | "str" => count = 0
  | "compare" | "contains" | "delitem" | "eq" | "getitem" | "is" => count = 1
  | "set" | "setitem" => count = 2
  | "save" | "serialize" => count ≤ 1
  | "write" => count ≤ 2
  | "attr" | "prologue" => 1 ≤ count
  | "traverse" => 2 ≤ count
  | _ => true

/-- Check the number of a command's arguments, as far as it does not depend on what the
command is given to. -/
def requireCount (command : String) (arguments : List Value) : Action Unit :=
  if acceptsCount command arguments.length then return else throw .unfitValue

def onlyArgument : List Value → Action Value
  | [value] => return value
  | _ => throw .unfitValue

def optionalArgument : List Value → Action Value
  | [] => return .null
  | [value] => return value
  | _ => throw .unfitValue

def requireNone : List Value → Action Unit
  | [] => return
  | _ => throw .unfitValue

def textArgument (arguments : List Value) : Action String := do
  match (← onlyArgument arguments).text? with
  | some content => return content
  | none => throw .unfitValue

end XmlGrove.Script
