import PointerQuery.Plugin

namespace PointerQuery

structure Registry where
  plugins : List Plugin := []

namespace Registry

/-- Adds a plugin behind those that are there. -/
def add (r : Registry) (p : Plugin) : Logged Registry := do
  let name := p.name
  Logged.report .debug s!"Registered plugin '{name}'"
  pure ⟨r.plugins ++ [p]⟩

def size (r : Registry) : Nat :=
  r.plugins.length

/-- Puts a question with as many operands as it takes. -/
def ask (r : Registry) (q : Query) (operands : List ValueId) : Checked Answer :=
  if operands.length = q.arity then
    match r.plugins.find? fun p => p.supports q with
    | some p => p.evaluate q operands
    | none => do
      Checked.report .warn ("No plugin supports the query " ++ q.name)
      pure .unsupported
  else throw (.wrongArity q operands.length)

/-- Puts a question by its name. -/
def query (r : Registry) (name : String) (operands : List ValueId) : Checked Answer :=
  match Query.ofName? name with
  | some q => r.ask q operands
  | none => do
    Checked.report .warn s!"Unsupported query '{name}'"
    pure .unsupported

end Registry

end PointerQuery
