import PointerQuery.Digraph
import PointerQuery.Facts
import PointerQuery.Program

namespace PointerQuery

/-- A call of a program with the procedures that it may enter. -/
structure Call where
  caller : Procedure
  call : Value
  targets : List ProcId

namespace Program

/-- The procedures that a call through a value may enter, one for each target of the value. -/
def indirectTargets (P : Program) (facts? : Option PointsTo) (callee : ValueId) : List ProcId :=
  match facts?.bind fun facts => facts callee with
  | none => []
  | some set => set.toList.filterMap fun t => t.site?.bind P.asProcedure?

def callTargets (P : Program) (facts? : Option PointsTo) (callee : ValueId) : List ProcId :=
  match P.asProcedure? callee with
  | some proc => [proc]
  | none => P.indirectTargets facts? callee

/-- The calls of one procedure in program order. -/
def callsOf (P : Program) (facts? : Option PointsTo) (p : Procedure) : Except Fault (List Call) := do
  return (← P.callSites p.id).map fun s => ⟨p, s.call, P.callTargets facts? s.callee⟩

/-- The calls of all procedures, by ascending procedure. -/
def calls (P : Program) (facts? : Option PointsTo) : Except Fault (List Call) := do
  return (← P.procedureList.mapM (P.callsOf facts?)).flatten

end Program

namespace Call

def isUnresolved (c : Call) : Bool :=
  c.targets.isEmpty

/-- The pairs of procedures that a call brings into relation. -/
def edges (c : Call) : List (ProcId × ProcId) :=
  c.targets.map fun target => (c.caller.id, target)

def edgeDiagnostic (caller callee : ProcId) : Diagnostic :=
  ⟨.debug, s!"Added call edge {caller} -> {callee}"⟩

/-- What there is to say about a call: its edges, or that it has none. -/
def diagnostics (c : Call) : List Diagnostic :=
  if c.isUnresolved then
    [⟨.warn, "Indirect call " ++ c.call.render ++ " in " ++ c.caller.name ++
      " has no resolved target. Recursion through it is not detected."⟩]
  else c.targets.map (edgeDiagnostic c.caller.id)

end Call

structure CallGraph where
  graph : Digraph ProcId := {}
  /-- The procedures that may be active more than once at a time. -/
  recursive : Std.ExtTreeSet ProcId := ∅
  unresolved : List Call := []

namespace CallGraph

/-- Adds an edge. Recursion is not looked at again. -/
def addEdge (cg : CallGraph) (caller callee : ProcId) : Logged CallGraph := do
  Logged.reportAll [Call.edgeDiagnostic caller callee]
  pure { cg with graph := cg.graph.addEdge caller callee }

/-- The graph of the given procedures and calls. Recursive are the procedures on a cycle, and in the strict
reading also the callers of unresolved calls, which might close one. -/
def ofCalls (strict : Bool) (procs : List ProcId) (calls : List Call) : CallGraph :=
  let nodes := procs.foldl Digraph.addNode {}
  let graph := (calls.flatMap Call.edges).foldl (fun g e => g.addEdge e.1 e.2) nodes
  let unresolved := calls.filter Call.isUnresolved
  let suspects := if strict then unresolved.map fun c => c.caller.id else []
  { graph, unresolved, recursive := Std.ExtTreeSet.ofList (graph.cyclicNodes ++ suspects) }

def numProcedures (cg : CallGraph) : Nat :=
  cg.graph.nodes.length

def numEdges (cg : CallGraph) : Nat :=
  cg.graph.edges.length

def numUnresolved (cg : CallGraph) : Nat :=
  cg.unresolved.length

def isRecursive (cg : CallGraph) (proc : ProcId) : Bool :=
  cg.recursive.contains proc

/-- Every procedure reaches itself, and one that is no node reaches nothing else. -/
def isReachable (cg : CallGraph) (caller callee : ProcId) : Bool :=
  if caller = callee then true
  else if caller ∉ cg.graph.nodes then false
  else cg.graph.finds callee [] [caller]

def reachableFrom (cg : CallGraph) (proc : ProcId) : Std.ExtTreeSet ProcId :=
  let start := Std.ExtTreeSet.ofList [proc]
  if proc ∉ cg.graph.nodes then start else start.insertMany (cg.graph.reachable proc)

def callees (cg : CallGraph) (proc : ProcId) : Std.ExtTreeSet ProcId :=
  Std.ExtTreeSet.ofList (cg.graph.successors proc)

def dot (cg : CallGraph) : String :=
  cg.graph.dot Nat.repr

def summary (P : Program) (cg : CallGraph) : String :=
  let name := P.name
  let procedures := cg.numProcedures
  let edges := cg.numEdges
  let recursive := cg.recursive.size
  let unresolved := cg.numUnresolved
  s!"Call graph of '{name}': {procedures} procedures, {edges} edges, {recursive} recursive, " ++
    s!"{unresolved} unresolved indirect calls."

/-- The call graph of a program. -/
def build (P : Program) (facts? : Option PointsTo) (strict : Bool) : Checked CallGraph := do
  let calls ← Checked.ofExcept (P.calls facts?)
  Checked.reportAll (calls.flatMap Call.diagnostics)
  let cg := ofCalls strict (P.procedureList.map Procedure.id) calls
  Checked.report .info (summary P cg)
  Checked.report .trace cg.dot
  pure cg

end CallGraph

end PointerQuery
