import PointerQuery.Fault
import PointerQuery.IntConst
import PointerQuery.Layout.Extent
import Std.Data.ExtTreeMap

namespace PointerQuery

inductive Operation where
  /-- Memory on the stack for a number of values of a type. -/
  | alloca (allocated : Ty) (count : ValueId)
  /-- The call is direct if the callee is a function value. -/
  | call (callee : ValueId) (args : List ValueId)
  /-- Pointer arithmetic in bytes. -/
  | gep (base offset : ValueId)
  | load (addr : ValueId)
  | store (val addr : ValueId)
  | other
  deriving DecidableEq

/-- The values that an operation reads, in order. -/
def Operation.operands : Operation → List ValueId
  | alloca _ count => [count]
  | call callee args => callee :: args
  | gep base offset => [base, offset]
  | load addr => [addr]
  | store val addr => [val, addr]
  | other => []

inductive ValueKind where
  | argument (proc : ProcId) (index : Nat)
  | global
  /-- The address of the procedure that goes by the number of this value. -/
  | function
  | const (c : IntConst)
  | null
  | instruction (proc : ProcId) (op : Operation)
  deriving DecidableEq

structure Value where
  id : ValueId
  name : String
  ty : Ty
  kind : ValueKind
  deriving DecidableEq

/-- A call instruction and the value that it calls. -/
structure CallSite where
  call : Value
  callee : ValueId
  deriving DecidableEq

namespace Value

def render (v : Value) : String :=
  match v.kind with
  | .global | .function => "@" ++ v.name
  | .argument .. | .instruction .. => "%" ++ v.name
  | .const c => c.render
  | .null => "null"

def isPointer (v : Value) : Bool :=
  v.ty.isPointer

def op? (v : Value) : Option Operation :=
  match v.kind with
  | .instruction _ op => some op
  | _ => none

def isInstruction (v : Value) : Bool :=
  v.op?.isSome

def isAlloca (v : Value) : Bool :=
  match v.op? with
  | some (.alloca ..) => true
  | _ => false

def const? (v : Value) : Option IntConst :=
  match v.kind with
  | .const c => some c
  | _ => none

/-- The procedure that an instruction or an argument belongs to. -/
def enclosingProc? (v : Value) : Option ProcId :=
  match v.kind with
  | .instruction proc _ | .argument proc _ => some proc
  | _ => none

/-- The procedure that has the value as an instruction. -/
def definingProc? (v : Value) : Option ProcId :=
  match v.kind with
  | .instruction proc _ => some proc
  | _ => none

def callSite? (v : Value) : Option CallSite :=
  match v.op? with
  | some (.call callee _) => some ⟨v, callee⟩
  | _ => none

end Value

structure Procedure where
  id : ProcId
  name : String
  /-- A declared procedure has its body outside of the program. -/
  isDeclaration : Bool
  args : List ValueId := []
  /-- The instructions in program order. -/
  insts : List ValueId := []
  deriving DecidableEq

structure Program where
  name : String
  layout : Layout
  procedures : Std.ExtTreeMap ProcId Procedure := ∅
  values : Std.ExtTreeMap ValueId Value := ∅

namespace Program

def value? (P : Program) (id : ValueId) : Option Value :=
  P.values[id]?

def procedure? (P : Program) (id : ProcId) : Option Procedure :=
  P.procedures[id]?

/-- The procedures by ascending number. -/
def procedureList (P : Program) : List Procedure :=
  P.procedures.toList.map Prod.snd

def numValues (P : Program) : Nat :=
  P.values.size

/-- A value that has to be there. -/
def value (P : Program) (id : ValueId) : Except Fault Value :=
  match P.value? id with
  | some v => .ok v
  | none => .error (.unknownValue id P.name)

def enclosingProc? (P : Program) (id : ValueId) : Option ProcId :=
  (P.value? id).bind Value.enclosingProc?

def definingProc? (P : Program) (id : ValueId) : Option ProcId :=
  (P.value? id).bind Value.definingProc?

/-- The procedure whose address a value is. -/
def asProcedure? (P : Program) (id : ValueId) : Option ProcId :=
  match (P.value? id).map Value.kind with
  | some .function => if P.procedures.contains id then some id else none
  | _ => none

def isAlloca (P : Program) (id : ValueId) : Bool :=
  (P.value? id).any Value.isAlloca

/-- The calls in a procedure in program order. -/
def callSites (P : Program) (proc : ProcId) : Except Fault (List CallSite) :=
  match P.procedure? proc with
  | none => .ok []
  | some p => do return (← p.insts.mapM P.value).filterMap Value.callSite?

end Program

end PointerQuery
