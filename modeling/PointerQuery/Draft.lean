import PointerQuery.Program

/-!
Drafts: programs under construction. An addition is a run of steps, of which each may check the draft, change it or
stop with a refusal. Every addition that is accepted brings one value, which takes the next number.
-/

namespace PointerQuery

/-- What can be added to a draft. -/
inductive Addition where
  | procedure (name : String)
  | declaration (name : String)
  | argument (proc : ProcId) (name : String) (ty : Ty)
  | global (name : String)
  | const (c : IntConst)
  | null
  | instruction (proc : ProcId) (name : String) (ty : Ty) (op : Operation)
  deriving DecidableEq

namespace Addition

def constInt (v : Word) (width : Nat) : Addition :=
  const (IntConst.ofNat width v.toNat)

def alloca (proc : ProcId) (name : String) (allocated : Ty) (count : ValueId) : Addition :=
  instruction proc name .ptr (.alloca allocated count)

def call (proc : ProcId) (name : String) (result : Ty) (callee : ValueId) (args : List ValueId) :
    Addition :=
  instruction proc name result (.call callee args)

def gep (proc : ProcId) (name : String) (base offset : ValueId) : Addition :=
  instruction proc name .ptr (.gep base offset)

def load (proc : ProcId) (name : String) (ty : Ty) (addr : ValueId) : Addition :=
  instruction proc name ty (.load addr)

def store (proc : ProcId) (val addr : ValueId) : Addition :=
  instruction proc "" .void (.store val addr)

end Addition

/-- Why an addition is refused. -/
inductive Refusal where
  | undefinedOperand (id : ValueId)
  | undefinedProcedure (id : ProcId)
  | declaredOnly (id : ProcId)
  | oversized (c : IntConst)
  deriving DecidableEq

def Refusal.message : Refusal → String
  | undefinedOperand id => s!"Operand {id} is not defined."
  | undefinedProcedure id => s!"Procedure {id} is not defined."
  | declaredOnly id => s!"Cannot add instructions to the declaration {id}."
  | oversized c =>
    "add_const: Width of " ++ c.render ++ " exceeds the maximum integer width."

structure Draft where
  program : Program
  /-- The number that the next value takes. -/
  nextId : ValueId := 1

namespace Draft

def empty (name : String) (layout : Layout) : Draft :=
  ⟨{ name, layout }, 1⟩

/-- The number of bits of an integer type is a word of 32 bits, and a constant has an integer type. -/
def widthLimit : Nat :=
  UInt32.size

/-- A step in building a program. If it fails, the draft stays as the steps before have left it. -/
abbrev Building := ExceptT Refusal (StateM Draft)

/-- Lets steps work on the draft. -/
def run {α : Type} (d : Draft) (x : Building α) : Except Refusal α × Draft :=
  Id.run (StateT.run (ExceptT.run x) d)

/-- Enters a value under the next number. -/
def push (d : Draft) (name : String) (ty : Ty) (kind : ValueKind) : Draft :=
  { program := { d.program with
      values := d.program.values.insert d.nextId ⟨d.nextId, name, ty, kind⟩ }
    nextId := d.nextId + 1 }

/-- Enters a procedure under its number. -/
def putProcedure (d : Draft) (p : Procedure) : Draft :=
  { d with program := { d.program with procedures := d.program.procedures.insert p.id p } }

def modifyProcedure (d : Draft) (proc : ProcId) (f : Procedure → Procedure) : Draft :=
  { d with program := { d.program with procedures := d.program.procedures.modify proc f } }

/-- Enters a value and tells its number. -/
def pushValue (name : String) (ty : Ty) (kind : ValueKind) : Building ValueId := do
  let d ← get
  set (d.push name ty kind)
  return d.nextId

/-- An operand has to be a value of the draft. -/
def assertKnown (id : ValueId) : Building Unit := do
  unless (← get).program.values.contains id do
    throw (.undefinedOperand id)

/-- Looks up a procedure that has to be there. -/
def findProcedure (proc : ProcId) : Building Procedure := do
  match (← get).program.procedure? proc with
  | some p => return p
  | none => throw (.undefinedProcedure proc)

/-- A procedure has to be there with a body of its own. -/
def assertDefined (proc : ProcId) : Building Unit := do
  if (← findProcedure proc).isDeclaration then
    throw (.declaredOnly proc)

/-- Changes a procedure that has to be there. -/
def updateProcedure (proc : ProcId) (f : Procedure → Procedure) : Building Unit := do
  let _ ← findProcedure proc
  modify fun d => d.modifyProcedure proc f

def addProcedure (name : String) (isDeclaration : Bool) : Building ValueId := do
  let id ← pushValue name .ptr .function
  modify fun d => d.putProcedure { id, name, isDeclaration }
  return id

def addArgument (proc : ProcId) (name : String) (ty : Ty) : Building ValueId := do
  let p ← findProcedure proc
  let id ← pushValue name ty (.argument proc p.args.length)
  updateProcedure proc fun p => { p with args := p.args ++ [id] }
  return id

def addConst (c : IntConst) : Building ValueId := do
  unless c.width < widthLimit do
    throw (.oversized c)
  pushValue "" (.int (UInt32.ofNat c.width)) (.const c)

/-- The operands come before the procedure, and they are looked at in order. -/
def addInstruction (proc : ProcId) (name : String) (ty : Ty) (op : Operation) : Building ValueId := do
  op.operands.forM assertKnown
  assertDefined proc
  let id ← pushValue name ty (.instruction proc op)
  updateProcedure proc fun p => { p with insts := p.insts ++ [id] }
  return id

/-- The steps of an addition, which tell the number of the new value. -/
def steps : Addition → Building ValueId
  | .procedure name => addProcedure name false
  | .declaration name => addProcedure name true
  | .argument proc name ty => addArgument proc name ty
  | .global name => pushValue name .ptr .global
  | .const c => addConst c
  | .null => pushValue "null" .ptr .null
  | .instruction proc name ty op => addInstruction proc name ty op

/-- Adds a value and tells its number, or the reason why not. -/
def add (d : Draft) (a : Addition) : Except Refusal ValueId × Draft :=
  d.run (steps a)

/-- The draft after a run of additions, of which some may have been refused. -/
def addAll (d : Draft) (as : List Addition) : Draft :=
  as.foldl (fun d a => (d.add a).2) d

/-- Hands out the program. -/
def build (d : Draft) : Logged Program := do
  let name := d.program.name
  let procedures := d.program.procedures.size
  let values := d.program.values.size
  Logged.report .debug s!"Built module '{name}' with {procedures} procedures and {values} values."
  pure d.program

end Draft

end PointerQuery
