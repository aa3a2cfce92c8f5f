import PointerQuery.Diagnostic
import PointerQuery.Query

namespace PointerQuery

inductive Fault where
  /-- A value was looked up that the program does not have. -/
  | unknownValue (id : ValueId) (program : String)
  | factsMissing
  /-- The validity of an access to no bytes was asked for. -/
  | emptyAccess (pointer : String)
  | wrongArity (query : Query) (given : Nat)
  /-- An operand of a question is no value of the program. -/
  | foreignOperand (id : ValueId) (query : Query) (program : String)
  | missingOperand (given index : Nat)
  deriving DecidableEq

def Fault.message : Fault → String
  | unknownValue id program => s!"Value {id} is not part of module '{program}'"
  | factsMissing => "The query requires points-to facts, but none were constructed."
  | emptyAccess pointer => s!"Access length of {pointer} must not be zero."
  | wrongArity query given =>
    "assertion `left == right` failed: Query " ++ query.name ++ " takes " ++ Nat.repr query.arity ++
      " operands.\n  left: " ++ Nat.repr given ++ "\n right: " ++ Nat.repr query.arity
  | foreignOperand id query program =>
    "Operand " ++ Nat.repr id ++ " of " ++ query.name ++ " is not part of module '" ++ program ++ "'"
  | missingOperand given index =>
    s!"index out of bounds: the len is {given} but the index is {index}"

/-- Computations that report and may fail. What was reported before a failure stays reported. -/
abbrev Checked := ExceptT Fault Logged

namespace Checked

def ofExcept {α : Type} (x : Except Fault α) : Checked α :=
  ExceptT.mk (pure x)

def report (severity : Severity) (message : String) : Checked Unit :=
  ExceptT.lift (Logged.report severity message)

def reportAll (ds : List Diagnostic) : Checked Unit :=
  ExceptT.lift (Logged.reportAll ds)

/-- How a computation ends, whatever it reports. -/
def outcome {α : Type} (x : Checked α) : Except Fault α :=
  (ExceptT.run x).value

variable {α β : Type}

@[simp] theorem outcome_pure (a : α) : outcome (pure a) = .ok a := rfl

@[simp] theorem outcome_throw (e : Fault) : outcome (throw e : Checked α) = .error e := rfl

@[simp] theorem outcome_ofExcept (x : Except Fault α) : outcome (ofExcept x) = x := rfl

@[simp] theorem outcome_report (s : Severity) (m : String) : outcome (report s m) = .ok () := rfl

@[simp] theorem outcome_reportAll (ds : List Diagnostic) : outcome (reportAll ds) = .ok () := rfl

@[simp] theorem outcome_lift (x : Logged α) : outcome (ExceptT.lift x) = .ok x.value := rfl

theorem outcome_bind (x : Checked α) (f : α → Checked β) :
    outcome (x >>= f) = outcome x >>= fun a => outcome (f a) := by
  unfold outcome
  cases h : (ExceptT.run x).value with
  | error e =>
    simp only [ExceptT.run_bind, Logged.value_bind, h]
    rfl
  | ok a =>
    simp only [ExceptT.run_bind, Logged.value_bind, h]
    rfl

end Checked

end PointerQuery
