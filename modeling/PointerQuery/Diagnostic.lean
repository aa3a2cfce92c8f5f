import PointerQuery.Text.Blank

/-!
Diagnostics, and computations that report them. A computation always reports everything it has to say, in
order; a log level only chooses which of the reports are shown.
-/

namespace PointerQuery

universe u

inductive Severity where
  | error
  | warn
  | info
  | debug
  | trace
  deriving DecidableEq

namespace Severity

def label : Severity → String
  | error => "ERROR"
  | warn => "WARN"
  | info => "INFO"
  | debug => "DEBUG"
  | trace => "TRACE"

/-- Severities by weight, the gravest first. -/
def rank : Severity → Nat
  | error => 1
  | warn => 2
  | info => 3
  | debug => 4
  | trace => 5

end Severity

structure Diagnostic where
  severity : Severity
  message : String
  deriving DecidableEq

def Diagnostic.render (d : Diagnostic) : String :=
  d.severity.label ++ " " ++ d.message

/-- How much is shown: nothing, or all diagnostics down to a severity. -/
inductive LogLevel where
  | off
  | error
  | warn
  | info
  | debug
  | trace
  deriving DecidableEq

namespace LogLevel

def all : List LogLevel :=
  [off, error, warn, info, debug, trace]

def name : LogLevel → String
  | off => "off"
  | error => "error"
  | warn => "warn"
  | info => "info"
  | debug => "debug"
  | trace => "trace"

def rank : LogLevel → Nat
  | off => 0
  | error => 1
  | warn => 2
  | info => 3
  | debug => 4
  | trace => 5

def admits (l : LogLevel) (s : Severity) : Bool :=
  s.rank ≤ l.rank

def ofName? (name : String) : Option LogLevel :=
  all.find? fun l => l.name == name

/-- Reads a level in any case, with white space allowed around it. Lower-casing the letters of ASCII is
enough: no other character becomes a letter of a level's name. -/
def ofText? (text : String) : Option LogLevel :=
  ofName? (String.ofList ((Text.trim text.toList).map Char.toLower))

theorem ofName?_name (l : LogLevel) : ofName? l.name = some l := by
  cases l <;> decide

end LogLevel

/-- A value together with what was reported on the way to it. -/
structure Logged (α : Type u) where
  value : α
  log : List Diagnostic := []

namespace Logged

variable {α β : Type u}

instance : Monad Logged where
  pure a := ⟨a, []⟩
  bind x f := ⟨(f x.value).value, x.log ++ (f x.value).log⟩

@[simp] theorem value_pure (a : α) : (pure a : Logged α).value = a := rfl

@[simp] theorem log_pure (a : α) : (pure a : Logged α).log = [] := rfl

@[simp] theorem value_bind (x : Logged α) (f : α → Logged β) :
    (x >>= f).value = (f x.value).value := rfl

@[simp] theorem log_bind (x : Logged α) (f : α → Logged β) :
    (x >>= f).log = x.log ++ (f x.value).log := rfl

@[simp] theorem value_map (f : α → β) (x : Logged α) : (f <$> x).value = f x.value := rfl

theorem ext_iff {x y : Logged α} : x = y ↔ x.value = y.value ∧ x.log = y.log := by
  cases x; cases y; simp

instance : LawfulMonad Logged := LawfulMonad.mk' _
  (by intro α x; simp [Functor.map])
  (by intro α β a f; simp [ext_iff])
  (by intro α β γ x f g; simp [ext_iff, List.append_assoc])

/-- Reports diagnostics that are at hand. -/
def reportAll (ds : List Diagnostic) : Logged Unit :=
  ⟨(), ds⟩

@[simp] theorem value_reportAll (ds : List Diagnostic) : (reportAll ds).value = () := rfl

@[simp] theorem log_reportAll (ds : List Diagnostic) : (reportAll ds).log = ds := rfl

/-- Reports one diagnostic. -/
def report (severity : Severity) (message : String) : Logged Unit :=
  ⟨(), [⟨severity, message⟩]⟩

@[simp] theorem value_report (s : Severity) (m : String) : (report s m).value = () := rfl

@[simp] theorem log_report (s : Severity) (m : String) : (report s m).log = [⟨s, m⟩] := rfl

/-- The diagnostics of a computation that a log level shows. -/
def shown (x : Logged α) (level : LogLevel) : List Diagnostic :=
  x.log.filter fun d => level.admits d.severity

end Logged

end PointerQuery
