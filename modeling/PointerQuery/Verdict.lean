namespace PointerQuery

inductive Verdict where
  | no
  | unknown
  | yes
  deriving DecidableEq

namespace Verdict

def rank : Verdict → Nat
  | no => 0
  | unknown => 1
  | yes => 2

instance : LE Verdict := ⟨fun a b => a.rank ≤ b.rank⟩

instance : LT Verdict := ⟨fun a b => a.rank < b.rank⟩

instance : DecidableLE Verdict := fun a b => inferInstanceAs (Decidable (a.rank ≤ b.rank))

instance : DecidableLT Verdict := fun a b => inferInstanceAs (Decidable (a.rank < b.rank))

instance : Ord Verdict := ⟨fun a b => compare a.rank b.rank⟩

/-- The smaller of two verdicts. -/
def meet (a b : Verdict) : Verdict :=
  if a ≤ b then a else b

def ofBool : Bool → Verdict
  | true => yes
  | false => no

def render : Verdict → String
  | no => "false"
  | unknown => "unknown"
  | yes => "true"

end Verdict

end PointerQuery
