namespace PointerQuery

inductive Ty where
  | void
  | int (bits : UInt32)
  | float (bits : UInt32)
  /-- A pointer; what it points to is not part of its type. -/
  | ptr
  | array (elem : Ty) (len : UInt64)
  | struct (packed : Bool) (fields : List Ty)
  | func
  /-- A type whose body is not known. -/
  | incomplete

namespace Ty

/-- Induction on types, with the hypothesis for every field of a struct. -/
@[induction_eliminator]
theorem induction {motive : Ty → Prop} (void : motive .void) (int : ∀ bits, motive (.int bits))
    (float : ∀ bits, motive (.float bits)) (ptr : motive .ptr)
    (array : ∀ elem len, motive elem → motive (.array elem len))
    (struct : ∀ packed fields, (∀ t ∈ fields, motive t) → motive (.struct packed fields))
    (func : motive .func) (incomplete : motive .incomplete) (t : Ty) : motive t :=
  @Ty.rec motive (fun ts => ∀ t ∈ ts, motive t) void int float ptr array struct func incomplete
    (fun _ h => nomatch h)
    (fun _ _ head tail _ h => (List.mem_cons.1 h).elim (fun e => e ▸ head) (tail _)) t

def isPointer : Ty → Bool
  | ptr => true
  | _ => false

def isInt : Ty → Bool
  | int _ => true
  | _ => false

mutual

/-- Structural equality. -/
def same : Ty → Ty → Bool
  | void, void => true
  | int m, int n => m == n
  | float m, float n => m == n
  | ptr, ptr => true
  | array s m, array t n => m == n && same s t
  | struct p fs, struct q gs => p == q && sameFields fs gs
  | func, func => true
  | incomplete, incomplete => true
  | _, _ => false

def sameFields : List Ty → List Ty → Bool
  | [], [] => true
  | s :: ss, t :: ts => same s t && sameFields ss ts
  | _, _ => false

end

theorem sameFields_iff {ss : List Ty} (h : ∀ s ∈ ss, ∀ t, same s t = true ↔ s = t) (ts : List Ty) :
    sameFields ss ts = true ↔ ss = ts := by
  induction ss generalizing ts with
  | nil => cases ts <;> simp [sameFields]
  | cons s ss ih =>
    cases ts with
    | nil => simp [sameFields]
    | cons t ts =>
      simp [sameFields, h s List.mem_cons_self, ih fun u hu => h u (List.mem_cons_of_mem _ hu)]

theorem same_iff (s t : Ty) : same s t = true ↔ s = t := by
  induction s generalizing t with
  | array elem len ih => cases t <;> simp [same, ih, and_comm]
  | struct packed fields ih => cases t <;> simp [same, sameFields_iff ih]
  | _ => cases t <;> simp [same]

instance : DecidableEq Ty := fun s t =>
  decidable_of_iff (same s t = true) (same_iff s t)

mutual

/-- Values of a sized type take up memory of a definite size. -/
def isSized : Ty → Bool
  | void | func | incomplete => false
  | int bits | float bits => bits != 0
  | ptr => true
  | array elem _ => isSized elem
  | struct _ fields => allSized fields

def allSized : List Ty → Bool
  | [] => true
  | t :: ts => isSized t && allSized ts

end

theorem allSized_eq_all (ts : List Ty) : allSized ts = ts.all isSized := by
  induction ts with
  | nil => rfl
  | cons t ts ih => simp [allSized, ih]

mutual

def render : Ty → String
  | void => "void"
  | int bits => "i" ++ Nat.repr bits.toNat
  | float bits => "f" ++ Nat.repr bits.toNat
  | ptr => "ptr"
  | array elem len => "[" ++ Nat.repr len.toNat ++ " x " ++ render elem ++ "]"
  | struct false fields => "\x7b " ++ String.intercalate ", " (renderAll fields) ++ " \x7d"
  | struct true fields => "<\x7b " ++ String.intercalate ", " (renderAll fields) ++ " \x7d>"
  | func => "fn"
  | incomplete => "opaque"

def renderAll : List Ty → List String
  | [] => []
  | t :: ts => render t :: renderAll ts

end

theorem renderAll_eq_map (ts : List Ty) : renderAll ts = ts.map render := by
  induction ts with
  | nil => rfl
  | cons t ts ih => simp [renderAll, ih]

end Ty

end PointerQuery
