import PointerQuery.Proofs.Numerals
import PointerQuery.Ty

/-!
A type can be told from its printed form. A printed type may begin another one (`i3` begins `i32`), and a struct does
not say how many fields it has. So the induction is over a type together with the text after it: where that text does
not begin with a digit, the type and the text are both determined.
-/

namespace PointerQuery

open Text

namespace Ty

/-- How a type is built, without its numbers and its parts. -/
inductive Form where
  | void
  | int
  | float
  | ptr
  | array
  | struct (packed : Bool)
  | func
  | incomplete

def form : Ty → Form
  | void => .void
  | int _ => .int
  | float _ => .float
  | ptr => .ptr
  | array _ _ => .array
  | struct packed _ => .struct packed
  | func => .func
  | incomplete => .incomplete

/-- Reads how a type is built off the front of its text. -/
def Form.ofText? : List Char → Option Form
  | 'v' :: _ => some .void
  | 'i' :: _ => some .int
  -- The only two forms that begin alike: a digit follows the `f` of a float.
  | 'f' :: 'n' :: _ => some .func
  | 'f' :: _ => some .float
  | 'p' :: _ => some .ptr
  | '[' :: _ => some .array
  | '\x7b' :: _ => some (.struct false)
  | '<' :: _ => some (.struct true)
  | 'o' :: _ => some .incomplete
  | _ => none

/-- The fields of a struct after the first, each with the comma before it. -/
def followers (ts : List Ty) : List Char :=
  ts.flatMap fun t => ',' :: ' ' :: t.render.toList

/-- The fields of a struct with the commas between them. -/
def fieldsText : List Ty → List Char
  | [] => []
  | t :: ts => t.render.toList ++ followers ts

/-- What stands before the fields of a struct. -/
def opening : Bool → List Char
  | false => ['\x7b', ' ']
  | true => ['<', '\x7b', ' ']

/-- What stands after the blank that ends the fields of a struct. -/
def closing : Bool → List Char
  | false => ['\x7d']
  | true => ['\x7d', '>']

theorem followers_cons (t : Ty) (ts : List Ty) : followers (t :: ts) = ',' :: ' ' :: fieldsText (t :: ts) := by
  simp [followers, fieldsText]

theorem toList_render_int (bits : UInt32) : (int bits).render.toList = 'i' :: (Nat.repr bits.toNat).toList := by
  simp [render, String.toList_append]

theorem toList_render_float (bits : UInt32) : (float bits).render.toList = 'f' :: (Nat.repr bits.toNat).toList := by
  simp [render, String.toList_append]

theorem toList_render_array (elem : Ty) (len : UInt64) : (array elem len).render.toList =
    '[' :: ((Nat.repr len.toNat).toList ++ ' ' :: 'x' :: ' ' :: (elem.render.toList ++ [']'])) := by
  simp [render, String.toList_append]

theorem toList_intercalate_renderAll (ts : List Ty) :
    (String.intercalate ", " (renderAll ts)).toList = fieldsText ts := by
  rw [renderAll_eq_map]
  cases ts with
  | nil => rfl
  | cons t ts =>
    induction ts generalizing t with
    | nil => simp [fieldsText, followers]
    | cons u ts ih =>
      rw [List.map_cons, List.map_cons, String.intercalate_cons_cons, String.toList_append, ← List.map_cons, ih u]
      simp [fieldsText, followers]

theorem toList_render_struct (packed : Bool) (fields : List Ty) :
    (struct packed fields).render.toList = opening packed ++ (fieldsText fields ++ ' ' :: closing packed) := by
  rw [← toList_intercalate_renderAll]
  cases packed <;> simp [render, opening, closing]

theorem Form.ofText?_render_append (t : Ty) (rest : List Char) :
    Form.ofText? (t.render.toList ++ rest) = some t.form := by
  cases t with
  | void | ptr | func | incomplete => rfl
  | int bits =>
    rw [toList_render_int]
    rfl
  | float bits =>
    obtain ⟨c, cs, hrepr, hc⟩ := exists_digit_cons_repr bits.toNat
    have hne : c ≠ 'n' := by
      rintro rfl
      cases hc
    rw [toList_render_float, hrepr]
    simp [Form.ofText?, form, hne]
  | array elem len =>
    rw [toList_render_array]
    rfl
  | struct packed fields =>
    rw [toList_render_struct]
    cases packed <;> rfl

theorem form_eq_of_append {t u : Ty} {rest rest' : List Char}
    (h : t.render.toList ++ rest = u.render.toList ++ rest') : t.form = u.form := by
  have hform := Form.ofText?_render_append t rest
  rw [h, Form.ofText?_render_append u rest'] at hform
  exact (Option.some.inj hform).symm

/-- A struct without fields has a blank where another one has its first field. -/
theorem fieldsText_cons_append_ne (t : Ty) (ts : List Ty) (rest rest' : List Char) :
    fieldsText (t :: ts) ++ rest ≠ ' ' :: rest' := by
  intro h
  have hform := Form.ofText?_render_append t (followers ts ++ rest)
  rw [← List.append_assoc, ← fieldsText, h] at hform
  cases hform

/-- Where no digit follows, the text of the type is the text of no other one, and it is clear where it ends. -/
def Delimited (t : Ty) : Prop :=
  ∀ (u : Ty) (rest rest' : List Char), EndsNumeral rest → EndsNumeral rest' →
    t.render.toList ++ rest = u.render.toList ++ rest' → t = u ∧ rest = rest'

theorem endsNumeral_followers (ts : List Ty) (rest : List Char) : EndsNumeral (followers ts ++ ' ' :: rest) := by
  cases ts with
  | nil => exact endsNumeral_cons (by decide) rest
  | cons t ts => exact endsNumeral_cons (by decide) _

theorem followers_append_inj {ts us : List Ty} {rest rest' : List Char} (hts : ∀ t ∈ ts, Delimited t)
    (h : followers ts ++ ' ' :: rest = followers us ++ ' ' :: rest') : ts = us ∧ rest = rest' := by
  induction ts generalizing us with
  | nil =>
    cases us with
    | nil => exact ⟨rfl, List.tail_eq_of_cons_eq h⟩
    | cons u us => simp [followers] at h
  | cons t ts ih =>
    cases us with
    | nil => simp [followers] at h
    | cons u us =>
      have hfirst : t.render.toList ++ (followers ts ++ ' ' :: rest) =
          u.render.toList ++ (followers us ++ ' ' :: rest') := by
        simpa [followers] using h
      obtain ⟨rfl, hothers⟩ := hts t List.mem_cons_self u _ _ (endsNumeral_followers ts rest)
        (endsNumeral_followers us rest') hfirst
      obtain ⟨rfl, hrest⟩ := ih (fun v hv => hts v (List.mem_cons_of_mem t hv)) hothers
      exact ⟨rfl, hrest⟩

theorem fieldsText_append_inj {ts us : List Ty} {rest rest' : List Char} (hts : ∀ t ∈ ts, Delimited t)
    (h : fieldsText ts ++ ' ' :: rest = fieldsText us ++ ' ' :: rest') : ts = us ∧ rest = rest' := by
  cases ts with
  | nil =>
    cases us with
    | nil => exact ⟨rfl, List.tail_eq_of_cons_eq h⟩
    | cons u us => exact absurd h.symm (fieldsText_cons_append_ne u us _ _)
  | cons t ts =>
    cases us with
    | nil => exact absurd h (fieldsText_cons_append_ne t ts _ _)
    | cons u us =>
      apply followers_append_inj hts
      simp only [followers_cons, List.cons_append, h]

theorem delimited (t : Ty) : Delimited t := by
  induction t with
  | void | ptr | func | incomplete =>
    intro u rest rest' _ _ h
    cases u <;> cases form_eq_of_append h
    exact ⟨rfl, List.append_cancel_left h⟩
  | int bits | float bits =>
    intro u rest rest' hrest hrest' h
    cases u <;> cases form_eq_of_append h
    simp only [toList_render_int, toList_render_float, List.cons_append, List.cons.injEq, true_and] at h
    obtain ⟨hbits, heq⟩ := repr_append_inj hrest hrest' h
    obtain rfl := UInt32.toNat_inj.mp hbits
    exact ⟨rfl, heq⟩
  | array elem len ih =>
    intro u rest rest' _ _ h
    cases u <;> cases form_eq_of_append h
    simp only [toList_render_array, List.cons_append, List.append_assoc, List.nil_append, List.cons.injEq,
      true_and] at h
    obtain ⟨hlen, helem⟩ := repr_append_inj (endsNumeral_cons (by decide) _) (endsNumeral_cons (by decide) _) h
    obtain rfl := UInt64.toNat_inj.mp hlen
    simp only [List.cons.injEq, true_and] at helem
    obtain ⟨rfl, heq⟩ := ih _ _ _ (endsNumeral_cons (by decide) _) (endsNumeral_cons (by decide) _) helem
    exact ⟨rfl, List.tail_eq_of_cons_eq heq⟩
  | struct packed fields ih =>
    intro u rest rest' _ _ h
    cases u <;> cases form_eq_of_append h
    simp only [toList_render_struct, List.append_assoc, List.cons_append, List.append_cancel_left_eq] at h
    obtain ⟨rfl, heq⟩ := fieldsText_append_inj ih h
    exact ⟨rfl, List.append_cancel_left heq⟩

example : (int 3).render.toList ++ ['2'] = (int 32).render.toList := by
  decide

end Ty

/-- Types that are printed alike are equal: the widths, the lengths, the fields in their order and the packedness of
every part of a type can be told from its text. -/
theorem type_text_determines_type (t u : Ty) : t.render = u.render ↔ t = u := by
  constructor
  · intro h
    have htext : t.render.toList ++ [] = u.render.toList ++ [] := by rw [h]
    exact (t.delimited u [] [] endsNumeral_nil endsNumeral_nil htext).1
  · exact congrArg Ty.render

end PointerQuery
