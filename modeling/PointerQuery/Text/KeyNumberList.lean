import PointerQuery.Text.Blank
import PointerQuery.Word

namespace PointerQuery.Text.KeyNumberList

structure Entry where
  key : String
  number : Word
  deriving DecidableEq

/-- Reads one entry that has no white space at its ends. -/
def entry? (item : List Char) : Option Entry :=
  let key := item.takeWhile Char.isLower
  match (item.dropWhile Char.isLower).dropWhile isBlank with
  | ':' :: rest =>
    let digits := rest.dropWhile isBlank
    if key.isEmpty || digits.isEmpty || !digits.all Char.isDigit then none
    else (Word.ofNat? (Nat.ofDigitChars 10 digits 0)).map fun n => ⟨String.ofList key, n⟩
  | _ => none

/-- Reads a whole list. A blank text is the empty list, and one malformed entry spoils the list. -/
def parse? (text : String) : Option (List Entry) :=
  if (trim text.toList).isEmpty then some []
  else (text.toList.splitOn ',').mapM fun item => entry? (trim item)

end PointerQuery.Text.KeyNumberList
