namespace PointerQuery.Text

/-- A number to base sixteen in lower case, after `0x` and without leading zeros. -/
def hex (n : Nat) : String :=
  "0x" ++ String.ofList (Nat.toDigits 16 n)

end PointerQuery.Text
