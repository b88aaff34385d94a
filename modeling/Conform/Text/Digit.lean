import Conform.Text.Blank

/-! # ASCII digits and what they write

    A run of digits writes a natural number in base ten, the most significant
    digit first. -/

namespace Conform.Text

/-- An ASCII digit. -/
def isDigit (c : Char) : Bool := Nat.ble 48 c.toNat && Nat.ble c.toNat 57

/-- The value of a hexadecimal digit, its letter small or capital. -/
def hexDigit? (c : Char) : Option Nat :=
  let n := c.toNat
  if isDigit c then some (n - 48)
  else if Nat.ble 65 n && Nat.ble n 70 then some (n - 55)
  else if Nat.ble 97 n && Nat.ble n 102 then some (n - 87)
  else none

/-- The natural number that ASCII digits write. -/
def digitsValue (digits : Chars) : Nat :=
  digits.foldl (fun n c => 10 * n + (c.toNat - 48)) 0

@[simp] theorem digitsValue_nil : digitsValue [] = 0 := rfl

/-- One more digit at the end. -/
theorem digitsValue_append_singleton (digits : Chars) (c : Char) :
    digitsValue (digits ++ [c]) = 10 * digitsValue digits + (c.toNat - 48) := by
  unfold digitsValue
  rw [List.foldl_append]
  rfl

end Conform.Text
