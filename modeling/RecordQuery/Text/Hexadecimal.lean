/-!
# Hexadecimal digits

* `Text.hexDigit`: the digit of a number below sixteen, in lower case.
* `Text.hexValue?`: the number that a digit of either case writes.
* `Text.hexValue?_hexDigit`, `Text.hexValue?_toUpper_hexDigit`: digits read back in both cases.
* `Text.hexValue?_bounds`: what is read is below sixteen, and below ten it tells the digit.
-/

namespace RecordQuery.Text

/-- The hexadecimal digit of a number below sixteen, in lower case. -/
def hexDigit (n : Nat) : Char := Nat.digitChar n

/-- The number that a hexadecimal digit of either case writes. -/
def hexValue? (c : Char) : Option Nat :=
  if '0' ≤ c ∧ c ≤ '9' then some (c.toNat - '0'.toNat)
  else if 'A' ≤ c ∧ c ≤ 'F' then some (c.toNat - 'A'.toNat + 10)
  else if 'a' ≤ c ∧ c ≤ 'f' then some (c.toNat - 'a'.toNat + 10)
  else none

theorem hexValue?_hexDigit {n : Nat} (h : n < 16) : hexValue? (hexDigit n) = some n := by
  revert n
  decide

theorem hexValue?_toUpper_hexDigit {n : Nat} (h : n < 16) :
    hexValue? (hexDigit n).toUpper = some n := by
  revert n
  decide

/-- Values are below sixteen, and those below ten have one digit each. -/
theorem hexValue?_bounds {c : Char} {n : Nat} (h : hexValue? c = some n) :
    n < 16 ∧ (n < 10 → c.toNat = '0'.toNat + n) := by
  have hle {a b : Char} (hab : a ≤ b) : a.toNat ≤ b.toNat := hab
  unfold hexValue? at h
  repeat' split at h
  all_goals cases h
  all_goals
    rename_i hrange
    have hlow := hle hrange.1
    have hhigh := hle hrange.2
    simp only [Char.reduceToNat] at *
    omega

end RecordQuery.Text
