/-!
# Numbers in base sixteen

Hexadecimal text has lower-case digits, begins with `0x`, and has no leading zeros unless a width
is asked for.
-/

namespace Interlock.Text

/-- The hexadecimal digits of a number, none of them superfluous. -/
def hexDigits (n : Nat) : String := String.ofList (Nat.toDigits 16 n)

/-- A number in base sixteen. -/
def hex (n : Nat) : String := "0x" ++ hexDigits n

/-- A number in base sixteen with at least `width` digits. -/
def hexPadded (width n : Nat) : String :=
  let digits := Nat.toDigits 16 n
  "0x" ++ String.ofList (List.replicate (width - digits.length) '0' ++ digits)

end Interlock.Text
