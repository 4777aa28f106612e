/-
  Decimal constants.

  A constant is a non-empty run of ASCII digits.  Its value is read in full,
  whatever its size, as long as it has no more digits than `digitLimit`;
  leading zeros count.

  * `isDecimal` recognises constants;
  * `decimalValue` is the number that a run of digits denotes;
  * `readDecimal` reads a constant or says why it is none;
  * `readInteger` reads a constant with a sign before it;
  * `isWritable`: the limit holds for writing a number as well.
-/
import Straightline.Text.Quoted

namespace Straightline.Text

/-- The largest number of digits that a constant may have, where it is read and
    where it is written. -/
def digitLimit : Nat := 4300

/-- Why a text is not read as a constant. -/
inductive DecimalError where
  /-- The text is empty or holds a character that is no digit. -/
  | notDigits (text : String)
  /-- The text has more digits than the limit. -/
  | tooLong (digits : Nat)
  deriving DecidableEq, Repr

/-- The wording of a refusal. -/
def DecimalError.message : DecimalError → String
  | notDigits text => s!"Invalid integer constant: {quoted text}"
  | tooLong digits =>
    s!"Exceeds the limit ({digitLimit} digits) for integer string conversion: " ++
    s!"value has {digits} digits; use sys.set_int_max_str_digits() to increase the limit"

/-- Whether a text is a non-empty run of ASCII digits. -/
def isDecimal (text : List Char) : Bool :=
  !text.isEmpty && text.all Char.isDigit

/-- The number denoted by a run of digits, most significant first. -/
def decimalValue (digits : List Char) : Nat :=
  digits.foldl (fun n c => 10 * n + (c.toNat - '0'.toNat)) 0

/-- The value of a decimal constant. -/
def readDecimal (text : String) : Except DecimalError Nat :=
  let digits := text.toList
  if !isDecimal digits then .error (.notDigits text)
  else if digitLimit < digits.length then .error (.tooLong digits.length)
  else .ok (decimalValue digits)

/-- The value of a decimal constant with an optional sign, which is no digit
    and does not count as one. -/
def readInteger (text : String) : Except DecimalError Int :=
  match text.toList with
  | '-' :: digits => (readDecimal (String.ofList digits)).map fun n => -(n : Int)
  | '+' :: digits => (readDecimal (String.ofList digits)).map fun n => (n : Int)
  | _ => (readDecimal text).map fun n => (n : Int)

/-- Whether a number can be written: it has no more digits than the limit,
    where a sign does not count. -/
def isWritable (value : Int) : Bool :=
  (Nat.toDigits 10 value.natAbs).length ≤ digitLimit

end Straightline.Text
