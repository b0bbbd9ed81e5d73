/-
How values are shown: records as `Name { field: value, … }`, wrapped values as `Name(value)`, lists in brackets,
optional values as `Some(value)` or `None`.
-/
namespace EquiJoin.Text

/-- items between commas -/
def commaSeparated (items : List String) : String := ", ".intercalate items

/-- a record with named fields -/
def record (name : String) (fields : List (String × String)) : String :=
  name ++ " \x7b " ++ commaSeparated (fields.map fun f => f.1 ++ ": " ++ f.2) ++ " \x7d"

/-- a value inside its constructor -/
def wrapped (name value : String) : String := name ++ "(" ++ value ++ ")"

def list (items : List String) : String := "[" ++ commaSeparated items ++ "]"

def optional : Option String → String
  | none => "None"
  | some s => wrapped "Some" s

def flag (b : Bool) : String := if b then "true" else "false"

/-- the hexadecimal digit of a number below 16, in lower case -/
def hexDigit (n : Nat) : Char := Char.ofNat (if n < 10 then 48 + n else 87 + n)

/-- `n` in hexadecimal, without leading zeros -/
def hex (n : Nat) : String := String.ofList (Nat.toDigits 16 n)

/-- `n` in hexadecimal, `w` digits at least -/
def paddedHex (w n : Nat) : String := "".pushn '0' (w - (hex n).length) ++ hex n

end EquiJoin.Text
