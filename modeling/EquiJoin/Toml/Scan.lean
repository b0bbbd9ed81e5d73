/-
The lexical layer of TOML: blanks, comments, keys, strings, numbers, dates and times. A scanner takes the characters
that are left and gives a value and the characters after it, or refuses; there is one error, so a scanner that fails
is simply `none`. Loops that consume at least one character a turn run on a bound of the number of characters left.
-/
import EquiJoin.Decimal
import EquiJoin.Toml.Value

namespace EquiJoin.Toml

/-- reads a value from the front of the input -/
abbrev Scan (α : Type) := List Char → Option (α × List Char)

namespace Scan

/-! ## Blanks and comments -/

def isBlank (c : Char) : Bool := c = ' ' || c = '\t'

def blanks (cs : List Char) : List Char := cs.dropWhile isBlank

def newline? : List Char → Option (List Char)
  | '\n' :: cs => some cs
  | '\r' :: '\n' :: cs => some cs
  | _ => none

/-- characters of a comment: no control character but the tab -/
def isCommentChar (c : Char) : Bool := c = '\t' || (0x20 ≤ c.toNat && c.toNat ≠ 0x7f)

/-- what follows a comment, if one starts here -/
def comment : List Char → List Char
  | '#' :: cs => cs.dropWhile isCommentChar
  | cs => cs

/-- the end of a line: blanks, a comment, and a newline or the end of the input -/
def lineEnd? (cs : List Char) : Option (List Char) :=
  match comment (blanks cs) with
  | [] => some []
  | cs => newline? cs

/-- blanks, comments and newlines, any number of them -/
def skipLines (bound : Nat) (cs : List Char) : List Char :=
  match bound with
  | 0 => cs
  | bound + 1 =>
    match comment (blanks cs) with
    | [] => []
    | c :: r =>
      match newline? (c :: r) with
      | some r => skipLines bound r
      | none => c :: r

/-- drop one literal character -/
def char? (c : Char) : List Char → Option (List Char)
  | [] => none
  | d :: cs => if c = d then some cs else none

/-- drop a literal word -/
def word? (w : String) (cs : List Char) : Option (List Char) :=
  if w.toList.isPrefixOf cs then some (cs.drop w.length) else none

/-! ## Strings -/

def hexValue? (c : Char) : Option Nat :=
  if '0' ≤ c ∧ c ≤ '9' then some (c.toNat - 48)
  else if 'a' ≤ c ∧ c ≤ 'f' then some (c.toNat - 87)
  else if 'A' ≤ c ∧ c ≤ 'F' then some (c.toNat - 55)
  else none

/-- a character by `n` hexadecimal digits; only real characters have one -/
def hexChar (n : Nat) : Scan Char := fun cs => do
  let digits ← (cs.take n).mapM hexValue?
  if digits.length ≠ n then none
  let code := digits.foldl (fun acc d => 16 * acc + d) 0
  if Nat.isValidChar code then some (Char.ofNat code, cs.drop n) else none

/-- what a backslash stands for -/
def escape : Scan Char
  | 'b' :: cs => some ('\x08', cs)
  | 't' :: cs => some ('\t', cs)
  | 'n' :: cs => some ('\n', cs)
  | 'f' :: cs => some ('\x0c', cs)
  | 'r' :: cs => some ('\r', cs)
  | '"' :: cs => some ('"', cs)
  | '\\' :: cs => some ('\\', cs)
  | 'u' :: cs => hexChar 4 cs
  | 'U' :: cs => hexChar 8 cs
  | _ => none

/-- characters that stand for themselves in a string: no control character but the tab -/
def isStringChar (c : Char) : Bool := c = '\t' || (0x20 ≤ c.toNat && c.toNat ≠ 0x7f)

/-- the rest of a string in double quotes; `text` is what came before, reversed -/
def basicBody (bound : Nat) (text : List Char) (cs : List Char) : Option (String × List Char) :=
  match bound, cs with
  | _, '"' :: cs => some (String.ofList text.reverse, cs)
  | bound + 1, '\\' :: cs =>
    match escape cs with
    | some (c, cs) => basicBody bound (c :: text) cs
    | none => none
  | bound + 1, c :: cs => if isStringChar c then basicBody bound (c :: text) cs else none
  | _, _ => none

/-- the rest of a string in single quotes -/
def literalBody (text : List Char) : Scan String
  | '\'' :: cs => some (String.ofList text.reverse, cs)
  | c :: cs => if isStringChar c then literalBody (c :: text) cs else none
  | [] => none

/-- the end of a string in triple quotes: two more quotes may come before the closing three -/
def closing? (q : Char) (text : List Char) (cs : List Char) : Option (String × List Char) :=
  let run := (cs.takeWhile (· = q)).length
  if run < 3 then none
  else
    let extra := min (run - 3) 2
    some (String.ofList (List.replicate extra q ++ text).reverse, cs.drop (3 + extra))

/-- what follows a backslash at the end of a line: all blanks and newlines -/
def lineFold (bound : Nat) (cs : List Char) : List Char :=
  match bound with
  | 0 => cs
  | bound + 1 =>
    match newline? (blanks cs) with
    | some r => lineFold bound r
    | none => blanks cs

/-- the rest of a string in triple double quotes -/
def longBasicBody (bound : Nat) (text : List Char) (cs : List Char) : Option (String × List Char) :=
  match closing? '"' text cs with
  | some r => some r
  | none =>
    match bound, cs with
    | 0, _ => none
    | _, [] => none
    | bound + 1, c :: r =>
      if c = '\\' then
        match newline? (blanks r) with
        | some r => longBasicBody bound text (lineFold r.length r)
        | none =>
          match escape r with
          | some (c, r) => longBasicBody bound (c :: text) r
          | none => none
      else if isStringChar c then longBasicBody bound (c :: text) r
      else
        match newline? (c :: r) with
        | some r => longBasicBody bound ('\n' :: text) r
        | none => none

/-- the rest of a string in triple single quotes -/
def longLiteralBody (bound : Nat) (text : List Char) (cs : List Char) : Option (String × List Char) :=
  match closing? '\'' text cs with
  | some r => some r
  | none =>
    match bound, cs with
    | 0, _ => none
    | _, [] => none
    | bound + 1, c :: r =>
      if isStringChar c then longLiteralBody bound (c :: text) r
      else
        match newline? (c :: r) with
        | some r => longLiteralBody bound ('\n' :: text) r
        | none => none

/-- the newline right after opening triple quotes is no part of the string -/
def afterOpening (cs : List Char) : List Char := (newline? cs).getD cs

/-- a string of any of the four kinds -/
def string (cs : List Char) : Option (String × List Char) :=
  match cs with
  | '"' :: '"' :: '"' :: r => longBasicBody r.length [] (afterOpening r)
  | '"' :: r => basicBody r.length [] r
  | '\'' :: '\'' :: '\'' :: r => longLiteralBody r.length [] (afterOpening r)
  | '\'' :: r => literalBody [] r
  | _ => none

/-! ## Keys -/

def isBareChar (c : Char) : Bool := c.isAlphanum || c = '-' || c = '_'

/-- one part of a key; strings in triple quotes are none -/
def keyPart (cs : List Char) : Option (String × List Char) :=
  match cs with
  | '"' :: r => basicBody r.length [] r
  | '\'' :: r => literalBody [] r
  | _ =>
    match cs.takeWhile isBareChar with
    | [] => none
    | name => some (String.ofList name, cs.dropWhile isBareChar)

/-- the parts of a dotted key, with blanks around them -/
def keyParts (bound : Nat) (cs : List Char) : Option (List String × List Char) :=
  match bound with
  | 0 => none
  | bound + 1 =>
    match keyPart (blanks cs) with
    | none => none
    | some (k, cs) =>
      match blanks cs with
      | '.' :: cs =>
        match keyParts bound cs with
        | some (ks, cs) => some (k :: ks, cs)
        | none => none
      | cs => some ([k], cs)

/-- values and dotted keys nest below this depth only -/
def depthLimit : Nat := 80

/-- a dotted key -/
def key (cs : List Char) : Option (List String × List Char) :=
  match keyParts (cs.length + 1) cs with
  | some (ks, cs) => if ks.length < depthLimit then some (ks, cs) else none
  | none => none

/-! ## Numbers -/

/-- the digits that go on a number, each with at most one underscore before it; the underscores are dropped -/
def moreDigits (isDigit : Char → Bool) : List Char → List Char × List Char
  | [] => ([], [])
  | '_' :: c :: cs =>
    if isDigit c then
      let (ds, r) := moreDigits isDigit cs
      (c :: ds, r)
    else ([], '_' :: c :: cs)
  | c :: cs =>
    if isDigit c then
      let (ds, r) := moreDigits isDigit cs
      (c :: ds, r)
    else ([], c :: cs)

/-- one digit or more, single underscores between them -/
def digitRun (isDigit : Char → Bool) : Scan (List Char)
  | c :: cs =>
    if isDigit c then
      let (ds, r) := moreDigits isDigit cs
      some (c :: ds, r)
    else none
  | [] => none

def digitsValue (base : Nat) (ds : List Char) : Nat :=
  ds.foldl (fun acc c => base * acc + (hexValue? c).getD 0) 0

/-- a sign; plus is the default -/
def sign : List Char → Bool × List Char
  | '-' :: cs => (true, cs)
  | '+' :: cs => (false, cs)
  | cs => (false, cs)

/-- a whole number in decimal, without leading zeros: its sign and its digits -/
def wholeNumber (cs : List Char) : Option ((Bool × List Char) × List Char) :=
  let (neg, cs) := sign cs
  match cs with
  | '0' :: r => some ((neg, ['0']), r)
  | _ => (digitRun Char.isDigit cs).map fun (ds, r) => ((neg, ds), r)

/-- an integer must fit 64 bits -/
def fitting (i : Int) (cs : List Char) : Option (Value × List Char) :=
  if -(1 <<< 63 : Nat) ≤ i ∧ i < (1 <<< 63 : Nat) then some (.integer i, cs) else none

/-- an integer written in another base -/
def based (base : Nat) (isDigit : Char → Bool) (cs : List Char) : Option (Value × List Char) :=
  match digitRun isDigit cs with
  | some (ds, cs) => fitting (digitsValue base ds) cs
  | none => none

def integer (cs : List Char) : Option (Value × List Char) :=
  match cs with
  | '0' :: 'x' :: r => based 16 (fun c => (hexValue? c).isSome) r
  | '0' :: 'o' :: r => based 8 (fun c => '0' ≤ c && c ≤ '7') r
  | '0' :: 'b' :: r => based 2 (fun c => c = '0' || c = '1') r
  | _ =>
    match wholeNumber cs with
    | some ((neg, ds), r) =>
      let n : Int := digitsValue 10 ds
      fitting (if neg then -n else n) r
    | none => none

/-- the digits after a point, none if there is no point -/
def fraction (cs : List Char) : Option (List Char × List Char) :=
  match cs with
  | '.' :: r => digitRun Char.isDigit r
  | _ => some ([], cs)

/-- the power of ten, zero if there is none; the flag says whether one is written -/
def power (cs : List Char) : Option ((Bool × Int) × List Char) :=
  match cs with
  | c :: r =>
    if c = 'e' ∨ c = 'E' then
      let (neg, r) := sign r
      match digitRun Char.isDigit r with
      | some (ds, r) =>
        let n : Int := digitsValue 10 ds
        some ((true, if neg then -n else n), r)
      | none => none
    else some ((false, 0), cs)
  | [] => some ((false, 0), [])

/-- infinity and NaN by name -/
def namedFloat (cs : List Char) : Option (Value × List Char) :=
  let (neg, r) := sign cs
  match word? "inf" r with
  | some r => some (.float (Binary64.infinity neg), r)
  | none =>
    match word? "nan" r with
    | some r => some (.float Binary64.nan, r)
    | none => none

/-- a number with a point or a power of ten; one that is too large for a positive number is refused -/
def float (cs : List Char) : Option (Value × List Char) := do
  let ((neg, whole), cs) ← wholeNumber cs
  let (frac, cs) ← fraction cs
  let ((written, ten), cs) ← power cs
  if frac.isEmpty && !written then none
  let x := Decimal.nearest neg ⟨digitsValue 10 (whole ++ frac), ten - frac.length⟩
  if x = Binary64.infinity false then none
  return (.float x, cs)

/-! ## Dates and times -/

/-- a number of exactly `n` digits between two bounds -/
def field (n lo hi : Nat) (cs : List Char) : Option (Nat × List Char) :=
  let ds := cs.take n
  let v := digitsValue 10 ds
  if ds.length = n ∧ ds.all Char.isDigit ∧ lo ≤ v ∧ v ≤ hi then some (v, cs.drop n) else none

def isLeap (year : Nat) : Bool := year % 4 = 0 && (year % 100 ≠ 0 || year % 400 = 0)

def daysIn (year month : Nat) : Nat :=
  if month = 2 then (if isLeap year then 29 else 28)
  else if month = 4 || month = 6 || month = 9 || month = 11 then 30
  else 31

def date (cs : List Char) : Option (List Char) := do
  let (year, cs) ← field 4 0 9999 cs
  let (month, cs) ← field 2 1 12 (← char? '-' cs)
  let (_, cs) ← field 2 1 (daysIn year month) (← char? '-' cs)
  return cs

/-- hours, minutes, seconds and any fraction of a second; a leap second counts 60 -/
def time (cs : List Char) : Option (List Char) := do
  let (_, cs) ← field 2 0 23 cs
  let (_, cs) ← field 2 0 59 (← char? ':' cs)
  let (_, cs) ← field 2 0 60 (← char? ':' cs)
  match cs with
  | '.' :: r => if (r.takeWhile Char.isDigit).isEmpty then return cs else return r.dropWhile Char.isDigit
  | _ => return cs

/-- what follows the distance from universal time, if one is written -/
def offset (cs : List Char) : List Char :=
  match cs with
  | 'Z' :: r => r
  | 'z' :: r => r
  | c :: r =>
    if c = '+' ∨ c = '-' then
      let after := do
        let (_, r) ← field 2 0 23 r
        let (_, r) ← field 2 0 59 (← char? ':' r)
        return r
      after.getD cs
    else cs
  | [] => []

/-- a date, a time, or both -/
def moment (cs : List Char) : Option (Value × List Char) :=
  match date cs with
  | some cs =>
    match cs with
    | c :: r =>
      if c = 'T' ∨ c = 't' ∨ c = ' ' then
        match time r with
        | some r => some (.moment, offset r)
        | none => some (.moment, cs)
      else some (.moment, cs)
    | [] => some (.moment, [])
  | none => (time cs).map fun cs => (.moment, cs)

/-- a value that starts with a sign or a digit -/
def number (cs : List Char) : Option (Value × List Char) :=
  (((moment cs).orElse fun _ => float cs).orElse fun _ => namedFloat cs).orElse fun _ => integer cs

end Scan

end EquiJoin.Toml
