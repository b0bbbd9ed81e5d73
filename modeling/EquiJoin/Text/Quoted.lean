/-
Quoted text: a string between double quotes, in which quotes, backslashes, control characters and everything that would
not show up as a character of its own are escaped.
-/
import EquiJoin.Text.Printable
import EquiJoin.Text.Record

namespace EquiJoin.Text

/-- one character inside quotes -/
def escape (c : Char) : String :=
  if c = '\x00' then "\\0"
  else if c = '\t' then "\\t"
  else if c = '\n' then "\\n"
  else if c = '\r' then "\\r"
  else if c = '"' then "\\\""
  else if c = '\\' then "\\\\"
  else if Printable.standsAlone c then String.singleton c
  else "\\u\x7b" ++ hex c.toNat ++ "\x7d"

/-- a string between double quotes -/
def quoted (s : String) : String := "\"" ++ String.join (s.toList.map escape) ++ "\""

end EquiJoin.Text
