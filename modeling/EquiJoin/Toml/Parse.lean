/-
TOML documents, read as a whole: values that nest, lines, and headers. Everything that nests runs on a bound that is
larger than the number of characters, and separately on a depth.
-/
import EquiJoin.Toml.Document
import EquiJoin.Toml.Scan

namespace EquiJoin.Toml

open Scan

mutual

/-- one value; `depth` is how many brackets and braces may still open -/
def value (bound depth : Nat) (cs : List Char) : Option (Value × List Char) :=
  match bound with
  | 0 => none
  | bound + 1 =>
    match cs with
    | [] => none
    | c :: r =>
      if c = '"' ∨ c = '\'' then (string cs).map fun (s, r) => (.string s, r)
      else if c = '[' then
        match depth with
        | 0 => none
        | depth + 1 => (items bound depth r).map fun (vs, r) => (.array vs, r)
      else if c = '\x7b' then
        match depth with
        | 0 => none
        | depth + 1 =>
          match blanks r with
          | '\x7d' :: r => some (.table .inline [], r)
          | _ => (pairs bound depth [] r).map fun (es, r) => (.table .inline es, r)
      else if c = 't' then (word? "true" cs).map fun r => (.boolean true, r)
      else if c = 'f' then (word? "false" cs).map fun r => (.boolean false, r)
      else if c = 'i' ∨ c = 'n' then namedFloat cs
      else if c = '+' ∨ c = '-' ∨ c.isDigit then number cs
      else none

/-- the items of an array up to its closing bracket; a comma may follow the last one -/
def items (bound depth : Nat) (cs : List Char) : Option (List Value × List Char) :=
  match bound with
  | 0 => none
  | bound + 1 =>
    match skipLines cs.length cs with
    | ']' :: r => some ([], r)
    | cs =>
      match value bound depth cs with
      | none => none
      | some (v, r) =>
        match skipLines r.length r with
        | ',' :: r => (items bound depth r).map fun (vs, r) => (v :: vs, r)
        | ']' :: r => some ([v], r)
        | _ => none

/-- the pairs of a table in braces up to its closing brace, added to those so far; all on one line -/
def pairs (bound depth : Nat) (es : Entries) (cs : List Char) : Option (Entries × List Char) :=
  match bound with
  | 0 => none
  | bound + 1 =>
    match key cs with
    | none => none
    | some (ks, r) =>
      match ks.getLast?, char? '=' r with
      | some k, some r =>
        match value bound depth (blanks r) with
        | none => none
        | some (v, r) =>
          match es.put ks.dropLast k v with
          | none => none
          | some es =>
            match blanks r with
            | ',' :: r => pairs bound depth es r
            | '\x7d' :: r => some (es, r)
            | _ => none
      | _, _ => none

end

/-- a line with a key and its value -/
def pairLine (d : Document) (cs : List Char) : Option (Document × List Char) := do
  let (ks, r) ← key cs
  let k ← ks.getLast?
  let r ← char? '=' r
  let (v, r) ← value (2 * r.length + 2) (depthLimit - 1) (blanks r)
  let r ← lineEnd? r
  return (← d.put ks.dropLast k v, r)

/-- a line with a header -/
def headerLine (d : Document) (cs : List Char) : Option (Document × List Char) := do
  match cs with
  | '[' :: '[' :: r =>
    let (path, r) ← key r
    let r ← lineEnd? (← word? "]]" r)
    return (← d.openItem path, r)
  | '[' :: r =>
    let (path, r) ← key r
    let r ← lineEnd? (← char? ']' r)
    return (← d.openTable path, r)
  | _ => none

/-- lines up to the end of the input -/
def lines (bound : Nat) (d : Document) (cs : List Char) : Option Document :=
  match bound with
  | 0 => none
  | bound + 1 =>
    match blanks cs with
    | [] => some d
    | c :: r =>
      if c = '#' ∨ c = '\n' ∨ c = '\r' then
        match lineEnd? (c :: r) with
        | some r => lines bound d r
        | none => none
      else
        match if c = '[' then headerLine d (c :: r) else pairLine d (c :: r) with
        | some (d, r) => lines bound d r
        | none => none

/-- the root table of a document; a byte order mark in front is no part of it -/
def parse (source : String) : Option Entries := do
  let cs := source.toList
  let cs := if cs.head? = some '\ufeff' then cs.drop 1 else cs
  let d ← lines (cs.length + 1) Document.start cs
  d.close

end EquiJoin.Toml
