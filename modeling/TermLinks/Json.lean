import Mathlib.Data.Nat.Digits.Lemmas
import TermLinks.Utf16

namespace TermLinks.Json

/-- A number as its literal has it. -/
structure Number where
  negative : Bool
  whole : Nat
  fraction : List (Fin 10)
  exponent : Option Int
deriving DecidableEq

/-- The value, if it is an integer. -/
def Number.toInt? (n : Number) : Option Int :=
  let mantissa := Nat.ofDigits 10 ((n.fraction.map Fin.val).reverse) + n.whole * 10 ^ n.fraction.length
  let sign : Int := if n.negative then -1 else 1
  let scale := n.exponent.getD 0 - n.fraction.length
  if 0 ≤ scale then some (sign * mantissa * 10 ^ scale.toNat)
  else if 10 ^ (-scale).toNat ∣ mantissa then some (sign * (mantissa / 10 ^ (-scale).toNat : Nat))
  else none

inductive Value
  | null
  | bool (b : Bool)
  | number (n : Number)
  | string (text : String)
  | array (items : List Value)
  | object (members : List (String × Value))

def isSpace (c : Char) : Bool := c = ' ' || c = '\t' || c = '\n' || c = '\r'

def skipSpace (cs : List Char) : List Char := cs.dropWhile isSpace

/-- What comes after the character, if that is the next one after white space. -/
def expect (c : Char) (cs : List Char) : Option (List Char) :=
  match skipSpace cs with
  | d :: rest => if d = c then some rest else none
  | [] => none

def digit (c : Char) : Option (Fin 10) :=
  if h : 48 ≤ c.toNat ∧ c.toNat ≤ 57 then some ⟨c.toNat - 48, by omega⟩ else none

def digits : List Char → List (Fin 10) × List Char
  | [] => ([], [])
  | c :: rest =>
    match digit c with
    | some d => (d :: (digits rest).1, (digits rest).2)
    | none => ([], c :: rest)

def ofDigits (ds : List (Fin 10)) : Nat := Nat.ofDigits 10 (ds.reverse.map Fin.val)

def wholePart (cs : List Char) : Option (Nat × List Char) :=
  match digits cs with
  | ([], _) => none
  | (d :: ds, rest) => if d = 0 ∧ ds ≠ [] then none else some (ofDigits (d :: ds), rest)

def fractionPart : List Char → Option (List (Fin 10) × List Char)
  | [] => some ([], [])
  | c :: rest =>
    if c = '.' then
      if (digits rest).1 = [] then none else some (digits rest)
    else some ([], c :: rest)

def exponentSign : List Char → Bool × List Char
  | [] => (false, [])
  | c :: rest => if c = '-' then (true, rest) else if c = '+' then (false, rest) else (false, c :: rest)

def signed (negative : Bool) (n : Nat) : Int := if negative then -n else n

def exponentPart : List Char → Option (Option Int × List Char)
  | [] => some (none, [])
  | c :: rest =>
    if c = 'e' ∨ c = 'E' then
      match digits (exponentSign rest).2 with
      | ([], _) => none
      | (ds, more) => some (some (signed (exponentSign rest).1 (ofDigits ds)), more)
    else some (none, c :: rest)

def minus : List Char → Bool × List Char
  | [] => (false, [])
  | c :: rest => if c = '-' then (true, rest) else (false, c :: rest)

def number (cs : List Char) : Option (Number × List Char) := do
  let (whole, rest) ← wholePart (minus cs).2
  let (fraction, rest) ← fractionPart rest
  let (exponent, rest) ← exponentPart rest
  some (⟨(minus cs).1, whole, fraction, exponent⟩, rest)

def hexDigits : List Char := "0123456789abcdef".toList

def hexDigit (n : Nat) : Char := hexDigits.getD n '0'

def hexValue (c : Char) : Option Nat := hexDigits.idxOf? c.toLower

/-- The code unit of `\uXXXX`. -/
def hexUnit (a b c d : Char) : Option UInt16 := do
  some (UInt16.ofNat ((((← hexValue a) * 16 + (← hexValue b)) * 16 + (← hexValue c)) * 16 + (← hexValue d)))

/-- The escapes of two characters. -/
def shortEscapes : List (Char × Char) :=
  [('"', '"'), ('\\', '\\'), ('\x08', 'b'), ('\x0c', 'f'), ('\n', 'n'), ('\r', 'r'), ('\t', 't')]

def unescape (c : Char) : Option Char :=
  if c = '/' then some '/' else (shortEscapes.find? fun pair => pair.2 = c).map Prod.fst

/-- A string up to its closing quote, as code units. -/
def stringBody : List Char → Option (Utf16.Units × List Char)
  | [] => none
  | [c] => if c = '"' then some ([], []) else none
  | c :: d :: rest =>
    if c = '"' then some ([], d :: rest)
    else if c = '\\' then
      if d = 'u' then
        match rest with
        | w :: x :: y :: z :: rest => do
          let unit ← hexUnit w x y z
          let (units, rest) ← stringBody rest
          some (unit :: units, rest)
        | _ => none
      else do
        let plain ← unescape d
        let (units, rest) ← stringBody rest
        some (Utf16.encodeChar plain ++ units, rest)
    else if c.toNat < 0x20 then none
    else do
      let (units, rest) ← stringBody (d :: rest)
      some (Utf16.encodeChar c ++ units, rest)

/-- A string after its opening quote; a lone surrogate becomes the replacement character. -/
def string (cs : List Char) : Option (String × List Char) := do
  let (units, rest) ← stringBody cs
  some (String.ofList (Utf16.scalars units), rest)

def keyword (word : List Char) (v : Value) (cs : List Char) : Option (Value × List Char) :=
  if word <+: cs then some (v, cs.drop word.length) else none

mutual

/-- `fuel` bounds the calls; as many as the text has characters are enough. -/
def value : Nat → List Char → Option (Value × List Char)
  | 0, _ => none
  | fuel + 1, cs =>
    match skipSpace cs with
    | [] => none
    | c :: rest =>
      if c = '"' then do
        let (text, rest) ← string rest
        some (.string text, rest)
      else if c = '[' then
        match expect ']' rest with
        | some rest => some (.array [], rest)
        | none => do
          let (vs, rest) ← items fuel rest
          some (.array vs, rest)
      else if c = '\x7b' then
        match expect '\x7d' rest with
        | some rest => some (.object [], rest)
        | none => do
          let (pairs, rest) ← members fuel rest
          some (.object pairs, rest)
      else if c = 'n' then keyword "null".toList .null (c :: rest)
      else if c = 't' then keyword "true".toList (.bool true) (c :: rest)
      else if c = 'f' then keyword "false".toList (.bool false) (c :: rest)
      else do
        let (n, rest) ← number (c :: rest)
        some (.number n, rest)

def items : Nat → List Char → Option (List Value × List Char)
  | 0, _ => none
  | fuel + 1, cs => do
    let (v, rest) ← value fuel cs
    match expect ',' rest with
    | some rest => do
      let (vs, rest) ← items fuel rest
      some (v :: vs, rest)
    | none => do
      let rest ← expect ']' rest
      some ([v], rest)

def members : Nat → List Char → Option (List (String × Value) × List Char)
  | 0, _ => none
  | fuel + 1, cs => do
    let rest ← expect '"' cs
    let (name, rest) ← string rest
    let rest ← expect ':' rest
    let (v, rest) ← value fuel rest
    match expect ',' rest with
    | some rest => do
      let (pairs, rest) ← members fuel rest
      some ((name, v) :: pairs, rest)
    | none => do
      let rest ← expect '\x7d' rest
      some ([(name, v)], rest)

end

/-- The value of a text that is one JSON value, with white space around it. -/
def parseChars (cs : List Char) : Option Value := do
  let (v, rest) ← value (cs.length + 1) cs
  if skipSpace rest = [] then some v else none

def parse (text : String) : Option Value := parseChars text.toList

end TermLinks.Json
