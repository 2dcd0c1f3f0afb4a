import EsOptimizer.Json.Basic
import EsOptimizer.Number.Text

/-!
# Reading JSON

Readers that consume a text from the front and stop at its first fault. A fault is of one of three
kinds: the text is not JSON, it ends too early, or it is JSON of another shape than the reader
asked for. Because readers look at the text piece by piece, the fault that comes first in reading
order is the one reported.
-/

namespace EsOptimizer

/-- Why a JSON text is refused. -/
inductive JsonFault where
  | malformed
  | truncated
  | mismatched
deriving DecidableEq, Repr

def JsonFault.text : JsonFault → String
  | .malformed => "syntax error"
  | .truncated => "unexpected eof"
  | .mismatched => "unmatched data"

/-- A computation that consumes a text. -/
abbrev JsonReader := StateT (List Char) (Except JsonFault)

namespace JsonReader

def fault {α : Type} (f : JsonFault) : JsonReader α := fun _ => .error f

def isSpace (c : Char) : Bool := c == ' ' || c == '\n' || c == '\t' || c == '\r'

/-- Skips blanks and looks at the next character. -/
def peek : JsonReader (Option Char) := do
  modify (·.dropWhile isSpace)
  return (← get).head?

/-- The next character, blanks not skipped. -/
def take : JsonReader (Option Char) := fun cs => .ok (cs.head?, cs.tail)

/-- Insists on the rest of a word. -/
def rest : List Char → JsonReader Unit
  | [] => return ()
  | c :: cs => do
    match ← take with
    | none => fault .truncated
    | some d => if c == d then rest cs else fault .malformed

/-- Insists on a word; its first character was seen. -/
def word (s : String) : JsonReader Unit := rest s.toList

/-! ## Strings -/

/-- Four hexadecimal digits. -/
def hex4 : JsonReader Nat := do
  let cs ← get
  let four := cs.take 4
  if four.length < 4 then fault .truncated
  else
    match four.mapM (Number.digitValue? 16) with
    | some ds =>
      set (cs.drop 4)
      return ds.foldl (fun acc d => acc * 16 + d) 0
    | none => fault .malformed

/-- The character of an escape by code units; a surrogate pair takes two escapes. -/
def unicodeEscape : JsonReader Char := do
  let n ← hex4
  if 0xdc00 ≤ n && n < 0xe000 then fault .malformed
  else if 0xd800 ≤ n && n < 0xdc00 then
    match ← take with
    | none => fault .truncated
    | some '\\' =>
      match ← take with
      | none => fault .truncated
      | some 'u' =>
        let m ← hex4
        if 0xdc00 ≤ m && m < 0xe000 then
          return Char.ofNat (0x10000 + (n - 0xd800) * 0x400 + (m - 0xdc00))
        else fault .malformed
      | some _ => fault .malformed
    | some _ => fault .malformed
  else return Char.ofNat n

/-- What follows a backslash. -/
def escape : JsonReader Char := do
  match ← take with
  | none => fault .truncated
  | some '"' => return '"'
  | some '\\' => return '\\'
  | some '/' => return '/'
  | some 'b' => return '\x08'
  | some 'f' => return '\x0c'
  | some 'n' => return '\n'
  | some 'r' => return '\r'
  | some 't' => return '\t'
  | some 'u' => unicodeEscape
  | some _ => fault .malformed

/-- The characters up to a closing quote, which is consumed. -/
def charsToQuote : (steps : Nat) → JsonReader (List Char)
  | 0 => fault .truncated
  | steps + 1 => do
    match ← take with
    | none => fault .truncated
    | some '"' => return []
    | some '\\' =>
      let c ← escape
      return c :: (← charsToQuote steps)
    | some c =>
      if c.toNat < 0x20 then fault .malformed
      else return c :: (← charsToQuote steps)

/-- A string; its opening quote was seen. -/
def string : JsonReader String := do
  discard take
  let steps := (← get).length + 1
  return String.ofList (← charsToQuote steps)

/-! ## Numbers -/

/-- A run of digits. -/
def digits : JsonReader (List Char) := fun cs =>
  .ok (cs.takeWhile Number.isDigit, cs.dropWhile Number.isDigit)

/-- A run of digits that must not be empty. -/
def someDigits : JsonReader (List Char) := do
  let ds ← digits
  if ds.isEmpty then
    if (← get).isEmpty then fault .truncated else fault .malformed
  else return ds

/-- The whole part of a number: no digit may follow a leading zero. -/
def wholeDigits : JsonReader (List Char) := do
  let ds ← someDigits
  match ds with
  | '0' :: _ :: _ => fault .malformed
  | ds => return ds

/-- The part of a number behind the point, with the point. -/
def fractionDigits : JsonReader (List Char) := do
  match (← get).head? with
  | some '.' =>
    discard take
    return '.' :: (← someDigits)
  | _ => return []

/-- A sign among the given ones, if there is one. -/
def sign (signs : List Char) : JsonReader (List Char) := fun cs =>
  match cs with
  | c :: rest => if signs.contains c then .ok ([c], rest) else .ok ([], cs)
  | [] => .ok ([], cs)

/-- The exponent of a number, with its mark. -/
def exponentDigits : JsonReader (List Char) := do
  match (← get).head? with
  | some e =>
    if e == 'e' || e == 'E' then
      discard take
      let sign ← sign ['+', '-']
      return e :: sign ++ (← someDigits)
    else return []
  | none => return []

/-- A number that a double can hold, as it is spelled. Its first character was seen. -/
def number : JsonReader String := do
  let sign ← sign ['-']
  let whole ← wholeDigits
  let magnitude := whole ++ (← fractionDigits) ++ (← exponentDigits)
  match Number.ofDecimalText? magnitude with
  | some n => if n.isInfinite then fault .malformed else return String.ofList (sign ++ magnitude)
  | none => fault .malformed

/-! ## Shapes -/

/-- The next value is not of the shape asked for. Reading it comes first: it may be no value. -/
def mismatch {α : Type} : JsonReader α := do
  match ← peek with
  | none => fault .truncated
  | some c =>
    if c == 'n' then word "null"
    else if c == 't' then word "true"
    else if c == 'f' then word "false"
    else if c == '-' || Number.isDigit c then discard number
    else if c == '"' then discard string
    else if c == '[' || c == '\x7b' then pure ()
    else fault .malformed
    fault .mismatched

def bool : JsonReader Bool := do
  match ← peek with
  | some 't' => word "true"; return true
  | some 'f' => word "false"; return false
  | _ => mismatch

/-- A whole number below `2 ^ 64`, spelled with digits only. -/
def word64 : JsonReader Nat := do
  match ← peek with
  | some c =>
    if c == '-' || Number.isDigit c then
      match (Json.number (← number)).nat? with
      | some n => if n < Nat.pow 2 64 then return n else fault .mismatched
      | none => fault .mismatched
    else mismatch
  | none => fault .truncated

/-- One field of a record: its name, and how to read its value into the record. -/
structure Field (α : Type) where
  name : String
  read : α → JsonReader α

/-- Moves to the next element of an array; false at its end. -/
def nextElement (first : Bool) : JsonReader Bool := do
  match ← peek with
  | none => fault .truncated
  | some ']' => return false
  | some c =>
    if first then return true
    else if c == ',' then
      discard take
      match ← peek with
      | none => fault .truncated
      | some ']' => fault .malformed
      | some _ => return true
    else fault .malformed

/-- The elements of an array as the fields of a record, in order. Missing ones leave the record as
it is. -/
def elements {α : Type} : List (Field α) → (first : Bool) → α → JsonReader α
  | [], _, r => return r
  | f :: fields, first, r => do
    if ← nextElement first then elements fields false (← f.read r) else return r

/-- Moves to the next member of an object: its name, or nothing at its end. -/
def nextName (first : Bool) : JsonReader (Option String) := do
  match ← peek with
  | none => fault .truncated
  | some '\x7d' => return none
  | some c =>
    let c ← if first then pure c
      else if c == ',' then do
        discard take
        match ← peek with
        | none => fault .truncated
        | some c => pure c
      else fault .malformed
    if c == '"' then return some (← string) else fault .malformed

/-- The colon between a name and its value. -/
def colon : JsonReader Unit := do
  match ← peek with
  | none => fault .truncated
  | some ':' => discard take
  | some _ => fault .malformed

/-- The members of an object as fields of a record. A name that is no field, or that came before,
is refused. -/
def members {α : Type} (fields : List (Field α)) :
    (steps : Nat) → (seen : List String) → (first : Bool) → α → JsonReader α
  | 0, _, _, _ => fault .truncated
  | steps + 1, seen, first, r => do
    match ← nextName first with
    | none => return r
    | some name =>
      match fields.find? (·.name == name) with
      | none => fault .mismatched
      | some f =>
        if seen.contains name then fault .mismatched
        else
          colon
          members fields steps (name :: seen) false (← f.read r)

/-- A record: an object with some of the fields, or an array of their values in order. Fields that
are left out keep their value in `r`. -/
def record {α : Type} (fields : List (Field α)) (r : α) : JsonReader α := do
  match ← peek with
  | some '[' =>
    discard take
    let r ← elements fields true r
    match ← peek with
    | none => fault .truncated
    | some ']' =>
      discard take
      return r
    | some _ => fault .malformed
  | some '\x7b' =>
    discard take
    let r ← members fields (fields.length + 1) [] true r
    discard take
    return r
  | _ => mismatch

/-! ## Any value -/

mutual

/-- Any value, nested at most `depth` deep in steps. -/
def value : (depth : Nat) → JsonReader Json
  | 0 => fault .truncated
  | d + 1 => do
    match ← peek with
    | none => fault .truncated
    | some c =>
      if c == 'n' then
        word "null"
        return .null
      else if c == 't' then
        word "true"
        return .bool true
      else if c == 'f' then
        word "false"
        return .bool false
      else if c == '-' || Number.isDigit c then return .number (← number)
      else if c == '"' then return .string (← string)
      else if c == '[' then
        discard take
        let items ← items d true
        discard take
        return .array items
      else if c == '\x7b' then
        discard take
        let ms ← namedValues d true
        discard take
        return .object ms
      else fault .malformed

/-- The elements up to the end of an array, which is left standing. -/
def items : (depth : Nat) → (first : Bool) → JsonReader (List Json)
  | 0, _ => fault .truncated
  | d + 1, first => do
    if ← nextElement first then
      let j ← value d
      return j :: (← items d false)
    else return []

/-- The members up to the end of an object, which is left standing. -/
def namedValues : (depth : Nat) → (first : Bool) → JsonReader (List (String × Json))
  | 0, _ => fault .truncated
  | d + 1, first => do
    match ← nextName first with
    | none => return []
    | some name =>
      colon
      let j ← value d
      return (name, j) :: (← namedValues d false)

end

/-- Reads a whole text; only blanks may follow what is read. -/
def runAll {α : Type} (reader : JsonReader α) (text : String) : Except JsonFault α := do
  let (a, rest) ← reader.run text.toList
  if (rest.dropWhile isSpace).isEmpty then return a else .error .malformed

end JsonReader

/-- The value that a text spells. -/
def Json.parse (text : String) : Except JsonFault Json :=
  JsonReader.runAll (JsonReader.value (text.length + 1)) text

end EsOptimizer
