import Schemata.Json.Basic

/-!
# Reading JSON

The reader accepts RFC 8259 texts, with the blanks space, tab, line feed and carriage return. A name
that an object repeats keeps its first place and takes its last value; a number beyond the range of
doubles is read as the greatest of them. A refusal says what was expected and where.

## Main definitions

* `Json.read`: the value that a text spells, or a `ReadError`.
* `ReadError.message`: the refusal with its line, column and offset.

## Implementation notes

The functions below work on the characters that are still to be read, and a refusal keeps the
characters from its place on; the offset is what is left of the whole text. Every step takes at
least one character, so that the number of characters is fuel enough.
-/

namespace Schemata.Json

inductive ReadCause where
  | byteOrderMark
  | value
  | name
  | colon
  | comma
  | extra
  | unterminated
  | controlCharacter
  | escape
  | unicodeEscape
  deriving DecidableEq, Repr

def ReadCause.text : ReadCause → String
  | .byteOrderMark => "Unexpected UTF-8 BOM (decode using utf-8-sig)"
  | .value => "Expecting value"
  | .name => "Expecting property name enclosed in double quotes"
  | .colon => "Expecting ':' delimiter"
  | .comma => "Expecting ',' delimiter"
  | .extra => "Extra data"
  | .unterminated => "Unterminated string starting at"
  | .controlCharacter => "Invalid control character at"
  | .escape => "Invalid \\escape"
  | .unicodeEscape => "Invalid \\uXXXX escape"

/-- A refusal, and the characters from its place on. -/
structure Refusal where
  cause : ReadCause
  rest : List Char

/-- A refusal, in the place of what was read and the characters behind it. -/
def refuse {α : Type} (cause : ReadCause) (rest : List Char) : Except Refusal (α × List Char) :=
  .error ⟨cause, rest⟩

def skipBlanks (text : List Char) : List Char :=
  text.dropWhile fun c => c = ' ' ∨ c = '\t' ∨ c = '\n' ∨ c = '\r'

/-! ### Texts -/

def hexValue? (c : Char) : Option Nat :=
  if '0' ≤ c ∧ c ≤ '9' then some (c.toNat - '0'.toNat)
  else if 'a' ≤ c ∧ c ≤ 'f' then some (c.toNat - 'a'.toNat + 10)
  else if 'A' ≤ c ∧ c ≤ 'F' then some (c.toNat - 'A'.toNat + 10)
  else none

def hexUnit? : List Char → Option (Nat × List Char)
  | a :: b :: c :: d :: rest => do
    let a ← hexValue? a
    let b ← hexValue? b
    let c ← hexValue? c
    let d ← hexValue? d
    return (((a * 16 + b) * 16 + c) * 16 + d, rest)
  | _ => none

def isHighSurrogate (unit : Nat) : Bool := 0xd800 ≤ unit && unit < 0xdc00

def isLowSurrogate (unit : Nat) : Bool := 0xdc00 ≤ unit && unit < 0xe000

/-- The character of a UTF-16 unit; half a pair is replaced by U+FFFD. -/
def charOfUnit (unit : Nat) : Char :=
  if isHighSurrogate unit || isLowSurrogate unit then '\ufffd' else Char.ofNat unit

/-- The character of an escape; `text` stands behind the `u`, and at least one character has to
follow the four digits. -/
def readUnicode (text : List Char) : Except Refusal (Char × List Char) :=
  match hexUnit? text with
  | none => refuse .unicodeEscape ('u' :: text)
  | some (_, []) => refuse .unicodeEscape ('u' :: text)
  | some (unit, rest) =>
    match isHighSurrogate unit, rest with
    | true, '\\' :: 'u' :: tail =>
      if tail.length ≤ 4 then .ok (charOfUnit unit, rest)
      else match hexUnit? tail with
        | none => refuse .unicodeEscape ('u' :: tail)
        | some (low, after) =>
          if isLowSurrogate low then
            .ok (Char.ofNat (0x10000 + (unit - 0xd800) * 0x400 + (low - 0xdc00)), after)
          else .ok (charOfUnit unit, rest)
    | _, _ => .ok (charOfUnit unit, rest)

def simpleEscape? : Char → Option Char
  | '"' => some '"'
  | '\\' => some '\\'
  | '/' => some '/'
  | 'b' => some '\x08'
  | 'f' => some '\x0c'
  | 'n' => some '\n'
  | 'r' => some '\r'
  | 't' => some '\t'
  | _ => none

/-- The rest of a text behind its opening quote; `start` is the text from that quote on. -/
def readText (start : List Char) : Nat → List Char → Except Refusal (List Char × List Char)
  | 0, _ => refuse .unterminated start
  | _ + 1, [] => refuse .unterminated start
  | _ + 1, '"' :: rest => .ok ([], rest)
  | _ + 1, ['\\'] => refuse .unterminated start
  | fuel + 1, '\\' :: 'u' :: rest => do
    let (c, rest) ← readUnicode rest
    let (cs, rest) ← readText start fuel rest
    return (c :: cs, rest)
  | fuel + 1, '\\' :: e :: rest =>
    match simpleEscape? e with
    | none => refuse .escape ('\\' :: e :: rest)
    | some c => do
      let (cs, rest) ← readText start fuel rest
      return (c :: cs, rest)
  | fuel + 1, c :: rest =>
    if c.toNat < 0x20 then refuse .controlCharacter (c :: rest)
    else do
      let (cs, rest) ← readText start fuel rest
      return (c :: cs, rest)

def readString (text : List Char) : Except Refusal (String × List Char) := do
  let (cs, rest) ← readText ('"' :: text) (text.length + 1) text
  return (String.ofList cs, rest)

/-! ### Numbers -/

def isDigit (c : Char) : Bool := '0' ≤ c && c ≤ '9'

def digitsValue (digits : List Char) : Nat :=
  digits.foldl (fun n c => n * 10 + (c.toNat - '0'.toNat)) 0

/-- The digits at the start of a text, and what follows them. -/
def spanDigits (text : List Char) : List Char × List Char :=
  (text.takeWhile isDigit, text.dropWhile isDigit)

/-- The digits behind a point, if there are any; without them the point is left alone. -/
def readFraction (text : List Char) : List Char × List Char :=
  match text with
  | '.' :: rest =>
    let (digits, after) := spanDigits rest
    if digits.isEmpty then ([], text) else (digits, after)
  | _ => ([], text)

/-- An exponent, if there is one; without digits its letter is left alone. -/
def readExponent (text : List Char) : Option Int × List Char :=
  match text with
  | e :: rest =>
    if e = 'e' ∨ e = 'E' then
      let (negative, digitsFrom) := match rest with
        | '-' :: r => (true, r)
        | '+' :: r => (false, r)
        | r => (false, r)
      let (digits, after) := spanDigits digitsFrom
      if digits.isEmpty then (none, text)
      else
        let n : Int := digitsValue digits
        (some (if negative then -n else n), after)
    else (none, text)
  | [] => (none, text)

/-- The digits of the whole part: a zero alone, or digits that do not start with one. -/
def readWhole (text : List Char) : List Char × List Char :=
  match text with
  | '0' :: rest => (['0'], rest)
  | _ => spanDigits text

def readNumber (text : List Char) : Except Refusal (Json × List Char) :=
  let (negative, unsigned) := match text with
    | '-' :: r => (true, r)
    | r => (false, r)
  let (whole, rest) := readWhole unsigned
  if whole.isEmpty then refuse .value text
  else
    let (fraction, rest) := readFraction rest
    let (exponent, rest) := readExponent rest
    if fraction.isEmpty && exponent.isNone then
      let n : Int := digitsValue whole
      .ok (.int (if negative then -n else n), rest)
    else
      let c : Decimal := ⟨digitsValue (whole ++ fraction), exponent.getD 0 - fraction.length⟩
      .ok (.double ((Double.ofDecimal? negative c).getD (Double.greatest negative)), rest)

/-! ### Values -/

mutual

def readValue : Nat → List Char → Except Refusal (Json × List Char)
  | 0, text => refuse .value text
  | fuel + 1, text =>
    match text with
    | '"' :: rest => do
      let (s, rest) ← readString rest
      return (.str s, rest)
    | '{' :: rest =>
      match skipBlanks rest with
      | '}' :: after => .ok (.obj [], after)
      | rest => do
        let (fields, rest) ← readFields fuel [] rest
        return (.obj fields, rest)
    | '[' :: rest =>
      match skipBlanks rest with
      | ']' :: after => .ok (.arr [], after)
      | rest => do
        let (items, rest) ← readItems fuel rest
        return (.arr items, rest)
    | 'n' :: 'u' :: 'l' :: 'l' :: rest => .ok (.null, rest)
    | 't' :: 'r' :: 'u' :: 'e' :: rest => .ok (.bool true, rest)
    | 'f' :: 'a' :: 'l' :: 's' :: 'e' :: rest => .ok (.bool false, rest)
    | _ => readNumber text

/-- The items of a list up to its closing bracket. -/
def readItems : Nat → List Char → Except Refusal (List Json × List Char)
  | 0, text => refuse .value text
  | fuel + 1, text => do
    let (v, rest) ← readValue fuel text
    match skipBlanks rest with
    | ']' :: after => return ([v], after)
    | ',' :: after =>
      let (items, rest) ← readItems fuel (skipBlanks after)
      return (v :: items, rest)
    | rest => refuse .comma rest

/-- The fields of an object up to its closing brace, added to those read before. -/
def readFields :
    Nat → List (String × Json) → List Char → Except Refusal (List (String × Json) × List Char)
  | 0, _, text => refuse .name text
  | fuel + 1, before, text =>
    match text with
    | '"' :: rest => do
      let (name, rest) ← readString rest
      match skipBlanks rest with
      | ':' :: after =>
        let (v, rest) ← readValue fuel (skipBlanks after)
        let fields := Fields.insert name v before
        match skipBlanks rest with
        | '}' :: after => return (fields, after)
        | ',' :: after => readFields fuel fields (skipBlanks after)
        | rest => refuse .comma rest
      | rest => refuse .colon rest
    | _ => refuse .name text

end

/-! ### Whole texts -/

structure ReadError where
  cause : ReadCause
  line : Nat
  column : Nat
  offset : Nat
  deriving DecidableEq, Repr

def ReadError.message (e : ReadError) : String :=
  s!"{e.cause.text}: line {e.line} column {e.column} (char {e.offset})"

/-- The place that lies behind the characters `before`. -/
def ReadError.behind (cause : ReadCause) (before : List Char) : ReadError where
  cause := cause
  line := before.count '\n' + 1
  column := (before.reverse.takeWhile (· ≠ '\n')).length + 1
  offset := before.length

def Refusal.locate (refusal : Refusal) (text : List Char) : ReadError :=
  .behind refusal.cause (text.take (text.length - refusal.rest.length))

def readAll (text : List Char) : Except Refusal Json := do
  if text.head? = some '\ufeff' then throw ⟨.byteOrderMark, text⟩
  let (v, rest) ← readValue (2 * text.length + 1) (skipBlanks text)
  match skipBlanks rest with
  | [] => return v
  | rest => throw ⟨.extra, rest⟩

def read (text : String) : Except ReadError Json :=
  match readAll text.toList with
  | .ok v => .ok v
  | .error refusal => .error (refusal.locate text.toList)

end Schemata.Json
