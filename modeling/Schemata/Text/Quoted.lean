import Schemata.Text.Printable

/-!
# Quoted text

The form in which messages show a text: between single quotes, or between double quotes when the
text holds a single quote and no double one. Backslash, the quote in use, line breaks and tabs are
escaped with a backslash; every other character that cannot be printed is written as `\xNN`,
`\uNNNN` or `\UNNNNNNNN`.
-/

namespace Schemata

/-- A number in lower-case hexadecimal, padded with zeros to at least `width` digits. -/
def hexadecimal (width n : Nat) : List Char :=
  let digits := Nat.toDigits 16 n
  List.replicate (width - digits.length) '0' ++ digits

def quoteFor (text : List Char) : Char :=
  if '\'' ∈ text ∧ '"' ∉ text then '"' else '\''

def escapeFor (quote c : Char) : List Char :=
  if c = quote ∨ c = '\\' then ['\\', c]
  else if c = '\n' then ['\\', 'n']
  else if c = '\r' then ['\\', 'r']
  else if c = '\t' then ['\\', 't']
  else if isPrintable c then [c]
  else if c.toNat < 0x100 then ['\\', 'x'] ++ hexadecimal 2 c.toNat
  else if c.toNat < 0x10000 then ['\\', 'u'] ++ hexadecimal 4 c.toNat
  else ['\\', 'U'] ++ hexadecimal 8 c.toNat

def quoted (text : String) : String :=
  let quote := quoteFor text.toList
  String.ofList ([quote] ++ text.toList.flatMap (escapeFor quote) ++ [quote])

end Schemata
