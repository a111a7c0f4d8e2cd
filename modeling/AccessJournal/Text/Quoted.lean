import AccessJournal.Text.Printable

/-!
# Quoted text

Text shown between quotes in diagnostics.  The quote is `'`, or `"` when the
text has a `'` and no `"`.  The backslash, the chosen quote, line feed, carriage
return and tab are escaped with a backslash; every other unprintable character is
written as its code point in hexadecimal, with as many digits as its escape asks.
-/

namespace AccessJournal.Text

/-- The numeral of `n` in the base, padded on the left with zeros to the width. -/
def paddedDigits (base width n : Nat) : List Char :=
  (Nat.toDigits base n).leftpad width '0'

/-- The quote chosen for a text. -/
def quoteFor (text : List Char) : Char :=
  if text.contains '\'' && !text.contains '"' then '"' else '\''

/-- The escape of an unprintable character: two, four or eight hexadecimal digits. -/
def codeEscape (code : Nat) : List Char :=
  if code < 0x100 then '\\' :: 'x' :: paddedDigits 16 2 code
  else if code < 0x10000 then '\\' :: 'u' :: paddedDigits 16 4 code
  else '\\' :: 'U' :: paddedDigits 16 8 code

/-- One character as it stands between the given quotes. -/
def quotedChar (quote c : Char) : List Char :=
  if c = quote ∨ c = '\\' then ['\\', c]
  else if c = '\n' then ['\\', 'n']
  else if c = '\r' then ['\\', 'r']
  else if c = '\t' then ['\\', 't']
  else if isPrintable c then [c]
  else codeEscape c.toNat

/-- The text between its quotes. -/
def quoted (text : String) : String :=
  let quote := quoteFor text.toList
  String.ofList (quote :: text.toList.flatMap (quotedChar quote) ++ [quote])

end AccessJournal.Text
