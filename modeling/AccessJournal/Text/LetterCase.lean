import AccessJournal.Text.Octets

/-!
# Letter case of names

Two narrow questions about letter case over all of Unicode.

* A header is looked up by the lower case of its name, written as Latin-1.  Only
  the characters whose lower case is Latin-1 can be part of such a name.
* A level is named by the upper case of its text.  Only the characters whose
  upper case is made of ASCII letters can be part of a level's name.

Every other character makes the look-up fail, so it needs no mapping of its own.
-/

namespace AccessJournal.Text

/-- The lower case of a character, if it is Latin-1.  Above `U+00FF` there are
four: `Ÿ`, the capital sharp s, the Kelvin sign and the Ångström sign. -/
def latinLower? (c : Char) : Option Char :=
  let code := c.toNat
  if 0x41 ≤ code ∧ code ≤ 0x5A then some (Char.ofNat (code + 32))
  else if 0xC0 ≤ code ∧ code ≤ 0xDE ∧ code ≠ 0xD7 then some (Char.ofNat (code + 32))
  else if code < 0x100 then some c
  else if code = 0x178 then some 'ÿ'
  else if code = 0x1E9E then some 'ß'
  else if code = 0x212A then some 'k'
  else if code = 0x212B then some 'å'
  else none

/-- The octets under which a header of this name is looked up, if there are any. -/
def lookupName? (name : String) : Option Octets :=
  name.toList.mapM fun c => (latinLower? c).map fun d => UInt8.ofNat d.toNat

/-- The upper case of a character, if it is made of ASCII letters; otherwise the
character itself, which no level's name contains. -/
def asciiUpper (c : Char) : List Char :=
  let code := c.toNat
  if 0x61 ≤ code ∧ code ≤ 0x7A then [Char.ofNat (code - 32)]
  else if code = 0xDF then ['S', 'S']
  else if code = 0x131 then ['I']
  else if code = 0x17F then ['S']
  else if code = 0xFB00 then ['F', 'F']
  else if code = 0xFB01 then ['F', 'I']
  else if code = 0xFB02 then ['F', 'L']
  else if code = 0xFB03 then ['F', 'F', 'I']
  else if code = 0xFB04 then ['F', 'F', 'L']
  else if code = 0xFB05 ∨ code = 0xFB06 then ['S', 'T']
  else [c]

/-- The text in upper case, as far as level names can tell. -/
def levelName (text : String) : String :=
  String.ofList (text.toList.flatMap asciiUpper)

/-- The text in lower case, as far as the ASCII names of settings can tell. -/
def settingName (text : String) : String :=
  String.ofList (text.toList.map fun c => (latinLower? c).getD c)

end AccessJournal.Text
