/-!
# Octets and text

Strings of octets, the two ways in which they are read as text, and the ASCII
lower case of names.

* Reading as Latin-1 never fails: every octet is the character of its number.
* Writing text as Latin-1 fails exactly when a character lies above `U+00FF`.
* Reading as UTF-8 fails on anything but the shortest form of a scalar value.
-/

namespace AccessJournal

/-- A string of octets. -/
abbrev Octets := List UInt8

namespace Octets

/-- The octets read as Latin-1. -/
def latinText (octets : Octets) : String :=
  String.ofList (octets.map fun o => Char.ofNat o.toNat)

/-- The text written as Latin-1, if it has no character above `U+00FF`. -/
def ofLatin? (text : String) : Option Octets :=
  text.toList.mapM fun c => if c.toNat < 256 then some (UInt8.ofNat c.toNat) else none

/-- The octets of an ASCII text. -/
def ascii (text : String) : Octets :=
  text.toList.map fun c => UInt8.ofNat c.toNat

/-- An octet with the upper-case ASCII letters made lower case. -/
def lowerOctet (o : UInt8) : UInt8 :=
  if 65 ≤ o ∧ o ≤ 90 then o + 32 else o

/-- The octets with the upper-case ASCII letters made lower case. -/
def asciiLower (octets : Octets) : Octets :=
  octets.map lowerOctet

/-- The six payload bits of a continuation octet. -/
def continuation? (o : UInt8) : Option Nat :=
  if 0x80 ≤ o ∧ o ≤ 0xBF then some (o.toNat - 0x80) else none

/-- The character of the code point, if it is a scalar value not below the bound. -/
def scalar? (least code : Nat) : Option Char :=
  if least ≤ code ∧ code.isValidChar then some (Char.ofNat code) else none

/-- The octets read as UTF-8.  Overlong forms, surrogates, numbers above
`U+10FFFF` and stray or missing continuation octets are refused. -/
def utf8? : Octets → Option (List Char)
  | [] => some []
  | a :: rest =>
    if a < 0x80 then
      (utf8? rest).map (Char.ofNat a.toNat :: ·)
    else if a < 0xC0 then none
    else if a < 0xE0 then
      match rest with
      | b :: rest => do
        let y ← continuation? b
        let c ← scalar? 0x80 ((a.toNat - 0xC0) * 0x40 + y)
        (utf8? rest).map (c :: ·)
      | _ => none
    else if a < 0xF0 then
      match rest with
      | b :: c :: rest => do
        let y ← continuation? b
        let z ← continuation? c
        let d ← scalar? 0x800 (((a.toNat - 0xE0) * 0x40 + y) * 0x40 + z)
        (utf8? rest).map (d :: ·)
      | _ => none
    else if a < 0xF8 then
      match rest with
      | b :: c :: d :: rest => do
        let y ← continuation? b
        let z ← continuation? c
        let w ← continuation? d
        let e ← scalar? 0x10000 ((((a.toNat - 0xF0) * 0x40 + y) * 0x40 + z) * 0x40 + w)
        (utf8? rest).map (e :: ·)
      | _ => none
    else none

end Octets

end AccessJournal
