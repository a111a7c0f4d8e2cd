import AccessJournal.Text.Octets

/-!
# Percent encoding of addresses

An address in a header is ASCII: letters, digits and the characters that have a
meaning in addresses stand for themselves, and every other character is written as
its UTF-8 octets, each as a percent sign and two hexadecimal digits.
-/

namespace AccessJournal.Text

/-- Whether a character stands for itself in an address. -/
def isAddressChar (c : Char) : Bool :=
  c.isAlphanum || "_.-~:/%#?=@[]!$&'()*+,;".toList.contains c

/-- An octet as a percent sign and two hexadecimal digits. -/
def percentOctet (o : UInt8) : List Char :=
  ['%', Nat.digitChar (o.toNat / 16), Nat.digitChar (o.toNat % 16)].map Char.toUpper

/-- A character as it stands in an address. -/
def percentChar (c : Char) : List Char :=
  if isAddressChar c then [c] else (String.utf8EncodeChar c).flatMap percentOctet

/-- A text as it stands in an address. -/
def percentEncoded (text : List Char) : String :=
  String.ofList (text.flatMap percentChar)

end AccessJournal.Text
