import AccessJournal.Failure
import AccessJournal.Url.Address

/-!
# Authorities

The part of a URL that names a host and a port.

* `isHostHeader` says which texts a request may name its host with: a name of a
  restricted alphabet or an address in brackets, and a port that fits 16 bits.
* `checkBrackets` and `checkStable` say which authorities a URL may be taken apart
  with: brackets stand around an address, and no character decomposes into one that
  would end the authority.
-/

namespace AccessJournal.Url

/-- A character of a host's name in a request. -/
def isHostChar (c : Char) : Bool :=
  isLetter c || isDigit c || "._~%!$&'()*+,;=-".toList.contains c

/-- A character behind the point of a future address in a request. -/
def isFutureChar (c : Char) : Bool :=
  isLetter c || isDigit c || "._~!$&'()*+,;=:-".toList.contains c

/-- Nothing, or a colon and the digits of a port of at most 16 bits. -/
def isPortSuffix : List Char → Bool
  | [] => true
  | ':' :: digits => digits != [] && digits.all isDigit && decimalValue digits ≤ 65535
  | _ => false

/-- The texts with which a request may name its host. -/
def isHostHeader (text : List Char) : Bool :=
  match text with
  | '[' :: rest =>
    let address := rest.takeWhile (· != ']')
    match rest.drop address.length with
    | ']' :: port =>
      (isLongAddress address || isFutureAddress isFutureChar address) && isPortSuffix port
    | _ => false
  | _ =>
    let name := text.takeWhile isHostChar
    name != [] && isPortSuffix (text.drop name.length)

/-- The characters whose compatibility form has one of `/?#@:` in it. -/
def decomposingToDelimiters : List Nat :=
  [0x2047, 0x2048, 0x2049, 0x2100, 0x2101, 0x2105, 0x2106, 0x2A74, 0xFE13, 0xFE16, 0xFE55,
  0xFE56, 0xFE5F, 0xFE6B, 0xFF03, 0xFF0F, 0xFF1A, 0xFF1F, 0xFF20]

/-- Checks the host of an authority with brackets. -/
def checkBracketed (address : List Char) : Except Failure Unit :=
  if address.head? = some 'v' then
    if isFutureAddress (· != '\n') address then .ok () else .error .malformedFutureAddress
  else if isZonedAddress address then .ok ()
  else if isShortAddress address then .error .bracketedShortAddress
  else .error (.notAnAddress (String.ofList address))

/-- What stands behind the last `@` of an authority, or all of it: host and port. -/
def hostAndPort (authority : List Char) : List Char :=
  (authority.reverse.takeWhile (· != '@')).reverse

/-- Checks host and port of an authority with brackets.  A bracket opens the host or
does not open at all, and nothing but a port may follow the closing one; the host has
to be an address in any case. -/
def checkBracketedHost (text : List Char) : Except Failure Unit :=
  match text with
  | '[' :: rest =>
    let address := rest.takeWhile (· != ']')
    match (rest.drop address.length).drop 1 with
    | [] | ':' :: _ => checkBracketed address
    | _ => .error .misplacedBracket
  | _ =>
    if text.contains '[' then .error .misplacedBracket
    else checkBracketed (text.takeWhile (· != ':'))

/-- Checks an authority's brackets: both kinds or neither, and with them an address. -/
def checkBrackets (authority : List Char) : Except Failure Unit :=
  match authority.contains '[', authority.contains ']' with
  | false, false => .ok ()
  | true, true => checkBracketedHost (hostAndPort authority)
  | _, _ => .error .misplacedBracket

/-- Checks that no character of an authority decomposes into a delimiter. -/
def checkStable (authority : List Char) : Except Failure Unit :=
  if authority.any fun c => decomposingToDelimiters.contains c.toNat then
    .error (.unstableAuthority (String.ofList authority))
  else .ok ()

end AccessJournal.Url
