import AccessJournal.Url.Authority

/-!
# Taking a URL apart

A text is split into scheme, authority, path and query; a fragment is dropped.
Characters up to the space are removed in front, tabs and line breaks everywhere.
What stands before the first colon is the scheme only if it looks like one, and
there is an authority only behind `//`.
-/

namespace AccessJournal

/-- The parts of a URL that are looked at. -/
structure Url where
  scheme : List Char
  authority : List Char
  path : List Char
  query : List Char
  deriving DecidableEq, Repr

namespace Url

/-- What stands before the first occurrence of a character, or everything. -/
def before (stop : Char) (text : List Char) : List Char := text.takeWhile (· != stop)

/-- What stands behind the first occurrence of a character, or nothing. -/
def behind (stop : Char) (text : List Char) : List Char := (text.dropWhile (· != stop)).drop 1

/-- The text without what is not part of any URL. -/
def cleaned (text : List Char) : List Char :=
  (text.dropWhile fun c => c.toNat ≤ 0x20).filter fun c => c != '\t' && c != '\r' && c != '\n'

def isSchemeChar (c : Char) : Bool :=
  isLetter c || isDigit c || c == '+' || c == '-' || c == '.'

/-- Whether a text can be a scheme. -/
def isScheme (text : List Char) : Bool :=
  match text with
  | c :: _ => isLetter c && text.all isSchemeChar
  | [] => false

/-- A letter of a scheme in lower case. -/
def lowerLetter (c : Char) : Char :=
  if 'A' ≤ c ∧ c ≤ 'Z' then Char.ofNat (c.toNat + 32) else c

/-- The scheme in lower case, and what stands behind its colon; the whole text
when it has no scheme. -/
def splitScheme (text : List Char) : List Char × List Char :=
  if text.contains ':' && isScheme (before ':' text) then
    ((before ':' text).map lowerLetter, behind ':' text)
  else ([], text)

/-- A character that ends an authority. -/
def endsAuthority (c : Char) : Bool := c == '/' || c == '?' || c == '#'

/-- The authority, and what stands behind it; the whole text when it has none. -/
def splitAuthority (text : List Char) : List Char × List Char :=
  match text with
  | '/' :: '/' :: rest =>
    (rest.takeWhile (!endsAuthority ·), rest.dropWhile (!endsAuthority ·))
  | _ => ([], text)

/-- The parts of a URL. -/
def split (text : List Char) : Except Failure Url := do
  let (scheme, rest) := splitScheme (cleaned text)
  let (authority, rest) := splitAuthority rest
  checkBrackets authority
  let target := before '#' rest
  checkStable authority
  pure ⟨scheme, authority, before '?' target, behind '?' target⟩

/-- Whether the scheme is one of an encrypted connection. -/
def isEncrypted (url : Url) : Bool :=
  url.scheme == "https".toList || url.scheme == "wss".toList

end Url

end AccessJournal
