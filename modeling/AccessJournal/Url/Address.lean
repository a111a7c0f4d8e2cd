/-!
# Network addresses in text

Which texts are addresses, of the short form (four numbers with points) and of
the long form (eight groups of hexadecimal digits with colons, a run of zero
groups written `::`, the last two groups possibly in the short form), and which
are of the form kept for future versions.

Only the grammar matters here: an address is accepted or refused, never
evaluated.
-/

namespace AccessJournal.Url

/-- A text cut at every occurrence of the separator. -/
def splitAt (separator : Char) : List Char → List (List Char)
  | [] => [[]]
  | c :: cs =>
    let rest := splitAt separator cs
    if c = separator then [] :: rest
    else (c :: rest.headD []) :: rest.drop 1

def isDigit (c : Char) : Bool := '0' ≤ c && c ≤ '9'

def isLetter (c : Char) : Bool := ('a' ≤ c && c ≤ 'z') || ('A' ≤ c && c ≤ 'Z')

def isHexDigit (c : Char) : Bool :=
  isDigit c || ('a' ≤ c && c ≤ 'f') || ('A' ≤ c && c ≤ 'F')

/-- The value of a decimal numeral. -/
def decimalValue (digits : List Char) : Nat :=
  digits.foldl (fun n c => 10 * n + (c.toNat - '0'.toNat)) 0

/-- A number of the short form: at most 255, in up to three digits, with no
needless zero in front. -/
def isShortPart (part : List Char) : Bool :=
  part != [] && part.all isDigit && part.length ≤ 3 &&
    (part == ['0'] || part.head? != some '0') && decimalValue part ≤ 255

/-- The short form of an address. -/
def isShortAddress (text : List Char) : Bool :=
  let parts := splitAt '.' text
  parts.length == 4 && parts.all isShortPart

/-- A group of the long form. -/
def isGroup (group : List Char) : Bool :=
  group != [] && group.length ≤ 4 && group.all isHexDigit

/-- The groups on one side of `::`; nothing at all stands for none. -/
def sideGroups (groups : List (List Char)) : List (List Char) :=
  if groups = [[]] then [] else groups

/-- Where a group other than the first and the last is empty. -/
def innerGaps (groups : List (List Char)) : List Nat :=
  (List.range groups.length).filter fun i =>
    i != 0 && i + 1 != groups.length && groups[i]? == some []

/-- Eight groups, or at most seven around one `::`. -/
def areGroups (groups : List (List Char)) : Bool :=
  match innerGaps groups with
  | [] => groups.length == 8 && groups.all isGroup
  | [gap] =>
    let named := sideGroups (groups.take gap) ++ sideGroups (groups.drop (gap + 1))
    named.length ≤ 7 && named.all isGroup
  | _ => false

/-- The groups of a text, a short form at the end counted as two groups; none if
what has points there is no short form. -/
def groupsOf? (text : List Char) : Option (List (List Char)) :=
  let groups := splitAt ':' text
  let last := groups.getLastD []
  if !last.contains '.' then some groups
  else if isShortAddress last then some (groups.dropLast ++ [['0'], ['0']])
  else none

/-- The long form of an address, without a zone. -/
def isLongAddress (text : List Char) : Bool :=
  3 ≤ (splitAt ':' text).length &&
    match groupsOf? text with
    | some groups => areGroups groups
    | none => false

/-- The long form of an address, with or without a zone behind `%`. -/
def isZonedAddress (text : List Char) : Bool :=
  match splitAt '%' text with
  | [address] => isLongAddress address
  | [address, zone] => zone != [] && isLongAddress address
  | _ => false

/-- The form kept for future versions: `v`, hexadecimal digits, a point, and at
least one of the characters allowed. -/
def isFutureAddress (allowed : Char → Bool) (text : List Char) : Bool :=
  match text with
  | 'v' :: rest =>
    let version := rest.takeWhile isHexDigit
    match rest.drop version.length with
    | '.' :: body => version != [] && body != [] && body.all allowed
    | _ => false
  | _ => false

end AccessJournal.Url
