import PageCompiler.OrderedMap
import PageCompiler.Text.Pieces
import PageCompiler.Text.Quoted
import PageCompiler.Text.Utf8

/-!
# Addresses

The path and the query of an address. An address may begin with a scheme and a host; the fragment is
cut off first, then the query. Tabs and line ends are dropped wherever they stand, and so are
control characters and blanks at the beginning.

The host may come with a user before it, and with a colon and a number after it. A host in brackets
has to be an address of version 6 of the Internet protocol, or of a later one, and nothing but that
number may follow it.
-/

namespace PageCompiler

namespace Address

/-- What is wrong with an address. -/
inductive Error where
  /-- A bracket without its counterpart, or with something between it and the end of the host. -/
  | strayBracket
  /-- A host in brackets that is no address. -/
  | notAnAddress (host : Text)
  /-- A host in brackets that is an address of version 4. -/
  | oldAddress
  /-- A host in brackets that announces a later version but is not well formed. -/
  | laterVersion
  /-- An authority with a character that stands for one of the separators. -/
  | disguisedSeparator (authority : Text)
  deriving DecidableEq, Repr

def Error.message : Error → Text
  | .strayBracket => "Invalid IPv6 URL"
  | .notAnAddress host =>
    Text.quoted host ++ " does not appear to be an IPv4 or IPv6 address"
  | .oldAddress => "An IPv4 address cannot be in brackets"
  | .laterVersion => "IPvFuture address is invalid"
  | .disguisedSeparator authority =>
    "netloc '" ++ authority ++ "' contains invalid characters under NFKC normalization"

/-! ## Hosts -/

def isHexDigit (c : Char) : Bool :=
  isLatinDigit c || ('a' ≤ c && c ≤ 'f') || ('A' ≤ c && c ≤ 'F')

/-- Whether a text is a number from 0 to 255 without leading zeros. -/
def isOctet (t : Text) : Bool :=
  !t.isEmpty && t.all isLatinDigit && t.length ≤ 3 && (t.length == 1 || t.head? != some '0') &&
    t.foldl (fun n c ↦ 10 * n + (c.toNat - '0'.toNat)) 0 ≤ 255

def isVersion4 (t : Text) : Bool :=
  let octets := Text.splitOn '.' t
  octets.length == 4 && octets.all isOctet

/-- Whether a text is one group of an address of version 6. -/
def isGroup (t : Text) : Bool := !t.isEmpty && t.length ≤ 4 && t.all isHexDigit

/-- Whether texts between colons make up an address of version 6: eight groups, or fewer with one
gap. The gap shows as an empty text inside, and at an end as two. -/
def areGroups (parts : List Text) : Bool :=
  let inner := (parts.drop 1).dropLast
  match inner.filter (·.isEmpty) with
  | [] => parts.length == 8 && parts.all isGroup
  | [_] =>
    let low := parts.takeWhile fun p ↦ !p.isEmpty
    let atStart := parts.head?.any (·.isEmpty)
    let atEnd := parts.getLast?.any (·.isEmpty)
    let gap := if atStart then 1 else low.length
    let before := parts.take gap
    let after := parts.drop (gap + 1)
    (if atStart then gap == 1 && parts[1]? == some [] else before.all isGroup) &&
      (if atEnd then after == [[]] else after.all isGroup) &&
      (if atStart then 0 else before.length) + (if atEnd then 0 else after.length) ≤ 7
  | _ => false

/-- Whether a text is an address of version 6, whose last two groups may be written as an address of
version 4, and which may name a zone. -/
def isVersion6 (t : Text) : Bool :=
  let (address, zoneOk) :=
    match Text.cut? ['%'] t with
    | none => (t, true)
    | some (before, zone) => (before, !zone.isEmpty && '%' ∉ zone)
  let parts := Text.splitOn ':' address
  let last := parts.getLast?.getD []
  zoneOk && '/' ∉ t && 3 ≤ parts.length &&
    if '.' ∈ last then isVersion4 last && areGroups (parts.dropLast ++ [['0'], ['0']])
    else areGroups parts

/-- Whether a host announces a later version and is well formed. -/
def isLaterVersion (host : Text) : Bool :=
  match Text.run? isHexDigit (host.drop 1) with
  | none => false
  | some (_, rest) =>
    match rest with
    | '.' :: more => !more.isEmpty && '\n' ∉ more
    | _ => false

/-- The characters that are equivalent to a text with one of the separators in it. -/
def disguises : List Nat :=
  [0x2047, 0x2048, 0x2049, 0x2100, 0x2101, 0x2105, 0x2106, 0x2a74, 0xfe13, 0xfe16, 0xfe55, 0xfe56,
   0xfe5f, 0xfe6b, 0xff03, 0xff0f, 0xff1a, 0xff1f, 0xff20]

/-- Checks the text of a host in brackets. -/
def checkBracketed (host : Text) : Except Error Unit :=
  if Text.startsWith host "v" then
    if isLaterVersion host then .ok () else .error .laterVersion
  else if isVersion4 host then .error .oldAddress
  else if isVersion6 host then .ok ()
  else .error (.notAnAddress host)

/-- The host and its number: what follows the last at sign. -/
def withoutUser (authority : Text) : Text := (authority.reverse.takeWhile (· != '@')).reverse

/-- Checks the host of an authority that has brackets of both kinds. Where the brackets belong to
the user, the host counts as one in brackets too. -/
def checkHost (authority : Text) : Except Error Unit :=
  match Text.cut? ['['] (withoutUser authority) with
  | none => checkBracketed ((withoutUser authority).takeWhile (· != ':'))
  | some (before, inside) =>
    let after := (inside.dropWhile (· != ']')).drop 1
    if !before.isEmpty || !(after.isEmpty || Text.startsWith after ":") then .error .strayBracket
    else checkBracketed (inside.takeWhile (· != ']'))

def checkBrackets (authority : Text) : Except Error Unit :=
  if '[' ∈ authority ∧ ']' ∈ authority then checkHost authority
  else if '[' ∈ authority ∨ ']' ∈ authority then .error .strayBracket
  else .ok ()

/-- Checks an authority for characters that stand for separators. -/
def checkDisguises (authority : Text) : Except Error Unit :=
  if authority.any fun c ↦ c.toNat ∈ disguises then .error (.disguisedSeparator authority)
  else .ok ()

/-! ## Splitting -/

/-- The path and the query of an address. -/
structure Parts where
  path : Text
  /-- The query, without its question mark. -/
  query : Text

/-- Whether a character may stand in a scheme. -/
def inScheme (c : Char) : Bool :=
  isLatinLetter c || isLatinDigit c || c == '+' || c == '-' || c == '.'

/-- The address without its scheme: a letter and more characters of a scheme before the first
colon. -/
def withoutScheme (url : Text) : Text :=
  match Text.cut? [':'] url with
  | some (c :: cs, rest) => if isLatinLetter c && cs.all inScheme then rest else url
  | _ => url

def endsAuthority (c : Char) : Bool := c == '/' || c == '?' || c == '#'

/-- The authority, which is the host with its user and its number, and what follows it, when an
address has one. -/
def authority? (url : Text) : Option (Text × Text) :=
  (Text.after? "//" url).map fun rest ↦
    (rest.takeWhile (!endsAuthority ·), rest.dropWhile (!endsAuthority ·))

/-- The address without what is dropped from it. -/
def cleaned (url : Text) : Text :=
  (url.dropWhile fun c ↦ c.toNat ≤ 0x20).filter fun c ↦ c != '\t' && c != '\r' && c != '\n'

def split (url : Text) : Except Error Parts :=
  let (authority, rest) := (authority? (withoutScheme (cleaned url))).getD
    ([], withoutScheme (cleaned url))
  let beforeFragment := rest.takeWhile (· != '#')
  let parts : Parts :=
    ⟨beforeFragment.takeWhile (· != '?'), (beforeFragment.dropWhile (· != '?')).drop 1⟩
  match checkBrackets authority with
  | .error e => .error e
  | .ok () => (checkDisguises authority).map fun () ↦ parts

/-! ## Queries -/

def hexValue (c : Char) : Nat :=
  if isLatinDigit c then c.toNat - '0'.toNat else c.toLower.toNat - 'a'.toNat + 10

/-- The bytes of basic characters, where a percent sign and two hexadecimal digits are one byte. -/
def percentBytes : Text → List UInt8
  | [] => []
  | [c] => [c.toNat.toUInt8]
  | [c, d] => [c.toNat.toUInt8, d.toNat.toUInt8]
  | c :: d :: e :: rest =>
    if c = '%' && isHexDigit d && isHexDigit e then
      (16 * hexValue d + hexValue e).toUInt8 :: percentBytes rest
    else c.toNat.toUInt8 :: percentBytes (d :: e :: rest)

/-- Whether a character is a basic one. -/
def isBasic (c : Char) : Bool := c.toNat < 128

/-- Undoes percent encoding in every run of basic characters. -/
def percentDecode (t : Text) : Text :=
  match t with
  | [] => []
  | c :: cs =>
    if isBasic c then
      Utf8.decodeLossy (percentBytes (c :: cs.takeWhile isBasic)) ++
        percentDecode (cs.dropWhile isBasic)
    else c :: percentDecode cs
termination_by t.length
decreasing_by
  · have := (List.dropWhile_sublist isBasic (l := cs)).length_le
    simp only [List.length_cons]
    omega
  · simp

/-- A part of a query, decoded: a plus sign is a blank. -/
def decoded (t : Text) : Text := percentDecode (t.map fun c ↦ if c = '+' then ' ' else c)

/-- The pairs of a query. A field without a value is dropped; of two fields with the same name the
later one counts, at the place of the first. -/
def queryPairs (query : Text) : OrderedMap Text :=
  OrderedMap.ofPairs <| (Text.splitOn '&' query).filterMap fun field ↦
    match Text.cut? ['='] field with
    | none | some (_, []) => none
    | some (name, value) => some (decoded name, decoded value)

end Address

end PageCompiler
