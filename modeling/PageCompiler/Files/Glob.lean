import PageCompiler.Files.Tree

/-!
# Glob patterns

A row of patterns selects files, one pattern for each component of their paths, except that two
asterisks stand for any row of directories.

In a pattern for names, an asterisk matches any text, a question mark any character, and brackets
one character of a set, or with an exclamation mark one character outside of it. Everything else
matches itself, and so does a bracket that is not closed.
-/

namespace PageCompiler

namespace Glob

/-- A set of characters: ranges, and whether it is the characters outside of them that are meant. -/
structure CharSet where
  /-- Whether the characters outside of the ranges are meant. -/
  negated : Bool
  /-- The ranges, ends included. -/
  ranges : List (Char × Char)
  deriving DecidableEq, Repr

def CharSet.has (s : CharSet) (c : Char) : Bool :=
  s.ranges.any (fun (low, high) ↦ low ≤ c && c ≤ high) != s.negated

inductive Item where
  /-- Any text. -/
  | anything
  | anyChar
  /-- A character of a set. -/
  | oneOf (s : CharSet)
  | char (c : Char)
  deriving DecidableEq, Repr

/-- The ranges between brackets. A hyphen between two characters makes a range of them. -/
def ranges : Text → List (Char × Char)
  | [] => []
  | low :: '-' :: high :: rest => (low, high) :: ranges rest
  | c :: rest => (c, c) :: ranges rest

/-- The text up to a closing bracket, which does not count as the first character, and what follows
it. -/
def bracketed? : Text → Option (Text × Text)
  | [] => none
  | first :: rest => (Text.upTo? ']' rest).map fun (inside, after) ↦ (first :: inside, after)

/-- The text between brackets without the ranges at its beginning that hold no character. -/
def dropEmptyRanges : Text → Text
  | low :: '-' :: high :: rest =>
    if high < low then dropEmptyRanges rest else low :: '-' :: high :: rest
  | t => t

/-- The set of a text between brackets that does not begin with an exclamation mark. One that comes
first once empty ranges are left out counts all the same, and never begins a range. -/
def setOf (inside : Text) : CharSet :=
  match dropEmptyRanges inside with
  | '!' :: '-' :: c :: rest => ⟨true, ('-', '-') :: (c, c) :: ranges rest⟩
  | '!' :: rest => ⟨true, ranges rest⟩
  | kept => ⟨false, ranges kept⟩

/-- The set after an opening bracket, and what follows it. -/
def charSet? (t : Text) : Option (CharSet × Text) :=
  match t with
  | '!' :: rest => (bracketed? rest).map fun (inside, after) ↦ (⟨true, ranges inside⟩, after)
  | _ => (bracketed? t).map fun (inside, after) ↦ (setOf inside, after)

/-- The items of a pattern, of which at most `fuel` are read. -/
def itemsWith : (fuel : Nat) → Text → List Item
  | 0, _ => []
  | _ + 1, [] => []
  | fuel + 1, c :: rest =>
    if c = '*' then .anything :: itemsWith fuel rest
    else if c = '?' then .anyChar :: itemsWith fuel rest
    else if c = '[' then
      match charSet? rest with
      | some (s, after) => .oneOf s :: itemsWith fuel after
      | none => .char c :: itemsWith fuel rest
    else .char c :: itemsWith fuel rest

def items (pattern : Text) : List Item := itemsWith pattern.length pattern

/-- Whether a list, or a part of it that ends it, fits. -/
def anyEnd {α : Type} (fits : List α → Bool) : List α → Bool
  | [] => fits []
  | a :: rest => fits (a :: rest) || anyEnd fits rest

def matchItems : List Item → Text → Bool
  | [], t => t.isEmpty
  | .anything :: more, t => anyEnd (matchItems more) t
  | .anyChar :: more, t => (t.head?.isSome) && matchItems more t.tail
  | .oneOf s :: more, t => t.head?.any s.has && matchItems more t.tail
  | .char c :: more, t => t.head? == some c && matchItems more t.tail

def matchName (pattern name : Text) : Bool := matchItems (items pattern) name

/-- The pattern that any row of directories matches. -/
def anyDepth : Text := "**"

/-- Whether a pattern is one for names, and not a name itself. -/
def isWildcard (pattern : Text) : Bool := pattern.any fun c ↦ c == '*' || c == '?' || c == '['

end Glob

namespace FileTree

/-- The names of what is in the directory at a location. -/
def entries (tree : FileTree) (location : List Text) : List Text :=
  tree.nodes.filterMap fun (place, _) ↦ if place.dropLast = location then place.getLast? else none

/-- The components from a location to the directories below it, and to itself if it is one. -/
def directories (tree : FileTree) (location : List Text) : List (List Text) :=
  let places := location :: tree.nodes.map Prod.fst
  (places.filter fun place ↦
    location.isPrefixOf place && tree.at? place == some .directory).map (·.drop location.length)

/-- The location that a component leads to from a location, when there is something at it. -/
def step? (tree : FileTree) (location : List Text) (component : Text) :
    Except FileFault (Option (List Text)) :=
  match tree.walk location [component] with
  | .ok next => .ok (if (tree.at? next).isSome then some next else none)
  | .error .nameTooLong => .error .nameTooLong
  | .error _ => .ok none

/-- The rows of components from a location that patterns match, one pattern for each component. A
pattern that is a name leads where that component leads, which may be the directory above. Fails
with the row that leads to a name that is too long to ask about. -/
def select (tree : FileTree) :
    (patterns location : List Text) → Except (List Text) (List (List Text))
  | [], _ => .ok [[]]
  | pattern :: more, location =>
    let onwards (parts next : List Text) : Except (List Text) (List (List Text)) :=
      match tree.select more next with
      | .ok rows => .ok (rows.map (parts ++ ·))
      | .error row => .error (parts ++ row)
    if pattern = Glob.anyDepth then
      ((tree.directories location).mapM fun parts ↦ onwards parts (location ++ parts)).map
        List.flatten
    else if Glob.isWildcard pattern then
      (((tree.entries location).filter (Glob.matchName pattern)).mapM fun name ↦
        onwards [name] (location ++ [name])).map List.flatten
    else
      match tree.step? location pattern with
      | .ok (some next) => onwards [pattern] next
      | .ok none => .ok []
      | .error _ => .error [pattern]

end FileTree

end PageCompiler
