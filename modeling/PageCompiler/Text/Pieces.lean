import PageCompiler.Text.Basic

/-!
# Reading and searching

A reader takes a text and gives what it read from the beginning together with the rest, or nothing
when the text does not begin as it should. `Text.pieces` applies a reader at the leftmost place
where it succeeds, goes on behind what was read, and keeps the characters between: searching,
listing all occurrences and replacing them are views of that one list.
-/

namespace PageCompiler

/-- Reads something from the beginning of a text and gives the rest. -/
abbrev Reader (α : Type) := Text → Option (α × Text)

/-- A part of a searched text: a character nothing was read at, or something read. -/
inductive Piece (α : Type) where
  /-- A character that is not part of anything read. -/
  | plain (c : Char)
  /-- Something the reader found. -/
  | found (a : α)

namespace Text

/-! ## Small readers -/

/-- The rest after at least one blank and all blanks that follow. -/
def blanks? : Text → Option Text
  | [] => none
  | c :: cs => if isBlank c then some (trimLeft cs) else none

/-- A longest run of characters of a class, at least one. -/
def run? (p : Char → Bool) (t : Text) : Option (Text × Text) :=
  match t.takeWhile p with
  | [] => none
  | c :: cs => some (c :: cs, t.dropWhile p)

/-- A longest run of word characters, at least one. -/
def word? (t : Text) : Option (Text × Text) := run? isWord t

/-- The text before the first occurrence of a character, and the rest after that character. -/
def upTo? (stop : Char) (t : Text) : Option (Text × Text) :=
  match t.dropWhile (· != stop) with
  | [] => none
  | _ :: rest => some (t.takeWhile (· != stop), rest)

/-- The rest after a single character of a class, with that character. -/
def char? (p : Char → Bool) : Text → Option (Char × Text)
  | [] => none
  | c :: cs => if p c then some (c, cs) else none

/-- Whether a text does not go on with a word character. -/
def atWordEnd : Text → Bool
  | [] => true
  | c :: _ => !isWord c

/-! ## Searching -/

/-- Splits a text into what the reader finds, leftmost first and without overlap, and the characters
between. A reader that consumes nothing finds nothing. -/
def pieces {α : Type} (read : Reader α) (t : Text) : List (Piece α) :=
  match t with
  | [] => []
  | c :: cs =>
    match read (c :: cs) with
    | none => .plain c :: pieces read cs
    | some (a, rest) =>
      if rest.length ≤ cs.length then .found a :: pieces read rest
      else .plain c :: pieces read cs
termination_by t.length

/-- Everything the reader finds, in order. -/
def findAll {α : Type} (read : Reader α) (t : Text) : List α :=
  (pieces read t).filterMap fun
    | .plain _ => none
    | .found a => some a

/-- The first thing the reader finds at any place. -/
def find? {α : Type} (read : Reader α) : Text → Option α
  | [] => (read []).map Prod.fst
  | c :: cs =>
    match read (c :: cs) with
    | some (a, _) => some a
    | none => find? read cs

/-- Writes something else for everything the reader finds and keeps the rest. -/
def substitute {α : Type} (read : Reader α) (write : α → Text) (t : Text) : Text :=
  (pieces read t).flatMap fun
    | .plain c => [c]
    | .found a => write a

/-- Writes `new` for every occurrence of a non-empty text. -/
def replace (old new t : Text) : Text :=
  substitute (fun u ↦ (after? old u).map ((), ·)) (fun _ ↦ new) t

end Text

end PageCompiler
