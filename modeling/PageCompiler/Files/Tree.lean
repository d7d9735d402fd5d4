import PageCompiler.Files.Path
import PageCompiler.Text.Quoted
import PageCompiler.Text.Utf8
import PageCompiler.Number.Numeral

/-!
# File trees

The files and directories that a run sees, as a value: a list of locations, each a row of components
from the root, with what is there. A path is walked component by component, and every component but
the last has to lead to a directory. Paths and components that are too long lead nowhere, and so
does a path with a null character in it.

Permissions and symbolic links are left out: every file can be read, every directory can be searched
and written to, and no location is another name for a different one. What is proved about asking for
files, and so about the search for imports, rests on that: only the length of a path can keep an
answer back.
-/

namespace PageCompiler

/-- What is at a location. -/
inductive Node where
  /-- A file with its bytes. -/
  | file (bytes : List UInt8)
  | directory
  deriving DecidableEq, Repr

def Node.isFile : Node → Bool
  | .file _ => true
  | .directory => false

/-- The kinds of failures of the file system. -/
inductive FileFault where
  | notFound
  /-- There is something at the path already. -/
  | exists
  | notADirectory
  | isADirectory
  /-- The path or one of its components is too long. -/
  | nameTooLong
  | nullCharacter
  deriving DecidableEq, Repr

/-- A failure of the file system, with the path that was asked for. -/
structure FileError where
  fault : FileFault
  /-- The path as it was asked for. -/
  path : Text
  deriving DecidableEq, Repr

/-- The number of a fault; a path with a null character is refused before it gets one. -/
def FileFault.number? : FileFault → Option Nat
  | .notFound => some 2
  | .exists => some 17
  | .notADirectory => some 20
  | .isADirectory => some 21
  | .nameTooLong => some 36
  | .nullCharacter => none

def FileFault.wording : FileFault → Text
  | .notFound => "No such file or directory"
  | .exists => "File exists"
  | .notADirectory => "Not a directory"
  | .isADirectory => "Is a directory"
  | .nameTooLong => "File name too long"
  | .nullCharacter => "embedded null byte"

def FileError.message (e : FileError) : Text :=
  match e.fault.number? with
  | some number =>
    "[Errno " ++ Numeral.ofNat number ++ "] " ++ e.fault.wording ++ ": " ++ Text.quoted e.path
  | none => e.fault.wording

/-- The wording of bytes that are not UTF-8. -/
def Utf8Error.message (e : Utf8Error) : Text :=
  let reason : Text :=
    match e.fault with
    | .invalidStart => "invalid start byte"
    | .invalidContinuation => "invalid continuation byte"
    | .unexpectedEnd => "unexpected end of data"
  let place : Text :=
    if e.stop = e.start + 1 then
      "byte 0x" ++ Text.hex 2 e.byte.toNat ++ " in position " ++ Numeral.ofNat e.start
    else
      "bytes in position " ++ Numeral.ofNat e.start ++ "-" ++ Numeral.ofNat (e.stop - 1)
  "'utf-8' codec can't decode " ++ place ++ ": " ++ reason

/-- Why a file could not be read as text. -/
inductive ReadError where
  /-- The file system failed. -/
  | file (e : FileError)
  /-- The bytes are not UTF-8. -/
  | decoding (e : Utf8Error)
  deriving DecidableEq, Repr

def ReadError.message : ReadError → Text
  | .file e => e.message
  | .decoding e => e.message

/-- Whether reading failed because there is nothing at the path, as far as can be told. -/
def ReadError.isAbsence : ReadError → Bool
  | .file e => e.fault = .notFound || e.fault = .notADirectory || e.fault = .nullCharacter
  | .decoding _ => false

/-- The files and directories that a run sees. -/
structure FileTree where
  cwd : List Text := []
  /-- What is at which location; the first entry of a location counts. -/
  nodes : List (List Text × Node) := []
  deriving DecidableEq, Repr

namespace FileTree

/-! ## Locations -/

/-- What is at a location. The root is a directory. -/
def at? (tree : FileTree) (location : List Text) : Option Node :=
  if location.isEmpty then some .directory else List.lookup location tree.nodes

def put (tree : FileTree) (location : List Text) (node : Node) : FileTree :=
  if tree.nodes.any (·.1 == location) then
    { tree with nodes := tree.nodes.map fun e ↦ if e.1 = location then (location, node) else e }
  else { tree with nodes := tree.nodes ++ [(location, node)] }

def maxComponentBytes : Nat := 255

def maxPathBytes : Nat := 4095

/-- Walks from a directory along components. Gives the location they lead to, where only the last
component may lead to nothing. -/
def walk (tree : FileTree) : (location : List Text) → List Text → Except FileFault (List Text)
  | location, [] => .ok location
  | location, p :: ps =>
    match tree.at? location with
    | some .directory =>
      if maxComponentBytes < (Utf8.encode p).length then .error .nameTooLong
      else walk tree (if p = Path.up then location.dropLast else location ++ [p]) ps
    | some (.file _) => .error .notADirectory
    | none => .error .notFound

def locate (tree : FileTree) (path : Path) : Except FileFault (List Text) :=
  if '\x00' ∈ path.toText then .error .nullCharacter
  else if maxPathBytes < (Utf8.encode path.toText).length then .error .nameTooLong
  else if path.isAbsolute then tree.walk [] path.parts
  else tree.walk tree.cwd path.parts

/-- What is at a path. -/
def find? (tree : FileTree) (path : Path) : Option Node :=
  match tree.locate path with
  | .ok location => tree.at? location
  | .error _ => none

def isFile (tree : FileTree) (path : Path) : Bool := (tree.find? path).any Node.isFile

def isDirectory (tree : FileTree) (path : Path) : Bool := tree.find? path == some .directory

/-- What is at a path, as far as one can ask. Of a path that is too long one cannot, while any other
path that leads nowhere has nothing at it. -/
def ask (tree : FileTree) (path : Path) : Except FileError (Option Node) :=
  match tree.locate path with
  | .ok location => .ok (tree.at? location)
  | .error .nameTooLong => .error ⟨.nameTooLong, path.toText⟩
  | .error _ => .ok none

/-- Whether there is a file at a path, as far as one can ask. -/
def askFile (tree : FileTree) (path : Path) : Except FileError Bool :=
  (tree.ask path).map (·.any Node.isFile)

/-- What is at a path as written. An empty path leads nowhere, and a path that ends with a slash or
a point leads to a directory only. -/
def findText? (tree : FileTree) (path : Text) : Option Node :=
  let last := (Text.splitOn '/' path).getLast?
  if path.isEmpty then none
  else
    (tree.find? (Path.ofText path)).filter fun node ↦
      node == .directory || (last != some [] && last != some ['.'])

/-! ## Reading -/

def readBytes (tree : FileTree) (path : Path) : Except FileError (List UInt8) :=
  let fail (fault : FileFault) : Except FileError (List UInt8) := .error ⟨fault, path.toText⟩
  match tree.locate path with
  | .error fault => fail fault
  | .ok location =>
    match tree.at? location with
    | some (.file bytes) => .ok bytes
    | some .directory => fail .isADirectory
    | none => fail .notFound

/-- A text with a line feed for every line end. -/
def unifyLineEnds : Text → Text
  | [] => []
  | ['\r'] => ['\n']
  | '\r' :: '\n' :: rest => '\n' :: unifyLineEnds rest
  | '\r' :: rest => '\n' :: unifyLineEnds rest
  | c :: rest => c :: unifyLineEnds rest

def readText (tree : FileTree) (path : Path) : Except ReadError Text :=
  match tree.readBytes path with
  | .error e => .error (.file e)
  | .ok bytes =>
    match Utf8.decode bytes with
    | .error e => .error (.decoding e)
    | .ok text => .ok (unifyLineEnds text)

/-! ## Writing -/

/-- Writes a file, which may exist already, into a directory that has to exist. -/
def writeText (tree : FileTree) (path : Path) (text : Text) : Except FileError FileTree :=
  let fail (fault : FileFault) : Except FileError FileTree := .error ⟨fault, path.toText⟩
  match tree.locate path with
  | .error fault => fail fault
  | .ok location =>
    match tree.at? location with
    | some .directory => fail .isADirectory
    | _ => .ok (tree.put location (.file (Utf8.encode text)))

/-- Makes one directory, in a directory that has to exist. -/
def makeOne (tree : FileTree) (path : Path) : Except FileFault FileTree :=
  match tree.locate path with
  | .error fault => .error fault
  | .ok location =>
    match tree.at? location with
    | some _ => .error .exists
    | none => .ok (tree.put location .directory)

def makeUnlessThere (tree : FileTree) (path : Path) : Except FileError FileTree :=
  match tree.makeOne path with
  | .ok made => .ok made
  | .error fault => if tree.isDirectory path then .ok tree else .error ⟨fault, path.toText⟩

/-- Makes a directory and the directories above it, unless they exist. The components are given from
the last to the first. What was made before a failure stays. -/
def makeAll (tree : FileTree) (root : Text) : (reversed : List Text) → FileTree × Option FileError
  | [] => (tree, none)
  | p :: above =>
    let path : Path := ⟨root, (p :: above).reverse⟩
    match tree.makeOne path with
    | .ok made => (made, none)
    | .error .notFound =>
      match makeAll tree root above with
      | (made, some e) => (made, some e)
      | (made, none) =>
        match made.makeUnlessThere path with
        | .ok again => (again, none)
        | .error e => (made, some e)
    | .error fault =>
      if tree.isDirectory path then (tree, none) else (tree, some ⟨fault, path.toText⟩)

/-- Makes a directory and the directories above it, unless they exist. -/
def makeDirectories (tree : FileTree) (path : Path) : FileTree × Option FileError :=
  tree.makeAll path.root path.parts.reverse

end FileTree

end PageCompiler
