import PageCompiler.Text.Basic

/-!
# UTF-8

Texts as bytes and back. `Utf8.next` takes one character off a sequence of bytes, or says what is
wrong at its beginning and how many bytes are at fault; the fault ends where the bytes stop being
the beginning of a character. Decoding stops at the first fault, and `Utf8.decodeLossy` puts a
replacement character in its place and goes on behind it.
-/

namespace PageCompiler

/-- What keeps bytes from being UTF-8. -/
inductive Utf8Fault where
  /-- A byte no character begins with. -/
  | invalidStart
  /-- A byte that does not continue the character before it. -/
  | invalidContinuation
  /-- The bytes end in the middle of a character. -/
  | unexpectedEnd
  deriving DecidableEq, Repr

/-- Bytes that are not UTF-8: the first byte at fault, its place, the place after the last byte at
fault, and the fault. -/
structure Utf8Error where
  /-- The first byte at fault. -/
  byte : UInt8
  /-- Its place. -/
  start : Nat
  /-- The place after the last byte at fault. -/
  stop : Nat
  fault : Utf8Fault
  deriving DecidableEq, Repr

namespace Utf8

def encode (t : Text) : List UInt8 := t.flatMap String.utf8EncodeChar

def isContinuation (b : UInt8) : Bool := 0x80 ≤ b && b < 0xc0

/-- Whether the second byte of a longer character may follow its first byte: it continues the
character, which then is not written with more bytes than needed, no surrogate, and no code point
beyond the last. -/
def mayFollow (first second : UInt8) : Bool :=
  isContinuation second &&
    !(first == 0xe0 && second < 0xa0) && !(first == 0xed && 0xa0 ≤ second) &&
    !(first == 0xf0 && second < 0x90) && !(first == 0xf4 && 0x90 ≤ second)

/-- The six low bits of a byte. -/
def low (b : UInt8) : Nat := b.toNat % 64

/-- The first character of a sequence of bytes and the bytes after it, or the fault at the beginning
and the number of bytes at fault. -/
def next : List UInt8 → Except (Utf8Fault × Nat) (Char × List UInt8)
  | [] => .error (.unexpectedEnd, 0)
  | a :: rest =>
    if a < 0x80 then .ok (Char.ofNat a.toNat, rest)
    else if a < 0xc2 then .error (.invalidStart, 1)
    else if a < 0xe0 then
      match rest with
      | [] => .error (.unexpectedEnd, 1)
      | b :: rest =>
        if isContinuation b then .ok (Char.ofNat (a.toNat % 32 * 64 + low b), rest)
        else .error (.invalidContinuation, 1)
    else if a < 0xf0 then
      match rest with
      | [] => .error (.unexpectedEnd, 1)
      | b :: rest =>
        if !mayFollow a b then .error (.invalidContinuation, 1)
        else
          match rest with
          | [] => .error (.unexpectedEnd, 2)
          | c :: rest =>
            if isContinuation c then
              .ok (Char.ofNat ((a.toNat % 16 * 64 + low b) * 64 + low c), rest)
            else .error (.invalidContinuation, 2)
    else if a < 0xf5 then
      match rest with
      | [] => .error (.unexpectedEnd, 1)
      | b :: rest =>
        if !mayFollow a b then .error (.invalidContinuation, 1)
        else
          match rest with
          | [] => .error (.unexpectedEnd, 2)
          | c :: rest =>
            if !isContinuation c then .error (.invalidContinuation, 2)
            else
              match rest with
              | [] => .error (.unexpectedEnd, 3)
              | d :: rest =>
                if isContinuation d then
                  .ok (Char.ofNat (((a.toNat % 8 * 64 + low b) * 64 + low c) * 64 + low d), rest)
                else .error (.invalidContinuation, 3)
    else .error (.invalidStart, 1)

def decodeFrom (place : Nat) (bytes : List UInt8) : Except Utf8Error Text :=
  match bytes with
  | [] => .ok []
  | b :: bs =>
    match next (b :: bs) with
    | .error (fault, count) => .error ⟨b, place, place + count, fault⟩
    | .ok (c, rest) =>
      if rest.length ≤ bs.length then
        (decodeFrom (place + ((b :: bs).length - rest.length)) rest).map (c :: ·)
      else .ok [c]
termination_by bytes.length

def decode (bytes : List UInt8) : Except Utf8Error Text := decodeFrom 0 bytes

/-- The text that bytes encode, with a replacement character for every fault. -/
def decodeLossy (bytes : List UInt8) : Text :=
  match bytes with
  | [] => []
  | b :: bs =>
    match next (b :: bs) with
    | .error (_, count) => '�' :: decodeLossy (bs.drop (count - 1))
    | .ok (c, rest) => if rest.length ≤ bs.length then c :: decodeLossy rest else [c]
termination_by bytes.length

end Utf8

end PageCompiler
