/-!
# Bytes as text

Byte strings need not be well-formed text. `Utf8.pieces` reads one as
characters where it is well formed, and as stray bytes where it is not.
-/

namespace TaskMachine.Text.Utf8

/-- A character, or a byte that belongs to none. -/
inductive Piece where
  | char (c : Char)
  | stray (b : UInt8)
  deriving DecidableEq, Repr

/-- The payload of a continuation byte. -/
def continuation? (b : UInt8) : Option Nat :=
  if 0x80 ≤ b ∧ b < 0xc0 then some (b.toNat - 0x80) else none

/-- The character with a code point of at least `least`; shorter encodings and surrogates are
refused. -/
def scalar? (least n : Nat) : Option Char :=
  if least ≤ n ∧ n ≤ 0x10ffff ∧ ¬ (0xd800 ≤ n ∧ n ≤ 0xdfff) then some (Char.ofNat n) else none

/-- The character that starts with byte `a`, and how many of the bytes after it belong to it. -/
def lead? (a : UInt8) (rest : List UInt8) : Option (Char × Nat) :=
  if a < 0x80 then some (Char.ofNat a.toNat, 0)
  else if 0xc0 ≤ a ∧ a < 0xe0 then
    match rest with
    | b :: _ => do
      let x ← continuation? b
      let c ← scalar? 0x80 ((a.toNat - 0xc0) * 64 + x)
      return (c, 1)
    | _ => none
  else if 0xe0 ≤ a ∧ a < 0xf0 then
    match rest with
    | b :: c :: _ => do
      let x ← continuation? b
      let y ← continuation? c
      let r ← scalar? 0x800 (((a.toNat - 0xe0) * 64 + x) * 64 + y)
      return (r, 2)
    | _ => none
  else if 0xf0 ≤ a ∧ a < 0xf8 then
    match rest with
    | b :: c :: d :: _ => do
      let x ← continuation? b
      let y ← continuation? c
      let z ← continuation? d
      let r ← scalar? 0x10000 ((((a.toNat - 0xf0) * 64 + x) * 64 + y) * 64 + z)
      return (r, 3)
    | _ => none
  else none

/-- Reads the pieces, `skip` bytes of which belong to the character before. -/
def piecesFrom (skip : Nat) : List UInt8 → List Piece → List Piece
  | [], acc => acc.reverse
  | a :: rest, acc =>
    match skip with
    | k + 1 => piecesFrom k rest acc
    | 0 =>
      match lead? a rest with
      | some (c, extra) => piecesFrom extra rest (.char c :: acc)
      | none => piecesFrom 0 rest (.stray a :: acc)

/-- A byte string as characters and stray bytes, in order. -/
def pieces (bytes : List UInt8) : List Piece := piecesFrom 0 bytes []

/-- The character of a piece, which for a stray byte is the replacement character. -/
def Piece.toChar : Piece → Char
  | .char c => c
  | .stray _ => Char.ofNat 0xfffd

/-- The characters of a byte string. -/
def decode (bytes : List UInt8) : List Char := (pieces bytes).map Piece.toChar

/-- The bytes of a text. -/
def encode (cs : List Char) : List UInt8 := cs.flatMap String.utf8EncodeChar

end TaskMachine.Text.Utf8
