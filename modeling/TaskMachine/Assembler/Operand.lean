import TaskMachine.Assembler.State
import TaskMachine.Isa.Info
import TaskMachine.Isa.Word
import TaskMachine.Numeral.Literal

/-!
# Operands

Numbers, registers, values for the info word, and branch targets. A number as a
target is a distance and is patched in at once; a label is patched in when the
whole source has been read.
-/

namespace TaskMachine

open Numeral

/-- How an equate spells an index into the constant pool. -/
def poolMark : String := "%pool:"

/-- The equate value that stands for a pool index. -/
def poolReference (index : UInt32) : String := poolMark ++ decimalNat index.toNat

/-- The digits of a pool reference. -/
def poolDigits? (word : String) : Option (List Char) :=
  if poolMark.toList.isPrefixOf word.toList then some (word.toList.drop poolMark.length) else none

/-- The word without the mark of a complement, and whether it had one. -/
def splitComplement (word : String) : Bool × List Char :=
  match word.toList with
  | '~' :: cs => (true, cs)
  | cs => (false, cs)

/-- The value of a number: a literal from `-2 ^ 31` to `2 ^ 32 - 1`, or the complement of one. -/
def numberOf? (word : String) : Option UInt32 :=
  let (complement, cs) := splitComplement word
  match signedLiteral 34 cs with
  | .ok n =>
    if -0x80000000 ≤ n ∧ n < 0x100000000 then
      some (if complement then ~~~(UInt32.ofInt n) else UInt32.ofInt n)
    else none
  | .error _ => none

/-- The error for a word that is no number; the mark of a complement is not part of it. -/
def notNumber (word : String) : AsmError := .notNumber (String.ofList (splitComplement word).2)

/-- Whether a word has the form of a label: letters, digits, underscores and points, no digit
first. -/
def isLabel (word : String) : Bool :=
  let start (c : Char) : Bool := c.isAlpha || c == '_' || c == '.'
  match word.toList with
  | [] => false
  | c :: cs => start c && cs.all fun c => start c || c.isDigit

namespace Asm

/-- The value of an operand that must be a number. -/
def number (word : String) : Asm UInt32 :=
  match numberOf? word with
  | some v => return v
  | none => throw (notNumber word)

/-- An operand for a signed field of some bits. The unsigned spelling of the field is accepted
as well, so that `0xff` is a byte. -/
def signedField (bits : Nat) (word : String) : Asm UInt32 := do
  let u ← number word
  let i := u.toInt32.toInt
  let half : Int := twoPow (bits - 1)
  if (-half ≤ i ∧ i < half) ∨ u.toNat < twoPow bits then return u
  else throw .immediateRange

/-- An operand for an unsigned byte. -/
def unsignedByte (word : String) : Asm UInt32 := do
  let u ← number word
  if u ≤ 0xff then return u else throw .immediateRange

/-- An operand for a byte that is signed or not. -/
def byteField (signed : Bool) (word : String) : Asm UInt32 :=
  if signed then signedField 8 word else unsignedByte word

/-- An operand that must be a register. -/
def register (word : String) : Asm Reg :=
  match Reg.ofName? word with
  | some r => return r
  | none => throw .registerInvalid

/-- The info word of a value, which goes to the pool if it does not fit. -/
def infoWord (value : UInt32) : Asm UInt32 :=
  if Info.fits value then return Info.ofLiteral value
  else do
    let index ← intern (.integer value)
    return Info.ofIndex index

/-- The info word of an operand: a pool reference or a number. -/
def operandInfo (word : String) : Asm UInt32 :=
  match poolDigits? word with
  | some digits =>
    match plainDecimal? 0x7fffffff digits with
    | some index => return Info.ofIndex (UInt32.ofNat index)
    | none => throw (.notNumber word)
  | none => do
    let value ← number word
    infoWord value

/-- Patches a distance, or the address of an offset, into a line. -/
def patch (line : Line) (distance : Int) (offset : UInt32) : Asm Line := do
  note fun _ =>
    decimalNat line.number ++ ": link " ++ line.link.name ++ " " ++ line.target.getD "" ++ " " ++
      signedDecimal distance
  let bad : AsmError := .outOfReach (line.target.getD "") distance
  match line.link with
  | .none => return line
  | .half =>
    if distance < -0x8000 ∨ 0x7fff < distance then throw bad
    else
      let half := UInt16.ofInt distance
      return { line with codes := line.codes.modifyHead (Word.withHalf · half) }
  | .byte =>
    if distance % 4 ≠ 0 ∨ distance / 4 < -0x80 ∨ 0x7f < distance / 4 then throw bad
    else
      let lane := UInt8.ofInt (distance / 4)
      return { line with codes := line.codes.modifyHead (Word.withLaneC · lane) }
  | .word =>
    if distance < -0x800000 ∨ 0x7fffff < distance then throw bad
    else
      let value := UInt32.ofInt distance
      let patched (w : UInt32) : UInt32 := Word.ofOffset24 (Word.code w) value
      return { line with codes := line.codes.modifyHead patched }
  | .info =>
    let info ← infoWord (UInt32.ofInt distance)
    return { line with codes := line.codes.set 1 info }
  | .absolute =>
    let info ← infoWord ((← get).origin + offset)
    return { line with codes := line.codes.set 1 info }

/-- Resolves the target of a line: a number is patched in at once, a label is remembered. -/
def aim (line : Line) (kind : LinkKind) (word : String) : Asm Line := do
  let line := { line with link := kind }
  match numberOf? word with
  | some value =>
    if kind = .absolute then
      let info ← infoWord value
      return { line with codes := line.codes.set 1 info }
    else patch line value.toInt32.toInt 0
  | none =>
    if kind = .absolute ∧ (poolDigits? word).isSome then
      let info ← operandInfo word
      return { line with codes := line.codes.set 1 info }
    else if isLabel word then return { line with target := some word }
    else throw (notNumber word)

end Asm

end TaskMachine
