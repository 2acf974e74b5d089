import TaskMachine.Isa.Word

/-!
# Operations on words

The arithmetic, logic, shifts, divisions and comparisons that instructions are
made of, as plain functions on 32-bit words. Shift counts are taken modulo 32,
and comparisons read their operands as two's-complement or as unsigned numbers.
-/

namespace TaskMachine

/-- An operation on two words that always has a result. -/
inductive BinaryOp where
  | add
  | sub
  | mul
  | and
  | or
  | xor
  | sll
  | srl
  | sra
  deriving DecidableEq, Repr

/-- The result of an operation. -/
def BinaryOp.apply : BinaryOp → UInt32 → UInt32 → UInt32
  | .add, a, b => a + b
  | .sub, a, b => a - b
  | .mul, a, b => a * b
  | .and, a, b => a &&& b
  | .or, a, b => a ||| b
  | .xor, a, b => a ^^^ b
  | .sll, a, b => a <<< (b &&& 0x1f)
  | .srl, a, b => a >>> (b &&& 0x1f)
  | .sra, a, b => (a.toInt32 >>> (b &&& 0x1f).toInt32).toUInt32

/-- An operation on one word. -/
inductive UnaryOp where
  | not
  | neg
  | extendByte
  | extendHalf
  | move
  | moveByte
  | moveHalf
  deriving DecidableEq, Repr

/-- The result of an operation on one word. -/
def UnaryOp.apply : UnaryOp → UInt32 → UInt32
  | .not, s => ~~~s
  | .neg, s => 0 - s
  | .extendByte, s => Word.signExtend8 s.toUInt8
  | .extendHalf, s => Word.signExtend16 s.toUInt16
  | .move, s => s
  | .moveByte, s => s &&& 0xff
  | .moveHalf, s => s &&& 0xffff

/-- The two divisions. -/
inductive Division where
  | signed
  | unsigned
  deriving DecidableEq, Repr

/-- A quotient rounded toward zero; there is none by zero. The least signed number divided by
minus one wraps around to itself. -/
def Division.apply? (d : Division) (a b : UInt32) : Option UInt32 :=
  if b = 0 then none
  else
    match d with
    | .signed => some (a.toInt32 / b.toInt32).toUInt32
    | .unsigned => some (a / b)

/-- The relations that branches test. -/
inductive Condition where
  | eq
  | ne
  | ge
  | geu
  | gt
  | gtu
  | le
  | leu
  | lt
  | ltu
  deriving DecidableEq, Repr

/-- Whether two words stand in a relation. -/
def Condition.holds : Condition → UInt32 → UInt32 → Bool
  | .eq, a, b => a == b
  | .ne, a, b => a != b
  | .ge, a, b => b.toInt32 ≤ a.toInt32
  | .geu, a, b => b ≤ a
  | .gt, a, b => b.toInt32 < a.toInt32
  | .gtu, a, b => b < a
  | .le, a, b => a.toInt32 ≤ b.toInt32
  | .leu, a, b => a ≤ b
  | .lt, a, b => a.toInt32 < b.toInt32
  | .ltu, a, b => a < b

/-- The narrow operand sizes. -/
inductive Narrow where
  | byte
  | half
  deriving DecidableEq, Repr

namespace Narrow

/-- The bits that a narrow operand has. -/
def mask : Narrow → UInt32
  | .byte => 0xff
  | .half => 0xffff

/-- A word's narrow part with its sign carried up. -/
def signExtend : Narrow → UInt32 → UInt32
  | .byte, v => Word.signExtend8 v.toUInt8
  | .half, v => Word.signExtend16 v.toUInt16

end Narrow

/-- The sizes of loads and stores. -/
inductive Width where
  | byte
  | half
  | word
  deriving DecidableEq, Repr

end TaskMachine
