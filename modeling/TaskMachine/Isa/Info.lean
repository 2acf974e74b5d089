/-!
# Info words

Operands that do not fit an instruction word follow it in an info word. Bit 31
marks a literal: a 31-bit two's-complement number whose sign, bit 30, is copied
back up on reading. Without the mark the word is an index into the constant
pool.
-/

namespace TaskMachine

/-- What an info word says. -/
inductive Info where
  | literal (value : UInt32)
  | pooled (index : UInt32)
  deriving DecidableEq, Repr

namespace Info

/-- Whether a value can stand in an info word itself. -/
def fits (value : UInt32) : Bool :=
  -0x40000000 ≤ value.toInt32.toInt && value.toInt32.toInt < 0x40000000

/-- The info word of a literal; only the low 31 bits of the value are kept. -/
def ofLiteral (value : UInt32) : UInt32 := value &&& 0x7fffffff ||| 0x80000000

/-- The info word of a pool index. -/
def ofIndex (index : UInt32) : UInt32 := index &&& 0x7fffffff

/-- Reads an info word. -/
def read (word : UInt32) : Info :=
  if word < 0x80000000 then .pooled word
  else .literal (word &&& (0x7fffffff : UInt32) ||| word <<< 1 &&& (0x80000000 : UInt32))

end Info

end TaskMachine
