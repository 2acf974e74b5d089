import TaskMachine.Isa.Word
import TaskMachine.Numeral.Digits
import TaskMachine.Store.Bytes

/-!
# Memory

Memory is an array of bytes mapped at a base address. An access of some bytes
is allowed when all of them are mapped; words and halves are stored with their
low byte first. A write puts a few bytes at an offset; blocks of any length are
copied and filled in one go.
-/

namespace TaskMachine

open Numeral

/-- A little-endian byte array mapped at `base`. -/
structure Memory where
  base : UInt32
  data : Bytes
  deriving DecidableEq, Repr

/-- An access of `size` bytes at `addr` that is not wholly mapped. -/
structure AddressError where
  addr : UInt32
  size : UInt32
  deriving DecidableEq, Repr

/-- The text of an address error. -/
def AddressError.message (e : AddressError) : String :=
  "access of " ++ grouped e.size.toNat ++ " bytes at 0x" ++ hexWord e.addr ++ " out of range"

/-- The cause that every address error has in common. -/
def AddressError.causeText : String := "address out of range"

namespace Memory

/-- Memory of `size` zero bytes. -/
def zeroed (base size : UInt32) : Memory := ⟨base, .zeros size.toNat⟩

/-- The first address past the memory, which wraps at the top of the address space. -/
def endAddr (m : Memory) : UInt32 := m.base + UInt32.ofNat m.data.size

/-- The position of an address in the array, for addresses from the base on. -/
def offset (m : Memory) (addr : UInt32) : Nat := addr.toNat - m.base.toNat

/-- Whether `size` bytes from `addr` on are mapped. -/
def accessible (m : Memory) (addr size : UInt32) : Bool :=
  m.base.toNat ≤ addr.toNat && m.offset addr + size.toNat ≤ m.data.size

/-- The byte at a position; positions past the end read as zero. -/
def byteAt (m : Memory) (i : Nat) : UInt8 := m.data.get i

/-- Memory with bytes written from an address on. -/
def putBytes (m : Memory) (addr : UInt32) (bytes : List UInt8) : Memory :=
  let i := m.offset addr
  { m with data := m.data.setAll i bytes }

/-- The bytes of a half, the low one first. -/
def halfBytes (v : UInt16) : List UInt8 := [v.toUInt8, (v >>> 8).toUInt8]

/-- The bytes of a word, the lowest first. -/
def wordBytes (v : UInt32) : List UInt8 :=
  [Word.code v, Word.laneA v, Word.laneB v, Word.laneC v]

/-- The byte at an accessible address. -/
def get8 (m : Memory) (addr : UInt32) : UInt8 := m.byteAt (m.offset addr)

/-- The half at an accessible address. -/
def get16 (m : Memory) (addr : UInt32) : UInt16 :=
  let i := m.offset addr
  (m.byteAt i).toUInt16 ||| (m.byteAt (i + 1)).toUInt16 <<< 8

/-- The word at an accessible address. -/
def get32 (m : Memory) (addr : UInt32) : UInt32 := m.data.four (m.offset addr) Word.ofBytes

/-- Memory with `count` bytes copied as if through a buffer, so that the ranges may overlap. -/
def copyBytes (m : Memory) (dst src count : UInt32) : Memory :=
  { m with data := m.data.copyWithin (m.offset dst) (m.offset src) count.toNat }

/-- Memory with `count` bytes set to one value. -/
def fillBytes (m : Memory) (dst : UInt32) (value : UInt8) (count : UInt32) : Memory :=
  { m with data := m.data.fill (m.offset dst) count.toNat value }

/-- A result that needs `size` bytes at `addr`. -/
def checked {α : Type} (m : Memory) (addr size : UInt32) (result : Unit → α) :
    Except AddressError α :=
  if m.accessible addr size then .ok (result ()) else .error ⟨addr, size⟩

/-- Reads a byte. -/
def read8 (m : Memory) (addr : UInt32) : Except AddressError UInt8 :=
  m.checked addr 1 fun _ => m.get8 addr

/-- Reads a half. -/
def read16 (m : Memory) (addr : UInt32) : Except AddressError UInt16 :=
  m.checked addr 2 fun _ => m.get16 addr

/-- Reads a word. -/
def read32 (m : Memory) (addr : UInt32) : Except AddressError UInt32 :=
  m.checked addr 4 fun _ => m.get32 addr

/-- Writes a byte. -/
def write8 (m : Memory) (addr : UInt32) (v : UInt8) : Except AddressError Memory :=
  m.checked addr 1 fun _ => m.putBytes addr [v]

/-- Writes a half. -/
def write16 (m : Memory) (addr : UInt32) (v : UInt16) : Except AddressError Memory :=
  m.checked addr 2 fun _ => m.putBytes addr (halfBytes v)

/-- Writes a word. -/
def write32 (m : Memory) (addr : UInt32) (v : UInt32) : Except AddressError Memory :=
  m.checked addr 4 fun _ => m.putBytes addr (wordBytes v)

/-- Copies `count` bytes. The source range is checked first. -/
def copy (m : Memory) (dst src count : UInt32) : Except AddressError Memory :=
  if m.accessible src count then
    m.checked dst count fun _ => m.copyBytes dst src count
  else .error ⟨src, count⟩

/-- Sets `count` bytes to one value. -/
def fill (m : Memory) (dst : UInt32) (value : UInt8) (count : UInt32) :
    Except AddressError Memory :=
  m.checked dst count fun _ => m.fillBytes dst value count

/-- Writes words one after the other. The words before the first one that does not fit stay
written. -/
def load (m : Memory) (addr : UInt32) : List UInt32 → Memory × Option AddressError
  | [] => (m, none)
  | w :: ws =>
    if m.accessible addr 4 then (m.putBytes addr (wordBytes w)).load (addr + 4) ws
    else (m, some ⟨addr, 4⟩)

/-- Memory of the same extent with every byte zero. -/
def cleared (m : Memory) : Memory := { m with data := .zeros m.data.size }

/-- The log line of a copy. -/
def copyNote (dst src count : UInt32) : String :=
  "memory: copy 0x" ++ hexWord dst ++ " <- 0x" ++ hexWord src ++ " (" ++ decimal count.toNat ++ ")"

/-- The log line of a fill. -/
def fillNote (dst : UInt32) (value : UInt8) (count : UInt32) : String :=
  "memory: fill 0x" ++ hexWord dst ++ " = 0x" ++ hexPadded 2 value.toNat ++
    " (" ++ decimal count.toNat ++ ")"

end Memory

end TaskMachine
