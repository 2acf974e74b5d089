import TaskMachine.Numeral.Digits

/-!
# Registers

The register file has 64 slots: 32 general registers, the program counter, and
31 reserved slots that no name reaches. A register field of an instruction word
holds four times the register's number.
-/

namespace TaskMachine

open Numeral

/-- A slot of the register file. -/
abbrev Reg := Fin 64

namespace Reg

/-- The first register. -/
def zero : Reg := ⟨0, by decide⟩

/-- The stack pointer. -/
def sp : Reg := 1

/-- The return address. -/
def ra : Reg := 2

/-- The program counter. -/
def pc : Reg := 32

/-- The names, by register number. -/
def names : List String := [
  "zero", "sp", "ra", "fp", "s0", "s1", "s2", "s3", "s4", "s5", "s6", "s7", "p0", "p1", "p2", "p3",
  "g0", "g1", "g2", "g3", "g4", "g5", "g6", "g7", "g8", "g9", "g10", "g11", "g12", "g13", "g14",
  "g15", "pc"]

/-- The name of a register number; numbers without a name are shown as such. -/
def nameOf (n : Int) : String :=
  match (if 0 ≤ n then names[n.toNat]? else none) with
  | some name => name
  | none => "r?" ++ decimal n

/-- The name of a register. -/
def name (r : Reg) : String := nameOf r.val

/-- The register with a given name. -/
def ofName? (name : String) : Option Reg :=
  (names.findIdx? (· == name)).map fun n => ⟨n % 64, Nat.mod_lt n (by decide)⟩

/-- The register a number stands for, counted modulo the size of the file. -/
def ofInt (n : Int) : Reg := ⟨(n % 64).toNat, by omega⟩

/-- The byte of a register field. -/
def field (r : Reg) : UInt8 := UInt8.ofNat (4 * r.val)

/-- The register in a field; the two low bits of the field are ignored. -/
def ofField (b : UInt8) : Reg := ⟨b.toNat / 4, by have := b.toNat_lt; omega⟩

end Reg

end TaskMachine
