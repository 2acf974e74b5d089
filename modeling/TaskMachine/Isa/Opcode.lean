import TaskMachine.Numeral.Digits

/-!
# Opcodes

The low byte of an instruction word selects one of 256 slots. A slot holds an
opcode or is unassigned; `ofCode?` and `code` go from slot to opcode and back,
and `mnemonic` is the opcode's name in assembly text.
-/

namespace TaskMachine

open Numeral

/-- The assigned opcodes, in the order of their codes. -/
inductive Opcode where
  | add | and | mul | div | divu | or | xor | sub | sll | sra | srl | not | neg | exsb | exsh
  | mov | addb | subb | andb | orb | movb | addh | subh | andh | orh | movh | slli | srai
  | srli | addq | mulq | addbi | andbi | orbi | sllb | srlb | srab | addhi | andhi | sllh
  | srlh | srah | beqi | bnei | bgei | bgti | bgtui | blei | bleui | blti | bltui | beqib
  | bneib | bgeib | bgtib | bgtuib | bleib | bleuib | bltib | bltuib | ldq | jpr | callr
  | store | restore | ret | killtask | sleep | syscpy | sysset | addi | andi | muli | divi
  | divui | ori | xori | subi | stbd | sthd | stwd | ldbd | ldhd | ldwd | ldbud | ldhud | ldi
  | jpl | calll | beq | bne | bge | bgeu | bgt | bgtu | ble | bleu | blt | bltu
  deriving DecidableEq, Repr

namespace Opcode

/-- The slots from zero up to the last assigned one. -/
def slots : Array (Option Opcode) := #[
  none, none, some .add, some .and, some .mul, some .div, some .divu, some .or, some .xor,
  some .sub, some .sll, some .sra, some .srl, some .not, some .neg, some .exsb, some .exsh,
  some .mov, some .addb, some .subb, some .andb, some .orb, some .movb, some .addh, some .subh,
  some .andh, some .orh, some .movh, some .slli, some .srai, some .srli, some .addq,
  some .mulq, some .addbi, some .andbi, some .orbi, some .sllb, some .srlb, some .srab,
  some .addhi, some .andhi, some .sllh, some .srlh, some .srah, some .beqi, some .bnei,
  some .bgei, none, some .bgti, some .bgtui, some .blei, some .bleui, some .blti, some .bltui,
  some .beqib, some .bneib, some .bgeib, none, some .bgtib, some .bgtuib, some .bleib,
  some .bleuib, some .bltib, some .bltuib, some .ldq, some .jpr, some .callr, some .store,
  some .restore, some .ret, some .killtask, some .sleep, some .syscpy, some .sysset,
  some .addi, some .andi, some .muli, some .divi, some .divui, some .ori, some .xori,
  some .subi, some .stbd, some .sthd, some .stwd, some .ldbd, some .ldhd, some .ldwd,
  some .ldbud, some .ldhud, some .ldi, some .jpl, some .calll, some .beq, some .bne, some .bge,
  some .bgeu, some .bgt, some .bgtu, some .ble, some .bleu, some .blt, some .bltu]

/-- The opcode in a slot, if the slot is assigned. -/
def ofCode? (code : UInt8) : Option Opcode := (slots[code.toNat]?).join

/-- The slot of an opcode. -/
def code : Opcode → UInt8
  | .add => 0x02
  | .and => 0x03
  | .mul => 0x04
  | .div => 0x05
  | .divu => 0x06
  | .or => 0x07
  | .xor => 0x08
  | .sub => 0x09
  | .sll => 0x0a
  | .sra => 0x0b
  | .srl => 0x0c
  | .not => 0x0d
  | .neg => 0x0e
  | .exsb => 0x0f
  | .exsh => 0x10
  | .mov => 0x11
  | .addb => 0x12
  | .subb => 0x13
  | .andb => 0x14
  | .orb => 0x15
  | .movb => 0x16
  | .addh => 0x17
  | .subh => 0x18
  | .andh => 0x19
  | .orh => 0x1a
  | .movh => 0x1b
  | .slli => 0x1c
  | .srai => 0x1d
  | .srli => 0x1e
  | .addq => 0x1f
  | .mulq => 0x20
  | .addbi => 0x21
  | .andbi => 0x22
  | .orbi => 0x23
  | .sllb => 0x24
  | .srlb => 0x25
  | .srab => 0x26
  | .addhi => 0x27
  | .andhi => 0x28
  | .sllh => 0x29
  | .srlh => 0x2a
  | .srah => 0x2b
  | .beqi => 0x2c
  | .bnei => 0x2d
  | .bgei => 0x2e
  | .bgti => 0x30
  | .bgtui => 0x31
  | .blei => 0x32
  | .bleui => 0x33
  | .blti => 0x34
  | .bltui => 0x35
  | .beqib => 0x36
  | .bneib => 0x37
  | .bgeib => 0x38
  | .bgtib => 0x3a
  | .bgtuib => 0x3b
  | .bleib => 0x3c
  | .bleuib => 0x3d
  | .bltib => 0x3e
  | .bltuib => 0x3f
  | .ldq => 0x40
  | .jpr => 0x41
  | .callr => 0x42
  | .store => 0x43
  | .restore => 0x44
  | .ret => 0x45
  | .killtask => 0x46
  | .sleep => 0x47
  | .syscpy => 0x48
  | .sysset => 0x49
  | .addi => 0x4a
  | .andi => 0x4b
  | .muli => 0x4c
  | .divi => 0x4d
  | .divui => 0x4e
  | .ori => 0x4f
  | .xori => 0x50
  | .subi => 0x51
  | .stbd => 0x52
  | .sthd => 0x53
  | .stwd => 0x54
  | .ldbd => 0x55
  | .ldhd => 0x56
  | .ldwd => 0x57
  | .ldbud => 0x58
  | .ldhud => 0x59
  | .ldi => 0x5a
  | .jpl => 0x5b
  | .calll => 0x5c
  | .beq => 0x5d
  | .bne => 0x5e
  | .bge => 0x5f
  | .bgeu => 0x60
  | .bgt => 0x61
  | .bgtu => 0x62
  | .ble => 0x63
  | .bleu => 0x64
  | .blt => 0x65
  | .bltu => 0x66

/-- The name of an opcode in assembly text. -/
def mnemonic : Opcode → String
  | .add => "add"
  | .and => "and"
  | .mul => "mul"
  | .div => "div"
  | .divu => "divu"
  | .or => "or"
  | .xor => "xor"
  | .sub => "sub"
  | .sll => "sll"
  | .sra => "sra"
  | .srl => "srl"
  | .not => "not"
  | .neg => "neg"
  | .exsb => "exsb"
  | .exsh => "exsh"
  | .mov => "mov"
  | .addb => "addb"
  | .subb => "subb"
  | .andb => "andb"
  | .orb => "orb"
  | .movb => "movb"
  | .addh => "addh"
  | .subh => "subh"
  | .andh => "andh"
  | .orh => "orh"
  | .movh => "movh"
  | .slli => "slli"
  | .srai => "srai"
  | .srli => "srli"
  | .addq => "addq"
  | .mulq => "mulq"
  | .addbi => "addbi"
  | .andbi => "andbi"
  | .orbi => "orbi"
  | .sllb => "sllb"
  | .srlb => "srlb"
  | .srab => "srab"
  | .addhi => "addhi"
  | .andhi => "andhi"
  | .sllh => "sllh"
  | .srlh => "srlh"
  | .srah => "srah"
  | .beqi => "beqi"
  | .bnei => "bnei"
  | .bgei => "bgei"
  | .bgti => "bgti"
  | .bgtui => "bgtui"
  | .blei => "blei"
  | .bleui => "bleui"
  | .blti => "blti"
  | .bltui => "bltui"
  | .beqib => "beqib"
  | .bneib => "bneib"
  | .bgeib => "bgeib"
  | .bgtib => "bgtib"
  | .bgtuib => "bgtuib"
  | .bleib => "bleib"
  | .bleuib => "bleuib"
  | .bltib => "bltib"
  | .bltuib => "bltuib"
  | .ldq => "ldq"
  | .jpr => "jpr"
  | .callr => "callr"
  | .store => "store"
  | .restore => "restore"
  | .ret => "ret"
  | .killtask => "killtask"
  | .sleep => "sleep"
  | .syscpy => "syscpy"
  | .sysset => "sysset"
  | .addi => "addi"
  | .andi => "andi"
  | .muli => "muli"
  | .divi => "divi"
  | .divui => "divui"
  | .ori => "ori"
  | .xori => "xori"
  | .subi => "subi"
  | .stbd => "stbd"
  | .sthd => "sthd"
  | .stwd => "stwd"
  | .ldbd => "ldbd"
  | .ldhd => "ldhd"
  | .ldwd => "ldwd"
  | .ldbud => "ldbud"
  | .ldhud => "ldhud"
  | .ldi => "ldi"
  | .jpl => "jpl"
  | .calll => "calll"
  | .beq => "beq"
  | .bne => "bne"
  | .bge => "bge"
  | .bgeu => "bgeu"
  | .bgt => "bgt"
  | .bgtu => "bgtu"
  | .ble => "ble"
  | .bleu => "bleu"
  | .blt => "blt"
  | .bltu => "bltu"

/-- Every opcode, by ascending code. -/
def all : List Opcode := slots.toList.filterMap id

/-- The opcode with a given name. -/
def ofMnemonic? (name : String) : Option Opcode := all.find? fun op => op.mnemonic == name

/-- The name of a slot; an unassigned one is named by its number. -/
def slotName (code : UInt8) : String :=
  match ofCode? code with
  | some op => op.mnemonic
  | none => "op_" ++ hexPadded 2 code.toNat

end Opcode

end TaskMachine
