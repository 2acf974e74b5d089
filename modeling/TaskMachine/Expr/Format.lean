import TaskMachine.Expr.Display
import TaskMachine.Numeral.Rounded

/-!
# Format strings

A percent sign and a letter in a format string of Starlark stand for a value,
converted as the letter says; two percent signs stand for one. A key in brackets
before the letter asks for what a dictionary holds under it. There are neither
flags nor widths, and floats have six places unless the shortest spelling is asked
for.
-/

namespace TaskMachine.Expr

open Numeral

namespace Value

/-- The integer that a number stands for, its fraction dropped. -/
def wholePart? : Value → Option Int
  | .int n => some n
  | .float bits => truncate? bits
  | _ => .none

/-- The float that a number stands for; an integer too large for one is infinite. -/
def nearestFloat? : Value → Option UInt64
  | .int n =>
    match floatOfInt? n with
    | some bits => some bits
    | .none => some (UInt64.ofNat (binary64.infinity (n < 0)))
  | .float bits => some bits
  | _ => .none

/-- How a float is converted. -/
inductive FloatStyle where
  /-- Six places and an exponent. -/
  | scientific
  /-- Six places. -/
  | fixed
  /-- The fewest digits that read back. -/
  | shortest
  /-- A letter that is put in as it stands, with its percent sign. -/
  | literal (letter : Char)

/-- How many digits after the point a converted float has. -/
def formatPlaces : Nat := 6

/-- The text of a float in a style, in capital letters if so asked. The infinities and the NaN
look the same in all styles. -/
def formatFloat (style : FloatStyle) (capital : Bool) (bits : UInt64) : String :=
  let plain := floatText binary64 floatLayout "nan" "inf" bits.toNat
  match binary64.decode bits.toNat with
  | .finite negative significand scale =>
    let num := significand * twoPow scale.toNat
    let den := twoPow (-scale).toNat
    let sign := if negative then ['-'] else []
    let chars :=
      match style with
      | .scientific => sign ++ Numeral.scientific formatPlaces num den
      | .fixed => sign ++ fixedPlaces formatPlaces num den
      | .shortest => plain.toList
      | .literal letter => ['%', letter]
    String.ofList (if capital then chars.map Char.toUpper else chars)
  | _ => plain

/-- The bytes of the character with a code point; a surrogate is replaced. -/
def codePoint (n : Nat) : List UInt8 :=
  String.utf8EncodeChar (if 0xd800 ≤ n ∧ n ≤ 0xdfff then Char.ofNat 0xfffd else Char.ofNat n)

/-- The character that a string consists of; a stray byte counts as one. -/
def soleChar? (bytes : List UInt8) : Option Char :=
  match Text.Utf8.decode bytes with
  | [c] => some c
  | _ => .none

/-- The bytes of the character that a code point or a string of one character stands for. -/
def convertChar? : Value → Option (List UInt8)
  | .int n => if 0 ≤ n ∧ n ≤ 0x10ffff then some (codePoint n.toNat) else .none
  | .text bytes =>
    if 4 < bytes.length then .none else (soleChar? bytes.toList).map String.utf8EncodeChar
  | _ => .none

/-- The text of one conversion in a format string. -/
def convert? (heap : Heap) (letter : UInt8) (v : Value) : Option (Rope UInt8) :=
  let whole (f : Int → List Char) : Option (Rope UInt8) :=
    v.wholePart?.map fun n => .ofList (Text.Utf8.encode (f n))
  let float (style : FloatStyle) (capital : Bool) : Option (Rope UInt8) :=
    v.nearestFloat?.map fun bits => asciiRope (formatFloat style capital bits)
  match Char.ofNat letter.toNat with
  | 's' => some (v.display heap)
  | 'r' => some (v.render heap)
  | 'd' => whole (signedDigits 10)
  | 'i' => whole (signedDigits 10)
  | 'o' => whole (signedDigits 8)
  | 'x' => whole (signedDigits 16)
  | 'X' => whole fun n => (signedDigits 16 n).map Char.toUpper
  | 'e' => float .scientific false
  | 'E' => float .scientific true
  | 'f' => float .fixed false
  | 'F' => float (.literal 'F') false
  | 'g' => float .shortest false
  | 'G' => float .shortest true
  | 'c' => (convertChar? v).map .ofList
  | '%' => some (asciiRope "%")
  | _ => .none

/-- How far a conversion has been read. -/
inductive Conversion where
  /-- No conversion has begun. -/
  | no
  /-- A percent sign came last. -/
  | begun
  /-- A key has begun; its bytes are in reverse. -/
  | key (bytes : List UInt8)
  /-- The value to convert is known. -/
  | of (v : Value)

/-- How far a format string has been followed. `args` are the values left over for conversions
without a key, though every conversion uses one up. The text so far is `done` and after it the
bytes of `recent`, which are in reverse. -/
structure Formatting where
  args : List Value
  state : Conversion := .no
  done : Rope UInt8 := .empty
  recent : List UInt8 := []

namespace Formatting

/-- The text so far. -/
def text (f : Formatting) : Rope UInt8 := .append f.done (.ofList f.recent.reverse)

/-- Puts bytes at the end of the text. -/
def write (f : Formatting) (bytes : Rope UInt8) : Formatting :=
  if bytes.length ≤ Rope.leafSize then { f with recent := bytes.toList.reverseAux f.recent }
  else { f with done := .append f.text bytes, recent := [] }

/-- Ends a conversion with the text of its value. -/
def finish (f : Formatting) (bytes : Rope UInt8) : Formatting :=
  { f.write bytes with args := f.args.tail, state := .no }

/-- Takes in a byte of a format string, where `dict?` holds the values for conversions with a
key. -/
def step? (heap : Heap) (dict? : Option Dict) (f : Formatting) (b : UInt8) : Option Formatting :=
  match f.state with
  | .no =>
    some (if b = 0x25 then { f with state := .begun } else { f with recent := b :: f.recent })
  | .begun =>
    if b = 0x25 then some { f with state := .no, recent := b :: f.recent }
    else if b = 0x28 then some { f with state := .key [] }
    else
      match f.args with
      | [] => .none
      | v :: _ => (convert? heap b v).map f.finish
  | .key bytes =>
    if b = 0x29 then
      (dict?.bind fun d => d.get? (.text (.ofList bytes.reverse))).map fun v =>
        { f with state := .of v }
    else some { f with state := .key (b :: bytes) }
  | .of v => (convert? heap b v).map f.finish

/-- Takes in bytes of a format string. -/
def stepAll? (heap : Heap) (dict? : Option Dict) : List UInt8 → Formatting → Option Formatting
  | [], f => some f
  | b :: bs, f =>
    match f.step? heap dict? b with
    | some f => stepAll? heap dict? bs f
    | .none => .none

/-- Takes in a format string. A part that is repeated and has no conversions is plain. -/
def feed? (heap : Heap) (dict? : Option Dict) : Rope UInt8 → Formatting → Option Formatting
  | .leaf bytes, f => stepAll? heap dict? bytes f
  | .node x y, f => (feed? heap dict? x f).bind (feed? heap dict? y)
  | .power count x, f =>
    match f.state, x.all (· != 0x25) with
    | .no, true => some (f.write (.replicate count x))
    | _, _ => Nat.repeat (fun f => f.bind (feed? heap dict? x)) count (some f)

end Formatting

/-- A format string applied to its operand: the items of a tuple, or one value. Each must be
used, but a dictionary need not be. -/
def format? (heap : Heap) (bytes : Rope UInt8) (operand : Value) : Option (Rope UInt8) :=
  let (dict?, args) : Option Dict × List Value :=
    match operand with
    | .tuple args => (.none, args.toList)
    | .dict place => (some (heap.dict place), [.dict place])
    | v => (.none, [v])
  match Formatting.feed? heap dict? bytes { args } with
  | .none => .none
  | some f =>
    match f.state with
    | .no => if dict?.isNone ∧ f.args.isEmpty = false then .none else some f.text
    | _ => .none

end Value

end TaskMachine.Expr
