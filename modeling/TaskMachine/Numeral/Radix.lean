/-!
# Numbers by halves

Long numbers are taken apart into digits in the middle, and each half likewise,
and they are put together from digits in the same way. This takes far less work
than going digit by digit.
-/

namespace TaskMachine.Numeral

/-- Puts a base, its square, the square of that and so on before a list, the last first, as long
as they are at most `bound`. -/
def squaresOnto (bound : Nat) : Nat → Nat → List Nat → List Nat
  | 0, _, squares => squares
  | fuel + 1, p, squares =>
    if p ≤ bound then squaresOnto bound fuel (p * p) (p :: squares) else squares

/-- The digits of a number, split at powers of the base each of which is the square of the next,
before other digits. -/
def splitOnto : List Nat → Nat → List Nat → List Nat
  | [], n, tail => n :: tail
  | p :: ps, n, tail => splitOnto ps (n / p) (splitOnto ps (n % p) tail)

/-- The digits of a number in a base, the highest first, after some zeros. -/
def split (base n : Nat) : List Nat := splitOnto (squaresOnto n (n.log2 + 1) base []) n []

/-- The digits of a number in a base up to 16, without leading zeros. -/
def digits (base n : Nat) : List Char :=
  match (split base n).dropWhile (· = 0) with
  | [] => ['0']
  | ds => ds.map Nat.digitChar

/-- The digits of an integer in a base up to 16, with a sign if it is negative. -/
def signedDigits (base : Nat) (i : Int) : List Char :=
  if i < 0 then '-' :: digits base i.natAbs else digits base i.natAbs

/-- Digits, the lowest first, put together in pairs as digits of the square of their base, after
those in reverse that have been put together already. -/
def pairUp (base : Nat) : List Nat → List Nat → List Nat
  | done, low :: high :: rest => pairUp base ((high * base + low) :: done) rest
  | done, [d] => (d :: done).reverse
  | done, [] => done.reverse

/-- The number with given digits, the lowest first. -/
def ofLowDigits : Nat → Nat → List Nat → Nat
  | _, _, [] => 0
  | _, _, [d] => d
  | 0, _, _ => 0
  | fuel + 1, base, ds => ofLowDigits fuel (base * base) (pairUp base [] ds)

/-- The number with given digits in a base, the highest first. -/
def ofDigits (base : Nat) (ds : List Nat) : Nat := ofLowDigits ds.length base ds.reverse

end TaskMachine.Numeral
