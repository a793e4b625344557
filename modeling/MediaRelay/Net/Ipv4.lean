
-- An IPv4 address is written as four decimal numbers below 256 separated by dots, each of at most
-- three digits and without a leading zero. Readers of addresses work on lists of characters and
-- return what they read with the characters that follow it.

namespace MediaRelay

namespace Net

def digitValue? (radix : Nat) (c : Char) : Option Nat :=
  let v :=
    if '0' ≤ c ∧ c ≤ '9' then some (c.toNat - 48)
    else if 'a' ≤ c ∧ c ≤ 'z' then some (c.toNat - 87)
    else if 'A' ≤ c ∧ c ≤ 'Z' then some (c.toNat - 55)
    else none
  v.filter (· < radix)

def digitsValue (radix : Nat) (ds : List Nat) : Nat :=
  ds.foldl (fun acc d => acc * radix + d) 0

-- Reads a numeral: the longest run of digits in base `radix`, which must be non-empty, of at most
-- `maxDigits` digits, of value at most `bound`, and, unless `zeroPrefix` allows it, without a
-- leading zero.
def readNumber (radix maxDigits bound : Nat) (zeroPrefix : Bool) (cs : List Char) :
    Option (Nat × List Char) :=
  let run := cs.takeWhile fun c => (digitValue? radix c).isSome
  let value := digitsValue radix (run.filterMap (digitValue? radix))
  if run.isEmpty || maxDigits < run.length || bound < value ||
      (!zeroPrefix && run.head? == some '0' && 1 < run.length) then none
  else some (value, cs.drop run.length)

def readChar (c : Char) : List Char → Option (List Char)
  | d :: rest => if d == c then some rest else none
  | [] => none

structure Ipv4 where
  a : Nat
  b : Nat
  c : Nat
  d : Nat
deriving DecidableEq, Repr

namespace Ipv4

def unspecified : Ipv4 := ⟨0, 0, 0, 0⟩

def readPart (cs : List Char) : Option (Nat × List Char) :=
  readNumber 10 3 255 false cs

def read? (cs : List Char) : Option (Ipv4 × List Char) := do
  let (a, cs) ← readPart cs
  let cs ← readChar '.' cs
  let (b, cs) ← readPart cs
  let cs ← readChar '.' cs
  let (c, cs) ← readPart cs
  let cs ← readChar '.' cs
  let (d, cs) ← readPart cs
  return (⟨a, b, c, d⟩, cs)

def parse? (s : String) : Option Ipv4 :=
  match read? s.toList with
  | some (ip, []) => some ip
  | _ => none

def isMulticast (ip : Ipv4) : Bool :=
  224 ≤ ip.a && ip.a ≤ 239

def display (ip : Ipv4) : String :=
  ".".intercalate ([ip.a, ip.b, ip.c, ip.d].map toString)

example : parse? "239.1.2.3" = some ⟨239, 1, 2, 3⟩ ∧ parse? "01.2.3.4" = none ∧
    parse? "1.2.3" = none ∧ parse? "256.1.1.1" = none := by
  decide +kernel

end Ipv4

end Net

end MediaRelay
