import MediaRelay.Net.Ipv4

-- An IPv6 address is eight 16-bit groups. It is written as hexadecimal groups of up to four digits
-- separated by colons; one run of groups may be left out and written `::`, standing for at least
-- one zero group; and the last two groups may be written as an embedded IPv4 address, but not
-- before a `::`.

namespace MediaRelay

namespace Net

structure Ipv6 where
  groups : List Nat
deriving DecidableEq, Repr

namespace Ipv6

def readGroup (cs : List Char) : Option (Nat × List Char) :=
  readNumber 16 4 0xFFFF true cs

-- Reads up to `limit` colon-separated groups, with `acc` the groups read so far; the last two may
-- be an embedded IPv4 address. Tells whether they were, and returns the characters left.
def readGroups (limit : Nat) (acc : List Nat) (cs : List Char) :
    List Nat × Bool × List Char :=
  if _h : acc.length < limit then
    let afterSep := if acc.isEmpty then some cs else readChar ':' cs
    let embedded := if acc.length + 1 < limit then afterSep.bind Ipv4.read? else none
    match embedded with
    | some (ip, rest) => (acc ++ [ip.a * 256 + ip.b, ip.c * 256 + ip.d], true, rest)
    | none =>
      match afterSep.bind readGroup with
      | some (g, rest) => readGroups limit (acc ++ [g]) rest
      | none => (acc, false, cs)
  else (acc, false, cs)
termination_by limit - acc.length
decreasing_by simp only [List.length_append, List.length_singleton]; omega

def read? (cs : List Char) : Option (Ipv6 × List Char) :=
  let (head, embedded, rest) := readGroups 8 [] cs
  if head.length = 8 then some (⟨head⟩, rest)
  else if embedded then none
  else do
    let rest ← readChar ':' rest
    let rest ← readChar ':' rest
    let (tail, _, rest) := readGroups (8 - (head.length + 1)) [] rest
    return (⟨head ++ List.replicate (8 - head.length - tail.length) 0 ++ tail⟩, rest)

def parse? (s : String) : Option Ipv6 :=
  match read? s.toList with
  | some (ip, []) => some ip
  | _ => none

def mappedIpv4? (ip : Ipv6) : Option Ipv4 :=
  match ip.groups with
  | [0, 0, 0, 0, 0, 0xFFFF, x, y] => some ⟨x / 256, x % 256, y / 256, y % 256⟩
  | _ => none

def head (ip : Ipv6) : Nat :=
  ip.groups.headD 0

def isUnspecified (ip : Ipv6) : Bool :=
  ip.groups.all (· == 0)

def isMulticast (ip : Ipv6) : Bool :=
  0xFF00 ≤ ip.head

def isLinkLocal (ip : Ipv6) : Bool :=
  ip.head / 64 == 0xFE80 / 64

-- An address that means something only on one interface, and so is bound only together with one: a
-- link-local unicast address, or a multicast address of interface-local (1) or link-local (2)
-- scope.
def needsInterface (ip : Ipv6) : Bool :=
  if ip.isMulticast then ip.head % 16 == 1 || ip.head % 16 == 2 else ip.isLinkLocal

def longestZeroRun (gs : List Nat) : Nat × Nat :=
  let step := fun (acc : (Nat × Nat) × (Nat × Nat) × Nat) (g : Nat) =>
    let (best, cur, i) := acc
    if g = 0 then
      let cur := if cur.2 = 0 then (i, 1) else (cur.1, cur.2 + 1)
      (if best.2 < cur.2 then cur else best, cur, i + 1)
    else (best, (0, 0), i + 1)
  (gs.foldl step ((0, 0), (0, 0), 0)).1

def hexGroups (gs : List Nat) : String :=
  ":".intercalate (gs.map fun g => String.ofList (Nat.toDigits 16 g))

def display (ip : Ipv6) : String :=
  match mappedIpv4? ip with
  | some v4 => "::ffff:" ++ v4.display
  | none =>
    let (start, len) := longestZeroRun ip.groups
    if 1 < len then
      hexGroups (ip.groups.take start) ++ "::" ++ hexGroups (ip.groups.drop (start + len))
    else hexGroups ip.groups

example : (parse? "1:0:0:2:0:0:0:3").map display = some "1:0:0:2::3" ∧
    (parse? "::ffff:0:1.2.3.4").map display = some "::ffff:0:102:304" ∧
    (parse? "::ffff:1.2.3.4").map display = some "::ffff:1.2.3.4" ∧
    (parse? "::127.0.0.1").map display = some "::7f00:1" ∧
    parse? "1::2::3" = none := by
  decide +kernel

end Ipv6

end Net

end MediaRelay
