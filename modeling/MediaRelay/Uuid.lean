
-- Inputs, routes and client connections are named by 128-bit identifiers. An identifier is written
-- in the hyphenated form: 32 lowercase hexadecimal digits in groups of 8, 4, 4, 4 and 12. It is
-- read from that form, from the 32 digits alone, from the hyphenated form between braces, and from
-- the hyphenated form after `urn:uuid:`; digits may be of either case.
--
-- The main statement: the written form has 36 characters (`length_hyphenated`).

namespace MediaRelay

structure Uuid where
  bits : BitVec 128
deriving DecidableEq, Inhabited

namespace Uuid

def nil : Uuid := ⟨0⟩

def ofNat (n : Nat) : Uuid := ⟨BitVec.ofNat 128 n⟩

def toNat (u : Uuid) : Nat := u.bits.toNat

instance : Ord Uuid := ⟨fun a b => compare a.toNat b.toNat⟩

def hexDigit (d : Nat) : Char :=
  if d < 10 then Char.ofNat (48 + d) else Char.ofNat (87 + d)

def hexPadded (w n : Nat) : List Char :=
  (List.range w).reverse.map fun i => hexDigit (n / Nat.pow 16 i % 16)

def groupDigits (ds : List Char) : List Char :=
  ds.take 8 ++ '-' :: (ds.drop 8).take 4 ++ '-' :: (ds.drop 12).take 4 ++ '-' ::
    (ds.drop 16).take 4 ++ '-' :: ds.drop 20

def hyphenated (u : Uuid) : String :=
  String.ofList (groupDigits (hexPadded 32 u.toNat))

def hexValue? (c : Char) : Option Nat :=
  if '0' ≤ c ∧ c ≤ '9' then some (c.toNat - 48)
  else if 'a' ≤ c ∧ c ≤ 'f' then some (c.toNat - 87)
  else if 'A' ≤ c ∧ c ≤ 'F' then some (c.toNat - 55)
  else none

def hexNumber? (ds : List Char) : Option Nat :=
  ds.foldlM (fun acc c => (hexValue? c).map (acc * 16 + ·)) 0

def ungroup? (cs : List Char) : Option (List Char) :=
  if cs.length = 36 ∧ cs[8]? = some '-' ∧ cs[13]? = some '-' ∧ cs[18]? = some '-' ∧
      cs[23]? = some '-' then
    some (cs.take 8 ++ (cs.drop 9).take 4 ++ (cs.drop 14).take 4 ++ (cs.drop 19).take 4 ++
      cs.drop 24)
  else none

def digitsOf? (cs : List Char) : Option (List Char) :=
  if cs.length = 32 then some cs
  else if cs.length = 36 then ungroup? cs
  else if cs.length = 38 ∧ cs.head? = some '\x7b' ∧ cs.getLast? = some '\x7d' then
    ungroup? ((cs.drop 1).take 36)
  else if cs.length = 45 ∧ cs.take 9 = "urn:uuid:".toList then ungroup? (cs.drop 9)
  else none

def parse? (s : String) : Option Uuid := do
  let ds ← digitsOf? s.toList
  let n ← hexNumber? ds
  return ofNat n

theorem length_hexPadded (w n : Nat) : (hexPadded w n).length = w := by
  simp [hexPadded]

theorem length_groupDigits {ds : List Char} (h : ds.length = 32) :
    (groupDigits ds).length = 36 := by
  simp [groupDigits, h]

theorem length_hyphenated (u : Uuid) : u.hyphenated.length = 36 := by
  rw [hyphenated, String.length_ofList, length_groupDigits (length_hexPadded 32 _)]

example : (ofNat 7).hyphenated = "00000000-0000-0000-0000-000000000007" := by decide +kernel

example : parse? "67e55044-10b1-426f-9247-bb680e5fe0c8" =
    some (ofNat 0x67e5504410b1426f9247bb680e5fe0c8) := by decide +kernel

end Uuid

end MediaRelay
