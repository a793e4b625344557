import MediaRelay.Octets

-- Every Ogg page carries a CRC-32 of its bytes: generator polynomial `0x04C11DB7`, register
-- starting at 0, bits taken most significant first, no reflection and no final complement. The
-- checksum is computed over the page with its own 4-byte checksum field, at offset 22, set to zero.

namespace MediaRelay

namespace Ogg

def polynomial : UInt32 := 0x04C11DB7

-- Shifts the register by one bit, reducing by the polynomial when a one falls out.
def shiftBit (r : UInt32) : UInt32 :=
  if r &&& 0x80000000 != 0 then (r <<< 1) ^^^ polynomial else r <<< 1

def shiftBits : Nat → UInt32 → UInt32
  | 0, r => r
  | n + 1, r => shiftBits n (shiftBit r)

-- The table entry for a byte: the byte as the top of the register, shifted by 8 bits.
def tableEntry (i : Fin 256) : UInt32 :=
  shiftBits 8 (i.val.toUInt32 <<< 24)

def crcTable : Vector UInt32 256 :=
  Vector.ofFn tableEntry

def crcStep (crc : UInt32) (b : UInt8) : UInt32 :=
  (crc <<< 8) ^^^ crcTable[((crc >>> 24).toUInt8 ^^^ b).toFin]

def crcUpdate (crc : UInt32) (bs : Octets) : UInt32 :=
  bs.foldl crcStep crc

def crc32 (bs : Octets) : UInt32 :=
  crcUpdate 0 bs

def bitwiseStep (crc : UInt32) (b : UInt8) : UInt32 :=
  shiftBits 8 (crc ^^^ (b.toUInt32 <<< 24))

def crcBitwise (bs : Octets) : UInt32 :=
  bs.foldl bitwiseStep 0

def crcOffset : Nat := 22

def pageCrc (page : Octets) : UInt32 :=
  crcUpdate (crcUpdate (crcUpdate 0 (page.take crcOffset)) [0, 0, 0, 0]) (page.drop (crcOffset + 4))

example : crc32 [0x4f, 0x67, 0x67, 0x53] = crcBitwise [0x4f, 0x67, 0x67, 0x53] := by
  decide +kernel

end Ogg

end MediaRelay
