import MediaRelay.Media.Framing

-- An FLV stream is a file header followed by tags. The file header has a fixed part of 9 bytes,
-- whose last four give the header's declared size big-endian, and is followed by a 4-byte
-- previous-tag-size field. A tag has an 11-byte header (type, 24-bit data size, 24-bit timestamp
-- with an extension byte holding its top 8 bits, 24-bit stream id), then its data, then a 4-byte
-- previous-tag-size field.

namespace MediaRelay

namespace Flv

def fileHeaderSize : Nat := 9

def tagHeaderSize : Nat := 11

def trailerSize : Nat := 4

def maxFileHeaderSize : Nat := 1048576

inductive TagKind
  | audio
  | video
  | script
deriving DecidableEq, Repr

def TagKind.ofByte? : UInt8 → Option TagKind
  | 8 => some .audio
  | 9 => some .video
  | 18 => some .script
  | _ => none

def TagKind.toByte : TagKind → UInt8
  | .audio => 8
  | .video => 9
  | .script => 18

theorem TagKind.ofByte?_toByte (k : TagKind) : TagKind.ofByte? k.toByte = some k := by
  cases k <;> rfl

structure TagHeader where
  tagType : UInt8
  dataSize : Nat
  timestamp : Nat
  streamId : Nat
deriving DecidableEq, Repr

namespace TagHeader

def parse (bs : Octets) : TagHeader where
  tagType := bs.headD 0
  dataSize := Octets.beNat (Octets.slice bs 1 3)
  timestamp := Octets.beNat (Octets.slice bs 4 3) + (bs.getD 7 0).toNat * 16777216
  streamId := Octets.beNat (Octets.slice bs 8 3)

def ofBytes? (bs : Octets) : Option TagHeader :=
  if bs.length = tagHeaderSize then some (parse bs) else none

def kind? (h : TagHeader) : Option TagKind :=
  TagKind.ofByte? h.tagType

def remainingLength (h : TagHeader) : Nat :=
  h.dataSize + trailerSize

end TagHeader

-- The length of the file header together with the first trailer, as a fixed part declares it; a
-- declared size below the fixed part or above the limit breaks the format.
def declaredHeaderLength (fixed : Octets) : Except FramingFault Nat :=
  let declared := Octets.beNat (Octets.slice fixed 5 4)
  if declared < fileHeaderSize then
    .error (.flvHeaderTooShort declared)
  else if maxFileHeaderSize < declared then
    .error (.flvHeaderTooLong declared maxFileHeaderSize)
  else
    .ok (declared + trailerSize)

variable {σ : Type} [ByteSource σ]

-- Reads the file header and publishes it; nothing when the stream ends before it begins.
def readFileHeader : EStateM Fault (Framing σ Bool) (Option Unit) := do
  match ← Framing.onSource (Buffered.readExactOrEof fileHeaderSize) with
  | none => return none
  | some fixed =>
    let total ← match declaredHeaderLength fixed with
      | .ok total => pure total
      | .error e => throw (.framing e)
    match ← Framing.onSource (Buffered.readExactOrEof (total - fileHeaderSize)) with
    | none => throw (.io (.endedInside "FLV file header"))
    | some rest =>
      Framing.setHeader (fixed ++ rest)
      Framing.setOwn true
      return some ()

def readTag : EStateM Fault (Framing σ Bool) Octets := do
  match ← Framing.onSource (Buffered.readExactOrEof tagHeaderSize) with
  | none => return []
  | some tag =>
    let h := TagHeader.parse tag
    match ← Framing.onSource (Buffered.readExactOrEof h.remainingLength) with
    | none => throw (.io (.endedInside "FLV tag body"))
    | some rest =>
      if h.kind?.isNone then
        Framing.markBroken 1
      return tag ++ rest

-- The next unit of an FLV stream: the file header is read first if it has not been, then one tag
-- with its trailer. The empty unit marks the end of the stream.
def nextUnit : EStateM Fault (Framing σ Bool) Octets := do
  if (← Framing.getOwn) then
    readTag
  else
    match ← readFileHeader with
    | none => return []
    | some () => readTag

end Flv

end MediaRelay
