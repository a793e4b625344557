import MediaRelay.Media.Framing

-- A transport stream is a sequence of 188-byte cells, each starting with the sync byte `0x47`.
-- Since cells have a fixed size, cutting the stream is reading a whole number of them: the framer
-- reads batches of 1050 cells, and counts every complete cell that lacks its sync byte as broken.

namespace MediaRelay

namespace TransportStream

def cellSize : Nat := 188

def cellsPerUnit : Nat := 1050

def syncByte : UInt8 := 0x47

def cellsUpTo : Nat → Octets → List Octets
  | 0, _ => []
  | n + 1, bs => bs.take cellSize :: cellsUpTo n (bs.drop cellSize)

-- The complete cells of a byte string, in order; a shorter tail is left out.
def cells (bs : Octets) : List Octets :=
  cellsUpTo (bs.length / cellSize) bs

def isUnsynced (cell : Octets) : Bool :=
  cell.head? != some syncByte

def unsyncedCount (bs : Octets) : Nat :=
  ((cells bs).filter isUnsynced).length

variable {σ : Type} [ByteSource σ]

-- The next unit of a transport stream: up to 1050 cells, fewer only at the end of the stream. The
-- empty unit marks the end of the stream.
def nextUnit : EStateM Fault (Framing σ Unit) Octets := do
  let unit ← Framing.onSource (Buffered.readFull (cellSize * cellsPerUnit))
  let n := unsyncedCount unit
  if 0 < n then
    Framing.markBroken n
  return unit

end TransportStream

end MediaRelay
