import MediaRelay.Media.Framing
import MediaRelay.Media.Ogg.Page

-- An Ogg stream multiplexes logical streams, each with its own serial number, and may chain several
-- such groups one after the other. A decoder needs the header packets of every logical stream
-- before any data, so the Ogg framer keeps in the published header the first page of every logical
-- stream (its BOS page) and the first unit of data that follows for each. When a BOS page arrives
-- after every stream seen so far has ended, a new link of the chain starts: the table of streams
-- and the published header start again from empty.

namespace MediaRelay

namespace Ogg

structure LogicalStream where
  captured : Bool := false
  ended : Bool := false
deriving DecidableEq, Repr

abbrev StreamTable := List (Nat × LogicalStream)

namespace StreamTable

def find (t : StreamTable) (serial : Nat) : LogicalStream :=
  ((t.find? (·.1 == serial)).map (·.2)).getD {}

def put (t : StreamTable) (serial : Nat) (s : LogicalStream) : StreamTable :=
  if t.any (·.1 == serial) then t.map fun e => if e.1 == serial then (serial, s) else e
  else t ++ [(serial, s)]

def allEnded (t : StreamTable) : Bool :=
  t.all (·.2.ended)

def markEnded (t : StreamTable) (serial : Nat) : StreamTable :=
  t.put serial { t.find serial with ended := true }

end StreamTable

structure Demux where
  sync : Octets := []
  streams : StreamTable := []
  resyncing : Bool := false
deriving DecidableEq, Repr

-- The number of bytes asked of the source each time the search buffer runs short.
def readChunk : Nat := 4096

variable {σ : Type} [ByteSource σ]

-- Finds the next page, reading more bytes as the search needs them, within `fuel` rounds; nothing
-- at the end of the stream.
def nextPageWithin : Nat → EStateM Fault (Framing σ Demux) (Option Page)
  | 0 => return none
  | fuel + 1 => do
    let d ← Framing.getOwn
    match search d.sync with
    | .page p rest =>
      Framing.setOwn { d with sync := rest, resyncing := false }
      return some p
    | .skipped rest =>
      if !d.resyncing then
        Framing.markBroken 1
      Framing.setOwn { d with sync := rest, resyncing := true }
      nextPageWithin fuel
    | .incomplete =>
      let bs ← Framing.onSource (Buffered.read readChunk)
      if bs.isEmpty then
        return none
      else
        Framing.setOwn { d with sync := d.sync ++ bs }
        nextPageWithin fuel

-- Rounds enough to find the next page: every round drops a byte of the search buffer or moves a
-- byte from the source into it.
def pageFuel (f : Framing σ Demux) : Nat :=
  f.own.sync.length + 2 * f.source.remaining + 1

def nextPage : EStateM Fault (Framing σ Demux) (Option Page) := do
  nextPageWithin (pageFuel (← get))

-- Joins to a unit the pages that follow it, up to and including the first that does not continue a
-- packet; `ended` collects the serial numbers of the pages that end their stream.
def joinContinued : Nat → Octets → List Nat → EStateM Fault (Framing σ Demux) (Octets × List Nat)
  | 0, unit, ended => return (unit, ended)
  | fuel + 1, unit, ended => do
    match ← nextPage with
    | none => return (unit, ended)
    | some p =>
      let unit := unit ++ p.bytes
      let ended := if p.isEos then ended ++ [p.serial] else ended
      if p.isContinued then joinContinued fuel unit ended else return (unit, ended)

def modifyStreams (g : StreamTable → StreamTable) : EStateM Fault (Framing σ Demux) Unit := do
  let d ← Framing.getOwn
  Framing.setOwn { d with streams := g d.streams }

-- Takes a BOS page as a unit of its own, starting a new link of the chain when every stream of the
-- current one has ended.
def beginStream (p : Page) : EStateM Fault (Framing σ Demux) Octets := do
  let d ← Framing.getOwn
  if !d.streams.isEmpty && d.streams.allEnded then
    modifyStreams fun _ => []
    Framing.setHeader []
  modifyStreams fun t => t.put p.serial {}
  Framing.appendHeader p.bytes
  if p.isEos then
    modifyStreams fun t => t.markEnded p.serial
  return p.bytes

-- Cuts a unit of data starting at a page that does not begin a stream, and captures it into the
-- published header when it is the first of its stream.
def dataUnit (first : Page) : EStateM Fault (Framing σ Demux) Octets := do
  let ended := if first.isEos then [first.serial] else []
  let (unit, ended) ←
    if first.isContinued then do
      let f ← get
      joinContinued (f.own.sync.length + f.source.remaining + 1) first.bytes ended
    else pure (first.bytes, ended)
  let d ← Framing.getOwn
  let s := d.streams.find first.serial
  if !s.captured then
    modifyStreams fun t => t.put first.serial { s with captured := true }
    Framing.appendHeader unit
  modifyStreams fun t => ended.foldl StreamTable.markEnded t
  return unit

-- The next unit of an Ogg stream. The empty unit marks the end of the stream.
def nextUnit : EStateM Fault (Framing σ Demux) Octets := do
  match ← nextPage with
  | none => return []
  | some p => if p.isBos then beginStream p else dataUnit p

end Ogg

end MediaRelay
