import MediaRelay.Source.Buffered

-- Cutting an input stream into units keeps four things: the buffered source being read, the
-- framer's own progress through the container format, the header that a client joining now must
-- receive before any unit, and the number of stretches of input that broke the format. The last two
-- are published for other parts of the relay to read; framers only ever replace or extend the
-- header and raise the count.

namespace MediaRelay

-- The state of cutting one input stream into units, with `φ` the framer's own progress.
structure Framing (σ φ : Type) where
  source : Buffered σ
  own : φ
  header : Octets
  broken : Nat := 0
deriving DecidableEq, Repr

namespace Framing

variable {σ φ : Type}

def onSource {α : Type} (m : EStateM Fault (Buffered σ) α) : EStateM Fault (Framing σ φ) α :=
  fun f =>
    match m f.source with
    | .ok a s => .ok a { f with source := s }
    | .error e s => .error e { f with source := s }

def setHeader (h : Octets) : EStateM Fault (Framing σ φ) Unit :=
  modify fun f => { f with header := h }

def appendHeader (bs : Octets) : EStateM Fault (Framing σ φ) Unit :=
  modify fun f => { f with header := f.header ++ bs }

def markBroken (n : Nat) : EStateM Fault (Framing σ φ) Unit :=
  modify fun f => { f with broken := f.broken + n }

def getOwn : EStateM Fault (Framing σ φ) φ :=
  return (← get).own

def setOwn (p : φ) : EStateM Fault (Framing σ φ) Unit :=
  modify fun f => { f with own := p }

end Framing

end MediaRelay
