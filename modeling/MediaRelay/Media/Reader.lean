import MediaRelay.Media.Kind
import MediaRelay.Media.Flv
import MediaRelay.Media.TransportStream
import MediaRelay.Media.Ogg.Streams

-- A framing reader cuts one input stream into units by the rules of its media kind: FLV tags,
-- batches of transport stream cells, Ogg pages and packets, or plain runs of text of up to 16384
-- bytes. The empty unit marks the end of the stream. Besides asking for the next unit, one can wait
-- for input: that refills the reader's empty buffer from the source.

namespace MediaRelay

namespace MediaKind

-- The framer's progress for each kind: whether the FLV file header has been read, nothing for
-- transport streams and text, the page search and stream table for Ogg.
def Progress : MediaKind → Type
  | flv => Bool
  | mpegts => Unit
  | theora => Ogg.Demux
  | text => Unit

def startProgress : (k : MediaKind) → k.Progress
  | flv => false
  | mpegts => ()
  | theora => {}
  | text => ()

end MediaKind

abbrev Reader (σ : Type) (k : MediaKind) := Framing σ k.Progress

namespace Reader

def textChunkSize : Nat := 16384

variable {σ : Type} [ByteSource σ]

def start (k : MediaKind) (src : σ) : Reader σ k where
  source := { inner := src }
  own := k.startProgress
  header := k.initialHeader

def nextUnit : (k : MediaKind) → EStateM Fault (Reader σ k) Octets
  | .flv => Flv.nextUnit
  | .mpegts => TransportStream.nextUnit
  | .theora => Ogg.nextUnit
  | .text => Framing.onSource (Buffered.read textChunkSize)

def poll (k : MediaKind) : EStateM Fault (Reader σ k) Unit :=
  Framing.onSource Buffered.fill

inductive Step
  | next
  | poll
deriving DecidableEq, Repr

inductive Outcome
  | unit (bs : Octets)
  | ready
deriving DecidableEq, Repr

structure Report where
  outcome : Except Fault Outcome
  header : Octets
  broken : Nat

def step (k : MediaKind) : Step → EStateM Fault (Reader σ k) Outcome
  | .next => return .unit (← nextUnit k)
  | .poll => do
    poll k
    return .ready

def report (k : MediaKind) (s : Step) (r : Reader σ k) : Report × Reader σ k :=
  match step k s r with
  | .ok o r' => (⟨.ok o, r'.header, r'.broken⟩, r')
  | .error e r' => (⟨.error e, r'.header, r'.broken⟩, r')

def runSteps (k : MediaKind) : List Step → Reader σ k → List Report
  | [], _ => []
  | s :: rest, r =>
    let (rep, r') := report k s r
    rep :: runSteps k rest r'

-- Asks for units until the end of the stream, a fault, or `limit` requests, reporting on each.
def drain (k : MediaKind) : Nat → Reader σ k → List Report
  | 0, _ => []
  | limit + 1, r =>
    let (rep, r') := report k .next r
    match rep.outcome with
    | .ok (.unit []) => [rep]
    | .error _ => [rep]
    | _ => rep :: drain k limit r'

end Reader

end MediaRelay
