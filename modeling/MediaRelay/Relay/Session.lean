import MediaRelay.Registry.Clients
import MediaRelay.Media.Reader
import MediaRelay.Source.Datagrams

-- An input's session reads the bytes of its source as they arrive: the writes of a TCP source, the
-- datagrams of a UDP input. Its framing reader cuts a unit once the unit's bytes have all arrived
-- and dispatches it to the input's clients. A read that finds nothing to read waits: the reader
-- stands still where its unit began, and cuts the unit again once more bytes came, which reads the
-- same bytes in the same way up to where it waited. What the reader published before it waited,
-- the header and the count of broken stretches, is published meanwhile. A read past the last byte
-- of a source that closed ends the stream, and so the session.

namespace MediaRelay

-- what reached an input and its reader has not read, one piece per write or datagram
structure Arrivals where
  pieces : List Octets := []
  closed : Bool := false
  -- a read found nothing to read, the source being open
  waiting : Bool := false
deriving DecidableEq

namespace Arrivals

-- a read takes bytes of the first piece only; with no piece left it ends the stream of a closed
-- source, and otherwise it waits, which stops the reader there (the fault stands for the wait and
-- is never reported)
def read (n : Nat) (a : Arrivals) : Except IoFault Octets × Arrivals :=
  match a.pieces with
  | [] => if a.closed then (.ok [], a) else (.error .reset, { a with waiting := true })
  | p :: rest =>
    let left := p.drop n
    (.ok (p.take n), { a with pieces := if left.isEmpty then rest else left :: rest })

def size (a : Arrivals) : Nat :=
  a.pieces.foldr (fun p n => p.length + n) 0

instance : ByteSource Arrivals := ⟨read, size⟩

-- a write of no bytes sends nothing, so a piece is never empty
def arrive (bs : Octets) (a : Arrivals) : Arrivals :=
  if bs.isEmpty then a else { a with pieces := a.pieces ++ [bs] }

def close (a : Arrivals) : Arrivals :=
  { a with closed := true }

end Arrivals

-- the reader of a session of an input's worker, the `session`-th the worker started
structure Feed where
  worker : Uuid
  session : Nat
  kind : MediaKind
  reader : Reader Arrivals kind

namespace Feed

def start (w : InputWorker) : Feed where
  worker := w.id
  session := w.state.sessions
  kind := w.descriptor.media
  reader := Reader.start w.descriptor.media {}

-- the feed reads the session the worker is reading
def reads (f : Feed) (w : InputWorker) : Bool :=
  f.worker == w.id && f.session == w.state.sessions && w.loop == .reading

def modifySource (g : Arrivals → Arrivals) (f : Feed) : Feed :=
  let b := f.reader.source
  { f with reader := { f.reader with source := { b with inner := g b.inner } } }

end Feed

-- where cutting the next unit leaves a session: a unit and the reader after it, a wait with what
-- the reader published before it, or the end of the session, at the end of the stream or with a
-- fault, with what the reader published
inductive Cut (k : MediaKind)
  | unit (u : Octets) (r : Reader Arrivals k)
  | wait (published : Reader Arrivals k)
  | ended (fault? : Option Fault) (published : Reader Arrivals k)

def cut (k : MediaKind) (r : Reader Arrivals k) : Cut k :=
  match Reader.nextUnit k r with
  | .ok [] r' => .ended none r'
  | .ok u r' => .unit u r'
  | .error e r' => if r'.source.inner.waiting then .wait r' else .ended (some e) r'

def InputWorker.publish (header : Octets) (broken : Nat) (w : InputWorker) : InputWorker :=
  { w with session := { w.session with header, broken } }

namespace Registry

-- the header and the count of broken stretches of the session of the input under a key
def publish (k : PathKey) (header : Octets) (broken : Nat) (r : Registry) : Registry :=
  match r.slot? k with
  | none => r
  | some s => r.setSlot k { s with worker := s.worker.publish header broken }

-- cuts the units that the bytes arrived make whole, dispatching each to the clients of the input
-- under `k`, until the reader waits or the session ends; a unit takes at least one byte, so the
-- bytes arrived and one more round bound the rounds
def pump (k : PathKey) : Nat → Feed → Registry → Feed × Registry × Option (Option Fault)
  | 0, f, r => (f, r, none)
  | n + 1, f, r =>
    match cut f.kind f.reader with
    | .unit u r' =>
      let r := ((r.publish k r'.header r'.broken).dispatch k u).2
      pump k n { f with reader := r' } r
    | .wait r' => (f, r.publish k r'.header r'.broken, none)
    | .ended e r' => (f, r.publish k r'.header r'.broken, some e)

-- the session of the input under `k` reads what arrived
def feed (k : PathKey) (f : Feed) (r : Registry) : Feed × Registry × Option (Option Fault) :=
  pump k (f.reader.source.remaining + 1) f r

end Registry

end MediaRelay
