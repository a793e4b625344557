import MediaRelay.Route
import MediaRelay.Net.Host
import MediaRelay.Input.State
import MediaRelay.Input.Gate

-- An input worker receives one input's stream. A TCP input binds its route when it starts and
-- then accepts one source at a time. A UDP input holds a socket only while clients want its
-- stream: its loop waits for the gate to open, binds its route, reads a session until the gate
-- lets it give the socket up or the session ends, and then waits again; a bind that fails is
-- tried again after a pause. The loop is kept as the point where it is suspended (`Loop`), and
-- each resumption of it is one `WorkerStep`.

namespace MediaRelay

structure Binding where
  local? : Option Net.SocketAddr := none
  count : Nat := 0
deriving DecidableEq, Repr

-- what a session publishes for clients and statistics
structure SessionView where
  header : Octets
  broken : Nat := 0
  peer : Option Net.SocketAddr := none
deriving DecidableEq, Repr

inductive Loop
  | waitOpen
  | binding
  | paused
  | accepting
  | reading
deriving DecidableEq, Repr

-- the phase the worker reports where its loop is suspended; a pause keeps the phase of the bind or
-- the accept that failed
def Loop.phase (p : Protocol) : Loop → InputPhase
  | .waitOpen => .waiting
  | .binding => .binding
  | .paused => if p = .tcp then .accepting else .binding
  | .accepting => .accepting
  | .reading => .reading

inductive WorkerStep
  -- the wait for the gate to open returns
  | opened
  -- the bind of a UDP input's route completes
  | bind
  -- the pause after a failed bind or accept ends
  | resume
  | accept (peer : Net.SocketAddr)
  | acceptFailed
  -- the gate closed and let the UDP input give its socket up
  | release
  -- the session ended by itself, at the end of its stream or with a fault
  | ended (fault? : Option Fault)

structure InputWorker where
  id : Uuid
  descriptor : InputDescriptor
  -- the transport, fixed when the input is registered
  protocol : Protocol
  session : SessionView
  state : InputState := {}
  gate : Gate := {}
  binding : Binding := {}
  loop : Loop := .waitOpen
deriving DecidableEq

namespace InputWorker

def create (id : Uuid) (d : InputDescriptor) : InputWorker where
  id := id
  descriptor := d
  protocol := d.route.protocol
  session := { header := d.media.initialHeader }

def key (w : InputWorker) : PathKey :=
  w.descriptor.key

-- binds the worker's current route next to `held`, the sockets of its protocol that the other
-- inputs hold; a UDP socket on a multicast route joins the route's group
def bindRoute (host : Net.Host) (held : List Net.SocketAddr) (w : InputWorker) :
    Except Fault Net.SocketAddr := do
  let r := w.descriptor.route
  let a ← r.resolve host
  let bound ← (host.bind (w.protocol == .tcp) held a).mapError .io
  if w.protocol == .udp then
    if let some g ← r.multicastGroup then
      (host.join g).mapError .io
  return bound

def markBound (a : Net.SocketAddr) (w : InputWorker) : InputWorker :=
  { w with binding := { local? := some a, count := w.binding.count + 1 } }

def release (w : InputWorker) : InputWorker :=
  { w with binding := { w.binding with local? := none } }

-- a session starts with the published state of the input's current media kind
def startSession (peer : Option Net.SocketAddr) (w : InputWorker) : InputWorker :=
  { w with session := { header := w.descriptor.media.initialHeader, peer },
           state := w.state.startSession peer }

-- a session ends: a UDP input gives its socket up and waits for a client again, a TCP input goes
-- back to accepting
def endSession (error : Option String) (w : InputWorker) : InputWorker :=
  match w.protocol with
  | .udp =>
    { w.release with gate := w.gate.reset, loop := .waitOpen,
                     state := (w.state.endSession error).enter .waiting }
  | .tcp => { w with loop := .accepting, state := (w.state.endSession error).enter .accepting }

def init (host : Net.Host) (held : List Net.SocketAddr) (w : InputWorker) :
    Except Fault InputWorker :=
  match w.protocol with
  | .tcp => do
    let a ← w.bindRoute host held
    return { w.markBound a with state := w.state.enter .accepting, loop := .accepting }
  | .udp => return { w.release with state := w.state.enter .waiting, loop := .waitOpen }

-- one resumption of the worker's loop; a step for which the loop is not suspended at its point
-- changes nothing
def step (host : Net.Host) (held : List Net.SocketAddr) (w : InputWorker) :
    WorkerStep → InputWorker
  | .opened =>
    if w.protocol = .udp ∧ w.loop = .waitOpen ∧ 0 < w.gate.count then
      { w with loop := .binding, state := w.state.enter .binding }
    else w
  | .bind =>
    if w.loop = .binding then
      match w.bindRoute host held with
      | .ok a => { (w.markBound a).startSession none with gate := w.gate.activate, loop := .reading }
      | .error _ => { w with loop := .paused }
    else w
  | .resume =>
    if w.loop = .paused then
      match w.protocol with
      | .udp => { w with loop := .waitOpen, state := w.state.enter .waiting }
      | .tcp => { w with loop := .accepting, state := w.state.enter .accepting }
    else w
  | .accept peer =>
    if w.protocol = .tcp ∧ w.loop = .accepting then
      { w.startSession (some peer) with loop := .reading }
    else w
  | .acceptFailed =>
    if w.protocol = .tcp ∧ w.loop = .accepting then { w with loop := .paused } else w
  | .release =>
    if w.protocol = .udp ∧ w.loop = .reading ∧ w.gate.count = 0 then w.endSession none else w
  | .ended fault? =>
    if w.loop = .reading then w.endSession (fault?.map Fault.message) else w

-- a client attached: a UDP input's gate opens once more
def connectionAdded (w : InputWorker) : InputWorker :=
  match w.protocol with
  | .tcp => w
  | .udp => { w with gate := w.gate.addClient.2 }

def connectionRemoved (w : InputWorker) : InputWorker :=
  match w.protocol with
  | .tcp => w
  | .udp => { w with gate := w.gate.removeClient.2 }

-- refused for a TCP input, whose route is fixed, and for a route of another protocol
def update (d : InputDescriptor) (w : InputWorker) : Except Fault InputWorker := do
  if w.protocol == .tcp then throw (.registry (.routeImmutable w.key))
  if d.route.protocol != w.protocol then throw (.registry (.protocolMismatch w.key))
  d.route.validate
  return { w with descriptor := d }

def stop (w : InputWorker) : InputWorker :=
  { w.release with state := w.state.stop }

end InputWorker

end MediaRelay
