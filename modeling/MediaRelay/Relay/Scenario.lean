import MediaRelay.Relay.Server
import MediaRelay.Relay.Connection
import MediaRelay.Relay.Session

-- A scenario drives a running relay through its sockets, on any host: HTTP clients connect to its
-- listener, send a request and read what the relay writes back, sources connect to TCP inputs and
-- send their streams, and a sender sends datagrams to UDP inputs. Between those steps the scenario
-- registers, updates and removes inputs and looks at them.
--
-- Steps run one after the other, each to its end, and then every connection writes the units
-- queued for it; its client reads them when a step asks. Time passes only while the scenario
-- waits for something that does not come: bytes not sent, a close, a count or a bind not reached.
-- Such a wait outlasts the hang timeout unless the relay is configured otherwise, so every
-- connection, having nothing to write, ends; and every input paused after a failed bind tries
-- again meanwhile.
--
-- A scenario ends at a step that fails to connect, at a client that connects to a relay that was
-- stopped, and at a step that looks at, connects or sends to the input under a path where none is
-- published, or to an input that holds no socket.

namespace MediaRelay

inductive ScenarioOp
  | register (q : InputRequest)
  | update (q : InputRequest)
  | deregister (path : String)
  | stop
  | paths
  | info (path : String)
  -- waits until the input under a path has `n` clients
  | waitCount (path : String) (n : Nat)
  -- waits until the input under a path holds a socket, or holds none
  | waitBound (path : String) (bound : Bool)
  -- a client connects, sends a request, may close its sending side, and reads the response's head
  | client (id : Nat) (request : Octets) (shutdownWrite : Bool)
  | read (id n : Nat)
  -- a client reads until the relay closes the connection
  | expectClose (id : Nat)
  | close (id : Nat)
  -- a source connects to the TCP input under a path, and sends chunks, and closes
  | sourceConnect (path : String)
  | sourceSend (path : String) (chunks : List Octets)
  | sourceClose (path : String)
  | udpSend (path : String) (datagram : Octets)

inductive ScenarioAnswer
  | done
  | failed (f : Fault)
  -- the relay is stopped, and the inputs still published
  | stopped (paths : List String)
  | paths (ps : List String)
  | info (w : InputWorker) (connections : Nat)
  | count (n : Nat)
  | reached (b : Bool)
  -- the head of the response a client read, up to its blank line; none when the relay closed
  -- first, with the bytes read
  | head (h : Option Octets) (received : Octets)
  -- the bytes a client read, and whether they are all it asked for
  | data (bs : Octets) (complete : Bool)
  -- whether a connection was open, and is now closed
  | closed (b : Bool)
  -- whether a source's session started, and the sessions of its input
  | session (started : Bool) (sessions : Nat)
  -- whether a source's bytes or a datagram went out
  | sent (b : Bool)

inductive ScenarioEnd
  -- the relay could not listen
  | startFailed (f : Fault)
  | connectFailed (e : IoFault)
  | noListener
  | noInput (path : String)
  | notBound (path : String)

def ScenarioEnd.message : ScenarioEnd → String
  | .startFailed f => f.message
  | .connectFailed e => e.text
  | .noListener => "streamer has no listener"
  | .noInput _ => "no input for path"
  | .notBound _ => "input is not bound"

namespace Relay

def input (s : Relay) (path : String) : Except ScenarioEnd InputWorker :=
  match s.registry.input? path with
  | some w => .ok w
  | none => .error (.noInput path)

def boundInput (s : Relay) (path : String) : Except ScenarioEnd Net.SocketAddr := do
  let w ← s.input path
  match w.binding.local? with
  | some a => return a
  | none => throw (.notBound path)

end Relay

-- what the relay is configured with, as far as a scenario can tell, and how long the scenario
-- waits for what it expects (milliseconds; no limit on connections when it is 0)
structure Settings where
  maxConnections : Nat := 0
  maxRequestSize : Nat := 16384
  hangTimeout : Nat := 10000
  waitInterval : Nat := 5000
  bindTimeout : Nat := 5000
  patience : Nat := 3000

-- where a client's connection stands: attached to the input under a key and writing the units of
-- its queue, or ended
inductive Link
  | streaming (k : PathKey) (q : QueueId)
  | ended
deriving DecidableEq

structure Client where
  -- the scenario's name for the client, and the relay's for its connection
  id : Nat
  conn : Uuid
  -- what the connection wrote, in order, with what became of each write
  writes : List Octets := []
  turns : List Connection.Turn := []
  -- how many bytes the client read
  consumed : Nat := 0
  link : Link := .ended
  -- the client closed its side
  gone : Bool := false

namespace Client

def received (c : Client) : Octets :=
  Connection.writeAll c.writes c.turns

def unread (c : Client) : Octets :=
  c.received.drop c.consumed

def readAll (c : Client) : Client :=
  { c with consumed := c.received.length }

variable (host : Net.Host)

-- the connection ends: it lets its queue go and detaches from its input, which then runs its loop
-- until it blocks
def hangUp (c : Client) (r : Registry) : Client × Registry :=
  match c.link with
  | .ended => (c, r)
  | .streaming k q =>
    ({ c with link := .ended },
      Clients.settle host k ((r.modifyQueue q Queue.closeReceiver).detach k c.conn))

-- the connection writes every unit its queue holds, in order, and ends once its input let the
-- queue go; a write to a client that closed its side fails and ends the connection
def catchUp (c : Client) (r : Registry) : Client × Registry :=
  match c.link with
  | .ended => (c, r)
  | .streaming _ q =>
    let (units, queue) := (r.queue q).takeAll
    let r := r.modifyQueue q fun _ => queue
    let turn := if c.gone then Connection.Turn.stop else .write
    let c := { c with writes := c.writes ++ units, turns := c.turns ++ units.map fun _ => turn }
    if queue.senderOpen && !(c.gone && !units.isEmpty) then (c, r) else c.hangUp host r

-- the connection reads the client's request, which ends where the client closed its sending side
-- or else waits, and answers it; a request it cannot read closes it without a byte
def serve (id : Nat) (conn : Uuid) (request : Octets) (shutdownWrite : Bool) (limit : Nat)
    (r : Registry) : Client × Registry :=
  match Http.readRequest limit (Arrivals.arrive request { closed := shutdownWrite }) with
  | .error _ => ({ id, conn }, r)
  | .ok req =>
    match Connection.reply req (r.resolve req.path) with
    | .respond bs => ({ id, conn, writes := [bs], turns := [.write] }, r)
    | .stream v =>
      let k := PathKey.ofPath req.path
      match r.attach k conn with
      | .error _ => ({ id, conn, writes := [Http.notFoundResponse v], turns := [.write] }, r)
      | .ok ((q, m), r) =>
        ({ id, conn, writes := [Http.okResponse v m.contentType], turns := [.write],
           link := .streaming k q }, Clients.awaitBind host k r)

-- the length of a response's head, with the blank line that ends it
def headLength? : Octets → Option Nat
  | [] => none
  | b :: rest =>
    if [13, 10, 13, 10].isPrefixOf (b :: rest) then some 4 else (headLength? rest).map (· + 1)

-- the client reads the response up to its blank line; when the relay closed first, it read all
def readHead (c : Client) : ScenarioAnswer × Client :=
  match headLength? c.received with
  | some n => (.head (some (c.received.take n)) [], { c with consumed := n })
  | none => (.head none c.received, c.readAll)

end Client

-- the relay with its listener and connections, and the scenario's clients and sources around it
structure World where
  relay : Relay
  listener : Net.SocketAddr
  settings : Settings
  -- every client in the order they connected; at most one under each id has not closed its side
  clients : List Client := []
  -- the keys of the inputs whose session reads a source of the scenario
  sources : List PathKey := []
  -- the reader of each input's latest session
  feeds : List (PathKey × Feed) := []
  -- the connections accepted so far, which numbers the next one
  accepted : Nat := 0

namespace World

variable (host : Net.Host)

-- the relay listens on a port of the loopback address that the host picks
def start (settings : Settings) : Except ScenarioEnd World := do
  let loopback : Net.SocketAddr := ⟨.v4 ⟨127, 0, 0, 1⟩, 0, 0⟩
  let a ← (host.bind true [] loopback).mapError fun e => .startFailed (.io e)
  return { relay := { registry := { waitInterval := settings.waitInterval,
                                    bindTimeout := settings.bindTimeout } },
           listener := a, settings }

def registry (w : World) : Registry :=
  w.relay.registry

def setRegistry (r : Registry) (w : World) : World :=
  { w with relay := { w.relay with registry := r } }

def commit (w : World) : Except Fault Relay → ScenarioAnswer × World
  | .ok relay => (.done, { w with relay })
  | .error f => (.failed f, w)

def client? (w : World) (id : Nat) : Option Client :=
  w.clients.find? fun c => c.id == id && !c.gone

def modifyClient (id : Nat) (g : Client → Client) (w : World) : World :=
  { w with clients := w.clients.map fun c => if c.id == id && !c.gone then g c else c }

-- every connection in turn, with the registry
def eachClient (g : Client → Registry → Client × Registry) (w : World) : World :=
  let (cs, r) := w.clients.foldl (fun (acc : List Client × Registry) c =>
    let (c, r) := g c acc.2
    (acc.1 ++ [c], r)) ([], w.registry)
  { w.setRegistry r with clients := cs }

def catchUp (w : World) : World :=
  w.eachClient (Client.catchUp host)

-- the connections that hold a place under the limit on connections
def streaming (w : World) : Nat :=
  (w.clients.filter (·.link != .ended)).length

-- a wait that nothing ends: every connection ends at its hang timeout, and every input paused
-- after a failed bind tries again, when the wait lasts that long
def idle (w : World) : World :=
  let s := w.settings
  let w := if s.hangTimeout < s.patience then w.eachClient (Client.hangUp host) else w
  if s.waitInterval ≤ s.patience then w.setRegistry (Clients.retry host w.registry) else w

def connect (w : World) (id : Nat) (request : Octets) (shutdownWrite : Bool) :
    Except ScenarioEnd (ScenarioAnswer × World) := do
  if w.relay.stopped then throw .noListener
  let _ ← (host.connect w.listener).mapError .connectFailed
  let conn := Uuid.ofNat w.accepted
  -- the scenario's earlier client under the id lets its connection go
  let w := w.modifyClient id fun c => { c with gone := true }
  let w := { w with accepted := w.accepted + 1 }
  let s := w.settings
  let (c, r) :=
    if 0 < s.maxConnections && s.maxConnections ≤ w.streaming then
      (({ id, conn } : Client), w.registry)
    else Client.serve host id conn request shutdownWrite s.maxRequestSize w.registry
  let (a, c) := c.readHead
  return (a, { w.setRegistry r with clients := w.clients ++ [c] })

-- the reader of the session that the input under `k` reads, fresh at the session's first bytes
def feed? (w : World) (k : PathKey) : Option Feed :=
  match w.registry.slot? k with
  | some s =>
    if s.worker.loop == .reading then
      some (((w.feeds.lookup k).filter (·.reads s.worker)).getD (Feed.start s.worker))
    else none
  | none => none

-- the worker of the input under `k` resumes its loop
def stepWorker (k : PathKey) (e : WorkerStep) (w : World) : World :=
  w.setRegistry (w.registry.stepWorker host (w.registry.heldSockets · k) k e)

def setFeed (k : PathKey) (f : Feed) (w : World) : World :=
  { w with feeds := (w.feeds.filter (·.1 != k)) ++ [(k, f)] }

-- the session of the input under `k` ends, and the input drops every client attached to it
def endSession (k : PathKey) (fault? : Option Fault) (w : World) : World :=
  (w.stepWorker host k (.ended fault?)).eachClient fun c r =>
    match c.link with
    | .streaming k' _ => if k' == k then c.hangUp host r else (c, r)
    | .ended => (c, r)

-- what arrived reaches the session of the input under `k`, which cuts and dispatches the units it
-- makes whole; the units cut before the session ends reach the clients before they are dropped
def deliver (k : PathKey) (g : Arrivals → Arrivals) (w : World) : World :=
  match w.feed? k with
  | none => w
  | some f =>
    let (f, r, ended) := w.registry.feed k (f.modifySource g)
    let w := (w.setRegistry r).setFeed k f
    match ended with
    | none => w
    | some fault? => (w.catchUp host).endSession host k fault?

def closeSource (k : PathKey) (w : World) : World :=
  if w.sources.contains k then
    ({ w with sources := w.sources.filter (· != k) }).deliver host k Arrivals.close
  else w

def sessions (w : World) (k : PathKey) : Nat :=
  ((w.registry.slot? k).map (·.worker.state.sessions)).getD 0

def step (w : World) : ScenarioOp → Except ScenarioEnd (ScenarioAnswer × World)
  | .register q => .ok (w.commit (q.descriptor >>= fun d => w.relay.register host d))
  | .update q => .ok (w.commit (q.descriptor >>= fun d => w.relay.update d))
  | .deregister path => .ok (w.commit (w.relay.deregister path))
  | .stop => let relay := w.relay.stop; .ok (.stopped relay.registry.paths, { w with relay })
  | .paths => .ok (.paths w.registry.paths, w)
  | .info path => do
    let iw ← w.relay.input path
    return (.info iw (w.registry.connectionCount path), w)
  | .waitCount path n =>
    if w.registry.connectionCount path = n then .ok (.count n, w)
    else
      let w := w.idle host
      .ok (.count (w.registry.connectionCount path), w)
  | .waitBound path bound => do
    let iw ← w.relay.input path
    if iw.binding.local?.isSome == bound then return (.reached true, w)
    let w := w.idle host
    let iw ← w.relay.input path
    return (.reached (iw.binding.local?.isSome == bound), w)
  | .client id request shutdownWrite => w.connect host id request shutdownWrite
  | .read id n =>
    match w.client? id with
    | none => .ok (.data [] false, w)
    | some c =>
      if n ≤ c.unread.length then
        let w := w.modifyClient id fun c => { c with consumed := c.consumed + n }
        .ok (.data (c.unread.take n) true, w)
      else
        -- the client waits for bytes that do not come
        let w := if c.link == .ended then w else w.idle host
        .ok (.data c.unread false, w.modifyClient id Client.readAll)
  | .expectClose id =>
    match w.client? id with
    | none => .ok (.closed false, w)
    | some c =>
      let w := if c.link == .ended then w else w.idle host
      .ok (.closed ((w.client? id).any (·.link == .ended)), w.modifyClient id Client.readAll)
  | .close id =>
    match w.client? id with
    | none => .ok (.closed false, w)
    | some _ => .ok (.closed true, w.modifyClient id fun c => { c with gone := true })
  | .sourceConnect path => do
    let a ← w.relay.boundInput path
    let peer ← (host.connect a).mapError .connectFailed
    let k := PathKey.ofPath path
    -- the scenario's earlier source for the path closes its connection first
    let w := w.closeSource host k
    let w' := w.stepWorker host k (.accept peer)
    let started := w.sessions k < w'.sessions k
    return (.session started (w'.sessions k),
      if started then { w' with sources := w'.sources ++ [k] } else w')
  | .sourceSend path chunks =>
    let k := PathKey.ofPath path
    if w.sources.contains k then
      .ok (.sent true, w.deliver host k fun a => chunks.foldl (fun a bs => a.arrive bs) a)
    else .ok (.sent false, w)
  | .sourceClose path =>
    let k := PathKey.ofPath path
    .ok (.closed (w.sources.contains k), w.closeSource host k)
  | .udpSend path datagram => do
    let a ← w.relay.boundInput path
    let k := PathKey.ofPath path
    match host.send a with
    | .error _ => return (.sent false, w)
    | .ok () =>
      -- a datagram reaches the session of a UDP input; at a TCP input's port nothing takes it
      if (w.registry.slot? k).any (·.worker.protocol == .udp) then
        return (.sent true, w.deliver host k (Arrivals.arrive (datagram.take maxDatagramSize)))
      else return (.sent true, w)

def run (w : World) : List ScenarioOp → Except ScenarioEnd (List ScenarioAnswer)
  | [] => .ok []
  | op :: rest => do
    let (a, w) ← w.step host op
    let answers ← (w.catchUp host).run rest
    return a :: answers

end World

def runScenario (host : Net.Host) (settings : Settings) (ops : List ScenarioOp) :
    Except ScenarioEnd (List ScenarioAnswer) := do
  (← World.start host settings).run host ops

end MediaRelay
