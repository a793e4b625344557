import MediaRelay.Registry.Store

-- Clients attach to inputs by connection id and read their private queues. A client holds the
-- receiving side of the queue of its latest successful attachment; attaching again lets the
-- earlier queue go, so units offered to it from then on are discarded. A client keeps reading its
-- queue after it detached or its input was removed, up to the end of what was queued.
--
-- Operations come one after the other, each run to its end, and the input a client attaches to or
-- detaches from then runs its loop until it blocks: a UDP input binds once a client is attached and
-- gives its socket up once none is. An attachment waits up to the bind timeout for the bind; when
-- the wait lasts a wait interval, every input paused after a failed bind tries again meanwhile.

namespace MediaRelay

-- an input as a request describes it, its names not yet read
structure InputRequest where
  path : String
  media : String
  protocol : String
  host : String
  port : Nat
  uuid : Uuid
  routeUuid : Uuid
  name : String
  multicast : Bool

def InputRequest.descriptor (q : InputRequest) : Except Fault InputDescriptor := do
  let media ← MediaKind.parse q.media
  let protocol ← Protocol.parse q.protocol
  return { uuid := q.uuid, name := q.name, path := q.path, media,
           route := { uuid := q.routeUuid, host := q.host, port := q.port, protocol,
                      cast := if q.multicast then .multicast else .unicast } }

inductive TableOp
  | register (q : InputRequest)
  | update (q : InputRequest)
  | deregister (path : String)
  | resolve (path : String)
  | paths
  | count (path : String)
  | dispatch (path : String) (unit : Octets)
  | attach (path : String) (conn : Uuid)
  | detach (path : String) (conn : Uuid)
  | dropConnections (path : String)
  | recv (conn : Uuid)
  | outlet (conn : Uuid)
  | connectionStats (path : String)
  | snapshot
  | inputStats (path : String)
  | input (path : String)

inductive TableAnswer
  | done
  | failed (f : Fault)
  | media (m : Option MediaKind)
  | paths (ps : List String)
  | count (n : Nat)
  | queued (n : Nat)
  | attached (m : MediaKind)
  | dropped (n : Nat)
  -- the units taken from a queue, and whether its sending side is gone
  | received (units : List Octets) (closed : Bool)
  | noAttachment
  | outlet (buffered sent : Nat) (overflowed : Bool)
  | connections (cs : List ConnectionStats)
  | inputs (xs : List InputStats)
  | inputStats (x : Option InputStats)
  | input (w : Option InputWorker)

structure Clients where
  registry : Registry
  -- the queue of each client's latest successful attachment
  held : List (Uuid × QueueId) := []
  -- the input workers created so far, which numbers the next one
  created : Nat := 0

namespace Clients

def commit (c : Clients) : Except Fault Registry → TableAnswer × Clients
  | .ok r => (.done, { c with registry := r })
  | .error f => (.failed f, c)

variable (host : Net.Host)

-- the worker of the input under a key runs its loop until it blocks, binding at most once
def settle (k : PathKey) (r : Registry) : Registry :=
  [WorkerStep.release, .resume, .opened, .bind].foldl
    (fun r e => r.stepWorker host (r.heldSockets · k) k e) r

-- a wait interval passes: every input paused after a failed bind tries again, in table order
def retry (r : Registry) : Registry :=
  r.slots.foldl (fun r s =>
    if (r.slot? s.key).any (·.worker.loop == .paused) then settle host s.key r else r) r

-- an attachment waits for the input's bind: the input runs its loop until it blocks, and when it
-- paused after a failed bind, every paused input tries again while the wait lasts a wait interval
def awaitBind (k : PathKey) (r : Registry) : Registry :=
  let r := settle host k r
  let paused := (r.slot? k).any (·.worker.loop == .paused)
  if paused && r.waitInterval ≤ r.bindTimeout then retry host r else r

def step (c : Clients) : TableOp → TableAnswer × Clients
  | .register q =>
    match q.descriptor >>= fun d => c.registry.register host (Uuid.ofNat c.created) d with
    | .ok r => (.done, { c with registry := r, created := c.created + 1 })
    | .error f => (.failed f, c)
  | .update q => c.commit (q.descriptor >>= fun d => c.registry.update d)
  | .deregister path => c.commit (c.registry.deregister path)
  | .resolve path => (.media (c.registry.resolve path), c)
  | .paths => (.paths c.registry.paths, c)
  | .count path => (.count (c.registry.connectionCount path), c)
  | .dispatch path unit =>
    let (n, r) := c.registry.dispatch (PathKey.ofPath path) unit
    (.queued n, { c with registry := r })
  | .attach path conn =>
    let k := PathKey.ofPath path
    match c.registry.attach k conn with
    | .error f => (.failed f, c)
    | .ok ((q, m), r) =>
      let r := awaitBind host k r
      let r := match c.held.lookup conn with
        | some old => r.modifyQueue old Queue.closeReceiver
        | none => r
      (.attached m, { c with registry := r, held := (c.held.filter (·.1 != conn)) ++ [(conn, q)] })
  | .detach path conn =>
    let k := PathKey.ofPath path
    (.done, { c with registry := settle host k (c.registry.detach k conn) })
  | .dropConnections path =>
    (.dropped (c.registry.dropConnections (PathKey.ofPath path)), c)
  | .recv conn =>
    match c.held.lookup conn with
    | none => (.noAttachment, c)
    | some q =>
      let (units, queue) := (c.registry.queues.getD q {}).takeAll
      (.received units !queue.senderOpen,
        { c with registry := c.registry.modifyQueue q fun _ => queue })
  | .outlet conn =>
    match c.held.lookup conn with
    | none => (.noAttachment, c)
    | some q =>
      let queue := c.registry.queues.getD q {}
      (.outlet queue.buffered queue.sent queue.overflowed, c)
  | .connectionStats path => (.connections (c.registry.connectionStats path), c)
  | .snapshot => (.inputs c.registry.snapshot, c)
  | .inputStats path => (.inputStats (c.registry.inputStats path), c)
  | .input path => (.input (c.registry.input? path), c)

def run (c : Clients) : List TableOp → List TableAnswer
  | [] => []
  | op :: rest =>
    let (a, c') := c.step host op
    a :: c'.run rest

end Clients

end MediaRelay
