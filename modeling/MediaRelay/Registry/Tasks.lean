import MediaRelay.Registry.Store

-- The relay's tasks work on the table concurrently, each operation on it one locked section. A
-- registration does not hold the table while its worker starts, since starting may bind a socket:
-- it claims the input's key, starts the worker with the table free, then publishes the input and
-- lets its claim go (or lets it go at once if the worker fails to start). A removal takes the slot
-- out under the lock and drops its outlets later, once it has stopped the input's worker. Every
-- input's worker runs its loop meanwhile, one resumption at a time. The tasks so form a state
-- machine over the table, the registrations in flight and the slots being dropped, on any host.

namespace MediaRelay

inductive Registration
  -- the key is claimed and the worker not yet started
  | claimed (d : InputDescriptor)
  -- the worker has started and the input is not yet published
  | started (d : InputDescriptor) (w : InputWorker)

namespace Registration

def descriptor : Registration → InputDescriptor
  | claimed d => d
  | started d _ => d

def key (g : Registration) : PathKey :=
  g.descriptor.key

-- the socket of protocol `p` that the worker of a registration holds, once it has started
def socket? (p : Protocol) : Registration → Option Net.SocketAddr
  | claimed _ => none
  | started _ w => if w.protocol == p then w.binding.local? else none

-- the worker of a started registration resumes its loop
def stepWorker (host : Net.Host) (held : List Net.SocketAddr) (e : WorkerStep) :
    Registration → Registration
  | claimed d => claimed d
  | started d w => started d (w.step host held e)

end Registration

structure Tasks where
  registry : Registry
  inFlight : List Registration := []
  -- the slots that removals took out of the table and whose outlets they still hold
  dropping : List Slot := []

inductive TaskStep
  -- a registration of an input begins: it claims the input's key
  | claim (d : InputDescriptor)
  -- the registration that claims a key creates its worker under an id and starts it
  | start (k : PathKey) (id : Uuid)
  | publish (k : PathKey)
  -- the registration that claims a key gives up, its worker refused by the scheduler
  | abandon (k : PathKey)
  | update (d : InputDescriptor)
  -- a removal takes the slot under a path out of the table
  | deregister (path : String)
  -- the removal of the input whose worker has the id drops the outlets of its slot
  | drop (worker : Uuid)
  | dispatch (k : PathKey) (unit : Octets)
  | attach (k : PathKey) (id : Uuid)
  | detach (k : PathKey) (id : Uuid)
  -- the worker of the input under a key resumes its loop
  | worker (k : PathKey) (e : WorkerStep)

namespace Tasks

variable (host : Net.Host)

def claimant? (t : Tasks) (k : PathKey) : Option Registration :=
  t.inFlight.find? (·.key == k)

def without (t : Tasks) (k : PathKey) : List Registration :=
  t.inFlight.filter (·.key != k)

-- the sockets of protocol `p` that the inputs other than the one under `k` hold: published ones,
-- and started ones not yet published
def heldBy (t : Tasks) (p : Protocol) (k : PathKey) : List Net.SocketAddr :=
  t.registry.heldSockets p k ++ (t.without k).filterMap (Registration.socket? p)

-- the registration that claims `k` lets its claim go
def abandon (t : Tasks) (k : PathKey) : Tasks :=
  { t with registry := t.registry.release k, inFlight := t.without k }

def commit (t : Tasks) : Except Fault Registry → Except Fault Unit × Tasks
  | .ok r => (.ok (), { t with registry := r })
  | .error f => (.error f, t)

-- a step of a registration that is not in flight, or not at that step, does nothing
def step (t : Tasks) : TaskStep → Except Fault Unit × Tasks
  | .claim d =>
    match d.route.validate >>= fun _ => t.registry.reserve d.key with
    | .ok r => (.ok (), { t with registry := r, inFlight := t.inFlight ++ [.claimed d] })
    | .error f => (.error f, t)
  | .start k id =>
    match t.claimant? k with
    | some (.claimed d) =>
      match Registry.startWorker host id d (t.heldBy d.route.protocol k) with
      | .ok w =>
        (.ok (), { t with inFlight := t.inFlight.map fun g => if g.key == k then .started d w else g })
      | .error f => (.error f, t.abandon k)
    | _ => (.ok (), t)
  | .publish k =>
    match t.claimant? k with
    | some (.started _ w) =>
      (.ok (), { t with registry := (t.registry.insert { key := k, worker := w }).release k,
                        inFlight := t.without k })
    | _ => (.ok (), t)
  | .abandon k => (.ok (), t.abandon k)
  | .update d => t.commit (t.registry.update d)
  | .deregister path =>
    match t.registry.remove path with
    | .ok (s, r) => (.ok (), { t with registry := r, dropping := t.dropping ++ [s] })
    | .error f => (.error f, t)
  | .drop w =>
    (.ok (), { t with
      registry := Registry.closeOutlets
        ((t.dropping.filter (·.worker.id == w)).flatMap (·.outlets)) t.registry
      dropping := t.dropping.filter (·.worker.id != w) })
  | .dispatch k unit => (.ok (), { t with registry := (t.registry.dispatch k unit).2 })
  | .attach k id => t.commit ((t.registry.attach k id).map Prod.snd)
  | .detach k id => (.ok (), { t with registry := t.registry.detach k id })
  | .worker k e =>
    match t.registry.slot? k with
    | some _ => (.ok (), { t with registry := t.registry.stepWorker host (t.heldBy · k) k e })
    | none =>
      (.ok (), { t with inFlight := t.inFlight.map fun g =>
        if g.key == k then g.stepWorker host (t.heldBy g.descriptor.route.protocol k) e else g })

-- `step` one kind of step at a time, so that a proof about one kind never unfolds the others

theorem step_claim (t : Tasks) (d : InputDescriptor) :
    t.step host (.claim d) =
      match d.route.validate >>= fun _ => t.registry.reserve d.key with
      | .ok r => (.ok (), { t with registry := r, inFlight := t.inFlight ++ [.claimed d] })
      | .error f => (.error f, t) :=
  rfl

theorem step_start (t : Tasks) (k : PathKey) (id : Uuid) :
    t.step host (.start k id) =
      match t.claimant? k with
      | some (.claimed d) =>
        match Registry.startWorker host id d (t.heldBy d.route.protocol k) with
        | .ok w =>
          (.ok (), { t with inFlight := t.inFlight.map fun g =>
            if g.key == k then .started d w else g })
        | .error f => (.error f, t.abandon k)
      | _ => (.ok (), t) :=
  rfl

theorem step_publish (t : Tasks) (k : PathKey) :
    t.step host (.publish k) =
      match t.claimant? k with
      | some (.started _ w) =>
        (.ok (), { t with registry := (t.registry.insert { key := k, worker := w }).release k,
                          inFlight := t.without k })
      | _ => (.ok (), t) :=
  rfl

theorem step_abandon (t : Tasks) (k : PathKey) : t.step host (.abandon k) = (.ok (), t.abandon k) :=
  rfl

theorem step_update (t : Tasks) (d : InputDescriptor) :
    t.step host (.update d) = t.commit (t.registry.update d) :=
  rfl

theorem step_deregister (t : Tasks) (path : String) :
    t.step host (.deregister path) =
      match t.registry.remove path with
      | .ok (s, r) => (.ok (), { t with registry := r, dropping := t.dropping ++ [s] })
      | .error f => (.error f, t) :=
  rfl

theorem step_drop (t : Tasks) (w : Uuid) :
    t.step host (.drop w) =
      (.ok (), { t with
        registry := Registry.closeOutlets
          ((t.dropping.filter (·.worker.id == w)).flatMap (·.outlets)) t.registry
        dropping := t.dropping.filter (·.worker.id != w) }) :=
  rfl

theorem step_dispatch (t : Tasks) (k : PathKey) (unit : Octets) :
    t.step host (.dispatch k unit) = (.ok (), { t with registry := (t.registry.dispatch k unit).2 }) :=
  rfl

theorem step_attach (t : Tasks) (k : PathKey) (id : Uuid) :
    t.step host (.attach k id) = t.commit ((t.registry.attach k id).map Prod.snd) :=
  rfl

theorem step_detach (t : Tasks) (k : PathKey) (id : Uuid) :
    t.step host (.detach k id) = (.ok (), { t with registry := t.registry.detach k id }) :=
  rfl

theorem step_worker (t : Tasks) (k : PathKey) (e : WorkerStep) :
    t.step host (.worker k e) =
      match t.registry.slot? k with
      | some _ => (.ok (), { t with registry := t.registry.stepWorker host (t.heldBy · k) k e })
      | none =>
        (.ok (), { t with inFlight := t.inFlight.map fun g =>
          if g.key == k then g.stepWorker host (t.heldBy g.descriptor.route.protocol k) e else g }) :=
  rfl

def run (t : Tasks) (steps : List TaskStep) : Tasks :=
  steps.foldl (fun t s => (t.step host s).2) t

end Tasks

end MediaRelay
