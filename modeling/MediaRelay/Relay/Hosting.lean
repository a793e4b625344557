import MediaRelay.Registry.Tasks
import MediaRelay.Scheduler.StopQueue

-- The relay's long-running tasks are workers that its scheduler hosts, and its stop queue stops
-- the workers that ask to end. An input's worker is started by its registration: the
-- registration claims the input's key and has the scheduler start the worker, whose
-- initialisation is the worker's own start (a TCP input binds its route there); once that call
-- returned it publishes the input, or lets its claim go if the call failed. A removal takes the
-- slot out of the table under the lock, and only then has the scheduler stop the input's worker,
-- drops the slot's outlets, and stops the clients attached at the removal one after another, each
-- stop awaited before the next. A client connection's worker is started by the listener; its run
-- attaches to an input, and when it ends it detaches and pushes its own id on the stop queue, or
-- pushes its id without having attached. An input whose session ended pushes the ids of its
-- clients. Worker ids are drawn at random, so that no id is handed out twice.

namespace MediaRelay

inductive RemovalPhase
  -- the removal awaits the scheduler's call stopping the input's worker
  | stoppingInput (call : Nat)
  -- it awaits the call stopping the client `id`; the clients `rest` wait their turn
  | stoppingClient (id : Uuid) (call : Nat) (rest : List Uuid)
  | returned
deriving DecidableEq

structure Removal where
  worker : Uuid
  -- the clients attached to the input when its slot was taken out
  clients : List Uuid
  phase : RemovalPhase
deriving DecidableEq

-- how far the run of a client connection has got
inductive Serving
  | resolving
  | attached (k : PathKey)
  | closed
deriving DecidableEq

structure Hosting where
  tasks : Tasks
  queue : StopQueue
  -- the registrations whose worker a call of the scheduler starts, by key and call
  starting : List (PathKey × Nat) := []
  removals : List Removal := []
  -- the client connections, by the id of their worker
  clients : List (Uuid × Serving) := []
  -- every worker id handed out
  issued : List Uuid := []

inductive HostingStep
  -- a registration claims the key of a descriptor and has the scheduler start its worker under
  -- a fresh id
  | register (d : InputDescriptor) (id : Uuid)
  -- the initialisation run by the scheduler's call `c` returns
  | init (c : Nat)
  -- the registration whose worker the call `c` started publishes its input, or gives up
  | publish (c : Nat)
  | update (d : InputDescriptor)
  | dispatch (k : PathKey) (unit : Octets)
  | worker (k : PathKey) (e : WorkerStep)
  | deregister (path : String)
  -- the removal `i` goes on once the stop it awaits has returned
  | removal (i : Nat)
  -- the listener accepts a connection and has the scheduler start its worker under a fresh id
  | accept (id : Uuid)
  -- the run of the connection whose task is `t` attaches to the input under a key
  | attach (t : Nat) (k : PathKey)
  -- the run of the connection whose task is `t` ends
  | finish (t : Nat)
  -- the input under a key ends its session and has its clients stopped through the queue
  | dropConnections (k : PathKey)
  -- a step of the scheduler's calls and tasks that no task of the relay begins
  | scheduler (st : SchedulerStep)
  | receive
  | resume
  | quit

namespace Hosting

variable (host : Net.Host)

def fresh (r : Registry) (consumer : Uuid) : Hosting where
  tasks := { registry := r }
  queue := StopQueue.fresh consumer
  issued := [consumer]

-- the number the scheduler gives its next call
def nextCall (h : Hosting) : Nat :=
  h.queue.scheduler.calls.length

def schedule (h : Hosting) (st : SchedulerStep) : Hosting :=
  { h with queue := h.queue.step (.scheduler st) }

-- whether the scheduler's call `c` is a stop that has returned
def stopped (h : Hosting) (c : Nat) : Bool :=
  match h.queue.scheduler.calls[c]? with
  | some (.stop _ .returned) => true
  | _ => false

-- the client connection whose task `t` runs, with how far its run has got
def running? (h : Hosting) (t : Nat) : Option (Uuid × Serving) :=
  match h.queue.scheduler.tasks[t]? with
  | some task => if task.ended then none else (h.clients.lookup task.worker).map (task.worker, ·)
  | none => none

-- the id of the worker of the input under `k`, published or started by its registration
def inputWorker? (h : Hosting) (k : PathKey) : Option Uuid :=
  match h.tasks.registry.slot? k with
  | some s => some s.worker.id
  | none =>
    match h.tasks.claimant? k with
    | some (.started _ w) => some w.id
    | _ => none

-- whether a task of the scheduler runs the worker with the id
def runs (h : Hosting) (id : Uuid) : Bool :=
  h.queue.scheduler.tasks.any fun task => task.worker == id && !task.ended

-- whether task `t` runs a client connection's worker
def isClient (h : Hosting) (t : Nat) : Bool :=
  match h.queue.scheduler.tasks[t]? with
  | some task => (h.clients.lookup task.worker).isSome
  | none => false

def setServing (h : Hosting) (id : Uuid) (sv : Serving) : Hosting :=
  { h with clients := h.clients.map fun c => if c.1 = id then (id, sv) else c }

def setPhase (h : Hosting) (i : Nat) (p : RemovalPhase) : Hosting :=
  { h with removals := h.removals.modify i fun r => { r with phase := p } }

-- the removal `i` stops the next of the clients `ids`, or returns
def stopNext (h : Hosting) (i : Nat) : List Uuid → Hosting
  | [] => h.setPhase i .returned
  | id :: rest => (h.schedule (.stop id)).setPhase i (.stoppingClient id h.nextCall rest)

-- the client's task pushes its own id and its run returns
def leave (h : Hosting) (id : Uuid) (t : Nat) : Hosting :=
  { h.setServing id .closed with
    queue := (h.queue.step (.push { id, pusher := some t })).step (.scheduler (.exit t)) }

-- the ids of the clients of the input under `k` are pushed on the stop queue
def pushClients (h : Hosting) (k : PathKey) : Hosting :=
  { h with
    queue := (((h.tasks.registry.slot? k).map (·.outlets)).getD []).foldl
      (fun q o => q.step (.push { id := o.1 })) h.queue }

def withTasks (h : Hosting) (r : Except Fault Unit × Tasks) : Except Fault Unit × Hosting :=
  (r.1, { h with tasks := r.2 })

def step (h : Hosting) : HostingStep → Except Fault Unit × Hosting
  | .register d id =>
    if id ∈ h.issued then (.ok (), h)
    else
      match h.tasks.step host (.claim d) with
      | (.ok (), t) =>
        (.ok (), { h.schedule (.start id) with
                   tasks := t
                   starting := h.starting ++ [(d.key, h.nextCall)]
                   issued := h.issued ++ [id] })
      | (.error f, _) => (.error f, h)
  | .init c =>
    match h.queue.scheduler.calls[c]? with
    | some (.start w .initializing _) =>
      match h.starting.find? (·.2 == c) with
      | some (k, _) =>
        -- the registration's worker starts: a TCP input binds its route
        match h.tasks.step host (.start k w) with
        | (.ok (), t) => (.ok (), { h.schedule (.init c none) with tasks := t })
        | (.error f, t) =>
          (.error f, { h.schedule (.init c (some f)) with
                       tasks := t
                       starting := h.starting.filter (·.2 != c) })
      | none => (.ok (), h.schedule (.init c none))
    | _ => (.ok (), h)
  | .publish c =>
    match h.starting.find? (·.2 == c), h.queue.scheduler.calls[c]? with
    | some (k, _), some (.start _ (.returned none) _) =>
      ((h.tasks.step host (.publish k)).1,
        { h with
          tasks := (h.tasks.step host (.publish k)).2
          starting := h.starting.filter (·.2 != c) })
    | some (k, _), some (.start _ (.returned (some f)) _) =>
      (.error f, { h with
                   tasks := (h.tasks.step host (.abandon k)).2
                   starting := h.starting.filter (·.2 != c) })
    | _, _ => (.ok (), h)
  | .update d => h.withTasks (h.tasks.step host (.update d))
  | .dispatch k u => h.withTasks (h.tasks.step host (.dispatch k u))
  -- the loop of an input's worker goes on in the worker's task
  | .worker k e =>
    if (h.inputWorker? k).any h.runs then h.withTasks (h.tasks.step host (.worker k e)) else (.ok (), h)
  | .deregister path =>
    match h.tasks.registry.remove path with
    | .ok (s, _) =>
      (.ok (), { h.schedule (.stop s.worker.id) with
                 tasks := (h.tasks.step host (.deregister path)).2
                 removals := h.removals ++
                   [{ worker := s.worker.id, clients := s.outlets.map Prod.fst,
                      phase := .stoppingInput h.nextCall }] })
    | .error f => (.error f, h)
  | .removal i =>
    match h.removals[i]? with
    | some r =>
      match r.phase with
      | .stoppingInput c =>
        -- the input's worker has stopped: the slot's outlets are dropped with it
        if h.stopped c then
          (.ok (), ({ h with tasks := (h.tasks.step host (.drop r.worker)).2 }).stopNext i r.clients)
        else (.ok (), h)
      | .stoppingClient _ c rest => if h.stopped c then (.ok (), h.stopNext i rest) else (.ok (), h)
      | .returned => (.ok (), h)
    | none => (.ok (), h)
  | .accept id =>
    if id ∈ h.issued then (.ok (), h)
    else
      (.ok (), { h.schedule (.start id) with
                 clients := h.clients ++ [(id, .resolving)]
                 issued := h.issued ++ [id] })
  | .attach t k =>
    match h.running? t with
    | some (id, .resolving) =>
      match h.tasks.step host (.attach k id) with
      | (.ok (), t') => (.ok (), { h.setServing id (.attached k) with tasks := t' })
      | (.error f, _) => (.error f, h)
    | _ => (.ok (), h)
  | .finish t =>
    match h.running? t with
    | some (id, .attached k) =>
      (.ok (), { h.leave id t with tasks := (h.tasks.step host (.detach k id)).2 })
    | some (id, .resolving) => (.ok (), h.leave id t)
    | _ => (.ok (), h)
  | .dropConnections k =>
    if (h.inputWorker? k).any h.runs then
      (.ok (), h.pushClients k)
    else (.ok (), h)
  | .scheduler st =>
    match st with
    | .check _ | .lock _ | .insert _ | .take _ | .hook _ | .join _ | .stopAll => (.ok (), h.schedule st)
    -- a client's worker returns from its run only where the run ends
    | .exit t => if h.isClient t then (.ok (), h) else (.ok (), h.schedule st)
    | _ => (.ok (), h)
  | .receive => (.ok (), { h with queue := h.queue.step .receive })
  | .resume => (.ok (), { h with queue := h.queue.step .resume })
  | .quit => (.ok (), { h with queue := h.queue.step .quit })

-- `step` one kind of step at a time, so that a proof about one kind never unfolds the others

-- comparing the two matches on the claim must not unfold the claim itself
attribute [local irreducible] Tasks.step in
theorem step_register (h : Hosting) (d : InputDescriptor) (id : Uuid) :
    h.step host (.register d id) =
      if id ∈ h.issued then (.ok (), h)
      else
        match h.tasks.step host (.claim d) with
        | (.ok (), t) =>
          (.ok (), { h.schedule (.start id) with
                     tasks := t
                     starting := h.starting ++ [(d.key, h.nextCall)]
                     issued := h.issued ++ [id] })
        | (.error f, _) => (.error f, h) :=
  rfl

theorem step_init (h : Hosting) (c : Nat) :
    h.step host (.init c) =
      match h.queue.scheduler.calls[c]? with
      | some (.start w .initializing _) =>
        match h.starting.find? (·.2 == c) with
        | some (k, _) =>
          match h.tasks.step host (.start k w) with
          | (.ok (), t) => (.ok (), { h.schedule (.init c none) with tasks := t })
          | (.error f, t) =>
            (.error f, { h.schedule (.init c (some f)) with
                         tasks := t
                         starting := h.starting.filter (·.2 != c) })
        | none => (.ok (), h.schedule (.init c none))
      | _ => (.ok (), h) :=
  rfl

theorem step_publish (h : Hosting) (c : Nat) :
    h.step host (.publish c) =
      match h.starting.find? (·.2 == c), h.queue.scheduler.calls[c]? with
      | some (k, _), some (.start _ (.returned none) _) =>
        ((h.tasks.step host (.publish k)).1,
          { h with
            tasks := (h.tasks.step host (.publish k)).2
            starting := h.starting.filter (·.2 != c) })
      | some (k, _), some (.start _ (.returned (some f)) _) =>
        (.error f, { h with
                     tasks := (h.tasks.step host (.abandon k)).2
                     starting := h.starting.filter (·.2 != c) })
      | _, _ => (.ok (), h) :=
  rfl

theorem step_update (h : Hosting) (d : InputDescriptor) :
    h.step host (.update d) = h.withTasks (h.tasks.step host (.update d)) :=
  rfl

theorem step_dispatch (h : Hosting) (k : PathKey) (u : Octets) :
    h.step host (.dispatch k u) = h.withTasks (h.tasks.step host (.dispatch k u)) :=
  rfl

theorem step_worker (h : Hosting) (k : PathKey) (e : WorkerStep) :
    h.step host (.worker k e) =
      if (h.inputWorker? k).any h.runs then h.withTasks (h.tasks.step host (.worker k e))
      else (.ok (), h) :=
  rfl

theorem step_deregister (h : Hosting) (path : String) :
    h.step host (.deregister path) =
      match h.tasks.registry.remove path with
      | .ok (s, _) =>
        (.ok (), { h.schedule (.stop s.worker.id) with
                   tasks := (h.tasks.step host (.deregister path)).2
                   removals := h.removals ++
                     [{ worker := s.worker.id, clients := s.outlets.map Prod.fst,
                        phase := .stoppingInput h.nextCall }] })
      | .error f => (.error f, h) :=
  rfl

theorem step_removal (h : Hosting) (i : Nat) :
    h.step host (.removal i) =
      match h.removals[i]? with
      | some r =>
        match r.phase with
        | .stoppingInput c =>
          if h.stopped c then
            (.ok (), ({ h with tasks := (h.tasks.step host (.drop r.worker)).2 }).stopNext i r.clients)
          else (.ok (), h)
        | .stoppingClient _ c rest => if h.stopped c then (.ok (), h.stopNext i rest) else (.ok (), h)
        | .returned => (.ok (), h)
      | none => (.ok (), h) :=
  rfl

theorem step_accept (h : Hosting) (id : Uuid) :
    h.step host (.accept id) =
      if id ∈ h.issued then (.ok (), h)
      else
        (.ok (), { h.schedule (.start id) with
                   clients := h.clients ++ [(id, .resolving)]
                   issued := h.issued ++ [id] }) :=
  rfl

theorem step_attach (h : Hosting) (t : Nat) (k : PathKey) :
    h.step host (.attach t k) =
      match h.running? t with
      | some (id, .resolving) =>
        match h.tasks.step host (.attach k id) with
        | (.ok (), t') => (.ok (), { h.setServing id (.attached k) with tasks := t' })
        | (.error f, _) => (.error f, h)
      | _ => (.ok (), h) :=
  rfl

theorem step_finish (h : Hosting) (t : Nat) :
    h.step host (.finish t) =
      match h.running? t with
      | some (id, .attached k) =>
        (.ok (), { h.leave id t with tasks := (h.tasks.step host (.detach k id)).2 })
      | some (id, .resolving) => (.ok (), h.leave id t)
      | _ => (.ok (), h) :=
  rfl

theorem step_dropConnections (h : Hosting) (k : PathKey) :
    h.step host (.dropConnections k) =
      if (h.inputWorker? k).any h.runs then (.ok (), h.pushClients k) else (.ok (), h) :=
  rfl

theorem step_scheduler (h : Hosting) (st : SchedulerStep) :
    h.step host (.scheduler st) =
      match st with
      | .check _ | .lock _ | .insert _ | .take _ | .hook _ | .join _ | .stopAll => (.ok (), h.schedule st)
      | .exit t => if h.isClient t then (.ok (), h) else (.ok (), h.schedule st)
      | _ => (.ok (), h) :=
  rfl

theorem step_receive (h : Hosting) :
    h.step host .receive = (.ok (), { h with queue := h.queue.step .receive }) :=
  rfl

theorem step_resume (h : Hosting) :
    h.step host .resume = (.ok (), { h with queue := h.queue.step .resume }) :=
  rfl

theorem step_quit (h : Hosting) :
    h.step host .quit = (.ok (), { h with queue := h.queue.step .quit }) :=
  rfl

def run (h : Hosting) (steps : List HostingStep) : Hosting :=
  steps.foldl (fun h st => (h.step host st).2) h

end Hosting

end MediaRelay
