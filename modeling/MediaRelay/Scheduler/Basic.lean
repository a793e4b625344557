import MediaRelay.Fault

-- Every long-running task of the relay is a worker hosted by the scheduler: a map from worker ids
-- to the task spawned to run each worker. Several calls of the scheduler run at once, each split at
-- its await points, and the map is behind a lock. `start` asks whether the id is hosted, runs the
-- worker's initialisation with the map free, then locks the map, asks again, spawns the task and
-- inserts its entry before letting the map go; `stop id` takes the id's entry out under the lock,
-- then calls the worker's stop hook and awaits its task; `stop_all` does so for every entry.

namespace MediaRelay

structure Task where
  worker : Uuid
  spawner : Nat
  ended : Bool := false
  hooks : Nat := 0
  joins : Nat := 0
deriving DecidableEq

-- An entry of the map: a worker id and the number of the task spawned for it.
structure Entry where
  id : Uuid
  task : Nat
deriving DecidableEq

-- An entry taken out of the map by a call that now finishes it, and whether that call has called
-- the worker's stop hook yet.
structure Held where
  call : Nat
  entry : Entry
  hooked : Bool := false
deriving DecidableEq

inductive StartPhase
  | checking
  | initializing
  | locking
  | spawned
  | returned (fault? : Option Fault)
deriving DecidableEq

inductive StopPhase
  | taking
  | finishing
  | returned
deriving DecidableEq

inductive Call
  | start (worker : Uuid) (phase : StartPhase) (inits : Nat)
  | stop (id : Uuid) (phase : StopPhase)
  | stopAll (phase : StopPhase)
deriving DecidableEq

structure Scheduler where
  hosted : List Entry := []
  -- The call of `start` that holds the map locked, with the entry it is about to insert.
  lock : Option (Nat × Entry) := none
  held : List Held := []
  tasks : List Task := []
  calls : List Call := []

inductive SchedulerStep
  | start (worker : Uuid)
  | stop (id : Uuid)
  | stopAll
  | check (c : Nat)
  | init (c : Nat) (fault? : Option Fault)
  | lock (c : Nat)
  | insert (c : Nat)
  | take (c : Nat)
  | hook (c : Nat)
  | join (c : Nat)
  | exit (t : Nat)

namespace Call

def stopPhase? : Call → Option StopPhase
  | .stop _ p => some p
  | .stopAll p => some p
  | .start .. => none

def withPhase : Call → StopPhase → Call
  | .stop id _, p => .stop id p
  | .stopAll _, p => .stopAll p
  | k, _ => k

end Call

namespace Scheduler

def hosts (s : Scheduler) (id : Uuid) : Bool :=
  s.hosted.any (·.id == id)

def current? (s : Scheduler) (c : Nat) : Option Held :=
  s.held.find? (·.call == c)

def begin (s : Scheduler) (k : Call) : Scheduler :=
  { s with calls := s.calls ++ [k] }

def setCall (s : Scheduler) (c : Nat) (k : Call) : Scheduler :=
  { s with calls := s.calls.set c k }

def modifyTask (s : Scheduler) (t : Nat) (f : Task → Task) : Scheduler :=
  { s with tasks := s.tasks.modify t f }

def check (s : Scheduler) (c : Nat) : Scheduler :=
  match s.calls[c]?, s.lock with
  | some (.start w .checking n), none =>
    if s.hosts w then s.setCall c (.start w (.returned (some (.alreadyStarted w))) n)
    else s.setCall c (.start w .initializing (n + 1))
  | _, _ => s

def init (s : Scheduler) (c : Nat) (fault? : Option Fault) : Scheduler :=
  match s.calls[c]? with
  | some (.start w .initializing n) =>
    match fault? with
    | some f => s.setCall c (.start w (.returned (some f)) n)
    | none => s.setCall c (.start w .locking n)
  | _ => s

-- The second question of `start`, with the map locked; the task is spawned with the lock held.
def lockMap (s : Scheduler) (c : Nat) : Scheduler :=
  match s.calls[c]?, s.lock with
  | some (.start w .locking n), none =>
    if s.hosts w then s.setCall c (.start w (.returned (some (.alreadyStarted w))) n)
    else
      { s with lock := some (c, ⟨w, s.tasks.length⟩),
               tasks := s.tasks ++ [{ worker := w, spawner := c }],
               calls := s.calls.set c (.start w .spawned n) }
  | _, _ => s

-- The entry goes into the map, replacing any of the same id, and the map is let go.
def insert (s : Scheduler) (c : Nat) : Scheduler :=
  match s.calls[c]?, s.lock with
  | some (.start w .spawned n), some (c', e) =>
    if c' = c then
      { s with hosted := s.hosted.filter (·.id != e.id) ++ [e], lock := none,
               calls := s.calls.set c (.start w (.returned none) n) }
    else s
  | _, _ => s

-- A stopping call takes its entries out of the map: the entry of its id, or every entry.
def take (s : Scheduler) (c : Nat) : Scheduler :=
  match s.calls[c]?, s.lock with
  | some (.stop id .taking), none =>
    match s.hosted.find? (·.id == id) with
    | some e =>
      { s with hosted := s.hosted.filter (·.id != id), held := s.held ++ [{ call := c, entry := e }],
               calls := s.calls.set c (.stop id .finishing) }
    | none => s.setCall c (.stop id .returned)
  | some (.stopAll .taking), none =>
    if s.hosted.isEmpty then s.setCall c (.stopAll .returned)
    else
      { s with hosted := [], held := s.held ++ s.hosted.map ({ call := c, entry := · }),
               calls := s.calls.set c (.stopAll .finishing) }
  | _, _ => s

def hook (s : Scheduler) (c : Nat) : Scheduler :=
  match s.calls[c]?.bind Call.stopPhase?, s.current? c with
  | some .finishing, some h =>
    if h.hooked then s
    else
      { s with held := s.held.map (fun x => if x = h then { x with hooked := true } else x),
               tasks := s.tasks.modify h.entry.task fun t => { t with hooks := t.hooks + 1 } }
  | _, _ => s

-- The await of the task whose stop hook was called completes, once its worker has returned; the
-- call then goes on with its next entry, or returns.
def join (s : Scheduler) (c : Nat) : Scheduler :=
  match s.calls[c]?, s.current? c with
  | some k, some h =>
    match k.stopPhase?, s.tasks[h.entry.task]? with
    | some .finishing, some t =>
      if h.hooked && t.ended then
        let held := s.held.erase h
        { s with held := held,
                 tasks := s.tasks.modify h.entry.task fun t => { t with joins := t.joins + 1 },
                 calls := if held.any (·.call == c) then s.calls
                          else s.calls.set c (k.withPhase .returned) }
      else s
    | _, _ => s
  | _, _ => s

def exit (s : Scheduler) (t : Nat) : Scheduler :=
  s.modifyTask t fun t => { t with ended := true }

-- Carries out one step; a step of a call that is not at that point, or that waits for the map while
-- another call holds it, does nothing.
def step (s : Scheduler) : SchedulerStep → Scheduler
  | .start w => s.begin (.start w .checking 0)
  | .stop id => s.begin (.stop id .taking)
  | .stopAll => s.begin (.stopAll .taking)
  | .check c => s.check c
  | .init c f => s.init c f
  | .lock c => s.lockMap c
  | .insert c => s.insert c
  | .take c => s.take c
  | .hook c => s.hook c
  | .join c => s.join c
  | .exit t => s.exit t

def run (s : Scheduler) (steps : List SchedulerStep) : Scheduler :=
  steps.foldl step s

end Scheduler

end MediaRelay
