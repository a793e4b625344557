import MediaRelay.Scheduler.Basic

-- A worker that wants to end (its client gone, a hang timeout, a slow consumer) cannot stop itself
-- through the scheduler, since `stop` awaits the worker's own task. It pushes its id on an
-- unbounded queue instead, and one consumer, itself a worker hosted by the scheduler, takes the ids
-- off the queue in order and calls `stop` for each, awaiting that call before it takes the next id.
-- The consumer skips its own id. Once the consumer has ended the queue is closed, and a push is
-- dropped.

namespace MediaRelay

-- A request on the stop queue: the id to stop, and the task that pushed it from inside its worker's
-- run, when the request is a worker's own.
structure StopRequest where
  id : Uuid
  pusher : Option Nat := none
deriving DecidableEq

inductive ConsumerPhase
  | receiving
  | stopping (c : Nat)
  | exited
deriving DecidableEq

structure StopQueue where
  scheduler : Scheduler
  consumerId : Uuid
  queue : List StopRequest := []
  consumer : ConsumerPhase := .receiving
  pushed : List StopRequest := []
  received : List StopRequest := []

inductive QueueStep
  | scheduler (st : SchedulerStep)
  -- A request is pushed; one marked with a pusher is pushed by that task, for its own worker, from
  -- inside the worker's run.
  | push (r : StopRequest)
  | receive
  | resume
  | quit

namespace StopQueue

def fresh (consumerId : Uuid) : StopQueue :=
  { scheduler := {}, consumerId := consumerId }

-- Whether a request may be pushed: one marked with a pusher only from inside the run of that task's
-- worker, whose id it carries.
def canPush (q : StopQueue) (r : StopRequest) : Bool :=
  match r.pusher with
  | none => true
  | some t =>
    match q.scheduler.tasks[t]? with
    | some task => task.worker == r.id && !task.ended
    | none => false

def push (q : StopQueue) (r : StopRequest) : StopQueue :=
  if q.consumer ≠ .exited ∧ q.canPush r then
    { q with queue := q.queue ++ [r], pushed := q.pushed ++ [r] }
  else q

-- The consumer takes a request: it skips its own id, and for any other begins a `stop`.
def receive (q : StopQueue) : StopQueue :=
  match q.consumer, q.queue with
  | .receiving, r :: rest =>
    if r.id = q.consumerId then { q with queue := rest, received := q.received ++ [r] }
    else
      { q with queue := rest, received := q.received ++ [r],
               scheduler := q.scheduler.step (.stop r.id),
               consumer := .stopping q.scheduler.calls.length }
  | _, _ => q

def resume (q : StopQueue) : StopQueue :=
  match q.consumer with
  | .stopping c =>
    match q.scheduler.calls[c]? with
    | some (.stop _ .returned) => { q with consumer := .receiving }
    | _ => q
  | _ => q

-- The consumer's run returns; it only looks at its cancellation while waiting for a request.
def quit (q : StopQueue) : StopQueue :=
  match q.consumer with
  | .receiving => { q with consumer := .exited }
  | _ => q

def step (q : StopQueue) : QueueStep → StopQueue
  | .scheduler st => { q with scheduler := q.scheduler.step st }
  | .push r => q.push r
  | .receive => q.receive
  | .resume => q.resume
  | .quit => q.quit

def run (q : StopQueue) (steps : List QueueStep) : StopQueue :=
  steps.foldl step q

end StopQueue

end MediaRelay
