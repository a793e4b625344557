import MediaRelay.Input.Worker
import MediaRelay.Registry.Queue

-- The relay keeps one slot per published input, under the input's key: the input's worker and the
-- outlets of the clients attached to it. An outlet ties a client's connection id to the client's
-- private queue; queues live in a store of their own, since a client keeps reading its queue after
-- its outlet is gone, up to the end of what was queued. Every operation here is one locked section
-- of the table; what runs with the table free (a worker starting, the stops after a removal) is
-- the business of the tasks that call them.

namespace MediaRelay

abbrev QueueId := Nat

structure Slot where
  key : PathKey
  worker : InputWorker
  -- the clients attached, by connection id, each with its queue
  outlets : List (Uuid × QueueId) := []
deriving DecidableEq

namespace Slot

-- the queue a client attaching to a slot starts with: the input's current header, if it has one,
-- queued whatever the cap
def welcome (s : Slot) : Queue :=
  if s.worker.session.header.isEmpty then {} else (Queue.offer s.worker.session.header none {}).2

-- the client's outlet takes the place of its earlier outlet there, if any
def withOutlet (s : Slot) (id : Uuid) (q : QueueId) : List (Uuid × QueueId) :=
  (s.outlets.filter (·.1 != id)) ++ [(id, q)]

def attached (s : Slot) (id : Uuid) (q : QueueId) : Slot :=
  { s with outlets := s.withOutlet id q, worker := s.worker.connectionAdded }

def detached (s : Slot) (id : Uuid) : Slot :=
  { s with outlets := s.outlets.filter (·.1 != id), worker := s.worker.connectionRemoved }

end Slot

structure InputStats where
  path : String
  uuid : Uuid
  name : String
  media : MediaKind
  protocol : Protocol
  broken : Nat
  connections : Nat
deriving DecidableEq

structure ConnectionStats where
  id : Uuid
  path : String
  sent : Nat
  buffered : Nat
deriving DecidableEq

structure Registry where
  slots : List Slot := []
  -- the keys claimed by registrations whose input is still starting
  reserved : List PathKey := []
  queues : Array Queue := #[]
  -- the cap on the bytes buffered for a client, past which it receives no more units
  maxBuffer : Nat := 8388608
  -- milliseconds a UDP input pauses after a failed bind, and that an attachment waits for a bind
  waitInterval : Nat := 50
  bindTimeout : Nat := 2000
deriving Inhabited

namespace Registry

def slot? (r : Registry) (k : PathKey) : Option Slot :=
  r.slots.find? (·.key == k)

def keys (r : Registry) : List PathKey :=
  r.slots.map (·.key)

def setSlot (r : Registry) (k : PathKey) (s : Slot) : Registry :=
  { r with slots := r.slots.map fun s' => if s'.key == k then s else s' }

def queue (r : Registry) (q : QueueId) : Queue :=
  r.queues.getD q {}

def modifyQueue (r : Registry) (q : QueueId) (f : Queue → Queue) : Registry :=
  { r with queues := r.queues.modify q f }

-- the sockets held by the published inputs of a protocol, other than the one under key `k`
def heldSockets (r : Registry) (p : Protocol) (k : PathKey) : List Net.SocketAddr :=
  r.slots.filterMap fun s =>
    if s.key != k && s.worker.protocol == p then s.worker.binding.local? else none

-- claims a key for an input being started: refused when an input is published under it or
-- another registration claims it
def reserve (k : PathKey) (r : Registry) : Except Fault Registry :=
  if (r.slot? k).isSome || r.reserved.contains k then .error (.registry (.duplicatePath k))
  else .ok { r with reserved := r.reserved ++ [k] }

def release (k : PathKey) (r : Registry) : Registry :=
  { r with reserved := r.reserved.filter (· != k) }

def startWorker (host : Net.Host) (id : Uuid) (d : InputDescriptor) (held : List Net.SocketAddr) :
    Except Fault InputWorker :=
  (InputWorker.create id d).init host held

-- publishes a slot under its key, in place of the slot published there, if any
def insert (s : Slot) (r : Registry) : Registry :=
  if (r.slot? s.key).isSome then r.setSlot s.key s else { r with slots := r.slots ++ [s] }

-- a registration run to its end with nothing else in between: claims the key, starts the worker,
-- publishes the input and lets the claim go; on a failure the claim is let go
def register (host : Net.Host) (id : Uuid) (d : InputDescriptor) (r : Registry) :
    Except Fault Registry := do
  d.route.validate
  let r ← r.reserve d.key
  let w ← startWorker host id d (r.heldSockets d.route.protocol d.key)
  return (r.insert { key := d.key, worker := w }).release d.key

-- moves the input whose route has the descriptor's route identifier to the descriptor, looking
-- for it among the slots in the order `order`
def updateIn (order : List Slot) (d : InputDescriptor) (r : Registry) : Except Fault Registry := do
  d.route.validate
  let k := d.key
  let some s := order.find? (·.worker.descriptor.route.uuid == d.route.uuid)
    | throw (.registry (.inputNotFound k))
  if k != s.key && ((r.slot? k).isSome || r.reserved.contains k) then
    throw (.registry (.duplicatePath k))
  let w ← s.worker.update d
  return r.setSlot s.key { s with key := k, worker := w }

def update (d : InputDescriptor) (r : Registry) : Except Fault Registry :=
  r.updateIn r.slots d

-- dropping outlets closes the sending side of their queues
def closeOutlets (outlets : List (Uuid × QueueId)) (r : Registry) : Registry :=
  outlets.foldl (fun r o => r.modifyQueue o.2 Queue.closeSender) r

-- takes the slot published under a path out of the table
def remove (path : String) (r : Registry) : Except Fault (Slot × Registry) :=
  let k := PathKey.ofPath path
  match r.slot? k with
  | none => .error (.registry (.inputNotFound k))
  | some s => .ok (s, { r with slots := r.slots.filter (·.key != k) })

-- a removal run to its end: the slot taken out, then its outlets dropped
def deregister (path : String) (r : Registry) : Except Fault Registry :=
  (r.remove path).map fun (s, r) => closeOutlets s.outlets r

-- offers a unit to the queue of one outlet under the buffer cap, counting it if queued
def offerAt (unit : Octets) (acc : Nat × Registry) (o : Uuid × QueueId) : Nat × Registry :=
  match (acc.2.queue o.2).offer unit (some acc.2.maxBuffer) with
  | (.queued, q) => (acc.1 + 1, acc.2.modifyQueue o.2 fun _ => q)
  | (_, q) => (acc.1, acc.2.modifyQueue o.2 fun _ => q)

def dispatch (k : PathKey) (unit : Octets) (r : Registry) : Nat × Registry :=
  match r.slot? k with
  | none => (0, r)
  | some s => s.outlets.foldl (offerAt unit) (0, r)

-- a client attaching to the slot `s` gets a fresh queue, starting with the input's header, and
-- the client's earlier queue there, if any, is closed
def openQueue (s : Slot) (id : Uuid) (r : Registry) : Registry :=
  let r' := { r with queues := r.queues.push s.welcome }
  match s.outlets.lookup id with
  | some old => r'.modifyQueue old Queue.closeSender
  | none => r'

-- attaches a client to the input under a key: a fresh queue, holding the input's current header
-- if it has one, replaces the client's earlier outlet there, and a UDP input's gate opens once
-- more; answers the queue and the input's media kind
def attach (k : PathKey) (id : Uuid) (r : Registry) :
    Except Fault ((QueueId × MediaKind) × Registry) :=
  match r.slot? k with
  | none => .error (.registry (.inputNotFound k))
  | some s =>
    .ok ((r.queues.size, s.worker.descriptor.media),
      (r.openQueue s id).setSlot k (s.attached id r.queues.size))

-- detaches a client from the input under a key, closing the sending side of its queue, and a UDP
-- input's gate closes once
def detach (k : PathKey) (id : Uuid) (r : Registry) : Registry :=
  match r.slot? k with
  | none => r
  | some s =>
    match s.outlets.lookup id with
    | none => r
    | some q => (r.modifyQueue q Queue.closeSender).setSlot k (s.detached id)

-- the worker of the input under a key resumes its loop, next to the sockets of its protocol that
-- `held` says the other inputs hold
def stepWorker (host : Net.Host) (held : Protocol → List Net.SocketAddr) (k : PathKey)
    (e : WorkerStep) (r : Registry) : Registry :=
  match r.slot? k with
  | none => r
  | some s => r.setSlot k { s with worker := s.worker.step host (held s.worker.protocol) e }

-- the clients of the input under a key, which are asked to stop
def dropConnections (k : PathKey) (r : Registry) : Nat :=
  ((r.slot? k).map (·.outlets.length)).getD 0

def resolve (path : String) (r : Registry) : Option MediaKind :=
  (r.slot? (PathKey.ofPath path)).map (·.worker.descriptor.media)

def input? (path : String) (r : Registry) : Option InputWorker :=
  (r.slot? (PathKey.ofPath path)).map (·.worker)

def connectionCount (path : String) (r : Registry) : Nat :=
  ((r.slot? (PathKey.ofPath path)).map (·.outlets.length)).getD 0

def paths (r : Registry) : List String :=
  (r.slots.map (·.worker.descriptor.path)).mergeSort (· ≤ ·)

def Slot.stats (s : Slot) : InputStats where
  path := s.worker.descriptor.path
  uuid := s.worker.descriptor.uuid
  name := s.worker.descriptor.name
  media := s.worker.descriptor.media
  protocol := s.worker.descriptor.route.protocol
  broken := s.worker.session.broken
  connections := s.outlets.length

def snapshot (r : Registry) : List InputStats :=
  (r.slots.map Slot.stats).mergeSort (fun a b => a.path ≤ b.path)

def inputStats (path : String) (r : Registry) : Option InputStats :=
  (r.slot? (PathKey.ofPath path)).map Slot.stats

def connectionStats (path : String) (r : Registry) : List ConnectionStats :=
  let k := PathKey.ofPath path
  match r.slot? k with
  | none => []
  | some s =>
    let stats := s.outlets.map fun (id, q) =>
      let queue := r.queues.getD q {}
      { id, path := k.display, sent := queue.sent, buffered := queue.buffered : ConnectionStats }
    stats.mergeSort fun a b => a.id.toNat ≤ b.id.toNat

-- empties the table and drops every outlet
def clear (r : Registry) : Registry :=
  r.slots.foldl (fun r s => closeOutlets s.outlets r) { r with slots := [] }

end Registry

end MediaRelay
