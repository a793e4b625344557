import MediaRelay.Octets

-- Every client attached to an input has a private queue of units. The sending side offers units to
-- it and keeps count of the bytes buffered in it, that is queued and not yet written to the client,
-- and of the bytes sent. A unit is refused, and the queue marked overflowed for good, when the
-- bytes buffered already exceed the cap at the moment of the offer; a slow client so loses its
-- stream instead of holding the input back. An offer to a queue whose client has gone away is
-- discarded.
--
-- The main statement: an overflowed queue refuses every later offer (`offer_of_overflowed`).

namespace MediaRelay

inductive Offer
  | queued
  | overflow
  | closed
deriving DecidableEq, Repr

structure Queue where
  items : List Octets := []
  buffered : Nat := 0
  sent : Nat := 0
  overflowed : Bool := false
  senderOpen : Bool := true
  receiverOpen : Bool := true
deriving DecidableEq, Repr

namespace Queue

-- Offers a unit under a cap on the bytes buffered; no cap when `cap` is `none`.
def offer (unit : Octets) (cap : Option Nat) (q : Queue) : Offer × Queue :=
  if q.overflowed then (.overflow, q)
  else if cap.any (· < q.buffered) then (.overflow, { q with overflowed := true })
  else if !q.receiverOpen then (.closed, q)
  else (.queued, { q with items := q.items ++ [unit], buffered := q.buffered + unit.length })

def takeAll (q : Queue) : List Octets × Queue :=
  let n := q.items.foldr (fun u acc => u.length + acc) 0
  (q.items, { q with items := [], buffered := q.buffered - n, sent := q.sent + n })

def take (q : Queue) : Option (Octets × Queue) :=
  match q.items with
  | [] => none
  | u :: rest => some (u, { q with items := rest })

def written (n : Nat) (q : Queue) : Queue :=
  { q with buffered := q.buffered - n, sent := q.sent + n }

def closeSender (q : Queue) : Queue :=
  { q with senderOpen := false }

def closeReceiver (q : Queue) : Queue :=
  { q with receiverOpen := false }

end Queue

def Octets.total (units : List Octets) : Nat :=
  units.foldr (fun u acc => u.length + acc) 0

-- What happens to a queue: the sending side offers a unit under a cap, the client takes the next
-- unit, the client reports the oldest unit it took and has not reported yet as written, or one side
-- lets the queue go.
inductive QueueEvent
  | offer (unit : Octets) (cap : Option Nat)
  | take
  | written
  | closeSender
  | closeReceiver

-- A client's queue with the units the client took from it and has not yet reported written: the
-- client's connection takes a unit, writes it, and only then reports it.
structure Delivery where
  queue : Queue
  inHand : List Octets := []

namespace Delivery

def step (s : Delivery) : QueueEvent → Delivery
  | .offer unit cap => { s with queue := (s.queue.offer unit cap).2 }
  | .take =>
    match s.queue.take with
    | some (u, q) => { queue := q, inHand := s.inHand ++ [u] }
    | none => s
  | .written =>
    match s.inHand with
    | u :: rest => { queue := s.queue.written u.length, inHand := rest }
    | [] => s
  | .closeSender => { s with queue := s.queue.closeSender }
  | .closeReceiver => { s with queue := s.queue.closeReceiver }

def run (s : Delivery) (events : List QueueEvent) : Delivery :=
  events.foldl step s

def answers (s : Delivery) : List QueueEvent → List Offer
  | [] => []
  | e :: rest =>
    match e with
    | .offer unit cap => (s.queue.offer unit cap).1 :: (s.step e).answers rest
    | _ => (s.step e).answers rest

end Delivery

namespace Queue

theorem offer_of_overflowed {q : Queue} (h : q.overflowed = true) (unit : Octets)
    (cap : Option Nat) : q.offer unit cap = (.overflow, q) := by
  simp [offer, h]

end Queue

end MediaRelay
