
-- A UDP input holds its socket only while clients want its stream. The activation gate counts the
-- clients attached and records whether the input is active, that is holds its socket. The input
-- binds once the count is positive and then activates the gate; it may deactivate, and release the
-- socket, only when the count is zero. Closing below zero leaves the count at zero.

namespace MediaRelay

structure Gate where
  count : Nat := 0
  active : Bool := false
deriving DecidableEq, Repr

namespace Gate

def addClient (g : Gate) : Nat × Gate :=
  (g.count + 1, { g with count := g.count + 1 })

def removeClient (g : Gate) : Nat × Gate :=
  (g.count - 1, { g with count := g.count - 1 })

def isOpen (g : Gate) : Bool :=
  0 < g.count

def activate (g : Gate) : Gate :=
  { g with active := true }

-- The input gives its socket up, when no client is attached; tells whether it may.
def deactivate (g : Gate) : Bool × Gate :=
  if 0 < g.count then (false, g) else (true, { g with active := false })

def reset (g : Gate) : Gate :=
  { g with active := false }

theorem deactivate_fst (g : Gate) : (g.deactivate).1 = decide (g.count = 0) := by
  unfold deactivate
  split <;> simp <;> omega

end Gate

end MediaRelay
