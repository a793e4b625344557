import MediaRelay.Registry.Clients

-- The relay serves the inputs of its table to HTTP clients. Inputs are registered, updated and
-- removed through it; once it is stopped, every input is stopped, the table is emptied, and every
-- later change to the table is refused as stopped.

namespace MediaRelay

structure Relay where
  registry : Registry := {}
  stopped : Bool := false
  -- the input workers created so far, which numbers the next one
  created : Nat := 0

namespace Relay

def checkRunning (s : Relay) : Except Fault Unit :=
  if s.stopped then .error .stopped else .ok ()

def register (host : Net.Host) (d : InputDescriptor) (s : Relay) : Except Fault Relay := do
  s.checkRunning
  return { s with registry := ← s.registry.register host (Uuid.ofNat s.created) d,
                  created := s.created + 1 }

def update (d : InputDescriptor) (s : Relay) : Except Fault Relay := do
  s.checkRunning
  return { s with registry := ← s.registry.update d }

def deregister (path : String) (s : Relay) : Except Fault Relay := do
  s.checkRunning
  return { s with registry := ← s.registry.deregister path }

def stop (s : Relay) : Relay :=
  { s with registry := s.registry.clear, stopped := true }

end Relay

end MediaRelay
