import MediaRelay.Net.SocketAddr

-- An input worker moves through phases: it starts in `init`, waits for a client or binds its
-- socket, accepts or reads a session from its source, tears the session down, and finally stops.
-- The state also counts the sessions started, remembers the peer and whether a session start time
-- is recorded, and keeps the error that ended the last session that ended with one.

namespace MediaRelay

inductive InputPhase
  | init
  | waiting
  | binding
  | accepting
  | reading
  | teardown
  | stopped
deriving DecidableEq, Repr, Inhabited

def InputPhase.name : InputPhase → String
  | .init => "init"
  | .waiting => "waiting"
  | .binding => "binding"
  | .accepting => "accepting"
  | .reading => "reading"
  | .teardown => "teardown"
  | .stopped => "stopped"

structure InputState where
  phase : InputPhase := .init
  sessions : Nat := 0
  peer : Option Net.SocketAddr := none
  sessionStarted : Bool := false
  lastError : Option String := none
deriving DecidableEq, Repr

namespace InputState

def enter (p : InputPhase) (s : InputState) : InputState :=
  if s.phase = .stopped then s else { s with phase := p }

def startSession (peer : Option Net.SocketAddr) (s : InputState) : InputState :=
  if s.phase = .stopped then s
  else { s with phase := .reading, sessions := s.sessions + 1, peer, sessionStarted := true }

def endSession (error : Option String) (s : InputState) : InputState :=
  if s.phase = .stopped then s
  else
    { s with phase := .teardown, peer := none, sessionStarted := false,
             lastError := error <|> s.lastError }

def stop (s : InputState) : InputState :=
  { s with phase := .stopped, peer := none, sessionStarted := false }

def isReading (s : InputState) : Bool :=
  s.phase == .reading

theorem phase_enter_of_stopped {s : InputState} (h : s.phase = .stopped) (p : InputPhase) :
    (s.enter p).phase = .stopped := by
  simp [enter, h]

end InputState

end MediaRelay
