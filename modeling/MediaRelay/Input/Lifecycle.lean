import MediaRelay.Input.State

-- An input's state changes only through four operations: entering a phase, starting a session,
-- ending one, and stopping. This module runs lists of them and describes the result without the
-- state machine: the worker is stopped exactly when some operation stopped it; the sessions are the
-- session starts made before that; the last error is the latest one reported before that; and once
-- stopped, the phase, the session count and the last error never change again, while the peer and
-- the session start can only be cleared, and only by a later stop (`run_lifecycle`).

namespace MediaRelay

inductive InputOp
  | enter (p : InputPhase)
  | startSession (peer : Option Net.SocketAddr)
  | endSession (error : Option String)
  | stop

namespace InputOp

def apply : InputOp → InputState → InputState
  | enter p => InputState.enter p
  | startSession peer => InputState.startSession peer
  | endSession e => InputState.endSession e
  | stop => InputState.stop

def stops : InputOp → Bool
  | enter p => p == .stopped
  | stop => true
  | _ => false

def isStart : InputOp → Bool
  | startSession _ => true
  | _ => false

def reported : InputOp → Option String
  | endSession e => e
  | _ => none

def beforeStop (ops : List InputOp) : List InputOp :=
  ops.takeWhile fun op => !op.stops

def latestError (earlier : Option String) (ops : List InputOp) : Option String :=
  ops.foldl (fun acc op => op.reported <|> acc) earlier

end InputOp

def InputState.run (s : InputState) (ops : List InputOp) : InputState :=
  ops.foldl (fun s op => op.apply s) s

namespace InputState

@[simp]
theorem run_nil (s : InputState) : s.run [] = s := rfl

@[simp]
theorem run_cons (s : InputState) (op : InputOp) (ops : List InputOp) :
    s.run (op :: ops) = (op.apply s).run ops := rfl

-- An operation on a stopped state leaves it stopped with the same counts; only a stop changes it,
-- by clearing the peer and the session start.
theorem apply_of_stopped {s : InputState} (h : s.phase = .stopped) (op : InputOp) :
    (op.apply s).phase = .stopped ∧ (op.apply s).sessions = s.sessions ∧
      (op.apply s).lastError = s.lastError ∧
      ((op.apply s).peer = s.peer ∧ (op.apply s).sessionStarted = s.sessionStarted ∨
        (op.apply s).peer = none ∧ (op.apply s).sessionStarted = false ∧ op = .stop) := by
  cases op with
  | enter p => simp [InputOp.apply, enter, h]
  | startSession peer => simp [InputOp.apply, startSession, h]
  | endSession e => simp [InputOp.apply, endSession, h]
  | stop => simp [InputOp.apply, stop]

-- A run from a stopped state stays stopped with the same counts, and clears the peer or the session
-- start only if it stops the worker again.
theorem run_of_stopped {s : InputState} (h : s.phase = .stopped) (ops : List InputOp) :
    (s.run ops).phase = .stopped ∧ (s.run ops).sessions = s.sessions ∧
      (s.run ops).lastError = s.lastError ∧
      ((s.run ops).peer = s.peer ∧ (s.run ops).sessionStarted = s.sessionStarted ∨
        (s.run ops).peer = none ∧ (s.run ops).sessionStarted = false ∧ InputOp.stop ∈ ops) := by
  induction ops generalizing s with
  | nil => simp [h]
  | cons op ops ih =>
    have ⟨hp, hs, he, hc⟩ := apply_of_stopped h op
    have ⟨hp', hs', he', hc'⟩ := ih hp
    rw [run_cons]
    refine ⟨hp', hs'.trans hs, he'.trans he, ?_⟩
    rcases hc' with ⟨hpeer, hstart⟩ | ⟨hpeer, hstart, hmem⟩
    · rcases hc with ⟨hpeer₀, hstart₀⟩ | ⟨hpeer₀, hstart₀, hop⟩
      · exact Or.inl ⟨hpeer.trans hpeer₀, hstart.trans hstart₀⟩
      · subst hop
        exact Or.inr ⟨hpeer.trans hpeer₀, hstart.trans hstart₀, List.mem_cons_self⟩
    · exact Or.inr ⟨hpeer, hstart, List.mem_cons_of_mem _ hmem⟩

theorem apply_of_live {s : InputState} (h : s.phase ≠ .stopped) {op : InputOp}
    (hop : op.stops = false) :
    (op.apply s).phase ≠ .stopped ∧
      (op.apply s).sessions = s.sessions + (if op.isStart then 1 else 0) ∧
      (op.apply s).lastError = (op.reported <|> s.lastError) := by
  cases op with
  | enter p =>
    simp only [InputOp.stops, beq_eq_false_iff_ne] at hop
    simp [InputOp.apply, enter, h, hop, InputOp.isStart, InputOp.reported]
  | startSession peer => simp [InputOp.apply, startSession, h, InputOp.isStart, InputOp.reported]
  | endSession e => simp [InputOp.apply, endSession, h, InputOp.isStart, InputOp.reported]
  | stop => simp [InputOp.stops] at hop

theorem apply_of_stops {s : InputState} {op : InputOp} (hop : op.stops = true) :
    (op.apply s).phase = .stopped ∧ (op.apply s).sessions = s.sessions ∧
      (op.apply s).lastError = s.lastError := by
  cases op with
  | enter p =>
    simp only [InputOp.stops, beq_iff_eq] at hop
    subst hop
    by_cases h : s.phase = .stopped <;> simp [InputOp.apply, enter, h]
  | startSession peer => simp [InputOp.stops] at hop
  | endSession e => simp [InputOp.stops] at hop
  | stop => simp [InputOp.apply, stop]

-- A run from a live state: it is stopped exactly when an operation stopped it, and its counts are
-- those of the operations made before that.
theorem run_of_live {s : InputState} (h : s.phase ≠ .stopped) (ops : List InputOp) :
    ((s.run ops).phase = .stopped ↔ ops.any InputOp.stops) ∧
      (s.run ops).sessions = s.sessions + ((InputOp.beforeStop ops).filter InputOp.isStart).length ∧
      (s.run ops).lastError = InputOp.latestError s.lastError (InputOp.beforeStop ops) := by
  induction ops generalizing s with
  | nil => simp [h, InputOp.beforeStop, InputOp.latestError]
  | cons op ops ih =>
    rw [run_cons]
    cases hop : op.stops with
    | true =>
      have ⟨hp, hs, he⟩ := apply_of_stops (s := s) hop
      have ⟨hp', hs', he', _⟩ := run_of_stopped hp ops
      simp [InputOp.beforeStop, InputOp.latestError, hop, hp', hs', he', hs, he]
    | false =>
      have ⟨hp, hs, he⟩ := apply_of_live h hop
      have ⟨hp', hs', he'⟩ := ih hp
      refine ⟨by simp [hp', hop], ?_, ?_⟩
      · rw [hs', hs]
        cases hstart : op.isStart with
        | true => simp [InputOp.beforeStop, hop, hstart]; omega
        | false => simp [InputOp.beforeStop, hop, hstart]
      · rw [he', he]
        simp [InputOp.beforeStop, InputOp.latestError, hop]

-- The life of an input's state from a fresh one. After operations `ops`, the worker is stopped
-- exactly when one of them stopped it; its sessions are the session starts made before the first
-- stop, and its last error is the latest error reported before it. Once stopped, further operations
-- `rest` keep it stopped and keep the session count and the last error, and they change the peer
-- and the session start only by clearing both in a stop.
theorem run_lifecycle (ops rest : List InputOp) :
    ((({} : InputState).run ops).phase = .stopped ↔ ops.any InputOp.stops) ∧
      (({} : InputState).run ops).sessions =
        ((InputOp.beforeStop ops).filter InputOp.isStart).length ∧
      (({} : InputState).run ops).lastError = InputOp.latestError none (InputOp.beforeStop ops) ∧
      ((({} : InputState).run ops).phase = .stopped →
        let s := ({} : InputState).run ops
        (s.run rest).phase = .stopped ∧ (s.run rest).sessions = s.sessions ∧
          (s.run rest).lastError = s.lastError ∧
          ((s.run rest).peer = s.peer ∧ (s.run rest).sessionStarted = s.sessionStarted ∨
            (s.run rest).peer = none ∧ (s.run rest).sessionStarted = false ∧
              InputOp.stop ∈ rest)) := by
  have ⟨hp, hs, he⟩ := run_of_live (s := {}) (by decide) ops
  refine ⟨hp, by simpa using hs, he, fun hstop => run_of_stopped hstop rest⟩

theorem run_lifecycle_start_stop :
    (({} : InputState).run [.startSession none, .stop]).phase = .stopped ∧
      ((({} : InputState).run [.startSession none, .stop]).run [.enter .accepting]).phase =
        .stopped ∧
      ((({} : InputState).run [.startSession none, .stop]).run [.enter .accepting]).sessions =
        1 :=
  have h := run_lifecycle [.startSession none, .stop] [.enter .accepting]
  have hstop : (({} : InputState).run [.startSession none, .stop]).phase = .stopped := by decide
  ⟨hstop, (h.2.2.2 hstop).1, (h.2.2.2 hstop).2.1.trans h.2.1⟩

end InputState

end MediaRelay
