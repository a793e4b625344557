import Mathlib
import MediaRelay.Media.Reader

-- What a request made of a reader reports follows from what the framer's step does: a unit or
-- a fault, with the published header and broken count of the state after it. These lemmas let
-- runs of requests (`drain`, `runSteps`) be taken apart one request at a time.

namespace MediaRelay

namespace Reader

variable {σ : Type} [ByteSource σ] {k : MediaKind} {r r' : Reader σ k}

theorem step_next_of_ok {u : Octets} (h : nextUnit k r = .ok u r') :
    step k .next r = .ok (.unit u) r' := by
  simp [step, bind, EStateM.bind, h, pure, EStateM.pure]

theorem step_next_of_error {e : Fault} (h : nextUnit k r = .error e r') :
    step k .next r = .error e r' := by
  simp [step, bind, EStateM.bind, h]

theorem step_poll_of_ok (h : poll k r = .ok () r') : step k .poll r = .ok .ready r' := by
  simp [step, bind, EStateM.bind, h, pure, EStateM.pure]

theorem report_of_ok {st : Step} {o : Outcome} (h : step k st r = .ok o r') :
    report k st r = (⟨.ok o, r'.header, r'.broken⟩, r') := by
  simp [report, h]

theorem report_of_error {st : Step} {e : Fault} (h : step k st r = .error e r') :
    report k st r = (⟨.error e, r'.header, r'.broken⟩, r') := by
  simp [report, h]

-- The end of the stream ends a drain.
theorem drain_of_nil {limit : Nat} (h : nextUnit k r = .ok [] r') :
    drain k (limit + 1) r = [⟨.ok (.unit []), r'.header, r'.broken⟩] := by
  simp [drain, report_of_ok (step_next_of_ok h)]

-- A unit is reported and the drain goes on.
theorem drain_of_ne_nil {limit : Nat} {u : Octets} (hu : u ≠ []) (h : nextUnit k r = .ok u r') :
    drain k (limit + 1) r = ⟨.ok (.unit u), r'.header, r'.broken⟩ :: drain k limit r' := by
  cases u with
  | nil => exact absurd rfl hu
  | cons b bs => simp [drain, report_of_ok (step_next_of_ok h)]

-- A fault ends a drain.
theorem drain_of_error {limit : Nat} {e : Fault} (h : nextUnit k r = .error e r') :
    drain k (limit + 1) r = [⟨.error e, r'.header, r'.broken⟩] := by
  simp [drain, report_of_error (step_next_of_error h)]

-- Two readers whose next unit comes out the same drain alike.
theorem drain_congr {limit : Nat} (h : nextUnit k r = nextUnit k r') :
    drain k limit r = drain k limit r' := by
  cases limit with
  | zero => rfl
  | succ limit => simp [drain, report, step, bind, EStateM.bind, h]

-- The last report of a run is its first, or the last of the rest.
theorem last_outcome_cons {x : Report} {l : List Report} {o : Except Fault Outcome}
    (h : (x :: l).getLast?.map (·.outcome) = some o) :
    (l = [] ∧ x.outcome = o) ∨ l.getLast?.map (·.outcome) = some o := by
  cases l with
  | nil =>
    simp at h
    exact .inl ⟨rfl, h⟩
  | cons y l =>
    rw [List.getLast?_cons_cons] at h
    exact .inr h

theorem runSteps_cons {st : Step} {rest : List Step} :
    runSteps k (st :: rest) r = (report k st r).1 :: runSteps k rest (report k st r).2 :=
  rfl

end Reader

end MediaRelay
