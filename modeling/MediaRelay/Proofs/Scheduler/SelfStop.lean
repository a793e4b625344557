import Mathlib
import MediaRelay.Scheduler.StopQueue
import MediaRelay.Proofs.Scheduler.Lifecycle

-- A worker that wants to end pushes its own id on the stop queue, and the queue's consumer calls
-- `stop` for it. The consumer takes the requests in the order they were pushed, and the call it
-- awaits never holds a task of its own worker, so it never awaits itself. A task pushes only while
-- its worker runs, and it was spawned with its entry under the lock, so at the push its entry is in
-- the map, about to be, or already in the hands of another stop. When the consumer's `stop` comes
-- to its take, the entry is still in the map unless a take of another call took it out, before the
-- push or after it; a worker whose entry `stop_all` already took, and which pushes its id on its
-- way out, leaves the consumer's `stop` nothing to find.

namespace MediaRelay

namespace Call

-- How a call moves at a step: its kind and subject stay, a start once spawned stays spawned and
-- a start that returned stays returned, and a stopping call, once past its take, never takes
-- again.
def Advance : Call → Call → Prop
  | .start w p _, .start w' p' _ =>
    w' = w ∧ (p.launched = true → p'.launched = true) ∧ ∀ f, p = .returned f → p' = .returned f
  | .stop id p, .stop id' p' => id' = id ∧ (p' = .taking → p = .taking)
  | .stopAll p, .stopAll p' => p' = .taking → p = .taking
  | _, _ => False

theorem advance_withPhase {k : Call} (hk : k.stopPhase? = some .finishing) :
    k.Advance (k.withPhase .returned) := by
  cases k with
  | start => cases hk
  | stop id p => exact ⟨rfl, fun h => by cases h⟩
  | stopAll p => exact fun h => by cases h

end Call

namespace Scheduler

variable {s : Scheduler} {c : Nat}

-- What a step does to the calls: nothing, one call more, or one call moved on; a stopping call
-- moves from its take only by its own take.
theorem calls_step (s : Scheduler) (st : SchedulerStep) :
    (s.step st).calls = s.calls ∨ (∃ k, (s.step st).calls = s.calls ++ [k]) ∨
    ∃ c k₀ k, s.calls[c]? = some k₀ ∧ k₀.Advance k ∧ (s.step st).calls = s.calls.set c k ∧
      (k₀.stopPhase? = some .taking → st = .take c) := by
  -- a start moves on from a phase in which it has not spawned and not returned
  have fresh : ∀ {w p p' n n'}, p.launched = false → (∀ f, p ≠ .returned f) →
      (Call.start w p n).Advance (.start w p' n') := fun hl hr =>
    ⟨rfl, fun h => absurd h (by simp [hl]), fun f h => absurd h (hr f)⟩
  cases st with
  | start w => exact .inr (.inl ⟨_, rfl⟩)
  | stop id => exact .inr (.inl ⟨_, rfl⟩)
  | stopAll => exact .inr (.inl ⟨_, rfl⟩)
  | check c =>
    simp only [step]
    rcases check_cases s c with hs | ⟨w, n, hc, -, ⟨-, hs⟩ | ⟨-, hs⟩⟩ <;> rw [hs]
    · exact .inl rfl
    · refine .inr (.inr ⟨c, _, _, hc, ?_, rfl, fun h => by cases h⟩)
      exact fresh rfl fun _ h => by cases h
    · refine .inr (.inr ⟨c, _, _, hc, ?_, rfl, fun h => by cases h⟩)
      exact fresh rfl fun _ h => by cases h
  | init c f =>
    simp only [step]
    rcases init_cases s c f with hs | ⟨w, n, hc, ⟨f', -, hs⟩ | ⟨-, hs⟩⟩ <;> rw [hs]
    · exact .inl rfl
    · refine .inr (.inr ⟨c, _, _, hc, ?_, rfl, fun h => by cases h⟩)
      exact fresh rfl fun _ h => by cases h
    · refine .inr (.inr ⟨c, _, _, hc, ?_, rfl, fun h => by cases h⟩)
      exact fresh rfl fun _ h => by cases h
  | lock c =>
    simp only [step]
    rcases lockMap_cases s c with hs | ⟨w, n, hc, -, ⟨-, hs⟩ | ⟨-, hs⟩⟩ <;> rw [hs]
    · exact .inl rfl
    · refine .inr (.inr ⟨c, _, _, hc, ?_, rfl, fun h => by cases h⟩)
      exact fresh rfl fun _ h => by cases h
    · refine .inr (.inr ⟨c, _, _, hc, ?_, rfl, fun h => by cases h⟩)
      exact fresh rfl fun _ h => by cases h
  | insert c =>
    simp only [step]
    rcases insert_cases s c with hs | ⟨w, n, e, hc, -, hs⟩ <;> rw [hs]
    · exact .inl rfl
    · refine .inr (.inr ⟨c, _, _, hc, ?_, rfl, fun h => by cases h⟩)
      exact ⟨rfl, fun _ => rfl, fun f h => by cases h⟩
  | take c =>
    simp only [step]
    rcases take_cases s c with hs | ⟨id, e, hc, -, -, hs⟩ | ⟨id, hc, -, -, hs⟩ | ⟨hc, -, -, hs⟩ |
      ⟨hc, -, -, hs⟩ <;> rw [hs]
    · exact .inl rfl
    · refine .inr (.inr ⟨c, _, _, hc, ?_, rfl, fun _ => rfl⟩)
      exact ⟨rfl, fun h => by cases h⟩
    · refine .inr (.inr ⟨c, _, _, hc, ?_, rfl, fun _ => rfl⟩)
      exact ⟨rfl, fun h => by cases h⟩
    · refine .inr (.inr ⟨c, _, _, hc, ?_, rfl, fun _ => rfl⟩)
      exact fun h => by cases h
    · refine .inr (.inr ⟨c, _, _, hc, ?_, rfl, fun _ => rfl⟩)
      exact fun h => by cases h
  | hook c =>
    simp only [step]
    rcases hook_cases s c with hs | ⟨x, -, -, -, hs⟩ <;> rw [hs] <;> exact .inl rfl
  | join c =>
    simp only [step]
    rcases join_cases s c with hs | ⟨k, x, t, hc, hp, -, -, -, -, hs⟩ <;> rw [hs]
    · exact .inl rfl
    · by_cases hany : (s.held.erase x).any (·.call == c) = true
      · exact .inl (by simp [hany])
      · exact .inr (.inr ⟨c, _, _, hc, Call.advance_withPhase hp, by simp [hany],
          fun h => by rw [hp] at h; cases h⟩)
  | exit t => exact .inl rfl

theorem taking_before_step (s : Scheduler) (st : SchedulerStep) {id : Uuid}
    (h : (s.step st).calls[c]? = some (.stop id .taking)) :
    s.calls[c]? = some (.stop id .taking) ∨ s.calls.length ≤ c := by
  rcases calls_step s st with hs | ⟨k, hs⟩ | ⟨c', k₀, k, hc', hadv, hs, -⟩ <;> rw [hs] at h
  · exact .inl h
  · rcases getElem?_append_singleton h with h | ⟨rfl, -⟩
    · exact .inl h
    · exact .inr (Nat.le_refl _)
  · by_cases hcc : c' = c
    · subst hcc
      rw [List.getElem?_set_self (List.getElem?_eq_some_iff.mp hc').1] at h
      cases h
      -- the call moved to its take, so it was there already
      cases k₀ with
      | start => exact hadv.elim
      | stop id₀ p₀ =>
        obtain ⟨rfl, hp⟩ := hadv
        rw [hp rfl] at hc'
        exact .inl hc'
      | stopAll => exact hadv.elim
    · rw [List.getElem?_set_ne hcc] at h
      exact .inl h

theorem finishing_of_take {e : Entry} (he : e ∈ s.hosted) (he' : e ∉ (s.take c).hosted) :
    ∃ k, (s.take c).calls[c]? = some k ∧ k.stopPhase? = some .finishing := by
  rcases take_cases s c with hs | ⟨id, e, hc, -, -, hs⟩ | ⟨id, hc, -, -, hs⟩ | ⟨hc, -, -, hs⟩ |
    ⟨hc, -, -, hs⟩ <;> rw [hs] at he' ⊢
  · exact absurd he he'
  · exact ⟨_, List.getElem?_set_self (List.getElem?_eq_some_iff.mp hc).1, rfl⟩
  · exact absurd he he'
  · exact absurd he he'
  · exact ⟨_, List.getElem?_set_self (List.getElem?_eq_some_iff.mp hc).1, rfl⟩

-- A step keeps every held entry in the hands of its call, unless it completes its await and so
-- takes its task out of every place.
theorem Sound.held_step (h : s.Sound) {x : Held} (hx : x ∈ s.held) (st : SchedulerStep) :
    (∃ y ∈ (s.step st).held, y.call = x.call ∧ y.entry = x.entry) ∨
      x.entry.task ∉ (s.step st).places.map Entry.task := by
  -- most steps leave the held entries as they are
  have keep : (s.step st).held = s.held ∨ (∃ more, (s.step st).held = s.held ++ more) ∨
      (∃ y, (s.step st).held = s.held.map fun z => if z = y then { z with hooked := true } else z) ∨
      (∃ y, (s.step st).held = s.held.erase y ∧ y ∈ s.held ∧ (s.step st).lock = s.lock ∧
        (s.step st).hosted = s.hosted) := by
    cases st with
    | check c =>
      obtain ⟨k, hs⟩ := check_eq_setCall s c
      exact .inl (by simp [Scheduler.step, hs])
    | init c f =>
      obtain ⟨k, hs⟩ := init_eq_setCall s c f
      exact .inl (by simp [Scheduler.step, hs])
    | lock c =>
      simp only [Scheduler.step]
      rcases lockMap_cases s c with hs | ⟨_, _, _, _, ⟨_, hs⟩ | ⟨_, hs⟩⟩ <;> simp [hs]
    | insert c =>
      simp only [Scheduler.step]
      rcases insert_cases s c with hs | ⟨_, _, _, _, _, hs⟩ <;> simp [hs]
    | take c =>
      simp only [Scheduler.step]
      rcases take_cases s c with hs | ⟨_, e, _, _, _, hs⟩ | ⟨_, _, _, _, hs⟩ | ⟨_, _, _, hs⟩ |
        ⟨_, _, _, hs⟩ <;> simp [hs]
    | hook c =>
      simp only [Scheduler.step]
      rcases hook_cases s c with hs | ⟨y, _, _, _, hs⟩
      · simp [hs]
      · exact .inr (.inr (.inl ⟨y, by rw [hs]⟩))
    | join c =>
      simp only [Scheduler.step]
      rcases join_cases s c with hs | ⟨_, y, _, _, _, hy, _, _, _, hs⟩
      · simp [hs]
      · exact .inr (.inr (.inr ⟨y, by rw [hs], (mem_of_current? hy).1, by rw [hs], by rw [hs]⟩))
    | exit t => exact .inl rfl
    | start => exact .inl rfl
    | stop => exact .inl rfl
    | stopAll => exact .inl rfl
  rcases keep with hk | ⟨more, hk⟩ | ⟨new, hk⟩ | ⟨new, hk, hnew, hl, hh⟩
  · exact .inl ⟨x, hk ▸ hx, rfl, rfl⟩
  · exact .inl ⟨x, hk ▸ List.mem_append_left _ hx, rfl, rfl⟩
  · refine .inl ⟨if x = new then { x with hooked := true } else x, hk ▸ List.mem_map_of_mem hx, ?_⟩
    split <;> exact ⟨rfl, rfl⟩
  · by_cases hxn : x = new
    · -- the await of this very entry completed
      subst hxn
      right
      have hnd := (((places_perm_erase hnew hl hh hk).map Entry.task).nodup_iff.mp h.distinct)
      exact (List.nodup_cons.mp hnd).1
    · exact .inl ⟨x, hk ▸ (List.mem_erase_of_ne hxn).mpr hx, rfl, rfl⟩

theorem places_lockMap (s : Scheduler) (c : Nat) {e : Entry} (he : e ∈ (s.lockMap c).places) :
    e ∈ s.places ∨ e.task = s.tasks.length := by
  rcases lockMap_cases s c with hs | ⟨w, _, _, hl, ⟨_, hs⟩ | ⟨_, hs⟩⟩ <;> rw [hs] at he
  · exact .inl he
  · exact .inl he
  · simp only [places, mapped, Option.toList_some, List.map_cons, List.map_nil,
      List.cons_append, List.mem_cons] at he
    rcases he with rfl | he
    · exact .inr rfl
    · exact .inl (by simpa [places, mapped, hl] using he)

theorem places_insert (s : Scheduler) (c : Nat) : (s.insert c).places ⊆ s.places := by
  intro e he
  rcases insert_cases s c with hs | ⟨_, _, e₀, _, hl, hs⟩ <;> rw [hs] at he
  · exact he
  · simp only [places, mapped, hl, Option.toList_some, Option.toList_none, List.map_cons,
      List.map_nil, List.nil_append, List.cons_append, List.mem_cons, List.mem_append,
      List.mem_filter] at he ⊢
    tauto

theorem places_take (s : Scheduler) (c : Nat) : (s.take c).places ⊆ s.places := by
  intro e he
  rcases take_cases s c with hs | ⟨_, e', _, hl, he', hs⟩ | ⟨_, _, _, _, hs⟩ | ⟨_, _, _, hs⟩ |
    ⟨_, hl, _, hs⟩ <;> rw [hs] at he
  · exact he
  · have hmem := List.mem_of_find?_eq_some he'
    simp only [places, mapped, hl, Option.toList_none, List.map_nil, List.nil_append,
      List.map_append, List.map_cons, List.mem_append, List.mem_filter, List.mem_cons,
      List.not_mem_nil, or_false] at he ⊢
    rcases he with ⟨he, -⟩ | he | rfl
    · exact .inl he
    · exact .inr he
    · exact .inl hmem
  · exact he
  · exact he
  · simp only [places, mapped, hl, Option.toList_none, List.map_nil, List.nil_append,
      List.map_append, List.map_map, List.mem_append] at he ⊢
    rcases he with he | he
    · exact .inr he
    · exact .inl (by simpa [Function.comp_def] using he)

theorem places_hook (s : Scheduler) (c : Nat) : (s.hook c).places = s.places := by
  rcases hook_cases s c with hs | ⟨x, _, _, _, hs⟩ <;> rw [hs]
  simp only [places, mapped, List.map_map]
  congr 1
  refine List.map_congr_left fun y _ => ?_
  simp only [Function.comp_apply]
  split <;> rfl

theorem places_join (s : Scheduler) (c : Nat) : (s.join c).places.Sublist s.places := by
  rcases join_cases s c with hs | ⟨_, x, _, _, _, _, _, _, _, hs⟩
  · rw [hs]
  · rw [hs]
    exact (List.erase_sublist.map Held.entry).append_left s.mapped

theorem places_step (s : Scheduler) (st : SchedulerStep) {e : Entry}
    (he : e ∈ (s.step st).places) : e ∈ s.places ∨ e.task = s.tasks.length := by
  cases st with
  | check c =>
    obtain ⟨k, hs⟩ := check_eq_setCall s c
    simp only [Scheduler.step, hs] at he
    exact .inl he
  | init c f =>
    obtain ⟨k, hs⟩ := init_eq_setCall s c f
    simp only [Scheduler.step, hs] at he
    exact .inl he
  | lock c => exact places_lockMap s c he
  | insert c => exact .inl (places_insert s c he)
  | take c => exact .inl (places_take s c he)
  | hook c => exact .inl (by rw [← places_hook s c]; exact he)
  | join c => exact .inl ((places_join s c).subset he)
  | exit t => exact .inl he
  | start => exact .inl he
  | stop => exact .inl he
  | stopAll => exact .inl he

theorem length_calls_step (s : Scheduler) (st : SchedulerStep) :
    s.calls.length ≤ (s.step st).calls.length := by
  rcases calls_step s st with hs | ⟨k, hs⟩ | ⟨c', k₀, k, -, -, hs, -⟩ <;> simp [hs]

theorem stop_call_step (s : Scheduler) (st : SchedulerStep) {id : Uuid} {p : StopPhase}
    (hc : s.calls[c]? = some (.stop id p)) : ∃ p', (s.step st).calls[c]? = some (.stop id p') := by
  rcases calls_step s st with hs | ⟨k, hs⟩ | ⟨c', k₀, k, hc', hadv, hs, -⟩ <;> rw [hs]
  · exact ⟨p, hc⟩
  · exact ⟨p, getElem?_append_of_eq_some hc⟩
  · by_cases hcc : c' = c
    · subst hcc
      rw [hc] at hc'
      cases hc'
      rw [List.getElem?_set_self (List.getElem?_eq_some_iff.mp hc).1]
      cases k with
      | stop id' p' =>
        obtain ⟨rfl, -⟩ := hadv
        exact ⟨p', rfl⟩
      | start => exact hadv.elim
      | stopAll => exact hadv.elim
    · rw [List.getElem?_set_ne hcc]
      exact ⟨p, hc⟩

theorem not_mem_places_step (s : Scheduler) (st : SchedulerStep) {i : Nat}
    (hi : i ∉ s.places.map Entry.task) (hlt : i < s.tasks.length) :
    i ∉ (s.step st).places.map Entry.task ∧ i < (s.step st).tasks.length := by
  refine ⟨fun hmem => ?_, Nat.lt_of_lt_of_le hlt (length_tasks_step s st)⟩
  obtain ⟨e, he, rfl⟩ := List.mem_map.mp hmem
  rcases places_step s st he with he | he
  · exact hi (List.mem_map_of_mem he)
  · exact absurd he (Nat.ne_of_lt hlt)

theorem take_lock (s : Scheduler) (c : Nat) : (s.take c).lock = s.lock := by
  rcases take_cases s c with hs | ⟨_, _, _, _, _, hs⟩ | ⟨_, _, _, _, hs⟩ | ⟨_, _, _, hs⟩ |
    ⟨_, _, _, hs⟩ <;> simp [hs]

-- an await completes only once the worker's run has returned, and nothing runs a worker again
def Awaited (s : Scheduler) : Prop :=
  ∀ (i : Nat) (t : Task), s.tasks[i]? = some t → t.joins ≠ 0 → t.ended = true

theorem awaited_empty : ({} : Scheduler).Awaited :=
  fun _ _ ht => by simp at ht

theorem Awaited.modify (h : s.Awaited) {i : Nat} {f : Task → Task}
    (hf : ∀ t, s.tasks[i]? = some t → (f t).joins ≠ 0 → (f t).ended = true) :
    ∀ (j : Nat) (t : Task), (s.tasks.modify i f)[j]? = some t → t.joins ≠ 0 → t.ended = true := by
  intro j t ht hj
  obtain ⟨t₀, ht₀, rfl⟩ := getElem?_modify_of_eq_some ht
  by_cases hij : i = j
  · subst hij
    rw [if_pos rfl] at hj ⊢
    exact hf t₀ ht₀ hj
  · rw [if_neg hij] at hj ⊢
    exact h j t₀ ht₀ hj

theorem Awaited.step (h : s.Awaited) : ∀ st, (s.step st).Awaited
  | .start _ | .stop _ | .stopAll | .exit _ => by
    first
    | exact h
    | exact Awaited.modify h fun _ _ _ => rfl
  | .check c => by
    obtain ⟨k, hs⟩ := check_eq_setCall s c
    show (s.check c).Awaited
    rw [hs]
    exact h
  | .init c f => by
    obtain ⟨k, hs⟩ := init_eq_setCall s c f
    show (s.init c f).Awaited
    rw [hs]
    exact h
  | .lock c => by
    show (s.lockMap c).Awaited
    rcases lockMap_cases s c with hs | ⟨w, _, _, _, ⟨_, hs⟩ | ⟨_, hs⟩⟩ <;> rw [hs]
    · exact h
    · exact h
    · -- the task just spawned has not been awaited
      intro i t ht hj
      rcases getElem?_append_singleton ht with ht | ⟨-, rfl⟩
      · exact h i t ht hj
      · exact absurd rfl hj
  | .insert c => by
    show (s.insert c).Awaited
    rcases insert_cases s c with hs | ⟨_, _, _, _, _, hs⟩ <;> rw [hs] <;> exact h
  | .take c => by
    show (s.take c).Awaited
    rcases take_cases s c with hs | ⟨_, _, _, _, _, hs⟩ | ⟨_, _, _, _, hs⟩ | ⟨_, _, _, hs⟩ |
      ⟨_, _, _, hs⟩ <;> rw [hs] <;> exact h
  | .hook c => by
    show (s.hook c).Awaited
    rcases hook_cases s c with hs | ⟨_, _, _, _, hs⟩ <;> rw [hs]
    · exact h
    · exact Awaited.modify h fun t ht hj => h _ t ht hj
  | .join c => by
    show (s.join c).Awaited
    rcases join_cases s c with hs | ⟨_, _, t, _, _, _, ht, _, hend, hs⟩ <;> rw [hs]
    · exact h
    · -- the await completes on a task whose worker has returned
      refine Awaited.modify h fun t' ht' _ => ?_
      rw [ht] at ht'
      cases ht'
      exact hend

theorem Sound.mem_places_of_running (h : s.Sound) (ha : s.Awaited) {i : Nat} {t : Task}
    (ht : s.tasks[i]? = some t) (hr : t.ended = false) : ⟨t.worker, i⟩ ∈ s.places := by
  by_cases hi : i ∈ s.places.map Entry.task
  · obtain ⟨e, he, rfl⟩ := List.mem_map.mp hi
    obtain ⟨t', ht', hw⟩ := h.spawned e he
    rw [ht] at ht'
    cases ht'
    rw [hw]
    exact he
  · -- out of every place it was awaited, so its worker returned
    have hj := (h.finished i t ht hi).2
    have hend := ha i t ht (by omega)
    rw [hr] at hend
    cases hend

end Scheduler

namespace StopQueue

open Scheduler

variable {q : StopQueue} {c : Nat}

theorem push_scheduler (q : StopQueue) (r : StopRequest) : (q.push r).scheduler = q.scheduler := by
  unfold push
  split <;> rfl

theorem scheduler_step (q : StopQueue) (qs : QueueStep) :
    (q.step qs).scheduler = q.scheduler ∨ ∃ st, (q.step qs).scheduler = q.scheduler.step st ∧
      (qs = .scheduler st ∨ ∃ id, st = .stop id) := by
  cases qs with
  | scheduler st => exact .inr ⟨st, rfl, .inl rfl⟩
  | push r => exact .inl (push_scheduler q r)
  | receive =>
    show q.receive.scheduler = _ ∨ ∃ st, q.receive.scheduler = _ ∧ _
    unfold receive
    split
    · split
      · exact .inl rfl
      · exact .inr ⟨_, rfl, .inr ⟨_, rfl⟩⟩
    · exact .inl rfl
  | resume =>
    refine .inl (show q.resume.scheduler = _ from ?_)
    unfold resume
    split
    · split <;> rfl
    · rfl
  | quit =>
    refine .inl (show q.quit.scheduler = _ from ?_)
    unfold quit
    split <;> rfl

theorem scheduler_run {P : Scheduler → Prop} (hP : ∀ s st, P s → P (s.step st))
    (h : P q.scheduler) (steps : List QueueStep) : P (q.run steps).scheduler := by
  induction steps generalizing q with
  | nil => exact h
  | cons qs steps ih =>
    refine ih ?_
    rcases scheduler_step q qs with hs | ⟨st, hs, -⟩ <;> rw [hs]
    · exact h
    · exact hP _ st h

theorem sound_step (h : q.scheduler.Sound) (qs : QueueStep) : (q.step qs).scheduler.Sound :=
  scheduler_run (fun _ st hs => hs.step st) h [qs]

theorem sound_run (h : q.scheduler.Sound) (steps : List QueueStep) : (q.run steps).scheduler.Sound :=
  scheduler_run (fun _ st hs => hs.step st) h steps

-- The queue keeps the requests pushed, in order, and the consumer awaits a `stop` of an id other
-- than its own.
structure Serving (q : StopQueue) : Prop where
  fifo : q.received ++ q.queue = q.pushed
  serving : ∀ c, q.consumer = .stopping c →
    ∃ id p, id ≠ q.consumerId ∧ q.scheduler.calls[c]? = some (.stop id p)

theorem Serving.step (h : q.Serving) : ∀ qs, (q.step qs).Serving
  | .scheduler st => by
    refine ⟨h.fifo, fun c hc => ?_⟩
    obtain ⟨id, p, hid, hcall⟩ := h.serving c hc
    obtain ⟨p', hp'⟩ := stop_call_step q.scheduler st hcall
    exact ⟨id, p', hid, hp'⟩
  | .push r => by
    show (q.push r).Serving
    unfold push
    split
    · refine ⟨?_, h.serving⟩
      rw [← List.append_assoc, h.fifo]
    · exact h
  | .receive => by
    show q.receive.Serving
    unfold receive
    split
    · next r rest hc hq =>
      have hfifo : q.received ++ [r] ++ rest = q.pushed := by
        rw [List.append_assoc, List.singleton_append, ← hq, h.fifo]
      split
      · refine ⟨hfifo, fun c hc' => ?_⟩
        have hphase : ConsumerPhase.receiving = .stopping c := hc.symm.trans hc'
        cases hphase
      · next hne =>
        refine ⟨hfifo, fun c hc' => ?_⟩
        cases hc'
        exact ⟨r.id, .taking, hne, List.getElem?_concat_length⟩
    · exact h
  | .resume => by
    show q.resume.Serving
    unfold resume
    split
    · split
      · exact ⟨h.fifo, fun c hc => by cases hc⟩
      · exact h
    · exact h
  | .quit => by
    show q.quit.Serving
    unfold quit
    split
    · exact ⟨h.fifo, fun c hc => by cases hc⟩
    · exact h

theorem serving_fresh (cid : Uuid) : (fresh cid).Serving :=
  ⟨rfl, fun c hc => by cases hc⟩

theorem Serving.run (h : q.Serving) (steps : List QueueStep) : (q.run steps).Serving := by
  induction steps generalizing q with
  | nil => exact h
  | cons qs steps ih => exact ih (h.step qs)

theorem Serving.not_own (h : q.Serving) (hs : q.scheduler.Sound) {x : Held}
    (hx : x ∈ q.scheduler.held) (hc : q.consumer = .stopping x.call) :
    ∃ task : Task, q.scheduler.tasks[x.entry.task]? = some task ∧ task.worker ≠ q.consumerId := by
  obtain ⟨id, p, hid, hcall⟩ := h.serving x.call hc
  -- the call is a stop of the entry's id, and the entry's task runs that id
  have hentry : x.entry.id = id := by
    rcases hs.holders x hx with h' | h' <;> rw [hcall] at h' <;> cases h'
    rfl
  obtain ⟨task, ht, hw⟩ :=
    hs.spawned x.entry (List.mem_append_right _ (List.mem_map_of_mem hx))
  exact ⟨task, ht, by rw [hw, hentry]; exact hid⟩

-- A step that takes an entry out of the map: the take of a call other than `c`.
def TakesOut (e : Entry) (c : Nat) (q : StopQueue) : QueueStep → Prop
  | .scheduler (.take c') => c' ≠ c ∧ e ∈ q.scheduler.hosted ∧ e ∉ (q.scheduler.take c').hosted
  | _ => False

-- Some step of a run takes the entry out of the map, by the take of a call other than `c`.
def TakenOut (e : Entry) (c : Nat) : StopQueue → List QueueStep → Prop
  | _, [] => False
  | q, qs :: rest => TakesOut e c q qs ∨ TakenOut e c (q.step qs) rest

theorem taking_before_run (steps : List QueueStep) {id : Uuid}
    (h : (q.run steps).scheduler.calls[c]? = some (.stop id .taking)) :
    q.scheduler.calls[c]? = some (.stop id .taking) ∨ q.scheduler.calls.length ≤ c := by
  induction steps generalizing q with
  | nil => exact .inl h
  | cons qs steps ih =>
    have hlen : q.scheduler.calls.length ≤ (q.step qs).scheduler.calls.length := by
      rcases scheduler_step q qs with hs | ⟨st, hs, -⟩ <;> rw [hs]
      exact length_calls_step _ st
    rcases ih h with h' | h'
    · rcases scheduler_step q qs with hs | ⟨st, hs, -⟩ <;> rw [hs] at h'
      · exact .inl h'
      · exact taking_before_step _ st h'
    · exact .inr (Nat.le_trans hlen h')

-- An entry in the map stays in it along a run, unless the take of a call other than one still at
-- its take at the end takes it out.
theorem mapped_or_taken_out (hs : q.scheduler.Sound) {e : Entry} (he : e ∈ q.scheduler.mapped)
    (steps : List QueueStep) {id : Uuid}
    (hc : (q.run steps).scheduler.calls[c]? = some (.stop id .taking)) :
    e ∈ (q.run steps).scheduler.mapped ∨ TakenOut e c q steps := by
  induction steps generalizing q with
  | nil => exact .inl he
  | cons qs steps ih =>
    by_cases he' : e ∈ (q.step qs).scheduler.mapped
    · rcases ih (sound_step hs qs) he' hc with h | h
      · exact .inl h
      · exact .inr (.inr h)
    · -- the step took the entry out of the map: it is the take of some call
      right
      left
      rcases scheduler_step q qs with hq | ⟨st, hq, hst⟩
      · exact absurd (hq ▸ he) he'
      rw [hq] at he'
      rcases hs.mapped_step st with hp | ⟨c', w, -, hm⟩ | ⟨c', rfl, -⟩
      · exact absurd (hp.mem_iff.mpr he) he'
      · exact absurd (hm ▸ List.mem_cons_of_mem _ he) he'
      rcases hst with rfl | ⟨_, hst⟩
      · -- the take leaves the lock, so the entry was in the map proper
        have hlock : (q.scheduler.take c').lock = q.scheduler.lock := take_lock _ _
        have hhosted : e ∈ q.scheduler.hosted := by
          rcases List.mem_append.mp he with hl | hh
          · exact absurd (by
              show e ∈ (q.scheduler.take c').mapped
              rw [mapped, hlock]
              exact List.mem_append_left _ hl) he'
          · exact hh
        have hout : e ∉ (q.scheduler.take c').hosted := fun h' =>
          he' (show e ∈ (q.scheduler.take c').mapped from List.mem_append_right _ h')
        refine ⟨fun hcc => ?_, hhosted, hout⟩
        -- a call that took cannot be back at its take at the end
        subst hcc
        obtain ⟨k, hk, hp⟩ := finishing_of_take hhosted hout
        rcases taking_before_run steps hc with h' | h'
        · rw [show (q.step (.scheduler (.take c'))).scheduler = q.scheduler.take c' from rfl,
            hk] at h'
          cases h'
          cases hp
        · have := (List.getElem?_eq_some_iff.mp hk).1
          exact absurd h' (Nat.not_le.mpr this)
      · cases hst

theorem not_mem_places_run {i : Nat} (hi : i ∉ q.scheduler.places.map Entry.task)
    (hlt : i < q.scheduler.tasks.length) (steps : List QueueStep) :
    i ∉ (q.run steps).scheduler.places.map Entry.task ∧ i < (q.run steps).scheduler.tasks.length :=
  scheduler_run (P := fun s => i ∉ s.places.map Entry.task ∧ i < s.tasks.length)
    (fun s st h => not_mem_places_step s st h.1 h.2) ⟨hi, hlt⟩ steps

theorem held_or_out_run (hs : q.scheduler.Sound) {x : Held} (hx : x ∈ q.scheduler.held)
    (steps : List QueueStep) :
    (∃ y ∈ (q.run steps).scheduler.held, y.call = x.call ∧ y.entry = x.entry) ∨
      (x.entry.task ∉ (q.run steps).scheduler.places.map Entry.task ∧
        x.entry.task < (q.run steps).scheduler.tasks.length) := by
  induction steps generalizing q x with
  | nil => exact .inl ⟨x, hx, rfl, rfl⟩
  | cons qs steps ih =>
    have hlt : x.entry.task < q.scheduler.tasks.length :=
      hs.lt_of_mem (List.mem_append_right _ (List.mem_map_of_mem hx))
    rcases scheduler_step q qs with hq | ⟨st, hq, -⟩
    · have hx' : x ∈ (q.step qs).scheduler.held := hq ▸ hx
      exact ih (sound_step hs qs) hx'
    · rcases hs.held_step hx st with ⟨y, hy, hcall, hentry⟩ | hout
      · rcases ih (sound_step hs qs) (hq ▸ hy) with h | h
        · obtain ⟨z, hz, hzc, hze⟩ := h
          exact .inl ⟨z, hz, hzc.trans hcall, hze.trans hentry⟩
        · rw [hentry] at h
          exact .inr h
      · right
        refine not_mem_places_run (hq ▸ hout) ?_ steps
        rw [hq]
        exact Nat.lt_of_lt_of_le hlt (length_tasks_step _ st)

theorem consumerId_step (q : StopQueue) (qs : QueueStep) : (q.step qs).consumerId = q.consumerId := by
  cases qs with
  | scheduler => rfl
  | push r =>
    show (q.push r).consumerId = _
    unfold push
    split <;> rfl
  | receive =>
    show q.receive.consumerId = _
    unfold receive
    split
    · split <;> rfl
    · rfl
  | resume =>
    show q.resume.consumerId = _
    unfold resume
    split
    · split <;> rfl
    · rfl
  | quit =>
    show q.quit.consumerId = _
    unfold quit
    split <;> rfl

theorem consumerId_run (q : StopQueue) (steps : List QueueStep) :
    (q.run steps).consumerId = q.consumerId := by
  induction steps generalizing q with
  | nil => rfl
  | cons qs steps ih => exact (ih (q.step qs)).trans (consumerId_step q qs)

theorem tasks_length_run (q : StopQueue) (steps : List QueueStep) :
    q.scheduler.tasks.length ≤ (q.run steps).scheduler.tasks.length :=
  scheduler_run (P := fun s => q.scheduler.tasks.length ≤ s.tasks.length)
    (fun s st h => Nat.le_trans h (length_tasks_step s st)) (Nat.le_refl _) steps

theorem awaited_run (h : q.scheduler.Awaited) (steps : List QueueStep) :
    (q.run steps).scheduler.Awaited :=
  scheduler_run (fun _ st ha => ha.step st) h steps

-- A request a task may push for its own worker names the entry of that task: the task runs, and it
-- was spawned with its entry under the lock.
theorem placed_of_canPush (hs : q.scheduler.Sound) (ha : q.scheduler.Awaited) {r : StopRequest}
    {t : Nat} (hp : r.pusher = some t) (hc : q.canPush r = true) :
    ⟨r.id, t⟩ ∈ q.scheduler.places := by
  cases ht : q.scheduler.tasks[t]? with
  | none => simp [canPush, hp, ht] at hc
  | some task =>
    simp only [canPush, hp, ht, Bool.and_eq_true, beq_iff_eq, Bool.not_eq_eq_eq_not,
      Bool.not_true] at hc
    obtain ⟨hw, hr⟩ := hc
    have hm := hs.mem_places_of_running ha ht hr
    rwa [hw] at hm

-- The consumer's take of a hosted entry puts it in the hands of its `stop`, which returns only once
-- it has stopped and awaited the task.
theorem finished_of_stop_returned (hs : q.scheduler.Sound) {id : Uuid} {t : Nat}
    (hh : ⟨id, t⟩ ∈ q.scheduler.hosted) (hlock : q.scheduler.lock = none)
    (hcall : q.scheduler.calls[c]? = some (.stop id .taking)) (post : List QueueStep)
    (hret : ((q.step (.scheduler (.take c))).run post).scheduler.calls[c]? =
      some (.stop id .returned)) :
    ∃ task : Task, ((q.step (.scheduler (.take c))).run post).scheduler.tasks[t]? = some task ∧
      task.hooks = 1 ∧ task.joins = 1 := by
  obtain ⟨x, hx, hxc, hxe⟩ := hs.held_of_take hh hlock (.inl hcall)
  have hs' : (q.step (.scheduler (.take c))).scheduler.Sound := sound_step hs _
  have hs₃ := sound_run hs' post
  have hxt : x.entry.task = t := by rw [hxe]
  -- the call lets go of the entry only by finishing it
  rcases held_or_out_run hs' hx post with ⟨y, hy, hyc, -⟩ | ⟨hout, hlt⟩
  · rcases hs₃.holders y hy with h' | h' <;> rw [hyc, hxc, hret] at h' <;> simp at h'
  · rw [hxt] at hout hlt
    obtain ⟨task, ht⟩ : ∃ task, ((q.step (.scheduler (.take c))).run post).scheduler.tasks[t]? =
        some task := ⟨_, List.getElem?_eq_getElem hlt⟩
    exact ⟨task, ht, hs₃.finished t task ht hout⟩

theorem holder_ne_of_taking (hs : q.scheduler.Sound) {x : Held} (hx : x ∈ q.scheduler.held)
    (steps : List QueueStep) {id : Uuid}
    (hc : (q.run steps).scheduler.calls[c]? = some (.stop id .taking)) : x.call ≠ c := by
  rintro rfl
  have hlt : x.call < q.scheduler.calls.length := by
    rcases hs.holders x hx with h' | h' <;> exact (List.getElem?_eq_some_iff.mp h').1
  rcases taking_before_run steps hc with h' | h'
  · rcases hs.holders x hx with h'' | h'' <;> rw [h''] at h' <;> cases h'
  · omega

-- Over any run of the scheduler with the stop queue: the consumer receives the requests in the
-- order they were pushed, and the call it awaits holds no task of its own worker. When task `t`
-- pushes the request for its own worker from inside the worker's run, and the consumer's `stop` of
-- that id comes to its take with the map free, the entry of `t` is still in the map -- and by the
-- time that `stop` returns it has stopped and awaited the task -- unless a take of another call
-- took it out, after the push or already before it. No task is stopped or awaited twice.
theorem self_stops_reach_the_consumer (cid : Uuid) (pre mid post : List QueueStep)
    (r : StopRequest) (t c : Nat) (hpusher : r.pusher = some t)
    (hpush : ((fresh cid).run pre).canPush r = true) :
    let q₁ := (fresh cid).run pre
    let q₂ := (q₁.step (.push r)).run mid
    let q₃ := (q₂.step (.scheduler (.take c))).run post
    q₂.received ++ q₂.queue = q₂.pushed ∧
    (∀ x ∈ q₂.scheduler.held, q₂.consumer = .stopping x.call →
      ∃ task : Task, q₂.scheduler.tasks[x.entry.task]? = some task ∧ task.worker ≠ cid) ∧
    (q₂.consumer = .stopping c → q₂.scheduler.calls[c]? = some (.stop r.id .taking) →
      q₂.scheduler.lock = none →
      (⟨r.id, t⟩ ∈ q₂.scheduler.hosted ∧
        (q₃.scheduler.calls[c]? = some (.stop r.id .returned) →
          ∃ task : Task, q₃.scheduler.tasks[t]? = some task ∧ task.hooks = 1 ∧ task.joins = 1)) ∨
      TakenOut ⟨r.id, t⟩ c (q₁.step (.push r)) mid ∨
      ∃ x ∈ q₁.scheduler.held, x.entry = ⟨r.id, t⟩ ∧ x.call ≠ c) ∧
    ∃ task : Task, q₃.scheduler.tasks[t]? = some task ∧ task.hooks ≤ 1 ∧ task.joins ≤ 1 := by
  intro q₁ q₂ q₃
  have hs₀ : q₁.scheduler.Sound := sound_run (q := fresh cid) sound_empty pre
  have hs₁ : (q₁.step (.push r)).scheduler.Sound := sound_step hs₀ _
  have hs₂ : q₂.scheduler.Sound := sound_run hs₁ mid
  have hs₃ : q₃.scheduler.Sound := sound_run (sound_step hs₂ _) post
  have hv₂ : q₂.Serving := (((serving_fresh cid).run pre).step (.push r)).run mid
  have hcid : q₂.consumerId = cid :=
    ((consumerId_run _ mid).trans (consumerId_run q₁ [.push r])).trans (consumerId_run _ pre)
  -- the pushing task runs, so its entry has a place
  have hp : ⟨r.id, t⟩ ∈ q₁.scheduler.places :=
    placed_of_canPush hs₀ (awaited_run (q := fresh cid) awaited_empty pre) hpusher hpush
  refine ⟨hv₂.fifo, fun x hx hc => ?_, fun _ hcall hlock => ?_, ?_⟩
  · obtain ⟨task, ht, hw⟩ := hv₂.not_own hs₂ hx hc
    exact ⟨task, ht, hcid ▸ hw⟩
  · rcases List.mem_append.mp hp with hm | hh
    · -- the push leaves the scheduler alone: the entry is in the map as the run after it starts
      have hm' : ⟨r.id, t⟩ ∈ (q₁.step (.push r)).scheduler.mapped := (push_scheduler q₁ r).symm ▸ hm
      rcases mapped_or_taken_out hs₁ hm' mid hcall with hm₂ | hout
      · have hh : ⟨r.id, t⟩ ∈ q₂.scheduler.hosted := by
          rwa [mapped_of_lock_none hlock] at hm₂
        exact .inl ⟨hh, finished_of_stop_returned hs₂ hh hlock hcall post⟩
      · exact .inr (.inl hout)
    · -- another call took the entry before the push
      obtain ⟨x, hx, hxe⟩ := List.mem_map.mp hh
      have hx' : x ∈ (q₁.step (.push r)).scheduler.held := (push_scheduler q₁ r).symm ▸ hx
      exact .inr (.inr ⟨x, hx, hxe, holder_ne_of_taking hs₁ hx' mid hcall⟩)
  · -- the task exists from the push on, and no task is stopped or awaited twice
    have hlt : t < q₃.scheduler.tasks.length := by
      have h₀ : t < (q₁.step (.push r)).scheduler.tasks.length :=
        (push_scheduler q₁ r).symm ▸ hs₀.lt_of_mem hp
      have h₁ := Nat.lt_of_lt_of_le h₀ (tasks_length_run (q₁.step (.push r)) mid)
      exact Nat.lt_of_lt_of_le (Nat.lt_of_lt_of_le h₁ (length_tasks_step _ (.take c)))
        (tasks_length_run (q₂.step (.scheduler (.take c))) post)
    obtain ⟨task, ht⟩ : ∃ task, q₃.scheduler.tasks[t]? = some task :=
      ⟨_, List.getElem?_eq_getElem hlt⟩
    exact ⟨task, ht, hs₃.counts_le_one ht⟩

-- A worker pushes its own id while hosted: the consumer's `stop` finds the entry and, by the time
-- it returns, has stopped and awaited the task once.
theorem self_stop_of_hosted_worker :
    let pre : List QueueStep := [.scheduler (.start (Uuid.ofNat 1)), .scheduler (.check 0),
      .scheduler (.init 0 none), .scheduler (.lock 0), .scheduler (.insert 0)]
    let r : StopRequest := ⟨Uuid.ofNat 1, some 0⟩
    let mid : List QueueStep := [.receive]
    let post : List QueueStep :=
      [.scheduler (.hook 1), .scheduler (.exit 0), .scheduler (.join 1)]
    let q₁ := (fresh (Uuid.ofNat 9)).run pre
    let q₂ := (q₁.step (.push r)).run mid
    let q₃ := (q₂.step (.scheduler (.take 1))).run post
    (r.pusher = some 0 ∧ q₁.canPush r = true ∧ q₂.consumer = .stopping 1 ∧
      q₂.scheduler.calls[1]? = some (.stop r.id .taking) ∧ q₂.scheduler.lock = none ∧
      q₃.scheduler.calls[1]? = some (.stop r.id .returned)) ∧
    ((⟨r.id, 0⟩ ∈ q₂.scheduler.hosted ∧
        (q₃.scheduler.calls[1]? = some (.stop r.id .returned) →
          ∃ task : Task, q₃.scheduler.tasks[0]? = some task ∧ task.hooks = 1 ∧ task.joins = 1)) ∨
      TakenOut ⟨r.id, 0⟩ 1 (q₁.step (.push r)) mid ∨
      ∃ x ∈ q₁.scheduler.held, x.entry = ⟨r.id, 0⟩ ∧ x.call ≠ 1) := by
  intro pre r mid post q₁ q₂ q₃
  have hpush : q₁.canPush r = true := by decide
  have hc : q₂.consumer = .stopping 1 := by decide
  have hcall : q₂.scheduler.calls[1]? = some (.stop r.id .taking) := by decide
  have hl : q₂.scheduler.lock = none := by decide
  have hret : q₃.scheduler.calls[1]? = some (.stop r.id .returned) := by decide
  exact ⟨⟨rfl, hpush, hc, hcall, hl, hret⟩,
    (self_stops_reach_the_consumer (Uuid.ofNat 9) pre mid post r 0 1 rfl hpush).2.2.1 hc hcall hl⟩

-- A worker whose entry a `stop` already took pushes its own id on its way out: when the consumer's
-- `stop` of the id comes to its take, with the map free, the entry is not in the map, and no take
-- took it out after the push.
theorem self_stop_after_removal_finds_nothing :
    let pre : List QueueStep := [.scheduler (.start (Uuid.ofNat 1)), .scheduler (.check 0),
      .scheduler (.init 0 none), .scheduler (.lock 0), .scheduler (.insert 0),
      .scheduler (.stop (Uuid.ofNat 1)), .scheduler (.take 1), .scheduler (.hook 1)]
    let r : StopRequest := ⟨Uuid.ofNat 1, some 0⟩
    let q₁ := (fresh (Uuid.ofNat 9)).run pre
    let q₂ := (q₁.step (.push r)).run [.receive]
    q₁.canPush r = true ∧ q₂.pushed = [r] ∧ q₂.consumer = .stopping 2 ∧
      q₂.scheduler.calls[2]? = some (.stop r.id .taking) ∧ q₂.scheduler.lock = none ∧
      ⟨r.id, 0⟩ ∉ q₂.scheduler.hosted ∧ ¬ TakenOut ⟨r.id, 0⟩ 2 (q₁.step (.push r)) [.receive] ∧
      ∃ x ∈ q₁.scheduler.held, x.entry = ⟨r.id, 0⟩ ∧ x.call ≠ 2 := by
  intro pre r q₁ q₂
  refine ⟨by decide, by decide, by decide, by decide, by decide, by decide, ?_, by decide⟩
  simp [TakenOut, TakesOut]

end StopQueue

end MediaRelay
