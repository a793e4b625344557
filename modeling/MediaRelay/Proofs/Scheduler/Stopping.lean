import Mathlib
import MediaRelay.Proofs.Scheduler.SelfStop

-- What a stop does for good. The start of a worker spawns its task with the map locked and only
-- lets the map go once it has inserted the entry, so a stop that takes from the free map finds
-- no start of its id half done. When every start of the id has got past its spawn, its take
-- therefore leaves the id out of the map for good (`Retired`): nothing can insert it again as
-- long as no new start of that id begins.

namespace MediaRelay

namespace Scheduler

variable {s : Scheduler} {c : Nat} {id : Uuid} {st : SchedulerStep}

-- a start that has spawned its task holds the lock until it has inserted the entry
def LockHeld (s : Scheduler) : Prop :=
  ∀ (c : Nat) (w : Uuid) (n : Nat), s.calls[c]? = some (.start w .spawned n) →
    ∃ e, s.lock = some (c, e)

-- a start past its spawn has left its task behind
def SpawnsKept (s : Scheduler) : Prop :=
  ∀ (c : Nat) (w : Uuid) (p : StartPhase) (n : Nat), s.calls[c]? = some (.start w p n) →
    p.launched = true → ∃ (i : Nat) (t : Task), s.tasks[i]? = some t ∧ t.worker = w

-- no two starts are of one worker
def StartsApart (s : Scheduler) : Prop :=
  ∀ (c c' : Nat) (w : Uuid) (p p' : StartPhase) (n n' : Nat), s.calls[c]? = some (.start w p n) →
    s.calls[c']? = some (.start w p' n') → c = c'

-- some task was spawned for the id
def Spawned (s : Scheduler) (id : Uuid) : Prop :=
  ∃ (i : Nat) (t : Task), s.tasks[i]? = some t ∧ t.worker = id

-- every start of the id has inserted its entry and returned
def StartsReturned (s : Scheduler) (id : Uuid) : Prop :=
  ∀ (c : Nat) (p : StartPhase) (n : Nat), s.calls[c]? = some (.start id p n) → p = .returned none

-- the id is out of the map, and no start of it is under way
def Retired (s : Scheduler) (id : Uuid) : Prop :=
  s.StartsReturned id ∧ ∀ e ∈ s.mapped, e.id ≠ id

-- the call `c` stops the id, a spawned one, and once past its take has retired it
def Stopping (s : Scheduler) (c : Nat) (id : Uuid) : Prop :=
  s.Spawned id ∧ ∃ p, s.calls[c]? = some (.stop id p) ∧ (p ≠ .taking → s.Retired id)

theorem launched_cases {p : StartPhase} (h : p.launched = true) : p = .spawned ∨ p = .returned none := by
  cases p with
  | spawned => exact .inl rfl
  | returned f => cases f with
    | none => exact .inr rfl
    | some f => cases h
  | _ => cases h

theorem getElem?_set_cases {α : Type} {l : List α} {i j : Nat} {a x : α}
    (h : (l.set i a)[j]? = some x) : (j = i ∧ x = a) ∨ (j ≠ i ∧ l[j]? = some x) := by
  by_cases hji : j = i
  · subst hji
    have hlt : j < l.length := by simpa using (List.getElem?_eq_some_iff.mp h).1
    rw [List.getElem?_set_self hlt] at h
    exact .inl ⟨rfl, (Option.some.inj h).symm⟩
  · rw [List.getElem?_set_ne (Ne.symm hji)] at h
    exact .inr ⟨hji, h⟩

theorem start_ne_stopPhase {k : Call} {p : StopPhase} (hk : k.stopPhase? = some p) {w : Uuid}
    {p' : StartPhase} {n : Nat} : k.withPhase .returned ≠ .start w p' n := by
  cases k with
  | start => cases hk
  | stop => exact fun h => by cases h
  | stopAll => exact fun h => by cases h

-- How a step moves a start of `w` from phase `p` to `p'`: not at all, between phases short of the
-- spawn, from `locking` to `spawned` at the spawn, which locks the map with the entry of the new
-- task, or from `spawned` to its return at the insert.
def StartMove (s : Scheduler) (st : SchedulerStep) (c : Nat) (w : Uuid) (p p' : StartPhase) : Prop :=
  p = p' ∨ p.launched = false ∧ p'.launched = false ∧ (∀ f, p ≠ .returned f) ∨
    st = .lock c ∧ p = .locking ∧ p' = .spawned ∧ s.lock = none ∧
      (s.step st).lock = some (c, ⟨w, s.tasks.length⟩) ∧
      (s.step st).tasks = s.tasks ++ [{ worker := w, spawner := c }] ∨
    st = .insert c ∧ p = .spawned ∧ p' = .returned none

-- a start after a step was begun by it, or moved by it
theorem start_step (s : Scheduler) (st : SchedulerStep) {w : Uuid} {p' : StartPhase} {n' : Nat}
    (h : (s.step st).calls[c]? = some (.start w p' n')) :
    (st = .start w ∧ c = s.calls.length ∧ p' = .checking) ∨
      ∃ p n, s.calls[c]? = some (.start w p n) ∧ s.StartMove st c w p p' := by
  have same : s.calls[c]? = some (.start w p' n') → (st = .start w ∧ c = s.calls.length ∧
      p' = .checking) ∨ ∃ p n, s.calls[c]? = some (.start w p n) ∧ s.StartMove st c w p p' :=
    fun hc => .inr ⟨p', n', hc, .inl rfl⟩
  have short : ∀ {p n}, s.calls[c]? = some (.start w p n) → p.launched = false →
      p'.launched = false → (∀ f, p ≠ .returned f) → (st = .start w ∧ c = s.calls.length ∧
      p' = .checking) ∨ ∃ p n, s.calls[c]? = some (.start w p n) ∧ s.StartMove st c w p p' :=
    fun hc hl hl' hr => .inr ⟨_, _, hc, .inr (.inl ⟨hl, hl', hr⟩)⟩
  cases st with
  | start w₀ =>
    rcases getElem?_append_singleton h with h | ⟨rfl, hk⟩
    · exact same h
    · cases hk
      exact .inl ⟨rfl, rfl, rfl⟩
  | stop id₀ =>
    rcases getElem?_append_singleton h with h | ⟨-, hk⟩
    · exact same h
    · cases hk
  | stopAll =>
    rcases getElem?_append_singleton h with h | ⟨-, hk⟩
    · exact same h
    · cases hk
  | check c₀ =>
    change (s.check c₀).calls[c]? = _ at h
    rcases check_cases s c₀ with hs | ⟨w₀, n, hc, _, ⟨_, hs⟩ | ⟨_, hs⟩⟩ <;> rw [hs] at h
    · exact same h
    all_goals
      rcases getElem?_set_cases h with ⟨rfl, hk⟩ | ⟨-, h⟩
      · cases hk
        exact short hc rfl rfl fun _ h => by cases h
      · exact same h
  | init c₀ f =>
    change (s.init c₀ f).calls[c]? = _ at h
    rcases init_cases s c₀ f with hs | ⟨w₀, n, hc, ⟨f', _, hs⟩ | ⟨_, hs⟩⟩ <;> rw [hs] at h
    · exact same h
    all_goals
      rcases getElem?_set_cases h with ⟨rfl, hk⟩ | ⟨-, h⟩
      · cases hk
        exact short hc rfl rfl fun _ h => by cases h
      · exact same h
  | lock c₀ =>
    change (s.lockMap c₀).calls[c]? = _ at h
    rcases lockMap_cases s c₀ with hs | ⟨w₀, n, hc, hl, ⟨_, hs⟩ | ⟨_, hs⟩⟩ <;> rw [hs] at h
    · exact same h
    · rcases getElem?_set_cases h with ⟨rfl, hk⟩ | ⟨-, h⟩
      · cases hk
        exact short hc rfl rfl fun _ h => by cases h
      · exact same h
    · rcases getElem?_set_cases h with ⟨rfl, hk⟩ | ⟨-, h⟩
      · cases hk
        refine .inr ⟨_, _, hc, .inr (.inr (.inl ⟨rfl, rfl, rfl, hl, ?_, ?_⟩))⟩ <;>
          simp only [step, hs]
      · exact same h
  | insert c₀ =>
    change (s.insert c₀).calls[c]? = _ at h
    rcases insert_cases s c₀ with hs | ⟨w₀, n, e, hc, _, hs⟩ <;> rw [hs] at h
    · exact same h
    · rcases getElem?_set_cases h with ⟨rfl, hk⟩ | ⟨-, h⟩
      · cases hk
        exact .inr ⟨_, _, hc, .inr (.inr (.inr ⟨rfl, rfl, rfl⟩))⟩
      · exact same h
  | take c₀ =>
    change (s.take c₀).calls[c]? = _ at h
    rcases take_cases s c₀ with hs | ⟨_, _, _, _, _, hs⟩ | ⟨_, _, _, _, hs⟩ | ⟨_, _, _, hs⟩ |
      ⟨_, _, _, hs⟩ <;> rw [hs] at h
    · exact same h
    all_goals
      rcases getElem?_set_cases h with ⟨-, hk⟩ | ⟨-, h⟩
      · cases hk
      · exact same h
  | hook c₀ =>
    change (s.hook c₀).calls[c]? = _ at h
    rcases hook_cases s c₀ with hs | ⟨_, _, _, _, hs⟩ <;> rw [hs] at h <;> exact same h
  | join c₀ =>
    change (s.join c₀).calls[c]? = _ at h
    rcases join_cases s c₀ with hs | ⟨k, x, t, _, hp, _, _, _, _, hs⟩ <;> rw [hs] at h
    · exact same h
    · split at h
      · exact same h
      · rcases getElem?_set_cases h with ⟨-, hk⟩ | ⟨-, h⟩
        · exact absurd hk.symm (start_ne_stopPhase hp)
        · exact same h
  | exit t => exact same h

-- The lock changes only at a spawn, which takes the free map for a start at `locking`, and at an
-- insert, which lets it go.
theorem lock_step (s : Scheduler) (st : SchedulerStep) :
    (s.step st).lock = s.lock ∨
    (∃ c w n, st = .lock c ∧ s.calls[c]? = some (.start w .locking n) ∧ s.lock = none) ∨
    (∃ c e, st = .insert c ∧ s.lock = some (c, e) ∧ (s.step st).lock = none ∧
      ∃ w n, s.calls[c]? = some (.start w .spawned n) ∧
        (s.step st).calls[c]? = some (.start w (.returned none) n)) := by
  cases st with
  | check c₀ =>
    obtain ⟨k, hs⟩ := check_eq_setCall s c₀
    exact .inl (show (s.check c₀).lock = _ by rw [hs]; rfl)
  | init c₀ f =>
    obtain ⟨k, hs⟩ := init_eq_setCall s c₀ f
    exact .inl (show (s.init c₀ f).lock = _ by rw [hs]; rfl)
  | lock c₀ =>
    rcases lockMap_cases s c₀ with hs | ⟨w, n, hc, hl, ⟨_, hs⟩ | ⟨_, hs⟩⟩
    · exact .inl (show (s.lockMap c₀).lock = _ by rw [hs])
    · exact .inl (show (s.lockMap c₀).lock = _ by rw [hs]; rfl)
    · exact .inr (.inl ⟨c₀, w, n, rfl, hc, hl⟩)
  | insert c₀ =>
    rcases insert_cases s c₀ with hs | ⟨w, n, e, hc, hl, hs⟩
    · exact .inl (show (s.insert c₀).lock = _ by rw [hs])
    · refine .inr (.inr ⟨c₀, e, rfl, hl, show (s.insert c₀).lock = _ by rw [hs], w, n, hc, ?_⟩)
      show (s.insert c₀).calls[c₀]? = _
      rw [hs]
      exact List.getElem?_set_self (List.getElem?_eq_some_iff.mp hc).1
  | take c₀ => exact .inl (take_lock s c₀)
  | hook c₀ =>
    refine .inl (show (s.hook c₀).lock = _ from ?_)
    rcases hook_cases s c₀ with hs | ⟨_, _, _, _, hs⟩ <;> rw [hs]
  | join c₀ =>
    refine .inl (show (s.join c₀).lock = _ from ?_)
    rcases join_cases s c₀ with hs | ⟨_, _, _, _, _, _, _, _, _, hs⟩ <;> rw [hs]
  | exit t => exact .inl rfl
  | start => exact .inl rfl
  | stop => exact .inl rfl
  | stopAll => exact .inl rfl

-- a step keeps every task, with its worker
theorem task_step (s : Scheduler) (st : SchedulerStep) {i : Nat} {t : Task}
    (h : s.tasks[i]? = some t) : ∃ t', (s.step st).tasks[i]? = some t' ∧ t'.worker = t.worker := by
  -- a change made by `modify` that keeps the worker
  have modified : ∀ {f : Task → Task} (j : Nat), (∀ t, (f t).worker = t.worker) →
      ∃ t', (s.tasks.modify j f)[i]? = some t' ∧ t'.worker = t.worker := fun j hf => by
    refine ⟨if j = i then _ else t, by rw [List.getElem?_modify, h]; rfl, ?_⟩
    split <;> simp [hf]
  cases st with
  | lock c₀ =>
    rcases lockMap_cases s c₀ with hs | ⟨_, _, _, _, ⟨_, hs⟩ | ⟨_, hs⟩⟩ <;>
      refine ⟨t, ?_, rfl⟩ <;> show (s.lockMap c₀).tasks[i]? = _ <;> rw [hs]
    · exact h
    · exact h
    · exact getElem?_append_of_eq_some h
  | hook c₀ =>
    change ∃ t', (s.hook c₀).tasks[i]? = _ ∧ _
    rcases hook_cases s c₀ with hs | ⟨x, _, _, _, hs⟩ <;> rw [hs]
    · exact ⟨t, h, rfl⟩
    · exact modified _ fun _ => rfl
  | join c₀ =>
    change ∃ t', (s.join c₀).tasks[i]? = _ ∧ _
    rcases join_cases s c₀ with hs | ⟨_, x, _, _, _, _, _, _, _, hs⟩ <;> rw [hs]
    · exact ⟨t, h, rfl⟩
    · exact modified _ fun _ => rfl
  | exit t₀ => exact modified t₀ fun _ => rfl
  | check c₀ =>
    obtain ⟨k, hs⟩ := check_eq_setCall s c₀
    exact ⟨t, show (s.check c₀).tasks[i]? = _ by rw [hs]; exact h, rfl⟩
  | init c₀ f =>
    obtain ⟨k, hs⟩ := init_eq_setCall s c₀ f
    exact ⟨t, show (s.init c₀ f).tasks[i]? = _ by rw [hs]; exact h, rfl⟩
  | insert c₀ =>
    refine ⟨t, show (s.insert c₀).tasks[i]? = _ from ?_, rfl⟩
    rcases insert_cases s c₀ with hs | ⟨_, _, _, _, _, hs⟩ <;> rw [hs] <;> exact h
  | take c₀ =>
    refine ⟨t, show (s.take c₀).tasks[i]? = _ from ?_, rfl⟩
    rcases take_cases s c₀ with hs | ⟨_, _, _, _, _, hs⟩ | ⟨_, _, _, _, hs⟩ | ⟨_, _, _, hs⟩ |
      ⟨_, _, _, hs⟩ <;> rw [hs] <;> exact h
  | start => exact ⟨t, h, rfl⟩
  | stop => exact ⟨t, h, rfl⟩
  | stopAll => exact ⟨t, h, rfl⟩

-- a start call stays a start of its worker, spawned once it has spawned
theorem start_call_step (s : Scheduler) (st : SchedulerStep) {w : Uuid} {p : StartPhase} {n : Nat}
    (hc : s.calls[c]? = some (.start w p n)) :
    ∃ p' n', (s.step st).calls[c]? = some (.start w p' n') ∧ (p.launched = true → p'.launched = true) := by
  rcases calls_step s st with hs | ⟨k, hs⟩ | ⟨c', k₀, k, hc', hadv, hs, -⟩ <;> rw [hs]
  · exact ⟨p, n, hc, id⟩
  · exact ⟨p, n, getElem?_append_of_eq_some hc, id⟩
  · by_cases hcc : c' = c
    · subst hcc
      rw [hc] at hc'
      cases hc'
      rw [List.getElem?_set_self (List.getElem?_eq_some_iff.mp hc).1]
      cases k with
      | start w' p' n' =>
        obtain ⟨rfl, hl, -⟩ := hadv
        exact ⟨p', n', rfl, hl⟩
      | stop => exact hadv.elim
      | stopAll => exact hadv.elim
    · rw [List.getElem?_set_ne hcc]
      exact ⟨p, n, hc, id⟩

theorem Spawned.step (h : s.Spawned id) (st : SchedulerStep) : (s.step st).Spawned id := by
  obtain ⟨i, t, ht, rfl⟩ := h
  obtain ⟨t', ht', hw⟩ := task_step s st ht
  exact ⟨i, t', ht', hw⟩

theorem lockHeld_empty : ({} : Scheduler).LockHeld :=
  fun _ _ _ h => by simp at h

theorem LockHeld.step (h : s.LockHeld) (st : SchedulerStep) : (s.step st).LockHeld := by
  intro c w n hc
  rcases start_step s st hc with ⟨-, -, hp⟩ | ⟨p, n₀, hc₀, rfl | ⟨-, hl, -⟩ | ⟨rfl, -, -, -, hl, -⟩ |
      ⟨-, -, hp⟩⟩
  · cases hp
  · -- the start was spawned already: the lock is its own, and only its insert lets it go
    obtain ⟨e, he⟩ := h c w n₀ hc₀
    rcases lock_step s st with hl | ⟨_, _, _, _, _, hl⟩ | ⟨c', e', _, hl, _, _, _, _, hc'⟩
    · exact ⟨e, hl.trans he⟩
    · rw [he] at hl
      cases hl
    · rw [he] at hl
      cases hl
      rw [hc] at hc'
      cases hc'
  · cases hl
  · exact ⟨_, hl⟩
  · cases hp

theorem spawnsKept_empty : ({} : Scheduler).SpawnsKept :=
  fun _ _ _ _ h => by simp at h

theorem SpawnsKept.step (h : s.SpawnsKept) (st : SchedulerStep) : (s.step st).SpawnsKept := by
  intro c w p' n' hc hl
  rcases start_step s st hc with ⟨-, -, rfl⟩ | ⟨p, n, hc₀, rfl | ⟨-, hl', -⟩ |
      ⟨rfl, -, -, -, -, ht⟩ | ⟨-, rfl, -⟩⟩
  · cases hl
  · obtain ⟨i, t, hi, rfl⟩ := h c _ p n hc₀ hl
    exact Spawned.step ⟨i, t, hi, rfl⟩ st
  · rw [hl] at hl'
    cases hl'
  · -- the spawn leaves the new task at the end
    exact ⟨s.tasks.length, { worker := w, spawner := c }, by rw [ht]; simp, rfl⟩
  · obtain ⟨i, t, hi, rfl⟩ := h c _ .spawned n hc₀ rfl
    exact Spawned.step ⟨i, t, hi, rfl⟩ st

theorem startsApart_empty : ({} : Scheduler).StartsApart :=
  fun _ _ _ _ _ _ _ h => by simp at h

-- a step keeps the starts apart, unless it begins a start of a worker that has one already
theorem StartsApart.step (h : s.StartsApart) (st : SchedulerStep)
    (hst : ∀ w, st = .start w → ∀ (c : Nat) (p : StartPhase) (n : Nat), s.calls[c]? ≠ some (.start w p n)) :
    (s.step st).StartsApart := by
  intro c c' w p p' n n' hc hc'
  rcases start_step s st hc with ⟨hw, hcl, -⟩ | ⟨_, _, hc₀, -⟩ <;>
    rcases start_step s st hc' with ⟨-, hcl', -⟩ | ⟨_, _, hc₀', -⟩
  · exact hcl.trans hcl'.symm
  · exact absurd hc₀' (hst w hw _ _ _)
  · obtain ⟨hw, -, -⟩ := (start_step s st hc').resolve_right fun ⟨_, _, h', _⟩ => by
      rw [List.getElem?_eq_none (by omega)] at h'; cases h'
    exact absurd hc₀ (hst w hw _ _ _)
  · exact h _ _ _ _ _ _ _ hc₀ hc₀'

theorem StartsReturned.step (h : s.StartsReturned id) (hst : st ≠ .start id) :
    (s.step st).StartsReturned id := by
  intro c p' n' hc
  rcases start_step s st hc with ⟨rfl, -, -⟩ | ⟨p, n, hc₀, rfl | ⟨-, -, hr⟩ | ⟨-, hp, -⟩ |
      ⟨-, hp, -⟩⟩
  · exact absurd rfl hst
  · exact h c p n hc₀
  · exact absurd (h c p n hc₀) (hr none)
  · rw [h c p n hc₀] at hp
    cases hp
  · rw [h c p n hc₀] at hp
    cases hp

-- An entry of the map after a step was in it before, or belongs to a start at `locking` that the
-- step spawned.
theorem Sound.mem_mapped_step (hs : s.Sound) (st : SchedulerStep) {e : Entry}
    (he : e ∈ (s.step st).mapped) :
    e ∈ s.mapped ∨ ∃ (c : Nat) (n : Nat), s.calls[c]? = some (.start e.id .locking n) := by
  rcases hs.mapped_step st with hp | ⟨c, w, rfl, -⟩ | ⟨c, -, hsub⟩
  · exact .inl (hp.subset he)
  · change e ∈ (s.lockMap c).mapped at he
    rcases lockMap_cases s c with hm | ⟨w', n, hc, hl, ⟨_, hm⟩ | ⟨_, hm⟩⟩ <;> rw [hm] at he
    · exact .inl he
    · exact .inl he
    · simp only [mapped, Option.toList_some, List.map_cons, List.map_nil, List.cons_append,
        List.mem_cons] at he
      rcases he with rfl | he
      · exact .inr ⟨c, n, hc⟩
      · exact .inl (by simpa [mapped, hl] using he)
  · exact .inl (hsub.subset he)

theorem Retired.step (h : s.Retired id) (hs : s.Sound) (hst : st ≠ .start id) :
    (s.step st).Retired id := by
  refine ⟨h.1.step hst, fun e he hid => ?_⟩
  rcases hs.mem_mapped_step st he with he | ⟨c, n, hc⟩
  · exact h.2 e he hid
  · -- a start of the id at `locking` would not have returned
    rw [hid] at hc
    cases h.1 c _ n hc

-- The take of a stop: a stop moves from its take only at its own take, which finds the map free
-- and leaves no entry of its id in it.
theorem taking_step (hc : s.calls[c]? = some (.stop id .taking)) (st : SchedulerStep)
    (h : (s.step st).calls[c]? ≠ some (.stop id .taking)) :
    st = .take c ∧ s.lock = none ∧ ∀ e ∈ (s.step st).mapped, e.id ≠ id := by
  have hst : st = .take c := by
    rcases calls_step s st with hs | ⟨k, hs⟩ | hmove
    · rw [hs] at h
      exact absurd hc h
    · rw [hs] at h
      exact absurd (getElem?_append_of_eq_some hc) h
    · obtain ⟨c', k₀, k, hc', -, hs, htake⟩ := hmove
      rw [hs] at h
      by_cases hcc : c' = c
      · subst hcc
        have hk : k₀ = .stop id .taking := Option.some.inj (hc'.symm.trans hc)
        exact htake (by rw [hk]; rfl)
      · exact absurd ((List.getElem?_set_ne hcc).trans hc) h
  subst hst
  change (s.take c).calls[c]? ≠ _ at h
  refine ⟨rfl, ?_⟩
  rcases take_cases s c with hs | ⟨id', e, hc', hl, _, hs⟩ | ⟨id', hc', hl, hf, hs⟩ | ⟨hc', _⟩ |
    ⟨hc', _⟩
  · exact absurd (by rw [hs]; exact hc) h
  · rw [hc] at hc'
    cases hc'
    refine ⟨hl, fun e he => ?_⟩
    change e ∈ (s.take c).mapped at he
    simp only [hs, mapped, hl, Option.toList_none, List.map_nil, List.nil_append, List.mem_filter,
      bne_iff_ne, ne_eq] at he
    exact he.2
  · rw [hc] at hc'
    cases hc'
    refine ⟨hl, fun e he hid => ?_⟩
    change e ∈ (s.take c).mapped at he
    rw [hs] at he
    simp only [setCall, mapped, hl, Option.toList_none, List.map_nil, List.nil_append] at he
    exact absurd (List.find?_eq_none.mp hf e he) (by simp [hid])
  · rw [hc] at hc'
    cases hc'
  · rw [hc] at hc'
    cases hc'

-- With the map free, every start of a spawned id has inserted its entry and returned.
theorem Sound.startsReturned (hs : s.Sound) (hl : s.LockHeld) (hu : s.StartsApart)
    (hlock : s.lock = none) (hsp : s.Spawned id) : s.StartsReturned id := by
  obtain ⟨i, t, ht, rfl⟩ := hsp
  obtain ⟨p, n, hc, hp⟩ := hs.spawners i t ht
  intro c p' n' hc'
  obtain rfl := hu _ _ _ _ _ _ _ hc hc'
  rw [hc] at hc'
  cases hc'
  rcases launched_cases hp with rfl | rfl
  · obtain ⟨e, he⟩ := hl _ _ _ hc
    rw [hlock] at he
    cases he
  · rfl

theorem Stopping.step (h : s.Stopping c id) (hs : s.Sound) (hl : s.LockHeld) (hu : s.StartsApart)
    (hst : st ≠ .start id) : (s.step st).Stopping c id := by
  obtain ⟨hsp, p, hc, hr⟩ := h
  obtain ⟨p', hc'⟩ := stop_call_step s st hc
  refine ⟨hsp.step st, p', hc', fun hp' => ?_⟩
  by_cases hp : p = .taking
  · -- the step is the call's take, which found the map free
    subst hp
    have hne : (s.step st).calls[c]? ≠ some (.stop id .taking) := by
      rw [hc']
      exact fun h => hp' (by cases h; rfl)
    obtain ⟨rfl, hlock, hclear⟩ := taking_step hc st hne
    exact ⟨(hs.startsReturned hl hu hlock hsp).step hst, hclear⟩
  · exact (hr hp).step hs hst

theorem Retired.not_hosted (h : s.Retired id) : ∀ e ∈ s.hosted, e.id ≠ id :=
  fun e he => h.2 e (List.mem_append_right _ he)

-- a stop that has returned has retired its id
theorem Stopping.retired (h : s.Stopping c id) {id' : Uuid}
    (hc : s.calls[c]? = some (.stop id' .returned)) : s.Retired id := by
  obtain ⟨-, p, hp, hr⟩ := h
  rw [hp] at hc
  cases hc
  exact hr fun h => by cases h

-- sound, and every start is of a worker whose id was handed out, no two of one id
structure Steady (s : Scheduler) (ids : List Uuid) : Prop where
  sound : s.Sound
  lockHeld : s.LockHeld
  spawnsKept : s.SpawnsKept
  startsApart : s.StartsApart
  issued : ∀ (c : Nat) (w : Uuid) (p : StartPhase) (n : Nat), s.calls[c]? = some (.start w p n) →
    w ∈ ids

variable {ids ids' : List Uuid} {s' : Scheduler}

theorem steady_empty (ids : List Uuid) : ({} : Scheduler).Steady ids :=
  ⟨sound_empty, lockHeld_empty, spawnsKept_empty, startsApart_empty, fun _ _ _ _ h => by simp at h⟩

theorem Steady.step (h : s.Steady ids) (hst : ∀ w, st ≠ .start w) : (s.step st).Steady ids where
  sound := h.sound.step st
  lockHeld := h.lockHeld.step st
  spawnsKept := h.spawnsKept.step st
  startsApart := h.startsApart.step st fun w hw => absurd hw (hst w)
  issued c w p n hc := by
    rcases start_step s st hc with ⟨hw, -, -⟩ | ⟨p₀, n₀, hc₀, -⟩
    · exact absurd hw (hst w)
    · exact h.issued c w p₀ n₀ hc₀

-- the start of a worker under an id not handed out yet hands it out
theorem Steady.start (h : s.Steady ids) {w : Uuid} (hw : w ∉ ids) :
    (s.step (.start w)).Steady (ids ++ [w]) where
  sound := h.sound.step _
  lockHeld := h.lockHeld.step _
  spawnsKept := h.spawnsKept.step _
  startsApart := h.startsApart.step _ fun w' hw' c p n hc => by
    cases hw'
    exact hw (h.issued c _ p n hc)
  issued c w' p n hc := by
    rcases start_step s _ hc with ⟨hw', -, -⟩ | ⟨p₀, n₀, hc₀, -⟩
    · cases hw'
      exact List.mem_append_right _ (List.mem_singleton_self _)
    · exact List.mem_append_left _ (h.issued c w' p₀ n₀ hc₀)

theorem Steady.mem_of_spawned (h : s.Steady ids) (hsp : s.Spawned id) : id ∈ ids := by
  obtain ⟨i, t, ht, rfl⟩ := hsp
  obtain ⟨p, n, hc, -⟩ := h.sound.spawners i t ht
  exact h.issued _ _ _ _ hc

-- The scheduler of the relay moves by steps each of which starts no worker, or starts one under
-- an id not handed out yet, which it then hands out.
inductive Moves (ids : List Uuid) (s : Scheduler) : List Uuid → Scheduler → Prop
  | refl : Moves ids s ids s
  | step {ids' : List Uuid} {s' : Scheduler} (st : SchedulerStep) :
      (∀ w, st ≠ .start w) → Moves ids s ids' s' → Moves ids s ids' (s'.step st)
  | start {ids' : List Uuid} {s' : Scheduler} (w : Uuid) :
      w ∉ ids' → Moves ids s ids' s' → Moves ids s (ids' ++ [w]) (s'.step (.start w))

theorem Moves.of_step (hst : ∀ w, st ≠ .start w) : Moves ids s ids (s.step st) :=
  .step st hst .refl

theorem Moves.steady (hm : Moves ids s ids' s') (h : s.Steady ids) : s'.Steady ids' := by
  induction hm with
  | refl => exact h
  | step st hst _ ih => exact ih.step hst
  | start w hw _ ih => exact ih.start hw

theorem Moves.spawned (hm : Moves ids s ids' s') (h : s.Spawned id) : s'.Spawned id := by
  induction hm with
  | refl => exact h
  | step st _ _ ih => exact ih.step st
  | start w _ _ ih => exact ih.step _

theorem Moves.length_calls (hm : Moves ids s ids' s') : s.calls.length ≤ s'.calls.length := by
  induction hm with
  | refl => exact le_rfl
  | step st _ _ ih => exact ih.trans (length_calls_step _ st)
  | start w _ _ ih => exact ih.trans (length_calls_step _ _)

-- a start call stays a start of its worker, launched once it has launched
theorem Moves.start_call (hm : Moves ids s ids' s') {w : Uuid} {p : StartPhase} {n : Nat}
    (hc : s.calls[c]? = some (.start w p n)) :
    ∃ p' n', s'.calls[c]? = some (.start w p' n') ∧ (p.launched = true → p'.launched = true) := by
  induction hm with
  | refl => exact ⟨p, n, hc, id⟩
  | step st _ _ ih =>
    obtain ⟨p₁, n₁, hc₁, hl₁⟩ := ih
    obtain ⟨p₂, n₂, hc₂, hl₂⟩ := start_call_step _ st hc₁
    exact ⟨p₂, n₂, hc₂, hl₂ ∘ hl₁⟩
  | start w' _ _ ih =>
    obtain ⟨p₁, n₁, hc₁, hl₁⟩ := ih
    obtain ⟨p₂, n₂, hc₂, hl₂⟩ := start_call_step _ (.start w') hc₁
    exact ⟨p₂, n₂, hc₂, hl₂ ∘ hl₁⟩

end Scheduler

end MediaRelay
