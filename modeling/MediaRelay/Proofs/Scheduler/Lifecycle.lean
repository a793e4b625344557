import Mathlib
import MediaRelay.Scheduler.Basic

-- Whatever the interleaving of the calls of `start`, `stop` and `stop_all`, every task the
-- scheduler spawned is in exactly one place: about to be inserted (with the lock), in the map, held
-- by one stopping call, or finished. Its stop hook has been called and its await has completed as
-- often as that place says (`Accounted`), and the calls agree with what they hold (`Consistent`).
-- Every step keeps both (`Sound.step`), hence every run from the empty scheduler does
-- (`sound_run`).

namespace MediaRelay

namespace StartPhase

def launched : StartPhase → Bool
  | .spawned => true
  | .returned none => true
  | _ => false

def Inits : StartPhase → Nat → Prop
  | .checking, n => n = 0
  | .returned (some _), n => n ≤ 1
  | _, n => n = 1

end StartPhase

namespace Call

-- Whether a call holds something of the scheduler's: the task it spawned, or entries it took.
def holds : Call → Bool
  | .start _ p _ => p.launched
  | .stop _ p => p == .finishing
  | .stopAll p => p == .finishing

def InitsOk : Call → Prop
  | .start _ p n => p.Inits n
  | _ => True

def done : Call → Bool
  | .start _ (.returned _) _ => true
  | .stop _ p => p == .returned
  | .stopAll p => p == .returned
  | _ => false

end Call

namespace Scheduler

variable {s s' : Scheduler} {c : Nat} {k k' : Call}

def mapped (s : Scheduler) : List Entry :=
  s.lock.toList.map Prod.snd ++ s.hosted

-- The entries of the tasks not finished: in the map, about to be, or held by a call.
def places (s : Scheduler) : List Entry :=
  s.mapped ++ s.held.map Held.entry

def Settled (s : Scheduler) : Prop :=
  ∀ k ∈ s.calls, k.done = true

instance : DecidablePred Settled := fun s =>
  inferInstanceAs (Decidable (∀ k ∈ s.calls, k.done = true))

-- Every task spawned is in one place, and has been stopped and awaited as that place says.
structure Accounted (s : Scheduler) : Prop where
  distinct : (s.places.map Entry.task).Nodup
  -- No id is in the map twice, nor both in the map and about to be.
  unique : (s.mapped.map Entry.id).Nodup
  spawned : ∀ e ∈ s.places, ∃ t : Task, s.tasks[e.task]? = some t ∧ t.worker = e.id
  -- A task in the map, or about to be, has not been stopped or awaited.
  fresh : ∀ e ∈ s.mapped, ∀ t : Task, s.tasks[e.task]? = some t → t.hooks = 0 ∧ t.joins = 0
  -- A held task has been stopped as far as its call has got, and not awaited.
  holding : ∀ x ∈ s.held, ∀ t : Task, s.tasks[x.entry.task]? = some t →
    t.hooks = x.hooked.toNat ∧ t.joins = 0
  finished : ∀ (i : Nat) (t : Task), s.tasks[i]? = some t → i ∉ s.places.map Entry.task →
    t.hooks = 1 ∧ t.joins = 1

structure Consistent (s : Scheduler) : Prop where
  -- The lock is held by a start whose task is spawned, with the entry of its worker.
  locked : ∀ (c : Nat) (e : Entry), s.lock = some (c, e) → ∃ n, s.calls[c]? = some (.start e.id .spawned n)
  -- A held entry belongs to a call finishing it: a stop of its id, or a stop of all.
  holders : ∀ x ∈ s.held, s.calls[x.call]? = some (.stop x.entry.id .finishing) ∨
    s.calls[x.call]? = some (.stopAll .finishing)
  -- A task was spawned by a start of its worker that got past the spawn.
  spawners : ∀ (i : Nat) (t : Task), s.tasks[i]? = some t →
    ∃ (p : StartPhase) (n : Nat), s.calls[t.spawner]? = some (.start t.worker p n) ∧ p.launched
  inits : ∀ (c : Nat) (k : Call), s.calls[c]? = some k → k.InitsOk

structure Sound (s : Scheduler) : Prop extends Accounted s, Consistent s

theorem mapped_of_lock_none (h : s.lock = none) : s.mapped = s.hosted := by
  simp [mapped, h]

theorem mem_of_current? {x : Held} (h : s.current? c = some x) : x ∈ s.held ∧ x.call = c :=
  ⟨List.mem_of_find?_eq_some h, by simpa using List.find?_some h⟩

theorem check_cases (s : Scheduler) (c : Nat) :
    s.check c = s ∨ ∃ w n, s.calls[c]? = some (.start w .checking n) ∧ s.lock = none ∧
      (s.hosts w = true ∧
          s.check c = s.setCall c (.start w (.returned (some (.alreadyStarted w))) n) ∨
        s.hosts w = false ∧ s.check c = s.setCall c (.start w .initializing (n + 1))) := by
  unfold check
  split
  · next w n hc hl =>
    refine .inr ⟨w, n, hc, hl, ?_⟩
    cases hw : s.hosts w
    · exact .inr ⟨rfl, by simp⟩
    · exact .inl ⟨rfl, by simp⟩
  · exact .inl rfl

theorem init_cases (s : Scheduler) (c : Nat) (fault? : Option Fault) :
    s.init c fault? = s ∨ ∃ w n, s.calls[c]? = some (.start w .initializing n) ∧
      ((∃ f, fault? = some f ∧ s.init c fault? = s.setCall c (.start w (.returned (some f)) n)) ∨
        fault? = none ∧ s.init c fault? = s.setCall c (.start w .locking n)) := by
  unfold init
  split
  · next w n hc =>
    refine .inr ⟨w, n, hc, ?_⟩
    cases fault? with
    | some f => exact .inl ⟨f, rfl, rfl⟩
    | none => exact .inr ⟨rfl, rfl⟩
  · exact .inl rfl

theorem lockMap_cases (s : Scheduler) (c : Nat) :
    s.lockMap c = s ∨ ∃ w n, s.calls[c]? = some (.start w .locking n) ∧ s.lock = none ∧
      (s.hosts w = true ∧
          s.lockMap c = s.setCall c (.start w (.returned (some (.alreadyStarted w))) n) ∨
        s.hosts w = false ∧
          s.lockMap c = { s with lock := some (c, ⟨w, s.tasks.length⟩),
                                 tasks := s.tasks ++ [{ worker := w, spawner := c }],
                                 calls := s.calls.set c (.start w .spawned n) }) := by
  unfold lockMap
  split
  · next w n hc hl =>
    refine .inr ⟨w, n, hc, hl, ?_⟩
    cases hw : s.hosts w
    · exact .inr ⟨rfl, by simp⟩
    · exact .inl ⟨rfl, by simp⟩
  · exact .inl rfl

theorem insert_cases (s : Scheduler) (c : Nat) :
    s.insert c = s ∨ ∃ w n e, s.calls[c]? = some (.start w .spawned n) ∧ s.lock = some (c, e) ∧
      s.insert c = { s with hosted := s.hosted.filter (·.id != e.id) ++ [e], lock := none,
                            calls := s.calls.set c (.start w (.returned none) n) } := by
  unfold insert
  split
  · next w n c' e hc hl =>
    by_cases hcc : c' = c
    · subst hcc
      exact .inr ⟨w, n, e, hc, hl, by simp⟩
    · exact .inl (by simp [hcc])
  · exact .inl rfl

theorem take_cases (s : Scheduler) (c : Nat) :
    s.take c = s ∨
    (∃ id e, s.calls[c]? = some (.stop id .taking) ∧ s.lock = none ∧
      s.hosted.find? (·.id == id) = some e ∧
      s.take c = { s with hosted := s.hosted.filter (·.id != id),
                          held := s.held ++ [{ call := c, entry := e }],
                          calls := s.calls.set c (.stop id .finishing) }) ∨
    (∃ id, s.calls[c]? = some (.stop id .taking) ∧ s.lock = none ∧
      s.hosted.find? (·.id == id) = none ∧ s.take c = s.setCall c (.stop id .returned)) ∨
    (s.calls[c]? = some (.stopAll .taking) ∧ s.lock = none ∧ s.hosted = [] ∧
      s.take c = s.setCall c (.stopAll .returned)) ∨
    (s.calls[c]? = some (.stopAll .taking) ∧ s.lock = none ∧ s.hosted ≠ [] ∧
      s.take c = { s with hosted := [], held := s.held ++ s.hosted.map ({ call := c, entry := · }),
                          calls := s.calls.set c (.stopAll .finishing) }) := by
  unfold take
  split
  · next id hc hl =>
    cases he : s.hosted.find? (·.id == id) with
    | some e => exact .inr (.inl ⟨id, e, hc, hl, he, by simp⟩)
    | none => exact .inr (.inr (.inl ⟨id, hc, hl, he, by simp⟩))
  · next hc hl =>
    by_cases hh : s.hosted = []
    · exact .inr (.inr (.inr (.inl ⟨hc, hl, hh, by simp [hh]⟩)))
    · exact .inr (.inr (.inr (.inr ⟨hc, hl, hh, by simp [hh]⟩)))
  · exact .inl rfl

theorem hook_cases (s : Scheduler) (c : Nat) :
    s.hook c = s ∨ ∃ x, s.calls[c]?.bind Call.stopPhase? = some .finishing ∧
      s.current? c = some x ∧ x.hooked = false ∧
      s.hook c = { s with held := s.held.map (fun y => if y = x then { y with hooked := true } else y),
                          tasks := s.tasks.modify x.entry.task
                            fun t => { t with hooks := t.hooks + 1 } } := by
  unfold hook
  split
  · next x hp hx =>
    cases hh : x.hooked
    · exact .inr ⟨x, hp, hx, hh, by simp⟩
    · exact .inl (by simp)
  · exact .inl rfl

theorem join_cases (s : Scheduler) (c : Nat) :
    s.join c = s ∨ ∃ k x t, s.calls[c]? = some k ∧ k.stopPhase? = some .finishing ∧
      s.current? c = some x ∧ s.tasks[x.entry.task]? = some t ∧ x.hooked = true ∧
      t.ended = true ∧
      s.join c = { s with held := s.held.erase x,
                          tasks := s.tasks.modify x.entry.task
                            fun t => { t with joins := t.joins + 1 },
                          calls := if (s.held.erase x).any (·.call == c) then s.calls
                                   else s.calls.set c (k.withPhase .returned) } := by
  unfold join
  split
  · next k x hc hx =>
    split
    · next t hp ht =>
      by_cases hj : x.hooked && t.ended
      · obtain ⟨hh, he⟩ := Bool.and_eq_true_iff.mp hj
        exact .inr ⟨k, x, t, hc, hp, hx, ht, hh, he, by simp [hj]⟩
      · exact .inl (by simp [hj])
    · exact .inl rfl
  · exact .inl rfl

theorem getElem?_append_singleton {α : Type} {l : List α} {a x : α} {i : Nat}
    (h : (l ++ [a])[i]? = some x) : l[i]? = some x ∨ i = l.length ∧ x = a := by
  rw [List.getElem?_append] at h
  split at h
  · exact .inl h
  · right
    rw [List.getElem?_singleton] at h
    split at h
    · cases h
      exact ⟨by omega, rfl⟩
    · cases h

theorem getElem?_append_of_eq_some {α : Type} {l l' : List α} {x : α} {i : Nat}
    (h : l[i]? = some x) : (l ++ l')[i]? = some x := by
  rw [List.getElem?_append_left (List.getElem?_eq_some_iff.mp h).1, h]

theorem getElem?_modify_of_eq_some {α : Type} {l : List α} {f : α → α} {i j : Nat} {a : α}
    (h : (l.modify i f)[j]? = some a) : ∃ b, l[j]? = some b ∧ a = if i = j then f b else b := by
  rw [List.getElem?_modify] at h
  cases hb : l[j]? with
  | none => simp [hb] at h
  | some b =>
    simp only [hb, Option.map_eq_map, Option.map_some, Option.some.injEq] at h
    exact ⟨b, rfl, h.symm⟩

theorem filter_id_ne_eq_erase {l : List Entry} (hl : (l.map Entry.id).Nodup) {e : Entry}
    (he : e ∈ l) : l.filter (·.id != e.id) = l.erase e := by
  induction l with
  | nil => cases he
  | cons x xs ih =>
    rw [List.map_cons, List.nodup_cons] at hl
    by_cases hx : x = e
    · subst hx
      rw [List.erase_cons_head, List.filter_cons_of_neg (by simp), List.filter_eq_self]
      intro y hy
      have hne : y.id ≠ x.id := fun heq => hl.1 (heq ▸ List.mem_map_of_mem hy)
      simpa using hne
    · have he' : e ∈ xs := (List.mem_cons.mp he).resolve_left (Ne.symm hx)
      have hid : x.id ≠ e.id := fun heq => hl.1 (heq ▸ List.mem_map_of_mem he')
      rw [List.erase_cons_tail (by simpa using hx), List.filter_cons_of_pos (by simpa using hid),
        ih hl.2 he']

theorem Accounted.lt_of_mem (h : s.Accounted) {e : Entry} (he : e ∈ s.places) :
    e.task < s.tasks.length := by
  obtain ⟨t, ht, -⟩ := h.spawned e he
  exact (List.getElem?_eq_some_iff.mp ht).1

theorem Accounted.task_ne (h : s.Accounted) {e : Entry} (he : e ∈ s.mapped) {x : Held}
    (hx : x ∈ s.held) : e.task ≠ x.entry.task := by
  have hnd := h.distinct
  rw [places, List.map_append, List.nodup_append] at hnd
  exact hnd.2.2 _ (List.mem_map_of_mem he) _ (by simpa using ⟨x, hx, rfl⟩)

theorem Accounted.held_inj (h : s.Accounted) {x y : Held} (hx : x ∈ s.held) (hy : y ∈ s.held)
    (hxy : x.entry.task = y.entry.task) : x = y := by
  have hnd := h.distinct
  rw [places, List.map_append, List.nodup_append, List.map_map] at hnd
  exact List.inj_on_of_nodup_map hnd.2.1 hx hy hxy

theorem Accounted.setCall (h : s.Accounted) (c : Nat) (k : Call) : (s.setCall c k).Accounted :=
  ⟨h.distinct, h.unique, h.spawned, h.fresh, h.holding, h.finished⟩

theorem Accounted.begin (h : s.Accounted) (k : Call) : (s.begin k).Accounted :=
  ⟨h.distinct, h.unique, h.spawned, h.fresh, h.holding, h.finished⟩

theorem Accounted.of_perm (h : s.Accounted) (hm : s'.mapped.Perm s.mapped)
    (hd : s'.held = s.held) (ht : s'.tasks = s.tasks) : s'.Accounted := by
  have hp : s'.places.Perm s.places := by
    rw [places, places, hd]
    exact hm.append_right _
  refine ⟨(hp.map _).nodup_iff.mpr h.distinct, (hm.map _).nodup_iff.mpr h.unique, ?_, ?_, ?_, ?_⟩
  · intro e he
    rw [ht]
    exact h.spawned e (hp.mem_iff.mp he)
  · intro e he t het
    rw [ht] at het
    exact h.fresh e (hm.mem_iff.mp he) t het
  · intro x hx t hxt
    rw [hd] at hx
    rw [ht] at hxt
    exact h.holding x hx t hxt
  · intro i t hi hni
    rw [ht] at hi
    exact h.finished i t hi (fun hm' => hni ((hp.map _).mem_iff.mpr hm'))

theorem Accounted.spawn (h : s.Accounted) (hl : s.lock = none) {w : Uuid} (hw : s.hosts w = false)
    (hl' : s'.lock = some (c, ⟨w, s.tasks.length⟩)) (hh : s'.hosted = s.hosted)
    (hd : s'.held = s.held) (ht : s'.tasks = s.tasks ++ [{ worker := w, spawner := c }]) :
    s'.Accounted := by
  have hm : s'.mapped = ⟨w, s.tasks.length⟩ :: s.mapped := by simp [mapped, hl, hl', hh]
  have hp : s'.places = ⟨w, s.tasks.length⟩ :: s.places := by simp [places, hm, hd]
  have hold : ∀ i, i < s.tasks.length → s'.tasks[i]? = s.tasks[i]? := fun i hi => by
    rw [ht, List.getElem?_append_left hi]
  have hnew : s'.tasks[s.tasks.length]? = some { worker := w, spawner := c } := by
    rw [ht, List.getElem?_concat_length]
  refine ⟨?_, ?_, ?_, ?_, ?_, ?_⟩
  · rw [hp, List.map_cons, List.nodup_cons]
    refine ⟨fun hmem => ?_, h.distinct⟩
    obtain ⟨e, he, heq⟩ := List.mem_map.mp hmem
    exact absurd heq (h.lt_of_mem he).ne
  · rw [hm, List.map_cons, List.nodup_cons]
    refine ⟨fun hmem => ?_, h.unique⟩
    obtain ⟨e, he, heq⟩ := List.mem_map.mp hmem
    rw [mapped_of_lock_none hl] at he
    have hany : s.hosts w = true := List.any_eq_true.mpr ⟨e, he, by simp [heq]⟩
    rw [hw] at hany
    cases hany
  · intro e he
    rw [hp] at he
    rcases List.mem_cons.mp he with rfl | he
    · exact ⟨_, hnew, rfl⟩
    · rw [hold _ (h.lt_of_mem he)]
      exact h.spawned e he
  · intro e he t het
    rw [hm] at he
    rcases List.mem_cons.mp he with rfl | he
    · rw [hnew] at het
      cases het
      exact ⟨rfl, rfl⟩
    · rw [hold _ (h.lt_of_mem (List.mem_append_left _ he))] at het
      exact h.fresh e he t het
  · intro x hx t hxt
    rw [hd] at hx
    rw [hold _ (h.lt_of_mem (List.mem_append_right _ (List.mem_map_of_mem hx)))] at hxt
    exact h.holding x hx t hxt
  · intro i t hi hni
    rw [hp, List.map_cons] at hni
    have hlen : i < s.tasks.length + 1 := by
      have := (List.getElem?_eq_some_iff.mp hi).1
      rw [ht, List.length_append, List.length_singleton] at this
      exact this
    have hne : i ≠ s.tasks.length := fun heq => hni (heq ▸ List.mem_cons_self)
    rw [hold i (by omega)] at hi
    exact h.finished i t hi (fun hmem => hni (List.mem_cons_of_mem _ hmem))

theorem Accounted.insert_perm (h : s.Accounted) {e : Entry} (hl : s.lock = some (c, e)) :
    (s.hosted.filter (·.id != e.id) ++ [e]).Perm s.mapped := by
  have hm : s.mapped = e :: s.hosted := by simp [mapped, hl]
  have hfree : s.hosted.filter (·.id != e.id) = s.hosted := by
    have hnd := h.unique
    rw [hm, List.map_cons, List.nodup_cons] at hnd
    refine List.filter_eq_self.mpr fun x hx => ?_
    have hne : x.id ≠ e.id := fun heq => hnd.1 (heq ▸ List.mem_map_of_mem hx)
    simpa using hne
  rw [hm, hfree]
  exact List.perm_append_singleton e s.hosted

theorem Accounted.insert (h : s.Accounted) {e : Entry} (hl : s.lock = some (c, e))
    (hl' : s'.lock = none) (hh : s'.hosted = s.hosted.filter (·.id != e.id) ++ [e])
    (hd : s'.held = s.held) (ht : s'.tasks = s.tasks) : s'.Accounted := by
  refine h.of_perm ?_ hd ht
  rw [mapped, hl', hh]
  exact h.insert_perm hl

theorem Accounted.release (h : s.Accounted) (hl : s.lock = none) (hl' : s'.lock = none)
    (hsub : s'.hosted.Sublist s.hosted)
    (hp : (s'.hosted ++ s'.held.map Held.entry).Perm (s.hosted ++ s.held.map Held.entry))
    (hnew : ∀ x ∈ s'.held, x ∈ s.held ∨ x.entry ∈ s.hosted ∧ x.hooked = false)
    (ht : s'.tasks = s.tasks) : s'.Accounted := by
  have hm : s'.mapped = s'.hosted := mapped_of_lock_none hl'
  have hm₀ : s.mapped = s.hosted := mapped_of_lock_none hl
  have hpl : s'.places.Perm s.places := by
    rw [places, places, hm, hm₀]
    exact hp
  refine ⟨(hpl.map _).nodup_iff.mpr h.distinct, ?_, ?_, ?_, ?_, ?_⟩
  · have hu := h.unique
    rw [hm₀] at hu
    rw [hm]
    exact (hsub.map _).nodup hu
  · intro e he
    rw [ht]
    exact h.spawned e (hpl.mem_iff.mp he)
  · intro e he t het
    rw [ht] at het
    rw [hm] at he
    exact h.fresh e (hm₀ ▸ hsub.subset he) t het
  · intro x hx t hxt
    rw [ht] at hxt
    rcases hnew x hx with hx | ⟨he, hk⟩
    · exact h.holding x hx t hxt
    · rw [hk]
      exact h.fresh x.entry (hm₀ ▸ he) t hxt
  · intro i t hi hni
    rw [ht] at hi
    exact h.finished i t hi (fun hmem => hni ((hpl.map _).mem_iff.mpr hmem))

theorem Accounted.hook (h : s.Accounted) {x : Held} (hx : x ∈ s.held) (hk : x.hooked = false)
    (hl' : s'.lock = s.lock) (hh : s'.hosted = s.hosted)
    (hd : s'.held = s.held.map (fun y => if y = x then { y with hooked := true } else y))
    (ht : s'.tasks = s.tasks.modify x.entry.task fun t => { t with hooks := t.hooks + 1 }) :
    s'.Accounted := by
  have hm : s'.mapped = s.mapped := by simp [mapped, hl', hh]
  have hentries : s'.held.map Held.entry = s.held.map Held.entry := by
    rw [hd, List.map_map]
    refine List.map_congr_left fun y _ => ?_
    by_cases hy : y = x <;> simp [hy]
  have hp : s'.places = s.places := by rw [places, places, hm, hentries]
  -- every task but the hooked one keeps its record
  have hother : ∀ i, i ≠ x.entry.task → s'.tasks[i]? = s.tasks[i]? := fun i hi => by
    rw [ht, List.getElem?_modify_ne _ _ (Ne.symm hi)]
  refine ⟨hp ▸ h.distinct, hm ▸ h.unique, ?_, ?_, ?_, ?_⟩
  · intro e he
    rw [hp] at he
    obtain ⟨t, het, hw⟩ := h.spawned e he
    rw [ht, List.getElem?_modify, het]
    exact ⟨_, rfl, by split <;> exact hw⟩
  · intro e he t het
    rw [hm] at he
    rw [hother _ (h.task_ne he hx)] at het
    exact h.fresh e he t het
  · intro y' hy' t hyt
    rw [hd] at hy'
    obtain ⟨y, hy, rfl⟩ := List.mem_map.mp hy'
    by_cases hyx : y = x
    · subst hyx
      rw [if_pos rfl] at hyt ⊢
      rw [ht] at hyt
      obtain ⟨t₀, ht₀, rfl⟩ := getElem?_modify_of_eq_some hyt
      have hc := h.holding y hy t₀ ht₀
      rw [hk] at hc
      simp at hc
      simp [hc]
    · have hne : y.entry.task ≠ x.entry.task := fun heq => hyx (h.held_inj hy hx heq)
      simp only [hyx, if_false] at hyt ⊢
      rw [hother _ hne] at hyt
      exact h.holding y hy t hyt
  · intro i t hi hni
    rw [hp] at hni
    have hne : i ≠ x.entry.task := fun heq =>
      hni (heq ▸ List.mem_map_of_mem (List.mem_append_right _ (List.mem_map_of_mem hx)))
    rw [hother i hne] at hi
    exact h.finished i t hi hni

theorem places_perm_erase {x : Held} (hx : x ∈ s.held) (hl' : s'.lock = s.lock)
    (hh : s'.hosted = s.hosted) (hd : s'.held = s.held.erase x) :
    s.places.Perm (x.entry :: s'.places) := by
  have hm : s'.mapped = s.mapped := by simp [mapped, hl', hh]
  rw [places, places, hm, hd]
  refine ((List.perm_cons_erase hx).map Held.entry |>.append_left s.mapped).trans ?_
  exact List.perm_middle

theorem Accounted.join (h : s.Accounted) {x : Held} (hx : x ∈ s.held) (hk : x.hooked = true)
    (hl' : s'.lock = s.lock) (hh : s'.hosted = s.hosted) (hd : s'.held = s.held.erase x)
    (ht : s'.tasks = s.tasks.modify x.entry.task fun t => { t with joins := t.joins + 1 }) :
    s'.Accounted := by
  have hm : s'.mapped = s.mapped := by simp [mapped, hl', hh]
  have hpl : s.places.Perm (x.entry :: s'.places) := places_perm_erase hx hl' hh hd
  have hnd : (x.entry.task :: s'.places.map Entry.task).Nodup :=
    (hpl.map Entry.task).nodup_iff.mp h.distinct
  rw [List.nodup_cons] at hnd
  have hother : ∀ i, i ≠ x.entry.task → s'.tasks[i]? = s.tasks[i]? := fun i hi => by
    rw [ht, List.getElem?_modify_ne _ _ (Ne.symm hi)]
  have hne : ∀ e ∈ s'.places, e.task ≠ x.entry.task := fun e he heq =>
    hnd.1 (heq ▸ List.mem_map_of_mem he)
  refine ⟨hnd.2, hm ▸ h.unique, ?_, ?_, ?_, ?_⟩
  · intro e he
    rw [hother _ (hne e he)]
    exact h.spawned e (hpl.mem_iff.mpr (List.mem_cons_of_mem _ he))
  · intro e he t het
    have he' : e ∈ s'.places := List.mem_append_left _ he
    rw [hother _ (hne e he')] at het
    exact h.fresh e (hm ▸ he) t het
  · intro y hy t hyt
    have he' : y.entry ∈ s'.places := List.mem_append_right _ (List.mem_map_of_mem hy)
    rw [hother _ (hne _ he')] at hyt
    rw [hd] at hy
    exact h.holding y (List.mem_of_mem_erase hy) t hyt
  · intro i t hi hni
    by_cases hix : i = x.entry.task
    · subst hix
      obtain ⟨t₀, ht₀, rfl⟩ := getElem?_modify_of_eq_some (ht ▸ hi)
      have hc := h.holding x hx t₀ ht₀
      rw [hk] at hc
      simp at hc
      simp [hc]
    · rw [hother i hix] at hi
      refine h.finished i t hi fun hmem => ?_
      rcases List.mem_cons.mp ((hpl.map Entry.task).mem_iff.mp hmem) with heq | hmem
      · exact hix heq
      · exact hni hmem

theorem Accounted.exit (h : s.Accounted) (t : Nat) : (s.exit t).Accounted := by
  -- every record keeps its worker and counts
  have hrec : ∀ i (r : Task), (s.exit t).tasks[i]? = some r →
      ∃ r₀ : Task, s.tasks[i]? = some r₀ ∧ r.worker = r₀.worker ∧ r.hooks = r₀.hooks ∧
        r.joins = r₀.joins := fun i r hr => by
    obtain ⟨r₀, hr₀, rfl⟩ := getElem?_modify_of_eq_some hr
    exact ⟨r₀, hr₀, by split <;> rfl, by split <;> rfl, by split <;> rfl⟩
  have hfwd : ∀ i (r₀ : Task), s.tasks[i]? = some r₀ →
      ∃ r : Task, (s.exit t).tasks[i]? = some r ∧ r.worker = r₀.worker := fun i r₀ hr₀ => by
    refine ⟨_, by rw [Scheduler.exit, modifyTask, List.getElem?_modify, hr₀]; rfl, ?_⟩
    split <;> rfl
  refine ⟨h.distinct, h.unique, ?_, ?_, ?_, ?_⟩
  · intro e he
    obtain ⟨r₀, hr₀, hw⟩ := h.spawned e he
    obtain ⟨r, hr, hw'⟩ := hfwd _ r₀ hr₀
    exact ⟨r, hr, hw'.trans hw⟩
  · intro e he r hr
    obtain ⟨r₀, hr₀, -, hh, hj⟩ := hrec _ r hr
    rw [hh, hj]
    exact h.fresh e he r₀ hr₀
  · intro x hx r hr
    obtain ⟨r₀, hr₀, -, hh, hj⟩ := hrec _ r hr
    rw [hh, hj]
    exact h.holding x hx r₀ hr₀
  · intro i r hr hni
    obtain ⟨r₀, hr₀, -, hh, hj⟩ := hrec _ r hr
    rw [hh, hj]
    exact h.finished i r₀ hr₀ hni

@[simp] theorem setCall_calls (s : Scheduler) (c : Nat) (k : Call) :
    (s.setCall c k).calls = s.calls.set c k := rfl

@[simp] theorem begin_calls (s : Scheduler) (k : Call) : (s.begin k).calls = s.calls ++ [k] := rfl

@[simp] theorem setCall_tasks (s : Scheduler) (c : Nat) (k : Call) :
    (s.setCall c k).tasks = s.tasks := rfl

@[simp] theorem setCall_hosted (s : Scheduler) (c : Nat) (k : Call) :
    (s.setCall c k).hosted = s.hosted := rfl

@[simp] theorem setCall_held (s : Scheduler) (c : Nat) (k : Call) :
    (s.setCall c k).held = s.held := rfl

@[simp] theorem setCall_lock (s : Scheduler) (c : Nat) (k : Call) :
    (s.setCall c k).lock = s.lock := rfl

@[simp] theorem mapped_setCall (s : Scheduler) (c : Nat) (k : Call) :
    (s.setCall c k).mapped = s.mapped := rfl

theorem setCall_getD (s : Scheduler) (c : Nat) (k : Call) :
    s.setCall c (s.calls[c]?.getD k) = s := by
  cases hc : s.calls[c]? with
  | none =>
    have hle : s.calls.length ≤ c := List.getElem?_eq_none_iff.mp hc
    simp [setCall, List.set_eq_of_length_le hle]
  | some v =>
    obtain ⟨hlt, rfl⟩ := List.getElem?_eq_some_iff.mp hc
    simp [setCall]

theorem check_eq_setCall (s : Scheduler) (c : Nat) : ∃ k, s.check c = s.setCall c k := by
  rcases check_cases s c with hs | ⟨w, n, -, -, ⟨-, hs⟩ | ⟨-, hs⟩⟩
  · exact ⟨_, hs.trans (setCall_getD s c (.stopAll .returned)).symm⟩
  · exact ⟨_, hs⟩
  · exact ⟨_, hs⟩

theorem init_eq_setCall (s : Scheduler) (c : Nat) (fault? : Option Fault) :
    ∃ k, s.init c fault? = s.setCall c k := by
  rcases init_cases s c fault? with hs | ⟨w, n, -, ⟨f, -, hs⟩ | ⟨-, hs⟩⟩
  · exact ⟨_, hs.trans (setCall_getD s c (.stopAll .returned)).symm⟩
  · exact ⟨_, hs⟩
  · exact ⟨_, hs⟩

theorem Call.initsOk_withPhase {k : Call} {p : StopPhase} (hk : k.stopPhase? = some p)
    (q : StopPhase) : (k.withPhase q).InitsOk := by
  cases k with
  | start => cases hk
  | stop => trivial
  | stopAll => trivial

theorem Consistent.inits_set (h : s.Consistent) (hk' : k'.InitsOk) (c₁ : Nat) (k₁ : Call)
    (hc₁ : (s.calls.set c k')[c₁]? = some k₁) : k₁.InitsOk := by
  rw [List.getElem?_set] at hc₁
  split at hc₁
  · split at hc₁
    · cases hc₁
      exact hk'
    · cases hc₁
  · exact h.inits c₁ k₁ hc₁

theorem Consistent.held_call_ne (h : s.Consistent) {w : Uuid} {p : StartPhase} {n : Nat}
    (hc : s.calls[c]? = some (.start w p n)) {x : Held} (hx : x ∈ s.held) : x.call ≠ c := by
  rintro rfl
  rcases h.holders x hx with hx' | hx' <;> rw [hc] at hx' <;> cases hx'

theorem Consistent.setCall_of_free (h : s.Consistent)
    (hlock : ∀ (c₁ : Nat) (e : Entry), s.lock = some (c₁, e) → c₁ ≠ c)
    (hheld : ∀ x ∈ s.held, x.call ≠ c)
    (hspawn : ∀ (i : Nat) (t : Task), s.tasks[i]? = some t → t.spawner ≠ c) (hk' : k'.InitsOk) :
    (s.setCall c k').Consistent := by
  refine ⟨fun c₁ e hl => ?_, fun x hx => ?_, fun i t ht => ?_, h.inits_set hk'⟩
  · obtain ⟨n, hn⟩ := h.locked c₁ e hl
    rw [setCall_calls, List.getElem?_set_ne (hlock c₁ e hl).symm]
    exact ⟨n, hn⟩
  · rw [setCall_calls, List.getElem?_set_ne (hheld x hx).symm]
    exact h.holders x hx
  · obtain ⟨p, n, hp, hl⟩ := h.spawners i t ht
    rw [setCall_calls, List.getElem?_set_ne (hspawn i t ht).symm]
    exact ⟨p, n, hp, hl⟩

theorem ne_of_holds {c₁ : Nat} {k₁ : Call} (hc : s.calls[c]? = some k) (hk : k.holds = false)
    (hc₁ : s.calls[c₁]? = some k₁) (hk₁ : k₁.holds = true) : c₁ ≠ c := by
  rintro rfl
  rw [hc] at hc₁
  cases hc₁
  rw [hk] at hk₁
  cases hk₁

theorem Consistent.setCall (h : s.Consistent) (hc : s.calls[c]? = some k) (hk : k.holds = false)
    (hk' : k'.InitsOk) : (s.setCall c k').Consistent := by
  refine h.setCall_of_free (fun c₁ e hl => ?_) (fun x hx => ?_) (fun i t ht => ?_) hk'
  · obtain ⟨n, hn⟩ := h.locked c₁ e hl
    exact ne_of_holds hc hk hn rfl
  · rcases h.holders x hx with hx' | hx'
    · exact ne_of_holds hc hk hx' rfl
    · exact ne_of_holds hc hk hx' rfl
  · obtain ⟨p, n, hp, hl⟩ := h.spawners i t ht
    exact ne_of_holds hc hk hp hl

theorem Consistent.begin (h : s.Consistent) (hk : k.InitsOk) : (s.begin k).Consistent := by
  refine ⟨fun c₁ e hl => ?_, fun x hx => ?_, fun i t ht => ?_, fun c₁ k₁ hc₁ => ?_⟩
  · obtain ⟨n, hn⟩ := h.locked c₁ e hl
    exact ⟨n, getElem?_append_of_eq_some hn⟩
  · rcases h.holders x hx with hx' | hx'
    · exact .inl (getElem?_append_of_eq_some hx')
    · exact .inr (getElem?_append_of_eq_some hx')
  · obtain ⟨p, n, hp, hl⟩ := h.spawners i t ht
    exact ⟨p, n, getElem?_append_of_eq_some hp, hl⟩
  · rw [begin_calls] at hc₁
    rcases getElem?_append_singleton hc₁ with hc₁ | ⟨-, rfl⟩
    · exact h.inits c₁ k₁ hc₁
    · exact hk

theorem Consistent.frame (h : s.Consistent) (hl : s'.lock = s.lock) (hc : s'.calls = s.calls)
    (hd : ∀ x ∈ s'.held, ∃ y ∈ s.held, y.call = x.call ∧ y.entry = x.entry)
    (ht : ∀ (i : Nat) (t : Task), s'.tasks[i]? = some t →
      ∃ t₀ : Task, s.tasks[i]? = some t₀ ∧ t₀.worker = t.worker ∧ t₀.spawner = t.spawner) :
    s'.Consistent := by
  refine ⟨fun c₁ e hl' => ?_, fun x hx => ?_, fun i t ht' => ?_, fun c₁ k₁ hc₁ => ?_⟩
  · rw [hc]
    exact h.locked c₁ e (hl ▸ hl')
  · obtain ⟨y, hy, hcall, hentry⟩ := hd x hx
    rw [hc, ← hcall, ← hentry]
    exact h.holders y hy
  · obtain ⟨t₀, ht₀, hw, hs⟩ := ht i t ht'
    rw [hc, ← hw, ← hs]
    exact h.spawners i t₀ ht₀
  · rw [hc] at hc₁
    exact h.inits c₁ k₁ hc₁

theorem tasks_modify_frame {i : Nat} {f : Task → Task} (hf : ∀ t, (f t).worker = t.worker ∧
    (f t).spawner = t.spawner) (j : Nat) (t : Task) (ht : (s.tasks.modify i f)[j]? = some t) :
    ∃ t₀ : Task, s.tasks[j]? = some t₀ ∧ t₀.worker = t.worker ∧ t₀.spawner = t.spawner := by
  obtain ⟨t₀, ht₀, rfl⟩ := getElem?_modify_of_eq_some ht
  refine ⟨t₀, ht₀, ?_⟩
  split
  · exact ⟨(hf t₀).1.symm, (hf t₀).2.symm⟩
  · exact ⟨rfl, rfl⟩

theorem Consistent.spawn (h : s.Consistent) {w : Uuid} {n : Nat}
    (hc : s.calls[c]? = some (.start w .locking n)) :
    ({ s with lock := some (c, ⟨w, s.tasks.length⟩),
              tasks := s.tasks ++ [{ worker := w, spawner := c }],
              calls := s.calls.set c (.start w .spawned n) } : Scheduler).Consistent := by
  have hlt : c < s.calls.length := (List.getElem?_eq_some_iff.mp hc).1
  have hn : n = 1 := h.inits c _ hc
  refine ⟨fun c₁ e hl => ?_, fun x hx => ?_, fun i t ht => ?_,
    h.inits_set (show (Call.start w .spawned n).InitsOk from hn)⟩
  · cases hl
    exact ⟨n, List.getElem?_set_self hlt⟩
  · simp only [List.getElem?_set_ne (Ne.symm (h.held_call_ne hc hx))]
    exact h.holders x hx
  · rcases getElem?_append_singleton ht with ht | ⟨-, rfl⟩
    · obtain ⟨p, n', hp, hl⟩ := h.spawners i t ht
      simp only [List.getElem?_set_ne (Ne.symm (ne_of_holds hc rfl hp hl))]
      exact ⟨p, n', hp, hl⟩
    · exact ⟨.spawned, n, List.getElem?_set_self hlt, rfl⟩

theorem Consistent.insert (h : s.Consistent) {w : Uuid} {n : Nat}
    (hc : s.calls[c]? = some (.start w .spawned n)) (hosted : List Entry) :
    ({ s with hosted := hosted, lock := none,
              calls := s.calls.set c (.start w (.returned none) n) } : Scheduler).Consistent := by
  have hlt : c < s.calls.length := (List.getElem?_eq_some_iff.mp hc).1
  have hn : n = 1 := h.inits c _ hc
  refine ⟨fun c₁ e hl => (by cases hl), fun x hx => ?_, fun i t ht => ?_,
    h.inits_set (show (Call.start w (.returned none) n).InitsOk from hn)⟩
  · simp only [List.getElem?_set_ne (Ne.symm (h.held_call_ne hc hx))]
    exact h.holders x hx
  · obtain ⟨p, n', hp, hl⟩ := h.spawners i t ht
    by_cases hs : t.spawner = c
    · rw [hs, hc] at hp
      cases hp
      exact ⟨.returned none, n, by rw [hs]; exact List.getElem?_set_self hlt, rfl⟩
    · simp only [List.getElem?_set_ne (Ne.symm hs)]
      exact ⟨p, n', hp, hl⟩

theorem Consistent.addHeld (h : s.Consistent) {new : List Held}
    (hnew : ∀ x ∈ new, s.calls[x.call]? = some (.stop x.entry.id .finishing) ∨
      s.calls[x.call]? = some (.stopAll .finishing)) (hosted : List Entry) :
    ({ s with hosted := hosted, held := s.held ++ new } : Scheduler).Consistent := by
  refine ⟨h.locked, fun x hx => ?_, h.spawners, h.inits⟩
  rcases List.mem_append.mp hx with hx | hx
  · exact h.holders x hx
  · exact hnew x hx

theorem sound_empty : ({} : Scheduler).Sound :=
  ⟨⟨by simp [places, mapped], by simp [mapped], by simp [places, mapped], by simp [mapped],
      by simp, by simp⟩,
    ⟨by simp, by simp, by simp, by simp⟩⟩

theorem Sound.setCall (h : s.Sound) (hc : s.calls[c]? = some k) (hk : k.holds = false)
    (hk' : k'.InitsOk) : (s.setCall c k').Sound :=
  ⟨h.toAccounted.setCall _ _, h.toConsistent.setCall hc hk hk'⟩

theorem Sound.check (h : s.Sound) (c : Nat) : (s.check c).Sound := by
  rcases check_cases s c with hs | ⟨w, n, hc, -, ⟨-, hs⟩ | ⟨-, hs⟩⟩ <;> rw [hs]
  · exact h
  · have hn : n = 0 := h.inits c _ hc
    exact h.setCall hc rfl (show n ≤ 1 by omega)
  · have hn : n = 0 := h.inits c _ hc
    exact h.setCall hc rfl (show n + 1 = 1 by omega)

theorem Sound.init (h : s.Sound) (c : Nat) (fault? : Option Fault) : (s.init c fault?).Sound := by
  rcases init_cases s c fault? with hs | ⟨w, n, hc, ⟨f, -, hs⟩ | ⟨-, hs⟩⟩ <;> rw [hs]
  · exact h
  · have hn : n = 1 := h.inits c _ hc
    exact h.setCall hc rfl (show n ≤ 1 by omega)
  · have hn : n = 1 := h.inits c _ hc
    exact h.setCall hc rfl hn

theorem Sound.lockMap (h : s.Sound) (c : Nat) : (s.lockMap c).Sound := by
  rcases lockMap_cases s c with hs | ⟨w, n, hc, hl, ⟨-, hs⟩ | ⟨hw, hs⟩⟩ <;> rw [hs]
  · exact h
  · have hn : n = 1 := h.inits c _ hc
    exact h.setCall hc rfl (show n ≤ 1 by omega)
  · exact ⟨h.toAccounted.spawn hl hw rfl rfl rfl rfl, h.toConsistent.spawn hc⟩

theorem Sound.insert (h : s.Sound) (c : Nat) : (s.insert c).Sound := by
  rcases insert_cases s c with hs | ⟨w, n, e, hc, hl, hs⟩ <;> rw [hs]
  · exact h
  · exact ⟨h.toAccounted.insert hl rfl rfl rfl rfl, h.toConsistent.insert hc _⟩

theorem Sound.take_found (h : s.Sound) {id : Uuid} {e : Entry}
    (hc : s.calls[c]? = some (.stop id .taking)) (hl : s.lock = none)
    (he : s.hosted.find? (·.id == id) = some e) :
    ({ s with hosted := s.hosted.filter (·.id != id), held := s.held ++ [{ call := c, entry := e }],
              calls := s.calls.set c (.stop id .finishing) } : Scheduler).Sound := by
  -- the entry found is the only one of its id
  have hmem : e ∈ s.hosted := List.mem_of_find?_eq_some he
  have hid : e.id = id := by simpa using List.find?_some he
  have hu := h.unique
  rw [mapped_of_lock_none hl] at hu
  have herase : s.hosted.filter (·.id != id) = s.hosted.erase e := by
    rw [← hid]
    exact filter_id_ne_eq_erase hu hmem
  refine ⟨h.toAccounted.release hl hl (by rw [herase]; exact List.erase_sublist) ?_ ?_ rfl,
    (h.toConsistent.setCall hc rfl (show (Call.stop id .finishing).InitsOk from trivial)).addHeld
      ?_ _⟩
  · rw [herase]
    simp only [List.map_append, List.map_cons, List.map_nil]
    refine List.Perm.trans ?_ ((List.perm_cons_erase hmem).append_right _).symm
    rw [← List.append_assoc]
    exact List.perm_append_singleton _ _
  · intro x hx
    rcases List.mem_append.mp hx with hx | hx
    · exact .inl hx
    · rw [List.mem_singleton] at hx
      subst hx
      exact .inr ⟨hmem, rfl⟩
  · intro x hx
    rw [List.mem_singleton] at hx
    subst hx
    left
    rw [setCall_calls, hid]
    exact List.getElem?_set_self (List.getElem?_eq_some_iff.mp hc).1

theorem Sound.take_all (h : s.Sound) (hc : s.calls[c]? = some (.stopAll .taking))
    (hl : s.lock = none) :
    ({ s with hosted := [], held := s.held ++ s.hosted.map ({ call := c, entry := · }),
              calls := s.calls.set c (.stopAll .finishing) } : Scheduler).Sound := by
  refine ⟨h.toAccounted.release hl hl (List.nil_sublist _) ?_ ?_ rfl,
    (h.toConsistent.setCall hc rfl (show (Call.stopAll .finishing).InitsOk from trivial)).addHeld
      ?_ _⟩
  · have hback : (s.hosted.map ({ call := c, entry := · } : Entry → Held)).map Held.entry =
        s.hosted := by
      simp [Function.comp_def]
    simp only [List.nil_append, List.map_append, hback]
    exact List.perm_append_comm
  · intro x hx
    rcases List.mem_append.mp hx with hx | hx
    · exact .inl hx
    · obtain ⟨e, he, rfl⟩ := List.mem_map.mp hx
      exact .inr ⟨he, rfl⟩
  · intro x hx
    obtain ⟨e, -, rfl⟩ := List.mem_map.mp hx
    right
    exact List.getElem?_set_self (List.getElem?_eq_some_iff.mp hc).1

theorem Sound.take (h : s.Sound) (c : Nat) : (s.take c).Sound := by
  rcases take_cases s c with hs | ⟨id, e, hc, hl, he, hs⟩ | ⟨id, hc, -, -, hs⟩ |
    ⟨hc, -, -, hs⟩ | ⟨hc, hl, -, hs⟩ <;> rw [hs]
  · exact h
  · exact h.take_found hc hl he
  · exact h.setCall hc rfl (show (Call.stop id .returned).InitsOk from trivial)
  · exact h.setCall hc rfl (show (Call.stopAll .returned).InitsOk from trivial)
  · exact h.take_all hc hl

theorem Sound.hook (h : s.Sound) (c : Nat) : (s.hook c).Sound := by
  rcases hook_cases s c with hs | ⟨x, -, hx, hk, hs⟩ <;> rw [hs]
  · exact h
  · have hxm := (mem_of_current? hx).1
    refine ⟨h.toAccounted.hook hxm hk rfl rfl rfl rfl, h.toConsistent.frame rfl rfl ?_ ?_⟩
    · intro y' hy'
      obtain ⟨y, hy, rfl⟩ := List.mem_map.mp hy'
      refine ⟨y, hy, ?_⟩
      split <;> exact ⟨rfl, rfl⟩
    · exact tasks_modify_frame fun t => ⟨rfl, rfl⟩

theorem Sound.join (h : s.Sound) (c : Nat) : (s.join c).Sound := by
  rcases join_cases s c with hs | ⟨k, x, t, hc, hp, hx, -, hk, -, hs⟩ <;> rw [hs]
  · exact h
  obtain ⟨hxm, hxc⟩ := mem_of_current? hx
  -- the held entries and tasks after the await, before the call may return
  have h₁ : ({ s with held := s.held.erase x,
                      tasks := s.tasks.modify x.entry.task
                        fun t => { t with joins := t.joins + 1 } } : Scheduler).Consistent :=
    h.toConsistent.frame rfl rfl
    (fun y hy => ⟨y, List.mem_of_mem_erase hy, rfl, rfl⟩)
    (tasks_modify_frame fun t => ⟨rfl, rfl⟩)
  refine ⟨h.toAccounted.join hxm hk rfl rfl rfl rfl, ?_⟩
  split
  · exact h₁
  · next hany =>
    -- the call holds nothing more: nothing refers to it
    have hstart : ∀ (w : Uuid) (p : StartPhase) (n : Nat), k ≠ .start w p n := by
      rintro w p n rfl
      cases hp
    refine h₁.setCall_of_free (c := c) (fun c₁ e hl => ?_) (fun y hy => ?_) (fun i t' ht' => ?_)
      (Call.initsOk_withPhase hp _)
    · obtain ⟨n, hn⟩ := h.locked c₁ e hl
      rintro rfl
      rw [hc] at hn
      exact hstart _ _ _ (Option.some.inj hn)
    · intro heq
      exact hany (List.any_eq_true.mpr ⟨y, hy, by simp [heq]⟩)
    · obtain ⟨t₀, ht₀, -, hsp⟩ := tasks_modify_frame (s := s)
        (f := fun t => { t with joins := t.joins + 1 }) (fun t => ⟨rfl, rfl⟩) i t' ht'
      obtain ⟨p, n, hp', -⟩ := h.spawners i t₀ ht₀
      rintro heq
      rw [hsp, heq, hc] at hp'
      exact hstart _ _ _ (Option.some.inj hp')

theorem Sound.exit (h : s.Sound) (t : Nat) : (s.exit t).Sound :=
  ⟨h.toAccounted.exit t, h.toConsistent.frame rfl rfl (fun x hx => ⟨x, hx, rfl, rfl⟩)
    (tasks_modify_frame fun _ => ⟨rfl, rfl⟩)⟩

theorem Sound.step (h : s.Sound) : ∀ st, (s.step st).Sound
  | .start _ => ⟨h.toAccounted.begin _, h.toConsistent.begin rfl⟩
  | .stop _ => ⟨h.toAccounted.begin _, h.toConsistent.begin trivial⟩
  | .stopAll => ⟨h.toAccounted.begin _, h.toConsistent.begin trivial⟩
  | .check c => h.check c
  | .init c f => h.init c f
  | .lock c => h.lockMap c
  | .insert c => h.insert c
  | .take c => h.take c
  | .hook c => h.hook c
  | .join c => h.join c
  | .exit t => h.exit t

theorem Sound.run (h : s.Sound) (steps : List SchedulerStep) : (s.run steps).Sound := by
  induction steps generalizing s with
  | nil => exact h
  | cons st steps ih => exact ih (h.step st)

theorem sound_run (steps : List SchedulerStep) : (({} : Scheduler).run steps).Sound :=
  sound_empty.run steps

theorem Accounted.counts_le_one (h : s.Accounted) {i : Nat} {t : Task} (ht : s.tasks[i]? = some t) :
    t.hooks ≤ 1 ∧ t.joins ≤ 1 := by
  by_cases hi : i ∈ s.places.map Entry.task
  · obtain ⟨e, he, rfl⟩ := List.mem_map.mp hi
    rcases List.mem_append.mp he with hm | hd
    · obtain ⟨h₀, j₀⟩ := h.fresh e hm t ht
      omega
    · obtain ⟨x, hx, rfl⟩ := List.mem_map.mp hd
      obtain ⟨h₁, j₁⟩ := h.holding x hx t ht
      rw [h₁, j₁]
      cases x.hooked <;> decide
  · obtain ⟨h₁, j₁⟩ := h.finished i t ht hi
    omega

theorem Consistent.lock_of_settled (h : s.Consistent) (hs : s.Settled) : s.lock = none := by
  cases hl : s.lock with
  | none => rfl
  | some p =>
    obtain ⟨n, hn⟩ := h.locked p.1 p.2 hl
    cases hs _ (List.mem_of_getElem? hn)

theorem Consistent.held_of_settled (h : s.Consistent) (hs : s.Settled) : s.held = [] := by
  refine List.eq_nil_iff_forall_not_mem.mpr fun x hx => ?_
  rcases h.holders x hx with hc | hc
  · cases hs _ (List.mem_of_getElem? hc)
  · cases hs _ (List.mem_of_getElem? hc)

theorem Sound.finished_of_settled (h : s.Sound) (hs : s.Settled) {i : Nat} {t : Task}
    (ht : s.tasks[i]? = some t) (hi : i ∉ s.hosted.map Entry.task) : t.hooks = 1 ∧ t.joins = 1 := by
  have hp : s.places = s.hosted := by
    simp [places, mapped, h.lock_of_settled hs, h.held_of_settled hs]
  exact h.finished i t ht (hp ▸ hi)

theorem Consistent.spawner_ne_of_failed (h : s.Consistent) {w : Uuid} {f : Fault} {n : Nat}
    (hc : s.calls[c]? = some (.start w (.returned (some f)) n)) {i : Nat} {t : Task}
    (ht : s.tasks[i]? = some t) : t.spawner ≠ c := by
  obtain ⟨p, n', hp, hl⟩ := h.spawners i t ht
  exact ne_of_holds hc rfl hp hl

theorem length_tasks_step (s : Scheduler) (st : SchedulerStep) :
    s.tasks.length ≤ (s.step st).tasks.length := by
  cases st with
  | start => exact Nat.le_refl _
  | stop => exact Nat.le_refl _
  | stopAll => exact Nat.le_refl _
  | check c =>
    obtain ⟨k, hs⟩ := check_eq_setCall s c
    simp [Scheduler.step, hs]
  | init c f =>
    obtain ⟨k, hs⟩ := init_eq_setCall s c f
    simp [Scheduler.step, hs]
  | lock c =>
    show _ ≤ (s.lockMap c).tasks.length
    rcases lockMap_cases s c with hs | ⟨_, _, _, _, ⟨_, hs⟩ | ⟨_, hs⟩⟩ <;> simp [hs]
  | insert c =>
    show _ ≤ (s.insert c).tasks.length
    rcases insert_cases s c with hs | ⟨_, _, _, _, _, hs⟩ <;> simp [hs]
  | take c =>
    show _ ≤ (s.take c).tasks.length
    rcases take_cases s c with hs | ⟨_, _, _, _, _, hs⟩ | ⟨_, _, _, _, hs⟩ | ⟨_, _, _, hs⟩ |
      ⟨_, _, _, hs⟩ <;> simp [hs]
  | hook c =>
    show _ ≤ (s.hook c).tasks.length
    rcases hook_cases s c with hs | ⟨_, _, _, _, hs⟩ <;> simp [hs]
  | join c =>
    show _ ≤ (s.join c).tasks.length
    rcases join_cases s c with hs | ⟨_, _, _, _, _, _, _, _, _, hs⟩ <;> simp [hs]
  | exit t => simp [Scheduler.step, Scheduler.exit, modifyTask]

theorem Sound.mapped_step (h : s.Sound) (st : SchedulerStep) :
    (s.step st).mapped.Perm s.mapped ∨
    (∃ c w, st = .lock c ∧ (s.step st).mapped = ⟨w, s.tasks.length⟩ :: s.mapped) ∨
    (∃ c, st = .take c ∧ (s.step st).mapped.Sublist s.mapped) := by
  cases st with
  | start => exact .inl (List.Perm.refl _)
  | stop => exact .inl (List.Perm.refl _)
  | stopAll => exact .inl (List.Perm.refl _)
  | check c =>
    obtain ⟨k, hs⟩ := check_eq_setCall s c
    exact .inl (by simp [Scheduler.step, hs])
  | init c f =>
    obtain ⟨k, hs⟩ := init_eq_setCall s c f
    exact .inl (by simp [Scheduler.step, hs])
  | lock c =>
    rcases lockMap_cases s c with hs | ⟨w, _, _, hl, ⟨_, hs⟩ | ⟨_, hs⟩⟩
    · exact .inl (show (s.lockMap c).mapped.Perm s.mapped by simp [hs])
    · exact .inl (show (s.lockMap c).mapped.Perm s.mapped by simp [hs])
    · exact .inr (.inl ⟨c, w, rfl, show (s.lockMap c).mapped = _ by simp [hs, mapped, hl]⟩)
  | insert c =>
    refine .inl (show (s.insert c).mapped.Perm s.mapped from ?_)
    rcases insert_cases s c with hs | ⟨_, _, e, _, hl, hs⟩
    · simp [hs]
    · simpa [hs, mapped] using h.insert_perm hl
  | take c =>
    refine .inr (.inr ⟨c, rfl, show (s.take c).mapped.Sublist s.mapped from ?_⟩)
    rcases take_cases s c with hs | ⟨id, _, _, hl, _, hs⟩ | ⟨_, _, _, _, hs⟩ | ⟨_, _, _, hs⟩ |
      ⟨_, hl, _, hs⟩
    · simp [hs]
    · simp [hs, mapped, hl]
    · simp [hs]
    · simp [hs]
    · simp [hs, mapped, hl]
  | hook c =>
    refine .inl (show (s.hook c).mapped.Perm s.mapped from ?_)
    rcases hook_cases s c with hs | ⟨_, _, _, _, hs⟩ <;> simp [hs, mapped]
  | join c =>
    refine .inl (show (s.join c).mapped.Perm s.mapped from ?_)
    rcases join_cases s c with hs | ⟨_, _, _, _, _, _, _, _, _, hs⟩ <;> simp [hs, mapped]
  | exit t => exact .inl (List.Perm.refl _)

theorem Sound.not_mem_mapped_run (h : s.Sound) {i : Nat} (hi : i < s.tasks.length)
    (hm : i ∉ s.mapped.map Entry.task) (steps : List SchedulerStep) :
    i ∉ (s.run steps).mapped.map Entry.task ∧ i < (s.run steps).tasks.length := by
  induction steps generalizing s with
  | nil => exact ⟨hm, hi⟩
  | cons st steps ih =>
    refine ih (h.step st) (Nat.lt_of_lt_of_le hi (length_tasks_step s st)) fun hmem => ?_
    obtain ⟨e, he, rfl⟩ := List.mem_map.mp hmem
    rcases h.mapped_step st with hp | ⟨c, w, -, hs⟩ | ⟨c, -, hsub⟩
    · exact hm (List.mem_map_of_mem (hp.subset he))
    · rw [hs] at he
      rcases List.mem_cons.mp he with rfl | he
      · exact absurd hi (Nat.lt_irrefl _)
      · exact hm (List.mem_map_of_mem he)
    · exact hm (List.mem_map_of_mem (hsub.subset he))

theorem Sound.held_of_take (h : s.Sound) {e : Entry} (he : e ∈ s.hosted) (hl : s.lock = none)
    (hc : s.calls[c]? = some (.stop e.id .taking) ∨ s.calls[c]? = some (.stopAll .taking)) :
    ∃ x ∈ (s.take c).held, x.call = c ∧ x.entry = e := by
  rcases hc with hc | hc
  · -- the entry found for the id is the entry itself, ids being distinct in the map
    obtain ⟨e', he'⟩ : ∃ e', s.hosted.find? (·.id == e.id) = some e' :=
      Option.isSome_iff_exists.mp (List.find?_isSome.mpr ⟨e, he, by simp⟩)
    have hid : e'.id = e.id := by simpa using List.find?_some he'
    have hu := h.unique
    rw [mapped_of_lock_none hl] at hu
    have heq : e' = e := List.inj_on_of_nodup_map hu (List.mem_of_find?_eq_some he') he hid
    refine ⟨{ call := c, entry := e' }, ?_, rfl, heq⟩
    simp [Scheduler.take, hc, hl, he']
  · refine ⟨{ call := c, entry := e }, ?_, rfl, rfl⟩
    have hne : s.hosted ≠ [] := List.ne_nil_of_mem he
    simp [Scheduler.take, hc, hl, hne, he]

theorem hosted_step (s : Scheduler) (st : SchedulerStep) (hch : (s.step st).hosted ≠ s.hosted) :
    (∃ c, st = .take c) ∨
      ∃ c w n, st = .insert c ∧ (s.step st).calls[c]? = some (.start w (.returned none) n) := by
  cases st with
  | take c => exact .inl ⟨c, rfl⟩
  | insert c =>
    refine .inr ?_
    rcases insert_cases s c with hs | ⟨w, n, e, hc, -, hs⟩
    · exact absurd (show (s.insert c).hosted = s.hosted by rw [hs]) hch
    · refine ⟨c, w, n, rfl, show (s.insert c).calls[c]? = _ from ?_⟩
      rw [hs]
      exact List.getElem?_set_self (List.getElem?_eq_some_iff.mp hc).1
  | check c =>
    obtain ⟨k, hs⟩ := check_eq_setCall s c
    simp [Scheduler.step, hs] at hch
  | init c f =>
    obtain ⟨k, hs⟩ := init_eq_setCall s c f
    simp [Scheduler.step, hs] at hch
  | lock c =>
    refine absurd (show (s.lockMap c).hosted = s.hosted from ?_) hch
    rcases lockMap_cases s c with hs | ⟨_, _, _, _, ⟨_, hs⟩ | ⟨_, hs⟩⟩ <;> simp [hs]
  | hook c =>
    refine absurd (show (s.hook c).hosted = s.hosted from ?_) hch
    rcases hook_cases s c with hs | ⟨_, _, _, _, hs⟩ <;> simp [hs]
  | join c =>
    refine absurd (show (s.join c).hosted = s.hosted from ?_) hch
    rcases join_cases s c with hs | ⟨_, _, _, _, _, _, _, _, _, hs⟩ <;> simp [hs]
  | exit t => exact absurd rfl hch
  | start => exact absurd rfl hch
  | stop => exact absurd rfl hch
  | stopAll => exact absurd rfl hch

theorem Sound.inits_of_check_refused (h : s.Sound) {w : Uuid} {n m : Nat}
    (hc : s.calls[c]? = some (.start w .checking n))
    (hr : (s.check c).calls[c]? = some (.start w (.returned (some (.alreadyStarted w))) m)) :
    m = 0 := by
  have hn : n = 0 := h.inits c _ hc
  have hlt : c < s.calls.length := (List.getElem?_eq_some_iff.mp hc).1
  rcases check_cases s c with hs | ⟨w', n', hc', -, ⟨-, hs⟩ | ⟨-, hs⟩⟩ <;>
    rw [hs] at hr
  · rw [hc] at hr
    cases hr
  · rw [hc] at hc'
    cases hc'
    rw [setCall_calls, List.getElem?_set_self hlt] at hr
    cases hr
    exact hn
  · rw [setCall_calls, List.getElem?_set_self hlt] at hr
    cases hr

theorem Sound.inits_of_lock_refused (h : s.Sound) {w : Uuid} {n m : Nat}
    (hc : s.calls[c]? = some (.start w .locking n))
    (hr : (s.lockMap c).calls[c]? = some (.start w (.returned (some (.alreadyStarted w))) m)) :
    m = 1 := by
  have hn : n = 1 := h.inits c _ hc
  have hlt : c < s.calls.length := (List.getElem?_eq_some_iff.mp hc).1
  rcases lockMap_cases s c with hs | ⟨w', n', hc', -, ⟨-, hs⟩ | ⟨-, hs⟩⟩ <;>
    rw [hs] at hr
  · rw [hc] at hr
    cases hr
  · rw [hc] at hc'
    cases hc'
    rw [setCall_calls, List.getElem?_set_self hlt] at hr
    cases hr
    exact hn
  · simp only [List.getElem?_set_self hlt] at hr
    cases hr

-- Over any interleaving of the calls of `start`, `stop` and `stop_all` from the empty scheduler: no
-- task has its stop hook called or its await completed twice; no id is in the map twice, nor in the
-- map while a start of it is about to insert; once every call has returned, a task out of the map
-- -- in particular one whose entry a stop of its id or a stop of all took -- has been stopped and
-- awaited exactly once; a start that failed spawned nothing, and the map changes only at a take or
-- at the insert of a start that succeeds. A start has run the worker's initialisation as often as
-- its phase says: never when refused at its first question, once when refused at the second.
theorem lifecycle_of_any_interleaving (steps : List SchedulerStep) :
    let s := ({} : Scheduler).run steps
    (∀ t ∈ s.tasks, t.hooks ≤ 1 ∧ t.joins ≤ 1) ∧
    (s.mapped.map Entry.id).Nodup ∧
    (s.Settled → ∀ (i : Nat) (t : Task), s.tasks[i]? = some t → i ∉ s.hosted.map Entry.task →
      t.hooks = 1 ∧ t.joins = 1) ∧
    (∀ (c : Nat) (e : Entry) (post : List SchedulerStep), e ∈ s.hosted → s.lock = none →
      (s.calls[c]? = some (.stop e.id .taking) ∨ s.calls[c]? = some (.stopAll .taking)) →
      ((s.step (.take c)).run post).Settled →
      ∃ t : Task, ((s.step (.take c)).run post).tasks[e.task]? = some t ∧
        t.hooks = 1 ∧ t.joins = 1) ∧
    (∀ (c : Nat) (w : Uuid) (f : Fault) (n : Nat),
      s.calls[c]? = some (.start w (.returned (some f)) n) → ∀ t ∈ s.tasks, t.spawner ≠ c) ∧
    (∀ st, (s.step st).hosted ≠ s.hosted → (∃ c, st = .take c) ∨
      ∃ c w n, st = .insert c ∧ (s.step st).calls[c]? = some (.start w (.returned none) n)) ∧
    (∀ (c : Nat) (w : Uuid) (p : StartPhase) (n : Nat),
      s.calls[c]? = some (.start w p n) → p.Inits n) ∧
    (∀ (c : Nat) (w : Uuid) (n m : Nat), s.calls[c]? = some (.start w .checking n) →
      (s.check c).calls[c]? = some (.start w (.returned (some (.alreadyStarted w))) m) → m = 0) ∧
    (∀ (c : Nat) (w : Uuid) (n m : Nat), s.calls[c]? = some (.start w .locking n) →
      (s.lockMap c).calls[c]? = some (.start w (.returned (some (.alreadyStarted w))) m) →
        m = 1) := by
  intro s
  have h : s.Sound := sound_run steps
  refine ⟨fun t ht => ?_, h.unique, fun hs i t => h.finished_of_settled hs, ?_,
    fun c w f n hc t ht => ?_, hosted_step s, fun c w p n hc => h.inits c _ hc,
    fun _ _ _ _ => h.inits_of_check_refused, fun _ _ _ _ => h.inits_of_lock_refused⟩
  · obtain ⟨i, hi⟩ := List.mem_iff_getElem?.mp ht
    exact h.counts_le_one hi
  · intro c e post he hl hc hset
    have h₁ := h.step (.take c)
    obtain ⟨x, hx, -, rfl⟩ := h.held_of_take he hl hc
    -- the entry is held, so its task is out of the map, and it stays out
    have hout : x.entry.task ∉ (s.step (.take c)).mapped.map Entry.task := fun hm => by
      obtain ⟨e', he', heq⟩ := List.mem_map.mp hm
      exact h₁.task_ne he' hx heq
    have hlt := h₁.lt_of_mem (List.mem_append_right _ (List.mem_map_of_mem hx))
    obtain ⟨hout', hlt'⟩ := h₁.not_mem_mapped_run hlt hout post
    have h₂ := h₁.run post
    obtain ⟨t, ht⟩ : ∃ t, ((s.step (.take c)).run post).tasks[x.entry.task]? = some t :=
      ⟨_, List.getElem?_eq_getElem hlt'⟩
    refine ⟨t, ht, h₂.finished_of_settled hset ht ?_⟩
    rwa [← mapped_of_lock_none (h₂.lock_of_settled hset)]
  · obtain ⟨i, hi⟩ := List.mem_iff_getElem?.mp ht
    exact h.spawner_ne_of_failed hc hi

theorem stopped_worker_awaited_once :
    let steps : List SchedulerStep :=
      [.start (Uuid.ofNat 1), .check 0, .init 0 none, .lock 0, .insert 0, .stop (Uuid.ofNat 1)]
    let s := ({} : Scheduler).run steps
    let post : List SchedulerStep := [.hook 1, .exit 0, .join 1]
    let e : Entry := ⟨Uuid.ofNat 1, 0⟩
    (e ∈ s.hosted ∧ s.lock = none ∧ s.calls[1]? = some (.stop e.id .taking) ∧
      ((s.step (.take 1)).run post).Settled) ∧
    ∃ t : Task, ((s.step (.take 1)).run post).tasks[e.task]? = some t ∧
      t.hooks = 1 ∧ t.joins = 1 := by
  intro steps s post e
  have he : e ∈ s.hosted := by decide
  have hl : s.lock = none := by decide
  have hc : s.calls[1]? = some (.stop e.id .taking) := by decide
  have hset : ((s.step (.take 1)).run post).Settled := by decide
  exact ⟨⟨he, hl, hc, hset⟩,
    (lifecycle_of_any_interleaving steps).2.2.2.1 1 e post he hl (.inl hc) hset⟩

-- Two starts of one worker race: both pass the first question and run the initialisation, and the
-- second, refused at the re-check once the first has inserted, has run it.
theorem racing_start_refused_after_init :
    (({} : Scheduler).run [.start (Uuid.ofNat 1), .start (Uuid.ofNat 1), .check 0, .check 1,
      .init 0 none, .init 1 none, .lock 0, .insert 0, .lock 1]).calls[1]? =
      some (.start (Uuid.ofNat 1) (.returned (some (.alreadyStarted (Uuid.ofNat 1)))) 1) := by
  decide

end Scheduler

end MediaRelay
