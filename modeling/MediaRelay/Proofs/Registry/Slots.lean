import Mathlib
import MediaRelay.Proofs.Registry.Registration

-- The client side of a slot is its wiring: its outlets and its input's gate. A step of the relay's
-- tasks changes the slots of the table in only four ways (`Reshape`): a slot keeps its wiring
-- (claims, starts, updates, dispatches, removals, drops, the input workers' loops), a slot with no
-- client is published, a client is attached to a slot with a fresh queue, the next one of the
-- store, or a client listed in a slot is detached from it. The queue store only grows. So a
-- property of slots that each of the four keeps (`SlotInvariant`) holds of every slot in every
-- reachable state (`SlotInvariant.reachable`).

namespace MediaRelay

namespace Slot

-- the client side of a slot
def wiring (s : Slot) : List (Uuid × QueueId) × Protocol × Nat :=
  (s.outlets, s.worker.protocol, s.worker.gate.count)

theorem wiring_of_frame {x y : Slot} (h : x.frame = y.frame) : x.wiring = y.wiring := by
  simp only [frame, Prod.mk.injEq] at h
  simp [wiring, h.2.1, h.2.2.2.1, h.2.2.2.2]

theorem isSome_lookup_iff {id : Uuid} {os : List (Uuid × QueueId)} :
    (os.lookup id).isSome ↔ id ∈ os.map Prod.fst := by
  induction os with
  | nil => simp [List.lookup]
  | cons o os ih =>
    by_cases h : id = o.1
    · simp [List.lookup, h]
    · have hb : (id == o.1) = false := beq_false_of_ne h
      simp only [List.lookup, hb, List.map_cons, List.mem_cons, h, false_or, ih]

-- the queue a lookup finds is the one listed for the client
theorem mem_of_lookup {s : Slot} {id : Uuid} {j : QueueId} (h : s.outlets.lookup id = some j) :
    (id, j) ∈ s.outlets := by
  suffices ∀ os : List (Uuid × QueueId), os.lookup id = some j → (id, j) ∈ os from this _ h
  intro os hos
  induction os with
  | nil => simp [List.lookup] at hos
  | cons o os ih =>
    obtain ⟨a, b⟩ := o
    by_cases ho : id = a
    · subst ho
      simp only [List.lookup, beq_self_eq_true, Option.some.injEq] at hos
      simp [hos]
    · simp only [List.lookup, beq_false_of_ne ho] at hos
      exact List.mem_cons_of_mem _ (ih hos)

end Slot

namespace Registry

variable {r r' : Registry} {k : PathKey} {s : Slot}

theorem mem_setSlot {x : Slot} (h : x ∈ (r.setSlot k s).slots) : x ∈ r.slots ∨ x = s := by
  obtain ⟨y, hy, rfl⟩ := List.mem_map.mp h
  by_cases hk : y.key = k <;> simp [hk, hy]

theorem mem_insert {x : Slot} (h : x ∈ (r.insert s).slots) : x ∈ r.slots ∨ x = s := by
  unfold insert at h
  split at h
  · exact mem_setSlot h
  · simpa using h

@[simp]
theorem insert_queues : (r.insert s).queues = r.queues := by
  unfold insert
  split <;> rfl

-- how a slot of `r'` comes from the slots of `r`
inductive Reshape (r r' : Registry) : Slot → Prop
  | kept {x s : Slot} : s ∈ r.slots → x.wiring = s.wiring → Reshape r r' x
  | published (k : PathKey) (w : InputWorker) : Reshape r r' { key := k, worker := w }
  | attached {x s : Slot} (id : Uuid) : s ∈ r.slots →
      r.queues.size < r'.queues.size → x.wiring = (s.attached id r.queues.size).wiring →
      Reshape r r' x
  | detached {s : Slot} (id : Uuid) (q : QueueId) : s ∈ r.slots →
      s.outlets.lookup id = some q → Reshape r r' (s.detached id)

-- a change that keeps every slot's wiring
theorem reshape_of_slots (h : r'.slots = r.slots) : ∀ x ∈ r'.slots, Reshape r r' x :=
  fun _ hx => .kept (h ▸ hx) rfl

end Registry

namespace Tasks

variable (host : Net.Host) {t : Tasks}

-- a claim changes only the claimed keys
theorem claim_registry (d : InputDescriptor) :
    ∃ res, (t.step host (.claim d)).2.registry = { t.registry with reserved := res } := by
  simp only [step_claim]
  split
  · rename_i r hc
    have hr : t.registry.reserve d.key = .ok r := by
      cases hv : d.route.validate <;> simp_all [bind, Except.bind]
    exact ⟨_, (Registry.reserve_eq_ok hr).2.2⟩
  · exact ⟨t.registry.reserved, rfl⟩

-- a start leaves the table, or lets its claim go
theorem start_registry (k : PathKey) (id : Uuid) :
    (t.step host (.start k id)).2.registry = t.registry ∨
      (t.step host (.start k id)).2.registry = t.registry.release k := by
  simp only [step_start]
  split
  · split
    · exact .inl rfl
    · exact .inr rfl
  · exact .inl rfl

-- attaching to a published input succeeds, with the next queue of the store
theorem attach_published (hs : t.Sound) {k : PathKey} {s : Slot} (hsl : t.registry.slot? k = some s)
    (id : Uuid) :
    ∃ r, t.step host (.attach k id) = (.ok (), { t with registry := r }) ∧
      r.queues = (t.registry.openQueue s id).queues ∧
      r.slots.map Slot.frame = t.registry.slots.map fun x =>
        if x = s then (s.attached id t.registry.queues.size).frame else x.frame := by
  obtain ⟨⟨⟨qid, m⟩, r⟩, ha⟩ : ∃ res, t.registry.attach k id = .ok res := by
    simp [Registry.attach, hsl]
  obtain ⟨s₀, hs₀, rfl, -, hr, -, hframes⟩ := Registry.attach_eq_ok hs.keys_nodup ha
  obtain rfl : s = s₀ := Option.some.inj (hsl.symm.trans hs₀)
  exact ⟨r, by simp [step_attach, commit, ha, Except.map], hr, hframes⟩

-- a removal takes a slot out, a drop closes queues, and a worker's loop keeps the frames
theorem deregister_slots (path : String) :
    (t.step host (.deregister path)).2.registry.slots.Sublist t.registry.slots := by
  rw [step_deregister]
  split
  · rename_i s r hr
    obtain ⟨-, rfl⟩ := Registry.remove_eq_ok hr
    exact List.filter_sublist
  · exact List.Sublist.refl _

theorem drop_registry (w : Uuid) :
    (t.step host (.drop w)).2.registry =
      { t.registry with queues := (t.step host (.drop w)).2.registry.queues } := by
  rw [step_drop, Registry.closeOutlets_eq]

theorem worker_frames (hs : t.Sound) (k : PathKey) (e : WorkerStep) :
    ∃ slots, (t.step host (.worker k e)).2.registry = { t.registry with slots } ∧
      slots.map Slot.frame = t.registry.slots.map Slot.frame := by
  rw [step_worker]
  cases t.registry.slot? k with
  | none => exact ⟨t.registry.slots, rfl, rfl⟩
  | some s => exact Registry.stepWorker_eq hs.keys_nodup host (t.heldBy · k) e

open Registry in
theorem reshape_step (hs : t.Sound) :
    ∀ st : TaskStep, ∀ x ∈ (t.step host st).2.registry.slots,
      Reshape t.registry (t.step host st).2.registry x
  | .claim d => by
    obtain ⟨res, hr⟩ := claim_registry host (t := t) d
    rw [hr]
    exact reshape_of_slots rfl
  | .start k id => by
    rcases start_registry host (t := t) k id with hr | hr <;> rw [hr] <;>
      exact reshape_of_slots rfl
  | .publish k => by
    simp only [step_publish]
    split
    · intro x hx
      rcases mem_insert hx with hx | rfl
      · exact .kept hx rfl
      · exact .published _ _
    · exact reshape_of_slots rfl
  | .abandon k => by
    rw [step_abandon]
    exact reshape_of_slots rfl
  | .update d => by
    simp only [step_update, commit]
    cases hu : t.registry.update d with
    | error f => exact reshape_of_slots rfl
    | ok r =>
      obtain ⟨s, hs', -, rfl⟩ := update_eq_ok hu
      intro x hx
      rcases mem_setSlot hx with hx | rfl
      · exact .kept hx rfl
      · exact .kept hs' rfl
  | .deregister path => fun x hx => .kept ((deregister_slots host path).subset hx) rfl
  | .drop w => by
    rw [drop_registry host]
    exact reshape_of_slots rfl
  | .worker k e => by
    obtain ⟨slots, heq, hframes⟩ := worker_frames host hs k e
    rw [heq]
    intro x hx
    obtain ⟨y, hy, hxy⟩ := List.mem_map.mp (hframes ▸ List.mem_map_of_mem (f := Slot.frame) hx)
    exact .kept hy (Slot.wiring_of_frame hxy.symm)
  | .dispatch k u => by
    simp only [step_dispatch]
    rw [dispatch_eq]
    exact reshape_of_slots rfl
  | .attach k id => by
    simp only [step_attach, commit]
    cases ha : t.registry.attach k id with
    | error f => exact reshape_of_slots rfl
    | ok res =>
      obtain ⟨⟨qid, m⟩, r⟩ := res
      obtain ⟨s, hsl, rfl, -, hq, -, hframes⟩ := attach_eq_ok hs.keys_nodup ha
      have hsize : t.registry.queues.size < r.queues.size := by
        rw [hq, size_openQueue]
        exact Nat.lt_succ_self _
      intro x hx
      obtain ⟨y, hy, hxy⟩ := List.mem_map.mp (hframes ▸ List.mem_map_of_mem (f := Slot.frame) hx)
      by_cases hys : y = s
      · simp only [hys, if_true] at hxy
        exact .attached id (mem_of_slot? hsl).1 hsize (Slot.wiring_of_frame hxy.symm)
      · simp only [hys, if_false] at hxy
        exact .kept hy (Slot.wiring_of_frame hxy.symm)
  | .detach k id => by
    simp only [step_detach]
    rcases detach_cases t.registry k id with hd | ⟨s, q, hsl, hq, hd⟩
    · rw [hd]
      exact reshape_of_slots rfl
    · rw [hd]
      intro x hx
      rcases mem_setSlot hx with hx | rfl
      · exact .kept hx rfl
      · exact .detached id q (mem_of_slot? hsl).1 hq

-- the store of queues only grows
theorem size_le_step (hs : t.Sound) (st : TaskStep) :
    t.registry.queues.size ≤ (t.step host st).2.registry.queues.size := by
  cases st with
  | claim d =>
    obtain ⟨res, hr⟩ := claim_registry host (t := t) d
    rw [hr]
  | start k id =>
    rcases start_registry host (t := t) k id with hr | hr <;> rw [hr]
    exact le_rfl
  | publish k =>
    simp only [step_publish]
    split
    · exact le_of_eq (by simp)
    · exact le_rfl
  | abandon k => exact le_rfl
  | update d =>
    simp only [step_update, commit]
    cases hu : t.registry.update d with
    | error f => exact le_rfl
    | ok r =>
      obtain ⟨s, -, -, rfl⟩ := Registry.update_eq_ok hu
      exact le_rfl
  | deregister path =>
    rw [step_deregister]
    split
    · rename_i s r hr
      obtain ⟨-, rfl⟩ := Registry.remove_eq_ok hr
      exact le_rfl
    · exact le_rfl
  | drop w => simp [step_drop, Registry.size_closeOutlets]
  | worker k e =>
    obtain ⟨slots, heq, -⟩ := worker_frames host hs k e
    rw [heq]
  | dispatch k u =>
    simp only [step_dispatch, Registry.dispatch]
    split
    · exact le_rfl
    · rw [Registry.size_foldl_offerAt]
  | attach k id =>
    simp only [step_attach, commit]
    cases ha : t.registry.attach k id with
    | error f => exact le_rfl
    | ok res =>
      obtain ⟨⟨qid, m⟩, r⟩ := res
      obtain ⟨s, -, -, -, hq, -⟩ := Registry.attach_eq_ok hs.keys_nodup ha
      show t.registry.queues.size ≤ r.queues.size
      rw [hq, Registry.size_openQueue]
      exact Nat.le_succ _
  | detach k id =>
    simp only [step_detach]
    rcases Registry.detach_cases t.registry k id with hd | ⟨s, q, -, -, hd⟩
    · rw [hd]
    · rw [hd]
      simp

end Tasks

-- a property of the slots, given the size of the queue store, that every change keeps
structure SlotInvariant (P : Nat → Slot → Prop) : Prop where
  mono : ∀ {n m : Nat} {s : Slot}, n ≤ m → P n s → P m s
  congr : ∀ {n : Nat} {x y : Slot}, x.wiring = y.wiring → P n y → P n x
  published : ∀ (n : Nat) (k : PathKey) (w : InputWorker), P n { key := k, worker := w }
  attached : ∀ {n : Nat} {s : Slot} {id : Uuid}, P n s → P (n + 1) (s.attached id n)
  detached : ∀ {n : Nat} {s : Slot} {id : Uuid} {q : QueueId},
    P n s → s.outlets.lookup id = some q → P n (s.detached id)

namespace SlotInvariant

variable {P : Nat → Slot → Prop} {host : Net.Host} {t : Tasks}

theorem step (hP : SlotInvariant P) (hs : t.Sound)
    (h : ∀ s ∈ t.registry.slots, P t.registry.queues.size s) (host : Net.Host) (st : TaskStep) :
    ∀ s ∈ (t.step host st).2.registry.slots, P (t.step host st).2.registry.queues.size s := by
  intro x hx
  have hle := Tasks.size_le_step host hs st
  cases Tasks.reshape_step host hs st x hx with
  | kept hs' hw => exact hP.mono hle (hP.congr hw (h _ hs'))
  | published k w => exact hP.published _ k w
  | attached id hs' hlt hw => exact hP.mono hlt (hP.congr hw (hP.attached (h _ hs')))
  | detached id q hs' hq => exact hP.mono hle (hP.detached (h _ hs') hq)

theorem reachable (hP : SlotInvariant P) (h : t.Reachable host) :
    ∀ s ∈ t.registry.slots, P t.registry.queues.size s := by
  induction h with
  | fresh r hs hr => exact fun s hm => absurd (hs ▸ hm) List.not_mem_nil
  | step st hr ih => exact hP.step hr.sound ih _ st

end SlotInvariant

end MediaRelay
