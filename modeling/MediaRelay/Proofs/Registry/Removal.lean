import Mathlib
import MediaRelay.Proofs.Registry.Attachments
import MediaRelay.Proofs.Registry.FanOut

-- A removal takes an input's slot out of the table in one locked section, and keeps the slot with
-- its outlets until the input's worker has stopped; dropping the slot then closes the sending side
-- of its clients' queues. What makes the removal complete is that no two outlets of the table name
-- one queue (`Registry.Wired`): new outlets get new queues, and nothing else adds one. So once the
-- slot is out no slot lists the queues of its clients, and nothing is queued on them again: each
-- keeps the units it held (`items_run_of_not_lists`), and once closed it stays closed
-- (`closed_run`). The workers and the clients of the slots after a step are those of the slots
-- before it, but for a published input and an attached client (`origin_step`). The removal leaves
-- its path vacant, neither published nor claimed, and at a vacant path the table answers as if no
-- input had been there (`Vacant.table`).

namespace MediaRelay

namespace Slot

-- the queues a slot's outlets name
def queueIds (s : Slot) : List QueueId :=
  s.outlets.map Prod.snd

end Slot

namespace Queue

@[simp]
theorem offer_senderOpen (qu : Queue) (u : Octets) (cap : Option Nat) :
    (qu.offer u cap).2.senderOpen = qu.senderOpen := by
  unfold offer
  split_ifs <;> rfl

@[simp]
theorem closeSender_senderOpen (qu : Queue) : qu.closeSender.senderOpen = false := rfl

end Queue

namespace Registry

variable {r r' : Registry} {k : PathKey} {s x y : Slot} {q : QueueId}

-- the queues the outlets of the table name, slot after slot
def listed (r : Registry) : List QueueId :=
  r.slots.flatMap Slot.queueIds

-- the outlets of the table name distinct queues, all of the store
structure Wired (r : Registry) : Prop where
  nodup : r.listed.Nodup
  lt : ∀ q ∈ r.listed, q < r.queues.size

-- what the outlets name depends on the frames of the slots alone
theorem listed_of_frames {g : Slot → PathKey × List (Uuid × QueueId) × InputDescriptor ×
    Protocol × Nat} (h : r'.slots.map Slot.frame = r.slots.map g) :
    r'.listed = r.slots.flatMap fun x => (g x).2.1.map Prod.snd := by
  have hframe : r'.listed = (r'.slots.map Slot.frame).flatMap fun f => f.2.1.map Prod.snd := by
    rw [List.flatMap_map]
    rfl
  rw [hframe, h, List.flatMap_map]

-- a change that lists no queue anew, in a store that does not shrink
theorem Wired.of_sublist (h : r.Wired) (hl : r'.listed.Sublist r.listed)
    (hsize : r.queues.size ≤ r'.queues.size) : r'.Wired :=
  ⟨h.nodup.sublist hl, fun q hq => lt_of_lt_of_le (h.lt q (hl.subset hq)) hsize⟩

-- where the slots name distinct queues, two slots name no queue in common
theorem disjoint_queueIds {L : List Slot} (hnd : (L.flatMap Slot.queueIds).Nodup) (hx : x ∈ L)
    (hy : y ∈ L) (hne : x ≠ y) : List.Disjoint x.queueIds y.queueIds := by
  have : Std.Symm (Function.onFun List.Disjoint Slot.queueIds) :=
    ⟨fun _ _ h => List.Disjoint.symm h⟩
  exact (List.nodup_flatMap.mp hnd).2.forall hx hy hne

theorem Wired.not_mem_of_ne (h : r.Wired) (hx : x ∈ r.slots) (hy : y ∈ r.slots) (hne : x ≠ y)
    (hq : q ∈ x.queueIds) : q ∉ y.queueIds :=
  disjoint_queueIds h.nodup hx hy hne hq

-- the slot `s` names, in place of its queues, distinct queues among them and `n`, a queue
-- beyond every queue listed: the queues named stay distinct
theorem nodup_flatMap_replace {L : List Slot} {Q : List QueueId} {n : Nat} (hL : L.Nodup)
    (hnd : (L.flatMap Slot.queueIds).Nodup) (hlt : ∀ q ∈ L.flatMap Slot.queueIds, q < n)
    (hQ : Q.Nodup) (hsub : ∀ q ∈ Q, q ∈ s.queueIds ∨ q = n) :
    (L.flatMap fun x => if x = s then Q else x.queueIds).Nodup := by
  obtain ⟨heach, hpair⟩ := List.nodup_flatMap.mp hnd
  have hfresh : ∀ y ∈ L, n ∉ y.queueIds := fun y hy hn =>
    lt_irrefl n (hlt n (List.mem_flatMap.mpr ⟨y, hy, hn⟩))
  -- the queues `Q` names are none of another slot's
  have hapart : ∀ y ∈ L, y ≠ s → s ∈ L → List.Disjoint Q y.queueIds := by
    intro y hy hys hs q hq hqy
    rcases hsub q hq with hq | rfl
    · exact disjoint_queueIds hnd hs hy (Ne.symm hys) hq hqy
    · exact hfresh y hy hqy
  refine List.nodup_flatMap.mpr ⟨fun x hx => ?_, (hL.and hpair).imp_of_mem ?_⟩
  · by_cases hxs : x = s
    · simpa [hxs] using hQ
    · simpa [hxs] using heach x hx
  · intro x y hx hy ⟨hne, hxy⟩
    by_cases hxs : x = s <;> by_cases hys : y = s
    · exact absurd (hxs.trans hys.symm) hne
    · subst hxs
      simpa [Function.onFun, hys] using hapart y hy hys hx
    · subst hys
      simpa [Function.onFun, hxs] using (hapart x hx hxs hy).symm
    · simpa [Function.onFun, hxs, hys] using hxy

-- one slot names, in place of its queues, distinct queues among them and the next queue of the
-- store, which grows by one: the outlets still name distinct queues of the store
theorem Wired.of_replace {Q : List QueueId} (h : r.Wired) (hnd : r.slots.Nodup) (hs : s ∈ r.slots)
    (hl : r'.listed = r.slots.flatMap fun x => if x = s then Q else x.queueIds) (hQ : Q.Nodup)
    (hsub : ∀ q ∈ Q, q ∈ s.queueIds ∨ q = r.queues.size)
    (hsize : r'.queues.size = r.queues.size + 1) : r'.Wired := by
  refine ⟨hl ▸ nodup_flatMap_replace hnd h.nodup h.lt hQ hsub, fun q hq => ?_⟩
  rw [hl] at hq
  obtain ⟨x, hx, hqx⟩ := List.mem_flatMap.mp hq
  rw [hsize]
  by_cases hxs : x = s
  · rw [if_pos hxs] at hqx
    rcases hsub q hqx with hq | rfl
    · exact Nat.lt_succ_of_lt (h.lt q (List.mem_flatMap.mpr ⟨s, hs, hq⟩))
    · exact Nat.lt_succ_self _
  · rw [if_neg hxs] at hqx
    exact Nat.lt_succ_of_lt (h.lt q (List.mem_flatMap.mpr ⟨x, hx, hqx⟩))

theorem mem_keys_of_slot? (h : r.slot? k = some s) : k ∈ r.keys :=
  List.mem_map.mpr ⟨s, (mem_of_slot? h).1, (mem_of_slot? h).2⟩

end Registry

namespace Tasks

variable {host : Net.Host} {t : Tasks} {q : QueueId}

open Registry in
-- every step keeps the outlets naming distinct queues of the store
theorem Wired.step (hs : t.Sound) (hw : t.registry.Wired) :
    ∀ st : TaskStep, (t.step host st).2.registry.Wired
  | .claim d => by
    obtain ⟨res, hr⟩ := claim_registry host (t := t) d
    rw [hr]
    exact ⟨hw.nodup, hw.lt⟩
  | .start k id => by
    rcases start_registry host (t := t) k id with hr | hr <;> rw [hr]
    exacts [hw, ⟨hw.nodup, hw.lt⟩]
  | .publish k => by
    simp only [step_publish]
    split
    · rename_i d w hcl
      -- the new slot has no client yet
      have hins := insert_of_not_mem (r := t.registry) (s := { key := k, worker := w })
        (hs.free_of_claimant hcl)
      refine hw.of_sublist ?_ (by simp)
      simp [listed, hins, release, Slot.queueIds]
    · exact hw
  | .abandon k => ⟨hw.nodup, hw.lt⟩
  | .update d => by
    simp only [step_update, commit]
    cases hu : t.registry.update d with
    | error f => exact hw
    | ok r =>
      obtain ⟨s, hs', -, rfl⟩ := update_eq_ok hu
      -- the moved slot keeps its outlets
      have hl : (t.registry.setSlot s.key
          { s with key := d.key, worker := { s.worker with descriptor := d } }).listed =
          t.registry.listed := by
        have := map_setSlot Slot.queueIds hs.keys_nodup (slot?_of_mem hs.keys_nodup hs')
          (s := { s with key := d.key, worker := { s.worker with descriptor := d } }) rfl
        simp only [listed, List.flatMap_def, this]
      exact hw.of_sublist (hl ▸ List.Sublist.refl _) le_rfl
  | .deregister path => by
    refine hw.of_sublist ((deregister_slots host path).flatMap _) ?_
    rw [step_deregister]
    split
    · rename_i s r hr
      obtain ⟨-, rfl⟩ := remove_eq_ok hr
      exact le_rfl
    · exact le_rfl
  | .drop w => by
    rw [drop_registry host]
    exact hw.of_sublist (List.Sublist.refl _) (by simp [step_drop, size_closeOutlets])
  | .dispatch k u => by
    simp only [step_dispatch]
    rw [dispatch_eq]
    refine hw.of_sublist (List.Sublist.refl _) ?_
    simp only [Registry.dispatch]
    split
    · exact le_rfl
    · rw [size_foldl_offerAt]
  | .attach k id => by
    simp only [step_attach, commit]
    cases ha : t.registry.attach k id with
    | error f => exact hw
    | ok res =>
      obtain ⟨⟨qid, m⟩, r⟩ := res
      obtain ⟨s, hsl, rfl, -, hq, -, hframes⟩ := attach_eq_ok hs.keys_nodup ha
      have hsm := (mem_of_slot? hsl).1
      show r.Wired
      have hsize : r.queues.size = t.registry.queues.size + 1 := by rw [hq, size_openQueue]
      -- the attached slot names its kept queues and the fresh one, the next of the store
      have hl : r.listed = t.registry.slots.flatMap fun x =>
          if x = s then (s.withOutlet id t.registry.queues.size).map Prod.snd else x.queueIds := by
        rw [listed_of_frames hframes]
        refine List.flatMap_congr fun x _ => ?_
        by_cases hx : x = s <;> simp [hx, Slot.frame, Slot.attached, Slot.queueIds]
      have hkept : ((s.outlets.filter (·.1 != id)).map Prod.snd).Sublist s.queueIds :=
        List.filter_sublist.map _
      have hsub : ∀ q ∈ (s.withOutlet id t.registry.queues.size).map Prod.snd,
          q ∈ s.queueIds ∨ q = t.registry.queues.size := by
        intro q hq
        simp only [Slot.withOutlet, List.map_append, List.map_singleton, List.mem_append,
          List.mem_singleton] at hq
        exact hq.imp_left fun hq => hkept.subset hq
      have hQ : ((s.withOutlet id t.registry.queues.size).map Prod.snd).Nodup := by
        simp only [Slot.withOutlet, List.map_append, List.map_singleton]
        refine List.nodup_append.mpr ⟨(List.nodup_flatMap.mp hw.nodup).1 s hsm |>.sublist hkept,
          List.nodup_singleton _, fun a ha b hb => ?_⟩
        simp only [List.mem_singleton] at hb
        exact hb ▸ fun he => lt_irrefl a
          (he ▸ hw.lt a (List.mem_flatMap.mpr ⟨s, hsm, hkept.subset ha⟩))
      exact hw.of_replace (hs.keys_nodup.of_map _) hsm hl hQ hsub hsize
  | .detach k id => by
    simp only [step_detach]
    rcases detach_cases t.registry k id with hd | ⟨s, j, hsl, -, hd⟩
    · rw [hd]
      exact hw
    · rw [hd]
      -- the detached slot names some of its queues
      have hnd : (t.registry.modifyQueue j Queue.closeSender).keys.Nodup := hs.keys_nodup
      have hsl' : (t.registry.modifyQueue j Queue.closeSender).slot? k = some s := hsl
      refine hw.of_sublist ?_ (by simp [size_modifyQueue])
      simp only [listed, setSlot_slots hnd hsl', modifyQueue_slots, List.flatMap_map]
      refine List.Sublist.flatMap_right _ fun x _ => ?_
      by_cases hx : x = s
      · simpa [hx, Slot.detached, Slot.queueIds] using List.filter_sublist.map Prod.snd
      · simp [hx]
  | .worker k e => by
    obtain ⟨slots, heq, hframes⟩ := worker_frames host hs k e
    rw [heq]
    refine hw.of_sublist ?_ le_rfl
    rw [listed_of_frames hframes]
    rfl

theorem Reachable.wired (h : t.Reachable host) : t.registry.Wired := by
  induction h with
  | fresh r hs hr => exact ⟨by simp [Registry.listed, hs], by simp [Registry.listed, hs]⟩
  | step st hr ih => exact Wired.step hr.sound ih st

-- a queue whose sending side is closed stays closed
theorem closed_step (h : t.Reachable host) (hq : q < t.registry.queues.size)
    (hc : (t.registry.queue q).senderOpen = false) (st : TaskStep) :
    ((t.step host st).2.registry.queue q).senderOpen = false := by
  rcases queue_step_cases host h.sound h.wiredIn hq st with ⟨-, hqu | hqu⟩ | ⟨u, -, hqu⟩ <;>
    rw [hqu]
  · exact hc
  · rfl
  · rw [Queue.offer_senderOpen]
    exact hc

theorem closed_run (h : t.Reachable host) (hq : q < t.registry.queues.size)
    (hc : (t.registry.queue q).senderOpen = false) (steps : List TaskStep) :
    ((t.run host steps).registry.queue q).senderOpen = false := by
  induction steps generalizing t with
  | nil => exact hc
  | cons st steps ih =>
    exact ih (.step st h) (lt_of_lt_of_le hq (size_le_step host h.sound st))
      (closed_step h hq hc st)

-- a queue that no slot lists keeps the units it holds along any run
theorem items_run_of_not_lists (h : t.Reachable host) (hq : q < t.registry.queues.size)
    (hn : ¬t.registry.Lists q) (steps : List TaskStep) :
    ((t.run host steps).registry.queue q).items = (t.registry.queue q).items := by
  have hf : (t.registry.queue q).Follows (t.registry.queue q).items [] :=
    ⟨0, by simp, fun h => absurd h (Nat.not_lt_zero 0)⟩
  obtain ⟨n, hitems, -⟩ := Follows.run h hq hf steps
  simpa [dispatchedTo_of_not_lists h hq hn] using hitems

-- a slot being dropped stays so until the drop of its worker's slots
theorem mem_dropping_step {x : Slot} (hx : x ∈ t.dropping) (st : TaskStep) :
    x ∈ (t.step host st).2.dropping ∨ st = .drop x.worker.id := by
  cases st with
  | claim d =>
    simp only [step_claim]
    split <;> exact .inl hx
  | start k id =>
    simp only [step_start]
    split
    · split <;> exact .inl hx
    · exact .inl hx
  | publish k =>
    simp only [step_publish]
    split <;> exact .inl hx
  | abandon k => exact .inl hx
  | update d =>
    simp only [step_update, commit]
    split <;> exact .inl hx
  | deregister path =>
    simp only [step_deregister]
    split
    · exact .inl (List.mem_append_left _ hx)
    · exact .inl hx
  | drop w =>
    by_cases hw : x.worker.id = w
    · exact .inr (hw ▸ rfl)
    · exact .inl (by simp [step_drop, hx, hw])
  | dispatch k u => exact .inl hx
  | attach k id =>
    simp only [step_attach, commit]
    split <;> exact .inl hx
  | detach k id => exact .inl hx
  | worker k e =>
    simp only [step_worker]
    split <;> exact .inl hx

-- the drop of a worker's slots closes the queues of their outlets
theorem closed_drop {x : Slot} (hx : x ∈ t.dropping) {o : Uuid × QueueId} (ho : o ∈ x.outlets)
    (hq : o.2 < t.registry.queues.size) :
    ((t.step host (.drop x.worker.id)).2.registry.queue o.2).senderOpen = false := by
  rw [step_drop]
  dsimp only
  rw [Registry.queue_closeOutlets _ _ hq, if_pos]
  · rfl
  · exact List.mem_map_of_mem (List.mem_flatMap.mpr ⟨x, by simp [hx], ho⟩)

-- A slot after a step is a slot before it with the same worker, under the same key unless the
-- step updates its input, whose clients it keeps but for one the step attaches; or it is the slot
-- the step publishes for a started registration.
theorem origin_step (st : TaskStep) {x : Slot} (hx : x ∈ (t.step host st).2.registry.slots) :
    (∃ y ∈ t.registry.slots, x.worker.id = y.worker.id ∧
      (x.key = y.key ∨ ∃ d, st = .update d ∧ x.key = d.key) ∧
      ∀ o ∈ x.outlets, o ∈ y.outlets ∨ ∃ k, st = .attach k o.1) ∨
    ∃ k d w, st = .publish k ∧ t.claimant? k = some (.started d w) ∧
      x = { key := k, worker := w } := by
  have kept : x ∈ t.registry.slots → (∃ y ∈ t.registry.slots, x.worker.id = y.worker.id ∧
      (x.key = y.key ∨ ∃ d, st = .update d ∧ x.key = d.key) ∧
      ∀ o ∈ x.outlets, o ∈ y.outlets ∨ ∃ k, st = .attach k o.1) ∨
      ∃ k d w, st = .publish k ∧ t.claimant? k = some (.started d w) ∧
        x = { key := k, worker := w } :=
    fun hy => .inl ⟨x, hy, rfl, .inl rfl, fun o ho => .inl ho⟩
  cases st with
  | claim d =>
    obtain ⟨res, hr⟩ := claim_registry host (t := t) d
    rw [hr] at hx
    exact kept hx
  | start k id =>
    rcases start_registry host (t := t) k id with hr | hr <;> rw [hr] at hx
    · exact kept hx
    · exact kept hx
  | publish k =>
    simp only [step_publish] at hx
    split at hx
    · rename_i d w hcl
      rcases Registry.mem_insert hx with hx | rfl
      · exact kept hx
      · exact .inr ⟨k, d, w, rfl, hcl, rfl⟩
    · exact kept hx
  | abandon k => exact kept hx
  | update d =>
    simp only [step_update, commit] at hx
    split at hx
    · rename_i r hu
      obtain ⟨s, hs, -, rfl⟩ := Registry.update_eq_ok hu
      rcases Registry.mem_setSlot hx with hx | rfl
      · exact kept hx
      · exact .inl ⟨s, hs, rfl, .inr ⟨d, rfl, rfl⟩, fun o ho => .inl ho⟩
    · exact kept hx
  | deregister path => exact kept ((deregister_slots host path).subset hx)
  | drop w =>
    rw [drop_registry host] at hx
    exact kept hx
  | dispatch k u =>
    simp only [step_dispatch] at hx
    rw [Registry.dispatch_eq] at hx
    exact kept hx
  | attach k id =>
    simp only [step_attach, commit] at hx
    split at hx
    · rename_i r ha
      unfold Registry.attach at ha
      split at ha
      · cases ha
      · rename_i s hs
        simp only [Except.map, Except.ok.injEq] at ha
        subst ha
        rcases Registry.mem_setSlot hx with hx | rfl
        · exact kept (by simpa using hx)
        · -- the attached slot keeps the other clients and lists the new one
          refine .inl ⟨s, (Registry.mem_of_slot? hs).1, by simp [Slot.attached], .inl rfl,
            fun o ho => ?_⟩
          simp only [Slot.attached, Slot.withOutlet, List.mem_append, List.mem_filter,
            List.mem_singleton] at ho
          rcases ho with ⟨ho, -⟩ | rfl
          · exact .inl ho
          · exact .inr ⟨k, rfl⟩
    · exact kept hx
  | detach k id =>
    simp only [step_detach] at hx
    rcases Registry.detach_cases t.registry k id with hd | ⟨s, j, hs, -, hd⟩ <;> rw [hd] at hx
    · exact kept hx
    · rcases Registry.mem_setSlot hx with hx | rfl
      · exact kept hx
      · refine .inl ⟨s, (Registry.mem_of_slot? hs).1, by simp [Slot.detached], .inl rfl,
          fun o ho => ?_⟩
        exact .inl (List.mem_filter.mp ho).1
  | worker k e =>
    simp only [step_worker] at hx
    split at hx
    · unfold Registry.stepWorker at hx
      split at hx
      · exact kept hx
      · rename_i s hs
        rcases Registry.mem_setSlot hx with hx | rfl
        · exact kept hx
        · exact .inl ⟨s, (Registry.mem_of_slot? hs).1, by simp, .inl rfl, fun o ho => .inl ho⟩
    · exact kept hx

variable {path : String} {s : Slot}

theorem step_deregister_of_slot (hs : t.registry.slot? (PathKey.ofPath path) = some s) :
    t.step host (.deregister path) = (.ok (), { t with
      registry :=
        { t.registry with slots := t.registry.slots.filter (·.key != PathKey.ofPath path) }
      dropping := t.dropping ++ [s] }) := by
  simp [step_deregister, Registry.remove, hs]

theorem slot?_deregister (hs : t.registry.slot? (PathKey.ofPath path) = some s) :
    (t.step host (.deregister path)).2.registry.slot? (PathKey.ofPath path) = none := by
  rw [Registry.slot?_eq_none_iff, Registry.keys, step_deregister_of_slot hs]
  simp

-- once the slot is out no slot lists the queues of its clients, since no other slot names them
theorem not_lists_deregister (h : t.Reachable host)
    (hs : t.registry.slot? (PathKey.ofPath path) = some s) (hq : q ∈ s.queueIds) :
    ¬(t.step host (.deregister path)).2.registry.Lists q := by
  obtain ⟨hsm, hsk⟩ := Registry.mem_of_slot? hs
  rintro ⟨x, hx, hqx⟩
  rw [step_deregister_of_slot hs, List.mem_filter] at hx
  have hxs : s ≠ x := fun he => by simp [← he, hsk] at hx
  exact h.wired.not_mem_of_ne hsm hx.1 hxs hq hqx

-- a key that no slot has and no registration claims
def Vacant (t : Tasks) (k : PathKey) : Prop :=
  k ∉ t.registry.keys ∧ k ∉ t.registry.reserved

-- once the slot is out, its path is vacant: the table published it, so nothing claimed it
theorem vacant_deregister (h : t.Reachable host)
    (hs : t.registry.slot? (PathKey.ofPath path) = some s) :
    (t.step host (.deregister path)).2.Vacant (PathKey.ofPath path) := by
  refine ⟨Registry.slot?_eq_none_iff.mp (slot?_deregister hs), fun hres => ?_⟩
  rw [step_deregister_of_slot hs] at hres
  exact h.sound.apart _ hres (Registry.mem_keys_of_slot? hs)

-- Under a vacant path there is no input: an attachment to it fails and changes nothing, a
-- dispatch there offers nothing, a detach there does nothing; it counts no client and resolves to
-- nothing, and a registration of it is granted its claim if its route is valid.
theorem Vacant.table (host : Net.Host) (hv : t.Vacant (PathKey.ofPath path)) :
    let k := PathKey.ofPath path
    (∀ id, t.step host (.attach k id) = (.error (.registry (.inputNotFound k)), t)) ∧
    (∀ u, t.registry.dispatch k u = (0, t.registry)) ∧
    (∀ id, t.step host (.detach k id) = (.ok (), t)) ∧
    t.registry.connectionCount path = 0 ∧ t.registry.resolve path = none ∧
    (∀ d : InputDescriptor, d.key = k →
      ((t.step host (.claim d)).1 = .ok () ↔ d.route.validate = .ok ())) := by
  have hnone : t.registry.slot? (PathKey.ofPath path) = none :=
    Registry.slot?_eq_none_iff.mpr hv.1
  refine ⟨fun id => ?_, fun u => ?_, fun id => ?_, ?_, ?_, fun d hd => ?_⟩
  · simp [step_attach, commit, Registry.attach, hnone, Except.map]
  · simp [Registry.dispatch, hnone]
  · simp [step_detach, Registry.detach, hnone]
  · simp [Registry.connectionCount, hnone]
  · simp [Registry.resolve, hnone]
  · rw [claim_ok_iff, hd]
    exact ⟨fun hok => hok.1, fun hval => ⟨hval, hv.1, hv.2⟩⟩

end Tasks

end MediaRelay
