import Mathlib
import MediaRelay.Proofs.Registry.Slots

-- A slot lists its clients by connection id, each once, and a UDP input's activation gate counts
-- the clients attached. The gate is kept apart from the outlets: attaching always opens it one more
-- time, also when the id was attached there already and its outlet is only replaced, and detaching
-- closes it only when the slot under the key given held an outlet for the id. So the gate never
-- counts fewer clients than the slot holds, but it counts one more for every attachment that
-- replaced an outlet (`Slot.surplus`), and a detach names the key the client asked for: once an
-- update has moved the input to another key, the detach finds no outlet and the client stays
-- attached (`detach_after_move_keeps_outlet`).

namespace MediaRelay

namespace Slot

-- the ids of the clients attached to a slot
def ids (s : Slot) : List Uuid :=
  s.outlets.map Prod.fst

-- the attachments that a UDP input's gate counts beyond the outlets of its slot
def surplus (s : Slot) : Nat :=
  s.worker.gate.count - s.outlets.length

-- each client of a slot is listed once, and a UDP input's gate counts every outlet
structure Counted (s : Slot) : Prop where
  ids_nodup : s.ids.Nodup
  length_le : s.worker.protocol = .udp → s.outlets.length ≤ s.worker.gate.count

variable {s x y : Slot} {id : Uuid} {q : QueueId}

-- dropping the outlet of `id` drops one entry when `id` is listed, none otherwise
theorem length_filter_key_ne {os : List (Uuid × QueueId)} (h : (os.map Prod.fst).Nodup) :
    (os.filter (·.1 != id)).length + (if id ∈ os.map Prod.fst then 1 else 0) = os.length := by
  induction os with
  | nil => simp
  | cons o os ih =>
    obtain ⟨hfresh, hnd⟩ := List.nodup_cons.mp h
    by_cases ho : o.1 = id
    · have hout : id ∉ os.map Prod.fst := ho ▸ hfresh
      simpa [List.filter_cons, ho, hout] using ih hnd
    · have := ih hnd
      simp only [List.filter_cons, bne_iff_ne, ne_eq, ho, not_false_eq_true, if_true,
        List.length_cons, List.map_cons, List.mem_cons, Ne.symm ho, false_or] at this ⊢
      omega

theorem length_filter_ids (c : Uuid) (h : s.ids.Nodup) :
    (s.outlets.filter (·.1 != c)).length + (if c ∈ s.ids then 1 else 0) = s.outlets.length :=
  length_filter_key_ne h

theorem ids_filter : (s.outlets.filter (·.1 != id)).map Prod.fst = s.ids.filter (· != id) := by
  simp [ids, List.filter_map, Function.comp_def]

theorem ids_withOutlet : (s.withOutlet id q).map Prod.fst = s.ids.filter (· != id) ++ [id] := by
  simp [withOutlet, ids_filter]

theorem ids_nodup_withOutlet (h : s.ids.Nodup) : ((s.withOutlet id q).map Prod.fst).Nodup := by
  rw [ids_withOutlet]
  exact List.nodup_append.mpr ⟨h.filter _, List.nodup_singleton id, by simp⟩

theorem length_withOutlet (h : s.ids.Nodup) :
    (s.withOutlet id q).length = s.outlets.length + (if id ∈ s.ids then 0 else 1) := by
  have := length_filter_ids id h
  by_cases hid : id ∈ s.ids <;>
    simp only [withOutlet, List.length_append, List.length_singleton, hid, if_true,
      if_false] at this ⊢ <;> omega

@[simp]
theorem attached_protocol : (s.attached id q).worker.protocol = s.worker.protocol := by
  simp [attached]

theorem count_attached : (s.attached id q).worker.gate.count =
    if s.worker.protocol = .udp then s.worker.gate.count + 1 else s.worker.gate.count :=
  InputWorker.connectionAdded_count

@[simp]
theorem detached_protocol : (s.detached id).worker.protocol = s.worker.protocol := by
  simp [detached]

theorem count_detached : (s.detached id).worker.gate.count =
    if s.worker.protocol = .udp then s.worker.gate.count - 1 else s.worker.gate.count :=
  InputWorker.connectionRemoved_count

-- a UDP input's gate opens once more at every attachment; its outlets grow only for a new id
theorem Counted.attached (h : s.Counted) : (s.attached id q).Counted where
  ids_nodup := ids_nodup_withOutlet h.ids_nodup
  length_le hu := by
    have hu' : s.worker.protocol = .udp := by simpa using hu
    have hle := h.length_le hu'
    have hlen : (s.withOutlet id q).length = _ := length_withOutlet h.ids_nodup
    rw [count_attached, if_pos hu']
    show (s.withOutlet id q).length ≤ _
    split at hlen <;> omega

theorem surplus_attached (h : s.Counted) (hu : s.worker.protocol = .udp) :
    (s.attached id q).surplus = s.surplus + if id ∈ s.ids then 1 else 0 := by
  have hle := h.length_le hu
  have hlen : (s.withOutlet id q).length = _ := length_withOutlet h.ids_nodup
  rw [surplus, surplus, count_attached, if_pos hu]
  show _ - (s.withOutlet id q).length = _
  by_cases hid : id ∈ s.ids <;> simp only [hid, if_true, if_false] at hlen ⊢ <;> omega

theorem mem_ids_attached : id ∈ (s.attached id q).ids := by
  simp [Slot.attached, ids, ids_withOutlet]

-- detaching a listed client drops its one outlet and closes the gate once
theorem length_detached (h : s.Counted) (hid : id ∈ s.ids) :
    (s.detached id).outlets.length + 1 = s.outlets.length := by
  have := length_filter_ids id h.ids_nodup
  rw [if_pos hid] at this
  exact this

theorem Counted.detached (h : s.Counted) (hid : id ∈ s.ids) : (s.detached id).Counted where
  ids_nodup := by
    show ((s.outlets.filter (·.1 != id)).map Prod.fst).Nodup
    rw [ids_filter]
    exact h.ids_nodup.filter _
  length_le hu := by
    have hu' : s.worker.protocol = .udp := by simpa using hu
    have hle := h.length_le hu'
    have hlen : (s.detached id).outlets.length + 1 = _ := length_detached h hid
    rw [count_detached, if_pos hu']
    omega

theorem not_mem_ids_detached : id ∉ (s.detached id).ids := by
  show id ∉ (s.outlets.filter (·.1 != id)).map Prod.fst
  rw [ids_filter]
  simp

theorem surplus_detached (h : s.Counted) (hu : s.worker.protocol = .udp) (hid : id ∈ s.ids) :
    (s.detached id).surplus = s.surplus := by
  have hle := h.length_le hu
  have hlen : (s.detached id).outlets.length + 1 = _ := length_detached h hid
  rw [surplus, surplus, count_detached, if_pos hu]
  omega

-- what `Counted` reads of a slot lies in its wiring, and what `ids` and `surplus` read in its frame
theorem Counted.of_wiring (h : y.Counted) (hw : x.wiring = y.wiring) : x.Counted := by
  simp only [wiring, Prod.mk.injEq] at hw
  obtain ⟨ho, hp, hc⟩ := hw
  exact ⟨by simpa [ids, ho] using h.ids_nodup, by simpa [ho, hp, hc] using h.length_le⟩

theorem ids_of_frame (hf : x.frame = y.frame) : x.ids = y.ids := by
  simp only [frame, Prod.mk.injEq] at hf
  simp [ids, hf.2.1]

theorem surplus_of_frame (hf : x.frame = y.frame) : x.surplus = y.surplus := by
  simp only [frame, Prod.mk.injEq] at hf
  simp [surplus, hf.2.1, hf.2.2.2.2]

end Slot

namespace Registry

variable {r r' : Registry} {k : PathKey} {s cur : Slot} {id : Uuid}

theorem slot?_of_frames (hnd : r.keys.Nodup) (hs : r.slot? k = some s)
    {f : PathKey × List (Uuid × QueueId) × InputDescriptor × Protocol × Nat}
    (hf : r'.slots.map Slot.frame = r.slots.map fun x => if x = s then f else x.frame)
    (hk : f.1 = k) : ∃ s', r'.slot? k = some s' ∧ s'.frame = f := by
  have hmem : f ∈ r'.slots.map Slot.frame := by
    rw [hf]
    exact List.mem_map.mpr ⟨s, (mem_of_slot? hs).1, by simp⟩
  obtain ⟨s', hs', rfl⟩ := List.mem_map.mp hmem
  -- the new frame keeps the key of the slot it replaces
  have hkeys : r'.keys = r.keys := by
    have := congrArg (List.map Prod.fst) hf
    simp only [List.map_map] at this
    rw [keys, show r'.slots.map (·.key) = r'.slots.map (Prod.fst ∘ Slot.frame) from rfl, this,
      keys]
    refine List.map_congr_left fun x _ => ?_
    by_cases hx : x = s
    · simp [hx, hk, (mem_of_slot? hs).2]
    · simp [hx, Slot.frame]
  exact ⟨s', hk ▸ slot?_of_mem (hkeys ▸ hnd) hs', rfl⟩

theorem slot?_setSlot_self (hnd : r.keys.Nodup) (h : r.slot? k = some cur) (hk : s.key = k) :
    (r.setSlot k s).slot? k = some s := by
  have hcur := mem_of_slot? h
  have hnd' : (r.setSlot k s).keys.Nodup := keys_setSlot hnd h (hk.trans hcur.2.symm) ▸ hnd
  have hmem : s ∈ (r.setSlot k s).slots := by
    rw [setSlot_slots hnd h]
    exact List.mem_map.mpr ⟨cur, hcur.1, by simp⟩
  have hself := slot?_of_mem hnd' hmem
  rwa [hk] at hself

end Registry

namespace Tasks

variable {host : Net.Host} {t : Tasks} {k : PathKey} {id : Uuid}

-- every step keeps every slot counted
theorem slotInvariant_counted : SlotInvariant fun _ s => s.Counted where
  mono _ h := h
  congr hw h := h.of_wiring hw
  published _ _ _ := ⟨List.nodup_nil, fun _ => Nat.zero_le _⟩
  attached h := h.attached
  detached h hq := h.detached (Slot.isSome_lookup_iff.mp (by simp [hq]))

theorem Reachable.counted (h : t.Reachable host) : ∀ s ∈ t.registry.slots, s.Counted :=
  slotInvariant_counted.reachable h

theorem attach_slot (h : t.Reachable host) (id : Uuid) {s : Slot}
    (hs : t.registry.slot? k = some s) :
    ∃ s', (t.step host (.attach k id)).2.registry.slot? k = some s' ∧
      s'.frame = (s.attached id t.registry.queues.size).frame := by
  obtain ⟨r, hstep, -, hframes⟩ := attach_published host h.sound hs id
  have hk : (s.attached id t.registry.queues.size).frame.1 = k := (Registry.mem_of_slot? hs).2
  rw [hstep]
  exact Registry.slot?_of_frames h.sound.keys_nodup hs hframes hk

-- detaching a client listed under `k` removes it from the slot there
theorem detach_slot (h : t.Reachable host) {s : Slot} (hs : t.registry.slot? k = some s)
    (hid : id ∈ s.ids) : (t.step host (.detach k id)).2.registry.slot? k = some (s.detached id) := by
  obtain ⟨q, hq⟩ := Option.isSome_iff_exists.mp (Slot.isSome_lookup_iff.mpr hid)
  have hnd : (t.registry.modifyQueue q Queue.closeSender).keys.Nodup := h.sound.keys_nodup
  have hsq : (t.registry.modifyQueue q Queue.closeSender).slot? k = some s := hs
  simp only [step_detach, Registry.detach, hs, hq]
  exact Registry.slot?_setSlot_self hnd hsq (Registry.mem_of_slot? hs).2

-- a detach under a key whose slot does not list the client changes nothing
theorem detach_of_not_mem (hk : ∀ s, t.registry.slot? k = some s → id ∉ s.ids) :
    (t.step host (.detach k id)).2 = t := by
  rcases Registry.detach_cases t.registry k id with hd | ⟨s, q, hs, hq, -⟩
  · simp only [step_detach, hd]
  · exact absurd (Slot.isSome_lookup_iff.mp (by simp [hq])) (hk s hs)

theorem gate_counts_every_attachment (h : t.Reachable host) :
    (∀ s ∈ t.registry.slots, s.ids.Nodup ∧
      (s.worker.protocol = .udp → s.outlets.length ≤ s.worker.gate.count)) ∧
    (∀ k id s, t.registry.slot? k = some s → s.worker.protocol = .udp →
      ∃ s', (t.step host (.attach k id)).2.registry.slot? k = some s' ∧ id ∈ s'.ids ∧
        s'.surplus = s.surplus + if id ∈ s.ids then 1 else 0) ∧
    (∀ k id s, t.registry.slot? k = some s → id ∈ s.ids →
      ∃ s', (t.step host (.detach k id)).2.registry.slot? k = some s' ∧ id ∉ s'.ids ∧
        s'.outlets.length + 1 = s.outlets.length ∧
        (s.worker.protocol = .udp → s'.surplus = s.surplus)) ∧
    (∀ k id, (∀ s, t.registry.slot? k = some s → id ∉ s.ids) → (t.step host (.detach k id)).2 = t) := by
  have hc := h.counted
  refine ⟨fun s hs => ⟨(hc s hs).ids_nodup, (hc s hs).length_le⟩, ?_, ?_,
    fun k id hk => detach_of_not_mem hk⟩
  · intro k id s hs hu
    have hcs := hc s (Registry.mem_of_slot? hs).1
    obtain ⟨s', hs', hf⟩ := attach_slot h id hs
    exact ⟨s', hs', Slot.ids_of_frame hf ▸ Slot.mem_ids_attached,
      (Slot.surplus_of_frame hf).trans (Slot.surplus_attached hcs hu)⟩
  · intro k id s hs hid
    have hcs := hc s (Registry.mem_of_slot? hs).1
    exact ⟨_, detach_slot h hs hid, Slot.not_mem_ids_detached, Slot.length_detached hcs hid,
      fun hu => Slot.surplus_detached hcs hu hid⟩

-- a client attached twice to a UDP input is counted twice by its gate
theorem reattach_counts_client_twice :
    let d : InputDescriptor :=
      { uuid := .ofNat 7, path := "/a", media := .flv
        route := { uuid := .ofNat 1, host := "127.0.0.1", port := 0, protocol := .udp } }
    let t := ({ registry := {} } : Tasks).run Net.Host.sample
      [.claim d, .start d.key (.ofNat 5), .publish d.key, .attach d.key (.ofNat 1)]
    ∃ s', (t.step Net.Host.sample (.attach d.key (.ofNat 1))).2.registry.slot? d.key = some s' ∧
      s'.surplus = 1 := by
  intro d t
  have hreach : t.Reachable Net.Host.sample := (Reachable.fresh {} rfl rfl).run _
  obtain ⟨s, hs⟩ : ∃ s, t.registry.slot? d.key = some s :=
    Option.isSome_iff_exists.mp (by decide +kernel)
  have hview : (t.registry.slot? d.key).map
      (fun s => (s.worker.protocol, s.surplus, decide (Uuid.ofNat 1 ∈ s.ids))) =
      some (.udp, 0, true) := by
    decide +kernel
  simp only [hs, Option.map_some, Option.some.injEq, Prod.mk.injEq, decide_eq_true_eq] at hview
  obtain ⟨hu, h0, hid⟩ := hview
  obtain ⟨s', hs', -, hsur⟩ := (gate_counts_every_attachment hreach).2.1 d.key (.ofNat 1) s hs hu
  exact ⟨s', hs', by simp [hsur, h0, hid]⟩

-- an update moves an input from `/a` to `/b` while a client is attached, and the client then
-- detaches from `/a`, the key it asked for: the slot under `/b` keeps its outlet
theorem detach_after_move_keeps_outlet :
    let d : InputDescriptor :=
      { uuid := .ofNat 7, path := "/a", media := .flv
        route := { uuid := .ofNat 1, host := "127.0.0.1", port := 0, protocol := .udp } }
    let t := ({ registry := {} } : Tasks).run Net.Host.sample
      [.claim d, .start d.key (.ofNat 5), .publish d.key, .attach d.key (.ofNat 1),
       .update { d with path := "/b" }, .detach d.key (.ofNat 1)]
    ∃ s ∈ t.registry.slots, Uuid.ofNat 1 ∈ s.ids := by
  decide +kernel

end Tasks

end MediaRelay
