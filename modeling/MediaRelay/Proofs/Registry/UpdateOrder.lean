import Mathlib
import MediaRelay.Proofs.Registry.Registration

-- An update finds the input it moves by the identifier of its route, taking the first slot it meets
-- that carries it. Nothing keeps two inputs from sharing a route identifier: registering checks
-- keys only. So the input an update moves, and with it the table it leaves, can depend on the
-- order in which the table is searched; where at most one published input carries the
-- descriptor's route identifier, it does not.

namespace MediaRelay

namespace Registry

variable {r : Registry} {d : InputDescriptor}

-- the slots an update can find for a descriptor
theorem mem_routed_iff {order : List Slot} (hperm : order.Perm r.slots) {x : Slot} :
    x ∈ {x ∈ order | (x.worker.descriptor.route.uuid == d.route.uuid) = true} ↔
      x ∈ r.slots ∧ x.worker.descriptor.route.uuid = d.route.uuid := by
  simp [hperm.mem_iff]

theorem update_ignores_search_order {order : List Slot} (hperm : order.Perm r.slots)
    (hunique : ∀ x ∈ r.slots, ∀ y ∈ r.slots, x.worker.descriptor.route.uuid = d.route.uuid →
      y.worker.descriptor.route.uuid = d.route.uuid → x = y) :
    r.updateIn order d = r.update d := by
  -- with one candidate at most, every order finds the same slot
  have hfind : order.find? (·.worker.descriptor.route.uuid == d.route.uuid) =
      r.slots.find? (·.worker.descriptor.route.uuid == d.route.uuid) := by
    apply List.find?_eq_find?_of_perm hperm
    intro x hx y hy
    rw [mem_routed_iff hperm] at hx hy
    exact hunique x hx.1 y hy.1 hx.2 hy.2
  simp only [update, updateIn, hfind]

end Registry

-- a table of two inputs with distinct route identifiers, searched backwards
theorem update_ignores_search_order_two_routes :
    let da : InputDescriptor :=
      { uuid := .ofNat 7, path := "/a", media := .flv
        route := { uuid := .ofNat 1, host := "127.0.0.1", port := 0, protocol := .udp } }
    let db : InputDescriptor :=
      { da with uuid := .ofNat 8, path := "/b", route := { da.route with uuid := .ofNat 2 } }
    let r := (({ registry := {} } : Tasks).run Net.Host.sample
      [.claim da, .start da.key (.ofNat 5), .publish da.key, .claim db, .start db.key (.ofNat 6),
        .publish db.key]).registry
    let d : InputDescriptor := { da with path := "/c" }
    r.slots.reverse.Perm r.slots ∧
      (∀ x ∈ r.slots, ∀ y ∈ r.slots, x.worker.descriptor.route.uuid = d.route.uuid →
        y.worker.descriptor.route.uuid = d.route.uuid → x = y) ∧
      r.updateIn r.slots.reverse d = r.update d := by
  intro da db r d
  have hperm : r.slots.reverse.Perm r.slots := List.reverse_perm _
  have hunique : ∀ x ∈ r.slots, ∀ y ∈ r.slots, x.worker.descriptor.route.uuid = d.route.uuid →
      y.worker.descriptor.route.uuid = d.route.uuid → x = y := by
    decide +kernel
  exact ⟨hperm, hunique, Registry.update_ignores_search_order hperm hunique⟩

-- two inputs registered with route identifier 1: searched in the order of registration, an update
-- to `/c` moves `/a`; searched backwards, it moves `/b`
theorem shared_route_update_depends_on_order :
    let da : InputDescriptor :=
      { uuid := .ofNat 7, path := "/a", media := .flv
        route := { uuid := .ofNat 1, host := "127.0.0.1", port := 0, protocol := .udp } }
    let db : InputDescriptor := { da with uuid := .ofNat 8, path := "/b" }
    let t := ({ registry := {} } : Tasks).run Net.Host.sample
      [.claim da, .start da.key (.ofNat 5), .publish da.key, .claim db, .start db.key (.ofNat 6),
        .publish db.key]
    let d : InputDescriptor := { da with path := "/c" }
    t.Reachable Net.Host.sample ∧ t.registry.slots.reverse.Perm t.registry.slots ∧
      (t.registry.update d).toOption.map Registry.keys = some [d.key, db.key] ∧
      (t.registry.updateIn t.registry.slots.reverse d).toOption.map Registry.keys =
        some [da.key, d.key] := by
  intro da db t d
  exact ⟨(Tasks.Reachable.fresh {} rfl rfl).run _, List.reverse_perm _, by decide +kernel,
    by decide +kernel⟩

end MediaRelay
