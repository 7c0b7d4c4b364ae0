import LiveTemplate.Proofs.Store.Observation
import LiveTemplate.Proofs.Store.Trail

/-!
# Registries Fill Up

What operations do to registries: they add subscribers behind the others.

A registry belongs to a property, or it is one of the client's own. There is a single
operation that changes registries, and it leaves them alone if the subscriber is there
already. So from one moment to the next a registry is what it was with some subscribers
added, and one that is new has been empty before that.

Everything else about registries follows. Nobody ever leaves one, the list grows at its end
only, and the list and the set stay in agreement if they have been at the beginning.

## Main definitions

* `Place`, `World.registryAt?`, `World.enlist`: Registries, and how they change.
* `World.Orderly`: All registries are coherent.
* `World.Enlists`: Subscribers have been added to registries.

## Theorems

* `Enlists.orderly`, `Enlists.isRegistered`, `Enlists.exists_prefix`: What registries keep when
  subscribers are added.
* `Enlists.readPath`, `Enlists.observe`: What operations do to registries.
-/

namespace LiveTemplate

variable {κ σ : Type}

/-- Where a registry is kept. -/
inductive Place where
  /-- It is one of the client's own. -/
  | own (r : RegistryId)
  /-- It is that of a property. -/
  | field (o : ObjectId) (key : String)
  deriving DecidableEq

/-- What has to be held on to for the registry to be there. -/
def Place.handle : Place → Handle
  | own r => .registry r
  | field o _ => .object o

namespace World

variable {w v u : World κ σ}

/-- The registry at a place, if there is one. -/
def registryAt? (w : World κ σ) : Place → Option Registry
  | .own r => w.registries.get? r.index
  | .field o key => (w.property? o key).map (·.registry)

/-- Adds a subscriber to the registry at a place. -/
def enlist (w : World κ σ) (place : Place) (s : SubscriberId) : World κ σ :=
  match place with
  | .own r => w.updateRegistry r (·.add s)
  | .field o key => w.updateProperty o key fun p => { p with registry := p.registry.add s }

/-- The registries list nobody twice, and find exactly those whom they list. -/
def Orderly (w : World κ σ) : Prop :=
  ∀ place r, w.registryAt? place = some r → r.Coherent

theorem Orderly.property (h : w.Orderly) {o : ObjectId} {key : String} {p : Property}
    (hp : w.property? o key = some p) : p.registry.Coherent :=
  h (.field o key) p.registry (congrArg (Option.map _) hp)

/-- Subscribers have been added to registries, and new registries have been empty before. -/
structure Enlists (w v : World κ σ) : Prop where
  /-- A registry that was there is there with some subscribers added. -/
  kept : ∀ place r, w.registryAt? place = some r →
    ∃ ss : List SubscriberId, v.registryAt? place = some (ss.foldl Registry.add r)
  /-- A registry that is new has been filled since. -/
  fresh : ∀ place r, w.registryAt? place = none → v.registryAt? place = some r →
    ∃ ss : List SubscriberId, r = ss.foldl Registry.add {}

namespace Enlists

/-- Subscribers have been added to registries that were there, and there are no new ones. -/
theorem of_adds (adds : Place → List SubscriberId)
    (h : ∀ place, v.registryAt? place =
      (w.registryAt? place).map fun r => (adds place).foldl Registry.add r) : w.Enlists v where
  kept place r hr := ⟨adds place, by rw [h, hr, Option.map_some]⟩
  fresh place r hnone hr := by
    rw [h, hnone, Option.map_none] at hr
    exact absurd hr.symm (Option.some_ne_none r)

theorem of_same (hobjects : v.objects = w.objects) (hregistries : v.registries = w.registries) :
    w.Enlists v := by
  refine of_adds (fun _ => []) fun place => ?_
  cases place with
  | own r =>
      rw [registryAt?, hregistries]
      exact Option.map_id'.symm
  | field o key =>
      rw [registryAt?, property?_of_objects hobjects]
      exact Option.map_id'.symm

theorem refl (w : World κ σ) : w.Enlists w :=
  of_same rfl rfl

theorem trans (h : w.Enlists v) (h' : v.Enlists u) : w.Enlists u where
  kept place r hr := by
    rcases h.kept place r hr with ⟨ss, hv⟩
    rcases h'.kept place _ hv with ⟨ss', hu⟩
    exact ⟨ss ++ ss', by rw [hu, List.foldl_append]⟩
  fresh place r hnone hr := by
    -- The registry may have come about in the first part or in the second one.
    cases hv : v.registryAt? place with
    | none => exact h'.fresh place r hv hr
    | some r₁ =>
        rcases h.fresh place r₁ hnone hv with ⟨ss, rfl⟩
        rcases h'.kept place _ hv with ⟨ss', hu⟩
        rw [hu, Option.some.injEq] at hr
        exact ⟨ss ++ ss', by rw [← hr, List.foldl_append]⟩

/-- Subscribers are added behind the others. -/
theorem exists_prefix (h : w.Enlists v) {place : Place} {r : Registry}
    (hr : w.registryAt? place = some r) :
    ∃ r', v.registryAt? place = some r' ∧ r.subscribers <+: r'.subscribers := by
  rcases h.kept place r hr with ⟨ss, hv⟩
  exact ⟨ss.foldl Registry.add r, hv, r.prefix_foldl_add ss⟩

/-- Nobody leaves a registry. -/
theorem isRegistered (h : w.Enlists v) {s : SubscriberId} {field : ObjectId × String}
    (hs : w.IsRegistered s field) : v.IsRegistered s field := by
  rcases hs with ⟨p, hp, hcontains⟩
  rcases h.kept (.field field.1 field.2) p.registry (congrArg (Option.map _) hp) with ⟨ss, hv⟩
  rcases Option.map_eq_some_iff.mp hv with ⟨q, hq, hregistry⟩
  exact ⟨q, hq, by rw [hregistry]; exact Registry.contains_foldl_add hcontains⟩

/-- A registry has been what it was, or empty, and subscribers have been added since. -/
theorem exists_adds (h : w.Enlists v) {place : Place} {r : Registry}
    (hr : v.registryAt? place = some r) :
    ∃ ss : List SubscriberId, r = ss.foldl Registry.add ((w.registryAt? place).getD {}) := by
  cases hw : w.registryAt? place with
  | none => exact h.fresh place r hw hr
  | some r₀ =>
      rcases h.kept place r₀ hw with ⟨ss, hv⟩
      rw [hv, Option.some.injEq] at hr
      exact ⟨ss, hr.symm⟩

/-- Adding subscribers leaves registries coherent. -/
theorem orderly (h : w.Enlists v) (hw : w.Orderly) : v.Orderly := by
  intro place r hr
  rcases h.exists_adds hr with ⟨ss, rfl⟩
  refine Registry.Coherent.foldl_add ?_ ss
  cases hold : w.registryAt? place with
  | none => exact Registry.coherent_empty
  | some r₀ => exact hw place r₀ hold

theorem enlist (w : World κ σ) (place : Place) (s : SubscriberId) :
    w.Enlists (w.enlist place s) := by
  refine of_adds (fun place' => if place = place' then [s] else []) fun place' => ?_
  cases place with
  | own r =>
      cases place' with
      | field o key =>
          rw [if_neg nofun]
          exact Option.map_id'.symm
      | own r' =>
          rw [World.enlist, registryAt?, updateRegistry, Heap.get?_update, registryAt?]
          by_cases hr : r = r'
          · subst hr
            rw [if_pos rfl, if_pos rfl]
            rfl
          · have hindex : r.index ≠ r'.index := fun h => hr (congrArg RegistryId.mk h)
            rw [if_neg hindex, if_neg fun h => hr (Place.own.inj h)]
            exact Option.map_id'.symm
  | field o key =>
      cases place' with
      | own r =>
          rw [if_neg nofun]
          exact Option.map_id'.symm
      | field o' key' =>
          rw [World.enlist, registryAt?, property?_updateProperty, registryAt?]
          by_cases hhere : o = o' ∧ key = key'
          · rw [if_pos hhere, if_pos (congrArg₂ Place.field hhere.1 hhere.2), Option.map_map,
              Option.map_map]
            rfl
          · rw [if_neg hhere, if_neg fun h => hhere (Place.field.inj h)]
            exact Option.map_id'.symm

/-- Writing a value leaves registries alone. -/
theorem write (w : World κ σ) (o : ObjectId) (key : String) (d : Data) :
    w.Enlists (w.updateProperty o key fun p => { p with value := d }) := by
  refine of_adds (fun _ => []) fun place => ?_
  cases place with
  | own r => exact Option.map_id'.symm
  | field o' key' =>
      rw [registryAt?, property?_updateProperty, registryAt?]
      split
      · rw [Option.map_map, Option.map_map]
        rfl
      · exact Option.map_id'.symm

/-- A new registry is empty. -/
theorem addRegistry (w : World κ σ) : w.Enlists w.addRegistry.2 where
  kept place r hr := by
    refine ⟨[], ?_⟩
    cases place with
    | field o key => exact hr
    | own r' =>
        -- A registry that was there has not got the new one's identity.
        have hlt : r'.index ≠ w.registries.size := by
          rintro heq
          rw [registryAt?, heq, Heap.get?_eq_none (Nat.le_refl _)] at hr
          exact Option.some_ne_none r hr.symm
        rw [registryAt?, World.addRegistry, Heap.get?_add, if_neg hlt]
        exact hr
  fresh place r hnone hr := by
    refine ⟨[], ?_⟩
    cases place with
    | field o key => exact absurd (hr.symm.trans hnone) (Option.some_ne_none r)
    | own r' =>
        rw [registryAt?, World.addRegistry, Heap.get?_add] at hr
        split at hr
        · exact (Option.some.inj hr).symm
        · exact absurd (hr.symm.trans hnone) (Option.some_ne_none r)

/-- Nobody is registered with objects that are new. -/
theorem of_extends (h : w.Extends v) : w.Enlists v := by
  have hold : ∀ o : ObjectId, o.index < w.objects.size →
      ∀ key, v.property? o key = w.property? o key := by
    intro o ho key
    rw [property?, h.kept o ho, ← property?]
  refine ⟨fun place r hr => ⟨[], ?_⟩, fun place r hnone hr => ⟨[], ?_⟩⟩
  · cases place with
    | own r' =>
        rw [registryAt?, h.registries]
        exact hr
    | field o key =>
        have ho : o.index < w.objects.size := by
          rw [registryAt?, Option.map_eq_some_iff] at hr
          rcases hr with ⟨p, hp, _⟩
          exact lt_of_property? hp
        rw [registryAt?, hold o ho key]
        exact hr
  · cases place with
    | own r' =>
        rw [registryAt?, h.registries] at hr
        exact absurd (hr.symm.trans hnone) (Option.some_ne_none r)
    | field o key =>
        by_cases ho : o.index < w.objects.size
        · rw [registryAt?, hold o ho key] at hr
          exact absurd (hr.symm.trans hnone) (Option.some_ne_none r)
        · rw [registryAt?, Option.map_eq_some_iff] at hr
          rcases hr with ⟨p, hp, rfl⟩
          exact h.blank o key p (Nat.le_of_not_lt ho) hp

theorem observe (value : Json) (w : World κ σ) : w.Enlists (observeValue value w).2 :=
  of_extends (extends_observeValue value w).1

section Reading

variable [Client σ]

/-- Registering somebody with properties. -/
theorem dependAll (w : World κ σ) (reader : Option SubscriberId)
    (fields : List (ObjectId × String)) : w.Enlists (w.dependAll reader fields) := by
  cases reader with
  | none =>
      rw [dependAll_none]
      exact refl w
  | some s =>
      refine of_adds (fun place => match place with
        | .own _ => []
        | .field o key => if (o, key) ∈ fields then [s] else []) fun place => ?_
      cases place with
      | own r =>
          have hregistries : (w.dependAll (some s) fields).registries = w.registries := by
            have hpart := congrArg World.registries (dependAll_eq_off (some s) fields w)
            exact hpart
          rw [registryAt?, hregistries]
          exact Option.map_id'.symm
      | field o key =>
          rw [registryAt?, property?_dependAll, registryAt?, Option.map_map, Option.map_map]
          congr 1
          funext p
          simp only [Function.comp_apply]
          split
          · rfl
          · rfl

theorem depend (w : World κ σ) (reader : Option SubscriberId) (o : ObjectId) (key : String) :
    w.Enlists (w.depend reader o key) :=
  dependAll w reader [(o, key)]

/-- A read registers its reader, if anybody. -/
theorem readPath (w : World κ σ) (reader : Option SubscriberId) (root : ObjectId)
    (path : String) : w.Enlists (w.readPath reader root path).2 := by
  rw [(w.readPath_spec reader root path).1]
  exact dependAll w reader (w.pathFields root path)

end Reading

end Enlists

end World

end LiveTemplate
