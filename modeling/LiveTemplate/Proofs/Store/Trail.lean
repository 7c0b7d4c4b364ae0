import LiveTemplate.Proofs.World.Liveness
import LiveTemplate.Proofs.World.Registry
import LiveTemplate.Store.Path

/-!
# Where Paths Lead

The value at the end of a path and the fields on the way to it, as properties of the
world alone.

Reading a path does two things at once: it finds the value, and it registers the
reader with every field that it reads. Here they are taken apart. `follow` is the
value and `trail` the list of fields, both defined by going down the segments, and
`readPath_spec` says that a tracked read is the first of them together with a
registration at each of the second.

Both depend on values only, and only on the values of the fields of the trail. So a
path leads where it led as long as none of its fields is written, and registering
somebody changes nothing about where any path leads.

## Main definitions

* `World.follow`: The value at the end of some segments.
* `World.trail`: The fields on the way.
* `World.pathFields`, `World.pathValue?`: The same for a path and an object.
* `World.RegisteredAt`: A subscriber is registered at each of some fields.

## Theorems

* `readPath_spec`: What a read does to the world, and what it finds.
* `follow_congr`, `trail_congr`: Worlds with the same values agree on paths.
* `follow_updateProperty`, `trail_updateProperty`: A write elsewhere does not matter.
* `alive_of_mem_trail`: The objects on the way are alive if the first one is.
-/

namespace LiveTemplate

/-- The segments of a path in one list. -/
def segmentsOfPath (path : String) : List String :=
  (pathSegments path).1 :: (pathSegments path).2

variable {κ σ : Type}

namespace World

/-- The value to which the segments lead from a value. An empty segment leads nowhere. -/
def follow (w : World κ σ) : List String → Data → Option Data
  | [], d => some d
  | _ :: _, .plain _ => none
  | segment :: segments, .object o =>
    if segment.isEmpty then none
    else
      match w.property? o segment with
      | none => none
      | some p => w.follow segments p.value

/-- The fields that are read when the segments are followed from a value. -/
def trail (w : World κ σ) : List String → Data → List (ObjectId × String)
  | [], _ => []
  | _ :: _, .plain _ => []
  | segment :: segments, .object o =>
    if segment.isEmpty then []
    else
      match w.property? o segment with
      | none => []
      | some p => (o, segment) :: w.trail segments p.value

/-- The value to which a path leads from an object. -/
def pathValue? (w : World κ σ) (root : ObjectId) (path : String) : Option Data :=
  w.follow (segmentsOfPath path) (.object root)

/-- The fields of a path that can be reached from an object. -/
def pathFields (w : World κ σ) (root : ObjectId) (path : String) : List (ObjectId × String) :=
  w.trail (segmentsOfPath path) (.object root)

/-- The subscriber is registered at the field. -/
def IsRegistered (w : World κ σ) (s : SubscriberId) (field : ObjectId × String) : Prop :=
  ∃ p, w.property? field.1 field.2 = some p ∧ p.registry.contains s = true

/-- The subscriber is registered at each of the fields. -/
def RegisteredAt (w : World κ σ) (s : SubscriberId) (fields : List (ObjectId × String)) : Prop :=
  ∀ field ∈ fields, w.IsRegistered s field

/-- The values of the fields of some objects are the same in both worlds. -/
def SameValues (S : ObjectId → Prop) (w w' : World κ σ) : Prop :=
  ∀ o, S o → ∀ key, (w'.property? o key).map (·.value) = (w.property? o key).map (·.value)

/-- The objects hold none but each other. -/
def ClosedUnder (S : ObjectId → Prop) (w : World κ σ) : Prop :=
  ∀ o, S o → ∀ key p x, w.property? o key = some p → p.value = .object x → S x

theorem follow_trail_congr {S : ObjectId → Prop} {w w' : World κ σ} (hsame : SameValues S w w')
    (hclosed : ClosedUnder S w) (segments : List String) {d : Data}
    (hd : ∀ o, d = .object o → S o) :
    w'.follow segments d = w.follow segments d ∧ w'.trail segments d = w.trail segments d := by
  induction segments generalizing d with
  | nil => exact ⟨rfl, rfl⟩
  | cons segment segments ih =>
      cases d with
      | plain v => exact ⟨rfl, rfl⟩
      | object o =>
          have ho := hd o rfl
          have hvalue := hsame o ho segment
          simp only [follow, trail]
          split
          · exact ⟨rfl, rfl⟩
          · cases hp : w.property? o segment with
            | none =>
                rw [hp, Option.map_none, Option.map_eq_none_iff] at hvalue
                rw [hvalue]
                exact ⟨rfl, rfl⟩
            | some p =>
                rw [hp, Option.map_some, Option.map_eq_some_iff] at hvalue
                rcases hvalue with ⟨p', hp', hpp⟩
                have hinner := ih (d := p.value) (hclosed o ho segment p · hp)
                rw [hp']
                simp only [hpp, hinner, and_self]

/-- Worlds that agree on the values of some objects agree on paths through them. -/
theorem follow_congr {S : ObjectId → Prop} {w w' : World κ σ} (hsame : SameValues S w w')
    (hclosed : ClosedUnder S w) (segments : List String) {d : Data}
    (hd : ∀ o, d = .object o → S o) : w'.follow segments d = w.follow segments d :=
  (follow_trail_congr hsame hclosed segments hd).1

/-- Worlds that agree on the values of some objects agree on the fields of paths through
    them. -/
theorem trail_congr {S : ObjectId → Prop} {w w' : World κ σ} (hsame : SameValues S w w')
    (hclosed : ClosedUnder S w) (segments : List String) {d : Data}
    (hd : ∀ o, d = .object o → S o) : w'.trail segments d = w.trail segments d :=
  (follow_trail_congr hsame hclosed segments hd).2

theorem closedUnder_true (w : World κ σ) : w.ClosedUnder fun _ => True :=
  fun _ _ _ _ _ _ _ => trivial

/-- Worlds with the same values agree on all paths. -/
theorem path_congr {w w' : World κ σ} (h : SameValues (fun _ => True) w w') (root : ObjectId)
    (path : String) :
    w'.pathValue? root path = w.pathValue? root path ∧
      w'.pathFields root path = w.pathFields root path :=
  follow_trail_congr h w.closedUnder_true _ fun _ _ => trivial

/-- Worlds with the same objects agree on all paths. -/
theorem path_of_objects {w w' : World κ σ} (h : w'.objects = w.objects) (root : ObjectId)
    (path : String) :
    w'.pathValue? root path = w.pathValue? root path ∧
      w'.pathFields root path = w.pathFields root path :=
  path_congr (fun o _ key => by rw [property?_of_objects h]) root path

/-- What operations hold on to does not matter to paths. -/
theorem path_pins (w : World κ σ) (pins : List Handle) (root : ObjectId) (path : String) :
    World.pathValue? { w with pins := pins } root path = w.pathValue? root path ∧
      World.pathFields { w with pins := pins } root path = w.pathFields root path :=
  @path_of_objects κ σ w { w with pins := pins } rfl root path

theorem follow_trail_updateProperty {w : World κ σ} {o : ObjectId} {key : String}
    (change : Property → Property) {segments : List String} {d : Data}
    (h : (o, key) ∉ w.trail segments d) :
    (w.updateProperty o key change).follow segments d = w.follow segments d ∧
      (w.updateProperty o key change).trail segments d = w.trail segments d := by
  induction segments generalizing d with
  | nil => exact ⟨rfl, rfl⟩
  | cons segment segments ih =>
      cases d with
      | plain v => exact ⟨rfl, rfl⟩
      | object o' =>
          simp only [follow, trail] at h ⊢
          split
          · exact ⟨rfl, rfl⟩
          · next hne =>
              rw [if_neg hne] at h
              have hother : (w.updateProperty o key change).property? o' segment =
                  w.property? o' segment := by
                rw [property?_updateProperty]
                split
                · next heq =>
                    rcases heq with ⟨rfl, rfl⟩
                    cases hp : w.property? o key with
                    | none => rfl
                    | some p =>
                        rw [hp] at h
                        exact absurd List.mem_cons_self h
                · rfl
              rw [hother]
              cases hp : w.property? o' segment with
              | none => exact ⟨rfl, rfl⟩
              | some p =>
                  rw [hp] at h
                  have hinner := ih (fun hmem => h (List.mem_cons_of_mem _ hmem))
                  simp only [hinner, and_self]

/-- A change to a field that is not on the way does not change the value. -/
theorem follow_updateProperty {w : World κ σ} {o : ObjectId} {key : String}
    (change : Property → Property) {segments : List String} {d : Data}
    (h : (o, key) ∉ w.trail segments d) :
    (w.updateProperty o key change).follow segments d = w.follow segments d :=
  (follow_trail_updateProperty change h).1

/-- A change to a field that is not on the way does not change the way. -/
theorem trail_updateProperty {w : World κ σ} {o : ObjectId} {key : String}
    (change : Property → Property) {segments : List String} {d : Data}
    (h : (o, key) ∉ w.trail segments d) :
    (w.updateProperty o key change).trail segments d = w.trail segments d :=
  (follow_trail_updateProperty change h).2

/-- A field on the way exists. -/
theorem exists_property?_of_mem_trail {w : World κ σ} {segments : List String} {d : Data}
    {field : ObjectId × String} (h : field ∈ w.trail segments d) :
    ∃ p, w.property? field.1 field.2 = some p := by
  induction segments generalizing d with
  | nil => exact absurd h List.not_mem_nil
  | cons segment segments ih =>
      cases d with
      | plain v => exact absurd h List.not_mem_nil
      | object o =>
          simp only [trail] at h
          split at h
          · exact absurd h List.not_mem_nil
          · cases hp : w.property? o segment with
            | none =>
                rw [hp] at h
                exact absurd h List.not_mem_nil
            | some p =>
                rw [hp] at h
                rcases List.mem_cons.mp h with rfl | h
                · exact ⟨p, hp⟩
                · exact ih h

theorem pointsTo_of_property? {w : World κ σ} {o x : ObjectId} {key : String} {p : Property}
    (hp : w.property? o key = some p) (hx : p.value = .object x) : w.PointsTo o x := by
  rcases Table.exists_mem_of_find? hp with ⟨entry, hentry, rfl⟩
  exact ⟨entry, hentry, hx⟩

/-- The objects on the way, and the one at its end, have everything that is closed under
    holding and that the first one has. -/
theorem of_mem_trail {S : ObjectId → Prop} {w : World κ σ} (hclosed : ClosedUnder S w)
    {segments : List String} {d : Data} (hd : ∀ o, d = .object o → S o) :
    (∀ field ∈ w.trail segments d, S field.1) ∧
      ∀ o, w.follow segments d = some (.object o) → S o := by
  induction segments generalizing d with
  | nil =>
      refine ⟨fun field h => absurd h List.not_mem_nil, ?_⟩
      intro o h
      injection h with h
      exact hd o h
  | cons segment segments ih =>
      cases d with
      | plain v =>
          exact ⟨fun field h => absurd h List.not_mem_nil, fun o h => absurd h (by
            simp only [follow, reduceCtorEq, not_false_eq_true])⟩
      | object o =>
          have ho := hd o rfl
          simp only [trail, follow]
          split
          · exact ⟨fun field h => absurd h List.not_mem_nil, fun o h => absurd h (by
              simp only [reduceCtorEq, not_false_eq_true])⟩
          · cases hp : w.property? o segment with
            | none =>
                exact ⟨fun field h => absurd h List.not_mem_nil, fun o h => absurd h (by
                  simp only [reduceCtorEq, not_false_eq_true])⟩
            | some p =>
                have hinner := ih (d := p.value) (hclosed o ho segment p · hp)
                exact ⟨List.forall_mem_cons.mpr ⟨ho, hinner.1⟩, hinner.2⟩

/-- A write leaves everybody registered. -/
theorem IsRegistered.write {w : World κ σ} {s : SubscriberId} {field : ObjectId × String}
    (h : w.IsRegistered s field) (o : ObjectId) (key : String) (d : Data) :
    (w.updateProperty o key fun p => { p with value := d }).IsRegistered s field := by
  rcases h with ⟨q, hq, hcontains⟩
  rw [IsRegistered, property?_updateProperty]
  split
  · exact ⟨{ q with value := d }, by rw [hq, Option.map_some], hcontains⟩
  · exact ⟨q, hq, hcontains⟩

section Alive

variable [Client σ]

/-- Objects that something alive holds are alive. -/
theorem closedUnder_alive (w : World κ σ) :
    w.ClosedUnder fun o => w.alive (.object o) = true := by
  intro o ho key p x hp hx
  exact alive_of_pointsTo (pointsTo_of_property? hp hx) ho

/-- The objects on the way are alive if the first one is. -/
theorem alive_of_mem_trail {w : World κ σ} {root : ObjectId} {segments : List String}
    (halive : w.alive (.object root) = true) :
    (∀ field ∈ w.trail segments (.object root), w.alive (.object field.1) = true) ∧
      ∀ o, w.follow segments (.object root) = some (.object o) → w.alive (.object o) = true := by
  refine of_mem_trail w.closedUnder_alive ?_
  intro o h
  injection h with h
  rw [← h]
  exact halive

end Alive

section Reading

variable [Client σ]

theorem property?_subscribe (w : World κ σ) (s : SubscriberId) (o : ObjectId) (key : String)
    (o' : ObjectId) (key' : String) :
    (w.subscribe s o key).property? o' key' =
      if o = o' ∧ key = key' then
        (w.property? o' key').map fun p => { p with registry := p.registry.add s }
      else w.property? o' key' := by
  unfold subscribe
  split
  · next hp =>
      split
      · next heq =>
          rcases heq with ⟨rfl, rfl⟩
          rw [hp, Option.map_none]
      · rfl
  · next p hp =>
      split
      · next hcontains =>
          split
          · next heq =>
              rcases heq with ⟨rfl, rfl⟩
              rw [hp, Option.map_some, Registry.add_of_contains hcontains]
          · rfl
      · exact property?_updateProperty w o key _ o' key'

/-- Registering somebody changes one registry or nothing. -/
theorem depend_eq (w : World κ σ) (reader : Option SubscriberId) (o : ObjectId) (key : String) :
    w.depend reader o key = w ∨ ∃ s, w.depend reader o key =
      (w.updateProperty o key fun p => { p with registry := p.registry.add s }).notice
        .subscribed := by
  cases reader with
  | none => exact Or.inl rfl
  | some s =>
      cases hp : w.property? o key with
      | none =>
          refine Or.inl ?_
          simp only [depend, subscribe, hp]
      | some p =>
          by_cases hcontains : p.registry.contains s = true
          · refine Or.inl ?_
            simp only [depend, subscribe, hp, if_pos hcontains]
          · refine Or.inr ⟨s, ?_⟩
            simp only [depend, subscribe, hp, if_neg hcontains]

/-- What registering somebody leaves alone. -/
theorem depend_frame (w : World κ σ) (reader : Option SubscriberId) (o : ObjectId)
    (key : String) :
    (w.depend reader o key).nodes = w.nodes ∧
      (w.depend reader o key).subscribers = w.subscribers ∧
      (w.depend reader o key).pins = w.pins ∧
      (w.depend reader o key).objects.size = w.objects.size := by
  rcases w.depend_eq reader o key with heq | ⟨s, heq⟩
  · rw [heq]
    exact ⟨rfl, rfl, rfl, rfl⟩
  · rw [heq]
    exact ⟨rfl, rfl, rfl, size_objects_updateProperty w o key _⟩

/-- Registering somebody makes no object hold another one. -/
theorem pointsTo_of_depend {w : World κ σ} {reader : Option SubscriberId} {o : ObjectId}
    {key : String} {a x : ObjectId} (h : (w.depend reader o key).PointsTo a x) :
    w.PointsTo a x := by
  rcases w.depend_eq reader o key with heq | ⟨s, heq⟩
  · rwa [heq] at h
  · rw [heq] at h
    rcases h with ⟨entry, hentry, hx⟩
    have hentry : entry ∈ (w.updateProperty o key
        fun p => { p with registry := p.registry.add s }).object a := hentry
    rw [object_updateProperty] at hentry
    split at hentry
    · rcases Table.mem_update hentry with hentry | ⟨old, hold, rfl⟩
      · exact ⟨entry, hentry, hx⟩
      · exact ⟨old, hold, hx⟩
    · exact ⟨entry, hentry, hx⟩

/-- Registering somebody changes no value. -/
theorem sameValues_depend (S : ObjectId → Prop) (w : World κ σ) (reader : Option SubscriberId)
    (o : ObjectId) (key : String) : SameValues S w (w.depend reader o key) := by
  intro o' _ key'
  cases reader with
  | none => rfl
  | some s =>
      rw [depend, property?_subscribe]
      split
      · rw [Option.map_map]
        rfl
      · rfl

/-- Registering somebody changes nothing about where paths lead. -/
theorem follow_trail_depend (w : World κ σ) (reader : Option SubscriberId) (o : ObjectId)
    (key : String) (segments : List String) (d : Data) :
    (w.depend reader o key).follow segments d = w.follow segments d ∧
      (w.depend reader o key).trail segments d = w.trail segments d :=
  follow_trail_congr (sameValues_depend _ w reader o key) w.closedUnder_true segments
    fun _ _ => trivial

/-- Registers a reader with several fields, if there is one to register. -/
def dependAll (reader : Option SubscriberId) (fields : List (ObjectId × String))
    (w : World κ σ) : World κ σ :=
  fields.foldl (fun w field => w.depend reader field.1 field.2) w

theorem dependAll_frame (reader : Option SubscriberId) (fields : List (ObjectId × String))
    (w : World κ σ) :
    (w.dependAll reader fields).nodes = w.nodes ∧
      (w.dependAll reader fields).subscribers = w.subscribers ∧
      (w.dependAll reader fields).pins = w.pins ∧
      (w.dependAll reader fields).objects.size = w.objects.size := by
  induction fields generalizing w with
  | nil => exact ⟨rfl, rfl, rfl, rfl⟩
  | cons field fields ih =>
      rcases ih (w.depend reader field.1 field.2) with ⟨h₁, h₂, h₃, h₄⟩
      rcases w.depend_frame reader field.1 field.2 with ⟨g₁, g₂, g₃, g₄⟩
      exact ⟨h₁.trans g₁, h₂.trans g₂, h₃.trans g₃, h₄.trans g₄⟩

/-- Registering somebody changes objects, and what the client has noticed. -/
theorem dependAll_eq_off (reader : Option SubscriberId) (fields : List (ObjectId × String))
    (w : World κ σ) :
    { w.dependAll reader fields with objects := w.objects, client := w.client } = w := by
  induction fields generalizing w with
  | nil => rfl
  | cons field fields ih =>
      have hfirst : { w.depend reader field.1 field.2 with
          objects := w.objects, client := w.client } = w := by
        rcases w.depend_eq reader field.1 field.2 with heq | ⟨_, heq⟩
        · rw [heq]
        · rw [heq]
          rfl
      have hrest := congrArg (fun v : World κ σ =>
        { v with objects := w.objects, client := w.client }) (ih (w.depend reader field.1 field.2))
      exact hrest.trans hfirst

theorem dependAll_append (reader : Option SubscriberId) (fields more : List (ObjectId × String))
    (w : World κ σ) :
    w.dependAll reader (fields ++ more) = (w.dependAll reader fields).dependAll reader more := by
  simp only [dependAll, List.foldl_append]

/-- What operations hold on to does not matter to registering somebody. -/
theorem depend_pins (w : World κ σ) (pins : List Handle) (reader : Option SubscriberId)
    (o : ObjectId) (key : String) :
    World.depend { w with pins := pins } reader o key =
      { w.depend reader o key with pins := pins } := by
  cases reader with
  | none => rfl
  | some s =>
      have hproperty : World.property? { w with pins := pins } o key = w.property? o key := rfl
      simp only [depend, subscribe, hproperty]
      cases w.property? o key with
      | none => rfl
      | some p =>
          by_cases hcontains : p.registry.contains s = true
          · simp only [if_pos hcontains]
          · simp only [if_neg hcontains]
            rfl

theorem dependAll_pins (pins : List Handle) (reader : Option SubscriberId)
    (fields : List (ObjectId × String)) (w : World κ σ) :
    World.dependAll reader fields { w with pins := pins } =
      { w.dependAll reader fields with pins := pins } := by
  induction fields generalizing w with
  | nil => rfl
  | cons field fields ih =>
      have hrest := ih (w.depend reader field.1 field.2)
      rw [← depend_pins] at hrest
      exact hrest

/-- What resolving a path does to the world, and where the last field is. -/
theorem resolveFrom_spec (reader : Option SubscriberId) (path : String)
    (segments : List String) (segment : String) (o : ObjectId) (w : World κ σ) :
    (∃ e, (resolveFrom reader path segments segment o w).1 = .error e ∧
      (resolveFrom reader path segments segment o w).2 =
        w.dependAll reader (w.trail (segment :: segments) (.object o)) ∧
      w.follow (segment :: segments) (.object o) = none) ∨
    ∃ last key fields, (resolveFrom reader path segments segment o w).1 = .ok (last, key) ∧
      (resolveFrom reader path segments segment o w).2 = w.dependAll reader fields ∧
      key.isEmpty = false ∧
      w.trail (segment :: segments) (.object o) = fields ++ w.trail [key] (.object last) ∧
      w.follow (segment :: segments) (.object o) = w.follow [key] (.object last) := by
  induction segments generalizing segment o w with
  | nil =>
      rw [resolveFrom]
      split
      · next hempty =>
          refine Or.inl ⟨_, rfl, ?_, ?_⟩
          · rw [trail, if_pos hempty]
            rfl
          · rw [follow, if_pos hempty]
      · next hne =>
          exact Or.inr ⟨o, segment, [], rfl, rfl, Bool.eq_false_iff.mpr hne, rfl, rfl⟩
  | cons next segments ih =>
      rw [resolveFrom]
      split
      · next hempty =>
          refine Or.inl ⟨_, rfl, ?_, ?_⟩
          · rw [trail, if_pos hempty]
            rfl
          · rw [follow, if_pos hempty]
      · next hne =>
          rw [trail, if_neg hne, follow, if_neg hne]
          cases hp : w.property? o segment with
          | none =>
              simp only [readProperty, hp]
              exact Or.inl ⟨_, rfl, rfl, trivial⟩
          | some p =>
              cases hvalue : p.value with
              | plain v =>
                  simp only [readProperty, hp, hvalue]
                  exact Or.inl ⟨_, rfl, rfl, rfl⟩
              | object inner =>
                  simp only [readProperty, hp, hvalue]
                  have hrest := ih next inner (w.depend reader o segment)
                  rw [(w.follow_trail_depend reader o segment _ _).1,
                    (w.follow_trail_depend reader o segment _ _).2] at hrest
                  rcases hrest with ⟨e, herror, hworld, hfollow⟩ |
                    ⟨last, key, fields, hok, hworld, hkey, htrail, hfollow⟩
                  · exact Or.inl ⟨e, herror, hworld, hfollow⟩
                  · rw [(w.follow_trail_depend reader o segment _ _).1] at hfollow
                    rw [(w.follow_trail_depend reader o segment _ _).2] at htrail
                    refine Or.inr ⟨last, key, (o, segment) :: fields, hok, hworld, hkey, ?_,
                      hfollow⟩
                    rw [htrail, List.cons_append]

theorem sameValues_dependAll (S : ObjectId → Prop) (reader : Option SubscriberId)
    (fields : List (ObjectId × String)) (w : World κ σ) :
    SameValues S w (w.dependAll reader fields) := by
  induction fields generalizing w with
  | nil => exact fun _ _ _ => rfl
  | cons field fields ih =>
      intro o ho key
      rw [dependAll, List.foldl_cons, ← dependAll]
      rw [ih _ o ho key, sameValues_depend S w reader field.1 field.2 o ho key]

/-- A read registers the reader with the fields on the way and finds the value at the end. -/
theorem readPath_spec (w : World κ σ) (reader : Option SubscriberId) (root : ObjectId)
    (path : String) :
    (w.readPath reader root path).2 = w.dependAll reader (w.pathFields root path) ∧
      (w.readPath reader root path).1.toOption = w.pathValue? root path := by
  have hresolve := resolveFrom_spec reader path (pathSegments path).2 (pathSegments path).1 root w
  simp only [readPath, resolve, pathFields, pathValue?, segmentsOfPath]
  rcases hresolve with ⟨e, herror, hworld, hfollow⟩ |
    ⟨last, key, fields, hok, hworld, hkey, htrail, hfollow⟩
  · rw [hfollow, ← hworld]
    rcases hrun : resolveFrom reader path (pathSegments path).2 (pathSegments path).1 root w with
      ⟨result, w'⟩
    rw [hrun] at herror
    dsimp only at herror
    rw [herror]
    exact ⟨rfl, rfl⟩
  · rw [hfollow, htrail]
    rcases hrun : resolveFrom reader path (pathSegments path).2 (pathSegments path).1 root w with
      ⟨result, w'⟩
    rw [hrun] at hok hworld
    dsimp only at hok hworld
    rw [hok]
    have hvalue := sameValues_dependAll (fun _ => True) reader fields w last trivial key
    rw [← hworld] at hvalue
    have hne : ¬key.isEmpty = true := Bool.eq_false_iff.mp hkey
    simp only [trail, follow, if_neg hne, readProperty]
    cases hp : w.property? last key with
    | none =>
        rw [hp, Option.map_none, Option.map_eq_none_iff] at hvalue
        simp only [hvalue, List.append_nil]
        exact ⟨hworld, rfl⟩
    | some p =>
        rw [hp, Option.map_some, Option.map_eq_some_iff] at hvalue
        rcases hvalue with ⟨p', hp', hpp⟩
        simp only [hp', hpp]
        refine ⟨?_, rfl⟩
        rw [hworld, dependAll_append]
        rfl

/-- What a read leaves alone. -/
theorem readPath_frame (w : World κ σ) (reader : Option SubscriberId) (root : ObjectId)
    (path : String) :
    (w.readPath reader root path).2.nodes = w.nodes ∧
      (w.readPath reader root path).2.subscribers = w.subscribers ∧
      (w.readPath reader root path).2.pins = w.pins ∧
      (w.readPath reader root path).2.objects.size = w.objects.size := by
  rw [(w.readPath_spec reader root path).1]
  exact dependAll_frame reader (w.pathFields root path) w

/-- A read does the same whatever operations hold on to. -/
theorem readPath_pins (w : World κ σ) (pins : List Handle) (reader : Option SubscriberId)
    (root : ObjectId) (path : String) :
    (World.readPath { w with pins := pins } reader root path).2 =
      { (w.readPath reader root path).2 with pins := pins } := by
  rw [(readPath_spec { w with pins := pins } reader root path).1,
    (w.readPath_spec reader root path).1, (w.path_pins pins root path).2, dependAll_pins]

/-- A read changes no values. -/
theorem pathValue?_readPath (w : World κ σ) (reader : Option SubscriberId) (root : ObjectId)
    (path : String) :
    (w.readPath reader root path).2.pathValue? root path = w.pathValue? root path := by
  rw [(w.readPath_spec reader root path).1]
  exact (path_congr (sameValues_dependAll (fun _ => True) reader (w.pathFields root path) w)
    root path).1

/-- Every field in a list gets the new reader, whether it is there once or more often. -/
theorem property?_dependAll (w : World κ σ) (s : SubscriberId)
    (fields : List (ObjectId × String)) (o : ObjectId) (key : String) :
    (w.dependAll (some s) fields).property? o key =
      (w.property? o key).map fun p =>
        if (o, key) ∈ fields then { p with registry := p.registry.add s } else p := by
  induction fields generalizing w with
  | nil =>
      simp only [dependAll, List.foldl_nil, List.not_mem_nil, if_false]
      exact Option.map_id'.symm
  | cons field fields ih =>
      have hcons : w.dependAll (some s) (field :: fields) =
          (w.subscribe s field.1 field.2).dependAll (some s) fields := rfl
      rw [hcons, ih, property?_subscribe]
      have hfield : (o, key) ∈ field :: fields ↔
          (field.1 = o ∧ field.2 = key) ∨ (o, key) ∈ fields := by
        rw [List.mem_cons, Prod.ext_iff]
        exact or_congr_left ⟨fun h => ⟨h.1.symm, h.2.symm⟩, fun h => ⟨h.1.symm, h.2.symm⟩⟩
      simp only [hfield]
      by_cases hhere : field.1 = o ∧ field.2 = key
      · rw [if_pos hhere, Option.map_map]
        congr 1
        funext p
        simp only [Function.comp_apply, hhere, and_self, true_or, if_true, Registry.add_add,
          ite_self]
      · rw [if_neg hhere]
        simp only [hhere, false_or]

theorem isRegistered_depend {w : World κ σ} {s : SubscriberId} {field : ObjectId × String}
    (h : w.IsRegistered s field) (reader : Option SubscriberId) (o : ObjectId) (key : String) :
    (w.depend reader o key).IsRegistered s field := by
  rcases h with ⟨p, hp, hcontains⟩
  cases reader with
  | none => exact ⟨p, hp, hcontains⟩
  | some t =>
      rw [depend, IsRegistered, property?_subscribe]
      split
      · exact ⟨{ p with registry := p.registry.add t }, by rw [hp, Option.map_some],
          Registry.contains_add.mpr (.inl hcontains)⟩
      · exact ⟨p, hp, hcontains⟩

/-- Reading a field registers the reader there. -/
theorem isRegistered_subscribe {w : World κ σ} {o : ObjectId} {key : String}
    (hp : ∃ p, w.property? o key = some p) (s : SubscriberId) :
    (w.subscribe s o key).IsRegistered s (o, key) := by
  rcases hp with ⟨p, hp⟩
  rw [IsRegistered, property?_subscribe, if_pos ⟨rfl, rfl⟩]
  exact ⟨{ p with registry := p.registry.add s }, by rw [hp, Option.map_some],
    Registry.contains_add.mpr (.inr rfl)⟩

theorem isRegistered_dependAll {w : World κ σ} {s : SubscriberId} {field : ObjectId × String}
    (h : w.IsRegistered s field) (reader : Option SubscriberId)
    (fields : List (ObjectId × String)) : (w.dependAll reader fields).IsRegistered s field := by
  induction fields generalizing w with
  | nil => exact h
  | cons first fields ih => exact ih (isRegistered_depend h reader first.1 first.2)

/-- Reading fields registers the reader at each of them. -/
theorem registeredAt_dependAll {w : World κ σ} (s : SubscriberId)
    {fields : List (ObjectId × String)}
    (h : ∀ field ∈ fields, ∃ p, w.property? field.1 field.2 = some p) :
    (w.dependAll (some s) fields).RegisteredAt s fields := by
  induction fields generalizing w with
  | nil => exact fun field hfield => absurd hfield List.not_mem_nil
  | cons first fields ih =>
      rw [List.forall_mem_cons] at h
      have hfirst := isRegistered_subscribe h.1 s
      have hothers : ∀ field ∈ fields,
          ∃ p, (w.depend (some s) first.1 first.2).property? field.1 field.2 = some p := by
        intro field hfield
        rcases h.2 field hfield with ⟨p, hp⟩
        have hsame := sameValues_depend (fun _ => True) w (some s) first.1 first.2 field.1 trivial
          field.2
        rw [hp, Option.map_some, Option.map_eq_some_iff] at hsame
        exact ⟨_, hsame.choose_spec.1⟩
      exact List.forall_mem_cons.mpr
        ⟨isRegistered_dependAll hfirst (some s) fields, ih hothers⟩

/-- A read without a reader leaves the world as it is. -/
theorem readProperty_none (w : World κ σ) (o : ObjectId) (key : String) :
    w.readProperty none o key = ((w.property? o key).map (·.value), w) := by
  rw [readProperty]
  cases w.property? o key with
  | none => rfl
  | some p => rfl

/-- Worlds with the same values have the same last fields of a path. -/
theorem resolveFrom_congr {w w' : World κ σ} (h : SameValues (fun _ => True) w w') (path : String)
    (segments : List String) (segment : String) (o : ObjectId) :
    ∃ result, resolveFrom none path segments segment o w' = (result, w') ∧
      resolveFrom none path segments segment o w = (result, w) := by
  induction segments generalizing segment o with
  | nil =>
      rw [resolveFrom, resolveFrom]
      split
      · exact ⟨_, rfl, rfl⟩
      · exact ⟨_, rfl, rfl⟩
  | cons next segments ih =>
      rw [resolveFrom, resolveFrom]
      split
      · exact ⟨_, rfl, rfl⟩
      · rw [readProperty_none, readProperty_none, h o trivial segment]
        cases (w.property? o segment).map (·.value) with
        | none => exact ⟨_, rfl, rfl⟩
        | some d =>
            cases d with
            | plain value => exact ⟨_, rfl, rfl⟩
            | object inner => exact ih next inner

/-- Worlds with the same values have the same values and errors at a path. -/
theorem getPath_congr {w w' : World κ σ} (h : SameValues (fun _ => True) w w') (root : ObjectId)
    (path : String) : w'.getPath root path = w.getPath root path := by
  rcases resolveFrom_congr h path (pathSegments path).2 (pathSegments path).1 root with
    ⟨result, hw', hw⟩
  rw [getPath, getPath, readPath, readPath, resolve, resolve]
  dsimp only
  rw [hw', hw]
  cases result with
  | error e => rfl
  | ok last =>
      dsimp only
      rw [readProperty_none, readProperty_none, h last.1 trivial last.2]
      cases (w.property? last.1 last.2).map (·.value) with
      | none => rfl
      | some d => rfl

/-- An untracked read finds the value at the end of the path. -/
theorem getPath_eq_ok_iff (w : World κ σ) (root : ObjectId) (path : String) (d : Data) :
    w.getPath root path = .ok d ↔ w.pathValue? root path = some d := by
  rw [← (w.readPath_spec none root path).2, ← getPath]
  cases w.getPath root path with
  | error e => simp only [Except.toOption, reduceCtorEq]
  | ok v => simp only [Except.toOption, Except.ok.injEq, Option.some.injEq]

/-- The object that should have the last field is one of those that the first one leads to. -/
theorem of_resolveFrom {S : ObjectId → Prop} {w w' : World κ σ} (hclosed : w.ClosedUnder S)
    {path : String} {segments : List String} {segment : String} {o last : ObjectId}
    {key : String} (ho : S o)
    (h : resolveFrom none path segments segment o w = (.ok (last, key), w')) : S last := by
  induction segments generalizing segment o with
  | nil =>
      rw [resolveFrom] at h
      split at h
      · exact absurd h (by simp only [Prod.mk.injEq, reduceCtorEq, false_and, not_false_eq_true])
      · injection h with h _
        injection h with h
        injection h with h _
        rw [← h]
        exact ho
  | cons next segments ih =>
      rw [resolveFrom] at h
      split at h
      · exact absurd h (by simp only [Prod.mk.injEq, reduceCtorEq, false_and, not_false_eq_true])
      · cases hp : w.property? o segment with
        | none =>
            simp only [readProperty, hp, Prod.mk.injEq, reduceCtorEq, false_and] at h
        | some p =>
            cases hvalue : p.value with
            | plain v =>
                simp only [readProperty, hp, hvalue, Prod.mk.injEq, reduceCtorEq, false_and] at h
            | object inner =>
                simp only [readProperty, hp, hvalue] at h
                exact ih (hclosed o ho segment p inner hp hvalue) h

/-- An untracked read leaves the world as it is. -/
theorem dependAll_none (fields : List (ObjectId × String)) (w : World κ σ) :
    w.dependAll none fields = w := by
  induction fields with
  | nil => rfl
  | cons field fields ih => exact ih

/-- Resolving a path without a reader finds the last field of the path, if the path leads to
    an object that may have it. -/
theorem resolve_none_spec (w : World κ σ) (root : ObjectId) (path : String) :
    ∃ result, w.resolve none root path = (result, w) ∧
      ((∃ e, result = .error e ∧ w.pathValue? root path = none) ∨
        ∃ o key, result = .ok (o, key) ∧
          w.pathValue? root path = (w.property? o key).map (·.value) ∧
          (∀ p, w.property? o key = some p → (o, key) ∈ w.pathFields root path) ∧
          ∀ S, w.ClosedUnder S → S root → S o) := by
  have hspec := resolveFrom_spec none path (pathSegments path).2 (pathSegments path).1 root w
  simp only [resolve, pathValue?, pathFields, segmentsOfPath]
  rcases hrun : resolveFrom none path (pathSegments path).2 (pathSegments path).1 root w with
    ⟨result, v⟩
  rw [hrun] at hspec
  simp only [dependAll_none] at hspec
  rcases hspec with ⟨e, rfl, rfl, hfollow⟩ | ⟨o, key, fields, rfl, rfl, hkey, htrail, hfollow⟩
  · exact ⟨_, rfl, Or.inl ⟨e, rfl, hfollow⟩⟩
  · have hne : ¬key.isEmpty = true := Bool.eq_false_iff.mp hkey
    refine ⟨_, rfl, Or.inr ⟨o, key, rfl, ?_, ?_, fun S hS hroot => of_resolveFrom hS hroot hrun⟩⟩
    · rw [hfollow]
      simp only [follow, if_neg hne]
      cases v.property? o key with
      | none => rfl
      | some p => rfl
    · intro p hp
      rw [htrail]
      simp only [trail, if_neg hne, hp]
      exact List.mem_append_right fields List.mem_cons_self

end Reading

end World

end LiveTemplate
