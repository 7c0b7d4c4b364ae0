import LiveTemplate.Proofs.Reaction.Observing

/-!
# Attending to an Object

Who is registered where, for the watchers on one object.

A watcher has to be registered with every field on its way, or it would miss a write.
It must not be registered anywhere else, or it would hear of writes that are none of
its business. The second half is not obvious, because nobody is ever taken off a
registry: when an object is replaced, the watchers stay registered with its fields.
But then the object is not on any way any more, and in a tree it cannot come back. So
what counts are the registries that a way from the object leads to, and whoever is
registered there has that way as the beginning of its path.

A write puts something new in the place of a field. Those registered with the field
may have a new way from there on, and are late until they have read it. All the others
have no way through that field.

## Main definitions

* `World.Proper`: A coherent registry without strangers.
* `World.Attends`: The watchers on an object are registered where they have to be, and
  nowhere else.

## Theorems

* `mem_trail_iff`: The fields on a way are the ends of its beginnings.
* `Attends.settle_readPath`, `Attends.watch`: Reading brings a watcher where it has to be.
* `Attends.contains_iff_prefix`: Whose business a field is.
* `Attends.write`: After a write those who are registered with the field are late.
-/

namespace LiveTemplate

variable {κ σ : Type}

namespace World

variable {w w' : World κ σ} {root : ObjectId}

/-- The fields on a way are the ends of its beginnings. -/
theorem mem_trail_iff {segments : List String} {d : Data} {o : ObjectId} {key : String} :
    (o, key) ∈ w.trail segments d ↔
      ∃ init, (init ++ [key]) <+: segments ∧ w.follow init d = some (.object o) ∧
        key.isEmpty = false ∧ ∃ p, w.property? o key = some p := by
  induction segments generalizing d with
  | nil =>
      refine ⟨fun h => absurd h List.not_mem_nil, ?_⟩
      rintro ⟨init, hprefix, _⟩
      exact absurd (List.prefix_nil.mp hprefix) (List.append_ne_nil_of_right_ne_nil init
        (List.cons_ne_nil key []))
  | cons segment segments ih =>
      constructor
      · intro h
        cases d with
        | plain v => exact absurd h List.not_mem_nil
        | object a =>
            rw [trail] at h
            split at h
            · exact absurd h List.not_mem_nil
            · next hne =>
                cases hp : w.property? a segment with
                | none =>
                    rw [hp] at h
                    exact absurd h List.not_mem_nil
                | some p =>
                    rw [hp] at h
                    rcases List.mem_cons.mp h with heq | h
                    · rw [Prod.mk.injEq] at heq
                      rcases heq with ⟨rfl, rfl⟩
                      exact ⟨[], List.prefix_append [key] segments, rfl,
                        Bool.eq_false_iff.mpr hne, p, hp⟩
                    · rcases ih.mp h with ⟨init, hprefix, hfollow, hkey⟩
                      refine ⟨segment :: init, ?_, ?_, hkey⟩
                      · exact (List.prefix_cons_inj segment).mpr hprefix
                      · rw [follow, if_neg hne, hp]
                        exact hfollow
      · rintro ⟨init, hprefix, hfollow, hkey, p, hp⟩
        cases init with
        | nil =>
            injection hfollow with hfollow
            subst hfollow
            rcases List.cons_prefix_cons.mp hprefix with ⟨rfl, _⟩
            rw [trail, if_neg (Bool.eq_false_iff.mp hkey), hp]
            exact List.mem_cons_self
        | cons first init =>
            rcases follow_cons_eq_some hfollow with ⟨a, q, rfl, hne, hq, hrest⟩
            rcases List.cons_prefix_cons.mp hprefix with ⟨rfl, hinner⟩
            rw [trail, if_neg (Bool.eq_false_iff.mp hne), hq]
            exact List.mem_cons_of_mem _ (ih.mpr ⟨init, hinner, hrest, hkey, p, hp⟩)

/-- The objects of what stands for something hold none but each other. -/
theorem Stands.closedUnder {d : Data} {j : Json} {ids : List ObjectId} (h : w.Stands d j ids) :
    w.ClosedUnder (· ∈ ids) := by
  intro o ho key p x hp hx
  rcases Denotes.of_mem h ho with ⟨inner, rest, hrest, hsub⟩
  have hvalue : Table.find? key (w.values o) = some (.object x) := by
    rw [find?_values, hp, Option.map_some, hx]
  rcases hrest.focus hvalue with ⟨j', before, within, after, rfl, _, hwithin, _⟩
  rcases hwithin.eq_object with ⟨inner', rest', _, rfl, _, _⟩
  have hmem : x ∈ before ++ (x :: rest' ++ after) :=
    List.mem_append_right before (List.mem_append_left after List.mem_cons_self)
  exact hsub.subset (List.mem_cons_of_mem o hmem)

/-- Ways are what they were if nothing has been written. -/
theorem Stands.way_of_unwritten {j : Json} {ids : List ObjectId}
    (h : w.Stands (.object root) j ids) (hunwritten : w.Unwritten w') (segments : List String) :
    w'.follow segments (.object root) = w.follow segments (.object root) ∧
      w'.trail segments (.object root) = w.trail segments (.object root) := by
  have hsame : SameValues (· ∈ ids) w w' := by
    intro o ho key
    rw [← find?_values, ← find?_values, hunwritten.values o (Denotes.lt_size h o ho)]
  refine follow_trail_congr hsame h.closedUnder segments fun o ho => ?_
  injection ho with ho
  rcases h.eq_object with ⟨inner, rest, _, rfl, _, _⟩
  rw [ho]
  exact List.mem_cons_self

/-- After a write a way leads to an object that it led to before, or to a new one. -/
theorem follow_of_write {o : ObjectId} {key : String} {new : Data} {v : Json}
    {fresh : List ObjectId}
    (hnew : (w.updateProperty o key fun p => { p with value := new }).Stands new v fresh)
    {segments : List String} {d : Data} {a : ObjectId}
    (h : (w.updateProperty o key fun p => { p with value := new }).follow segments d =
      some (.object a)) : w.follow segments d = some (.object a) ∨ a ∈ fresh := by
  induction segments generalizing d with
  | nil => exact Or.inl h
  | cons segment segments ih =>
      rcases follow_cons_eq_some h with ⟨b, p, rfl, hne, hp, hrest⟩
      rw [property?_updateProperty] at hp
      split at hp
      · rw [Option.map_eq_some_iff] at hp
        rcases hp with ⟨q, _, rfl⟩
        exact Or.inr (hnew.mem_of_follow hrest)
      · rw [follow, if_neg (Bool.eq_false_iff.mp hne), hp]
        exact ih hrest

/-- The subscribers that were there are there. -/
def Retains (w w' : World κ σ) : Prop :=
  ∀ s subscriber, w.subscriber? s = some subscriber → w'.subscriber? s = some subscriber

theorem Retains.trans {w₁ w₂ w₃ : World κ σ} (h₁ : w₁.Retains w₂) (h₂ : w₂.Retains w₃) :
    w₁.Retains w₃ :=
  fun s subscriber hs => h₂ s subscriber (h₁ s subscriber hs)

theorem Retains.of_subscribers (h : w'.subscribers = w.subscribers) : w.Retains w' := by
  intro s subscriber hs
  rw [subscriber?_of_subscribers h, hs]

/-- Somebody new has not been there before. -/
theorem retains_addSubscriber (w : World κ σ) (subscriber : Subscriber κ) :
    w.Retains (w.addSubscriber subscriber).2 := by
  intro s old hs
  rw [subscriber?_addSubscriber, if_neg, hs]
  intro hindex
  rw [subscriber?, Heap.get?_eq_none (Nat.le_of_eq hindex.symm)] at hs
  exact absurd hs.symm (Option.some_ne_none old)

/-- The registry is coherent, and everybody in it is a subscriber. A watcher on the object has
    the segments as the beginning of its path. -/
structure Proper (w : World κ σ) (root : ObjectId) (segments : List String) (r : Registry) :
    Prop where
  /-- The list and the set agree. -/
  coherent : r.Coherent
  /-- Everybody is a subscriber that has to be here. -/
  entered : ∀ s ∈ r.subscribers, ∃ subscriber, w.subscriber? s = some subscriber ∧
    ∀ path effect, subscriber = .watcher ⟨root, path, effect⟩ → segments <+: segmentsOfPath path

theorem Proper.retained {segments : List String} {r : Registry} (h : w.Proper root segments r)
    (hretains : w.Retains w') : w'.Proper root segments r := by
  refine ⟨h.coherent, fun s hs => ?_⟩
  rcases h.entered s hs with ⟨subscriber, hsubscriber, hpath⟩
  exact ⟨subscriber, hretains s subscriber hsubscriber, hpath⟩

/-- The object is a tree whose registries are proper, and each of its watchers is registered with
    all fields on its way, unless it is late. -/
structure Attends (w : World κ σ) (root : ObjectId) (late : List SubscriberId) : Prop where
  /-- The object stands for something, as a tree. -/
  tree : ∃ j ids, w.Stands (.object root) j ids ∧ ids.Nodup
  /-- The registries are proper for the way that leads there. -/
  proper : ∀ init o key p, w.follow init (.object root) = some (.object o) →
    w.property? o key = some p → w.Proper root (init ++ [key]) p.registry
  /-- Each watcher that is not late is registered with the fields on its way. -/
  registered : ∀ s path effect, w.subscriber? s = some (.watcher ⟨root, path, effect⟩) →
    s ∉ late → w.RegisteredAt s (w.pathFields root path)

namespace Attends

variable {late : List SubscriberId}

/-- Whoever is registered is not late any more. -/
theorem settle {s : SubscriberId} (h : w.Attends root (s :: late))
    (hs : ∀ path effect, w.subscriber? s = some (.watcher ⟨root, path, effect⟩) →
      w.RegisteredAt s (w.pathFields root path)) : w.Attends root late := by
  refine ⟨h.tree, h.proper, fun t path effect ht hlate => ?_⟩
  by_cases hts : t = s
  · subst hts
    exact hs path effect ht
  · exact h.registered t path effect ht fun hmem =>
      (List.mem_cons.mp hmem).elim hts hlate

/-- New objects do not matter. -/
theorem grown (h : w.Attends root late) (hgrown : w.objects.size ≤ w'.objects.size)
    (hkept : ∀ o : ObjectId, o.index < w.objects.size → w'.object o = w.object o)
    (hsame : w'.subscribers = w.subscribers) : w'.Attends root late := by
  rcases h.tree with ⟨j, ids, hstands, hnodup⟩
  have hunwritten : w.Unwritten w' := ⟨hgrown, fun o ho => values_of_object (hkept o ho)⟩
  have hproperty : ∀ (o : ObjectId) key, o.index < w.objects.size →
      w'.property? o key = w.property? o key := by
    intro o key ho
    rw [property?, hkept o ho, ← property?]
  have hway := hstands.way_of_unwritten hunwritten
  refine ⟨⟨j, ids, hstands.of_unwritten hunwritten, hnodup⟩, ?_, ?_⟩
  · intro init o key p hfollow hp
    rw [(hway init).1] at hfollow
    rw [hproperty o key (hstands.lt_size o (hstands.mem_of_follow hfollow))] at hp
    exact (h.proper init o key p hfollow hp).retained (.of_subscribers hsame)
  · intro s path effect hs hlate
    rw [subscriber?_of_subscribers hsame] at hs
    rw [pathFields, (hway _).2]
    rintro ⟨a, key⟩ hfield
    rcases h.registered s path effect hs hlate (a, key) hfield with ⟨p, hp, hcontains⟩
    rcases mem_trail_iff.mp hfield with ⟨init, _, hfollow, _⟩
    refine ⟨p, ?_, hcontains⟩
    rw [hproperty a key (hstands.lt_size a (hstands.mem_of_follow hfollow)), hp]

/-- What is beside the objects and the subscribers does not matter. -/
theorem of_objects (h : w.Attends root late) (hobjects : w'.objects = w.objects)
    (hsame : w'.subscribers = w.subscribers) : w'.Attends root late := by
  refine h.grown (Nat.le_of_eq (congrArg Heap.size hobjects).symm) (fun o _ => ?_) hsame
  rw [object, hobjects, ← object]

/-- A new subscriber is late. -/
theorem addSubscriber (h : w.Attends root late) (subscriber : Subscriber κ) :
    (w.addSubscriber subscriber).2.Attends root (⟨w.subscribers.size⟩ :: late) := by
  have hadded := w.subscriber?_addSubscriber subscriber
  have hobjects : (w.addSubscriber subscriber).2.objects = w.objects := rfl
  have hretains := w.retains_addSubscriber subscriber
  generalize (w.addSubscriber subscriber).2 = v at hadded hobjects hretains
  rcases h.tree with ⟨j, ids, hstands, hnodup⟩
  have hway := path_of_objects hobjects root
  refine ⟨⟨j, ids, hstands.of_unwritten (.of_objects hobjects), hnodup⟩, ?_, ?_⟩
  · intro init o key p hfollow hp
    rw [property?_of_objects hobjects] at hp
    rw [(hstands.way_of_unwritten (.of_objects hobjects) init).1] at hfollow
    exact (h.proper init o key p hfollow hp).retained hretains
  · intro s path effect hs hlate
    rw [List.mem_cons, not_or] at hlate
    rw [hadded, if_neg fun hindex => hlate.1 (SubscriberId.ext hindex)] at hs
    rw [(hway path).2]
    intro field hfield
    rcases h.registered s path effect hs hlate.2 field hfield with ⟨p, hp, hcontains⟩
    exact ⟨p, by rw [property?_of_objects hobjects, hp], hcontains⟩

end Attends

/-- The subscriber may read the fields: if it is a watcher on the object, they are on its way. -/
def MayRead (w : World κ σ) (root : ObjectId) (s : SubscriberId)
    (fields : List (ObjectId × String)) : Prop :=
  ∃ subscriber, w.subscriber? s = some subscriber ∧
    ∀ path effect, subscriber = .watcher ⟨root, path, effect⟩ →
      ∀ field ∈ fields, field ∈ w.pathFields root path

namespace Attends

variable [Client σ] {late : List SubscriberId}

/-- Reading a field registers the reader with it. -/
theorem depend (h : w.Attends root late) {s : SubscriberId} {o : ObjectId} {key : String}
    (hs : w.MayRead root s [(o, key)]) : (w.depend (some s) o key).Attends root late := by
  rcases h.tree with ⟨j, ids, hstands, hnodup⟩
  have hunwritten := w.unwritten_depend (some s) o key
  have hsubscribers := (w.depend_frame (some s) o key).2.1
  have hretains : w.Retains (w.depend (some s) o key) := .of_subscribers hsubscribers
  refine ⟨⟨j, ids, hstands.of_unwritten hunwritten, hnodup⟩, ?_, ?_⟩
  · intro init a k p hfollow hp
    rw [(hstands.way_of_unwritten hunwritten init).1] at hfollow
    rw [World.depend, property?_subscribe] at hp
    split at hp
    · next heq =>
        rcases heq with ⟨rfl, rfl⟩
        rw [Option.map_eq_some_iff] at hp
        rcases hp with ⟨q, hq, rfl⟩
        have hproper := (h.proper init o key q hfollow hq).retained hretains
        refine ⟨hproper.coherent.add s, fun t ht => ?_⟩
        rcases Registry.mem_add ht with ht | rfl
        · exact hproper.entered t ht
        · rcases hs with ⟨subscriber, hsubscriber, hfields⟩
          refine ⟨subscriber, hretains t subscriber hsubscriber, fun path effect heq => ?_⟩
          rcases mem_trail_iff.mp (hfields path effect heq (o, key) List.mem_cons_self) with
            ⟨init', hprefix, hfollow', _⟩
          rw [hstands.follow_inj hnodup hfollow hfollow']
          exact hprefix
    · exact (h.proper init a k p hfollow hp).retained hretains
  · intro t path effect ht hlate
    rw [subscriber?_of_subscribers hsubscribers] at ht
    rw [pathFields, (w.follow_trail_depend (some s) o key _ _).2]
    exact fun field hfield =>
      isRegistered_depend (h.registered t path effect ht hlate field hfield) _ _ _

theorem dependAll (h : w.Attends root late) {s : SubscriberId}
    {fields : List (ObjectId × String)} (hs : w.MayRead root s fields) :
    (w.dependAll (some s) fields).Attends root late := by
  induction fields generalizing w with
  | nil => exact h
  | cons field fields ih =>
      rcases hs with ⟨subscriber, hsubscriber, hfields⟩
      refine ih (h.depend ⟨subscriber, hsubscriber, fun path effect heq => ?_⟩)
        ⟨subscriber, ?_, fun path effect heq => ?_⟩
      · have hread := hfields path effect heq
        rw [List.forall_mem_cons] at hread
        exact List.forall_mem_singleton.mpr hread.1
      · rw [subscriber?_of_subscribers (w.depend_frame (some s) field.1 field.2).2.1, hsubscriber]
      · rw [pathFields, (w.follow_trail_depend (some s) field.1 field.2 _ _).2]
        exact fun f hf => hfields path effect heq f (List.mem_cons_of_mem field hf)

/-- A probe may read what it likes. -/
theorem readPath_probe (h : w.Attends root late) {s : SubscriberId} {c : κ}
    (hs : w.subscriber? s = some (.probe c)) (o : ObjectId) (path : String) :
    (w.readPath (some s) o path).2.Attends root late := by
  rw [(w.readPath_spec (some s) o path).1]
  exact h.dependAll ⟨.probe c, hs, fun _ _ heq => nomatch heq⟩

/-- A watcher may read its path. -/
theorem readPath_watcher (h : w.Attends root late) {s : SubscriberId} {wt : Watcher κ}
    (hs : w.subscriber? s = some (.watcher wt)) :
    (w.readPath (some s) wt.root wt.path).2.Attends root late := by
  rw [(w.readPath_spec (some s) wt.root wt.path).1]
  refine h.dependAll ⟨.watcher wt, hs, ?_⟩
  rintro path effect heq field hfield
  injection heq with heq
  subst heq
  exact hfield

/-- A watcher that reads its path is not late any more. -/
theorem settle_readPath {s : SubscriberId} (h : w.Attends root (s :: late)) {wt : Watcher κ}
    (hs : w.subscriber? s = some (.watcher wt)) :
    (w.readPath (some s) wt.root wt.path).2.Attends root late := by
  have hframe := w.readPath_frame (some s) wt.root wt.path
  have hway := path_congr (sameValues_dependAll (fun _ => True) (some s)
    (w.pathFields wt.root wt.path) w)
  refine (h.readPath_watcher hs).settle fun path effect ht => ?_
  rw [(w.readPath_spec (some s) wt.root wt.path).1] at hframe ht ⊢
  rw [subscriber?_of_subscribers hframe.2.1, hs, Option.some.injEq, Subscriber.watcher.injEq] at ht
  subst ht
  rw [(hway root path).2]
  refine registeredAt_dependAll s fun field hfield => exists_property?_of_mem_trail hfield

/-- A new watcher is not late. -/
theorem watch (h : w.Attends root late) (o : ObjectId) (path : String) (effect : Effect κ) :
    (w.watch o path effect).2.Attends root late := by
  have hadded := h.addSubscriber (.watcher ⟨o, path, effect⟩)
  have hs := w.subscriber?_addSubscriber (.watcher ⟨o, path, effect⟩) ⟨w.subscribers.size⟩
  rw [if_pos rfl] at hs
  have hread := hadded.settle_readPath hs
  rcases w.watch_parts o path effect with heq | heq
  · rw [heq]
    exact hread
  · rw [heq]
    exact hread.of_objects rfl rfl

omit [Client σ] in
/-- A field is the business of those watchers whose paths begin with the way to it. -/
theorem contains_iff_prefix (h : w.Attends root []) {init : List String}
    {o : ObjectId} {key : String} (hkey : key.isEmpty = false)
    (hfollow : w.follow init (.object root) = some (.object o)) {p : Property}
    (hp : w.property? o key = some p) {s : SubscriberId} {path : String} {effect : Effect κ}
    (hs : w.subscriber? s = some (.watcher ⟨root, path, effect⟩)) :
    s ∈ p.registry.subscribers ↔ (init ++ [key]) <+: segmentsOfPath path := by
  constructor
  · intro hmem
    rcases (h.proper init o key p hfollow hp).entered s hmem with ⟨subscriber, hs', hprefix⟩
    rw [hs, Option.some.injEq] at hs'
    exact hprefix path effect hs'.symm
  · intro hprefix
    have hfield : (o, key) ∈ w.pathFields root path :=
      mem_trail_iff.mpr ⟨init, hprefix, hfollow, hkey, p, hp⟩
    rcases h.registered s path effect hs List.not_mem_nil (o, key) hfield with ⟨q, hq, hcontains⟩
    rw [hp, Option.some.injEq] at hq
    rw [hq] at hp ⊢
    exact ((h.proper init o key q hfollow hp).coherent.contains_iff s).mp hcontains

omit [Client σ] in
/-- After a write those who are registered with the field are late. -/
theorem write (h : w.Attends root []) {init : List String} {o : ObjectId} {key : String}
    {p : Property} (hfollow : w.follow init (.object root) = some (.object o))
    (hp : w.property? o key = some p) {new : Data} {v : Json} {fresh : List ObjectId}
    (hnew : w.Stands new v fresh) (hfresh : fresh.Nodup)
    (hapart : ∀ j ids, w.Stands (.object root) j ids → ∀ a ∈ fresh, a ∉ ids)
    (hblank : ∀ a ∈ fresh, ∀ k q, w.property? a k = some q → q.registry = {}) :
    (w.updateProperty o key fun p => { p with value := new }).Attends root
      p.registry.subscribers := by
  rcases h.tree with ⟨j, ids, hstands, hnodup⟩
  have hapart := hapart j ids hstands
  have ho := hstands.mem_of_follow hfollow
  have hnew' := hnew.written_elsewhere (fun hmem => hapart o hmem ho) key new
  have hkey : ∀ {a : ObjectId} {k : String} {q : Property},
      (w.updateProperty o key fun p => { p with value := new }).property? a k = some q →
        ∃ q', w.property? a k = some q' ∧ q'.registry = q.registry := by
    intro a k q hq
    rw [property?_updateProperty] at hq
    split at hq
    · rw [Option.map_eq_some_iff] at hq
      rcases hq with ⟨q', hq', rfl⟩
      exact ⟨q', hq', rfl⟩
    · exact ⟨q, hq, rfl⟩
  refine ⟨?_, ?_, ?_⟩
  · rcases hstands.write hnodup hfollow hp (w.size_write o key new) (w.values_write o key new)
      hnew' hfresh hapart with ⟨ids', hwritten, hids', _⟩
    exact ⟨_, ids', hwritten, hids'⟩
  · intro init' a k q hfollow' hq
    rcases hkey hq with ⟨q', hq', hregistry⟩
    rw [← hregistry]
    rcases follow_of_write hnew' hfollow' with hold | hmem
    · exact (h.proper init' a k q' hold hq').retained (.of_subscribers rfl)
    · rw [hblank a hmem k q' hq']
      exact ⟨Registry.coherent_empty, fun s hs => absurd hs List.not_mem_nil⟩
  · intro s path effect hs hlate
    have hregistered := h.registered s path effect hs List.not_mem_nil
    -- A way through the field that is written would have put the watcher on its registry.
    have hoff : (o, key) ∉ w.pathFields root path := by
      intro hmem
      rcases hregistered (o, key) hmem with ⟨p', hp', hcontains⟩
      rw [hp, Option.some.injEq] at hp'
      rw [← hp'] at hcontains
      exact hlate (((h.proper init o key p hfollow hp).coherent.contains_iff s).mp hcontains)
    rw [pathFields, trail_updateProperty _ hoff]
    exact fun field hfield => (hregistered field hfield).write o key new

end Attends

/-- What has just been observed has no watchers. -/
theorem attends_observed {w₀ w₁ : World κ σ} {members : Table Json}
    (hroot : observeValue (.object members) w₀ = (.object root, w₁))
    (hthere : ∀ s wt, w₀.subscriber? s = some (.watcher wt) → wt.root.index < w₀.objects.size) :
    w₁.Attends root [] := by
  have hextends := (extends_observeValue (.object members) w₀).1
  rcases stands_observeValue (.object members) w₀ with ⟨ids, hstands, hnodup, hnew⟩
  rw [hroot] at hextends hstands
  refine ⟨⟨_, ids, hstands, hnodup⟩, ?_, ?_⟩
  · intro init o key p hfollow hp
    rw [hextends.blank o key p (hnew o (hstands.mem_of_follow hfollow)) hp]
    exact ⟨Registry.coherent_empty, fun s hs => absurd hs List.not_mem_nil⟩
  · intro s path effect hs
    rw [subscriber?_of_subscribers hextends.subscribers] at hs
    have hself : w₁.follow [] (.object root) = some (.object root) := rfl
    have hroot := hstands.mem_of_follow hself
    exact absurd (hthere s _ hs) (Nat.not_lt_of_le (hnew root hroot))

end World

end LiveTemplate
