import LiveTemplate.Proofs.Reaction.Happening

/-!
# Silence

What is left of updates and events when the data that everybody listens for is gone.

A watcher whose object is gone reads nothing and acts on nothing, and a listener whose
data is gone leaves it at raising flags. So if all watchers start from one object and
all listeners belong to it, then with this object gone nobody is called any more, and
nothing in the view changes on its own.

The object stays gone as long as nothing holds it. A client can only use what is there,
so it cannot bring the object back, and nothing else tries.

That nobody is called is said by comparison with a host that has no answer to any
call: a run that called somebody would come to no end there. Both hosts do the same, so
the real one calls nobody.

## Main definitions

* `Licence.loyal`: A client that watches one object and never writes it anywhere.
* `World.Devoted`: Everybody listens for one object, which nothing holds.
* `World.Silent`: Besides, nobody else holds on to it.
* `Run.Hushed`: Two runs that do the same in silence, and leave the view alone.

## Theorems

* `Devoted.step`: Events keep everybody devoted.
* `Silent.alive_eq_false`: In silence the object is gone.
* `hushed_setPath`, `hushed_dispatch`, `hushed_program`: Operations in silence.
-/

namespace LiveTemplate

variable {ν τ α β : Type} {root : ObjectId} {w w' : ClientWorld ν τ}

/-- A client that creates watchers on one object only, and never writes that object anywhere. -/
def Licence.loyal (root : ObjectId) : Licence τ where
  keeps _ _ := True
  watches o := o = root
  shares d := d ≠ .object root

/-- The listener belongs to the object. -/
def Listener.BelongsTo {κ : Type} (root : ObjectId) : Listener κ → Prop
  | .writeBack data _ => data = root
  | .handle data _ _ => data = root
  | .callback _ => False

namespace World

/-- There is nobody but watchers that start from the object and listeners that belong to it, and
    no object holds it. -/
structure Devoted (w : ClientWorld ν τ) (root : ObjectId) : Prop where
  /-- The object has been there. -/
  there : root.index < w.objects.size
  /-- No object holds it. -/
  unheld : ∀ o, ¬w.PointsTo o root
  /-- Whoever subscribes is a watcher that starts from it. -/
  watching : ∀ s subscriber, w.subscriber? s = some subscriber →
    ∃ wt, subscriber = .watcher wt ∧ wt.root = root
  /-- Whoever listens belongs to it. -/
  listening : ∀ n, ∀ entry ∈ (w.node n).listeners, entry.2.BelongsTo root

namespace Devoted

/-- What the client holds on to and remembers does not matter. -/
theorem congr (h : w.Devoted root) (hobjects : w'.objects = w.objects)
    (hsubscribers : w'.subscribers = w.subscribers) (hlisteners : w.SameListeners w') :
    w'.Devoted root where
  there := by
    rw [hobjects]
    exact h.there
  unheld o ho := h.unheld o ((pointsTo_of_objects hobjects o root).mp ho)
  watching s subscriber hs := by
    rw [subscriber?_of_subscribers hsubscribers] at hs
    exact h.watching s subscriber hs
  listening n := by
    rw [hlisteners.listeners n]
    exact h.listening n

/-- Events keep everybody devoted. -/
theorem step (h : w.Devoted root) (hstep : w.Happens (Licence.loyal root) w') :
    w'.Devoted root where
  there := Nat.lt_of_lt_of_le h.there hstep.grown
  unheld o ho := by
    rcases hstep.pointsTo ho with hbefore | hnew | hshared
    · exact h.unheld o hbefore
    · exact Nat.not_lt.mpr hnew.1 h.there
    · exact hshared.1 rfl
  watching s subscriber hs := by
    rcases hstep.joined with hsame | ⟨o, path, name, ho, _, hadded⟩
    · rw [subscriber?_of_subscribers hsame] at hs
      exact h.watching s subscriber hs
    · rw [subscriber?, hadded, Heap.get?_add] at hs
      split at hs
      · injection hs with hs
        exact ⟨_, hs.symm, ho⟩
      · exact h.watching s subscriber hs
  listening n := by
    rw [hstep.sameListeners.listeners n]
    exact h.listening n

end Devoted

/-- Everybody is devoted to an object that is gone: nobody holds on to it. -/
structure Silent (w : ClientWorld ν τ) (root : ObjectId) : Prop where
  /-- Everybody is devoted to it. -/
  devoted : w.Devoted root
  /-- No operation holds on to it. -/
  unpinned : .object root ∉ w.pins
  /-- The client does not hold on to it. -/
  released : .object root ∉ w.client.held

namespace Silent

/-- In silence the object is gone. -/
theorem alive_eq_false (h : w.Silent root) : w.alive (.object root) = false := by
  refine Bool.eq_false_iff.mpr fun halive => ?_
  rcases rooted_or_pointedTo_of_alive h.devoted.there halive with hrooted | ⟨o, ho, _⟩
  · rcases rooted_eq_true_iff.mp hrooted with hpin | hheld
    · exact h.unpinned hpin
    · exact h.released hheld
  · exact h.devoted.unheld o ho

/-- What is there is another object. -/
theorem ne_of_alive (h : w.Silent root) {o : ObjectId} (ho : w.alive (.object o) = true) :
    o ≠ root := by
  rintro rfl
  exact absurd (h.alive_eq_false.symm.trans ho) nofun

/-- Operations may hold on to other things. -/
theorem pins (h : w.Silent root) {pins : List Handle} (hpins : .object root ∉ pins) :
    World.Silent { w with pins := pins } root where
  devoted := h.devoted.congr rfl rfl ⟨Nat.le_refl _, fun _ => rfl⟩
  unpinned := hpins
  released := h.released

/-- The client may hold on to other things. -/
theorem client (h : w.Silent root) {j : Journal τ} (hj : .object root ∉ j.held) :
    World.Silent { w with client := j } root where
  devoted := h.devoted.congr rfl rfl ⟨Nat.le_refl _, fun _ => rfl⟩
  unpinned := h.unpinned
  released := hj

end Silent

end World

/-! ### Runs in silence -/

/-- Both runs do the same from this world on if it is silent. Then it stays silent, and the
    view stays as it is. -/
def Run.Hushed (root : ObjectId) (run run' : Run (Code ν) (Journal τ) α) (w : ClientWorld ν τ) :
    Prop :=
  w.Silent root → run w = run' w ∧
    ∀ a w', run w = some (a, w') → w'.Silent root ∧ w'.nodes = w.nodes

namespace Run.Hushed

variable {run run' : Run (Code ν) (Journal τ) α}

theorem refl (h : w.Silent root → ∀ a w', run w = some (a, w') →
    w'.Silent root ∧ w'.nodes = w.nodes) : run.Hushed root run w :=
  fun hw => ⟨rfl, h hw⟩

theorem pure (a : α) : Run.Hushed root (Pure.pure a : Run (Code ν) (Journal τ) α) (Pure.pure a) w :=
  refl fun hw b w' hrun => by
    rcases Run.pure_eq_some_iff.mp hrun with ⟨_, rfl⟩
    exact ⟨hw, rfl⟩

theorem stuck : Run.Hushed root (Run.stuck : Run (Code ν) (Journal τ) α) Run.stuck w :=
  refl fun _ _ _ hrun => nomatch hrun

/-- One run after the other. -/
theorem bind {next next' : α → Run (Code ν) (Journal τ) β} (h : run.Hushed root run' w)
    (hnext : ∀ a v, run w = some (a, v) → (next a).Hushed root (next' a) v) :
    (run >>= next).Hushed root (run' >>= next') w := by
  intro hw
  rcases h hw with ⟨hsame, hafter⟩
  cases hrun : run w with
  | none =>
      have hleft : (run >>= next) w = none := by
        simp only [Bind.bind, StateT.bind, hrun, Option.bind]
      have hright : (run' >>= next') w = none := by
        simp only [Bind.bind, StateT.bind, ← hsame, hrun, Option.bind]
      exact ⟨hleft.trans hright.symm, fun b w' hb => absurd (hleft.symm.trans hb) nofun⟩
  | some result =>
      rcases result with ⟨a, v⟩
      have hleft : (run >>= next) w = next a v := by
        simp only [Bind.bind, StateT.bind, hrun, Option.bind]
      have hright : (run' >>= next') w = next' a v := by
        simp only [Bind.bind, StateT.bind, ← hsame, hrun, Option.bind]
      rcases hafter a v hrun with ⟨hv, hnodes⟩
      rcases hnext a v hrun hv with ⟨hsame', hafter'⟩
      rw [hleft, hright]
      exact ⟨hsame', fun b w' hb => ⟨(hafter' b w' hb).1, (hafter' b w' hb).2.trans hnodes⟩⟩

/-- Looking at the world first. -/
theorem get_bind {next next' : ClientWorld ν τ → Run (Code ν) (Journal τ) β}
    (h : (next w).Hushed root (next' w) w) :
    Run.Hushed root (get >>= next) (get >>= next') w := by
  refine bind (refl fun hw a w' hrun => ?_) fun a v hrun => ?_
  · rcases Run.get_eq_some_iff.mp hrun with ⟨_, rfl⟩
    exact ⟨hw, rfl⟩
  · rcases Run.get_eq_some_iff.mp hrun with ⟨rfl, rfl⟩
    exact h

/-- A change that leaves the view alone and keeps silence. -/
theorem change {f : ClientWorld ν τ → ClientWorld ν τ}
    (h : w.Silent root → (f w).Silent root ∧ (f w).nodes = w.nodes) :
    Run.Hushed root (Run.change f) (Run.change f) w :=
  refl fun hw _ w' hrun => by
    rw [Run.change_eq_some_iff] at hrun
    subst hrun
    exact h hw

/-- While other things are held on to. -/
theorem pinned {handles : List Handle} (hhandles : .object root ∉ handles)
    (h : run.Hushed root run' { w with pins := handles ++ w.pins }) :
    (Run.pinned handles run).Hushed root (Run.pinned handles run') w := by
  intro hw
  have hpinned : World.Silent { w with pins := handles ++ w.pins } root :=
    hw.pins fun hmem => (List.mem_append.mp hmem).elim hhandles hw.unpinned
  rcases h hpinned with ⟨hsame, hafter⟩
  refine ⟨by rw [Run.pinned, Run.pinned, hsame], fun a w' hrun => ?_⟩
  rcases Run.pinned_eq_some_iff.mp hrun with ⟨v, hv, rfl⟩
  exact ⟨(hafter a v hv).1.pins hw.unpinned, (hafter a v hv).2⟩

end Run.Hushed

/-! ### Operations in silence -/

section Operations

variable (host host' : Host (Code ν) (Journal τ))

/-- Nobody is updated. -/
theorem hushed_refresh (s : SubscriberId) :
    (host.refresh s).Hushed root (host'.refresh s) w := by
  refine .get_bind ?_
  cases hs : w.subscriber? s with
  | none => exact .pure ()
  | some subscriber =>
      intro hw
      rcases hw.devoted.watching s subscriber hs with ⟨wt, rfl, hroot⟩
      -- The object from which the watcher starts is gone.
      have hgone : w.alive (.object wt.root) = false := by
        rw [hroot]
        exact hw.alive_eq_false
      refine Run.Hushed.get_bind ?_ hw
      rw [hgone]
      exact .pure ()

theorem hushed_refreshAll (late : List SubscriberId) :
    (host.refreshAll late).Hushed root (host'.refreshAll late) w := by
  induction late generalizing w with
  | nil => exact .pure ()
  | cons s rest ih =>
      refine .bind (.pinned ?_ (hushed_refresh host host' s)) fun _ _ _ => ih
      simp only [List.mem_map, reduceCtorEq, and_false, exists_false, not_false_eq_true]

theorem hushed_notify (registry : Registry) :
    (host.notify registry).Hushed root (host'.notify registry) w :=
  .bind (.change fun hw => ⟨hw, rfl⟩) fun _ _ _ => hushed_refreshAll host host' _

/-- A write changes the property and nothing else. -/
theorem hushed_setProperty (o : ObjectId) (key : String) {d : Data} (hd : d ≠ .object root) :
    (host.setProperty o key d).Hushed root (host'.setProperty o key d) w := by
  refine .get_bind ?_
  cases hp : w.property? o key with
  | none => exact .pure _
  | some p =>
      dsimp only
      split
      · exact .pure _
      · refine .bind (.change fun hw => ⟨⟨?_, hw.unpinned, hw.released⟩, rfl⟩) fun _ _ _ =>
          .bind (hushed_notify host host' _) fun _ _ _ => .pure _
        refine ⟨hw.devoted.there.trans_eq (World.size_objects_updateProperty _ _ _ _).symm,
          fun a ha => ?_, hw.devoted.watching, hw.devoted.listening⟩
        rcases World.pointsTo_of_updateProperty ha with hbefore | ⟨_, hroot⟩
        · exact hw.devoted.unheld a hbefore
        · exact hd hroot

/-- A path that starts from another object does not lead to the one that is gone. -/
theorem hushed_setPath {o : ObjectId} (ho : o ≠ root) (path : String) {d : Data}
    (hd : d ≠ .object root) : (host.setPath o path d).Hushed root (host'.setPath o path d) w := by
  rcases w.resolve_none_spec o path with ⟨result, hresult, hspec⟩
  have hresolve : ∀ {a v}, Run.apply (·.resolve none o path) w = some (a, v) →
      a = result ∧ v = w := fun h => by
    rw [Run.apply_eq_some_iff, hresult] at h
    exact ⟨(Prod.mk.inj h).1.symm, (Prod.mk.inj h).2.symm⟩
  refine .bind (.refl fun hw a v hrun => ?_) fun resolved v hrun => ?_
  · rcases hresolve hrun with ⟨_, rfl⟩
    exact ⟨hw, rfl⟩
  · rcases hresolve hrun with ⟨rfl, rfl⟩
    rcases hspec with ⟨e, rfl, _⟩ | ⟨last, key, rfl, _, _, hclosed⟩
    · exact .pure _
    · intro hw
      have hlast : last ≠ root := hclosed (· ≠ root) (fun a _ k p x hp hx hxroot =>
        hw.devoted.unheld a (hxroot ▸ World.pointsTo_of_property? hp hx)) ho
      refine Run.Hushed.bind (.pinned ?_ (hushed_setProperty host host' last key hd))
        (fun answer v _ => ?_) hw
      · rw [List.mem_singleton]
        exact fun h => hlast (Handle.object.inj h).symm
      · cases answer with
        | ok changed => exact .pure _
        | error e => exact .pure _

/-- A listener raises flags, if that. -/
theorem hushed_runListener {listener : Listener (Code ν)} (hlistener : listener.BelongsTo root)
    (e : Event) : (host.runListener listener e).Hushed root (host'.runListener listener e) w := by
  intro hw
  cases listener with
  | callback callback => exact hlistener.elim
  | handle data method modifiers =>
      have hgone : w.alive (.object data) = false := by
        rw [show data = root from hlistener]
        exact hw.alive_eq_false
      refine Run.Hushed.get_bind ?_ hw
      rw [hgone]
      exact .pure _
  | writeBack data path =>
      have hgone : w.alive (.object data) = false := by
        rw [show data = root from hlistener]
        exact hw.alive_eq_false
      simp only [Host.runListener]
      cases e.current with
      | none => exact Run.Hushed.pure _ hw
      | some n =>
          refine Run.Hushed.get_bind ?_ hw
          rw [hgone]
          exact .pure _

theorem hushed_runListeners {listeners : List (Listener (Code ν))}
    (hlisteners : ∀ listener ∈ listeners, listener.BelongsTo root) (e : Event) :
    (host.runListeners listeners e).Hushed root (host'.runListeners listeners e) w := by
  induction listeners generalizing w e with
  | nil => exact .pure e
  | cons listener rest ih =>
      rw [List.forall_mem_cons] at hlisteners
      exact .bind (hushed_runListener host host' hlisteners.1 e) fun e' _ _ =>
        ih hlisteners.2 e'

theorem hushed_climb (limit : Nat) (n : NodeId) (e : Event) :
    (host.climb limit n e).Hushed root (host'.climb limit n e) w := by
  induction limit generalizing w n e with
  | zero => exact .stuck
  | succ limit ih =>
      refine .bind (.pinned ?_ (.get_bind ?_)) fun e' v _ => ?_
      · rw [List.mem_singleton]
        exact nofun
      · intro hw
        refine hushed_runListeners host host' (fun listener hmem => ?_) _ hw
        rcases List.mem_map.mp hmem with ⟨entry, hentry, rfl⟩
        exact hw.devoted.listening n entry (List.mem_filter.mp hentry).1
      · split
        · exact .pure e'
        · refine .get_bind ?_
          cases v.parent? n with
          | none => exact .pure e'
          | some p => exact ih p e'

/-- An event goes up and calls nobody. -/
theorem hushed_dispatch (hpatience : host.patience = host'.patience) (n : NodeId) (e : Event) :
    (host.dispatch n e).Hushed root (host'.dispatch n e) w := by
  refine .bind (.pinned ?_ ?_) fun e' _ _ => .pure _
  · rw [List.mem_singleton]
    exact nofun
  · rw [hpatience]
    exact hushed_climb host host' _ n _

end Operations

/-! ### Programs in silence -/

section Programs

theorem hushed_require (o : ObjectId) :
    Run.Hushed root (Run.require o : Run (Code ν) (Journal τ) Unit) (Run.require o) w :=
  .refl fun hw _ _ hrun => by
    rcases Run.require_eq_some_iff.mp hrun with ⟨_, rfl⟩
    exact ⟨hw, rfl⟩

/-- New objects do not break silence. -/
theorem World.Silent.observe (hw : w.Silent root) (value : Json) :
    (World.observeValue value w).2.Silent root ∧
      (World.observeValue value w).2.nodes = w.nodes := by
  have hextends := (World.extends_observeValue value w).1
  refine ⟨⟨hw.devoted.step (.observe w value), ?_, ?_⟩, hextends.nodes⟩
  · rw [hextends.pins]
    exact hw.unpinned
  · rw [hextends.client]
    exact hw.released

/-- The client may hold on to other things. -/
theorem World.Silent.hold (hw : w.Silent root) {handles : List Handle}
    (hhandles : .object root ∉ handles) : (w.hold handles).Silent root :=
  hw.client fun hmem => (List.mem_append.mp hmem).elim hhandles hw.released

/-- The client may let go of something. -/
theorem World.Silent.release (hw : w.Silent root) (h : Handle) : (w.release h).Silent root :=
  hw.client fun hmem => hw.released (List.mem_of_mem_erase hmem)

theorem hushed_obtain (source : Source) :
    Run.Hushed root (source.obtain : Run (Code ν) (Journal τ) Data) source.obtain w := by
  cases source with
  | literal value =>
      refine .refl fun hw d w' hrun => ?_
      rw [Source.obtain, Run.apply_eq_some_iff] at hrun
      have hobserved := hw.observe value.plain
      rw [show (World.observeValue value.plain w).2 = w' from congrArg Prod.snd hrun] at hobserved
      exact hobserved
  | shared value =>
      cases value with
      | plain value => exact .pure _
      | object o => exact .bind (hushed_require o) fun _ _ _ => .pure _
  | given o =>
      exact .bind (hushed_require o) fun _ _ _ =>
        .bind (.change fun hw => ⟨hw.release _, rfl⟩) fun _ _ _ => .pure _

/-- What a client obtains in silence is not the object that is gone. -/
theorem ne_of_obtain {source : Source} {d : Data} (hw : w.Silent root)
    (hobtain : source.obtain w = some (d, w')) : d ≠ .object root := by
  rcases Source.obtain_cases hobtain with ⟨value, _, hobserve⟩ | ⟨value, _, rfl, _⟩ |
    ⟨o, rfl, _, halive, _⟩
  · rintro rfl
    have hnew := (World.extends_observeValue value.plain w).2 root (congrArg Prod.fst hobserve)
    exact Nat.not_lt.mpr hnew.1 hw.devoted.there
  · rintro ⟨⟩
  · exact fun h => hw.ne_of_alive halive (Data.object.inj h)

/-- A write through an object that is there. -/
theorem hushed_write {o : ObjectId} {source : Source} {write write' : Data →
      Run (Code ν) (Journal τ) α}
    (hwrite : ∀ d v, d ≠ .object root → o ≠ root → (write d).Hushed root (write' d) v) :
    Run.Hushed root (do
      let d ← source.obtain
      Run.require o
      Run.pinned [.object o] (write d))
    (do
      let d ← source.obtain
      Run.require o
      Run.pinned [.object o] (write' d)) w := by
  intro hw
  refine Run.Hushed.bind (hushed_obtain source) (fun d v hobtain => ?_) hw
  refine .bind (hushed_require o) fun _ v' hrequire => ?_
  rcases Run.require_eq_some_iff.mp hrequire with ⟨⟨_, halive⟩, rfl⟩
  intro hv
  have ho := hv.ne_of_alive halive
  refine Run.Hushed.pinned ?_ (hwrite d _ (ne_of_obtain hw hobtain) ho) hv
  rw [List.mem_singleton]
  exact fun h => ho (Handle.object.inj h).symm

variable (host host' : Host (Code ν) (Journal τ))

/-- A step of a program calls nobody. -/
theorem hushed_command {c : Command ν τ} (hc : c.Within (Licence.loyal root)) :
    (c.run host).Hushed root (c.run host') w := by
  cases c with
  | look =>
      refine .refl fun hw a w' hrun => ?_
      rcases Run.get_eq_some_iff.mp hrun with ⟨_, rfl⟩
      exact ⟨hw, rfl⟩
  | remember change => exact .change fun hw => ⟨hw.client hw.released, rfl⟩
  | observe value =>
      have hobserve : ∀ {o? v}, Run.apply (World.observeRoot value) w = some (o?, v) →
          (World.observeValue value w).1.object? = o? ∧ (World.observeValue value w).2 = v := by
        intro o? v hrun
        rwa [Run.apply_eq_some_iff, World.observeRoot_eq, Prod.mk.injEq] at hrun
      intro hw
      have hobserved := hw.observe value
      refine Run.Hushed.bind (.refl fun _ o? v hrun => ?_) (fun o? v hrun => ?_) hw
      · rcases hobserve hrun with ⟨_, rfl⟩
        exact hobserved
      · rcases hobserve hrun with ⟨ho, rfl⟩
        refine .bind (.change fun hv => ⟨hv.hold ?_, rfl⟩) fun _ _ _ => .pure _
        -- What has just been observed is new.
        intro hmem
        rcases List.mem_map.mp hmem with ⟨o, ho', hroot⟩
        have hsome : (World.observeValue value w).1.object? = some root := by
          rw [ho, ← Handle.object.inj hroot]
          exact Option.mem_toList.mp ho'
        have hnew := (World.extends_observeValue value w).2 root
          (Data.eq_object_of_object? hsome)
        exact Nat.not_lt.mpr hnew.1 hw.devoted.there
  | hold o =>
      refine .bind (hushed_require o) fun _ v hrequire => .change fun hv => ⟨hv.hold ?_, rfl⟩
      rcases Run.require_eq_some_iff.mp hrequire with ⟨⟨_, halive⟩, rfl⟩
      rw [List.mem_singleton]
      exact fun h => hv.ne_of_alive halive (Handle.object.inj h).symm
  | release o => exact .change fun hw => ⟨hw.release _, rfl⟩
  | set o key source =>
      exact hushed_write fun d v hd _ => hushed_setProperty host host' o key hd
  | setPath o path source =>
      exact hushed_write fun d v hd ho => hushed_setPath host host' ho path hd
  | watch o path name =>
      -- There is nothing left to watch.
      intro hw
      refine Run.Hushed.bind (hushed_require o) (fun _ v hrequire => ?_) hw
      exact absurd hc (hw.ne_of_alive (Run.require_eq_some_iff.mp hrequire).1.2)
  | notify o key =>
      refine .bind (hushed_require o) fun _ v hrequire => .get_bind ?_
      cases hp : v.property? o key with
      | none => exact .pure _
      | some p =>
          intro hv
          rcases Run.require_eq_some_iff.mp hrequire with ⟨⟨_, halive⟩, rfl⟩
          refine Run.Hushed.pinned ?_ (hushed_notify host host' p.registry) hv
          rw [List.mem_singleton]
          exact fun h => hv.ne_of_alive halive (Handle.object.inj h).symm

/-- A program calls nobody. -/
theorem hushed_program {p : Program ν τ} (hp : p.Within (Licence.loyal root)) :
    (p.run host).Hushed root (p.run host') w := by
  induction p generalizing w with
  | done => exact .pure ()
  | ask command next ih =>
      exact .bind (hushed_command host host' hp.1) fun answer _ _ => ih answer (hp.2 answer)

end Programs

end LiveTemplate
