import LiveTemplate.Proofs.Reaction.Keeping

/-!
# Programs That Keep Watchers Up to Date

Commands, programs and callbacks that run programs keep the invariant.

A command keeps the invariant if the host's callbacks do, so a program does, by
induction on what it does next. Callbacks are programs with one more thing to do
first, which is to write down the value that they are called with. So the host that
runs callbacks inside callbacks up to some depth keeps the invariant if the host for
one level less does, and the host for no levels at all has no runs.

Holding on to an object takes some care. A value that is written may be held by
nothing but the write, when it has just been observed or when the client gives its
handle away, so it is held on to in the statements about where values come from.

## Theorems

* `Source.obtain_cases`, `Command.run_set_iff`, `Command.run_notify_cases`: What a command has
  done, if it has come to an end.
* `Source.obtain_kept`: Obtaining a value to write.
* `Command.run_kept`, `Program.run_kept`: Commands and programs.
* `Program.serves_host`: Callbacks that run programs.
-/

namespace LiveTemplate

variable {ν τ : Type} {D : Display ν τ} {P Q : List SubscriberId} {w w' : ClientWorld ν τ}

namespace Run

@[simp]
theorem require_eq_some_iff {o : ObjectId} {u : Unit} :
    (require o : Run (Code ν) (Journal τ) Unit) w = some (u, w') ↔
      (o.index < w.objects.size ∧ w.alive (.object o) = true) ∧ w = w' := by
  unfold require
  split
  · next h => simp only [Option.some.injEq, Prod.mk.injEq, true_and, h, and_self]
  · next h => simp only [reduceCtorEq, h, false_and]

end Run

/-- What is obtained to be written: it is observed, or it is plain, or it is an object that is
    alive, which the client may let go of with it. -/
theorem Source.obtain_cases {source : Source} {d : Data} (hrun : source.obtain w = some (d, w')) :
    (∃ value, source = .literal value ∧ World.observeValue value.plain w = (d, w')) ∨
      (∃ value, source = .shared (.plain value) ∧ d = .plain value ∧ w' = w) ∨
      ∃ o, d = .object o ∧ o.index < w.objects.size ∧ w.alive (.object o) = true ∧
        (source = .shared d ∧ w' = w ∨ source = .given o ∧ w' = w.release (.object o)) := by
  cases source with
  | literal value => exact .inl ⟨value, rfl, Run.apply_eq_some_iff.mp hrun⟩
  | shared value =>
      cases value with
      | plain value =>
          rcases Run.pure_eq_some_iff.mp hrun with ⟨rfl, rfl⟩
          exact .inr (.inl ⟨value, rfl, rfl, rfl⟩)
      | object o =>
          simp only [obtain, Run.bind_eq_some_iff, Run.require_eq_some_iff,
            Run.pure_eq_some_iff] at hrun
          rcases hrun with ⟨_, _, ⟨⟨hlt, halive⟩, rfl⟩, rfl, rfl⟩
          exact .inr (.inr ⟨o, rfl, hlt, halive, .inl ⟨rfl, rfl⟩⟩)
  | given o =>
      simp only [obtain, Run.bind_eq_some_iff, Run.require_eq_some_iff, Run.change_eq_some_iff,
        Run.pure_eq_some_iff] at hrun
      rcases hrun with ⟨_, _, ⟨⟨hlt, halive⟩, rfl⟩, _, _, rfl, rfl, rfl⟩
      exact .inr (.inr ⟨o, rfl, hlt, halive, .inr ⟨rfl, rfl⟩⟩)

namespace Command

variable {host : Host (Code ν) (Journal τ)} {o : ObjectId} {key path : String}

theorem run_observe_iff {value : Json} {o? : Option ObjectId} :
    (observe value : Command ν τ).run host w = some (o?, w') ↔
      ∃ v, w.observeRoot value = (o?, v) ∧ v.hold (o?.toList.map .object) = w' := by
  simp only [run, Run.bind_eq_some_iff, Run.apply_eq_some_iff, Run.change_eq_some_iff,
    Run.pure_eq_some_iff]
  constructor
  · rintro ⟨_, v, hobserve, _, _, rfl, rfl, rfl⟩
    exact ⟨v, hobserve, rfl⟩
  · rintro ⟨v, hobserve, rfl⟩
    exact ⟨o?, v, hobserve, (), _, rfl, rfl, rfl⟩

theorem run_hold_iff {u : Unit} :
    (hold o : Command ν τ).run host w = some (u, w') ↔
      (o.index < w.objects.size ∧ w.alive (.object o) = true) ∧ w.hold [.object o] = w' := by
  simp only [run, Run.bind_eq_some_iff, Run.require_eq_some_iff, Run.change_eq_some_iff]
  constructor
  · rintro ⟨_, _, ⟨hthere, rfl⟩, rfl⟩
    exact ⟨hthere, rfl⟩
  · rintro ⟨hthere, rfl⟩
    exact ⟨(), w, ⟨hthere, rfl⟩, rfl⟩

theorem run_set_iff {source : Source} {result : Except BindingError Bool} :
    (set o key source : Command ν τ).run host w = some (result, w') ↔
      ∃ d v, source.obtain w = some (d, v) ∧
        (o.index < v.objects.size ∧ v.alive (.object o) = true) ∧
        Run.pinned [.object o] (host.setProperty o key d) v = some (result, w') := by
  simp only [run, Run.bind_eq_some_iff, Run.require_eq_some_iff]
  constructor
  · rintro ⟨d, v, hobtain, _, _, ⟨hthere, rfl⟩, hset⟩
    exact ⟨d, v, hobtain, hthere, hset⟩
  · rintro ⟨d, v, hobtain, hthere, hset⟩
    exact ⟨d, v, hobtain, (), v, ⟨hthere, rfl⟩, hset⟩

theorem run_setPath_iff {source : Source} {result : Except BindingError Bool} :
    (setPath o path source : Command ν τ).run host w = some (result, w') ↔
      ∃ d v, source.obtain w = some (d, v) ∧
        (o.index < v.objects.size ∧ v.alive (.object o) = true) ∧
        Run.pinned [.object o] (host.setPath o path d) v = some (result, w') := by
  simp only [run, Run.bind_eq_some_iff, Run.require_eq_some_iff]
  constructor
  · rintro ⟨d, v, hobtain, _, _, ⟨hthere, rfl⟩, hset⟩
    exact ⟨d, v, hobtain, hthere, hset⟩
  · rintro ⟨d, v, hobtain, hthere, hset⟩
    exact ⟨d, v, hobtain, (), v, ⟨hthere, rfl⟩, hset⟩

theorem run_watch_iff {name : ν} {result : Except BindingError SubscriberId} :
    (watch o path name : Command ν τ).run host w = some (result, w') ↔
      (o.index < w.objects.size ∧ w.alive (.object o) = true) ∧
        w.watchAs o path name = (result, w') := by
  simp only [run, Run.bind_eq_some_iff, Run.require_eq_some_iff, Run.apply_eq_some_iff]
  constructor
  · rintro ⟨_, _, ⟨hthere, rfl⟩, hwatch⟩
    exact ⟨hthere, hwatch⟩
  · rintro ⟨hthere, hwatch⟩
    exact ⟨(), w, ⟨hthere, rfl⟩, hwatch⟩

theorem run_notify_cases {u : Unit}
    (hrun : (notify o key : Command ν τ).run host w = some (u, w')) :
    (o.index < w.objects.size ∧ w.alive (.object o) = true) ∧
      (w.property? o key = none ∧ w' = w ∨
        ∃ p, w.property? o key = some p ∧
          Run.pinned [.object o] (host.notify p.registry) w = some ((), w')) := by
  simp only [run, Run.bind_eq_some_iff, Run.require_eq_some_iff, Run.get_eq_some_iff] at hrun
  rcases hrun with ⟨_, _, ⟨hthere, rfl⟩, _, _, ⟨rfl, rfl⟩, hrun⟩
  refine ⟨hthere, ?_⟩
  cases hp : w.property? o key with
  | none =>
      rw [hp, Run.pure_eq_some_iff] at hrun
      exact .inl ⟨rfl, hrun.2.symm⟩
  | some p =>
      rw [hp] at hrun
      exact .inr ⟨p, rfl, hrun⟩

end Command

namespace Kept

/-- Letting go of something that the client holds, apart from what is held on to besides. -/
theorem release (h : Kept D P Q w) (hD : D.OfView) {o : ObjectId} {handles : List Handle}
    (halive : ∀ x, .object x ∈ handles → w.alive (.object x) = true) :
    Kept D P Q { w.release (.object o) with pins := handles ++ w.pins } := by
  have hview : w.SameView { w.release (.object o) with pins := handles ++ w.pins } :=
    .of_subscribers rfl rfl
  refine h.of_objects rfl rfl rfl ?_ (fun s wt d _ _ _ hd => hD.isShown hview rfl hd)
    (hD.sound hview h.sound)
  intro x _ hrooted
  rcases World.rooted_eq_true_iff.mp hrooted with hpin | hheld
  · rcases List.mem_append.mp hpin with hpin | hpin
    · exact halive x hpin
    · exact World.alive_of_mem_pins hpin
  · exact World.alive_of_mem_held (List.mem_of_mem_erase hheld)

/-- Holding on to something that is alive. -/
theorem hold (h : Kept D P Q w) (hD : D.OfView) {o : ObjectId}
    (ho : w.alive (.object o) = true) : Kept D P Q (w.hold [.object o]) := by
  have hview : w.SameView (w.hold [.object o]) :=
    .of_subscribers rfl rfl
  refine h.of_objects rfl rfl rfl ?_ (fun s wt d _ _ _ hd => hD.isShown hview rfl hd)
    (hD.sound hview h.sound)
  intro x _ hrooted
  rcases World.rooted_eq_true_iff.mp hrooted with hpin | hheld
  · exact World.alive_of_mem_pins hpin
  · rcases List.mem_cons.mp hheld with hx | hheld
    · injection hx with hx
      rw [hx]
      exact ho
    · exact World.alive_of_mem_held hheld

end Kept

/-- Obtaining a value to write: the value is there, and it may be held by nothing but the
    write. -/
theorem Source.obtain_kept (hD : D.OfView) {source : Source} {d : Data} (h : Kept D P Q w)
    (hrun : source.obtain w = some (d, w')) :
    Kept D P Q { w' with pins := d.owned ++ w'.pins } ∧ w'.pins = w.pins ∧
      ∀ x, d = .object x → x.index < w'.objects.size := by
  rcases Source.obtain_cases hrun with ⟨value, _, hobserve⟩ | ⟨value, _, rfl, rfl⟩ |
    ⟨o, rfl, hlt, halive, ⟨_, rfl⟩ | ⟨_, rfl⟩⟩
  · have hnew := World.extends_observeValue value.plain w
    rw [hobserve] at hnew
    rcases hnew with ⟨hext, hd⟩
    have hpins : w'.pins = w.pins := hext.pins
    have hclient : w'.client = w.client := hext.client
    refine ⟨h.extend hD hext rfl hext.registries hext.nodes hext.subscribers
      (congrArg Journal.shown hclient) ?_, hpins, fun x hx => (hd x hx).2⟩
    intro o ho hrooted
    rcases World.rooted_eq_true_iff.mp hrooted with hpin | hheld
    · rcases List.mem_append.mp hpin with hpin | hpin
      · -- What has just been observed was not there before.
        cases d with
        | plain v => exact absurd hpin List.not_mem_nil
        | object x =>
            rw [Data.owned, List.mem_singleton] at hpin
            injection hpin with hpin
            rw [hpin] at ho
            exact absurd ho (Nat.not_lt_of_le (hd x rfl).1)
      · rw [hpins] at hpin
        exact World.alive_of_mem_pins hpin
    · have hheld : .object o ∈ Client.held w'.client := hheld
      rw [hclient] at hheld
      exact World.alive_of_mem_held hheld
  · refine ⟨h, rfl, fun x hx => ?_⟩
    cases hx
  · refine ⟨h.pinObject hD halive, rfl, fun x hx => ?_⟩
    injection hx with hx
    rwa [← hx]
  · refine ⟨h.release hD fun x hx => ?_, rfl, fun x hx => ?_⟩
    · rw [Data.owned, List.mem_singleton] at hx
      rwa [hx]
    · injection hx with hx
      rwa [← hx]

/-- Observing an object is observing a value that has to be one. A client with a journal takes
    no note of a value that is none. -/
theorem World.observeRoot_eq (value : Json) (w : ClientWorld ν τ) :
    w.observeRoot value = ((observeValue value w).1.object?, (observeValue value w).2) := by
  unfold observeRoot
  split
  · next h => rw [h, Data.object?]
  · next h =>
      rw [h, Data.object?]
      rfl

/-- Observing an object and holding on to it. -/
theorem Kept.observeRoot (h : Kept D P Q w) (hD : D.OfView) {value : Json}
    {o? : Option ObjectId} (hrun : w.observeRoot value = (o?, w')) :
    Kept D P Q (w'.hold (o?.toList.map .object)) ∧
      (w'.hold (o?.toList.map .object)).pins = w.pins := by
  rcases World.extends_observeValue value w with ⟨hext, hd⟩
  rw [World.observeRoot_eq, Prod.mk.injEq] at hrun
  rcases hrun with ⟨rfl, rfl⟩
  generalize (World.observeValue value w).1 = d at hd ⊢
  generalize (World.observeValue value w).2 = v at hext hd ⊢
  have hpins : v.pins = w.pins := hext.pins
  have hclient : v.client = w.client := hext.client
  have hshown : v.client.shown = w.client.shown := congrArg Journal.shown hclient
  refine ⟨h.extend hD hext rfl hext.registries hext.nodes hext.subscribers hshown ?_, hpins⟩
  intro o ho hrooted
  rcases World.rooted_eq_true_iff.mp hrooted with hpin | hheld
  · have hpin : .object o ∈ v.pins := hpin
    rw [hpins] at hpin
    exact World.alive_of_mem_pins hpin
  · rcases List.mem_append.mp hheld with hheld | hheld
    · rcases List.mem_map.mp hheld with ⟨x, hx, heq⟩
      injection heq with heq
      rw [heq] at hx
      have hobject : d = .object o := Data.eq_object_of_object? (Option.mem_toList.mp hx)
      exact absurd ho (Nat.not_lt_of_le (hd o hobject).1)
    · have hheld : .object o ∈ Client.held v.client := hheld
      rw [hclient] at hheld
      exact World.alive_of_mem_held hheld

/-- Writing down what a watcher with a callback has just read settles it. -/
theorem Kept.note {s : SubscriberId} {d : Data} (h : Kept D (s :: P) Q w) (hD : D.OfView)
    (hs : ∀ wt, w.subscriber? s = some (.watcher wt) → (∃ c, wt.effect = .call c) ∧
      w.RegisteredAt s (w.pathFields wt.root wt.path) ∧ w.pathValue? wt.root wt.path = some d) :
    Kept D P Q (w.record s d) := by
  refine (h.record hD d).settle fun wt hwt => ?_
  rcases hs wt hwt with ⟨⟨c, hc⟩, hregistered, hvalue⟩
  have hobjects : (w.record s d).objects = w.objects := rfl
  have hway := World.path_of_objects hobjects wt.root wt.path
  rw [hway.1, hway.2, hvalue, hc]
  refine ⟨hregistered, fun d' hd' => ?_⟩
  injection hd' with hd'
  rw [← hd']
  exact if_pos rfl

/-- Creating a watcher: it is registered on its way, and what it has read is written down. -/
theorem Kept.watchAs (h : Kept D P Q w) (hD : D.OfView) {root : ObjectId}
    (hroot : root.index < w.objects.size) {path : String} {name : ν}
    {result : Except BindingError SubscriberId}
    (hrun : w.watchAs root path name = (result, w')) : Kept D P Q w' ∧ w'.pins = w.pins := by
  have hadded := h.addWatcher hD hroot path name
  have hwatcher := World.subscriber?_addSubscriber w
    (.watcher ⟨root, path, .call (.watching ⟨w.subscribers.size⟩ name)⟩) ⟨w.subscribers.size⟩
  rw [if_pos rfl] at hwatcher
  simp only [World.watchAs, World.firstRead, World.watch] at hrun
  generalize hv : (w.addSubscriber
    (.watcher ⟨root, path, .call (.watching ⟨w.subscribers.size⟩ name)⟩)).2 = v at hadded hwatcher
  have hv' : w.addSubscriber
      (.watcher ⟨root, path, .call (.watching ⟨w.subscribers.size⟩ name)⟩) =
        (⟨w.subscribers.size⟩, v) := by rw [← hv]; rfl
  have hpins : v.pins = w.pins := by rw [← hv]; rfl
  rw [hv'] at hrun
  rcases hread : v.readPath (some ⟨w.subscribers.size⟩) root path with ⟨answer, v₁⟩
  rcases hadded.read hD _ root path hread with
    ⟨hkept, hregistered, hvalue, hsubscribers, hpins₁⟩
  have hs₁ : ∀ wt, v₁.subscriber? ⟨w.subscribers.size⟩ = some (.watcher wt) →
      wt = ⟨root, path, .call (.watching ⟨w.subscribers.size⟩ name)⟩ := by
    intro wt hwt
    rw [World.subscriber?_of_subscribers hsubscribers] at hwt
    exact World.watcher_unique hwatcher hwt
  simp only [hread] at hrun
  cases answer with
  | error e =>
      injection hrun with _ hrun
      subst hrun
      refine ⟨hkept.settle ?_, hpins₁.trans hpins⟩
      intro wt hwt
      rw [hs₁ wt hwt]
      refine ⟨hregistered, fun d hd => ?_⟩
      rw [hvalue] at hd
      exact absurd hd (by simp only [Except.toOption, reduceCtorEq, not_false_eq_true])
  | ok d =>
      injection hrun with _ hrun
      subst hrun
      refine ⟨hkept.note hD ?_, hpins₁.trans hpins⟩
      intro wt hwt
      rw [hs₁ wt hwt]
      exact ⟨⟨_, rfl⟩, hregistered, hvalue⟩

variable {host : Host (Code ν) (Journal τ)}

/-- A command keeps everybody up to date. -/
theorem Command.run_kept (hhost : Serves D host) (hD : D.Lawful) {c : Command ν τ}
    {a : c.Response} (h : Kept D P Q w) (hrun : c.run host w = some (a, w')) :
    Kept D P Q w' ∧ w'.pins = w.pins := by
  cases c with
  | look =>
      rw [Command.run, Run.get_eq_some_iff] at hrun
      rcases hrun with ⟨_, rfl⟩
      exact ⟨h, rfl⟩
  | remember change =>
      rw [Command.run, Run.change_eq_some_iff] at hrun
      subst hrun
      have hview : w.SameView (w.write fun j => { j with memory := change j.memory }) :=
        .of_subscribers rfl rfl
      exact ⟨h.of_objects rfl rfl rfl (fun o _ hrooted => World.alive_of_rooted hrooted)
        (fun s wt d _ _ _ hd => hD.isShown hview rfl hd) (hD.sound hview h.sound), rfl⟩
  | observe value =>
      rcases run_observe_iff.mp hrun with ⟨v, hobserve, rfl⟩
      exact h.observeRoot hD.toOfView hobserve
  | hold o =>
      rcases run_hold_iff.mp hrun with ⟨⟨_, halive⟩, rfl⟩
      exact ⟨h.hold hD.toOfView halive, rfl⟩
  | release o =>
      rw [Command.run, Run.change_eq_some_iff] at hrun
      subst hrun
      have hreleased : Kept D P Q { w.release (.object o) with pins := [] ++ w.pins } :=
        h.release hD.toOfView fun x hx => absurd hx List.not_mem_nil
      exact ⟨hreleased, rfl⟩
  | set o key source =>
      rcases run_set_iff.mp hrun with ⟨d, v, hobtain, ⟨_, halive⟩, hpinned⟩
      rcases Run.pinned_eq_some_iff.mp hpinned with ⟨v', hset, rfl⟩
      rcases Source.obtain_kept hD.toOfView h hobtain with ⟨hkept, hpins, hd⟩
      have hkept' := hhost.setProperty_kept (w := { v with pins := .object o :: v.pins }) hD
        (hkept.pinBeneath hD.toOfView halive) hd hset
      have hpins' : v'.pins = [.object o] ++ v.pins := hkept'.2
      exact ⟨hkept'.1.unpin hD.toOfView hpins', hpins⟩
  | setPath root path source =>
      rcases run_setPath_iff.mp hrun with ⟨d, v, hobtain, ⟨_, halive⟩, hpinned⟩
      rcases Run.pinned_eq_some_iff.mp hpinned with ⟨v', hset, rfl⟩
      rcases Source.obtain_kept hD.toOfView h hobtain with ⟨hkept, hpins, hd⟩
      have hkept' := hhost.setPath_kept (w := { v with pins := .object root :: v.pins }) hD
        (hkept.pinBeneath hD.toOfView halive) hd
        (World.alive_of_mem_pins List.mem_cons_self) hset
      have hpins' : v'.pins = [.object root] ++ v.pins := hkept'.2
      exact ⟨hkept'.1.unpin hD.toOfView hpins', hpins⟩
  | watch root path name =>
      rcases run_watch_iff.mp hrun with ⟨⟨hlt, _⟩, hwatch⟩
      exact h.watchAs hD.toOfView hlt hwatch
  | notify o key =>
      rcases run_notify_cases hrun with ⟨⟨_, halive⟩, ⟨_, rfl⟩ | ⟨p, _, hnotify⟩⟩
      · exact ⟨h, rfl⟩
      · refine Kept.pinned hD.toOfView hnotify fun v hv => hhost.notify hD ?_ hv
        exact (h.pinObject hD.toOfView halive).mono (List.subset_append_right _ _)
          (List.Subset.refl Q)

/-- A program keeps everybody up to date. -/
theorem Program.run_kept (hhost : Serves D host) (hD : D.Lawful) {p : Program ν τ} {u : Unit}
    (h : Kept D P Q w) (hrun : p.run host w = some (u, w')) :
    Kept D P Q w' ∧ w'.pins = w.pins := by
  induction p generalizing w with
  | done =>
      rw [Program.run, Run.pure_eq_some_iff] at hrun
      rcases hrun with ⟨_, rfl⟩
      exact ⟨h, rfl⟩
  | ask command next ih =>
      simp only [Program.run, Run.bind_eq_some_iff] at hrun
      rcases hrun with ⟨answer, v, hcommand, hnext⟩
      have hfirst := Command.run_kept hhost hD h hcommand
      have hrest := ih answer hfirst.1 hnext
      exact ⟨hrest.1, hrest.2.trans hfirst.2⟩

/-- Several programs keep everybody up to date. -/
theorem Program.runAll_kept (hhost : Serves D host) (hD : D.Lawful) {ps : List (Program ν τ)}
    {u : Unit} (h : Kept D P Q w) (hrun : Program.runAll host ps w = some (u, w')) :
    Kept D P Q w' ∧ w'.pins = w.pins := by
  induction ps generalizing w with
  | nil =>
      rw [Program.runAll, Run.pure_eq_some_iff] at hrun
      rcases hrun with ⟨_, rfl⟩
      exact ⟨h, rfl⟩
  | cons p ps ih =>
      simp only [Program.runAll, Run.bind_eq_some_iff] at hrun
      rcases hrun with ⟨_, v, hprogram, hothers⟩
      have hfirst := Program.run_kept hhost hD h hprogram
      have hrest := ih hfirst.1 hothers
      exact ⟨hrest.1, hrest.2.trans hfirst.2⟩

/-- Callbacks that run programs keep the invariant, however deep they call each other. -/
theorem Program.serves_host (hD : D.Lawful) (code : ν → Signal → Program ν τ)
    (patience depth : Nat) : Serves D ((Program.behaviour code).host patience depth) := by
  induction depth with
  | zero =>
      constructor
      · intro P Q w w' s wt c d flags _ _ _ _ _ hrun
        exact absurd hrun (by
          simp only [Behaviour.host, Run.stuck, reduceCtorEq, not_false_eq_true])
      · intro P Q w w' c signal flags _ _ hrun
        exact absurd hrun (by
          simp only [Behaviour.host, Run.stuck, reduceCtorEq, not_false_eq_true])
  | succ depth ih =>
      constructor
      · intro P Q w w' s wt c d flags h hs hc hregistered hvalue hrun
        rcases h.tagged s wt c hs hc with ⟨name, rfl⟩
        simp only [Behaviour.host, Program.behaviour, Program.takeNote, Run.bind_eq_some_iff,
          Run.change_eq_some_iff, Run.pure_eq_some_iff] at hrun
        rcases hrun with ⟨_, _, rfl, _, v, hprogram, rfl, rfl⟩
        refine Program.run_kept (w := w.record s d) ih hD (h.note hD.toOfView ?_) hprogram
        intro wt' hs'
        obtain rfl := World.watcher_unique hs hs'
        exact ⟨⟨_, hc⟩, hregistered, hvalue⟩
      · intro P Q w w' c signal flags hsignal h hrun
        have hnote : (Program.takeNote c signal : Run (Code ν) (Journal τ) Unit) = pure () := by
          unfold Program.takeNote
          split
          · next d => exact absurd rfl (hsignal d)
          · rfl
        simp only [Behaviour.host, Program.behaviour, hnote, Run.bind_eq_some_iff,
          Run.pure_eq_some_iff] at hrun
        rcases hrun with ⟨_, _, ⟨_, rfl⟩, _, v, hprogram, rfl, rfl⟩
        exact Program.run_kept ih hD h hprogram

end LiveTemplate
