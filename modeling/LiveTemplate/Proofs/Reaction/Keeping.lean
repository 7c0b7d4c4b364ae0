import LiveTemplate.Proofs.Reaction.Outcomes
import LiveTemplate.Proofs.Reaction.Upkeep

/-!
# Operations That Keep Watchers Up to Date

Updating subscribers and writing values, for a host whose callbacks keep the invariant.

What is assumed of the host is `Serves`: a callback that is called with its watcher's
value brings the watcher up to date, and any other callback keeps what there is to
keep. From this the operations follow from the inside out. Updating a watcher settles
it. Updating the subscribers of a registry settles them one after the other, each turn
keeping the ones to come pending, whatever writes are nested inside it. And a write,
which leaves the subscribers of one registry behind, updates just these.

Every operation lets go of what it has held on to.

## Main definitions

* `Serves`: A host whose callbacks keep the invariant.

## Theorems

* `Serves.refreshAll`: Updating subscribers settles them.
* `Serves.setProperty`, `Serves.setPath`: What a write does, case by case.
-/

namespace LiveTemplate

variable {ν τ α : Type} {D : Display ν τ} {P P' Q Q' : List SubscriberId}
  {w w' : ClientWorld ν τ}

namespace Kept

/-- Holding on to more things, if the objects among them are alive. -/
theorem pin (h : Kept D P Q w) (hD : D.OfView) {handles : List Handle}
    (halive : ∀ o, .object o ∈ handles → w.alive (.object o) = true) :
    Kept D P Q { w with pins := handles ++ w.pins } := by
  refine h.pins hD fun o ho => ?_
  rcases List.mem_append.mp ho with ho | ho
  · exact halive o ho
  · exact World.alive_of_mem_pins ho

/-- Holding on to one more object. -/
theorem pinObject (h : Kept D P Q w) (hD : D.OfView) {o : ObjectId}
    (ho : w.alive (.object o) = true) : Kept D P Q { w with pins := [.object o] ++ w.pins } := by
  refine h.pin hD fun x hx => ?_
  rw [List.mem_singleton] at hx
  rwa [hx]

/-- Letting go of what has been held on to last. -/
theorem unpin (h : Kept D P Q w) (hD : D.OfView) {handles pins : List Handle}
    (hpins : w.pins = handles ++ pins) : Kept D P Q { w with pins := pins } := by
  refine h.pins hD fun o ho => World.alive_of_mem_pins ?_
  rw [hpins]
  exact List.mem_append_right _ ho

/-- Holding on to one more object beneath what is held on to. -/
theorem pinBeneath (hD : D.OfView) {handles : List Handle} {o : ObjectId}
    (h : Kept D P Q { w with pins := handles ++ w.pins }) (ho : w.alive (.object o) = true) :
    Kept D P Q { w with pins := handles ++ (.object o :: w.pins) } := by
  refine h.pins hD fun x hx => ?_
  rcases List.mem_append.mp hx with hx | hx
  · exact World.alive_of_mem_pins (List.mem_append_left _ hx)
  · rcases List.mem_cons.mp hx with hx | hx
    · injection hx with hx
      rw [hx]
      exact World.alive_pins ho
    · exact World.alive_of_mem_pins (List.mem_append_right _ hx)

/-- A part of an operation during which things are held on to. -/
theorem pinned {handles : List Handle} {run : Run (Code ν) (Journal τ) α} {a : α}
    (hD : D.OfView) (hrun : Run.pinned handles run w = some (a, w'))
    (hkeeps : ∀ v, run { w with pins := handles ++ w.pins } = some (a, v) →
      Kept D P Q v ∧ v.pins = handles ++ w.pins) :
    Kept D P Q w' ∧ w'.pins = w.pins := by
  rcases Run.pinned_eq_some_iff.mp hrun with ⟨v, hv, rfl⟩
  rcases hkeeps v hv with ⟨hkept, hpins⟩
  exact ⟨hkept.unpin hD hpins, rfl⟩

end Kept

/-- The callbacks of the host keep the invariant. -/
structure Serves (D : Display ν τ) (host : Host (Code ν) (Journal τ)) : Prop where
  /-- Called with its watcher's value, a callback brings the watcher up to date. -/
  changed : ∀ {P Q w w' s wt c d flags}, Kept D (s :: P) Q w →
    w.subscriber? s = some (.watcher wt) → wt.effect = .call c →
    w.RegisteredAt s (w.pathFields wt.root wt.path) → w.pathValue? wt.root wt.path = some d →
    host.call c (.changed d) w = some (flags, w') → Kept D P Q w' ∧ w'.pins = w.pins
  /-- Called for any other reason, it keeps everybody up to date. -/
  other : ∀ {P Q w w' c signal flags}, (∀ d, signal ≠ .changed d) → Kept D P Q w →
    host.call c signal w = some (flags, w') → Kept D P Q w' ∧ w'.pins = w.pins

namespace Serves

variable {host : Host (Code ν) (Journal τ)} {s : SubscriberId} {wt : Watcher (Code ν)}

/-- Acting on the value that it has just read settles a watcher. -/
theorem perform (hhost : Serves D host) (hD : D.Lawful) {d : Data} {u : Unit}
    (h : Kept D (s :: P) Q w) (hs : w.subscriber? s = some (.watcher wt))
    (hregistered : w.RegisteredAt s (w.pathFields wt.root wt.path))
    (hvalue : w.pathValue? wt.root wt.path = some d)
    (hrun : host.perform wt.effect d w = some (u, w')) : Kept D P Q w' ∧ w'.pins = w.pins := by
  cases heffect : wt.effect with
  | call c =>
      rw [heffect, Host.perform_call_iff] at hrun
      rcases hrun with ⟨flags, hcall⟩
      exact hhost.changed h hs heffect hregistered hvalue hcall
  | render r =>
      rw [heffect, Host.perform_render_iff] at hrun
      rcases hrun with ⟨text, htext, rfl⟩
      have hrest := w.onlyNodes_render r text
      have hway := World.path_of_objects hrest.objects wt.root wt.path
      refine ⟨(h.render hD hs heffect text).settle ?_, hrest.pins⟩
      intro wt' hs'
      rw [World.subscriber?_render] at hs'
      obtain rfl := World.watcher_unique hs hs'
      rw [hway.1, hway.2, heffect]
      constructor
      · rintro field hfield
        rcases hregistered field hfield with ⟨p, hp, hcontains⟩
        exact ⟨p, (World.property?_of_objects hrest.objects _ _).trans hp, hcontains⟩
      · intro v hv
        rw [hvalue] at hv
        injection hv with hv
        subst hv
        exact hD.render_shows h.sound hs heffect htext

/-- Updating a watcher settles it. -/
theorem refreshWatcher (hhost : Serves D host) (hD : D.Lawful) {u : Unit}
    (h : Kept D (s :: P) Q w) (hs : w.subscriber? s = some (.watcher wt))
    (hrun : host.refreshWatcher s wt w = some (u, w')) : Kept D P Q w' ∧ w'.pins = w.pins := by
  rcases Host.refreshWatcher_cases hrun with ⟨hgone, rfl⟩ | ⟨hroot, hrun⟩
  · refine ⟨h.drop fun wt' hs' halive => ?_, rfl⟩
    rw [World.watcher_unique hs hs', hgone] at halive
    exact absurd halive Bool.false_ne_true
  · have hpinned : Kept D (s :: P) Q { w with pins := [.object wt.root] ++ w.pins } :=
      h.pinObject hD.toOfView hroot
    rcases hrun with ⟨e, v, hread, rfl⟩ | ⟨d, v, v', hread, hperform, rfl⟩
    · rcases hpinned.read hD.toOfView s wt.root wt.path hread with
        ⟨hkept, hregistered, hvalue, hsubscribers, hpins⟩
      -- There is no value that should have been shown.
      have hsettled : Kept D P Q v := by
        refine hkept.settle fun wt' hs' => ?_
        rw [World.subscriber?, hsubscribers] at hs'
        obtain rfl := World.watcher_unique hs hs'
        refine ⟨hregistered, fun d hd => ?_⟩
        rw [hvalue] at hd
        cases hd
      exact ⟨hsettled.unpin hD.toOfView hpins, rfl⟩
    · rcases hpinned.read hD.toOfView s wt.root wt.path hread with
        ⟨hkept, hregistered, hvalue, hsubscribers, hpins⟩
      have hs' : v.subscriber? s = some (.watcher wt) := by
        rw [World.subscriber?, hsubscribers, ← hs]
        rfl
      -- The value is alive: it is what the root leads to.
      have halive : ∀ o, .object o ∈ d.owned → v.alive (.object o) = true := by
        intro o ho
        have hroot' : v.alive (.object wt.root) = true := by
          refine World.alive_of_mem_pins ?_
          rw [hpins]
          exact List.mem_append_left _ List.mem_cons_self
        cases d with
        | plain value => exact absurd ho List.not_mem_nil
        | object x =>
            rw [Data.owned, List.mem_singleton] at ho
            injection ho with ho
            rw [ho]
            exact (World.alive_of_mem_trail hroot').2 x hvalue
      have hheld : Kept D (s :: P) Q { v with pins := d.owned ++ v.pins } :=
        hkept.pin hD.toOfView halive
      have hway := v.path_pins (d.owned ++ v.pins) wt.root wt.path
      have hperformed := hhost.perform (w := { v with pins := d.owned ++ v.pins }) hD hheld hs'
        (by rw [hway.2]; exact hregistered) (by rw [hway.1, hvalue]; rfl) hperform
      have hpins' : v'.pins = (d.owned ++ [.object wt.root]) ++ w.pins := by
        rw [hperformed.2, hpins, List.append_assoc]
      exact ⟨hperformed.1.unpin hD.toOfView hpins', rfl⟩

/-- Updating a subscriber settles it. -/
theorem refresh (hhost : Serves D host) (hD : D.Lawful) {u : Unit} (h : Kept D (s :: P) Q w)
    (hrun : host.refresh s w = some (u, w')) : Kept D P Q w' ∧ w'.pins = w.pins := by
  rcases Host.refresh_cases hrun with ⟨hs, rfl⟩ | ⟨wt, hs, hrun⟩ | ⟨c, flags, hs, hcall⟩
  · refine ⟨h.drop fun wt hs' => ?_, rfl⟩
    cases hs.symm.trans hs'
  · exact hhost.refreshWatcher hD h hs hrun
  · refine hhost.other (fun d hd => ?_) (h.drop fun wt hs' => ?_) hcall
    · cases hd
    · cases hs.symm.trans hs'

/-- Updating subscribers settles them, one after the other. -/
theorem refreshAll (hhost : Serves D host) (hD : D.Lawful) {u : Unit}
    {subscribers : List SubscriberId} (h : Kept D (subscribers ++ P) Q w)
    (hrun : host.refreshAll subscribers w = some (u, w')) :
    Kept D P Q w' ∧ w'.pins = w.pins := by
  induction subscribers generalizing w with
  | nil =>
      rw [Host.refreshAll_nil_iff] at hrun
      subst hrun
      exact ⟨h, rfl⟩
  | cons s rest ih =>
      rcases Host.refreshAll_cons_iff.mp hrun with ⟨v, hfirst, hrest⟩
      have hpinned : Kept D (s :: (rest ++ P)) Q
          { w with pins := (s :: rest).map .subscriber ++ w.pins } := by
        refine h.pin hD.toOfView fun o ho => ?_
        rcases List.mem_map.mp ho with ⟨t, _, ht⟩
        exact absurd ht (by simp only [reduceCtorEq, not_false_eq_true])
      rcases hhost.refresh hD hpinned hfirst with ⟨hturn, hpins⟩
      exact ih (w := { v with pins := w.pins }) (hturn.unpin hD.toOfView hpins) hrest

/-- Notifying a registry settles its subscribers. -/
theorem notify (hhost : Serves D host) (hD : D.Lawful) {u : Unit} {registry : Registry}
    (h : Kept D (registry.subscribers ++ P) Q w)
    (hrun : host.notify registry w = some (u, w')) : Kept D P Q w' ∧ w'.pins = w.pins :=
  hhost.refreshAll hD h (Host.notify_iff_refreshAll.mp hrun)

/-- What writing a property does: there is no such property, or the value is there already,
    or it is written and the subscribers of the property are settled. -/
theorem setProperty (hhost : Serves D host) (hD : D.Lawful) {d : Data} {o : ObjectId}
    {key : String} {result : Except BindingError Bool}
    (h : Kept D P Q { w with pins := d.owned ++ w.pins })
    (hd : ∀ x, d = .object x → x.index < w.objects.size)
    (hrun : host.setProperty o key d w = some (result, w')) :
    (w' = w ∧ result = .error (.unobserved key) ∧ w.property? o key = none) ∨
      ∃ p, w.property? o key = some p ∧
        ((w' = w ∧ result = .ok false ∧ p.value.same d = true) ∨
          (result = .ok true ∧ Kept D P (Q.filter fun s => !p.registry.contains s) w' ∧
            w'.pins = w.pins)) := by
  rcases Host.setProperty_cases hrun with ⟨hp, rfl, rfl⟩ |
    ⟨p, hp, ⟨hsame, rfl, rfl⟩ | ⟨_, rfl, hnotify⟩⟩
  · exact Or.inl ⟨rfl, rfl, hp⟩
  · exact Or.inr ⟨p, hp, Or.inl ⟨rfl, rfl, hsame⟩⟩
  · have hsettled := hhost.notify hD (h.write hD.toOfView hd hp) hnotify
    exact Or.inr ⟨p, hp, Or.inr ⟨rfl, hsettled.1, hsettled.2⟩⟩

/-- A write keeps everybody up to date. -/
theorem setProperty_kept (hhost : Serves D host) (hD : D.Lawful) {d : Data} {o : ObjectId}
    {key : String} {result : Except BindingError Bool}
    (h : Kept D P Q { w with pins := d.owned ++ w.pins })
    (hd : ∀ x, d = .object x → x.index < w.objects.size)
    (hrun : host.setProperty o key d w = some (result, w')) :
    Kept D P Q w' ∧ w'.pins = w.pins := by
  rcases hhost.setProperty hD h hd hrun with ⟨rfl, _⟩ | ⟨p, _, ⟨rfl, _⟩ | ⟨_, hkept, hpins⟩⟩
  · exact ⟨h.unpin hD.toOfView rfl, rfl⟩
  · exact ⟨h.unpin hD.toOfView rfl, rfl⟩
  · exact ⟨hkept.mono (List.Subset.refl P) (fun s hs => (List.mem_filter.mp hs).1), hpins⟩

/-- What writing at the end of a path does: the path leads nowhere, or the value is there
    already, or it is written into the last field of the path and the subscribers there are
    settled. -/
theorem setPath (hhost : Serves D host) (hD : D.Lawful) {d : Data} {root : ObjectId}
    {path : String} {result : Except BindingError Bool}
    (h : Kept D P Q { w with pins := d.owned ++ w.pins })
    (hd : ∀ x, d = .object x → x.index < w.objects.size)
    (hroot : w.alive (.object root) = true)
    (hrun : host.setPath root path d w = some (result, w')) :
    (w' = w ∧ (∃ e, result = .error e) ∧ w.pathValue? root path = none) ∨
      (w' = w ∧ result = .ok false ∧
        ∃ old, w.pathValue? root path = some old ∧ old.same d = true) ∨
      (result = .ok true ∧ w'.pins = w.pins ∧ ∃ field p, field ∈ w.pathFields root path ∧
        w.property? field.1 field.2 = some p ∧
        Kept D P (Q.filter fun s => !p.registry.contains s) w') := by
  rcases w.resolve_none_spec root path with ⟨resolved, hresolved, hspec⟩
  rcases Host.setPath_cases hrun with ⟨e, hresolve, rfl, rfl⟩ |
    ⟨o, key, answer, v, hresolve, hwrite, rfl, rfl⟩
  · cases hresolved.symm.trans hresolve
    rcases hspec with ⟨_, _, hvalue⟩ | ⟨_, _, hok, _⟩
    · exact Or.inl ⟨rfl, ⟨e, rfl⟩, hvalue⟩
    · cases hok
  · cases hresolved.symm.trans hresolve
    rcases hspec with ⟨_, herror, _⟩ | ⟨_, _, hok, hvalue, hfield, hreached⟩
    · cases herror
    · cases hok
      have ho : w.alive (.object o) = true := hreached _ w.closedUnder_alive hroot
      rcases hhost.setProperty (w := { w with pins := .object o :: w.pins }) hD
          (h.pinBeneath hD.toOfView ho) hd hwrite with ⟨rfl, rfl, hp⟩ |
        ⟨p, hp, ⟨rfl, rfl, hsame⟩ | ⟨rfl, hkept, hpins⟩⟩
      · have hp' : w.property? o key = none := hp
        rw [hp', Option.map_none] at hvalue
        exact Or.inl ⟨rfl, ⟨_, rfl⟩, hvalue⟩
      · have hp' : w.property? o key = some p := hp
        rw [hp', Option.map_some] at hvalue
        exact Or.inr (Or.inl ⟨rfl, rfl, p.value, hvalue, hsame⟩)
      · have hpins' : v.pins = [.object o] ++ w.pins := hpins
        exact Or.inr (Or.inr ⟨rfl, rfl, (o, key), p, hfield p hp, hp,
          hkept.unpin hD.toOfView hpins'⟩)

/-- A write at the end of a path keeps everybody up to date. -/
theorem setPath_kept (hhost : Serves D host) (hD : D.Lawful) {d : Data} {root : ObjectId}
    {path : String} {result : Except BindingError Bool}
    (h : Kept D P Q { w with pins := d.owned ++ w.pins })
    (hd : ∀ x, d = .object x → x.index < w.objects.size)
    (hroot : w.alive (.object root) = true)
    (hrun : host.setPath root path d w = some (result, w')) :
    Kept D P Q w' ∧ w'.pins = w.pins := by
  rcases hhost.setPath hD h hd hroot hrun with ⟨rfl, _⟩ | ⟨rfl, _⟩ |
    ⟨_, hpins, _, p, _, _, hkept⟩
  · exact ⟨h.unpin hD.toOfView rfl, rfl⟩
  · exact ⟨h.unpin hD.toOfView rfl, rfl⟩
  · exact ⟨hkept.mono (List.Subset.refl P) (fun s hs => (List.mem_filter.mp hs).1), hpins⟩

end Serves

end LiveTemplate
