import LiveTemplate.Proofs.Reaction.Keeping
import LiveTemplate.Proofs.View.Lasting

/-!
# Events and What Is Entered

Dispatching events and entering text keep the view up to date.

A listener calls back into the host or writes what a form field holds to a path of the
data, so it keeps what the host keeps. So do all listeners at a node, and an event on
its way up.

Entering text into a form field leaves the watcher of the field behind: the field
holds something else than the value at the watcher's path. It is stale until the
field's own listener has run, whatever the listeners before that one do meanwhile. That
listener writes what the field holds then. If the path leads nowhere there is nothing
to show; if the text is there already it is shown; and otherwise the write updates the
watcher, which is registered on its way like any other one.

## Main definitions

* `Display.ReadsFields`: A form field shows what it holds.

## Theorems

* `Serves.dispatch`: Dispatching an event.
* `Serves.writeBack`: Writing back what has been entered.
* `Serves.input`: Entering text into a form field.
-/

namespace LiveTemplate

variable {ν τ : Type} {D : Display ν τ} {P Q : List SubscriberId} {w w' : ClientWorld ν τ}
  {host : Host (Code ν) (Journal τ)} {e e' : Event}

/-- Only a text counts as the same text. -/
theorem Data.eq_of_same_string {d : Data} {text : String}
    (h : d.same (.plain (.string text)) = true) : d = .plain (.string text) := by
  cases d with
  | object o =>
      exact absurd h (by simp only [Data.same, Bool.false_eq_true, not_false_eq_true])
  | plain value =>
      cases value with
      | string t =>
          simp only [Data.same, Json.same, Json.equal, beq_iff_eq] at h
          rw [h]
      | _ =>
          exact absurd h (by
            simp only [Data.same, Json.same, Json.equal, Bool.false_eq_true, not_false_eq_true])

/-- A form field shows what it holds. -/
def Display.ReadsFields (D : Display ν τ) : Prop :=
  ∀ w s n, D.shows w s (.field n) (.plain (.string (w.node n).value))

/-- A stale watcher that shows its value, if it has any, is not stale any more. -/
theorem Kept.freshen {s : SubscriberId} (h : Kept D P (s :: Q) w)
    (hs : ∀ wt v, w.subscriber? s = some (.watcher wt) → w.alive (.object wt.root) = true →
      w.pathValue? wt.root wt.path = some v → D.IsShown w s wt.effect v) : Kept D P Q w where
  closed := h.closed
  ranged := h.ranged
  tagged := h.tagged
  registered := h.registered
  orderly := h.orderly
  shown t wt v ht htP htQ halive hv := by
    by_cases hts : t = s
    · subst hts
      exact hs wt v ht halive hv
    · refine h.shown t wt v ht htP ?_ halive hv
      rw [List.mem_cons, not_or]
      exact ⟨hts, htQ⟩
  sound := h.sound

namespace Serves

/-- What the listener of a form field does: nothing, or it writes what the field holds. A client
    with a journal takes no note of a write that fails. -/
theorem writeBack_cases {data : ObjectId} {path : String}
    (hrun : host.runListener (.writeBack data path) e w = some (e', w')) :
    e' = e ∧ ((w' = w ∧ (w.alive (.object data) = true → e.current = none)) ∨
      ∃ n result v, e.current = some n ∧ w.alive (.object data) = true ∧
        host.setPath data path (.plain (.string (w.node n).value))
          { w with pins := .object data :: w.pins } = some (result, v) ∧
        w' = { v with pins := w.pins }) := by
  rcases Host.runListener_writeBack_cases hrun with
    ⟨rfl, hnothing | ⟨n, result, v, hn, halive, hset, rfl | ⟨_, _, rfl⟩⟩⟩
  · exact ⟨rfl, Or.inl hnothing⟩
  · exact ⟨rfl, Or.inr ⟨n, result, v, hn, halive, hset, rfl⟩⟩
  · exact ⟨rfl, Or.inr ⟨n, result, v, hn, halive, hset, rfl⟩⟩

/-- Writing text at the end of a path, by an operation that holds on to the root. -/
theorem setPath_text (hhost : Serves D host) (hD : D.Lawful) {data : ObjectId} {path text : String}
    {result : Except BindingError Bool} {v : ClientWorld ν τ} (h : Kept D P Q w)
    (halive : w.alive (.object data) = true)
    (hset : host.setPath data path (.plain (.string text))
      { w with pins := .object data :: w.pins } = some (result, v)) :
    Kept D P Q { v with pins := w.pins } := by
  have hpinned := h.pinObject hD.toOfView halive
  have hwritten := hhost.setPath_kept (w := { w with pins := .object data :: w.pins }) hD hpinned
    (fun x hx => absurd hx (by simp only [reduceCtorEq, not_false_eq_true]))
    (World.alive_of_mem_pins List.mem_cons_self) hset
  have hpins : v.pins = [.object data] ++ w.pins := hwritten.2
  exact hwritten.1.unpin hD.toOfView hpins

/-- A listener keeps everybody up to date. -/
theorem runListener (hhost : Serves D host) (hD : D.Lawful) {listener : Listener (Code ν)}
    (h : Kept D P Q w) (hrun : host.runListener listener e w = some (e', w')) :
    Kept D P Q w' ∧ w'.pins = w.pins ∧ e'.current = e.current := by
  have hreached : ∀ d : Data, Signal.reached e ≠ .changed d := fun d hd =>
    absurd hd (by simp only [reduceCtorEq, not_false_eq_true])
  cases listener with
  | callback callback =>
      rcases Host.runListener_callback_iff.mp hrun with ⟨flags, hcall, rfl⟩
      have hkept := hhost.other hreached h hcall
      exact ⟨hkept.1, hkept.2, rfl⟩
  | handle data method modifiers =>
      rcases Host.runListener_handle_cases hrun with
        ⟨rfl, ⟨_, rfl⟩ | ⟨halive, flags, v, hcall, rfl⟩⟩
      · exact ⟨h, rfl, rfl⟩
      · have hinvoked : ∀ d : Data,
            Signal.invoked data (some (e.raise modifiers.flags)) ≠ .changed d :=
          fun d hd => absurd hd (by simp only [reduceCtorEq, not_false_eq_true])
        rcases hhost.other hinvoked (h.pinObject hD.toOfView halive) hcall with ⟨hkept, hpins⟩
        exact ⟨hkept.unpin hD.toOfView hpins, rfl, rfl⟩
  | writeBack data path =>
      rcases writeBack_cases hrun with ⟨rfl, ⟨rfl, _⟩ | ⟨n, result, v, _, halive, hset, rfl⟩⟩
      · exact ⟨h, rfl, rfl⟩
      · exact ⟨hhost.setPath_text hD h halive hset, rfl, rfl⟩

/-- Listeners keep everybody up to date, one after the other. -/
theorem runListeners (hhost : Serves D host) (hD : D.Lawful)
    {listeners : List (Listener (Code ν))} (h : Kept D P Q w)
    (hrun : host.runListeners listeners e w = some (e', w')) :
    Kept D P Q w' ∧ w'.pins = w.pins := by
  induction listeners generalizing w e with
  | nil =>
      rcases Host.runListeners_nil_iff.mp hrun with ⟨_, rfl⟩
      exact ⟨h, rfl⟩
  | cons listener rest ih =>
      rcases Host.runListeners_cons_iff.mp hrun with ⟨e₁, v, hfirst, hrest⟩
      have hkept := hhost.runListener hD h hfirst
      have hothers := ih hkept.1 hrest
      exact ⟨hothers.1, hothers.2.trans hkept.2.1⟩

/-- An operation may hold on to a node. -/
theorem pin_node (hD : D.Lawful) (h : Kept D P Q w) (n : NodeId) :
    Kept D P Q { w with pins := [.node n] ++ w.pins } :=
  h.pin hD.toOfView fun o ho => absurd (List.mem_singleton.mp ho) (by
    simp only [reduceCtorEq, not_false_eq_true])

/-- An event at a node, and then above it. -/
theorem climb_succ (hD : D.Lawful) {limit : Nat} {n : NodeId}
    (hnode : ∀ {e₁ v}, host.runListeners (w.listenersOf n e.kind) { e with current := some n }
      { w with pins := [.node n] ++ w.pins } = some (e₁, v) →
        Kept D P Q v ∧ v.pins = [.node n] ++ w.pins)
    (habove : ∀ {m e e' u u'}, Kept D P Q u → host.climb limit m e u = some (e', u') →
      Kept D P Q u' ∧ u'.pins = u.pins)
    (hrun : host.climb (limit + 1) n e w = some (e', w')) :
    Kept D P Q w' ∧ w'.pins = w.pins := by
  rcases Host.climb_cases hrun with ⟨e₁, v, hhere, hrun⟩
  rcases hnode hhere with ⟨hkept, hpins⟩
  have hturn : Kept D P Q { v with pins := w.pins } := hkept.unpin hD.toOfView hpins
  rcases hrun with ⟨_, _, rfl⟩ | ⟨_, _, _, rfl⟩ | ⟨_, parent, _, hrun⟩
  · exact ⟨hturn, rfl⟩
  · exact ⟨hturn, rfl⟩
  · exact habove (u := { v with pins := w.pins }) hturn hrun

/-- An event on its way up keeps everybody up to date. -/
theorem climb (hhost : Serves D host) (hD : D.Lawful) {limit : Nat} {n : NodeId}
    (h : Kept D P Q w) (hrun : host.climb limit n e w = some (e', w')) :
    Kept D P Q w' ∧ w'.pins = w.pins := by
  induction limit generalizing n w w' e e' with
  | zero => exact (Host.climb_zero_eq_some_iff.mp hrun).elim
  | succ limit ih =>
      refine climb_succ hD (fun hhere => ?_) (fun hkept hup => ih hkept hup) hrun
      exact hhost.runListeners hD (pin_node hD h n) hhere

/-- Dispatching an event keeps everybody up to date. -/
theorem dispatch (hhost : Serves D host) (hD : D.Lawful) {n : NodeId} (h : Kept D P Q w)
    (hrun : host.dispatch n e w = some (e', w')) : Kept D P Q w' ∧ w'.pins = w.pins := by
  rcases Host.dispatch_eq_some_iff.mp hrun with ⟨e₁, v, hclimb, _, rfl⟩
  rcases hhost.climb hD (pin_node hD h n) hclimb with ⟨hkept, hpins⟩
  exact ⟨hkept.unpin hD.toOfView hpins, rfl⟩

/-- Writing back what has been entered into a form field freshens its watcher. -/
theorem writeBack (hhost : Serves D host) (hD : D.Lawful) (hreads : D.ReadsFields)
    {s : SubscriberId} {wt : Watcher (Code ν)} {n : NodeId} (h : Kept D [] (s :: Q) w)
    (hs : w.subscriber? s = some (.watcher wt)) (heffect : wt.effect = .render (.field n))
    (hcurrent : e.current = some n)
    (hrun : host.runListener (.writeBack wt.root wt.path) e w = some (e', w')) :
    Kept D [] Q w' := by
  rcases writeBack_cases hrun with ⟨_, ⟨rfl, hnot⟩ | ⟨m, result, v, hm, halive, hset, rfl⟩⟩
  · refine h.freshen fun wt' d hs' halive _ => ?_
    rw [World.watcher_unique hs hs'] at halive
    rw [hcurrent] at hnot
    exact absurd (hnot halive) (by simp only [reduceCtorEq, not_false_eq_true])
  · rw [hcurrent] at hm
    injection hm with hm
    subst hm
    have hpinned := h.pinObject hD.toOfView halive
    have hway := w.path_pins (.object wt.root :: w.pins) wt.root wt.path
    -- As long as nothing is written, the field shows what it holds or there is no value.
    have hsame : (∀ d, w.pathValue? wt.root wt.path = some d →
        d = .plain (.string (w.node n).value)) → Kept D [] Q w := by
      intro hvalue
      refine h.freshen fun wt' d hs' _ hd => ?_
      rw [World.watcher_unique hs hs'] at hd ⊢
      rw [heffect, hvalue d hd]
      exact hreads w s n
    rcases hhost.setPath (w := { w with pins := .object wt.root :: w.pins }) hD hpinned
        (fun x hx => absurd hx (by simp only [reduceCtorEq, not_false_eq_true]))
        (World.alive_of_mem_pins List.mem_cons_self) hset with
      ⟨rfl, _, hvalue⟩ | ⟨rfl, _, old, hvalue, hold⟩ | ⟨_, hpins, field, p, hfield, hp, hkept⟩
    · rw [hway.1] at hvalue
      refine hsame fun d hd => ?_
      rw [hvalue] at hd
      exact absurd hd (by simp only [reduceCtorEq, not_false_eq_true])
    · rw [hway.1] at hvalue
      refine hsame fun d hd => ?_
      rw [hvalue] at hd
      injection hd with hd
      rw [← hd]
      exact Data.eq_of_same_string hold
    · have hpins' : v.pins = [.object wt.root] ++ w.pins := hpins
      refine (hkept.unpin hD.toOfView hpins').mono (List.Subset.refl []) ?_
      intro t ht
      rw [List.mem_filter] at ht
      rcases List.mem_cons.mp ht.1 with rfl | hmem
      · -- The watcher is registered on its way, so the write has updated it.
        have halive' : World.alive { w with pins := [.object wt.root] ++ w.pins }
            (.object wt.root) = true := World.alive_of_mem_pins List.mem_cons_self
        rcases hpinned.registered t wt hs List.not_mem_nil halive' field hfield with
          ⟨q, hq, hcontains⟩
        have hpq : some p = some q := hp.symm.trans hq
        injection hpq with hpq
        rw [hpq, hcontains] at ht
        exact absurd ht.2 (by simp only [Bool.not_true, Bool.false_eq_true, not_false_eq_true])
      · exact hmem

end Serves

/-! ### Entering text -/

section Input

variable {v : ClientWorld ν τ} {first : SubscriberId → Rendering → Prop} {s : SubscriberId}
  {wt : Watcher (Code ν)} {n : NodeId}

theorem Display.readsFields_lasting (v : ClientWorld ν τ)
    (first : SubscriberId → Rendering → Prop) : (Display.lasting v first).ReadsFields := by
  intro w s n value hvalue _
  injection hvalue with hvalue
  rw [← hvalue]
  rfl

namespace World

/-- Entering text changes nothing about a node but what it holds. -/
theorem parts_setValue (w : ClientWorld ν τ) (n : NodeId) (text : String) (m : NodeId) :
    ((w.setValue n text).node m).kind = (w.node m).kind ∧
      ((w.setValue n text).node m).attributes = (w.node m).attributes ∧
      ((w.setValue n text).node m).children = (w.node m).children ∧
      ((w.setValue n text).node m).listeners = (w.node m).listeners := by
  rw [setValue, node_updateNode]
  split
  · exact ⟨rfl, rfl, rfl, rfl⟩
  · exact ⟨rfl, rfl, rfl, rfl⟩

/-- A view that lasts does so when text is entered. -/
theorem Lasts.setValue (h : v.Lasts w) (n : NodeId) (text : String) :
    v.Lasts (w.setValue n text) where
  renderers := h.renderers
  placed s r hs := by
    rw [(w.parts_setValue n text r.target).1, World.setValue, size_nodes_updateNode]
    exact h.placed s r hs
  heard {s wt m} hs heffect := by
    rw [(w.parts_setValue n text m).2.2.2]
    exact h.heard hs heffect

end World

/-- Entering text into a form field leaves its own watcher behind, if it is the only one, and
    no others. -/
theorem kept_setValue (h : Kept (Display.lasting v first) [] [] w) (n : NodeId) (text : String) :
    Kept (Display.lasting v first) [] [] (w.setValue n text) ∨
      ∃ s wt, w.subscriber? s = some (.watcher wt) ∧ wt.effect = .render (.field n) ∧
        Kept (Display.lasting v first) [] [s] (w.setValue n text) := by
  have hkept : ∀ Q, (∀ s wt, w.subscriber? s = some (.watcher wt) →
      wt.effect = .render (.field n) → w.Sole s (.field n) → s ∈ Q) →
      Kept (Display.lasting v first) [] Q (w.setValue n text) := by
    intro Q hQ
    refine (h.mono (List.Subset.refl []) (List.nil_subset Q)).of_objects rfl rfl rfl
      (fun o _ hrooted => World.alive_of_rooted hrooted) ?_ (h.sound.setValue n text)
    intro s wt d hs _ hsQ hd
    refine hd.imp rfl fun r heffect hshows value hvalue hsole => ?_
    have hsole : w.Sole s r := hsole
    refine (hshows value hvalue hsole).frame ?_ ?_ ?_ ?_ ?_
    · exact Nat.le_of_eq (World.size_nodes_updateNode w n _).symm
    · exact fun _ => (w.parts_setValue n text r.target).1
    · intro hr
      cases r with
      | field m =>
          rw [World.setValue, World.node_updateNode_of_ne]
          rintro rfl
          exact hsQ (hQ s wt hs heffect hsole)
      | _ => exact absurd hr (by simp only [Rendering.aspect, reduceCtorEq,
          not_false_eq_true])
    · exact fun _ => (w.parts_setValue n text r.target).2.2.1
    · intro c _ _ hquiet _
      rcases w.parts_setValue n text c with ⟨hkind, hattributes, hchildren, _⟩
      exact ⟨⟨hquiet, trivial⟩, hkind, hattributes, hchildren⟩
  by_cases hsole : ∃ s wt, w.subscriber? s = some (.watcher wt) ∧
      wt.effect = .render (.field n) ∧ w.Sole s (.field n)
  · rcases hsole with ⟨s, wt, hs, heffect, hsole⟩
    refine Or.inr ⟨s, wt, hs, heffect, hkept [s] fun t wt' ht heffect' _ => ?_⟩
    rw [hsole t (.field n) ⟨wt', ht, heffect'⟩ rfl rfl]
    exact List.mem_cons_self
  · exact Or.inl (hkept [] fun s wt hs heffect hs' => absurd ⟨s, wt, hs, heffect, hs'⟩ hsole)

namespace Serves

/-- After all listeners at a form field have run, its watcher is not stale any more. -/
theorem runListeners_fresh (hhost : Serves (Display.lasting v first) host)
    {listeners : List (Listener (Code ν))} (hs : v.subscriber? s = some (.watcher wt))
    (heffect : wt.effect = .render (.field n)) (hmem : .writeBack wt.root wt.path ∈ listeners)
    (h : Kept (Display.lasting v first) [] [s] w) (hcurrent : e.current = some n)
    (hrun : host.runListeners listeners e w = some (e', w')) :
    Kept (Display.lasting v first) [] [] w' ∧ w'.pins = w.pins := by
  have hD := Display.lawful_lasting v first
  induction listeners generalizing w e with
  | nil => exact absurd hmem List.not_mem_nil
  | cons listener rest ih =>
      rcases Host.runListeners_cons_iff.mp hrun with ⟨e₁, w₁, hfirst, hrest⟩
      have hkept := hhost.runListener hD h hfirst
      rcases List.mem_cons.mp hmem with rfl | hmem
      · have hs' : w.subscriber? s = some (.watcher wt) := (h.sound.renderers heffect).mpr hs
        have hfresh := hhost.writeBack hD (Display.readsFields_lasting v first) h hs' heffect
          hcurrent hfirst
        have hothers := hhost.runListeners hD hfresh hrest
        exact ⟨hothers.1, hothers.2.trans hkept.2.1⟩
      · have hothers := ih hmem hkept.1 (hkept.2.2.trans hcurrent) hrest
        exact ⟨hothers.1, hothers.2.trans hkept.2.1⟩

/-- Entering text into a form field keeps everybody up to date. -/
theorem input (hhost : Serves (Display.lasting v first) host) {text : String}
    (h : Kept (Display.lasting v first) [] [] w)
    (hrun : host.input n text w = some (e', w')) :
    Kept (Display.lasting v first) [] [] w' ∧ w'.pins = w.pins := by
  have hD := Display.lawful_lasting v first
  rw [Host.input_eq_some_iff] at hrun
  rcases kept_setValue h n text with hkept | ⟨s, wt, hs, heffect, hkept⟩
  · exact hhost.dispatch (w := w.setValue n text) hD hkept hrun
  · have hs' : v.subscriber? s = some (.watcher wt) := (h.sound.renderers heffect).mp hs
    rcases Host.dispatch_eq_some_iff.mp hrun with ⟨e₁, w₁, hclimb, _, rfl⟩
    -- The first node that the event reaches is the form field.
    cases hlimit : host.patience with
    | zero =>
        rw [hlimit] at hclimb
        exact (Host.climb_zero_eq_some_iff.mp hclimb).elim
    | succ limit =>
        rw [hlimit] at hclimb
        have hpinned := pin_node hD hkept n
        have hpinnedSubscriber : World.subscriber?
            { w.setValue n text with pins := [.node n] ++ w.pins } s = some (.watcher wt) := hs
        have hheard := hpinned.sound.heard hpinnedSubscriber heffect
        have hclimbed := climb_succ (w := { w.setValue n text with pins := [.node n] ++ w.pins })
          hD (fun hhere => by
            refine hhost.runListeners_fresh hs' heffect ?_ (pin_node hD hpinned n) rfl hhere
            refine List.mem_map.mpr ⟨_, List.mem_filter.mpr ⟨hheard, ?_⟩, rfl⟩
            exact beq_self_eq_true "input")
          (fun hkept hup => hhost.climb hD hkept hup) hclimb
        exact ⟨hclimbed.1.unpin hD.toOfView hclimbed.2, rfl⟩

end Serves

end Input

end LiveTemplate
