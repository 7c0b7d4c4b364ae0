import LiveTemplate.Proofs.Binding.Guarding

/-!
# Watchers That Could Not Be Created

What is left of a watcher whose path cannot be followed.

A watcher registers with each property on its way as it reads it, and the properties that
it has come by keep it when the way ends too early. Nobody ever leaves a registry, so
the watcher stays, although its client has never got it. It does what any other watcher
does: when one of these properties changes it follows its path anew, and calls back if
that leads to a value by then. If not even the first property of the path is there,
nothing has been registered, and since no object gets new properties nothing ever will be.

A new callback belongs to its watcher alone, since no callback bears the name of a
watcher that is not there yet, and whoever is created later has one of its own. Both are
invariants of all events, so they decide which calls are made.

## Main definitions

* `World.Ignores`: Nobody calls the callback.
* `World.Attributed`: No callback bears the name of a watcher that is not there yet.
* `World.Reserves`: Only this watcher calls it.

## Main statements

* `World.Reserves.called`: When the callback of a watcher is called.
* `World.Reserves.runAll_eq`: All other calls of it can be refused.
* `watchAs_error_spec`: What a watcher that could not be created leaves behind.
-/

namespace LiveTemplate

variable {ν τ : Type} {w w' : ClientWorld ν τ} {l : Licence τ} {root : ObjectId} {path : String}
  {name : ν} {s : SubscriberId}

namespace World

/-! ### Whose callback it is -/

/-- Nobody who subscribes or listens calls the callback. -/
structure Ignores (w : ClientWorld ν τ) (c : Code ν) : Prop where
  /-- Whoever subscribes calls another one. -/
  subscribers : ∀ t subscriber, w.subscriber? t = some subscriber → subscriber.callback? ≠ some c
  /-- Whoever listens calls another one. -/
  listeners : ∀ n, ∀ entry ∈ (w.node n).listeners, entry.2.callback? ≠ some c

/-- The callbacks that bear the names of watchers bear those of watchers that are there. -/
structure Attributed (w : ClientWorld ν τ) : Prop where
  /-- The ones of those who subscribe. -/
  subscribers : ∀ t subscriber s name, w.subscriber? t = some subscriber →
    subscriber.callback? = some (.watching s name) → s.index < w.subscribers.size
  /-- The ones of those who listen. -/
  listeners : ∀ n, ∀ entry ∈ (w.node n).listeners, ∀ s name,
    entry.2.callback? = some (.watching s name) → s.index < w.subscribers.size

theorem attributed_start (memory : τ) : (start ν memory).Attributed where
  subscribers t subscriber _ _ ht _ :=
    absurd ((subscriber?_start memory t).symm.trans ht) (Option.some_ne_none subscriber).symm
  listeners _ _ hentry := absurd hentry List.not_mem_nil

namespace Attributed

/-- Events attribute callbacks to the watchers that they bring. -/
theorem step (h : w.Attributed) (hstep : w.Happens l w') : w'.Attributed := by
  have hgrown : w.subscribers.size ≤ w'.subscribers.size := by
    rcases hstep.joined with hsame | ⟨_, _, _, _, _, hadded⟩
    · rw [hsame]
    · rw [hadded, Heap.size_add]
      exact Nat.le_succ _
  refine ⟨fun t subscriber s name ht hcallback => ?_, fun n entry hentry s name hcallback => ?_⟩
  · rcases hstep.joined with hsame | ⟨_, _, name', _, _, hadded⟩
    · rw [subscriber?_of_subscribers hsame] at ht
      exact Nat.lt_of_lt_of_le (h.subscribers t subscriber s name ht hcallback) hgrown
    · rw [subscriber?, hadded, Heap.get?_add] at ht
      split at ht
      · cases ht
        injection hcallback with hcallback
        injection hcallback with hwatcher
        rw [← hwatcher, hadded, Heap.size_add]
        exact Nat.lt_succ_self _
      · exact Nat.lt_of_lt_of_le (h.subscribers t subscriber s name ht hcallback) hgrown
  · rw [hstep.sameListeners.listeners n] at hentry
    exact Nat.lt_of_lt_of_le (h.listeners n entry hentry s name hcallback) hgrown

/-- Nobody calls the callback of the watcher that comes next. -/
theorem ignores (h : w.Attributed) (name : ν) :
    w.Ignores (.watching ⟨w.subscribers.size⟩ name) where
  subscribers t subscriber ht hcallback :=
    absurd (h.subscribers t subscriber _ name ht hcallback) (Nat.lt_irrefl _)
  listeners n entry hentry hcallback :=
    absurd (h.listeners n entry hentry _ name hcallback) (Nat.lt_irrefl _)

end Attributed

/-- There is a watcher on a path, and nobody else calls its callback. -/
structure Reserves (w : ClientWorld ν τ) (s : SubscriberId) (root : ObjectId) (path : String)
    (name : ν) : Prop where
  /-- The watcher is there. -/
  own : w.subscriber? s = some (.watcher ⟨root, path, .call (.watching s name)⟩)
  /-- Whoever else subscribes calls another callback. -/
  subscribers : ∀ t subscriber, w.subscriber? t = some subscriber →
    subscriber.callback? = some (.watching s name) → t = s
  /-- Whoever listens calls another callback. -/
  listeners : ∀ n, ∀ entry ∈ (w.node n).listeners,
    entry.2.callback? ≠ some (.watching s name)

namespace Reserves

/-- Events bring nobody who calls the callback. -/
theorem step (h : w.Reserves s root path name) (hstep : w.Happens l w') :
    w'.Reserves s root path name := by
  have hlt := lt_of_subscriber? h.own
  have hadded : w'.subscribers = w.subscribers ∨
      ∃ wt name', w'.subscribers = w.subscribers.add (.watcher wt) ∧
        wt.effect = .call (.watching ⟨w.subscribers.size⟩ name') := by
    rcases hstep.joined with hsame | ⟨root', path', name', _, _, hadded⟩
    · exact Or.inl hsame
    · exact Or.inr ⟨_, name', hadded, rfl⟩
  -- The watcher itself is kept, and whoever is new has another name.
  refine ⟨?_, ?_, fun n => ?_⟩
  · rcases hadded with hsame | ⟨wt, name', hnew, _⟩
    · rw [subscriber?_of_subscribers hsame]
      exact h.own
    · rw [subscriber?, hnew, Heap.get?_add, if_neg (Nat.ne_of_lt hlt)]
      exact h.own
  · intro t subscriber ht hcallback
    rcases hadded with hsame | ⟨wt, name', hnew, heffect⟩
    · rw [subscriber?_of_subscribers hsame] at ht
      exact h.subscribers t subscriber ht hcallback
    · rw [subscriber?, hnew, Heap.get?_add] at ht
      split at ht
      · -- The new watcher's callback bears its own name.
        cases ht
        rcases wt with ⟨_, _, effect⟩
        dsimp only at heffect
        rw [heffect] at hcallback
        injection hcallback with hcallback
        injection hcallback with hwatcher
        rw [← hwatcher] at hlt
        exact absurd hlt (Nat.lt_irrefl _)
      · exact h.subscribers t subscriber ht hcallback
  · rw [hstep.sameListeners.listeners n]
    exact h.listeners n

/-- The callback is called with the value to which the path leads, while the object is there. -/
theorem called (h : w.Reserves s root path name) {signal : Signal}
    (hcalls : w.Calls (.watching s name) signal) :
    ∃ d, signal = .changed d ∧ w.alive (.object root) = true ∧ w.pathValue? root path = some d := by
  cases hcalls with
  | @watcher t wt _ d hs heffect halive hvalue =>
      rcases wt with ⟨root', path', effect⟩
      dsimp only at heffect
      subst heffect
      have ht := h.subscribers t _ hs rfl
      subst ht
      have hsame := hs.symm.trans h.own
      simp only [Option.some.injEq, Subscriber.watcher.injEq, Watcher.mk.injEq, and_true] at hsame
      rcases hsame with ⟨rfl, rfl⟩
      exact ⟨d, rfl, halive, hvalue⟩
  | @probe t _ hs =>
      have ht := h.subscribers t _ hs rfl
      subst ht
      exact nomatch hs.symm.trans h.own
  | @listener n entry _ signal hentry hc => exact absurd hc (h.listeners n entry hentry)

end Reserves

/-! ### Ways that do not begin -/

/-- No field of the path can be read exactly if there is no property for its first segment. -/
theorem pathFields_eq_nil_iff {κ σ : Type} (w : World κ σ) (root : ObjectId) (path : String) :
    w.pathFields root path = [] ↔
      (pathSegments path).1.isEmpty = true ∨ w.property? root (pathSegments path).1 = none := by
  rw [pathFields, segmentsOfPath, trail]
  by_cases hempty : (pathSegments path).1.isEmpty = true
  · simp only [hempty, if_true, true_or]
  · cases hp : w.property? root (pathSegments path).1 with
    | none => simp only [hempty, Bool.false_eq_true, if_false, or_true]
    | some p => simp only [hempty, Bool.false_eq_true, if_false, reduceCtorEq, or_self]

/-- A way that does not begin leads nowhere. -/
theorem pathValue?_eq_none {κ σ : Type} {w : World κ σ} (h : w.pathFields root path = []) :
    w.pathValue? root path = none := by
  rw [pathFields_eq_nil_iff] at h
  rw [pathValue?, segmentsOfPath, follow]
  rcases h with hempty | hnone
  · rw [if_pos hempty]
  · split
    · rfl
    · rw [hnone]

/-- Objects do not get new properties. -/
theorem Happens.property?_eq_none (h : w.Happens l w') (hroot : root.index < w.objects.size)
    {key : String} (hnone : w.property? root key = none) : w'.property? root key = none := by
  have hread : ∀ {v : ClientWorld ν τ} (t : SubscriberId) (fields : List (ObjectId × String)),
      v.property? root key = none → (v.dependAll (some t) fields).property? root key = none := by
    intro v t fields hv
    rw [property?_dependAll, hv]
    rfl
  have hobserved : ∀ value, (observeValue value w).2.property? root key = none := by
    intro value
    rw [property?, (extends_observeValue value w).1.kept root hroot]
    exact hnone
  have hwritten : ∀ {v : ClientWorld ν τ} (o : ObjectId) (key' : String)
      (change : Property → Property), v.property? root key = none →
        (v.updateProperty o key' change).property? root key = none := by
    intro v o key' change hv
    rw [property?_updateProperty]
    split
    · rw [hv]
      rfl
    · exact hv
  cases h with
  | pin | note | remember | enter => exact hnone
  | observe value => exact hobserved value
  | watch path name _ _ =>
      rw [watch_eq]
      exact hread _ _ hnone
  | @follow t wt _ =>
      rw [(w.readPath_spec (some t) wt.root wt.path).1]
      exact hread _ _ hnone
  | assign value _ => exact hwritten _ _ _ (hobserved value)
  | share _ _ _ => exact hwritten _ _ _ hnone
  | «show» _ _ shown =>
      rw [property?_of_objects (w.onlyNodes_render _ _).objects]
      exact hnone

/-- A way that does not begin never does. -/
theorem Happens.pathFields_eq_nil (h : w.Happens l w') (hroot : root.index < w.objects.size)
    (hfields : w.pathFields root path = []) : w'.pathFields root path = [] := by
  rw [pathFields_eq_nil_iff] at hfields ⊢
  exact hfields.imp_right (h.property?_eq_none hroot)

/-! ### What is left -/

/-- Registering somebody changes objects only. -/
theorem dependAll_only (s : SubscriberId) (fields : List (ObjectId × String))
    (w : ClientWorld ν τ) : { w.dependAll (some s) fields with objects := w.objects } = w := by
  have hclient := congrArg (fun j => { w.dependAll (some s) fields with
    objects := w.objects, client := j }) (client_dependAll (some s) fields w)
  exact hclient.trans (dependAll_eq_off (some s) fields w)

/-- A watcher that could not be created is there, and registered on its way. -/
theorem watchAs_error {e : BindingError} (hfail : w.watchAs root path name = (.error e, w')) :
    w' = (w.addSubscriber (.watcher
      ⟨root, path, .call (.watching ⟨w.subscribers.size⟩ name)⟩)).2.dependAll
        (some ⟨w.subscribers.size⟩) (w.pathFields root path) := by
  have hadded := w.watch_eq root path (.call (.watching ⟨w.subscribers.size⟩ name))
  rw [← hadded]
  unfold watchAs firstRead watch at *
  dsimp only at hfail ⊢
  -- Without a first value the watcher is returned by neither reading.
  split at hfail
  · next hread hwatch =>
      split at hwatch
      · next herror =>
          rw [herror] at hread
          exact nomatch hread
      · cases hwatch
        exact nomatch hfail
  · next hwatch =>
      rw [hwatch]
      exact (Prod.mk.inj hfail).2.symm

/-- Its callback is its own. -/
theorem reserves_of_watchAs_error {e : BindingError}
    (hnew : w.Ignores (.watching ⟨w.subscribers.size⟩ name))
    (hfail : w.watchAs root path name = (.error e, w')) :
    w'.Reserves ⟨w.subscribers.size⟩ root path name := by
  have hframe := dependAll_frame (some ⟨w.subscribers.size⟩) (w.pathFields root path)
    (w.addSubscriber (.watcher ⟨root, path, .call (.watching ⟨w.subscribers.size⟩ name)⟩)).2
  rw [← watchAs_error hfail] at hframe
  have hsubscriber : ∀ t, w'.subscriber? t = if t.index = w.subscribers.size then
      some (.watcher ⟨root, path, .call (.watching ⟨w.subscribers.size⟩ name)⟩)
      else w.subscriber? t := by
    intro t
    rw [subscriber?_of_subscribers hframe.2.1, subscriber?_addSubscriber]
  refine ⟨?_, fun t subscriber ht hcallback => ?_, fun n => ?_⟩
  · rw [hsubscriber, if_pos rfl]
  · rw [hsubscriber] at ht
    split at ht
    · next hindex => exact SubscriberId.ext hindex
    · exact absurd hcallback (hnew.subscribers t subscriber ht)
  · rw [node, hframe.1]
    exact hnew.listeners n

namespace Reserves

/-- Whatever is done, no call of the callback is lost by refusing those that are made when the
    object is gone or the path does not lead to the value. -/
theorem runAll_eq (h : w.Reserves s root path name) (code : ν → Signal → Program ν τ)
    (patience depth : Nat) (touches : List (Touch ν τ)) :
    Touch.runAll ((Program.behaviour code).host patience depth) touches w =
      Touch.runAll (((Program.behaviour code).guarded fun v c signal =>
        c = .watching s name → ∃ d, signal = .changed d ∧
          v.alive (.object root) = true ∧ v.pathValue? root path = some d).host
            patience depth) touches w := by
  refine Touch.runAll_guarded (·.Reserves s root path name) (fun h => h.step) ?_ h code patience
    depth touches
  rintro v c signal h hcalls rfl
  exact h.called hcalls

/-- If the path does not begin, no call is lost by refusing them all. -/
theorem runAll_eq_of_pathFields (h : w.Reserves s root path name)
    (hroot : root.index < w.objects.size) (hfields : w.pathFields root path = [])
    (code : ν → Signal → Program ν τ) (patience depth : Nat) (touches : List (Touch ν τ)) :
    Touch.runAll ((Program.behaviour code).host patience depth) touches w =
      Touch.runAll (((Program.behaviour code).guarded fun _ c _ =>
        c ≠ .watching s name).host patience depth) touches w := by
  refine Touch.runAll_guarded (fun v => v.Reserves s root path name ∧
    root.index < v.objects.size ∧ v.pathFields root path = []) ?_ ?_ ⟨h, hroot, hfields⟩ code
      patience depth touches
  · rintro v v' ⟨h, hlt, hnil⟩ hstep
    exact ⟨h.step hstep, Nat.lt_of_lt_of_le hlt hstep.grown, hstep.pathFields_eq_nil hlt hnil⟩
  · -- A call would need a value at the end of a way that does not begin.
    rintro v c signal ⟨h, _, hnil⟩ hcalls rfl
    rcases h.called hcalls with ⟨d, _, _, hvalue⟩
    rw [pathValue?_eq_none hnil] at hvalue
    cases hvalue

end Reserves

end World

/-- A watcher that could not be created leaves itself in the registries of the fields that its
    path comes by, and nothing else has changed. Its callback may be called: whatever is done
    afterwards, it makes no difference to refuse all calls but those while its object is there
    and its path leads to the value that is passed. If its path does not even begin, no
    registry has changed, and it makes no difference to refuse all calls. -/
theorem watchAs_error_spec {e : BindingError} (hroot : root.index < w.objects.size)
    (hnew : w.Ignores (.watching ⟨w.subscribers.size⟩ name))
    (hfail : w.watchAs root path name = (.error e, w')) :
    { w' with objects := w.objects } = (w.addSubscriber (.watcher
        ⟨root, path, .call (.watching ⟨w.subscribers.size⟩ name)⟩)).2 ∧
      (∀ o key, w'.property? o key = (w.property? o key).map fun p =>
        if (o, key) ∈ w.pathFields root path then
          { p with registry := p.registry.add ⟨w.subscribers.size⟩ } else p) ∧
      (∀ (code : ν → Signal → Program ν τ) (patience depth : Nat) (touches : List (Touch ν τ)),
        Touch.runAll ((Program.behaviour code).host patience depth) touches w' =
          Touch.runAll (((Program.behaviour code).guarded fun v c signal =>
            c = .watching ⟨w.subscribers.size⟩ name → ∃ d, signal = .changed d ∧
              v.alive (.object root) = true ∧ v.pathValue? root path = some d).host
                patience depth) touches w') ∧
      (w.pathFields root path = [] → w'.objects = w.objects ∧
        ∀ (code : ν → Signal → Program ν τ) (patience depth : Nat) (touches : List (Touch ν τ)),
          Touch.runAll ((Program.behaviour code).host patience depth) touches w' =
            Touch.runAll (((Program.behaviour code).guarded fun _ c _ =>
              c ≠ .watching ⟨w.subscribers.size⟩ name).host patience depth) touches w') := by
  have hleft := World.watchAs_error hfail
  have hreserves := World.reserves_of_watchAs_error hnew hfail
  refine ⟨?_, fun o key => ?_, hreserves.runAll_eq, fun hfields => ?_⟩
  · rw [hleft]
    exact World.dependAll_only _ _ (w.addSubscriber (.watcher
      ⟨root, path, .call (.watching ⟨w.subscribers.size⟩ name)⟩)).2
  · rw [hleft, World.property?_dependAll]
    rfl
  · have hobjects : w'.objects = w.objects := by
      rw [hleft, hfields]
      rfl
    refine ⟨hobjects, hreserves.runAll_eq_of_pathFields ?_ ?_⟩
    · rw [hobjects]
      exact hroot
    · exact (World.path_of_objects hobjects root path).2.trans hfields

/-- A callback that counts. -/
def counting : Unit → Signal → Program Unit Nat
  | (), _ => .ask (.remember (· + 1)) fun _ => .done

/-- A world with a user, who has a name. -/
def userWorld : ClientWorld Unit Nat :=
  (World.observeValue (.object [("user", .object [("name", .string "a")])])
    (World.start Unit 0)).2.hold [.object ⟨1⟩]

theorem attributed_userWorld : userWorld.Attributed := by
  have hcourse : (World.start Unit 0).Course Licence.any userWorld :=
    .tail (.single (.observe _ _)) (.note _ rfl)
  exact hcourse.keeps World.Attributed (fun h => h.step) (World.attributed_start 0)

theorem size_userWorld : userWorld.subscribers.size = 0 := by
  decide +kernel

theorem isNone_missing :
    (userWorld.watchAs ⟨1⟩ "user.missing" ()).1.toOption.isNone = true := by
  decide +kernel

/-- The world after an attempt to watch something that the user does not have. -/
def missingWorld : ClientWorld Unit Nat :=
  (userWorld.watchAs ⟨1⟩ "user.missing" ()).2

theorem exists_missing :
    ∃ e, userWorld.watchAs ⟨1⟩ "user.missing" () = (.error e, missingWorld) := by
  have hfail := isNone_missing
  unfold missingWorld
  generalize userWorld.watchAs ⟨1⟩ "user.missing" () = watched at hfail
  rcases watched with ⟨e | t, w⟩
  · exact ⟨e, rfl⟩
  · exact nomatch hfail

/-- The client gives the user what the path asks for. -/
def granting : List (Touch Unit Nat) :=
  [.client (.ask (.set ⟨1⟩ "user"
    (.literal (.json (.object [("missing", .number (.int 1))])))) fun _ => .done)]

theorem isSome_granting : (Touch.runAll ((Program.behaviour counting).host 9 9) granting
    missingWorld).isSome = true := by
  decide +kernel

/-- The world in which the user has it. -/
def grantedWorld : ClientWorld Unit Nat :=
  ((Touch.runAll ((Program.behaviour counting).host 9 9) granting missingWorld).get
    isSome_granting).2

/-- A watcher on something that the user does not have is registered with the user. -/
theorem watchAs_error_spec_user :
    (∃ e, userWorld.watchAs ⟨1⟩ "user.missing" () = (.error e, missingWorld)) ∧
      (missingWorld.property? ⟨1⟩ "user").map (·.registry) = some (.ofList [⟨0⟩]) ∧
      Touch.runAll ((Program.behaviour counting).host 9 9) granting missingWorld =
        Touch.runAll (((Program.behaviour counting).guarded fun v c signal =>
          c = .watching ⟨0⟩ () → ∃ d, signal = .changed d ∧ v.alive (.object ⟨1⟩) = true ∧
            v.pathValue? ⟨1⟩ "user.missing" = some d).host 9 9) granting missingWorld := by
  rcases exists_missing with ⟨e, hfail⟩
  have hspec := watchAs_error_spec (by decide +kernel) (attributed_userWorld.ignores ()) hfail
  rw [size_userWorld] at hspec
  refine ⟨⟨e, hfail⟩, ?_, hspec.2.2.1 counting 9 9 granting⟩
  rw [hspec.2.1]
  decide +kernel

/-- The registry of the user has not been as it was before, and when the user gets what the path
    asks for, the callback of the watcher that could not be created is called. -/
theorem watchAs_error_called :
    (∃ e, userWorld.watchAs ⟨1⟩ "user.missing" () = (.error e, missingWorld)) ∧
      (userWorld.property? ⟨1⟩ "user").map (·.registry) = some {} ∧
      (missingWorld.property? ⟨1⟩ "user").map (·.registry) = some (.ofList [⟨0⟩]) ∧
      Touch.runAll ((Program.behaviour counting).host 9 9) granting missingWorld =
        some ((), grantedWorld) ∧ grantedWorld.client.memory = 1 :=
  ⟨exists_missing, by decide +kernel, by decide +kernel, Program.eq_some_get isSome_granting,
    by decide +kernel⟩

end LiveTemplate
