import LiveTemplate.Proofs.Reaction.Commands

/-!
# No Update Is Lost

After any run of client programs every watcher whose root is alive is up to date.

The client begins with an empty world and runs one program after the other. Objects
come to be shared and to hold themselves, callbacks write what they like and create
watchers, and the writes nest. At the end of each program, if it comes to an end, the
watchers are registered on their ways, and each of them has read the value that its
path leads to last, if there is one.

The world has no view here. The invariant allows for one, so the view's part of it is
that no watcher renders anything.

## Main definitions

* `World.start`: The world of a client that has done nothing yet.
* `Display.blank`: A view in which nothing is rendered.

## Theorems

* `Program.upToDate_of_runAll`: After any run every watcher is up to date.
-/

namespace LiveTemplate

variable {ν τ : Type}

/-- The world of a client that has done nothing yet. -/
def World.start (ν : Type) {τ : Type} (memory : τ) : ClientWorld ν τ :=
  { client := { memory } }

namespace Display

/-- A view in which nothing is rendered. -/
def blank : Display ν τ where
  shows _ _ _ _ := True
  sound w := ∀ s wt r, w.subscriber? s = some (.watcher wt) → wt.effect ≠ .render r

theorem lawful_blank : (blank : Display ν τ).Lawful where
  shows _ _ := trivial
  sound hview hblank s wt r hs hr := hblank s wt r ((hview.renderers hr).mp hs) hr
  render_sound _ hblank hs hr := absurd hr (hblank _ _ _ hs)
  render_shows _ _ _ _ := trivial
  render_other _ _ _ _ _ _ _ _ := trivial

end Display

theorem subscriber?_start (memory : τ) (s : SubscriberId) :
    (World.start ν memory).subscriber? s = none :=
  rfl

theorem World.orderly_start (memory : τ) : (World.start ν memory).Orderly := by
  intro place r hr
  cases place with
  | own r' => cases hr
  | field o key => cases hr

/-- In the beginning there is nothing to keep up to date. -/
theorem kept_start (D : Display ν τ) (memory : τ) (hsound : D.sound (World.start ν memory)) :
    Kept D [] [] (World.start ν memory) := by
  have hnothing : ∀ o key, (World.start ν memory).property? o key = none := fun _ _ => rfl
  refine ⟨?_, ?_, ?_, ?_, World.orderly_start memory, ?_, hsound⟩
  · intro o _ key p x hp
    rw [hnothing] at hp
    exact absurd hp (by simp only [reduceCtorEq, not_false_eq_true])
  all_goals
    intro s wt
    intros
    have hs : (World.start ν memory).subscriber? s = some (.watcher wt) := ‹_›
    rw [subscriber?_start] at hs
    exact absurd hs (by simp only [reduceCtorEq, not_false_eq_true])

namespace Program

/-- After any run every watcher whose root is alive is registered with each field on its way
    that can be reached, and if its path leads to a value, this is the value that it has read
    last. -/
theorem upToDate_of_runAll (code : ν → Signal → Program ν τ) {patience depth : Nat}
    {memory : τ} {session : List (Program ν τ)} {w : ClientWorld ν τ}
    (hrun : runAll ((behaviour code).host patience depth) session (World.start ν memory) =
      some ((), w))
    {s : SubscriberId} {wt : Watcher (Code ν)} (hs : w.subscriber? s = some (.watcher wt))
    (halive : w.alive (.object wt.root) = true) :
    w.RegisteredAt s (w.pathFields wt.root wt.path) ∧
      ∀ value, w.getPath wt.root wt.path = .ok value → w.client.shown s = some value := by
  have hD : (Display.blank : Display ν τ).Lawful := Display.lawful_blank
  have hstart := kept_start (Display.blank : Display ν τ) memory fun s wt r hs =>
    absurd (subscriber?_start memory s) (by rw [hs]; exact Option.some_ne_none _)
  have hkept := (runAll_kept (serves_host hD code patience depth) hD hstart hrun).1
  refine ⟨hkept.registered s wt hs List.not_mem_nil halive, fun value hvalue => ?_⟩
  have hshown := hkept.shown s wt value hs List.not_mem_nil List.not_mem_nil halive
    ((w.getPath_eq_ok_iff _ _ _).mp hvalue)
  cases heffect : wt.effect with
  | render r => exact absurd heffect (hkept.sound s wt r hs)
  | call c =>
      rw [heffect] at hshown
      exact hshown

/-- A callback that passes on what it is called with, and one that does nothing. -/
def relay : Bool → Signal → Program Bool Unit
  | true, .changed value => .ask (.set ⟨1⟩ "copy" (.shared value)) fun _ => .done
  | _, _ => .done

/-- A value inside an object is watched and passed on to a property that is watched as well.
    Then the object is replaced. -/
def relayed : List (Program Bool Unit) :=
  [.ask (.observe (.object [("inner", .object [("text", .string "a")]), ("copy", .null)]))
      fun _ => .done,
    .ask (.watch ⟨1⟩ "inner.text" true) fun _ => .done,
    .ask (.watch ⟨1⟩ "copy" false) fun _ => .done,
    .ask (.set ⟨1⟩ "inner" (.literal (.json (.object [("text", .string "b")]))))
      fun _ => .done]

/-- A run that comes to an end ends in some world. -/
theorem eq_some_get {run : Option (Unit × ClientWorld ν τ)} (h : run.isSome = true) :
    run = some ((), (run.get h).2) :=
  Run.eq_some_of_fst h rfl

theorem isSome_relayed : (runAll ((behaviour relay).host 0 2) relayed
    (World.start Bool ())).isSome = true := by
  decide +kernel

/-- The world afterwards. -/
def relayedWorld : ClientWorld Bool Unit :=
  ((runAll ((behaviour relay).host 0 2) relayed (World.start Bool ())).get isSome_relayed).2

theorem upToDate_of_runAll_relayed :
    runAll ((behaviour relay).host 0 2) relayed (World.start Bool ()) =
        some ((), relayedWorld) ∧
      relayedWorld.getPath ⟨1⟩ "copy" = .ok (.plain (.string "b")) ∧
      relayedWorld.client.shown ⟨1⟩ = some (.plain (.string "b")) := by
  have hrun : runAll ((behaviour relay).host 0 2) relayed (World.start Bool ()) =
      some ((), relayedWorld) := eq_some_get isSome_relayed
  have hs : relayedWorld.subscriber? ⟨1⟩ =
      some (.watcher ⟨⟨1⟩, "copy", .call (.watching ⟨1⟩ false)⟩) := by decide +kernel
  have halive : relayedWorld.alive (.object ⟨1⟩) = true := by decide +kernel
  have hvalue : relayedWorld.getPath ⟨1⟩ "copy" = .ok (.plain (.string "b")) := by decide +kernel
  exact ⟨hrun, hvalue, (upToDate_of_runAll relay hrun hs halive).2 _ hvalue⟩

end Program

end LiveTemplate
