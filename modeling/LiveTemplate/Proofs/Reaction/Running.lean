import LiveTemplate.Reaction.Host

/-!
# Taking Runs Apart

What the parts of a run have done, if the run has come to an end.

A run is a function to results that may be missing. Statements about runs assume a
result and go through the parts of the run one after the other; the equivalences
here give each part's own result.

## Theorems

* `bind_eq_some_iff`: A run in two parts.
* `bind_of_eq_some`: Going on with a result.
* `pinned_eq_some_iff`: A run during which things are held on to.
-/

namespace LiveTemplate

namespace Run

variable {κ σ α β : Type} {w w' : World κ σ}

@[simp]
theorem bind_eq_some_iff {run : Run κ σ α} {next : α → Run κ σ β} {b : β} :
    (run >>= next) w = some (b, w') ↔
      ∃ a v, run w = some (a, v) ∧ next a v = some (b, w') := by
  simp only [bind, StateT.bind, Option.bind_eq_some_iff, Prod.exists]

/-- When the first part has a result, the run goes on with it. -/
theorem bind_of_eq_some {run : Run κ σ α} {next : α → Run κ σ β} {a : α}
    (h : run w = some (a, w')) : (run >>= next) w = next a w' := by
  simp only [bind, StateT.bind, h, Option.bind_some]

theorem get_eq (w : World κ σ) : (get : Run κ σ (World κ σ)) w = some (w, w) :=
  rfl

@[simp]
theorem pure_eq_some_iff {a b : α} :
    (pure a : Run κ σ α) w = some (b, w') ↔ a = b ∧ w = w' := by
  change some (a, w) = some (b, w') ↔ _
  rw [Option.some.injEq, Prod.mk.injEq]

@[simp]
theorem get_eq_some_iff {v : World κ σ} :
    (get : Run κ σ (World κ σ)) w = some (v, w') ↔ w = v ∧ w = w' := by
  simp only [get, getThe, MonadStateOf.get, StateT.get, pure, Option.some.injEq, Prod.mk.injEq]

@[simp]
theorem change_eq_some_iff {f : World κ σ → World κ σ} {u : Unit} :
    change f w = some (u, w') ↔ f w = w' := by
  simp only [change, Option.some.injEq, Prod.mk.injEq, true_and]

@[simp]
theorem apply_eq_some_iff {f : World κ σ → α × World κ σ} {a : α} :
    apply f w = some (a, w') ↔ f w = (a, w') := by
  simp only [apply, Option.some.injEq]

@[simp]
theorem ofOption_eq_some_iff {a? : Option α} {a : α} :
    (ofOption a? : Run κ σ α) w = some (a, w') ↔ a? = some a ∧ w = w' := by
  simp only [ofOption, Option.map_eq_some_iff, Prod.mk.injEq]
  constructor
  · rintro ⟨b, hb, rfl, hw⟩
    exact ⟨hb, hw⟩
  · rintro ⟨ha, hw⟩
    exact ⟨a, ha, rfl, hw⟩

@[simp]
theorem stuck_eq_some_iff {a : α} : (stuck : Run κ σ α) w = some (a, w') ↔ False := by
  simp only [stuck, reduceCtorEq]

/-- A run during which things are held on to ends where the run ends, without the pins. -/
@[simp]
theorem pinned_eq_some_iff {handles : List Handle} {run : Run κ σ α} {a : α} :
    pinned handles run w = some (a, w') ↔
      ∃ v, run { w with pins := handles ++ w.pins } = some (a, v) ∧
        { v with pins := w.pins } = w' := by
  simp only [pinned, Option.map_eq_some_iff, Prod.exists, Prod.mk.injEq]
  constructor
  · rintro ⟨b, v, hrun, rfl, hw⟩
    exact ⟨v, hrun, hw⟩
  · rintro ⟨v, hrun, hw⟩
    exact ⟨a, v, hrun, rfl, hw⟩

/-- What has come of a run that comes to an end, from its result and the world afterwards. -/
theorem eq_some_of_fst {outcome : Option (α × World κ σ)} (h : outcome.isSome = true) {a : α}
    (ha : (outcome.get h).1 = a) : outcome = some (a, (outcome.get h).2) := by
  rw [← ha]
  exact (Option.some_get h).symm

end Run

end LiveTemplate
