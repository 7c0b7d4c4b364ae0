import LiveTemplate.Binding.Compile
import LiveTemplate.Proofs.Reaction.Running
import LiveTemplate.Proofs.View.Frame

/-!
# Taking the Compilation Apart

What the parts of a compilation have done, if it has come to an end.

## Theorems

* `bind_run_eq_some_iff`, `step_run_eq_some_iff`: Parts that do not end early.
* `bind_run_eq_some_cases`: Parts that may end early with an error.
* `applyDirective_run_cases`: What a directive has done, if it has taken effect.
* `compileSelf_run_cases`, `compileNode_run_iff`: What has been done for a node.
-/

namespace LiveTemplate

namespace Template

variable {κ σ α β : Type} {w w' : World κ σ}

@[simp]
theorem bind_run_eq_some_iff {work : Work κ σ α} {next : α → Work κ σ β} {b : β} :
    (work >>= next).run w = some (.ok b, w') ↔
      ∃ a v, work.run w = some (.ok a, v) ∧ (next a).run v = some (.ok b, w') := by
  rw [ExceptT.run_bind, Run.bind_eq_some_iff]
  constructor
  · rintro ⟨result, v, hwork, hnext⟩
    cases result with
    | ok a => exact ⟨a, v, hwork, hnext⟩
    | error e =>
        rw [Run.pure_eq_some_iff] at hnext
        exact absurd hnext.1 (by simp only [reduceCtorEq, not_false_eq_true])
  · rintro ⟨a, v, hwork, hnext⟩
    exact ⟨.ok a, v, hwork, hnext⟩

/-- Two parts in a row end where the first one fails, or where the second one does. -/
theorem bind_run_eq_some_cases {work : Work κ σ α} {next : α → Work κ σ β}
    {r : Except CompileError β} :
    (work >>= next).run w = some (r, w') ↔
      (∃ e, work.run w = some (.error e, w') ∧ r = .error e) ∨
        ∃ a v, work.run w = some (.ok a, v) ∧ (next a).run v = some (r, w') := by
  rw [ExceptT.run_bind, Run.bind_eq_some_iff]
  constructor
  · rintro ⟨result, v, hwork, hnext⟩
    cases result with
    | ok a => exact Or.inr ⟨a, v, hwork, hnext⟩
    | error e =>
        rw [Run.pure_eq_some_iff] at hnext
        exact Or.inl ⟨e, hnext.2 ▸ hwork, hnext.1.symm⟩
  · rintro (⟨e, hwork, rfl⟩ | ⟨a, v, hwork, hnext⟩)
    · exact ⟨.error e, w', hwork, Run.pure_eq_some_iff.mpr ⟨rfl, rfl⟩⟩
    · exact ⟨.ok a, v, hwork, hnext⟩

@[simp]
theorem pure_run_eq_some_iff {a b : α} :
    (pure a : Work κ σ α).run w = some (.ok b, w') ↔ a = b ∧ w = w' := by
  rw [ExceptT.run_pure, Run.pure_eq_some_iff, Except.ok.injEq]

@[simp]
theorem throw_run_eq_some_iff {e : CompileError} {b : α} :
    (throw e : Work κ σ α).run w = some (.ok b, w') ↔ False := by
  rw [ExceptT.run_throw, Run.pure_eq_some_iff]
  simp only [reduceCtorEq, false_and]

@[simp]
theorem step_run_eq_some_iff {run : Run κ σ α} {a : α} :
    (step run).run w = some (.ok a, w') ↔ run w = some (a, w') := by
  rw [step, ExceptT.run_lift, map_eq_pure_bind, Run.bind_eq_some_iff]
  constructor
  · rintro ⟨b, v, hrun, hb⟩
    rw [Run.pure_eq_some_iff, Except.ok.injEq] at hb
    rw [hrun, hb.1, hb.2]
  · exact fun hrun => ⟨a, w', hrun, Run.pure_eq_some_iff.mpr ⟨rfl, rfl⟩⟩

/-- A run as a part does not end early. -/
theorem step_run_eq_some_cases {run : Run κ σ α} {r : Except CompileError α} :
    (step run).run w = some (r, w') ↔ ∃ a, run w = some (a, w') ∧ r = .ok a := by
  rw [step, ExceptT.run_lift, map_eq_pure_bind, Run.bind_eq_some_iff]
  constructor
  · rintro ⟨a, v, hrun, ha⟩
    rw [Run.pure_eq_some_iff] at ha
    exact ⟨a, ha.2 ▸ hrun, ha.1.symm⟩
  · rintro ⟨a, hrun, rfl⟩
    exact ⟨a, w', hrun, Run.pure_eq_some_iff.mpr ⟨rfl, rfl⟩⟩

theorem get_bind_run {next : World κ σ → Work κ σ α} :
    (step get >>= next).run w = (next w).run w :=
  rfl

theorem throw_run_eq_some_cases {e : CompileError} {r : Except CompileError α} :
    (throw e : Work κ σ α).run w = some (r, w') ↔ r = .error e ∧ w' = w := by
  rw [ExceptT.run_throw, Run.pure_eq_some_iff]
  exact ⟨fun h => ⟨h.1.symm, h.2.symm⟩, fun h => ⟨h.1.symm, h.2.symm⟩⟩

theorem pure_run_eq_some_cases {a : α} {r : Except CompileError α} :
    (pure a : Work κ σ α).run w = some (r, w') ↔ r = .ok a ∧ w' = w := by
  rw [ExceptT.run_pure, Run.pure_eq_some_iff]
  exact ⟨fun h => ⟨h.1.symm, h.2.symm⟩, fun h => ⟨h.1.symm, h.2.symm⟩⟩

/-- A fold whose steps all come to an end without an error. -/
theorem foldlM_cons_run_eq_some_iff {f : β → α → Work κ σ β} {a : α} {as : List α} {b c : β} :
    ((a :: as).foldlM f b).run w = some (.ok c, w') ↔
      ∃ b' v, (f b a).run w = some (.ok b', v) ∧ (as.foldlM f b').run v = some (.ok c, w') := by
  rw [List.foldlM_cons, bind_run_eq_some_iff]

section Directives

variable {ν τ : Type} {t : Template (Code ν)} {v v' : ClientWorld ν τ} {n : NodeId}
  {d : Directive} {stats stats' : CompileStats}

/-- The journal takes no note of diagnostics. -/
theorem note_run_iff {diagnostic : Diagnostic} {u : Unit} :
    (note diagnostic : Work (Code ν) (Journal τ) Unit).run v = some (.ok u, v') ↔ v = v' := by
  rw [note, step_run_eq_some_iff, Run.notice, Run.change_eq_some_iff]
  exact Iff.rfl

theorem bindDirective_run_iff {r : Rendering} :
    (t.bindDirective d r stats).run v = some (.ok stats', v') ↔
      (t.bindValue d.name d.expression r).run v = some (.ok (), v') ∧
        { stats with watchers := stats.watchers + 1 } = stats' := by
  simp only [bindDirective, bind_run_eq_some_iff, note_run_iff, pure_run_eq_some_iff]
  constructor
  · rintro ⟨_, _, hbind, _, _, rfl, hstats, rfl⟩
    exact ⟨hbind, hstats⟩
  · rintro ⟨hbind, hstats⟩
    exact ⟨(), v', hbind, (), v', rfl, hstats, rfl⟩

/-- A directive for an event adds a listener if the event has a name. -/
theorem bindEvent_run_iff {event : String} {modifiers : Modifiers} :
    (t.bindEvent n d event modifiers stats).run v = some (.ok stats', v') ↔
      event.isEmpty = true ∧ { stats with ignored := stats.ignored + 1 } = stats' ∧ v = v' ∨
        event.isEmpty = false ∧ ∃ method, Table.find? d.expression t.methods = some method ∧
          { stats with listeners := stats.listeners + 1 } = stats' ∧
          v.listen n event (.handle t.data method modifiers) = v' := by
  rw [bindEvent]
  cases hevent : event.isEmpty with
  | true =>
      simp only [if_true, bind_run_eq_some_iff, note_run_iff, pure_run_eq_some_iff, true_and,
        Bool.true_eq_false, false_and, or_false]
      constructor
      · rintro ⟨_, _, rfl, hstats⟩
        exact hstats
      · exact fun hstats => ⟨(), v, rfl, hstats⟩
  | false =>
      simp only [Bool.false_eq_true, if_false, false_and, true_and, false_or]
      cases Table.find? d.expression t.methods with
      | none => simp only [throw_run_eq_some_iff, reduceCtorEq, false_and, exists_false]
      | some method =>
          simp only [bind_run_eq_some_iff, step_run_eq_some_iff, Run.change_eq_some_iff,
            note_run_iff, pure_run_eq_some_iff, Option.some.injEq]
          constructor
          · rintro ⟨_, _, hlisten, _, _, rfl, hstats, rfl⟩
            exact ⟨method, rfl, hstats, hlisten⟩
          · rintro ⟨_, rfl, hstats, hlisten⟩
            exact ⟨(), v', hlisten, (), v', rfl, hstats, rfl⟩

/-- What a directive has done, if it has taken effect: it has bound a value beneath its element
    or in a form field, which listens for input then, it listens for an event, or it is one that
    does nothing. -/
theorem applyDirective_run_cases
    (hrun : (t.applyDirective n stats d).run v = some (.ok stats', v')) :
    (∃ r, (d.kind = .text ∧ r = .text n ∨ d.kind = .html ∧ r = .markup n) ∧
        (t.bindValue d.name d.expression r).run v = some (.ok (), v')) ∨
      (d.kind = .model ∧ ∃ u,
        (t.bindValue d.name d.expression (.field n)).run v = some (.ok (), u) ∧
        v' = u.listen n "input" (.writeBack t.data d.expression)) ∨
      (∃ event modifiers method, d.kind = .on event modifiers ∧
        Table.find? d.expression t.methods = some method ∧
        v' = v.listen n event (.handle t.data method modifiers)) ∨
      ((∃ event modifiers, d.kind = .on event modifiers ∧ event.isEmpty = true) ∨
        ∃ name, d.kind = .unknown name) ∧ v' = v := by
  rw [applyDirective] at hrun
  cases hkind : d.kind with
  | text =>
      rw [hkind] at hrun
      exact .inl ⟨_, .inl ⟨rfl, rfl⟩, (bindDirective_run_iff.mp hrun).1⟩
  | html =>
      rw [hkind] at hrun
      exact .inl ⟨_, .inr ⟨rfl, rfl⟩, (bindDirective_run_iff.mp hrun).1⟩
  | model =>
      rw [hkind] at hrun
      simp only [bind_run_eq_some_iff, step_run_eq_some_iff, Run.change_eq_some_iff,
        pure_run_eq_some_iff] at hrun
      rcases hrun with ⟨_, u, hbind, _, _, rfl, _, rfl⟩
      exact .inr (.inl ⟨rfl, u, (bindDirective_run_iff.mp hbind).1, rfl⟩)
  | on event modifiers =>
      rw [hkind] at hrun
      rcases bindEvent_run_iff.mp hrun with ⟨hevent, _, rfl⟩ | ⟨_, method, hmethod, _, rfl⟩
      · exact .inr (.inr (.inr ⟨.inl ⟨event, modifiers, rfl, hevent⟩, rfl⟩))
      · exact .inr (.inr (.inl ⟨event, modifiers, method, rfl, hmethod, rfl⟩))
  | unknown name =>
      rw [hkind] at hrun
      simp only [bind_run_eq_some_iff, note_run_iff, pure_run_eq_some_iff] at hrun
      rcases hrun with ⟨_, _, rfl, _, rfl⟩
      exact .inr (.inr (.inr ⟨.inr ⟨name, rfl⟩, rfl⟩))

/-! ### Nodes -/

/-- What has been done for a node itself: the expression of a text has been bound, or the
    directives of an element have taken effect, one after the other. -/
theorem compileSelf_run_cases (hrun : (t.compileSelf n stats).run v = some (.ok stats', v')) :
    (∃ content, (v.node n).kind = .text content ∧
        (t.bindText n content stats).run v = some (.ok stats', v')) ∨
      (∃ content, (v.node n).kind = .comment content ∧ stats' = stats ∧ v' = v) ∨
      ∃ tag, (v.node n).kind = .element tag ∧
        ((directivesOf t.markers (v.node n).attributes).foldlM (t.applyDirective n) stats).run v =
          some (.ok stats', v') := by
  simp only [compileSelf, bind_run_eq_some_iff, step_run_eq_some_iff, Run.get_eq_some_iff,
    note_run_iff] at hrun
  rcases hrun with ⟨_, _, ⟨rfl, rfl⟩, _, _, rfl, hrun⟩
  cases hkind : (v.node n).kind with
  | text content =>
      rw [hkind] at hrun
      exact .inl ⟨content, rfl, hrun⟩
  | comment content =>
      rw [hkind] at hrun
      simp only [bind_run_eq_some_iff, note_run_iff, pure_run_eq_some_iff] at hrun
      rcases hrun with ⟨_, _, rfl, rfl, rfl⟩
      exact .inr (.inl ⟨content, rfl, rfl, rfl⟩)
  | element tag =>
      rw [hkind] at hrun
      simp only [bind_run_eq_some_iff, step_run_eq_some_iff, Run.change_eq_some_iff] at hrun
      rcases hrun with ⟨_, u, hnoticed, hrun⟩
      have hu : u = v := hnoticed.symm.trans (World.noticeAll_eq _ v)
      rw [hu] at hrun
      exact .inr (.inr ⟨tag, rfl, hrun⟩)

/-- An element takes effect if all its directives do. -/
theorem compileSelf_element_iff {tag : String} (hkind : (v.node n).kind = .element tag) :
    (t.compileSelf n stats).run v = some (.ok stats', v') ↔
      ((directivesOf t.markers (v.node n).attributes).foldlM (t.applyDirective n) stats).run v =
        some (.ok stats', v') := by
  constructor
  · intro hrun
    rcases compileSelf_run_cases hrun with
      ⟨_, hother, _⟩ | ⟨_, hother, _⟩ | ⟨_, _, hdirectives⟩
    · exact nomatch hkind.symm.trans hother
    · exact nomatch hkind.symm.trans hother
    · exact hdirectives
  · intro hrun
    simp only [compileSelf, bind_run_eq_some_iff, step_run_eq_some_iff, Run.get_eq_some_iff,
      note_run_iff]
    refine ⟨v, v, ⟨rfl, rfl⟩, (), v, rfl, ?_⟩
    rw [hkind]
    simp only [bind_run_eq_some_iff, step_run_eq_some_iff, Run.change_eq_some_iff]
    exact ⟨(), v, World.noticeAll_eq _ v, hrun⟩

/-- A text takes effect if its expression does. -/
theorem compileSelf_text_iff {content : String} (hkind : (v.node n).kind = .text content) :
    (t.compileSelf n stats).run v = some (.ok stats', v') ↔
      (t.bindText n content stats).run v = some (.ok stats', v') := by
  constructor
  · intro hrun
    rcases compileSelf_run_cases hrun with
      ⟨_, hsame, hbind⟩ | ⟨_, hother, _⟩ | ⟨_, hother, _⟩
    · rw [hkind, NodeKind.text.injEq] at hsame
      rwa [hsame]
    · exact nomatch hkind.symm.trans hother
    · exact nomatch hkind.symm.trans hother
  · intro hrun
    simp only [compileSelf, bind_run_eq_some_iff, step_run_eq_some_iff, Run.get_eq_some_iff,
      note_run_iff]
    refine ⟨v, v, ⟨rfl, rfl⟩, (), v, rfl, ?_⟩
    rw [hkind]
    exact hrun

/-- There is nothing to be done for a comment. -/
theorem compileSelf_of_comment {content : String} (hkind : (v.node n).kind = .comment content) :
    (t.compileSelf n stats).run v = some (.ok stats, v) := by
  simp only [compileSelf, bind_run_eq_some_iff, step_run_eq_some_iff, Run.get_eq_some_iff,
    note_run_iff]
  refine ⟨v, v, ⟨rfl, rfl⟩, (), v, rfl, ?_⟩
  rw [hkind]
  exact bind_run_eq_some_iff.mpr
    ⟨(), v, note_run_iff.mpr rfl, pure_run_eq_some_iff.mpr ⟨rfl, rfl⟩⟩

/-- Binding the expression of a text is binding its value. -/
theorem bindText_run_iff {content : String} {i : Interpolation}
    (hfind : Interpolation.find? t.markers content = some i) :
    (t.bindText n content stats).run v = some (.ok stats', v') ↔
      (t.bindValue (i.describe t.markers) i.key (.interpolated n i)).run v = some (.ok (), v') ∧
        { stats with watchers := stats.watchers + 1 } = stats' := by
  simp only [bindText, hfind, bind_run_eq_some_iff, pure_run_eq_some_iff]
  constructor
  · rintro ⟨_, _, hbind, hstats, rfl⟩
    exact ⟨hbind, hstats⟩
  · rintro ⟨hbind, hstats⟩
    exact ⟨(), v', hbind, hstats, rfl⟩

theorem bindText_of_none {content : String}
    (hfind : Interpolation.find? t.markers content = none) :
    (t.bindText n content stats).run v = some (.ok stats', v') ↔ stats = stats' ∧ v = v' := by
  simp only [bindText, hfind, pure_run_eq_some_iff]

/-- Compiling a node is letting it take effect and then compiling its children. -/
theorem compileNode_run_iff {depth : Nat} :
    (t.compileNode depth stats n).run v = some (.ok stats', v') ↔
      ∃ d stats₁ u, depth = d + 1 ∧
        (t.compileSelf n { stats with nodes := stats.nodes + 1 }).run v = some (.ok stats₁, u) ∧
        ((u.node n).children.foldlM (t.compileNode d) stats₁).run u = some (.ok stats', v') := by
  cases depth with
  | zero =>
      simp only [compileNode, step_run_eq_some_iff, Run.stuck_eq_some_iff, Nat.zero_ne_add_one,
        false_and, exists_false]
  | succ d =>
      simp only [compileNode, bind_run_eq_some_iff, step_run_eq_some_iff, Run.get_eq_some_iff]
      constructor
      · rintro ⟨stats₁, u, hself, _, _, ⟨rfl, rfl⟩, hchildren⟩
        exact ⟨d, stats₁, u, rfl, hself, hchildren⟩
      · rintro ⟨_, stats₁, u, hdepth, hself, hchildren⟩
        injection hdepth with hdepth
        subst hdepth
        exact ⟨stats₁, u, hself, u, u, ⟨rfl, rfl⟩, hchildren⟩

/-- Without a level left there is nothing to be compiled. -/
theorem foldlM_compileNode_zero {ns : List NodeId}
    (hrun : (ns.foldlM (t.compileNode 0) stats).run v = some (.ok stats', v')) :
    ns = [] ∧ v' = v := by
  cases ns with
  | nil => exact ⟨rfl, (pure_run_eq_some_iff.mp hrun).2.symm⟩
  | cons n ns =>
      rcases foldlM_cons_run_eq_some_iff.mp hrun with ⟨_, _, hnode, _⟩
      rcases compileNode_run_iff.mp hnode with ⟨_, _, _, hdepth, _⟩
      exact absurd hdepth (Nat.succ_ne_zero _).symm

end Directives

end Template

end LiveTemplate
