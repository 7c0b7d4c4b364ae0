import LiveTemplate.Proofs.Binding.Consistency
import LiveTemplate.Proofs.Binding.Ordering
import LiveTemplate.Proofs.Reaction.Happening

/-!
# The Course of an Application

From the beginning of a world through the building of an application to whatever
happens to it afterwards, seen as courses of events.

What happens before an application is built and after it has been built is a matter
of programs, writes and dispatched events, each of which is a course of events. The
building itself is not: it makes nodes and adds watchers that show values. But it is
the same as binding at the sites of the template one after the other, so it is known
what it adds.

## Main definitions

* `Move.Within`: A move that does what the client may do.
* `Blueprint.Built`: The stages of building an application.

## Theorems

* `Move.course_of_runAll`, `course_of_moves`: Moves are courses of events.
* `Program.keeps_of_session`: What each event keeps holds after each session.
* `Blueprint.built_of_build`: Building is binding at all sites.
-/

namespace LiveTemplate

variable {ν τ : Type} {l : Licence τ} {v w w' : ClientWorld ν τ}

namespace Move

/-- A move that does what the client may do. -/
def Within (l : Licence τ) : Move ν τ → Prop
  | client p => p.Within l
  | set _ source => source.Within l
  | call _ => True
  | input _ _ => True
  | dispatch _ _ => True

variable {host : Host (Code ν) (Journal τ)} {app : App (Code ν)} {u : Unit}

/-- A move is a course of events. -/
theorem course_of_run (hhost : host.Heeds l fun _ => True) {m : Move ν τ} (hm : m.Within l)
    (hrun : m.run host app w = some (u, w')) : w.Course l w' := by
  cases m with
  | client p => exact Program.course_of_run hhost (fun _ _ => trivial) hm hrun
  | set path source =>
      simp only [run, Run.bind_eq_some_iff, Run.pure_eq_some_iff] at hrun
      rcases hrun with ⟨d, v, hobtain, result, _, hset, _, rfl⟩
      rcases Run.pinned_eq_some_iff.mp hset with ⟨v', hinner, rfl⟩
      exact Source.course_of_obtain hm hobtain
        (World.Written.unpin (w := v) (hhost.setPath (fun _ _ => trivial) hinner))
  | call name =>
      simp only [run, Host.callMethod, Run.bind_eq_some_iff, Run.pure_eq_some_iff] at hrun
      rcases hrun with ⟨found, _, hcall, _, rfl⟩
      cases hmethod : Table.find? name app.methods with
      | none =>
          rw [hmethod, Run.pure_eq_some_iff] at hcall
          rcases hcall with ⟨_, rfl⟩
          exact .refl
      | some method =>
          rw [hmethod] at hcall
          simp only [Run.bind_eq_some_iff, Run.pure_eq_some_iff] at hcall
          rcases hcall with ⟨_, v, hpinned, _, rfl⟩
          refine Run.course_of_pinned hpinned fun _ _ hv => ?_
          simp only [Run.bind_eq_some_iff, Run.pure_eq_some_iff] at hv
          rcases hv with ⟨flags, v', hanswer, _, rfl⟩
          exact hhost.call trivial hanswer
  | input n text =>
      simp only [run, Run.bind_eq_some_iff, Run.pure_eq_some_iff] at hrun
      rcases hrun with ⟨e, _, hinput, _, rfl⟩
      exact hhost.input hinput
  | dispatch n e =>
      simp only [run, Run.bind_eq_some_iff, Run.pure_eq_some_iff] at hrun
      rcases hrun with ⟨e', _, hdispatch, _, rfl⟩
      exact hhost.dispatch hdispatch

/-- Moves are a course of events. -/
theorem course_of_runAll (hhost : host.Heeds l fun _ => True) {ms : List (Move ν τ)}
    (hms : ∀ m ∈ ms, m.Within l) (hrun : runAll host app ms w = some (u, w')) :
    w.Course l w' := by
  induction ms generalizing w with
  | nil =>
      rw [runAll, Run.pure_eq_some_iff] at hrun
      rcases hrun with ⟨_, rfl⟩
      exact .refl
  | cons m ms ih =>
      rw [List.forall_mem_cons] at hms
      simp only [runAll, Run.bind_eq_some_iff] at hrun
      rcases hrun with ⟨_, v, hfirst, hothers⟩
      exact (course_of_run hhost hms.1 hfirst).trans (ih hms.2 hothers)

end Move

/-- What happens to an application while it is held on to is a course of events. -/
theorem course_of_moves {code : ν → Signal → Program ν τ} {patience depth : Nat}
    {app : App (Code ν)} {moves : List (Move ν τ)}
    (hcode : ∀ name signal, (code name signal).Within l) (hwithin : ∀ m ∈ moves, m.Within l)
    (hmoves : Run.pinned app.pins
      (Move.runAll ((Program.behaviour code).host patience depth) app moves) w = some ((), w')) :
    w.Course l w' := by
  have hhost : ((Program.behaviour code).host patience depth).Heeds l fun _ => True :=
    Program.heeds_host (fun _ _ => trivial) (fun name signal _ => hcode name signal) patience depth
  exact Run.course_of_pinned hmoves fun _ _ hv => Move.course_of_runAll hhost hwithin hv

/-- The programs of a session are a course of events. -/
theorem Program.course_of_runAll {host : Host (Code ν) (Journal τ)}
    (hhost : host.Heeds l fun _ => True) {session : List (Program ν τ)}
    (hsession : ∀ p ∈ session, p.Within l) {u : Unit}
    (hrun : runAll host session w = some (u, w')) : w.Course l w' := by
  induction session generalizing w with
  | nil =>
      rw [runAll, Run.pure_eq_some_iff] at hrun
      rcases hrun with ⟨_, rfl⟩
      exact .refl
  | cons p ps ih =>
      rw [List.forall_mem_cons] at hsession
      simp only [runAll, Run.bind_eq_some_iff] at hrun
      rcases hrun with ⟨_, v, hfirst, hothers⟩
      exact (Program.course_of_run hhost (fun _ _ => trivial) hsession.1 hfirst).trans
        (ih hsession.2 hothers)

/-- A client may do anything. -/
def Licence.any : Licence τ where
  keeps _ _ := True
  watches _ := True
  shares _ := True

theorem Source.within_any (source : Source) : source.Within (Licence.any : Licence τ) := by
  cases source <;> exact trivial

theorem Program.within_any (p : Program ν τ) : p.Within Licence.any := by
  induction p with
  | done => exact trivial
  | ask command next ih =>
      refine ⟨?_, ih⟩
      cases command with
      | set _ _ source | setPath _ _ source => exact source.within_any
      | remember change => exact fun _ => trivial
      | look | observe | hold | release | watch | notify => exact trivial

theorem Move.within_any (m : Move ν τ) : m.Within Licence.any := by
  cases m with
  | client p => exact p.within_any
  | set _ source => exact source.within_any
  | call | input | dispatch => exact trivial

theorem Program.heeds_any (code : ν → Signal → Program ν τ) (patience depth : Nat) :
    ((behaviour code).host patience depth).Heeds .any fun _ => True :=
  heeds_host (fun _ _ => trivial) (fun name signal _ => (code name signal).within_any) patience
    depth

/-- What holds in the beginning holds after each session if each event keeps it, whatever the
    programs do. -/
theorem Program.keeps_of_session {code : ν → Signal → Program ν τ} {patience depth : Nat}
    {memory : τ} {session : List (Program ν τ)} (inv : ClientWorld ν τ → Prop)
    (hkeeps : ∀ {w w' : ClientWorld ν τ}, inv w → w.Happens .any w' → inv w')
    (hstart : inv (World.start ν memory))
    (hsession : runAll ((behaviour code).host patience depth) session (World.start ν memory) =
      some ((), w)) : inv w := by
  have hcourse : (World.start ν memory).Course .any w :=
    course_of_runAll (heeds_any code patience depth) (fun p _ => p.within_any) hsession
  exact hcourse.keeps inv hkeeps hstart

/-! ### Building -/

/-- Binding at a site adds no objects, and makes none of them hold another one. -/
theorem Template.data_establish (t : Template (Code ν)) (w : ClientWorld ν τ)
    (site : BindingSite) : (t.establish w site).objects.size = w.objects.size ∧
      ∀ o x, (t.establish w site).PointsTo o x → w.PointsTo o x := by
  have hdraw : (t.draw w site).objects.size = w.objects.size ∧
      ∀ o x, (t.draw w site).PointsTo o x → w.PointsTo o x := by
    unfold draw
    split
    · next key r =>
        split
        · exact ⟨rfl, fun _ _ h => h⟩
        · next value _ =>
            have hobjects := objects_attach (t := t) (w := w) key r ((w.display? value).getD "")
            refine ⟨(World.dependAll_frame _ _ _).2.2.2.trans (congrArg Heap.size hobjects), ?_⟩
            intro o x h
            exact (World.pointsTo_of_objects hobjects o x).mp (World.pointsTo_of_dependAll h)
    · exact ⟨rfl, fun _ _ h => h⟩
  unfold establish
  split
  · exact ⟨rfl, fun _ _ h => h⟩
  · have hobjects := (onlyNodes_hear (t := t) (t.draw w site) site).objects
    exact ⟨(congrArg Heap.size hobjects).trans hdraw.1,
      fun o x h => hdraw.2 o x ((World.pointsTo_of_objects hobjects o x).mp h)⟩

theorem Template.data_foldl (t : Template (Code ν)) (sites : List BindingSite)
    (w : ClientWorld ν τ) : (sites.foldl t.establish w).objects.size = w.objects.size ∧
      ∀ o x, (sites.foldl t.establish w).PointsTo o x → w.PointsTo o x := by
  induction sites generalizing w with
  | nil => exact ⟨rfl, fun _ _ h => h⟩
  | cons site rest ih =>
      have hfirst := t.data_establish w site
      exact ⟨(ih _).1.trans hfirst.1, fun o x h => hfirst.2 o x ((ih _).2 o x h)⟩

/-- The stages of building an application: the data is observed in the world that there is, then
    the template is planted, and then the sites of the template are bound. -/
structure Blueprint.Built (b : Blueprint (Code ν)) (app : App (Code ν)) (sites : List BindingSite)
    (w₀ u v w₁ : ClientWorld ν τ) : Prop where
  /-- The data has been observed. -/
  observed : World.observeValue (b.data.getD (.object [])) w₀ = (.object app.data, u)
  /-- The template has been planted. -/
  planted : ∃ tree, World.plant tree u = (app.root, v)
  /-- All sites have been bound. -/
  bound : w₁ = sites.foldl (⟨app.data, b.methods, b.markers⟩ : Template (Code ν)).establish v
  /-- So it is known what has been added. -/
  adds : (⟨app.data, b.methods, b.markers⟩ : Template (Code ν)).Adds v sites w₁

/-- When compiling has ended well, nothing has failed, and everything has been bound. -/
theorem Template.effect_of_compile {t : Template (Code ν)} {levels : Nat} {root : NodeId}
    (hcompile : (t.compile levels root).run v = some (.ok (), w')) :
    (∀ site ∈ t.sites levels v root, t.fault? v site = none) ∧
      w' = (t.sites levels v root).foldl t.establish v ∧
      t.Adds v (t.sites levels v root) w' := by
  have hfollows := follows_compile (t := t) (w := v) (Nat.le_refl levels) root
  have heffect := hfollows.effect hcompile (lives_sites levels v root)
  have hfault := heffect.1.mp rfl
  have hall := List.takeWhile_eq_self_iff.mpr fun site hsite =>
    Option.isNone_iff_eq_none.mpr (hfault site hsite)
  rw [hall] at heffect
  exact ⟨hfault, heffect.2.2⟩

/-- Building an application from a template is binding at all of its sites. -/
theorem Blueprint.built_of_build {b : Blueprint (Code ν)} {levels : Nat} {app : App (Code ν)}
    {w₀ w₁ : ClientWorld ν τ} (hmount : b.mount = none)
    (hbuild : b.build levels w₀ = some (.ok app, w₁)) :
    ∃ u v, b.Built app
      ((⟨app.data, b.methods, b.markers⟩ : Template (Code ν)).sites levels v app.root)
      w₀ u v w₁ := by
  rcases (build_eq_some_ok_iff hmount).mp hbuild with
    ⟨_, u, v, markup, hobserve, _, hplant, hcompile, _⟩
  rcases plantTemplate_eq_ok_iff.mp hplant with ⟨tree, _, htree⟩
  have heffect := Template.effect_of_compile hcompile
  exact ⟨u, v, observeValue_of_root hobserve, ⟨tree, htree⟩, heffect.2.1, heffect.2.2⟩

namespace Blueprint.Built

variable {b : Blueprint (Code ν)} {app : App (Code ν)} {sites : List BindingSite}
  {w₀ u v w₁ : ClientWorld ν τ}

/-- Planting a template changes nodes only. -/
theorem onlyNodes (h : b.Built app sites w₀ u v w₁) : u.OnlyNodes v := by
  rcases h.planted with ⟨tree, htree⟩
  exact (planted_plant htree).1.rest

/-- Until its sites are bound nobody listens to a template. -/
theorem sameListeners (h : b.Built app sites w₀ u v w₁) : w₀.SameListeners v := by
  rcases h.planted with ⟨tree, htree⟩
  have hplanted := World.sameListeners_plantUnder none tree u
  have hnodes := (World.extends_observeValue (b.data.getD (.object [])) w₀).1.nodes
  rw [h.observed] at hnodes
  have hv : (World.plantUnder none tree u).2 = v := congrArg Prod.snd htree
  rw [hv] at hplanted
  refine ⟨?_, fun m => (hplanted.listeners m).trans ?_⟩
  · rw [← hnodes]
    exact hplanted.grown
  · rw [World.node, hnodes, ← World.node]

/-- The objects of the data are new, and hold each other. -/
theorem extends_observed (h : b.Built app sites w₀ u v w₁) :
    w₀.Extends u ∧ w₀.objects.size ≤ app.data.index ∧ app.data.index < u.objects.size := by
  have hextends := World.extends_observeValue (b.data.getD (.object [])) w₀
  rw [h.observed] at hextends
  exact ⟨hextends.1, hextends.2 app.data rfl⟩

/-- After the data has been observed no objects are added, and none of them is made to hold
    another one. -/
theorem data (h : b.Built app sites w₀ u v w₁) :
    w₁.objects.size = u.objects.size ∧ ∀ o x, w₁.PointsTo o x → u.PointsTo o x := by
  have hbound := (⟨app.data, b.methods, b.markers⟩ : Template (Code ν)).data_foldl sites v
  have hobjects := h.onlyNodes.objects
  rw [← h.bound] at hbound
  exact ⟨hbound.1.trans (congrArg Heap.size hobjects),
    fun o x hx => (World.pointsTo_of_objects hobjects o x).mp (hbound.2 o x hx)⟩

/-- Until sites are bound there are the subscribers that there were before. -/
theorem subscribers (h : b.Built app sites w₀ u v w₁) : v.subscribers = w₀.subscribers :=
  h.onlyNodes.subscribers.trans h.extends_observed.1.subscribers

/-- The subscribers are the ones that there were before, and watchers that show values of the
    data. -/
theorem subscriber?_cases (h : b.Built app sites w₀ u v w₁) {s : SubscriberId}
    {subscriber : Subscriber (Code ν)} (hs : w₁.subscriber? s = some subscriber) :
    w₀.subscriber? s = some subscriber ∨ w₀.subscriber? s = none ∧
      ∃ key r, subscriber = .watcher ⟨app.data, key, .render r⟩ := by
  have hsame : v.subscriber? s = w₀.subscriber? s :=
    World.subscriber?_of_subscribers h.subscribers s
  by_cases hlt : s.index < v.subscribers.size
  · refine .inl ?_
    rw [World.subscriber?_eq_getElem?, h.adds.watchers, List.getElem?_append_left hlt,
      ← World.subscriber?_eq_getElem?] at hs
    exact hsame.symm.trans hs
  · have hnone : v.subscriber? s = none := Heap.get?_eq_none (Nat.le_of_not_lt hlt)
    rcases h.adds.exists_site hs with hbefore | ⟨_, key, r, _, hwt⟩
    · exact absurd (hnone.symm.trans hbefore) (Option.some_ne_none subscriber).symm
    · exact .inr ⟨hsame.symm.trans hnone, key, r, hwt⟩

/-- All objects that are mentioned are there. -/
theorem whole (h : b.Built app sites w₀ u v w₁) (hwhole : w₀.Whole) : w₁.Whole where
  closed o x hx := by
    rw [h.data.1]
    have hbefore := h.data.2 o x hx
    have hextends := h.extends_observed.1
    by_cases ho : o.index < w₀.objects.size
    · rw [World.PointsTo, hextends.kept o ho, ← World.PointsTo] at hbefore
      exact Nat.lt_of_lt_of_le (hwhole.closed o x hbefore) hextends.grown
    · exact (hextends.apart o x (Nat.le_of_not_lt ho) hbefore).2
  ranged s wt hs := by
    rw [h.data.1]
    have hextends := h.extends_observed
    rcases h.subscriber?_cases hs with hbefore | ⟨_, key, r, hwt⟩
    · exact Nat.lt_of_lt_of_le (hwhole.ranged s wt hbefore) hextends.1.grown
    · injection hwt with hwt
      rw [hwt]
      exact hextends.2.2

end Blueprint.Built

end LiveTemplate
