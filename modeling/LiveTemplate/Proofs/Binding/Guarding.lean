import LiveTemplate.Proofs.Binding.Silencing

/-!
# When Callbacks Are Called

What the world has to look like for a callback to be called.

A host is asked to call back in four places only: when a watcher with a callback has
found a value at the end of its path, when somebody else who subscribed is updated, and
when an event comes upon a listener with a callback of its own or with a method. So a
host that refuses all other calls does as well as the one that answers them. If an
invariant of all events says more about who is called, then a host may refuse even more:
everything that the invariant excludes.

That two hosts do the same is shown for each operation from the operations that it
consists of. All of them agree as long as the hosts do where the world asks for a call,
and the callbacks in turn run programs, so that hosts whose callbacks may call each other to
some depth agree by induction on that depth.

## Main definitions

* `World.Calls`: A callback and what it is called with, if it is called now.
* `Host.Agree`: Hosts that agree where an invariant holds and the world asks for a call.
* `Behaviour.guarded`: A behaviour that refuses calls.

## Main statements

* `Host.Agree.refresh`, `Host.Agree.setPath`, `Host.Agree.dispatch`: Operations.
* `Touch.runAll_guarded`: A guard that an invariant implies makes no difference.
-/

namespace LiveTemplate

open Relation (ReflTransGen)

/-- The callback of a listener. -/
def Listener.callback? {κ : Type} : Listener κ → Option κ
  | callback c => some c
  | handle _ method _ => some method
  | writeBack _ _ => none

variable {ν τ α β : Type} {w w' : ClientWorld ν τ}

/-- The callback is called with the signal in this world, if it is called: it belongs to a
    watcher whose object is there and whose path leads to the value, to somebody else who
    subscribes, or to a listener. -/
inductive World.Calls (w : ClientWorld ν τ) : Code ν → Signal → Prop where
  /-- A watcher has found a value. -/
  | watcher {s : SubscriberId} {wt : Watcher (Code ν)} {c : Code ν} {d : Data}
      (hs : w.subscriber? s = some (.watcher wt)) (heffect : wt.effect = .call c)
      (halive : w.alive (.object wt.root) = true) (hvalue : w.pathValue? wt.root wt.path = some d) :
      Calls w c (.changed d)
  /-- Somebody else is updated. -/
  | probe {s : SubscriberId} {c : Code ν} (hs : w.subscriber? s = some (.probe c)) :
      Calls w c .updated
  /-- An event has come upon a listener. -/
  | listener {n : NodeId} {entry : String × Listener (Code ν)} {c : Code ν} (signal : Signal)
      (hentry : entry ∈ (w.node n).listeners) (hc : entry.2.callback? = some c) :
      Calls w c signal

/-! ### Runs in parts -/

namespace Run

variable {κ σ : Type} {run run' : Run κ σ α} {next next' : α → Run κ σ β} {w : World κ σ}

theorem bind_congr (h : run w = run' w)
    (hnext : ∀ a v, run w = some (a, v) → next a v = next' a v) :
    (run >>= next) w = (run' >>= next') w := by
  simp only [bind, StateT.bind, ← h]
  cases hrun : run w with
  | none => rfl
  | some result => exact hnext result.1 result.2 hrun

theorem pinned_congr {handles : List Handle}
    (h : run { w with pins := handles ++ w.pins } = run' { w with pins := handles ++ w.pins }) :
    Run.pinned handles run w = Run.pinned handles run' w := by
  rw [Run.pinned, Run.pinned, h]

end Run

/-- The hosts agree on all calls for which a world asks in which the invariant holds, and the
    invariant is one of all events. -/
structure Host.Agree (inv : ClientWorld ν τ → Prop) (host host' : Host (Code ν) (Journal τ)) :
    Prop where
  /-- Events keep the invariant. -/
  step : ∀ {w w' : ClientWorld ν τ}, inv w → w.Happens Licence.any w' → inv w'
  /-- Calls are courses of events. -/
  heeds : host.Heeds Licence.any fun _ => True
  /-- They are equally patient. -/
  patience : host.patience = host'.patience
  /-- They give the same answers. -/
  call : ∀ {w : ClientWorld ν τ} {c : Code ν} {signal : Signal}, inv w → w.Calls c signal →
    host.call c signal w = host'.call c signal w

namespace Host.Agree

variable {inv : ClientWorld ν τ → Prop} {host host' : Host (Code ν) (Journal τ)}
  (h : host.Agree inv host')
include h

theorem pin (hw : inv w) (handles : List Handle) : inv { w with pins := handles ++ w.pins } :=
  h.step hw (.pin w _)

theorem keeps (hw : inv w) (hcourse : w.Course Licence.any w') : inv w' :=
  hcourse.keeps inv h.step hw

/-! ### Updates -/

theorem perform {s : SubscriberId} {wt : Watcher (Code ν)} {d : Data} (hw : inv w)
    (hs : w.subscriber? s = some (.watcher wt)) (halive : w.alive (.object wt.root) = true)
    (hvalue : w.pathValue? wt.root wt.path = some d) :
    host.perform wt.effect d w = host'.perform wt.effect d w := by
  cases heffect : wt.effect with
  | render r => rfl
  | call c => exact Run.bind_congr (h.call hw (.watcher hs heffect halive hvalue)) fun _ _ _ => rfl

theorem refreshWatcher {s : SubscriberId} {wt : Watcher (Code ν)} (hw : inv w)
    (hs : w.subscriber? s = some (.watcher wt)) :
    host.refreshWatcher s wt w = host'.refreshWatcher s wt w := by
  unfold Host.refreshWatcher
  rw [Run.bind_of_eq_some (Run.get_eq w), Run.bind_of_eq_some (Run.get_eq w)]
  by_cases halive : w.alive (.object wt.root) = true
  · rw [if_pos halive, if_pos halive]
    refine Run.pinned_congr (Run.bind_congr rfl fun result v hread => ?_)
    rw [Run.apply_eq_some_iff] at hread
    cases result with
    | error e => rfl
    | ok d =>
        refine Run.bind_congr rfl fun _ u hnotice => Run.pinned_congr ?_
        rw [Run.notice, Run.change_eq_some_iff] at hnotice
        subst hnotice
        -- The value is there still when it is acted on, and the object is held on to.
        generalize hx : ({ w with pins := [.object wt.root] ++ w.pins } : ClientWorld ν τ) = x at *
        have hxs : x.subscriber? s = some (.watcher wt) := by
          rw [← hx]
          exact hs
        have hframe := x.readPath_frame (some s) wt.root wt.path
        have hspec := (x.readPath_spec (some s) wt.root wt.path).2
        have hsame := x.pathValue?_readPath (some s) wt.root wt.path
        have hfollowed : inv (x.readPath (some s) wt.root wt.path).2 := by
          refine h.step (h.step hw ?_) (.follow hxs)
          rw [← hx]
          exact .pin w _
        rw [hread] at hframe hspec hsame hfollowed
        refine h.perform (h.step (h.step hfollowed (.note v rfl)) (.pin _ _)) (s := s) ?_ ?_ ?_
        · exact (World.subscriber?_of_subscribers hframe.2.1 s).trans hxs
        · refine World.alive_of_mem_pins (List.mem_append_right _ ?_)
          change Handle.object wt.root ∈ v.pins
          rw [hframe.2.2.1, ← hx]
          exact List.mem_append_left _ List.mem_cons_self
        · refine Eq.trans ?_ (hsame.trans hspec.symm)
          refine (World.path_of_objects (w := v) ?_ wt.root wt.path).1
          rfl
  · rw [if_neg halive, if_neg halive]

theorem refresh (hw : inv w) (s : SubscriberId) : host.refresh s w = host'.refresh s w := by
  unfold Host.refresh
  rw [Run.bind_of_eq_some (Run.get_eq w), Run.bind_of_eq_some (Run.get_eq w)]
  cases hs : w.subscriber? s with
  | none => rfl
  | some subscriber =>
      cases subscriber with
      -- A watcher asks for a call only when it has found a value, anybody else at once.
      | watcher wt => exact h.refreshWatcher hw hs
      | probe c => exact Run.bind_congr (h.call hw (.probe hs)) fun _ _ _ => rfl

theorem refreshAll (hw : inv w) (late : List SubscriberId) :
    host.refreshAll late w = host'.refreshAll late w := by
  induction late generalizing w with
  | nil => rfl
  | cons s rest ih =>
      -- Whoever is updated later finds the world that the first one has left.
      refine Run.bind_congr (Run.pinned_congr (h.refresh (h.pin hw _) s))
        fun _ v hfirst => ih (h.keeps hw ?_)
      exact Run.course_of_pinned hfirst fun _ _ hrefresh =>
        h.heeds.refresh (fun _ _ => trivial) hrefresh

theorem notify (hw : inv w) (registry : Registry) :
    host.notify registry w = host'.notify registry w := by
  refine Run.bind_congr rfl fun _ v hnotice => h.refreshAll ?_ _
  rw [Run.notice, Run.change_eq_some_iff] at hnotice
  rw [← hnotice]
  exact h.step hw (.note w rfl)

/-! ### Writes -/

theorem setProperty {d : Data} (hw : inv w) (hd : ∀ x, d = .object x → x.index < w.objects.size)
    (o : ObjectId) (key : String) :
    host.setProperty o key d w = host'.setProperty o key d w := by
  unfold Host.setProperty
  rw [Run.bind_of_eq_some (Run.get_eq w), Run.bind_of_eq_some (Run.get_eq w)]
  cases hp : w.property? o key with
  | none => rfl
  | some p =>
      dsimp only
      split
      · rfl
      · refine Run.bind_congr rfl fun _ v hchange => ?_
        rw [Run.change_eq_some_iff] at hchange
        subst hchange
        exact Run.bind_congr (h.notify (h.step hw (.share trivial hd hp)) _) fun _ _ _ => rfl

theorem setPath {d : Data} (hw : inv w) (hd : ∀ x, d = .object x → x.index < w.objects.size)
    (root : ObjectId) (path : String) :
    host.setPath root path d w = host'.setPath root path d w := by
  refine Run.bind_congr rfl fun resolved v hresolve => ?_
  rcases w.resolve_none_spec root path with ⟨result, hresult, _⟩
  rw [Run.apply_eq_some_iff, hresult, Prod.mk.injEq] at hresolve
  rcases hresolve with ⟨rfl, rfl⟩
  cases result with
  | error e => rfl
  | ok field =>
      refine Run.bind_congr (Run.pinned_congr ?_) fun _ _ _ => rfl
      exact h.setProperty (h.pin hw [.object field.1]) hd field.1 field.2

/-! ### Events -/

theorem runListener {n : NodeId} {entry : String × Listener (Code ν)} (hw : inv w)
    (hentry : entry ∈ (w.node n).listeners) (e : Event) :
    host.runListener entry.2 e w = host'.runListener entry.2 e w := by
  rcases entry with ⟨kind, listener⟩
  cases listener with
  | callback c => exact Run.bind_congr (h.call hw (.listener _ hentry rfl)) fun _ _ _ => rfl
  | handle data method modifiers =>
      unfold Host.runListener
      dsimp only
      rw [Run.bind_of_eq_some (Run.get_eq w), Run.bind_of_eq_some (Run.get_eq w)]
      split
      · refine Run.bind_congr (Run.pinned_congr ?_) fun _ _ _ => rfl
        refine Run.bind_congr (h.call (h.pin hw _) ?_) fun _ _ _ => rfl
        exact .listener (n := n) _ hentry rfl
      · rfl
  | writeBack data path =>
      unfold Host.runListener
      dsimp only
      cases e.current with
      | none => rfl
      | some m =>
          dsimp only
          rw [Run.bind_of_eq_some (Run.get_eq w), Run.bind_of_eq_some (Run.get_eq w)]
          split
          · refine Run.bind_congr (Run.pinned_congr ?_) fun _ _ _ => rfl
            refine Run.bind_congr rfl fun v u hlook => ?_
            rcases Run.get_eq_some_iff.mp hlook with ⟨rfl, rfl⟩
            refine Run.bind_congr ?_ fun _ _ _ => rfl
            refine h.setPath (h.pin hw _) ?_ data path
            rintro x ⟨⟩
          · rfl

theorem runListeners {n : NodeId} {entries : List (String × Listener (Code ν))} (hw : inv w)
    (hentries : ∀ entry ∈ entries, entry ∈ (w.node n).listeners) (e : Event) :
    host.runListeners (entries.map (·.2)) e w = host'.runListeners (entries.map (·.2)) e w := by
  induction entries generalizing w e with
  | nil => rfl
  | cons entry rest ih =>
      rw [List.forall_mem_cons] at hentries
      refine Run.bind_congr (h.runListener hw hentries.1 e) fun e' v hfirst => ?_
      -- Nobody stops listening meanwhile.
      have hcourse := h.heeds.runListener hfirst
      have hsame : w.SameListeners v :=
        hcourse.keeps (w.SameListeners ·) (fun hsame hstep => hsame.trans hstep.sameListeners)
          (.refl w)
      refine ih (h.keeps hw hcourse) (fun x hx => ?_) e'
      rw [hsame.listeners n]
      exact hentries.2 x hx

theorem climb (hw : inv w) (limit : Nat) (n : NodeId) (e : Event) :
    host.climb limit n e w = host'.climb limit n e w := by
  induction limit generalizing w n e with
  | zero => rfl
  | succ limit ih =>
      refine Run.bind_congr (Run.pinned_congr (Run.bind_congr rfl fun v u hlook => ?_))
        fun e' v hhere => ?_
      · rcases Run.get_eq_some_iff.mp hlook with ⟨rfl, rfl⟩
        exact h.runListeners (n := n) (h.pin hw _)
          (fun entry hentry => (List.mem_filter.mp hentry).1) _
      · have hv : inv v := h.keeps hw <| Run.course_of_pinned hhere fun _ _ hturn => by
          simp only [Run.bind_eq_some_iff, Run.get_eq_some_iff] at hturn
          rcases hturn with ⟨_, _, ⟨rfl, rfl⟩, hturn⟩
          exact h.heeds.runListeners hturn
        split
        · rfl
        · rw [Run.bind_of_eq_some (Run.get_eq v), Run.bind_of_eq_some (Run.get_eq v)]
          cases v.parent? n with
          | none => rfl
          | some p => exact ih hv p e'

theorem dispatch (hw : inv w) (n : NodeId) (e : Event) :
    host.dispatch n e w = host'.dispatch n e w := by
  unfold Host.dispatch
  rw [h.patience]
  exact Run.bind_congr (Run.pinned_congr (h.climb (h.pin hw _) _ n _)) fun _ _ _ => rfl

theorem input (hw : inv w) (n : NodeId) (text : String) :
    host.input n text w = host'.input n text w := by
  refine Run.bind_congr rfl fun _ v henter => ?_
  rw [Run.change_eq_some_iff] at henter
  rw [← henter]
  exact h.dispatch (h.step hw (.enter w n text)) n _

/-! ### Programs -/

/-- What a client obtains to write is there. -/
theorem obtain {source : Source} {d : Data} (hw : inv w)
    (hobtain : source.obtain w = some (d, w')) :
    inv w' ∧ ∀ x, d = .object x → x.index < w'.objects.size := by
  rcases Source.obtain_cases hobtain with ⟨value, _, hobserve⟩ | ⟨value, _, rfl, rfl⟩ |
    ⟨o, rfl, hlt, _, ⟨_, rfl⟩ | ⟨_, rfl⟩⟩
  · have hextends := World.extends_observeValue value.plain w
    have hobserved := h.step hw (.observe w value.plain)
    rw [hobserve] at hextends hobserved
    exact ⟨hobserved, fun x hx => (hextends.2 x hx).2⟩
  · exact ⟨hw, by rintro x ⟨⟩⟩
  · exact ⟨hw, by rintro x ⟨⟩; exact hlt⟩
  · exact ⟨h.step hw (.note w (j := { w.client with held := _ }) rfl), by rintro x ⟨⟩; exact hlt⟩

/-- A step of a program. -/
theorem command (hw : inv w) (c : Command ν τ) : c.run host w = c.run host' w := by
  cases c with
  | look | remember | observe | hold | release | watch => rfl
  | set o key source =>
      refine Run.bind_congr rfl fun d v hobtain => Run.bind_congr rfl fun _ u hrequire => ?_
      rcases Run.require_eq_some_iff.mp hrequire with ⟨_, rfl⟩
      rcases h.obtain hw hobtain with ⟨hv, hd⟩
      exact Run.pinned_congr (h.setProperty (h.pin hv [.object o]) hd o key)
  | setPath o path source =>
      refine Run.bind_congr rfl fun d v hobtain => Run.bind_congr rfl fun _ u hrequire => ?_
      rcases Run.require_eq_some_iff.mp hrequire with ⟨_, rfl⟩
      rcases h.obtain hw hobtain with ⟨hv, hd⟩
      exact Run.pinned_congr (h.setPath (h.pin hv [.object o]) hd o path)
  | notify o key =>
      refine Run.bind_congr rfl fun _ u hrequire => ?_
      rcases Run.require_eq_some_iff.mp hrequire with ⟨_, rfl⟩
      refine Run.bind_congr rfl fun v u hlook => ?_
      rcases Run.get_eq_some_iff.mp hlook with ⟨rfl, rfl⟩
      cases hp : w.property? o key with
      | none => rfl
      | some p => exact Run.pinned_congr (h.notify (h.pin hw _) _)

theorem program (hw : inv w) (p : Program ν τ) : p.run host w = p.run host' w := by
  induction p generalizing w with
  | done => rfl
  | ask command next ih =>
      refine Run.bind_congr (h.command hw command) fun answer v hcommand =>
        ih answer (h.keeps hw ?_)
      have hwithin := (Program.ask command fun _ => .done).within_any
      exact Command.course_of_run h.heeds (fun _ _ => trivial) hwithin.1 hcommand

end Host.Agree

/-! ### Guards -/

open Classical in
/-- The behaviour of callbacks that are called only where a guard allows it. A run in which
    one is called elsewhere comes to no end. -/
noncomputable def Behaviour.guarded {κ σ : Type} (b : Behaviour κ σ)
    (guard : World κ σ → κ → Signal → Prop) : Behaviour κ σ :=
  fun host c signal w => if guard w c signal then b host c signal w else none

variable {inv : ClientWorld ν τ → Prop} {guard : ClientWorld ν τ → Code ν → Signal → Prop}

/-- A guard that lets all calls pass for which a world asks while the invariant holds makes no
    difference to callbacks that run programs. -/
theorem Host.agree_guarded
    (hstep : ∀ {w w' : ClientWorld ν τ}, inv w → w.Happens Licence.any w' → inv w')
    (hguard : ∀ {w : ClientWorld ν τ} {c : Code ν} {signal : Signal}, inv w → w.Calls c signal →
      guard w c signal)
    (code : ν → Signal → Program ν τ) (patience depth : Nat) :
    ((Program.behaviour code).host patience depth).Agree inv
      (((Program.behaviour code).guarded guard).host patience depth) := by
  have hheeds := Program.heeds_any code patience
  -- Callbacks may call each other to this depth, and at depth zero nobody answers.
  induction depth with
  | zero => exact ⟨hstep, hheeds 0, rfl, fun _ _ => rfl⟩
  | succ depth ih =>
      refine ⟨hstep, hheeds (depth + 1), rfl, fun {w c signal} hw hcalls => ?_⟩
      change Program.behaviour code _ c signal w =
        (Program.behaviour code).guarded guard _ c signal w
      rw [Behaviour.guarded, if_pos (hguard hw hcalls)]
      -- What a watcher passes on is noted first.
      refine Run.bind_congr rfl fun _ v hnote => Run.bind_congr (ih.program ?_ _) fun _ _ _ => rfl
      unfold Program.takeNote at hnote
      split at hnote
      · rw [Run.change_eq_some_iff] at hnote
        rw [← hnote]
        exact hstep hw (.note w rfl)
      · rw [Run.pure_eq_some_iff] at hnote
        rw [← hnote.2]
        exact hw

namespace Touch

variable {host host' : Host (Code ν) (Journal τ)}

theorem run_eq (h : host.Agree inv host') (hw : inv w) (t : Touch ν τ) :
    t.run host w = t.run host' w ∧ ∀ u w', t.run host w = some (u, w') → inv w' := by
  cases t with
  | update s =>
      exact ⟨h.refresh hw s, fun u w' hrun =>
        h.keeps hw (h.heeds.refresh (fun _ _ => trivial) hrun)⟩
  | client p =>
      exact ⟨h.program hw p, fun u w' hrun =>
        h.keeps hw (Program.course_of_run h.heeds (fun _ _ => trivial) p.within_any hrun)⟩
  | dispatch n e =>
      refine ⟨Run.bind_congr (h.dispatch hw n e) fun _ _ _ => rfl, fun u w' hrun => ?_⟩
      simp only [run, Run.bind_eq_some_iff, Run.pure_eq_some_iff] at hrun
      rcases hrun with ⟨e', v, hdispatch, _, rfl⟩
      exact h.keeps hw (h.heeds.dispatch hdispatch)
  | input n text =>
      refine ⟨Run.bind_congr (h.input hw n text) fun _ _ _ => rfl, fun u w' hrun => ?_⟩
      simp only [run, Run.bind_eq_some_iff, Run.pure_eq_some_iff] at hrun
      rcases hrun with ⟨e', v, hinput, _, rfl⟩
      exact h.keeps hw (h.heeds.input hinput)

theorem runAll_eq (h : host.Agree inv host') (hw : inv w) (ts : List (Touch ν τ)) :
    runAll host ts w = runAll host' ts w := by
  induction ts generalizing w with
  | nil => rfl
  | cons t ts ih =>
      rcases run_eq h hw t with ⟨hsame, hafter⟩
      exact Run.bind_congr hsame fun u v hrun => ih (hafter u v hrun)

/-- Whatever is done, a guard that an invariant of all events implies makes no difference. -/
theorem runAll_guarded (inv : ClientWorld ν τ → Prop)
    (hstep : ∀ {w w' : ClientWorld ν τ}, inv w → w.Happens Licence.any w' → inv w')
    (hguard : ∀ {w : ClientWorld ν τ} {c : Code ν} {signal : Signal}, inv w → w.Calls c signal →
      guard w c signal)
    (hw : inv w) (code : ν → Signal → Program ν τ) (patience depth : Nat)
    (touches : List (Touch ν τ)) :
    runAll ((Program.behaviour code).host patience depth) touches w =
      runAll (((Program.behaviour code).guarded guard).host patience depth) touches w :=
  runAll_eq (Host.agree_guarded hstep hguard code patience depth) hw touches

end Touch

end LiveTemplate
