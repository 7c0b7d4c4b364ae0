import LiveTemplate.Proofs.Reaction.Outcomes
import LiveTemplate.Proofs.Reaction.Recounting
import LiveTemplate.Proofs.View.Moving

/-!
# Taking Turns

Who is updated when subscribers are notified, and when.

A notification goes round the subscribers that have been in the registry when it began, in
the order in which they came. Each of them has one turn. During its turn it may do anything,
and it may begin notifications of the same registry and of others, which go round in turn;
but a turn is not over until all that has begun in it is over, and nobody else of the outer
round has a turn before that. Who comes to a registry meanwhile stands behind the others and
waits for the next notification.

So at each moment there is a stack of what is under way: rounds with those who still wait for
their turn, and turns. What happens next is checked against the top of the stack alone. That
a run passes this check is shown together with what happens to registries, by going through
the run: what each part of it needs and leaves is what is under way.

## Main definitions

* `Host.Round`: Turns, one after the other.
* `Frame`, `Moment.pass`: What is under way, and what may happen next.
* `Recounted.Keeps`: Registries fill up during a run, and everybody has their turn.
* `Recounted.worlds`: The worlds that a run goes through.

## Theorems

* `Host.notify_eq_some_iff`: A notification is a round.
* `Recounted.Keeps.bind`: Two parts of a run, one after the other.
* `Recounted.keeps_refreshAll`, `Recounted.keeps_notify`: A round, and a notification.
* `Routine.keeps_recountCall`: Callbacks inside callbacks, to any depth.
* `Routine.recount_spec`: Everything that clients do with registries.
-/

namespace LiveTemplate

variable {ν τ α β : Type}

/-! ### Rounds of a host -/

namespace Host

variable {κ σ : Type} [Client σ] {host : Host κ σ} {w w' : World κ σ}

/-- Subscribers have their turns one after the other, each in the world that the one before has
    left. -/
inductive Round (host : Host κ σ) : List SubscriberId → World κ σ → World κ σ → Prop
  /-- There are none. -/
  | nil (w : World κ σ) : Round host [] w w
  /-- One has its turn, and then the others. -/
  | cons {s : SubscriberId} {late : List SubscriberId} {w v w' : World κ σ}
      (hturn : Run.pinned ((s :: late).map .subscriber) (host.refresh s) w = some ((), v))
      (hrest : Round host late v w') : Round host (s :: late) w w'

theorem refreshAll_eq_some_iff {late : List SubscriberId} :
    host.refreshAll late w = some ((), w') ↔ host.Round late w w' := by
  induction late generalizing w with
  | nil =>
      rw [refreshAll_nil_iff]
      constructor
      · rintro rfl
        exact .nil w
      · rintro ⟨⟩
        rfl
  | cons s late ih =>
      rw [refreshAll, Run.bind_eq_some_iff]
      constructor
      · rintro ⟨_, v, hturn, hrest⟩
        exact .cons hturn (ih.mp hrest)
      · intro h
        cases h with
        | cons hturn hrest => exact ⟨(), _, hturn, ih.mpr hrest⟩

/-- A notification comes to an end exactly if everybody's turn does who is in the registry when
    it begins. -/
theorem notify_eq_some_iff {r : Registry} :
    host.notify r w = some ((), w') ↔
      host.Round r.subscribers (w.notice (.notified r.subscribers.length)) w' :=
  notify_iff_refreshAll.trans refreshAll_eq_some_iff

end Host

/-! ### What is under way -/

/-- Something that is under way. -/
inductive Frame where
  /-- A notification. These subscribers have not had their turns yet. -/
  | waiting (late : List SubscriberId)
  /-- The turn of a subscriber. -/
  | updating (s : SubscriberId)
  deriving DecidableEq

/-- What is under way after a moment, what has begun last first. There is no such thing if it
    is not the time for that moment. -/
def Moment.pass : List Frame → Moment → Option (List Frame)
  | .waiting (next :: late) :: outer, .update s =>
    if s = next then some (.updating s :: .waiting late :: outer) else none
  | .waiting [] :: outer, .notified => some outer
  | .waiting _ :: _, _ => none
  | .updating s :: outer, .updated t => if t = s then some outer else none
  | frames, .notify _ r => some (.waiting r.subscribers :: frames)
  | frames, .pause => some frames
  | _, _ => none

/-- A client is at work, on its own account or in somebody's turn. -/
inductive Frame.AtWork : List Frame → Prop
  /-- Nothing is under way. -/
  | idle : AtWork []
  /-- Somebody has a turn. -/
  | updating (s : SubscriberId) (outer : List Frame) : AtWork (.updating s :: outer)

namespace Moment

variable {frames : List Frame}

theorem pass_pause (h : Frame.AtWork frames) : pass frames .pause = some frames := by
  cases h with
  | idle => rfl
  | updating => rfl

theorem pass_notify (h : Frame.AtWork frames) (place : Place) (r : Registry) :
    pass frames (.notify place r) = some (.waiting r.subscribers :: frames) := by
  cases h with
  | idle => rfl
  | updating => rfl

theorem pass_update (s : SubscriberId) (late : List SubscriberId) :
    pass (.waiting (s :: late) :: frames) (.update s) =
      some (.updating s :: .waiting late :: frames) :=
  if_pos rfl

theorem pass_updated (s : SubscriberId) : pass (.updating s :: frames) (.updated s) = some frames :=
  if_pos rfl

end Moment

/-- Those are notified who are in the registry. -/
def Entry.Fits (entry : Entry ν τ) : Prop :=
  ∀ place r, entry.moment = .notify place r → entry.world.registryAt? place = some r

namespace Recounted

variable {run : Recounted ν τ α} {w v : ClientWorld ν τ} {before after frames : List Frame}

/-- During a run registries fill up, and everybody has their turn. It begins and ends with things
    under way, and if it does not come to an end, it leaves more of them. -/
structure Keeps (run : Recounted ν τ α) (w : ClientWorld ν τ) (before after : List Frame) :
    Prop where
  /-- Subscribers have been added since the run has begun. -/
  opened : ∀ v ∈ (run.log w).map (·.world), w.Enlists v
  /-- Subscribers are added during the run. -/
  grown : ((run.log w).map (·.world)).Pairwise World.Enlists
  /-- Subscribers have been added when the run is over. -/
  closed : ∀ a v, run.outcome w = some (a, v) →
    w.Enlists v ∧ ∀ u ∈ (run.log w).map (·.world), u.Enlists v
  /-- Those are notified who are in a registry. -/
  fitting : ∀ entry ∈ run.log w, entry.Fits
  /-- Everything happens when it is time for it. -/
  passed : ∃ under, ((run.log w).map (·.moment)).foldlM Moment.pass before = some under ∧
    (run.outcome w ≠ none → under = after)

namespace Keeps

/-- Nothing is taken down in a part that has nothing to do with callbacks. -/
theorem lift {run : Run (Code ν) (Journal τ) α}
    (h : ∀ a v, run w = some (a, v) → w.Enlists v) : (lift run).Keeps w frames frames where
  opened := List.forall_mem_nil _
  grown := List.Pairwise.nil
  closed a v hrun := ⟨h a v hrun, List.forall_mem_nil _⟩
  fitting := List.forall_mem_nil _
  passed := ⟨frames, rfl, fun _ => rfl⟩

theorem pure (a : α) : (pure a : Recounted ν τ α).Keeps w frames frames :=
  lift fun b v hrun => by
    rcases Run.pure_eq_some_iff.mp hrun with ⟨_, rfl⟩
    exact .refl w

theorem change {f : ClientWorld ν τ → ClientWorld ν τ} (h : w.Enlists (f w)) :
    (Recounted.lift (Run.change f)).Keeps w frames frames :=
  lift fun _ v hrun => by
    rw [Run.change_eq_some_iff] at hrun
    exact hrun ▸ h

theorem apply {f : ClientWorld ν τ → α × ClientWorld ν τ} (h : w.Enlists (f w).2) :
    (Recounted.lift (Run.apply f)).Keeps w frames frames :=
  lift fun a v hrun => by
    rw [Run.apply_eq_some_iff] at hrun
    rwa [hrun] at h

theorem mark {moment : Moment} (hfits : Entry.Fits ⟨moment, w⟩)
    (hpass : Moment.pass before moment = some after) :
    (mark moment : Recounted ν τ Unit).Keeps w before after where
  opened := List.forall_mem_singleton.mpr (.refl w)
  grown := List.pairwise_singleton _ w
  closed _ v hrun := by
    injection hrun with hrun
    injection hrun with _ hrun
    subst hrun
    exact ⟨.refl w, List.forall_mem_singleton.mpr (.refl w)⟩
  fitting := List.forall_mem_singleton.mpr hfits
  passed := by
    refine ⟨after, ?_, fun _ => rfl⟩
    change (Moment.pass before moment >>= fun under => some under) = some after
    rw [hpass]
    rfl

/-- Two parts of a run, one after the other. -/
theorem bind {next : α → Recounted ν τ β} {under : List Frame} (h : run.Keeps w before under)
    (hnext : ∀ a v, run.outcome w = some (a, v) → (next a).Keeps v under after) :
    (run >>= next).Keeps w before after := by
  rcases h.passed with ⟨reached, hpass, hreached⟩
  cases hrun : run.outcome w with
  | none =>
      rcases bind_of_eq_none next hrun with ⟨hlog, hnone⟩
      exact {
        opened := hlog ▸ h.opened
        grown := hlog ▸ h.grown
        closed := fun a v hsome => nomatch hnone.symm.trans hsome
        fitting := hlog ▸ h.fitting
        passed := ⟨reached, hlog ▸ hpass, fun hsome => absurd hnone hsome⟩ }
  | some result =>
      rcases result with ⟨a, v⟩
      rcases bind_of_eq_some next hrun with ⟨hlog, hend⟩
      have hkeeps := hnext a v hrun
      rcases h.closed a v hrun with ⟨hv, hmeanwhile⟩
      rcases hkeeps.passed with ⟨final, hrest, hfinal⟩
      -- The second part starts from the frames with which the first one has ended.
      have hunder : reached = under := hreached (by rw [hrun]; exact Option.some_ne_none _)
      subst hunder
      refine ⟨?_, ?_, ?_, ?_, final, ?_, ?_⟩
      · rw [hlog, List.map_append]
        exact List.forall_mem_append.mpr
          ⟨h.opened, fun u hu => hv.trans (hkeeps.opened u hu)⟩
      · rw [hlog, List.map_append, List.pairwise_append]
        exact ⟨h.grown, hkeeps.grown, fun u hu u' hu' =>
          (hmeanwhile u hu).trans (hkeeps.opened u' hu')⟩
      · intro b v' hb
        rcases hkeeps.closed b v' (hend ▸ hb) with ⟨hv', hlater⟩
        rw [hlog, List.map_append]
        exact ⟨hv.trans hv', List.forall_mem_append.mpr
          ⟨fun u hu => (hmeanwhile u hu).trans hv', hlater⟩⟩
      · rw [hlog]
        exact List.forall_mem_append.mpr ⟨h.fitting, hkeeps.fitting⟩
      · rw [hlog, List.map_append, List.foldlM_append, hpass]
        exact hrest
      · rw [hend]
        exact hfinal

/-- Looking at the world. -/
theorem look {next : ClientWorld ν τ → Recounted ν τ β} (h : (next w).Keeps w before after) :
    (Recounted.lift get >>= next).Keeps w before after := by
  refine bind (lift fun _ _ hget => ?_) fun u v hget => ?_
  · rcases Run.get_eq_some_iff.mp hget with ⟨_, rfl⟩
    exact .refl w
  · rcases Run.get_eq_some_iff.mp hget with ⟨rfl, rfl⟩
    exact h

/-- What is held on to meanwhile does not matter. -/
theorem pinned {handles : List Handle}
    (h : run.Keeps { w with pins := handles ++ w.pins } before after) :
    (pinned handles run).Keeps w before after := by
  -- Registries do not depend on the pins, neither when the run begins nor when it ends.
  have hstart : w.Enlists { w with pins := handles ++ w.pins } := .of_same rfl rfl
  refine ⟨fun u hu => hstart.trans (h.opened u hu), h.grown, fun a v hrun => ?_, h.fitting, ?_⟩
  · have hpinned : Run.pinned handles run.outcome w = some (a, v) := hrun
    rcases Run.pinned_eq_some_iff.mp hpinned with ⟨v', hv', rfl⟩
    have hfinish : v'.Enlists { v' with pins := w.pins } := .of_same rfl rfl
    rcases h.closed a v' hv' with ⟨hend, hmeanwhile⟩
    exact ⟨(hstart.trans hend).trans hfinish, fun u hu => (hmeanwhile u hu).trans hfinish⟩
  · rcases h.passed with ⟨under, hpass, hunder⟩
    exact ⟨under, hpass, fun hsome => hunder (mt Option.map_eq_none_iff.mpr hsome)⟩

end Keeps

/-- Callbacks keep it. -/
def Steady (call : Code ν → Signal → Recounted ν τ EventFlags) : Prop :=
  ∀ callback signal w frames, Frame.AtWork frames → (call callback signal).Keeps w frames frames

variable {call : Code ν → Signal → Recounted ν τ EventFlags}

section Updates

variable (h : Steady call) (hwork : Frame.AtWork frames)
include h hwork

theorem keeps_perform (effect : Effect (Code ν)) (value : Data) (w : ClientWorld ν τ) :
    (perform call effect value).Keeps w frames frames := by
  cases effect with
  | render rendering =>
      refine .lift fun _ v hrun => ?_
      simp only [Run.render, Run.display, Run.bind_eq_some_iff, Run.get_eq_some_iff,
        Run.ofOption_eq_some_iff, Run.change_eq_some_iff] at hrun
      rcases hrun with ⟨shown, _, ⟨_, _, ⟨rfl, rfl⟩, _, rfl⟩, rfl⟩
      have honly := w.onlyNodes_render rendering shown
      exact .of_same honly.objects honly.registries
  | call callback => exact .bind (h callback _ w frames hwork) fun _ _ _ => .pure _

theorem keeps_refreshWatcher (s : SubscriberId) (watcher : Watcher (Code ν))
    (w : ClientWorld ν τ) : (refreshWatcher call s watcher).Keeps w frames frames := by
  refine .look ?_
  split
  · refine .pinned (.bind (.apply (.readPath _ _ _ _)) fun result v _ => ?_)
    cases result with
    | error e => exact .change (.of_same rfl rfl)
    | ok value =>
        exact .bind (.change (.of_same rfl rfl)) fun _ v' _ =>
          .pinned (keeps_perform h hwork _ _ _)
  · exact .pure ()

theorem keeps_refresh (s : SubscriberId) (w : ClientWorld ν τ) :
    (refresh call s).Keeps w frames frames := by
  refine .look ?_
  cases w.subscriber? s with
  | none => exact .pure ()
  | some subscriber =>
      cases subscriber with
      | watcher watcher => exact keeps_refreshWatcher h hwork s watcher w
      | probe callback => exact .bind (h callback _ w frames hwork) fun _ _ _ => .pure _

end Updates

section Rounds

variable (h : Steady call)
include h

/-- A round: everybody who waits has one turn, first to last. -/
theorem keeps_refreshAll (late : List SubscriberId) (w : ClientWorld ν τ) (outer : List Frame) :
    (refreshAll call late).Keeps w (.waiting late :: outer) (.waiting [] :: outer) := by
  induction late generalizing w with
  | nil => exact .pure ()
  | cons s rest ih =>
      -- The list has been fixed when the round began, so nobody who joins meanwhile is in it.
      have hwork : Frame.AtWork (.updating s :: .waiting rest :: outer) := .updating s _
      refine .bind (.mark nofun (Moment.pass_update s rest)) fun _ v _ => ?_
      refine .bind (.pinned (keeps_refresh h hwork s _)) fun _ v' _ => ?_
      exact .bind (.mark nofun (Moment.pass_updated s)) fun _ v'' _ => ih v''

/-- A notification of a registry, as it is when it begins. -/
theorem keeps_notify {place : Place} {r : Registry} (hplace : w.registryAt? place = some r)
    (hwork : Frame.AtWork frames) : (notify call place r).Keeps w frames frames := by
  have hfits : Entry.Fits ⟨.notify place r, w⟩ := by
    intro place' r' heq
    cases heq
    exact hplace
  refine .bind (.mark hfits (Moment.pass_notify hwork place r)) fun _ v _ => ?_
  refine .bind (.change (.of_same rfl rfl)) fun _ v' _ => ?_
  refine .bind (keeps_refreshAll h r.subscribers v' frames) fun _ v'' _ => ?_
  exact .mark nofun rfl

theorem keeps_setProperty (hwork : Frame.AtWork frames) (o : ObjectId) (key : String)
    (value : Data) (w : ClientWorld ν τ) :
    (setProperty call o key value).Keeps w frames frames := by
  refine .look ?_
  cases hp : w.property? o key with
  | none => exact .pure _
  | some p =>
      dsimp only
      split
      · exact .pure _
      · refine .bind (.change (.write w o key value)) fun u v hrun => ?_
        have hwritten : Run.change (·.updateProperty o key fun p => { p with value }) w =
          some (u, v) := hrun
        rw [Run.change_eq_some_iff] at hwritten
        subst hwritten
        -- The property has the registry that it had before.
        refine .bind (keeps_notify h ?_ hwork) fun _ _ _ => .pure _
        rw [World.registryAt?, World.property?_updateProperty, if_pos ⟨rfl, rfl⟩, hp]
        rfl

theorem keeps_setPath (hwork : Frame.AtWork frames) (root : ObjectId) (path : String)
    (value : Data) (w : ClientWorld ν τ) :
    (setPath call root path value).Keeps w frames frames := by
  refine .bind (.apply ?_) fun result v _ => ?_
  · rcases w.resolve_none_spec root path with ⟨result, hresult, _⟩
    rw [hresult]
    exact .refl w
  · cases result with
    | error e => exact .pure _
    | ok field =>
        refine .bind (.pinned (keeps_setProperty h hwork _ _ _ _)) fun written v' _ => ?_
        cases written with
        | error e => exact .pure _
        | ok changed => exact .pure _

end Rounds

/-- The worlds that a run goes through: the one in which it begins, those in which something is
    taken down, and the one in which it ends. -/
def worlds (run : Recounted ν τ α) (w : ClientWorld ν τ) : List (ClientWorld ν τ) :=
  w :: ((run.log w).map (·.world) ++ ((run.outcome w).map (·.2)).toList)

theorem Keeps.pairwise (h : run.Keeps w before after) :
    (run.worlds w).Pairwise World.Enlists := by
  have hend : ∀ v ∈ ((run.outcome w).map (·.2)).toList,
      w.Enlists v ∧ ∀ u ∈ (run.log w).map (·.world), u.Enlists v := by
    intro v hv
    rw [Option.mem_toList, Option.map_eq_some_iff] at hv
    rcases hv with ⟨⟨a, _⟩, hrun, rfl⟩
    exact h.closed a _ hrun
  rw [worlds, List.pairwise_cons, List.pairwise_append]
  refine ⟨List.forall_mem_append.mpr ⟨h.opened, fun v hv => (hend v hv).1⟩, h.grown, ?_,
    fun u hu v hv => (hend v hv).2 u hu⟩
  cases run.outcome w with
  | none => exact List.Pairwise.nil
  | some result => exact List.pairwise_singleton _ _

end Recounted

/-! ### What clients do -/

open Recounted

variable {call : Code ν → Signal → Recounted ν τ EventFlags} {w : ClientWorld ν τ}
  {frames : List Frame}

/-- A new watcher is registered with what it has read. -/
theorem World.Enlists.watchAs (w : ClientWorld ν τ) (root : ObjectId) (path : String) (name : ν) :
    w.Enlists (w.watchAs root path name).2 := by
  have hwatched : w.Enlists
      (w.watch root path (.call (.watching ⟨w.subscribers.size⟩ name))).2 := by
    have hadded : w.Enlists (w.addSubscriber
        (.watcher ⟨root, path, .call (.watching ⟨w.subscribers.size⟩ name)⟩)).2 := .of_same rfl rfl
    rw [World.watch_eq]
    exact hadded.trans (.dependAll _ _ _)
  -- What the watcher has read first is written down if there is something.
  simp only [World.watchAs]
  split
  · next value result v _ hv =>
      rw [hv] at hwatched
      exact hwatched.trans (.of_same rfl rfl)
  · next e result v _ hv =>
      rw [hv] at hwatched
      exact hwatched

/-- Obtaining a value to write. -/
theorem Source.enlists {source : Source} {d : Data} {v : ClientWorld ν τ}
    (hrun : source.obtain w = some (d, v)) : w.Enlists v := by
  rcases Source.obtain_cases hrun with ⟨value, _, hobserve⟩ | ⟨_, _, _, rfl⟩ |
    ⟨o, _, _, _, ⟨_, rfl⟩ | ⟨_, rfl⟩⟩
  · have henlists : w.Enlists (World.observeValue value.plain w).2 := .observe value.plain w
    rwa [hobserve] at henlists
  · exact .refl v
  · exact .refl v
  · exact .of_same rfl rfl

theorem Recounted.Keeps.require (o : ObjectId) :
    (Recounted.lift (Run.require o) : Recounted ν τ Unit).Keeps w frames frames :=
  .lift fun _ _ hrun => (Run.require_eq_some_iff.mp hrun).2 ▸ .refl w

section Steps

variable (h : Steady call) (hwork : Frame.AtWork frames)
include h hwork

/-- A command. -/
theorem Command.keeps_recount (c : Command ν τ) (w : ClientWorld ν τ) :
    (c.recount call).Keeps w frames frames := by
  cases c with
  | look => exact .lift fun _ _ hrun => (Run.get_eq_some_iff.mp hrun).2 ▸ .refl w
  | remember change => exact .change (.of_same rfl rfl)
  | observe value =>
      refine .lift fun o? v hrun => ?_
      rcases run_observe_iff.mp hrun with ⟨u, hobserve, rfl⟩
      have hobserved : w.Enlists (w.observeRoot value).2 := by
        rw [World.observeRoot_eq]
        exact .observe value w
      rw [hobserve] at hobserved
      exact hobserved.trans (.of_same rfl rfl)
  | hold o =>
      refine .lift fun _ v hrun => ?_
      rcases run_hold_iff.mp hrun with ⟨_, rfl⟩
      exact .of_same rfl rfl
  | release o => exact .change (.of_same rfl rfl)
  | set o key source =>
      refine .bind (.lift fun d v => Source.enlists) fun d v _ => ?_
      exact .bind (.require o) fun _ v' _ => .pinned (keeps_setProperty h hwork _ _ _ _)
  | setPath root path source =>
      refine .bind (.lift fun d v => Source.enlists) fun d v _ => ?_
      exact .bind (.require root) fun _ v' _ => .pinned (keeps_setPath h hwork _ _ _ _)
  | watch root path name =>
      refine .lift fun _ v hrun => ?_
      have hwatch := (run_watch_iff.mp hrun).2
      have hwatched := World.Enlists.watchAs w root path name
      rwa [hwatch] at hwatched
  | notify o key =>
      refine .bind (.require o) fun _ v _ => .look ?_
      cases hp : v.property? o key with
      | none => exact .pure ()
      | some p =>
          refine .pinned (keeps_notify h ?_ hwork)
          have hplace : v.registryAt? (.field o key) = some p.registry := by
            rw [World.registryAt?, hp]
            rfl
          exact hplace

/-- A step of a client. -/
theorem Deed.keeps_recount (deed : Deed ν τ) (w : ClientWorld ν τ) :
    (deed.recount call).Keeps w frames frames := by
  cases deed with
  | data command => exact command.keeps_recount h hwork w
  | create => exact .apply (.addRegistry w)
  | probe name => exact .apply (.of_same rfl rfl)
  | add place s =>
      refine .lift fun _ v hrun => ?_
      simp only [Deed.run, Run.bind_eq_some_iff, Run.get_eq_some_iff, Run.ofOption_eq_some_iff,
        Run.change_eq_some_iff, Run.pure_eq_some_iff] at hrun
      rcases hrun with ⟨_, _, ⟨rfl, rfl⟩, r, _, ⟨_, rfl⟩, _, _, rfl, _, rfl⟩
      exact .enlist w place s
  | depend place reader =>
      refine .lift fun _ v hrun => ?_
      simp only [Deed.run, Run.bind_eq_some_iff, Run.get_eq_some_iff,
        Run.ofOption_eq_some_iff] at hrun
      rcases hrun with ⟨_, _, ⟨rfl, rfl⟩, r, _, ⟨_, rfl⟩, hrun⟩
      cases reader with
      | none => exact (Run.pure_eq_some_iff.mp hrun).2 ▸ .refl w
      | some s =>
          dsimp only at hrun
          split at hrun
          · exact (Run.pure_eq_some_iff.mp hrun).2 ▸ .refl w
          · rw [Run.change_eq_some_iff] at hrun
            subst hrun
            exact (World.Enlists.enlist w place s).trans (.of_same rfl rfl)
  | notify place =>
      refine .bind (.lift fun r v hrun => ?_) fun r v hrun => ?_
      · simp only [Run.bind_eq_some_iff, Run.get_eq_some_iff, Run.ofOption_eq_some_iff] at hrun
        rcases hrun with ⟨_, _, ⟨rfl, rfl⟩, _, rfl⟩
        exact .refl w
      · simp only [outcome_lift, Run.bind_eq_some_iff, Run.get_eq_some_iff,
          Run.ofOption_eq_some_iff] at hrun
        rcases hrun with ⟨_, _, ⟨rfl, rfl⟩, hplace, rfl⟩
        have hpinned : World.registryAt? { w with pins := [place.handle] ++ w.pins } place =
            some r := by
          cases place with
          | own r' => exact hplace
          | field o key => exact hplace
        exact .pinned (keeps_notify h hpinned hwork)
  | read root path reader => exact .apply (.readPath w reader root path)

end Steps

namespace Routine

/-- Whatever a client does, step by step. -/
theorem keeps_recount (h : Steady call) (hwork : Frame.AtWork frames) (p : Routine ν τ)
    (w : ClientWorld ν τ) : (p.recount call).Keeps w frames frames := by
  induction p generalizing w with
  | done => exact .mark nofun (Moment.pass_pause hwork)
  | act deed next ih =>
      refine .bind (.mark nofun (Moment.pass_pause hwork)) fun _ v _ => ?_
      exact .bind (deed.keeps_recount h hwork v) fun answer v' _ => ih answer v'

/-- Callbacks keep it, however deep they call each other. -/
theorem keeps_recountCall (code : ν → Signal → Routine ν τ) (depth : Nat) :
    Steady (recountCall code depth) := by
  induction depth with
  | zero =>
      intro callback signal w frames _
      exact .lift fun _ _ hrun => (Run.stuck_eq_some_iff.mp hrun).elim
  | succ depth ih =>
      -- The callbacks that are called meanwhile go one level less deep.
      intro callback signal w frames hwork
      refine .bind (.lift fun _ v hrun => ?_) fun _ v _ => ?_
      · unfold Program.takeNote at hrun
        split at hrun
        · rw [Run.change_eq_some_iff] at hrun
          subst hrun
          exact .of_same rfl rfl
        · exact (Run.pure_eq_some_iff.mp hrun).2 ▸ .refl w
      · exact .bind (keeps_recount ih hwork _ v) fun _ _ _ => .pure _

/-- Whatever clients and their callbacks do, whether they come to an end or not: registries list
    nobody twice, find exactly those whom they list, and have subscribers added at the end; and
    notifications go round those who are in the registry when they begin, in order, each with one
    turn that is over, with all that it has set off, before the next one. -/
theorem recount_spec (code : ν → Signal → Routine ν τ) (patience depth : Nat) (p : Routine ν τ)
    {w : ClientWorld ν τ} (hw : w.Orderly) :
    let run := p.recount (recountCall code depth)
    run.outcome = p.run ((behaviour code).host patience depth) ∧
    (∀ r v v', ((behaviour code).host patience depth).notify r v = some ((), v') ↔
      ((behaviour code).host patience depth).Round r.subscribers
        (v.notice (.notified r.subscribers.length)) v') ∧
    (∀ v ∈ run.worlds w, ∀ place r, v.registryAt? place = some r →
      r.subscribers.Nodup ∧ ∀ s, r.contains s = true ↔ s ∈ r.subscribers) ∧
    (run.worlds w).Pairwise (fun v u => ∀ place r, v.registryAt? place = some r →
      ∃ r', u.registryAt? place = some r' ∧ r.subscribers <+: r'.subscribers) ∧
    (∀ entry ∈ run.log w, ∀ place r, entry.moment = .notify place r →
      entry.world.registryAt? place = some r) ∧
    ∃ under, ((run.log w).map (·.moment)).foldlM Moment.pass [] = some under ∧
      (run.outcome w ≠ none → under = []) := by
  intro run
  -- The client begins with nothing under way, and ends so if it comes to an end.
  have hkeeps : run.Keeps w [] [] := keeps_recount (keeps_recountCall code depth) .idle p w
  have hgrown := hkeeps.pairwise
  refine ⟨outcome_recount code patience depth p, fun r v v' => Host.notify_eq_some_iff,
    fun v hv place r hr => ?_,
    hgrown.imp fun henlists place r => henlists.exists_prefix, hkeeps.fitting, hkeeps.passed⟩
  have henlists : w.Enlists v := by
    rcases List.mem_cons.mp hv with rfl | hv
    · exact .refl v
    · exact (List.pairwise_cons.mp hgrown).1 v hv
  have hcoherent := henlists.orderly hw place r hr
  exact ⟨hcoherent.nodup, hcoherent.contains_iff⟩

/-- A callback that has another one join the registry in which it is, and then notifies a second
    registry. Other callbacks do nothing. -/
def inviting : Bool → Signal → Routine Bool Unit
  | true, .updated =>
    .act (.probe false) fun s => .act (.add (.own ⟨0⟩) s) fun _ =>
      .act (.notify (.own ⟨1⟩)) fun _ => .done
  | _, _ => .done

/-- Creates a registry with two callbacks and one with the second of these, and notifies the
    first registry. -/
def gathering : Routine Bool Unit :=
  .act .create fun first => .act .create fun second =>
    .act (.probe true) fun s => .act (.probe false) fun t =>
      .act (.add (.own first) s) fun _ => .act (.add (.own first) t) fun _ =>
        .act (.add (.own second) t) fun _ => .act (.notify (.own first)) fun _ => .done

/-- The gathering, recounted. -/
def gathered : Recounted Bool Unit Unit :=
  gathering.recount (recountCall inviting 2)

/-- The second callback has a turn within the first one's and then its own. The one that has
    joined meanwhile stands behind them, and has had no turn. -/
theorem recount_spec_gathering :
    (World.start Bool ()).Orderly ∧
    ((gathered.log (World.start Bool ())).map (·.moment)).drop 8 =
      [.notify (.own ⟨0⟩) (.ofList [⟨0⟩, ⟨1⟩]),
        .update ⟨0⟩, .pause, .pause, .pause,
          .notify (.own ⟨1⟩) (.ofList [⟨1⟩]), .update ⟨1⟩, .pause, .updated ⟨1⟩, .notified,
          .pause, .updated ⟨0⟩,
        .update ⟨1⟩, .pause, .updated ⟨1⟩, .notified, .pause] ∧
    ((gathered.log (World.start Bool ())).map (·.moment)).foldlM Moment.pass [] = some [] ∧
    ∃ v, gathering.run ((behaviour inviting).host 0 2) (World.start Bool ()) = some ((), v) ∧
      v.registryAt? (.own ⟨0⟩) = some (.ofList [⟨0⟩, ⟨1⟩, ⟨2⟩]) ∧
      ∀ place r, v.registryAt? place = some r →
        r.subscribers.Nodup ∧ ∀ s, r.contains s = true ↔ s ∈ r.subscribers := by
  rcases recount_spec inviting 0 2 gathering (World.orderly_start ()) with
    ⟨hrun, _, hlisted, _, _, under, hpass, hend⟩
  have hfinal : (gathered.outcome (World.start Bool ())).bind (·.2.registryAt? (.own ⟨0⟩)) =
      some (.ofList [⟨0⟩, ⟨1⟩, ⟨2⟩]) := by
    decide +kernel
  rcases Option.bind_eq_some_iff.mp hfinal with ⟨⟨_, v⟩, hv, hregistry⟩
  have hsome : gathered.outcome (World.start Bool ()) ≠ none := by
    rw [hv]
    exact Option.some_ne_none _
  have hin : v ∈ gathered.worlds (World.start Bool ()) := by
    rw [worlds, hv]
    exact List.mem_cons_of_mem _ (List.mem_append_right _ (List.mem_singleton.mpr rfl))
  refine ⟨World.orderly_start (), by decide +kernel, ?_, v, ?_, hregistry,
    fun place r hr => hlisted v hin place r hr⟩
  · cases hend hsome
    exact hpass
  · rw [← hrun]
    exact hv

end Routine

end LiveTemplate
