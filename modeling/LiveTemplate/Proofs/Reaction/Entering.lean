import LiveTemplate.Proofs.Reaction.Bubbling
import LiveTemplate.Proofs.View.Filling

/-!
# Entering Text

What a node holds after any history, when listeners hear of what is entered.

Entering text sets the form value and tells the listeners at the node and above it. These may
do anything, and among other things to the node, in which case nothing can be said about its
form that is not a matter of the listeners. If they leave its form alone then so does entering,
but for the value.

Which nodes the listeners stand at is known only while the event is under way, since a listener
can move nodes and have others listen. So it is a condition on the world that says who listens
and what they rely on, and it has to be kept by them and by the history. It can also say what
else they leave alone. Other nodes are changed by nobody but them: the history itself changes the
form of the node and nothing else.

## Main definitions

* `World.SameForm`: A node has the same attributes and form value.
* `FormStep`, `FormStep.runAll`: What happens to a node.
* `Host.Spares`: Listeners leave the form of a node alone.
* `Host.Leaves`: They leave another node alone.
* `Host.LooksOn`: Callbacks that leave the whole view alone.

## Theorems

* `Host.Spares.dispatch`: Telling the listeners leaves the form alone.
* `Host.Spares.step`: What one step does to the form.
* `Host.LooksOn.spares`: Whoever leaves the view alone leaves the form alone.
* `reflects_of_runAll`: What any history does to it.
-/

namespace LiveTemplate

open Relation (ReflTransGen)

variable {κ σ : Type}

/-- The node is there still, and has the attributes and the form value that it had. -/
structure World.SameForm (n : NodeId) (w w' : World κ σ) : Prop where
  /-- The node is there. -/
  there : n.index < w.nodes.size → n.index < w'.nodes.size
  /-- Its attributes are the same. -/
  attributes : (w'.node n).attributes = (w.node n).attributes
  /-- So is its value. -/
  value : (w'.node n).value = (w.node n).value
  /-- So is whether the value has been set by itself. -/
  edited : (w'.node n).edited = (w.node n).edited

namespace World.SameForm

variable {n : NodeId} {u v w : World κ σ}

theorem refl (n : NodeId) (w : World κ σ) : SameForm n w w :=
  ⟨id, rfl, rfl, rfl⟩

theorem trans (h : SameForm n u v) (h' : SameForm n v w) : SameForm n u w :=
  ⟨h'.there ∘ h.there, h'.attributes.trans h.attributes, h'.value.trans h.value,
    h'.edited.trans h.edited⟩

/-- What a node tells depends on its form only. -/
theorem reflects (h : SameForm n v w) {edits : List FormEdit}
    (hv : (v.node n).Reflects edits) : (w.node n).Reflects edits := by
  refine ⟨?_, ?_, ?_, h.value.trans hv.value, h.edited.trans hv.edited⟩
  · rw [h.attributes]
    exact hv.nodup
  · rw [h.attributes]
    exact hv.present
  · rw [h.attributes]
    exact hv.ordered

end World.SameForm

/-- Something that happens to a node, or in between. -/
inductive FormStep (κ σ : Type) where
  /-- Its attributes or its form value are set. -/
  | edit (e : FormEdit)
  /-- Text is entered. -/
  | input (text : String)
  /-- Something else happens. -/
  | other (run : Run κ σ Unit)

/-- What the step does to the form of the node. Entering text sets the form value. -/
def FormStep.edit? : FormStep κ σ → Option FormEdit
  | edit e => some e
  | input text => some (.setValue text)
  | other _ => none

variable [Client σ]

namespace FormStep

/-- Takes the step at a node. -/
def run (host : Host κ σ) (n : NodeId) : FormStep κ σ → Run κ σ Unit
  | edit e => Run.change (e.apply n)
  | input text => do
    let _ ← host.input n text
  | other run => run

/-- Takes the steps one after the other. -/
def runAll (host : Host κ σ) (n : NodeId) : List (FormStep κ σ) → Run κ σ Unit
  | [] => pure ()
  | step :: rest => do
    step.run host n
    runAll host n rest

end FormStep

namespace Host

variable {host : Host κ σ} {pins : List Handle} {n m : NodeId} {history : List (FormStep κ σ)}
  {Q : World κ σ → Prop} {u v v' w w' : World κ σ} {e e' : Event}

/-- An event at the first node can come to the second one, if a condition says of the world when
    parents are asked for. -/
def MayReach (Q : World κ σ → Prop) : NodeId → NodeId → Prop :=
  ReflTransGen fun a b => ∃ v, Q v ∧ v.parent? a = some b

/-- Under a weaker condition it can come as far. -/
theorem MayReach.mono {Q' : World κ σ → Prop} (h : MayReach Q' n m) (hQ : ∀ v, Q' v → Q v) :
    MayReach Q n m :=
  ReflTransGen.mono (fun _ _ ⟨v, hv, hparent⟩ => ⟨v, hQ v hv, hparent⟩) n m h

/-- Those who hear of what is entered leave the form of the node alone, and so does whatever else
    happens, if a condition says of the world what they rely on. The condition is kept by them and
    by the steps that are taken. -/
structure Spares (host : Host κ σ) (pins : List Handle) (n : NodeId)
    (history : List (FormStep κ σ)) (Q : World κ σ → Prop) : Prop where
  /-- The steps keep the condition. -/
  edit : ∀ step ∈ history, ∀ e, step.edit? = some e → ∀ v, Q v → Q (e.apply n v)
  /-- So does what happens in between, which leaves the form alone. -/
  other : ∀ run, .other run ∈ history → ∀ v v', Q v → v.pins = pins → run v = some ((), v') →
    Q v' ∧ v'.pins = pins ∧ World.SameForm n v v'
  /-- The condition is met, too, while nodes on the way of the event are held on to. -/
  pinned : ∀ v, Q v → ∀ ns : List NodeId, (∀ m ∈ ns, MayReach Q n m) →
    Q { v with pins := ns.map .node ++ pins }
  /-- So do the listeners. -/
  turn : ∀ m, MayReach Q n m → ∀ u v, Q u → Q v → ∀ listener ∈ u.listenersOf m "input",
    ∀ flags e' v', host.runListener listener ⟨"input", some n, some m, flags⟩ v = some (e', v') →
      Q v' ∧ World.SameForm n v v'

/-- They leave another node alone. -/
structure Leaves (host : Host κ σ) (pins : List Handle) (n : NodeId)
    (history : List (FormStep κ σ)) (Q : World κ σ → Prop) (p : NodeId) : Prop where
  /-- What happens in between leaves it alone. -/
  other : ∀ run, .other run ∈ history → ∀ v v', Q v → v.pins = pins → run v = some ((), v') →
    v'.node p = v.node p
  /-- So do the listeners. -/
  turn : ∀ m, MayReach Q n m → ∀ u v, Q u → Q v → ∀ listener ∈ u.listenersOf m "input",
    ∀ flags e' v', host.runListener listener ⟨"input", some n, some m, flags⟩ v = some (e', v') →
      v'.node p = v.node p

namespace Spares

/-- The listeners at a node leave the form alone. -/
theorem runListeners (h : host.Spares pins n history Q) (hm : MayReach Q n m) (hu : Q u)
    {listeners : List (Listener κ)}
    (hlisteners : ∀ listener ∈ listeners, listener ∈ u.listenersOf m "input") (hv : Q v)
    {flags : EventFlags}
    (hrun : host.runListeners listeners ⟨"input", some n, some m, flags⟩ v = some (e', v')) :
    (∃ flags', e' = ⟨"input", some n, some m, flags'⟩) ∧ Q v' ∧ World.SameForm n v v' := by
  induction listeners generalizing v flags with
  | nil =>
      rcases runListeners_nil_iff.mp hrun with ⟨rfl, rfl⟩
      exact ⟨⟨flags, rfl⟩, hv, .refl n v⟩
  | cons listener rest ih =>
      rw [List.forall_mem_cons] at hlisteners
      rcases runListeners_cons_iff.mp hrun with ⟨e₁, v₁, hfirst, hrest⟩
      rcases h.turn m hm u v hu hv listener hlisteners.1 flags e₁ v₁ hfirst with ⟨hv₁, hform⟩
      rcases exists_raise hfirst with ⟨asked, rfl⟩
      rcases ih hlisteners.2 hv₁ hrest with ⟨hseen, hv', hform'⟩
      exact ⟨hseen, hv', hform.trans hform'⟩

/-- Wherever the event comes on its way up, the form is left alone. -/
theorem climb (h : host.Spares pins n history Q) (hm : MayReach Q n m) (hv : Q v)
    (hpins : v.pins = .node n :: pins) {limit : Nat} {current : Option NodeId}
    {flags : EventFlags}
    (hrun : host.climb limit m ⟨"input", some n, current, flags⟩ v = some (e', v')) :
    Q v' ∧ v'.pins = v.pins ∧ World.SameForm n v v' := by
  induction limit generalizing m v current flags with
  | zero => exact (climb_zero_eq_some_iff.mp hrun).elim
  | succ limit ih =>
      rcases climb_cases hrun with ⟨e₁, v₁, hturns, hrun⟩
      -- The target is held on to all the way, and each node while its listeners run.
      have hself : MayReach Q n n := .refl
      have hhere : Q { v with pins := [Handle.node m] ++ v.pins } := by
        rw [hpins]
        exact h.pinned v hv [m, n] (by simp [hm, hself])
      rcases h.runListeners hm hhere (fun _ hl => hl) hhere hturns with
        ⟨⟨flags', rfl⟩, hv₁, hform⟩
      have hleft : Q { v₁ with pins := v.pins } := by
        rw [hpins]
        exact h.pinned v₁ hv₁ [n] (by simp [hself])
      have hturn : World.SameForm n v { v₁ with pins := v.pins } :=
        ⟨hform.there, hform.attributes, hform.value, hform.edited⟩
      rcases hrun with ⟨_, _, rfl⟩ | ⟨_, _, _, rfl⟩ | ⟨_, p, hp, hrun⟩
      · exact ⟨hleft, rfl, hturn⟩
      · exact ⟨hleft, rfl, hturn⟩
      · have hreach : MayReach Q n p := hm.tail ⟨_, hleft, hp⟩
        rcases ih hreach hleft hpins hrun with ⟨hv', hpins', hform'⟩
        exact ⟨hv', hpins', hturn.trans hform'⟩

/-- Telling the listeners leaves the form alone. -/
theorem dispatch (h : host.Spares pins n history Q) (hv : Q v) (hpins : v.pins = pins)
    (hrun : host.dispatch n { kind := "input" } v = some (e', v')) :
    Q v' ∧ v'.pins = pins ∧ World.SameForm n v v' := by
  rcases dispatch_eq_some_iff.mp hrun with ⟨e₁, v₁, hclimb, _, rfl⟩
  have hself : MayReach Q n n := .refl
  have hstart : Q { v with pins := [Handle.node n] ++ v.pins } := by
    rw [hpins]
    exact h.pinned v hv [n] (by simp [hself])
  rcases h.climb hself hstart (by rw [hpins]; rfl) hclimb with ⟨hv₁, _, hform⟩
  refine ⟨?_, hpins, ⟨hform.there, hform.attributes, hform.value, hform.edited⟩⟩
  rw [hpins]
  exact h.pinned v₁ hv₁ [] (by simp)

omit [Client σ] in
/-- An edit shows at the node. -/
theorem reflects_apply {edits : List FormEdit} (hthere : n.index < v.nodes.size)
    (hreflects : (v.node n).Reflects edits) (e : FormEdit) :
    n.index < (e.apply n v).nodes.size ∧ ((e.apply n v).node n).Reflects (edits ++ [e]) := by
  rw [FormEdit.apply_eq_updateNode, World.size_nodes_updateNode, World.node_updateNode,
    if_pos ⟨rfl, hthere⟩]
  exact ⟨hthere, hreflects.edit e⟩

/-- What one step does to the form. -/
theorem step (h : host.Spares pins n history Q) {step : FormStep κ σ} (hstep : step ∈ history)
    {edits : List FormEdit} (hv : Q v) (hpins : v.pins = pins) (hthere : n.index < v.nodes.size)
    (hreflects : (v.node n).Reflects edits) {x : Unit}
    (hrun : step.run host n v = some (x, v')) :
    Q v' ∧ v'.pins = pins ∧ n.index < v'.nodes.size ∧
      (v'.node n).Reflects (edits ++ step.edit?.toList) := by
  cases step with
  | edit e =>
      rw [FormStep.run, Run.change_eq_some_iff] at hrun
      subst hrun
      have hafter := reflects_apply hthere hreflects e
      refine ⟨h.edit _ hstep e rfl v hv, ?_, hafter⟩
      rw [FormEdit.apply_eq_updateNode]
      exact hpins
  | input text =>
      simp only [FormStep.run, Run.bind_eq_some_iff, Run.pure_eq_some_iff,
        input_eq_some_iff] at hrun
      rcases hrun with ⟨e', _, hdispatch, _, rfl⟩
      have hentered := reflects_apply hthere hreflects (.setValue text)
      have hv₁ : Q (v.setValue n text) := h.edit _ hstep (.setValue text) rfl v hv
      rcases h.dispatch hv₁ hpins hdispatch with ⟨hv', hpins', hform⟩
      exact ⟨hv', hpins', hform.there hentered.1, hform.reflects hentered.2⟩
  | other run =>
      rcases h.other run hstep v v' hv hpins hrun with ⟨hv', hpins', hform⟩
      refine ⟨hv', hpins', hform.there hthere, ?_⟩
      rw [FormStep.edit?, Option.toList_none, List.append_nil]
      exact hform.reflects hreflects

/-- What steps do to the form. -/
theorem runAll (h : host.Spares pins n history Q) {steps : List (FormStep κ σ)}
    (hsteps : steps ⊆ history) {edits : List FormEdit} (hv : Q v) (hpins : v.pins = pins)
    (hthere : n.index < v.nodes.size) (hreflects : (v.node n).Reflects edits) {x : Unit}
    (hrun : FormStep.runAll host n steps v = some (x, v')) :
    Q v' ∧ (v'.node n).Reflects (edits ++ steps.filterMap FormStep.edit?) := by
  induction steps generalizing v edits with
  | nil =>
      rw [FormStep.runAll, Run.pure_eq_some_iff] at hrun
      rcases hrun with ⟨_, rfl⟩
      simpa using ⟨hv, hreflects⟩
  | cons step rest ih =>
      rw [List.cons_subset] at hsteps
      simp only [FormStep.runAll, Run.bind_eq_some_iff] at hrun
      rcases hrun with ⟨_, v₁, hfirst, hrest⟩
      rcases h.step hsteps.1 hv hpins hthere hreflects hfirst with
        ⟨hv₁, hpins₁, hthere₁, hreflects₁⟩
      have hall := ih hsteps.2 hv₁ hpins₁ hthere₁ hreflects₁ hrest
      have hedits : step.edit?.toList ++ rest.filterMap FormStep.edit? =
          (step :: rest).filterMap FormStep.edit? := by
        cases hedit : step.edit? <;> simp [hedit]
      rwa [List.append_assoc, hedits] at hall

omit [Client σ] in
/-- An edit changes no other node. -/
theorem node_apply (e : FormEdit) (v : World κ σ) {n p : NodeId} (hp : p ≠ n) :
    (e.apply n v).node p = v.node p := by
  rw [FormEdit.apply_eq_updateNode, World.node_updateNode_of_ne v _ (Ne.symm hp)]

/-- That another node is as it was may be asked for besides, if nobody changes it. -/
theorem and_leaves (h : host.Spares pins n history Q) {p : NodeId} (hp : p ≠ n)
    (hleaves : host.Leaves pins n history Q p) (w : World κ σ) :
    host.Spares pins n history fun v => Q v ∧ v.node p = w.node p where
  edit step hstep e he v hv :=
    ⟨h.edit step hstep e he v hv.1, (node_apply e v hp).trans hv.2⟩
  other run hrun v v' hv hpins hends := by
    rcases h.other run hrun v v' hv.1 hpins hends with ⟨hQ, hpins', hform⟩
    exact ⟨⟨hQ, (hleaves.other run hrun v v' hv.1 hpins hends).trans hv.2⟩, hpins', hform⟩
  pinned v hv ns hns :=
    ⟨h.pinned v hv.1 ns fun m hm => (hns m hm).mono fun _ hx => hx.1, hv.2⟩
  turn m hm u v hu hv listener hlistener flags e' v' hends := by
    have hreach : MayReach Q n m := hm.mono fun _ hx => hx.1
    rcases h.turn m hreach u v hu.1 hv.1 listener hlistener flags e' v' hends with ⟨hQ, hform⟩
    have hnode := hleaves.turn m hreach u v hu.1 hv.1 listener hlistener flags e' v' hends
    exact ⟨⟨hQ, hnode.trans hv.2⟩, hform⟩

end Spares

end Host

/-- Setting attributes and form values comes to an end with any host, as nobody is called, and
    changes no other node. -/
theorem FormStep.runAll_of_edits {n : NodeId} (edits : List FormEdit) (w : World κ σ) :
    ∃ w', (∀ host : Host κ σ, runAll host n (edits.map .edit) w = some ((), w')) ∧
      w.OnlyNodes w' ∧ ∀ m, m ≠ n → w'.node m = w.node m := by
  induction edits generalizing w with
  | nil => exact ⟨w, fun _ => rfl, .refl w, fun _ _ => rfl⟩
  | cons e rest ih =>
      rcases ih (e.apply n w) with ⟨w', hrun, honly, hnode⟩
      have hfirst : w.OnlyNodes (e.apply n w) := by
        rw [FormEdit.apply_eq_updateNode]
        exact .updateNode w n _
      refine ⟨w', fun host => ?_, hfirst.trans honly, fun m hm => ?_⟩
      · have hstep : (FormStep.edit e).run host n w = some ((), e.apply n w) := rfl
        rw [List.map_cons, runAll, Run.bind_of_eq_some hstep]
        exact hrun host
      · rw [hnode m hm, Host.Spares.node_apply e w hm]

/-! ### Listeners that only look on -/

namespace World

variable {n : NodeId} {v w : World κ σ}

omit [Client σ] in
/-- Having somebody listen leaves the forms alone. -/
theorem SameForm.listen (w : World κ σ) (m : NodeId) (kind : String) (listener : Listener κ)
    (n : NodeId) : SameForm n w (w.listen m kind listener) := by
  unfold World.listen
  refine ⟨fun hn => by rwa [size_nodes_updateNode],
    node_updateNode_congr Node.attributes ?_ w m n, node_updateNode_congr Node.value ?_ w m n,
    node_updateNode_congr Node.edited ?_ w m n⟩
  all_goals exact fun _ => rfl

omit [Client σ] in
/-- A node that is the same but for its place has the form that it had. -/
theorem SameForm.of_unplaced (hsize : v.nodes.size ≤ w.nodes.size)
    (h : (w.node n).unplaced = (v.node n).unplaced) : SameForm n v w where
  there hn := Nat.lt_of_lt_of_le hn hsize
  attributes := (congrArg Node.attributes h :)
  value := (congrArg Node.value h :)
  edited := (congrArg Node.edited h :)

omit [Client σ] in
/-- Callbacks are still the only ones to listen if nodes have the listeners that they had. -/
theorem OnlyCallbacks.of_listeners (h : v.OnlyCallbacks)
    (hlisteners : ∀ m, (w.node m).listeners = (v.node m).listeners) : w.OnlyCallbacks := by
  intro m entry hentry
  rw [hlisteners m] at hentry
  exact h m entry hentry

/-- Putting a node beneath another one leaves forms and listeners alone. -/
theorem OnlyCallbacks.append (h : v.OnlyCallbacks) (p c : NodeId) :
    (v.append p c).OnlyCallbacks ∧ (v.append p c).pins = v.pins ∧
      ∀ m, SameForm m v (v.append p c) := by
  cases hbeneath : v.isBeneath p c with
  | true =>
      have hrefused : v.append p c = v.notice (.beneathItself (v.node p).kind.tag) := by
        unfold World.append
        rw [hbeneath]
        rfl
      rw [hrefused]
      exact ⟨h, rfl, fun m => ⟨id, rfl, rfl, rfl⟩⟩
  | false =>
      have hplace := unplaced_append hbeneath
      refine ⟨h.of_listeners fun m => (congrArg Node.listeners (hplace m) :),
        (onlyNodes_append_of_not hbeneath).pins, fun m => .of_unplaced ?_ (hplace m)⟩
      exact Nat.le_of_eq (size_append hbeneath).symm

/-- Nobody listens but callbacks, and other nodes than this one have the form that they had. -/
structure Around (w : World κ σ) (n : NodeId) (v : World κ σ) : Prop where
  /-- Nobody listens but callbacks. -/
  callbacks : v.OnlyCallbacks
  /-- The forms of the others are as they were. -/
  others : ∀ m, m ≠ n → SameForm m w v

end World

namespace Host

variable {host : Host κ σ}

/-- Callbacks leave the view alone when an event reaches them. -/
def LooksOn (host : Host κ σ) : Prop :=
  ∀ callback e v flags v', host.call callback (.reached e) v = some (flags, v') →
    v'.nodes = v.nodes

/-- Callbacks that leave the view alone spare every node, in every view. -/
theorem LooksOn.spares (hhost : host.LooksOn) (w : World κ σ) {pins : List Handle} {n : NodeId}
    {history : List (FormStep κ σ)}
    (hother : ∀ run, .other run ∈ history → ∀ v v', v.OnlyCallbacks → v.pins = pins →
      run v = some ((), v') → v'.OnlyCallbacks ∧ v'.pins = pins ∧ ∀ m, World.SameForm m v v') :
    host.Spares pins n history (w.Around n) where
  edit step _ e _ v hv := by
    refine ⟨hv.callbacks.of_listeners fun m => ?_, fun m hm => (hv.others m hm).trans ?_⟩
    · rw [FormEdit.apply_eq_updateNode]
      exact World.node_updateNode_congr Node.listeners (fun node => by cases e <;> rfl) v n m
    · have hnode := Spares.node_apply e v hm
      refine .of_unplaced (Nat.le_of_eq ?_) (congrArg Node.unplaced hnode)
      rw [FormEdit.apply_eq_updateNode, World.size_nodes_updateNode]
  other run hrun v v' hv hpins h := by
    rcases hother run hrun v v' hv.callbacks hpins h with ⟨hcallbacks, hpins', hforms⟩
    exact ⟨⟨hcallbacks, fun m hm => (hv.others m hm).trans (hforms m)⟩, hpins', hforms n⟩
  pinned v hv ns _ :=
    ⟨hv.callbacks, fun m hm => (hv.others m hm).trans ⟨id, rfl, rfl, rfl⟩⟩
  turn m _ u v hu hv listener hlistener flags e' v' hrun := by
    rcases hu.callbacks.exists_callback hlistener with ⟨callback, rfl⟩
    rcases runListener_callback_iff.mp hrun with ⟨asked, hcall, _⟩
    have hnodes : v'.nodes = v.nodes := hhost callback _ v asked v' hcall
    have hnode : ∀ m, v'.node m = v.node m := fun m => by
      rw [World.node, hnodes, ← World.node]
    have hsize : v.nodes.size ≤ v'.nodes.size := Nat.le_of_eq (by rw [hnodes])
    have hforms : ∀ m, World.SameForm m v v' := fun m =>
      .of_unplaced hsize (congrArg Node.unplaced (hnode m))
    exact ⟨⟨hv.callbacks.of_listeners fun m => congrArg Node.listeners (hnode m),
      fun m hm => (hv.others m hm).trans (hforms m)⟩, hforms n⟩

end Host

/-! ### What a node holds in the end -/

/-- What is done to a new node decides what it holds, if those who hear of it leave its form
    alone: the names of its attributes are distinct, each has the value that it was set to last
    unless it has been removed since, they stand in the order in which they have arrived, and the
    form value is the last one entered or set, or else the last one of the attribute. The
    condition that those who listen keep holds in the end. Another node changes only if somebody
    who listens changes it, and setting attributes and form values calls nobody at all. -/
theorem reflects_of_runAll {host : Host κ σ} {kind : NodeKind} {w₀ w w' : World κ σ} {n : NodeId}
    {history : List (FormStep κ σ)} {Q : World κ σ → Prop} (hnew : w₀.newNode kind = (n, w))
    (hspares : host.Spares w.pins n history Q) (hQ : Q w)
    (hrun : FormStep.runAll host n history w = some ((), w')) :
    (w'.node n).Reflects (history.filterMap FormStep.edit?) ∧ Q w' ∧
      (∀ other, other ≠ n → host.Leaves w.pins n history Q other →
        w'.node other = w.node other) ∧
      ∀ (edits : List FormEdit) (v : World κ σ), ∃ v',
        (∀ host' : Host κ σ, FormStep.runAll host' n (edits.map .edit) v = some ((), v')) ∧
          v.OnlyNodes v' ∧ ∀ other, other ≠ n → v'.node other = v.node other := by
  obtain ⟨rfl, rfl⟩ := Prod.mk.inj hnew
  have hthere : w₀.nodes.size < (w₀.newNode kind).2.nodes.size := by
    rw [World.newNode, World.size_nodes_addNode]
    exact Nat.lt_succ_self _
  have hnode : ((w₀.newNode kind).2.node (w₀.newNode kind).1) = { kind } :=
    World.node_addNode_fst w₀ { kind }
  have hblank : ((w₀.newNode kind).2.node (w₀.newNode kind).1).Reflects [] := by
    rw [hnode]
    exact .nil rfl rfl rfl
  rcases hspares.runAll (List.Subset.refl history) hQ rfl hthere hblank hrun with ⟨hQ', hreflects⟩
  refine ⟨hreflects, hQ', fun other hother hleaves => ?_, FormStep.runAll_of_edits⟩
  have hboth := hspares.and_leaves hother hleaves (w₀.newNode kind).2
  rcases hboth.runAll (List.Subset.refl history) ⟨hQ, rfl⟩ rfl hthere hblank hrun with
    ⟨⟨_, hsame⟩, _⟩
  exact hsame

/-- A host whose client counts the calls. -/
def tallying : Host (Code Unit) (Journal Nat) where
  call _ _ := do
    Run.change (·.write fun j => { j with memory := j.memory + 1 })
    pure {}
  patience := 2

theorem tallying_looksOn : tallying.LooksOn := by
  intro callback e v flags v' hcall
  obtain ⟨_, rfl⟩ := Prod.mk.inj (Option.some.inj hcall)
  rfl

/-- A form that is held on to. -/
def blankForm : ClientWorld Unit Nat :=
  { ((World.start Unit 0).newNode (.element "form")).2 with pins := [.node ⟨0⟩] }

/-- A new field, which is not in the form yet. -/
def blankField : ClientWorld Unit Nat :=
  (blankForm.newNode (.element "input")).2

/-- The field is put into the form, which listens for what is entered. The field is given a value,
    text is entered, and the value is taken away and given again. -/
def fillingIn : List (FormStep (Code Unit) (Journal Nat)) :=
  [.other (Run.change (·.append ⟨0⟩ ⟨1⟩)),
    .other (Run.change (·.listen ⟨0⟩ "input" (.callback (.method ())))),
    .edit (.setAttribute "value" "a"),
    .edit (.setAttribute "type" "text"),
    .input "b",
    .edit (.removeAttribute "value"),
    .edit (.setAttribute "type" "search"),
    .edit (.setAttribute "value" "c")]

/-- Putting the field into the form and listening leave the forms as they are. -/
theorem spares_fillingIn : tallying.Spares [.node ⟨0⟩] ⟨1⟩ fillingIn (blankField.Around ⟨1⟩) := by
  refine tallying_looksOn.spares blankField fun run hrun v v' hv hpins hends => ?_
  simp only [fillingIn, List.mem_cons, FormStep.other.injEq, reduceCtorEq, List.not_mem_nil,
    or_false] at hrun
  rcases hrun with rfl | rfl
  · rw [Run.change_eq_some_iff] at hends
    subst hends
    rcases hv.append ⟨0⟩ ⟨1⟩ with ⟨hcallbacks, hsame, hforms⟩
    exact ⟨hcallbacks, hsame.trans hpins, hforms⟩
  · rw [Run.change_eq_some_iff] at hends
    subst hends
    exact ⟨hv.listen ⟨0⟩ "input" (Code.method ()), hpins, fun m => .listen v ⟨0⟩ _ _ m⟩

/-- The form afterwards. -/
def filledForm : ClientWorld Unit Nat :=
  ((FormStep.runAll tallying ⟨1⟩ fillingIn blankField).get (by decide +kernel)).2

/-- The form hears of what is entered and keeps its own value. The field has the attribute again
    that was taken away, behind the other one, and what was entered is still there. -/
theorem reflects_of_runAll_fillingIn :
    FormStep.runAll tallying ⟨1⟩ fillingIn blankField = some ((), filledForm) ∧
      filledForm.client.memory = 1 ∧
      (filledForm.node ⟨1⟩).attributes.map (·.1) = ["type", "value"] ∧
      (filledForm.node ⟨1⟩).attributes.get? "value" = some "c" ∧
      (filledForm.node ⟨1⟩).value = "b" ∧
      (filledForm.node ⟨0⟩).value = "" := by
  have hrun : FormStep.runAll tallying ⟨1⟩ fillingIn blankField = some ((), filledForm) :=
    Program.eq_some_get _
  have hstart : blankField.Around ⟨1⟩ blankField :=
    ⟨.of_isEmpty (by decide +kernel), fun m _ => .refl m _⟩
  have hnew : blankForm.newNode (.element "input") = (⟨1⟩, blankField) := rfl
  rcases reflects_of_runAll hnew spares_fillingIn hstart hrun with ⟨hreflects, haround, _⟩
  have hform := haround.others ⟨0⟩ (by decide)
  refine ⟨hrun, by decide +kernel, by decide +kernel, ?_, ?_, ?_⟩
  · exact (hreflects.present "value").trans (by decide)
  · exact hreflects.value.trans (by decide)
  · exact hform.value.trans (by decide)

end LiveTemplate
