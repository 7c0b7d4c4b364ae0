import LiveTemplate.Proofs.Binding.Hearing
import LiveTemplate.Proofs.Directive.Handling

/-!
# What Events Call

An event calls the methods that the attributes on its way ask for, and nobody else.

On its way up an event comes by a node, then by the one above it, and so on, up to the first
one with a handler that stops it. At each of them all handlers for its kind have their turn,
those behind the one that stops it, too. A handler first does to the event what its modifiers
ask for, and then calls its method.

A method may write anything that is shown on the way, so that the view changes under the
event. But the way up does not change, nodes keep their attributes, and nodes in the view
listen to what these ask for, so it can be read off the view before the event what will be
called.

What is called is written down by the methods themselves. A client whose methods do so first
of all, and that writes nothing else there, has the calls in its memory, in their order.

## Main definitions

* `Call`: A method that has been called.
* `Program.Notes`: Methods write down that they have been called.
* `Event.visited`: The nodes that an event comes by.
* `Template.callsAlong`: The calls on the way of an event.

## Theorems

* `logged_runListeners`: What is called at a node.
* `logged_climb`: What is called on the way up.
* `calls_of_dispatch`: What an event calls, and what has been done to it in the end.
-/

namespace LiveTemplate

open Markup
open Relation (ReflTransGen)

variable {ν τ : Type} {l l' : Licence τ} {w v w' : ClientWorld ν τ}

/-! ### What is asked for -/

/-- A method that has been called, on some data and because of an event. -/
structure Call (ν : Type) where
  /-- The method. -/
  method : ν
  /-- The data that it has got. -/
  data : ObjectId
  /-- The event that it has got. -/
  cause : Option Event
  deriving DecidableEq

namespace Event

variable {e : Event} {hs : NodeId → List Handler} {n : NodeId} {ns : List NodeId}

/-- The event after it has come by handlers, whose modifiers say what is done to it. -/
def after (e : Event) (handlers : List Handler) : Event :=
  e.raise ⟨handlers.any (·.modifiers.stop), handlers.any (·.modifiers.prevent)⟩

theorem after_nil (e : Event) : e.after [] = e := by
  rw [after, raise, EventFlags.union, List.any_nil, List.any_nil, Bool.or_false, Bool.or_false]

theorem after_cons (e : Event) (h : Handler) (handlers : List Handler) :
    e.after (h :: handlers) = (e.raise h.modifiers.flags).after handlers := by
  simp only [after, raise, EventFlags.union, Modifiers.flags, List.any_cons, Bool.or_assoc]

/-- The nodes on a way up that an event comes by: those up to the first one at which a handler
    stops it. -/
def visited (hs : NodeId → List Handler) : List NodeId → List NodeId
  | [] => []
  | n :: above => if (hs n).any (·.modifiers.stop) then [n] else n :: visited hs above

/-- The event after it has come by nodes. -/
def along (hs : NodeId → List Handler) : List NodeId → Event → Event
  | [], e => e
  | n :: ns, e => along hs ns ({ e with current := some n }.after (hs n))

/-- In the end an event has been stopped or prevented if a handler on its way asks for it. -/
theorem along_eq (e : Event) (ns : List NodeId) :
    { e.along hs ns with current := none } = { e with
      current := none
      flags := e.flags.union ⟨ns.any fun n => (hs n).any (·.modifiers.stop),
        ns.any fun n => (hs n).any (·.modifiers.prevent)⟩ } := by
  induction ns generalizing e with
  | nil => rw [along, List.any_nil, List.any_nil, EventFlags.union, Bool.or_false, Bool.or_false]
  | cons n ns ih =>
      rw [along, ih]
      simp only [after, raise, EventFlags.union, List.any_cons, Bool.or_assoc]

end Event

namespace Template

/-- The calls of handlers at a node, one after the other. What a handler's modifiers ask for has
    been done to the event before its method is called. -/
def callsFor (t : Template (Code ν)) : List Handler → Event → List (Call ν)
  | [], _ => []
  | h :: handlers, e =>
    (Table.find? h.method t.methods).toList.map
        (fun method => ⟨method.name, t.data, some (e.raise h.modifiers.flags)⟩) ++
      t.callsFor handlers (e.raise h.modifiers.flags)

/-- The calls at nodes that an event comes by, one after the other. -/
def callsAlong (t : Template (Code ν)) (hs : NodeId → List Handler) :
    List NodeId → Event → List (Call ν)
  | [], _ => []
  | n :: ns, e =>
    t.callsFor (hs n) { e with current := some n } ++
      t.callsAlong hs ns ({ e with current := some n }.after (hs n))

end Template

/-- What a directive listens to for a kind of event. -/
def Directive.listens? (t : Template (Code ν)) (kind : String) (d : Directive) :
    Option (Listener (Code ν)) :=
  ((d.ear? t).filter (·.1 == kind)).map (·.2)

/-- For an event, a directive has a form field write back, or is a handler, or does nothing. -/
theorem Directive.listens?_cases {t : Template (Code ν)} {kind : String} (hkind : kind ≠ "")
    {d : Directive} (hd : ∀ event modifiers, d.kind = .on event modifiers →
      event.isEmpty = false → ∃ method, Table.find? d.expression t.methods = some method) :
    (d.handler? kind = none ∧ (d.listens? t kind = none ∨
      d.listens? t kind = some (.writeBack t.data d.expression))) ∨
    ∃ method modifiers, Table.find? d.expression t.methods = some method ∧
      d.handler? kind = some ⟨d.expression, modifiers⟩ ∧
      d.listens? t kind = some (.handle t.data method modifiers) := by
  rw [Directive.handler?, Directive.listens?, Directive.ear?]
  cases hon : d.kind with
  | text | html | unknown => exact .inl ⟨rfl, .inl rfl⟩
  | model =>
      dsimp only
      rw [Option.filter_some]
      split
      · exact .inl ⟨rfl, .inr rfl⟩
      · exact .inl ⟨rfl, .inl rfl⟩
  | on event modifiers =>
      dsimp only
      by_cases hevent : event = kind
      · subst hevent
        have hsome : event.isEmpty = false := by
          rw [← Bool.not_eq_true, String.isEmpty_iff]
          exact hkind
        rcases hd event modifiers hon hsome with ⟨method, hmethod⟩
        refine .inr ⟨method, modifiers, hmethod, if_pos rfl, ?_⟩
        rw [hsome, if_neg Bool.false_ne_true, hmethod, Option.map_some, Option.filter_some,
          if_pos (beq_self_eq_true event), Option.map_some]
      · refine .inl ⟨if_neg hevent, .inl ?_⟩
        split
        · rfl
        · cases Table.find? d.expression t.methods with
          | none => rfl
          | some method =>
              rw [Option.map_some, Option.filter_some, if_neg (by rwa [beq_iff_eq]),
                Option.map_none]

/-! ### What is written down -/

/-- A client may do anything but change what it has written down. -/
def Licence.diary {δ : Type} (calls : τ → δ) : Licence τ where
  keeps m m' := calls m' = calls m
  watches _ := True
  shares _ := True

/-- A method first of all writes down that it is called. Nothing else is written down. -/
structure Program.Notes (calls : τ → List (Call ν)) (code : ν → Signal → Program ν τ) : Prop where
  /-- A method writes down that it is called. -/
  called : ∀ name data cause, ∃ change next,
    code name (.invoked data cause) = .ask (.remember change) next ∧
      (∀ m, calls (change m) = calls m ++ [⟨name, data, cause⟩]) ∧
        (next ()).Within (.diary calls)
  /-- Other callbacks write nothing down. -/
  quiet : ∀ name signal, signal.IsNews → (code name signal).Within (.diary calls)

namespace World

variable {calls : τ → List (Call ν)} {new new' : List (Call ν)}

/-- A client that may do more may do this. -/
theorem Happens.any (h : w.Happens l w') : w.Happens .any w' := by
  cases h with
  | pin pins => exact .pin w pins
  | note h => exact .note w h
  | remember => exact .remember trivial
  | observe value => exact .observe w value
  | watch path name _ hroot => exact .watch path name trivial hroot
  | follow hs => exact .follow hs
  | assign value hp => exact .assign value hp
  | share _ hd hp => exact .share trivial hd hp
  | «show» hs heffect shown => exact .show hs heffect shown
  | enter n text => exact .enter w n text

/-- Only what the client remembers changes its memory. -/
theorem Happens.memory (h : w.Happens l w') :
    w'.client.memory = w.client.memory ∨ l.keeps w.client.memory w'.client.memory := by
  cases h with
  | note h => exact .inl h
  | remember h => exact .inr h
  | observe value => exact .inl (congrArg _ (extends_observeValue value w).1.client)
  | assign value _ => exact .inl (congrArg Journal.memory (extends_observeValue value w).1.client)
  | @watch root path name _ _ =>
      rw [watch_eq, client_dependAll]
      exact .inl rfl
  | @follow s wt hs =>
      rw [(w.readPath_spec (some s) wt.root wt.path).1, client_dependAll]
      exact .inl rfl
  | @«show» s wt r _ _ shown => exact .inl (congrArg _ (w.onlyNodes_render r shown).client)
  | enter n text => exact .inl rfl
  | pin | share => exact .inl rfl

/-- Things have happened, and these calls have been written down. -/
structure Logged (calls : τ → List (Call ν)) (w w' : ClientWorld ν τ) (new : List (Call ν)) :
    Prop where
  /-- It is a course of events. -/
  course : w.Course .any w'
  /-- The calls stand behind those that had been written down. -/
  calls : calls w'.client.memory = calls w.client.memory ++ new

namespace Logged

theorem refl (calls : τ → List (Call ν)) (w : ClientWorld ν τ) : w.Logged calls w [] :=
  ⟨.refl, (List.append_nil _).symm⟩

theorem trans (h : w.Logged calls v new) (h' : v.Logged calls w' new') :
    w.Logged calls w' (new ++ new') :=
  ⟨h.course.trans h'.course, by rw [h'.calls, h.calls, List.append_assoc]⟩

/-- What is held on to meanwhile does not matter. -/
theorem unpin {pins : List Handle} (h : Logged calls { w with pins := pins } v new) :
    w.Logged calls { v with pins := w.pins } new :=
  ⟨h.course.unpin, h.calls⟩

/-- Nothing has been written down. -/
theorem of_course (h : w.Course (.diary calls) w') : w.Logged calls w' [] where
  course := ReflTransGen.mono (fun _ _ => Happens.any) _ _ h
  calls := by
    rw [List.append_nil]
    refine h.keeps (fun v => calls v.client.memory = calls w.client.memory)
      (fun hv hstep => ?_) rfl
    rcases hstep.memory with hsame | hkept
    · rw [hsame, hv]
    · exact hkept.trans hv

end Logged

end World

/-- A course of events changes neither the way up nor what the nodes on it listen to. -/
theorem World.Course.responsive {t : Template (Code ν)} {root : NodeId} {ns : List NodeId}
    (h : w.Course l w') (hview : w.Responsive t root) (hroute : w.Route ns) :
    w'.Responsive t root ∧ w'.Route ns ∧
      ∀ m ∈ ns, (w'.node m).attributes = (w.node m).attributes := by
  refine h.keeps (fun v => v.Responsive t root ∧ v.Route ns ∧
    ∀ m ∈ ns, (v.node m).attributes = (w.node m).attributes) (fun {v v'} hv hstep => ?_)
    ⟨hview, hroute, fun _ _ => rfl⟩
  rcases hv with ⟨hview, hroute, hsame⟩
  exact ⟨hstep.responsive hview, hstep.route hview.toCaptioned hroute, fun m hm =>
    (hstep.attributes hview.toCaptioned (hroute.lt m hm)).2.trans (hsame m hm)⟩

/-! ### What is called -/

namespace Program.Notes

variable {calls : τ → List (Call ν)} {code : ν → Signal → Program ν τ} {patience depth : Nat}
  {t : Template (Code ν)} {e e' : Event} {kind : String} {root n : NodeId} {above : List NodeId}

/-- Callbacks other than methods write nothing down. -/
theorem heeds (hnotes : Notes calls code) (patience depth : Nat) :
    ((behaviour code).host patience depth).Heeds (.diary calls) Signal.IsNews :=
  heeds_host (fun _ hnews => hnews) hnotes.quiet patience depth

/-- A method that is called is written down. -/
theorem logged_call (hnotes : Notes calls code) {c : Code ν} {data : ObjectId}
    {cause : Option Event} {flags : EventFlags}
    (hcall : ((behaviour code).host patience depth).call c (.invoked data cause) w =
      some (flags, w')) : w.Logged calls w' [⟨c.name, data, cause⟩] := by
  cases depth with
  | zero =>
      exact absurd hcall (by simp only [Behaviour.host, Run.stuck_eq_some_iff, not_false_eq_true])
  | succ depth =>
      rcases hnotes.called c.name data cause with ⟨change, next, hcode, hchange, hnext⟩
      simp only [Behaviour.host, behaviour, takeNote, hcode, Program.run, Command.run,
        Run.bind_eq_some_iff, Run.pure_eq_some_iff, Run.change_eq_some_iff] at hcall
      rcases hcall with ⟨_, _, ⟨_, rfl⟩, _, v, ⟨_, _, rfl, hrun⟩, _, rfl⟩
      have hnote : w.Logged calls (w.write fun j => { j with memory := change j.memory })
          [⟨c.name, data, cause⟩] :=
        ⟨.single (.remember trivial), hchange w.client.memory⟩
      exact hnote.trans (.of_course
        (course_of_run (hnotes.heeds patience depth) (fun _ hnews => hnews) hnext hrun))

/-- A handler does to the event what its modifiers ask for, and then calls its method. -/
theorem logged_handle (hnotes : Notes calls code) {data : ObjectId} {method : Code ν}
    {modifiers : Modifiers} (hdata : .object data ∈ w.pins)
    (hrun : ((behaviour code).host patience depth).runListener
      (.handle data method modifiers) e w = some (e', w')) :
    e' = e.raise modifiers.flags ∧ w'.pins = w.pins ∧
      w.Logged calls w' [⟨method.name, data, some (e.raise modifiers.flags)⟩] := by
  rcases Host.runListener_handle_cases hrun with ⟨rfl, ⟨hgone, _⟩ | ⟨_, flags, v, hcall, rfl⟩⟩
  · exact absurd (hgone.symm.trans (World.alive_of_mem_pins hdata)) Bool.false_ne_true
  · exact ⟨rfl, rfl, (hnotes.logged_call hcall).unpin⟩

/-- A form field that writes back what has been entered calls nobody. -/
theorem logged_writeBack (hnotes : Notes calls code) {data : ObjectId} {path : String}
    (hrun : ((behaviour code).host patience depth).runListener (.writeBack data path) e w =
      some (e', w')) : e' = e ∧ w'.pins = w.pins ∧ w.Logged calls w' [] := by
  rcases (hnotes.heeds patience depth).writeBack (fun _ hnews => hnews) hrun with ⟨rfl, hcourse⟩
  refine ⟨rfl, ?_, .of_course hcourse⟩
  rcases Serves.writeBack_cases hrun with ⟨_, ⟨rfl, _⟩ | ⟨_, _, v, _, _, _, rfl⟩⟩
  · rfl
  · rfl

/-- What is called when the listeners of directives run: the methods of the handlers among them. -/
theorem logged_runListeners (hnotes : Notes calls code) {ds : List Directive}
    (hds : t.Answers ds) (hkind : kind ≠ "") (hdata : .object t.data ∈ w.pins)
    (hrun : ((behaviour code).host patience depth).runListeners
      (ds.filterMap (Directive.listens? t kind)) e w = some (e', w')) :
    e' = e.after (ds.filterMap (Directive.handler? kind)) ∧ w'.pins = w.pins ∧
      w.Logged calls w' (t.callsFor (ds.filterMap (Directive.handler? kind)) e) := by
  induction ds generalizing e w with
  | nil =>
      rw [List.filterMap_nil, Host.runListeners_nil_iff] at hrun
      rcases hrun with ⟨rfl, rfl⟩
      exact ⟨(Event.after_nil e).symm, rfl, .refl calls w⟩
  | cons d ds ih =>
      have hrest : t.Answers ds := fun d' hd' => hds d' (List.mem_cons_of_mem d hd')
      rcases Directive.listens?_cases hkind (hds d List.mem_cons_self) with
        ⟨hhandler, hnone | hback⟩ | ⟨method, modifiers, hmethod, hhandler, hhandle⟩
      · rw [List.filterMap_cons_none hnone] at hrun
        rw [List.filterMap_cons_none hhandler]
        exact ih hrest hdata hrun
      · rw [List.filterMap_cons_some hback, Host.runListeners_cons_iff] at hrun
        rcases hrun with ⟨e₁, v, hfirst, hrun⟩
        rcases hnotes.logged_writeBack hfirst with ⟨rfl, hpins, hlogged⟩
        rcases ih hrest (hpins ▸ hdata) hrun with ⟨hafter, hpins', hlogged'⟩
        rw [List.filterMap_cons_none hhandler]
        exact ⟨hafter, hpins'.trans hpins, hlogged.trans hlogged'⟩
      · rw [List.filterMap_cons_some hhandle, Host.runListeners_cons_iff] at hrun
        rcases hrun with ⟨e₁, v, hfirst, hrun⟩
        rcases hnotes.logged_handle hdata hfirst with ⟨rfl, hpins, hlogged⟩
        rcases ih hrest (hpins ▸ hdata) hrun with ⟨hafter, hpins', hlogged'⟩
        rw [List.filterMap_cons_some hhandler, Event.after_cons, Template.callsFor, hmethod]
        exact ⟨hafter, hpins'.trans hpins, hlogged.trans hlogged'⟩

/-- What is called at a node in the view: the methods of its handlers. -/
theorem logged_visit (hnotes : Notes calls code) (hview : w.Responsive t root)
    (hn : w.InView root n) (hkind : e.kind ≠ "") (hdata : .object t.data ∈ w.pins)
    (hrun : ((behaviour code).host patience depth).runListeners (w.listenersOf n e.kind) e
      { w with pins := [.node n] ++ w.pins } = some (e', v)) :
    e' = e.after (handlersFor t.markers e.kind (w.node n).attributes) ∧
      w.Logged calls { v with pins := w.pins }
        (t.callsFor (handlersFor t.markers e.kind (w.node n).attributes) e) := by
  have hheard : w.listenersOf n e.kind =
      (directivesOf t.markers (w.node n).attributes).filterMap (Directive.listens? t e.kind) := by
    rw [World.listenersOf, hview.tuned n hn, Template.ears, List.filter_filterMap,
      List.map_filterMap]
    rfl
  rw [hheard] at hrun
  rw [← filterMap_handler? t.markers hkind]
  rcases hnotes.logged_runListeners (hview.answered n hn) hkind
    (List.mem_append_right _ hdata) hrun with ⟨hafter, _, hlogged⟩
  exact ⟨hafter, hlogged.unpin⟩

/-- What is called on the way up: at each node that the event comes by, the methods of the
    handlers there. -/
theorem logged_climb (hnotes : Notes calls code) {limit : Nat} {hs : NodeId → List Handler}
    (hview : w.Responsive t root) (hroute : w.Route (n :: above))
    (hlast : (n :: above).getLast? = some root) (hdata : .object t.data ∈ w.pins)
    (hroot : .node root ∈ w.pins) (hkind : e.kind ≠ "") (hgoing : e.flags.stopped = false)
    (hhs : ∀ m ∈ n :: above, hs m = handlersFor t.markers e.kind (w.node m).attributes)
    (hrun : ((behaviour code).host patience depth).climb limit n e w = some (e', w')) :
    e' = e.along hs (Event.visited hs (n :: above)) ∧
      w.Logged calls w' (t.callsAlong hs (Event.visited hs (n :: above)) e) := by
  induction limit generalizing n above e w with
  | zero => exact (Host.climb_zero_eq_some_iff.mp hrun).elim
  | succ limit ih =>
      rcases Host.climb_cases hrun with ⟨e₁, v, hhere, hrun⟩
      rcases hnotes.logged_visit (e := { e with current := some n }) hview
        (World.inView_of_isChain hroute.isChain hlast n List.mem_cons_self) hkind hdata hhere with
        ⟨rfl, hlogged⟩
      rw [← hhs n List.mem_cons_self] at hrun hlogged
      have hgone : ({ e with current := some n }.after (hs n)).flags.stopped =
          (hs n).any (·.modifiers.stop) := by
        rw [Event.after, Event.raise, EventFlags.union, hgoing, Bool.false_or]
      rw [hgone] at hrun
      rw [Event.visited]
      -- The view may look different now, but not on the way.
      rcases hlogged.course.responsive hview hroute with ⟨hview', hroute', hsame⟩
      rw [hroute'.parent?_eq hlast (World.alive_of_mem_pins hroot)] at hrun
      rcases hrun with ⟨hstop, rfl, rfl⟩ | ⟨hgo, hhead, rfl, rfl⟩ | ⟨hgo, p, hhead, hrun⟩
      · rw [if_pos hstop]
        exact ⟨rfl, by rwa [Template.callsAlong, Template.callsAlong, List.append_nil]⟩
      · rw [List.head?_eq_none_iff] at hhead
        subst hhead
        rw [hgo, if_neg Bool.false_ne_true]
        refine ⟨rfl, ?_⟩
        rwa [Template.callsAlong, Event.visited, Template.callsAlong, List.append_nil]
      · rcases List.head?_eq_some_iff.mp hhead with ⟨above, rfl⟩
        have hhs' : ∀ m ∈ p :: above, hs m =
            handlersFor t.markers e.kind (World.node { v with pins := w.pins } m).attributes := by
          intro m hm
          rw [hsame m (List.mem_cons_of_mem n hm)]
          exact hhs m (List.mem_cons_of_mem n hm)
        rw [List.getLast?_cons_cons] at hlast
        rcases ih (e := { e with current := some n }.after (hs n)) hview' hroute'.tail hlast hdata
          hroot hkind (hgone.trans hgo) hhs' hrun with ⟨he, hlogged'⟩
        rw [hgo, if_neg Bool.false_ne_true]
        exact ⟨he, hlogged.trans hlogged'⟩

/-- An event that starts at a text goes on to the element above it. -/
theorem climb_of_isText {host : Host (Code ν) (Journal τ)} {limit : Nat} {p : NodeId}
    (hview : w.Responsive t root) (hn : (w.node n).kind.isText = true)
    (hlisted : n ∈ (w.node p).children) (hin : w.InView root p)
    (halive : w.alive (.node p) = true) (hgoing : e.flags.stopped = false)
    (hrun : host.climb limit n e w = some (e', w')) :
    (w.node n).attributes = [] ∧
      ∃ limit', host.climb limit' p { e with current := some n } w = some (e', w') := by
  have hbare := (hview.tidy n (World.isElement_of_isText hn)).2
  refine ⟨hbare, ?_⟩
  cases limit with
  | zero => exact (Host.climb_zero_eq_some_iff.mp hrun).elim
  | succ limit =>
      rcases Host.climb_cases hrun with ⟨e₁, v, hhere, hrun⟩
      have hsilent : w.listenersOf n e.kind = [] := by
        rw [World.listenersOf, hview.tuned n (hin.tail hlisted), hbare]
        rfl
      rw [hsilent, Host.runListeners_nil_iff] at hhere
      rcases hhere with ⟨rfl, rfl⟩
      have hparent : w.parent? n = some p := by
        rw [World.parent?, hview.listed p n hlisted, Option.filter_some, if_pos halive]
      rcases hrun with ⟨hstop, _⟩ | ⟨_, hnone, _⟩ | ⟨_, p', hsome, hrun⟩
      · exact absurd (hgoing.symm.trans hstop) Bool.false_ne_true
      · exact absurd (hparent.symm.trans hnone) (Option.some_ne_none p)
      · have hp : p = p' := Option.some.inj (hparent.symm.trans hsome)
        subst hp
        exact ⟨limit, hrun⟩

/-- What is called by an event that starts at any node in the view. A text that shows a value may
    be gone when a method has been called, but no method is called there. -/
theorem logged_climb_of_isChain (hnotes : Notes calls code) {limit : Nat}
    {hs : NodeId → List Handler} (hview : w.Responsive t root)
    (hpath : (n :: above).IsChain fun c p => c ∈ (w.node p).children)
    (hlast : (n :: above).getLast? = some root) (hdata : .object t.data ∈ w.pins)
    (hroot : .node root ∈ w.pins) (hkind : e.kind ≠ "") (hgoing : e.flags.stopped = false)
    (hhs : ∀ m ∈ n :: above, hs m = handlersFor t.markers e.kind (w.node m).attributes)
    (hrun : ((behaviour code).host patience depth).climb limit n e w = some (e', w')) :
    e' = e.along hs (Event.visited hs (n :: above)) ∧
      w.Logged calls w' (t.callsAlong hs (Event.visited hs (n :: above)) e) := by
  have hroute := fun hn => World.Route.of_isChain hview.toCaptioned hview.there hview.alone hpath
    hlast hn
  cases hn : (w.node n).kind.isText with
  | false => exact hnotes.logged_climb hview (hroute hn) hlast hdata hroot hkind hgoing hhs hrun
  | true =>
      cases above with
      | nil =>
          rw [List.getLast?_singleton, Option.some.injEq] at hlast
          subst hlast
          exact hnotes.logged_climb hview (.top hview.there hview.alone) rfl hdata hroot hkind
            hgoing
            hhs hrun
      | cons p above =>
          rw [List.isChain_cons_cons] at hpath
          rw [List.getLast?_cons_cons] at hlast
          have hroute := World.Route.of_isChain hview.toCaptioned hview.there hview.alone hpath.2
            hlast (hview.tidy.isText_eq_false hpath.1)
          have hin := World.inView_of_isChain hpath.2 hlast p List.mem_cons_self
          have halive := hroute.alive hlast (World.alive_of_mem_pins hroot)
          rcases climb_of_isText hview hn hpath.1 hin halive hgoing hrun with ⟨hbare, limit', hrun⟩
          have hsilent : hs n = [] := by
            rw [hhs n List.mem_cons_self, hbare]
            rfl
          rcases hnotes.logged_climb (e := { e with current := some n }) hview hroute hlast hdata
            hroot hkind hgoing (fun m hm => hhs m (List.mem_cons_of_mem n hm)) hrun with
            ⟨he, hlogged⟩
          rw [Event.visited, hsilent, List.any_nil, if_neg Bool.false_ne_true, Event.along,
            Template.callsAlong, hsilent, Event.after_nil, Template.callsFor, List.nil_append]
          exact ⟨he, hlogged⟩

/-- What is called when an event is dispatched at any node in the view. -/
theorem logged_dispatch (hnotes : Notes calls code) (hview : w.Responsive t root)
    (hpath : (n :: above).IsChain fun c p => c ∈ (w.node p).children)
    (hlast : (n :: above).getLast? = some root) (hdata : .object t.data ∈ w.pins)
    (hroot : .node root ∈ w.pins) (hkind : kind ≠ "") {hs : NodeId → List Handler}
    (hhs : ∀ m, hs m = handlersFor t.markers kind (w.node m).attributes)
    (hrun : ((behaviour code).host patience depth).dispatch n { kind } w = some (e', w')) :
    e' = { kind, target := some n, flags :=
        ⟨(Event.visited hs (n :: above)).any fun m => (hs m).any (·.modifiers.stop),
          (Event.visited hs (n :: above)).any fun m => (hs m).any (·.modifiers.prevent)⟩ } ∧
      w.Logged calls w' (t.callsAlong hs (Event.visited hs (n :: above))
        { kind, target := some n }) := by
  rcases Host.dispatch_eq_some_iff.mp hrun with ⟨e₁, v, hclimb, rfl, rfl⟩
  have hview' := World.Happens.responsive (l := .any) (.pin w ([.node n] ++ w.pins)) hview
  rcases hnotes.logged_climb_of_isChain hview' hpath hlast (List.mem_append_right _ hdata)
    (List.mem_append_right _ hroot) hkind rfl (fun m _ => hhs m) hclimb with ⟨rfl, hlogged⟩
  refine ⟨?_, hlogged.unpin⟩
  rw [Event.along_eq]
  rfl

end Program.Notes

/-- There is the method of a handler. -/
theorem exists_method {t : Template (Code ν)} {kind : String} {attributes : Attributes}
    {h : Handler} (hds : t.Answers (directivesOf t.markers attributes)) (hkind : kind ≠ "")
    (hh : h ∈ handlersFor t.markers kind attributes) :
    ∃ method, Table.find? h.method t.methods = some method := by
  rw [← filterMap_handler? t.markers hkind] at hh
  rcases List.mem_filterMap.mp hh with ⟨d, hd, hhandler⟩
  rcases Directive.listens?_cases hkind (hds d hd) with
    ⟨hnone, _⟩ | ⟨method, modifiers, hmethod, hsome, _⟩
  · exact absurd (hnone.symm.trans hhandler) nofun
  · rw [hsome, Option.some.injEq] at hhandler
    exact ⟨method, hhandler ▸ hmethod⟩

/-- What an event calls. An application has been built from a template that puts no markup from
    values anywhere, then anything has happened to it, and now an event is dispatched at any
    node in its view. It comes by this node and the ones above it up to the first one with a
    handler that stops it. For each of them, it calls the methods of all handlers for its kind,
    one after the other, and nothing else. A method gets the event with what its own handler
    asks for. In the end the event has been stopped or prevented if a handler on its way asks
    for it. -/
theorem calls_of_dispatch {calls : τ → List (Call ν)} {code : ν → Signal → Program ν τ}
    {patience depth levels : Nat} {memory : τ} {session : List (Program ν τ)}
    {moves : List (Move ν τ)} {b : Blueprint (Code ν)} {tree : Tree} {app : App (Code ν)}
    {w₀ w₁ w₂ w₃ : ClientWorld ν τ} {kind : String} {n : NodeId} {above : List NodeId} {e' : Event}
    (hnotes : Program.Notes calls code)
    (hsession : Program.runAll ((Program.behaviour code).host patience depth) session
      (World.start ν memory) = some ((), w₀))
    (htextual : b.IsTextual tree) (hbuild : b.build levels w₀ = some (.ok app, w₁))
    (hmoves : Run.pinned app.pins
      (Move.runAll ((Program.behaviour code).host patience depth) app moves) w₁ = some ((), w₂))
    (hkind : kind ≠ "") (hpath : (n :: above).IsChain fun c p => c ∈ (w₂.node p).children)
    (hroot : (n :: above).getLast? = some app.root)
    (hrun : Run.pinned app.pins
      (((Program.behaviour code).host patience depth).dispatch n { kind }) w₂ = some (e', w₃)) :
    let hs := fun m => handlersFor b.markers kind (w₂.node m).attributes
    let visited := Event.visited hs (n :: above)
    (∀ m ∈ n :: above, ∀ h ∈ hs m, ∃ method, Table.find? h.method b.methods = some method) ∧
      calls w₃.client.memory = calls w₂.client.memory ++
        (b.forData app.data).callsAlong hs visited { kind, target := some n } ∧
      e' = { kind, target := some n, flags :=
        ⟨visited.any fun m => (hs m).any (·.modifiers.stop),
          visited.any fun m => (hs m).any (·.modifiers.prevent)⟩ } := by
  have hview := (course_of_moves (fun name signal => (code name signal).within_any)
    (fun m _ => m.within_any) hmoves).keeps
    (World.Responsive (b.forData app.data) app.root) (fun hview hstep => hstep.responsive hview)
    (responsive_of_build htextual (World.viewless_of_session hsession) hbuild)
  rcases Run.pinned_eq_some_iff.mp hrun with ⟨v, hdispatch, rfl⟩
  have hpinned := World.Happens.responsive (l := .any) (.pin w₂ (app.pins ++ w₂.pins)) hview
  rcases hnotes.logged_dispatch hpinned hpath hroot
    (List.mem_append_left _ List.mem_cons_self)
    (List.mem_append_left _ (List.mem_cons_of_mem _ List.mem_cons_self)) hkind (fun _ => rfl)
    hdispatch with ⟨he, hlogged⟩
  refine ⟨fun m hm h hh => ?_, hlogged.calls, he⟩
  exact exists_method (hview.answered m (World.inView_of_isChain hpath hroot m hm)) hkind hh

/-- Methods that write down that they are called, and then give a message their name. -/
def announce : String → Signal → Program String (List (Call String))
  | name, .invoked data cause =>
    .ask (.remember (· ++ [⟨name, data, cause⟩])) fun _ =>
      .ask (.setPath data "m" (.literal (.json (.string name)))) fun _ => .done
  | _, _ => .done

theorem notes_announce : Program.Notes id announce where
  called name data cause := ⟨_, _, rfl, fun _ => rfl, trivial, fun _ => trivial⟩
  quiet name signal hnews := by
    cases signal with
    | invoked => exact absurd hnews id
    | updated | changed | reached => exact trivial

/-- A message, as a label, with handlers above it. One of them stops the event. -/
def board : Blueprint (Code String) where
  data := some (.object [("m", .string "none")])
  template := some
    "<div @click=\"outer\"><p v-on:click.stop=\"first\" @click.prevent=\"second\"><b v-text=\"m\"></b></p></div>"
  methods := [("outer", .method "outer"), ("first", .method "first"), ("second", .method "second")]

/-- The template, read. -/
def boardTree : Tree :=
  .element "div" [("@click", "outer")] [.element "p"
    [("v-on:click.stop", "first"), ("@click.prevent", "second")]
    [.element "b" [("v-text", "m")] []]]

/-- The application with the message. -/
def boardApp : App (Code String) :=
  ⟨⟨0⟩, ⟨0⟩, board.methods⟩

/-- The message is another one. -/
def posting : List (Move String (List (Call String))) :=
  [.set "m" (.literal (.json (.string "Hi")))]

theorem isTextual_board : board.IsTextual boardTree :=
  ⟨rfl, ⟨_, rfl, by decide +kernel⟩, by decide +kernel⟩

/-- The world in the beginning, in which nothing has been written down. -/
def blankWorld : ClientWorld String (List (Call String)) :=
  World.start String []

theorem isSome_board : (board.build 9 blankWorld).isSome = true := by
  decide +kernel

/-- The world in which the board is shown. -/
def boardWorld : ClientWorld String (List (Call String)) :=
  ((board.build 9 blankWorld).get isSome_board).2

theorem isSome_posting : (Run.pinned boardApp.pins (Move.runAll
    ((Program.behaviour announce).host 9 9) boardApp posting) boardWorld).isSome = true := by
  decide +kernel

/-- The world with the other message. -/
def postedWorld : ClientWorld String (List (Call String)) :=
  ((Run.pinned boardApp.pins (Move.runAll ((Program.behaviour announce).host 9 9) boardApp
    posting) boardWorld).get isSome_posting).2

theorem isSome_clicking : (Run.pinned boardApp.pins
    (((Program.behaviour announce).host 9 9).dispatch ⟨4⟩ { kind := "click" })
    postedWorld).isSome = true := by
  decide +kernel

/-- The event and the world after a click on the message. -/
def clicked : Event × ClientWorld String (List (Call String)) :=
  (Run.pinned boardApp.pins (((Program.behaviour announce).host 9 9).dispatch
    ⟨4⟩ { kind := "click" }) postedWorld).get isSome_clicking

/-- Both methods at the paragraph are called, the second one after the event has been stopped and
    the message has been replaced. -/
theorem calls_of_dispatch_board :
    board.build 9 blankWorld = some (.ok boardApp, boardWorld) ∧
      Run.pinned boardApp.pins (((Program.behaviour announce).host 9 9).dispatch
        ⟨4⟩ { kind := "click" }) postedWorld = some clicked ∧
      clicked.2.client.memory =
        [⟨"first", ⟨0⟩, some ⟨"click", some ⟨4⟩, some ⟨1⟩, ⟨true, false⟩⟩⟩,
          ⟨"second", ⟨0⟩, some ⟨"click", some ⟨4⟩, some ⟨1⟩, ⟨true, true⟩⟩⟩] ∧
      clicked.1 = ⟨"click", some ⟨4⟩, none, ⟨true, true⟩⟩ ∧
      (clicked.2.node ⟨4⟩).parent = none := by
  have hsession : Program.runAll ((Program.behaviour announce).host 9 9) []
      blankWorld = some ((), World.start String []) := rfl
  have hbuild : board.build 9 blankWorld = some (.ok boardApp, boardWorld) :=
    Run.eq_some_of_fst isSome_board (by decide +kernel)
  have hmoves : Run.pinned boardApp.pins (Move.runAll ((Program.behaviour announce).host 9 9)
      boardApp posting) boardWorld = some ((), postedWorld) := Program.eq_some_get isSome_posting
  have hpath : ([⟨4⟩, ⟨2⟩, ⟨1⟩, ⟨0⟩] : List NodeId).IsChain fun c p =>
      c ∈ (postedWorld.node p).children := by decide +kernel
  have hrun : Run.pinned boardApp.pins (((Program.behaviour announce).host 9 9).dispatch
      ⟨4⟩ { kind := "click" }) postedWorld = some (clicked.1, clicked.2) :=
    (Option.some_get isSome_clicking).symm
  rcases calls_of_dispatch notes_announce hsession isTextual_board hbuild hmoves
    (by decide) hpath rfl hrun with ⟨_, hcalls, he⟩
  refine ⟨hbuild, hrun, hcalls.trans ?_, he.trans ?_, by decide +kernel⟩
  · decide +kernel
  · decide +kernel

end LiveTemplate
