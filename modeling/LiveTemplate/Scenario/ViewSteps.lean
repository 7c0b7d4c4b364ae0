import LiveTemplate.Scenario.Session

/-!
# Steps on the View

## Main definitions

* `ViewStep.perform`: What a step on nodes does and answers.
* `EventStep.perform`: What a step on events does and answers.
* `Context.after`: What a step does to the event that is being listened to.
-/

namespace LiveTemplate

namespace Scenario

open Act

/-- The node is of the kind that a word names. -/
def isKind (w : Stage) (word : String) (n : NodeId) : Bool :=
  match (w.node n).kind with
  | .element _ => word == "element"
  | .text _ => word == "text"
  | .comment _ => word == "comment"

/-- What a node shows contains a text. -/
def showsText (w : Stage) (text : String) (n : NodeId) : Bool :=
  (w.textContent? n).any fun shown => (Text.cutAt? text.toList shown.toList).isSome

/-- The node satisfies each condition that is given: a kind, an attribute, a text. -/
def satisfies (kind attr text : Option String) (w : Stage) (n : NodeId) : Bool :=
  kind.all (isKind w · n) && attr.all (fun name => ((w.node n).attributes.get? name).isSome) &&
    text.all (showsText w · n)

/-- A node and its surroundings as replies show them. -/
def inspect (w : Stage) (n : NodeId) : Inspection :=
  let node := w.node n
  ⟨viewNode w n, node.kind.isElement, node.kind.isText, node.kind.tag,
    (w.parent? n).map (viewNode w), node.children.map (viewNode w)⟩

/-- Performs a step on nodes. -/
def ViewStep.perform : ViewStep → Act Reply
  | .element name tag => do
    nameNode name (← apply (·.newNode (.ofTag tag)))
    return .done
  | .text name content => do
    nameNode name (← apply (·.newNode (.text content)))
    return .done
  | .comment name content => do
    nameNode name (← apply (·.newNode (.comment content)))
    return .done
  | .template name markup => do
    let n ← apply (·.plantTemplate markup)
    nameNode name (← orFail .template n)
    return .done
  | .nameAs name ref => do
    nameNode name (← node ref)
    return .done
  | .drop name => do
    let there := (Table.find? name (← read (·.client)).nodes).isSome
    session fun s => { s with nodes := Table.erase name s.nodes }
    return .flag there
  | .append parent child => do
    let p ← node parent
    let n ← node child
    change (·.append p n)
    return .done
  | .detach ref => do
    let n ← node ref
    change (·.detach n)
    return .done
  | .replaceChildren ref children => do
    let n ← node ref
    let ns ← children.mapM node
    change (·.replaceChildren n ns)
    return .done
  | .setAttribute ref name v => do
    let n ← node ref
    change (World.setAttribute · n name v)
    return .done
  | .setValue ref v => do
    let n ← node ref
    change (World.setValue · n v)
    return .done
  | .setText ref content => do
    let n ← node ref
    change (World.setText · n content)
    return .done
  | .setHtml ref markup => do
    let n ← node ref
    change (World.setHtml · n markup)
    return .done
  | .removeAttribute ref name => do
    let n ← node ref
    let old := ((← world).node n).attributes.get? name
    change (World.removeAttribute · n name)
    return .maybeText old
  | .getAttribute ref name => do
    let n ← node ref
    return .maybeText (((← world).node n).attributes.get? name)
  | .attributes ref => do
    let n ← node ref
    return .attributes ((← world).node n).attributes
  | .value ref => do
    let n ← node ref
    return .text ((← world).node n).value
  | .textContent ref => do
    let n ← node ref
    return .text (← ofOption ((← world).textContent? n))
  | .inner ref => do
    let n ← node ref
    return .text (← ofOption ((← world).innerHtml? n))
  | .outer ref => do
    let n ← node ref
    return .text (← ofOption ((← world).outerHtml? n))
  | .outline ref => do
    let n ← node ref
    return .outline (← ofOption ((← world).outline? n))
  | .inspect ref => do
    let n ← node ref
    return .inspection (Scenario.inspect (← world) n)
  | .same ref other => do
    let a ← node ref
    let b ← node other
    return .flag (a == b)
  | .findId ref id => do
    let n ← node ref
    let (found, _) ← search n (hasId · id)
    return .maybeNode (found.map (viewNode (← world)))
  | .findTag ref tag => do
    let n ← node ref
    let (found, _) ← search n (hasTag · tag)
    return .maybeNode (found.map (viewNode (← world)))
  | .find ref kind attr shown => do
    let n ← node ref
    let (found, visited) ← search n (satisfies kind attr shown)
    return .found (found.map (viewNode (← world))) visited
  | .describe ref => do
    let n ← node ref
    return .text ((← world).node n).summary.describe

/-- What a step does to the event that is being listened to. -/
def Context.after (c : Context) : EventStep → Context
  | .stop => { c with event := c.event.map (·.raise { stopped := true }) }
  | .prevent => { c with event := c.event.map (·.raise { prevented := true }) }
  | _ => c

/-- Performs a step on events, in a context where it has already acted on the event that is
    being listened to. -/
def EventStep.perform (host : Host CallbackId Session) (c : Context) : EventStep → Act Reply
  | .listeners ref kind => do
    let n ← node ref
    return .count ((← world).listenersOf n kind).length
  | .dispatch ref kind stopped prevented => do
    let n ← node ref
    let e : Event := { kind, flags := ⟨stopped, prevented⟩ }
    let before := viewEvent (← world) e
    let e' ← lift (host.dispatch n e)
    return .dispatched before (viewEvent (← world) e') (e'.flags.without e.flags)
  | .input ref text => do
    let n ← node ref
    let e ← lift (host.input n text)
    return .event (viewEvent (← world) e)
  | .click ref => do
    let n ← node ref
    let e ← lift (host.click n)
    return .event (viewEvent (← world) e)
  | .stop => ofEvent
  | .prevent => ofEvent
  | .current => ofEvent
where
  /-- The event that is being listened to. -/
  ofEvent : Act Reply := do
    match c.event with
    | none => throw .noEvent
    | some e => return .event (viewEvent (← world) e)

end Scenario

end LiveTemplate
