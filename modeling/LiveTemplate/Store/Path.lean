import LiveTemplate.Store.Observe

/-!
# Paths

A path is a text whose segments are the keys of properties, with dots between them.
It leads from an object through objects to a property. No segment may be empty, every
property on the way has to exist, and every one but the last has to hold an object;
the first segment that fails decides the error.

A reader who wants to know when the value at a path changes has to hear of changes
on the way too. A tracked read registers its subscriber with every property that it
reads, including the ones read before it fails.

## Main definitions

* `World.subscribe`: A subscriber enters the registry of a property.
* `World.readProperty`: Reading a property of an object, tracked or not.
* `World.resolve`: The object and the key to which a path leads.
* `World.readPath`, `World.getPath`: The value at a path, tracked and untracked.
-/

namespace LiveTemplate

/-- The segments of a path: the first one and the ones after it. -/
def pathSegments (path : String) : String × List String :=
  Text.segmentsOf '.' path

namespace World

variable {κ σ : Type} [Client σ]

/-- Registers a subscriber with a property, and takes note if it is new there. -/
def subscribe (w : World κ σ) (s : SubscriberId) (o : ObjectId) (key : String) : World κ σ :=
  match w.property? o key with
  | none => w
  | some p =>
    if p.registry.contains s then w
    else
      (w.updateProperty o key fun p => { p with registry := p.registry.add s }).notice .subscribed

/-- Registers a subscriber with a property if there is one to register. -/
def depend (w : World κ σ) (reader : Option SubscriberId) (o : ObjectId) (key : String) :
    World κ σ :=
  match reader with
  | none => w
  | some s => w.subscribe s o key

/-- The value of a property, for a reader who is registered with it. -/
def readProperty (w : World κ σ) (reader : Option SubscriberId) (o : ObjectId) (key : String) :
    Option Data × World κ σ :=
  match w.property? o key with
  | none => (none, w)
  | some p => (some p.value, w.depend reader o key)

/-- Follows the segments of `path` that begin with `segment` from an object: the object
    that should have the last one as a key, and that key. -/
def resolveFrom (reader : Option SubscriberId) (path : String) :
    (segments : List String) → (segment : String) → ObjectId → World κ σ →
      Except BindingError (ObjectId × String) × World κ σ
  | [], segment, o, w =>
    if segment.isEmpty then (.error (.unobserved path), w) else (.ok (o, segment), w)
  | next :: segments, segment, o, w =>
    if segment.isEmpty then (.error (.unobserved path), w)
    else
      match w.readProperty reader o segment with
      | (none, w) => (.error (.unobserved path), w)
      | (some (.plain _), w) => (.error (.notAnObject path segment), w)
      | (some (.object inner), w) => resolveFrom reader path segments next inner w

/-- The object and the key to which a path leads. The object need not have the key. -/
def resolve (w : World κ σ) (reader : Option SubscriberId) (root : ObjectId) (path : String) :
    Except BindingError (ObjectId × String) × World κ σ :=
  let (segment, segments) := pathSegments path
  resolveFrom reader path segments segment root w

/-- The value at a path, for a reader who is registered with every property on the way. -/
def readPath (w : World κ σ) (reader : Option SubscriberId) (root : ObjectId) (path : String) :
    Except BindingError Data × World κ σ :=
  match w.resolve reader root path with
  | (.error e, w) => (.error e, w)
  | (.ok (o, key), w) =>
    match w.readProperty reader o key with
    | (none, w) => (.error (.unobserved path), w)
    | (some data, w) => (.ok data, w)

/-- The value at a path. -/
def getPath (w : World κ σ) (root : ObjectId) (path : String) : Except BindingError Data :=
  (w.readPath none root path).1

/-- The value of a property of an object. -/
def getProperty (w : World κ σ) (o : ObjectId) (key : String) : Except BindingError Data :=
  match w.property? o key with
  | none => .error (.unobserved key)
  | some p => .ok p.value

/-- The keys of an object in order. -/
def keys (w : World κ σ) (o : ObjectId) : List String :=
  Table.keys (w.object o)

end World

end LiveTemplate
