import LiveTemplate.Scenario.Session

/-!
# Steps on Observed Data

## Main definitions

* `DataStep.perform`: What a step on observed data does and answers.
* `RegistryStep.perform`: What a step on registries and subscribers does and answers.
-/

namespace LiveTemplate

namespace Scenario

open Act

/-- The value as an integer of 64 bits with sign, or zero. -/
def Data.word : Data → Int
  | .plain (.number (.int i)) => if -Int.pow 2 63 ≤ i ∧ i < Int.pow 2 63 then i else 0
  | _ => 0

namespace Act

/-- The value at a path. -/
def valueAt (o : ObjectId) (path : String) : Act Data := do
  orFail .binding ((← world).getPath o path)

/-- Writes at a path of an object. -/
def write (host : Host CallbackId Session) (o : ObjectId) (path : String) (value : Data) :
    Act Reply := do
  let changed ← lift (Run.pinned [.object o] (host.setPath o path value))
  return .flag (← orFail .binding changed)

end Act

/-- Performs a step on observed data. -/
def DataStep.perform (host : Host CallbackId Session) (c : Context) : DataStep → Act Reply
  | .observe name value => do
    match ← apply (World.observeRoot value) with
    | none => return .flag false
    | some o =>
      nameObject name o
      return .flag true
  | .get name key => do
    let o ← object c name
    return .data (← viewData (← orFail .binding ((← world).getProperty o key)))
  | .read name key reader => do
    let o ← object c name
    let s ← Act.reader reader
    match ← apply (World.readProperty · s o key) with
    | none => throw (.binding (.unobserved key))
    | some d => return .data (← viewData d)
  | .getPath name path => do
    let o ← object c name
    return .data (← viewData (← valueAt o path))
  | .readPath name path reader => do
    let o ← object c name
    let s ← Act.reader reader
    let d ← apply (World.readPath · s o path)
    return .data (← viewData (← orFail .binding d))
  | .set name key source => do
    let o ← object c name
    let d ← value o source
    let changed ← lift (Run.pinned [.object o] (host.setProperty o key d))
    return .flag (← orFail .binding changed)
  | .setPath name path source => do
    let o ← object c name
    let d ← value o source
    write host o path d
  | .field name key reader => do
    let o ← object c name
    let s ← Act.reader reader
    match ← apply (World.readProperty · s o key) with
    | none => throw (.binding (.unobserved key))
    | some d =>
      let registry := (((← world).property? o key).map (·.registry)).getD {}
      return .field (← viewData d) (← viewRegistry registry)
  | .add name path amount => do
    let o ← object c name
    let i := Data.word (← valueAt o path)
    write host o path (.plain (.number (.int (Int.bmod (i + amount) (Nat.pow 2 64)))))
  | .appendText name path text => do
    let o ← object c name
    let d ← valueAt o path
    let shown ← ofOption ((← world).display? d)
    write host o path (.plain (.string (shown ++ text)))
  | .bind name object' path => do
    let o ← object c object'
    match ← valueAt o path with
    | .object inner =>
      nameObject name inner
      return .flag true
    | .plain _ => return .flag false
  | .keys name => do
    let o ← object c name
    return .keys ((← world).keys o)
  | .contains name key => do
    let o ← object c name
    return .flag ((← world).property? o key).isSome
  | .json name => do
    let o ← object c name
    return .text (← ofOption ((← world).snapshot? (.object o))).text
  | .same name other => do
    let a ← object c name
    let b ← namedObject other
    return .flag (a == b)
  | .weaken name object' => do
    let o ← object c object'
    session fun s => { s with weaks := Table.insert name o s.weaks }
    return .done
  | .upgrade weak name => do
    let o ← lookUp .weak Session.weaks weak
    if (← world).alive (.object o) then
      match name with
      | none => pure ()
      | some name => nameObject name o
      return .text (← ofOption ((← world).snapshot? (.object o))).text
    else return .maybeText none
  | .drop name => do
    let there := (Table.find? name (← Act.read (·.client)).objects).isSome
    session fun s => { s with objects := Table.erase name s.objects }
    return .flag there
  | .describe name => do
    let o ← object c name
    return .text ((← world).describeObject o)
  | .describeValue name path => do
    let o ← object c name
    return .text ((← world).describeData (← valueAt o path))
  | .describeField name key => do
    let o ← object c name
    match (← world).property? o key with
    | none => throw (.binding (.unobserved key))
    | some p => return .text ((← world).describeProperty p)

/-- Performs a step on registries and subscribers. -/
def RegistryStep.perform (host : Host CallbackId Session) (c : Context) :
    RegistryStep → Act Reply
  | .compare a b => do
    let a ← subscriber a
    let b ← subscriber b
    let earlier := decide (a.index < b.index)
    return .flags [a == b, earlier, a.number < b.number, a.label == "#" ++ toString a.number]
  | .context reader => do
    let s ← Act.reader reader
    let named := (← Act.read (·.client)).subscribers.filter fun (_, id) => some id == s
    return .context s.isSome (Table.keys named) (describeReader s)
  | .create name => do
    let r ← apply World.addRegistry
    session fun s => { s with registries := Table.insert name r s.registries }
    return .done
  | .add name sub => do
    let s ← subscriber sub
    let r ← registry name
    let there := ((← world).registry r).contains s
    change (·.updateRegistry r (·.add s))
    return .flag !there
  | .depend name reader => do
    let r ← registry name
    match ← Act.reader reader with
    | none => return .done
    | some s =>
      if !((← world).registry r).contains s then
        change fun w => (w.updateRegistry r (·.add s)).notice .subscribed
      return .done
  | .notify name => do
    let r ← registry name
    lift (Run.pinned [.registry r] (host.notify ((← world).registry r)))
    return .done
  | .state name => do
    let r ← registry name
    return .registry (← viewRegistry ((← world).registry r))
  | .notifyProperty name key => do
    let o ← object c name
    match (← world).property? o key with
    | none => throw (.binding (.unobserved key))
    | some p =>
      lift (Run.pinned [.object o] (host.notify p.registry))
      return .done
  | .refresh name => do
    let s ← subscriber name
    lift (Run.pinned [.subscriber s] (host.refresh s))
    return .done
  | .watcher name => do
    let s ← lookUp .watcher Session.watchers name
    match (← world).subscriber? s with
    | some (.watcher found) =>
      match (← world).valueOf? found with
      | none => return .watcher found.path none
      | some d => return .watcher found.path (some (← viewData d))
    | _ => throw (.unknownName .watcher name)
  | .drop name => do
    let there := (Table.find? name (← Act.read (·.client)).watchers).isSome
    session fun s =>
      { s with
        watchers := Table.erase name s.watchers
        subscribers := Table.erase name s.subscribers }
    return .flag there

end Scenario

end LiveTemplate
