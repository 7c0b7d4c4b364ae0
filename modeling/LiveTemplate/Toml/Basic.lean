import LiveTemplate.Text.Table

/-!
# TOML Documents

The value of a TOML document, built section by section.

A document is a table. Its keys may be dotted, its sections have headers that are
dotted keys too, and both make the tables on their way. TOML lets a table be written
in one place only, so each table remembers how it came to be: a header gives the
table its one section, unless the table was merely implied by a longer header
before; a dotted key may add only to tables that dotted keys have made; an inline
table is closed for good. A document that breaks these rules has no value.

## Main definitions

* `Toml.Value`, `Toml.Origin`: Values, and how a table came to be.
* `Toml.Section`: A header with the entries below it.
* `Toml.edit?`: A change to the table that a key path leads to.
* `Toml.document?`: The value of a sequence of sections.
-/

namespace LiveTemplate

namespace Toml

/-- How a table came to be. -/
inductive Origin where
  /-- By a header of its own. The document itself counts as one. -/
  | header
  /-- On the way of a longer header. -/
  | implied
  /-- On the way of a dotted key. -/
  | dotted
  /-- Between braces. -/
  | inline
  deriving DecidableEq

/-- A value of a document. Numbers other than integers, dates and times are kept as
    they are written. -/
inductive Value where
  /-- A string. -/
  | string (s : String)
  /-- An integer. -/
  | integer (i : Int)
  /-- A float as written. -/
  | float (text : String)
  /-- A truth value. -/
  | boolean (b : Bool)
  /-- A date, a time, or both, as written. -/
  | moment (text : String)
  /-- Values between brackets. -/
  | array (items : List Value)
  /-- Values under keys. -/
  | table (origin : Origin) (members : List (String × Value))
  /-- Tables that share a header in double brackets. -/
  | tables (items : List (List (String × Value)))
  deriving Inhabited

/-- Values under keys. -/
abbrev Members := Table Value

/-- A key with dots: the keys on the way and the last one. -/
structure KeyPath where
  /-- The keys of the tables on the way. -/
  tables : List String
  /-- The key in the last table. -/
  last : String

/-- A key with its value. -/
structure Entry where
  /-- Where the value goes. -/
  path : KeyPath
  /-- The value. -/
  value : Value

/-- What stands above a section. -/
inductive Header where
  /-- Nothing: the start of the document. -/
  | root
  /-- A table. -/
  | table (path : KeyPath)
  /-- One more of several tables. -/
  | tables (path : KeyPath)

/-- A header and the entries up to the next one. -/
structure Section where
  /-- The header. -/
  header : Header
  /-- The entries. -/
  entries : List Entry

/-- Changes the table at the end of a key path, making the tables on the way that are
    missing. A dotted key cannot pass through a table with a header, and nothing passes
    through an inline table. -/
def edit? (dotted : Bool) (change : Origin → Members → Option Members) :
    List String → Origin → Members → Option Members
  | [], origin, members => change origin members
  | key :: path, _, members =>
    match Table.find? key members with
    | none => do
      let origin := if dotted then .dotted else .implied
      let inner ← edit? dotted change path origin []
      some (Table.insert key (.table origin inner) members)
    | some (.table origin inner) =>
      if origin = .inline ∨ (dotted ∧ origin = .header) then none
      else do
        let inner ← edit? dotted change path origin inner
        some (Table.insert key (.table origin inner) members)
    | some (.tables items) =>
      match items.getLast? with
      | none => none
      | some inner => do
        let inner ← edit? dotted change path .header inner
        some (Table.insert key (.tables (items.dropLast ++ [inner])) members)
    | some _ => none

/-- Adds an entry to a table. The table at the end of a dotted key has to be one that
    dotted keys have made, and the key has to be new. -/
def add? (origin : Origin) (members : Members) (e : Entry) : Option Members :=
  let change (origin : Origin) (members : Members) : Option Members :=
    if decide (origin = .dotted) = e.path.tables.isEmpty then none
    else
      match Table.find? e.path.last members with
      | some _ => none
      | none => some (Table.insert e.path.last e.value members)
  edit? true change e.path.tables origin members

/-- Adds entries to a table, first to last. -/
def addAll? (origin : Origin) (members : Members) (entries : List Entry) : Option Members :=
  entries.foldlM (add? origin) members

/-- The table that stands between braces. -/
def inlineTable? (entries : List Entry) : Option Value :=
  (addAll? .inline [] entries).map (.table .inline)

/-- Adds a section to a document. -/
def addSection? (document : Members) (s : Section) : Option Members :=
  match s.header with
  | .root => addAll? .header document s.entries
  | .table path =>
    let change (_ : Origin) (members : Members) : Option Members := do
      let inner ←
        match Table.find? path.last members with
        | none => some []
        | some (.table .implied inner) => some inner
        | some _ => none
      let inner ← addAll? .header inner s.entries
      some (Table.insert path.last (.table .header inner) members)
    edit? false change path.tables .header document
  | .tables path =>
    let change (_ : Origin) (members : Members) : Option Members := do
      let items ←
        match Table.find? path.last members with
        | none => some []
        | some (.tables items) => some items
        | some _ => none
      let inner ← addAll? .header [] s.entries
      some (Table.insert path.last (.tables (items ++ [inner])) members)
    edit? false change path.tables .header document

/-- The table that a sequence of sections describes. -/
def document? (sections : List Section) : Option Members :=
  sections.foldlM addSection? []

end Toml

end LiveTemplate
