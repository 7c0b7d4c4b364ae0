import LiveTemplate.Reaction.Update

/-!
# Compiling Templates

Bringing a template to life: its expressions and directives become bindings to
observed data.

The nodes of a template are visited in document order. Each binding shows its value
at once and gets a watcher that shows it again after each change; a two-way binding
gets a listener as well, and so does an event directive. A node's children are
visited after its own directives have taken effect, as they are then, so markup that
a directive puts there is compiled too. That is why compiling need not come to an
end, and why it is given a depth.

The first binding without value or method ends the work. The ones before it stay.

## Main definitions

* `CompileError`: Why a template could not be brought to life.
* `Methods`, `Template`: What a template is compiled against.
* `Template.bindValue`, `Template.bindEvent`: Single bindings.
* `Template.applyDirective`, `Template.compileNode`: Directives and nodes.
* `Template.compile`: A whole template.
-/

namespace LiveTemplate

/-- Why a template could not be brought to life. -/
inductive CompileError where
  /-- The path of a binding could not be followed. -/
  | binding (directive : String) (source : BindingError)
  /-- The method of an event directive does not exist. -/
  | missingMethod (name event : String)
  deriving DecidableEq

/-- The wording of the error. -/
def CompileError.message : CompileError → String
  | binding directive source => "`" ++ directive ++ "`: " ++ source.message
  | missingMethod name event =>
    "binding resolution failure: `" ++ event ++ "` handler `" ++ name ++
      "` is not a registered method"

/-- What is noted about the name of a directive. -/
def Directive.Reading.remarks (r : Reading) (name : String) : List Diagnostic :=
  match r with
  | event word _ => r.strangeTokens.map (.unknownModifier word)
  | unknown _ (_ :: _) => [.unknownModified name]
  | _ => []

/-- The directives among attributes, in order. -/
def directivesOf (markers : Markers) (attributes : Markup.Attributes) : List Directive :=
  attributes.filterMap fun (name, value) => Directive.parse markers name value

/-- What is noted about the names of attributes. -/
def remarksOf (markers : Markers) (attributes : Markup.Attributes) : List Diagnostic :=
  attributes.flatMap fun (name, _) =>
    ((Directive.Reading.ofName? markers name).map (·.remarks name)).getD []

/-- The methods that event directives can name: callbacks by name. -/
abbrev Methods (κ : Type) := Table κ

/-- What a template is compiled against. -/
structure Template (κ : Type) where
  /-- The data that bindings read. -/
  data : ObjectId
  /-- The methods that event directives name. -/
  methods : Methods κ
  /-- The marks of directives and expressions. -/
  markers : Markers := .standard

namespace Template

variable {κ σ : Type} [Client σ]

/-- Part of compiling a template: ends early with an error, or goes on with the counts so
    far. -/
abbrev Work (κ σ : Type) := ExceptT CompileError (Run κ σ)

omit [Client σ] in
/-- A run as a part that does not end early. -/
def step {α : Type} (run : Run κ σ α) : Work κ σ α :=
  ExceptT.lift run

/-- Takes note of a diagnostic. -/
def note (d : Diagnostic) : Work κ σ Unit :=
  step (Run.notice d)

/-- Shows the value at a path and watches the path to show it again. Errors name the
    binding as `description`. -/
def bindValue (t : Template κ) (description key : String) (rendering : Rendering) :
    Work κ σ Unit := do
  match (← step get).getPath t.data key with
  | .error e => throw (.binding description e)
  | .ok value =>
    step (Run.render rendering value)
    match ← step (Run.apply (World.watch · t.data key (.render rendering))) with
    | .error e => throw (.binding description e)
    | .ok _ => pure ()

/-- Binds the expression in a text. -/
def bindText (t : Template κ) (n : NodeId) (content : String) (stats : CompileStats) :
    Work κ σ CompileStats := do
  match Interpolation.find? t.markers content with
  | none => pure stats
  | some i =>
    t.bindValue (i.describe t.markers) i.key (.interpolated n i)
    pure { stats with watchers := stats.watchers + 1 }

/-- Binds the value of a directive. -/
def bindDirective (t : Template κ) (d : Directive) (rendering : Rendering)
    (stats : CompileStats) : Work κ σ CompileStats := do
  t.bindValue d.name d.expression rendering
  note (.valueBound d.name d.expression)
  pure { stats with watchers := stats.watchers + 1 }

/-- Binds a method to an event. -/
def bindEvent (t : Template κ) (n : NodeId) (d : Directive) (event : String)
    (modifiers : Modifiers) (stats : CompileStats) : Work κ σ CompileStats := do
  if event.isEmpty then
    note (.eventUnnamed d.name)
    pure { stats with ignored := stats.ignored + 1 }
  else
    match Table.find? d.expression t.methods with
    | none => throw (.missingMethod d.expression event)
    | some method =>
      step (Run.change (·.listen n event (.handle t.data method modifiers)))
      note (.eventBound event d.expression modifiers)
      pure { stats with listeners := stats.listeners + 1 }

/-- Lets a directive of an element take effect. -/
def applyDirective (t : Template κ) (n : NodeId) (stats : CompileStats) (d : Directive) :
    Work κ σ CompileStats :=
  match d.kind with
  | .text => t.bindDirective d (.text n) stats
  | .html => t.bindDirective d (.markup n) stats
  | .model => do
    let stats ← t.bindDirective d (.field n) stats
    step (Run.change (·.listen n "input" (.writeBack t.data d.expression)))
    pure { stats with listeners := stats.listeners + 1 }
  | .on event modifiers => t.bindEvent n d event modifiers stats
  | .unknown name => do
    note (.unknownDirective d.name name)
    pure { stats with ignored := stats.ignored + 1 }

/-- Lets what a node says itself take effect. -/
def compileSelf (t : Template κ) (n : NodeId) (stats : CompileStats) :
    Work κ σ CompileStats := do
  let node := (← step get).node n
  note (.visiting node.summary)
  match node.kind with
  | .text content => t.bindText n content stats
  | .comment _ =>
    note .commentSkipped
    pure stats
  | .element _ =>
    step (Run.change (·.noticeAll (remarksOf t.markers node.attributes)))
    (directivesOf t.markers node.attributes).foldlM (t.applyDirective n) stats

/-- Compiles a node and what stands beneath it, at most `depth` levels. -/
def compileNode (t : Template κ) : (depth : Nat) → CompileStats → NodeId → Work κ σ CompileStats
  | 0, _, _ => step Run.stuck
  | depth + 1, stats, n => do
    let stats ← t.compileSelf n { stats with nodes := stats.nodes + 1 }
    ((← step get).node n).children.foldlM (t.compileNode depth) stats

/-- Compiles the template with the given root, at most `depth` levels deep. -/
def compile (t : Template κ) (depth : Nat) (root : NodeId) : Work κ σ Unit := do
  note (.compiling ((← step get).node root).kind.tag)
  let stats ← t.compileNode depth {} root
  note (.compiled stats)

end Template

end LiveTemplate
