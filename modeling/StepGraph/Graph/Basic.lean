import StepGraph.Schema.Basic
import StepGraph.Template

/-!
# Compiled graphs

A graph is what the remote engine runs: the description of a chain with a template in the place of
every reference. A step has a condition or none; the condition `null` is a condition. A step that
has a source runs once per element of it.

Two graphs are equal if their steps are, in order. Parameters, keywords and members of objects count
as mappings.

The references of a compiled step are templates in texts. The texts are scanned in the order of the
parameters, then the condition, then the source, and inside a value first to last.

* `Graph.Step.templatePaths` lists the paths of all templates.
* `Graph.Step.dependencies` lists the names of the steps that the paths reach into, each once. A
  name is what stands between `steps.` and the next dot or bracket.
-/

namespace StepGraph

/-- A step as the engine sees it. -/
structure Graph.Step where
  name : String
  transformation : String
  params : List (String × Json)
  condition : Option Json
  /-- The list to iterate over. -/
  source : Option Json

/-- A chain as the engine sees it. -/
structure Graph where
  studioId : String
  title : String
  description : String
  /-- The parameters by name. -/
  parameters : List (String × Schema)
  steps : List Graph.Step
  output : Json
  /-- Anyone who knows the id may run the graph. -/
  publiclyTriggerable : Bool
  /-- The graph is listed for everyone. -/
  isPublic : Bool

namespace Graph

/-- The first step with the given name. -/
def step? (g : Graph) (name : String) : Option Step := g.steps.find? (·.name == name)

/-- Equal steps. -/
def Step.same (a b : Step) : Bool :=
  a.name == b.name && a.transformation == b.transformation &&
    Dict.sameBy Json.same a.params b.params && sameOption Json.same a.condition b.condition &&
    sameOption Json.same a.source b.source

/-- Equal graphs. -/
def same (a b : Graph) : Bool :=
  a.studioId == b.studioId && a.title == b.title && a.description == b.description &&
    Dict.sameBy Schema.same a.parameters b.parameters && a.steps.length == b.steps.length &&
    (a.steps.zip b.steps).all (fun (s, t) => s.same t) && a.output.same b.output &&
    a.publiclyTriggerable == b.publiclyTriggerable && a.isPublic == b.isPublic

end Graph

/-! ## What a step reads -/

namespace Json

mutual

/-- The paths of the templates in the texts of a value. Keys are not scanned. -/
def templatePaths : Json → List String
  | .string s => Template.paths s
  | .array items => itemTemplatePaths items
  | .object members => memberTemplatePaths members
  | _ => []

/-- The paths of the templates in a list. -/
def itemTemplatePaths : List Json → List String
  | [] => []
  | j :: js => templatePaths j ++ itemTemplatePaths js

/-- The paths of the templates in the values of an object. -/
def memberTemplatePaths : List (String × Json) → List String
  | [] => []
  | (_, j) :: ms => templatePaths j ++ memberTemplatePaths ms

end

end Json

namespace Graph

/-- What the paths into results of steps start with. -/
def stepsMark : List Char := "steps.".toList

/-- The name of a step does not go on here. -/
def endsName (c : Char) : Bool := c == '.' || c == '['

/-- The name of the step that a path reaches into. -/
def stepRoot? (path : String) : Option String :=
  match stepsMark.isPrefixOf? path.toList with
  | none => none
  | some rest =>
    let name := rest.take (rest.findIdx endsName)
    if name.isEmpty then none else some (String.ofList name)

/-- The names in order, each where it comes first. -/
def distinct (names : List String) : List String :=
  names.foldl (fun found name => if found.contains name then found else found ++ [name]) []

namespace Step

/-- The paths of all templates of the step. -/
def templatePaths (s : Step) : List String :=
  Json.memberTemplatePaths s.params ++ Json.itemTemplatePaths s.condition.toList ++
    Json.itemTemplatePaths s.source.toList

/-- The names of the steps that the step reads from. -/
def dependencies (s : Step) : List String :=
  distinct (s.templatePaths.filterMap stepRoot?)

end Step
end Graph

end StepGraph
