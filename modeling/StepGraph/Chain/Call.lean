import StepGraph.Chain.Basic
import StepGraph.Reference.Segment

/-!
# Inline code and calls

A function that the engine evaluates can be a step. Its text is wrapped so that it is called with
one object: every input is a key with the null-safe expression of a reference. Keys are written as
JSON strings.

A call is one operation on a chain, as data. It gives a reference, or nothing, or an error.
-/

namespace StepGraph

/-! ## Inline code -/

namespace InlineCode

/-- The transformation that evaluates inline code. -/
def transformation : String := "js_code_transformation"

/-- An entry of the object that the function is called with. -/
def entry (input : String × Reference) : String :=
  Json.quote input.1 ++ ": " ++ input.2.nullSafe

/-- The text that calls the function. -/
def wrap (inputs : List (String × Reference)) (source : String) : String :=
  "return (() => \x7b\n  const _$$params = \x7b " ++ ", ".intercalate (inputs.map entry) ++
    " \x7d;\n  return (" ++ source ++ ")(_$$params);\n\x7d)();"

end InlineCode

/-- Appends a step that calls the function `source` with the inputs. Blanks around the function do
not count. -/
def Chain.embedCode (c : Chain) (inputs : List (String × Reference)) (source : String) :
    Except DefinitionError Reference × Chain :=
  let function := String.ofList (Text.trim source.toList)
  if function.isEmpty then (.error .emptyCode, c)
  else c.addStep InlineCode.transformation [("code", .string (InlineCode.wrap inputs function))]

/-! ## Calls -/

/-- An operation on a chain. -/
inductive Call where
  | setChainId (id : String)
  | setTitle (text : String)
  | setDescription (text : String)
  | setPubliclyTriggerable (value : Bool)
  | setPublic (value : Bool)
  | defineParams (schema : Dict Schema)
  | addStep (transformation : String) (params : List (String × Param))
  | addNamedStep (name transformation : String) (params : List (String × Param))
  | embedCode (inputs : List (String × Reference)) (source : String)
  | defineOutput (output : Output)
  /-- Looks at the chain and changes nothing. -/
  | observe

namespace Call

/-- What a call gives. -/
abbrev Outcome := Except DefinitionError (Option Reference)

/-- What an operation has come to, as that of a call: `given` is the reference in what it gives. -/
def done {α : Type} (given : α → Option Reference) (result : Except DefinitionError α × Chain) :
    Outcome × Chain :=
  (result.1.map given, result.2)

/-- The outcome of a call and the chain after it. -/
def apply (c : Chain) : Call → Outcome × Chain
  | setChainId id => (.ok none, { c with chainId := some id })
  | setTitle text => (.ok none, { c with title := text })
  | setDescription text => (.ok none, { c with description := text })
  | setPubliclyTriggerable value => (.ok none, { c with publiclyTriggerable := value })
  | setPublic value => (.ok none, { c with isPublic := value })
  | defineParams schema => done some (c.defineParams schema)
  | addStep transformation params => done some (c.addStep transformation params)
  | addNamedStep name transformation params => done some (c.addNamedStep name transformation params)
  | embedCode inputs source => done some (c.embedCode inputs source)
  | defineOutput output => done (fun _ => none) (c.defineOutput output)
  | observe => (.ok none, c)

end Call
end StepGraph
