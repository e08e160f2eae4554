import StepGraph.Json.Basic

/-!
# Schemas of parameters

A chain declares its parameters by name, each with a schema in the manner of JSON Schema. Some
keywords have a place of their own; all others are kept in the order in which they came. The
metadata tell a form how to present the parameter.

Two schemas are equal if they agree in every keyword. The order of further keywords and that of the
members of an object do not count, and the two zeros are equal.
-/

namespace StepGraph

/-- What a text parameter holds. -/
inductive ContentType where
  | longText
  | shortText
  | fileUrl
  | code
  | llmPrompt
  | datasetId
  | markdown
  | chain
  deriving DecidableEq, Repr

/-- Every content type with its name. -/
def ContentType.table : List (String × ContentType) := [
  ("long_text", longText), ("short_text", shortText), ("file_url", fileUrl), ("code", code),
  ("llm_prompt", llmPrompt), ("dataset_id", datasetId), ("markdown", markdown), ("chain", chain)]

/-- The name of a content type. -/
def ContentType.name : ContentType → String
  | longText => "long_text"
  | shortText => "short_text"
  | fileUrl => "file_url"
  | code => "code"
  | llmPrompt => "llm_prompt"
  | datasetId => "dataset_id"
  | markdown => "markdown"
  | chain => "chain"

/-- One of the values that a form offers. -/
structure Choice where
  description : String
  value : String
  deriving DecidableEq, Repr

/-- Another chain that proposes values. -/
structure SuggestionChain where
  url : String
  projectId : String
  outputKey : String
  deriving DecidableEq, Repr

/-- How a form presents a parameter. -/
structure Metadata where
  contentType : Option ContentType := none
  min : Option Finite64 := none
  max : Option Finite64 := none
  acceptedFileTypes : Option (List String) := none
  advanced : Option Bool := none
  title : Option String := none
  description : Option String := none
  choices : Option (List Choice) := none
  hidden : Option Bool := none
  suggestions : Option SuggestionChain := none
  deriving DecidableEq, Repr

/-- The schema of a parameter. -/
structure Schema where
  /-- The keyword `type`. -/
  kind : Option String := none
  description : Option String := none
  default : Option Json := none
  /-- The keyword `enum`. -/
  allowed : Option (List Json) := none
  items : Option Schema := none
  /-- The place of the parameter in a form. -/
  order : Option Int64 := none
  metadata : Option Metadata := none
  /-- The other keywords. -/
  extra : List (String × Json) := []
  deriving Inhabited

namespace Schema

/-- A schema with nothing but a type. -/
def ofType (kind : String) : Schema := { kind := some kind }

/-- A text. -/
def string : Schema := ofType "string"

/-- A number. -/
def number : Schema := ofType "number"

/-- A whole number. -/
def integer : Schema := ofType "integer"

/-- A truth value. -/
def boolean : Schema := ofType "boolean"

/-- An object. -/
def object : Schema := ofType "object"

/-- A list of items that all have the schema `items`. -/
def array (items : Schema) : Schema := { ofType "array" with items := some items }

/-- Sets the description. -/
def withDescription (s : Schema) (text : String) : Schema := { s with description := some text }

/-- Sets the default value. -/
def withDefault (s : Schema) (value : Json) : Schema := { s with default := some value }

/-- Sets the place in a form. -/
def withOrder (s : Schema) (order : Int64) : Schema := { s with order := some order }

/-- Sets the metadata. -/
def withMetadata (s : Schema) (metadata : Metadata) : Schema := { s with metadata := some metadata }

/-- Sets the content type and keeps the other metadata. -/
def withContentType (s : Schema) (contentType : ContentType) : Schema :=
  s.withMetadata { s.metadata.getD {} with contentType := some contentType }

/-- Sets any keyword, in its old place or at the end. -/
def withKeyword (s : Schema) (keyword : String) (value : Json) : Schema :=
  { s with extra := Dict.insert s.extra keyword value }

end Schema

/-! ## Equality -/

/-- Both are absent, or both present and `same`. -/
def sameOption {α : Type} (same : α → α → Bool) : Option α → Option α → Bool
  | some a, some b => same a b
  | none, none => true
  | _, _ => false

/-- Equal metadata. -/
def Metadata.same (a b : Metadata) : Bool :=
  sameOption Finite64.sameValue a.min b.min && sameOption Finite64.sameValue a.max b.max &&
    { a with min := none, max := none } == { b with min := none, max := none }

/-- Equal schemas; the order of keywords and members does not count. -/
def Schema.same : Schema → Schema → Bool
  | ⟨k, d, v, e, i, o, m, x⟩, ⟨k', d', v', e', i', o', m', x'⟩ =>
    k == k' && d == d' && sameOption Json.same v v' && sameOption Json.sameItems e e' &&
      (match i, i' with
        | some s, some s' => same s s'
        | none, none => true
        | _, _ => false) &&
      o == o' && sameOption Metadata.same m m' && Dict.sameBy Json.same x x'

end StepGraph
