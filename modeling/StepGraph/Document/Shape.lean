import StepGraph.Run.Basic

/-!
# The shapes of documents

A shape says what a place of a document holds, and the type of what is read there (`Shape.Carrier`).
A record has fields with names; the table `Record.fields` gives for every record the fields in
their order, each with its shape and its presence: whether the field may be left out, and what holds
then.

* `Slots` is the type of the values of all fields of a record.
* `Record.make` builds the value of a record from its slots.
-/

namespace StepGraph
namespace Document

/-- The records that occur in documents. -/
inductive Record where
  | schema
  | metadata
  | choice
  | suggestions
  | graph
  /-- The parameters of a graph. -/
  | parameters
  /-- The steps of a graph with its output. -/
  | transformations
  | step
  | request
  | failure
  | response
  | state
  | stepState
  deriving DecidableEq, Repr

/-- What a place of a document holds. -/
inductive Shape where
  /-- Any JSON value. -/
  | any
  | text
  | flag
  | int64
  | float64
  | contentType
  | status
  | list (item : Shape)
  /-- An object with any keys. -/
  | dict (entry : Shape)
  | record (kind : Record)
  deriving DecidableEq, Repr

/-- The type of a record. -/
abbrev Record.Carrier : Record → Type
  | schema => Schema
  | metadata => Metadata
  | choice => Choice
  | suggestions => SuggestionChain
  | graph => Graph
  | parameters => Dict Schema
  | transformations => List Graph.Step × Json
  | step => Graph.Step
  | request => Run.Request
  | failure => Run.Failure
  | response => Run.Response
  | state => Run.State
  | stepState => Run.StepState

/-- The type of what a shape holds. -/
abbrev Shape.Carrier : Shape → Type
  | any => Json
  | text => String
  | flag => Bool
  | int64 => Int64
  | float64 => Finite64
  | contentType => ContentType
  | status => Run.Status
  | list item => List item.Carrier
  | dict entry => Dict entry.Carrier
  | record kind => kind.Carrier

/-- Whether a field may be left out. A record may also be written as the list of its values, where
only values at the end can be left out. -/
inductive Presence (α : Type) where
  /-- The field must be there. -/
  | required
  /-- Without the field it has the given value. -/
  | defaulted (value : α)
  /-- The field may be left out of an object, but not of a list. `null` means left out. -/
  | optional
  /-- The field may be left out of both. `null` means left out. -/
  | omittable
  /-- The field may be left out of both. `null` is a value. -/
  | nullable

/-- The type of a field with values in `α`. -/
abbrev Presence.Carrier {α : Type} : Presence α → Type
  | required | defaulted _ => α
  | optional | omittable | nullable => Option α

/-- What holds when the field is left out of an object, if it may be. -/
def Presence.absent? {α : Type} : (p : Presence α) → Option p.Carrier
  | required => none
  | defaulted value => some value
  | optional | omittable | nullable => some none

/-- What holds when the field is left out of a list, if it may be. -/
def Presence.absentFromList? {α : Type} : (p : Presence α) → Option p.Carrier
  | required | optional => none
  | defaulted value => some value
  | omittable | nullable => some none

/-- A field of a record. -/
structure Field where
  key : String
  shape : Shape
  presence : Presence shape.Carrier := .required

/-- The type of a field. -/
abbrev Field.Carrier (f : Field) : Type := f.presence.Carrier

/-- A value for each field. -/
abbrev Slots : List Field → Type
  | [] => Unit
  | f :: fs => f.Carrier × Slots fs

namespace Record

/-- The name of a record in messages. -/
def name : Record → String
  | schema => "ParamSchema"
  | metadata => "SchemaMetadata"
  | choice => "EnumChoice"
  | suggestions => "ValueSuggestionChain"
  | graph => "CompiledChain"
  | parameters => "CompiledParamsSchema"
  | transformations => "CompiledTransformations"
  | step => "CompiledStep"
  | request => "RunChainRequest"
  | failure => "RunError"
  | response => "RunChainResponse"
  | state => "ChainState"
  | stepState => "StepState"

/-- The fields of a record in their order. -/
abbrev fields : Record → List Field
  | schema => [
    ⟨"type", .text, .optional⟩, ⟨"description", .text, .optional⟩, ⟨"default", .any, .optional⟩,
    ⟨"enum", .list .any, .optional⟩, ⟨"items", .record .schema, .optional⟩,
    ⟨"order", .int64, .optional⟩, ⟨"metadata", .record .metadata, .optional⟩]
  | metadata => [
    ⟨"content_type", .contentType, .optional⟩, ⟨"min", .float64, .optional⟩,
    ⟨"max", .float64, .optional⟩, ⟨"accepted_file_types", .list .text, .optional⟩,
    ⟨"advanced", .flag, .optional⟩, ⟨"title", .text, .optional⟩,
    ⟨"description", .text, .optional⟩, ⟨"enum", .list (.record .choice), .optional⟩,
    ⟨"hidden", .flag, .optional⟩,
    ⟨"value_suggestion_chain", .record .suggestions, .optional⟩]
  | choice => [⟨"description", .text, .required⟩, ⟨"value", .text, .required⟩]
  | suggestions => [
    ⟨"url", .text, .required⟩, ⟨"project_id", .text, .required⟩,
    ⟨"output_key", .text, .required⟩]
  | graph => [
    ⟨"studio_id", .text, .required⟩, ⟨"title", .text, .defaulted ""⟩,
    ⟨"description", .text, .defaulted ""⟩, ⟨"params_schema", .record .parameters, .required⟩,
    ⟨"transformations", .record .transformations, .required⟩,
    ⟨"publicly_triggerable", .flag, .defaulted false⟩, ⟨"public", .flag, .defaulted false⟩]
  | parameters => [⟨"properties", .dict (.record .schema), .required⟩]
  | transformations => [
    ⟨"steps", .list (.record .step), .required⟩, ⟨"output", .any, .defaulted .null⟩]
  | step => [
    ⟨"name", .text, .required⟩, ⟨"transformation", .text, .required⟩,
    ⟨"params", .dict .any, .required⟩, ⟨"if", .any, .nullable⟩, ⟨"foreach", .any, .omittable⟩]
  | request => [
    ⟨"studio_id", .text, .required⟩, ⟨"params", .dict .any, .required⟩,
    ⟨"return_state", .flag, .defaulted false⟩, ⟨"version", .text, .omittable⟩,
    ⟨"studio_override", .record .graph, .omittable⟩]
  | failure => [
    ⟨"raw", .text, .required⟩, ⟨"body", .text, .required⟩, ⟨"stepName", .text, .omittable⟩]
  | response => [
    ⟨"status", .status, .required⟩, ⟨"output", .dict .any, .defaulted []⟩,
    ⟨"executionTime", .float64, .omittable⟩, ⟨"errors", .list (.record .failure), .defaulted []⟩,
    ⟨"state", .record .state, .omittable⟩]
  | state => [
    ⟨"params", .dict .any, .defaulted []⟩,
    ⟨"steps", .dict (.record .stepState), .defaulted []⟩]
  | stepState => [
    ⟨"executionTime", .float64, .defaulted .zero⟩, ⟨"output", .dict .any, .defaulted []⟩,
    ⟨"skipped", .flag, .omittable⟩, ⟨"results", .list (.dict .any), .omittable⟩,
    ⟨"skippedItems", .list (.dict .any), .omittable⟩]

/-- Members that are no fields belong to the record as well. Such a record has no form as a list. -/
def isOpen : Record → Bool
  | schema => true
  | _ => false

/-- The value of a record with the given fields and, if it is open, further members. -/
def make : (r : Record) → Slots r.fields → Dict Json → r.Carrier
  | schema, (kind, description, default, allowed, items, order, hints, ()), extra =>
    ⟨kind, description, default, allowed, items, order, hints, extra⟩
  | metadata, (contentType, min, max, fileTypes, advanced, title, description, choices, hidden,
      proposals, ()), _ =>
    ⟨contentType, min, max, fileTypes, advanced, title, description, choices, hidden, proposals⟩
  | choice, (description, value, ()), _ => ⟨description, value⟩
  | suggestions, (url, projectId, outputKey, ()), _ => ⟨url, projectId, outputKey⟩
  | graph, (studioId, title, description, schemas, (steps, output), triggerable, isPublic, ()), _ =>
    ⟨studioId, title, description, schemas, steps, output, triggerable, isPublic⟩
  | parameters, (properties, ()), _ => properties
  | transformations, (steps, output, ()), _ => (steps, output)
  | step, (name, transformation, params, condition, source, ()), _ =>
    ⟨name, transformation, params, condition, source⟩
  | request, (studioId, params, returnState, version, override, ()), _ =>
    ⟨studioId, params, returnState, version, override⟩
  | failure, (raw, body, stepName, ()), _ => ⟨raw, body, stepName⟩
  | response, (status, output, executionTime, errors, snapshot, ()), _ =>
    ⟨status, output, executionTime, errors, snapshot⟩
  | state, (params, steps, ()), _ => ⟨params, steps⟩
  | stepState, (executionTime, output, skipped, results, skippedItems, ()), _ =>
    ⟨executionTime, output, skipped, results, skippedItems⟩

end Record
end Document
end StepGraph
