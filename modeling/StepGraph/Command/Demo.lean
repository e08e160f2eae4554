import StepGraph.Chain.Build

/-!
# Demos

Chains that come with the program, as examples of what a chain can do.
-/

namespace StepGraph

/-- A chain with a name, and a line that says what it is for. -/
structure Demo where
  name : String
  summary : String
  chain : Except DefinitionError Chain

namespace Demo

open Build

/-- Searches a PDF, and answers a question with what was found. -/
def pdfQuestionAnswer : Except DefinitionError Chain :=
  let blueprint : Blueprint :=
    { title := "Ask questions about a short PDF", publiclyTriggerable := true }
  (blueprint.withParams [("pdf_url", .string), ("question", .string)]).define fun params => do
    let question := params.field "question"
    let pdf ← addStep "pdf_to_text" [("pdf_url", .ref (params.field "pdf_url"))]
    let split ← addStep "split_text"
      [("method", .string "tokens"), ("num_tokens", .integer 500),
        ("text", .ref (pdf.field "text"))]
    let search ← addStep "search_array"
      [("array", .ref (split.field "chunks")), ("query", .ref question)]
    let prompt := "\n" ++ (search.field "results").template ++
      "\n\nBased off the above context answer the question below:\n\nQuestion: \n" ++
      question.template ++ "\n\nAnswer:"
    let completion ← addStep "prompt_completion" [("prompt", .string prompt)]
    return some (.mapping [("answer", .ref (completion.field "answer"))])

/-- Summarises the chunks of a PDF one by one, and joins the summaries. -/
def longPdfSummary : Except DefinitionError Chain :=
  (({} : Blueprint).withParam "pdf_url" .string).define fun params => do
    let pdf ← addStep "pdf_to_text" [("pdf_url", .ref (params.field "pdf_url"))]
    let split ← addStep "split_text"
      [("method", .string "tokens"), ("num_tokens", .integer 200),
        ("text", .ref (pdf.field "text"))]
    let results ← withIteration (.ref (split.field "chunks")) fun scope =>
      addStep "prompt_completion"
        [("prompt", .string ("\n" ++ scope.item.template ++ "\n\nSummarise the above text."))]
    let joined ← addStep "join_array"
      [("array", .ref (results.each.field "answer")), ("sep", .string "\n")]
    return some (.mapping [("summary", .ref (joined.field "text"))])

/-- Has a table edited on request, and gives it as Markdown and as a file. -/
def editCsv : Except DefinitionError Chain :=
  let blueprint : Blueprint := {
    title := "Edit CSV"
    description :=
      "Upload a csv, and ask for the llm to edit it. For example, you could ask it " ++
        "'Add a category column based on the description column.'" }
  let parameters : Dict Schema :=
    [("question", .string), ("file_url", Schema.string.withContentType .fileUrl)]
  (blueprint.withParams parameters).define fun params => do
    let file ← addStep "api_call"
      [("url", .ref (params.field "file_url")), ("method", .string "GET")]
    let request := (file.field "response_body").template ++ "\n\nRequest: \n" ++
      (params.field "question").template ++ "\n\nTransform the above csv content based on the " ++
      "request, and only output the transformed csv.\n\nAnswer:"
    let transformation ← addStep "prompt_completion" [("prompt", .string request)]
    let csv := transformation.field "answer"
    let conversion := csv.template ++
      "\n\nTurn the above csv into markdown table format. Only output the table."
    let table ← addStep "prompt_completion" [("prompt", .string conversion)]
    let exported ← addStep "export_to_file" [("data", .ref csv), ("extension", .string "csv")]
    return some (.mapping [("markdownTable", .ref (table.field "answer")),
      ("export_url", .ref (exported.field "export_url"))])

/-- Has a story written, and turns it into capitals with a function. -/
def shoutStory : Except DefinitionError Chain :=
  ({} : Blueprint).define fun _ => do
    let story ← addStep "prompt_completion" [("prompt", .string "write a short story about dogs")]
    let shout ← embedCode [("answer", story.field "answer")]
      "(\x7b answer \x7d) => answer.toUpperCase().split(\" \").join(\"\\n\")"
    return some (.ref shout)

/-- All demos, in the order in which they are shown. -/
def all : List Demo := [
  ⟨"pdf-question-answer", "Search a short PDF and answer a question about it", pdfQuestionAnswer⟩,
  ⟨"long-pdf-summarise", "Summarise every chunk of a long PDF, then join the summaries",
    longPdfSummary⟩,
  ⟨"edit-csv", "Ask an LLM to edit an uploaded CSV and export the result", editCsv⟩,
  ⟨"shout-story", "Write a story, then upper-case it with inline code", shoutStory⟩]

/-- The demo of the given name. -/
def find? (name : String) : Option Demo := all.find? (·.name == name)

end Demo
end StepGraph
