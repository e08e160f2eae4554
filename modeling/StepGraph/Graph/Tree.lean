import StepGraph.Graph.Basic
import StepGraph.Json.Printer
import StepGraph.Template

/-!
# A graph as a tree for a reader

Every step is a branch, with its condition, its source and its parameters as leaves. Values are
summarized: a text is cut after sixty characters and its line feeds are escaped, unless it starts
and ends like a template; objects show their members, and everything else is JSON.
-/

namespace StepGraph
namespace Graph

/-- How many characters of a text are shown. -/
def shownLength : Nat := 60

/-- The text starts with the opening and ends with the closing of a template. -/
def looksLikeTemplate (cs : List Char) : Bool :=
  [Template.openBrace, Template.openBrace].isPrefixOf cs &&
    [Template.closeBrace, Template.closeBrace].isSuffixOf cs

/-- Writes line feeds as escapes. -/
def flatten (cs : List Char) : List Char :=
  cs.flatMap fun c => if c = '\n' then ['\\', 'n'] else [c]

/-- A text in short. -/
def summarizeText (s : String) : String :=
  if looksLikeTemplate s.toList then s
  else
    let flat := flatten s.toList
    if shownLength < flat.length then "\"" ++ String.ofList (flat.take shownLength) ++ "...\""
    else "\"" ++ String.ofList flat ++ "\""

mutual

/-- A value in short. -/
def summarize : Json → String
  | .string s => summarizeText s
  | .object members => "\x7b " ++ ", ".intercalate (summarizeMembers members) ++ " \x7d"
  | j => j.compact

/-- Members in short. -/
def summarizeMembers : List (String × Json) → List String
  | [] => []
  | (key, j) :: ms => (key ++ ": " ++ summarize j) :: summarizeMembers ms

end

/-- What hangs below a step. -/
def Step.leaves (s : Step) : List (String × Json) :=
  (s.condition.toList.map ("if", ·)) ++ (s.source.toList.map ("foreach", ·)) ++ s.params

/-- The mark in front of a branch. -/
def branchMark (last : Bool) : String := if last then "└── " else "├── "

/-- The lines of the leaves of a step. -/
def leafLines (indent : String) : List (String × Json) → List String
  | [] => []
  | (key, j) :: rest =>
    (indent ++ branchMark rest.isEmpty ++ key ++ ": " ++ summarize j) :: leafLines indent rest

/-- The lines of steps. -/
def stepLines : List Step → List String
  | [] => []
  | s :: rest =>
    (branchMark rest.isEmpty ++ s.name ++ " [" ++ s.transformation ++ "]") ::
      (leafLines (if rest.isEmpty then "    " else "│   ") s.leaves ++ stepLines rest)

/-- The first line: the id of the graph, with the title if there is one. -/
def heading (g : Graph) : String :=
  if g.title.isEmpty then g.studioId else g.studioId ++ " (" ++ g.title ++ ")"

/-- The tree of a graph. -/
def tree (g : Graph) : String :=
  "\n".intercalate (g.heading :: (stepLines g.steps ++ ["output: " ++ summarize g.output]))

end Graph
end StepGraph
