import StepGraph.Chain.Compile
import StepGraph.Command.Basic
import StepGraph.Command.Demo
import StepGraph.Document.Reader
import StepGraph.Files
import StepGraph.Graph.Basic
import StepGraph.Document.Writer
import StepGraph.Graph.Tree

/-!
# Executing commands

A command reads or writes at most one file and ends with a report: what it prints, or why it has
failed. The report becomes the exit code and the text on the two output streams of the process.
-/

namespace StepGraph

/-- What a process leaves behind besides its files. -/
structure Report where
  exitCode : UInt8
  /-- What goes to the standard output. -/
  output : String
  /-- What goes to the standard error. -/
  complaint : String
  deriving DecidableEq, Repr

namespace Report

/-- Everything went well. -/
def success (output : String) : Report := ⟨0, output, ""⟩

/-- The command has failed. -/
def failure (reason : String) : Report := ⟨1, "", "\nError: " ++ reason ++ "\n"⟩

/-- The arguments ask for nothing that there is. -/
def misuse : Report :=
  ⟨2, "", "usage: list | compile [-o FILE] [--chain-id ID] DEMO | inspect FILE\n"⟩

end Report

namespace Command

/-- The text with a line feed after every line. -/
def unlines (lines : List String) : String := String.join (lines.map (· ++ "\n"))

/-- The text with blanks at the end, at least `width` characters. -/
def padded (width : Nat) (text : String) : String :=
  text.pushn ' ' (width - text.length)

/-- The names of the demos, and what they are for. -/
def demoList : String :=
  let width := (Demo.all.map (·.name.length)).foldl max 0
  unlines (Demo.all.map fun demo => padded width demo.name ++ "  " ++ demo.summary)

/-- The text of a compiled demo, or why there is none. -/
def compiledDemo (name : String) (chainId : Option String) : Except String String :=
  match Demo.find? name with
  | none => .error ("Unknown demo '" ++ name ++
      "'. Run \x60stepchain-cli list\x60 to see the available demos.")
  | some demo =>
    match demo.chain with
    | .error e => .error ("Failed to define '" ++ name ++ "': " ++ e.message)
    | .ok chain =>
      match { chain with chainId := chainId <|> chain.chainId }.compile with
      | .error e => .error ("Failed to compile '" ++ name ++ "': " ++ e.message)
      | .ok graph => .ok graph.indented

/-- The steps that a step depends on, for a reader. -/
def dependencyLine (s : Graph.Step) : String :=
  s.name ++ ": " ++ if s.dependencies.isEmpty then "(none)" else ", ".intercalate s.dependencies

/-- A graph for a reader: its tree, and what its steps depend on. -/
def overview (g : Graph) : String :=
  unlines ([g.tree, "", "--- Dependencies ---"] ++ g.steps.map dependencyLine)

/-- The report on a text that should be a graph. -/
def inspectText (text : String) : Report :=
  match Graph.ofText? text with
  | .ok graph => .success (overview graph)
  | .error fault =>
    .failure ("Failed to parse compiled chain: " ++ (SerializationError.json fault).message)

variable {m : Type → Type} [Monad m]

/-- Compiles a demo. -/
def executeCompile (files : Files m) (demo : String) (out chainId : Option String) : m Report := do
  match compiledDemo demo chainId, out with
  | .error reason, _ => return .failure reason
  | .ok text, none => return .success (text ++ "\n")
  | .ok text, some path =>
    match ← files.write path text with
    | .ok _ => return .success ""
    | .error e => return .failure ("Failed to write '" ++ path ++ "': " ++ e.message)

/-- Shows the graph in a file. -/
def executeInspect (files : Files m) (path : String) : m Report := do
  match ← files.read path with
  | .ok text => return inspectText text
  | .error e => return .failure ("Failed to read '" ++ path ++ "': " ++ e.message)

/-- Executes a command. -/
def execute (files : Files m) : Command → m Report
  | list => return .success demoList
  | compile demo out chainId => executeCompile files demo out chainId
  | inspect path => executeInspect files path

/-- Executes what the arguments ask for. -/
def executeArguments (files : Files m) (arguments : List String) : m Report :=
  match ofArguments? arguments with
  | some command => command.execute files
  | none => return .misuse

end Command
end StepGraph
