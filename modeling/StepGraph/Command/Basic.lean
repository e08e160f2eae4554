/-!
# Commands

What can be asked for on the command line, and how the arguments say it. The first argument is the
name of the command. Options may stand anywhere behind it, and an argument `--` ends them. A value
is written behind the option, with or without `=`, or is the next argument; then it must not look
like an option itself. No option may come twice, and a path must not be empty.
-/

namespace StepGraph

/-- A request to the program. -/
inductive Command where
  /-- Show the demos. -/
  | list
  /-- Compile a demo, to a file if `out` is given. -/
  | compile (demo : String) (out chainId : Option String)
  /-- Show the graph in a file. -/
  | inspect (path : String)
  deriving DecidableEq, Repr

namespace Command

/-- What can be set by an option. -/
inductive OptionName where
  | out
  | chainId
  deriving DecidableEq, Repr

/-- What an argument is, as far as it can be seen without the others. -/
inductive Argument where
  /-- No options follow. -/
  | endOfOptions
  | option (name : OptionName) (value : Option String)
  | unknownOption
  | operand (text : String)
  deriving DecidableEq, Repr

namespace Argument

/-- An option with a long name, and what stands behind the first `=`. -/
def ofLong (cs : List Char) : Argument :=
  let value := (cs.dropWhile (· != '=')).tail?.map String.ofList
  match String.ofList (cs.takeWhile (· != '=')) with
  | "out" => option .out value
  | "chain-id" => option .chainId value
  | _ => unknownOption

/-- The value that is attached to an option with a short name. -/
def attached : List Char → Option String
  | [] => none
  | '=' :: cs => some (String.ofList cs)
  | cs => some (String.ofList cs)

/-- An option with a short name. -/
def ofShort : List Char → Argument
  | 'o' :: cs => option .out (attached cs)
  | _ => unknownOption

/-- What an argument is. A single `-` is no option. -/
def ofText (text : String) : Argument :=
  match text.toList with
  | ['-', '-'] => endOfOptions
  | '-' :: '-' :: cs => ofLong cs
  | '-' :: c :: cs => ofShort (c :: cs)
  | _ => operand text

end Argument

/-- The arguments that have been read. -/
structure Arguments where
  operands : List String := []
  out : Option String := none
  chainId : Option String := none
  deriving DecidableEq, Repr

namespace Arguments

/-- Sets an option, unless it is set or its value is refused. -/
def withOption (a : Arguments) (value : String) : OptionName → Option Arguments
  | .out => if a.out.isSome || value.isEmpty then none else some { a with out := some value }
  | .chainId => if a.chainId.isSome then none else some { a with chainId := some value }

/-- Adds arguments that are not looked at. -/
def withOperands (a : Arguments) (operands : List String) : Arguments :=
  { a with operands := a.operands ++ operands }

/-- Reads arguments in order. -/
def read (a : Arguments) : List String → Option Arguments
  | [] => some a
  | text :: rest =>
    match Argument.ofText text with
    | .endOfOptions => some (a.withOperands rest)
    | .unknownOption => none
    | .operand text => read (a.withOperands [text]) rest
    | .option name (some value) => a.withOption value name >>= (read · rest)
    | .option name none =>
      match rest with
      | [] => none
      | next :: rest =>
        match Argument.ofText next with
        | .operand value => a.withOption value name >>= (read · rest)
        | _ => none

end Arguments

/-- The command that the arguments ask for. -/
def ofArguments? : List String → Option Command
  | [] => none
  | name :: rest => do
    let a ← Arguments.read {} rest
    match name, a with
    | "list", ⟨[], none, none⟩ => some list
    | "compile", ⟨[demo], out, chainId⟩ => some (compile demo out chainId)
    | "inspect", ⟨[path], none, none⟩ => if path.isEmpty then none else some (inspect path)
    | _, _ => none

end Command
end StepGraph
