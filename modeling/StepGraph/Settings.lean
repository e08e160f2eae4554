import StepGraph.Dict
import StepGraph.Files
import StepGraph.Text.Blank

/-!
# Settings

* **Credentials**: a project, its key and a region give access to the engine. Written as one text
  they are a token: the three with colons between. Where a chain is run depends on the region.
  `Settings.Error` lists the reasons why there are none.
* **Files of variables**: a line assigns a value to a key with `=`, and may start with `export`.
  Blanks around line, key and value do not count. Lines that start with `#`, lines without `=` and
  lines without a key are passed over. One pair of quotes around a value is taken away, and what is
  between them stays as it is (`unquote_quoted`).
* **Loading**: a loader reads its files in order, and later assignments win. A file that does not
  exist is passed over; one that cannot be read ends the reading, and the loader stays as it was,
  since the variables are put into it when all files have been read. Files are read again only on
  request. A variable that no file assigns is looked up in the environment of the process, and an
  empty value counts as none.
-/

namespace StepGraph

/-! ## Credentials -/

/-- Why there are no credentials. -/
inductive Settings.Error where
  | invalidToken
  | missingVariable (name : String)
  /-- A file is there and cannot be read. -/
  | unreadable (path : String) (cause : FileError)
  deriving DecidableEq, Repr

/-- The wording of an error. -/
def Settings.Error.message : Settings.Error → String
  | invalidToken => "Invalid token: expected '<project>:<api_key>:<region>'"
  | missingVariable name => "Environment variable '" ++ name ++ "' is not set"
  | unreadable path cause => "Could not read env file '" ++ path ++ "': " ++ cause.message

/-- What gives access to the engine. -/
structure Credentials where
  project : String
  apiKey : String
  region : String
  deriving DecidableEq, Repr

namespace Credentials

/-- Reads a token: three parts, none of them empty. Blanks around the token do not count. -/
def ofToken (token : String) : Except Settings.Error Credentials :=
  match (Text.trim token.toList).splitOn ':' with
  | [project, apiKey, region] =>
    if project.isEmpty || apiKey.isEmpty || region.isEmpty then .error .invalidToken
    else .ok ⟨String.ofList project, String.ofList apiKey, String.ofList region⟩
  | _ => .error .invalidToken

variable (c : Credentials)

/-- The token of the credentials. -/
def token : String := c.project ++ ":" ++ c.apiKey ++ ":" ++ c.region

/-- Where the engine is. -/
def baseUrl : String := "https://api-" ++ c.region ++ ".stack.tryrelevance.com/latest"

/-- Where a chain is run with the token. -/
def triggerUrl (chainId : String) : String := c.baseUrl ++ "/studios/" ++ chainId ++ "/trigger"

/-- Where anyone can run a chain that is publicly triggerable. -/
def limitedTriggerUrl (chainId : String) : String :=
  c.baseUrl ++ "/studios/" ++ chainId ++ "/trigger_limited"

end Credentials

/-! ## Files of variables -/

namespace EnvFile

/-- The word in front of an assignment that is passed on to other programs. -/
def exportMark : List Char := "export ".toList

/-- The text without the mark, if it has one. -/
def withoutExport (line : List Char) : List Char :=
  (exportMark.isPrefixOf? line).getD line

/-- The text starts and ends with the quote, and these are two characters. -/
def isQuotedBy (quote : Char) (value : List Char) : Bool :=
  2 ≤ value.length && value.head? == some quote && value.getLast? == some quote

/-- Takes away one pair of quotes. -/
def unquote (value : List Char) : List Char :=
  if isQuotedBy '"' value || isQuotedBy '\'' value then (value.drop 1).dropLast else value

theorem isQuotedBy_quoted (quote : Char) (value : List Char) :
    isQuotedBy quote (quote :: (value ++ [quote])) = true := by
  simp [isQuotedBy, List.getLast?_cons]

/-- What stands between quotes is kept, whatever it is. -/
theorem unquote_quoted {quote : Char} (h : quote = '"' ∨ quote = '\'') (value : List Char) :
    unquote (quote :: (value ++ [quote])) = value := by
  have hq : (isQuotedBy '"' (quote :: (value ++ [quote])) ||
      isQuotedBy '\'' (quote :: (value ++ [quote]))) = true := by
    rcases h with rfl | rfl <;> simp [isQuotedBy_quoted]
  simp [unquote, hq]

/-- The parts before and after the first `=`. -/
def splitAssignment (line : List Char) : Option (List Char × List Char) :=
  match line.dropWhile (· != '=') with
  | [] => none
  | _ :: value => some (line.takeWhile (· != '='), value)

/-- The key and the value of a line, if it assigns one. -/
def assignment (line : List Char) : Option (List Char × List Char) :=
  let line := Text.trim line
  if line.head? = some '#' then none
  else match splitAssignment (withoutExport line) with
    | none => none
    | some (key, value) =>
      let key := Text.trim key
      if key.isEmpty then none else some (key, unquote (Text.trim value))

/-- The assignments of a text, in order. -/
def assignments (text : String) : List (String × String) :=
  ((text.toList.splitOn '\n').filterMap assignment).map fun (key, value) =>
    (String.ofList key, String.ofList value)

end EnvFile

/-! ## Loading -/

namespace Settings

/-- Variables from files. -/
structure Loader where
  /-- Where the files are, in the order in which they are read. -/
  files : List String := [".env", "chains/.relevance"]
  assigned : Dict String := []
  /-- The files have been read. -/
  isLoaded : Bool := false

namespace Loader

/-- What is found under a path. -/
abbrev Read := String → Except FileError String

/-- The variables of a process. -/
abbrev Environment := String → Option String

/-- Adds the assignments of files to variables. -/
def readFiles (read : Read) (assigned : Dict String) : List String → Except Error (Dict String)
  | [] => .ok assigned
  | path :: rest =>
    match read path with
    | .ok text => readFiles read (Dict.insertAll assigned (EnvFile.assignments text)) rest
    | .error .notFound => readFiles read assigned rest
    | .error cause => .error (.unreadable path cause)

variable (l : Loader)

/-- Reads the files, whether or not they have been read. -/
def reload (read : Read) : Except Error Unit × Loader :=
  match readFiles read [] l.files with
  | .ok assigned => (.ok (), { l with assigned, isLoaded := true })
  | .error e => (.error e, l)

/-- Reads the files, if they have not been read. -/
def load (read : Read) : Except Error Unit × Loader :=
  if l.isLoaded then (.ok (), l) else l.reload read

/-- The value of a variable. -/
def get? (environment : Environment) (name : String) : Option String :=
  (Dict.get? l.assigned name <|> environment name).filter (!·.isEmpty)

/-- The value of a variable that must have one. -/
def require (environment : Environment) (name : String) : Except Error String :=
  match l.get? environment name with
  | some value => .ok value
  | none => .error (.missingVariable name)

/-- The credentials in the variables that have been loaded. -/
def loadedCredentials (environment : Environment) : Except Error Credentials := do
  let project ← l.require environment "RELEVANCE_PROJECT_ID"
  let apiKey ← l.require environment "RELEVANCE_API_KEY"
  let region ← l.require environment "RELEVANCE_REGION"
  return ⟨project, apiKey, region⟩

/-- Loads, and gives the credentials and the loader after that. -/
def credentials (read : Read) (environment : Environment) : Except Error Credentials × Loader :=
  match l.load read with
  | (.ok (), loaded) => (loaded.loadedCredentials environment, loaded)
  | (.error e, l) => (.error e, l)

end Loader
end Settings

end StepGraph
