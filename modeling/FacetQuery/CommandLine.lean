import FacetQuery.Backend.Sql
import FacetQuery.Params.QueryString
import FacetQuery.Schema.Description
import FacetQuery.Schema.File
import FacetQuery.Session
import FacetQuery.Sql.Pieces

/-!
# Command line

The program translates a query string into SQL for a table, by the schema in a directory. It reads
at most one file, so a run is a plan: either the output at once, or the path of the file and the
output for whatever is found there.

- `Options.read` reads the arguments.
- `plan` is a run of the program.

The options that only show how to use the program are left out: `--help`, `-h`, `--version` and `-V`
are read as unknown options, and the subcommand `help` as a query string.
-/

namespace FacetQuery.CommandLine

/-! ### Options -/

/-- What the arguments ask for. -/
structure Options where
  /-- Print the description of schemas and nothing else. -/
  printsDescription : Bool := false
  /-- The directory of the schema. -/
  configuration : Option String := none
  table : Option String := none
  /-- Write placeholders, and the values of the placeholders below. -/
  parameterized : Bool := false
  query : Option String := none
deriving DecidableEq, Repr

/-- Why arguments cannot be read. -/
inductive UsageError where
  | unknownOption (argument : String)
  | missingValue (option : String)
  | unexpectedValue (option : String)
  | repeatedOption (option : String)
  | unexpectedArgument (argument : String)
deriving DecidableEq, Repr

namespace UsageError

/-- `message e` is the wording of `e`. -/
def message : UsageError → String
  | .unknownOption argument => "error: unexpected argument '" ++ argument ++ "' found"
  | .missingValue option => "error: a value is required for '" ++ option ++ "' but none was supplied"
  | .unexpectedValue option => "error: unexpected value for '" ++ option ++ "' found"
  | .repeatedOption option => "error: the argument '" ++ option ++ "' cannot be used multiple times"
  | .unexpectedArgument argument => "error: unexpected argument '" ++ argument ++ "' found"

end UsageError

namespace Options

/-- The subcommand that prints the description of schemas. -/
def descriptionCommand : String := "print-json-schema"

/-- `setConfiguration o v` sets the directory once. -/
def setConfiguration (o : Options) (v : String) : Except UsageError Options :=
  if v = "" then .error (.missingValue "--configuration <DIRECTORY>")
  else match o.configuration with
    | some _ => .error (.repeatedOption "--configuration <DIRECTORY>")
    | none => .ok { o with configuration := some v }

/-- `setTable o v` sets the table once. -/
def setTable (o : Options) (v : String) : Except UsageError Options :=
  match o.table with
  | some _ => .error (.repeatedOption "--table <TABLE>")
  | none => .ok { o with table := some v }

/-- `setParameterized o` sets the flag once. -/
def setParameterized (o : Options) : Except UsageError Options :=
  if o.parameterized then .error (.repeatedOption "--parameterized")
  else .ok { o with parameterized := true }

/-- `setQuery o v` sets the query once. -/
def setQuery (o : Options) (v : String) : Except UsageError Options :=
  match o.query with
  | some _ => .error (.unexpectedArgument v)
  | none => .ok { o with query := some v }

/-- `splitValue arg` splits `--name=value`. -/
def splitValue (arg : String) : String × Option String :=
  let cs := arg.toList
  match cs.dropWhile (· ≠ '=') with
  | [] => (arg, none)
  | _ :: value => (String.ofList (cs.takeWhile (· ≠ '=')), some (String.ofList value))

/-- `isOption arg` says that an argument is meant as an option. -/
def isOption (arg : String) : Bool :=
  match arg.toList with
  | '-' :: _ :: _ => true
  | _ => false

/-- `readFrom o args` reads arguments one after another. Behind `--` no argument is an option or the
subcommand, and nothing but a `--` may follow the subcommand. -/
def readFrom : Options → List String → Except UsageError Options
  | o, [] => .ok o
  | o, arg :: args =>
      if arg = descriptionCommand then
        match if args.head? = some "--" then args.tail else args with
        | [] => .ok { o with printsDescription := true }
        | extra :: _ => .error (.unexpectedArgument extra)
      else if arg = "--" then args.foldlM setQuery o
      else if isOption arg then
        match splitValue arg with
        | ("--configuration", some v) => do readFrom (← o.setConfiguration v) args
        | ("--table", some v) => do readFrom (← o.setTable v) args
        | ("--configuration", none) =>
            match args with
            | v :: rest =>
                if isOption v then .error (.missingValue "--configuration <DIRECTORY>")
                else do readFrom (← o.setConfiguration v) rest
            | [] => .error (.missingValue "--configuration <DIRECTORY>")
        | ("--table", none) =>
            match args with
            | v :: rest =>
                if isOption v then .error (.missingValue "--table <TABLE>")
                else do readFrom (← o.setTable v) rest
            | [] => .error (.missingValue "--table <TABLE>")
        | ("--parameterized", none) => do readFrom (← o.setParameterized) args
        | ("--parameterized", some _) => .error (.unexpectedValue "--parameterized")
        | _ => .error (.unknownOption arg)
      else do readFrom (← o.setQuery arg) args
termination_by _ args => args.length

/-- `read args environment` reads the arguments; the environment names the directory if they do
not. -/
def read (args : List String) (environment : Option String) : Except UsageError Options := do
  let o ← readFrom {} args
  match o.configuration, environment with
  | none, some v => o.setConfiguration v
  | _, _ => return o

end Options

/-! ### Output -/

/-- What a run prints, and its exit code. -/
structure Output where
  status : Nat
  stdout : String
  stderr : String
deriving DecidableEq, Repr

namespace Output

/-- `success text` prints `text`. -/
def success (text : String) : Output := ⟨0, text, ""⟩

/-- `failure message` says why the run failed. -/
def failure (message : String) : Output := ⟨1, "", message ++ "\n"⟩

/-- `misuse message` says why the arguments cannot be read. -/
def misuse (message : String) : Output := ⟨2, "", message ++ "\n"⟩

end Output

/-- `paramLines n ps` lists the values of the placeholders from number `n` on. -/
def paramLines (n : Nat) : List String → String
  | [] => ""
  | p :: ps => "$" ++ naturalText n ++ " = " ++ Json.quote p ++ "\n" ++ paramLines (n + 1) ps

/-- `printed parameterized q` is the text of a query, and the values of its placeholders. -/
def printed (parameterized : Bool) (q : Sql.Select) : String :=
  if parameterized then
    let s := q.positional
    s.text ++ "\n" ++ paramLines 1 s.params
  else q.inline ++ "\n"

/-- `refused e` is what to say about a request that was refused. -/
def refused : Refusal → String
  | .invalid why => "invalid query: " ++ why.message
  | e => e.message

/-- `translate schema table query parameterized` translates a query string for a table. -/
def translate (schema : Schema) (table query : String) (parameterized : Bool) : Output :=
  let request : Request := ⟨Params.read query, schema⟩
  match request.query Backend.sql (Sql.Select.ofTable table) with
  | .ok q => .success (printed parameterized q)
  | .error e => .failure (refused e)

/-- `outcome content directory table query parameterized` is the output of a run that found
`content` where the schema is to be. -/
def outcome (content : FileContent) (directory table query : String) (parameterized : Bool) :
    Output :=
  match Schema.ofContent (Schema.path directory) content with
  | .ok schema => translate schema table query parameterized
  | .error e => .failure e.message

/-! ### Runs -/

/-- A run of the program. -/
inductive Plan where
  /-- It needs no file. -/
  | finish (output : Output)
  /-- It needs the file at a path. -/
  | withFile (path : String) (output : FileContent → Output)

/-- The text of the description of schemas. -/
def descriptionText : String :=
  Schema.document.toValue.indented ++ "\n"

/-- `ofOptions o` is the run that the options ask for. -/
def ofOptions (o : Options) : Plan :=
  if o.printsDescription then .finish (.success descriptionText)
  else match o.configuration, o.table with
    | none, _ => .finish (.failure "--configuration is required")
    | some _, none => .finish (.failure "--table is required")
    | some directory, some table =>
        .withFile (Schema.path directory) fun content =>
          outcome content directory table (o.query.getD "") o.parameterized

/-- `plan args environment` is the run of the program with these arguments, where `environment`
may name the directory of the schema. -/
def plan (args : List String) (environment : Option String) : Plan :=
  match Options.read args environment with
  | .ok o => ofOptions o
  | .error e => .finish (.misuse e.message)

end FacetQuery.CommandLine
