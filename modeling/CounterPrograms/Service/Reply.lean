import CounterPrograms.Compile.Between
import CounterPrograms.Json.Writable
import CounterPrograms.Labels
import CounterPrograms.Program.Parser
import CounterPrograms.Program.Printer
import CounterPrograms.Program.Tree.Writer
import CounterPrograms.Run.Evaluate
import CounterPrograms.Service.Examples
import CounterPrograms.Service.Field

/-!
# The HTTP service

The service runs, compiles and checks programs that come in the body of a request.  A request that
cannot be understood is refused by its status; whatever is wrong with the program itself is told in
a reply that lists the lines of the message.  A refusal quotes the parts of the body at fault, so it
is sent only if they can be written (`Json.writeFault?`).
-/

namespace CounterPrograms

namespace Service

/-- A reply. -/
inductive Reply
  /-- The request was understood, and this is the body of the answer. -/
  | ok (body : Json)
  /-- The status says all that the service has to say. -/
  | status (code : Nat)
  /-- There is no answer, because the one to be sent cannot be written. -/
  | unsent (error : WriteError)
deriving Repr

/-- The body of a reply that tells what is wrong. -/
def failure (message : String) : Json :=
  .obj [("success", .bool false), ("errors", .arr ((message.splitOn "\n").map .str))]

/-- The body of a reply that tells results. -/
def success (fields : List (String × Json)) : Json :=
  .obj (("success", .bool true) :: fields)

/-- The values of a store by their names. -/
def values (s : Store) : Json :=
  .obj (s.entries.map fun e => (e.1, .int e.2))

/-- A token. -/
def tokenJson (t : Token) : Json :=
  .obj [("type", .str t.kind.name), ("value", .str t.text), ("line", .int t.line),
    ("column", .int t.column)]

/-- The tokens and the program of a text. -/
def tokensAndProgram (language : Language) (code : String) :
    Except String (List Token × Program) := do
  let ts ← (Token.ofText code).mapError LexicalError.message
  let p ← (Program.ofTokens language ts).mapError ParseError.message
  return (ts, p)

/-- The final values of a program. -/
def finalValues (language : Language) (p : Program) (inputs : Inputs) : Except String Store :=
  (p.runIn language inputs).mapError RunError.message

/-- The body of the reply that tells the results, or what went wrong. -/
def told (results : Except String (List (String × Json))) : Json :=
  match results with
  | .ok fields => success fields
  | .error message => failure message

/-- Runs a program. -/
def runProgram (language : Language) (code : String) (inputs : List (String × Nat)) : Json :=
  told do
    let (_, p) ← tokensAndProgram language code
    let s ← finalValues language p (.ofNaturals inputs)
    return [("variables", values s)]

/-- Whether two stores agree on some variables. -/
def agree (names : List String) (s t : Store) : Bool :=
  names.all fun x => s.value x = t.value x

/-- Compiles a program and, if asked for, compares the runs of both programs. -/
def compileProgram (source target : Language) (code : String) (inputs : List (String × Nat))
    (run : Bool) : Json :=
  if !source.compilesTo target then
    failure (CompileError.unsupported source.name target.name).message
  else told do
    let given := Inputs.ofNaturals inputs
    let (_, p) ← tokensAndProgram source code
    let q ← (p.compile source target given.names).mapError CompileError.message
    let text ← (q.print Program.defaultIndent).mapError PrintError.message
    let results := [("code", Json.str text), ("ast", q.toJson)]
    if run then
      let s ← finalValues source p given
      let t ← finalValues target q given
      return results ++
        [("source_variables", values s), ("target_variables", values t),
          ("equivalent", .bool (agree (p.names ++ given.names) s t))]
    else return results

/-- Checks a program; the labels of a GOTO program are checked as well. -/
def checkProgram (language : Language) (code : String) : Json :=
  told do
    let (ts, p) ← tokensAndProgram language code
    let problems := if language = .goto then Labels.problems p.instructions else []
    if problems ≠ [] then throw (Labels.message problems)
    return [("tokens", .arr (ts.map tokenJson)), ("ast", p.toJson)]

/-- The reply with the given body. -/
def answer (body : Json) : Reply :=
  match body.writeFault? with
  | none => .ok body
  | some e => .unsent e

/-- The reply to a body some parts of which are at fault. -/
def refusal (faults : List Json) : Reply :=
  match faults.findSome? Json.writeFault? with
  | none => .status 422
  | some e => .unsent e

/-- The reply to a body that may be at fault. -/
def understood : Checked Json → Reply
  | .ok body => answer body
  | .error faults => refusal faults

/-- The reply to a request to run a program. -/
def runRequest (body : Json) : Reply :=
  understood <|
    ((language body "language").both ((text body "code").both (inputs body))).map
      fun (l, code, given) => runProgram l code given

/-- The reply to a request to compile a program to another language. -/
def compileRequest (body : Json) : Reply :=
  understood <|
    ((language body "source").both ((language body "target").both
      ((text body "code").both ((inputs body).both (run body))))).map
      fun (source, target, code, given, wanted) => compileProgram source target code given wanted

/-- The reply to a request to check a program. -/
def checkRequest (body : Json) : Reply :=
  understood <|
    ((language body "language").both (text body "code")).map fun (l, code) => checkProgram l code

/-! ### Paths -/

/-- What a path leads to. -/
inductive Resource
  | run
  | compile
  | check
  | examples
  /-- The description of the service's interface, in one of its forms. -/
  | documentation
deriving DecidableEq, Repr

/-- The resource at a path. -/
def Resource.at? : String → Option Resource
  | "/api/run" => some run
  | "/api/translate" => some compile
  | "/api/compile" => some check
  | "/api/examples" => some examples
  | "/openapi.json" | "/docs" | "/docs/oauth2-redirect" | "/redoc" => some documentation
  | _ => none

/-- The methods by which a resource is asked for. -/
def Resource.methods : Resource → List String
  | run | compile | check => ["POST"]
  | examples => ["GET"]
  | documentation => ["GET", "HEAD"]

/-- The reply of a resource to a body.  What the documentation says is not the service's own. -/
def Resource.reply (body : Json) : Resource → Reply
  | run => runRequest body
  | compile => compileRequest body
  | check => checkRequest body
  | examples => answer examplesJson
  | documentation => .status 200

/-- The resource that a path leads to.  A line feed at the end of the path does not count. -/
def resource? (path : List Char) : Option Resource :=
  Resource.at? (String.ofList (if path.getLast? = some '\n' then path.dropLast else path))

/-- Whether a path leads to a resource once the slashes at its end are taken away. -/
def hasExtraSlashes (path : List Char) : Bool :=
  path.getLast? = some '/' && (resource? (path.reverse.dropWhile (· = '/')).reverse).isSome

/-- The reply to a request.  A path with slashes too many is redirected, whatever the method. -/
def reply (method path : String) (body : Option Json) : Reply :=
  match resource? path.toList with
  | some r => if method ∈ r.methods then r.reply (body.getD .null) else .status 405
  | none => .status (if hasExtraSlashes path.toList then 307 else 404)

end Service

end CounterPrograms
