import CounterPrograms.CommandLine.Arguments
import CounterPrograms.Numeral.Integer

/-!
# The command `lwg-server`

The options of the command that starts the service: the host and the number of the socket on which
it listens, whether it restarts when its code changes, and whether it opens the documentation of its
interface in a browser.
-/

namespace CounterPrograms

/-- What the service is asked to do.  The host and the socket are missing if their options were left
with nothing. -/
structure ServerOptions where
  host : Option String
  socket : Option Int
  reload : Bool
  browser : Bool
deriving DecidableEq, Repr

namespace ServerOptions

/-- What the service does when nothing is asked for. -/
def default : ServerOptions := ⟨some "127.0.0.1", some 8000, false, true⟩

/-- The options of the command; it has no positional arguments. -/
def grammar : Arguments.Grammar :=
  ⟨[⟨"-h", false⟩, ⟨"--help", false⟩, ⟨"--host", true⟩, ⟨"--port", true⟩, ⟨"--reload", false⟩,
      ⟨"--no-browser", false⟩],
    []⟩

/-- How reading the arguments ends if it gives no options. -/
inductive Refusal
  /-- The arguments are wrong. -/
  | usage
  /-- Help is asked for. -/
  | help
deriving DecidableEq, Repr

/-- The exit code of a command that ends so. -/
def Refusal.exit : Refusal → Nat
  | usage => 2
  | help => 0

/-- What has been read so far, and whether an argument was left over. -/
structure Draft where
  options : ServerOptions
  left : Bool
deriving DecidableEq, Repr

/-- Follows an event. -/
def Draft.follow (d : Draft) : Arguments.Event → Except Refusal Draft
  | .misuse => .error .usage
  | .left _ | .place _ => .ok { d with left := true }
  | .flag "--host" host => .ok { d with options := { d.options with host := host } }
  | .flag "--port" none => .ok { d with options := { d.options with socket := none } }
  | .flag "--port" (some text) =>
    match Numeral.readInteger? text.toList with
    | some n => .ok { d with options := { d.options with socket := some n } }
    | none => .error .usage
  | .flag "--reload" _ => .ok { d with options := { d.options with reload := true } }
  | .flag "--no-browser" _ => .ok { d with options := { d.options with browser := false } }
  | .flag _ _ => .error .help

/-- Reads the arguments of the command.  An argument that is left over is wrong, but only when all
others have been read. -/
def ofArguments (arguments : List String) : Except Refusal ServerOptions := do
  let d ← (Arguments.events grammar arguments).foldlM Draft.follow ⟨default, false⟩
  if d.left then .error .usage else return d.options

/-- The address of the documentation of a service.  A host that stands for every address of the
machine cannot be visited, so the machine itself is named instead. -/
def documentation (host socket : String) : String :=
  let visited := if host = "0.0.0.0" ∨ host = "::" then "localhost" else host
  "http://" ++ visited ++ ":" ++ socket ++ "/docs"

/-- How an address shows a host or socket that is missing. -/
def missing : String := "[]"

/-- The pages that are opened in a browser. -/
def pages (o : ServerOptions) : List String :=
  if o.browser then
    [documentation (o.host.getD missing) ((o.socket.map Numeral.text).getD missing)]
  else []

/-- The application that is served. -/
def application : String := "main:app"

end ServerOptions

end CounterPrograms
