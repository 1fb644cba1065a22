import CounterPrograms.CommandLine.Arguments
import CounterPrograms.CommandLine.Binding
import CounterPrograms.CommandLine.Path
import CounterPrograms.Language

/-!
# The command `lwg`

`lwg LANGUAGE FILE [NAME=VALUE …] [--translate-to LANGUAGE] [--show] [--check]` runs the program in
a file, in another language if asked for.  Arguments that nothing takes are read as further
bindings, which come after the others.
-/

namespace CounterPrograms

/-- What the command is asked to do. -/
structure Invocation where
  language : Language
  /-- The path of the file, normalized; there is none if the place for it was left with nothing. -/
  file : Option String
  bindings : List (String × Nat)
  target : Option Language
  showProgram : Bool
  checkLabels : Bool
deriving DecidableEq, Repr

namespace Invocation

/-- How reading the arguments ends if it gives no invocation. -/
inductive Refusal
  /-- The arguments are wrong; the usage is shown. -/
  | usage
  /-- Help is asked for. -/
  | help
  /-- A binding among the arguments left over is faulty in a way that nobody expected. -/
  | fault (error : BindingError)
deriving DecidableEq, Repr

/-- The options and places of the command. -/
def grammar : Arguments.Grammar :=
  ⟨[⟨"-h", false⟩, ⟨"--help", false⟩, ⟨"--translate-to", true⟩, ⟨"--show", false⟩,
      ⟨"--check", false⟩],
    [.one, .one, .many]⟩

/-- What has been read so far. -/
structure Draft where
  language : Option Language
  /-- What the place for the file took, once it has been filled. -/
  file : Option (Option String)
  bindings : Option (List (String × Nat))
  target : Option Language
  showProgram : Bool
  checkLabels : Bool
  left : List String
deriving DecidableEq, Repr

/-- The draft before the first argument. -/
def Draft.empty : Draft := ⟨none, none, none, none, false, false, []⟩

/-- Reads the bindings in their place.  Every fault is one of usage there. -/
def readBindings (arguments : List String) : Except Refusal (List (String × Nat)) :=
  (arguments.mapM Binding.read).mapError fun _ => .usage

/-- The language that an argument names. -/
def readLanguage (argument : String) : Except Refusal Language :=
  match Language.ofName? argument with
  | some l => .ok l
  | none => .error .usage

/-- Lets the next open place take arguments. -/
def Draft.take (d : Draft) (arguments : List String) : Except Refusal Draft :=
  match d.language, d.file, arguments with
  | none, _, [name] => do
    let l ← readLanguage name
    return { d with language := some l }
  | some _, none, [] => .ok { d with file := some none }
  | some _, none, [path] => .ok { d with file := some (some (Path.normalize path)) }
  | some _, some _, arguments => do
    let bs ← readBindings arguments
    return { d with bindings := some bs }
  | _, _, _ => .error .usage

/-- Follows an event. -/
def Draft.follow (d : Draft) : Arguments.Event → Except Refusal Draft
  | .misuse => .error .usage
  | .left argument => .ok { d with left := d.left ++ [argument] }
  | .place arguments => d.take arguments
  | .flag "--translate-to" none => .ok { d with target := none }
  | .flag "--translate-to" (some name) => do
    let l ← readLanguage name
    return { d with target := some l }
  | .flag "--show" _ => .ok { d with showProgram := true }
  | .flag "--check" _ => .ok { d with checkLabels := true }
  | .flag _ _ => .error .help

/-- Reads the arguments that were left over as bindings. -/
def readLeft : List String → Except Refusal (List (String × Nat))
  | [] => .ok []
  | argument :: rest =>
    match Binding.read argument with
    | .ok b => do
      let others ← readLeft rest
      return b :: others
    | .error (.malformed _) => .error .usage
    | .error e => .error (.fault e)

/-- The invocation that a draft describes when all arguments have been read. -/
def Draft.finish (d : Draft) : Except Refusal Invocation :=
  match d.language, d.file with
  | some language, some file => do
    let more ← readLeft d.left
    return ⟨language, file, d.bindings.getD [] ++ more, d.target, d.showProgram, d.checkLabels⟩
  | _, _ => .error .usage

/-- Reads the arguments of the command. -/
def ofArguments (arguments : List String) : Except Refusal Invocation := do
  let d ← (Arguments.events grammar arguments).foldlM Draft.follow .empty
  d.finish

end Invocation

end CounterPrograms
