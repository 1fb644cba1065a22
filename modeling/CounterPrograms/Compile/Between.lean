import CounterPrograms.Compile.GotoToWhile
import CounterPrograms.Compile.LoopToWhile
import CounterPrograms.Compile.WhileToGoto

/-!
# Compiling between any two languages

LOOP programs compile to WHILE programs and, by way of these, to GOTO programs; WHILE and GOTO
programs compile to each other.  There is no way back to LOOP.
-/

namespace CounterPrograms

/-- Whether programs of one language compile to another one. -/
def Language.compilesTo : Language → Language → Bool
  | loop, whileDo | whileDo, goto | goto, whileDo | loop, goto => true
  | _, _ => false

namespace Program

/-- Compiles a LOOP program to WHILE. -/
def loopToWhile (p : Program) (reserved : List String) : Except CompileError Program :=
  (LoopToWhile.attempt p reserved).result

/-- Compiles a WHILE program to GOTO. -/
def whileToGoto (p : Program) (reserved : List String) : Except CompileError Program :=
  (WhileToGoto.attempt p reserved).result

/-- Compiles a GOTO program to WHILE. -/
def gotoToWhile (p : Program) (reserved : List String) : Except CompileError Program :=
  (GotoToWhile.attempt p reserved).result

/-- Compiles a LOOP program to GOTO. -/
def loopToGoto (p : Program) (reserved : List String) : Except CompileError Program := do
  let q ← p.loopToWhile reserved
  q.whileToGoto reserved

/-- Compiles a program of one language to another one. -/
def compile (source target : Language) (p : Program) (reserved : List String) :
    Except CompileError Program :=
  match source, target with
  | .loop, .whileDo => p.loopToWhile reserved
  | .whileDo, .goto => p.whileToGoto reserved
  | .goto, .whileDo => p.gotoToWhile reserved
  | .loop, .goto => p.loopToGoto reserved
  | _, _ => .error (.unsupported source.name target.name)

/-- Compiles a program between languages given by name. -/
def compileNamed (source target : String) (p : Program) (reserved : List String) :
    Except CompileError Program :=
  match Language.ofName? source, Language.ofName? target with
  | some s, some t => p.compile s t reserved
  | _, _ => .error (.unsupported source target)

end Program

end CounterPrograms
