import CounterPrograms.Json.Basic
import CounterPrograms.Language

/-!
# Example programs

The programs that the service offers to somebody who wants to try the languages.
-/

namespace CounterPrograms

namespace Service

/-- An example: its key, its title, its language and its text. -/
structure Example where
  key : String
  title : String
  language : Language
  code : String
deriving DecidableEq, Repr

/-- The examples. -/
def examples : List Example :=
  [⟨"multiplication", "Multiplicação (LOOP)", .loop,
      "x0 := 3;\nx1 := 4;\nx2 := 0;\n" ++
      "LOOP x0 DO\n    LOOP x1 DO\n        x2 := x2 + 1;\n    END\nEND\n"⟩,
    ⟨"division", "Divisão inteira (WHILE)", .whileDo,
      "x0 := 10;\nx1 := 3;\nx2 := 0;\n" ++
      "WHILE x0 >= x1 DO\n    x0 := x0 - x1;\n    x2 := x2 + 1;\nEND\n"⟩,
    ⟨"maximum", "Maior de dois (WHILE)", .whileDo,
      "IF x0 > x1 THEN\n    x2 := x0;\nELSE\n    x2 := x1;\nEND\n"⟩,
    ⟨"countdown", "Contagem regressiva (GOTO)", .goto,
      "x0 := 5;\nM1: IF x0 = 0 THEN GOTO M2;\n    x0 := x0 - 1;\n    GOTO M1;\nM2: HALT;\n"⟩]

/-- The node of an example. -/
def Example.toJson (e : Example) : Json :=
  .obj [("name", .str e.title), ("language", .str e.language.name), ("code", .str e.code)]

/-- All examples by their keys. -/
def examplesJson : Json :=
  .obj (examples.map fun e => (e.key, e.toJson))

end Service

end CounterPrograms
