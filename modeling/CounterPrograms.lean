import CounterPrograms.CommandLine.Server
import CounterPrograms.Compile.Tree
import CounterPrograms.Json.Parser
import CounterPrograms.Json.Printer
import CounterPrograms.Main
import CounterPrograms.Program.Reader
import CounterPrograms.Proofs.Numeral
import CounterPrograms.Proofs.Compile.Fresh
import CounterPrograms.Service.Reply
import CounterPrograms.Token.Cursor
import CounterPrograms.Proofs.Program.Block
import CounterPrograms.Proofs.Run.Memory
import CounterPrograms.Proofs.Run.While
import CounterPrograms.Proofs.Labels
import CounterPrograms.Proofs.Labels.Checks
import CounterPrograms.Proofs.Labels.Agreement
import CounterPrograms.Proofs.Compile.Sound
import CounterPrograms.Proofs.Run.Reuse
import CounterPrograms.Proofs.Run.Coincidence
import CounterPrograms.Proofs.Run.Safety
import CounterPrograms.Proofs.Run.Goto
import CounterPrograms.Proofs.Run.Loop
import CounterPrograms.Proofs.Compile.LoopToWhile
import CounterPrograms.Proofs.Compile.WhileToGoto.Image
import CounterPrograms.Proofs.Run.Placement
import CounterPrograms.Proofs.Compile.WhileToGoto.Emission
import CounterPrograms.Proofs.Compile.WhileToGoto.Runs
import CounterPrograms.Proofs.Compile.WhileToGoto
import CounterPrograms.Proofs.Compile.GotoToWhile.Dispatch
import CounterPrograms.Proofs.Compile.GotoToWhile
import CounterPrograms.Proofs.Program.Literals
import CounterPrograms.Proofs.Compile.Chain
import CounterPrograms.Proofs.Program.Parsing
import CounterPrograms.Proofs.Program.Printing
import CounterPrograms.Proofs.Compile.WellFormed
import CounterPrograms.Proofs.Program.Proper
import CounterPrograms.Proofs.Run.While.Limit
import CounterPrograms.Proofs.Run.Goto.Limit
import CounterPrograms.Proofs.Run.Locks
import CounterPrograms.Proofs.Run.Composition
import CounterPrograms.Proofs.Run.Invariant
import CounterPrograms.Proofs.Compile.NewNames
import CounterPrograms.Proofs.Compile.GotoToWhile.Checks
import CounterPrograms.Proofs.Compile.WhileToGoto.Hygiene
import CounterPrograms.Proofs.Position
import CounterPrograms.Proofs.Token.Cutting
import CounterPrograms.Proofs.Token.Illegal
import CounterPrograms.Proofs.Run.Goto.Padding
import CounterPrograms.Proofs.Text.Lines
import CounterPrograms.Proofs.Labels.Report
import CounterPrograms.Proofs.Json.Same
import CounterPrograms.Proofs.Program.Tree
import CounterPrograms.Proofs.Program.Tree.NormalForm
import CounterPrograms.Proofs.Program.Tree.Node
import CounterPrograms.Proofs.CommandLine.Binding
import CounterPrograms.Proofs.Token.Layout
import CounterPrograms.Proofs.Token.Cursor
import CounterPrograms.Proofs.Token.Cursor.Scan
