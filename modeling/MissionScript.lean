import MissionScript.Text.Case
import MissionScript.Text.Quoted
import MissionScript.Decimal.Layout
import MissionScript.Decimal.Read
import MissionScript.Script.Lexer
import MissionScript.Script.StmtParser
import MissionScript.Script.Check
import MissionScript.Json.Basic
import MissionScript.Mission.Recorder
import MissionScript.RuntimeError
import MissionScript.Value.Methods
import MissionScript.Value.Range
import MissionScript.Run.Outcome
import MissionScript.Json.Decode
import MissionScript.Format.Playback
import MissionScript.Main
import MissionScript.Proofs.Value.Confined
import MissionScript.Proofs.Run.Congruence
import MissionScript.Proofs.Run.Trail
import MissionScript.Proofs.Mission.Log
import MissionScript.Proofs.Run.Mirror
import MissionScript.Proofs.Run.Replay
import MissionScript.Proofs.Run.Verdict
import MissionScript.Proofs.Run.Raise
import MissionScript.Proofs.Run.Memory
import MissionScript.Proofs.Run.Nesting
import MissionScript.Proofs.Run.Places
import MissionScript.Proofs.Run.Isolation
import MissionScript.Proofs.Run.Keys
import MissionScript.Proofs.Run.Fuel
import MissionScript.Proofs.Script.Bare
import MissionScript.Proofs.Script.Grammar
import MissionScript.Proofs.Script.Reading
import MissionScript.Proofs.Script.ExprAccepted
import MissionScript.Proofs.Script.ExprRead
import MissionScript.Proofs.Script.Language
import MissionScript.Proofs.Script.Written
import MissionScript.Proofs.Run.Literals
import MissionScript.Proofs.Run.ControlFlow
import MissionScript.Proofs.Script.Scanning
import MissionScript.Proofs.Script.LogicalLines
import MissionScript.Proofs.Script.Traced
import MissionScript.Proofs.Script.Covered
import MissionScript.Proofs.Script.Pointing
import MissionScript.Proofs.Script.Diagnosed
import MissionScript.Proofs.Run.Blame
import MissionScript.Proofs.Format.Faithful
import MissionScript.Proofs.Playback.Transport
import MissionScript.Proofs.Value.Exact
import MissionScript.Proofs.Run.Counting
import MissionScript.Proofs.Run.Ranges
import MissionScript.Proofs.Run.Assignment
import MissionScript.Proofs.Run.Update
import MissionScript.Proofs.Run.Attribution
import MissionScript.Proofs.Run.Stride
import MissionScript.Proofs.Script.Rules
import MissionScript.Proofs.Script.BlankLines
import MissionScript.Proofs.Script.LineEndings
import MissionScript.Proofs.Playback.Timing
import MissionScript.Proofs.Value.Equality
import MissionScript.Proofs.Value.Order
import MissionScript.Proofs.Value.Slices
import MissionScript.Proofs.Value.Repetition
import MissionScript.Proofs.Run.Scopes
