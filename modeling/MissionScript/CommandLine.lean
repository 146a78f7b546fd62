import MissionScript.Format.Result

/-!
# The command line

`run LEVEL SCRIPT` runs a script on a level and shows the frames and the verdict, `check SCRIPT`
reads a script without running it, and `fingerprint LEVEL SCRIPT` gives the fingerprint of a run.
What is said and the exit code are computed here; how files are read is a parameter.
-/

namespace MissionScript.CommandLine

/-- What is asked for. -/
inductive Request where
  | run (level script : String) (json : Bool) (config : Option String) (ceiling : Option Nat)
  | check (script : String)
  | fingerprint (level script : String)

/-- What is answered. -/
structure Reply where
  code : Nat
  stdout : String
  stderr : String

/-- Why a request comes to nothing. -/
inductive Failure where
  | unreadable (path cause : String)
  | badLimits (e : Json.Error)
  | refused (d : Diagnostic)

namespace Failure

def text : Failure → String
  | unreadable path cause => "failed to read '" ++ path ++ "': " ++ cause
  | badLimits e => Limits.refusal e
  | refused d => d.summary

def reply (f : Failure) : Reply := ⟨1, "", "error: " ++ f.text ++ "\n"⟩

end Failure

/-! ## Requests -/

/-- The options and arguments of `run` so far. -/
structure RunWords where
  paths : List String
  json : Bool
  config : Option String
  ceiling : Option Nat

/-- The value that a word gives to an option, as in `--option=value`. -/
def assigned? (option word : String) : Option String :=
  let opening := (option ++ "=").toList
  if opening.isPrefixOf word.toList then some (String.ofList (word.toList.drop opening.length))
  else none

/-- A ceiling is a number of 32 bits. -/
def ceilingOf? (s : String) : Option Nat :=
  match Command.integerOf? s.toList with
  | some n => if 0 ≤ n ∧ n ≤ 0xffffffff then some n.toNat else none
  | none => none

def RunWords.withCeiling? (w : RunWords) (s : String) : Option RunWords :=
  (ceilingOf? s).map fun n => { w with ceiling := some n }

def readRunWords (w : RunWords) : List String → Option RunWords
  | [] => some w
  | "--json" :: rest => readRunWords { w with json := true } rest
  | "--config" :: path :: rest => readRunWords { w with config := some path } rest
  | "--ceiling" :: n :: rest => do readRunWords (← w.withCeiling? n) rest
  | word :: rest =>
    match assigned? "--config" word, assigned? "--ceiling" word with
    | some path, _ => readRunWords { w with config := some path } rest
    | _, some n => do readRunWords (← w.withCeiling? n) rest
    | none, none =>
      if "-".toList.isPrefixOf word.toList then none
      else readRunWords { w with paths := w.paths ++ [word] } rest

def Request.ofWords? : List String → Option Request
  | "run" :: rest =>
    match readRunWords ⟨[], false, none, none⟩ rest with
    | some ⟨[level, script], json, config, ceiling⟩ => some (.run level script json config ceiling)
    | _ => none
  | ["check", script] => some (.check script)
  | ["fingerprint", level, script] => some (.fingerprint level script)
  | _ => none

/-! ## Answers -/

/-- The text with spaces after it, up to the given width. -/
def padded (width : Nat) (s : String) : String :=
  s ++ String.ofList (List.replicate (width - s.length) ' ')

/-- One line about a frame. -/
def frameLine (f : Frame) : String :=
  let line := match f.line with
    | some n => "line " ++ toString n
    | none => ""
  let log := match f.log with
    | some s => " " ++ s
    | none => ""
  let error := match f.error with
    | some e => " !! " ++ e
    | none => ""
  "#" ++ padded 4 (toString f.step) ++ " " ++ f.snapshot.pos.text ++ " " ++ padded 8 line
    ++ log ++ error ++ "\n"

/-- The last line about a run. -/
def verdictLine (t : Trace) : String :=
  match t.verdict.reason with
  | .success => "SUCCESS in " ++ toString t.frames.length ++ " frame(s)\n"
  | .incomplete => "INCOMPLETE: " ++ t.verdict.message.getD "goal not met" ++ "\n"
  | .error =>
    match t.verdict.error with
    | none => "ERROR\n"
    | some e =>
      let place := match e.line with
        | some n => " on line " ++ toString n
        | none => ""
      e.kind.title ++ place ++ ": " ++ e.message ++ "\n"

/-- What is said about a run. -/
def summary (t : Trace) : String :=
  let output := if t.output.isEmpty then "" else "--- output ---\n" ++ t.output ++ "\n"
  String.join (t.frames.map frameLine) ++ output ++ verdictLine t

/-- What is said about a text that cannot be read. -/
def complaint (d : Diagnostic) : String :=
  let shown := if d.sourceLine.isEmpty then "" else "   | " ++ d.sourceLine ++ "\n"
  let hint := match d.suggestion with
    | some s => "   = hint: " ++ s ++ "\n"
    | none => ""
  d.summary ++ "\n  --> " ++ d.file ++ ":" ++ d.span.text ++ "\n" ++ shown ++ hint

def exitCode (success : Bool) : Nat := if success then 0 else 1

def resultReply (json : Bool) (r : RunResult) : Reply :=
  if json then ⟨exitCode r.success, r.toJson.pretty ++ "\n", ""⟩
  else
    match r.trace, r.error with
    | some t, _ => ⟨exitCode r.success, summary t, ""⟩
    | none, some d => ⟨exitCode r.success, "", complaint d⟩
    | none, none => ⟨exitCode r.success, "", ""⟩

def checkReply (source : SourceText) : Reply :=
  match source.program with
  | .ok p => ⟨0, "ok: " ++ toString p.stmts.length ++ " statement(s)\n", ""⟩
  | .error d => ⟨1, "", complaint d⟩

/-- What is said when the words are no request. -/
def usage : String :=
  "usage: run LEVEL SCRIPT [--json] [--config FILE] [--ceiling N] | check SCRIPT"
    ++ " | fingerprint LEVEL SCRIPT\n"

section Files

variable {m : Type → Type} [Monad m]

/-- Reads a file by its path: its text, or why it cannot be read. -/
abbrev Files (m : Type → Type) := String → m (Except String String)

def fileText (files : Files m) (path : String) : ExceptT Failure m String := do
  match ← files path with
  | .ok s => return s
  | .error cause => throw (.unreadable path cause)

/-- The limits of a run: those of the file if one is named, and the ceiling if one is given. -/
def limitsOf (files : Files m) (config : Option String) (ceiling : Option Nat) :
    ExceptT Failure m Limits := do
  let limits ← match config with
    | none => pure Limits.standard
    | some path =>
      match Limits.read (← fileText files path) with
      | .ok l => pure l
      | .error e => throw (.badLimits e)
  return { limits with stepCeiling := ceiling.getD limits.stepCeiling }

/-- What was read, or else the failure that a diagnostic is. -/
def orRefused {α : Type} (r : Except Diagnostic α) : ExceptT Failure m α :=
  match r with
  | .ok a => return a
  | .error d => throw (.refused d)

/-- Reads a level and a script, one after the other, and runs the script. -/
def runFiles (files : Files m) (level script : String) (limits : Limits) :
    ExceptT Failure m Trace := do
  let l ← orRefused (Level.ofText (← fileText files level))
  let source : SourceText := ⟨defaultScriptName, ← fileText files script⟩
  orRefused (source.runOn l limits)

/-- A diagnostic is a result of a run; another failure is not. -/
def Failure.asResult (f : Failure) : ExceptT Failure m RunResult :=
  match f with
  | .refused d => return .ofDiagnostic d
  | f => throw f

/-- Does what a request asks for. -/
def fulfil (files : Files m) : Request → ExceptT Failure m Reply
  | .run level script json config ceiling => do
    let limits ← limitsOf files config ceiling
    let ran : ExceptT Failure m RunResult :=
      return .ofTrace (← runFiles files level script limits)
    return resultReply json (← tryCatch ran Failure.asResult)
  | .check script => do return checkReply ⟨script, ← fileText files script⟩
  | .fingerprint level script => do
    let t ← runFiles files level script .standard
    return ⟨0, t.fingerprint ++ "\n", ""⟩

/-- Answers the words of a command line. -/
def respond (files : Files m) (words : List String) : m Reply := do
  match Request.ofWords? words with
  | none => return ⟨2, "", usage⟩
  | some r =>
    match ← (fulfil files r).run with
    | .ok reply => return reply
    | .error f => return f.reply

end Files

end MissionScript.CommandLine
