import Concordance.Toml.Reader
import Concordance.Tool.Message
namespace Concordance

-- The command line. The program touches no file and starts no tool by itself. The system
-- that starts it describes the surroundings on the first line of standard input, and then
-- answers on a line each invocation that it finds on standard error.

def UsageError.message : UsageError → String
  | missingArgument => "a required argument is missing"
  | unknownArgument => "unexpected argument"
  | invalidCommand => "unrecognized command"
  | missingCommand => "a command is required"
  | missingValue => "a value is required"
  | invalidValue => "invalid value"
  | repeated => "an argument cannot be used twice"
  | unneededValue => "unexpected value"
  | help => "commands: refs, def, symbols, outline, search, tree, complete, doctor"
  | helpWanted => "commands: refs, def, symbols, outline, search, tree, complete, doctor"
  | version text => text

-- Asks the system to run a tool.
def request (call : Invocation) : IO (Except ToolFailure Behaviour) := do
  IO.eprintln call.json.line
  let answer ← (← IO.getStdin).getLine
  match Json.read? answer with
  | none => pure (.error (.notStarted call.program SystemFault.missing.text))
  | some json =>
    match Behaviour.ofJson? json with
    | .ok b => pure (.ok b)
    | .error cause => pure (.error (.notStarted call.program cause))

-- Holds a dialogue with the system.
def converse {α : Type} : Dialogue α → IO (Except ToolFailure α)
  | .done value => pure (.ok value)
  | .failed failure => pure (.error failure)
  | .run call next => do
    let b ← request call
    converse (next (b.bind (fun b => b.reply call.program)))
  | .list call next => do
    let b ← request call
    converse (next (b.map (fun b => b.listing [b.stdout])))
  | .warn notice next => do
    IO.eprintln ("warning: " ++ notice.text)
    converse next

def failWith (message : String) (code : UInt32) : IO UInt32 := do
  IO.eprintln message
  pure code

def carryOut (surroundings : Surroundings) (line : CommandLine) : IO UInt32 := do
  match ← converse (Session.perform Toml.read? surroundings line).dialogue with
  | .error failure => failWith ("Error: " ++ failure.message) 1
  | .ok outcome =>
    IO.print outcome.stdout
    match outcome.result with
    | .ok _ => pure 0
    | .error e => failWith ("Error: " ++ e.message) 1

end Concordance

open Concordance in
def main (args : List String) : IO UInt32 := do
  match CommandLine.read args with
  | .error (.version text) =>
    IO.print text
    pure 0
  | .error e => failWith e.message 2
  | .ok line =>
    let described ← (← IO.getStdin).getLine
    match (Json.read? described).bind Surroundings.ofJson? with
    | none => failWith "Error: no surroundings" 1
    | some surroundings => carryOut surroundings line
