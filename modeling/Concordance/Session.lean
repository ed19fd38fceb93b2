import Concordance.CommandLine
import Concordance.Completion
import Concordance.Config.File
import Concordance.Console
import Concordance.Health
import Concordance.Json.Encoding
import Concordance.Report
import Concordance.Roots
import Concordance.Workspace
namespace Concordance

structure Surroundings where
  files : FileTree
  folder : Path
  settings : Config.Source
  env : String → Option String

structure Session where
  workspace : Workspace
  config : Config
  json : Bool
deriving DecidableEq, Repr

namespace Session

-- Finds the workspace, then reads the settings with a reader of TOML.
def start (read : String → Option Toml.Members) (around : Surroundings) (line : CommandLine) :
    Except CommandError Session :=
  match Workspace.detect around.files around.folder (line.workspace.getD around.folder) with
  | .error e => .error (.noWorkspace e)
  | .ok workspace =>
    match Config.load read around.settings with
    | .error _ => .error .settings
    | .ok config => .ok ⟨workspace, config.overridden around.env, line.json⟩

variable (s : Session)

def project : Project := ⟨s.config, s.workspace.root⟩

-- Prints a result in the format that was asked for.
def emit (json : Json) (human : String) : Console Unit :=
  Console.print (if s.json then json.format ++ "\n" else human)

def trackAll (p : Project) : Roots → List String → Dialogue Roots
  | roots, [] => pure roots
  | roots, symbol :: symbols => do
    let update ← roots.track p symbol
    match update.value with
    | .error failure => .failed failure
    | .ok _ => trackAll p update.roots symbols

def branches (symbols : List String) (depth : Nat) : Dialogue (List Branch) := do
  let roots ← trackAll s.project [] symbols
  Dialogue.forEach (s.project.render s.workspace.root depth) roots

def refs (symbol : String) : Console Unit := do
  let os ← s.project.references symbol
  s.emit (.array (os.map Occurrence.json)) (Report.occurrences symbol os)

def definitions (symbol : String) : Console Unit := do
  let ls ← s.project.definitions symbol
  s.emit (.array (ls.map Location.json)) (Report.locations symbol ls)

def fileSymbols (file : String) : Console Unit := do
  let os ← s.project.fileSymbols file
  s.emit (.array (os.map Occurrence.json)) (Report.occurrences file os)

def outline (file : String) : Console Unit := do
  let es ← s.project.outline file
  s.emit (.array (es.map OutlineEntry.json)) (Report.outline es)

def search (query : String) : Console Unit := do
  let hits ← s.project.symbolHits query
  s.emit (.array (hits.map SymbolHit.json)) (Report.symbolHits query hits)

def tree (symbols : List String) (depth : Nat) : Console Unit := do
  let bs ← s.branches symbols depth
  s.emit (.array (Branch.jsonOfAll bs)) (Report.rows (Branch.rowsOfAll 0 bs))

def complete (start : String) : Console Unit := do
  let (started, cache) := Completion.Cache.idle.start s.config
  if !started then Console.fail .completionDisabled
  else
    let cache ← cache.wait
    match cache.status with
    | .failed cause => Console.fail (.listingFailed cause)
    | _ =>
      let tags := cache.matching start
      s.emit (.array (tags.map .text)) (Report.tags tags)

-- Prints all findings, and fails when one of them is bad.
def doctor (found : Except SystemFault Unit) : Console Unit := do
  let checked ← Health.checkAll s.config s.workspace.root found
  let fs := checked.map (fun c => c.finding)
  s.emit (.array (fs.map Finding.json)) (Report.findings fs)
  let bad := fs.filter (fun f => !f.ok)
  if bad.isEmpty then pure () else Console.fail (.checksFailed bad.length)

-- Carries a command out. `found` is what stands at the place of the index.
def run (found : Except SystemFault Unit) (command : Command) : Console Unit := do
  if !s.workspace.indexed then Dialogue.notify .noIndex
  match command with
  | .refs symbol => s.refs symbol
  | .«def» symbol => s.definitions symbol
  | .symbols file => s.fileSymbols file
  | .outline file => s.outline file
  | .search query => s.search query
  | .tree symbols depth => s.tree symbols depth
  | .complete start => s.complete start
  | .doctor => s.doctor found

-- Carries out a command line. No tool is run before the workspace and the settings are there.
def perform (read : String → Option Toml.Members) (around : Surroundings) (line : CommandLine) :
    Console Unit :=
  match start read around line with
  | .error e => Console.fail e
  | .ok s => s.run (Health.probe around.files s.workspace.root) line.command

end Session

end Concordance
