import Concordance.Config
import Concordance.FileTree
import Concordance.Health.Finding
import Concordance.Text.Blank
import Concordance.Text.Lines
import Concordance.Text.Search
import Concordance.Tool.Dialogue
import Concordance.Workspace
namespace Concordance.Health

def indexerRequired : String := "GNU Global is required."

def taggerRequired : String := "Universal Ctags is required."

def indexMissing : String :=
  "GTAGS is not generated, use \"gtags\" to generate tag files for global."

-- A finding, and the advisories that the user got for it.
structure Checked where
  finding : Finding
  delivered : List String
deriving DecidableEq, Repr

def passed (name detail : String) : Checked := ⟨⟨name, true, detail⟩, []⟩

-- A finding that the user is advised of, unless the settings suppress it.
def advised (config : Config) (name detail : String) : Dialogue Checked :=
  if config.suppressWarnings then pure ⟨⟨name, false, detail⟩, []⟩
  else do
    Dialogue.notify (.advisory detail)
    pure ⟨⟨name, false, detail⟩, [detail]⟩

def firstLine (text : String) : String := Text.trim ((Text.lines text).head?.getD "")

def explain : ToolFailure → String
  | .exited _ _ stderr => stderr
  | failure => failure.message

def withCause (base cause : String) : String :=
  if cause = "" then base else base ++ " " ++ cause

def versionCall (program : String) : Invocation := ⟨program, ["--version"]⟩

def checkIndexer (config : Config) : Dialogue Checked := do
  match ← Dialogue.tryAsk (versionCall config.indexer) with
  | .ok output => pure (passed "indexer" (firstLine output))
  | .error failure => advised config "indexer" (withCause indexerRequired (explain failure))

-- Other programs go by the name of the tagger too, so it has to tell its own.
def checkTagger (config : Config) : Dialogue Checked := do
  match ← Dialogue.tryAsk (versionCall config.tagger) with
  | .ok output =>
    if Text.contains output "Universal Ctags" then pure (passed "tagger" (firstLine output))
    else advised config "tagger" taggerRequired
  | .error failure => advised config "tagger" (withCause taggerRequired (explain failure))

def indexPath (root : Path) : Path := Path.join root Workspace.indexFile

-- A missing index is advised of. One that cannot be looked at is brought up to date.
def checkIndex (config : Config) (root : Path) (found : Except SystemFault Unit) :
    Dialogue Checked :=
  match found with
  | .ok _ => pure (passed "index" (indexPath root).display)
  | .error .missing => advised config "index" indexMissing
  | .error fault => do
    Dialogue.notify .indexUnreadable
    match ← Dialogue.tryAsk ⟨config.indexer, ["-u"]⟩ with
    | .ok _ => pure ⟨⟨"index", true, fault.text⟩, []⟩
    | .error _ => pure ⟨⟨"index", false, fault.text⟩, []⟩

-- What is found at the place of the index.
def probe (tree : FileTree) (root : Path) : Except SystemFault Unit :=
  (tree.access .whole "/" (indexPath root)).map (fun _ => ())

def checkAll (config : Config) (root : Path) (found : Except SystemFault Unit) :
    Dialogue (List Checked) := do
  let indexer ← checkIndexer config
  let tagger ← checkTagger config
  let index ← checkIndex config root found
  pure [indexer, tagger, index]

end Concordance.Health
