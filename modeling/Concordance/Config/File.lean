import Concordance.Config
import Concordance.Path
import Concordance.SystemFault
import Concordance.Text.Number
import Concordance.Text.Utf8
import Concordance.Toml.Basic
namespace Concordance.Config

inductive Source where
  | nothing
  | folder
  | bytes (content : List UInt8)
deriving DecidableEq, Repr

inductive LoadError where
  | unreadable (cause : String)
  | malformed
deriving DecidableEq, Repr

-- The text of an error that has one of its own.
def LoadError.message? : LoadError → Option String
  | unreadable cause => some ("IO error: " ++ cause)
  | malformed => none

def notText : String := "stream did not contain valid UTF-8"

def text? : Toml.Value → Option String
  | .text s => some s
  | _ => none

def bool? : Toml.Value → Option Bool
  | .bool b => some b
  | _ => none

def count? : Toml.Value → Option Nat
  | .integer (.ofNat n) => some n
  | _ => none

-- The value of a setting, or its default where the file has none.
def setting? {α : Type} (read : Toml.Value → Option α) (default : α)
    (members : Toml.Members) (key : String) : Option α :=
  match members.lookup key with
  | none => some default
  | some value => read value

-- Settings of other names are passed over.
def ofMembers? (members : Toml.Members) : Option Config := do
  let default : Config := {}
  some
    { indexer := ← setting? text? default.indexer members "indexer"
      tagger := ← setting? text? default.tagger members "tagger"
      completion := ← setting? bool? default.completion members "completion"
      suppressWarnings := ← setting? bool? default.suppressWarnings members "suppress_warnings"
      fuzzyEnrichLimit := ← setting? count? default.fuzzyEnrichLimit members "fuzzy_enrich_limit"
      fuzzyMinQuery := ← setting? count? default.fuzzyMinQuery members "fuzzy_min_query" }

-- Loads the settings, with a reader of TOML; without a file they are the default ones.
def load (read : String → Option Toml.Members) : Source → Except LoadError Config
  | .nothing => .ok {}
  | .folder => .error (.unreadable SystemFault.isFolder.text)
  | .bytes content =>
    match Text.Utf8.decode? content with
    | none => .error (.unreadable notText)
    | some text =>
      match (read (String.ofList text)).bind ofMembers? with
      | some config => .ok config
      | none => .error .malformed

def fileName : String := "config.toml"

-- The user's own folder: the one that the environment names, else that of the account. An
-- empty name is none.
def userHome (account : Path) (env : String → Option String) : Path :=
  match (env "HOME").filter (fun folder => folder ≠ "") with
  | some folder => folder
  | none => account

-- The folder of the settings: the one that is named for them, else the user's folder for
-- settings, which counts when its path is absolute.
def home (account : Path) (env : String → Option String) : Path :=
  match env "REFGRAPH_HOME" with
  | some folder => folder
  | none =>
    let settings : Path := match (env "XDG_CONFIG_HOME").filter (fun folder =>
        (folder : Path).isAbsolute) with
      | some folder => folder
      | none => Path.join (userHome account env) ".config"
    Path.join settings "refgraph"

def path (account : Path) (env : String → Option String) : Path :=
  Path.join (home account env) fileName

end Concordance.Config
