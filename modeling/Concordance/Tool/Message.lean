import Concordance.Json.Decoding
import Concordance.Json.Printer
import Concordance.Session
import Concordance.Tool.Host
namespace Concordance

-- What the program and the system that runs its tools write to each other, one JSON value
-- on a line.

def Json.member? (name : String) : Json → Option Json
  | .object members => members.lookup name
  | _ => none

def Json.texts? : Json → Option (List String)
  | .array items => items.mapM Json.text?
  | _ => none

def Json.textOr (default : String) (json : Option Json) : String :=
  (json.bind Json.text?).getD default

-- An invocation as it is asked for.
def Invocation.json (call : Invocation) : Json :=
  .array ((call.program :: call.args).map .text)

def Behaviour.ofJson? (json : Json) : Except String Behaviour :=
  match (json.member? "cause").bind Json.text? with
  | some cause => .error cause
  | none =>
    let bytes (name : String) : List UInt8 :=
      Text.Utf8.encode (Json.textOr "" (json.member? name)).toList
    let code : Option Int := match json.member? "code" with
      | none => some 0
      | some code => (code.nat? Text.maxWord32).map Int.ofNat
    .ok ⟨bytes "stdout", bytes "stderr", code⟩

-- Where the program is started: the folder, the folders and files around it, the text of
-- the settings file if there is one, and the environment.
def Surroundings.ofJson? (json : Json) : Option Surroundings := do
  let folder ← (← json.member? "folder").text?
  let folders ← (← json.member? "folders").texts?
  let files ← (← json.member? "files").texts?
  let add (leaf : FileTree) (tree : FileTree) (path : String) : FileTree :=
    FileTree.create leaf path tree
  let tree := files.foldl (add .file) (folders.foldl (add FileTree.empty) FileTree.empty)
  let settings := match (json.member? "settings").bind Json.text? with
    | some text => .bytes (Text.Utf8.encode text.toList)
    | none => .nothing
  let env (name : String) : Option String :=
    ((json.member? "env").bind (Json.member? name)).bind Json.text?
  some ⟨tree, folder, settings, env⟩

end Concordance
