import Concordance.Path
import Concordance.Text.Number
namespace Concordance

inductive Command where
  | refs (symbol : String)
  | «def» (symbol : String)
  | symbols (file : String)
  | outline (file : String)
  | search (query : String)
  | tree (symbols : List String) (depth : Nat)
  | complete (start : String)
  | doctor
deriving DecidableEq, Repr

structure CommandLine where
  workspace : Option Path
  json : Bool
  command : Command
deriving DecidableEq, Repr

-- Why a command line asks for nothing to be done.
inductive UsageError where
  | missingArgument
  | unknownArgument
  | invalidCommand
  | missingCommand
  -- an option without the value it takes
  | missingValue
  | invalidValue
  -- an option given twice
  | repeated
  -- a value for an option that takes none
  | unneededValue
  | help
  -- nothing at all was given
  | helpWanted
  | version (text : String)
deriving DecidableEq, Repr

namespace CommandLine

inductive Verb where
  | refs
  | «def»
  | symbols
  | outline
  | search
  | tree
  | complete
  | doctor
deriving DecidableEq, Repr

def Verb.text : Verb → String
  | refs => "refs"
  | «def» => "def"
  | symbols => "symbols"
  | outline => "outline"
  | search => "search"
  | tree => "tree"
  | complete => "complete"
  | doctor => "doctor"

def Verb.ofText? : String → Option Verb
  | "refs" => some refs
  | "r" => some refs
  | "def" => some «def»
  | "d" => some «def»
  | "symbols" => some symbols
  | "outline" => some outline
  | "search" => some search
  | "s" => some search
  | "tree" => some tree
  | "t" => some tree
  | "complete" => some complete
  | "doctor" => some doctor
  | _ => none

-- The word that asks for help on a command.
def helpWord : String := "help"

def isVerb (arg : String) : Bool := (Verb.ofText? arg).isSome || arg = helpWord

-- How many words a command takes; a tree takes any number.
def Verb.takes (v : Verb) (already : Nat) : Bool :=
  match v with
  | tree => true
  | doctor => false
  | _ => already = 0

inductive Opt where
  | workspace
  | depth
  | json
  | help
  | version
deriving DecidableEq, Repr

-- Where an argument stands: before the command, or behind it.
abbrev Place := Option Verb

def Opt.ofLong? (place : Place) : String → Option Opt
  | "workspace" => some workspace
  | "json" => some json
  | "help" => some help
  | "version" => some version
  | "depth" => if place = some .tree then some depth else none
  | _ => none

def Opt.ofShort? (place : Place) (c : Char) : Option Opt :=
  if c = 'w' then some workspace
  else if c = 'h' then some help
  else if c = 'V' then some version
  else if c = 'd' ∧ place = some .tree then some depth
  else none

def Opt.takesValue : Opt → Bool
  | workspace => true
  | depth => true
  | json => false
  | help => false
  | version => false

-- What was given in one place. An option that takes a value is held back until the next
-- option, word or end, and is looked at only then.
structure Given where
  workspace : Option String := none
  depth : Option Nat := none
  json : Bool := false
  words : List String := []
  held : Option (Opt × Option String) := none
  -- after two dashes there are words only
  wordsOnly : Bool := false
deriving DecidableEq, Repr

def programName : String := "refgraph"

def versionText (place : Place) : String :=
  let name := match place with
    | none => programName
    | some v => programName ++ "-" ++ v.text
  name ++ " 0.4.0\n"

def depthOf? (value : String) : Option Nat := Text.unsigned? Text.maxWord64 value.toList

def defaultDepth : Nat := 2

namespace Given

def apply (g : Given) (place : Place) (opt : Opt) (value : Option String) :
    Except UsageError Given :=
  match opt, value with
  | .workspace, some value =>
    if g.workspace.isSome then .error .repeated
    else if value = "" then .error .missingValue
    else .ok { g with workspace := some value }
  | .depth, some value =>
    if g.depth.isSome then .error .repeated
    else
      match depthOf? value with
      | some depth => .ok { g with depth := some depth }
      | none => .error .invalidValue
  | .workspace, none => .error .missingValue
  | .depth, none => .error .missingValue
  | .json, _ => if g.json then .error .repeated else .ok { g with json := true }
  | .help, _ => .error .help
  | .version, _ => .error (.version (versionText place))

-- Takes the option that is held back.
def settle (g : Given) (place : Place) : Except UsageError Given :=
  match g.held with
  | none => .ok g
  | some (opt, value) => { g with held := none }.apply place opt value

def isWaiting (g : Given) : Bool :=
  match g.held with
  | some (_, none) => true
  | _ => false

def option (g : Given) (place : Place) (opt : Opt) (attached : Option String) :
    Except UsageError Given := do
  if opt.takesValue then
    let g ← g.settle place
    match attached with
    | some value => g.apply place opt (some value)
    | none => .ok { g with held := some (opt, none) }
  else if attached.isSome then .error .unneededValue
  else
    let g ← g.settle place
    g.apply place opt none

-- An option by its name; the value stands behind an equals sign.
def long (g : Given) (place : Place) (text : List Char) : Except UsageError Given :=
  let (name, rest) := text.span (· ≠ '=')
  let attached := match rest with
    | [] => none
    | _ :: value => some (String.ofList value)
  match Opt.ofLong? place (String.ofList name) with
  | some opt => g.option place opt attached
  | none => .error .unknownArgument

-- An option by its letter; the value stands behind it, with or without an equals sign.
def short (g : Given) (place : Place) (letter : Char) (rest : List Char) :
    Except UsageError Given :=
  match Opt.ofShort? place letter with
  | none => .error .unknownArgument
  | some opt =>
    if !opt.takesValue then g.option place opt none
    else
      match rest with
      | [] => g.option place opt none
      | '=' :: value => g.option place opt (some (String.ofList value))
      | value => g.option place opt (some (String.ofList value))

-- A word that is no option: the value that an option waits for, or an argument.
def value (g : Given) (arg : String) (otherwise : Except UsageError Given) :
    Except UsageError Given :=
  match g.held with
  | some (opt, none) => .ok { g with held := some (opt, some arg) }
  | _ => otherwise

-- Any argument. `otherwise` says what a word means.
def take (g : Given) (place : Place) (arg : String) (otherwise : Except UsageError Given) :
    Except UsageError Given :=
  if g.wordsOnly then otherwise
  else
    match arg.toList with
    | ['-', '-'] => .ok { g with wordsOnly := true }
    | '-' :: '-' :: text => g.long place text
    | ['-'] => g.value arg otherwise
    | '-' :: letter :: rest => g.short place letter rest
    | _ => g.value arg otherwise

def word (g : Given) (v : Verb) (arg : String) : Except UsageError Given :=
  if v.takes g.words.length then
    (g.settle (some v)).map fun g => { g with words := g.words ++ [arg] }
  else .error .unknownArgument

end Given

def readArgs (v : Verb) (g : Given) : List String → Except UsageError Given
  | [] => g.settle (some v)
  | arg :: args => do
    let g ← g.take (some v) arg (g.word v arg)
    readArgs v g args

def commandOf (v : Verb) (g : Given) : Except UsageError Command :=
  match v, g.words with
  | .refs, [symbol] => .ok (.refs symbol)
  | .«def», [symbol] => .ok (.«def» symbol)
  | .symbols, [file] => .ok (.symbols file)
  | .outline, [file] => .ok (.outline file)
  | .search, [query] => .ok (.search query)
  | .tree, symbol :: symbols =>
    .ok (.tree (symbol :: symbols) (g.depth.getD defaultDepth))
  | .complete, words => .ok (.complete (words.head?.getD ""))
  | .doctor, _ => .ok .doctor
  | _, _ => .error .missingArgument

-- Help on a command, which further words may not narrow down.
def helpOn : List String → UsageError
  | [] => .help
  | [arg] => if isVerb arg then .help else .invalidCommand
  | _ => .invalidCommand

-- A word before any command.
def stray (g : Given) (arg : String) : UsageError :=
  if g.wordsOnly && isVerb arg then .unknownArgument else .invalidCommand

-- Joins what stands before the command with what stands behind it, which wins.
def finish (v : Verb) (before : Given) (args : List String) : Except UsageError CommandLine := do
  let behind ← readArgs v {} args
  let command ← commandOf v behind
  let before ← before.settle none
  .ok
    { workspace := (behind.workspace.or before.workspace).map Path.ofText
      json := behind.json || before.json
      command }

def readFrom (g : Given) : List String → Except UsageError CommandLine
  | [] => do
    let g ← g.settle none
    if g.workspace.isNone && !g.json then .error .helpWanted else .error .missingCommand
  | arg :: args =>
    if g.wordsOnly || g.isWaiting || !isVerb arg then do
      let g ← g.take none arg (.error (stray g arg))
      readFrom g args
    else
      match Verb.ofText? arg with
      | some v => finish v g args
      | none => .error (helpOn args)

def read (args : List String) : Except UsageError CommandLine := readFrom {} args

end CommandLine

end Concordance
