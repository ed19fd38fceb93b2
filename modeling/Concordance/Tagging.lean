import Concordance.Attribution
import Concordance.Declaration.Line
import Concordance.Tool.Dialogue
namespace Concordance

-- The declarations of the files asked for so far. A file on which the tagging tool failed
-- has no table and is not tried again.
structure TagCache where
  tables : Tables
  failed : List String
deriving DecidableEq, Repr

namespace TagCache

def empty : TagCache := ⟨[], []⟩

def size (cache : TagCache) : Nat := cache.tables.length

-- The declarations of a file, from the tagging tool when it is asked for first.
def get (tagger : String) (cache : TagCache) (filename : String) :
    Dialogue (Option (List Declaration) × TagCache) :=
  if cache.failed.contains filename then pure (none, cache)
  else
    match cache.tables.lookup filename with
    | some ds => pure (some ds, cache)
    | none => do
      match ← Dialogue.tryAsk ⟨tagger, taggingArgs filename⟩ with
      | .ok output =>
        let ds := Declaration.ofOutput output
        pure (some ds, { cache with tables := cache.tables ++ [(filename, ds)] })
      | .error _ =>
        Dialogue.notify .taggingFailed
        pure (none, { cache with failed := cache.failed ++ [filename] })

def getAll (tagger : String) (cache : TagCache) : List String → Dialogue TagCache
  | [] => pure cache
  | filename :: filenames => do
    let (_, cache') ← cache.get tagger filename
    cache'.getAll tagger filenames

end TagCache

-- The tables of all these files, each asked for once.
def buildTables (tagger : String) (filenames : List String) : Dialogue Tables := do
  let cache ← TagCache.empty.getAll tagger filenames
  pure cache.tables

end Concordance
