namespace Concordance

structure Config where
  -- the program that knows where tags occur
  indexer : String := "global"
  -- the program that knows what a file declares
  tagger : String := "ctags"
  -- whether tag names are listed for completion
  completion : Bool := false
  suppressWarnings : Bool := false
  -- a fuzzy search with this many results is not enriched
  fuzzyEnrichLimit : Nat := 512
  -- a shorter fuzzy query finds nothing
  fuzzyMinQuery : Nat := 2
deriving DecidableEq, Repr

namespace Config

-- The settings with the programs that the environment names. An empty name counts as none.
def overridden (config : Config) (env : String → Option String) : Config :=
  let given (key : String) : Option String := (env key).filter (· ≠ "")
  { config with
    indexer := (given "REFGRAPH_INDEXER").getD config.indexer
    tagger := (given "REFGRAPH_TAGGER").getD config.tagger }

end Config

end Concordance
