namespace Concordance

structure Finding where
  name : String
  ok : Bool
  -- a version, a path, or what is wrong
  detail : String
deriving DecidableEq, Repr

end Concordance
