namespace Concordance

inductive Notice where
  -- a tag is not on the line that the index gives for it
  | staleIndex
  | taggingFailed
  | noIndex
  | indexUnreadable
  | listingFailed
  -- an advisory of a check
  | advisory (text : String)
deriving DecidableEq, Repr

def Notice.text : Notice → String
  | staleIndex => "index might be out of date, run `global -u` to update it"
  | taggingFailed => "Tagging tool failed, leaving file unenriched"
  | noIndex => "No GTAGS found; run `gtags` first"
  | indexUnreadable => "Index unreadable, updating"
  | listingFailed => "Completion listing failed"
  | advisory text => text

end Concordance
