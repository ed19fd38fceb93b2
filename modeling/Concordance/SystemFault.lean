namespace Concordance

inductive SystemFault where
  | missing
  | denied
  | notFolder
  | isFolder
  | nameTooLong
  | argumentTooLong
  -- a path with a NUL character in it
  | nulInPath
  -- a program or an argument with a NUL character in it
  | nulInCommand
deriving DecidableEq, Repr

def SystemFault.text : SystemFault → String
  | missing => "No such file or directory (os error 2)"
  | denied => "Permission denied (os error 13)"
  | notFolder => "Not a directory (os error 20)"
  | isFolder => "Is a directory (os error 21)"
  | argumentTooLong => "Argument list too long (os error 7)"
  | nameTooLong => "File name too long (os error 36)"
  | nulInPath => "file name contained an unexpected NUL byte"
  | nulInCommand => "nul byte found in provided data"

end Concordance
