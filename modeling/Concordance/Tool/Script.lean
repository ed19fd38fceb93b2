import Concordance.Text.LineStream
import Concordance.Tool.Dialogue
namespace Concordance

-- An answer that is known beforehand, and how often it may be given.
structure ScriptEntry where
  call : Invocation
  reply : Reply
  times : Option Nat

-- Tools that answer by a list. The first entry that fits and is not used up counts, and
-- other invocations print nothing.
abbrev Script := List ScriptEntry

namespace Script

def answer (call : Invocation) : Script → Reply × Script
  | [] => (.ok "", [])
  | entry :: entries =>
    if entry.call = call && entry.times ≠ some 0 then
      (entry.reply, { entry with times := entry.times.map (· - 1) } :: entries)
    else
      let (reply, entries) := answer call entries
      (reply, entry :: entries)

-- A listing with the lines of an answer.
def listing : Reply → ListingReply
  | .ok output =>
    let (batch, stream) := Text.LineStream.empty.push output.toList
    .ok ⟨[batch], stream.finish, some 0, ""⟩
  | .error (.exited _ code stderr) => .ok ⟨[], none, code, stderr⟩
  | .error failure => .error failure

def toolbox : Toolbox Script where
  run call script := answer call script
  list call script :=
    let (reply, script) := answer call script
    (listing reply, script)

end Script

end Concordance
