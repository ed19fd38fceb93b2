import Concordance.FileTree
import Concordance.Text.Blank
import Concordance.Text.LineStream
import Concordance.Tool.Dialogue
namespace Concordance

-- What a program did: what it wrote, and the code with which it ended, if no signal did.
structure Behaviour where
  stdout : List UInt8
  stderr : List UInt8
  code : Option Int
deriving DecidableEq, Repr

namespace Behaviour

def silent : Behaviour := ⟨[], [], some 0⟩

-- The code with which a program is seen to end: of the one it gave, the lowest eight bits.
def status (b : Behaviour) : Option Int := b.code.map (· % 256)

-- The answer of a program that was run to its end.
def reply (program : String) (b : Behaviour) : Reply :=
  if b.status = some 0 then .ok (String.ofList (Text.Utf8.decodeLossy b.stdout))
  else
    .error (.exited program b.status
      (String.ofList (Text.trimmed (Text.Utf8.decodeLossy b.stderr))))

-- Error output that is no text is lost.
def errorText (b : Behaviour) : String :=
  String.ofList ((Text.Utf8.decode? b.stderr).getD [])

-- The answer of a program whose output was taken in these chunks.
def listing (chunks : List (List UInt8)) (b : Behaviour) : Listing :=
  let (batches, stream) := Text.LineStream.empty.pushAll chunks
  { batches := batches.filter (fun batch => !batch.isEmpty)
    trailing := stream.finish
    code := b.status
    stderr := b.errorText }

end Behaviour

-- The most that is taken from an output at once.
def chunkSize : Nat := 8192

-- Cuts bytes into chunks of a size, which counts as one at least.
def chunksOf (size : Nat) (bytes : List UInt8) : List (List UInt8) :=
  match bytes with
  | [] => []
  | b :: rest => (b :: rest.take (size - 1)) :: chunksOf size (rest.drop (size - 1))
termination_by bytes.length
decreasing_by simp only [List.length_drop, List.length_cons]; omega

structure Host where
  -- the programs that are found by name
  programs : List String
  files : FileTree
  -- what is known to happen; other invocations do nothing
  behaviours : List (Invocation × Behaviour)

namespace Host

-- Whether tools can work in a folder.
def enter (h : Host) (folder : Path) : Except SystemFault Unit :=
  match h.files.access .whole "/" folder with
  | .error fault => .error fault
  | .ok names =>
    match h.files.at? names with
    | some (.folder _) => .ok ()
    | _ => .error .notFolder

-- Whether a program can be run. A name with a slash is the path of a file, none of which
-- is a program here; the names of the folder itself and of the one above it are found
-- wherever programs are looked for, and are no programs either.
def find (h : Host) (folder : Path) (program : String) : Except SystemFault Unit :=
  if program.toList.contains '/' then
    match h.files.access .whole folder program with
    | .error fault => .error fault
    | .ok _ => .error .denied
  else if program = "." || program = ".." then .error .denied
  else if h.programs.contains program then .ok ()
  else if FileTree.maxName < program.utf8ByteSize then .error .nameTooLong
  else .error .missing

-- The longest argument that the system takes, in bytes.
def maxArgument : Nat := 131071

-- Starts a program in a folder. Nothing that is handed over may hold a NUL character.
def start (h : Host) (folder : Path) (call : Invocation) : Except SystemFault Behaviour :=
  if folder.hasNul || (call.program :: call.args).any (fun text => (text : Path).hasNul) then
    .error .nulInCommand
  else
    match h.enter folder with
    | .error fault => .error fault
    | .ok _ =>
      match h.find folder call.program with
      | .error fault => .error fault
      | .ok _ =>
        if call.args.any (fun arg => maxArgument < arg.utf8ByteSize) then .error .argumentTooLong
        else .ok ((h.behaviours.lookup call).getD Behaviour.silent)

-- The tools of a system, seen from a folder; their state is the list of what was started.
def toolbox (h : Host) (folder : Path) : Toolbox (List Invocation) where
  run call started :=
    match h.start folder call with
    | .ok b => (b.reply call.program, started ++ [call])
    | .error fault => (.error (.notStarted call.program fault.text), started)
  list call started :=
    match h.start folder call with
    | .ok b => (.ok (b.listing (chunksOf chunkSize b.stdout)), started ++ [call])
    | .error fault => (.error (.notStarted call.program fault.text), started)

end Host

end Concordance
