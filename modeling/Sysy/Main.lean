import Std.Time.DateTime.Timestamp
import Sysy.Command.Run

/-!
The program on a real machine: requests are met one after the other.
-/

namespace Sysy.Host

/-- The fault that an error of the system means. -/
def faultOf : IO.Error → Fault
  | .noFileOrDirectory .. => .missing
  | .alreadyExists .. => .occupied
  | .inappropriateType _ _ detail => .other detail
  | e => .other (toString e)

/-- Tries an operation on a path. -/
def attempt {α : Type} (operation path : String) (x : IO α) : IO (Except FileError α) := do
  try return .ok (← x)
  catch e => return .error ⟨operation, path, faultOf e⟩

def byteArray (b : Bytes) : ByteArray := ⟨b.toArray⟩

def streamOf : Stream → IO IO.FS.Stream
  | .output => IO.getStdout
  | .errors => IO.getStderr

/-- Meets a request. -/
def meet : (q : Request) → IO q.Reply
  | .read path => attempt "open" path do return (← IO.FS.readBinFile path).data.toList
  | .write path content => attempt "open" path (IO.FS.writeBinFile path (byteArray content))
  | .append path content => attempt "open" path do
      let h ← IO.FS.Handle.mk path .append
      h.write (byteArray content)
  | .makeDirs path => attempt "mkdir" path (IO.FS.createDirAll path)
  | .removeTree path => attempt "unlinkat" path (IO.FS.removeDirAll path)
  | .stat path => attempt "stat" path do
      let _ ← IO.FS.Handle.mk path .read
  | .print s content => do
      let out ← streamOf s
      out.write (byteArray content)
      out.flush
  | .now => do return (← Std.Time.Timestamp.now).toNanosecondsSinceUnixEpoch.val
  | .env name => do return (← IO.getEnv name).getD ""
  | .workDir => do return toString (← IO.currentDir)
  | .isTerminal s => do (← streamOf s).isTty

/-- Runs a program. -/
def Action.perform {α : Type} : Action α → IO α
  | .done a => return a
  | .ask q next => do (next (← meet q)).perform

end Sysy.Host

def main (words : List String) : IO UInt32 := do
  return (← (Sysy.Command.run words).perform).toUInt32
