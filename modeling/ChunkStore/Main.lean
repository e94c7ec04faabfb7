import ChunkStore.Session.World
import ChunkStore.Shell

/-!
# The program

Answers the calls of a session from the machine: its files, its clock and its
console. The service in memory lives as long as the program. Nothing carries posts to
a server.
-/

namespace ChunkStore.Main

/-- The failure that a number of the operating system stands for. Some of its calls
give the number with a minus sign. -/
def failureOfNumber (code : UInt32) (details : String) : Failure :=
  let n := if code < 0x80000000 then code else 0 - code
  match [FileFault.missing, .notDirectory, .isDirectory, .nameTooLong].find? fun fault =>
      fault.number? = some n.toNat with
  | some fault => fault.failure
  | none => .io (details ++ " (os error " ++ n.toNat.repr ++ ")")

def failureOf : IO.Error → Failure
  | .noFileOrDirectory _ code details
  | .permissionDenied _ code details
  | .resourceExhausted _ code details
  | .inappropriateType _ code details
  | .alreadyExists _ code details
  | .invalidArgument _ code details => failureOfNumber code details
  | e => .io (toString e)

def attempt {α : Type} (action : IO α) : IO (Except Failure α) := do
  match ← action.toBaseIO with
  | .ok a => return .ok a
  | .error e => return .error (failureOf e)

def toBytes (content : ByteArray) : Bytes := content.data.toList

def ofBytes (content : Bytes) : ByteArray := ⟨content.toArray⟩

def write (stream : IO.FS.Stream) (content : Bytes) : IO Unit := do
  stream.write (ofBytes content)
  stream.flush

def answer (service : IO.Ref Memory.World) : (c : Session.Call) → IO c.Reply
  | .memory call => do
    let now ← IO.monoMsNow
    service.modifyGet fun w => { w with now }.answer call
  | .post _ => return .error Session.World.unreachable
  | .clock => IO.monoMsNow
  | .sleepUntil time => do IO.sleep (time - (← IO.monoMsNow)).toUInt32
  | .load file => attempt (toBytes <$> IO.FS.readBinFile file)
  | .save file content => attempt (IO.FS.writeBinFile file (ofBytes content))
  | .print content => do write (← IO.getStdout) content
  | .note content => do write (← IO.getStderr) content

end ChunkStore.Main

def main (args : List String) : IO UInt32 := do
  let service ← IO.mkRef ({} : ChunkStore.Memory.World)
  let token ← IO.getEnv ChunkStore.Shell.tokenVariable
  let palette : ChunkStore.Text.Palette := ⟨← (← IO.getStdout).isTty⟩
  match ← (ChunkStore.Shell.run args token palette).runM (ChunkStore.Main.answer service) with
  | some (.ok status) => return status.toUInt32
  | _ => return 1
