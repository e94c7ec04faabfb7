import ChunkStore.Http
import ChunkStore.Storage

/-!
# Sessions

What a command may ask of the world around it: the service in memory, a server
that takes posts, the time, the files of the user, and a console with one channel
for results and one for notes.
-/

namespace ChunkStore.Session

inductive Call where
  | memory (call : Remote.Call)
  | post (request : Http.Request)
  | clock
  | sleepUntil (time : Millis)
  | load (file : String)
  | save (file : String) (content : Bytes)
  | print (content : Bytes)
  | note (content : Bytes)

abbrev Call.Reply : Call → Type
  | .memory call => call.Reply
  | .post _ => Except Failure Http.Response
  | .clock => Millis
  | .load _ => Except Failure Bytes
  | .save .. => Except Failure Unit
  | .sleepUntil _ | .print _ | .note _ => Unit

abbrev interface : Interface := ⟨Call, Call.Reply⟩

def load (file : String) : Program interface Bytes :=
  .ask (.load file) fun reply => .ofExcept reply

def save (file : String) (content : Bytes) : Program interface Unit :=
  .ask (.save file content) fun reply => .ofExcept reply

def print (content : Bytes) : Program interface Unit := .ask (.print content) .done

def say (line : String) : Program interface Unit := print (Text.bytes (line ++ "\n"))

/-- Prints a line among the notes. -/
def note (line : String) : Program interface Unit :=
  .ask (.note (Text.bytes (line ++ "\n"))) .done

def fromMemory : (c : Storage.Call) → Program interface c.Reply
  | .remote _ call => .ask (.memory call) .done
  | .clock => .ask .clock .done
  | .sleepUntil time => .ask (.sleepUntil time) .done

def fromServer : (c : Http.Call) → Program interface c.Reply
  | .send request => .ask (.post request) .done
  | .clock => .ask .clock .done
  | .sleepUntil time => .ask (.sleepUntil time) .done

end ChunkStore.Session
