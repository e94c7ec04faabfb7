import ChunkStore.Program
import ChunkStore.Text.Blank
import ChunkStore.Text.Marked
import ChunkStore.Text.Numeral
import ChunkStore.Transfer

/-!
# HTTP exchanges

The requests that a client posts and the responses that it reads. How they travel is
left to whoever answers the calls of `interface`.
-/

namespace ChunkStore.Http

/-- A request to post. The names of headers are in lower case. -/
structure Request where
  url : String
  headers : List (String × String)
  body : Source

structure Response where
  status : Nat := 200
  headers : List (String × String) := []
  received : Bytes := []
  complete : Bool := true
  deriving Repr, DecidableEq

inductive Call where
  | send (request : Request)
  | clock
  | sleepUntil (time : Millis)

abbrev Call.Reply : Call → Type
  | .send _ => Except Failure Response
  | .clock => Millis
  | .sleepUntil _ => Unit

abbrev interface : Interface := ⟨Call, Call.Reply⟩

/-- A header value without control characters, except for tabs. -/
def isSendable (value : String) : Bool :=
  value.toList.all fun c => c == '\t' || (0x20 ≤ c.toNat && c.toNat != 0x7F)

def post (r : Request) : Program interface Response :=
  if r.headers.all fun (_, value) => isSendable value then
    .ask (.send r) fun reply => .ofExcept reply
  else .failed (.network "a header holds a control character")

namespace Response

def isSuccess (r : Response) : Bool := 200 ≤ r.status && r.status < 300

/-- Responses of this status end with their headers. -/
def hasNoBody (r : Response) : Bool := r.status == 204 || r.status == 304

def body? (r : Response) : Option Bytes :=
  if r.hasNoBody then some []
  else if r.complete then some r.received
  else none

def header? (r : Response) (name : String) : Option String :=
  r.headers.findSome? fun (key, value) => if key.toLower = name then some value else none

/-- The body as it is shown to users; one that was cut short counts as empty. -/
def bodyText (r : Response) : String := Text.ofMarked (r.body?.getD [])

def retryAfter? (r : Response) : Option Nat := do
  let value ← r.header? "retry-after"
  if value.toList.all fun c => c == '\t' || (0x20 ≤ c.toNat && c.toNat ≤ 0x7E) then
    Text.signedWord? (Text.trim value).toList
  else none

end Response

end ChunkStore.Http
