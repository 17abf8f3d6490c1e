import Sews.Cpp.Bytes
import Sews.Cpp.UnorderedMap

/-!
# Messages

`core::message::transport::Message` is an abstract class with two HTTP
subclasses under `architecture/message/http`.  A dispatcher, a router or an
encoder that receives a `Message` tells them apart by `dynamic_cast` and by
`type()`, so `Message` keeps a third case for a subclass of someone else, which
may report any type it likes.
-/

namespace Sews.Http

open Cpp

/-- `core::message::type::Message`. -/
inductive MessageType
  | HttpRequest | HttpResponse | Unknown
deriving DecidableEq, Repr

abbrev HeaderMap := UnorderedMap Bytes Bytes

/-- The order in which a loop over a header map visits it. -/
abbrev HeaderOrder := List (Σ _ : Bytes, Bytes)

structure Request where
  method : Bytes := []
  path : Bytes := []
  version : Bytes := []
  body : Bytes := []
  headers : HeaderMap := ∅
deriving DecidableEq

structure Response where
  status : Int32 := 200
  statusText : Bytes := ascii "OK"
  version : Bytes := ascii "HTTP/1.1"
  body : Bytes := []
  headers : HeaderMap := ∅
deriving DecidableEq

inductive Message
  | request (r : Request)
  | response (r : Response)
  | other (type : MessageType) (payload : Bytes)
deriving DecidableEq

namespace Message

def type : Message → MessageType
  | request _ => .HttpRequest
  | response _ => .HttpResponse
  | other type _ => type

end Message

/-- The header name both codecs look for, in this spelling only. -/
def contentLength : Bytes := ascii "Content-Length"

/-- The headers that the handlers set, with the content type `type`. -/
def pageHeaders (type : Bytes) : HeaderMap :=
  (Finmap.insert (ascii "Content-Type") type ∅).insert (ascii "Connection") (ascii "keep-alive")

end Sews.Http
