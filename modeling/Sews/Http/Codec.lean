import Mathlib.Data.List.DropRight
import Sews.Cpp.Stream
import Sews.Http.Message

/-!
# The codecs

`RequestParser.parse` reads a request off a string stream; `ResponseSerializer.serialize`
and the tests' `requestSerializer` write one message.  The serializers loop over
an unordered header map, so they take the order of that loop.

The three parts of the parser are the request line (three `>>` and one
`getline`), the header loop with its body `headerLine`, and `readBody`.  The
exceptions of `std::stoul` and of the allocation of the body in `readBody` are not
caught anywhere in it.
-/

namespace Sews.Http

open Cpp IStringStream

/-! ### `RequestParser` -/

namespace RequestParser

/-- The characters of `" \t"`. -/
def isBlank (b : Byte) : Bool := b == sp || b == ht

/-- `s.erase(0, s.find_first_not_of(" \t"))`, then
`s.erase(s.find_last_not_of(" \t") + 1)`.  When every character is blank both
searches give `npos`; the first erases everything and the second erases from
`npos + 1 = 0`. -/
def trim (s : Bytes) : Bytes := (s.dropWhile isBlank).rdropWhile isBlank

/-- `if (!buffer.empty() && buffer.back() == '\r') buffer.pop_back();` -/
def popCr (buffer : Bytes) : Bytes :=
  if buffer.getLast? = some cr then buffer.dropLast else buffer

/-- The body of the header loop. -/
def headerLine (buffer : Bytes) (headers : HeaderMap) : ForInStep HeaderMap :=
  let buffer := popCr buffer
  if buffer = [] then .done headers
  else
    -- the key ends at the first colon; without one the line is skipped
    match buffer.dropWhile (· != colon) with
    | [] => .yield headers
    | _ :: value =>
      let key := buffer.takeWhile (· != colon)
      .yield (headers.insert (trim key) (trim value))

/-- The body is as long as `Content-Length` says: `read` overwrites the front of
a string of that many NUL bytes with what the stream still has.  `request->body = body`
then allocates a second time, which is taken to succeed. -/
def readBody (mem : Memory) (headers : HeaderMap) (iss : IStringStream) :
    Except Exception Bytes :=
  match headers.lookup contentLength with
  | none => .ok []
  | some value =>
    match stoul value with
    | .error e => .error e
    | .ok contentLength =>
      match mem.zeros contentLength with
      | .error e => .error e
      | .ok body => .ok (iss.read body contentLength).1

/-- `RequestParser::parse`.  The pointer it returns is never null. -/
def parse (mem : Memory) (raw : Bytes) : Except Exception (Option Message) :=
  let iss := ofBytes raw
  let (method, iss) := iss.extract []
  let (path, iss) := iss.extract []
  let (version, iss) := iss.extract []
  let (_, iss) := iss.getline lf []
  let (headers, iss) := whileGetline lf headerLine ∅ iss
  match readBody mem headers iss with
  | .error e => .error e
  | .ok body => .ok (some (.request { method, path, version, body, headers }))

end RequestParser

/-! ### Serializers -/

def crlf : Bytes := [cr, lf]

/-- `oss << header.first << ": " << header.second << "\r\n"`, for each header. -/
def headerLines (order : HeaderOrder) : Bytes :=
  order.flatMap fun header => header.1 ++ [colon, sp] ++ header.2 ++ crlf

/-- `requestSerializer` of `test/test_sews.cpp`. -/
def requestSerializer (request : Request) (order : HeaderOrder) : Bytes :=
  request.method ++ [sp] ++ request.path ++ [sp] ++ request.version ++ crlf
    ++ headerLines order ++ crlf ++ request.body

namespace ResponseSerializer

/-- The text of an HTTP response. -/
def write (r : Response) (order : HeaderOrder) : Bytes :=
  (if r.version = [] then ascii "HTTP/1.1" else r.version) ++ [sp] ++ decimalInt r.status.toInt
    ++ [sp] ++ r.statusText ++ crlf ++ headerLines order
    ++ (if r.headers.lookup contentLength = none then
          ascii "Content-Length: " ++ decimal r.body.length ++ crlf
        else [])
    ++ crlf ++ r.body

/-- `ResponseSerializer::serialize`.  A message of another type is logged and
serialized to the empty string; one that only claims to be a response fails the
`dynamic_cast` to a reference. -/
def serialize (response : Message) (order : HeaderOrder) : Except Exception Bytes :=
  if response.type ≠ .HttpResponse then .ok []
  else match response with
    | .response r => .ok (write r order)
    | _ => .error .badCast

end ResponseSerializer

end Sews.Http
