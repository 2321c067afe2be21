import O2Chat.Common.Utils

/-!
# Decoded HTTP messages

`HttpReply` of `common/http.hpp` with its header map. The map is ordered by
`strcasecmp`, so two names are one key when they agree up to ASCII letter case
before their first NUL.
-/
namespace O2Chat.Common

/-- `strcasecmp(a.c_str(), b.c_str()) == 0`. -/
def sameHeader (a b : Bytes) : Bool := lowercased (cstr a) = lowercased (cstr b)

structure HttpReply where
  status : Int := 0
  headers : Bytes := []
  body : Bytes := []
  method : Bytes := []
  resource : Bytes := []
  parsedHeaders : List (Bytes × Bytes) := []
  deriving DecidableEq, Repr

/-- `parsed_headers[key] = value`: an entry keeps the key it was created with. -/
def setHeader (key value : Bytes) : List (Bytes × Bytes) → List (Bytes × Bytes)
  | [] => [(key, value)]
  | (k, v) :: rest => if sameHeader k key then (k, value) :: rest else (k, v) :: setHeader key value rest

namespace HttpReply

def hasHeader (reply : HttpReply) (header : Bytes) : Bool :=
  reply.parsedHeaders.any fun entry => sameHeader entry.1 header

def getHeader (reply : HttpReply) (header : Bytes) : Bytes :=
  match reply.parsedHeaders.find? fun entry => sameHeader entry.1 header with
  | some entry => entry.2
  | none => []

end HttpReply

end O2Chat.Common
