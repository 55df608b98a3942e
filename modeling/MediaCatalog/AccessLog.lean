import MediaCatalog.Http.Request
import MediaCatalog.Http.Response
import MediaCatalog.Text.Number

namespace MediaCatalog

open Http

structure AccessLog.Event where
  message       : String
  remoteAddress : String
  status        : Nat
  userAgent     : String
  deriving DecidableEq, Repr

namespace AccessLog

-- What stands for a thing that is not known.
def unknown : String := "-"

-- The client as the proxies on the way have seen it: the first of those who passed the request on.
def remoteAddress (r : Request) : String :=
  match (r.readable? "x-forwarded-for").map (Text.before ',') with
  | some address => Text.trim address
  | none         => Text.trim ((r.readable? "x-real-ip").getD unknown)

def event (request : Request) (response : Response) : Event where
  message := "\"" ++ request.method ++ " " ++ request.uri ++ " HTTP/1.1\""
  remoteAddress := remoteAddress request
  status := response.status
  userAgent := (request.readable? "user-agent").getD unknown

end AccessLog

end MediaCatalog
