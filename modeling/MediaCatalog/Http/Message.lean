import MediaCatalog.Http.Request
import MediaCatalog.Http.Response
import MediaCatalog.Text.Number

namespace MediaCatalog.Http

namespace Request

-- The request that has a head of the given lines, still without its body.
def ofHead? : List String → Option Request
  | []            => none
  | first :: rest =>
    match Text.split ' ' first with
    | [method, target, _] => some ⟨method, target, rest.map header, ""⟩
    | _                   => none
where
  header (line : String) : String × String :=
    let (name, value) := Text.cut ':' line
    (name, Text.trim value)

-- The number of bytes that the body of a request has.
def bodySize (r : Request) : Nat :=
  ((r.header? "content-length").bind (Text.readNat? (Nat.pow 2 31))).getD 0

end Request

namespace Body

def chars : Body → String
  | none   => ""
  | text s => s
  | json j => j.text

end Body

namespace Response

def message (r : Response) : String :=
  let body := r.body.chars
  let headers := r.headers ++ [("content-length", Text.decimalNat body.utf8ByteSize)]
  "HTTP/1.1 " ++ Text.decimalNat r.status ++ " \r\n" ++
    String.join (headers.map fun (name, value) => name ++ ": " ++ value ++ "\r\n") ++ "\r\n" ++ body

end Response

end MediaCatalog.Http
