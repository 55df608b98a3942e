import MediaCatalog.Fault
import MediaCatalog.Json

namespace MediaCatalog.Http

inductive Body
  | none
  | text (s : String)
  | json (j : Json)

structure Response where
  status  : Nat
  headers : List (String × String)
  body    : Body

namespace Response

def empty (status : Nat) (headers : List (String × String)) : Response :=
  ⟨status, headers, .none⟩

def text (status : Nat) (s : String) : Response :=
  ⟨status, [("content-type", "text/plain; charset=utf-8")], .text s⟩

def json (status : Nat) (headers : List (String × String)) (j : Json) : Response :=
  ⟨status, headers ++ [("content-type", "application/json")], .json j⟩

-- What is told about a fault.
def faultJson (f : Fault) : Json :=
  .obj [("error", .str f.kind), ("detail", .str f.message), ("status", .int f.status)]

def fault (f : Fault) : Response :=
  json f.status [] (faultJson f)

-- The response without what its body holds.
def withoutBody (r : Response) : Response :=
  { r with body := .none }

end Response

end MediaCatalog.Http
