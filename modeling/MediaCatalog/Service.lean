import MediaCatalog.Catalog
import MediaCatalog.Http.MediaType
import MediaCatalog.Http.Request
import MediaCatalog.Http.Response
import MediaCatalog.Http.Route
import MediaCatalog.Settings

namespace MediaCatalog

open Http

namespace Page

-- A page of entries under the number that the client knows it by.
def json (number : UInt32) (p : Page Entry) : Json :=
  .obj [
    ("items", .arr (p.items.map Entry.json)),
    ("pageNumber", .int number.toNat),
    ("pageSize", .int p.size.toNat),
    ("totalPages", .int p.totalPages.toInt),
    ("totalItems", .int p.totalItems.toInt)]

def headers (number : UInt32) (l : Language) (p : Page Entry) : List (String × String) := [
  ("content-language", l.text),
  ("x-total-count", Text.decimal p.totalItems.toInt),
  ("x-total-pages", Text.decimal p.totalPages.toInt),
  ("x-page-number", Text.decimalNat number.toNat),
  ("x-page-size", Text.decimalNat p.size.toNat)]

end Page

namespace Service

variable {σ : Type} (c : Catalog σ) (settings : Settings)

def health : Run σ Response := do
  c.checkHealth
  return .json 200 [] (.obj [("status", .str "UP")])

-- The language of a request, where the query may have named one.
def language (r : Request) (query : Option String) : Except Fault Language :=
  (Language.choose query (r.readable? "accept-language") settings.defaultLanguage).mapError
    Refusal.fault

def search (kind : String) (r : Request) : Run σ Response := do
  let kind ← Kind.read kind
  let query ← (Query.ofPairs r.parameters).mapError Refusal.fault
  let request ← query.pageRequest settings.paging
  let l ← language settings r query.language
  let page ← c.findPage kind query.filter l request
  let number := request.page + settings.paging.firstPage
  return .json 200 (page.headers number l) (page.json number)

def fetch (kind id : String) (r : Request) : Run σ Response := do
  let kind ← Kind.read kind
  let missing := Fault.notFound (kind.name ++ " " ++ id ++ " not found")
  let some number := Text.readInt64? id | throw missing
  let l ← language settings r (Query.firstLanguage r.parameters)
  match ← c.findEntry kind l number with
  | some e => return .json 200 [("content-language", l.text)] e.json
  | none   => throw missing

-- The most bytes that a body may have.
def bodyLimit : Nat := 2097152

-- The draft in the body of a request. The media type is looked at before the body is, and the length of the body
-- before what is in it.
def draft (r : Request) : Except Refusal Draft := do
  match r.header? "content-type" with
  | none   => throw .bodyMediaType
  | some t =>
    if !Request.isReadable t || !MediaType.isNearlyJson t then throw .contentType
    if !MediaType.isJson t then throw .bodyMediaType
  if bodyLimit < r.body.utf8ByteSize then throw .bodyLength
  match Draft.read r.body with
  | .ok d               => return d
  | .error .syntaxError => throw .bodySyntax
  | .error .shapeError  => throw .bodyShape

def create (kind : String) (r : Request) : Run σ Response := do
  let d ← (draft r).mapError Refusal.fault
  let kind ← Kind.read kind
  let e ← c.create kind d
  return .json 201 [("location", "/api/v1/" ++ kind.path ++ "/" ++ Text.decimal e.id)] e.json

-- The answer to a path that has an escape which is not text.
def undecodable (parameter : String) : Response :=
  .text 400 ("Invalid URL: Invalid UTF-8 in `" ++ parameter ++ "`")

-- What a route does with a request whose method it takes.
def handle (r : Request) : Route → Run σ Response
  | .health        => health c
  | .entries kind  =>
    match Escape.segment? kind with
    | none      => return undecodable "kind"
    | some kind => if r.method = "POST" then create c kind r else search c settings kind r
  | .entry kind id =>
    match Escape.segment? kind, Escape.segment? id with
    | none,      _       => return undecodable "kind"
    | _,         none    => return undecodable "id"
    | some kind, some id => fetch c settings kind id r

-- The answer to a request and what it does to the catalog. HEAD is answered as GET, without a body.
def respond (r : Request) : StateM σ Response := do
  match Route.ofPath? r.path with
  | none       => return .empty 404 []
  | some route =>
    if !route.methods.contains r.method then
      return .empty 405 [("allow", String.intercalate "," route.methods)]
    let response :=
      match ← (handle c settings r route).run with
      | .ok response => response
      | .error fault => .fault fault
    return if r.method = "HEAD" then response.withoutBody else response

end Service

end MediaCatalog
