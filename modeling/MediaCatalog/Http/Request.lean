import MediaCatalog.Http.Escape

namespace MediaCatalog.Http

structure Request where
  method  : String
  target  : String
  headers : List (String × String)
  body    : String
  deriving DecidableEq, Repr

-- What a request asks for.
structure Target where
  -- A scheme and an authority with the marks behind the scheme.
  server : String
  path   : String
  -- The query with its question mark.
  query  : String

namespace Target

def isSchemeChar (c : Char) : Bool :=
  Text.isAsciiAlphanumeric c || "+-.".toList.contains c

-- The scheme of an absolute target and what follows its marks.
def scheme? (target : String) : Option (String × String) :=
  let scheme := String.ofList (target.toList.takeWhile isSchemeChar)
  (Text.without? (scheme ++ "://") target).map (scheme, ·)

-- The usual schemes may be written in any case.
def unifyScheme (scheme : String) : String :=
  let lower := Text.asciiLower scheme
  if lower = "http" ∨ lower = "https" then lower else scheme

-- A target without its fragment. On a server that is named, no path is the path of one slash.
def ofText (text : String) : Target :=
  let text := Text.before '#' text
  match scheme? text with
  | none                => ⟨"", Text.before '?' text, query text⟩
  | some (scheme, rest) =>
    let (authority, rest) := rest.toList.span fun c => c != '/' && c != '?'
    let rest := String.ofList rest
    let path := Text.before '?' rest
    ⟨unifyScheme scheme ++ "://" ++ .ofList authority, if path = "" then "/" else path, query rest⟩
where
  query (text : String) : String :=
    .ofList (text.toList.dropWhile (· ≠ '?'))

def text (t : Target) : String :=
  t.server ++ t.path ++ t.query

end Target

namespace Request

def uri (r : Request) : String :=
  (Target.ofText r.target).text

def path (r : Request) : String :=
  (Target.ofText r.target).path

def query (r : Request) : String :=
  (Text.cut '?' (Target.ofText r.target).query).2

-- Only ASCII characters that show, the space and the tab can be read in a header.
def isReadable (value : String) : Bool :=
  value.toList.all fun c => (0x20 ≤ c.toNat && c.toNat < 0x7F) || c == '\t'

-- The first header of a name, which may be in any ASCII case.
def header? (r : Request) (name : String) : Option String :=
  (r.headers.find? fun h => Text.asciiLower h.1 = name).map (·.2)

-- The first header of a name, if it can be read.
def readable? (r : Request) (name : String) : Option String :=
  (r.header? name).filter isReadable

def parameters (r : Request) : List (String × String) :=
  Escape.pairs r.query

end Request

end MediaCatalog.Http
