import MediaCatalog.LanguageTag
import MediaCatalog.Refusal

namespace MediaCatalog

-- One language, or every language there is.
inductive Language
  | any
  | tag (t : String)
  deriving DecidableEq, Repr

namespace Language

def text : Language → String
  | any   => "*"
  | tag t => t

-- A star stands for every language.
def read (s : String) : Except Refusal Language :=
  let s := Text.trim s
  if s = any.text then pure any
  else if LanguageTag.isValid s then pure (tag s)
  else throw (.languageTag s)

-- The first range of a list of accepted languages, without its weight; a range that cannot be used
-- counts as none.
def preferred? (accepted : String) : Option Language :=
  (read (Text.before ';' (Text.before ',' accepted))).toOption

-- Only the query can be in the wrong: an unusable list of accepted languages is passed over.
def choose (query accepted : Option String) (default : String) : Except Refusal Language :=
  match query with
  | some s => read s
  | none   =>
    match accepted.bind preferred? with
    | some l => pure l
    | none   => read default

end Language

end MediaCatalog
