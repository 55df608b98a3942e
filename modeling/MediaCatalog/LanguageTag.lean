import MediaCatalog.Text

namespace MediaCatalog.LanguageTag

-- A tag is made of subtags with hyphens between, which are told apart by their length and by which characters they
-- hold. No registry of languages is consulted, and letter case never matters.
abbrev Subtag := List Char

namespace Subtag

def isAlpha (least most : Nat) (s : Subtag) : Bool :=
  least ≤ s.length && s.length ≤ most && s.all Char.isAlpha

def isAlphanumeric (least most : Nat) (s : Subtag) : Bool :=
  least ≤ s.length && s.length ≤ most && s.all Text.isAsciiAlphanumeric

def isScript : Subtag → Bool :=
  isAlpha 4 4

def isRegion (s : Subtag) : Bool :=
  isAlpha 2 2 s || (s.length == 3 && s.all Char.isDigit)

def isVariant (s : Subtag) : Bool :=
  isAlphanumeric 5 8 s || (isAlphanumeric 4 4 s && (s.take 1).all Char.isDigit)

-- The subtag that opens the private part of a tag.
def isPrivate (s : Subtag) : Bool :=
  s.map Char.toLower == ['x']

-- The subtag that opens an extension.
def isSingleton (s : Subtag) : Bool :=
  isAlphanumeric 1 1 s && !isPrivate s

end Subtag

-- What may come next while the extensions of a tag are read.
inductive Phase
  | outside -- an extension, the private part or the end
  | opened  -- the first subtag of an extension
  | inside  -- a further subtag of an extension, or all that may come outside

open Subtag

-- The subtags behind the one that opens the private part.
def privatePart (subtags : List Subtag) : Bool :=
  !subtags.isEmpty && subtags.all (isAlphanumeric 1 8)

def extensions : Phase → List Subtag → Bool
  | .opened,  []      => false
  | _,        []      => true
  | .opened,  s :: ss => isAlphanumeric 2 8 s && extensions .inside ss
  | .outside, s :: ss =>
    if isPrivate s then privatePart ss else isSingleton s && extensions .opened ss
  | .inside,  s :: ss =>
    if isAlphanumeric 2 8 s then extensions .inside ss
    else if isPrivate s then privatePart ss
    else isSingleton s && extensions .opened ss

-- Drops the first subtag if it is of the given class.
def dropIf (p : Subtag → Bool) : List Subtag → List Subtag
  | s :: ss => if p s then ss else s :: ss
  | []      => []

-- The subtags behind the language: script, region, variants, extensions and private part.
def afterLanguage (subtags : List Subtag) : Bool :=
  extensions .outside ((dropIf isRegion (dropIf isScript subtags)).dropWhile isVariant)

-- Up to three subtags of three letters narrow a language of two or three letters.
def afterExtended (subtags : List Subtag) : Bool :=
  afterLanguage (drop3 (drop3 (drop3 subtags)))
where
  drop3 := dropIf (isAlpha 3 3)

def regular : List Subtag → Bool
  | []      => false
  | s :: ss =>
    if isPrivate s then privatePart ss
    else if isAlpha 2 3 s then afterExtended ss
    else isAlpha 4 8 s && afterLanguage ss

-- The tags that were registered before the grammar and stay valid as a whole.
def grandfathered : List String := [
  "en-gb-oed", "i-ami", "i-bnn", "i-default", "i-enochian", "i-hak", "i-klingon", "i-lux",
  "i-mingo", "i-navajo", "i-pwn", "i-tao", "i-tay", "i-tsu", "sgn-be-fr", "sgn-be-nl",
  "sgn-ch-de", "art-lojban", "cel-gaulish", "no-bok", "no-nyn", "zh-guoyu", "zh-hakka", "zh-min",
  "zh-min-nan", "zh-xiang"]

-- Whether a text is a language tag.
def isValid (tag : String) : Bool :=
  grandfathered.contains (Text.asciiLower tag) || regular (Text.split.pieces '-' tag.toList)

end MediaCatalog.LanguageTag
