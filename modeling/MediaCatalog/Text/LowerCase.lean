import MediaCatalog.Text.CaseRun
import MediaCatalog.Text.Cased

namespace MediaCatalog.Text

-- Whether the first character that does not count as case-ignorable has case.
def meetsCased (cs : List Char) : Bool :=
  match cs.dropWhile isCaseIgnorable with
  | []     => false
  | c :: _ => isCased c

-- A sigma is final if a letter with case comes before it and none comes after it.
def lowerSigma (previous following : List Char) : Char :=
  if meetsCased previous && !meetsCased following then 'ς' else 'σ'

-- Lower-cases the rest of a text; `previous` holds what came before it, backwards.
def lowerChars (previous : List Char) : List Char → List Char
  | []      => []
  | c :: cs =>
    let lower :=
      if c = 'Σ' then [lowerSigma previous cs]
      else if c = 'İ' then ['i', '\u0307']
      else [lowerLetter c]
    lower ++ lowerChars (c :: previous) cs

-- Two capitals need more than a look at the letter itself: a dotted capital i becomes two characters, and a
-- capital sigma takes its final form at the end of a word.
def lower (s : String) : String :=
  .ofList (lowerChars [] s.toList)

end MediaCatalog.Text
