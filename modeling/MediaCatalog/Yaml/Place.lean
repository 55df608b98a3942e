import MediaCatalog.Text

namespace MediaCatalog.Yaml

-- Blanks within a line.
def isBlank (c : Char) : Bool :=
  c == ' ' || c == '\t'

def dropBlanks : List Char → List Char :=
  List.dropWhile isBlank

-- Whether a blank or the end of the line comes next.
def startsBlank : List Char → Bool
  | []     => true
  | c :: _ => isBlank c

-- Whether nothing but a comment follows in a line.
def startsComment (cs : List Char) : Bool :=
  cs.isEmpty || cs.head? == some '#'

-- The characters of which a file may consist.
def isAllowed (c : Char) : Bool :=
  let n := c.toNat
  n == 0x09 || n == 0x0A || n == 0x0D || (0x20 ≤ n && n ≤ 0x7E) || n == 0x85 ||
  (0xA0 ≤ n && n ≤ 0xFFFD) || 0x10000 ≤ n

-- A line break, as what it is read.
def lineBreak? : Char → Option Char
  | '\n' | '\r' | '\x85' => some '\n'
  | '\u2028'             => some '\u2028'
  | '\u2029'             => some '\u2029'
  | _                    => none

-- A line that stands below others, with the break that leads to it.
structure Line where
  opening : Char
  text    : List Char

-- The first line of a text and the lines below it.
def lines : List Char → List Char × List Line
  | []                 => ([], [])
  | '\r' :: '\n' :: cs => opened '\n' (lines cs)
  | c :: cs            =>
    match lineBreak? c with
    | some b => opened b (lines cs)
    | none   => let (l, ls) := lines cs; (c :: l, ls)
where
  opened (b : Char) : List Char × List Line → List Char × List Line
    | (l, ls) => ([], ⟨b, l⟩ :: ls)

-- The structure of a text hangs on its rows and columns: a place knows where it is, what follows in its line and
-- the lines below.
structure Place where
  row    : Nat
  column : Nat
  line   : List Char
  below  : List Line

namespace Place

-- The place behind some characters of the line.
def drop (p : Place) (n : Nat) : Place :=
  { p with column := p.column + n, line := p.line.drop n }

-- The place in the line at which the given rest of it starts.
def dropTo (p : Place) (rest : List Char) : Place :=
  p.drop (p.line.length - rest.length)

def dropWhile (p : Place) (isPassed : Char → Bool) : Place :=
  p.dropTo (p.line.dropWhile isPassed)

-- The place where the line below starts.
def inLine (p : Place) (l : Line) (ls : List Line) : Place :=
  ⟨p.row + 1, 0, l.text, ls⟩

def isEnd (p : Place) : Bool :=
  p.line.isEmpty && p.below.isEmpty

-- Whether a line of three hyphens or three points stands here. It marks the start or the end of a
-- document, wherever it stands.
def isMarker (p : Place) : Bool :=
  match p.line with
  | '-' :: '-' :: '-' :: cs | '.' :: '.' :: '.' :: cs => p.column == 0 && startsBlank cs
  | _                                                 => false

-- Goes on to where something stands in the line. A byte order mark may open each line, and a tab does not
-- count as a blank where it could be taken for indentation.
def nextInLine (inBrackets keyAllowed : Bool) (p : Place) : Place :=
  let p := if p.column = 0 && p.line.head? = some '\uFEFF' then p.drop 1 else p
  let p := p.dropWhile fun c => c == ' ' || (c == '\t' && (inBrackets || !keyAllowed))
  if startsComment p.line then p.dropTo [] else p

-- Goes on to where something stands, or to the end of the text. Outside of brackets a line break lets a key
-- follow; the second result tells whether one may stand at the place.
def next (inBrackets keyAllowed : Bool) (p : Place) : Place × Bool :=
  go keyAllowed p p.below
where
  go (keyAllowed : Bool) (p : Place) (below : List Line) : Place × Bool :=
    let q := p.nextInLine inBrackets keyAllowed
    match below with
    | []      => (q, keyAllowed)
    | l :: ls =>
      if q.line.isEmpty then go (keyAllowed || !inBrackets) (p.inLine l ls) ls else (q, keyAllowed)

-- The place where a text starts.
def ofText? (text : String) : Option Place :=
  let cs := text.toList
  let (l, ls) := lines cs
  if cs.all isAllowed then some ⟨0, 0, l, ls⟩ else none

end Place

end MediaCatalog.Yaml
