import MediaCatalog.Yaml.Scalar.Block
import MediaCatalog.Yaml.Scalar.Quoted
import MediaCatalog.Yaml.Token

namespace MediaCatalog.Yaml

-- A node that may turn out to be a key.
structure Candidate where
  -- Whether nothing but a key can stand there.
  isRequired : Bool
  -- How many tokens stand before it.
  index      : Nat
  row        : Nat
  column     : Nat

namespace Candidate

-- Key and colon stand in one line, no more than 1024 characters apart.
def isPast (c : Candidate) (p : Place) : Bool :=
  c.row < p.row || c.column + 1024 < p.column

end Candidate

-- That a node is a key is known only at the colon behind it. So a node that may turn out to be one is kept in mind
-- until its line ends, and the colon puts a token before it.
structure Lexer where
  place      : Place
  -- The tokens so far, the newest first, and their number.
  tokens     : List Token
  count      : Nat
  -- The columns of the blocks around the place, the innermost first.
  indents    : List Nat
  -- The candidate within the innermost brackets, and one for each of the levels around them.
  candidate? : Option Candidate
  enclosing  : List (Option Candidate)
  -- Whether a key or a mark of a block may stand at the place.
  keyAllowed : Bool

namespace Lexer

def start (p : Place) : Lexer :=
  ⟨p, [], 0, [], none, [], true⟩

def inBrackets (l : Lexer) : Bool :=
  !l.enclosing.isEmpty

-- The column from which on something belongs to the innermost block.
def least (l : Lexer) : Nat :=
  match l.indents with
  | []     => 0
  | n :: _ => n + 1

-- Puts a token before the tokens from an index on.
def insert (t : Token) (index : Nat) (l : Lexer) : Lexer :=
  let n := l.count - index
  { l with tokens := l.tokens.take n ++ t :: l.tokens.drop n, count := l.count + 1 }

def emit (t : Token) (l : Lexer) : Lexer :=
  l.insert t l.count

-- Goes on behind a token of some length.
def pass (t : Token) (length : Nat) (l : Lexer) : Lexer :=
  { l.emit t with place := l.place.drop length }

section Candidates

-- There is no candidate if it is past. It could not be missed where it was required.
def current? (p : Place) : Option Candidate → Option (Option Candidate)
  | none   => some none
  | some c => if !c.isPast p then some (some c) else if c.isRequired then none else some none

def dropPast? (l : Lexer) : Option Lexer := do
  let candidate ← current? l.place l.candidate?
  let enclosing ← l.enclosing.mapM (current? l.place)
  some { l with candidate? := candidate, enclosing }

def dropCandidate? (l : Lexer) : Option Lexer :=
  if l.candidate?.any (·.isRequired) then none else some { l with candidate? := none }

-- Keeps the node at the place in mind. Where the innermost block starts a line, it has to be a key.
def keepCandidate? (l : Lexer) : Option Lexer :=
  if l.keyAllowed then do
    let isRequired := !l.inBrackets && l.indents.head? == some l.place.column
    let candidate := ⟨isRequired, l.count, l.place.row, l.place.column⟩
    some { ← l.dropCandidate? with candidate? := some candidate }
  else some l

end Candidates

section Blocks

-- Opens a block at a column, unless there is one already. Its token stands before the tokens from an index
-- on. There are no blocks in brackets.
def openBlock (t : Token) (column index : Nat) (l : Lexer) : Lexer :=
  if l.inBrackets || column < l.least then l
  else { l.insert t index with indents := column :: l.indents }

-- Opens a block for a mark that stands at the place.
def openHere? (t : Token) (l : Lexer) : Option Lexer :=
  if l.inBrackets then some l
  else if l.keyAllowed then some (l.openBlock t l.place.column l.count)
  else none

-- Closes the blocks that start right of some columns.
def closeBlocks (isRight : Nat → Bool) (l : Lexer) : Lexer :=
  if l.inBrackets then l
  else
    let closed := l.indents.takeWhile isRight
    { closed.foldl (fun l _ => l.emit .blockEnd) l with indents := l.indents.dropWhile isRight }

def closeAll : Lexer → Lexer :=
  closeBlocks fun _ => true

end Blocks

section Tokens

-- What starts at the left margin and stands outside of all blocks.
def marker? (t : Token) (length : Nat) (l : Lexer) : Option Lexer := do
  let l ← l.closeAll.dropCandidate?
  some { l.pass t length with keyAllowed := false }

def directive? (l : Lexer) : Option Lexer := do
  let line := l.place.line
  l.marker? (.directive (← Directive.read? (line.drop 1))) line.length

def openBrackets? (t : Token) (l : Lexer) : Option Lexer := do
  let l ← l.keepCandidate?
  some { l.pass t 1 with
    candidate? := none, enclosing := l.candidate? :: l.enclosing, keyAllowed := true }

def closeBrackets? (t : Token) (l : Lexer) : Option Lexer := do
  let l ← l.dropCandidate?
  some { l.pass t 1 with
    candidate? := l.enclosing.headD none, enclosing := l.enclosing.tail, keyAllowed := false }

def comma? (l : Lexer) : Option Lexer := do
  let l ← l.dropCandidate?
  some { l.pass .comma 1 with keyAllowed := true }

def item? (l : Lexer) : Option Lexer := do
  let l ← (← l.openHere? .blockList).dropCandidate?
  some { l.pass .entry 1 with keyAllowed := true }

def key? (l : Lexer) : Option Lexer := do
  let l ← (← l.openHere? .blockMapping).dropCandidate?
  some { l.pass .key 1 with keyAllowed := !l.inBrackets }

-- The colon. It makes a key of the candidate; else a question mark has announced the key, or none is there.
def value? (l : Lexer) : Option Lexer := do
  match l.candidate? with
  | some c =>
    let l := (l.insert .key c.index).openBlock .blockMapping c.column c.index
    some { l.pass .value 1 with candidate? := none, keyAllowed := false }
  | none   =>
    let l ← l.openHere? .blockMapping
    some { l.pass .value 1 with keyAllowed := !l.inBrackets }

-- The name behind a sign that gives or recalls it.
def name? (token : List Char → Token) (l : Lexer) : Option Lexer := do
  let l ← l.keepCandidate?
  let line := l.place.line.drop 1
  let name := line.takeWhile isNameChar
  let rest := line.dropWhile isNameChar
  if name.isEmpty || !(startsBlank rest || rest.head?.any "?:,]\x7d%@`".toList.contains) then none
  else some { l.pass (token name) (name.length + 1) with keyAllowed := false }

def tag? (l : Lexer) : Option Lexer := do
  let l ← l.keepCandidate?
  let (tag, rest) ← Tag.read? l.inBrackets (l.place.line.drop 1)
  some { l.emit (.tag tag) with place := l.place.dropTo rest, keyAllowed := false }

def block? (style : Style) (l : Lexer) : Option Lexer := do
  let l ← l.dropCandidate?
  let (text, p) ← Block.read? (style == .folded) l.least l.place
  some { l.emit (.scalar style text) with place := p, keyAllowed := true }

def quoted? (quote : Char) (l : Lexer) : Option Lexer := do
  let l ← l.keepCandidate?
  let (text, p) ← Quoted.read? quote l.place
  some { l.emit (.scalar .quoted text) with place := p, keyAllowed := false }

def plain? (l : Lexer) : Option Lexer := do
  let l ← l.keepCandidate?
  let r ← Plain.read? l.inBrackets l.least l.place
  some { l.emit (.scalar .plain r.text) with place := r.place, keyAllowed := r.isBelow }

-- Reads the token at the place. Some signs mean something only before a blank or among brackets.
def token? (l : Lexer) : Option Lexer :=
  let p := l.place
  let isSign (rest : List Char) := l.inBrackets || startsBlank rest
  match p.line with
  | []           => none
  | '[' :: _     => l.openBrackets? .listStart
  | '\x7b' :: _  => l.openBrackets? .mappingStart
  | ']' :: _     => l.closeBrackets? .listEnd
  | '\x7d' :: _  => l.closeBrackets? .mappingEnd
  | ',' :: _     => l.comma?
  | '*' :: _     => l.name? .named
  | '&' :: _     => l.name? .anchor
  | '!' :: _     => l.tag?
  | '\'' :: _    => l.quoted? '\''
  | '"' :: _     => l.quoted? '"'
  | '|' :: _     => if l.inBrackets then none else l.block? .literal
  | '>' :: _     => if l.inBrackets then none else l.block? .folded
  | '?' :: rest  => if isSign rest then l.key? else l.plain?
  | ':' :: rest  => if isSign rest then l.value? else l.plain?
  | '%' :: _     => if p.column = 0 then l.directive? else none
  | '.' :: _     => if p.isMarker then l.marker? .documentEnd 3 else l.plain?
  | '-' :: rest  =>
    if p.isMarker then l.marker? .documentStart 3
    else if startsBlank rest then l.item?
    else l.plain?
  | c :: _       => if isBlank c || "#@`".toList.contains c then none else l.plain?

end Tokens

-- The tokens from the place on, with those before. Each token has a character of its own, so that the count
-- of characters is enough fuel.
def rest? : (fuel : Nat) → Lexer → Option (List Token)
  | 0,        _ => none
  | fuel + 1, l => do
    let (place, keyAllowed) := l.place.next l.inBrackets l.keyAllowed
    let l ← { l with place, keyAllowed }.dropPast?
    let l := l.closeBlocks (place.column < ·)
    if place.isEnd then
      let l ← l.closeAll.dropCandidate?
      some l.tokens.reverse
    else (← l.token?).rest? fuel

def tokens? (text : String) : Option (List Token) := do
  (start (← Place.ofText? text)).rest? (text.length + 1)

end Lexer

end MediaCatalog.Yaml
