import MediaCatalog.Text

namespace MediaCatalog.Config

abbrev Environment := String → Option String

-- A dollar sign with a name in braces behind it. Between the name and the closing brace there may be a colon, a
-- hyphen and a default.
structure Reference where
  name    : String
  default : Option String
  deriving DecidableEq, Repr

namespace Reference

def openChars : List Char := ['$', '\x7b']
def closing : Char := '\x7d'
def defaultChars : List Char := [':', '-']

-- A reference as it is written.
def chars (r : Reference) : List Char :=
  openChars ++ r.name.toList ++ (r.default.elim [] fun d => defaultChars ++ d.toList) ++ [closing]

-- The value of the variable, which may be empty, or else the default. A reference that has neither
-- is answered with the name of the variable.
def value (env : Environment) (r : Reference) : Except String String :=
  match env r.name <|> r.default with
  | some v => pure v
  | none   => throw r.name

end Reference

-- What may stand at the start of a name, and what behind it.
def startsName (c : Char) : Bool :=
  c.isAlpha || c == '_'

-- Reads the rest of a reference, from its name on.
def body? (cs : List Char) : Option (Reference × List Char) :=
  let name := cs.takeWhile Text.isWord
  if (name.take 1).any startsName then
    match cs.dropWhile Text.isWord with
    | '\x7d' :: rest     => some (⟨.ofList name, none⟩, rest)
    | ':' :: '-' :: rest =>
      let default := rest.takeWhile (· ≠ Reference.closing)
      match rest.dropWhile (· ≠ Reference.closing) with
      | _ :: after => some (⟨.ofList name, some (.ofList default)⟩, after)
      | []         => none
    | _                  => none
  else none

-- The reference at the start of a text, and the text behind it.
def reference? : List Char → Option (Reference × List Char)
  | '$' :: '\x7b' :: cs => body? cs
  | _                   => none

theorem head_of_dropWhile_ne {c x : Char} {cs rest : List Char}
    (h : cs.dropWhile (· ≠ c) = x :: rest) : x = c := by
  have := List.head?_dropWhile_not (· ≠ c) cs
  rw [h] at this
  simpa using this

theorem body?_eq_some {cs rest : List Char} {r : Reference} (h : body? cs = some (r, rest)) :
    Reference.openChars ++ cs = r.chars ++ rest := by
  have hw := List.takeWhile_append_dropWhile (p := Text.isWord) (l := cs)
  simp only [body?] at h
  generalize cs.takeWhile Text.isWord = name, cs.dropWhile Text.isWord = after at h hw
  subst hw
  split at h
  case isFalse => simp at h
  case isTrue =>
    split at h
    case h_1 =>
      obtain ⟨rfl, rfl⟩ : _ ∧ _ := by simpa using h
      simp [Reference.chars, Reference.closing]
    case h_2 after =>
      have hd := List.takeWhile_append_dropWhile (p := (· ≠ Reference.closing)) (l := after)
      split at h
      case h_1 e =>
        obtain ⟨rfl, rfl⟩ : _ ∧ _ := by simpa using h
        rw [e, head_of_dropWhile_ne e] at hd
        simpa [Reference.chars, Reference.defaultChars] using hd.symm
      case h_2 => simp at h
    case h_3 => simp at h

theorem reference?_eq_some {cs rest : List Char} {r : Reference}
    (h : reference? cs = some (r, rest)) : cs = r.chars ++ rest := by
  unfold reference? at h
  split at h
  case h_1 => exact body?_eq_some h
  case h_2 => simp at h

theorem length_lt_of_reference? {cs rest : List Char} {r : Reference}
    (h : reference? cs = some (r, rest)) : rest.length < cs.length := by
  simp [reference?_eq_some h, Reference.chars, Reference.openChars]
  omega

-- A text is made of characters that stand for themselves and of references.
inductive Piece
  | char (c : Char)
  | reference (r : Reference)
  deriving DecidableEq, Repr

namespace Piece

def value (env : Environment) : Piece → Except String (List Char)
  | char c      => pure [c]
  | reference r => return (← r.value env).toList

-- The pieces of a text, where each reference is the first one to be found.
def ofChars (cs : List Char) : List Piece :=
  match _h : reference? cs with
  | some (r, rest) => reference r :: ofChars rest
  | none           =>
    match cs with
    | []      => []
    | c :: cs => char c :: ofChars cs
termination_by cs.length
decreasing_by
  · exact length_lt_of_reference? _h
  · simp

end Piece

-- Puts the values of variables in place of the references to them. The answer is the name of the first
-- variable that is neither set nor has a default, if there is one.
def expand (env : Environment) (text : String) : Except String String := do
  let values ← (Piece.ofChars text.toList).mapM (Piece.value env)
  return .ofList values.flatten

-- The names of the variables that a text refers to.
def variableNames (text : String) : List String :=
  (Piece.ofChars text.toList).filterMap fun
    | .char _      => none
    | .reference r => some r.name

end MediaCatalog.Config
