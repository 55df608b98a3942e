import MediaCatalog.Sql.Phrase

namespace MediaCatalog.Sql

-- Words, signs and marks of a statement, and at the place of each placeholder the value that its number stands
-- for.
inductive Token
  | word (w : String)
  | sign (s : String)
  | mark (c : Char)
  | quoted (s : String)
  | value (v : Value)
  deriving DecidableEq

namespace Token

-- What has been read of a token that may go on.
inductive Pending
  | nothing
  | word (cs : List Char)
  | sign (cs : List Char)
  | number (ds : List Char)
  | quoted (cs : List Char)

def isSign (c : Char) : Bool :=
  c == '=' || c == '<' || c == '>'

-- The character that opens a placeholder.
def placeholderMark : Dialect → Char
  | .sqlite   => '?'
  | .postgres => '$'

-- The value that a placeholder stands for.
def bound? (vs : List Value) (ds : List Char) : Option Value :=
  match Text.digits? ds with
  | some (n + 1) => vs[n]?
  | _            => none

namespace Pending

-- The token that ends where the next one begins. A quotation does not end before its closing quote.
def close? (vs : List Value) : Pending → Option (List Token)
  | nothing   => some []
  | word cs   => some [.word (.ofList cs)]
  | sign cs   => some [.sign (.ofList cs)]
  | number ds => (bound? vs ds).map fun v => [.value v]
  | quoted _  => none

-- What a character does that is neither part of a word nor of a sign.
def opened (d : Dialect) (c : Char) : List Token × Pending :=
  if c = ' ' then ([], nothing)
  else if c = '\'' then ([], quoted [])
  else if c = placeholderMark d then ([], number [])
  else ([.mark c], nothing)

-- Takes in one more character: the tokens that have ended, and what is pending then.
def step (d : Dialect) (vs : List Value) (p : Pending) (c : Char) : Option (List Token × Pending) :=
  match p with
  | quoted cs =>
    if c = '\'' then some ([.quoted (.ofList cs)], nothing) else some ([], quoted (cs ++ [c]))
  | p         =>
    if Text.isWord c then
      match p with
      | word cs   => some ([], word (cs ++ [c]))
      | number ds => some ([], number (ds ++ [c]))
      | p         => (p.close? vs).map (·, word [c])
    else if isSign c then
      match p with
      | sign cs => some ([], sign (cs ++ [c]))
      | p       => (p.close? vs).map (·, sign [c])
    else (p.close? vs).map fun ts => (ts ++ (opened d c).1, (opened d c).2)

end Pending

def run? (d : Dialect) (vs : List Value) (p : Pending) : List Char → Option (List Token × Pending)
  | []      => some ([], p)
  | c :: cs => do
    let (ts, p) ← p.step d vs c
    let (us, p) ← run? d vs p cs
    some (ts ++ us, p)

attribute [simp] run?

end Token

-- The tokens of a statement, unless its text cannot be read.
def Statement.tokens? (d : Dialect) (s : Statement) : Option (List Token) := do
  let (ts, p) ← Token.run? d s.values .nothing s.text.toList
  let us ← p.close? s.values
  some (ts ++ us)

namespace Token

variable {d : Dialect} {vs : List Value}

-- Where a character stands that belongs to no word and no sign, everything before it has ended.
def isBreak (c : Char) : Bool :=
  !Text.isWord c && !isSign c

theorem run?_append (p : Pending) (cs cs' : List Char) :
    run? d vs p (cs ++ cs') = (do
      let (ts, q) ← run? d vs p cs
      let (us, q) ← run? d vs q cs'
      some (ts ++ us, q)) := by
  induction cs generalizing p with
  | nil => cases hr : run? d vs p cs' <;> simp [hr]
  | cons c cs ih =>
    cases hs : p.step d vs c with
    | none => simp [hs]
    | some s =>
      cases hr : run? d vs s.2 cs with
      | none => simp [hs, hr, ih]
      | some r => cases hr' : run? d vs r.2 cs' <;> simp [hs, hr, hr', ih]

section

attribute [local simp] Pending.step

theorem run?_word (w : List Char) {cs : List Char} (h : cs.all Text.isWord) :
    run? d vs (.word w) cs = some ([], .word (w ++ cs)) := by
  induction cs generalizing w with
  | nil => simp
  | cons c cs ih =>
    simp only [List.all_cons, Bool.and_eq_true] at h
    simp [h.1, ih _ h.2]

theorem run?_number (w : List Char) {ds : List Char} (h : ds.all Text.isWord) :
    run? d vs (.number w) ds = some ([], .number (w ++ ds)) := by
  induction ds generalizing w with
  | nil => simp
  | cons c cs ih =>
    simp only [List.all_cons, Bool.and_eq_true] at h
    simp [h.1, ih _ h.2]

theorem step_break {p : Pending} {ts : List Token} {c : Char} (hp : p.close? vs = some ts)
    (hc : isBreak c) :
    p.step d vs c = some (ts ++ (Pending.opened d c).1, (Pending.opened d c).2) := by
  simp only [isBreak, Bool.and_eq_true, Bool.not_eq_true'] at hc
  cases p with
  | quoted cs => simp [Pending.close?] at hp
  | _ => simp [hc, hp]

end

-- The characters spell tokens if they are read as these tokens once the last one is closed.
def Spell (d : Dialect) (vs : List Value) (cs : List Char) (ts : List Token) : Prop :=
  ∃ us p ends, run? d vs .nothing cs = some (us, p) ∧ p.close? vs = some ends ∧ us ++ ends = ts

namespace Spell

theorem cons {cs cs' : List Char} {ts us : List Token}
    (h : run? d vs .nothing cs = some (ts, .nothing)) (h' : Spell d vs cs' us) :
    Spell d vs (cs ++ cs') (ts ++ us) := by
  have ⟨us', p, ends, hr, hc, he⟩ := h'
  exact ⟨ts ++ us', p, ends, by simp [run?_append, h, hr], hc, by simp [← he]⟩

theorem append {cs cs' : List Char} {c : Char} {ts us : List Token} (h : Spell d vs cs ts)
    (hc : isBreak c) (h' : Spell d vs (c :: cs') us) : Spell d vs (cs ++ c :: cs') (ts ++ us) := by
  have ⟨ts', p, ends, hr, hp, he⟩ := h
  have ⟨us', q, ends', hr', hq, he'⟩ := h'
  refine ⟨ts' ++ (ends ++ us'), q, ends', ?_, hq, by simp [← he, ← he']⟩
  have hs := step_break (d := d) hp hc
  have hs' : Pending.nothing.step d vs c = some ([] ++ _, _) := step_break rfl hc
  cases ho : run? d vs (Pending.opened d c).2 cs' with
  | none => simp [hs', ho] at hr'
  | some r =>
    simp only [run?, hs', ho, Option.bind_eq_bind, Option.bind_some, Option.some.injEq,
      Prod.mk.injEq] at hr'
    simp [run?_append, hr, hs, ho, ← hr'.1, hr'.2]

end Spell

end Token

namespace Phrase

variable {d : Dialect}

attribute [local simp] text values

theorem values_append (p q : Phrase) : (p ++ q).values = p.values ++ q.values := by
  induction p with
  | nil => rfl
  | cons x p ih => cases x <;> simp [ih]

theorem text_append (n : Nat) (p q : Phrase) :
    (p ++ q).text d n = p.text d n ++ q.text d (n + p.values.length) := by
  induction p generalizing n with
  | nil => simp
  | cons x p ih =>
    cases x
    case text => simp [ih, String.append_assoc]
    case bind => simp [ih, String.append_assoc, Nat.add_assoc, Nat.add_comm 1]

-- A phrase spells tokens if it does so wherever it stands in a statement.
def Spells (d : Dialect) (p : Phrase) (ts : List Token) : Prop :=
  ∀ before after, Token.Spell d (before ++ p.values ++ after) (p.text d (before.length + 1)).toList ts

namespace Spells

theorem nil : Spells d [] [] :=
  fun _ _ => ⟨[], .nothing, [], rfl, rfl, rfl⟩

theorem text {s : String} {t u : List Token} {p : Token.Pending}
    (h : ∀ vs, Token.run? d vs .nothing s.toList = some (t, p))
    (hp : ∀ vs, p.close? vs = some u) : Spells d [.text s] (t ++ u) :=
  fun _ _ => ⟨t, p, u, by simpa using h _, hp _, rfl⟩

theorem cons {s : String} {p : Phrase} {ts us : List Token}
    (h : ∀ vs, Token.run? d vs .nothing s.toList = some (ts, .nothing)) (hp : Spells d p us) :
    Spells d (.text s :: p) (ts ++ us) := by
  intro before after
  have := Token.Spell.cons (h _) (hp before after)
  simpa using this

theorem bind (v : Value) : Spells d [.bind v] [.value v] := by
  intro before after
  have hd : (Nat.toDigits 10 (before.length + 1)).all Text.isWord := by
    simp only [List.all_eq_true]
    intro c hc
    have := Nat.isDigit_of_mem_toDigits (by decide) (by decide) hc
    simp [Text.isWord, Text.isAsciiAlphanumeric, this]
  refine ⟨[], .number (Nat.toDigits 10 (before.length + 1)), [.value v], ?_, ?_, rfl⟩
  · have : Token.run? d (before ++ v :: after) (.number []) _ = _ := Token.run?_number [] hd
    cases d <;>
      simp [Dialect.placeholder, Text.decimalNat, Token.Pending.step,
        Token.Pending.close?, Token.Pending.opened, Token.placeholderMark, Token.isSign, Text.isWord,
        Text.isAsciiAlphanumeric, this]
  · simp [Token.Pending.close?, Token.bound?, Text.digits?_toDigits]

theorem append {p q : Phrase} {s : String} {c : Char} {cs : List Char} {ts us : List Token}
    (hp : Spells d p ts) (hc : Token.isBreak c) (hs : s.toList = c :: cs)
    (hq : Spells d (.text s :: q) us) : Spells d (p ++ .text s :: q) (ts ++ us) := by
  intro before after
  have h := hp before (Phrase.values (.text s :: q) ++ after)
  have h' := hq (before ++ p.values) after
  simp only [Phrase.text, String.toList_append, hs, List.cons_append] at h'
  have := h.append hc (by simpa [values_append] using h')
  simpa [text_append, Phrase.text, values_append, hs, Nat.add_right_comm] using this

-- Separators are read once between any two of the phrases.
theorem joined {α : Type} {sep : String} {c : Char} {cs : List Char} {ms : List Token}
    (h : ∀ vs, Token.run? d vs .nothing sep.toList = some (ms, .nothing)) (hc : Token.isBreak c)
    (hs : sep.toList = c :: cs) {f : α → Phrase} {g : α → List Token} (x : α) (xs : List α)
    (hf : ∀ y ∈ x :: xs, Spells d (f y) (g y)) :
    Spells d (joined sep ((x :: xs).map f)) (g x ++ xs.flatMap (ms ++ g ·)) := by
  induction xs generalizing x with
  | nil => simpa [Phrase.joined] using hf x (by simp)
  | cons y ys ih =>
    have ih := ih y fun z hz => hf z (List.mem_cons_of_mem _ hz)
    have := (hf x (by simp)).append hc hs (ih.cons h)
    simpa [Phrase.joined, List.append_assoc] using this

end Spells

-- What a phrase spells is what its statement is read as.
theorem Spells.tokens? {p : Phrase} {ts : List Token} (h : Spells d p ts) :
    (p.statement d).tokens? d = some ts := by
  have ⟨us, q, ends, hr, hq, he⟩ := h [] []
  simp only [List.nil_append, List.append_nil, List.length_nil, Nat.zero_add] at hr hq
  simp [Statement.tokens?, statement, hr, hq, he]

end Phrase

end MediaCatalog.Sql
