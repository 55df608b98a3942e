import MediaCatalog.Proofs.Schema
import MediaCatalog.Proofs.Sql.Condition
import MediaCatalog.Proofs.Sql.Style

namespace MediaCatalog.Sql

inductive Glyph
  | char (c : Char)
  | placeholder (n : Nat)
  deriving DecidableEq

namespace Glyph

-- What has been read of a text: the end of a placeholder is seen only behind it.
inductive Scan
  | plain
  | quoted
  | number (n : Nat)

def Scan.behind (c : Char) : Scan :=
  if c = '\'' then quoted else plain

-- A mark opens a placeholder, whose number goes on as long as there are digits. A quoted mark is a character
-- like any other.
def ofChars (mark : Char) : Scan → List Char → List Glyph
  | .number n, []      => [placeholder n]
  | _,         []      => []
  | .quoted,   c :: cs => char c :: ofChars mark (if c = '\'' then .plain else .quoted) cs
  | .plain,    c :: cs =>
    if c = mark then ofChars mark (.number 0) cs else char c :: ofChars mark (.behind c) cs
  | .number n, c :: cs =>
    if c.isDigit then ofChars mark (.number (10 * n + (c.toNat - '0'.toNat))) cs
    else if c = mark then placeholder n :: ofChars mark (.number 0) cs
    else placeholder n :: char c :: ofChars mark (.behind c) cs

def number? : Glyph → Option Nat
  | char _        => none
  | placeholder n => some n

-- What stands for a glyph: a character for itself, and for a placeholder its value, if there is one. Values
-- count from one.
def meaning (vs : List Value) : Glyph → Char ⊕ Option Value
  | char c              => .inl c
  | placeholder 0       => .inr none
  | placeholder (n + 1) => .inr vs[n]?

end Glyph

namespace Statement

def glyphs (d : Dialect) (s : Statement) : List Glyph :=
  Glyph.ofChars (Token.placeholderMark d) .plain s.text.toList

-- The numbers of the placeholders, from left to right.
def placeholders (d : Dialect) (s : Statement) : List Nat :=
  (s.glyphs d).filterMap Glyph.number?

-- The text with the values in place of the placeholders.
def filled (d : Dialect) (s : Statement) : List (Char ⊕ Option Value) :=
  (s.glyphs d).map (Glyph.meaning s.values)

end Statement

namespace Phrase

def glyphs (n : Nat) : Phrase → List Glyph
  | []           => []
  | .text s :: p => s.toList.map .char ++ glyphs n p
  | .bind _ :: p => .placeholder n :: glyphs (n + 1) p

-- The characters of a phrase with its values between.
def filled : Phrase → List (Char ⊕ Option Value)
  | []           => []
  | .text s :: p => s.toList.map .inl ++ filled p
  | .bind v :: p => .inr (some v) :: filled p

theorem glyphs_append (n : Nat) (p q : Phrase) :
    (p ++ q).glyphs n = p.glyphs n ++ q.glyphs (n + p.values.length) := by
  induction p generalizing n with
  | nil => rfl
  | cons x p ih => cases x <;> simp [glyphs, values, ih, Nat.add_assoc, Nat.add_comm 1]

theorem numbers_glyphs (n : Nat) (p : Phrase) :
    (p.glyphs n).filterMap Glyph.number? = List.range' n p.values.length := by
  induction p generalizing n with
  | nil => rfl
  | cons x p ih =>
    cases x with
    | text s =>
      have hs : (s.toList.map Glyph.char).filterMap Glyph.number? = [] := by
        simp [Glyph.number?]
      rw [glyphs, List.filterMap_append, hs, ih]
      rfl
    | bind v => simp [glyphs, values, Glyph.number?, ih, List.range'_succ]

theorem map_meaning_glyphs (before after : List Value) (p : Phrase) :
    (p.glyphs (before.length + 1)).map (Glyph.meaning (before ++ p.values ++ after)) = p.filled := by
  induction p generalizing before with
  | nil => rfl
  | cons x p ih =>
    cases x with
    | text s =>
      rw [glyphs, List.map_append, List.map_map, values, ih, filled]
      rfl
    | bind v =>
      have ih := ih (before ++ [v])
      rw [List.length_append, List.length_singleton, List.append_assoc before, List.singleton_append] at ih
      rw [glyphs, List.map_cons, values, ih, filled]
      simp [Glyph.meaning]

end Phrase

section Reading

variable {d : Dialect}

-- A placeholder ends only where no digit follows.
def Plain (cs : List Char) : Prop :=
  ∀ c ∈ cs.head?, ¬c.isDigit

theorem ofChars_number (mark : Char) {ds cs : List Char} (n : Nat) (hd : ∀ c ∈ ds, c.isDigit)
    (hc : Plain cs) : Glyph.ofChars mark (.number n) (ds ++ cs) =
      .placeholder (Nat.ofDigitChars 10 ds n) :: Glyph.ofChars mark .plain cs := by
  induction ds generalizing n with
  | nil =>
    cases cs with
    | nil => rfl
    | cons c cs =>
      have hc : ¬c.isDigit := hc c rfl
      simp only [List.nil_append, Glyph.ofChars, if_neg hc]
      split <;> rfl
  | cons c ds ih =>
    rw [List.cons_append, Glyph.ofChars, if_pos (hd c List.mem_cons_self), Nat.ofDigitChars_cons]
    exact ih _ fun c hc => hd c (List.mem_cons_of_mem _ hc)

-- A text without placeholders, in which every quotation ends.
def Silent (d : Dialect) (s : String) : Prop :=
  ∀ cs, Glyph.ofChars (Token.placeholderMark d) .plain (s.toList ++ cs) =
    s.toList.map .char ++ Glyph.ofChars (Token.placeholderMark d) .plain cs

theorem Silent.append {s t : String} (hs : Silent d s) (ht : Silent d t) : Silent d (s ++ t) := by
  intro cs
  rw [String.toList_append, List.append_assoc, hs, ht, List.map_append, List.append_assoc]

-- Neither a mark of a placeholder nor a quote.
def isInert (c : Char) : Bool :=
  c != '?' && c != '$' && c != '\''

theorem silent_of_inert {s : String} (h : s.toList.all isInert) : Silent d s := by
  intro cs
  generalize s.toList = w at h
  induction w with
  | nil => rfl
  | cons c w ih =>
    simp only [List.all_cons, Bool.and_eq_true, isInert, bne_iff_ne] at h
    have hmark : c ≠ Token.placeholderMark d := by
      cases d
      · exact h.1.1.1
      · exact h.1.1.2
    rw [List.cons_append, Glyph.ofChars, if_neg hmark, Glyph.Scan.behind, if_neg h.1.2, ih h.2]
    rfl

theorem silent_of_isIdentifier {s : String} (h : Schema.isIdentifier s) : Silent d s := by
  refine silent_of_inert (List.all_eq_true.mpr fun c hc => ?_)
  have hword := List.all_eq_true.mp (isWord_of_isIdentifier h).2 c hc
  simp only [isInert, Bool.and_eq_true, bne_iff_ne]
  refine ⟨⟨?_, ?_⟩, ?_⟩ <;> (rintro rfl; exact absurd hword (by decide))

theorem silent_column {c : Column} (h : Schema.isIdentifier c.name) : Silent d c.text := by
  have howner : Silent d (c.owner.tableAlias ++ ".") := by
    cases c.owner <;> exact silent_of_inert (by decide)
  exact howner.append (silent_of_isIdentifier h)

namespace Phrase

-- The text of a phrase is read as its values' placeholders, wherever it stands, unless a digit follows.
def Reads (d : Dialect) (p : Phrase) : Prop :=
  ∀ n cs, Plain cs → Glyph.ofChars (Token.placeholderMark d) .plain ((p.text d n).toList ++ cs) =
    p.glyphs n ++ Glyph.ofChars (Token.placeholderMark d) .plain cs

namespace Reads

theorem nil : Reads d [] :=
  fun _ _ _ => rfl

theorem bind (v : Value) : Reads d [.bind v] := by
  intro n cs hcs
  have hd : ∀ c ∈ Nat.toDigits 10 n, c.isDigit :=
    fun _ hc => Nat.isDigit_of_mem_toDigits (by decide) (by decide) hc
  have h := ofChars_number (Token.placeholderMark d) 0 hd hcs
  rw [Nat.ofDigitChars_ten_toDigits] at h
  cases d <;>
    simpa [Phrase.text, glyphs, Dialect.placeholder, Text.decimalNat, Glyph.ofChars, Token.placeholderMark] using h

variable {p q : Phrase} {s : String}

theorem cons (hs : Silent d s) (hp : Reads d p) : Reads d (.text s :: p) := by
  intro n cs hcs
  rw [Phrase.text, String.toList_append, List.append_assoc, hs, hp n cs hcs, glyphs, List.append_assoc]

theorem append (hp : Reads d p) (hs : s.toList.head?.any (!·.isDigit)) (hq : Reads d (.text s :: q)) :
    Reads d (p ++ .text s :: q) := by
  intro n cs hcs
  have hplain (n : Nat) : Plain ((Phrase.text d n (.text s :: q)).toList ++ cs) := by
    rw [Phrase.text, String.toList_append]
    cases hl : s.toList with
    | nil => simp [hl] at hs
    | cons c w => simpa [Plain, hl] using hs
  rw [text_append, String.toList_append, List.append_assoc, hp n _ (hplain _), hq _ cs hcs, glyphs_append,
    List.append_assoc]

theorem joined {α : Type} {sep : String} (hs : sep.toList.head?.any (!·.isDigit)) (hsep : Silent d sep)
    {f : α → Phrase} {as : List α} (hf : ∀ a ∈ as, Reads d (f a)) :
    Reads d (Phrase.joined sep (as.map f)) := by
  induction as with
  | nil => exact nil
  | cons a as ih =>
    have ih := ih fun b hb => hf b (List.mem_cons_of_mem _ hb)
    have ha := hf a List.mem_cons_self
    cases as with
    | nil => exact ha
    | cons b bs => exact ha.append hs (ih.cons hsep)

theorem statement (hp : Reads d p) : (p.statement d).placeholders d = List.range' 1 p.values.length ∧
    (p.statement d).filled d = p.filled := by
  have hglyphs : (p.statement d).glyphs d = p.glyphs 1 := by
    have h := hp 1 [] (fun _ h => by cases h)
    simpa [Statement.glyphs, Phrase.statement, Glyph.ofChars] using h
  rw [Statement.placeholders, Statement.filled, hglyphs]
  have h := map_meaning_glyphs [] [] p
  rw [List.nil_append, List.append_nil] at h
  exact ⟨numbers_glyphs 1 p, h⟩

end Reads

end Phrase

open Phrase (Reads)

theorem silent_escape : Silent d Condition.escape :=
  fun _ => by cases d <;> rfl

namespace Condition

section

variable {c : Column} (hc : Schema.isIdentifier c.name)

include hc

-- A column between two texts.
theorem silent_around {s t : String} (hs : s.toList.all isInert) (ht : t.toList.all isInert) :
    Silent d (s ++ c.text ++ t) :=
  ((silent_of_inert hs).append (silent_column hc)).append (silent_of_inert ht)

theorem silent_before {t : String} (ht : t.toList.all isInert) : Silent d (c.text ++ t) :=
  (silent_column hc).append (silent_of_inert ht)

theorem reads_hasPhrase (item : String) : Reads d (hasPhrase d c item) := by
  have hend : Reads d [.bind (.text item), .text ")"] :=
    (Reads.bind _).append rfl (.cons (silent_of_inert (by decide)) .nil)
  have hend' : Reads d [.bind (.text item), .text ") IS NOT NULL"] :=
    (Reads.bind _).append rfl (.cons (silent_of_inert (by decide)) .nil)
  cases d with
  | sqlite => exact .cons (silent_around hc (by decide) (by decide)) hend
  | postgres => exact .cons (silent_around hc (by decide) (by decide)) hend'

theorem reads_hasLikePhrase (pattern : String) : Reads d (hasLikePhrase d c pattern) := by
  have hend : Reads d [.bind (.text pattern), .text (escape ++ ")")] :=
    (Reads.bind _).append rfl (.cons (silent_escape.append (silent_of_inert (by decide))) .nil)
  cases d with
  | sqlite => exact .cons (silent_around hc (by decide) (by decide)) hend
  | postgres => exact .cons (silent_around hc (by decide) (by decide)) hend

theorem reads_like (negated cast : Bool) (pattern : String) :
    Reads d ((like c negated cast pattern).phrase d) := by
  have hkeyword : Silent d (if negated then " NOT LIKE " else " LIKE ") := by
    cases negated <;> exact silent_of_inert (by decide)
  have hoperand : Silent d (if cast then "CAST(" ++ c.text ++ " AS TEXT)" else c.text) := by
    cases cast with
    | false => exact silent_column hc
    | true => exact silent_around hc (by decide) (by decide)
  exact .cons (hoperand.append hkeyword) ((Reads.bind _).append rfl (.cons silent_escape .nil))

end

theorem reads : (a : Condition) → a.IsProper → Reads d (a.phrase d)
  | never, _                      => .cons (silent_of_inert (by decide)) .nil
  | compares _ r _, h             => by
    have hsign : Silent d (r.sign ++ " ") := by
      cases r <;> exact silent_of_inert (by decide)
    have := (silent_before h (t := " ") (by decide)).append hsign
    exact .cons (by rwa [← String.append_assoc] at this) (.bind _)
  | between .., h                 =>
    .cons (silent_before h (by decide))
      ((Reads.bind _).append rfl (.cons (silent_of_inert (by decide)) (.bind _)))
  | isIn .., h                    =>
    .cons (silent_before h.1 (by decide))
      ((Reads.joined rfl (silent_of_inert (by decide)) fun v _ => .bind v).append rfl
        (.cons (silent_of_inert (by decide)) .nil))
  | like _ negated cast pattern, h => reads_like h negated cast pattern
  | has _ item, h                 => reads_hasPhrase h item
  | hasAll .., h                  =>
    .cons (silent_of_inert (by decide))
      ((Reads.joined rfl (silent_of_inert (by decide)) fun item _ => reads_hasPhrase h.1 item).append rfl
        (.cons (silent_of_inert (by decide)) .nil))
  | hasLike _ pattern, h          => reads_hasLikePhrase h pattern
  | orFalse a, h                  =>
    .cons (silent_of_inert (by decide)) ((reads a h).append rfl (.cons (silent_of_inert (by decide)) .nil))
  | not a, h                      => .cons (silent_of_inert (by decide)) (reads a h)

end Condition

theorem Predicate.reads {p : Predicate} (h : ∀ a ∈ p, a.IsProper) : Reads d (p.phrase d) := by
  cases p with
  | nil => exact .cons (silent_of_inert (by decide)) .nil
  | cons a as => exact Reads.joined rfl (silent_of_inert (by decide)) fun b hb => b.reads (h b hb)

section Statement

theorem silent_source (k : Kind) : Silent d (source k) := by
  cases k <;> exact silent_of_inert (by decide)

theorem silent_orderText {order : List OrderTerm} (h : ∀ o ∈ order, Schema.isIdentifier o.column.name) :
    Silent d (OrderTerm.orderText order) := by
  refine OrderTerm.orderText_induction (P := Silent d) Silent.append (fun w hw => silent_of_inert ?_)
    fun o ho => ?_
  case refine_1 => revert w; decide
  case refine_2 => exact silent_column (h o ho)

theorem isIdentifier_columns {p : Projection} (h : ∀ f ∈ p.schema.fields, Schema.isIdentifier f.column) :
    ∀ c ∈ p.columns, Schema.isIdentifier c.name := by
  intro c hc
  simp only [Projection.columns, List.mem_cons, List.mem_append, List.mem_map] at hc
  rcases hc with (rfl | ⟨f, hf, rfl⟩) | rfl | ⟨f, hf, rfl⟩
  · rfl
  · exact h f (Schema.mem_rootFields.mp hf).1
  · rfl
  · exact h f (Schema.mem_translationFields.mp hf).1

theorem silent_shown {p : Projection} (h : ∀ f ∈ p.schema.fields, Schema.isIdentifier f.column) :
    Silent d p.shown := by
  refine Projection.shown_induction (P := Silent d) Silent.append (fun w hw => silent_of_inert ?_)
    fun c hc => ?_
  case refine_1 => revert w; decide
  case refine_2 =>
    have hc := isIdentifier_columns h c hc
    exact ⟨silent_column hc, silent_of_isIdentifier hc⟩

variable {p : Predicate} (hp : ∀ a ∈ p, a.IsProper)

include hp

theorem Count.reads (k : Kind) : Reads d ((Count.mk k p).phrase d) :=
  .cons (((silent_of_inert (by decide)).append (silent_source k)).append (silent_of_inert (by decide)))
    (Predicate.reads hp)

theorem Window.reads (k : Kind) {order : List OrderTerm}
    (ho : ∀ o ∈ order, Schema.isIdentifier o.column.name) (limit offset : Int64) :
    Reads d ((Window.mk k p order limit offset).phrase d) := by
  have hopen : Silent d ("SELECT r.id FROM " ++ source k ++ " WHERE ") :=
    ((silent_of_inert (by decide)).append (silent_source k)).append (silent_of_inert (by decide))
  have horder : Silent d (" GROUP BY r.id ORDER BY " ++ OrderTerm.orderText order ++ " LIMIT ") :=
    ((silent_of_inert (by decide)).append (silent_orderText ho)).append (silent_of_inert (by decide))
  have hlimits : Reads d [.text (" GROUP BY r.id ORDER BY " ++ OrderTerm.orderText order ++ " LIMIT "),
      .bind (.int limit.toInt), .text " OFFSET ", .bind (.int offset.toInt)] :=
    .cons horder ((Reads.bind _).append rfl (.cons (silent_of_inert (by decide)) (.bind _)))
  exact .cons hopen ((Predicate.reads hp).append (by simp) hlimits)

theorem Projection.reads {s : Schema} (hs : ∀ f ∈ s.fields, Schema.isIdentifier f.column) :
    Reads d ((Projection.mk s p).phrase d) := by
  have hopen : Silent d ("SELECT " ++ (Projection.mk s p).shown ++ " FROM " ++ source s.kind ++ " WHERE ") :=
    ((((silent_of_inert (by decide)).append (silent_shown hs)).append (silent_of_inert (by decide))).append
      (silent_source s.kind)).append (silent_of_inert (by decide))
  exact .cons hopen ((Predicate.reads hp).append rfl (.cons (silent_of_inert (by decide)) .nil))

end Statement

end Reading

end MediaCatalog.Sql
