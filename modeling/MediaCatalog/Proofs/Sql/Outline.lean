import MediaCatalog.Proofs.Sql.Style

namespace MediaCatalog.Sql

-- A stretch of a statement. The elements of a list are tested against the value of a placeholder.
inductive Part
  | word (s : String)
  | castText (c : Column)
  | place (n : Nat)
  | has (c : Column) (n : Nat)
  | hasLike (c : Column) (n : Nat)
  deriving DecidableEq

namespace Part

def text (y : Style) : Part → String
  | word s      => s
  | castText c  => y.castText c.text
  | place n     => y.placeholder n
  | has c n     => y.has c.text (y.placeholder n)
  | hasLike c n => y.hasLike c.text (y.placeholder n)

def number? : Part → Option Nat
  | word _ | castText _             => none
  | place n | has _ n | hasLike _ n => some n

end Part

-- An outline leaves open how a placeholder is spelled, how a column is turned into text and how the elements of a
-- list are tested, and says everything else of a statement.
abbrev Outline := List Part

namespace Outline

def text (y : Style) : Outline → String
  | []     => ""
  | p :: o => p.text y ++ text y o

-- The numbers of the placeholders, from left to right.
def numbers (o : Outline) : List Nat :=
  o.filterMap Part.number?

-- The outlines one after the other, with a separator between.
def joined (sep : String) : List Outline → Outline
  | []      => []
  | [o]     => o
  | o :: os => o ++ .word sep :: joined sep os

end Outline

namespace Condition

-- The values that a condition binds.
def bound : Condition → List Value
  | never           => []
  | compares _ _ v  => [.scalar v]
  | between _ v w   => [.scalar v, .scalar w]
  | isIn _ vs       => vs.map .scalar
  | like _ _ _ s    => [.text s]
  | has _ item      => [.text item]
  | hasAll _ items  => items.map .text
  | hasLike _ s     => [.text s]
  | orFalse a       => bound a
  | not a           => bound a

-- The outline of a condition whose first placeholder has the number `n`.
def outline (n : Nat) : Condition → Outline
  | never               => [.word "1 = 0"]
  | compares c r _      => [.word (c.text ++ " " ++ r.sign ++ " "), .place n]
  | between c _ _       => [.word (c.text ++ " BETWEEN "), .place n, .word " AND ", .place (n + 1)]
  | isIn c vs           =>
    .word (c.text ++ " IN (") :: Outline.joined ", " ((List.range' n vs.length).map fun i => [.place i]) ++
      [.word ")"]
  | like c negated cast _ =>
    [if cast then .castText c else .word c.text, .word (if negated then " NOT LIKE " else " LIKE "),
      .place n, .word escape]
  | has c _             => [.has c n]
  | hasAll c items      =>
    .word "(" :: Outline.joined " AND " ((List.range' n items.length).map fun i => [.has c i]) ++ [.word ")"]
  | hasLike c _         => [.hasLike c n]
  | orFalse a           => .word "COALESCE(" :: outline n a ++ [.word ", FALSE)"]
  | not a               => .word "NOT " :: outline n a

end Condition

namespace Predicate

def bound (p : Predicate) : List Value :=
  p.flatMap (·.bound)

-- The outlines of the clauses, one for each condition.
def outlines (n : Nat) : Predicate → List Outline
  | []     => []
  | a :: p => a.outline n :: outlines (n + a.bound.length) p

-- What clauses say together.
def wholeOutline : List Outline → Outline
  | [] => [.word "1 = 1"]
  | os => .joined " AND " os

def outline (p : Predicate) : Outline :=
  wholeOutline (p.outlines 1)

end Predicate

def Count.outline (c : Count) : Outline :=
  .word ("SELECT COUNT(DISTINCT r.id) FROM " ++ source c.kind ++ " WHERE ") :: c.condition.outline

def Window.bound (w : Window) : List Value :=
  w.condition.bound ++ [.int w.limit.toInt, .int w.offset.toInt]

def Window.outline (w : Window) : Outline :=
  let n := w.condition.bound.length
  .word ("SELECT r.id FROM " ++ source w.kind ++ " WHERE ") :: w.condition.outline ++
    [.word (" GROUP BY r.id ORDER BY " ++ OrderTerm.orderText w.order ++ " LIMIT "), .place (n + 1),
      .word " OFFSET ", .place (n + 2)]

def Projection.outline (p : Projection) : Outline :=
  .word ("SELECT " ++ p.shown ++ " FROM " ++ source p.schema.kind ++ " WHERE ") :: p.condition.outline ++
    [.word " ORDER BY r.id ASC, t.language ASC"]

namespace Outline

variable (y : Style)

theorem text_append (o o' : Outline) : text y (o ++ o') = o.text y ++ o'.text y := by
  induction o with
  | nil => simp [text]
  | cons p o ih => simp only [List.cons_append, text, ih, String.append_assoc]

theorem text_joined (sep : String) (os : List Outline) :
    (joined sep os).text y = String.intercalate sep (os.map (text y)) := by
  induction os with
  | nil => rfl
  | cons o os ih =>
    cases os with
    | nil => simp [joined]
    | cons =>
      simp only [joined, text_append, text, Part.text, ih, List.map_cons, String.intercalate_cons_cons,
        String.append_assoc]

@[simp]
theorem numbers_nil : numbers [] = [] :=
  rfl

@[simp]
theorem numbers_cons (p : Part) (o : Outline) : numbers (p :: o) = p.number?.toList ++ o.numbers := by
  cases hp : p.number? <;> simp [numbers, hp]

@[simp]
theorem numbers_append (o o' : Outline) : numbers (o ++ o') = o.numbers ++ o'.numbers :=
  List.filterMap_append

theorem numbers_joined (sep : String) (os : List Outline) :
    (joined sep os).numbers = os.flatMap numbers := by
  induction os with
  | nil => rfl
  | cons o os ih =>
    cases os with
    | nil => simp [joined]
    | cons => simpa [joined, Part.number?] using ih

end Outline

section Writing

variable (y : Style)

namespace Condition

theorem run_write (a : Condition) (vs : List Value) :
    (a.write y).run vs = ((a.outline (vs.length + 1)).text y, vs ++ a.bound) := by
  induction a generalizing vs with
  | never | compares | between | has | hasLike =>
    simp only [write, Writing.run_bind, Writing.run_pure, Style.run_bind]
    simp [outline, bound, Outline.text, Part.text, String.append_assoc]
  | isIn c ws =>
    simp only [write, Writing.run_bind, Writing.run_pure, Style.run_mapM_bind]
    simp [outline, bound, Outline.text, Part.text, Outline.text_append, Outline.text_joined,
      String.append_assoc, Function.comp_def]
  | hasAll c items =>
    simp only [write, Writing.run_bind, Writing.run_pure, Style.run_mapM_bind_map]
    simp [outline, bound, Outline.text, Part.text, Outline.text_append, Outline.text_joined,
      String.append_assoc, Function.comp_def]
  | like c negated cast s =>
    simp only [write, Writing.run_bind, Writing.run_pure, Style.run_bind]
    cases cast <;> simp [outline, bound, Outline.text, Part.text, String.append_assoc]
  | orFalse a ih | not a ih =>
    simp only [write, Writing.run_bind, Writing.run_pure, ih]
    simp [outline, bound, Outline.text, Part.text, Outline.text_append, String.append_assoc]

theorem numbers_outline (a : Condition) (n : Nat) : (a.outline n).numbers = List.range' n a.bound.length := by
  induction a with
  | never | compares | between | has | hasLike => rfl
  | isIn | hasAll =>
    simp [outline, bound, Outline.numbers_joined, Part.number?, List.flatMap_map]
  | like c negated cast s => cases cast <;> rfl
  | orFalse a ih | not a ih => simpa [outline, bound, Part.number?] using ih

end Condition

namespace Predicate

variable (vs : List Value)

theorem run_write_cons (a : Condition) (p : Predicate) :
    (write y (a :: p)).run vs =
      (((a.write y).run vs).1 :: ((p.write y).run ((a.write y).run vs).2).1,
        ((p.write y).run ((a.write y).run vs).2).2) := by
  simp only [write, List.mapM_cons, Writing.run_bind, Writing.run_pure]

theorem run_write_append (p q : Predicate) :
    ((p ++ q).write y).run vs =
      (((p.write y).run vs).1 ++ ((q.write y).run ((p.write y).run vs).2).1,
        ((q.write y).run ((p.write y).run vs).2).2) := by
  simp only [write, List.mapM_append, Writing.run_bind, Writing.run_pure]

theorem run_write_eq (p : Predicate) :
    (p.write y).run vs = ((p.outlines (vs.length + 1)).map (Outline.text y), vs ++ p.bound) := by
  induction p generalizing vs with
  | nil =>
    simp only [write, List.mapM_nil, Writing.run_pure, outlines, bound, List.map_nil, List.flatMap_nil,
      List.append_nil]
  | cons a p ih =>
    simp only [run_write_cons, a.run_write, ih, outlines, bound, List.map_cons, List.flatMap_cons,
      List.length_append, List.append_assoc, Nat.add_right_comm]

theorem numbers_outlines (p : Predicate) (n : Nat) :
    (p.outlines n).flatMap Outline.numbers = List.range' n p.bound.length := by
  induction p generalizing n with
  | nil => rfl
  | cons a p ih => simp [outlines, bound, ih, a.numbers_outline, List.range'_append_1]

theorem whole_map_text (os : List Outline) :
    whole (os.map (Outline.text y)) = (wholeOutline os).text y := by
  cases os with
  | nil => simp [whole, wholeOutline, Outline.text, Part.text]
  | cons o os => exact (Outline.text_joined y " AND " (o :: os)).symm

theorem numbers_outline (p : Predicate) : p.outline.numbers = List.range' 1 p.bound.length := by
  rw [← p.numbers_outlines, outline]
  cases p.outlines 1 with
  | nil => rfl
  | cons o os => exact Outline.numbers_joined " AND " (o :: os)

end Predicate

theorem Count.run_write (c : Count) : (c.write y).run [] = (c.outline.text y, c.condition.bound) := by
  simp only [write, Writing.run_bind, Writing.run_pure, Predicate.run_write_eq, Predicate.whole_map_text,
    List.nil_append]
  rfl

theorem Count.numbers_outline (c : Count) : c.outline.numbers = List.range' 1 c.condition.bound.length := by
  simp [outline, Part.number?, Predicate.numbers_outline]

theorem Window.run_write (w : Window) : (w.write y).run [] = (w.outline.text y, w.bound) := by
  simp only [write, Writing.run_bind, Writing.run_pure, Style.run_bind, Predicate.run_write_eq,
    Predicate.whole_map_text, List.nil_append]
  simp [outline, bound, Predicate.outline, Outline.text, Outline.text_append, Part.text, String.append_assoc]

theorem Window.numbers_outline (w : Window) : w.outline.numbers = List.range' 1 w.bound.length := by
  have hplaces (n : Nat) : [n + 1, n + 2] = List.range' (1 + n) 2 := by
    rw [Nat.add_comm 1]
    rfl
  simp [outline, bound, Part.number?, Predicate.numbers_outline, hplaces, List.range'_append_1]

theorem Projection.run_write (p : Projection) :
    (p.write y).run [] = (p.outline.text y, p.condition.bound) := by
  simp only [write, Writing.run_bind, Writing.run_pure, Predicate.run_write_eq, Predicate.whole_map_text,
    List.nil_append]
  simp [outline, Predicate.outline, Outline.text, Outline.text_append, Part.text, String.append_assoc]

theorem Projection.numbers_outline (p : Projection) :
    p.outline.numbers = List.range' 1 p.condition.bound.length := by
  simp [outline, Part.number?, Predicate.numbers_outline]

end Writing

end MediaCatalog.Sql
