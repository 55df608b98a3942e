import MediaCatalog.Proofs.Sql.Outline
import MediaCatalog.Proofs.Sql.Placeholder

namespace MediaCatalog.Sql

namespace Recast

-- How a test on the elements of a list begins.
def opening : String := "EXISTS (SELECT 1 FROM json_each("

-- What stands between a word at the front and the next `stop`, and what begins there.
def enclosed? (word : String) (stop : Char) (cs : List Char) : Option (String × List Char) := do
  let rest ← cs.dropPrefix? word.toList
  return (.ofList (rest.takeWhile (· != stop)), rest.dropWhile (· != stop))

-- A test at the front of a text as PostgreSQL spells it, and what is behind it.
def test? (cs : List Char) : Option (String × List Char) := do
  let (column, rest) ← enclosed? opening ')' cs
  (has? column rest).or (hasLike? column rest)
where
  has? (column : String) (cs : List Char) : Option (String × List Char) := do
    let (number, rest) ← enclosed? ") WHERE json_each.value = ?" ')' cs
    let rest ← rest.dropPrefix? ")".toList
    return (Dialect.postgres.style.has column ("$" ++ number), rest)
  hasLike? (column : String) (cs : List Char) : Option (String × List Char) := do
    let (number, rest) ← enclosed? ") WHERE json_each.value LIKE ?" ' ' cs
    let rest ← rest.dropPrefix? (Condition.escape ++ ")").toList
    return (Dialect.postgres.style.hasLike column ("$" ++ number), rest)

-- The text behind as many characters as are done already.
def run : Nat → List Char → List Char
  | _,     []      => []
  | n + 1, _ :: cs => run n cs
  | 0,     c :: cs =>
    match test? (c :: cs) with
    | some (test, rest) => test.toList ++ run (cs.length - rest.length) cs
    | none              => (if c = '?' then '$' else c) :: run 0 cs

end Recast

-- A text for SQLite with its placeholders and its tests on lists as PostgreSQL spells them; everything else stays
-- as it is.
def recast (s : String) : String :=
  .ofList (Recast.run 0 s.toList)

namespace Recast

section

attribute [local simp] run

theorem run_done (w cs : List Char) : run w.length (w ++ cs) = run 0 cs := by
  induction w with
  | nil => rfl
  | cons c w ih => simp [ih]

-- The front of a text is a test, which is replaced.
theorem run_test {w cs : List Char} {test : String} (h : test? (w ++ cs) = some (test, cs)) (hw : w ≠ []) :
    run 0 (w ++ cs) = test.toList ++ run 0 cs := by
  cases w with
  | nil => exact absurd rfl hw
  | cons c w =>
    rw [List.cons_append] at h ⊢
    simp [h, run_done]

theorem run_char {c : Char} {cs : List Char} (h : test? (c :: cs) = none) :
    run 0 (c :: cs) = (if c = '?' then '$' else c) :: run 0 cs := by
  simp [h]

end

theorem enclosed?_eq_some {word inner : String} {stop : Char} {rest : List Char} (hinner : stop ∉ inner.toList)
    (hrest : rest.head? = some stop) :
    enclosed? word stop (word.toList ++ (inner.toList ++ rest)) = some (inner, rest) := by
  have hdrop : (word.toList ++ (inner.toList ++ rest)).dropPrefix? word.toList = some (inner.toList ++ rest) :=
    List.dropPrefix?_append_of_beq _ BEq.rfl
  have hstop : ∀ c ∈ inner.toList, c != stop := fun c hc => bne_iff_ne.mpr fun hcs => hinner (hcs ▸ hc)
  obtain ⟨cs, rfl⟩ := List.head?_eq_some_iff.mp hrest
  simp [enclosed?, hdrop, List.takeWhile_append_of_pos hstop, List.dropWhile_append_of_pos hstop]

-- A text that goes on differently from a word, however it goes on.
def clashes : List Char → List Char → Bool
  | c :: cs, d :: ds => c != d || clashes cs ds
  | _,       _       => false

theorem enclosed?_eq_none {word : String} {w : List Char} (h : clashes w word.toList) (stop : Char)
    (cs : List Char) : enclosed? word stop (w ++ cs) = none := by
  have hdrop : (w ++ cs).dropPrefix? word.toList = none := by
    generalize word.toList = u at h
    induction w generalizing u with
    | nil => simp [clashes] at h
    | cons c w ih =>
      cases u with
      | nil => simp [clashes] at h
      | cons d u =>
        simp only [clashes, Bool.or_eq_true, bne_iff_ne] at h
        simp only [List.cons_append, List.dropPrefix?]
        split
        case isTrue heq => exact ih u (h.resolve_left (not_not.mpr (beq_iff_eq.mp heq)))
        case isFalse => rfl
  rw [enclosed?, hdrop]
  rfl

-- A text without placeholders in which no test begins.
def isCalm : List Char → Bool
  | []      => true
  | c :: cs => c != '?' && clashes (c :: cs) opening.toList && isCalm cs

-- A text that is recast in one way, whatever follows.
def Turns (s t : String) : Prop :=
  ∀ cs, run 0 (s.toList ++ cs) = t.toList ++ run 0 cs

-- A text that stays as it is.
abbrev Stays (s : String) : Prop :=
  Turns s s

theorem test?_eq_none {w : List Char} (h : clashes w opening.toList) (cs : List Char) :
    test? (w ++ cs) = none := by
  rw [test?, enclosed?_eq_none h]
  rfl

theorem stays_of_isCalm {s : String} (h : isCalm s.toList) : Stays s := by
  intro cs
  generalize s.toList = w at h
  induction w with
  | nil => rfl
  | cons c w ih =>
    simp only [isCalm, Bool.and_eq_true, bne_iff_ne] at h
    have htest := test?_eq_none h.1.2 cs
    rw [List.cons_append] at htest ⊢
    rw [run_char htest, if_neg h.1.1, ih h.2, List.cons_append]

theorem Turns.append {s t s' t' : String} (hs : Turns s s') (ht : Turns t t') : Turns (s ++ t) (s' ++ t') := by
  intro cs
  rw [String.toList_append, List.append_assoc, hs, ht, String.toList_append, List.append_assoc]

theorem isCalm_of_forall {w : List Char} (h : ∀ c ∈ w, c ≠ '?' ∧ c ≠ 'E') : isCalm w := by
  induction w with
  | nil => rfl
  | cons c w ih =>
    have hc := h c List.mem_cons_self
    have hw := ih fun d hd => h d (List.mem_cons_of_mem _ hd)
    have hclash : clashes (c :: w) opening.toList := by simp [clashes, opening, hc.2]
    simp [isCalm, hc.1, hclash, hw]

theorem stays_of_isIdentifier {s : String} (h : Schema.isIdentifier s) : Stays s := by
  refine stays_of_isCalm (isCalm_of_forall fun c hc => ?_)
  have hc := (Schema.chars_of_isIdentifier h).2 c hc
  constructor <;> (rintro rfl; revert hc; decide)

theorem stays_column {c : Column} (h : Schema.isIdentifier c.name) : Stays c.text := by
  have howner : Stays (c.owner.tableAlias ++ ".") := by
    cases c.owner <;> exact stays_of_isCalm (by decide)
  exact howner.append (stays_of_isIdentifier h)

variable {c : Column}

theorem not_mem_column (h : Schema.isIdentifier c.name) : ')' ∉ c.text.toList := by
  have howner : ')' ∉ (c.owner.tableAlias ++ ".").toList := by
    cases c.owner <;> decide
  intro hc
  rw [Column.text, String.toList_append, List.mem_append] at hc
  have := (Schema.chars_of_isIdentifier h).2 _ (hc.resolve_left howner)
  revert this
  decide

section Placeholder

variable {n : Nat}

theorem isDigit_of_mem_number : ∀ c ∈ (Text.decimalNat n).toList, c.isDigit := by
  intro c hc
  rw [Text.decimalNat, String.toList_ofList] at hc
  exact Nat.isDigit_of_mem_toDigits (by decide) (by decide) hc

theorem not_mem_number {c : Char} (h : c.isDigit = false) : c ∉ (Text.decimalNat n).toList :=
  fun hc => Bool.false_ne_true (h.symm.trans (isDigit_of_mem_number c hc))

theorem turns_placeholder : Turns (Dialect.sqlite.placeholder n) (Dialect.postgres.placeholder n) := by
  have hmark : Turns "?" "$" :=
    fun cs => run_char (test?_eq_none (w := ['?']) (by decide) cs)
  have hnumber : Stays (Text.decimalNat n) := by
    refine stays_of_isCalm (isCalm_of_forall fun c hc => ?_)
    constructor <;> (rintro rfl; exact not_mem_number (by decide) hc)
  exact hmark.append hnumber

section Test

variable (hc : Schema.isIdentifier c.name)

include hc

theorem turns_has : Turns (Dialect.sqlite.style.has c.text (Dialect.sqlite.placeholder n))
    (Dialect.postgres.style.has c.text (Dialect.postgres.placeholder n)) := by
  intro cs
  have htext : (Dialect.sqlite.style.has c.text (Dialect.sqlite.placeholder n)).toList ++ cs =
      opening.toList ++ (c.text.toList ++ (") WHERE json_each.value = ?".toList ++
        ((Text.decimalNat n).toList ++ (")".toList ++ cs)))) := by
    simp [Dialect.style, Dialect.placeholder, opening]
  have hnumber : ')' ∉ (Text.decimalNat n).toList := not_mem_number (by decide)
  refine run_test ?_ (by simp [Dialect.style])
  rw [htext, test?, enclosed?_eq_some (not_mem_column hc) (by simp)]
  simp only [Option.bind_eq_bind, Option.bind_some, test?.has?]
  rw [enclosed?_eq_some hnumber (by simp)]
  simp only [Option.bind_some, List.dropPrefix?_append_of_beq _ BEq.rfl]
  rfl

theorem turns_hasLike : Turns (Dialect.sqlite.style.hasLike c.text (Dialect.sqlite.placeholder n))
    (Dialect.postgres.style.hasLike c.text (Dialect.postgres.placeholder n)) := by
  intro cs
  have htext : (Dialect.sqlite.style.hasLike c.text (Dialect.sqlite.placeholder n)).toList ++ cs =
      opening.toList ++ (c.text.toList ++ (") WHERE json_each.value LIKE ?".toList ++
        ((Text.decimalNat n).toList ++ ((Condition.escape ++ ")").toList ++ cs)))) := by
    simp [Dialect.style, Dialect.placeholder, Condition.escape, opening]
  have hnumber : ' ' ∉ (Text.decimalNat n).toList := not_mem_number (by decide)
  -- It is not taken for a test of equality.
  have hhas (rest : List Char) :
      test?.has? c.text (") WHERE json_each.value LIKE ?".toList ++ rest) = none := by
    rw [test?.has?, enclosed?_eq_none (by decide)]
    rfl
  refine run_test ?_ (by simp [Dialect.style])
  rw [htext, test?, enclosed?_eq_some (not_mem_column hc) (by simp)]
  simp only [Option.bind_eq_bind, Option.bind_some, hhas, Option.none_or, test?.hasLike?]
  rw [enclosed?_eq_some hnumber (by simp [Condition.escape])]
  simp only [Option.bind_some, List.dropPrefix?_append_of_beq _ BEq.rfl]
  rfl

end Test

end Placeholder

end Recast

open Recast (Turns Stays stays_of_isCalm stays_column)

-- Nothing but the placeholders and the tests has to be spelled differently.
def Part.IsClear : Part → Prop
  | word s                             => Stays s
  | castText c | has c _ | hasLike c _ => Schema.isIdentifier c.name
  | place _                            => True

theorem Part.IsClear.turns {p : Part} (h : p.IsClear) :
    Turns (p.text Dialect.sqlite.style) (p.text Dialect.postgres.style) := by
  cases p with
  | word s => exact h
  | castText c =>
    have hopen : Stays "CAST(" := stays_of_isCalm (by decide)
    exact (hopen.append (stays_column h)).append (stays_of_isCalm (by decide))
  | place n => exact Recast.turns_placeholder
  | has c n => exact Recast.turns_has h
  | hasLike c n => exact Recast.turns_hasLike h

namespace Outline

def IsClear (o : Outline) : Prop :=
  ∀ p ∈ o, p.IsClear

namespace IsClear

theorem nil : IsClear [] :=
  List.forall_mem_nil _

theorem cons {p : Part} {o : Outline} (hp : p.IsClear) (ho : o.IsClear) : IsClear (p :: o) :=
  List.forall_mem_cons.mpr ⟨hp, ho⟩

theorem word {s : String} {o : Outline} (hs : Stays s) (ho : o.IsClear) : IsClear (.word s :: o) :=
  cons hs ho

theorem append {o o' : Outline} (ho : o.IsClear) (ho' : o'.IsClear) : IsClear (o ++ o') :=
  List.forall_mem_append.mpr ⟨ho, ho'⟩

theorem within {s t : String} {o : Outline} (ho : o.IsClear) (hs : Stays s) (ht : Stays t) :
    IsClear (.word s :: o ++ [.word t]) :=
  (word hs ho).append (word ht nil)

theorem joined {sep : String} (hsep : Stays sep) {os : List Outline} (h : ∀ o ∈ os, o.IsClear) :
    (Outline.joined sep os).IsClear := by
  induction os with
  | nil => exact nil
  | cons o os ih =>
    have ho := h o List.mem_cons_self
    have ih := ih fun o' ho' => h o' (List.mem_cons_of_mem o ho')
    cases os with
    | nil => exact ho
    | cons => exact ho.append (.cons hsep ih)

theorem turns {o : Outline} (h : o.IsClear) :
    Turns (o.text Dialect.sqlite.style) (o.text Dialect.postgres.style) := by
  induction o with
  | nil => exact stays_of_isCalm rfl
  | cons p o ih =>
    have hp : p.IsClear := h p List.mem_cons_self
    exact hp.turns.append (ih fun q hq => h q (List.mem_cons_of_mem p hq))

end IsClear

theorem recast_text {o : Outline} (h : o.IsClear) :
    recast (o.text Dialect.sqlite.style) = o.text Dialect.postgres.style := by
  have hrun := h.turns []
  rw [List.append_nil, Recast.run, List.append_nil] at hrun
  rw [recast, hrun, String.ofList_toList]

end Outline

theorem Condition.isClear_outline : (a : Condition) → a.IsProper → ∀ n, (a.outline n).IsClear
  | never, _, _                 => .word (stays_of_isCalm (by decide)) .nil
  | compares c r _, h, _        => by
    have hsign : Stays (" " ++ r.sign ++ " ") := by
      cases r <;> exact stays_of_isCalm (by decide)
    have hword := (stays_column h).append hsign
    rw [← String.append_assoc, ← String.append_assoc] at hword
    exact .word hword (.cons trivial .nil)
  | between .., h, _            =>
    .word ((stays_column h).append (stays_of_isCalm (by decide)))
      (.cons trivial (.word (stays_of_isCalm (by decide)) (.cons trivial .nil)))
  | isIn c vs, h, n             => by
    have hplaces : ∀ o ∈ (List.range' n vs.length).map fun i => [Part.place i], Outline.IsClear o := by
      intro o ho
      obtain ⟨i, _, rfl⟩ := List.mem_map.mp ho
      exact .cons trivial .nil
    have hsep : Stays ", " := stays_of_isCalm (by decide)
    have hjoined := Outline.IsClear.joined hsep hplaces
    exact hjoined.within ((stays_column h.1).append (stays_of_isCalm (by decide))) (stays_of_isCalm (by decide))
  | like c negated cast _, h, _ => by
    have hoperand : Part.IsClear (if cast then .castText c else .word c.text) := by
      cases cast
      · exact stays_column h
      · exact h
    have hkeyword : Stays (if negated then " NOT LIKE " else " LIKE ") := by
      cases negated <;> exact stays_of_isCalm (by decide)
    exact .cons hoperand (.word hkeyword (.cons trivial (.word (stays_of_isCalm (by decide)) .nil)))
  | has .., h, _                => .cons h .nil
  | hasAll c items, h, n        => by
    have htests : ∀ o ∈ (List.range' n items.length).map fun i => [Part.has c i], Outline.IsClear o := by
      intro o ho
      obtain ⟨i, _, rfl⟩ := List.mem_map.mp ho
      exact .cons h.1 .nil
    have hsep : Stays " AND " := stays_of_isCalm (by decide)
    have hjoined := Outline.IsClear.joined hsep htests
    exact hjoined.within (stays_of_isCalm (by decide)) (stays_of_isCalm (by decide))
  | hasLike .., h, _            => .cons h .nil
  | orFalse a, h, n             =>
    (a.isClear_outline h n).within (stays_of_isCalm (by decide)) (stays_of_isCalm (by decide))
  | not a, h, n                 => .word (stays_of_isCalm (by decide)) (a.isClear_outline h n)

namespace Predicate

theorem isClear_outlines {p : Predicate} (h : ∀ a ∈ p, a.IsProper) (n : Nat) :
    ∀ o ∈ p.outlines n, o.IsClear := by
  induction p generalizing n with
  | nil => exact List.forall_mem_nil _
  | cons a p ih =>
    have ha := a.isClear_outline (h a List.mem_cons_self) n
    exact List.forall_mem_cons.mpr ⟨ha, ih (fun b hb => h b (List.mem_cons_of_mem a hb)) _⟩

theorem isClear_outline {p : Predicate} (h : ∀ a ∈ p, a.IsProper) : p.outline.IsClear := by
  have hos := isClear_outlines h 1
  rw [outline]
  cases hp : p.outlines 1 with
  | nil => exact .cons (stays_of_isCalm (by decide)) .nil
  | cons o os => exact .joined (stays_of_isCalm (by decide)) (hp ▸ hos)

end Predicate

section Statement

theorem stays_source (k : Kind) : Stays (source k) := by
  cases k <;> exact stays_of_isCalm (by decide)

theorem stays_orderText {order : List OrderTerm} (h : ∀ o ∈ order, Schema.isIdentifier o.column.name) :
    Stays (OrderTerm.orderText order) := by
  refine OrderTerm.orderText_induction (P := Stays) Turns.append (fun w hw => stays_of_isCalm ?_) fun o ho => ?_
  case refine_1 => revert w; decide
  case refine_2 => exact stays_column (h o ho)

theorem stays_shown {p : Projection} (h : ∀ f ∈ p.schema.fields, Schema.isIdentifier f.column) :
    Stays p.shown := by
  refine Projection.shown_induction (P := Stays) Turns.append (fun w hw => stays_of_isCalm ?_) fun c hc => ?_
  case refine_1 => revert w; decide
  case refine_2 =>
    have hc := isIdentifier_columns h c hc
    exact ⟨stays_column hc, Recast.stays_of_isIdentifier hc⟩

variable {p : Predicate} (hp : ∀ a ∈ p, a.IsProper)

include hp

theorem Count.isClear_outline (k : Kind) : (Count.mk k p).outline.IsClear :=
  .word (((stays_of_isCalm (by decide)).append (stays_source k)).append (stays_of_isCalm (by decide)))
    (Predicate.isClear_outline hp)

theorem Window.isClear_outline (k : Kind) {order : List OrderTerm}
    (ho : ∀ o ∈ order, Schema.isIdentifier o.column.name) (limit offset : Int64) :
    (Window.mk k p order limit offset).outline.IsClear := by
  have hopen : Stays ("SELECT r.id FROM " ++ source k ++ " WHERE ") :=
    ((stays_of_isCalm (by decide)).append (stays_source k)).append (stays_of_isCalm (by decide))
  have horder : Stays (" GROUP BY r.id ORDER BY " ++ OrderTerm.orderText order ++ " LIMIT ") :=
    ((stays_of_isCalm (by decide)).append (stays_orderText ho)).append (stays_of_isCalm (by decide))
  exact (Outline.IsClear.word hopen (Predicate.isClear_outline hp)).append
    (.word horder (.cons trivial (.word (stays_of_isCalm (by decide)) (.cons trivial .nil))))

theorem Projection.isClear_outline {s : Schema} (hs : ∀ f ∈ s.fields, Schema.isIdentifier f.column) :
    (Projection.mk s p).outline.IsClear := by
  have hopen : Stays ("SELECT " ++ (Projection.mk s p).shown ++ " FROM " ++ source s.kind ++ " WHERE ") :=
    ((((stays_of_isCalm (by decide)).append (stays_shown hs)).append (stays_of_isCalm (by decide))).append
      (stays_source s.kind)).append (stays_of_isCalm (by decide))
  exact (Predicate.isClear_outline hp).within hopen (stays_of_isCalm (by decide))

end Statement

end MediaCatalog.Sql
