import MediaCatalog.Proofs.Sql.Token
import MediaCatalog.Sql.Style

namespace MediaCatalog.Sql

section Induction

-- What holds of the words and the names in a text, and of two texts together if it holds of each.
variable {P : String → Prop} (append : ∀ {s t : String}, P s → P t → P (s ++ t))

include append

theorem intercalate_induction {sep : String} {ss : List String} (empty : P "") (hsep : P sep)
    (h : ∀ s ∈ ss, P s) : P (String.intercalate sep ss) := by
  induction ss with
  | nil => exact empty
  | cons s ss ih =>
    have ih := ih fun t ht => h t (List.mem_cons_of_mem _ ht)
    have hs := h s List.mem_cons_self
    cases ss with
    | nil => exact String.intercalate_singleton ▸ hs
    | cons t ts => exact String.intercalate_cons_cons ▸ append (append hs hsep) ih

theorem OrderTerm.orderText_induction {order : List OrderTerm}
    (word : ∀ w ∈ ["", ", ", "MIN(", "MAX(", ") ASC", ") DESC", "r.id ASC"], P w)
    (column : ∀ o ∈ order, P o.column.text) : P (orderText order) := by
  refine intercalate_induction append (word _ (by simp)) (word _ (by simp)) fun s hs => ?_
  rcases List.mem_append.mp hs with hs | hs
  case inl =>
    obtain ⟨o, ho, rfl⟩ := List.mem_map.mp hs
    rw [text]
    split <;> exact append (append (word _ (by simp)) (column o ho)) (word _ (by simp))
  case inr => exact List.mem_singleton.mp hs ▸ word _ (by simp)

theorem Projection.shown_induction {p : Projection} (word : ∀ w ∈ ["", ", ", " AS "], P w)
    (column : ∀ c ∈ p.columns, P c.text ∧ P c.name) : P p.shown := by
  refine intercalate_induction append (word _ (by simp)) (word _ (by simp)) fun s hs => ?_
  obtain ⟨c, hc, rfl⟩ := List.mem_map.mp hs
  exact append (append (column c hc).1 (word _ (by simp))) (column c hc).2

end Induction

namespace Writing

variable {α β : Type}

-- Both equations hold by computation. They are not proved by a bare `rfl`, as simp would then leave it to the
-- kernel to compute whole writings again.
theorem run_bind (m : Writing α) (f : α → Writing β) (vs : List Value) :
    (m >>= f).run vs = (f (m.run vs).1).run (m.run vs).2 :=
  (rfl)

theorem run_pure (a : α) (vs : List Value) : (pure a : Writing α).run vs = (a, vs) :=
  (rfl)

end Writing

theorem Style.run_bind (y : Style) (v : Value) (vs : List Value) :
    (y.bind v).run vs = (y.placeholder (vs.length + 1), vs ++ [v]) := by
  change (y.placeholder (vs ++ [v]).length, vs ++ [v]) = _
  rw [List.length_append, List.length_singleton]

-- Placeholders that are bound one after the other have numbers one after the other.
theorem Style.run_mapM_bind_map {α β : Type} (y : Style) (f : α → Value) (g : String → β) (as : List α)
    (vs : List Value) :
    (as.mapM fun a => do return g (← y.bind (f a))).run vs =
      ((List.range' (vs.length + 1) as.length).map (g <| y.placeholder ·), vs ++ as.map f) := by
  induction as generalizing vs with
  | nil =>
    simp only [List.mapM_nil, Writing.run_pure, List.length_nil, List.range'_zero, List.map_nil, List.append_nil]
  | cons a as ih =>
    simp only [List.mapM_cons, Writing.run_bind, Writing.run_pure, run_bind, ih]
    simp [List.range'_succ]

theorem Style.run_mapM_bind {α : Type} (y : Style) (f : α → Value) (as : List α) (vs : List Value) :
    (as.mapM fun a => y.bind (f a)).run vs =
      ((List.range' (vs.length + 1) as.length).map y.placeholder, vs ++ as.map f) :=
  run_mapM_bind_map y f id as vs

namespace Phrase

variable {d : Dialect}

theorem text_joined (sep : String) (n : Nat) (ps : List Phrase) :
    (joined sep ps).text d n = String.intercalate sep (texts d n ps) := by
  induction ps generalizing n with
  | nil => rfl
  | cons p ps ih =>
    cases ps with
    | nil => simp [joined, texts]
    | cons q qs =>
      have ih := ih (n + p.values.length)
      simp only [joined, text_append, text, ih, texts, String.intercalate_cons_cons, String.append_assoc]

theorem values_joined (sep : String) (ps : List Phrase) : (joined sep ps).values = ps.flatMap values := by
  induction ps with
  | nil => rfl
  | cons p ps ih =>
    cases ps with
    | nil => simp [joined]
    | cons q qs => simp [joined, values_append, values, ih]

theorem values_listed (vs : List Value) : (listed vs).values = vs := by
  simp [listed, values_joined, values, List.flatMap_map]

end Phrase

section Dialect

variable {d : Dialect}

-- In the style of a dialect, what is written is the text of a phrase, and what is bound are its values.
def Writing.Writes (d : Dialect) (m : Writing String) (p : Phrase) : Prop :=
  ∀ vs, m.run vs = (p.text d (vs.length + 1), vs ++ p.values)

open Writing (Writes)

theorem Style.writes_bind (v : Value) : Writes d (d.style.bind v) [.bind v] := by
  intro vs
  simp [Style.run_bind, Phrase.text, Phrase.values, Dialect.style]

namespace Writing.Writes

variable {m : Writing String} {p : Phrase}

theorem behind (h : Writes d m p) (s : String) : Writes d (do return s ++ (← m)) (.text s :: p) := by
  intro vs
  rw [run_bind, run_pure, h vs]
  rfl

theorem within (h : Writes d m p) (s t : String) :
    Writes d (do return s ++ (← m) ++ t) (.text s :: p ++ [.text t]) := by
  intro vs
  rw [run_bind, run_pure, h vs]
  simp [Phrase.text_append, Phrase.values_append, Phrase.text, Phrase.values, String.append_assoc]

theorem mapM {α : Type} {f : α → Writing String} {g : α → Phrase} (h : ∀ a, Writes d (f a) (g a))
    (as : List α) (vs : List Value) :
    (as.mapM f).run vs =
      (Phrase.texts d (vs.length + 1) (as.map g), vs ++ (as.map g).flatMap Phrase.values) := by
  induction as generalizing vs with
  | nil =>
    simp only [List.mapM_nil, run_pure, List.map_nil, Phrase.texts, List.flatMap_nil, List.append_nil]
  | cons a as ih =>
    simp only [List.mapM_cons, run_bind, run_pure, h a vs, ih, List.map_cons, Phrase.texts,
      List.flatMap_cons, List.length_append, List.append_assoc, Nat.add_right_comm]

theorem joined {α : Type} {f : α → Writing String} {g : α → Phrase} (h : ∀ a, Writes d (f a) (g a))
    (sep : String) (as : List α) :
    Writes d (do return String.intercalate sep (← as.mapM f)) (Phrase.joined sep (as.map g)) := by
  intro vs
  rw [run_bind, run_pure, mapM h as vs, Phrase.text_joined, Phrase.values_joined]

end Writing.Writes

namespace Condition

theorem writes_has (c : Column) (item : String) :
    Writes d (do return d.style.has c.text (← d.style.bind (.text item))) (hasPhrase d c item) := by
  cases d <;> exact (Style.writes_bind _).within _ _

theorem writes_hasLike (c : Column) (pattern : String) :
    Writes d (do return d.style.hasLike c.text (← d.style.bind (.text pattern)))
      (hasLikePhrase d c pattern) := by
  cases d <;> exact (Style.writes_bind _).within _ _

theorem writes : (a : Condition) → Writes d (a.write d.style) (a.phrase d)
  | never             => fun vs => by
    rw [write, Writing.run_pure]
    simp [phrase, Phrase.text, Phrase.values]
  | compares ..       => (Style.writes_bind _).behind _
  | between ..        => fun vs => by
    simp only [write, Writing.run_bind, Writing.run_pure, Style.writes_bind _ _]
    simp [phrase, Phrase.text, Phrase.values, String.append_assoc]
  | isIn c vs         => by
    have hlisted : Phrase.listed (vs.map .scalar) =
        Phrase.joined ", " (vs.map fun v => [.bind (.scalar v)]) := by
      simp [Phrase.listed, Function.comp_def]
    rw [phrase, hlisted]
    exact (Writing.Writes.joined (fun v => Style.writes_bind (.scalar v)) ", " vs).within _ _
  | like ..           => (Style.writes_bind _).within _ _
  | has c item        => writes_has c item
  | hasAll c items    => (Writing.Writes.joined (writes_has c) " AND " items).within _ _
  | hasLike c pattern => writes_hasLike c pattern
  | orFalse a         => a.writes.within _ _
  | not a             => a.writes.behind _

end Condition

-- The clauses of a predicate are the texts of the phrases of its conditions.
theorem Predicate.run_write (p : Predicate) (vs : List Value) :
    (p.write d.style).run vs =
      (Phrase.texts d (vs.length + 1) (p.map (·.phrase d)), vs ++ p.values d) := by
  have h := Writing.Writes.mapM (Condition.writes (d := d)) p vs
  cases p with
  | nil => exact h
  | cons a as =>
    rw [values, phrase, Phrase.values_joined]
    · exact h
    · simp

theorem Predicate.writes (p : Predicate) :
    Writes d (do return whole (← p.write d.style)) (p.phrase d) := by
  cases p with
  | nil =>
    intro vs
    rw [Writing.run_bind, Writing.run_pure, run_write]
    simp [Phrase.texts, whole, values, phrase, Phrase.text]
  | cons a as =>
    intro vs
    have htext : (phrase d (a :: as)).text d (vs.length + 1) = _ := Phrase.text_joined ..
    rw [Writing.run_bind, Writing.run_pure, run_write, htext]
    rfl

end Dialect

section Statement

variable {d : Dialect}

theorem Writing.Writes.statement {m : Writing String} {p : Phrase} (h : Writes d m p) :
    m.statement = p.statement d := by
  rw [Writing.statement, h []]
  rfl

variable (d)

theorem Count.statement_write (c : Count) : (c.write d.style).statement = c.statement d :=
  (c.condition.writes.behind _).statement

theorem Projection.statement_write (p : Projection) :
    (p.write d.style).statement = p.statement d :=
  (p.condition.writes.within _ _).statement

theorem Window.statement_write (w : Window) : (w.write d.style).statement = w.statement d := by
  have hwhole := w.condition.writes (d := d) []
  rw [Writing.run_bind, Writing.run_pure, Prod.mk.injEq] at hwhole
  have ⟨htext, hvalues⟩ := hwhole
  simp only [Writing.statement, write, Writing.run_bind, Writing.run_pure, Style.writes_bind _ _, htext,
    hvalues, statement, phrase, Phrase.statement, Statement.mk.injEq]
  refine ⟨?text, ?values⟩
  case text => simp [Phrase.text_append, Phrase.text, Phrase.values, String.append_assoc, Nat.add_comm]
  case values => simp [Phrase.values_append, Phrase.values]

end Statement

end MediaCatalog.Sql
