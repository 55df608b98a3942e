import MediaCatalog.Proofs.Sql.Style
import Mathlib.Data.List.Forall2

namespace MediaCatalog.Sql

-- Two conditions of one build, over the same columns and with as many values.
inductive Condition.Alike : Condition → Condition → Prop
  | never : Alike never never
  | compares (c : Column) (r : Filter.Relation) (v w : Scalar) :
    Alike (compares c r v) (compares c r w)
  | between (c : Column) (low high low' high' : Scalar) :
    Alike (between c low high) (between c low' high')
  | isIn (c : Column) {vs ws : List Scalar} (h : vs.length = ws.length) : Alike (isIn c vs) (isIn c ws)
  | like (c : Column) (negated cast : Bool) (pattern pattern' : String) :
    Alike (like c negated cast pattern) (like c negated cast pattern')
  | has (c : Column) (item item' : String) : Alike (has c item) (has c item')
  | hasAll (c : Column) {items items' : List String} (h : items.length = items'.length) :
    Alike (hasAll c items) (hasAll c items')
  | hasLike (c : Column) (pattern pattern' : String) : Alike (hasLike c pattern) (hasLike c pattern')
  | orFalse {a b : Condition} (h : Alike a b) : Alike (orFalse a) (orFalse b)
  | not {a b : Condition} (h : Alike a b) : Alike (not a) (not b)

namespace Writing

variable {α β γ : Type}

-- Two writings agree if they give the same and bind as many values, wherever equally many are bound already.
def Agree (m m' : Writing α) : Prop :=
  ∀ vs ws, vs.length = ws.length →
    (m.run vs).1 = (m'.run ws).1 ∧ (m.run vs).2.length = (m'.run ws).2.length

namespace Agree

theorem pure (a : α) : Agree (pure a) (pure a) :=
  fun _ _ h => ⟨rfl, h⟩

theorem bind {m m' : Writing α} {f f' : α → Writing β} (hm : Agree m m') (hf : ∀ a, Agree (f a) (f' a)) :
    Agree (m >>= f) (m' >>= f') := by
  intro vs ws h
  have ⟨htext, hlength⟩ := hm vs ws h
  rw [run_bind, run_bind, htext]
  exact hf _ _ _ hlength

theorem mapM {f : α → Writing γ} {f' : β → Writing γ} {as : List α} {bs : List β}
    (h : List.Forall₂ (fun a b => Agree (f a) (f' b)) as bs) : Agree (as.mapM f) (bs.mapM f') := by
  induction h with
  | nil => exact pure []
  | cons hab _ ih =>
    rw [List.mapM_cons, List.mapM_cons]
    exact hab.bind fun _ => ih.bind fun _ => pure _

theorem text_statement {m m' : Writing String} (h : Agree m m') : m.statement.text = m'.statement.text :=
  (h [] [] rfl).1

end Agree

end Writing

open Writing (Agree)

theorem Style.agree_bind (y : Style) (v w : Value) : Agree (y.bind v) (y.bind w) := by
  intro vs ws h
  rw [run_bind, run_bind, h, List.length_append, List.length_append, h]
  exact ⟨rfl, rfl⟩

theorem forall₂_of_length_eq {α β : Type} {r : α → β → Prop} (hr : ∀ a b, r a b) {as : List α} {bs : List β}
    (h : as.length = bs.length) : List.Forall₂ r as bs :=
  List.forall₂_iff_zip.mpr ⟨h, fun _ => hr _ _⟩

variable (y : Style)

theorem Condition.Alike.agree {a b : Condition} (h : a.Alike b) : Agree (a.write y) (b.write y) := by
  induction h with
  | never => exact .pure _
  | compares | like | has | hasLike => exact (y.agree_bind _ _).bind fun _ => .pure _
  | between => exact (y.agree_bind _ _).bind fun _ => (y.agree_bind _ _).bind fun _ => .pure _
  | isIn c h =>
    have hplaces := forall₂_of_length_eq (fun v w => y.agree_bind (.scalar v) (.scalar w)) h
    exact (Agree.mapM hplaces).bind fun _ => .pure _
  | hasAll c h =>
    refine .bind (.mapM (forall₂_of_length_eq (fun item item' => ?_) h)) fun _ => .pure _
    exact (y.agree_bind _ _).bind fun _ => .pure _
  | orFalse _ ih | not _ ih => exact ih.bind fun _ => .pure _

-- Predicates whose conditions are alike one by one.
abbrev Predicate.Alike (p q : Predicate) : Prop :=
  List.Forall₂ Condition.Alike p q

section

variable {p q : Predicate} (h : p.Alike q)

include h

theorem Predicate.Alike.agree : Agree (p.write y) (q.write y) :=
  .mapM (h.imp fun _ _ h => h.agree y)

theorem Count.agree (k : Kind) : Agree ((Count.mk k p).write y) ((Count.mk k q).write y) :=
  (Predicate.Alike.agree y h).bind fun _ => .pure _

theorem Window.agree (k : Kind) (order : List OrderTerm) (limit offset limit' offset' : Int64) :
    Agree ((Window.mk k p order limit offset).write y) ((Window.mk k q order limit' offset').write y) :=
  (Predicate.Alike.agree y h).bind fun _ => (y.agree_bind _ _).bind fun _ =>
    (y.agree_bind _ _).bind fun _ => .pure _

theorem Projection.agree (s : Schema) :
    Agree ((Projection.mk s p).write y) ((Projection.mk s q).write y) :=
  (Predicate.Alike.agree y h).bind fun _ => .pure _

end

end MediaCatalog.Sql
