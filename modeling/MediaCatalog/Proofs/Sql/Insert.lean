import MediaCatalog.Proofs.Sql.Style
import MediaCatalog.Sql.Insert

namespace MediaCatalog

theorem Columns.given_eq_nil {cs : Columns} : cs.given = [] ↔ ∀ c ∈ cs, c.2 = .null := by
  simp [given, List.filter_eq_nil_iff]

theorem Columns.ne_null_of_given {cs : Columns} {c : String × Value} (h : c ∈ cs.given) : c.2 ≠ .null := by
  simpa using (List.mem_filter.mp h).2

namespace Sql

section Statements

variable {d : Dialect}

theorem Phrase.texts_bind (n : Nat) (vs : List Value) :
    texts d n (vs.map fun v => [.bind v]) = (List.range' n vs.length).map d.placeholder := by
  induction vs generalizing n with
  | nil => rfl
  | cons v vs ih => simp [texts, text, values, ih, List.range'_succ]

theorem Phrase.text_listed (n : Nat) (vs : List Value) :
    (listed vs).text d n = String.intercalate ", " ((List.range' n vs.length).map d.placeholder) := by
  rw [listed, text_joined, texts_bind]

namespace Insert

-- What an insertion says in both dialects.
def common (i : Insert) : Phrase :=
  .text ("INSERT INTO " ++ i.table) :: phrase.body i

theorem phrase_eq (i : Insert) : i.phrase d = i.common ++
    if d = .postgres ∧ i.owner = .root then [.text " RETURNING id"] else [] :=
  rfl

theorem statement_sqlite (i : Insert) : i.statement .sqlite = i.common.statement .sqlite := by
  rw [statement, phrase_eq, if_neg (by simp), List.append_nil]

theorem statement_postgres_root {i : Insert} (h : i.owner = .root) :
    i.statement .postgres = (i.common ++ ([.text " RETURNING id"] : Phrase)).statement .postgres := by
  rw [statement, phrase_eq, if_pos ⟨rfl, h⟩]

theorem statement_postgres_translation {i : Insert} (h : i.owner = .translation) :
    i.statement .postgres = i.common.statement .postgres := by
  rw [statement, phrase_eq, if_neg (by simp [h]), List.append_nil]

theorem text_common (i : Insert) : i.common.text d 1 = text d i.table (i.columns.map (·.1)) false := by
  rw [common, Phrase.text, phrase.body]
  generalize i.columns = cs
  cases cs <;> simp [text, Phrase.text, Phrase.text_append, Phrase.text_listed, String.append_assoc]

theorem values_common (i : Insert) : i.common.values = i.columns.map (·.2) := by
  rw [common, Phrase.values, phrase.body]
  generalize i.columns = cs
  cases cs <;> simp [Phrase.values, Phrase.values_append, Phrase.values_listed]

theorem statement_eq_ofColumns (i : Insert) :
    i.statement d = ofColumns d i.table i.columns (d = .postgres ∧ i.owner = .root) := by
  rw [statement, Phrase.statement, phrase_eq, Phrase.text_append, Phrase.values_append, text_common, values_common]
  split
  case isTrue ha => simp [ofColumns, text, ha, Phrase.text, Phrase.values]
  case isFalse ha => simp [ofColumns, text, ha, Phrase.text, Phrase.values]

end Insert

end Statements

end Sql

end MediaCatalog
