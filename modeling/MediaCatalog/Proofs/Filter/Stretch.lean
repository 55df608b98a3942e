import MediaCatalog.Proofs.Filter.Lists

namespace MediaCatalog

namespace Sql.Like

theorem replaced_cons (c d : Char) (cs : List Char) :
    replaced c (d :: cs) = (if d = c then ['\\', d] else [d]) ++ replaced c cs :=
  rfl

-- Backslashes go first, so that none of those that are put in is escaped again.
theorem replaced_in_turn (cs : List Char) : replaced '_' (replaced '%' (replaced '\\' cs)) = escaped cs := by
  induction cs with
  | nil => rfl
  | cons c cs ih =>
    rw [escaped_cons, replaced_cons, ← ih]
    by_cases hb : c = '\\'
    case pos => simp [hb, replaced_cons]
    case neg =>
      by_cases hp : c = '%'
      case pos => simp [hp, replaced_cons]
      case neg => simp [hb, hp, replaced_cons]

theorem toList_containing (r : String) :
    (containing r).toList = '%' :: replaced '_' (replaced '%' (replaced '\\' r.toList)) ++ ['%'] := by
  rw [containing, String.toList_ofList, replaced_in_turn]

-- A pattern is its operand between two wildcards, and the escape in it is never left open.
theorem tokens?_containing (r : String) :
    tokens? (containing r).toList = some (.stretch :: (r.toList.map .char ++ [.stretch])) := by
  rw [containing, String.toList_ofList, List.cons_append]
  simp [tokens?_escaped r.toList (r := ['%']) (t := [.stretch]) rfl]

-- The part of a pattern that SQLite sees has no open escape either.
theorem isSome_tokens?_beforeNul (r : String) : (tokens? (Engine.beforeNul (containing r))).isSome := by
  rw [Engine.beforeNul_containing]
  split
  · have hcut := tokens?_escaped (Engine.beforeNul r) (r := []) (t := []) rfl
    rw [List.append_nil] at hcut
    simp [hcut]
  · simp [tokens?_escaped r.toList (r := ['%']) (t := [.stretch]) rfl]

theorem containing_injective {r r' : String} (h : containing r = containing r') : r = r' := by
  have htokens := tokens?_containing r
  rw [h, tokens?_containing r'] at htokens
  simp only [Option.some.injEq, List.cons.injEq, true_and, List.append_left_inj] at htokens
  have hchar : Function.Injective Token.char := fun _ _ => Token.char.inj
  exact (String.toList_injective (List.map_injective_iff.mpr hchar htokens)).symm

theorem matchesText_containing {same : Char → Char → Bool} {r : String} {text : List Char} :
    matchesText same (containing r).toList text ↔ Occurs same r.toList text := by
  rw [containing, String.toList_ofList]
  exact matchesText_within

-- Without a NUL character in the way the whole of an operand is looked for in the whole of a text.
theorem isSeenIn_iff_occurs {r s : String} (hr : '\x00' ∉ r.toList) (hs : '\x00' ∉ s.toList) :
    IsSeenIn r s ↔ Occurs Engine.seenAlike r.toList s.toList := by
  have hall : Engine.beforeNul s = s.toList :=
    List.takeWhile_eq_self_iff.mpr fun c hc => decide_eq_true fun heq => hs (heq ▸ hc)
  rw [IsSeenIn, if_neg hr, hall]

end Sql.Like

namespace Filter

open Sql

variable {κ : Type}

-- Whether a condition on a field looks for a stretch of text, or for values that do not have it: in the text of
-- its one value, or in the elements of its list. `has` says which texts have a stretch.
def Searches (e : Engine κ) (has : (stretch text : String) → Prop) (f : Field) (o : Operator) (r : String)
    (a : Condition) : Prop :=
  ∀ row, if f.type.isList then
    ∃ b, a.truth e row = some b ∧ (b ↔ (o = .like ↔ ∃ t ∈ e.elements (row (Column.ofField f)), has r t))
  else
    match e.text? (row (Column.ofField f)) with
    | none   => a.truth e row = none
    | some s => ∃ b, a.truth e row = some b ∧ (b ↔ (o = .like ↔ has r s))

section

variable {f : Field} {raw r : String} {o : Operator} (hd : Operator.detect raw = (o, r))
  (ho : o = .like ∨ o = .notLike)

include hd ho

-- The two operators are known to fields of every type.
theorem Criterion.exists_ofField_of_like (f : Field) : ∃ a, Criterion.ofField f raw = .ok a := by
  by_cases hf : f.type.isList
  case pos => rcases ho with rfl | rfl <;> exact ⟨_, (ofField_list hf).mpr ⟨_, by rw [hd]; rfl, rfl⟩⟩
  case neg => rcases ho with rfl | rfl <;> exact ⟨_, (ofField_scalar hf).mpr ⟨_, by rw [hd]; rfl, rfl⟩⟩

variable {a : Criterion} (ha : Criterion.ofField f raw = .ok a)

include ha

-- What is read for the two operators, by the kind of field.
theorem Criterion.eq_of_like :
    f.type.isList ∧ (o = .like ∧ a = .ofList (.like r) ∨ o = .notLike ∧ a = .ofList (.notLike r)) ∨
      ¬f.type.isList ∧ (o = .like ∧ a = .ofScalar (.like r) ∨ o = .notLike ∧ a = .ofScalar (.notLike r)) := by
  by_cases hf : f.type.isList
  case pos =>
    obtain ⟨test, ht, rfl⟩ := (ofField_list hf).mp ha
    rw [hd] at ht
    rcases ho with rfl | rfl <;> cases ht
    · exact .inl ⟨hf, .inl ⟨rfl, rfl⟩⟩
    · exact .inl ⟨hf, .inr ⟨rfl, rfl⟩⟩
  case neg =>
    obtain ⟨test, ht, rfl⟩ := (ofField_scalar hf).mp ha
    rw [hd] at ht
    rcases ho with rfl | rfl <;> cases ht
    · exact .inr ⟨hf, .inl ⟨rfl, rfl⟩⟩
    · exact .inr ⟨hf, .inr ⟨rfl, rfl⟩⟩

-- The pattern is all that is bound.
theorem values_of_like (d : Dialect) : ((a.condition f).phrase d).values = [.text (Like.containing r)] := by
  rcases Criterion.eq_of_like hd ho ha with ⟨-, ⟨-, rfl⟩ | ⟨-, rfl⟩⟩ | ⟨-, ⟨-, rfl⟩ | ⟨-, rfl⟩⟩ <;>
    cases d <;> rfl

theorem searches_of_like {e : Engine κ} {has : (stretch text : String) → Prop}
    (hhas : ∀ s, e.like (Like.containing r) s ↔ has r s) : Searches e has f o r (a.condition f) := by
  intro row
  rcases Criterion.eq_of_like hd ho ha with ⟨hf, h⟩ | ⟨hf, h⟩
  case inl =>
    rw [if_pos hf]
    rcases h with ⟨rfl, rfl⟩ | ⟨rfl, rfl⟩ <;> exact ⟨_, rfl, by simp [hhas]⟩
  case inr =>
    have htruth : (a.condition f).truth e row =
        (e.text? (row (Column.ofField f))).map fun s => e.like (Like.containing r) s == decide (o = .like) := by
      rcases h with ⟨rfl, rfl⟩ | ⟨rfl, rfl⟩ <;> cases htext : e.text? (row (Column.ofField f)) <;>
        simp [Criterion.condition, ScalarTest.condition, Condition.truth, Truth.not, htext]
    rw [if_neg hf]
    split
    case h_1 hnone => rw [htruth, hnone, Option.map_none]
    case h_2 s hsome =>
      refine ⟨_, by rw [htruth, hsome, Option.map_some], ?_⟩
      rw [beq_iff_eq, ← hhas, Bool.eq_iff_iff, decide_eq_true_eq]
      exact iff_comm

-- Only the length of a pattern keeps an engine from searching.
theorem isRefused_of_like {e : Engine κ} {row : Column → κ} : (a.condition f).isRefused e row ↔
    e.limits.pattern.any (· < (Like.containing r).utf8ByteSize) ∧
      (f.type.isList → e.elements (row (Column.ofField f)) ≠ []) := by
  rcases Criterion.eq_of_like hd ho ha with ⟨hf, ⟨-, rfl⟩ | ⟨-, rfl⟩⟩ | ⟨hf, ⟨-, rfl⟩ | ⟨-, rfl⟩⟩ <;>
    simp [Criterion.condition, ListTest.condition, ScalarTest.condition, Condition.isRefused,
      Condition.isRefused.tooLong, hf]

end

-- LIKE is a search for the operand as it stands. Its pattern has no open escape and no other operand has it, and
-- what it is like is, in PostgreSQL, the texts that have the operand in them; SQLite takes ASCII letters of
-- either case for equal, and characters that are none for the one that replaces them, and sees operand and text up to
-- a NUL character only. A filter binds that pattern, and asks the one value or the elements of its field. PostgreSQL
-- does not take a pattern with a NUL character, and SQLite does not answer where the pattern is too long.
theorem like_searches_operand (r : String) :
    (Like.containing r).toList =
        '%' :: Like.replaced '_' (Like.replaced '%' (Like.replaced '\\' r.toList)) ++ ['%'] ∧
    Like.tokens? (Like.containing r).toList = some (.stretch :: (r.toList.map .char ++ [.stretch])) ∧
    (Like.tokens? (Engine.beforeNul (Like.containing r))).isSome ∧
    (∀ r', Like.containing r = Like.containing r' → r = r') ∧
    (∀ same text, Like.matchesText same (Like.containing r).toList text ↔ Like.Occurs same r.toList text) ∧
    (∀ s, Engine.postgres.like (Like.containing r) s ↔ r.toList <:+: s.toList) ∧
    (∀ s, Engine.sqlite.like (Like.containing r) s ↔ Like.IsSeenIn r s) ∧
    (∀ s, '\x00' ∉ r.toList → '\x00' ∉ s.toList →
      (Engine.sqlite.like (Like.containing r) s ↔ Like.Occurs Engine.seenAlike r.toList s.toList)) ∧
    ∀ f raw o, Operator.detect raw = (o, r) → o = .like ∨ o = .notLike →
      ∃ a, Criterion.ofField f raw = .ok a ∧
        (∀ d, ((a.condition f).phrase d).values = [.text (Like.containing r)]) ∧
        Searches Engine.postgres (fun stretch text => stretch.toList <:+: text.toList) f o r (a.condition f) ∧
        Searches Engine.sqlite Like.IsSeenIn f o r (a.condition f) ∧
        (∀ row, (a.condition f).isRefused Engine.postgres row = false) ∧
        (Engine.postgres.excess? ((a.condition f).phrase .postgres).values = none ↔ '\x00' ∉ r.toList) ∧
        Engine.sqlite.excess? ((a.condition f).phrase .sqlite).values = none ∧
        ∀ row, (a.condition f).isRefused Engine.sqlite row ↔ 50000 < (Like.containing r).utf8ByteSize ∧
          (f.type.isList → Engine.sqlite.elements (row (Column.ofField f)) ≠ []) := by
  refine ⟨Like.toList_containing r, Like.tokens?_containing r, Like.isSome_tokens?_beforeNul r,
    fun _ => Like.containing_injective, fun _ _ => Like.matchesText_containing,
    Engine.postgres_like_containing r, Engine.sqlite_like_containing r, fun s hr hs => ?_, fun f raw o hd ho => ?_⟩
  · exact (Engine.sqlite_like_containing r s).trans (Like.isSeenIn_iff_occurs hr hs)
  · obtain ⟨a, ha⟩ := Criterion.exists_ofField_of_like hd ho f
    refine ⟨a, ha, values_of_like hd ho ha, searches_of_like hd ho ha (Engine.postgres_like_containing r),
      searches_of_like hd ho ha (Engine.sqlite_like_containing r), fun row => ?_, ?_, ?_, fun row => ?_⟩
    · rw [← Bool.not_eq_true, isRefused_of_like hd ho ha]
      simp [Engine.postgres]
    · rw [values_of_like hd ho ha, Engine.excess?_eq_none, List.forall_mem_singleton, Engine.takes_postgres_text,
        Engine.mem_containing]
      exact and_iff_right (by decide : 1 ≤ 65535)
    · rw [values_of_like hd ho ha]
      rfl
    · rw [isRefused_of_like hd ho ha]
      simp [Engine.sqlite]

-- A percent sign is found where one is.
theorem like_searches_operand_percent :
    let f := Schema.field .translation "name" .text
    let g := Schema.field .root "genres" .textList
    (∃ a, Criterion.ofField f "*%" = .ok a ∧
      (a.condition f).truth Engine.sqlite (fun _ => .text "50%") = some true ∧
      (a.condition f).truth Engine.sqlite (fun _ => .text "50") = some false) ∧
    ∃ a, Criterion.ofField g "!*%" = .ok a ∧
      (a.condition g).truth Engine.postgres (fun _ => .list ["50%", "50"]) = some false := by
  have hfilters := (like_searches_operand "%").2.2.2.2.2.2.2.2
  constructor
  · obtain ⟨a, ha, -, -, hsqlite, -⟩ :=
      hfilters (Schema.field .translation "name" .text) "*%" .like (by rfl) (.inl rfl)
    have hseen (s : String) := Engine.sqlite_like_containing "%" s
    obtain ⟨b, hb, hiff⟩ := hsqlite fun _ => .text "50%"
    obtain ⟨c, hc, hiff'⟩ := hsqlite fun _ => .text "50"
    refine ⟨a, ha, hb.trans (congrArg some ?_), hc.trans (congrArg some ?_)⟩
    · exact hiff.mpr (iff_of_true rfl ((hseen "50%").mp (by decide)))
    · rw [← Bool.not_eq_true, hiff']
      exact fun h => absurd ((hseen "50").mpr (h.mp rfl)) (by decide)
  · obtain ⟨a, ha, -, hpostgres, -⟩ :=
      hfilters (Schema.field .root "genres" .textList) "!*%" .notLike (by rfl) (.inr rfl)
    obtain ⟨b, hb, hiff⟩ := hpostgres fun _ => .list ["50%", "50"]
    refine ⟨a, ha, hb.trans (congrArg some ?_)⟩
    rw [← Bool.not_eq_true, hiff]
    exact fun h => absurd (h.mpr ⟨"50%", by decide, by decide⟩) (by decide)

-- On SQLite a NUL character takes the wildcard behind it away, and what stands before it is all that is looked for.
theorem sqlite_like_nul_anywhere :
    let f := Schema.field .translation "name" .text
    let a : Criterion := .ofScalar (.like "\x00x")
    Criterion.ofField f "*\x00x" = .ok a ∧
      (a.condition f).truth Engine.sqlite (fun _ => Engine.sqlite.store (.text "Up")) = some true ∧
      ¬Like.Occurs (·.toLower == ·.toLower) "\x00x".toList "Up".toList := by
  intro f a
  have ha : Criterion.ofField f "*\x00x" = .ok a := by rfl
  refine ⟨ha, by rfl, ?_⟩
  simp only [← Like.matchesText_within]
  decide

end Filter

end MediaCatalog
