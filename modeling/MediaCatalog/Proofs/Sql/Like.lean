import MediaCatalog.Sql.Engine
import Mathlib.Data.List.Forall2
import Mathlib.Data.List.TakeWhile

namespace MediaCatalog.Sql

namespace Like

attribute [simp] tokens? someEnding covers

variable {same : Char → Char → Bool}

-- One text is the other, but for the characters that count as equal.
def Alike (same : Char → Char → Bool) (cs ds : List Char) : Prop :=
  List.Forall₂ (fun c d => same c d) cs ds

def Occurs (same : Char → Char → Bool) (stretch text : List Char) : Prop :=
  ∃ before found after, text = before ++ found ++ after ∧ Alike same stretch found

def OccursLast (same : Char → Char → Bool) (stretch text : List Char) : Prop :=
  ∃ before found, text = before ++ found ∧ Alike same stretch found

theorem alike_beq {cs ds : List Char} : Alike (· == ·) cs ds ↔ cs = ds := by
  simp [Alike, List.forall₂_eq_eq_eq]

-- Where every character stands for itself, occurring is being a stretch of the text.
theorem occurs_beq {cs ds : List Char} : Occurs (· == ·) cs ds ↔ cs <:+: ds := by
  simp only [Occurs, alike_beq, List.IsInfix]
  constructor
  · rintro ⟨before, found, after, rfl, rfl⟩
    exact ⟨before, after, rfl⟩
  · rintro ⟨before, after, rfl⟩
    exact ⟨before, cs, after, rfl, rfl⟩

theorem escaped_cons (c : Char) (cs : List Char) :
    escaped (c :: cs) = (if c = '\\' ∨ c = '%' ∨ c = '_' then ['\\', c] else [c]) ++ escaped cs :=
  rfl

-- An escaped character is read as a character, so that no escape is left open.
theorem tokens?_escaped (cs : List Char) {r : List Char} {t : List Token}
    (h : tokens? r = some t) : tokens? (escaped cs ++ r) = some (cs.map .char ++ t) := by
  induction cs with
  | nil => simpa [escaped] using h
  | cons c cs ih =>
    rw [escaped_cons, List.append_assoc]
    split
    case isTrue hc => rcases hc with rfl | rfl | rfl <;> simp [ih]
    case isFalse hc =>
      simp only [not_or] at hc
      simp [hc, ih]

theorem someEnding_eq_true {test : List Char → Bool} {cs : List Char} :
    someEnding test cs ↔ ∃ before ending, cs = before ++ ending ∧ test ending := by
  induction cs with
  | nil => simp
  | cons c cs ih =>
    simp only [someEnding, Bool.or_eq_true, ih]
    constructor
    · rintro (h | ⟨before, ending, rfl, h⟩)
      · exact ⟨[], c :: cs, rfl, h⟩
      · exact ⟨c :: before, ending, rfl, h⟩
    · rintro ⟨_ | ⟨d, before⟩, ending, heq, h⟩
      · exact .inl (by simpa [heq] using h)
      · cases heq
        exact .inr ⟨before, ending, rfl, h⟩

theorem covers_chars {ts : List Token} {cs ds : List Char} :
    covers same (cs.map .char ++ ts) ds ↔
      ∃ found rest, ds = found ++ rest ∧ Alike same cs found ∧ covers same ts rest := by
  induction cs generalizing ds with
  | nil => simp [Alike]
  | cons c cs ih =>
    cases ds with
    | nil => simp [Alike]
    | cons d ds =>
      simp only [List.map_cons, List.cons_append, covers, Bool.and_eq_true, ih]
      constructor
      · rintro ⟨hd, found, rest, rfl, hf, hr⟩
        exact ⟨d :: found, rest, rfl, .cons hd hf, hr⟩
      · rintro ⟨found, rest, heq, hf, hr⟩
        cases hf with
        | cons hd hf =>
          cases heq
          exact ⟨hd, _, rest, rfl, hf, hr⟩

theorem covers_stretch (ds : List Char) : covers same [.stretch] ds := by
  simp only [covers, someEnding_eq_true]
  exact ⟨ds, [], by simp, rfl⟩

-- A stretch between two wildcards.
theorem matchesText_within {cs ds : List Char} :
    matchesText same ('%' :: escaped cs ++ ['%']) ds ↔ Occurs same cs ds := by
  have ht : tokens? ('%' :: (escaped cs ++ ['%'])) =
      some (.stretch :: (cs.map .char ++ [Token.stretch])) := by
    simp [tokens?_escaped cs (r := ['%']) (t := [.stretch]) rfl]
  rw [List.cons_append, matchesText, ht]
  change someEnding (covers same (cs.map .char ++ [Token.stretch])) ds ↔ _
  simp only [someEnding_eq_true, covers_chars, covers_stretch, and_true]
  constructor
  · rintro ⟨before, _, rfl, found, after, rfl, h⟩
    exact ⟨before, found, after, by simp, h⟩
  · rintro ⟨before, found, after, rfl, h⟩
    exact ⟨before, found ++ after, by simp, found, after, rfl, h⟩

-- A stretch behind the only wildcard.
theorem matchesText_behind {cs ds : List Char} :
    matchesText same ('%' :: escaped cs) ds ↔ OccursLast same cs ds := by
  have ht : tokens? ('%' :: escaped cs) = some (.stretch :: (cs.map .char ++ [])) := by
    have := tokens?_escaped cs (r := []) (t := []) rfl
    simp_all
  rw [matchesText, ht]
  change someEnding (covers same (cs.map .char ++ [])) ds ↔ _
  simp only [someEnding_eq_true, covers_chars, covers, List.isEmpty_iff]
  constructor
  · rintro ⟨before, _, rfl, found, _, rfl, h, rfl⟩
    exact ⟨before, found, by simp, h⟩
  · rintro ⟨before, found, rfl, h⟩
    exact ⟨before, found, rfl, found, [], by simp, h, rfl⟩

end Like

namespace Engine

open Like

theorem postgres_like_containing (stretch text : String) :
    postgres.like (containing stretch) text ↔ stretch.toList <:+: text.toList := by
  rw [← occurs_beq, ← matchesText_within]
  simp [postgres, containing]

-- Escaping adds no NUL character and takes none away.
theorem mem_escaped (cs : List Char) : '\x00' ∈ escaped cs ↔ '\x00' ∈ cs := by
  induction cs with
  | nil => rfl
  | cons c cs ih =>
    rw [escaped_cons, List.mem_append, List.mem_cons, ih]
    split <;> simp

theorem mem_containing (stretch : String) : '\x00' ∈ (containing stretch).toList ↔ '\x00' ∈ stretch.toList := by
  simp [containing, mem_escaped]

theorem takeWhile_escaped (cs : List Char) :
    (escaped cs).takeWhile (· ≠ '\x00') = escaped (cs.takeWhile (· ≠ '\x00')) := by
  induction cs with
  | nil => rfl
  | cons c cs ih =>
    rw [escaped_cons]
    by_cases hc : c = '\x00'
    case pos => simp [hc, escaped]
    case neg =>
      rw [List.takeWhile_cons_of_pos (by simpa using hc), escaped_cons, ← ih]
      split <;> simp [hc]

theorem beforeNul_containing (stretch : String) :
    beforeNul (containing stretch) =
      if '\x00' ∈ stretch.toList then '%' :: escaped (beforeNul stretch)
      else '%' :: escaped stretch.toList ++ ['%'] := by
  have hm := mem_escaped stretch.toList
  have ht := takeWhile_escaped stretch.toList
  simp only [beforeNul, containing, String.toList_ofList]
  split
  case isTrue h =>
    have hne : ((escaped stretch.toList).takeWhile (· ≠ '\x00')).length ≠
        (escaped stretch.toList).length := by
      intro hl
      have := (List.takeWhile_prefix (· ≠ '\x00')).eq_of_length hl
      simpa using List.takeWhile_eq_self_iff.mp this '\x00' (hm.mpr h)
    rw [List.cons_append, List.takeWhile_cons_of_pos (by decide), List.takeWhile_append,
      if_neg hne, ht]
  case isFalse h =>
    rw [List.takeWhile_eq_self_iff]
    intro c hc
    have hne : c ∈ escaped stretch.toList → c ≠ '\x00' := fun hc heq => h (hm.mp (heq ▸ hc))
    simp only [List.cons_append, List.mem_cons, List.mem_append, List.not_mem_nil, or_false] at hc
    rcases hc with rfl | hc | rfl
    · decide
    · simpa using hne hc
    · decide

theorem sqlite_like_containing (stretch text : String) :
    sqlite.like (containing stretch) text ↔
      if '\x00' ∈ stretch.toList then
        OccursLast seenAlike (beforeNul stretch) (beforeNul text)
      else Occurs seenAlike stretch.toList (beforeNul text) := by
  simp only [sqlite, beforeNul_containing]
  split
  case isTrue => exact matchesText_behind
  case isFalse => exact matchesText_within

end Engine

end MediaCatalog.Sql
