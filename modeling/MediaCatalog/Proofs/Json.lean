import MediaCatalog.Json.Reader
import MediaCatalog.Sql.Engine

namespace MediaCatalog.Json

section Text

theorem digitValue?_hexDigit : ∀ n < 16, Text.digitValue? (hexDigit n) = some n := by
  decide

-- A control character without an escape of its own is written with four digits.
theorem digitsIn?_hexDigit {n : Nat} (h : n < 0x20) :
    Text.digitsIn? 16 ['0', '0', hexDigit (n / 16), hexDigit (n % 16)] = some n := by
  have hhigh := digitValue?_hexDigit (n / 16) (by omega)
  have hlow := digitValue?_hexDigit (n % 16) (by omega)
  have hzero : Text.digitValue? '0' = some 0 := rfl
  have hm : n % 16 < 16 := Nat.mod_lt _ (by decide)
  have hd : n / 16 < 16 := by omega
  simp [Text.digitsIn?, hzero, hhigh, hlow, Option.filter, hm, hd, Nat.div_add_mod]

section

attribute [local simp] stringEnd?

theorem stringEnd?_escapee {c d : Char} (cs : List Char) (h : escapee? c = some d) :
    stringEnd? ('\\' :: c :: cs) = (stringEnd? cs).map fun (s, rest) => (d :: s, rest) := by
  have hu : c ≠ 'u' := by
    rintro rfl
    cases h
  cases hs : stringEnd? cs <;> simp [hu, h, hs]

theorem stringEnd?_plain {c : Char} (cs : List Char) (hq : c ≠ '"') (hb : c ≠ '\\')
    (hc : ¬c.toNat < 0x20) :
    stringEnd? (c :: cs) = (stringEnd? cs).map fun (s, rest) => (c :: s, rest) := by
  simp [hb, hc]

end

-- An escape with digits stands for its character unless it is half of a pair of surrogates.
theorem stringEnd?_unicode {a b c d : Char} {n : Nat} (cs : List Char)
    (h : Text.digitsIn? 16 [a, b, c, d] = some n) (hn : n < 0xD800) :
    stringEnd? ('\\' :: 'u' :: a :: b :: c :: d :: cs) =
      (stringEnd? cs).map fun (s, rest) => (.ofNat n :: s, rest) := by
  have hl : isLowSurrogate n = false := by simp [isLowSurrogate]; omega
  have hh : isHighSurrogate n = false := by simp [isHighSurrogate]; omega
  rw [stringEnd?.eq_def]
  split
  case h_3 heq =>
    cases heq
    simp only [h, hl, hh, Option.bind_eq_bind, Option.bind_some, Option.map_eq_bind]
    rfl
  case h_4 heq =>
    cases heq
    simp only [h, hl, hh, Option.bind_eq_bind, Option.bind_some, Option.map_eq_bind]
    rfl
  case h_5 hne heq =>
    simp only [List.cons.injEq, true_and] at heq
    exact absurd heq.2.symm (hne a b c d cs heq.1.symm)
  case h_6 hne heq =>
    simp only [List.cons.injEq] at heq
    exact absurd heq.2.symm (hne 'u' _ heq.1.symm)
  all_goals simp_all

-- Every character reads back from its escape.
theorem stringEnd?_escaped (c : Char) (cs : List Char) :
    stringEnd? (escaped c ++ cs) = (stringEnd? cs).map fun (s, rest) => (c :: s, rest) := by
  unfold escaped
  iterate 7
    split
    case isTrue hc => subst hc; exact stringEnd?_escapee cs rfl
  split
  case isTrue hc =>
    have := stringEnd?_unicode cs (digitsIn?_hexDigit hc) (by omega)
    simpa [Char.ofNat_toNat] using this
  case isFalse hc => exact stringEnd?_plain cs ‹_› ‹_› hc

theorem stringEnd?_quoted (cs rest : List Char) :
    stringEnd? (cs.flatMap escaped ++ '"' :: rest) = some (cs, rest) := by
  induction cs with
  | nil => simp [stringEnd?]
  | cons c cs ih => simp [stringEnd?_escaped, ih]

end Text

-- What may stand behind a value: nothing, or what parts it from the next value or closes what it is in.
def ClosesItem (cs : List Char) : Prop :=
  ∀ c ∈ cs.head?, c = ',' ∨ c = ']' ∨ c = '\x7d'

section Numbers

theorem head?_toDigits {n : Nat} (h : n ≠ 0) : (Nat.toDigits 10 n).head? ≠ some '0' := by
  induction n using Nat.strongRecOn with
  | ind n ih =>
    rw [Nat.toDigits_eq_if (by decide)]
    split
    case isTrue hn =>
      have hdigit : ∀ m < 10, m ≠ 0 → m.digitChar ≠ '0' := by decide
      simpa using hdigit n hn h
    case isFalse hn =>
      have hhead := ih (n / 10) (by omega) (by omega)
      cases hd : Nat.toDigits 10 (n / 10) with
      | nil => exact absurd hd Nat.toDigits_ne_nil
      | cons c cs => simpa [hd] using hhead

-- Digits are read up to the end of the number.
theorem digits?_toDigits (n : Nat) {rest : List Char} (h : ClosesItem rest) :
    digits? (Nat.toDigits 10 n ++ rest) = some (Nat.toDigits 10 n, rest) := by
  have hdigits : ∀ c ∈ Nat.toDigits 10 n, c.isDigit :=
    fun _ hc => Nat.isDigit_of_mem_toDigits (by decide) (by decide) hc
  have hrest : rest.takeWhile Char.isDigit = [] ∧ rest.dropWhile Char.isDigit = rest := by
    cases rest with
    | nil => exact ⟨rfl, rfl⟩
    | cons c cs => rcases h c rfl with rfl | rfl | rfl <;> exact ⟨rfl, rfl⟩
  rw [digits?, List.takeWhile_append_of_pos hdigits, List.dropWhile_append_of_pos hdigits, hrest.1, hrest.2]
  simp [Nat.toDigits_ne_nil]

theorem unsigned?_toDigits (negative : Bool) (n : Nat) {rest : List Char} (h : ClosesItem rest)
    (hn : negative = true → n ≠ 0)
    (hvalue : Int64.minValue.toInt ≤ (if negative then -(n : Int) else n) ∧
      (if negative then -(n : Int) else n) < UInt64.size) :
    unsigned? negative (Nat.toDigits 10 n ++ rest) = some (int (if negative then -(n : Int) else n), rest) := by
  have hfraction : fraction? rest = some ([], rest) := by
    rcases rest with _ | ⟨c, cs⟩
    · rfl
    · rcases h c rfl with rfl | rfl | rfl <;> rfl
  have hexponent : exponent? rest = some (none, rest) := by
    rcases rest with _ | ⟨c, cs⟩
    · rfl
    · rcases h c rfl with rfl | rfl | rfl <;> rfl
  have hleading : ((Nat.toDigits 10 n).length > 1 && (Nat.toDigits 10 n).head? == some '0') = false := by
    by_cases hzero : n = 0
    · subst hzero
      rfl
    · simp [head?_toDigits hzero]
  have hzero : (negative && n == 0) = false := by
    cases negative
    · rfl
    · simpa using hn rfl
  rw [unsigned?, digits?_toDigits n h]
  simp only [Option.bind_eq_bind, Option.bind_some, hleading, Bool.false_eq_true, if_false, hfraction, hexponent,
    Nat.ofDigitChars_ten_toDigits, List.isEmpty_nil, Option.isNone_none, Bool.true_and, hzero, Bool.not_false,
    Bool.and_true, decide_eq_true hvalue.1, decide_eq_true hvalue.2, if_true]

theorem number?_decimalChars {n : Int} {rest : List Char} (h : ClosesItem rest)
    (hn : Int64.minValue.toInt ≤ n ∧ n < UInt64.size) :
    number? (Text.decimalChars n ++ rest) = some (int n, rest) := by
  cases n with
  | ofNat n =>
    have hdigit : ∀ c ∈ Nat.toDigits 10 n, c ≠ '-' := by
      rintro c hc rfl
      cases Nat.isDigit_of_mem_toDigits (by decide) (by decide) hc
    have hread := unsigned?_toDigits false n h (by simp) hn
    rw [Text.decimalChars]
    unfold number?
    split
    case h_1 heq =>
      cases hd : Nat.toDigits 10 n with
      | nil => exact absurd hd Nat.toDigits_ne_nil
      | cons c cs =>
        rw [hd] at heq
        cases heq
        exact absurd rfl (hdigit '-' (by simp [hd]))
    case h_2 => exact hread
  | negSucc n =>
    have hread := unsigned?_toDigits true (n + 1) h (by simp) (by simpa [Int.negSucc_eq] using hn)
    simpa [Text.decimalChars, number?, Int.negSucc_eq] using hread

end Numbers

section Items

variable {α : Type} {item? : List Char → Option (α × Rest)} {written : α → List Char}

-- A reader that reads what is written for an item, wherever that stands.
structure Reads (item? : List Char → Option (α × Rest)) (written : α → List Char) (x : α) : Prop where
  visible : ∃ c rest, written x = c :: rest ∧ !isSpace c ∧ c ≠ ']' ∧ c ≠ '\x7d'
  read    : ∀ rest, ClosesItem rest → item? (written x ++ rest) = some (x, rest)

-- Items with commas between and the closing character.
def listed (written : α → List Char) (close : Char) (first : Bool) : List α → List Char
  | []      => [close]
  | x :: xs => (if first then [] else [',']) ++ written x ++ listed written close false xs

theorem itemChars_eq_listed (js : List Json) (first : Bool) :
    itemChars first js = listed chars ']' first js := by
  induction js generalizing first with
  | nil => rfl
  | cons j js ih => rw [itemChars, listed, ih]

-- What is written for a member of an object.
def memberText (m : String × Json) : List Char :=
  quoted m.1 ++ ':' :: m.2.chars

theorem memberChars_eq_listed (ms : List (String × Json)) (first : Bool) :
    memberChars first ms = listed memberText '\x7d' first ms := by
  induction ms generalizing first with
  | nil => rfl
  | cons m ms ih => simp [memberChars, listed, memberText, ih]

variable {close : Char} (hclose : close = ']' ∨ close = '\x7d')

theorem Reads.skip_written {x : α} (h : Reads item? written x) (rest : List Char) :
    skip (written x ++ rest) = written x ++ rest := by
  have ⟨c, cs, hc, hs, _⟩ := h.visible
  simp only [Bool.not_eq_true'] at hs
  simp [skip, hc, hs]

include hclose

theorem closesItem_listed (xs : List α) (rest : List Char) :
    ClosesItem (listed written close false xs ++ rest) := by
  cases xs with
  | nil => rcases hclose with rfl | rfl <;> simp [ClosesItem, listed]
  | cons x xs => simp [ClosesItem, listed]

theorem skip_close (rest : List Char) : skip (close :: rest) = close :: rest := by
  rcases hclose with rfl | rfl <;> rfl

theorem items?_listed (x : α) (xs : List α) (h : ∀ y ∈ x :: xs, Reads item? written y) (rest : List Char) {n : Nat}
    (hn : xs.length < n) :
    items? close item? n (written x ++ (listed written close false xs ++ rest)) = some (x :: xs, rest) := by
  induction xs generalizing x n with
  | nil =>
    obtain ⟨n, rfl⟩ := Nat.exists_eq_succ_of_ne_zero (Nat.ne_of_gt hn)
    have hx := h x (by simp)
    have hr := hx.read (listed written close false [] ++ rest) (closesItem_listed hclose [] rest)
    rw [items?, hx.skip_written, hr]
    simp [listed, skip_close hclose]
  | cons y ys ih =>
    obtain ⟨n, rfl⟩ := Nat.exists_eq_succ_of_ne_zero (Nat.ne_of_gt (Nat.zero_lt_of_lt hn))
    have hx := h x (by simp)
    have hr := hx.read (listed written close false (y :: ys) ++ rest) (closesItem_listed hclose (y :: ys) rest)
    have hy := ih y (fun z hz => h z (List.mem_cons_of_mem x hz)) (Nat.lt_of_succ_lt_succ hn)
    have hcomma : (',' = close) = False := by rcases hclose with rfl | rfl <;> simp
    rw [items?, hx.skip_written, hr]
    simp [listed, skip, isSpace, hcomma, hy]

theorem sequence?_listed (xs : List α) (h : ∀ x ∈ xs, Reads item? written x) (rest : List Char) :
    sequence? close item? (listed written close true xs ++ rest) = some (xs, rest) := by
  cases xs with
  | nil => simp [sequence?, listed, skip_close hclose]
  | cons x xs =>
    have hx := h x (by simp)
    have ⟨c, cs, hc, _, hb⟩ := hx.visible
    have hl : (listed written close false xs).length > xs.length := by
      clear h
      induction xs with
      | nil => simp [listed]
      | cons x xs ih => simp [listed]; omega
    have hi := items?_listed hclose x xs h rest (n := (written x ++ (listed written close false xs ++ rest)).length)
      (by simp only [List.length_append]; omega)
    have hne : c ≠ close := by rcases hclose with rfl | rfl <;> simp [hb]
    simp only [listed, if_true, List.nil_append, List.append_assoc]
    rw [sequence?, hx.skip_written]
    simp only [hc, List.cons_append, if_neg hne] at hi ⊢
    exact hi

end Items

section Values

mutual

-- How deep arrays and objects are nested.
def depth : Json → Nat
  | arr items                              => itemsDepth items + 1
  | obj members                            => membersDepth members + 1
  | null | bool _ | int _ | real _ | str _ => 0

def itemsDepth : List Json → Nat
  | []      => 0
  | j :: js => max (depth j) (itemsDepth js)

def membersDepth : List (String × Json) → Nat
  | []           => 0
  | (_, j) :: ms => max (depth j) (membersDepth ms)

end

mutual

-- A value without fractions whose numbers fit 64 bits with or without a sign.
def IsWhole : Json → Prop
  | int n                   => Int64.minValue.toInt ≤ n ∧ n < UInt64.size
  | real _                  => False
  | arr items               => AreWhole items
  | obj members             => AreWholeMembers members
  | null | bool _ | str _   => True

def AreWhole : List Json → Prop
  | []      => True
  | j :: js => IsWhole j ∧ AreWhole js

def AreWholeMembers : List (String × Json) → Prop
  | []           => True
  | (_, j) :: ms => IsWhole j ∧ AreWholeMembers ms

end

theorem areWhole_iff {js : List Json} : AreWhole js ↔ ∀ j ∈ js, j.IsWhole := by
  induction js with
  | nil => simp [AreWhole]
  | cons j js ih => rw [AreWhole, ih, List.forall_mem_cons]

theorem areWholeMembers_iff {ms : List (String × Json)} : AreWholeMembers ms ↔ ∀ m ∈ ms, m.2.IsWhole := by
  induction ms with
  | nil => simp [AreWholeMembers]
  | cons m ms ih => rw [AreWholeMembers, ih, List.forall_mem_cons]

theorem itemsDepth_le {js : List Json} {n : Nat} : itemsDepth js ≤ n ↔ ∀ j ∈ js, j.depth ≤ n := by
  induction js with
  | nil => simp [itemsDepth]
  | cons j js ih => rw [itemsDepth, Nat.max_le, ih, List.forall_mem_cons]

theorem membersDepth_le {ms : List (String × Json)} {n : Nat} :
    membersDepth ms ≤ n ↔ ∀ m ∈ ms, m.2.depth ≤ n := by
  induction ms with
  | nil => simp [membersDepth]
  | cons m ms ih => rw [membersDepth, Nat.max_le, ih, List.forall_mem_cons]

section Atoms

variable {d : Nat} {c : Char} {cs rest : List Char}

-- Only a bracket opens a value that holds other values.
theorem value?_eq_atom? (ha : c ≠ '[') (ho : c ≠ '\x7b') : value? d (c :: cs) = atom? (c :: cs) := by
  unfold value?
  split
  case h_1 heq => exact absurd (List.cons.inj heq).1 ha
  case h_2 heq => exact absurd (List.cons.inj heq).1 ho
  case h_3 => rfl

theorem decimalChars_eq (n : Int) : ∃ c cs, Text.decimalChars n = c :: cs ∧ (c.isDigit ∨ c = '-') := by
  cases n with
  | ofNat n =>
    cases hd : Nat.toDigits 10 n with
    | nil => exact absurd hd Nat.toDigits_ne_nil
    | cons c cs =>
      exact ⟨c, cs, hd, .inl (Nat.isDigit_of_mem_toDigits (by decide) (by decide) (hd ▸ List.mem_cons_self))⟩
  | negSucc n => exact ⟨'-', _, rfl, .inr rfl⟩

theorem atom?_eq_number? (hc : c.isDigit ∨ c = '-') : atom? (c :: cs) = number? (c :: cs) := by
  unfold atom?
  split
  case h_5 => rfl
  all_goals
    rename_i heq
    rw [(List.cons.inj heq).1] at hc
    rcases hc with hc | hc <;> cases hc

end Atoms

-- A value that holds no other values is read at every depth.
def IsAtom : Json → Prop
  | arr _ | obj _ => False
  | _             => True

theorem reads_atom {d : Nat} {j : Json} (ha : j.IsAtom) (hw : j.IsWhole) : Reads (value? d) chars j := by
  cases j with
  | null =>
    refine ⟨⟨'n', ['u', 'l', 'l'], rfl, rfl, by decide, by decide⟩, fun rest _ => ?_⟩
    exact value?_eq_atom? (by decide) (by decide)
  | bool b =>
    cases b
    case false =>
      refine ⟨⟨'f', ['a', 'l', 's', 'e'], rfl, rfl, by decide, by decide⟩, fun rest _ => ?_⟩
      exact value?_eq_atom? (by decide) (by decide)
    case true =>
      refine ⟨⟨'t', ['r', 'u', 'e'], rfl, rfl, by decide, by decide⟩, fun rest _ => ?_⟩
      exact value?_eq_atom? (by decide) (by decide)
  | int n =>
    have ⟨c, cs, hcs, hc⟩ := decimalChars_eq n
    have hnone : [' ', '\n', '\r', '\t', ']', '\x7d', '[', '\x7b'].all fun x => !(x.isDigit || x == '-') := by
      decide
    have hother : ∀ x ∈ [' ', '\n', '\r', '\t', ']', '\x7d', '[', '\x7b'], c ≠ x := by
      rintro x hx rfl
      have hneither := List.all_eq_true.mp hnone c hx
      rw [Bool.not_eq_true', Bool.or_eq_false_iff, beq_eq_false_iff_ne] at hneither
      rcases hc with hc | hc
      · exact Bool.false_ne_true (hneither.1.symm.trans hc)
      · exact hneither.2 hc
    simp only [List.forall_mem_cons] at hother
    refine ⟨⟨c, cs, hcs, ?_, ?_, ?_⟩, fun rest hrest => ?_⟩
    · simp [isSpace, hother]
    · exact hother.2.2.2.2.1
    · exact hother.2.2.2.2.2.1
    · have hread := number?_decimalChars hrest hw
      rw [hcs] at hread
      rw [chars, hcs, List.cons_append, value?_eq_atom? hother.2.2.2.2.2.2.1 hother.2.2.2.2.2.2.2.1,
        atom?_eq_number? hc]
      exact hread
  | str t =>
    refine ⟨⟨'"', _, rfl, rfl, by decide, by decide⟩, fun rest _ => ?_⟩
    have hread := stringEnd?_quoted t.toList rest
    refine (value?_eq_atom? (by decide) (by decide)).trans ?_
    simp [atom?, hread, String.ofList_toList]
  | real | arr | obj => first | exact hw.elim | exact ha.elim

theorem reads_member {d : Nat} {m : String × Json} (h : Reads (value? d) chars m.2) :
    Reads (member? (value? d)) memberText m := by
  refine ⟨⟨'"', _, rfl, rfl, by decide, by decide⟩, fun rest hrest => ?_⟩
  have hkey := stringEnd?_quoted m.1.toList (':' :: (m.2.chars ++ rest))
  have hskip : skip (':' :: (m.2.chars ++ rest)) = ':' :: (m.2.chars ++ rest) := rfl
  simp [memberText, quoted, member?, hkey, hskip, h.skip_written, h.read rest hrest, String.ofList_toList]

-- A value reads back wherever nothing is nested deeper than is read.
theorem reads_value {d : Nat} {j : Json} (hd : j.depth ≤ d) (hw : j.IsWhole) : Reads (value? d) chars j := by
  induction d generalizing j with
  | zero =>
    refine reads_atom ?_ hw
    cases j <;> simp [depth] at hd <;> trivial
  | succ d ih =>
    cases j with
    | arr items =>
      have hitems := itemsDepth_le.mp (Nat.le_of_succ_le_succ hd)
      refine ⟨⟨'[', _, rfl, rfl, by decide, by decide⟩, fun rest _ => ?_⟩
      have hread := sequence?_listed (.inl rfl) items (fun j hj => ih (hitems j hj) (areWhole_iff.mp hw j hj)) rest
      simp [chars, value?, itemChars_eq_listed, hread]
    | obj members =>
      have hmembers := membersDepth_le.mp (Nat.le_of_succ_le_succ hd)
      refine ⟨⟨'\x7b', _, rfl, rfl, by decide, by decide⟩, fun rest _ => ?_⟩
      have hread := sequence?_listed (.inr rfl) members
        (fun m hm => reads_member (ih (hmembers m hm) (areWholeMembers_iff.mp hw m hm))) rest
      simp [chars, value?, memberChars_eq_listed, hread]
    | null | bool | int | real | str => exact reads_atom trivial hw

end Values

-- What is written for a value reads back as the value.
theorem read?_text {j : Json} (hd : j.depth ≤ maxDepth) (hw : j.IsWhole) : read? j.text = some j := by
  have hreads := reads_value hd hw
  have hread := hreads.read [] (by simp [ClosesItem])
  have hskip := hreads.skip_written []
  rw [List.append_nil] at hread hskip
  rw [read?, text, String.toList_ofList, hskip, hread]
  rfl

-- A list of texts reads back as the same list.
theorem read?_strs (l : List String) : read? (strs l).text = some (strs l) := by
  refine read?_text ?_ ?_
  · have hitems : itemsDepth (l.map str) ≤ 0 := itemsDepth_le.mpr (by simp [depth])
    rw [strs, depth]
    exact Nat.succ_le_succ (Nat.le_trans hitems (Nat.zero_le 126))
  · rw [strs, IsWhole, areWhole_iff]
    simp [IsWhole]

end MediaCatalog.Json

namespace MediaCatalog.Sql.Engine

-- SQLite sees the elements of a list in the JSON text that it holds for the list.
theorem Cell.elements_ofValue_list (l : List String) : (Cell.ofValue (.list l)).elements = l := by
  have hstr : (l.map Json.str).filterMap Json.str? = l := by
    simp [List.filterMap_map, Function.comp_def, Json.str?]
  rw [ofValue, elements, Json.read?_strs]
  exact hstr

end MediaCatalog.Sql.Engine
