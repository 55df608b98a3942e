import MediaCatalog.Proofs.Config.Reference

namespace MediaCatalog.Config

open Reference

-- A stretch in front of a text, where no reference starts within the stretch.
def IsLiteral (stretch rest : List Char) : Prop :=
  ∀ before after, stretch = before ++ after → after ≠ [] → ¬Opens (after ++ rest)

-- References, each with the stretch in front of it, and the stretch behind them.
structure Division where
  parts : List (List Char × Reference)
  last  : List Char
  deriving DecidableEq

-- The division of a text by its references, where each is the first one that starts behind the one before.
inductive Divides : List Char → Division → Prop
  | last {stretch : List Char} (literal : IsLiteral stretch []) : Divides stretch ⟨[], stretch⟩
  | reference {stretch rest : List Char} {r : Reference} {d : Division} (literal : IsLiteral stretch (r.chars ++ rest))
    (plain : r.IsPlain) (divides : Divides rest d) :
    Divides (stretch ++ r.chars ++ rest) ⟨(stretch, r) :: d.parts, d.last⟩

-- The text with values in place of the references.
def Division.filled (d : Division) (values : List String) : List Char :=
  (List.zipWith (fun part value => part.1 ++ value.toList) d.parts values).flatten ++ d.last

-- One more character in the first stretch.
def Division.cons (c : Char) : Division → Division
  | ⟨[], last⟩                    => ⟨[], c :: last⟩
  | ⟨(stretch, r) :: parts, last⟩ => ⟨(c :: stretch, r) :: parts, last⟩

namespace Piece

-- The pieces of a division: every character of a stretch is one of its own.
def ofDivision (d : Division) : List Piece :=
  d.parts.flatMap (fun part => part.1.map char ++ [reference part.2]) ++ d.last.map char

-- The division that pieces make up.
def division : List Piece → Division
  | []                => ⟨[], []⟩
  | reference r :: ps => ⟨([], r) :: (division ps).parts, (division ps).last⟩
  | char c :: ps      => (division ps).cons c

theorem division_append_reference (stretch : List Char) (r : Reference) (ps : List Piece) :
    division (stretch.map char ++ reference r :: ps) =
      ⟨(stretch, r) :: (division ps).parts, (division ps).last⟩ := by
  induction stretch with
  | nil => rfl
  | cons c stretch ih =>
    rw [List.map_cons, List.cons_append, division, ih]
    rfl

theorem division_last (stretch : List Char) : division (stretch.map char) = ⟨[], stretch⟩ := by
  induction stretch with
  | nil => rfl
  | cons c stretch ih =>
    rw [List.map_cons, division, ih]
    rfl

theorem division_ofDivision (d : Division) : division (ofDivision d) = d := by
  obtain ⟨parts, last⟩ := d
  rw [ofDivision]
  induction parts with
  | nil => exact division_last last
  | cons part parts ih =>
    rw [List.flatMap_cons, List.append_assoc, List.append_assoc, List.singleton_append, division_append_reference, ih]

end Piece

section Division

variable {cs stretch rest : List Char} {r : Reference} {d : Division}

theorem ofChars_reference (hr : r.IsPlain) (rest : List Char) :
    Piece.ofChars (r.chars ++ rest) = .reference r :: Piece.ofChars rest := by
  have hread : reference? (r.chars ++ rest) = some (r, rest) := reference?_eq_some_iff.mpr ⟨hr, rfl⟩
  rw [Piece.ofChars]
  split
  case h_1 h =>
    cases hread.symm.trans h
    rfl
  case h_2 h => cases hread.symm.trans h

theorem ofChars_char {c : Char} (h : ¬Opens (c :: cs)) : Piece.ofChars (c :: cs) = .char c :: Piece.ofChars cs := by
  rw [opens_iff, not_not] at h
  rw [Piece.ofChars]
  split
  case h_1 hread => cases h.symm.trans hread
  case h_2 => rfl

theorem IsLiteral.tail {c : Char} (h : IsLiteral (c :: stretch) rest) :
    ¬Opens (c :: stretch ++ rest) ∧ IsLiteral stretch rest :=
  ⟨h [] _ rfl (List.cons_ne_nil c stretch), fun before after heq => h (c :: before) after (by rw [heq]; rfl)⟩

theorem IsLiteral.cons {c : Char} (hc : ¬Opens (c :: stretch ++ rest)) (h : IsLiteral stretch rest) :
    IsLiteral (c :: stretch) rest := by
  intro before after heq hne
  cases before with
  | nil =>
    rw [List.nil_append] at heq
    exact heq ▸ hc
  | cons b before =>
    cases heq
    exact h before after rfl hne

theorem isLiteral_nil : IsLiteral [] rest := by
  intro before after heq hne
  exact absurd (List.append_eq_nil_iff.mp heq.symm).2 hne

-- A stretch where no reference starts is read character by character.
theorem ofChars_literal (h : IsLiteral stretch rest) :
    Piece.ofChars (stretch ++ rest) = stretch.map .char ++ Piece.ofChars rest := by
  induction stretch with
  | nil => rfl
  | cons c stretch ih =>
    have ⟨hc, h⟩ := h.tail
    rw [List.cons_append] at hc ⊢
    rw [ofChars_char hc, ih h]
    rfl

theorem Divides.ofChars_eq (h : Divides cs d) : Piece.ofChars cs = Piece.ofDivision d := by
  induction h with
  | @last stretch hliteral =>
    have hend : Piece.ofChars [] = [] := by rw [Piece.ofChars]; rfl
    have hchars := ofChars_literal hliteral
    rw [List.append_nil, hend, List.append_nil] at hchars
    rw [hchars]
    rfl
  | reference hliteral hr _ ih =>
    rw [List.append_assoc, ofChars_literal hliteral, ofChars_reference hr, ih]
    simp [Piece.ofDivision]

theorem Divides.cons {c : Char} (hc : ¬Opens (c :: cs)) (h : Divides cs d) : Divides (c :: cs) (d.cons c) := by
  cases h with
  | last hliteral =>
    refine .last (hliteral.cons ?_)
    rwa [List.cons_append, List.append_nil]
  | reference hliteral hr h =>
    refine .reference (hliteral.cons ?_) hr h
    rwa [List.cons_append, ← List.append_assoc]

theorem divides_division (cs : List Char) : Divides cs (Piece.division (Piece.ofChars cs)) := by
  fun_induction Piece.ofChars cs with
  | case1 cs r rest hread ih =>
    obtain ⟨hr, rfl⟩ := reference?_eq_some_iff.mp hread
    exact .reference isLiteral_nil hr ih
  | case2 => exact .last isLiteral_nil
  | case3 c cs hread ih => exact ih.cons fun hopens => opens_iff.mp hopens hread

-- Each text has one division.
theorem divides_iff : Divides cs d ↔ d = Piece.division (Piece.ofChars cs) := by
  constructor
  · intro h
    rw [h.ofChars_eq, Piece.division_ofDivision]
  · rintro rfl
    exact divides_division cs

end Division

section Values

variable {env : Environment} {cs stretch rest : List Char} {r : Reference} {d : Division}

-- What pieces come to one after the other.
def expandPieces (env : Environment) (ps : List Piece) : Except String (List Char) := do
  return (← ps.mapM (Piece.value env)).flatten

theorem expand_eq (env : Environment) (text : String) :
    expand env text = .ofList <$> expandPieces env (Piece.ofChars text.toList) := by
  rw [expand, expandPieces]
  cases (Piece.ofChars text.toList).mapM (Piece.value env) <;> rfl

theorem expandPieces_char (c : Char) (ps : List Piece) :
    expandPieces env (.char c :: ps) = (c :: ·) <$> expandPieces env ps := by
  rw [expandPieces, expandPieces, List.mapM_cons]
  cases ps.mapM (Piece.value env) <;> rfl

theorem expandPieces_reference (r : Reference) (ps : List Piece) :
    expandPieces env (.reference r :: ps) =
      r.value env >>= fun value => (value.toList ++ ·) <$> expandPieces env ps := by
  rw [expandPieces, expandPieces, List.mapM_cons, Piece.value]
  cases r.value env with
  | error => rfl
  | ok value => cases ps.mapM (Piece.value env) <;> rfl

theorem expandPieces_stretch (stretch : List Char) (ps : List Piece) :
    expandPieces env (stretch.map .char ++ ps) = (stretch ++ ·) <$> expandPieces env ps := by
  induction stretch with
  | nil => exact (id_map _).symm
  | cons c stretch ih =>
    rw [List.map_cons, List.cons_append, expandPieces_char, ih, Functor.map_map]
    rfl

-- What a division comes to when there is something in place of each reference.
theorem expandPieces_ofDivision (d : Division) :
    expandPieces env (Piece.ofDivision d) = d.filled <$> d.parts.mapM (fun part => part.2.value env) := by
  obtain ⟨parts, last⟩ := d
  rw [Piece.ofDivision]
  induction parts with
  | nil =>
    have h : expandPieces env (last.map .char ++ []) = (last ++ ·) <$> expandPieces env [] :=
      expandPieces_stretch last []
    rw [List.append_nil] at h
    rw [List.flatMap_nil, List.nil_append, h]
    simp [expandPieces, Division.filled]
  | cons part parts ih =>
    rw [List.flatMap_cons, List.append_assoc, List.append_assoc, List.singleton_append, expandPieces_stretch,
      expandPieces_reference, ih, List.mapM_cons]
    cases part.2.value env with
    | error => rfl
    | ok value =>
      cases parts.mapM (fun part => part.2.value env) with
      | error => rfl
      | ok values => simp [Division.filled, Except.ok_bind]

theorem expand_of_divides {text : String} (h : Divides text.toList d) :
    expand env text = (String.ofList ∘ d.filled) <$> d.parts.mapM (fun part => part.2.value env) := by
  rw [expand_eq, h.ofChars_eq, expandPieces_ofDivision, Functor.map_map]
  rfl

theorem expand_eq_ok {text s : String} (h : Divides text.toList d) : expand env text = .ok s ↔
    ∃ values, List.Forall₂ (fun part value => part.2.Gives env value) d.parts values ∧
      .ofList (d.filled values) = s := by
  simp only [expand_of_divides h, Except.map_eq_ok, List.mapM_eq_ok, value_eq_ok, Function.comp_apply]

theorem expand_eq_error {text name : String} (h : Divides text.toList d) : expand env text = .error name ↔
    ∃ before part after, d.parts = before ++ part :: after ∧ (∀ p ∈ before, ∃ value, p.2.Gives env value) ∧
      part.2.Lacks env ∧ part.2.name = name := by
  simp only [expand_of_divides h, ← value_eq_ok, ← value_eq_error, ← List.mapM_eq_error_iff]
  cases d.parts.mapM (fun part => part.2.value env) <;> simp [Functor.map, Except.map]

theorem expand_literal (h : IsLiteral stretch rest) :
    expand env (.ofList (stretch ++ rest)) = (.ofList stretch ++ ·) <$> expand env (.ofList rest) := by
  rw [expand_eq, expand_eq, String.toList_ofList, String.toList_ofList, ofChars_literal h, expandPieces_stretch]
  simp only [Functor.map_map, String.ofList_append]

-- No reference starts at the dollar sign or at the brace behind it.
theorem IsMalformed.isLiteral (h : IsMalformed cs) : IsLiteral openChars cs := by
  refine .cons (isMalformed_iff.mp h) (.cons ?_ isLiteral_nil)
  rintro ⟨r, rest, -, heq⟩
  cases heq

end Values

-- A text has one division, and its expansion is the text with something in place of each reference: the value of its
-- variable, which may be empty, or else its default, of which nothing is read again. It fails if and only if there is
-- a reference that has neither, and then the first such reference is told. A text without references stays as it is,
-- and so does an opening that is malformed, while what follows is expanded as if it stood alone.
theorem expand_fills_division (env : Environment) (text : String) :
    (∃! d, Divides text.toList d) ∧
    (∀ d, Divides text.toList d →
      (∀ s, expand env text = .ok s ↔
        ∃ values, List.Forall₂ (fun part value => part.2.Gives env value) d.parts values ∧
          .ofList (d.filled values) = s) ∧
      ((∃ name, expand env text = .error name) ↔ ∃ part ∈ d.parts, part.2.Lacks env) ∧
      ∀ name, expand env text = .error name ↔ ∃ before part after, d.parts = before ++ part :: after ∧
        (∀ p ∈ before, ¬p.2.Lacks env) ∧ part.2.Lacks env ∧ part.2.name = name) ∧
    (∀ name, expand env text = .error name → ofText env text = .error (.unsetVariable name)) ∧
    (IsLiteral text.toList [] → expand env text = .ok text) ∧
    ∀ cs, (IsMalformed cs ↔ ¬Opens (openChars ++ cs)) ∧ (IsMalformed cs →
      expand env (.ofList (openChars ++ cs)) = (.ofList openChars ++ ·) <$> expand env (.ofList cs)) := by
  have hfirst {d : Division} (hd : Divides text.toList d) (name : String) : expand env text = .error name ↔
      ∃ before part after, d.parts = before ++ part :: after ∧ (∀ p ∈ before, ¬p.2.Lacks env) ∧
        part.2.Lacks env ∧ part.2.name = name := by
    simp only [expand_eq_error hd, exists_gives_iff]
  refine ⟨?unique, fun d hd => ⟨fun s => expand_eq_ok hd, ?fails, hfirst hd⟩, fun name hname => ?told,
    fun hliteral => ?literal, fun cs => ⟨isMalformed_iff, fun hcs => expand_literal hcs.isLiteral⟩⟩
  case unique => exact ⟨_, divides_division _, fun d hd => divides_iff.mp hd⟩
  case fails =>
    constructor
    · rintro ⟨name, hname⟩
      obtain ⟨before, part, after, hparts, -, hlacks, -⟩ := (hfirst hd name).mp hname
      exact ⟨part, hparts ▸ by simp, hlacks⟩
    · rintro ⟨part, hpart, hlacks⟩
      cases hresult : expand env text with
      | error name => exact ⟨name, rfl⟩
      | ok s =>
        obtain ⟨values, hgives, -⟩ := (expand_eq_ok hd).mp hresult
        obtain ⟨value, -, hvalue⟩ := hgives.flip.exists_of_mem part hpart
        exact absurd hlacks (exists_gives_iff.mp ⟨value, hvalue⟩)
  case told =>
    rw [ofText, hname]
    rfl
  case literal =>
    have hd : Divides text.toList ⟨[], text.toList⟩ := .last hliteral
    exact (expand_eq_ok hd).mpr ⟨[], .nil, by simp [Division.filled]⟩

-- An opening without a name and a reference whose default holds another opening; neither the value nor the default is
-- read again.
theorem expand_fills_division_nested :
    let env : Environment := fun name => if name = "A" then some "$\x7bB\x7d" else none
    let text := "$\x7b1$\x7bA\x7d:$\x7bB:-$\x7bC\x7d\x7d"
    let d : Division := ⟨[("$\x7b1".toList, ⟨"A", none⟩), ([':'], ⟨"B", some "$\x7bC"⟩)], ['\x7d']⟩
    Divides text.toList d ∧ expand env text = .ok "$\x7b1$\x7bB\x7d:$\x7bC\x7d" ∧
      expand (fun _ => none) text = .error "A" := by
  intro env text d
  have hd : Divides text.toList d := divides_iff.mpr (by decide +kernel)
  obtain ⟨_, hexpands, _⟩ := expand_fills_division env text
  obtain ⟨_, hunset, _⟩ := expand_fills_division (fun _ => none) text
  obtain ⟨hok, _⟩ := hexpands d hd
  obtain ⟨_, _, hfirst⟩ := hunset d hd
  refine ⟨hd, (hok _).mpr ⟨["$\x7bB\x7d", "$\x7bC"], ?gives, by decide⟩, (hfirst "A").mpr ?lacks⟩
  case gives => exact .cons (.value (by decide)) (.cons (.default (by decide) rfl) .nil)
  case lacks => exact ⟨[], _, _, rfl, nofun, ⟨rfl, rfl⟩, rfl⟩

end MediaCatalog.Config
