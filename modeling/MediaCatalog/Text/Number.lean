namespace MediaCatalog.Text

-- The value of a run of digits, which must not be empty.
def digits? (cs : List Char) : Option Nat :=
  if cs ≠ [] ∧ cs.all Char.isDigit then some (Nat.ofDigitChars 10 cs 0) else none

-- The value of a digit; letters of either case go on where decimal digits end.
def digitValue? (c : Char) : Option Nat :=
  if c.isDigit then some (c.toNat - '0'.toNat)
  else if 'a' ≤ c ∧ c ≤ 'z' then some (c.toNat - 'a'.toNat + 10)
  else if 'A' ≤ c ∧ c ≤ 'Z' then some (c.toNat - 'A'.toNat + 10)
  else none

-- The value of a run of digits to a base up to 36; the run must not be empty.
def digitsIn? (base : Nat) (cs : List Char) : Option Nat :=
  if cs = [] then none
  else cs.foldlM (fun n c => ((digitValue? c).filter (· < base)).map (base * n + ·)) 0

-- A number between two bounds, with at most one sign in front.
def readInt? (low high : Int) (s : String) : Option Int :=
  (go s.toList).filter fun n => low ≤ n ∧ n ≤ high
where
  go : List Char → Option Int
    | '+' :: cs => (digits? cs).map Int.ofNat
    | '-' :: cs => (digits? cs).map fun n => -(n : Int)
    | cs        => (digits? cs).map Int.ofNat

-- A number up to a bound, with at most a plus sign in front.
def readNat? (high : Nat) (s : String) : Option Nat :=
  (go s.toList).filter (· ≤ high)
where
  go : List Char → Option Nat
    | '+' :: cs => digits? cs
    | cs        => digits? cs

-- The range of a 64-bit signed integer.
def readInt64? : String → Option Int :=
  readInt? Int64.minValue.toInt Int64.maxValue.toInt

-- The decimal digits of a number, with a minus sign below zero.
def decimalChars : Int → List Char
  | .ofNat n   => Nat.toDigits 10 n
  | .negSucc n => '-' :: Nat.toDigits 10 (n + 1)

def decimal (n : Int) : String :=
  .ofList (decimalChars n)

def decimalNat (n : Nat) : String :=
  .ofList (Nat.toDigits 10 n)

-- At least `width` digits, filled up with zeros from the left.
def padded (width n : Nat) : List Char :=
  let ds := Nat.toDigits 10 n
  List.replicate (width - ds.length) '0' ++ ds

theorem digits?_toDigits (n : Nat) : digits? (Nat.toDigits 10 n) = some n := by
  have h : (Nat.toDigits 10 n).all Char.isDigit = true := by
    simpa using fun _ h => Nat.isDigit_of_mem_toDigits (by decide) (by decide) h
  simp [digits?, h, Nat.toDigits_ne_nil, Nat.ofDigitChars_ten_toDigits]

theorem readInt?_decimal {low high n : Int} (h : low ≤ n ∧ n ≤ high) : readInt? low high (decimal n) = some n := by
  have hd {m : Nat} : ∀ c ∈ Nat.toDigits 10 m, c.isDigit :=
    fun _ h => Nat.isDigit_of_mem_toDigits (by decide) (by decide) h
  have hg : readInt?.go (decimalChars n) = some n := by
    cases n with
    | ofNat m =>
      rw [decimalChars]
      unfold readInt?.go
      split
      case h_1 cs heq => have := hd '+' (heq ▸ List.mem_cons_self); simp [Char.isDigit] at this
      case h_2 cs heq => have := hd '-' (heq ▸ List.mem_cons_self); simp [Char.isDigit] at this
      case h_3 => rw [digits?_toDigits, Option.map_some]
    | negSucc m =>
      rw [decimalChars, readInt?.go, digits?_toDigits]
      rfl
  simp [readInt?, decimal, hg, h]

end MediaCatalog.Text
