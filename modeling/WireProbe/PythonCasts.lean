import Mathlib.Data.Rat.Defs
import WireProbe.PluginConfig
import WireProbe.Text

/-!
# Python's int and float of a string

The grammar of both constructors for text in ASCII: surrounding whitespace, a
sign, digits that single underscores may separate, and for `float` a fraction,
an exponent and the words for the infinities and NaN. Finite values are exact.
-/

set_option autoImplicit false

namespace WireProbe.PythonCasts
open WireProbe.Floats WireProbe.PluginConfig WireProbe.Text

def isSpace (c : Char) : Bool := c.toNat = 32 ∨ (9 ≤ c.toNat ∧ c.toNat ≤ 13) ∨
  (28 ≤ c.toNat ∧ c.toNat ≤ 31)

def strip (s : List Char) : List Char :=
  ((s.dropWhile isSpace).reverse.dropWhile isSpace).reverse

/-- The digits of a decimal literal. -/
def literal : List Char → Option (List ℕ)
  | [] => none
  | c::cs => if c.isDigit then (go cs).map ((c.toNat-48)::·) else none
where
  go : List Char → Option (List ℕ)
    | [] => some []
    | '_'::c::cs => if c.isDigit then (go cs).map ((c.toNat-48)::·) else none
    | c::cs => if c.isDigit then (go cs).map ((c.toNat-48)::·) else none

def ofDigits (ds : List ℕ) : ℕ := ds.foldl (fun acc d => 10*acc+d) 0

def signed {α : Type} (neg : α → α) (read : List Char → Option α) : List Char → Option α
  | '+'::s => read s
  | '-'::s => (read s).map neg
  | s => read s

/-- The longest literal that `int` converts. -/
def maxStrDigits : ℕ := 4300

def integer (s : List Char) : Option ℤ :=
  (literal s).bind fun ds => if ds.length ≤ maxStrDigits then some (ofDigits ds) else none

/-- `int(s)`, `none` for `ValueError`. -/
def int (s : List Char) : Option ℤ := signed (-·) integer (strip s)

/-- A literal or nothing. -/
def part (s : List Char) : Option (List ℕ) := if s = [] then some [] else literal s

def mantissa (s : List Char) : Option (List ℕ × List ℕ) :=
  let (whole, rest) := s.span (· != '.')
  match part whole, part rest.tail with
  | some ws, some fs => if ws = [] ∧ fs = [] then none else some (ws,fs)
  | _, _ => none

def exponent : List Char → Option ℤ
  | [] => some 0
  | _::s => signed (-·) (fun s => (literal s).map fun ds => (ofDigits ds : ℤ)) s

def number (s : List Char) : Option FloatVal :=
  if s = "inf".toList ∨ s = "infinity".toList then some .posInf
  else if s = "nan".toList then some .nan
  else
    let (m, e) := s.span (· != 'e')
    match mantissa m, exponent e with
    | some (ws, fs), some e => some (.fin (ofDigits (ws++fs)*(10 : ℚ)^(e-fs.length)))
    | _, _ => none

/-- `float(s)`, `none` for `ValueError`. -/
def float (s : List Char) : Option FloatVal := signed FloatVal.neg number (lower (strip s))

def casts : Casts := ⟨int,float⟩

/-! ### Decimal numerals -/

theorem strip_eq_self {s : List Char} (h : ∀ c ∈ s, isSpace c = false) : strip s = s := by
  have hkept : ∀ t : List Char, (∀ c ∈ t, isSpace c = false) → t.dropWhile isSpace = t := by
    intro t ht
    cases t with
    | nil => rfl
    | cons c t => exact List.dropWhile_cons_of_neg (by simp [ht c (by simp)])
  rw [strip, hkept s h, hkept s.reverse (by simpa using h), List.reverse_reverse]

theorem literal_go_digits {s : List Char} (h : ∀ c ∈ s, c.isDigit = true) :
    literal.go s = some (s.map fun c => c.toNat-48) := by
  induction s with
  | nil => rfl
  | cons c s ih =>
    obtain ⟨hc,hs⟩ := List.forall_mem_cons.mp h
    rw [literal.go, if_pos hc, ih hs]
    · rfl
    · rintro d cs rfl -
      cases hc

theorem literal_digits {s : List Char} (hne : s ≠ []) (h : ∀ c ∈ s, c.isDigit = true) :
    literal s = some (s.map fun c => c.toNat-48) := by
  obtain ⟨c,t,rfl⟩ := List.exists_cons_of_ne_nil hne
  obtain ⟨hc,ht⟩ := List.forall_mem_cons.mp h
  rw [literal, if_pos hc, literal_go_digits ht]
  rfl

theorem ofDigits_map (s : List Char) : ofDigits (s.map fun c => c.toNat-48) = Nat.ofDigitChars 10 s 0 := by
  rw [ofDigits, List.foldl_map]
  rfl

theorem signed_of_digit {α : Type} (neg : α → α) (read : List Char → Option α) {c : Char}
    (h : c.isDigit = true) (s : List Char) : signed neg read (c::s) = read (c::s) := by
  rw [signed]
  · rintro t ⟨⟩
    cases h
  · rintro t ⟨⟩
    cases h

/-- `int` reads a decimal numeral of bounded length back. -/
theorem int_decimal {n : ℕ} (h : (decimal n).length ≤ maxStrDigits) : int (decimal n) = some (n : ℤ) := by
  have hdigits : ∀ c ∈ decimal n, c.isDigit = true := fun c hc => decimal_isDigit hc
  have hspace : ∀ c ∈ decimal n, isSpace c = false := by
    intro c hc
    have hrange : 48 ≤ c.toNat ∧ c.toNat ≤ 57 := Char.isDigit_iff_toNat.mp (hdigits c hc)
    rw [isSpace, decide_eq_false_iff_not]
    omega
  have hsigned : signed (-·) integer (decimal n) = integer (decimal n) := by
    obtain ⟨c,s,hcons⟩ := List.exists_cons_of_ne_nil (decimal_ne_nil n)
    rw [hcons] at hdigits ⊢
    exact signed_of_digit _ _ (hdigits c (by simp)) s
  rw [int, strip_eq_self hspace, hsigned, integer, literal_digits (decimal_ne_nil n) hdigits,
    Option.bind_some, ofDigits_map, List.length_map, if_pos h]
  exact congrArg (fun m : ℕ => some (m : ℤ)) Nat.ofDigitChars_ten_toDigits

example : int " +1_0 ".toList = some 10 := by decide
example : int "0x10".toList = none := by decide
example : float "NaN".toList = some .nan := by decide

end WireProbe.PythonCasts
