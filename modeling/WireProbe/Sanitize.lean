import WireProbe.Collectd
import WireProbe.Text

/-!
# Sanitized names

Whatever string is sanitized, its characters are among those that end no field
of a line. Decimal numerals and the tokens of floats keep to the same set, so
no component of a line holds a separator.
-/

set_option autoImplicit false

namespace WireProbe.Sanitize
open WireProbe.Collectd WireProbe.Text

def sanitize (s : List Char) : List Char :=
  s.map fun c => if c.isAlphanum ∨ c = '-' ∨ c = '.' then c else '_'

/-- The characters of a component. -/
def Safe (c : Char) : Prop := c.isAlphanum = true ∨ c = '-' ∨ c = '.' ∨ c = '_'

instance (c : Char) : Decidable (Safe c) := inferInstanceAs (Decidable (_ ∨ _))

def Component (s : List Char) : Prop := ∀ c ∈ s, Safe c

instance (s : List Char) : Decidable (Component s) := List.decidableBAll Safe s

theorem sanitize_component (s : List Char) : Component (sanitize s) := by
  intro c h
  obtain ⟨d,-,rfl⟩ := List.mem_map.mp h
  split_ifs with hkept
  · rcases hkept with halnum | rfl | rfl
    · exact .inl halnum
    · exact .inr (.inl rfl)
    · exact .inr (.inr (.inl rfl))
  · exact .inr (.inr (.inr rfl))

example : sanitize "a b/c,d=e:f".toList = "a_b_c_d_e_f".toList := by decide

theorem sanitize_eq_self {s : List Char} (h : Component s) : sanitize s = s := by
  refine (List.map_congr_left ?_).trans (List.map_id' s)
  intro c hc
  rcases h c hc with halnum | rfl | rfl | rfl
  · exact if_pos (.inl halnum)
  · rfl
  · rfl
  · rfl

/-- A result of `sanitize`. -/
structure Name where
  text : List Char
  sanitized : ∃ raw, sanitize raw = text
  deriving DecidableEq

theorem Name.component (n : Name) : Component n.text := by
  obtain ⟨raw,hraw⟩ := n.sanitized
  exact hraw ▸ sanitize_component raw

/-- What `ryu` prints for a finite float. -/
structure Token where
  text : List Char
  nonempty : text ≠ []
  printed : ∀ c ∈ text, c.isDigit = true ∨ c = '.' ∨ c = '-' ∨ c = 'e'
  deriving DecidableEq

theorem Token.component (t : Token) : Component t.text := by
  intro c h
  rcases t.printed c h with hdigit | rfl | rfl | rfl
  · exact .inl (by simp [Char.isAlphanum, hdigit])
  · decide
  · decide
  · decide

theorem decimal_component (n : ℕ) : Component (decimal n) :=
  fun _ h => .inl (by simp [Char.isAlphanum, decimal_isDigit h])

theorem Component.not_mem {s : List Char} (h : Component s) {x : Char} (hx : ¬ Safe x) : x ∉ s :=
  fun hmem => hx (h x hmem)

/-! ### Bytes of a text -/

/-- The printable characters of ASCII. -/
def Printable (c : Char) : Prop := 32 ≤ c.toNat ∧ c.toNat < 128

instance (c : Char) : Decidable (Printable c) := inferInstanceAs (Decidable (_ ∧ _))

theorem printable_of_between {c lo hi : Char} (h : lo.val ≤ c.val ∧ c.val ≤ hi.val)
    (hlo : 32 ≤ lo.toNat) (hhi : hi.toNat < 128) : Printable c :=
  ⟨Nat.le_trans hlo (UInt32.le_iff_toNat_le.mp h.1),
    Nat.lt_of_le_of_lt (UInt32.le_iff_toNat_le.mp h.2) hhi⟩

theorem Safe.printable {c : Char} (h : Safe c) : Printable c := by
  rcases h with halnum | rfl | rfl | rfl
  · rcases Bool.or_eq_true_iff.mp halnum with halpha | hdigit
    · rcases Bool.or_eq_true_iff.mp halpha with hupper | hlower
      · exact printable_of_between (of_decide_eq_true hupper) (by decide) (by decide)
      · obtain ⟨hlo,hhi⟩ := Bool.and_eq_true_iff.mp hlower
        exact printable_of_between ⟨of_decide_eq_true hlo,of_decide_eq_true hhi⟩ (by decide)
          (by decide)
    · obtain ⟨hlo,hhi⟩ := Bool.and_eq_true_iff.mp hdigit
      exact printable_of_between ⟨of_decide_eq_true hlo,of_decide_eq_true hhi⟩ (by decide)
        (by decide)
  · decide
  · decide
  · decide

theorem asBytes_append (s t : List Char) : asBytes (s++t) = asBytes s++asBytes t :=
  List.flatMap_append

/-- UTF-8 determines the text. -/
theorem asBytes_injective : Function.Injective asBytes := by
  intro s t h
  have hencode : s.utf8Encode = t.utf8Encode := congrArg List.toByteArray h
  rw [← String.toByteArray_ofList, ← String.toByteArray_ofList] at hencode
  exact String.ofList_inj.mp (String.toByteArray_inj.mp hencode)

def Ascii (s : List Char) : Prop := ∀ c ∈ s, c.toNat < 128

theorem asBytes_ascii {s : List Char} (h : Ascii s) :
    asBytes s = s.map fun c => UInt8.ofNat c.toNat := by
  induction s with
  | nil => rfl
  | cons c s ih =>
    obtain ⟨hc,hs⟩ := List.forall_mem_cons.mp h
    have hchar : String.utf8EncodeChar c = [UInt8.ofNat c.toNat] := by
      apply String.utf8EncodeChar_eq_singleton
      rw [Char.utf8Size, if_pos]
      exact UInt32.le_iff_toNat_le.mpr (Nat.le_of_lt_succ hc)
    rw [List.map_cons, ← ih hs, asBytes, List.flatMap_cons, hchar]
    rfl

/-- The text of a line of ASCII bytes. -/
def asciiText (bytes : Bytes) : Option (List Char) :=
  if bytes.all (·.toNat < 128) then some (bytes.map fun b => Char.ofNat b.toNat) else none

theorem toNat_byte {n : ℕ} (h : n < 128) : (UInt8.ofNat n).toNat = n := by
  simp [Nat.mod_eq_of_lt (show n < 256 by omega)]

theorem asBytes_lt {s : List Char} (h : Ascii s) : ∀ b ∈ asBytes s, b.toNat < 128 := by
  rw [asBytes_ascii h, List.forall_mem_map]
  intro c hc
  rw [toNat_byte (h c hc)]
  exact h c hc

theorem asciiText_asBytes {s : List Char} (h : Ascii s) : asciiText (asBytes s) = some s := by
  have hascii : (asBytes s).all (·.toNat < 128) = true := by simpa using asBytes_lt h
  rw [asciiText, if_pos hascii, asBytes_ascii h, List.map_map]
  refine congrArg some ((List.map_congr_left ?_).trans (List.map_id' s))
  intro c hc
  rw [Function.comp_apply, toNat_byte (h c hc), Char.ofNat_toNat]

end WireProbe.Sanitize
