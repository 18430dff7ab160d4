import WireProbe.ConfiguredState

/-!
# Splitting a Host value

A Host value is a name, a bracketed address or a bare IPv6 literal; the first
two can carry a port. Splitting undoes rendering. What is written behind a host
is taken for its port or reported, except behind a closing bracket.
-/

set_option autoImplicit false

namespace WireProbe.HostSplitting
open WireProbe.PluginConfig WireProbe.ConfiguredState WireProbe.Text

/-! ### What each branch returns -/

theorem rpartition_eq {before after : List Char} {x : Char} (h : x ∉ after) :
    rpartition x (before++x::after) = (before,after) := by
  have hspan : (before++x::after).reverse.span (· != x) = (after.reverse,x::before.reverse) := by
    rw [List.reverse_append, List.reverse_cons, List.append_assoc]
    exact span_field (by simpa using h)
  rw [rpartition, hspan]
  simp

section Branches
variable (casts : Casts)

/-- A Host value with the text of its port. -/
def withPort (hostname portStr raw : List Char) : (List Char × Option ℤ) × List Message :=
  ((hostname,(parsePort casts portStr raw).1),(parsePort casts portStr raw).2)

/-- Behind the first closing bracket only a colon is looked for. -/
theorem split_bracket {a : List Char} (h : ']' ∉ a) (rest : List Char) :
    splitHostPort casts ('['::a++ ']'::rest) =
      match rest with
      | ':'::portStr => withPort casts a portStr ('['::a++ ']'::rest)
      | _ => ((a,none),[]) := by
  have hbracket : ('['::a++ ']'::rest).head? = some '[' := rfl
  have hspan : ('['::a++ ']'::rest).span (· != ']') = ('['::a,']'::rest) :=
    span_field (by simpa using h)
  rw [splitHostPort, if_pos hbracket, hspan]
  match rest with
  | [] => rfl
  | c::portStr =>
    by_cases hc : c = ':'
    · subst hc
      rfl
    · simp [hc]

theorem split_unbalanced {a : List Char} (h : ']' ∉ a) :
    splitHostPort casts ('['::a) =
      (('['::a,none),[[.text "wire_probe: unbalanced '[' in Host '", .str ('['::a), .text "'"]]) := by
  have hbracket : ('['::a).head? = some '[' := rfl
  have hspan : ('['::a).span (· != ']') = ('['::a,[]) := span_whole (by simpa using h)
  rw [splitHostPort, if_pos hbracket, hspan]

theorem split_literal {a : List Char} (hbracket : a.head? ≠ some '[') (h : 2 ≤ a.count ':') :
    splitHostPort casts a = ((a,none),[]) := by
  rw [splitHostPort, if_neg hbracket, if_pos h]

theorem split_name {a : List Char} (hbracket : a.head? ≠ some '[') (h : ':' ∉ a) :
    splitHostPort casts a = ((a,none),[]) := by
  have hcount : ¬ 2 ≤ a.count ':' := by
    rw [List.count_eq_zero.mpr h]
    decide
  have hcontains : ¬ a.contains ':' = true := by simpa using h
  rw [splitHostPort, if_neg hbracket, if_neg hcount, if_neg hcontains]

theorem split_name_port {a portStr : List Char} (hbracket : (a++ ':'::portStr).head? ≠ some '[')
    (ha : ':' ∉ a) (hport : ':' ∉ portStr) :
    splitHostPort casts (a++ ':'::portStr) = withPort casts a portStr (a++ ':'::portStr) := by
  have hcount : ¬ 2 ≤ (a++ ':'::portStr).count ':' := by
    rw [List.count_append, List.count_eq_zero.mpr ha, List.count_cons_self,
      List.count_eq_zero.mpr hport]
    decide
  have hcontains : (a++ ':'::portStr).contains ':' = true := by simp
  rw [splitHostPort, if_neg hbracket, if_neg hcount, if_pos hcontains, rpartition_eq hport]
  rfl

end Branches

/-! ### Rendering -/

/-- A port that can be written behind a host. -/
structure Port where
  number : ℕ
  positive : 1 ≤ number
  bounded : number ≤ 65535

/-- The forms of a Host value. -/
inductive HostValue where
  | name (host : List Char) (hcolon : ':' ∉ host) (hbracket : host.head? ≠ some '[')
      (port : Option Port)
  | bracketed (addr : List Char) (hclose : ']' ∉ addr) (port : Option Port)
  | literal (addr : List Char) (hcolons : 2 ≤ addr.count ':') (hbracket : addr.head? ≠ some '[')

namespace HostValue

def hostname : HostValue → List Char
  | name host _ _ _ => host
  | bracketed addr _ _ => addr
  | literal addr _ _ => addr

def port : HostValue → Option Port
  | name _ _ _ port => port
  | bracketed _ _ port => port
  | literal _ _ _ => none

def render : HostValue → List Char
  | name host _ _ none => host
  | name host _ _ (some p) => host++ ':'::decimal p.number
  | bracketed addr _ none => '['::addr++[']']
  | bracketed addr _ (some p) => '['::addr++ ']' :: ':'::decimal p.number
  | literal addr _ _ => addr

end HostValue

theorem parsePort_decimal (p : Port) (raw : List Char) :
    parsePort PythonCasts.casts (decimal p.number) raw = (some (p.number : ℤ),[]) := by
  have hlen : (decimal p.number).length ≤ 5 :=
    (Nat.length_toDigits_le_iff (by decide) (by decide)).mpr (Nat.lt_of_le_of_lt p.bounded (by decide))
  have hint : PythonCasts.casts.int (decimal p.number) = some (p.number : ℤ) :=
    PythonCasts.int_decimal (hlen.trans (by decide))
  have hvalid : validPort p.number = true := by
    have hlo := p.positive
    have hhi := p.bounded
    rw [validPort_iff]
    omega
  rw [parsePort, hint]
  exact if_pos hvalid

theorem withPort_decimal (p : Port) (host raw : List Char) :
    withPort PythonCasts.casts host (decimal p.number) raw = ((host,some (p.number : ℤ)),[]) := by
  rw [withPort, parsePort_decimal]

/-- Splitting gives back the host and the port that were rendered, and warns of
nothing. -/
theorem split_render (v : HostValue) : splitHostPort PythonCasts.casts v.render =
    ((v.hostname,v.port.map fun p => (p.number : ℤ)),[]) := by
  cases v with
  | name host hcolon hbracket port =>
    cases port with
    | none => exact split_name _ hbracket hcolon
    | some p =>
      have hhead : (host++ ':'::decimal p.number).head? ≠ some '[' := by
        cases host with
        | nil => simp
        | cons c host => exact hbracket
      have hport : ':' ∉ decimal p.number := fun h => absurd (decimal_isDigit h) (by decide)
      exact (split_name_port _ hhead hcolon hport).trans (withPort_decimal p host _)
  | bracketed addr hclose port =>
    cases port with
    | none => exact split_bracket _ hclose []
    | some p => exact (split_bracket _ hclose _).trans (withPort_decimal p addr _)
  | literal addr hcolons hbracket => exact split_literal _ hbracket hcolons

/-! ### Suffixes -/

section Suffixes
variable (casts : Casts)

def Warned (raw : List Char) : Prop := (splitHostPort casts raw).2 ≠ []

/-- The port is the number that `text` denotes. -/
def TakenFrom (text raw : List Char) : Prop :=
  ∃ p, (splitHostPort casts raw).1.2 = some p ∧ 1 ≤ p ∧ p ≤ 65535 ∧ casts.int text = some p

/-- What stands behind the host is taken for its port, or a warning says that
it is not. -/
structure Accounted (raw : List Char) : Prop where
  name : ∀ host text, raw = host++ ':'::text → raw.head? ≠ some '[' → ':' ∉ host → ':' ∉ text →
    TakenFrom casts text raw ∨ Warned casts raw
  bracketed : ∀ addr rest, raw = '['::addr++ ']'::rest → ']' ∉ addr → rest ≠ [] →
    (∃ text, rest = ':'::text ∧ TakenFrom casts text raw) ∨ Warned casts raw
  unbalanced : raw.head? = some '[' → ']' ∉ raw → Warned casts raw

theorem parsePort_accounted (text raw : List Char) :
    (∃ p, (parsePort casts text raw).1 = some p ∧ 1 ≤ p ∧ p ≤ 65535 ∧ casts.int text = some p) ∨
      (parsePort casts text raw).2 ≠ [] := by
  unfold parsePort
  cases hint : casts.int text with
  | none => exact .inr (List.cons_ne_nil _ _)
  | some p =>
    simp only
    split_ifs with hvalid
    · obtain ⟨hlo,hhi⟩ := (validPort_iff p).mp hvalid
      exact .inl ⟨p,rfl,hlo,hhi,rfl⟩
    · exact .inr (List.cons_ne_nil _ _)

theorem withPort_accounted {host text raw : List Char}
    (h : splitHostPort casts raw = withPort casts host text raw) :
    TakenFrom casts text raw ∨ Warned casts raw := by
  rw [TakenFrom, Warned, h]
  exact parsePort_accounted casts text raw

/-- What follows the first closing bracket. -/
def behindBracket (raw : List Char) : List Char := (raw.span (· != ']')).2.tail

/-- Neither nothing nor a colon follows the closing bracket. -/
def Stray (raw : List Char) : Prop :=
  raw.head? = some '[' ∧ behindBracket raw ≠ [] ∧ (behindBracket raw).head? ≠ some ':'

instance (raw : List Char) : Decidable (Stray raw) := inferInstanceAs (Decidable (_ ∧ _ ∧ _))

theorem behindBracket_eq {a : List Char} (h : ']' ∉ a) (rest : List Char) :
    behindBracket ('['::a++ ']'::rest) = rest := by
  have hspan : ('['::a++ ']'::rest).span (· != ']') = ('['::a,']'::rest) :=
    span_field (by simpa using h)
  rw [behindBracket, hspan]
  rfl

theorem behindBracket_unbalanced {a : List Char} (h : ']' ∉ a) : behindBracket ('['::a) = [] := by
  have hspan : ('['::a).span (· != ']') = ('['::a,[]) := span_whole (by simpa using h)
  rw [behindBracket, hspan]
  rfl

/-- A value with an opening bracket is closed by its first closing one, or not
at all. -/
theorem bracket_cases {raw : List Char} (h : raw.head? = some '[') :
    (∃ a, ']' ∉ a ∧ raw = '['::a) ∨ ∃ a rest, ']' ∉ a ∧ raw = '['::a++ ']'::rest := by
  obtain ⟨s,rfl⟩ := List.head?_eq_some_iff.mp h
  by_cases hclose : ']' ∈ s
  · obtain ⟨a,rest,rfl,ha⟩ := List.eq_append_cons_of_mem hclose
    exact .inr ⟨a,rest,ha,rfl⟩
  · exact .inl ⟨s,hclose,rfl⟩

/-- A stray suffix gets neither a port nor a warning. -/
theorem stray_dropped {raw : List Char} (h : Stray raw) : ¬ Accounted casts raw := by
  intro haccounted
  obtain ⟨hbracket,hne,hcolon⟩ := h
  rcases bracket_cases hbracket with ⟨a,hclose,rfl⟩ | ⟨a,rest,hclose,rfl⟩
  · exact hne (behindBracket_unbalanced hclose)
  · rw [behindBracket_eq hclose] at hne hcolon
    obtain ⟨c,text,rfl⟩ := List.exists_cons_of_ne_nil hne
    have hc : c ≠ ':' := fun heq => hcolon (congrArg some heq)
    rcases haccounted.bracketed a _ rfl hclose hne with ⟨text',htext,-⟩ | hwarned
    · exact hc (List.cons.inj htext).1
    · rw [Warned, split_bracket casts hclose] at hwarned
      simp [hc] at hwarned

/-- Nothing behind a host is dropped silently, exactly where nothing but a port
follows a closing bracket. -/
theorem accounted_iff (raw : List Char) : Accounted casts raw ↔ ¬ Stray raw := by
  constructor
  · exact fun h hstray => stray_dropped casts hstray h
  · intro h
    refine ⟨?_,?_,?_⟩
    · rintro host text rfl hbracket hhost htext
      exact withPort_accounted casts (split_name_port casts hbracket hhost htext)
    · rintro addr rest rfl hclose hne
      obtain ⟨c,text,rfl⟩ := List.exists_cons_of_ne_nil hne
      have hc : c = ':' := by
        by_contra hc
        refine h ⟨rfl,?_⟩
        rw [behindBracket_eq hclose]
        exact ⟨hne,fun heq => hc (Option.some.inj heq)⟩
      subst hc
      rcases withPort_accounted casts (split_bracket casts hclose (':'::text)) with htaken | hwarned
      · exact .inl ⟨text,rfl,htaken⟩
      · exact .inr hwarned
    · intro hbracket hclose
      obtain ⟨a,rfl⟩ := List.head?_eq_some_iff.mp hbracket
      rw [Warned, split_unbalanced casts (fun hmem => hclose (List.mem_cons_of_mem _ hmem))]
      exact List.cons_ne_nil _ _

/-- The port of `[::1]9999` is lost. -/
theorem stray_port_lost : ¬ ∀ raw : List Char, Accounted PythonCasts.casts raw :=
  fun h => stray_dropped PythonCasts.casts (by decide) (h "[::1]9999".toList)

end Suffixes

end WireProbe.HostSplitting
