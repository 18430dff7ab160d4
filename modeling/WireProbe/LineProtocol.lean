import WireProbe.Text

/-!
# The Influx line protocol

A line is a measurement with tags, fields and a timestamp; a backslash takes
its meaning from the character behind it. Without a backslash the text of a
line determines its parts, so a line is well formed exactly where its own parts
are.
-/

set_option autoImplicit false

namespace WireProbe.LineProtocol
open WireProbe.Text

/-- No character of `seps` stands in the text but behind a backslash, and no
newline at all. -/
def Free (seps : List Char) : List Char → Prop
  | [] => True
  | ['\\'] => False
  | '\\'::c::s => c ≠ '\n' ∧ Free seps s
  | c::s => c ∉ seps ∧ c ≠ '\n' ∧ Free seps s

/-- A key or a value. -/
def Item (s : List Char) : Prop := s ≠ [] ∧ Free [' ',',','='] s

def Digits (s : List Char) : Prop := s ≠ [] ∧ ∀ c ∈ s, c.isDigit = true

instance (s : List Char) : Decidable (Digits s) :=
  @instDecidableAnd _ _ inferInstance (List.decidableBAll _ s)

def IntegerLiteral (s : List Char) : Prop := ∃ sign digits, s = sign++digits ∧
  (sign = [] ∨ sign = ['-']) ∧ Digits digits

/-- Digits with a fraction and an exponent, either of which may be left out. -/
def FloatLiteral (s : List Char) : Prop := ∃ whole fraction exponent, s = whole++fraction++exponent ∧
  IntegerLiteral whole ∧ (fraction = [] ∨ ∃ digits, fraction = '.'::digits ∧ Digits digits) ∧
  (exponent = [] ∨ ∃ power, exponent = 'e'::power ∧ IntegerLiteral power)

/-- A float, or an integer with its suffix. -/
def FieldValue (s : List Char) : Prop := FloatLiteral s ∨ ∃ n, s = n++['i'] ∧ IntegerLiteral n

structure Line where
  measurement : List Char
  tags : List (List Char × List Char)
  fields : List (List Char × List Char)
  timestamp : List Char

def pair (p : List Char × List Char) : List Char := p.1++ '='::p.2

namespace Line

def words (l : Line) : List (List Char) :=
  [[','].intercalate (l.measurement::l.tags.map pair),[','].intercalate (l.fields.map pair),
    l.timestamp]

def text (l : Line) : List Char := [' '].intercalate l.words++['\n']

/-- The grammar. -/
structure Valid (l : Line) : Prop where
  measurement : l.measurement ≠ [] ∧ Free [' ',','] l.measurement
  tags : l.tags ≠ [] ∧ ∀ t ∈ l.tags, Item t.1 ∧ Item t.2
  fields : l.fields ≠ [] ∧ ∀ f ∈ l.fields, Item f.1 ∧ Item f.2 ∧ FieldValue f.2
  timestamp : IntegerLiteral l.timestamp

end Line

/-- A text of the protocol. -/
def Accepts (text : List Char) : Prop := ∃ l : Line, l.Valid ∧ l.text = text

/-! ### Texts without a backslash -/

def Clear (seps s : List Char) : Prop := ∀ c ∈ s, c ∉ seps

theorem free_cons {seps : List Char} {c : Char} (hc : c ≠ '\\') (s : List Char) :
    Free seps (c::s) ↔ c ∉ seps ∧ c ≠ '\n' ∧ Free seps s := by
  rw [Free]
  · rintro rfl
    exact absurd rfl hc
  · rintro c' s' rfl
    exact absurd rfl hc

theorem Free.clear {seps s : List Char} (h : Free seps s) (hs : '\\' ∉ s) : Clear seps s := by
  induction s with
  | nil => exact fun c hc => absurd hc List.not_mem_nil
  | cons c s ih =>
    have hc : c ≠ '\\' := fun heq => hs (heq ▸ List.mem_cons_self)
    obtain ⟨hsep,-,hfree⟩ := (free_cons hc s).mp h
    exact List.forall_mem_cons.mpr ⟨hsep,ih hfree fun hmem => hs (List.mem_cons_of_mem _ hmem)⟩

theorem free_of_clear {seps s : List Char} (h : Clear ('\\' :: '\n'::seps) s) : Free seps s := by
  induction s with
  | nil => trivial
  | cons c s ih =>
    obtain ⟨hc,hs⟩ := List.forall_mem_cons.mp h
    rw [List.mem_cons, List.mem_cons, not_or, not_or] at hc
    exact (free_cons hc.1 s).mpr ⟨hc.2.2,hc.2.1,ih hs⟩

theorem not_mem_intercalate {sep x : Char} {ls : List (List Char)} (hx : x ≠ sep)
    (h : ∀ l ∈ ls, x ∉ l) : x ∉ [sep].intercalate ls := fun hmem =>
  forall_mem_intercalate (P := (· ≠ x)) hx.symm
    (fun l hl _ hc heq => h l hl (heq ▸ hc)) x hmem rfl

/-- No part of the line holds a character that ends it. -/
structure Line.Plain (l : Line) : Prop where
  measurement : Clear [' ',','] l.measurement
  tags : ∀ t ∈ l.tags, Clear [' ',',','='] t.1 ∧ Clear [' ',',','='] t.2
  fields : l.fields ≠ [] ∧ ∀ f ∈ l.fields, Clear [' ',',','='] f.1 ∧ Clear [' ',',','='] f.2
  timestamp : Clear [' '] l.timestamp

theorem Clear.not_mem {seps s : List Char} (h : Clear seps s) {x : Char} (hx : x ∈ seps) : x ∉ s :=
  fun hmem => h x hmem hx

theorem pair_not_mem {p : List Char × List Char} {seps : List Char} (h₁ : Clear seps p.1)
    (h₂ : Clear seps p.2) {x : Char} (hx : x ∈ seps) (hne : x ≠ '=') : x ∉ pair p := by
  rw [pair, List.mem_append, List.mem_cons, not_or, not_or]
  exact ⟨h₁.not_mem hx,hne,h₂.not_mem hx⟩

/-- A pair is read back at its first equals sign. -/
theorem pair_inj {p q : List Char × List Char} (hp : '=' ∉ p.1) (hq : '=' ∉ q.1)
    (h : pair p = pair q) : p = q := by
  have hspan := congrArg (List.span (· != '=')) h
  rw [pair, pair, span_field hp, span_field hq, Prod.mk.injEq, List.cons.injEq] at hspan
  exact Prod.ext hspan.1 hspan.2.2

theorem pairs_inj {ps qs : List (List Char × List Char)} (hp : ∀ p ∈ ps, '=' ∉ p.1)
    (hq : ∀ q ∈ qs, '=' ∉ q.1) (h : ps.map pair = qs.map pair) : ps = qs := by
  induction ps generalizing qs with
  | nil => exact (List.map_eq_nil_iff.mp h.symm).symm
  | cons p ps ih =>
    cases qs with
    | nil => cases h
    | cons q qs =>
      obtain ⟨hp₁,hps⟩ := List.forall_mem_cons.mp hp
      obtain ⟨hq₁,hqs⟩ := List.forall_mem_cons.mp hq
      rw [List.map_cons, List.map_cons, List.cons.injEq] at h
      rw [pair_inj hp₁ hq₁ h.1, ih hps hqs h.2]

namespace Line.Plain

variable {l : Line} (h : l.Plain)
include h

theorem word_not_mem : ∀ w ∈ l.words, ' ' ∉ w := by
  simp only [words, List.forall_mem_cons, List.not_mem_nil, false_imp_iff, implies_true, and_true]
  refine ⟨?_,?_,h.timestamp.not_mem (by simp)⟩
  · apply not_mem_intercalate (by decide)
    refine List.forall_mem_cons.mpr ⟨h.measurement.not_mem (by simp),?_⟩
    rw [List.forall_mem_map]
    exact fun t ht => pair_not_mem (h.tags t ht).1 (h.tags t ht).2 (by simp) (by decide)
  · apply not_mem_intercalate (by decide)
    rw [List.forall_mem_map]
    exact fun f hf => pair_not_mem (h.fields.2 f hf).1 (h.fields.2 f hf).2 (by simp) (by decide)

theorem split_words : ([' '].intercalate l.words).splitOn ' ' = l.words :=
  List.splitOn_intercalate ' ' h.word_not_mem (by simp [words])

theorem split_tags : ([','].intercalate (l.measurement::l.tags.map pair)).splitOn ',' =
    l.measurement::l.tags.map pair := by
  apply List.splitOn_intercalate ',' _ (by simp)
  refine List.forall_mem_cons.mpr ⟨h.measurement.not_mem (by simp),?_⟩
  rw [List.forall_mem_map]
  exact fun t ht => pair_not_mem (h.tags t ht).1 (h.tags t ht).2 (by simp) (by decide)

theorem split_fields : ([','].intercalate (l.fields.map pair)).splitOn ',' = l.fields.map pair := by
  apply List.splitOn_intercalate ',' _ (by simpa using h.fields.1)
  rw [List.forall_mem_map]
  exact fun f hf => pair_not_mem (h.fields.2 f hf).1 (h.fields.2 f hf).2 (by simp) (by decide)

end Line.Plain

/-- The text of a plain line determines its parts. -/
theorem text_inj {l l' : Line} (hl : l.Plain) (hl' : l'.Plain) (h : l.text = l'.text) : l = l' := by
  have hwords : l.words = l'.words := by
    rw [← hl.split_words, ← hl'.split_words, List.append_cancel_right h]
  simp only [Line.words, List.cons.injEq, and_true] at hwords
  obtain ⟨htags,hfields,htimestamp⟩ := hwords
  have htags' := congrArg (List.splitOn ',') htags
  rw [hl.split_tags, hl'.split_tags, List.cons.injEq] at htags'
  have hfields' := congrArg (List.splitOn ',') hfields
  rw [hl.split_fields, hl'.split_fields] at hfields'
  have htag := pairs_inj (fun t ht => (hl.tags t ht).1.not_mem (by simp))
    (fun t ht => (hl'.tags t ht).1.not_mem (by simp)) htags'.2
  have hfield := pairs_inj (fun f hf => (hl.fields.2 f hf).1.not_mem (by simp))
    (fun f hf => (hl'.fields.2 f hf).1.not_mem (by simp)) hfields'
  obtain ⟨measurement,tags,fields,timestamp⟩ := l
  simp only at htags' htag hfield htimestamp
  rw [htags'.1, htag, hfield, htimestamp]

theorem IntegerLiteral.clear {s : List Char} (h : IntegerLiteral s) : Clear [' '] s := by
  obtain ⟨sign,digits,rfl,hsign,-,hdigits⟩ := h
  intro c hc hspace
  obtain rfl := List.mem_singleton.mp hspace
  rcases List.mem_append.mp hc with hc | hc
  · rcases hsign with rfl | rfl
    · cases hc
    · exact absurd (List.mem_singleton.mp hc) (by decide)
  · exact absurd (hdigits ' ' hc) (by decide)

section Escapes
variable {l : Line} (hescape : '\\' ∉ l.text)
include hescape

theorem words_no_escape : ∀ w ∈ l.words, '\\' ∉ w :=
  fun _ hw hmem => hescape (List.mem_append_left _ (mem_intercalate hw hmem))

theorem measurement_no_escape : '\\' ∉ l.measurement := fun hmem =>
  words_no_escape hescape ([','].intercalate (l.measurement::l.tags.map pair)) (by simp [Line.words])
    (mem_intercalate List.mem_cons_self hmem)

theorem tags_no_escape {t : List Char × List Char} (ht : t ∈ l.tags) : '\\' ∉ pair t := fun hmem =>
  words_no_escape hescape ([','].intercalate (l.measurement::l.tags.map pair)) (by simp [Line.words])
    (mem_intercalate (List.mem_cons_of_mem _ (List.mem_map_of_mem ht)) hmem)

theorem fields_no_escape {f : List Char × List Char} (hf : f ∈ l.fields) : '\\' ∉ pair f :=
  fun hmem => words_no_escape hescape ([','].intercalate (l.fields.map pair)) (by simp [Line.words])
    (mem_intercalate (List.mem_map_of_mem hf) hmem)

end Escapes

theorem item_pair_clear {p : List Char × List Char} (h₁ : Item p.1) (h₂ : Item p.2)
    (hescape : '\\' ∉ pair p) : Clear [' ',',','='] p.1 ∧ Clear [' ',',','='] p.2 := by
  rw [pair, List.mem_append, List.mem_cons, not_or, not_or] at hescape
  exact ⟨h₁.2.clear hescape.1,h₂.2.clear hescape.2.2⟩

/-- A well formed line without a backslash is plain. -/
theorem Line.Valid.plain {l : Line} (h : l.Valid) (hescape : '\\' ∉ l.text) : l.Plain where
  measurement := h.measurement.2.clear (measurement_no_escape hescape)
  tags := fun t ht => item_pair_clear (h.tags.2 t ht).1 (h.tags.2 t ht).2 (tags_no_escape hescape ht)
  fields := ⟨h.fields.1,fun f hf =>
    item_pair_clear (h.fields.2 f hf).1 (h.fields.2 f hf).2.1 (fields_no_escape hescape hf)⟩
  timestamp := h.timestamp.clear

/-- A plain line is a text of the protocol exactly where it is well formed. -/
theorem accepts_text_iff {l : Line} (h : l.Plain) (hescape : '\\' ∉ l.text) :
    Accepts l.text ↔ l.Valid := by
  constructor
  · rintro ⟨l',hvalid,htext⟩
    have hplain := hvalid.plain (htext ▸ hescape)
    exact text_inj hplain h htext ▸ hvalid
  · exact fun hvalid => ⟨l,hvalid,rfl⟩

end WireProbe.LineProtocol
