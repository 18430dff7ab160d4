import WireProbe.Sanitize
import WireProbe.Telegraf

/-!
# Decoding the lines of the two exporters

A point of the Influx line protocol is read back by splitting at spaces, commas
and equals signs, a PUTVAL line by splitting at spaces and slashes. What is
read back is what was rendered, because no component holds a separator.
-/

set_option autoImplicit false

namespace WireProbe.LineDecoding
open WireProbe.Collectd WireProbe.Sanitize WireProbe.Text

/-! ### Components -/

def readName (s : List Char) : Option Name :=
  if h : sanitize s = s then some ⟨s,s,h⟩ else none

def readToken (s : List Char) : Option Token :=
  if h : s ≠ [] ∧ s.all fun c => c.isDigit ∨ c = '.' ∨ c = '-' ∨ c = 'e' then
    some ⟨s,h.1,by simpa using h.2⟩
  else none

def readNumeral (s : List Char) : Option ℕ :=
  if s ≠ [] ∧ s.all Char.isDigit then some (Nat.ofDigitChars 10 s 0) else none

/-- The value of `key=value`. -/
def keyed (key field : List Char) : Option (List Char) :=
  match field.splitOn '=' with
  | [k, value] => if k = key then some value else none
  | _ => none

/-- What follows a fixed start. -/
def strip (start s : List Char) : Option (List Char) :=
  if start.isPrefixOf s then some (s.drop start.length) else none

/-- The text of a line without its newline. -/
def chomp (bytes : Bytes) : Option (List Char) := do
  let text ← asciiText bytes
  if text.getLast? = some '\n' then some text.dropLast else none

theorem readName_text (n : Name) : readName n.text = some n :=
  dif_pos (sanitize_eq_self n.component)

theorem readToken_text (t : Token) : readToken t.text = some t :=
  dif_pos ⟨t.nonempty,by simpa using t.printed⟩

theorem readNumeral_decimal (n : ℕ) : readNumeral (decimal n) = some n := by
  have hdigits : (decimal n).all Char.isDigit = true :=
    List.all_eq_true.mpr fun c hc => decimal_isDigit hc
  rw [readNumeral, if_pos ⟨Nat.toDigits_ne_nil,hdigits⟩]
  exact congrArg some Nat.ofDigitChars_ten_toDigits

theorem keyed_eq {key value : List Char} (hkey : '=' ∉ key) (hvalue : '=' ∉ value) :
    keyed key (key++ '='::value) = some value := by
  rw [keyed, List.splitOn_append_cons_self_of_not_mem hkey, List.splitOn_eq_singleton hvalue]
  exact if_pos rfl

theorem strip_append (start s : List Char) : strip start (start++s) = some s := by
  simp [strip]

/-! ### Texts over a set of separators -/

/-- Components and separators among `seps`. -/
def Over (seps s : List Char) : Prop := ∀ c ∈ s, Safe c ∨ c ∈ seps

instance (seps s : List Char) : Decidable (Over seps s) :=
  List.decidableBAll (fun c => Safe c ∨ c ∈ seps) s

theorem over_component {s : List Char} (h : Component s) (seps : List Char) : Over seps s :=
  fun c hc => .inl (h c hc)

theorem Over.mono {seps seps' s : List Char} (h : Over seps s) (hsub : seps ⊆ seps') :
    Over seps' s :=
  fun c hc => (h c hc).imp_right (hsub ·)

theorem over_append {seps s t : List Char} (hs : Over seps s) (ht : Over seps t) :
    Over seps (s++t) :=
  List.forall_mem_append.mpr ⟨hs,ht⟩

theorem over_cons {seps s : List Char} {x : Char} (hx : x ∈ seps) (hs : Over seps s) :
    Over seps (x::s) :=
  List.forall_mem_cons.mpr ⟨.inr hx,hs⟩

theorem over_intercalate {seps : List Char} {sep : Char} (hsep : sep ∈ seps)
    {ls : List (List Char)} (h : ∀ l ∈ ls, Over seps l) : Over seps ([sep].intercalate ls) :=
  forall_mem_intercalate (.inr hsep) h

theorem Over.not_mem {seps s : List Char} (h : Over seps s) {x : Char} (hx : ¬ Safe x)
    (hseps : x ∉ seps) : x ∉ s :=
  fun hmem => (h x hmem).elim hx hseps

theorem Over.printable {seps s : List Char} (h : Over seps s) (hseps : ∀ x ∈ seps, Printable x) :
    ∀ c ∈ s, Printable c :=
  fun c hc => (h c hc).elim Safe.printable (hseps c)

/-- Splitting at a separator is the inverse of joining with it. -/
theorem split_intercalate {seps : List Char} {sep : Char} {ls : List (List Char)}
    (h : ∀ l ∈ ls, Over seps l) (hsafe : ¬ Safe sep) (hsep : sep ∉ seps) (hls : ls ≠ []) :
    ([sep].intercalate ls).splitOn sep = ls :=
  List.splitOn_intercalate sep (fun l hl => (h l hl).not_mem hsafe hsep) hls

/-- ASCII, and one newline, at the end. -/
def OneLine (bytes : Bytes) : Prop :=
  ∃ body, bytes = body++[newline] ∧ newline ∉ body ∧ ∀ b ∈ bytes, b.toNat < 128

theorem ascii_line {s : List Char} (h : ∀ c ∈ s, Printable c) : Ascii (s++['\n']) := by
  intro c hc
  rcases List.mem_append.mp hc with hc | hc
  · exact (h c hc).2
  · exact List.mem_singleton.mp hc ▸ by decide

theorem chomp_asBytes {s : List Char} (h : ∀ c ∈ s, Printable c) :
    chomp (asBytes (s++['\n'])) = some s := by
  rw [chomp, asciiText_asBytes (ascii_line h)]
  simp

theorem oneLine_asBytes {s : List Char} (h : ∀ c ∈ s, Printable c) :
    OneLine (asBytes (s++['\n'])) := by
  refine ⟨asBytes s,asBytes_append s ['\n'],?_,asBytes_lt (ascii_line h)⟩
  rw [asBytes_ascii fun c hc => (h c hc).2, List.mem_map]
  rintro ⟨c,hc,hnewline⟩
  obtain ⟨hlow,hhigh⟩ := h c hc
  have hbyte := congrArg UInt8.toNat hnewline
  rw [toNat_byte hhigh] at hbyte
  exact absurd (hbyte ▸ hlow) (by decide)

/-! ### The Influx line protocol -/

/-- What a line says; the outcome of a failed probe is `none`. -/
structure Point (R : Type*) where
  target : Name
  az : Name
  outcome : Option R
  timestamp : ℕ
  deriving DecidableEq

def readOutcome : List (List Char) → Option (Option Token)
  | [success] =>
    if keyed "success".toList success = some "0i".toList then some none else none
  | [rtt, success] => do
    let t ← keyed "rtt_ms".toList rtt
    if keyed "success".toList success = some "1i".toList then (readToken t).map some else none
  | _ => none

def readTags : List (List Char) → Option (Name × Name)
  | [measurement, target, az] =>
    if measurement = "tcp_latency".toList then do
      let target ← readName (← keyed "target".toList target)
      let az ← readName (← keyed "az".toList az)
      pure (target,az)
    else none
  | _ => none

def decodePoint (bytes : Bytes) : Option (Point Token) := do
  let line ← chomp bytes
  match line.splitOn ' ' with
  | [tags, fields, timestamp] =>
    let (target, az) ← readTags (tags.splitOn ',')
    return ⟨target,az,← readOutcome (fields.splitOn ','),← readNumeral timestamp⟩
  | _ => none

/-! ### PUTVAL lines -/

structure Putval (R : Type*) where
  host : Name
  target : Name
  interval : ℕ
  outcome : Option R
  deriving DecidableEq

def readValue (s : List Char) : Option (Option Token) :=
  if s = ['U'] then some none else (readToken s).map some

def readIdentifier : List (List Char) → Option (Name × Name)
  | [host, plugin, type] =>
    if plugin = "wire-probe-tcp".toList then do
      let host ← readName host
      let target ← readName (← strip "latency-".toList type)
      pure (host,target)
    else none
  | _ => none

def decodePutval (bytes : Bytes) : Option (Putval Token) := do
  let line ← chomp bytes
  match line.splitOn ' ' with
  | [verb, identifier, interval, value] =>
    if verb = "PUTVAL".toList then do
      let (host, target) ← readIdentifier (identifier.splitOn '/')
      let interval ← readNumeral (← strip "interval=".toList interval)
      return ⟨host,target,interval,← readValue (← strip "N:".toList value)⟩
    else none
  | _ => none

/-! ### What is rendered -/

section Render
variable {R : Type*} (ryu : R → Token)

/-- The bytes that the crate prints. -/
def printed (r : R) : Bytes := asBytes (ryu r).text

namespace Point

def line (p : Point R) : Bytes :=
  Telegraf.formatLine (printed ryu) (Telegraf.buildPrefix p.target.text p.az.text) p.outcome p.timestamp

def content (p : Point R) : Point Token := ⟨p.target,p.az,p.outcome.map ryu,p.timestamp⟩

end Point

namespace Putval

def line (v : Putval R) : Bytes :=
  (Collectd.formatLine (printed ryu) (Collectd.newExec v.host.text v.target.text v.interval)
    v.outcome).buf

def content (v : Putval R) : Putval Token := ⟨v.host,v.target,v.interval,v.outcome.map ryu⟩

/-- The line does not depend on where it goes. -/
theorem line_uds (v : Putval R) {path : List Char} {io : Io} {e : CollectdExporter}
    (h : Collectd.newUds path v.host.text v.target.text v.interval io = .ok e) :
    (Collectd.formatLine (printed ryu) e v.outcome).buf = v.line ryu := by
  rw [newUds_eq_ok h, line, formatLine_buf, formatLine_buf]
  rfl

end Putval

end Render

theorem component_keyed {key value : List Char} (hkey : Component key) (hvalue : Component value)
    {x : Char} : Over [x] (key++x::value) :=
  over_append (over_component hkey _) (over_cons (List.mem_singleton_self x) (over_component hvalue _))

theorem keyed_component {key value : List Char} (hkey : Component key) (hvalue : Component value) :
    keyed key (key++ '='::value) = some value :=
  keyed_eq (hkey.not_mem (by decide)) (hvalue.not_mem (by decide))

namespace Point

def tags (p : Point Token) : List (List Char) :=
  ["tcp_latency".toList,"target".toList++ '='::p.target.text,"az".toList++ '='::p.az.text]

def fields (p : Point Token) : List (List Char) :=
  match p.outcome with
  | none => ["success".toList++ '='::"0i".toList]
  | some t => ["rtt_ms".toList++ '='::t.text,"success".toList++ '='::"1i".toList]

def words (p : Point Token) : List (List Char) :=
  [[','].intercalate p.tags,[','].intercalate p.fields,decimal p.timestamp]

def body (p : Point Token) : List Char := [' '].intercalate p.words

theorem line_eq {R : Type*} (ryu : R → Token) (p : Point R) :
    p.line ryu = asBytes ((p.content ryu).body++['\n']) := by
  obtain ⟨target,az,outcome,timestamp⟩ := p
  simp only [Point.line, Telegraf.formatLine, Telegraf.buildPrefix, printed, newline]
  rw [show ([10] : Bytes) = asBytes ['\n'] from rfl]
  cases outcome with
  | none =>
    simp only [← asBytes_append]
    refine congrArg asBytes ?_
    simp [body, words, tags, fields, content, decimal, itoa]
  | some r =>
    simp only [← asBytes_append]
    refine congrArg asBytes ?_
    simp [body, words, tags, fields, content, decimal, itoa]

theorem tags_over (p : Point Token) : ∀ l ∈ p.tags, Over ['='] l := by
  simp only [tags, List.forall_mem_cons, List.not_mem_nil, false_imp_iff, implies_true, and_true]
  refine ⟨?_,?_,?_⟩
  · exact over_component (by decide) _
  · exact component_keyed (by decide) p.target.component
  · exact component_keyed (by decide) p.az.component

theorem fields_over (p : Point Token) : ∀ l ∈ p.fields, Over ['='] l := by
  unfold fields
  cases p.outcome with
  | none => exact List.forall_mem_singleton.mpr (component_keyed (by decide) (by decide))
  | some t =>
    refine List.forall_mem_cons.mpr ⟨?_,List.forall_mem_singleton.mpr ?_⟩
    · exact component_keyed (by decide) t.component
    · exact component_keyed (by decide) (by decide)

theorem readOutcome_fields (p : Point Token) : readOutcome p.fields = some p.outcome := by
  have hsuccess : ∀ flag : List Char, Component flag →
      keyed "success".toList ("success".toList++ '='::flag) = some flag :=
    fun flag => keyed_component (by decide)
  unfold fields
  cases p.outcome with
  | none =>
    rw [readOutcome, if_pos (hsuccess "0i".toList (by decide))]
  | some t =>
    have hrtt : keyed "rtt_ms".toList ("rtt_ms".toList++ '='::t.text) = some t.text :=
      keyed_component (by decide) t.component
    simp only [readOutcome]
    rw [hrtt, hsuccess "1i".toList (by decide)]
    simp [readToken_text]

theorem words_over (p : Point Token) : ∀ l ∈ p.words, Over ['=',','] l := by
  simp only [words, List.forall_mem_cons, List.not_mem_nil, false_imp_iff, implies_true, and_true]
  refine ⟨?_,?_,?_⟩
  · exact over_intercalate (by decide) fun l hl => (p.tags_over l hl).mono (by decide)
  · exact over_intercalate (by decide) fun l hl => (p.fields_over l hl).mono (by decide)
  · exact over_component (decimal_component _) _

theorem body_printable (p : Point Token) : ∀ c ∈ p.body, Printable c := by
  have hbody : Over ['=',',',' '] p.body :=
    over_intercalate (by decide) fun l hl => (p.words_over l hl).mono (by decide)
  exact hbody.printable (by simp [Printable])

theorem readTags_tags (p : Point Token) : readTags p.tags = some (p.target,p.az) := by
  have htarget : keyed "target".toList ("target".toList++ '='::p.target.text) = some p.target.text :=
    keyed_component (by decide) p.target.component
  have haz : keyed "az".toList ("az".toList++ '='::p.az.text) = some p.az.text :=
    keyed_component (by decide) p.az.component
  rw [tags, readTags, if_pos rfl, htarget, haz]
  simp [readName_text]

theorem decode_body (p : Point Token) : decodePoint (asBytes (p.body++['\n'])) = some p := by
  have hwords : p.body.splitOn ' ' = p.words :=
    split_intercalate p.words_over (by decide) (by decide) (by simp [words])
  have htags : ([','].intercalate p.tags).splitOn ',' = p.tags :=
    split_intercalate p.tags_over (by decide) (by decide) (by simp [tags])
  have hfields : ([','].intercalate p.fields).splitOn ',' = p.fields :=
    split_intercalate p.fields_over (by decide) (by decide)
      (by unfold fields; split <;> exact List.cons_ne_nil _ _)
  rw [decodePoint, chomp_asBytes p.body_printable, Option.bind_eq_bind, Option.bind_some, hwords, words]
  simp only [htags, hfields, readTags_tags, readOutcome_fields, readNumeral_decimal]
  rfl

end Point

namespace Putval

def identifier (v : Putval Token) : List (List Char) :=
  [v.host.text,"wire-probe-tcp".toList,"latency-".toList++v.target.text]

def value (v : Putval Token) : List Char :=
  match v.outcome with
  | none => ['U']
  | some t => t.text

def words (v : Putval Token) : List (List Char) :=
  ["PUTVAL".toList,['/'].intercalate v.identifier,"interval=".toList++decimal v.interval,
    "N:".toList++v.value]

def body (v : Putval Token) : List Char := [' '].intercalate v.words

theorem line_eq {R : Type*} (ryu : R → Token) (v : Putval R) :
    v.line ryu = asBytes ((v.content ryu).body++['\n']) := by
  obtain ⟨host,target,interval,outcome⟩ := v
  simp only [line, formatLine_buf, Collectd.line, Collectd.newExec, Collectd.buildPrefix, printed, newline]
  rw [show ([10] : Bytes) = asBytes ['\n'] from rfl]
  cases outcome with
  | none =>
    simp only [← asBytes_append]
    refine congrArg asBytes ?_
    simp [body, words, identifier, value, content, decimal, itoa]
  | some r =>
    simp only [← asBytes_append]
    refine congrArg asBytes ?_
    simp [body, words, identifier, value, content, decimal, itoa]

theorem value_component (v : Putval Token) : Component v.value := by
  unfold value
  cases v.outcome with
  | none => decide
  | some t => exact t.component

theorem identifier_over (v : Putval Token) : ∀ l ∈ v.identifier, Over [] l := by
  simp only [identifier, List.forall_mem_cons, List.not_mem_nil, false_imp_iff, implies_true, and_true]
  refine ⟨?_,?_,?_⟩
  · exact over_component v.host.component _
  · exact over_component (by decide) _
  · exact over_append (over_component (by decide) _) (over_component v.target.component _)

theorem words_over (v : Putval Token) : ∀ l ∈ v.words, Over ['/','=',':'] l := by
  simp only [words, List.forall_mem_cons, List.not_mem_nil, false_imp_iff, implies_true, and_true]
  refine ⟨?_,?_,?_,?_⟩
  · exact over_component (by decide) _
  · exact over_intercalate (by decide) fun l hl => (v.identifier_over l hl).mono (List.nil_subset _)
  · exact over_append (by decide) (over_component (decimal_component _) _)
  · exact over_append (by decide) (over_component v.value_component _)

theorem body_printable (v : Putval Token) : ∀ c ∈ v.body, Printable c := by
  have hbody : Over ['/','=',':',' '] v.body :=
    over_intercalate (by decide) fun l hl => (v.words_over l hl).mono (by decide)
  exact hbody.printable (by simp [Printable])

theorem readIdentifier_identifier (v : Putval Token) :
    readIdentifier v.identifier = some (v.host,v.target) := by
  rw [identifier, readIdentifier, if_pos rfl, strip_append]
  simp [readName_text]

theorem readValue_value (v : Putval Token) : readValue v.value = some v.outcome := by
  unfold value readValue
  cases v.outcome with
  | none => exact if_pos rfl
  | some t =>
    have hnum : t.text ≠ ['U'] := by
      intro h
      exact absurd (t.printed 'U' (h ▸ List.mem_singleton_self _)) (by decide)
    simp [hnum, readToken_text]

theorem decode_body (v : Putval Token) : decodePutval (asBytes (v.body++['\n'])) = some v := by
  have hwords : v.body.splitOn ' ' = v.words :=
    split_intercalate v.words_over (by decide) (by decide) (by simp [words])
  have hidentifier : (['/'].intercalate v.identifier).splitOn '/' = v.identifier :=
    split_intercalate v.identifier_over (by decide) (by decide) (by simp [identifier])
  rw [decodePutval, chomp_asBytes v.body_printable, Option.bind_eq_bind, Option.bind_some, hwords, words]
  simp only [hidentifier, readIdentifier_identifier, strip_append, if_true, Option.bind_eq_bind,
    Option.bind_some, readNumeral_decimal, readValue_value]
  rfl

end Putval

/-- Both decoders read back what was rendered, so a failure is not taken for a
value nor a value for a failure, and distinct points have distinct lines. -/
theorem lines_decode {R : Type*} (ryu : R → Token) :
    (∀ p : Point R, decodePoint (p.line ryu) = some (p.content ryu) ∧ OneLine (p.line ryu)) ∧
    (∀ v : Putval R, decodePutval (v.line ryu) = some (v.content ryu) ∧ OneLine (v.line ryu)) ∧
    (∀ (p : Point R) (q : Point Token), decodePoint (p.line ryu) = some q →
      (q.outcome = none ↔ p.outcome = none)) ∧
    (∀ (v : Putval R) (u : Putval Token), decodePutval (v.line ryu) = some u →
      (u.outcome = none ↔ v.outcome = none)) ∧
    (∀ p q : Point R, p.line ryu = q.line ryu → p.content ryu = q.content ryu) ∧
    ∀ u v : Putval R, u.line ryu = v.line ryu → u.content ryu = v.content ryu := by
  have hpoint : ∀ p : Point R, decodePoint (p.line ryu) = some (p.content ryu) :=
    fun p => p.line_eq ryu ▸ (p.content ryu).decode_body
  have hputval : ∀ v : Putval R, decodePutval (v.line ryu) = some (v.content ryu) :=
    fun v => v.line_eq ryu ▸ (v.content ryu).decode_body
  refine ⟨fun p => ⟨hpoint p,?_⟩,fun v => ⟨hputval v,?_⟩,?_,?_,?_,?_⟩
  · rw [p.line_eq]
    exact oneLine_asBytes (p.content ryu).body_printable
  · rw [v.line_eq]
    exact oneLine_asBytes (v.content ryu).body_printable
  · intro p q h
    rw [hpoint, Option.some.injEq] at h
    rw [← h]
    exact Option.map_eq_none_iff
  · intro v u h
    rw [hputval, Option.some.injEq] at h
    rw [← h]
    exact Option.map_eq_none_iff
  · intro p q h
    have hdecode := congrArg decodePoint h
    rw [hpoint, hpoint] at hdecode
    exact Option.some.inj hdecode
  · intro u v h
    have hdecode := congrArg decodePutval h
    rw [hputval, hputval] at hdecode
    exact Option.some.inj hdecode

end WireProbe.LineDecoding
