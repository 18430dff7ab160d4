import Mathlib.Data.List.Basic
import Mathlib.Tactic.Common

/-!
# Framed streams

A stream is whole when it is the concatenation of some of the lines offered to
it, in order and each at most once. It is framed when at most one truncated
line follows. A whole stream takes another line or a piece of one; what
follows a truncated line can no longer be told from it.
-/

set_option autoImplicit false

namespace WireProbe.Framing

variable {α : Type*}

def Whole (lines : List (List α)) (stream : List α) : Prop :=
  ∃ whole : List (List α), whole.Sublist lines ∧ stream = whole.flatten

def Framed (lines : List (List α)) (stream : List α) : Prop :=
  Whole lines stream ∨ ∃ whole line torn, (whole++[line]).Sublist lines ∧
    torn <+: line ∧ torn ≠ line ∧ stream = whole.flatten++torn

theorem whole_nil (lines : List (List α)) : Whole lines [] :=
  ⟨[],List.nil_sublist _,rfl⟩

theorem Whole.framed {lines : List (List α)} {stream : List α} (h : Whole lines stream) :
    Framed lines stream := Or.inl h

theorem Whole.more {lines : List (List α)} {stream : List α} (h : Whole lines stream)
    (rest : List (List α)) : Whole (lines++rest) stream := by
  obtain ⟨whole,hsub,rfl⟩ := h
  exact ⟨whole,hsub.trans (List.sublist_append_left _ _),rfl⟩

theorem Framed.more {lines : List (List α)} {stream : List α} (h : Framed lines stream)
    (rest : List (List α)) : Framed (lines++rest) stream := by
  rcases h with h | ⟨whole,line,torn,hsub,hp,hne,rfl⟩
  · exact Or.inl (h.more rest)
  · exact Or.inr ⟨whole,line,torn,hsub.trans (List.sublist_append_left _ _),hp,hne,rfl⟩

theorem Whole.line {lines : List (List α)} {stream : List α} (h : Whole lines stream)
    (line : List α) : Whole (lines++[line]) (stream++line) := by
  obtain ⟨whole,hsub,rfl⟩ := h
  exact ⟨whole++[line],hsub.append (List.Sublist.refl _),by simp⟩

theorem Whole.torn {lines : List (List α)} {stream : List α} (h : Whole lines stream)
    {line torn : List α} (hp : torn <+: line) (hne : torn ≠ line) :
    Framed (lines++[line]) (stream++torn) := by
  obtain ⟨whole,hsub,rfl⟩ := h
  exact Or.inr ⟨whole,line,torn,hsub.append (List.Sublist.refl _),hp,hne,rfl⟩

/-- What a failed write leaves behind: never the last byte. -/
def piece (n : ℕ) (line : List α) : List α := line.dropLast.take n

theorem piece_isPrefix (n : ℕ) (line : List α) : piece n line <+: line :=
  (List.take_prefix _ _).trans (List.dropLast_prefix _)

theorem piece_ne (n : ℕ) {line : List α} (h : line ≠ []) : piece n line ≠ line := by
  intro he
  have hlen := congrArg List.length he
  have hpos := List.length_pos_of_ne_nil h
  simp only [piece, List.length_take, List.length_dropLast] at hlen
  omega

theorem piece_eq_nil {n : ℕ} {line : List α} (h : 2 ≤ line.length) : piece n line = [] ↔ n = 0 := by
  rw [← List.length_eq_zero_iff]
  simp only [piece, List.length_take, List.length_dropLast]
  omega

/-! ### A wire that may be replaced after a failed write -/

structure Wire (α : Type*) where
  closed : List (List α)
  current : List α

/-- One attempt to write a line: all of it, a piece with the stream kept, or a
piece with the stream replaced by a fresh one. -/
inductive Attempt where
  | whole
  | kept (n : ℕ)
  | replaced (n : ℕ)
  deriving DecidableEq, Repr

def Attempt.Tears : Attempt → Prop
  | .whole => False
  | .kept n => n ≠ 0
  | .replaced n => n ≠ 0

namespace Wire

def write (w : Wire α) (line : List α) : Attempt → Wire α
  | .whole => ⟨w.closed,w.current++line⟩
  | .kept n => ⟨w.closed,w.current++piece n line⟩
  | .replaced n => ⟨w.closed++[w.current++piece n line],[]⟩

def run : Wire α → List (List α × Attempt) → Wire α
  | w, [] => w
  | w, (line,a)::rest => run (w.write line a) rest

def streams (w : Wire α) : List (List α) := w.closed++[w.current]

/-- After a line was torn, the stream it was torn on stays as it is. -/
def Silent (w : Wire α) (calls : List (List α × Attempt)) : Prop :=
  ∀ before line a after, calls = before++(line,a)::after → a.Tears →
    (w.run calls).streams[(w.run before).closed.length]? =
      (w.run (before++[(line,a)])).streams[(w.run before).closed.length]?

theorem run_append (w : Wire α) (calls rest : List (List α × Attempt)) :
    w.run (calls++rest) = (w.run calls).run rest := by
  induction calls generalizing w with
  | nil => rfl
  | cons c calls ih => exact ih _

theorem closed_prefix (w : Wire α) (calls : List (List α × Attempt)) :
    w.closed <+: (w.run calls).closed := by
  induction calls generalizing w with
  | nil => exact List.prefix_refl _
  | cons c calls ih =>
    obtain ⟨line,a⟩ := c
    refine List.IsPrefix.trans ?_ (ih (w.write line a))
    cases a with
    | whole => exact List.prefix_refl _
    | kept n => exact List.prefix_refl _
    | replaced n => exact List.prefix_append _ _

/-- A dropped stream is never written again. -/
theorem closed_frozen (w : Wire α) (calls : List (List α × Attempt)) (k : ℕ)
    (hk : k < w.closed.length) : (w.run calls).streams[k]? = w.closed[k]? := by
  obtain ⟨rest,hrest⟩ := w.closed_prefix calls
  rw [streams, ← hrest, List.append_assoc, List.getElem?_append_left hk]

theorem current_extends (w : Wire α) (calls : List (List α × Attempt)) :
    ∃ stream, (w.run calls).streams[w.closed.length]? = some stream ∧ w.current <+: stream := by
  induction calls generalizing w with
  | nil => exact ⟨w.current,by simp [run, streams],List.prefix_refl _⟩
  | cons c calls ih =>
    obtain ⟨line,a⟩ := c
    cases a with
    | whole =>
      obtain ⟨stream,hs,hp⟩ := ih (w.write line .whole)
      exact ⟨stream,hs,(List.prefix_append _ _).trans hp⟩
    | kept n =>
      obtain ⟨stream,hs,hp⟩ := ih (w.write line (.kept n))
      exact ⟨stream,hs,(List.prefix_append _ _).trans hp⟩
    | replaced n =>
      refine ⟨w.current++piece n line,?_,List.prefix_append _ _⟩
      rw [run, closed_frozen _ _ _ (by simp [write])]
      simp [write]

end Wire

/-- No byte follows a torn line on its stream: reading the attempts from left
to right, `true` says that the stream in use ends in a torn line. -/
def Mended : Bool → List Attempt → Prop
  | _, [] => True
  | false, .whole::rest => Mended false rest
  | false, .kept n::rest => Mended (decide (n ≠ 0)) rest
  | false, .replaced _::rest => Mended false rest
  | true, .whole::_ => False
  | true, .kept n::rest => n = 0 ∧ Mended true rest
  | true, .replaced n::rest => n = 0 ∧ Mended false rest

theorem mended_suffix (torn : Bool) (before after : List Attempt)
    (h : Mended torn (before++after)) : ∃ torn', Mended torn' after := by
  induction before generalizing torn with
  | nil => exact ⟨torn,h⟩
  | cons a before ih =>
    cases torn <;> cases a
    · exact ih _ h
    · exact ih _ h
    · exact ih _ h
    · exact h.elim
    · exact ih _ h.2
    · exact ih _ h.2

namespace Wire

theorem torn_frozen (w : Wire α) (calls : List (List α × Attempt))
    (h : Mended true (calls.map Prod.snd)) :
    (w.run calls).streams[w.closed.length]? = some w.current := by
  induction calls generalizing w with
  | nil => simp [run, streams]
  | cons c calls ih =>
    obtain ⟨line,a⟩ := c
    cases a with
    | whole => exact h.elim
    | kept n =>
      obtain ⟨rfl,hrest⟩ := h
      simpa [run, write, piece] using ih (w.write line (.kept 0)) hrest
    | replaced n =>
      obtain ⟨rfl,-⟩ := h
      rw [run, closed_frozen _ _ _ (by simp [write])]
      simp [write, piece]

theorem silent_of_mended (w : Wire α) (calls : List (List α × Attempt))
    (h : Mended false (calls.map Prod.snd)) : w.Silent calls := by
  rintro before line a after rfl htears
  rw [List.map_append] at h
  obtain ⟨torn,h⟩ := mended_suffix false _ _ h
  rw [run_append, run_append]
  generalize w.run before = v
  change ((v.write line a).run after).streams[v.closed.length]? =
    (v.write line a).streams[v.closed.length]?
  cases a with
  | whole => exact htears.elim
  | kept n =>
    cases torn with
    | false =>
      have htrue : Mended true (after.map Prod.snd) := by
        simpa [Mended, show n ≠ 0 from htears] using h
      refine (torn_frozen (v.write line (.kept n)) after htrue).trans ?_
      simp [streams, write]
    | true => exact absurd h.1 htears
  | replaced n =>
    rw [closed_frozen _ _ _ (by simp [write])]
    simp [streams, write]

/-- What is known of the wire once the lines `done` have been offered. -/
def Inv (done : List (List α)) (torn : Bool) (w : Wire α) : Prop :=
  (∀ stream ∈ w.closed, Framed done stream) ∧
  Framed done w.current ∧ (torn = false → Whole done w.current)

theorem write_inv {done : List (List α)} {torn : Bool} {w : Wire α} (h : Inv done torn w)
    {line : List α} (hline : line ≠ []) {a : Attempt} {rest : List Attempt}
    (hm : Mended torn (a::rest)) :
    ∃ torn', Mended torn' rest ∧ Inv (done++[line]) torn' (w.write line a) := by
  obtain ⟨hclosed,hframed,hwhole⟩ := h
  have hold : ∀ stream ∈ w.closed, Framed (done++[line]) stream :=
    fun stream hs => (hclosed stream hs).more [line]
  have hpiece : torn = false → ∀ n, Framed (done++[line]) (w.current++piece n line) :=
    fun ht n => (hwhole ht).torn (piece_isPrefix n line) (piece_ne n hline)
  have hnil : w.current++piece 0 line = w.current := by simp [piece]
  have hfresh : ∀ stream, Framed (done++[line]) stream →
      ∀ x ∈ w.closed++[stream], Framed (done++[line]) x := by
    intro stream hs x hx
    rcases List.mem_append.mp hx with hx | hx
    · exact hold x hx
    · exact List.mem_singleton.mp hx ▸ hs
  cases torn with
  | false =>
    cases a with
    | whole =>
      have hline' := (hwhole rfl).line line
      exact ⟨false,hm,hold,hline'.framed,fun _ => hline'⟩
    | kept n =>
      refine ⟨decide (n ≠ 0),hm,hold,hpiece rfl n,fun hn => ?_⟩
      have h0 : n = 0 := by simpa using hn
      subst h0
      rw [write, hnil]
      exact (hwhole rfl).more [line]
    | replaced n =>
      exact ⟨false,hm,hfresh _ (hpiece rfl n),(whole_nil _).framed,fun _ => whole_nil _⟩
  | true =>
    cases a with
    | whole => exact hm.elim
    | kept n =>
      obtain ⟨rfl,hrest⟩ := hm
      refine ⟨true,hrest,hold,?_,fun h => by cases h⟩
      rw [write, hnil]
      exact hframed.more [line]
    | replaced n =>
      obtain ⟨rfl,hrest⟩ := hm
      exact ⟨false,hrest,hfresh _ (hnil.symm ▸ hframed.more [line]),
        (whole_nil _).framed,fun _ => whole_nil _⟩

theorem run_framed (calls : List (List α × Attempt)) (hlines : ∀ c ∈ calls, c.1 ≠ [])
    (done : List (List α)) (torn : Bool) (w : Wire α) (h : Inv done torn w)
    (hm : Mended torn (calls.map Prod.snd)) :
    ∀ stream ∈ (w.run calls).streams, Framed (done++calls.map Prod.fst) stream := by
  induction calls generalizing done torn w with
  | nil =>
    intro stream hs
    rw [List.map_nil, List.append_nil]
    rcases List.mem_append.mp hs with hs | hs
    · exact h.1 stream hs
    · exact List.mem_singleton.mp hs ▸ h.2.1
  | cons c calls ih =>
    obtain ⟨line,a⟩ := c
    obtain ⟨torn',hm',h'⟩ := write_inv h (hlines (line,a) (by simp)) hm
    have hrest := ih (fun c hc => hlines c (by simp [hc])) (done++[line]) torn' _ h' hm'
    simpa [run] using hrest

/-- The converse: a byte put after a torn line shows on the stream. -/
theorem mended_of_silent (calls : List (List α × Attempt)) (hlines : ∀ c ∈ calls, 2 ≤ c.1.length)
    (torn : Bool) (w : Wire α)
    (htorn : torn = true → (w.run calls).streams[w.closed.length]? = some w.current)
    (hsilent : w.Silent calls) : Mended torn (calls.map Prod.snd) := by
  induction calls generalizing torn w with
  | nil => cases torn <;> trivial
  | cons c calls ih =>
    obtain ⟨line,a⟩ := c
    have hline : 2 ≤ line.length := hlines (line,a) (by simp)
    have hrest : (w.write line a).Silent calls := by
      rintro before line' a' after rfl htears
      exact hsilent ((line,a)::before) line' a' after rfl htears
    have step := fun torn => ih (fun c hc => hlines c (by simp [hc])) torn (w.write line a)
    obtain ⟨stream,hstream,hext⟩ := (w.write line a).current_extends calls
    -- On a stream that stays as it is nothing can have been accepted.
    have hnone : ∀ bytes, torn = true → (w.write line a).closed.length = w.closed.length →
        (w.write line a).current = w.current++bytes → bytes = [] := by
      intro bytes ht hlen hcur
      have hsame : stream = w.current := by
        have hs := htorn ht
        rw [run, ← hlen, hstream] at hs
        exact Option.some.inj hs
      have hle := List.IsPrefix.length_le hext
      rw [hcur, hsame, List.length_append] at hle
      exact List.length_eq_zero_iff.mp (by omega)
    cases torn with
    | false =>
      cases a with
      | whole => exact step false (fun h => by cases h) hrest
      | kept n =>
        refine step _ (fun hn => ?_) hrest
        have h0 : n ≠ 0 := by simpa using hn
        refine (hsilent [] line (.kept n) calls rfl h0).trans ?_
        simp [run, write, streams]
      | replaced n => exact step false (fun h => by cases h) hrest
    | true =>
      cases a with
      | whole =>
        have hnil := hnone line rfl rfl rfl
        simp [hnil] at hline
      | kept n =>
        have hnil := hnone (piece n line) rfl rfl rfl
        have h0 := (piece_eq_nil hline).mp hnil
        subst h0
        refine ⟨rfl,step true (fun _ => ?_) hrest⟩
        simpa [run, write, piece] using htorn rfl
      | replaced n =>
        have hs := htorn rfl
        rw [run, closed_frozen _ _ _ (by simp [write])] at hs
        have hnil : piece n line = [] := by simpa [write] using hs
        exact ⟨(piece_eq_nil hline).mp hnil,step false (fun h => by cases h) hrest⟩

/-- From an unused wire, every stream is framed and stays as it is once torn
exactly where the attempts are mended. -/
theorem framing_iff (calls : List (List α × Attempt)) (hlines : ∀ c ∈ calls, 2 ≤ c.1.length) :
    ((∀ stream ∈ (run ⟨[],[]⟩ calls).streams, Framed (calls.map Prod.fst) stream) ∧
      Silent ⟨[],[]⟩ calls) ↔ Mended false (calls.map Prod.snd) := by
  constructor
  · rintro ⟨-,hsilent⟩
    exact mended_of_silent calls hlines false ⟨[],[]⟩ (fun h => by cases h) hsilent
  · intro hm
    refine ⟨?_,silent_of_mended ⟨[],[]⟩ calls hm⟩
    have hne : ∀ c ∈ calls, c.1 ≠ [] := fun c hc =>
      List.ne_nil_of_length_pos (by have := hlines c hc; omega)
    exact run_framed calls hne [] false ⟨[],[]⟩
      ⟨by simp,(whole_nil _).framed,fun _ => whole_nil _⟩ hm

end Wire

end WireProbe.Framing
