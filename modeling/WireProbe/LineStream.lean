import WireProbe.Framing

/-!
# The lines of a stream

A reader takes a stream up to each separator as one line; what follows the last
separator is not yet a line. From the streams of a wire it takes the lines that
were written whole, in order, each behind the torn lines left in its way.
-/

set_option autoImplicit false

namespace WireProbe.LineStream
open WireProbe.Framing

variable {α : Type*}

/-- One separator, at the end. -/
def Line (sep : α) (l : List α) : Prop := ∃ body, l = body++[sep] ∧ sep ∉ body

theorem Line.not_mem_piece {sep : α} {line : List α} (h : Line sep line) (n : ℕ) :
    sep ∉ piece n line := by
  obtain ⟨body,rfl,hbody⟩ := h
  rw [piece, List.dropLast_concat]
  exact fun hmem => hbody (List.mem_of_mem_take hmem)

/-- The lines that arrive: those written whole, each behind what was torn on
its stream since the line before. -/
def landed : List α → List (List α × Attempt) → List (List α)
  | _, [] => []
  | torn, (line,.whole)::calls => (torn++line)::landed [] calls
  | torn, (line,.kept n)::calls => landed (torn++piece n line) calls
  | _, (_,.replaced _)::calls => landed [] calls

section Reader
variable [DecidableEq α] (sep : α)

/-- The lines completed by some input, when `begun` is the start of the first. -/
def linesFrom : List α → List α → List (List α)
  | _, [] => []
  | begun, x::rest =>
    if x = sep then (begun++[x])::linesFrom [] rest else linesFrom (begun++[x]) rest

/-- What is left after the last separator. -/
def restFrom : List α → List α → List α
  | begun, [] => begun
  | begun, x::rest => if x = sep then restFrom [] rest else restFrom (begun++[x]) rest

def linesOf (stream : List α) : List (List α) := linesFrom sep [] stream

def restOf (stream : List α) : List α := restFrom sep [] stream

variable {sep}

theorem linesFrom_append (begun stream more : List α) :
    linesFrom sep begun (stream++more) =
      linesFrom sep begun stream++linesFrom sep (restFrom sep begun stream) more := by
  induction stream generalizing begun with
  | nil => rfl
  | cons x stream ih =>
    rw [List.cons_append, linesFrom, linesFrom, restFrom]
    by_cases hx : x = sep
    · simp only [hx, if_true, ih, List.cons_append]
    · simp only [hx, if_false, ih]

theorem restFrom_append (begun stream more : List α) :
    restFrom sep begun (stream++more) = restFrom sep (restFrom sep begun stream) more := by
  induction stream generalizing begun with
  | nil => rfl
  | cons x stream ih =>
    rw [List.cons_append, restFrom, restFrom]
    by_cases hx : x = sep
    · simp only [hx, if_true, ih]
    · simp only [hx, if_false, ih]

theorem linesFrom_body {body : List α} (h : sep ∉ body) (begun : List α) :
    linesFrom sep begun body = [] ∧ restFrom sep begun body = begun++body := by
  induction body generalizing begun with
  | nil => exact ⟨rfl,(List.append_nil _).symm⟩
  | cons x body ih =>
    rw [List.mem_cons, not_or] at h
    obtain ⟨hlines,hrest⟩ := ih h.2 (begun++[x])
    rw [linesFrom, restFrom, if_neg (Ne.symm h.1), if_neg (Ne.symm h.1)]
    exact ⟨hlines,by simpa using hrest⟩

theorem linesFrom_line {line : List α} (h : Line sep line) (begun : List α) :
    linesFrom sep begun line = [begun++line] ∧ restFrom sep begun line = [] := by
  obtain ⟨body,rfl,hbody⟩ := h
  obtain ⟨hlines,hrest⟩ := linesFrom_body hbody begun
  rw [linesFrom_append, restFrom_append, hlines, hrest]
  simp [linesFrom, restFrom]

theorem linesOf_line {line : List α} (h : Line sep line) (stream : List α) :
    linesOf sep (stream++line) = linesOf sep stream++[restOf sep stream++line] ∧
      restOf sep (stream++line) = [] := by
  obtain ⟨hlines,hrest⟩ := linesFrom_line h (restOf sep stream)
  exact ⟨(linesFrom_append _ _ _).trans (congrArg _ hlines),(restFrom_append _ _ _).trans hrest⟩

theorem linesOf_piece {line : List α} (h : Line sep line) (n : ℕ) (stream : List α) :
    linesOf sep (stream++piece n line) = linesOf sep stream ∧
      restOf sep (stream++piece n line) = restOf sep stream++piece n line := by
  obtain ⟨hlines,hrest⟩ := linesFrom_body (h.not_mem_piece n) (restOf sep stream)
  refine ⟨(linesFrom_append _ _ _).trans ?_,(restFrom_append _ _ _).trans hrest⟩
  rw [show linesFrom sep (restFrom sep [] stream) (piece n line) = [] from hlines, List.append_nil]
  rfl

/-- Over all streams of a wire, exactly those lines are read. -/
theorem lines_run (w : Wire α) (calls : List (List α × Attempt)) (h : ∀ c ∈ calls, Line sep c.1) :
    (w.run calls).streams.flatMap (linesOf sep) =
      w.streams.flatMap (linesOf sep)++landed (restOf sep w.current) calls := by
  induction calls generalizing w with
  | nil => exact (List.append_nil _).symm
  | cons c calls ih =>
    obtain ⟨line,a⟩ := c
    obtain ⟨hline,hcalls⟩ := List.forall_mem_cons.mp h
    have hrest := ih (w.write line a) hcalls
    rw [Wire.run, hrest]
    cases a with
    | whole =>
      obtain ⟨hlines,hnil⟩ := linesOf_line hline w.current
      simp [Wire.streams, Wire.write, landed, hlines, hnil]
    | kept n =>
      obtain ⟨hlines,htorn⟩ := linesOf_piece hline n w.current
      simp [Wire.streams, Wire.write, landed, hlines, htorn]
    | replaced n =>
      obtain ⟨hlines,-⟩ := linesOf_piece hline n w.current
      have hempty : linesOf sep [] = [] ∧ restOf sep [] = [] := ⟨rfl,rfl⟩
      simp [Wire.streams, Wire.write, landed, hlines, hempty]

end Reader

end WireProbe.LineStream
