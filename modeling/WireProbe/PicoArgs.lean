import WireProbe.Cli

/-!
# The argument parser

`parse` reads its command line through `pico_args`, which is no part of this
repository: it is a parameter here, and only what it documents is used of it.
Its answers, in the order in which `parse` asks, are what `parse` works on.
-/

set_option autoImplicit false

namespace WireProbe.PicoArgs
open WireProbe.Durations WireProbe.Text WireProbe.Cli

/-- The calls of `pico_args::Arguments` on the arguments that are left, each
with the ones it leaves. Values are read with `from_str` of their type, and
`missing` is the error about a required option. -/
structure Calls (E : Type) where
  contains : List (List Char) → List (List Char) → Bool × List (List Char)
  optValueFromStr : {T : Type} → (List Char → Option T) → List Char → List (List Char) →
    Except E (Option T) × List (List Char)
  missing : List Char → E

variable {E T : Type}

def Calls.valueFromStr (pico : Calls E) (fromStr : List Char → Option T) (key : List Char)
    (args : List (List Char)) : Except E T × List (List Char) :=
  let (answer, left) := pico.optValueFromStr fromStr key args
  match answer with
  | .ok (some t) => (.ok t, left)
  | .ok none => (.error (pico.missing key), left)
  | .error e => (.error e, left)

/-- What the parser documents: a flag is found at any position, and the value of
an option is the argument that follows it. -/
structure Documented (pico : Calls E) : Prop where
  contains_iff : ∀ keys args, (pico.contains keys args).1 = true ↔ ∃ key ∈ keys, key ∈ args
  contains_absent : ∀ keys args, (pico.contains keys args).1 = false →
    (pico.contains keys args).2 = args
  contains_left : ∀ keys args, (pico.contains keys args).2 ⊆ args
  given : ∀ {T : Type} (fromStr : List Char → Option T) key v left t, fromStr v = some t →
    pico.optValueFromStr fromStr key (key::v::left) = (.ok (some t),left)
  value_mem : ∀ {T : Type} (fromStr : List Char → Option T) key args t,
    (pico.optValueFromStr fromStr key args).1 = .ok (some t) → ∃ v ∈ args, fromStr v = some t
  value_left : ∀ {T : Type} (fromStr : List Char → Option T) key args,
    (pico.optValueFromStr fromStr key args).2 ⊆ args

/-! ### The questions of `parse` -/

/-- `u16::from_str`, but for its error. -/
def u16FromStr (s : List Char) : Option UInt16 :=
  (fromStr s).toOption.bind fun v => if v.toNat < 65536 then some (.ofNat v.toNat) else none

def helpKeys : List (List Char) := ["-h".toList,"--help".toList]
def versionKeys : List (List Char) := ["--version".toList]

section Questions
variable (pico : Calls E)

/-- No option but the mode has been asked for. -/
def Calls.asked (help version : Bool) (mode : Except E (Option (List Char)))
    (left : List (List Char)) : Arguments E where
  help := help
  version := version
  mode := mode
  bind := .ok none
  port := .ok none
  target := .error (pico.missing "--target".toList)
  targetName := .ok none
  az := .ok none
  interval := .ok none
  timeout := .ok none
  exportDst := .ok none
  leftover := left

def Calls.server (a : Arguments E) : Arguments E :=
  let (bind, left) := pico.optValueFromStr some "--bind".toList a.leftover
  let (port, left) := pico.optValueFromStr u16FromStr "--port".toList left
  { a with bind := bind, port := port, leftover := left }

def Calls.probe (a : Arguments E) : Arguments E :=
  let (target, left) := pico.valueFromStr some "--target".toList a.leftover
  let (targetName, left) := pico.optValueFromStr some "--target-name".toList left
  let (az, left) := pico.optValueFromStr some "--az".toList left
  let (interval, left) := pico.optValueFromStr some "--interval".toList left
  let (timeout, left) := pico.optValueFromStr some "--timeout".toList left
  let (exportDst, left) := pico.optValueFromStr some "--export".toList left
  { a with
    target := target, targetName := targetName, az := az, interval := interval
    timeout := timeout, exportDst := exportDst, leftover := left }

/-- The options of the mode. -/
def Calls.options (a : Arguments E) : Arguments E :=
  match a.mode with
  | .ok (some mode) =>
    if mode = "server".toList then pico.server a
    else if mode = "probe".toList then pico.probe a
    else a
  | _ => a

/-- The answers to what `parse` asks for the arguments `argv`. -/
def Calls.answers (argv : List (List Char)) : Arguments E :=
  let (help, left) := pico.contains helpKeys argv
  let (version, left) := pico.contains versionKeys left
  let (mode, left) := pico.optValueFromStr some "--mode".toList left
  pico.options (pico.asked help version mode left)

end Questions

/-! ### Texts of the command line -/

/-- Every text among the answers is one of the arguments. -/
structure Within (argv : List (List Char)) (a : Arguments E) : Prop where
  bind : ∀ v, a.bind = .ok (some v) → v ∈ argv
  target : ∀ v, a.target = .ok v → v ∈ argv
  targetName : ∀ v, a.targetName = .ok (some v) → v ∈ argv
  az : ∀ v, a.az = .ok (some v) → v ∈ argv
  exportDst : ∀ v, a.exportDst = .ok (some v) → v ∈ argv
  leftover : a.leftover ⊆ argv

section Texts
variable {pico : Calls E}

theorem Documented.text (h : Documented pico) {args argv : List (List Char)} (hargs : args ⊆ argv)
    (key : List Char) :
    (∀ v, (pico.optValueFromStr some key args).1 = .ok (some v) → v ∈ argv) ∧
      (pico.optValueFromStr (T := List Char) some key args).2 ⊆ argv := by
  refine ⟨?_,List.Subset.trans (h.value_left _ _ _) hargs⟩
  intro v hv
  obtain ⟨v',hmem,hread⟩ := h.value_mem _ _ _ _ hv
  exact Option.some.inj hread ▸ hargs hmem

theorem Documented.required (h : Documented pico) {args argv : List (List Char)}
    (hargs : args ⊆ argv) (key : List Char) :
    (∀ v, (pico.valueFromStr some key args).1 = .ok v → v ∈ argv) ∧
      (pico.valueFromStr (T := List Char) some key args).2 ⊆ argv := by
  obtain ⟨hvalue,hleft⟩ := h.text hargs key
  unfold Calls.valueFromStr
  generalize pico.optValueFromStr (T := List Char) some key args = answer at hvalue hleft
  obtain ⟨(_ | _ | v),left⟩ := answer
  · exact ⟨by rintro v ⟨⟩,hleft⟩
  · exact ⟨by rintro v ⟨⟩,hleft⟩
  · refine ⟨?_,hleft⟩
    rintro _ ⟨⟩
    exact hvalue v rfl

theorem within_server (h : Documented pico) {argv : List (List Char)} {a : Arguments E}
    (ha : Within argv a) : Within argv (pico.server a) := by
  obtain ⟨hbind,hleft⟩ := h.text ha.leftover "--bind".toList
  exact { ha with
    bind := hbind
    leftover := List.Subset.trans (h.value_left _ _ _) hleft }

theorem within_probe (h : Documented pico) {argv : List (List Char)} {a : Arguments E}
    (ha : Within argv a) : Within argv (pico.probe a) := by
  obtain ⟨htarget,hleft₁⟩ := h.required ha.leftover "--target".toList
  obtain ⟨htargetName,hleft₂⟩ := h.text hleft₁ "--target-name".toList
  obtain ⟨haz,hleft₃⟩ := h.text hleft₂ "--az".toList
  obtain ⟨-,hleft₄⟩ := h.text hleft₃ "--interval".toList
  obtain ⟨-,hleft₅⟩ := h.text hleft₄ "--timeout".toList
  obtain ⟨hexportDst,hleft₆⟩ := h.text hleft₅ "--export".toList
  exact ⟨ha.bind,htarget,htargetName,haz,hexportDst,hleft₆⟩

theorem within_options (h : Documented pico) {argv : List (List Char)} {a : Arguments E}
    (ha : Within argv a) : Within argv (pico.options a) := by
  unfold Calls.options
  split
  · split_ifs
    · exact within_server h ha
    · exact within_probe h ha
    · exact ha
  · exact ha

theorem within_answers (h : Documented pico) (argv : List (List Char)) :
    Within argv (pico.answers argv) := by
  have hhelp := h.contains_left helpKeys argv
  have hversion := List.Subset.trans (h.contains_left versionKeys _) hhelp
  have hmode := (h.text hversion "--mode".toList).2
  refine within_options h ⟨?_,?_,?_,?_,?_,hmode⟩ <;> rintro v ⟨⟩

theorem options_flags (pico : Calls E) (a : Arguments E) :
    (pico.options a).help = a.help ∧ (pico.options a).version = a.version := by
  unfold Calls.options
  split
  · split_ifs <;> exact ⟨rfl,rfl⟩
  · exact ⟨rfl,rfl⟩

/-- The flags are looked for in the whole command line. -/
theorem answers_flags (pico : Calls E) (argv : List (List Char)) :
    (pico.answers argv).help = (pico.contains helpKeys argv).1 ∧
      (pico.answers argv).version =
        (pico.contains versionKeys (pico.contains helpKeys argv).2).1 :=
  options_flags pico _

end Texts

/-! ### A parser of this kind -/

/-- The argument after the option `key`, which it takes with it. -/
def takeValue (fromStr : List Char → Option T) (key : List Char) :
    List (List Char) → Except Unit (Option T) × List (List Char)
  | [] => (.error (), [key])
  | v::left =>
    match fromStr v with
    | some t => (.ok (some t), left)
    | none => (.error (), key::v::left)

/-- The value of the first argument `key`. -/
def takeOption (fromStr : List Char → Option T) (key : List Char) :
    List (List Char) → Except Unit (Option T) × List (List Char)
  | [] => (.ok none, [])
  | a::rest =>
    if a = key then takeValue fromStr key rest
    else ((takeOption fromStr key rest).1, a::(takeOption fromStr key rest).2)

def takeFlag (keys args : List (List Char)) : Bool × List (List Char) :=
  match keys.find? (· ∈ args) with
  | some key => (true, args.erase key)
  | none => (false, args)

def scan : Calls Unit where
  contains := takeFlag
  optValueFromStr := takeOption
  missing _ := ()

theorem takeFlag_absent {keys args : List (List Char)} (h : ∀ key ∈ keys, key ∉ args) :
    takeFlag keys args = (false,args) := by
  have hfind : keys.find? (· ∈ args) = none := by
    rw [List.find?_eq_none]
    simpa using h
  rw [takeFlag, hfind]

theorem takeFlag_iff (keys args : List (List Char)) :
    (takeFlag keys args).1 = true ↔ ∃ key ∈ keys, key ∈ args := by
  by_cases h : ∃ key ∈ keys, key ∈ args
  · obtain ⟨key,hkey,hmem⟩ := h
    have hfind : (keys.find? (· ∈ args)).isSome = true := by
      rw [List.find?_isSome]
      exact ⟨key,hkey,by simpa using hmem⟩
    obtain ⟨found,hfound⟩ := Option.isSome_iff_exists.mp hfind
    rw [takeFlag, hfound]
    exact iff_of_true rfl ⟨key,hkey,hmem⟩
  · rw [takeFlag_absent (by simpa using h)]
    exact iff_of_false Bool.false_ne_true h

theorem takeValue_spec (fromStr : List Char → Option T) (key : List Char)
    (rest : List (List Char)) :
    (∀ t, (takeValue fromStr key rest).1 = .ok (some t) → ∃ v ∈ rest, fromStr v = some t) ∧
      (takeValue fromStr key rest).2 ⊆ key::rest := by
  cases rest with
  | nil => exact ⟨by rintro t ⟨⟩,List.Subset.refl _⟩
  | cons v left =>
    rw [takeValue]
    cases hread : fromStr v with
    | none => exact ⟨by rintro t ⟨⟩,List.Subset.refl _⟩
    | some t =>
      refine ⟨?_,List.Subset.trans (List.subset_cons_self v left) (List.subset_cons_self key _)⟩
      rintro _ ⟨⟩
      exact ⟨v,List.mem_cons_self,hread⟩

theorem takeOption_spec (fromStr : List Char → Option T) (key : List Char)
    (args : List (List Char)) :
    (∀ t, (takeOption fromStr key args).1 = .ok (some t) → ∃ v ∈ args, fromStr v = some t) ∧
      (takeOption fromStr key args).2 ⊆ args := by
  induction args with
  | nil => exact ⟨by rintro t ⟨⟩,List.Subset.refl _⟩
  | cons a rest ih =>
    rw [takeOption]
    split_ifs with hkey
    · obtain ⟨hvalue,hleft⟩ := takeValue_spec fromStr key rest
      refine ⟨fun t h => ?_,hkey ▸ hleft⟩
      obtain ⟨v,hmem,hread⟩ := hvalue t h
      exact ⟨v,List.mem_cons_of_mem a hmem,hread⟩
    · refine ⟨fun t h => ?_,List.cons_subset_cons a ih.2⟩
      obtain ⟨v,hmem,hread⟩ := ih.1 t h
      exact ⟨v,List.mem_cons_of_mem a hmem,hread⟩

theorem scan_documented : Documented scan where
  contains_iff := takeFlag_iff
  contains_absent keys args h := by
    have hnone : ¬ ∃ key ∈ keys, key ∈ args := by
      rw [← takeFlag_iff]
      exact ne_true_of_eq_false h
    exact congrArg Prod.snd (takeFlag_absent (by simpa using hnone))
  contains_left keys args := by
    show (takeFlag keys args).2 ⊆ args
    unfold takeFlag
    split
    · exact List.erase_subset
    · exact List.Subset.refl _
  given fromStr key v left t h := by simp [scan, takeOption, takeValue, h]
  value_mem fromStr key args := (takeOption_spec fromStr key args).1
  value_left fromStr key args := (takeOption_spec fromStr key args).2

end WireProbe.PicoArgs
