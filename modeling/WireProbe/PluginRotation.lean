import WireProbe.CyclicOrder
import WireProbe.GetAddrInfo
import WireProbe.Transducer

/-!
# The address rotation of the collectd plugin

Under the key of a target the plugin keeps a selected address and a count of
failures. `preferredAddress` reads the address for one cycle and repairs it
where it has vanished from the answers; `recordOutcome` counts and, after
enough failures, moves to the entry that follows in the canonical order.
-/

set_option autoImplicit false

namespace WireProbe.PluginRotation
open WireProbe.CyclicOrder WireProbe.Transducer

/-- The value of `_addr_state` under one key; `none` is Python's `None`. -/
structure Entry (A : Type*) where
  selected : Option A
  failures : ℕ
  deriving DecidableEq, Repr

/-- The dictionary `_addr_state`. -/
abbrev AddrState (Key A : Type*) := Key → Option (Entry A)

def rotateAfterFailures : ℕ := 5

section Dictionary
variable {Key A : Type*}

/-- `_addr_state.get(key, (None, 0))`. -/
def entry (st : AddrState Key A) (key : Key) : Entry A := (st key).getD ⟨none,0⟩

variable [DecidableEq Key]

def store (st : AddrState Key A) (key : Key) (e : Entry A) : AddrState Key A :=
  Function.update st key (some e)

@[simp] theorem entry_store (st : AddrState Key A) (key : Key) (e : Entry A) :
    entry (store st key e) key = e := by
  simp [entry, store]

@[simp] theorem store_store (st : AddrState Key A) (key : Key) (e e' : Entry A) :
    store (store st key e) key e' = store st key e' := by
  simp [store]

theorem store_other (st : AddrState Key A) {key key' : Key} (h : key' ≠ key) (e : Entry A) :
    store st key e key' = st key' := by
  simp [store, h]

end Dictionary

section Model
variable {Key A : Type*} [DecidableEq Key] [LinearOrder A]

/-- `sorted` under the order of the sort keys. -/
def rotationOrder (addrs : List A) : List A := addrs.insertionSort (· ≤ ·)

def preferredAddress (st : AddrState Key A) (key : Key) (addrs : Option (List A)) :
    AddrState Key A × Option A :=
  match addrs with
  | none => (st, none)
  | some [] => (st, none)
  | some (first::rest) =>
    let e := entry st key
    let selected := match e.selected with
      | some a => if (first::rest).contains a then a else first
      | none => first
    (store st key ⟨some selected,e.failures⟩, some selected)

/-- The new state, and the address announced where the selection is rotated. -/
def recordOutcome (st : AddrState Key A) (key : Key) (addrs : Option (List A))
    (succeeded : Bool) : AddrState Key A × Option A :=
  match addrs with
  | none => (st, none)
  | some [] => (st, none)
  | some (first::rest) =>
    let addrs := first::rest
    let e := entry st key
    if succeeded then (store st key ⟨e.selected,0⟩, none)
    else
      let failures := e.failures+1
      if failures < rotateAfterFailures ∨ addrs.length < 2 then
        (store st key ⟨e.selected,failures⟩, none)
      else
        let order := rotationOrder addrs
        let pos := e.selected.bind fun a => order.idxOf? a
        -- `index` raising `ValueError` leaves `pos = -1`, one before the first entry.
        let nxt := match pos with
          | some pos => order[(pos+1) % order.length]?
          | none => order[0]?
        (store st key ⟨nxt,0⟩, nxt)

/-- One read cycle: select, probe, record. The output is the address that was
probed and whether the probe succeeded. -/
def cycle (key : Key) (st : AddrState Key A) (c : List A × Bool) :
    AddrState Key A × (Option A × Bool) :=
  let (st', probed) := preferredAddress st key (some c.1)
  ((recordOutcome st' key (some c.1) c.2).1, (probed, c.2))

theorem rotationOrder_sortKey (addrs : List GetAddrInfo.AddrInfo) :
    rotationOrder addrs =
      addrs.insertionSort (fun a b => GetAddrInfo.sortKey a ≤ GetAddrInfo.sortKey b) := rfl

end Model

/-! ### One cycle under a key -/

section Chosen
variable {Key A : Type*} [LinearOrder A]

/-- The address that `preferredAddress` selects. -/
def chosen (st : AddrState Key A) (key : Key) (first : A) (rest : List A) : A :=
  match (entry st key).selected with
  | some a => if (first::rest).contains a then a else first
  | none => first

theorem chosen_mem (st : AddrState Key A) (key : Key) (first : A) (rest : List A) :
    chosen st key first rest ∈ first::rest := by
  unfold chosen
  split
  · split_ifs with h
    · exact List.contains_iff_mem.mp h
    · simp
  · simp

theorem chosen_present (st : AddrState Key A) (key : Key) (first : A) (rest : List A) (a : A)
    (h : (entry st key).selected = some a) (ha : a ∈ first::rest) :
    chosen st key first rest = a := by
  simp [chosen, h, List.mem_cons.mp ha]

/-- The stored address if the answer lists it, or else the answer's first. -/
def due (st : AddrState Key A) (key : Key) (answer : List A) : Option A :=
  (entry st key).selected.filter (answer.contains ·) <|> answer.head?

theorem due_cons (st : AddrState Key A) (key : Key) (first : A) (rest : List A) :
    due st key (first::rest) = some (chosen st key first rest) := by
  unfold due chosen
  cases (entry st key).selected with
  | none => rfl
  | some a =>
    by_cases h : (first::rest).contains a
    · simp only [Option.filter_some, h, if_true]
      rfl
    · simp only [Option.filter_some, h]
      rfl

/-- The position of an entry, its successor and the wrap-around. -/
theorem rotation_target (addrs : List A) (a : A) (ha : a ∈ addrs) :
    (match (rotationOrder addrs).idxOf? a with
      | some pos => (rotationOrder addrs)[(pos+1) % (rotationOrder addrs).length]?
      | none => (rotationOrder addrs)[0]?) =
      some (if addrs.count a = 1 then next addrs.toFinset a else a) := by
  have hmem : a ∈ rotationOrder addrs := (List.mem_insertionSort _).mpr ha
  have hidx : (rotationOrder addrs).idxOf? a = some ((rotationOrder addrs).idxOf a) := by
    rw [List.idxOf?_eq_some_iff]
    refine ⟨List.idxOf_lt_length_iff.mpr hmem,by simp,?_⟩
    intro j hj
    have := List.not_of_lt_findIdx hj
    simpa using this
  have hperm := List.perm_insertionSort (· ≤ ·) addrs
  have hfollow := following_sorted (rotationOrder addrs)
    (List.pairwise_insertionSort (· ≤ ·) addrs) a hmem
  have hset : (rotationOrder addrs).toFinset = addrs.toFinset :=
    List.toFinset_eq_of_perm _ _ hperm
  rw [hidx]
  rwa [following, rotationOrder, hperm.count_eq, ← rotationOrder, hset] at hfollow

end Chosen

section Cycle
variable {Key A : Type*} [DecidableEq Key] [LinearOrder A]

theorem preferredAddress_cons (st : AddrState Key A) (key : Key) (first : A) (rest : List A) :
    preferredAddress st key (some (first::rest)) =
      (store st key ⟨some (chosen st key first rest),(entry st key).failures⟩,
        some (chosen st key first rest)) := rfl

theorem preferredAddress_other (st : AddrState Key A) {key key' : Key} (h : key' ≠ key)
    (addrs : Option (List A)) : (preferredAddress st key addrs).1 key' = st key' := by
  match addrs with
  | none => rfl
  | some [] => rfl
  | some (first::rest) => exact store_other st h _

theorem recordOutcome_other (st : AddrState Key A) {key key' : Key} (h : key' ≠ key)
    (addrs : Option (List A)) (ok : Bool) : (recordOutcome st key addrs ok).1 key' = st key' := by
  match addrs with
  | none => rfl
  | some [] => rfl
  | some (first::rest) =>
    simp only [recordOutcome]
    split_ifs <;> exact store_other st h _

/-- The other keys are left alone. -/
theorem cycle_other (st : AddrState Key A) {key key' : Key} (h : key' ≠ key) (c : List A × Bool) :
    (cycle key st c).1 key' = st key' :=
  (recordOutcome_other _ h _ _).trans (preferredAddress_other st h _)

/-- What one cycle does to the entry of its key. -/
theorem cycle_entry (st : AddrState Key A) (key : Key) (first : A) (rest : List A) (ok : Bool) :
    entry (cycle key st (first::rest,ok)).1 key =
      if ok then ⟨some (chosen st key first rest),0⟩
      else if (entry st key).failures+1 < rotateAfterFailures ∨ rest = [] then
        ⟨some (chosen st key first rest),(entry st key).failures+1⟩
      else if (first::rest).count (chosen st key first rest) = 1 then
        ⟨some (next (first::rest).toFinset (chosen st key first rest)),0⟩
      else ⟨some (chosen st key first rest),0⟩ := by
  have htarget := rotation_target (first::rest) _ (chosen_mem st key first rest)
  have hlen : (first::rest).length < 2 ↔ rest = [] := by cases rest <;> simp
  simp only [cycle, preferredAddress_cons, recordOutcome, entry_store, hlen, Option.bind_some]
  split_ifs with h1 h2 h3
  · simp
  · simp
  · rw [entry_store, htarget, if_pos h3]
  · rw [entry_store, htarget, if_neg h3]

theorem cycle_probed (st : AddrState Key A) (key : Key) (first : A) (rest : List A) (ok : Bool) :
    (cycle key st (first::rest,ok)).2 = (some (chosen st key first rest),ok) := rfl

end Cycle

/-- The dictionary at startup. -/
def fresh : AddrState (List Char × ℤ) GetAddrInfo.AddrInfo := fun _ => none

def target : List Char × ℤ := ("db".toList,9999)

end WireProbe.PluginRotation
