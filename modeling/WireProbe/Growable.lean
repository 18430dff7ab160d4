import Mathlib.Tactic.Common
import Mathlib.Order.MinMax

/-!
# Vectors that grow

A vector owns room for a number of elements and keeps it when it is cleared.
An append that does not fit asks the allocator for more room and moves the
elements there, so a program of appends stays in place where all it appends
fits. The vector remembers the greatest length it has had.
-/

set_option autoImplicit false

namespace WireProbe.Growable

/-- Where the memory of a vector comes from. A request may be refused; one that
is granted gives at least the room that was needed, and never more than the limit. -/
structure Allocator (limit : ℕ) where
  allot : ℕ → Option ℕ
  grow : ℕ → ℕ → Option ℕ
  allot_bounds : ∀ {needed room}, allot needed = some room → needed ≤ room ∧ room ≤ limit
  grow_bounds : ∀ {capacity needed room}, grow capacity needed = some room →
    needed ≤ room ∧ room ≤ limit

/-- Exact at first, then at least twice the room there was. -/
def Allocator.doubling (limit least : ℕ) : Allocator limit where
  allot needed := if needed ≤ limit then some needed else none
  grow capacity needed :=
    let room := max least (max (2*capacity) needed)
    if room ≤ limit then some room else none
  allot_bounds := by
    intro needed room h
    split_ifs at h with hlimit
    cases h
    exact ⟨le_rfl,hlimit⟩
  grow_bounds := by
    intro capacity needed room h
    simp only [Option.ite_none_right_eq_some, Option.some.injEq] at h
    obtain ⟨hlimit,rfl⟩ := h
    exact ⟨(le_max_right _ _).trans (le_max_right _ _),hlimit⟩

structure Vec (α : Type*) where
  content : List α
  capacity : ℕ
  /-- The greatest length so far. -/
  peak : ℕ
  /-- How often the elements had to move. -/
  moves : ℕ
  reached : content.length ≤ peak
  fits : peak ≤ capacity

namespace Vec
variable {α : Type*} {limit : ℕ} (a : Allocator limit)

def withCapacity (capacity : ℕ) : Option (Vec α) :=
  (a.allot capacity).map fun room => ⟨[],room,0,0,le_rfl,Nat.zero_le room⟩

def clear (v : Vec α) : Vec α := ⟨[],v.capacity,v.peak,v.moves,Nat.zero_le _,v.fits⟩

/-- Room for `additional` more elements; the elements move where there is less. -/
def reserve (v : Vec α) (additional : ℕ) : Option (Vec α) :=
  if h : v.content.length+additional ≤ v.capacity then some v
  else
    match hgrow : a.grow v.capacity (v.content.length+additional) with
    | none => none
    | some room => some { v with
        capacity := room
        moves := v.moves+1
        fits := v.fits.trans ((not_le.mp h).le.trans (a.grow_bounds hgrow).1) }

theorem reserve_of_le {v : Vec α} {additional : ℕ}
    (h : v.content.length+additional ≤ v.capacity) : v.reserve a additional = some v := dif_pos h

theorem reserve_eq_some {v w : Vec α} {additional : ℕ} (h : v.reserve a additional = some w) :
    w.content = v.content ∧ v.content.length+additional ≤ w.capacity := by
  unfold reserve at h
  split at h
  next hfits =>
    cases h
    exact ⟨rfl,hfits⟩
  next =>
    split at h
    next => cases h
    next room hgrow =>
      cases h
      exact ⟨rfl,(a.grow_bounds hgrow).1⟩

/-- An append where there is room for it. -/
def append (v : Vec α) (xs : List α) (h : v.content.length+xs.length ≤ v.capacity) : Vec α where
  content := v.content++xs
  capacity := v.capacity
  peak := max v.peak (v.content.length+xs.length)
  moves := v.moves
  reached := List.length_append.trans_le (le_max_right _ _)
  fits := max_le v.fits h

def extendFromSlice (v : Vec α) (xs : List α) : Option (Vec α) :=
  match h : v.reserve a xs.length with
  | none => none
  | some w => some (w.append xs (by
      obtain ⟨hcontent,hroom⟩ := reserve_eq_some a h
      exact hcontent ▸ hroom))

def push (v : Vec α) (x : α) : Option (Vec α) := v.extendFromSlice a [x]

theorem withCapacity_eq_some {capacity : ℕ} {v : Vec α} (h : withCapacity a capacity = some v) :
    capacity ≤ v.capacity ∧ capacity ≤ limit ∧ v.content = [] ∧ v.peak = 0 ∧ v.moves = 0 := by
  obtain ⟨room,hroom,rfl⟩ := Option.map_eq_some_iff.mp h
  obtain ⟨hle,hlimit⟩ := a.allot_bounds hroom
  exact ⟨hle,hle.trans hlimit,rfl,rfl,rfl⟩

end Vec

/-! ### Programs of appends -/

section Programs
variable {α : Type*} {limit : ℕ} (a : Allocator limit)
variable {m n : Vec α → Option (Vec α)} {xs ys : List α} {u v w : Vec α}

/-- `v` has become `w` in the same room, and was nowhere longer than `length` on the way. -/
structure InPlace (length : ℕ) (v w : Vec α) : Prop where
  capacity : w.capacity = v.capacity
  moves : w.moves = v.moves
  peak : w.peak ≤ max v.peak length

theorem InPlace.trans {k l : ℕ} (h : InPlace k u v) (h' : InPlace l v w) (hkl : k ≤ l) :
    InPlace l u w where
  capacity := h'.capacity.trans h.capacity
  moves := h'.moves.trans h.moves
  peak := h'.peak.trans
    (max_le (h.peak.trans (max_le_max_left _ hkl)) (le_max_right _ _))

/-- `m` appends `xs`, and does so in place where they fit. -/
structure Emits (m : Vec α → Option (Vec α)) (xs : List α) : Prop where
  content : ∀ {v w}, m v = some w → w.content = v.content++xs
  inPlace : ∀ v : Vec α, v.content.length+xs.length ≤ v.capacity →
    ∃ w, m v = some w ∧ InPlace (v.content.length+xs.length) v w

theorem emits_extendFromSlice (xs : List α) : Emits (fun v => v.extendFromSlice a xs) xs where
  content := by
    intro v w h
    unfold Vec.extendFromSlice at h
    split at h
    next => cases h
    next u hu =>
      cases h
      exact congrArg (·++xs) (Vec.reserve_eq_some a hu).1
  inPlace := by
    intro v h
    refine ⟨v.append xs h,?_,⟨rfl,rfl,le_rfl⟩⟩
    have hreserve := Vec.reserve_of_le a h
    unfold Vec.extendFromSlice
    split
    next hnone => exact absurd (hreserve.symm.trans hnone) (by simp)
    next u hu =>
      cases hreserve.symm.trans hu
      rfl

theorem emits_push (x : α) : Emits (fun v => v.push a x) [x] := emits_extendFromSlice a [x]

theorem emits_bind (hm : Emits m xs) (hn : Emits n ys) :
    Emits (fun v => m v >>= n) (xs++ys) where
  content := by
    intro v w h
    obtain ⟨u,hu,hw⟩ := Option.bind_eq_some_iff.mp h
    rw [hn.content hw, hm.content hu, List.append_assoc]
  inPlace := by
    intro v h
    rw [List.length_append, ← Nat.add_assoc] at h ⊢
    obtain ⟨u,hu,hplace⟩ := hm.inPlace v ((Nat.le_add_right _ _).trans h)
    have hlength : u.content.length = v.content.length+xs.length := by
      rw [hm.content hu, List.length_append]
    obtain ⟨w,hw,hplace'⟩ := hn.inPlace u (by rw [hlength, hplace.capacity]; exact h)
    rw [hlength] at hplace'
    refine ⟨w,?_,hplace.trans hplace' (Nat.le_add_right _ _)⟩
    rw [hu]
    exact hw

/-- `m` replaces the content by `xs`, and does so in place where they fit. -/
structure Renders (m : Vec α → Option (Vec α)) (xs : List α) : Prop where
  content : ∀ {v w}, m v = some w → w.content = xs
  inPlace : ∀ v : Vec α, xs.length ≤ v.capacity → ∃ w, m v = some w ∧ InPlace xs.length v w

theorem renders_clear (hm : Emits m xs) : Renders (fun v => m v.clear) xs where
  content := hm.content
  inPlace := by
    intro v h
    have hlength : v.clear.content.length+xs.length = xs.length := Nat.zero_add _
    obtain ⟨w,hw,hplace⟩ := hm.inPlace v.clear (hlength.trans_le h)
    rw [hlength] at hplace
    exact ⟨w,hw,⟨hplace.capacity,hplace.moves,hplace.peak⟩⟩

end Programs

end WireProbe.Growable
