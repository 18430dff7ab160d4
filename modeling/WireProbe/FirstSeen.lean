import Mathlib.Data.Finset.Card
import Mathlib.Data.List.Nodup

/-!
# Repeated keys in a list

A scan keeps, in a dictionary, a tag of the first element of each key and
reports the elements whose key it has seen under another tag. Where no tag
occurs twice, it reports every element whose key an earlier one has, so there
are as many reports as elements beyond the number of keys.
-/

set_option autoImplicit false

namespace WireProbe.FirstSeen

variable {α κ τ : Type*} [DecidableEq κ]

/-- The elements of a list whose key occurs in it before them, each with the
first element of its key; `before` comes before the whole list. -/
def repeats (key : α → κ) : List α → List α → List (α × α)
  | _, [] => []
  | before, a::rest =>
    ((before.find? fun b => key b = key a).map fun b => (a,b)).toList++repeats key (before++[a]) rest

/-- The scan; `seen` is its dictionary. -/
def scan [DecidableEq τ] (key : α → κ) (tag : α → τ) : (κ → Option τ) → List α → List (α × τ)
  | _, [] => []
  | seen, a::rest =>
    match (seen (key a)).filter (· ≠ tag a) with
    | some t => (a,t)::scan key tag seen rest
    | none => scan key tag (Function.update seen (key a) (some (tag a))) rest

section Repeats
variable (key : α → κ)

theorem find_key_eq_none {l : List α} {k : κ} :
    (l.find? fun b => key b = k) = none ↔ k ∉ l.map key := by
  simp [List.find?_eq_none]

theorem length_repeats (before l : List α) :
    (repeats key before l).length+((before++l).map key).toFinset.card =
      (before.map key).toFinset.card+l.length := by
  induction l generalizing before with
  | nil => simp [repeats]
  | cons a rest ih =>
    have hrest := ih (before++[a])
    rw [List.append_assoc, List.singleton_append] at hrest
    rw [repeats, List.length_append, List.length_cons]
    have hkeys : ((before++[a]).map key).toFinset = insert (key a) (before.map key).toFinset := by
      ext k
      simp
    rw [hkeys] at hrest
    cases hfind : before.find? fun b => key b = key a with
    | none =>
      have hnew : key a ∉ (before.map key).toFinset := by
        simpa using (find_key_eq_none key).mp hfind
      rw [Finset.card_insert_of_notMem hnew] at hrest
      rw [Option.map_none, Option.toList_none, List.length_nil]
      omega
    | some b =>
      have hold : key a ∈ (before.map key).toFinset := by
        by_contra hold
        rw [(find_key_eq_none key).mpr (by simpa using hold)] at hfind
        cases hfind
      rw [Finset.insert_eq_of_mem hold] at hrest
      rw [Option.map_some, Option.toList_some, List.length_singleton]
      omega

/-- Without repeats the keys are pairwise distinct. -/
theorem nodup_of_repeats_nil {l : List α} (h : repeats key [] l = []) : (l.map key).Nodup := by
  have hlength := length_repeats key [] l
  rw [h] at hlength
  simp only [List.length_nil, List.nil_append, List.map_nil, List.toFinset_nil, Finset.card_empty,
    Nat.zero_add] at hlength
  rw [← List.length_map (f := key)] at hlength
  exact Multiset.coe_nodup.mp (Multiset.toFinset_card_eq_card_iff_nodup.mp hlength)

theorem find_concat (before : List α) (a : α) (k : κ) :
    ((before++[a]).find? fun b => key b = k) =
      (before.find? fun b => key b = k).or (if key a = k then some a else none) := by
  rw [List.find?_append, List.find?_singleton]
  simp

/-- The dictionary holds the tag of the first element of each key. -/
theorem scan_eq [DecidableEq τ] (tag : α → τ) (before l : List α) (seen : κ → Option τ)
    (hseen : ∀ k, seen k = (before.find? fun b => key b = k).map tag)
    (htags : ((before++l).map tag).Nodup) :
    scan key tag seen l = (repeats key before l).map fun p => (p.1,tag p.2) := by
  induction l generalizing before seen with
  | nil => rfl
  | cons a rest ih =>
    rw [← List.singleton_append, ← List.append_assoc] at htags
    have hfind := hseen (key a)
    cases hfirst : before.find? fun b => key b = key a with
    | none =>
      rw [hfirst, Option.map_none] at hfind
      rw [scan, hfind, repeats, hfirst]
      refine ih (before++[a]) _ ?_ htags
      intro k
      by_cases hk : key a = k
      · subst hk
        rw [Function.update_self, find_concat, hfirst, if_pos rfl]
        rfl
      · rw [Function.update_of_ne (Ne.symm hk), hseen, find_concat, if_neg hk, Option.or_none]
    | some b =>
      rw [hfirst, Option.map_some] at hfind
      have hmem : b ∈ before := List.mem_of_find?_eq_some hfirst
      have htag : tag b ≠ tag a := by
        rw [List.map_append, List.map_append] at htags
        exact (List.nodup_append.mp (List.nodup_append.mp htags).1).2.2 _
          (List.mem_map_of_mem hmem) _ (List.mem_singleton_self _)
      have hreported : (seen (key a)).filter (· ≠ tag a) = some (tag b) := by
        rw [hfind]
        exact Option.filter_some_pos (by simpa using htag)
      rw [scan, hreported, repeats, hfirst, List.map_append]
      refine congrArg ((a,tag b)::·) (ih (before++[a]) seen ?_ htags)
      intro k
      rw [hseen, find_concat]
      by_cases hk : key a = k
      · subst hk
        rw [hfirst]
        rfl
      · rw [if_neg hk, Option.or_none]

end Repeats

end WireProbe.FirstSeen
