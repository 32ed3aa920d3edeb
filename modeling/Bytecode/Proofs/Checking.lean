import Bytecode.Proofs.Failing
import Mathlib.Data.Set.Lattice
import Mathlib.Order.Basic

/-!
# Reporting the first violation

A validation goes through places in a fixed order and stops at the first one where something is
wrong. Its parts are put together here: where each part reports the first violation at its own
places, and those of an earlier part come before those of a later one, the whole reports the first
violation of all.
-/

namespace Bytecode

/-- What is wrong at the first place, out of some, where anything is. -/
structure IsFirstViolation {κ ε : Type} [LE κ] (Violates : κ → ε → Prop) (places : Set κ)
    (place : κ) (error : ε) : Prop where
  mem : place ∈ places
  violated : Violates place error
  first : ∀ other ∈ places, ∀ e, Violates other e → place ≤ other

theorem isFirstViolation_congr {κ ε : Type} [LE κ] {Violates : κ → ε → Prop}
    {places others : Set κ} {place : κ} {error : ε}
    (h : ∀ p e, Violates p e → (p ∈ places ↔ p ∈ others)) :
    IsFirstViolation Violates places place error ↔
      IsFirstViolation Violates others place error := by
  constructor
  · intro hfirst
    exact ⟨(h _ _ hfirst.violated).1 hfirst.mem, hfirst.violated, fun p hp e he =>
      hfirst.first p ((h p e he).2 hp) e he⟩
  · intro hfirst
    exact ⟨(h _ _ hfirst.violated).2 hfirst.mem, hfirst.violated, fun p hp e he =>
      hfirst.first p ((h p e he).1 hp) e he⟩

/-- A computation that succeeds where nothing is wrong at some places, and otherwise ends with what
is wrong at the first of them. -/
structure Checks {κ ε α : Type} [LE κ] (Violates : κ → ε → Prop) (places : Set κ)
    (x : Except ε α) : Prop where
  passes : ∀ a, x = .ok a → ∀ place ∈ places, ∀ error, ¬ Violates place error
  reports_iff : ∀ error, x = .error error ↔
    ∃ place, IsFirstViolation Violates places place error

namespace Checks

variable {κ ε α β σ : Type} [PartialOrder κ] {Violates : κ → ε → Prop} {places others : Set κ}
  {place : κ} {x : Except ε α} {f : α → Except ε β} {placesOf : α → Set κ} {xs : List α}

theorem ok (a : α) : Checks Violates ∅ (.ok a : Except ε α) where
  passes _ _ _ hplace := absurd hplace (Set.notMem_empty _)
  reports_iff _ := ⟨nofun, fun ⟨_, hfirst⟩ => absurd hfirst.mem (Set.notMem_empty _)⟩

theorem singleton (h : ∀ error, x = .error error ↔ Violates place error) :
    Checks Violates {place} x where
  passes a ha other hother error hviolated := by
    obtain rfl := Set.mem_singleton_iff.1 hother
    rw [(h error).2 hviolated] at ha
    cases ha
  reports_iff error := by
    rw [h]
    constructor
    · intro hviolated
      refine ⟨place, Set.mem_singleton _, hviolated, fun other hother _ _ => ?_⟩
      exact le_of_eq (Set.mem_singleton_iff.1 hother).symm
    · rintro ⟨other, hfirst⟩
      exact Set.mem_singleton_iff.1 hfirst.mem ▸ hfirst.violated

/-- Places at which nothing can be wrong do not count. -/
theorem congr (h : Checks Violates places x)
    (hsame : ∀ p e, Violates p e → (p ∈ places ↔ p ∈ others)) : Checks Violates others x where
  passes a ha place hplace error herror :=
    h.passes a ha place ((hsame place error herror).2 hplace) error herror
  reports_iff error := by
    rw [h.reports_iff]
    exact exists_congr fun place => isFirstViolation_congr hsame

theorem of_eq_error_iff {y : Except ε β} (h : Checks Violates places y)
    (hsame : ∀ error, x = .error error ↔ y = .error error) : Checks Violates places x where
  passes a ha := by
    cases hy : y with
    | ok b => exact h.passes b hy
    | error error =>
        rw [(hsame error).2 hy] at ha
        cases ha
  reports_iff error := (hsame error).trans (h.reports_iff error)

/-- What is checked first comes first. -/
theorem bind (hx : Checks Violates places x)
    (hf : ∀ a, x = .ok a → Checks Violates others (f a))
    (hordered : ∀ p ∈ places, ∀ q ∈ others, p ≤ q) :
    Checks Violates (places ∪ others) (x >>= f) := by
  cases hx' : x with
  | error error =>
      obtain ⟨place, hfirst⟩ := (hx.reports_iff error).1 hx'
      refine ⟨nofun, fun e => ?_⟩
      have hreported : (.error error >>= f) = .error e ↔ x = .error e := by
        rw [hx', error_bind]
        exact ⟨fun h => congrArg _ (Except.error.inj h), fun h => congrArg _ (Except.error.inj h)⟩
      rw [hreported, hx.reports_iff]
      constructor
      · rintro ⟨p, hp⟩
        refine ⟨p, .inl hp.mem, hp.violated, fun other hother e hviolated => ?_⟩
        rcases hother with hother | hother
        · exact hp.first other hother e hviolated
        · exact hordered p hp.mem other hother
      · rintro ⟨p, hp⟩
        have hle := hp.first place (.inl hfirst.mem) error hfirst.violated
        have hmem : p ∈ places := by
          rcases hp.mem with hmem | hmem
          · exact hmem
          · rw [le_antisymm hle (hordered place hfirst.mem p hmem)]
            exact hfirst.mem
        exact ⟨p, hmem, hp.violated, fun other hother => hp.first other (.inl hother)⟩
  | ok a =>
      have hclear := hx.passes a hx'
      refine (hf a hx').congr fun p e hviolated => ⟨.inr, fun hp => ?_⟩
      exact hp.resolve_left fun hp => hclear p hp e hviolated

/-- A map checks the places of one element after the other. -/
theorem mapM {f : α → Except ε β} (h : ∀ x ∈ xs, Checks Violates (placesOf x) (f x))
    (hordered : xs.Pairwise fun x y => ∀ p ∈ placesOf x, ∀ q ∈ placesOf y, p ≤ q) :
    Checks Violates (⋃ x ∈ xs, placesOf x) (xs.mapM f) := by
  induction xs with
  | nil =>
      rw [List.mapM_nil]
      exact (ok []).congr (by simp)
  | cons x xs ih =>
      obtain ⟨hhead, htail⟩ := List.pairwise_cons.1 hordered
      have hrest := ih (fun y hy => h y (List.mem_cons_of_mem _ hy)) htail
      have hlater : ∀ p ∈ placesOf x, ∀ q ∈ (⋃ y ∈ xs, placesOf y) ∪ ∅, p ≤ q := by
        intro p hp q hq
        simp only [Set.union_empty, Set.mem_iUnion] at hq
        obtain ⟨y, hy, hq⟩ := hq
        exact hhead y hy p hp q hq
      rw [List.mapM_cons]
      have hall := (h x List.mem_cons_self).bind
        (fun b _ => hrest.bind (fun bs _ => ok (b :: bs)) (by simp)) hlater
      simpa [Set.iUnion_or, Set.iUnion_union_distrib] using hall

/-- A fold checks the places of one element after the other. What it checks may hang on what it has
kept of those before. -/
theorem foldlM {f : σ → α → Except ε σ} (Keeps : List α → σ → Prop) {s : σ} (init : Keeps [] s)
    (step : ∀ front x back t, xs = front ++ x :: back → Keeps front t →
      Checks Violates (placesOf x) (f t x) ∧ ∀ t', f t x = .ok t' → Keeps (front ++ [x]) t')
    (hordered : xs.Pairwise fun x y => ∀ p ∈ placesOf x, ∀ q ∈ placesOf y, p ≤ q) :
    Checks Violates (⋃ x ∈ xs, placesOf x) (xs.foldlM f s) := by
  suffices hgen : ∀ back front t, xs = front ++ back → Keeps front t →
      Checks Violates (⋃ x ∈ back, placesOf x) (back.foldlM f t) from hgen xs [] s rfl init
  intro back
  induction back with
  | nil =>
      intro front t _ _
      rw [List.foldlM_nil]
      exact (ok t).congr (by simp)
  | cons x back ih =>
      intro front t hsplit hkeeps
      obtain ⟨hchecks, hkept⟩ := step front x back t hsplit hkeeps
      have hlater : ∀ p ∈ placesOf x, ∀ q ∈ ⋃ y ∈ back, placesOf y, p ≤ q := by
        rw [hsplit] at hordered
        obtain ⟨-, hback, -⟩ := List.pairwise_append.1 hordered
        intro p hp q hq
        simp only [Set.mem_iUnion] at hq
        obtain ⟨y, hy, hq⟩ := hq
        exact (List.pairwise_cons.1 hback).1 y hy p hp q hq
      rw [List.foldlM_cons]
      have hall := hchecks.bind
        (fun t' ht' => ih (front ++ [x]) t' (by rw [hsplit, List.append_assoc]; rfl)
          (hkept t' ht')) hlater
      simpa [Set.iUnion_or, Set.iUnion_union_distrib] using hall

end Checks

end Bytecode
