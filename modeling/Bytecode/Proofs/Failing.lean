import Mathlib.Data.List.Forall2

/-!
# Maps and folds that may fail

What a map or a fold over a list establishes when each of its steps may end in an error. The steps
are described by what they leave behind after a front part of the list.
-/

namespace Bytecode

variable {ε α β σ : Type}

@[simp] theorem throw_eq_error (e : ε) : (throw e : Except ε α) = .error e := rfl

@[simp] theorem pure_eq_ok (a : α) : (pure a : Except ε α) = .ok a := rfl

@[simp] theorem error_bind (e : ε) (f : α → Except ε β) : (.error e >>= f) = .error e := rfl

@[simp] theorem ok_bind (a : α) (f : α → Except ε β) : (.ok a >>= f) = f a := rfl

theorem bind_eq_ok_iff {x : Except ε α} {f : α → Except ε β} {b : β} :
    (x >>= f) = .ok b ↔ ∃ a, x = .ok a ∧ f a = .ok b := by
  cases x <;> simp

theorem bind_eq_error_iff {x : Except ε α} {f : α → Except ε β} {e : ε} :
    (x >>= f) = .error e ↔ x = .error e ∨ ∃ a, x = .ok a ∧ f a = .error e := by
  cases x <;> simp

theorem mapM_eq_ok_iff {f : α → Except ε β} {xs : List α} {ys : List β} :
    xs.mapM f = .ok ys ↔ List.Forall₂ (fun x y => f x = .ok y) xs ys := by
  induction xs generalizing ys with
  | nil => simp [eq_comm]
  | cons x xs ih =>
      simp only [List.mapM_cons, bind_eq_ok_iff, pure_eq_ok, Except.ok.injEq,
        List.forall₂_cons_left_iff, ih]
      constructor
      · rintro ⟨y, hy, ys, hys, rfl⟩
        exact ⟨y, ys, hy, hys, rfl⟩
      · rintro ⟨y, ys, hy, hys, rfl⟩
        exact ⟨y, hy, ys, hys, rfl⟩

/-- A map that fails, fails at some element, behind elements at which it does not. -/
theorem split_of_mapM_eq_error {f : α → Except ε β} {xs : List α} {e : ε}
    (h : xs.mapM f = .error e) :
    ∃ front x back, xs = front ++ x :: back ∧ (∀ y ∈ front, ∃ b, f y = .ok b) ∧
      f x = .error e := by
  induction xs with
  | nil => cases h
  | cons x xs ih =>
      rw [List.mapM_cons, bind_eq_error_iff] at h
      rcases h with hhead | ⟨b, hhead, htail⟩
      · exact ⟨[], x, xs, rfl, by simp, hhead⟩
      · rw [bind_eq_error_iff] at htail
        rcases htail with hfails | ⟨ys, -, hend⟩
        · obtain ⟨front, other, back, rfl, hfront, hother⟩ := ih hfails
          exact ⟨x :: front, other, back, rfl, List.forall_mem_cons.2 ⟨⟨b, hhead⟩, hfront⟩, hother⟩
        · cases hend

theorem exists_of_mapM_eq_error {f : α → Except ε β} {xs : List α} {e : ε}
    (h : xs.mapM f = .error e) : ∃ x ∈ xs, f x = .error e := by
  obtain ⟨front, x, back, rfl, -, hx⟩ := split_of_mapM_eq_error h
  exact ⟨x, by simp, hx⟩

theorem mapM_map_eq_some_map {γ : Type} {f : β → Option γ} {g : α → β} {h : α → γ} {xs : List α}
    (hfg : ∀ x ∈ xs, f (g x) = some (h x)) : (xs.map g).mapM f = some (xs.map h) := by
  induction xs with
  | nil => rfl
  | cons x xs ih =>
      have htail := ih fun y hy => hfg y (List.mem_cons_of_mem _ hy)
      rw [List.map_cons, List.mapM_cons, hfg x List.mem_cons_self, htail]
      rfl

theorem exists_of_forall₂ {R : α → β → Prop} {xs : List α} {ys : List β} {y : β}
    (h : List.Forall₂ R xs ys) (hy : y ∈ ys) : ∃ x ∈ xs, R x y := by
  induction h with
  | nil => cases hy
  | cons hhead _ ih =>
      rcases List.mem_cons.1 hy with rfl | hy
      · exact ⟨_, List.mem_cons_self, hhead⟩
      · obtain ⟨x, hx, hrel⟩ := ih hy
        exact ⟨x, List.mem_cons_of_mem _ hx, hrel⟩

theorem exists_getElem?_of_forall₂ {R : α → β → Prop} {xs : List α} {ys : List β} {i : Nat} {x : α}
    (h : List.Forall₂ R xs ys) (hx : xs[i]? = some x) : ∃ y, ys[i]? = some y ∧ R x y := by
  induction h generalizing i with
  | nil => simp at hx
  | cons hhead _ ih =>
      cases i with
      | zero =>
          obtain rfl := Option.some.inj hx
          exact ⟨_, rfl, hhead⟩
      | succ i => exact ih hx

theorem map_eq_map_of_forall₂ {γ : Type} {R : α → β → Prop} {f : α → γ} {g : β → γ} {xs : List α}
    {ys : List β} (h : List.Forall₂ R xs ys) (hfg : ∀ x y, R x y → f x = g y) :
    xs.map f = ys.map g := by
  induction h with
  | nil => rfl
  | cons hhead _ ih => rw [List.map_cons, List.map_cons, hfg _ _ hhead, ih]

/-- What every step carries from a front part of the list to the next one holds at the end. -/
theorem foldlM_induction {f : σ → α → Except ε σ} {P : List α → σ → Prop} {xs : List α} {s s' : σ}
    (h : xs.foldlM f s = .ok s') (init : P [] s)
    (step : ∀ front x back t t', xs = front ++ x :: back → P front t → f t x = .ok t' →
      P (front ++ [x]) t') :
    P xs s' := by
  suffices hgen : ∀ back front t, xs = front ++ back → P front t → back.foldlM f t = .ok s' →
      P xs s' from hgen xs [] s rfl init h
  intro back
  induction back with
  | nil =>
      intro front t hsplit ht hend
      obtain rfl : t = s' := Except.ok.inj hend
      rwa [hsplit, List.append_nil]
  | cons x back ih =>
      intro front t hsplit ht hend
      rw [List.foldlM_cons, bind_eq_ok_iff] at hend
      obtain ⟨t', hstep, hend⟩ := hend
      exact ih (front ++ [x]) t' (by rw [hsplit, List.append_assoc]; rfl)
        (step front x back t t' hsplit ht hstep) hend

/-- A fold that fails, fails at some step, behind a front part that did not. -/
theorem exists_of_foldlM_eq_error {f : σ → α → Except ε σ} {P : List α → σ → Prop} {xs : List α}
    {s : σ} {e : ε} (h : xs.foldlM f s = .error e) (init : P [] s)
    (step : ∀ front x back t t', xs = front ++ x :: back → P front t → f t x = .ok t' →
      P (front ++ [x]) t') :
    ∃ front x back t, xs = front ++ x :: back ∧ P front t ∧ f t x = .error e := by
  suffices hgen : ∀ back front t, xs = front ++ back → P front t → back.foldlM f t = .error e →
      ∃ front x back t, xs = front ++ x :: back ∧ P front t ∧ f t x = .error e from
    hgen xs [] s rfl init h
  intro back
  induction back with
  | nil =>
      intro front t _ _ hend
      cases hend
  | cons x back ih =>
      intro front t hsplit ht hend
      rw [List.foldlM_cons] at hend
      cases hstep : f t x with
      | error e' =>
          rw [hstep] at hend
          exact ⟨front, x, back, t, hsplit, ht, hstep.trans hend⟩
      | ok t' =>
          rw [hstep] at hend
          exact ih (front ++ [x]) t' (by rw [hsplit, List.append_assoc]; rfl)
            (step front x back t t' hsplit ht hstep) hend

end Bytecode
