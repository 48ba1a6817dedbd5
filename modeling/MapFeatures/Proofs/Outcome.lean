/-!
# Outcome — what a piece of work that may fail ends in

`Ends P w Q E` says of work on a state that, started where `P` holds, it ends with a result where `Q` holds of both, or
with an error where `E` holds of both.  There is one rule for each way of putting work together.
-/
namespace MapFeatures

theorem bind_eq_ok {ε α β : Type} {x : Except ε α} {f : α → Except ε β} {b : β} (h : (x >>= f) = .ok b) :
    ∃ a, x = .ok a ∧ f a = .ok b := by
  cases x with
  | error e => cases h
  | ok a => exact ⟨a, rfl, h⟩

theorem map_eq_ok {ε α β : Type} {x : Except ε α} {f : α → β} {b : β} (h : x.map f = .ok b) :
    ∃ a, x = .ok a ∧ f a = b := by
  cases x with
  | error e => cases h
  | ok a => cases h; exact ⟨a, rfl, rfl⟩

theorem map_eq_error {ε α β : Type} {x : Except ε α} {f : α → β} {e : ε} (h : x.map f = .error e) : x = .error e := by
  cases x with
  | error e' => cases h; rfl
  | ok a => cases h

variable {ε σ α β : Type}

theorem run_bind_of_eq_ok {w : ExceptT ε (StateM σ) α} {s s' : σ} {a : α} (h : w.run.run s = (.ok a, s'))
    (f : α → ExceptT ε (StateM σ) β) : (w >>= f).run.run s = (f a).run.run s' := by
  simp only [ExceptT.run_bind, StateT.run_bind, h]
  rfl

theorem run_bind_of_eq_error {w : ExceptT ε (StateM σ) α} {s s' : σ} {e : ε} (h : w.run.run s = (.error e, s'))
    (f : α → ExceptT ε (StateM σ) β) : (w >>= f).run.run s = (.error e, s') := by
  simp only [ExceptT.run_bind, StateT.run_bind, h]
  rfl

theorem run_bind_eq_ok {w : ExceptT ε (StateM σ) α} {f : α → ExceptT ε (StateM σ) β} {s s'' : σ} {b : β}
    (h : (w >>= f).run.run s = (.ok b, s'')) :
    ∃ a s', w.run.run s = (.ok a, s') ∧ (f a).run.run s' = (.ok b, s'') := by
  rcases hfirst : w.run.run s with ⟨e | a, s'⟩
  · rw [run_bind_of_eq_error hfirst] at h
    cases h
  · rw [run_bind_of_eq_ok hfirst] at h
    exact ⟨a, s', rfl, h⟩

/-- What work ends in, given where it starts. -/
def Ends (P : σ → Prop) (w : ExceptT ε (StateM σ) α) (Q : α → σ → Prop) (E : ε → σ → Prop) : Prop :=
  ∀ s, P s →
    match w.run.run s with
    | (.ok a, s') => Q a s'
    | (.error e, s') => E e s'

namespace Ends

variable {P : σ → Prop} {Q Q' : α → σ → Prop} {E : ε → σ → Prop} {w : ExceptT ε (StateM σ) α}

theorem of_eq_ok (h : Ends P w Q E) {s s' : σ} {a : α} (hs : P s) (hrun : w.run.run s = (.ok a, s')) : Q a s' := by
  have := h s hs
  rw [hrun] at this
  exact this

theorem of_eq_error (h : Ends P w Q E) {s s' : σ} {e : ε} (hs : P s) (hrun : w.run.run s = (.error e, s')) :
    E e s' := by
  have := h s hs
  rw [hrun] at this
  exact this

theorem eq_ok (h : Ends P w Q fun _ _ => False) {s : σ} (hs : P s) :
    ∃ a s', w.run.run s = (.ok a, s') ∧ Q a s' := by
  have := h s hs
  match hrun : w.run.run s with
  | (.ok a, s') =>
    rw [hrun] at this
    exact ⟨a, s', rfl, this⟩
  | (.error e, s') =>
    rw [hrun] at this
    exact this.elim

theorem imp (h : Ends P w Q E) (hQ : ∀ a s, Q a s → Q' a s) : Ends P w Q' E := by
  intro s hs
  match hrun : w.run.run s with
  | (.ok a, s') => exact hQ a s' (h.of_eq_ok hs hrun)
  | (.error e, s') => exact h.of_eq_error hs hrun

theorem of_imp {P' : σ → Prop} (h : Ends P w Q E) (hP : ∀ s, P' s → P s) : Ends P' w Q E := fun s hs => h s (hP s hs)

theorem of_run (h : ∀ s, P s → ∀ a s', w.run.run s = (.ok a, s') → Q a s') : Ends P w Q fun _ _ => True := by
  intro s hs
  match hrun : w.run.run s with
  | (.ok a, s') => exact h s hs a s' hrun
  | (.error e, s') => trivial

theorem of_exists {ι : Type} {p : ι → Prop} {P : ι → σ → Prop} (h : ∀ i, p i → Ends (P i) w Q E) :
    Ends (fun s => ∃ i, p i ∧ P i s) w Q E := fun s ⟨i, hi, hs⟩ => h i hi s hs

theorem pure (a : α) (h : ∀ s, P s → Q a s) : Ends P (Pure.pure a : ExceptT ε (StateM σ) α) Q E := h

theorem throw (e : ε) (h : ∀ s, P s → E e s) : Ends P (MonadExcept.throw e : ExceptT ε (StateM σ) α) Q E := h

theorem set (s : σ) {Q : PUnit → σ → Prop} (h : Q ⟨⟩ s) : Ends P (MonadStateOf.set s : ExceptT ε (StateM σ) PUnit) Q E :=
  fun _ _ => h

theorem modify (f : σ → σ) {Q : PUnit → σ → Prop} (h : ∀ s, P s → Q ⟨⟩ (f s)) :
    Ends P (MonadState.modifyGet fun s => (⟨⟩, f s) : ExceptT ε (StateM σ) PUnit) Q E := h

theorem bind {f : α → ExceptT ε (StateM σ) β} {R : β → σ → Prop} (hw : Ends P w Q E) (hf : ∀ a, Ends (Q a) (f a) R E) :
    Ends P (w >>= f) R E := by
  intro s hs
  match hfirst : w.run.run s with
  | (.ok a, s') =>
    rw [run_bind_of_eq_ok hfirst]
    exact hf a s' (hw.of_eq_ok hs hfirst)
  | (.error e, s') =>
    rw [run_bind_of_eq_error hfirst]
    exact hw.of_eq_error hs hfirst

theorem get_bind {f : σ → ExceptT ε (StateM σ) β} {R : β → σ → Prop} (hf : ∀ s, P s → Ends P (f s) R E) :
    Ends P (get >>= f) R E := fun s hs => hf s hs s hs

/-- **A loop** that keeps up what each of its steps does. -/
theorem forM {f : α → ExceptT ε (StateM σ) PUnit} : ∀ {xs : List α}, (∀ x ∈ xs, Ends P (f x) (fun _ => P) E) →
    Ends P (xs.forM f) (fun _ => P) E
  | [], _ => pure PUnit.unit fun _ h => h
  | x :: _, h => bind (h x List.mem_cons_self) fun _ => forM fun y hy => h y (List.mem_cons_of_mem x hy)

end Ends
end MapFeatures
