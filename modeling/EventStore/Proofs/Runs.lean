import Mathlib.Data.List.Forall2

/-!
# Runs of actions that have a state and may fail

Proved here, so that an action is followed step by step:

* `bind_of_ok`, `bind_of_error`: what comes after an action, if it succeeds or fails;
* `tryCatch_of_ok`, `tryCatch_of_error`: an action whose failure is handled;
* `mapM_cases`, `mapM_of_ok`: actions that keep a property of the state as long as they succeed;
* `forM_cases`: the same for actions without results, with what was done before one of them failed.
-/

namespace EventStore

variable {ε σ π α β : Type}

theorem bind_of_ok {m : ExceptT ε (StateM σ) α} {f : α → ExceptT ε (StateM σ) β} {s s' : σ} {a : α}
    (h : m s = (.ok a, s')) : (m >>= f) s = f a s' := by
  show (ExceptT.bindCont f (m s).1) (m s).2 = _
  rw [h]
  rfl

theorem bind_of_error {m : ExceptT ε (StateM σ) α} {f : α → ExceptT ε (StateM σ) β} {s s' : σ}
    {e : ε} (h : m s = (.error e, s')) : (m >>= f) s = (.error e, s') := by
  show (ExceptT.bindCont f (m s).1) (m s).2 = _
  rw [h]
  rfl

theorem tryCatch_of_ok {m : ExceptT ε (StateM σ) α} {f : ε → ExceptT ε (StateM σ) α} {s s' : σ}
    {a : α} (h : m s = (.ok a, s')) : (tryCatch m f) s = (.ok a, s') := by
  show (match (m s).1 with
    | .ok a => (pure (.ok a) : StateM σ (Except ε α))
    | .error e => f e) (m s).2 = _
  rw [h]
  rfl

theorem tryCatch_of_error {m : ExceptT ε (StateM σ) α} {f : ε → ExceptT ε (StateM σ) α} {s s' : σ}
    {e : ε} (h : m s = (.error e, s')) : (tryCatch m f) s = f e s' := by
  show (match (m s).1 with
    | .ok a => (pure (.ok a) : StateM σ (Except ε α))
    | .error e => f e) (m s).2 = _
  rw [h]

/-- Actions that keep a property of the state if they succeed, and have another one if they fail. -/
theorem mapM_cases {γ : Type} {f : γ → ExceptT ε (StateM σ) α} {P : σ → Prop} {R : γ → α → Prop}
    {Q : ε → σ → Prop} (l : List γ) (h : ∀ c ∈ l, ∀ s, P s →
      (∃ a s', f c s = (.ok a, s') ∧ R c a ∧ P s') ∨ ∃ e s', f c s = (.error e, s') ∧ Q e s')
    (s : σ) (hs : P s) :
    (∃ as s', l.mapM f s = (.ok as, s') ∧ List.Forall₂ R l as ∧ P s') ∨
      ∃ e s', l.mapM f s = (.error e, s') ∧ Q e s' := by
  induction l generalizing s with
  | nil => exact Or.inl ⟨[], s, rfl, List.Forall₂.nil, hs⟩
  | cons c l ih =>
    rw [List.mapM_cons]
    rcases h c List.mem_cons_self s hs with ⟨a, s₁, ha, hR, hs₁⟩ | ⟨e, s₁, he, hQ⟩
    · rcases ih (fun c hc => h c (List.mem_cons_of_mem _ hc)) s₁ hs₁ with
        ⟨as, s₂, has, hRs, hs₂⟩ | ⟨e, s₂, he, hQ⟩
      · refine Or.inl ⟨a :: as, s₂, ?_, List.Forall₂.cons hR hRs, hs₂⟩
        rw [bind_of_ok ha, bind_of_ok has]
        rfl
      · refine Or.inr ⟨e, s₂, ?_, hQ⟩
        rw [bind_of_ok ha, bind_of_error he]
    · exact Or.inr ⟨e, s₁, bind_of_error he, hQ⟩

/-- Actions that all succeed, each from any state that has a property and into one that has it. -/
theorem mapM_of_ok {γ : Type} {f : γ → ExceptT ε (StateM σ) α} {P : σ → Prop} {R : γ → α → Prop}
    (l : List γ) (h : ∀ c ∈ l, ∀ s, P s → ∃ a s', f c s = (.ok a, s') ∧ R c a ∧ P s') (s : σ)
    (hs : P s) : ∃ as s', l.mapM f s = (.ok as, s') ∧ List.Forall₂ R l as ∧ P s' := by
  rcases mapM_cases (Q := fun _ _ => False) l (fun c hc s hs => Or.inl (h c hc s hs)) s hs with
    hok | ⟨e, s', -, hfalse⟩
  · exact hok
  · exact hfalse.elim

/-- Actions without results. The property tells what has been done so far. -/
theorem forM_cases {γ : Type} {f : γ → ExceptT ε (StateM σ) Unit} {P : List γ → σ → Prop}
    (l : List γ) (h : ∀ before, ∀ c ∈ l, ∀ s s', P before s → f c s = (.ok (), s') →
      P (before ++ [c]) s') (before : List γ) (s : σ) (hs : P before s) :
    (∃ s', l.forM f s = (.ok (), s') ∧ P (before ++ l) s') ∨
      ∃ done c rest s₁ e s', l = done ++ c :: rest ∧ P (before ++ done) s₁ ∧
        f c s₁ = (.error e, s') ∧ l.forM f s = (.error e, s') := by
  induction l generalizing before s with
  | nil => exact Or.inl ⟨s, rfl, by rwa [List.append_nil]⟩
  | cons c l ih =>
    rcases hc : f c s with ⟨_ | ⟨⟩, s₁⟩
    · exact Or.inr ⟨[], c, l, s, _, s₁, rfl, by rwa [List.append_nil], hc, bind_of_error hc⟩
    · have hs₁ := h before c List.mem_cons_self s s₁ hs hc
      rcases ih (fun before c hc => h before c (List.mem_cons_of_mem _ hc)) (before ++ [c]) s₁ hs₁
        with ⟨s', hl, hs'⟩ | ⟨done, c', rest, s₂, e, s', rfl, hs₂, he, hl⟩
      · exact Or.inl ⟨s', (bind_of_ok hc).trans hl, by rwa [List.append_assoc] at hs'⟩
      · refine Or.inr ⟨c :: done, c', rest, s₂, e, s', rfl, ?_, he, (bind_of_ok hc).trans hl⟩
        rwa [List.append_assoc] at hs₂

end EventStore
