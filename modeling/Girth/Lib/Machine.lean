import Mathlib.Logic.Basic

/-!
# Executable step machines

A machine is a function `step : σ → α → Option σ`: `α` names the thread that moves together with
every outcome the environment chooses (a message received, the result of a system call), and
`none` means the action is not enabled. `exec` runs a list of actions; `Steps step C s as t` says
that the actions `as` lead from `s` to `t` and that every one of them met the condition `C` in the
state it was taken in. Every safety proof is `Steps.invariant`: the property holds at the start and
one step keeps it. `Steps.iff_of_step` and `Steps.iff_of_step_of_invariant` are the forms in two
directions, for a property of the history that a step keeps exactly under some condition. `observed`
is what an observer of the steps has seen of a run, and `Steps.invariant_of_observed` the rule for what
relates it to the state.

`Reach step C s P` says that from `s` some run that keeps to `C` ends in a state with `P`: nothing that
has happened so far stands in its way. Such facts are put together one after the other
(`Reach.trans`), a loop is worked off by `reach_of_descent`, and `Reach.lift` carries what a part of a
machine can do over to the whole. A machine whose threads wait for each other ends if a measure of the
work that is left bounds the steps that are still to come (`Steps.countP_add_le`), and as long as it is
not finished some thread can take one (`reach_final`).
-/

namespace Lib

variable {σ α : Type*}

/-- Run a list of actions. -/
def exec (step : σ → α → Option σ) : σ → List α → Option σ
  | s, [] => some s
  | s, a :: as => (step s a).bind fun t => exec step t as

/-- The actions `as` lead from `s` to `t`, each taken in a state that meets `C`. -/
inductive Steps (step : σ → α → Option σ) (C : σ → α → Prop) : σ → List α → σ → Prop
  | nil (s : σ) : Steps step C s [] s
  | cons {s t u : σ} {a : α} {as : List α} :
      C s a → step s a = some t → Steps step C t as u → Steps step C s (a :: as) u

/-- No condition on the steps: every run of the machine. -/
def Any (_ : σ) (_ : α) : Prop := True

instance (s : σ) (a : α) : Decidable (Any s a) := inferInstanceAs (Decidable True)

section steps

variable {step : σ → α → Option σ} {C D : σ → α → Prop} {s t u : σ} {a : α} {as bs : List α}

/-- What holds initially and is kept by every step holds after every run. -/
theorem Steps.invariant {I : σ → Prop} (hstep : ∀ s a t, I s → C s a → step s a = some t → I t)
    (h : Steps step C s as t) (hs : I s) : I t := by
  induction h with
  | nil => exact hs
  | cons hC ha _ ih => exact ih (hstep _ _ _ hs hC ha)

theorem Steps.mono (hCD : ∀ s a, C s a → D s a) (h : Steps step C s as t) :
    Steps step D s as t := by
  induction h with
  | nil => exact .nil _
  | cons hC ha _ ih => exact .cons (hCD _ _ hC) ha ih

/-- What an invariant implies about a step that meets `C` holds of every step of the run. -/
theorem Steps.mono_of_invariant {I : σ → Prop}
    (hstep : ∀ s a t, I s → C s a → step s a = some t → I t) (hCD : ∀ s a, I s → C s a → D s a)
    (h : Steps step C s as t) (hs : I s) : Steps step D s as t := by
  induction h with
  | nil => exact .nil _
  | cons hC ha _ ih => exact .cons (hCD _ _ hs hC) ha (ih (hstep _ _ _ hs hC ha))

theorem Steps.append (h : Steps step C s as t) (h' : Steps step C t bs u) :
    Steps step C s (as ++ bs) u := by
  induction h with
  | nil => exact h'
  | cons hC ha _ ih => exact .cons hC ha (ih h')

theorem Steps.single (hC : C s a) (ha : step s a = some t) : Steps step C s [a] t :=
  .cons hC ha (.nil t)

/-- The invariant rule for what holds of the actions so far and the state they lead to; one step may use
everything known of the run up to it. -/
theorem Steps.invariant_of_history {I : List α → σ → Prop}
    (hstep : ∀ bs u a v, Steps step C s bs u → I bs u → C u a → step u a = some v → I (bs ++ [a]) v)
    (h : Steps step C s as t) (hs : I [] s) : I as t := by
  have hrest : ∀ {u as t}, Steps step C u as t → ∀ bs, Steps step C s bs u → I bs u →
      I (bs ++ as) t := by
    intro u as t hrun
    induction hrun with
    | nil => exact fun bs _ hI => (List.append_nil bs).symm ▸ hI
    | @cons u v t a as hC ha _ ih =>
      intro bs hbs hI
      have hI' := ih (bs ++ [a]) (hbs.append (.single hC ha)) (hstep bs u a v hbs hI hC ha)
      rwa [List.append_assoc] at hI'
  exact hrest h [] (.nil s) hs

/-- The same for a property of the state alone. -/
theorem Steps.invariant_of_run {I : σ → Prop}
    (hstep : ∀ bs u a v, Steps step C s bs u → I u → C u a → step u a = some v → I v)
    (h : Steps step C s as t) (hs : I s) : I t :=
  h.invariant_of_history (I := fun _ => I) hstep hs

/-- If, under an invariant, one step keeps `P` exactly when it meets `D`, then `P` holds after a run
exactly when it held before and every step met `D`. -/
theorem Steps.iff_of_step_of_invariant {I P : σ → Prop}
    (hI : ∀ s a t, I s → C s a → step s a = some t → I t)
    (hstep : ∀ s a t, I s → C s a → step s a = some t → (P t ↔ P s ∧ D s a))
    (h : Steps step C s as t) (hs : I s) : P t ↔ P s ∧ Steps step D s as t := by
  induction h with
  | nil s => exact ⟨fun hP => ⟨hP, .nil s⟩, And.left⟩
  | @cons s u t a as hC ha _ ih =>
    rw [ih (hI s a u hs hC ha), hstep s a u hs hC ha, and_assoc]
    refine and_congr_right fun _ => ⟨fun hD => .cons hD.1 ha hD.2, fun hrun => ?_⟩
    cases hrun with
    | cons hD ha' hrest =>
      obtain rfl : u = _ := Option.some.inj (ha.symm.trans ha')
      exact ⟨hD, hrest⟩

/-- The same without an invariant. -/
theorem Steps.iff_of_step {P : σ → Prop} (hstep : ∀ s a t, step s a = some t → (P t ↔ P s ∧ D s a))
    (h : Steps step C s as t) : P t ↔ P s ∧ Steps step D s as t :=
  h.iff_of_step_of_invariant (I := fun _ => True) (fun _ _ _ _ _ _ => trivial)
    (fun s a t _ _ ha => hstep s a t ha) trivial

theorem Steps.of_exec (h : exec step s as = some t) : Steps step Any s as t := by
  induction as generalizing s with
  | nil =>
    cases h
    exact .nil _
  | cons a as ih =>
    obtain ⟨u, ha, hrest⟩ := Option.bind_eq_some_iff.mp h
    exact .cons trivial ha (ih hrest)

/-- A run whose steps all pass a decidable check, found by running the checked machine. -/
theorem steps_of_exec_check (step : σ → α → Option σ) (s : σ) (as : List α) (D : σ → α → Prop)
    [∀ s a, Decidable (D s a)] (Q : σ → Bool)
    (h : (exec (fun s a => if D s a then step s a else none) s as).any Q = true) :
    ∃ t, Steps step D s as t ∧ Q t = true := by
  induction as generalizing s with
  | nil => exact ⟨s, .nil s, h⟩
  | cons a as ih =>
    simp only [exec] at h
    split at h
    · rename_i hD
      cases ha : step s a with
      | none =>
        rw [ha] at h
        cases h
      | some u =>
        rw [ha] at h
        obtain ⟨t, ht, hQ⟩ := ih u h
        exact ⟨t, .cons hD ha ht, hQ⟩
    · cases h

/-- The same from a start that has to be built first. -/
theorem exists_steps_of_exec_check {β : Type*} (new : Option β) (start : β → σ)
    (step : σ → α → Option σ) (as : List α) (D : σ → α → Prop) [∀ s a, Decidable (D s a)]
    (Q : σ → Bool) (h : (new.any fun b =>
      (exec (fun s a => if D s a then step s a else none) (start b) as).any Q) = true) :
    ∃ b t, new = some b ∧ Steps step D (start b) as t ∧ Q t = true := by
  obtain ⟨b, hnew, hrun⟩ := (Option.any_eq_true _ _).mp h
  obtain ⟨t, ht, hQ⟩ := steps_of_exec_check step (start b) as D Q hrun
  exact ⟨b, t, hnew, ht, hQ⟩

end steps

/-! ## What a run shows -/

section observed

variable {β : Type*} {step : σ → α → Option σ} {C : σ → α → Prop} {s t : σ} {as : List α}

/-- What `obs` reports of the steps of a run, in their order. -/
def observed (step : σ → α → Option σ) (obs : σ → α → Option β) : σ → List α → List β
  | _, [] => []
  | s, a :: as => (obs s a).toList ++ (step s a).elim [] fun t => observed step obs t as

theorem Steps.observed_append (obs : σ → α → Option β) (h : Steps step C s as t) (bs : List α) :
    observed step obs s (as ++ bs) = observed step obs s as ++ observed step obs t bs := by
  induction h with
  | nil => rfl
  | cons _ ha _ ih =>
    rw [List.cons_append, observed, observed, ha, Option.elim_some, Option.elim_some, ih,
      List.append_assoc]

/-- The invariant rule for a property of the reports so far and the state. -/
theorem Steps.invariant_of_observed {obs : σ → α → Option β} {I : List β → σ → Prop}
    (hstep : ∀ log u a v, I log u → C u a → step u a = some v → I (log ++ (obs u a).toList) v)
    (h : Steps step C s as t) (hs : I [] s) : I (observed step obs s as) t := by
  refine h.invariant_of_history (I := fun as t => I (observed step obs s as) t) ?_ hs
  intro bs u a v hrun hI hC ha
  have hlast : observed step obs u [a] = (obs u a).toList := by
    rw [observed, ha, Option.elim_some, observed, List.append_nil]
  rw [hrun.observed_append, hlast]
  exact hstep _ _ _ _ hI hC ha

end observed

/-- Purging. If a step acts on what `view` shows and on nothing else, and leaves that alone on every
input that is not kept, then dropping those inputs changes nothing that `view` shows. `I` is what
the inputs still to come tell about the state. -/
theorem view_foldl_filter {β : Type*} {f : σ → α → σ} (view : σ → β) {keep : α → Bool}
    {I : σ → List α → Prop} (hview : ∀ s s' a, view s = view s' → view (f s a) = view (f s' a))
    (hI : ∀ s a as, I s (a :: as) → I (f s a) as)
    (hdrop : ∀ s a as, I s (a :: as) → keep a = false → view (f s a) = view s) (as : List α)
    (s s' : σ) (h : I s as) (hs : view s = view s') :
    view ((as.filter keep).foldl f s') = view (as.foldl f s) := by
  induction as generalizing s s' with
  | nil => exact hs.symm
  | cons a as ih =>
    cases hk : keep a with
    | true =>
      rw [List.filter_cons_of_pos hk]
      exact ih (f s a) (f s' a) (hI s a as h) (hview s s' a hs)
    | false =>
      rw [List.filter_cons_of_neg (by rw [hk]; exact Bool.false_ne_true)]
      exact ih (f s a) s' (hI s a as h) ((hdrop s a as h hk).trans hs)

/-! ## What a machine can still do -/

section reach

variable {τ : Type*} {step : σ → α → Option σ} {C D : σ → α → Prop} {P Q I : σ → Prop}
  {s t : σ} {a : α} {as : List α}

/-- Some run that keeps to `C` ends in a state with `P`. -/
def Reach (step : σ → α → Option σ) (C : σ → α → Prop) (s : σ) (P : σ → Prop) : Prop :=
  ∃ as t, Steps step C s as t ∧ P t

theorem Steps.of_forall (h : Steps step C s as t) (hD : ∀ b ∈ as, ∀ u, D u b) : Steps step D s as t := by
  induction h with
  | nil s => exact .nil s
  | cons _ hb _ ih =>
    exact .cons (hD _ List.mem_cons_self _) hb (ih fun b hmem => hD b (List.mem_cons_of_mem _ hmem))

namespace Reach

theorem here (h : P s) : Reach step C s P := ⟨[], s, .nil s, h⟩

theorem next (hC : C s a) (ha : step s a = some t) (h : Reach step C t P) : Reach step C s P := by
  obtain ⟨as, u, hrun, hP⟩ := h
  exact ⟨a :: as, u, .cons hC ha hrun, hP⟩

theorem trans (h : Reach step C s P)
    (hnext : ∀ as t, Steps step C s as t → P t → Reach step C t Q) : Reach step C s Q := by
  obtain ⟨as, t, hrun, hP⟩ := h
  obtain ⟨bs, u, hrest, hQ⟩ := hnext as t hrun hP
  exact ⟨as ++ bs, u, hrun.append hrest, hQ⟩

theorem imp (h : Reach step C s P) (hPQ : ∀ as t, Steps step C s as t → P t → Q t) :
    Reach step C s Q :=
  h.trans fun as t hrun hP => here (hPQ as t hrun hP)

theorem mono (h : Reach step C s P) (hCD : ∀ s a, C s a → D s a) : Reach step D s P := by
  obtain ⟨as, t, hrun, hP⟩ := h
  exact ⟨as, t, hrun.mono hCD, hP⟩

end Reach

/-- A loop: as long as the goal is not reached, a round of it keeps the invariant and lowers the
measure. -/
theorem reach_of_descent (work : σ → Nat)
    (hround : ∀ s, I s → ¬ P s → Reach step C s fun t => I t ∧ work t < work s) (hs : I s) :
    Reach step C s fun t => P t ∧ I t := by
  induction hw : work s using Nat.strongRecOn generalizing s with
  | ind w ih =>
    by_cases hP : P s
    · exact .here ⟨hP, hs⟩
    · refine (hround s hs hP).trans fun as t _ ht => ?_
      exact ih (work t) (hw ▸ ht.2) ht.1 rfl

/-- A machine inside another one: if each step of the part is a step of the whole that keeps `R`, what
the part can do the whole can do. -/
theorem Reach.lift {γ : Type*} {step' : τ → γ → Option τ} {C' : τ → γ → Prop} {R : σ → τ → Prop} {x : τ}
    (hsim : ∀ s a t x, R s x → C s a → step s a = some t →
      ∃ c y, C' x c ∧ step' x c = some y ∧ R t y)
    (h : Reach step C s P) (hx : R s x) : Reach step' C' x fun y => ∃ t, R t y ∧ P t := by
  obtain ⟨as, t, hrun, hP⟩ := h
  induction hrun generalizing x with
  | nil s => exact .here ⟨s, hx, hP⟩
  | cons hC ha _ ih =>
    obtain ⟨c, y, hC', hc, hy⟩ := hsim _ _ _ x hx hC ha
    exact .next hC' hc (ih hy hP)

end reach

/-! ## Runs that come to an end -/

section ends

variable {step : σ → α → Option σ} {C : σ → α → Prop} {I : σ → Prop} {counts : α → Bool}
  {work : σ → Nat} {s t : σ} {as : List α}

/-- A step leaves less work if it is counted, and not more if it is not. -/
def Works (step : σ → α → Option σ) (C : σ → α → Prop) (I : σ → Prop) (counts : α → Bool)
    (work : σ → Nat) : Prop :=
  ∀ s a t, I s → C s a → step s a = some t → (counts a).toNat + work t ≤ work s

/-- A run has at most as many counted steps as there was work at its start. -/
theorem Steps.countP_add_le (hI : ∀ s a t, I s → C s a → step s a = some t → I t)
    (hwork : Works step C I counts work) (h : Steps step C s as t) (hs : I s) :
    as.countP counts + work t ≤ work s := by
  induction h with
  | nil s => simp
  | @cons s u t a as hC ha _ ih =>
    have hstep := hwork s a u hs hC ha
    have hrest := ih (hI s a u hs hC ha)
    rw [List.countP_cons]
    cases hcount : counts a with
    | true =>
      rw [hcount, Bool.toNat_true] at hstep
      simp only [if_true]
      omega
    | false =>
      rw [hcount, Bool.toNat_false] at hstep
      simp only [Bool.false_eq_true, if_false]
      omega

/-- If a state that is not final always allows a counted step, some run ends in a final one. -/
theorem reach_final {Final : σ → Prop} (hI : ∀ s a t, I s → C s a → step s a = some t → I t)
    (hwork : Works step C I counts work)
    (hnext : ∀ s, I s → ¬ Final s → ∃ a t, counts a = true ∧ C s a ∧ step s a = some t) (hs : I s) :
    Reach step C s Final := by
  refine (reach_of_descent work (fun s hs hfinal => ?_) hs).imp fun _ _ _ ht => ht.1
  obtain ⟨a, t, hcount, hC, ha⟩ := hnext s hs hfinal
  have hless := hwork s a t hs hC ha
  rw [hcount, Bool.toNat_true] at hless
  exact .next hC ha (.here ⟨hI s a t hs hC ha, by omega⟩)

end ends

end Lib
