import Mathlib.Logic.Basic

/-!
# Calls that may fail

A `Call` runs on a state and returns a value or an error; the state survives an error. Two rules of
composition are enough for a straight line of calls with early returns: `Keeps I` says that a call
keeps an invariant whether it fails or not, and is shown for every call of the line; `Ends Q` says
that `Q` holds after a call that succeeded, and is shown for the last one.

`Diverts c R c'` compares a line of calls with a variant of it: wherever `c` succeeds, `c'` ends with
the result `R`. What the two have in common is passed over (`Diverts.bind`).
-/

namespace Lib

abbrev Call (ε σ α : Type) := ExceptT ε (StateM σ) α

namespace Call

variable {ε σ α β : Type} {I Q : σ → Prop}

/-- The result of a call and the state it leaves. -/
def runOn (c : Call ε σ α) (s : σ) : Except ε α × σ := StateT.run (ExceptT.run c) s

/-- A computation without access to the state. -/
def ofExcept (r : Except ε α) : Call ε σ α := ExceptT.mk (pure r)

theorem runOn_bind (c : Call ε σ α) (f : α → Call ε σ β) (s : σ) :
    runOn (c >>= f) s =
      match runOn c s with
      | (.ok a, t) => runOn (f a) t
      | (.error e, t) => (.error e, t) := by
  show StateT.run (match (runOn c s).1 with | .ok a => _ | .error e => _) (runOn c s).2 = _
  generalize runOn c s = r
  obtain ⟨res, t⟩ := r
  cases res <;> rfl

theorem runOn_tryCatch (c : Call ε σ α) (f : ε → Call ε σ α) (s : σ) :
    runOn (tryCatch c f) s =
      match runOn c s with
      | (.ok a, t) => (.ok a, t)
      | (.error e, t) => runOn (f e) t := by
  show StateT.run (match (runOn c s).1 with | .ok a => _ | .error e => _) (runOn c s).2 = _
  generalize runOn c s = r
  obtain ⟨res, t⟩ := r
  cases res <;> rfl

theorem runOn_ofExcept (r : Except ε α) (s : σ) : runOn (ofExcept r) s = (r, s) := rfl

theorem runOn_modify (g : σ → σ) (s : σ) :
    runOn (modify g : Call ε σ PUnit) s = (.ok PUnit.unit, g s) := rfl

theorem runOn_get_bind (f : σ → Call ε σ β) (s : σ) : runOn (get >>= f) s = runOn (f s) s := rfl

theorem runOn_bind_ok {c : Call ε σ α} {f : α → Call ε σ β} {s u : σ} {b : β}
    (h : runOn (c >>= f) s = (.ok b, u)) :
    ∃ a t, runOn c s = (.ok a, t) ∧ runOn (f a) t = (.ok b, u) := by
  rw [runOn_bind] at h
  generalize runOn c s = r at h
  obtain ⟨res, t⟩ := r
  cases res with
  | ok a => exact ⟨a, t, rfl, h⟩
  | error e => cases h

/-- The call keeps the invariant, whether it fails or not. -/
def Keeps (I : σ → Prop) (c : Call ε σ α) : Prop := ∀ s, I s → I (runOn c s).2

theorem Keeps.bind {c : Call ε σ α} {f : α → Call ε σ β} (hc : Keeps I c) (hf : ∀ a, Keeps I (f a)) :
    Keeps I (c >>= f) := by
  intro s hs
  have ht := hc s hs
  rw [runOn_bind]
  generalize runOn c s = r at ht
  obtain ⟨res, t⟩ := r
  cases res with
  | ok a => exact hf a t ht
  | error e => exact ht

theorem Keeps.tryCatch {c : Call ε σ α} {f : ε → Call ε σ α} (hc : Keeps I c)
    (hf : ∀ e, Keeps I (f e)) : Keeps I (tryCatch c f) := by
  intro s hs
  have ht := hc s hs
  rw [runOn_tryCatch]
  generalize runOn c s = r at ht
  obtain ⟨res, t⟩ := r
  cases res with
  | ok a => exact ht
  | error e => exact hf e t ht

/-- After a success, `Q` holds. -/
def Ends (Q : σ → Prop) (c : Call ε σ α) : Prop := ∀ s a t, runOn c s = (.ok a, t) → Q t

theorem Ends.bind {c : Call ε σ α} {f : α → Call ε σ β} (hf : ∀ a, Ends Q (f a)) :
    Ends Q (c >>= f) := by
  intro s b u h
  rw [runOn_bind] at h
  generalize runOn c s = r at h
  obtain ⟨res, t⟩ := r
  cases res with
  | ok a => exact hf a t b u h
  | error e => cases h

theorem Keeps.ofExcept (r : Except ε α) : Keeps I (Call.ofExcept r : Call ε σ α) := fun _ hs => hs

theorem Keeps.throw (e : ε) : Keeps I (throw e : Call ε σ α) := fun _ hs => hs

theorem Keeps.modify {g : σ → σ} (h : ∀ s, I s → I (g s)) :
    Keeps I (modify g : Call ε σ PUnit) := h

theorem Ends.modify {g : σ → σ} (h : ∀ s, Q (g s)) : Ends Q (modify g : Call ε σ PUnit) := by
  intro s a t heq
  cases heq
  exact h s

/-! ## Variants -/

/-- Where `c` succeeds, `c'` ends with `R`. -/
def Diverts (c : Call ε σ Unit) (R : Except ε Unit) (c' : Call ε σ Unit) : Prop :=
  ∀ s, (runOn c s).1 = .ok () → (runOn c' s).1 = R

variable {R : Except ε Unit}

theorem Diverts.bind {c : Call ε σ α} {f f' : α → Call ε σ Unit} (h : ∀ a, Diverts (f a) R (f' a)) :
    Diverts (c >>= f) R (c >>= f') := by
  intro s hok
  rw [runOn_bind] at hok ⊢
  generalize runOn c s = r at hok
  obtain ⟨res, t⟩ := r
  cases res with
  | ok a => exact h a t hok
  | error e => cases hok

theorem Diverts.andThen {c c' : Call ε σ Unit} {f : Unit → Call ε σ Unit} (h : Diverts c R c')
    (hf : ∀ s, (runOn (f ()) s).1 = .ok ()) : Diverts (c >>= f) R (c' >>= f) := by
  have hres : ∀ (c : Call ε σ Unit) s, (runOn (c >>= f) s).1 = (runOn c s).1 := by
    intro c s
    rw [runOn_bind]
    generalize runOn c s = r
    obtain ⟨res, t⟩ := r
    cases res with
    | ok a => exact hf t
    | error e => rfl
  intro s hok
  rw [hres] at hok ⊢
  exact h s hok

end Call

end Lib
