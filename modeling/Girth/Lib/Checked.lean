import Girth.Lib.Bytes

/-!
# Operations that can fault

A translation of code in which every slice, every index, every division and every integer operation
or cast is checked: the result is the exact value, or the fault a debug build would stop with. Each
operation comes with the one condition under which it gives its value.
-/

namespace Lib

inductive Fault
  | index
  | slice
  | overflow
  | divByZero
  deriving DecidableEq, Repr

abbrev Checked (α : Type) := Except Fault α

variable {α : Type}

/-- `l[i]`. -/
def indexOf (l : List α) (i : Nat) : Checked α :=
  match l[i]? with
  | some a => .ok a
  | none => .error .index

/-- `l[lo .. hi]`. -/
def sliceOf (l : List α) (lo hi : Nat) : Checked (List α) :=
  if lo ≤ hi ∧ hi ≤ l.length then .ok (slice l lo (hi - lo)) else .error .slice

/-- A result or a cast that must lie in the range of its type. -/
def fit (lo hi x : Int) : Checked Int := if lo ≤ x ∧ x < hi then .ok x else .error .overflow

def fitU16 (x : Int) : Checked Int := fit 0 (2 ^ 16) x
def fitU64 (x : Int) : Checked Int := fit 0 (2 ^ 64) x
def fitI64 (x : Int) : Checked Int := fit (-2 ^ 63) (2 ^ 63) x

/-- `a.div_ceil(b)` on unsigned integers. -/
def divCeil (a b : Int) : Checked Int :=
  if b = 0 then .error .divByZero
  else if 0 < a % b then fitU64 (a / b + 1) else .ok (a / b)

theorem indexOf_eq {l : List α} {i : Nat} (h : i < l.length) (d : α) :
    indexOf l i = .ok (l.getD i d) := by
  rw [indexOf, List.getD_eq_getElem?_getD, List.getElem?_eq_getElem h]
  rfl

theorem sliceOf_eq {l : List α} {lo hi : Nat} (hlo : lo ≤ hi) (hhi : hi ≤ l.length) :
    sliceOf l lo hi = .ok (slice l lo (hi - lo)) := if_pos ⟨hlo, hhi⟩

theorem fit_eq {lo hi x : Int} (hlo : lo ≤ x) (hhi : x < hi) : fit lo hi x = .ok x :=
  if_pos ⟨hlo, hhi⟩

theorem divCeil_eq {a b : Nat} (ha : a + 1 < 2 ^ 64) (hb : 0 < b) :
    divCeil a b = .ok ((a / b + if a % b = 0 then 0 else 1 : Nat) : Int) := by
  have hdiv : (a : Int) / b = (a / b : Nat) := (Int.natCast_div a b).symm
  have hmod : (a : Int) % b = (a % b : Nat) := (Int.natCast_mod a b).symm
  have hle : a / b ≤ a := Nat.div_le_self a b
  rw [divCeil, if_neg (by omega), hdiv, hmod]
  generalize a / b = q at hle ⊢
  split
  · rw [if_neg (by omega)]
    exact fit_eq (by omega) (by omega)
  · rw [if_pos (by omega)]
    rfl

/-! How a checked operation goes on when it does not fault. -/

section bind

variable {β : Type} {x : Int} {f : Int → Checked β}

theorem fitU16_bind (hlo : 0 ≤ x) (hhi : x < 2 ^ 16) : (fitU16 x >>= f) = f x := by
  rw [fitU16, fit_eq hlo hhi]
  rfl

theorem fitU64_bind (hlo : 0 ≤ x) (hhi : x < 2 ^ 64) : (fitU64 x >>= f) = f x := by
  rw [fitU64, fit_eq hlo hhi]
  rfl

theorem fitI64_bind (hlo : -2 ^ 63 ≤ x) (hhi : x < 2 ^ 63) : (fitI64 x >>= f) = f x := by
  rw [fitI64, fit_eq hlo hhi]
  rfl

theorem indexOf_bind {l : List α} {i : Nat} {g : α → Checked β} (h : i < l.length) (d : α) :
    (indexOf l i >>= g) = g (l.getD i d) := by
  rw [indexOf_eq h d]
  rfl

theorem sliceOf_bind {l : List α} {lo hi : Nat} {g : List α → Checked β} (hlo : lo ≤ hi)
    (hhi : hi ≤ l.length) : (sliceOf l lo hi >>= g) = g (slice l lo (hi - lo)) := by
  rw [sliceOf_eq hlo hhi]
  rfl

end bind

/-! ## Little-endian fields -/

/-- The `n` bytes from `off` on, taken as a slice and then read one by one. -/
def fieldAt (b : List UInt8) (off n : Nat) : Checked Nat := do
  let s ← sliceOf b off (off + n)
  let bytes ← (List.range n).mapM (indexOf s)
  pure (leNat bytes)

theorem mapM_indexOf {l : List α} (n : Nat) (h : n ≤ l.length) :
    (List.range n).mapM (indexOf l) = .ok (l.take n) := by
  induction n with
  | zero => rfl
  | succ n ih =>
    have hlt : n < l.length := h
    rw [List.range_succ, List.mapM_append, ih (by omega), List.take_add_one,
      List.getElem?_eq_getElem hlt]
    simp only [List.mapM_cons, indexOf, List.getElem?_eq_getElem hlt]
    rfl

theorem fieldAt_eq {b : List UInt8} {off n : Nat} (h : off + n ≤ b.length) :
    fieldAt b off n = .ok (leNat (slice b off n)) := by
  have hlen := slice_length_of_le h
  have hall : (slice b off n).take n = slice b off n := List.take_of_length_le (by omega)
  rw [fieldAt, sliceOf_eq (by omega) h, Nat.add_sub_cancel_left]
  show ((List.range n).mapM (indexOf (slice b off n)) >>= fun bytes => pure (leNat bytes)) = _
  rw [mapM_indexOf n (by omega), hall]
  rfl

end Lib
