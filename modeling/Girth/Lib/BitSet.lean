import Mathlib.Data.BitVec
import Mathlib.Tactic.Ring

/-!
# Sets of naturals packed into machine words

A list of `w`-bit words holds the members below `w * words.length`: `i` is bit `i % w` of word
`i / w`. `testBit ws i` is membership and `orBit ws i` is insertion, one word read or written by
each. Insertion adds its own member and touches no other (`testBit_orBit`), and words with the same
members are equal (`testBit_ext`).
-/

namespace Lib

variable {w : Nat}

def testBit (ws : List (BitVec w)) (i : Nat) : Bool := (ws.getD (i / w) 0).getLsbD (i % w)

def orBit (ws : List (BitVec w)) (i : Nat) : List (BitVec w) :=
  ws.set (i / w) (ws.getD (i / w) 0 ||| BitVec.twoPow w (i % w))

@[simp] theorem testBit_replicate (n i : Nat) : testBit (List.replicate n (0 : BitVec w)) i = false := by
  have hword : (List.replicate n (0 : BitVec w)).getD (i / w) 0 = 0 := by
    rw [List.getD_eq_getElem?_getD, List.getElem?_replicate]
    split <;> rfl
  rw [testBit, hword]
  simp

theorem testBit_orBit {ws : List (BitVec w)} {i : Nat} (hi : i / w < ws.length) (hw : 0 < w)
    (j : Nat) : testBit (orBit ws i) j = (testBit ws j || j == i) := by
  have hmod : j % w < w := Nat.mod_lt _ hw
  rw [testBit, orBit, List.getD_eq_getElem?_getD, List.getElem?_set]
  by_cases hword : i / w = j / w
  · -- the same word: one bit of it is new
    rw [if_pos hword, if_pos hi, Option.getD_some, BitVec.getLsbD_or, BitVec.getLsbD_twoPow, testBit,
      hword]
    have hiff : (j % w = i % w) ↔ j = i := by
      constructor
      · intro hbit
        rw [← Nat.div_add_mod j w, ← Nat.div_add_mod i w, hword, hbit]
      · intro h
        rw [h]
    by_cases hji : j = i
    · subst hji
      simp [hmod]
    · have hne : i % w ≠ j % w := fun h => hji (hiff.mp h.symm)
      simp [hji, hne]
  · -- another word
    have hji : j ≠ i := fun h => hword (by rw [h])
    rw [if_neg hword, testBit, List.getD_eq_getElem?_getD]
    simp [hji]

theorem testBit_ext {ws ws' : List (BitVec w)} (hlen : ws.length = ws'.length)
    (h : ∀ i, testBit ws i = testBit ws' i) : ws = ws' := by
  refine List.ext_getElem hlen fun k hk hk' => BitVec.eq_of_getLsbD_eq fun j hj => ?_
  have hdiv : (k * w + j) / w = k := by
    rw [Nat.mul_comm, Nat.mul_add_div (by omega), Nat.div_eq_of_lt hj, Nat.add_zero]
  have hmod : (k * w + j) % w = j := by
    rw [Nat.mul_comm, Nat.mul_add_mod, Nat.mod_eq_of_lt hj]
  have hbit := h (k * w + j)
  rw [testBit, testBit, hdiv, hmod, List.getD_eq_getElem?_getD, List.getD_eq_getElem?_getD,
    List.getElem?_eq_getElem hk, List.getElem?_eq_getElem hk'] at hbit
  exact hbit

end Lib
