import Mathlib.Data.List.Basic
import Mathlib.Data.List.GetD
import Mathlib.Algebra.Order.Ring.Nat
import Mathlib.Tactic.Ring

/-!
# Byte strings: little-endian fields and positional writes

* `leBytes n v` is the `n`-byte little-endian encoding of `v`, `leNat` reads one back.
* `slice l off n` is `l[off .. off + n]`; `overwrite l off bs` replaces the bytes from `off` on by
  `bs` inside `l`. A slice disjoint from the written range is unchanged (`slice_overwrite_before`,
  `slice_overwrite_after`), the written range reads back (`slice_overwrite_self`).
* `writeAt l off bs` is the positional write of a growing store: it first pads with zeros.
-/

namespace Lib

/-! ## Little-endian encoding -/

/-- The `n` little-endian bytes of `v`. -/
def leBytes : Nat → Nat → List UInt8
  | 0, _ => []
  | n + 1, v => UInt8.ofNat v :: leBytes n (v / 256)

/-- The value of a little-endian byte string. -/
def leNat : List UInt8 → Nat
  | [] => 0
  | b :: l => b.toNat + 256 * leNat l

@[simp] theorem leBytes_length (n v : Nat) : (leBytes n v).length = n := by
  induction n generalizing v with
  | zero => rfl
  | succ n ih => simp [leBytes, ih]

theorem leNat_leBytes (n v : Nat) : leNat (leBytes n v) = v % 256 ^ n := by
  induction n generalizing v with
  | zero => simp [leBytes, leNat, Nat.mod_one]
  | succ n ih =>
    rw [leBytes, leNat, ih, pow_succ', Nat.mod_mul]
    simp

theorem leNat_leBytes_of_lt {n v : Nat} (h : v < 256 ^ n) : leNat (leBytes n v) = v := by
  rw [leNat_leBytes, Nat.mod_eq_of_lt h]

theorem leBytes_injective {n v w : Nat} (hv : v < 256 ^ n) (hw : w < 256 ^ n)
    (h : leBytes n v = leBytes n w) : v = w := by
  rw [← leNat_leBytes_of_lt hv, h, leNat_leBytes_of_lt hw]

theorem leNat_lt (l : List UInt8) : leNat l < 256 ^ l.length := by
  induction l with
  | nil => simp [leNat]
  | cons b l ih =>
    have hb : b.toNat < 256 := b.toNat_lt
    rw [leNat, List.length_cons, pow_succ']
    omega

theorem leBytes_leNat (l : List UInt8) : leBytes l.length (leNat l) = l := by
  induction l with
  | nil => rfl
  | cons b l ih =>
    have hb : b.toNat < 256 := b.toNat_lt
    have hlow : UInt8.ofNat (leNat (b :: l)) = b := by
      apply UInt8.toNat_inj.mp
      simp only [leNat, UInt8.toNat_ofNat']
      omega
    have hhigh : leNat (b :: l) / 256 = leNat l := by
      rw [leNat]
      omega
    rw [List.length_cons, leBytes, hlow, hhigh, ih]

theorem leNat_append (l m : List UInt8) : leNat (l ++ m) = leNat l + 256 ^ l.length * leNat m := by
  induction l with
  | nil => simp [leNat]
  | cons b l ih =>
    rw [List.cons_append, leNat, ih, leNat, List.length_cons, pow_succ']
    ring

/-! ## Byte arrays -/

theorem toList_loop_eq (bs : ByteArray) (i : Nat) (r : List UInt8) :
    ByteArray.toList.loop bs i r = r.reverse ++ bs.data.toList.drop i := by
  fun_induction ByteArray.toList.loop bs i r with
  | case1 i r hi ih =>
    have hi' : i < bs.data.toList.length := hi
    have hget : bs.get! i = bs.data.toList[i] := getElem!_pos bs.data i hi
    rw [ih, List.drop_eq_getElem_cons hi', hget, List.reverse_cons, List.append_assoc]
    rfl
  | case2 i r hi => rw [List.drop_eq_nil_of_le (not_lt.mp hi), List.append_nil]

theorem toList_eq_data (bs : ByteArray) : bs.toList = bs.data.toList := by
  rw [ByteArray.toList, toList_loop_eq]
  rfl

theorem toList_injective {bs bs' : ByteArray} (h : bs.toList = bs'.toList) : bs = bs' := by
  rw [toList_eq_data, toList_eq_data] at h
  exact ByteArray.ext (Array.toList_inj.mp h)

/-! ## Slices and overwrites -/

variable {α : Type*}

/-- `l[off .. off + n]`, shorter where `l` ends. -/
def slice (l : List α) (off n : Nat) : List α := (l.drop off).take n

/-- `l` with the elements from `off` on replaced by `bs`. -/
def overwrite (l : List α) (off : Nat) (bs : List α) : List α :=
  l.take off ++ bs ++ l.drop (off + bs.length)

theorem slice_length (l : List α) (off n : Nat) : (slice l off n).length = min n (l.length - off) := by
  simp [slice]

theorem slice_length_of_le {l : List α} {off n : Nat} (h : off + n ≤ l.length) :
    (slice l off n).length = n := by
  rw [slice_length]
  omega

theorem overwrite_length {l : List α} {off : Nat} {bs : List α} (h : off + bs.length ≤ l.length) :
    (overwrite l off bs).length = l.length := by
  simp only [overwrite, List.length_append, List.length_take, List.length_drop]
  omega

theorem slice_overwrite_self {l : List α} {off : Nat} {bs : List α} (h : off ≤ l.length) :
    slice (overwrite l off bs) off bs.length = bs := by
  have hlen : (l.take off).length = off := by
    rw [List.length_take]
    omega
  rw [slice, overwrite, List.append_assoc, List.drop_append_of_le_length (by omega),
    List.drop_eq_nil_of_le (by omega), List.nil_append, List.take_left]

theorem slice_overwrite_before {l : List α} {off p n : Nat} {bs : List α} (h : off ≤ l.length)
    (hp : p + n ≤ off) : slice (overwrite l off bs) p n = slice l p n := by
  have hlen : (l.take off).length = off := by
    rw [List.length_take]
    omega
  rw [slice, overwrite, List.append_assoc, List.drop_append_of_le_length (by omega),
    List.take_append_of_le_length (by rw [List.length_drop]; omega), List.drop_take, List.take_take,
    Nat.min_eq_left (by omega), slice]

theorem slice_overwrite_after {l : List α} {off p n : Nat} {bs : List α} (h : off ≤ l.length)
    (hp : off + bs.length ≤ p) : slice (overwrite l off bs) p n = slice l p n := by
  have hlen : (l.take off ++ bs).length = off + bs.length := by
    rw [List.length_append, List.length_take]
    omega
  rw [slice, overwrite, List.drop_append, List.drop_eq_nil_of_le (by omega), List.nil_append,
    hlen, List.drop_drop, slice]
  congr 2
  omega

theorem overwrite_append {pre bs : List α} {off : Nat} (hoff : pre.length = off) (rest : List α) :
    overwrite (pre ++ rest) off bs = pre ++ bs ++ rest.drop bs.length := by
  subst hoff
  rw [overwrite, List.take_left, List.drop_append, Nat.add_sub_cancel_left,
    List.drop_eq_nil_of_le (Nat.le_add_right _ _), List.nil_append]

theorem overwrite_zero (l bs : List α) : overwrite l 0 bs = bs ++ l.drop bs.length := by
  rw [overwrite, List.take_zero, List.nil_append, Nat.zero_add]

theorem slice_take {l : List α} {m off n : Nat} (h : off + n ≤ m) :
    slice (l.take m) off n = slice l off n := by
  rw [slice, slice, List.drop_take, List.take_take, Nat.min_eq_left (by omega)]

theorem slice_append_slice (l : List α) (off m n : Nat) :
    slice l off m ++ slice l (off + m) n = slice l off (m + n) := by
  rw [slice, slice, slice, ← List.drop_drop, List.take_add]

theorem getElem?_slice {l : List α} {off n i : Nat} (h : i < n) :
    (slice l off n)[i]? = l[off + i]? := by
  rw [slice, List.getElem?_take_of_lt h, List.getElem?_drop]

theorem getElem?_middle (pre : List α) {mid mid' : List α} (rest : List α) (hlen : mid'.length = mid.length)
    {i : Nat} (hi : i < pre.length ∨ pre.length + mid.length ≤ i) :
    (pre ++ (mid' ++ rest))[i]? = (pre ++ (mid ++ rest))[i]? := by
  rcases hi with hlt | hge
  · rw [List.getElem?_append_left hlt, List.getElem?_append_left hlt]
  · rw [List.getElem?_append_right (by omega), List.getElem?_append_right (by omega),
      List.getElem?_append_right (by omega), List.getElem?_append_right (by omega), hlen]

/-! ## Writes into a growing store -/

/-- Write `bs` at byte `off`, growing with zeros where the store ends before. -/
def writeAt (l : List UInt8) (off : Nat) (bs : List UInt8) : List UInt8 :=
  overwrite (l ++ List.replicate (off + bs.length - l.length) 0) off bs

theorem writeAt_of_le {l : List UInt8} {off : Nat} {bs : List UInt8}
    (h : off + bs.length ≤ l.length) : writeAt l off bs = overwrite l off bs := by
  rw [writeAt, Nat.sub_eq_zero_of_le h, List.replicate_zero, List.append_nil]

theorem writeAt_length (l : List UInt8) (off : Nat) (bs : List UInt8) :
    (writeAt l off bs).length = max l.length (off + bs.length) := by
  rw [writeAt, overwrite_length (by rw [List.length_append, List.length_replicate]; omega),
    List.length_append, List.length_replicate]
  omega

theorem getD_append_replicate (l : List UInt8) (n i : Nat) :
    (l ++ List.replicate n 0).getD i 0 = l.getD i 0 := by
  by_cases hi : i < l.length
  · rw [List.getD_append _ _ _ _ hi]
  · rw [List.getD_append_right _ _ _ _ (by omega), List.getD_eq_default l _ (by omega),
      List.getD_eq_getElem?_getD, List.getElem?_replicate]
    split <;> rfl

theorem getD_writeAt (l : List UInt8) (off : Nat) (bs : List UInt8) (i : Nat) :
    (writeAt l off bs).getD i 0 =
      if off ≤ i ∧ i < off + bs.length then bs.getD (i - off) 0 else l.getD i 0 := by
  have hlen : off ≤ (l ++ List.replicate (off + bs.length - l.length) 0).length := by
    rw [List.length_append, List.length_replicate]
    omega
  rw [writeAt, overwrite, ← getD_append_replicate l (off + bs.length - l.length) i]
  generalize l ++ List.replicate (off + bs.length - l.length) 0 = m at hlen
  simp only [List.getD_eq_getElem?_getD, List.append_assoc]
  grind

end Lib
