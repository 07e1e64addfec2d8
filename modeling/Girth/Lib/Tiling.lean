import Girth.Lib.Bytes

/-!
# A list cut into tiles

A list of length `len` cut into tiles of `size` elements, the last one perhaps shorter: tile `k`
starts at `k * size` and has `tileLen len size k` elements. Every position lies in a tile
(`exists_tile`), so a list is determined by its tiles (`eq_of_tiles`).

`Holds l size content W` says that the tiles in `W` have the given content. Writing one tile with its
content keeps that and adds the tile to `W` (`Holds.overwrite`), in whatever order and however often
tiles are written; when all of them are there, the list is the one the content was cut from
(`Holds.eq`).
-/

namespace Lib

variable {α : Type*} {l : List α} {size : Nat}

def tileLen (len size k : Nat) : Nat := min size (len - k * size)

def tile (l : List α) (size k : Nat) : List α := slice l (k * size) (tileLen l.length size k)

theorem tile_length (l : List α) (size k : Nat) :
    (tile l size k).length = tileLen l.length size k := by
  rw [tile, slice_length, tileLen]
  omega

theorem tile_end_le {len k : Nat} (h : k * size ≤ len) : k * size + tileLen len size k ≤ len := by
  rw [tileLen]
  omega

theorem tile_disjoint (len : Nat) {j k : Nat} (h : j < k) :
    j * size + tileLen len size j ≤ k * size := by
  have hle : (j + 1) * size ≤ k * size := Nat.mul_le_mul_right size h
  rw [Nat.succ_mul] at hle
  have hmin : tileLen len size j ≤ size := Nat.min_le_left _ _
  omega

theorem exists_tile {len i : Nat} (hsize : 0 < size) (hi : i < len) :
    ∃ k, k * size < len ∧ k * size ≤ i ∧ i < k * size + tileLen len size k := by
  have hdiv : i / size * size + i % size = i := Nat.div_add_mod' i size
  have hmod : i % size < size := Nat.mod_lt i hsize
  refine ⟨i / size, by omega, by omega, ?_⟩
  rw [tileLen]
  omega

theorem eq_of_tiles {xs ys : List α} (hsize : 0 < size) (hlen : xs.length = ys.length)
    (h : ∀ k, k * size < xs.length → tile xs size k = tile ys size k) : xs = ys := by
  apply List.ext_getElem?
  intro i
  by_cases hi : i < xs.length
  · obtain ⟨k, hk, hlo, hhi⟩ := exists_tile hsize hi
    obtain ⟨j, rfl⟩ := Nat.exists_eq_add_of_le hlo
    have hj : j < tileLen xs.length size k := by omega
    have htile := congrArg (·[j]?) (h k hk)
    simp only [tile, ← hlen] at htile
    rwa [getElem?_slice hj, getElem?_slice hj] at htile
  · rw [List.getElem?_eq_none (by omega), List.getElem?_eq_none (by omega)]

/-! ## Writing tiles -/

theorem tile_overwrite_self {k : Nat} {bs : List α} (hk : k * size ≤ l.length)
    (hbs : bs.length = tileLen l.length size k) : tile (overwrite l (k * size) bs) size k = bs := by
  have hend := tile_end_le hk
  rw [tile, overwrite_length (by omega), ← hbs, slice_overwrite_self hk]

theorem tile_overwrite_ne {j k : Nat} {bs : List α} (hj : j * size ≤ l.length)
    (hbs : bs.length = tileLen l.length size j) (hne : j ≠ k) :
    tile (overwrite l (j * size) bs) size k = tile l size k := by
  have hend := tile_end_le hj
  rw [tile, overwrite_length (by omega), tile]
  rcases Nat.lt_or_gt_of_ne hne with hlt | hgt
  · have hdis : j * size + tileLen l.length size j ≤ k * size := tile_disjoint l.length hlt
    exact slice_overwrite_after hj (by omega)
  · exact slice_overwrite_before hj (tile_disjoint l.length hgt)

/-- The tiles in `W` have the given content. -/
def Holds (l : List α) (size : Nat) (content : Nat → List α) (W : Nat → Prop) : Prop :=
  ∀ k, W k → tile l size k = content k

variable {content : Nat → List α} {W : Nat → Prop}

theorem Holds.overwrite {j : Nat} (h : Holds l size content W) (hj : j * size ≤ l.length)
    (hlen : (content j).length = tileLen l.length size j) :
    Holds (overwrite l (j * size) (content j)) size content fun k => k = j ∨ W k := by
  intro k hk
  by_cases hkj : k = j
  · rw [hkj]
    exact tile_overwrite_self hj hlen
  · rw [tile_overwrite_ne hj hlen (Ne.symm hkj)]
    exact h k (hk.resolve_left hkj)

/-- When every tile is there, the whole list is. -/
theorem Holds.eq {ys : List α} (h : Holds l size (tile ys size) W) (hsize : 0 < size)
    (hlen : l.length = ys.length) (hall : ∀ k, k * size < l.length → W k) : l = ys :=
  eq_of_tiles hsize hlen fun k hk => h k (hall k hk)

end Lib
