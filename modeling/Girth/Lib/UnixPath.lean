import Mathlib.Data.List.Basic

/-!
# Unix paths

The components of a path as Rust's `std::path` yields them: a leading `/` is the root, a leading
`.` is kept, and after that empty pieces and `.` are skipped, `..` is the parent and everything else
is a normal component. `fileName` is the last component if it is normal, and `join` is
`Path::join`. Joining a single normal component appends exactly that component
(`components_join`).
-/

namespace Lib.UnixPath

inductive Component
  | rootDir
  | curDir
  | parentDir
  | normal (name : List Char)
  deriving DecidableEq, Repr

/-- The component of one piece between two separators. -/
def component? : List Char → Option Component
  | [] => none
  | ['.'] => none
  | ['.', '.'] => some .parentDir
  | name => some (.normal name)

/-- What only the front of a path can give. -/
def leading : List Char → List Component
  | '/' :: _ => [.rootDir]
  | ['.'] => [.curDir]
  | '.' :: '/' :: _ => [.curDir]
  | _ => []

def components (p : List Char) : List Component := leading p ++ (p.splitOn '/').filterMap component?

/-- The last component, if it is normal. -/
def fileName (p : List Char) : Option (List Char) :=
  match (components p).getLast? with
  | some (.normal name) => some name
  | _ => none

/-- The last of the normal components. -/
def lastNormal (p : List Char) : Option (List Char) :=
  ((components p).filterMap fun
    | .normal name => some name
    | _ => none).getLast?

/-- An absolute `name` replaces `dir`; otherwise a separator is put between them if `dir` does not
end in one. -/
def join (dir name : List Char) : List Char :=
  if name.head? = some '/' then name
  else if dir = [] ∨ dir.getLast? = some '/' then dir ++ name
  else dir ++ '/' :: name

/-- The names that stand for one normal component. -/
def IsNormal (name : List Char) : Prop :=
  name ≠ [] ∧ name ≠ ['.'] ∧ name ≠ ['.', '.'] ∧ '/' ∉ name

instance (name : List Char) : Decidable (IsNormal name) := inferInstanceAs (Decidable (_ ∧ _))

variable {p dir name : List Char} {c : Component}

/-! ## The pieces of a path -/

@[simp] theorem component?_nil : component? [] = none := rfl

@[simp] theorem components_nil : components [] = [] := rfl

theorem component?_eq (piece : List Char) :
    component? piece = if piece = [] ∨ piece = ['.'] then none
      else some (if piece = ['.', '.'] then .parentDir else .normal piece) := by
  unfold component?
  split
  · rfl
  · rfl
  · rfl
  · rename_i h₁ h₂ h₃
    rw [if_neg (not_or.mpr ⟨h₁, h₂⟩), if_neg h₃]

theorem component?_eq_normal_iff {piece : List Char} :
    component? piece = some (.normal name) ↔
      name = piece ∧ piece ≠ [] ∧ piece ≠ ['.'] ∧ piece ≠ ['.', '.'] := by
  rw [component?_eq]
  split_ifs with h₁ h₂
  · simp only [false_iff]
    rintro ⟨-, hnil, hdot, -⟩
    exact h₁.elim hnil hdot
  · simp [h₂]
  · simp only [Option.some.injEq, Component.normal.injEq]
    exact ⟨fun h => ⟨h.symm, (not_or.mp h₁).1, (not_or.mp h₁).2, h₂⟩, fun h => h.1.symm⟩

theorem not_mem_of_mem_splitOn {α : Type*} [DecidableEq α] {a : α} {xs piece : List α}
    (h : piece ∈ xs.splitOn a) : a ∉ piece := by
  induction xs generalizing piece with
  | nil =>
    rw [List.splitOn_nil, List.mem_singleton] at h
    simp [h]
  | cons x xs ih =>
    rw [List.splitOn_cons_eq_if_modifyHead] at h
    split at h
    · rcases List.mem_cons.mp h with rfl | h
      · simp
      · exact ih h
    · rename_i hx
      obtain ⟨first, rest, hsplit⟩ := List.exists_cons_of_ne_nil (List.splitOn_ne_nil a xs)
      rw [hsplit, List.modifyHead_cons] at h
      rcases List.mem_cons.mp h with rfl | h
      · intro hmem
        rcases List.mem_cons.mp hmem with rfl | hmem
        · simp at hx
        · exact ih (hsplit ▸ List.mem_cons_self ..) hmem
      · exact ih (hsplit ▸ List.mem_cons_of_mem _ h)

theorem not_normal_mem_leading : .normal name ∉ leading p := by
  unfold leading
  split <;> simp

theorem isNormal_of_mem_components (h : .normal name ∈ components p) : IsNormal name := by
  rcases List.mem_append.mp h with h | h
  · exact absurd h not_normal_mem_leading
  · obtain ⟨piece, hpiece, hc⟩ := List.mem_filterMap.mp h
    obtain ⟨rfl, h₁, h₂, h₃⟩ := component?_eq_normal_iff.mp hc
    exact ⟨h₁, h₂, h₃, not_mem_of_mem_splitOn hpiece⟩

theorem fileName_eq_some_iff :
    fileName p = some name ↔ (components p).getLast? = some (.normal name) := by
  unfold fileName
  split
  · rename_i h
    simp [h]
  · rename_i h
    simp only [reduceCtorEq, false_iff]
    exact h name

theorem lastNormal_of_fileName (h : fileName p = some name) : lastNormal p = some name := by
  obtain ⟨front, hfront⟩ := List.getLast?_eq_some_iff.mp (fileName_eq_some_iff.mp h)
  simp [lastNormal, hfront]

theorem isNormal_of_fileName (h : fileName p = some name) : IsNormal name :=
  isNormal_of_mem_components (List.mem_of_getLast? (fileName_eq_some_iff.mp h))

/-! ## Joining one normal component -/

theorem IsNormal.component? (h : IsNormal name) : component? name = some (.normal name) :=
  component?_eq_normal_iff.mpr ⟨rfl, h.1, h.2.1, h.2.2.1⟩

theorem IsNormal.leading (h : IsNormal name) : leading name = [] := by
  obtain ⟨-, hdot, -, hslash⟩ := h
  unfold UnixPath.leading
  split
  · simp at hslash
  · exact absurd rfl hdot
  · simp at hslash
  · rfl

theorem IsNormal.components (h : IsNormal name) : components name = [.normal name] := by
  rw [UnixPath.components, h.leading, List.splitOn_eq_singleton h.2.2.2]
  simp [h.component?]

theorem IsNormal.fileName (h : IsNormal name) : fileName name = some name :=
  fileName_eq_some_iff.mpr (by rw [h.components]; rfl)

theorem leading_append_slash (hdir : dir ≠ []) : leading (dir ++ '/' :: name) = leading dir := by
  rcases dir with - | ⟨c, - | ⟨d, rest⟩⟩
  · exact absurd rfl hdir
  · by_cases hroot : c = '/'
    · subst hroot; rfl
    · by_cases hdot : c = '.'
      · subst hdot; rfl
      · simp [leading, hroot, hdot]
  · by_cases hroot : c = '/'
    · subst hroot; rfl
    · by_cases hdot : c = '.'
      · subst hdot
        by_cases hd : d = '/'
        · subst hd; rfl
        · simp [leading, hd]
      · simp [leading, hroot, hdot]

theorem components_append_slash (hdir : dir ≠ []) :
    components (dir ++ '/' :: name) = components dir ++ (name.splitOn '/').filterMap component? := by
  unfold components
  rw [leading_append_slash hdir, List.splitOn_append_cons_self, List.filterMap_append,
    List.append_assoc]

theorem components_slash :
    components ('/' :: name) = .rootDir :: (name.splitOn '/').filterMap component? := by
  rw [components, List.splitOn_cons_eq_if_modifyHead, if_pos (beq_self_eq_true '/'),
    List.filterMap_cons_none component?_nil]
  rfl

/-- **Joining a normal component** appends it to the components of the directory. -/
theorem components_join (dir : List Char) (h : IsNormal name) :
    components (join dir name) = components dir ++ [.normal name] := by
  have hhead : name.head? ≠ some '/' := fun hh => h.2.2.2 (List.mem_of_mem_head? hh)
  have hpiece : (name.splitOn '/').filterMap component? = [.normal name] := by
    rw [List.splitOn_eq_singleton h.2.2.2]
    simp [h.component?]
  unfold join
  rw [if_neg hhead]
  split
  · rename_i hsep
    rcases hsep with rfl | hlast
    · simpa using h.components
    · -- the directory brings the separator: what stands before it decides
      obtain ⟨front, rfl⟩ : ∃ front, dir = front ++ ['/'] :=
        ⟨dir.dropLast, (List.dropLast_append_getLast? '/' hlast).symm⟩
      rw [List.append_assoc, List.singleton_append]
      by_cases hfront : front = []
      · subst hfront
        rw [List.nil_append, List.nil_append, components_slash, components_slash, hpiece]
        simp
      · rw [components_append_slash hfront, components_append_slash hfront, hpiece]
        simp
  · rename_i hsep
    rw [components_append_slash (fun hnil => hsep (.inl hnil)), hpiece]

end Lib.UnixPath
