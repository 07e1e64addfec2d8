import Girth.Lib.UnixPath
import Girth.Server.Access

/-!
# Names cannot leave the served directory

`basename` falls back to the whole name when the path has no file name; the checks of
`served_object_name` refuse every name of that kind. What is left is the file name of the path: a
single normal component, so that joining it to the served directory names an entry of that directory
(`servedObjectName_confined`). On a connection nothing else is opened, resolved or sized
(`accesses_confined`).
-/

namespace Girth

open Lib UnixPath

/-! ## `basename` by components -/

theorem filterMap_component? (pieces : List (List Char)) :
    pieces.filterMap component? = (pieces.filter fun c => c ≠ [] ∧ c ≠ ['.']).map fun c =>
      if c = ['.', '.'] then .parentDir else .normal c := by
  induction pieces with
  | nil => rfl
  | cons c pieces ih =>
    by_cases hskip : c = [] ∨ c = ['.']
    · have hnone : component? c = none := by rw [component?_eq, if_pos hskip]
      rw [List.filterMap_cons_none hnone, ih, List.filter_cons_of_neg (by simpa [or_iff_not_imp_left] using hskip)]
    · rw [List.filterMap_cons_some (by rw [component?_eq, if_neg hskip]), ih,
        List.filter_cons_of_pos (by simpa using hskip), List.map_cons]

theorem fileName_eq (p : String) :
    fileName p = (UnixPath.fileName p.toList).map String.ofList := by
  unfold fileName UnixPath.fileName components
  rw [filterMap_component?, List.getLast?_append, List.getLast?_map]
  dsimp only
  cases ((p.toList.splitOn '/').filter fun c => c ≠ [] ∧ c ≠ ['.']).getLast? with
  | some c => by_cases hdots : c = ['.', '.'] <;> simp [hdots]
  | none =>
    -- nothing is kept: at most the front of the path is left, and it is not normal
    have hnot : ∀ n, (leading p.toList).getLast? ≠ some (.normal n) :=
      fun n hn => not_normal_mem_leading (List.mem_of_getLast? hn)
    rw [Option.map_none, Option.none_or]
    generalize (leading p.toList).getLast? = last at hnot
    rcases last with - | (- | - | - | n)
    · rfl
    · rfl
    · rfl
    · rfl
    · exact absurd rfl (hnot n)

namespace Server

theorem isNormal_toList_iff (s : String) :
    IsNormal s.toList ↔ s ≠ "" ∧ s ≠ "." ∧ s ≠ ".." ∧ '/' ∉ s.toList := by
  simp only [IsNormal, ne_eq, ← String.toList_inj]
  rfl

/-- **Which names are served**: those whose last component is normal and without backslash, under
that component. -/
theorem servedObjectName_eq_ok_iff (name b : String) :
    servedObjectName name = .ok b ↔
      UnixPath.fileName name.toList = some b.toList ∧ '\\' ∉ b.toList := by
  have hname : servedObjectName name = .ok b ↔
      basename name = b ∧ IsNormal b.toList ∧ '\\' ∉ b.toList := by
    rw [isNormal_toList_iff]
    unfold servedObjectName
    dsimp only
    split_ifs with hbad
    · simp only [false_iff]
      rintro ⟨rfl, ⟨h₁, h₂, h₃, hslash⟩, hback⟩
      exact hbad.elim h₁ (·.elim h₂ (·.elim h₃ (·.elim hslash hback)))
    · simp only [Except.ok.injEq]
      constructor
      · rintro rfl
        simp only [not_or] at hbad
        obtain ⟨h₁, h₂, h₃, hslash, hback⟩ := hbad
        exact ⟨rfl, ⟨h₁, h₂, h₃, hslash⟩, hback⟩
      · exact And.left
  rw [hname, basename, fileName_eq]
  cases hfile : UnixPath.fileName name.toList with
  | some c =>
    have hc : IsNormal c := isNormal_of_fileName hfile
    simp only [Option.map_some, Option.getD_some, Option.some.injEq]
    constructor
    · rintro ⟨rfl, -, hback⟩
      exact ⟨String.toList_ofList.symm, hback⟩
    · rintro ⟨rfl, hback⟩
      exact ⟨String.ofList_toList, hc, hback⟩
  | none =>
    -- the fallback is the whole name, and it has no file name
    simp only [Option.map_none, Option.getD_none, reduceCtorEq, false_and, iff_false]
    rintro ⟨rfl, hnormal, -⟩
    rw [hnormal.fileName] at hfile
    cases hfile

/-- **Names are confined to the served directory.** -/
theorem servedObjectName_confined (name b : String) (hok : servedObjectName name = .ok b) :
    (b ≠ "" ∧ b ≠ "." ∧ b ≠ ".." ∧ '/' ∉ b.toList ∧ '\\' ∉ b.toList) ∧
      (∀ dir : String, components (join dir.toList b.toList) =
        components dir.toList ++ [.normal b.toList]) ∧
      (lastNormal name.toList = some b.toList ∧
        ∀ name' b', lastNormal name'.toList = lastNormal name.toList →
          servedObjectName name' = .ok b' → b' = b) ∧
      servedObjectName b = .ok b := by
  obtain ⟨hfile, hback⟩ := (servedObjectName_eq_ok_iff name b).mp hok
  have hnormal : IsNormal b.toList := isNormal_of_fileName hfile
  obtain ⟨h₁, h₂, h₃, hslash⟩ := (isNormal_toList_iff b).mp hnormal
  have hlast : lastNormal name.toList = some b.toList := lastNormal_of_fileName hfile
  refine ⟨⟨h₁, h₂, h₃, hslash, hback⟩, fun dir => components_join dir.toList hnormal,
    ⟨hlast, fun name' b' hsame hok' => ?_⟩,
    (servedObjectName_eq_ok_iff b b).mpr ⟨hnormal.fileName, hback⟩⟩
  have hlast' := lastNormal_of_fileName ((servedObjectName_eq_ok_iff name' b').mp hok').1
  rw [hsame, hlast, Option.some.injEq, String.toList_inj] at hlast'
  exact hlast'.symm

/-- A path out of the directory is served under its last component; a path that ends in `..` is
refused. -/
theorem servedObjectName_confined_escape :
    servedObjectName "../../etc/./passwd/" = .ok "passwd" ∧
      servedObjectName "passwd/.." = .error "invalid object name" ∧
      components (join "/srv/".toList "passwd".toList) =
        components "/srv/".toList ++ [.normal "passwd".toList] :=
  have hok : servedObjectName "../../etc/./passwd/" = .ok "passwd" := by decide
  ⟨hok, by decide, (servedObjectName_confined _ _ hok).2.1 "/srv/"⟩

/-! ## What a connection touches -/

section connection

variable {srv : Server} {peer : SocketAddr} {w : World} {h : Hello} {env : HelloEnv}

theorem servedObjectName_of_access {kind : Access} {name : String}
    (hmem : .access kind name ∈ (srv.handleHello peer w h env).events) :
    servedObjectName h.name = .ok name := by
  unfold handleHello at hmem
  have hnone : .access kind name ∉ (srv.admission peer h).1 := admission_no_access srv peer h kind name
  split at hmem
  · rename_i hadm
    rw [hadm] at hnone
    simp [ackErr, hnone] at hmem
  · rename_i hadm
    rw [hadm] at hnone
    rcases List.mem_append.mp hmem with hmem | hmem
    · exact absurd hmem hnone
    · split_ifs at hmem
      · exact opens_recvFromClient.name_eq hmem
      · exact opens_sendToClient.name_eq hmem
      · simp [ackErr] at hmem

/-- **A connection stays in the served directory**: whatever the requests, every object that is
opened, resolved or sized is one normal component below it. -/
theorem accesses_confined {as : List ConnAction} {t : Conn}
    (hrun : Steps (srv.connStep peer) Any (newConn w) as t) :
    ∀ entry ∈ t.log, ∀ kind name, .access kind name ∈ entry.2 → ∀ dir : String,
      components (join dir.toList name.toList) = components dir.toList ++ [.normal name.toList] := by
  refine hrun.invariant (I := fun c => ∀ entry ∈ c.log, ∀ kind name, .access kind name ∈ entry.2 →
    ∀ dir : String, components (join dir.toList name.toList) =
      components dir.toList ++ [.normal name.toList]) ?_ (by simp [newConn])
  intro s act t hs _ hstep
  unfold connStep at hstep
  split at hstep
  · cases hstep
  · cases act with
    | hello h env =>
      cases hstep
      rw [List.forall_mem_cons]
      refine ⟨fun kind name hmem dir => ?_, hs⟩
      have hfile := ((servedObjectName_eq_ok_iff _ _).mp (servedObjectName_of_access hmem)).1
      exact components_join dir.toList (isNormal_of_fileName hfile)
    | hangUp | readErr e | others w =>
      cases hstep
      exact hs

end connection

end Server

end Girth
