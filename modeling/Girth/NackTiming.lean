import Girth.LossInvariant

/-!
# When a missing block is requested

`LoggedScan` runs the scanner of `ScanSys` and keeps a log: which block a `scan_holes` call found and
which block a `collect_due` call returned, each with the arguments `now` and `rto` of that call.

The heap alone does not say when a block was last touched, so the invariant relates it to the log.
`Waiting heap log front` says that an entry falls due more than `rto + 999` after every logged event
of its block; the two iterations that log something keep it (`Waiting.push_found`, `Waiting.push_returned`) and
`Timely` logs are its consequence. All of it rests on one inequality about the cast to `u64`
(`lt_dueAt_iff`), which holds in exact arithmetic as long as the cast does not saturate.

The second half is about the order of two requests, with the rounding of `f64`. A block that is returned
is scheduled behind everything that is due already, so it cannot come up again before what was due with
it (`Behind`, `behind_step`), as long as the due time is after the time of the call (`Reschedules`).
-/

namespace Girth

open Lib LossScanner

/-! ## The due time -/

/-- In exact arithmetic a request is due more than `rto + 999` microseconds after it was scheduled
exactly if the cast of its due time does not saturate. -/
theorem lt_dueAt_iff (now rto : ℚ) :
    now + rto + 999 < dueAt id now rto ↔ now + rto + 1000 < 2 ^ 64 := by
  have hfloor : now + rto + 1000 < (now + rto + 1000).floor + 1 := Int.lt_floor_add_one _
  have htoNat : ((now + rto + 1000).floor : ℚ) ≤ ((now + rto + 1000).floor.toNat : ℚ) := by
    exact_mod_cast Int.self_le_toNat _
  unfold dueAt asU64 rttPrecUs
  simp only [id_eq]
  rcases Nat.le_total (now + rto + 1000).floor.toNat (2 ^ 64 - 1) with hle | hle
  · rw [min_eq_left hle]
    refine ⟨fun _ => ?_, fun _ => by linarith⟩
    have hmax : ((now + rto + 1000).floor.toNat : ℚ) ≤ 2 ^ 64 - 1 := by
      have hcast : ((now + rto + 1000).floor.toNat : ℚ) ≤ ((2 ^ 64 - 1 : Nat) : ℚ) :=
        Nat.cast_le.mpr hle
      exact hcast.trans_eq (by norm_num)
    linarith
  · rw [min_eq_right hle]
    norm_num
    constructor <;> intro h <;> linarith

/-- A call computes its due times as `f64` and gets one that is after its own time. -/
def Reschedules (now rto : ℚ) : Prop := now < f64 (asU64 (f64 (f64 (now + rto) + 1000)))

instance (now rto : ℚ) : Decidable (Reschedules now rto) :=
  inferInstanceAs (Decidable (now < f64 (asU64 (f64 (f64 (now + rto) + 1000)))))

theorem reschedules_of_lt {now rto : ℚ} (hnow : 0 ≤ now) (hlt : now < 2 ^ 53) (hrto : 0 ≤ rto) :
    Reschedules now rto := by
  have hsum : now - 1 ≤ f64 (now + rto) := by
    have hround := sub_le_f64 (add_nonneg hnow hrto)
    have hloss : now / 2 ^ 53 ≤ 1 := by
      rw [div_le_one (by norm_num)]
      exact hlt.le
    have hrto' : rto / 2 ^ 53 ≤ rto := div_le_self hrto (by norm_num)
    rw [add_div] at hround
    linarith
  have hdue : now + 1 ≤ f64 (f64 (now + rto) + 1000) := by
    have hle : now + 999 ≤ f64 (now + rto) + 1000 := by linarith
    have hround := sub_le_f64 (show 0 ≤ now + 999 by linarith)
    have hloss : (now + 999) / 2 ^ 53 ≤ 2 := by
      rw [div_le_iff₀ (by norm_num)]
      norm_num at hlt ⊢
      linarith
    have hmono := f64_mono (by linarith) hle
    linarith
  -- the due time is at least the next whole microsecond, which is exact
  have hnext : ⌊now⌋₊ + 1 ≤ asU64 (f64 (f64 (now + rto) + 1000)) := by
    have hfloor : ((⌊now⌋₊ + 1 : ℕ) : ℤ) ≤ (f64 (f64 (now + rto) + 1000)).floor := by
      rw [Rat.le_floor_iff]
      push_cast
      have hle := Nat.floor_le hnow
      linarith
    have hsmall : ⌊now⌋₊ < 2 ^ 53 := (Nat.floor_lt hnow).mpr (by exact_mod_cast hlt)
    unfold asU64
    omega
  have hexact : f64 ((⌊now⌋₊ + 1 : ℕ) : ℚ) = (⌊now⌋₊ + 1 : ℕ) :=
    f64_natCast ((Nat.floor_lt hnow).mpr (by exact_mod_cast hlt))
  calc now < (⌊now⌋₊ + 1 : ℕ) := by exact_mod_cast Nat.lt_floor_add_one now
    _ = f64 ((⌊now⌋₊ + 1 : ℕ) : ℚ) := hexact.symm
    _ ≤ _ := f64_mono (Nat.cast_nonneg _) (Nat.cast_le.mpr hnext)

/-! ## The log -/

/-- What the log records of a block, with the arguments of the call that did it. -/
inductive NackEvent
  /-- `scan_holes` found the block missing. -/
  | found (seq : Nat) (now rto : ℚ)
  /-- `collect_due` returned the block. -/
  | returned (seq : Nat) (now rto : ℚ)
  deriving DecidableEq

namespace NackEvent

def seq : NackEvent → Nat
  | found seq _ _ => seq
  | returned seq _ _ => seq

/-- The block may not be returned again up to this time. -/
def notBefore : NackEvent → ℚ
  | found _ now rto => now + rto + 999
  | returned _ now rto => now + rto + 999

end NackEvent

/-- The rule for a log, newest event first: a block is returned only after it was found, and later
than every earlier event of it by more than that event's `rto + 999`. -/
inductive Timely : List NackEvent → Prop
  | nil : Timely []
  | found {seq : Nat} {now rto : ℚ} {log : List NackEvent} : Timely log →
      (∀ e ∈ log, e.seq ≠ seq) → Timely (.found seq now rto :: log)
  | returned {seq : Nat} {now rto : ℚ} {log : List NackEvent} : Timely log →
      (∃ now₀ rto₀, .found seq now₀ rto₀ ∈ log) → (∀ e ∈ log, e.seq = seq → e.notBefore < now) →
      Timely (.returned seq now rto :: log)

/-- A scanner with the arguments of its last timed call and the log of the run. -/
structure LoggedScan (total : Nat) where
  sys : ScanSys total
  now : ℚ
  rto : ℚ
  log : List NackEvent

namespace LoggedScan

variable {total : Nat} (fl : ℚ → ℚ)

def init (total : Nat) : LoggedScan total := ⟨ScanSys.init total, 0, 0, []⟩

/-- What the next iteration of the running operation logs. -/
def events (s : LoggedScan total) : List NackEvent :=
  match s.sys.pc with
  | .scanHoles maxSeen _ seq =>
    if seq ≤ maxSeen ∧ s.sys.bm.isSet seq = false ∧ seq ∉ s.sys.sc.pending then
      [.found seq s.now s.rto]
    else []
  | .collectDue now reDue max out =>
    match s.sys.sc.collectDueIter fl s.sys.bm.isSet now reDue max out with
    | some (_, out') => (out'.drop out.length).map (.returned · s.now s.rto)
    | none => []
  | _ => []

/-- A step of the scanner, logged. -/
def step (s : LoggedScan total) (act : ScanAct) : Option (LoggedScan total) :=
  (s.sys.step fl act).map fun sys =>
    match act with
    | .iter => { s with sys := sys, log := s.events fl ++ s.log }
    | .callScanHoles _ now rto => { s with sys := sys, now := now, rto := rto }
    | .callCollectDue now rto _ => { s with sys := sys, now := now, rto := rto }
    | _ => { s with sys := sys }

/-! ### What a step can do -/

variable {fl}

/-- What a step does to the heap, the log and the local variables of the loops. -/
inductive Move (fl : ℚ → ℚ) (s : LoggedScan total) : ScanAct → LoggedScan total → Prop
  | set {seq : Nat} : seq < total →
      Move fl s (.set seq) { s with sys := { s.sys with bm := (s.sys.bm.setAndTest seq).1 } }
  | callAdvance : s.sys.pc = .idle →
      Move fl s .callAdvance { s with sys := { s.sys with pc := .advance } }
  | callScanHoles {maxSeen : Nat} {now rto : ℚ} {pc : ScanPc} : s.sys.pc = .idle →
      (pc = .idle ∨ pc = .scanHoles (s.sys.sc.scanTop maxSeen) (dueAt fl now rto) s.sys.sc.nextScan) →
      Move fl s (.callScanHoles maxSeen now rto)
        { s with sys := { s.sys with pc := pc }, now := now, rto := rto }
  | callCollectDue {now rto : ℚ} {max : Nat} : s.sys.pc = .idle →
      Move fl s (.callCollectDue now rto max)
        { s with sys := { s.sys with pc := .collectDue now (dueAt fl now rto) max [] }
                 now := now, rto := rto }
  /-- An iteration that leaves the heap alone. -/
  | quiet {sys : ScanSys total} : sys.bm = s.sys.bm → sys.sc.heap = s.sys.sc.heap →
      (sys.pc = .idle ∨ s.sys.pc = .advance ∧ sys.pc = .advance ∨
        ∃ maxSeen due seq, s.sys.pc = .scanHoles maxSeen due seq ∧
          sys.pc = .scanHoles maxSeen due (seq + 1)) →
      Move fl s .iter { s with sys := sys }
  | found {maxSeen due seq : Nat} : s.sys.pc = .scanHoles maxSeen due seq →
      Move fl s .iter
        { s with
          sys := { s.sys with
            sc := { s.sys.sc with pending := insert seq s.sys.sc.pending }.push ⟨due, seq⟩
            pc := .scanHoles maxSeen due (seq + 1) }
          log := .found seq s.now s.rto :: s.log }
  /-- An entry is popped whose block is no longer missing. -/
  | dropped {now : ℚ} {reDue max : Nat} {out : List Nat} {top : HeapItem} {rest : List HeapItem}
      {sc : LossScanner} : s.sys.pc = .collectDue now reDue max out → out.length < max →
      s.sys.sc.heap = top :: rest → (top.seq ∉ s.sys.sc.pending ∨ s.sys.bm.isSet top.seq = true) →
      sc.heap = rest → Move fl s .iter { s with sys := { s.sys with sc := sc } }
  | returned {now : ℚ} {reDue max : Nat} {out : List Nat} {top : HeapItem} {rest : List HeapItem} :
      s.sys.pc = .collectDue now reDue max out → out.length < max → s.sys.sc.heap = top :: rest →
      fl top.due ≤ now → s.sys.bm.isSet top.seq = false →
      Move fl s .iter
        { s with
          sys := { s.sys with
            sc := { s.sys.sc with heap := rest }.push ⟨reDue, top.seq⟩
            pc := .collectDue now reDue max (out ++ [top.seq]) }
          log := .returned top.seq s.now s.rto :: s.log }

theorem collectDueIter_length_lt {isSet : Nat → Bool} {sc sc' : LossScanner} {now : ℚ}
    {reDue max : Nat} {out out' : List Nat}
    (h : sc.collectDueIter fl isSet now reDue max out = some (sc', out')) : out.length < max := by
  unfold collectDueIter at h
  split at h
  · assumption
  · cases h

theorem move_of_iter {s : LoggedScan total} {sys : ScanSys total} (h : s.sys.iter fl = some sys) :
    Move fl s .iter { s with sys := sys, log := s.events fl ++ s.log } := by
  cases ScanSys.iter_cases h with
  | @advance sc hpc hiter =>
    have hevents : s.events fl = [] := by rw [events, hpc]
    obtain ⟨_, _, rfl⟩ := advanceIter_eq hiter
    rw [hevents]
    exact .quiet rfl rfl (.inr (.inl ⟨hpc, hpc⟩))
  | advanceEnd hpc _ =>
    have hevents : s.events fl = [] := by rw [events, hpc]
    rw [hevents]
    exact .quiet rfl rfl (.inl rfl)
  | @scanHoles maxSeen due seq seq' sc hpc hiter =>
    obtain ⟨hle, rfl, ⟨hunset, hnew, rfl⟩ | ⟨hknown, rfl⟩⟩ := scanHolesIter_eq hiter
    · have hevents : s.events fl = [.found seq s.now s.rto] := by
        simp only [events, hpc]
        exact if_pos ⟨hle, hunset, hnew⟩
      rw [hevents]
      exact .found hpc
    · have hevents : s.events fl = [] := by
        simp only [events, hpc]
        refine if_neg fun hc => ?_
        rcases hknown with hset | hmem
        · rw [hc.2.1] at hset
          cases hset
        · exact hc.2.2 hmem
      rw [hevents]
      exact .quiet rfl rfl (.inr (.inr ⟨maxSeen, due, seq, hpc, rfl⟩))
  | @scanHolesEnd maxSeen due seq hpc hlt =>
    have hevents : s.events fl = [] := by
      simp only [events, hpc]
      exact if_neg fun hc => absurd hc.1 (not_le.mpr hlt)
    rw [hevents]
    refine .quiet rfl ?_ (.inl rfl)
    unfold scanHolesEnd
    split <;> rfl
  | @collectDue now reDue max out out' sc hpc hiter =>
    have hlen := collectDueIter_length_lt hiter
    have hevents : s.events fl = (out'.drop out.length).map (.returned · s.now s.rto) := by
      simp only [events, hpc, hiter]
    obtain ⟨top, rest, hheap, hdue, ⟨hstale, rfl, rfl⟩ | ⟨hset, rfl, rfl⟩ | ⟨hunset, _, rfl, rfl⟩⟩ :=
      collectDueIter_eq hiter
    · rw [hevents, List.drop_length, ← hpc]
      exact .dropped hpc hlen hheap (.inl hstale) rfl
    · rw [hevents, List.drop_length, ← hpc]
      exact .dropped hpc hlen hheap (.inr hset) rfl
    · rw [hevents, List.drop_left]
      exact .returned hpc hlen hheap hdue hunset
  | @collectDueEnd now reDue max out hpc =>
    have hiter : s.sys.sc.collectDueIter fl s.sys.bm.isSet now reDue max out = none := by
      simp only [ScanSys.iter, hpc] at h
      split at h
      · cases h
      · assumption
    have hevents : s.events fl = [] := by simp only [events, hpc, hiter]
    rw [hevents]
    exact .quiet rfl rfl (.inl rfl)

theorem move_of_step {s t : LoggedScan total} {act : ScanAct} (h : s.step fl act = some t) :
    Move fl s act t := by
  obtain ⟨sys, hsys, rfl⟩ := Option.map_eq_some_iff.mp h
  cases act with
  | set seq =>
    simp only [ScanSys.step] at hsys
    split at hsys <;> cases hsys
    exact .set ‹_›
  | iter => exact move_of_iter hsys
  | callAdvance =>
    simp only [ScanSys.step] at hsys
    split at hsys <;> cases hsys
    exact .callAdvance ‹_›
  | callScanHoles maxSeen now rto =>
    simp only [ScanSys.step, ScanSys.callPc] at hsys
    split at hsys
    · split at hsys <;> cases hsys
      · exact .callScanHoles ‹_› (.inl rfl)
      · exact .callScanHoles ‹_› (.inr rfl)
    · cases hsys
  | callCollectDue now rto max =>
    simp only [ScanSys.step] at hsys
    split at hsys <;> cases hsys
    exact .callCollectDue ‹_›

theorem run_sys {C : LoggedScan total → ScanAct → Prop} {s t : LoggedScan total}
    {as : List ScanAct} (h : Steps (step fl) C s as t) :
    Steps (ScanSys.step fl) Any s.sys as t.sys := by
  induction h with
  | nil => exact .nil _
  | cons _ hstep _ ih =>
    obtain ⟨sys, hsys, rfl⟩ := Option.map_eq_some_iff.mp hstep
    refine .cons trivial hsys ?_
    split at ih <;> exact ih

end LoggedScan

/-! ## One RTO between two events of a block -/

/-- The heap against the log: every entry stems from a logged hole, and falls due later than every
logged event of its block allows. -/
structure Waiting (heap : List HeapItem) (log : List NackEvent) (front : Nat) : Prop where
  timely : Timely log
  below : ∀ e ∈ log, e.seq < front
  later : ∀ e ∈ log, ∀ item ∈ heap, item.seq = e.seq → e.notBefore < item.due
  found : ∀ item ∈ heap, ∃ now rto, .found item.seq now rto ∈ log

namespace Waiting

variable {heap : List HeapItem} {log : List NackEvent} {front : Nat} {now rto : ℚ}

theorem sub {heap' : List HeapItem} {front' : Nat} (h : Waiting heap log front)
    (hsub : ∀ item ∈ heap', item ∈ heap) (hfront : front ≤ front') : Waiting heap' log front' where
  timely := h.timely
  below e he := (h.below e he).trans_le hfront
  later e he item hitem := h.later e he item (hsub item hitem)
  found item hitem := h.found item (hsub item hitem)

theorem push_found {due : Nat} (h : Waiting heap log front) (hdue : now + rto + 999 < due) :
    Waiting (heap.orderedInsert HeapItem.le ⟨due, front⟩) (.found front now rto :: log)
      (front + 1) where
  timely := .found h.timely fun e he => (h.below e he).ne
  below e he := by
    rcases List.mem_cons.mp he with rfl | he
    · exact Nat.lt_succ_self _
    · exact (h.below e he).trans (Nat.lt_succ_self _)
  later e he item hitem hseq := by
    rcases List.mem_cons.mp he with rfl | he <;>
      rcases (List.mem_orderedInsert HeapItem.le).mp hitem with rfl | hitem
    · exact hdue
    · obtain ⟨_, _, hlog⟩ := h.found item hitem
      exact absurd (h.below _ hlog) (by rw [NackEvent.seq, hseq]; exact lt_irrefl _)
    · exact absurd (h.below e he) (by rw [← hseq]; exact lt_irrefl _)
    · exact h.later e he item hitem hseq
  found item hitem := by
    rcases (List.mem_orderedInsert HeapItem.le).mp hitem with rfl | hitem
    · exact ⟨now, rto, List.mem_cons_self⟩
    · obtain ⟨now₀, rto₀, hlog⟩ := h.found item hitem
      exact ⟨now₀, rto₀, List.mem_cons_of_mem _ hlog⟩

theorem push_returned {top : HeapItem} {rest : List HeapItem} {reDue : Nat}
    (h : Waiting (top :: rest) log front) (honce : ∀ item ∈ rest, item.seq ≠ top.seq)
    (htop : (top.due : ℚ) ≤ now) (hrto : 0 ≤ rto) (hdue : now + rto + 999 < reDue) :
    Waiting (rest.orderedInsert HeapItem.le ⟨reDue, top.seq⟩) (.returned top.seq now rto :: log)
      front := by
  obtain ⟨now₀, rto₀, hfound⟩ := h.found top List.mem_cons_self
  have hpassed : ∀ e ∈ log, e.seq = top.seq → e.notBefore < now := fun e he hseq =>
    (h.later e he top List.mem_cons_self hseq.symm).trans_le htop
  refine ⟨.returned h.timely ⟨now₀, rto₀, hfound⟩ hpassed, fun e he => ?_,
    fun e he item hitem hseq => ?_, fun item hitem => ?_⟩
  · rcases List.mem_cons.mp he with rfl | he
    · exact h.below (.found top.seq now₀ rto₀) hfound
    · exact h.below e he
  · rcases List.mem_cons.mp he with rfl | he <;>
      rcases (List.mem_orderedInsert HeapItem.le).mp hitem with rfl | hitem
    · exact hdue
    · exact absurd hseq (honce item hitem)
    · have hnow := hpassed e he hseq.symm
      dsimp only
      linarith
    · exact h.later e he item (List.mem_cons_of_mem _ hitem) hseq
  · rcases (List.mem_orderedInsert HeapItem.le).mp hitem with rfl | hitem
    · exact ⟨now₀, rto₀, List.mem_cons_of_mem _ hfound⟩
    · obtain ⟨now₁, rto₁, hlog⟩ := h.found item (List.mem_cons_of_mem _ hitem)
      exact ⟨now₁, rto₁, List.mem_cons_of_mem _ hlog⟩

end Waiting

namespace ScanSys

variable {total : Nat}

theorem ScanInv.front_le {fl : ℚ → ℚ} {s t : ScanSys total} (hinv : ScanInv s) (h : StepCase fl s t) :
    s.front ≤ t.front := by
  cases h with
  | set => exact le_rfl
  | call hidle hcall =>
    have hfront : s.front = s.sc.nextScan := by rw [front, hidle]
    rw [hfront]
    obtain rfl | rfl | ⟨_, _, _, rfl⟩ | ⟨_, _, _, rfl⟩ := callPc_cases hcall <;> exact le_rfl
  | iter hiter =>
    have hnext := (iter_cursors hiter).2.1
    cases hiter with
    | advance hpc => simpa only [front, hpc] using hnext
    | advanceEnd hpc => simpa only [front, hpc] using hnext
    | scanHoles hpc hiter =>
      obtain ⟨_, rfl, _⟩ := scanHolesIter_eq hiter
      simp only [front, hpc]
      exact Nat.le_succ _
    | @scanHolesEnd maxSeen due seq hpc hlt =>
      have hhigh := (hinv.loop maxSeen due seq hpc).2.2
      simp only [front, hpc, scanHolesEnd]
      split
      · dsimp only
        omega
      · omega
    | collectDue hpc => simpa only [front, hpc] using hnext
    | collectDueEnd hpc => simpa only [front, hpc] using hnext

theorem ScanInv.front_le_total {s : ScanSys total} (hinv : ScanInv s) : s.front ≤ total := by
  have hnext := hinv.nextScan_le
  have htotal := hinv.total
  unfold front
  split
  · rename_i hpc
    have hloop := hinv.loop _ _ _ hpc
    omega
  · omega

end ScanSys

theorem LossScanner.Scheduled.rest_ne {isSet : Nat → Bool} {sc : LossScanner} {front : Nat}
    {top : HeapItem} {rest : List HeapItem} (h : Scheduled isSet sc front)
    (hheap : sc.heap = top :: rest) : ∀ item ∈ rest, item.seq ≠ top.seq := by
  intro item hitem hseq
  have honce := h.once top.seq
  have hpos : 0 < (rest.map HeapItem.seq).count top.seq :=
    List.count_pos_iff.mpr (hseq ▸ List.mem_map_of_mem hitem)
  rw [entries, hheap, List.map_cons, List.count_cons_self] at honce
  omega

namespace LoggedScan

variable {total : Nat} {fl : ℚ → ℚ} {s t : LoggedScan total} {act : ScanAct}

/-- What a timed call must satisfy for its due times to be exact. -/
def InRange (now rto : ℚ) : Prop := 0 ≤ rto ∧ now + rto + 1000 < 2 ^ 64

instance (now rto : ℚ) : Decidable (InRange now rto) :=
  inferInstanceAs (Decidable (0 ≤ rto ∧ now + rto + 1000 < 2 ^ 64))

/-- Every call of the run is in range. -/
def CallsInRange (_ : LoggedScan total) : ScanAct → Prop
  | .callScanHoles _ now rto => InRange now rto
  | .callCollectDue now rto _ => InRange now rto
  | _ => True

instance (s : LoggedScan total) : (act : ScanAct) → Decidable (CallsInRange s act)
  | .callScanHoles _ now rto => inferInstanceAs (Decidable (InRange now rto))
  | .callCollectDue now rto _ => inferInstanceAs (Decidable (InRange now rto))
  | .set _ => isTrue trivial
  | .callAdvance => isTrue trivial
  | .iter => isTrue trivial

/-- The local variables of a running loop are those of the last timed call. -/
structure Args (fl : ℚ → ℚ) (s : LoggedScan total) : Prop where
  scanHoles : ∀ maxSeen due seq, s.sys.pc = .scanHoles maxSeen due seq → due = dueAt fl s.now s.rto
  collectDue : ∀ now reDue max out, s.sys.pc = .collectDue now reDue max out →
    now = s.now ∧ reDue = dueAt fl s.now s.rto

theorem args_init (total : Nat) : (init total).Args fl where
  scanHoles _ _ _ h := by cases h
  collectDue _ _ _ _ h := by cases h

theorem args_step (hargs : s.Args fl) (h : Move fl s act t) : t.Args fl := by
  cases h with
  | set => exact ⟨hargs.scanHoles, hargs.collectDue⟩
  | callAdvance => exact ⟨fun _ _ _ h => (by cases h), fun _ _ _ _ h => by cases h⟩
  | callScanHoles _ hpc =>
    rcases hpc with rfl | rfl
    · exact ⟨fun _ _ _ h => (by cases h), fun _ _ _ _ h => by cases h⟩
    · exact ⟨fun _ _ _ h => (by cases h; rfl), fun _ _ _ _ h => by cases h⟩
  | callCollectDue =>
    exact ⟨fun _ _ _ h => (by cases h), fun _ _ _ _ h => by cases h; exact ⟨rfl, rfl⟩⟩
  | quiet _ _ hpc =>
    rcases hpc with hpc | ⟨_, hpc⟩ | ⟨_, _, seq, hpc', hpc⟩
    · exact ⟨fun _ _ _ h => (by cases hpc.symm.trans h), fun _ _ _ _ h => by cases hpc.symm.trans h⟩
    · exact ⟨fun _ _ _ h => (by cases hpc.symm.trans h), fun _ _ _ _ h => by cases hpc.symm.trans h⟩
    · refine ⟨fun _ _ _ h => ?_, fun _ _ _ _ h => by cases hpc.symm.trans h⟩
      cases hpc.symm.trans h
      exact hargs.scanHoles _ _ seq hpc'
  | found hpc =>
    refine ⟨fun _ _ _ h => ?_, fun _ _ _ _ h => by cases h⟩
    cases h
    exact hargs.scanHoles _ _ _ hpc
  | dropped => exact ⟨hargs.scanHoles, hargs.collectDue⟩
  | returned hpc =>
    refine ⟨fun _ _ _ h => (by cases h), fun _ _ _ _ h => ?_⟩
    cases h
    exact hargs.collectDue _ _ _ _ hpc

theorem args_run {C : LoggedScan total → ScanAct → Prop} {as : List ScanAct}
    (h : Steps (step fl) C (init total) as s) : s.Args fl :=
  h.invariant (fun _ _ _ hargs _ hstep => args_step hargs (move_of_step hstep)) (args_init total)

/-- The invariant of a run whose calls are in range. -/
structure NackInv (s : LoggedScan total) : Prop where
  range : InRange s.now s.rto
  args : s.Args id
  waiting : Waiting s.sys.sc.heap s.log s.sys.front
  collected : ∀ now reDue max out, s.sys.pc = .collectDue now reDue max out →
    out.length ≤ max ∧ out.Nodup ∧ ∀ seq ∈ out, .returned seq s.now s.rto ∈ s.log

theorem nackInv_init (total : Nat) : (init total).NackInv where
  range := ⟨le_rfl, by norm_num [init]⟩
  args := args_init total
  waiting := ⟨.nil, fun _ h => (by cases h), fun _ h => (by cases h), fun _ h => by cases h⟩
  collected _ _ _ _ h := by cases h

theorem NackInv.notMem_out (hinv : s.NackInv) {now : ℚ} {reDue max : Nat} {out : List Nat}
    {top : HeapItem} {rest : List HeapItem} (hpc : s.sys.pc = .collectDue now reDue max out)
    (hheap : s.sys.sc.heap = top :: rest) (hdue : (top.due : ℚ) ≤ now) : top.seq ∉ out := by
  intro hmem
  have hlog := (hinv.collected _ _ _ _ hpc).2.2 top.seq hmem
  have hlater := hinv.waiting.later _ hlog top (hheap ▸ List.mem_cons_self) rfl
  have hnow := (hinv.args.collectDue _ _ _ _ hpc).1
  have hrto := hinv.range.1
  simp only [NackEvent.notBefore] at hlater
  linarith

theorem nackInv_step (hinv : s.NackInv) (hscan : s.sys.ScanInv) (hfront : s.sys.front ≤ t.sys.front)
    (hC : CallsInRange s act) (h : Move id s act t) : t.NackInv := by
  have hargs := args_step hinv.args h
  have hdueAt := (lt_dueAt_iff s.now s.rto).mpr hinv.range.2
  cases h with
  | set => exact ⟨hinv.range, hargs, hinv.waiting, hinv.collected⟩
  | callAdvance =>
    exact ⟨hinv.range, hargs, hinv.waiting.sub (fun _ h => h) hfront, fun _ _ _ _ h => by cases h⟩
  | callScanHoles _ hpc =>
    refine ⟨hC, hargs, hinv.waiting.sub (fun _ h => h) hfront, fun _ _ _ _ h => ?_⟩
    rcases hpc with rfl | rfl <;> cases h
  | callCollectDue =>
    refine ⟨hC, hargs, hinv.waiting.sub (fun _ h => h) hfront, fun _ _ _ _ h => ?_⟩
    cases h
    exact ⟨Nat.zero_le _, List.nodup_nil, fun _ h => by cases h⟩
  | quiet _ hheap hpc =>
    refine ⟨hinv.range, hargs, hinv.waiting.sub (fun _ h => hheap ▸ h) hfront, fun _ _ _ _ h => ?_⟩
    rcases hpc with hpc | ⟨_, hpc⟩ | ⟨_, _, _, _, hpc⟩ <;> cases hpc.symm.trans h
  | @found maxSeen due seq hpc =>
    have hseq : s.sys.front = seq := by rw [ScanSys.front, hpc]
    have hdue : due = dueAt id s.now s.rto := hinv.args.scanHoles _ _ _ hpc
    subst hdue
    have hwait := hinv.waiting
    rw [hseq] at hwait
    exact ⟨hinv.range, hargs, hwait.push_found hdueAt, fun _ _ _ _ h => by cases h⟩
  | dropped hpc hlen hheap _ hrest =>
    refine ⟨hinv.range, hargs, hinv.waiting.sub (fun item h => ?_) hfront, hinv.collected⟩
    rw [hheap]
    exact List.mem_cons_of_mem _ (hrest ▸ h)
  | @returned now reDue max out top rest hpc hlen hheap hdue hunset =>
    obtain ⟨rfl, rfl⟩ := hinv.args.collectDue _ _ _ _ hpc
    obtain ⟨_, hnodup, hlog⟩ := hinv.collected _ _ _ _ hpc
    have hwait := hinv.waiting
    rw [hheap] at hwait
    have hnew := hinv.notMem_out hpc hheap hdue
    refine ⟨hinv.range, hargs, ?_, fun _ _ _ _ h => ?_⟩
    · refine (hwait.push_returned (hscan.sched.rest_ne hheap) hdue hinv.range.1 hdueAt).sub
        (fun _ h => h) hfront
    · cases h
      refine ⟨by rw [List.length_append]; exact hlen, ?_, fun seq hseq => ?_⟩
      · exact List.nodup_append.mpr ⟨hnodup, List.nodup_singleton _, fun a ha b hb => by
          rw [List.mem_singleton.mp hb]
          exact fun heq => hnew (heq ▸ ha)⟩
      · rcases List.mem_append.mp hseq with hseq | hseq
        · exact List.mem_cons_of_mem _ (hlog seq hseq)
        · rw [List.mem_singleton.mp hseq]
          exact List.mem_cons_self

theorem scanInv_of_run {C : LoggedScan total → ScanAct → Prop} {as : List ScanAct}
    (h : Steps (step fl) C (init total) as s) : s.sys.ScanInv :=
  ScanSys.scanInv_run (run_sys h)

theorem stepCase_of_step (h : s.step fl act = some t) : ScanSys.StepCase fl s.sys t.sys := by
  obtain ⟨sys, hsys, rfl⟩ := Option.map_eq_some_iff.mp h
  have hcase := ScanSys.step_cases hsys
  split <;> exact hcase

theorem nackInv_run {as : List ScanAct} (h : Steps (step id) CallsInRange (init total) as s) :
    s.NackInv := by
  refine h.invariant_of_run (fun bs u a v hbs hinv hC hstep => ?_) (nackInv_init total)
  have hscan := scanInv_of_run hbs
  exact nackInv_step hinv hscan (hscan.front_le (stepCase_of_step hstep)) hC (move_of_step hstep)

/-! ### A call of `collect_due` ends -/

/-- The feedback thread starts an operation. -/
def startsCall : ScanAct → Bool
  | .set _ => false
  | .iter => false
  | _ => true

def isIter : ScanAct → Bool
  | .iter => true
  | _ => false

/-- How many iterations a running `collect_due` has left at most: each takes an entry off the heap
or adds one to the result, and the last one leaves the loop. -/
def work (s : LoggedScan total) : Nat :=
  match s.sys.pc with
  | .collectDue _ _ max out => s.sys.sc.heap.length + (max - out.length) + 1
  | _ => 0

/-- No operation but `collect_due` is running. -/
def CollectOnly (s : LoggedScan total) : Prop :=
  s.sys.pc = .idle ∨ ∃ now reDue max out, s.sys.pc = .collectDue now reDue max out

theorem work_step (honly : s.CollectOnly) (hcall : startsCall act = false)
    (h : s.step fl act = some t) :
    t.CollectOnly ∧ t.work + [act].countP isIter ≤ s.work := by
  have hiter : act = .iter → ∃ now reDue max out, s.sys.pc = .collectDue now reDue max out := by
    rintro rfl
    rcases honly with hidle | hpc
    · obtain ⟨sys, hsys, _⟩ := Option.map_eq_some_iff.mp h
      simp only [ScanSys.step, ScanSys.iter, hidle] at hsys
      cases hsys
    · exact hpc
  cases move_of_step h with
  | set => exact ⟨honly, le_rfl⟩
  | callAdvance => cases hcall
  | callScanHoles => cases hcall
  | callCollectDue => cases hcall
  | quiet _ _ hpc' =>
    obtain ⟨_, _, _, _, hpc⟩ := hiter rfl
    rcases hpc' with hidle | ⟨hpc', _⟩ | ⟨_, _, _, hpc', _⟩
    · refine ⟨.inl hidle, ?_⟩
      simp only [work, hpc, hidle, isIter, List.countP_singleton, if_true]
      omega
    · cases hpc.symm.trans hpc'
    · cases hpc.symm.trans hpc'
  | found hpc' =>
    obtain ⟨_, _, _, _, hpc⟩ := hiter rfl
    cases hpc.symm.trans hpc'
  | dropped hpc hlen hheap _ hrest =>
    refine ⟨.inr ⟨_, _, _, _, hpc⟩, ?_⟩
    simp only [work, hpc, hheap, hrest, isIter, List.countP_singleton, List.length_cons, if_true]
    omega
  | returned hpc hlen hheap =>
    refine ⟨.inr ⟨_, _, _, _, rfl⟩, ?_⟩
    simp only [work, hpc, hheap, push, isIter, List.countP_singleton, List.length_cons,
      List.orderedInsert_length, List.length_append, List.length_nil, if_true]
    omega

/-- Until the next call, the iterations of a running `collect_due` are bounded whatever the ingest
threads do. -/
theorem iterations_le {as : List ScanAct} (h : Steps (step fl) Any s as t) (honly : s.CollectOnly)
    (hcalls : ∀ act ∈ as, startsCall act = false) : as.countP isIter ≤ s.work := by
  induction h with
  | nil => exact Nat.zero_le _
  | @cons s u t act as _ hstep _ ih =>
    obtain ⟨honly', hwork⟩ := work_step honly (hcalls act List.mem_cons_self) hstep
    have hrest := ih honly' fun a ha => hcalls a (List.mem_cons_of_mem _ ha)
    rw [← List.singleton_append, List.countP_append]
    omega

theorem iter_enabled {now : ℚ} {reDue max : Nat} {out : List Nat}
    (hpc : s.sys.pc = .collectDue now reDue max out) : (s.step fl .iter).isSome = true := by
  rw [step, Option.isSome_map, ScanSys.step, ScanSys.iter, hpc]
  dsimp only
  split <;> rfl

/-- **A NACK waits one RTO.** In every run whose calls keep `now + rto + 1000` below `2 ^ 64` the
log is `Timely`. A running `collect_due` has collected at most `max` distinct blocks of the object,
each logged with the time of this call; it appends a block only if the bitmap has it unset at that
moment, can always go on, and is left after a bounded number of iterations. -/
theorem nack_one_rto {as : List ScanAct} (h : Steps (step id) CallsInRange (init total) as s) :
    Timely s.log ∧
    ∀ now reDue max out, s.sys.pc = .collectDue now reDue max out →
      (out.length ≤ max ∧ out.Nodup ∧ ∀ seq ∈ out, seq < total ∧ .returned seq now s.rto ∈ s.log) ∧
      (∀ t out', s.step id .iter = some t → t.sys.pc = .collectDue now reDue max out' →
        out' = out ∧ t.log = s.log ∨ ∃ seq, out' = out ++ [seq] ∧ s.sys.bm.isSet seq = false ∧
          t.log = .returned seq now s.rto :: s.log) ∧
      (s.step id .iter).isSome = true ∧
      ∀ bs t, Steps (step id) Any s bs t → (∀ act ∈ bs, startsCall act = false) →
        bs.countP isIter ≤ s.sys.sc.heap.length + (max - out.length) + 1 := by
  have hinv := nackInv_run h
  refine ⟨hinv.waiting.timely, fun now reDue max out hpc => ?_⟩
  obtain ⟨rfl, _⟩ := hinv.args.collectDue _ _ _ _ hpc
  obtain ⟨hlen, hnodup, hlog⟩ := hinv.collected _ _ _ _ hpc
  have hbelow : ∀ seq ∈ out, seq < total := fun seq hseq =>
    (hinv.waiting.below _ (hlog seq hseq)).trans_le (scanInv_of_run h).front_le_total
  refine ⟨⟨hlen, hnodup, fun seq hseq => ⟨hbelow seq hseq, hlog seq hseq⟩⟩,
    fun t out' hstep hpc' => ?_, iter_enabled hpc, fun bs t hrun hcalls => ?_⟩
  · cases move_of_step hstep with
    | quiet _ _ hquiet =>
      rcases hquiet with hidle | ⟨_, hadv⟩ | ⟨_, _, _, _, hscan⟩
      · cases hidle.symm.trans hpc'
      · cases hadv.symm.trans hpc'
      · cases hscan.symm.trans hpc'
    | found => cases hpc'
    | dropped =>
      cases hpc.symm.trans hpc'
      exact .inl ⟨rfl, rfl⟩
    | returned hpc'' _ _ _ hunset =>
      cases hpc.symm.trans hpc''
      cases hpc'
      exact .inr ⟨_, rfl, hunset, rfl⟩
  · have hbound := iterations_le hrun (.inr ⟨_, _, _, _, hpc⟩) hcalls
    rwa [work, hpc] at hbound

/-- Two holes, of which a call with room for one returns the first. -/
theorem nack_one_rto_two : ∃ s : LoggedScan 2, Steps (step id) CallsInRange (init 2)
      [.callScanHoles 1 0 100, .iter, .iter, .iter, .callCollectDue 1100 100 1, .iter] s ∧
    s.log.length = 3 ∧ Timely s.log := by
  obtain ⟨s, hrun, hlog⟩ := steps_of_exec_check (step id) (init 2)
    [.callScanHoles 1 0 100, .iter, .iter, .iter, .callCollectDue 1100 100 1, .iter] CallsInRange
    (fun s => s.log.length == 3) (by decide +kernel)
  exact ⟨s, hrun, by simpa using hlog, (nack_one_rto hrun).1⟩

/-- Past `2 ^ 64` the cast saturates: a block found with an `rto` of `2 ^ 65` is returned after half
of that time. -/
theorem nack_before_one_rto : ∃ s : LoggedScan 1, exec (step id) (init 1)
      [.callScanHoles 0 0 (2 ^ 65), .iter, .iter, .callCollectDue (2 ^ 64) 0 1, .iter] = some s ∧
    s.log = [.returned 0 (2 ^ 64) 0, .found 0 0 (2 ^ 65)] ∧ ¬ Timely s.log := by
  have hlog : (exec (step id) (init 1)
      [.callScanHoles 0 0 (2 ^ 65), .iter, .iter, .callCollectDue (2 ^ 64) 0 1, .iter]).map log
      = some [.returned 0 (2 ^ 64) 0, .found 0 0 (2 ^ 65)] := by decide +kernel
  obtain ⟨s, hrun, hlog⟩ := Option.map_eq_some_iff.mp hlog
  refine ⟨s, hrun, hlog, fun htimely => ?_⟩
  rw [hlog] at htimely
  cases htimely with
  | returned _ _ hlater =>
    have hfound := hlater (.found 0 0 (2 ^ 65)) List.mem_cons_self rfl
    norm_num [NackEvent.notBefore] at hfound

end LoggedScan

/-! ## No block is overtaken twice -/

theorem HeapItem.le_or_le (a b : HeapItem) : a.le b ∨ b.le a := by
  unfold HeapItem.le
  omega

theorem HeapItem.le_of_le_of_le {a b c : HeapItem} (hab : a.le b) (hbc : b.le c) : a.le c := by
  unfold HeapItem.le at *
  omega

instance : Std.Total HeapItem.le := ⟨HeapItem.le_or_le⟩

instance : IsTrans HeapItem HeapItem.le := ⟨fun _ _ _ => HeapItem.le_of_le_of_le⟩

theorem HeapItem.due_le {a b : HeapItem} (h : a.le b) : a.due ≤ b.due := by
  unfold HeapItem.le at h
  omega

namespace LoggedScan

variable {total : Nat} {s t : LoggedScan total} {act : ScanAct}

/-- Every `collect_due` call of the run reschedules after its own time. -/
def CallsReschedule (_ : LoggedScan total) : ScanAct → Prop
  | .callCollectDue now rto _ => Reschedules now rto
  | _ => True

instance (s : LoggedScan total) : (act : ScanAct) → Decidable (CallsReschedule s act)
  | .callCollectDue now rto _ => inferInstanceAs (Decidable (Reschedules now rto))
  | .callScanHoles _ _ _ => isTrue trivial
  | .set _ => isTrue trivial
  | .callAdvance => isTrue trivial
  | .iter => isTrue trivial

/-- The heap is in order, and a running `collect_due` reschedules after its own time. -/
structure Ordered (s : LoggedScan total) : Prop where
  sorted : s.sys.sc.heap.Pairwise HeapItem.le
  after : ∀ now reDue max out, s.sys.pc = .collectDue now reDue max out → now < f64 reDue

theorem ordered_step (hord : s.Ordered) (hC : CallsReschedule s act) (h : Move f64 s act t) :
    t.Ordered := by
  cases h with
  | set => exact ⟨hord.sorted, hord.after⟩
  | callAdvance => exact ⟨hord.sorted, fun _ _ _ _ h => by cases h⟩
  | callScanHoles _ hpc =>
    refine ⟨hord.sorted, fun _ _ _ _ h => ?_⟩
    rcases hpc with rfl | rfl <;> cases h
  | @callCollectDue now rto max =>
    refine ⟨hord.sorted, fun _ _ _ _ h => ?_⟩
    cases h
    exact hC
  | quiet _ hheap hpc =>
    refine ⟨hheap ▸ hord.sorted, fun _ _ _ _ h => ?_⟩
    rcases hpc with hpc | ⟨_, hpc⟩ | ⟨_, _, _, _, hpc⟩ <;> cases hpc.symm.trans h
  | found => exact ⟨hord.sorted.orderedInsert _ _, fun _ _ _ _ h => by cases h⟩
  | dropped _ _ hheap _ hrest =>
    have hsorted := hord.sorted
    rw [hheap] at hsorted
    exact ⟨hrest ▸ hsorted.of_cons, hord.after⟩
  | returned hpc _ hheap =>
    have hsorted := hord.sorted
    rw [hheap] at hsorted
    refine ⟨hsorted.of_cons.orderedInsert _ _, fun _ _ _ _ h => ?_⟩
    cases h
    exact hord.after _ _ _ _ hpc

theorem ordered_run {as : List ScanAct} (h : Steps (step f64) CallsReschedule (init total) as s) :
    s.Ordered :=
  h.invariant (fun _ _ _ hord hC hstep => ordered_step hord hC (move_of_step hstep))
    ⟨.nil, fun _ _ _ _ h => by cases h⟩

/-- `first` waits behind `q`: `q` has been due since `time`, and `first` is not due by then. -/
structure Behind (heap : List HeapItem) (first q : Nat) (time : ℚ) : Prop where
  waiting : ∃ item ∈ heap, item.seq = q ∧ f64 item.due ≤ time
  notYet : ∀ item ∈ heap, item.seq = first → time < f64 item.due

section Behind

variable {top : HeapItem} {rest heap : List HeapItem} {first q : Nat} {time : ℚ}

theorem Behind.top_ne (h : Behind (top :: rest) first q time)
    (hsorted : (top :: rest).Pairwise HeapItem.le) : top.seq ≠ first := by
  intro hseq
  obtain ⟨item, hitem, _, hdue⟩ := h.waiting
  have hlater := h.notYet top List.mem_cons_self hseq
  rcases List.mem_cons.mp hitem with rfl | hitem
  · exact absurd hlater (not_lt.mpr hdue)
  · have hle : f64 top.due ≤ f64 item.due := f64_mono (Nat.cast_nonneg _)
      (Nat.cast_le.mpr (HeapItem.due_le (List.rel_of_pairwise_cons hsorted hitem)))
    linarith

theorem Behind.pop (h : Behind (top :: rest) first q time) (hne : top.seq ≠ q) :
    Behind rest first q time := by
  obtain ⟨item, hitem, hseq, hdue⟩ := h.waiting
  refine ⟨⟨item, ?_, hseq, hdue⟩, fun item hitem => h.notYet item (List.mem_cons_of_mem _ hitem)⟩
  rcases List.mem_cons.mp hitem with rfl | hitem
  · exact absurd hseq hne
  · exact hitem

theorem Behind.push {new : HeapItem} (h : Behind heap first q time)
    (hnew : new.seq = first → time < f64 new.due) :
    Behind (heap.orderedInsert HeapItem.le new) first q time := by
  obtain ⟨item, hitem, hseq, hdue⟩ := h.waiting
  refine ⟨⟨item, (List.mem_orderedInsert _).mpr (.inr hitem), hseq, hdue⟩, fun item hitem hseq => ?_⟩
  rcases (List.mem_orderedInsert HeapItem.le).mp hitem with rfl | hitem
  · exact hnew hseq
  · exact h.notYet item hitem hseq

end Behind

variable {first q : Nat} {time : ℚ}

theorem behind_step (hscan : s.sys.ScanInv) (hord : s.Ordered) (hfirst : first < s.sys.front)
    (hq : q < s.sys.front) (h : Move f64 s act t) (hbehind : Behind s.sys.sc.heap first q time) :
    Behind t.sys.sc.heap first q time ∨ s.sys.bm.isSet q = true ∨
      ∃ now rto, t.log = .returned q now rto :: s.log := by
  cases h with
  | set => exact .inl hbehind
  | callAdvance => exact .inl hbehind
  | callScanHoles => exact .inl hbehind
  | callCollectDue => exact .inl hbehind
  | quiet _ hheap => exact .inl (hheap ▸ hbehind)
  | @found maxSeen due seq hpc =>
    -- the block found is new, so it is not `first`
    have hfront : s.sys.front = seq := by rw [ScanSys.front, hpc]
    exact .inl (hbehind.push fun hseq => absurd hseq (by dsimp only; omega))
  | @dropped now reDue max out top rest sc hpc _ hheap hgone hrest =>
    rw [hheap] at hbehind
    by_cases hne : top.seq = q
    · refine .inr (.inl ?_)
      subst hne
      by_contra hunset
      have hmiss := hscan.sched.missing top.seq hq (by simpa using hunset)
      rcases hgone with hstale | hset
      · exact hstale hmiss
      · exact hunset hset
    · exact .inl (hrest ▸ hbehind.pop hne)
  | @returned now reDue max out top rest hpc _ hheap =>
    have hsorted := hord.sorted
    rw [hheap] at hbehind hsorted
    by_cases hne : top.seq = q
    · exact .inr (.inr ⟨_, _, by rw [hne]⟩)
    · exact .inl ((hbehind.pop hne).push fun hseq => absurd hseq (hbehind.top_ne hsorted))

theorem log_step (h : Move f64 s act t) : ∃ new, t.log = new ++ s.log := by
  cases h with
  | found => exact ⟨[_], rfl⟩
  | returned => exact ⟨[_], rfl⟩
  | set => exact ⟨[], rfl⟩
  | callAdvance => exact ⟨[], rfl⟩
  | callScanHoles => exact ⟨[], rfl⟩
  | callCollectDue => exact ⟨[], rfl⟩
  | quiet => exact ⟨[], rfl⟩
  | dropped => exact ⟨[], rfl⟩

theorem isSet_step (h : Move f64 s act t) (hset : s.sys.bm.isSet q = true) :
    t.sys.bm.isSet q = true := by
  cases h with
  | set hlt => exact RecvBitmap.isSet_setAndTest_of_isSet hlt hset
  | quiet hbm => exact hbm ▸ hset
  | callAdvance => exact hset
  | callScanHoles => exact hset
  | callCollectDue => exact hset
  | found => exact hset
  | dropped => exact hset
  | returned => exact hset

theorem behind_run {as bs : List ScanAct} (hrun : Steps (step f64) CallsReschedule (init total) as s)
    (hrest : Steps (step f64) CallsReschedule s bs t) (hfirst : first < s.sys.front)
    (hq : q < s.sys.front) (hbehind : Behind s.sys.sc.heap first q time) :
    s.sys.front ≤ t.sys.front ∧ ∃ mid, t.log = mid ++ s.log ∧
      (Behind t.sys.sc.heap first q time ∨ t.sys.bm.isSet q = true ∨
        ∃ now rto, .returned q now rto ∈ mid) := by
  refine hrest.invariant_of_run (I := fun t => s.sys.front ≤ t.sys.front ∧ ∃ mid,
    t.log = mid ++ s.log ∧ (Behind t.sys.sc.heap first q time ∨ t.sys.bm.isSet q = true ∨
      ∃ now rto, .returned q now rto ∈ mid)) ?_ ⟨le_rfl, [], rfl, .inl hbehind⟩
  rintro cs u a v hcs ⟨hfront, mid, hmid, hcase⟩ _ hstep
  have hrun' := hrun.append hcs
  have hmove := move_of_step hstep
  refine ⟨hfront.trans ((scanInv_of_run hrun').front_le (stepCase_of_step hstep)), ?_⟩
  obtain ⟨new, hnew⟩ := log_step hmove
  refine ⟨new ++ mid, by rw [hnew, hmid, List.append_assoc], ?_⟩
  rcases hcase with hbehind | hset | ⟨now, rto, hmem⟩
  · rcases behind_step (scanInv_of_run hrun') (ordered_run hrun') (hfirst.trans_le hfront)
      (hq.trans_le hfront) hmove hbehind with hbehind | hset | ⟨now, rto, hlog⟩
    · exact .inl hbehind
    · exact .inr (.inl (isSet_step hmove hset))
    · have hevent : new = [.returned q now rto] := List.append_cancel_right (hnew.symm.trans hlog)
      rw [hevent]
      exact .inr (.inr ⟨now, rto, List.mem_cons_self⟩)
  · exact .inr (.inl (isSet_step hmove hset))
  · exact .inr (.inr ⟨now, rto, List.mem_append_right _ hmem⟩)

theorem returned_cases {seq : Nat} {now rto : ℚ} (h : s.step f64 .iter = some t)
    (hlog : t.log = .returned seq now rto :: s.log) :
    ∃ now' reDue max out top rest, s.sys.pc = .collectDue now' reDue max out ∧ now = s.now ∧
      s.sys.sc.heap = top :: rest ∧ top.seq = seq ∧ f64 top.due ≤ now' ∧
      t.sys.sc.heap = rest.orderedInsert HeapItem.le ⟨reDue, seq⟩ := by
  cases move_of_step h with
  | quiet => exact absurd hlog (List.cons_ne_self _ _).symm
  | dropped => exact absurd hlog (List.cons_ne_self _ _).symm
  | found => cases hlog
  | @returned now' reDue max out top rest hpc _ hheap hdue =>
    cases hlog
    exact ⟨now', reDue, max, out, top, rest, hpc, rfl, hheap, rfl, hdue, rfl⟩

/-- **Throttled requests starve no block.** If `first` is returned and later returned again, a block
that was due when it was first returned and is still missing has been returned in between. -/
theorem not_overtaken {as bs : List ScanAct} {a b c d : LoggedScan total} {first q : Nat}
    {now₁ rto₁ now₂ rto₂ : ℚ} (hrun : Steps (step f64) CallsReschedule (init total) as a)
    (hfirst : a.step f64 .iter = some b) (hlog : b.log = .returned first now₁ rto₁ :: a.log)
    (hbetween : Steps (step f64) CallsReschedule b bs c) (hagain : c.step f64 .iter = some d)
    (hlog' : d.log = .returned first now₂ rto₂ :: c.log) (hne : q ≠ first)
    (hdue : ∃ item ∈ a.sys.sc.heap, item.seq = q ∧ f64 item.due ≤ now₁)
    (hmiss : c.sys.bm.isSet q = false) :
    ∃ mid, c.log = mid ++ b.log ∧ ∃ now rto, .returned q now rto ∈ mid := by
  have hscan := scanInv_of_run hrun
  obtain ⟨now', reDue, max, out, top, rest, hpc, rfl, hheap, rfl, _, hheap'⟩ :=
    returned_cases hfirst hlog
  obtain ⟨item, hitem, rfl, hle⟩ := hdue
  -- once returned, `first` waits behind everything that was due
  have hafter : a.now < f64 reDue := by
    rw [← ((args_run hrun).collectDue _ _ _ _ hpc).1]
    exact (ordered_run hrun).after _ _ _ _ hpc
  have hrest : item ∈ rest := by
    rw [hheap] at hitem
    exact (List.mem_cons.mp hitem).resolve_left fun heq => hne (congrArg HeapItem.seq heq)
  have hbehind : Behind b.sys.sc.heap top.seq item.seq a.now := by
    rw [hheap']
    refine Behind.push ⟨⟨item, hrest, rfl, hle⟩, fun other hother hseq => ?_⟩ fun _ => hafter
    exact absurd hseq (hscan.sched.rest_ne hheap other hother)
  have hbelow : ∀ item ∈ a.sys.sc.heap, item.seq < b.sys.front := fun item hitem =>
    (hscan.sched.below _ (List.count_pos_iff.mpr (List.mem_map_of_mem hitem))).trans_le
      (hscan.front_le (stepCase_of_step hfirst))
  have hrun' : Steps (step f64) CallsReschedule (init total) (as ++ [.iter]) b :=
    hrun.append (.single trivial hfirst)
  obtain ⟨_, mid, hmid, hcase⟩ := behind_run hrun' hbetween
    (hbelow top (hheap ▸ List.mem_cons_self)) (hbelow item hitem) hbehind
  refine ⟨mid, hmid, ?_⟩
  rcases hcase with hbehind | hset | hreturned
  · obtain ⟨_, _, _, _, top', rest', _, _, hheap'', hseq, _⟩ := returned_cases hagain hlog'
    have hsorted := (ordered_run (hrun'.append hbetween)).sorted
    rw [hheap''] at hbehind hsorted
    exact absurd hseq (hbehind.top_ne hsorted)
  · rw [hmiss] at hset
    cases hset
  · exact hreturned

/-- With room for one block a call, block 0 comes up again only after block 1. -/
theorem not_overtaken_two : ∃ a b c d : LoggedScan 2,
    Steps (step f64) CallsReschedule (init 2)
      [.callScanHoles 1 0 0, .iter, .iter, .iter, .callCollectDue 1000 0 1] a ∧
    a.step f64 .iter = some b ∧
    Steps (step f64) CallsReschedule b [.iter, .callCollectDue 2000 0 2, .iter] c ∧
    c.step f64 .iter = some d ∧ d.log = .returned 0 2000 0 :: c.log ∧
    ∃ mid, c.log = mid ++ b.log ∧ ∃ now rto, .returned 1 now rto ∈ mid := by
  obtain ⟨a, hrun, ha⟩ := steps_of_exec_check (step f64) (init 2)
    [.callScanHoles 1 0 0, .iter, .iter, .iter, .callCollectDue 1000 0 1] CallsReschedule
    (fun a : LoggedScan 2 =>
      decide (∃ item ∈ a.sys.sc.heap, item.seq = 1 ∧ f64 item.due ≤ 1000) &&
        (a.step f64 .iter).any fun b : LoggedScan 2 => decide (b.log = .returned 0 1000 0 :: a.log) &&
          (exec (fun s act => if CallsReschedule s act then step f64 s act else none) b
            [.iter, .callCollectDue 2000 0 2, .iter]).any fun c : LoggedScan 2 =>
              !c.sys.bm.isSet 1 &&
                (c.step f64 .iter).any fun d : LoggedScan 2 =>
                  decide (d.log = .returned 0 2000 0 :: c.log))
    (by decide +kernel)
  simp only [Bool.and_eq_true, decide_eq_true_eq] at ha
  obtain ⟨hdue, hb⟩ := ha
  obtain ⟨b, hfirst, hb⟩ := (Option.any_eq_true _ _).mp hb
  rw [Bool.and_eq_true, decide_eq_true_eq] at hb
  obtain ⟨c, hbetween, hc⟩ := steps_of_exec_check _ _ _ _ _ hb.2
  rw [Bool.and_eq_true, Bool.not_eq_true'] at hc
  obtain ⟨d, hagain, hd⟩ := (Option.any_eq_true _ _).mp hc.2
  rw [decide_eq_true_eq] at hd
  exact ⟨a, b, c, d, hrun, hfirst, hbetween, hagain, hd,
    not_overtaken hrun hfirst hb.1 hbetween hagain hd (by decide) hdue hc.1⟩

/-- At `2 ^ 64` every due time is the same: one call returns block 0 twice and block 1 not at all. -/
theorem overtaken_twice : ∃ a b d : LoggedScan 2,
    exec (step f64) (init 2) [.callScanHoles 1 (2 ^ 64) 0, .iter, .iter, .iter,
      .callCollectDue (2 ^ 64) 0 2] = some a ∧
    (∃ item ∈ a.sys.sc.heap, item.seq = 1 ∧ f64 item.due ≤ 2 ^ 64) ∧
    a.step f64 .iter = some b ∧ b.log = .returned 0 (2 ^ 64) 0 :: a.log ∧
    b.step f64 .iter = some d ∧ d.log = .returned 0 (2 ^ 64) 0 :: b.log ∧
    d.sys.bm.isSet 1 = false := by
  have hruns : ((exec (step f64) (init 2) [.callScanHoles 1 (2 ^ 64) 0, .iter, .iter, .iter,
      .callCollectDue (2 ^ 64) 0 2]).any fun a =>
      decide (∃ item ∈ a.sys.sc.heap, item.seq = 1 ∧ f64 item.due ≤ 2 ^ 64) &&
        (a.step f64 .iter).any fun b => decide (b.log = .returned 0 (2 ^ 64) 0 :: a.log) &&
          (b.step f64 .iter).any fun d => decide (d.log = .returned 0 (2 ^ 64) 0 :: b.log) &&
            !d.sys.bm.isSet 1) = true := by decide +kernel
  obtain ⟨a, ha, hruns⟩ := (Option.any_eq_true _ _).mp hruns
  simp only [Bool.and_eq_true, decide_eq_true_eq] at hruns
  obtain ⟨hdue, hruns⟩ := hruns
  obtain ⟨b, hb, hruns⟩ := (Option.any_eq_true _ _).mp hruns
  simp only [Bool.and_eq_true, decide_eq_true_eq] at hruns
  obtain ⟨hlog, hruns⟩ := hruns
  obtain ⟨d, hd, hruns⟩ := (Option.any_eq_true _ _).mp hruns
  simp only [Bool.and_eq_true, decide_eq_true_eq, Bool.not_eq_true'] at hruns
  exact ⟨a, b, d, ha, hdue, hb, hlog, hd, hruns.1, hruns.2⟩

end LoggedScan

end Girth
