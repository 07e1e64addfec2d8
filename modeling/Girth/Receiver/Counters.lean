import Girth.Receiver.Pool

/-!
# The bitmap as an exact set, and what is counted

A call on the bitmap is one atomic access, so the calls of any number of workers form one sequence.
After any sequence the bitmap is the set of the blocks that were set in it, whatever the order, and
each block was accepted once (`RecvBitmap.isSet_after`, `RecvBitmap.after_perm`,
`RecvBitmap.count_results`).

In the receiver a worker that was told "first" still has to bump two counters. `owed` is what it is
about to add, and `Tallied` the invariant of every run: what is counted and what is owed together are
what the accepted PDUs amount to. In a quiescent state nothing is owed (`counters_exact`).
-/

namespace Girth

open Lib

/-! ## Calls on the bitmap -/

namespace RecvBitmap

inductive BitCall
  | setAndTest (seq : Nat)
  | isSet (seq : Nat)
  deriving DecidableEq, Repr

def BitCall.seq : BitCall → Nat
  | .setAndTest seq | .isSet seq => seq

variable {total : Nat}

/-- The bitmap after a call, and what the call returns. -/
def call (bm : RecvBitmap total) : BitCall → RecvBitmap total × Bool
  | .setAndTest seq => bm.setAndTest seq
  | .isSet seq => (bm, bm.isSet seq)

def after (bm : RecvBitmap total) (cs : List BitCall) : RecvBitmap total :=
  cs.foldl (fun bm c => (bm.call c).1) bm

/-- The calls with what they return. -/
def results (bm : RecvBitmap total) : List BitCall → List (BitCall × Bool)
  | [] => []
  | c :: cs => (c, (bm.call c).2) :: results (bm.call c).1 cs

theorem after_cons (bm : RecvBitmap total) (c : BitCall) (cs : List BitCall) :
    bm.after (c :: cs) = (bm.call c).1.after cs := rfl

theorem results_append (bm : RecvBitmap total) (cs ds : List BitCall) :
    bm.results (cs ++ ds) = bm.results cs ++ (bm.after cs).results ds := by
  induction cs generalizing bm with
  | nil => rfl
  | cons c cs ih => rw [List.cons_append, results, results, ih, after_cons, List.cons_append]

theorem results_length (bm : RecvBitmap total) (cs : List BitCall) :
    (bm.results cs).length = cs.length := by
  induction cs generalizing bm with
  | nil => rfl
  | cons c cs ih => rw [results, List.length_cons, List.length_cons, ih]

theorem isSet_call {bm : RecvBitmap total} {c : BitCall} (hc : c.seq < total) (s : Nat) :
    (bm.call c).1.isSet s = true ↔ bm.isSet s = true ∨ c = .setAndTest s := by
  cases c with
  | setAndTest seq =>
    have hseq : seq < total := hc
    rw [call, isSet_setAndTest hseq, Bool.or_eq_true, beq_iff_eq, BitCall.setAndTest.injEq, @eq_comm _ s]
  | isSet seq => simp [call]

theorem isSet_after {bm : RecvBitmap total} {cs : List BitCall} (hcs : ∀ c ∈ cs, c.seq < total)
    (s : Nat) : (bm.after cs).isSet s = true ↔ bm.isSet s = true ∨ .setAndTest s ∈ cs := by
  induction cs generalizing bm with
  | nil => simp [after]
  | cons c cs ih =>
    rw [List.forall_mem_cons] at hcs
    rw [after_cons, ih hcs.2, isSet_call hcs.1, List.mem_cons, or_assoc, @eq_comm _ c]

theorem ext_isSet {bm bm' : RecvBitmap total} (h : ∀ s, bm.isSet s = bm'.isSet s) : bm = bm' := by
  obtain ⟨words, hlen⟩ := bm
  obtain ⟨words', hlen'⟩ := bm'
  congr
  refine testBit_ext (hlen.trans hlen'.symm) fun i => ?_
  have hi := h i
  rwa [isSet_eq, isSet_eq] at hi

theorem after_perm {bm : RecvBitmap total} {cs ds : List BitCall} (hcs : ∀ c ∈ cs, c.seq < total)
    (hperm : cs.Perm ds) : bm.after cs = bm.after ds := by
  refine ext_isSet fun s => Bool.eq_iff_iff.mpr ?_
  rw [isSet_after hcs, isSet_after fun c hc => hcs c (hperm.mem_iff.mpr hc), hperm.mem_iff]

theorem count_results {bm : RecvBitmap total} {cs : List BitCall} (hcs : ∀ c ∈ cs, c.seq < total)
    (s : Nat) : (bm.results cs).count (.setAndTest s, true) =
      if bm.isSet s = false ∧ .setAndTest s ∈ cs then 1 else 0 := by
  induction cs generalizing bm with
  | nil => simp [results]
  | cons c cs ih =>
    rw [List.forall_mem_cons] at hcs
    rw [results, List.count_cons, ih hcs.2]
    by_cases hc : c = .setAndTest s
    · subst hc
      have hset : (bm.call (.setAndTest s)).1.isSet s = true := (isSet_call hcs.1 s).mpr (.inr rfl)
      have hres : (bm.call (.setAndTest s)).2 = !bm.isSet s := setAndTest_snd bm s
      rw [hset, hres]
      cases bm.isSet s <;> simp
    · have hsame : (bm.call c).1.isSet s = bm.isSet s := by
        refine Bool.eq_iff_iff.mpr ((isSet_call hcs.1 s).trans ?_)
        simp [hc]
      rw [hsame]
      simp [hc, Ne.symm hc]

/-- How many blocks are set. -/
def setBits (bm : RecvBitmap total) : Nat := (List.range total).countP bm.isSet

end RecvBitmap

namespace Receiver

/-! ## What reaches the bitmap -/

/-- A DATA PDU at the bitmap, and whether it was told to be the first of its block. -/
structure Reached (total : Nat) where
  pkt : DataPkt total
  first : Bool

namespace Reached

variable {total : Nat}

/-- What is to be added to `payload_recv` and `blocks_written` for an accepted PDU. -/
def weight (pkt : DataPkt total) : Nat × Nat := (pkt.payload.length, 1)

def gain (r : Reached total) : Nat × Nat := if r.first then weight r.pkt else 0

/-- The PDUs that were accepted. -/
def accepted (log : List (Reached total)) : List (DataPkt total) :=
  (log.filter (·.first)).map (·.pkt)

def dups (log : List (Reached total)) : Nat := log.countP (!·.first)

end Reached

open Reached

/-- The PDU that a worker takes to the bitmap in its next step. -/
def IngestPc.reaches {total : Nat} (bm : RecvBitmap total) : IngestPc total → Option (Reached total)
  | .data .setBm pkt _ => some ⟨pkt, (bm.setAndTest pkt.seq).2⟩
  | _ => none

/-- What a worker is about to add to the counters. -/
def IngestPc.owed {total : Nat} : IngestPc total → Nat × Nat
  | .data .count pkt _ => weight pkt
  | _ => 0

variable {prim : Primitives} {cfg : RecvConfig} {n : Nat}

def reaches (s : State cfg n) : Action n → Option (Reached cfg.totalBlocks)
  | .ingest i _ => (s.workers i).reaches s.sh.bm
  | _ => none

/-- No worker is between the bitmap and its counters. -/
def AtRest (s : State cfg n) : Prop := ∀ i, (s.workers i).owed = 0

instance (s : State cfg n) : Decidable (AtRest s) :=
  inferInstanceAs (Decidable (∀ i, (s.workers i).owed = 0))

/-! ## One step -/

/-- What the step of a worker does to the bitmap and the counters, by the PDU it takes there. -/
structure Tally {total : Nat} (sh sh' : Shared total) (owed owed' : Nat × Nat)
    (r : Option (Reached total)) : Prop where
  counted : sh'.stats.counted + owed' = sh.stats.counted + owed + r.elim 0 gain
  dups : sh'.stats.dupRecv = sh.stats.dupRecv + dups r.toList
  bm : sh'.bm = r.elim sh.bm fun r => (sh.bm.setAndTest r.pkt.seq).1

theorem tally_dataStep (sh : Shared cfg.totalBlocks) (pkt : DataPkt cfg.totalBlocks)
    (rest : List Datagram) (env : Env) (pc : DataPc) :
    Tally sh (dataStep cfg sh pkt rest env pc).1 (IngestPc.data pc pkt rest).owed
      (dataStep cfg sh pkt rest env pc).2.owed ((IngestPc.data pc pkt rest).reaches sh.bm) := by
  cases pc with
  | setBm =>
    simp only [dataStep, IngestPc.reaches]
    split
    · rename_i hfirst
      exact ⟨by simp [IngestPc.owed, gain, hfirst, Stats.counted], by simp [Reached.dups, hfirst], rfl⟩
    · rename_i hfirst
      exact ⟨by simp [IngestPc.owed, gain, hfirst, Stats.counted], by simp [Reached.dups, hfirst], rfl⟩
  | count => exact ⟨rfl, rfl, rfl⟩
  | learn addr =>
    simp only [dataStep]
    split_ifs <;> exact ⟨rfl, rfl, rfl⟩
  | tick =>
    simp only [dataStep, Shared.applyTick]
    split_ifs <;> exact ⟨rfl, rfl, rfl⟩
  | tryPool =>
    simp only [dataStep]
    split <;> exact ⟨rfl, rfl, rfl⟩
  | direct =>
    simp only [dataStep]
    split <;> exact ⟨rfl, rfl, rfl⟩
  | seenAny | maxSeen | stage | ready path | signal => exact ⟨rfl, rfl, rfl⟩

theorem IngestPc.idle_owed {total : Nat} {pc : IngestPc total} (h : pc.idle) :
    pc.owed = 0 ∧ ∀ bm, pc.reaches bm = none := by
  cases pc with
  | data dpc pkt rest =>
    cases dpc with
    | learn addr => exact ⟨rfl, fun _ => rfl⟩
    | _ => exact h.elim
  | _ => exact ⟨rfl, fun _ => rfl⟩

theorem tally_ingestStep {sh sh' : Shared cfg.totalBlocks} {env : Env}
    {pc pc' : IngestPc cfg.totalBlocks} (h : ingestStep prim cfg sh env pc = some (sh', pc')) :
    Tally sh sh' pc.owed pc'.owed (pc.reaches sh.bm) := by
  cases ingestStep_move h with
  | data => exact tally_dataStep ..
  | quiet hemits hidle hidle' =>
    rw [(IngestPc.idle_owed hidle).1, (IngestPc.idle_owed hidle').1, (IngestPc.idle_owed hidle).2]
    exact ⟨rfl, rfl, rfl⟩

theorem feedbackStep_counters {sh sh' : Shared cfg.totalBlocks} {env : Env} {fb fb' : Feedback}
    (h : feedbackStep cfg sh env fb = some (sh', fb')) :
    sh'.stats.counted = sh.stats.counted ∧ sh'.stats.dupRecv = sh.stats.dupRecv := by
  cases feedbackStep_cases h <;> exact ⟨rfl, rfl⟩

/-! ## Whole runs -/

/-- What the counters have gained since the start and what the workers owe are together what the
accepted PDUs amount to, and the bitmap is the set of their blocks, each accepted once. -/
structure Tallied (log : List (Reached cfg.totalBlocks)) (s : State cfg n) : Prop where
  counted : s.sh.stats.counted + ∑ i, (s.workers i).owed = cfg.stats.counted + (log.map gain).sum
  dups : s.sh.stats.dupRecv = cfg.stats.dupRecv + dups log
  bits : ∀ b, s.sh.bm.isSet b = true ↔ b ∈ (accepted log).map (·.seq)
  nodup : ((accepted log).map (·.seq)).Nodup

theorem dups_append (log log' : List (Reached cfg.totalBlocks)) :
    Reached.dups (log ++ log') = Reached.dups log + Reached.dups log' := List.countP_append

theorem accepted_append (log log' : List (Reached cfg.totalBlocks)) :
    accepted (log ++ log') = accepted log ++ accepted log' := by
  simp [accepted]

theorem first_of_reaches {bm : RecvBitmap cfg.totalBlocks} {pc : IngestPc cfg.totalBlocks}
    {r : Reached cfg.totalBlocks} (h : pc.reaches bm = some r) : r.first = !bm.isSet r.pkt.seq := by
  unfold IngestPc.reaches at h
  split at h <;> cases h
  exact RecvBitmap.setAndTest_snd _ _

theorem accepted_singleton {bm : RecvBitmap cfg.totalBlocks} {r : Reached cfg.totalBlocks}
    (h : r.first = !bm.isSet r.pkt.seq) :
    (accepted [r]).map (·.seq) = if bm.isSet r.pkt.seq = true then [] else [r.pkt.seq] := by
  cases hset : bm.isSet r.pkt.seq <;> simp [accepted, h, hset]

section accepted

variable {seqs : List Nat} {bm : RecvBitmap cfg.totalBlocks} {r : Option (Reached cfg.totalBlocks)}

theorem bits_ingest (hbits : ∀ b, bm.isSet b = true ↔ b ∈ seqs)
    (hfirst : ∀ r' ∈ r, r'.first = !bm.isSet r'.pkt.seq) (b : Nat) :
    (r.elim bm fun r => (bm.setAndTest r.pkt.seq).1).isSet b = true ↔
      b ∈ seqs ++ (accepted r.toList).map (·.seq) := by
  rw [List.mem_append, ← hbits]
  cases r with
  | none => simp [accepted]
  | some r =>
    have hlt : r.pkt.seq < cfg.totalBlocks := r.pkt.seq_lt
    rw [Option.elim_some, RecvBitmap.isSet_setAndTest hlt, Bool.or_eq_true, beq_iff_eq,
      Option.toList_some, accepted_singleton (hfirst r rfl)]
    split_ifs with hset
    · simp only [List.not_mem_nil, or_false, or_iff_left_iff_imp]
      rintro rfl
      exact hset
    · rw [List.mem_singleton]

theorem nodup_ingest (hnodup : seqs.Nodup) (hbits : ∀ b, bm.isSet b = true ↔ b ∈ seqs)
    (hfirst : ∀ r' ∈ r, r'.first = !bm.isSet r'.pkt.seq) :
    (seqs ++ (accepted r.toList).map (·.seq)).Nodup := by
  cases r with
  | none => simpa [accepted] using hnodup
  | some r =>
    rw [Option.toList_some, accepted_singleton (hfirst r rfl)]
    split_ifs with hset
    · rwa [List.append_nil]
    · rw [hbits] at hset
      exact hnodup.append (List.nodup_singleton _) (by simpa using hset)

end accepted

theorem tallied_ingest {log : List (Reached cfg.totalBlocks)} {s : State cfg n} {i : Fin n}
    {sh : Shared cfg.totalBlocks} {pc : IngestPc cfg.totalBlocks} (hs : Tallied log s)
    (h : Tally s.sh sh (s.workers i).owed pc.owed ((s.workers i).reaches s.sh.bm)) :
    Tallied (log ++ ((s.workers i).reaches s.sh.bm).toList)
      { s with sh := sh, workers := Function.update s.workers i pc } := by
  obtain ⟨hcounted, hdups, hbm⟩ := h
  have hthreads := sum_update_add IngestPc.owed s.workers i pc
  have hfirst (r : Reached cfg.totalBlocks) := @first_of_reaches cfg s.sh.bm (s.workers i) r
  generalize (s.workers i).reaches s.sh.bm = r at hcounted hdups hbm hfirst ⊢
  have hsum : ((log ++ r.toList).map gain).sum = (log.map gain).sum + r.elim 0 gain := by
    cases r <;> simp
  refine ⟨?_, by rw [dups_append, ← Nat.add_assoc, ← hs.dups]; exact hdups, fun b => ?_, ?_⟩
  · -- what the worker owed before is on both sides
    apply add_right_cancel (b := (s.workers i).owed)
    calc sh.stats.counted + ∑ j, (Function.update s.workers i pc j).owed + (s.workers i).owed
        = sh.stats.counted + pc.owed + ∑ j, (s.workers j).owed := by
          rw [add_assoc, hthreads]
          abel
      _ = s.sh.stats.counted + ∑ j, (s.workers j).owed + r.elim 0 gain + (s.workers i).owed := by
          rw [hcounted]
          abel
      _ = cfg.stats.counted + ((log ++ r.toList).map gain).sum + (s.workers i).owed := by
          rw [hs.counted, hsum, add_assoc cfg.stats.counted]
  · show sh.bm.isSet b = true ↔ _
    rw [hbm, accepted_append, List.map_append]
    exact bits_ingest hs.bits hfirst b
  · rw [accepted_append, List.map_append]
    exact nodup_ingest hs.nodup hs.bits hfirst

theorem Tallied.frame {log : List (Reached cfg.totalBlocks)} {s t : State cfg n} (hs : Tallied log s)
    (hworkers : t.workers = s.workers) (hbm : t.sh.bm = s.sh.bm)
    (hcounted : t.sh.stats.counted = s.sh.stats.counted)
    (hdups : t.sh.stats.dupRecv = s.sh.stats.dupRecv) : Tallied (log ++ []) t := by
  rw [List.append_nil]
  exact ⟨by rw [hcounted, hworkers]; exact hs.counted, hdups.trans hs.dups,
    fun b => by rw [hbm]; exact hs.bits b, hs.nodup⟩

theorem tallied_step {log : List (Reached cfg.totalBlocks)} {s t : State cfg n} {act : Action n}
    (hs : Tallied log s) (h : step prim s act = some t) :
    Tallied (log ++ (reaches s act).toList) t := by
  cases act with
  | ingest i env =>
    obtain ⟨⟨sh, pc⟩, hi, rfl⟩ := Option.map_eq_some_iff.mp h
    exact tallied_ingest hs (tally_ingestStep hi)
  | flusher env =>
    obtain ⟨⟨sh, f⟩, hf, rfl⟩ := Option.map_eq_some_iff.mp h
    have hframe := flusherStep_frame hf
    exact hs.frame rfl hframe.bm (congrArg Stats.counted hframe.stats)
      (congrArg Stats.dupRecv hframe.stats)
  | feedback env =>
    obtain ⟨⟨sh, fb⟩, hfb, rfl⟩ := Option.map_eq_some_iff.mp h
    have hcounters := feedbackStep_counters hfb
    exact hs.frame rfl (feedbackStep_frame hfb).bm hcounters.1 hcounters.2
  | main =>
    obtain ⟨signal, main, rfl⟩ := mainStep_frame h
    exact hs.frame rfl rfl rfl rfl
  | stop =>
    cases h
    exact hs.frame rfl rfl rfl rfl
  | control op =>
    obtain ⟨ctl, -, rfl⟩ := Option.map_eq_some_iff.mp h
    exact hs.frame rfl rfl rfl rfl

theorem tallied_new {sink : Sink} {s : State cfg n} (h : newReceiver cfg n sink = some s) :
    Tallied [] s := by
  obtain ⟨rate, -, rfl⟩ := Option.map_eq_some_iff.mp h
  refine ⟨?_, initStats_dupRecv cfg, fun b => ?_, List.nodup_nil⟩
  · simp [Stats.counted, IngestPc.owed]
  · simp [accepted]

theorem tallied_run {sink : Sink} {s t : State cfg n} {as : List (Action n)}
    (hnew : newReceiver cfg n sink = some s) (hrun : Steps (step prim) Any s as t) :
    Tallied (observed (step prim) reaches s as) t :=
  hrun.invariant_of_observed (fun _ _ _ _ hI _ ha => tallied_step hI ha) (tallied_new hnew)

/-! ## Between packets -/

theorem sum_gain (log : List (Reached cfg.totalBlocks)) :
    (log.map gain).sum = (((accepted log).map (·.payload.length)).sum, (accepted log).length) := by
  induction log with
  | nil => rfl
  | cons r log ih =>
    rw [List.map_cons, List.sum_cons, ih, gain, accepted, accepted]
    cases hr : r.first with
    | false => simp [hr]
    | true =>
      simp only [hr, if_true, weight, List.filter_cons_of_pos, List.map_cons, List.sum_cons,
        List.length_cons, Prod.mk_add_mk]
      rw [Nat.add_comm 1]

theorem length_accepted_add_dups (log : List (Reached cfg.totalBlocks)) :
    (accepted log).length + Reached.dups log = log.length := by
  rw [accepted, List.length_map, Reached.dups, ← List.countP_eq_length_filter]
  have hsplit := log.length_eq_countP_add_countP fun r : Reached cfg.totalBlocks => r.first
  simpa using hsplit.symm

theorem Tallied.setBits {log : List (Reached cfg.totalBlocks)} {s : State cfg n}
    (h : Tallied log s) : s.sh.bm.setBits = (accepted log).length := by
  have hseqs : ((accepted log).map (·.seq)).length = (accepted log).length := List.length_map _
  rw [RecvBitmap.setBits, List.countP_eq_length_filter, ← hseqs]
  refine List.Perm.length_eq ((List.perm_ext_iff_of_nodup (List.nodup_range.filter _) h.nodup).mpr ?_)
  intro b
  rw [List.mem_filter, h.bits, List.mem_range, and_iff_right_iff_imp]
  intro hb
  obtain ⟨pkt, -, rfl⟩ := List.mem_map.mp hb
  exact pkt.seq_lt

/-- **An exact set with exactly-once acceptance.** For every sequence of calls on a new bitmap: a
block is set exactly if it was set before, which is what `is_set` returns; no call touches another
block; the order does not matter; and of the calls that set a block exactly one is told to be the
first. So in every quiescent state of a receiver `blocks_written` has grown by the number of set bits
and of accepted PDUs, `payload_recv` by what these carried, and every PDU that reached the bitmap was
counted once, as new or as a duplicate. -/
theorem counters_exact :
    (∀ (total : Nat) (cs : List RecvBitmap.BitCall), (∀ c ∈ cs, c.seq < total) →
      (∀ s, ((RecvBitmap.new total).after cs).isSet s = true ↔ .setAndTest s ∈ cs) ∧
      (∀ before s rest, cs = before ++ .isSet s :: rest →
        ((RecvBitmap.new total).results cs)[before.length]? =
          some (.isSet s, decide (.setAndTest s ∈ before))) ∧
      (∀ cs', cs.Perm cs' → (RecvBitmap.new total).after cs' = (RecvBitmap.new total).after cs) ∧
      ∀ s, .setAndTest s ∈ cs →
        ((RecvBitmap.new total).results cs).count (.setAndTest s, true) = 1) ∧
    (∀ (total : Nat) (bm : RecvBitmap total) (seq s : Nat), seq < total → s ≠ seq →
      (bm.setAndTest seq).1.isSet s = bm.isSet s) ∧
    ∀ (prim : Primitives) (cfg : RecvConfig) (n : Nat) (sink : Sink) (s t : State cfg n)
      (as : List (Action n)), newReceiver cfg n sink = some s → Steps (step prim) Any s as t →
      AtRest t →
        t.sh.stats.blocksWritten = cfg.stats.blocksWritten + t.sh.bm.setBits ∧
        t.sh.stats.blocksWritten =
          cfg.stats.blocksWritten + (accepted (observed (step prim) reaches s as)).length ∧
        t.sh.stats.payloadRecv = cfg.stats.payloadRecv +
          ((accepted (observed (step prim) reaches s as)).map (·.payload.length)).sum ∧
        t.sh.stats.dupRecv =
          cfg.stats.dupRecv + Reached.dups (observed (step prim) reaches s as) ∧
        t.sh.stats.blocksWritten + t.sh.stats.dupRecv =
          cfg.stats.blocksWritten + cfg.stats.dupRecv +
            (observed (step prim) reaches s as).length := by
  refine ⟨fun total cs hcs => ⟨fun s => ?_, ?_, fun cs' hperm => (RecvBitmap.after_perm hcs hperm).symm,
    fun s hs => ?_⟩, fun total bm seq s hseq hne => ?_, ?_⟩
  · rw [RecvBitmap.isSet_after hcs, RecvBitmap.isSet_new]
    simp
  · rintro before s rest rfl
    have hlen : ((RecvBitmap.new total).results before).length = before.length :=
      RecvBitmap.results_length _ _
    have hbefore : ∀ c ∈ before, c.seq < total := fun c hc => hcs c (List.mem_append_left _ hc)
    rw [RecvBitmap.results_append, List.getElem?_append_right hlen.le, hlen, Nat.sub_self]
    refine congrArg some (Prod.ext rfl (Bool.eq_iff_iff.mpr ?_))
    rw [decide_eq_true_eq]
    refine (RecvBitmap.isSet_after hbefore s).trans ?_
    simp
  · rw [RecvBitmap.count_results hcs, if_pos ⟨RecvBitmap.isSet_new _ _, hs⟩]
  · rw [RecvBitmap.isSet_setAndTest hseq, beq_eq_false_iff_ne.mpr hne, Bool.or_false]
  · intro prim cfg n sink s t as hnew hrun hquiet
    have h := tallied_run hnew hrun
    have hcounted := h.counted
    rw [Finset.sum_eq_zero fun i _ => hquiet i, add_zero, sum_gain] at hcounted
    obtain ⟨hpayload, hwritten⟩ := Prod.mk.inj hcounted
    refine ⟨by rw [h.setBits]; exact hwritten, hwritten, hpayload, h.dups, ?_⟩
    rw [← length_accepted_add_dups, h.dups, hwritten]
    exact Nat.add_add_add_comm _ _ _ _

/-- The same PDU twice in one batch, taken to the end by the one worker. -/
def twiceActs : List (Action 1) :=
  [idle, deliver (List.replicate 2 (fromPeer (oneBlockHeader.bytes ++ [7])))] ++
    List.replicate 16 idle

/-- It is counted as one block of one byte and one duplicate. -/
theorem counters_exact_twice : ∃ s t, newReceiver oneBlock 1 zeroByte = some s ∧
    Steps (step oneBlockPrims) Any s twiceActs t ∧ AtRest t ∧
    t.sh.stats.payloadRecv = 1 ∧ t.sh.stats.dupRecv = 1 ∧
    t.sh.stats.blocksWritten = t.sh.bm.setBits := by
  obtain ⟨s, t, hnew, hrun, hQ⟩ := exists_run oneBlockPrims zeroByte twiceActs Any
    (fun t : State oneBlock 1 => decide (AtRest t ∧ t.sh.stats.payloadRecv = 1 ∧
      t.sh.stats.dupRecv = 1)) (by decide +kernel)
  obtain ⟨hquiet, hpayload, hdup⟩ := of_decide_eq_true hQ
  exact ⟨s, t, hnew, hrun, hquiet, hpayload, hdup,
    (counters_exact.2.2 _ _ _ _ _ _ _ hnew hrun hquiet).1.trans (Nat.zero_add _)⟩

end Receiver

end Girth
