import Girth.Receiver.Outcome
import Mathlib.Algebra.BigOperators.Fin
import Mathlib.Algebra.BigOperators.Pi

/-!
# The stage pool

A pooled buffer is in the free channel, with a worker that took it and has not staged it yet, in the
stage map, or with the flusher until it has sent it back. Every step moves at most one buffer from
one of these places to another, so their number never changes (`buffers_step`, `buffers_run`). The
one step that could lose a buffer is an insert over an entry that is there already; it does not
happen, because a block is accepted by one worker only (`fresh_of_tracks`).
-/

namespace Girth.Receiver

open Lib

variable {prim : Primitives} {cfg : RecvConfig} {n : Nat}

/-! ## Where the buffers are -/

/-- The pooled buffers an ingest worker holds. -/
def IngestPc.buffers {total : Nat} : IngestPc total → Nat
  | .data .stage _ _ => 1
  | _ => 0

/-- The pooled buffers the flusher holds. -/
def FlusherPc.buffers : FlusherPc → Nat
  | .write _ | .free => 1
  | .inner _ | .remove | .advance | .stopCheck | .wait | .exited => 0

/-- In the free channel or in the stage map. -/
def Shared.buffers {total : Nat} (sh : Shared total) : Nat := sh.free + sh.stage.keys.length

/-- All the buffers of the pool, in whatever place. -/
def State.buffers (s : State cfg n) : Nat :=
  s.sh.buffers + (∑ i, (s.workers i).buffers) + s.flusher.pc.buffers

/-! ## Ingest -/

theorem IngestPc.buffers_of_idle {total : Nat} {pc : IngestPc total} (h : pc.idle) :
    pc.buffers = 0 := by
  cases pc with
  | data dpc pkt rest =>
    cases dpc with
    | learn addr => rfl
    | _ => cases h
  | _ => rfl

theorem keys_length_insert {α β : Type*} [DecidableEq α] {m : AList fun _ : α => β} {a : α} (b : β)
    (h : a ∉ m) : (m.insert a b).keys.length = m.keys.length + 1 := by
  rw [AList.keys_insert, List.erase_of_not_mem h, List.length_cons]

theorem Shared.applyTick_buffers (sh : Shared cfg.totalBlocks) (h : DataHeader) (now : UInt64) :
    (sh.applyTick h now).buffers = sh.buffers := by
  unfold Shared.applyTick
  dsimp only
  split
  · rfl
  · split <;> rfl

theorem dataStep_buffers (sh : Shared cfg.totalBlocks) {pkt : DataPkt cfg.totalBlocks}
    (rest : List Datagram) (env : Env) (pc : DataPc) (hfresh : pc = .stage → pkt.seq ∉ sh.stage) :
    (dataStep cfg sh pkt rest env pc).1.buffers + (dataStep cfg sh pkt rest env pc).2.buffers =
      sh.buffers + (IngestPc.data pc pkt rest).buffers := by
  cases pc with
  | stage =>
    have hkeys := keys_length_insert pkt.payload (hfresh rfl)
    simp only [dataStep, Shared.buffers, IngestPc.buffers, hkeys]
    omega
  | tryPool =>
    simp only [dataStep]
    split
    · rfl
    · rename_i free hfree
      simp only [Shared.buffers, IngestPc.buffers, hfree]
      omega
  | tick =>
    simp only [dataStep, Shared.applyTick_buffers]
    rfl
  | learn addr | setBm =>
    simp only [dataStep]
    split_ifs <;> rfl
  | direct =>
    simp only [dataStep]
    split <;> rfl
  | seenAny | maxSeen | count | ready path | signal => rfl

theorem ingestStep_buffers {sh sh' : Shared cfg.totalBlocks} {env : Env}
    {pc pc' : IngestPc cfg.totalBlocks} (h : ingestStep prim cfg sh env pc = some (sh', pc'))
    (hfresh : ∀ pkt rest, pc = .data .stage pkt rest → pkt.seq ∉ sh.stage) :
    sh'.buffers + pc'.buffers = sh.buffers + pc.buffers := by
  cases ingestStep_move h with
  | @data dpc pkt rest =>
    refine dataStep_buffers sh rest env dpc ?_
    rintro rfl
    exact hfresh pkt rest rfl
  | quiet _ hidle hidle' =>
    rw [IngestPc.buffers_of_idle hidle, IngestPc.buffers_of_idle hidle']
    rfl

theorem sum_update_add {α M : Type*} [AddCommMonoid M] (f : α → M) (w : Fin n → α) (i : Fin n)
    (a : α) : ∑ j, f (Function.update w i a j) + f (w i) = ∑ j, f (w j) + f a := by
  have hupdate : ∀ j, f (Function.update w i a j) = Function.update (fun j => f (w j)) i (f a) j :=
    fun j => Function.apply_update (fun _ => f) w i a j
  rw [Finset.sum_congr rfl fun j _ => hupdate j, Finset.sum_update_of_mem (Finset.mem_univ i),
    Finset.sum_eq_add_sum_sdiff_singleton_of_mem (Finset.mem_univ i) fun j => f (w j)]
  abel

/-! ## The flusher and the feedback thread -/

theorem flusherOuter_buffers (front : Nat) : (flusherOuter cfg front).buffers = 0 := by
  unfold flusherOuter
  split <;> rfl

theorem flusherStep_buffers {sh sh' : Shared cfg.totalBlocks} {env : Env} {f f' : Flusher}
    (h : flusherStep cfg sh env f = some (sh', f')) :
    sh'.buffers + f'.pc.buffers = sh.buffers + f.pc.buffers := by
  cases flusherStep_cases h with
  | @lift front buf hstage =>
    have hmem : front ∈ sh.stage.keys :=
      AList.mem_keys.mp (AList.lookup_isSome.mp (by rw [hstage]; rfl))
    have hpos : 0 < sh.stage.keys.length := List.length_pos_of_mem hmem
    simp only [Shared.buffers, FlusherPc.buffers, AList.keys_erase, List.length_erase_of_mem hmem]
    omega
  | @pass front hstage =>
    have hnot : front ∉ sh.stage.keys :=
      fun hmem => AList.lookup_eq_none.mp hstage (AList.mem_keys.mpr hmem)
    simp only [Shared.buffers, FlusherPc.buffers, AList.keys_erase, List.erase_of_not_mem hnot]
  | free =>
    simp only [Shared.buffers, FlusherPc.buffers]
    omega
  | retry | wake =>
    simp only [flusherOuter_buffers]
    rfl
  | _ => rfl

theorem feedbackStep_free {sh sh' : Shared cfg.totalBlocks} {env : Env} {fb fb' : Feedback}
    (h : feedbackStep cfg sh env fb = some (sh', fb')) : sh'.free = sh.free := by
  cases feedbackStep_cases h <;> rfl

/-! ## Every run -/

/-- The block a worker is about to stage is not in the map. -/
def Fresh (s : State cfg n) : Prop :=
  ∀ i pkt rest, s.workers i = .data .stage pkt rest → pkt.seq ∉ s.sh.stage

theorem fresh_of_tracks {s : State cfg n} (h : ∀ b, ∃ c, Tracks b s c) : Fresh s := by
  intro i pkt rest hpc
  obtain ⟨c, hc⟩ := h pkt.seq
  have hheld := hc.eq_held hpc rfl rfl
  subst hheld
  exact AList.lookup_eq_none.mp hc.stage

theorem buffers_step {s t : State cfg n} {act : Action n} (hfresh : Fresh s)
    (hstep : step prim s act = some t) : t.buffers = s.buffers := by
  cases step_move hstep with
  | @ingest i env sh pc hi =>
    have hmove := ingestStep_buffers hi (hfresh i)
    have hsum := sum_update_add IngestPc.buffers s.workers i pc
    simp only [State.buffers]
    omega
  | flusher hf =>
    have hmove := flusherStep_buffers hf
    simp only [State.buffers]
    omega
  | feedback hfb =>
    simp only [State.buffers, Shared.buffers, feedbackStep_free hfb, (feedbackStep_frame hfb).stage]
  | quiet => rfl

theorem buffers_new {sink : Sink} {s : State cfg n} (h : newReceiver cfg n sink = some s) :
    s.buffers = cfg.poolDepth := by
  obtain ⟨rate, _, rfl⟩ := Option.map_eq_some_iff.mp h
  have hidle : ∑ i : Fin n, (IngestPc.top : IngestPc cfg.totalBlocks).buffers = 0 :=
    Finset.sum_const_zero
  simp only [State.buffers, Shared.buffers, flusherOuter_buffers, hidle]
  rfl

theorem buffers_run {sink : Sink} {s t : State cfg n} {as : List (Action n)}
    (hnew : newReceiver cfg n sink = some s) (h : Steps (step prim) Any s as t) :
    t.buffers = cfg.poolDepth :=
  h.invariant_of_run (I := fun t => t.buffers = cfg.poolDepth)
    (fun _ _ _ _ hrun hinv _ hstep =>
      (buffers_step (fresh_of_tracks (tracks_run hnew hrun)) hstep).trans hinv)
    (buffers_new hnew)

/-- **The stage pool.** In every state of every run of any number of workers the buffers in the free
channel, with the workers, in the stage map and with the flusher are the whole pool; a worker that
stages a block replaces no entry; and the flusher can always send its buffer back. -/
theorem stage_pool_conserved {sink : Sink} {s t : State cfg n} {as : List (Action n)}
    (hnew : newReceiver cfg n sink = some s) (h : Steps (step prim) Any s as t) :
    t.sh.free + (∑ i, (t.workers i).buffers) + t.sh.stage.keys.length + t.flusher.pc.buffers =
        cfg.poolDepth ∧
      (∀ i pkt rest, t.workers i = .data .stage pkt rest → pkt.seq ∉ t.sh.stage) ∧
      (t.flusher.pc = .free → ∀ env, (step prim t (.flusher env)).isSome = true) := by
  have hpool := buffers_run hnew h
  simp only [State.buffers, Shared.buffers] at hpool
  refine ⟨by omega, fresh_of_tracks (tracks_run hnew h), ?_⟩
  intro hpc env
  have hheld : t.flusher.pc.buffers = 1 := by rw [hpc]; rfl
  have hroom : t.sh.free < cfg.poolDepth := by omega
  simp only [step, flusherStep, hpc, if_pos hroom]
  rfl

/-- The flusher has written the staged block and is about to send its buffer back. -/
theorem stage_pool_conserved_oneBlock : ∃ s t, newReceiver oneBlock 1 zeroByte = some s ∧
    Steps (step oneBlockPrims) Any s ((oneBlockActs .ok).take 18) t ∧ t.flusher.pc = .free ∧
    t.sh.free + (∑ i, (t.workers i).buffers) + t.sh.stage.keys.length + t.flusher.pc.buffers = 1 ∧
    (step oneBlockPrims t (.flusher {})).isSome = true := by
  obtain ⟨s, t, hnew, hrun, hQ⟩ := exists_run oneBlockPrims zeroByte ((oneBlockActs .ok).take 18) Any
    (fun t : State oneBlock 1 => t.flusher.pc == .free) (by decide +kernel)
  have hpc : t.flusher.pc = .free := eq_of_beq hQ
  obtain ⟨hpool, -, hsend⟩ := stage_pool_conserved hnew hrun
  exact ⟨s, t, hnew, hrun, hpc, hpool, hsend hpc {}⟩

end Girth.Receiver
