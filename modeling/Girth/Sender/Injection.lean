import Girth.Sender.Steps
import Girth.Sender.Wire

/-!
# New blocks and the FIN

New blocks go through a pipeline: the prefetch thread builds them in order, the ready channel keeps
the order, and the pacing loop takes them out one by one and hands them to the batch sender. What was
handed over and what is still in the pipeline are together the blocks built so far, `0, 1, 2, …`
(`Injecting.order`), in every run and whatever is retransmitted in between.

The pacing loop infers from a disconnected channel that all new blocks have been handed over, and then
sends the FIN. The channel also disconnects when the prefetch thread leaves early: a read failed, or
it saw a stop or `done` before it took the next block. `fin_truthful` has both parts: the order in
every run, and in the runs in which the prefetch thread is not cut short, the FIN comes after every
block.
-/

namespace Girth.Sender

open Lib

variable {prim : Primitives} {cfg : SendConfig}

/-! ## The pipeline -/

/-- The block a DATA PDU without the retransmit flag carries. -/
def newSeq (d : Bytes) : Option UInt64 :=
  match decodeDataHeader d with
  | some h => if h.flags &&& flagRetransmit = 0 then some h.blockSeq else none
  | none => none

/-- The new blocks among some PDUs. -/
def newSeqs (ds : List Bytes) : List UInt64 := ds.filterMap newSeq

/-- The blocks `0 … k - 1`. -/
def firstBlocks (k : Nat) : List UInt64 := (List.range k).map UInt64.ofNat

/-- The item the prefetch thread has built and not published yet. -/
def PrefetchPc.item : PrefetchPc → Option Prefetched
  | .publish _ item => some item
  | _ => none

/-- What is built and not handed over, oldest first. -/
def pipeline (s : State) : List Prefetched :=
  s.pacerPc.item.toList ++ s.sh.ready ++ s.prefetch.item.toList

theorem newSeqs_append (l m : List Bytes) : newSeqs (l ++ m) = newSeqs l ++ newSeqs m :=
  List.filterMap_append

theorem newSeqs_snoc_none {l : List Bytes} {d : Bytes} (h : newSeq d = none) :
    newSeqs (l ++ [d]) = newSeqs l := by
  rw [newSeqs_append]
  simp only [newSeqs, List.filterMap_cons, h, List.filterMap_nil, List.append_nil]

theorem firstBlocks_succ (k : Nat) : firstBlocks (k + 1) = firstBlocks k ++ [UInt64.ofNat k] := by
  rw [firstBlocks, List.range_succ, List.map_append]
  rfl

theorem eq_firstBlocks_of_append {l m : List UInt64} {k : Nat} (h : l ++ m = firstBlocks k) :
    l = firstBlocks l.length ∧ l.length ≤ k := by
  have hlen := congrArg List.length h
  rw [List.length_append, firstBlocks, List.length_map, List.length_range] at hlen
  refine ⟨?_, by omega⟩
  have htake := congrArg (List.take l.length) h
  rw [List.take_left, firstBlocks, ← List.map_take, List.take_range, Nat.min_eq_left (by omega)] at htake
  exact htake

theorem newSeq_attachTick (tick : TickState) (now : UInt64) {buf : Bytes} {size : Nat}
    (h : FromSource prim cfg (buf.take size)) :
    newSeq ((attachTick tick now buf).2.take size) = newSeq (buf.take size) := by
  obtain ⟨seq, payload, -, -, hdr, -, -, -, -, hd⟩ := h
  have hdec : decodeDataHeader (buf.take size) = some hdr := by rw [hd, decodeDataHeader_bytes]
  obtain ⟨flags, echo, hflags, hstamp⟩ := tick.stamp_eq now hdr
  simp only [newSeq, hdec, attachTick_header tick now hdec, hstamp, hflags]

theorem newSeq_prefetchPdu {renv : ReadEnv} {buf : Bytes} {seq : UInt64} {item : Prefetched}
    {sealed : Option Seal} (h : prefetchPdu prim cfg renv buf seq = .pdu item sealed) :
    newSeq item.pdu = some seq := by
  obtain ⟨hdr, hdec, hseq, hflags, -⟩ := buildPdu_header h
  have hzero : hdr.flags &&& flagRetransmit = 0 := by
    rcases hflags with h | h <;> rw [h] <;> decide
  simp only [newSeq, hdec, hzero, if_true, hseq]

theorem newSeq_fillRetransmit {renv : ReadEnv} {buf : Bytes} {seq : UInt64} {item : Prefetched}
    {sealed : Option Seal} (h : fillRetransmit prim cfg renv buf seq = .pdu item sealed) :
    newSeq item.pdu = none := by
  unfold fillRetransmit at h
  split at h
  · cases h
  · obtain ⟨hdr, hdec, -, hflags, -⟩ := buildPdu_header h
    have hset : hdr.flags &&& flagRetransmit ≠ 0 := by
      rcases hflags with h | h <;> rw [h] <;> decide
    simp only [newSeq, hdec, hset, if_false]

theorem decodeDataHeader_finPdu : decodeDataHeader (finPdu cfg) = none := by
  rw [finPdu_eq, decodeDataHeader, if_pos (.inl (by rw [finBytes_length]; decide))]

theorem newSeq_finPdu : newSeq (finPdu cfg) = none := by
  simp only [newSeq, decodeDataHeader_finPdu]

/-! ## The invariant -/

/-- Every FIN comes after all blocks. -/
def FinAfterAll (cfg : SendConfig) (ds : List Bytes) : Prop :=
  ∀ earlier later, ds = earlier ++ finPdu cfg :: later →
    newSeqs earlier = firstBlocks cfg.totalBlocks.toNat

theorem FinAfterAll.snoc {ds : List Bytes} {d : Bytes} (h : FinAfterAll cfg ds)
    (hd : d = finPdu cfg → newSeqs ds = firstBlocks cfg.totalBlocks.toNat) :
    FinAfterAll cfg (ds ++ [d]) := by
  intro earlier later heq
  rcases List.eq_nil_or_concat later with rfl | ⟨later', e, rfl⟩
  · obtain ⟨rfl, hlast⟩ := List.append_inj' heq rfl
    exact hd (List.cons.inj hlast).1
  · rw [List.concat_eq_append, ← List.cons_append, ← List.append_assoc] at heq
    exact h earlier later' (List.append_inj' heq rfl).1

/-- Where the prefetch thread is when it has built `k` blocks; `full` says that it was not cut
short. -/
def PrefetchAt (cfg : SendConfig) (full : Prop) (k : Nat) : PrefetchPc → Prop
  | .borrow seq => seq.toNat = k
  | .recvFree seq | .fill seq _ => seq.toNat = k ∧ k < cfg.totalBlocks.toNat
  | .publish seq _ => seq.toNat + 1 = k
  | .exited => full → k = cfg.totalBlocks.toNat

/-- A retransmission on its way into the batch is not new. -/
def RexNotNew (p : Pacer) : PacerPc → Prop
  | .stampRex b size => ∀ buf, p.rexScratch[b.rexIdx]? = some buf → newSeq (buf.take size) = none
  | _ => True

structure Injecting (cfg : SendConfig) (full : Prop) (k : Nat) (s : State) : Prop where
  order : newSeqs (handed s.sh s.pacerPc) ++ newSeqs ((pipeline s).map Prefetched.pdu) =
    firstBlocks k
  le : k ≤ cfg.totalBlocks.toNat
  reached : PrefetchAt cfg full k s.prefetch
  rex : RexNotNew s.pacer s.pacerPc
  closed : s.sh.readyClosed = true → s.prefetch = .exited
  newDone : s.pacer.newDone = true → s.sh.readyClosed = true ∧ s.sh.ready = []
  fin : full → FinAfterAll cfg (handed s.sh s.pacerPc)

/-- The prefetch thread does not leave early in this step: it sees no stop and no `done` while there
is a block to take, and no read fails. -/
def PrefetchPc.Unbroken (cfg : SendConfig) (sh : Shared) (env : Env) : PrefetchPc → Prop
  | .borrow seq => seq < cfg.totalBlocks → sh.shouldStop = false ∧ sh.done = false
  | .fill seq _ => env.readErr = none ∧ (blockOf cfg seq).isSome
  | .recvFree _ | .publish .. | .exited => True

def PrefetchUnbroken (cfg : SendConfig) (s : State) : Action → Prop
  | .prefetch env => s.prefetch.Unbroken cfg s.sh env
  | .pacer _ | .feedback _ | .join | .stop | .control _ => True

instance decidableUnbroken (cfg : SendConfig) (sh : Shared) (env : Env) :
    (pc : PrefetchPc) → Decidable (pc.Unbroken cfg sh env)
  | .borrow seq =>
    inferInstanceAs (Decidable (seq < cfg.totalBlocks → sh.shouldStop = false ∧ sh.done = false))
  | .fill seq _ => inferInstanceAs (Decidable (env.readErr = none ∧ (blockOf cfg seq).isSome))
  | .recvFree _ | .publish .. | .exited => .isTrue trivial

instance decidablePrefetchUnbroken (cfg : SendConfig) (s : State) :
    (act : Action) → Decidable (PrefetchUnbroken cfg s act)
  | .prefetch env => decidableUnbroken cfg s.sh env s.prefetch
  | .pacer _ | .feedback _ | .join | .stop | .control _ => .isTrue trivial

/-! ## One step -/

variable {full : Prop} {k : Nat} {s t : State} {env : Env} {sh : Shared}

theorem prefetchPdu_ne_nothing {renv : ReadEnv} {buf buf' : Bytes} {seq : UInt64}
    (herr : renv.readErr = none) (hread : (blockOf cfg seq).isSome) :
    prefetchPdu prim cfg renv buf seq ≠ .nothing buf' := by
  obtain ⟨payload, hread⟩ := Option.isSome_iff_exists.mp hread
  unfold blockOf at hread
  intro h
  simp only [prefetchPdu, buildPdu, herr, hread] at h
  split at h
  · cases h
  · simp only [finishPdu] at h
    split at h <;> cases h

theorem injecting_prefetch {pc : PrefetchPc} (hinv : Injecting cfg full k s)
    (hC : full → s.prefetch.Unbroken cfg s.sh env)
    (h : prefetchStep prim cfg s.sh env s.prefetch = some (sh, pc)) :
    ∃ k', Injecting cfg full k' { s with sh := sh, prefetch := pc } := by
  obtain ⟨horder, hle, hreached, hrex, hclosed, hnew, hfin⟩ := hinv
  have hmove := prefetchStep_move h
  simp only [pipeline] at horder
  generalize s.prefetch = pc₀ at hmove hC horder hreached hclosed
  cases hmove with
  | @leave seq hexit =>
    refine ⟨k, horder, hle, fun hfull => ?_, hrex, fun _ => rfl, fun hn => ⟨rfl, (hnew hn).2⟩,
      hfin⟩
    have hreached : seq.toNat = k := hreached
    by_cases hlt : seq < cfg.totalBlocks
    · obtain ⟨hstop, hdone⟩ := hC hfull hlt
      simp [hlt, hstop, hdone] at hexit
    · rw [UInt64.lt_iff_toNat_lt] at hlt
      omega
  | borrow hlt =>
    refine ⟨k, horder, hle, ⟨hreached, ?_⟩, hrex, (fun hcl => by cases hclosed hcl), hnew, hfin⟩
    rw [UInt64.lt_iff_toNat_lt] at hlt
    exact hreached ▸ hlt
  | retry =>
    exact ⟨k, horder, hle, hreached.1, hrex, (fun hcl => by cases hclosed hcl), hnew, hfin⟩
  | take =>
    exact ⟨k, horder, hle, hreached, hrex, (fun hcl => by cases hclosed hcl), hnew, hfin⟩
  | fail hnothing =>
    refine ⟨k, horder, hle, fun hfull => ?_, hrex, fun _ => rfl, fun hn => ⟨rfl, (hnew hn).2⟩,
      hfin⟩
    obtain ⟨herr, hread⟩ := hC hfull
    exact absurd hnothing (prefetchPdu_ne_nothing herr hread)
  | @fill seq buf item sealed hpdu =>
    obtain ⟨hseq, hlt⟩ := hreached
    refine ⟨k + 1, ?_, hlt, congrArg (· + 1) hseq, hrex, (fun hcl => by cases hclosed hcl), hnew,
      hfin⟩
    -- the new item is the next block, at the end of the pipeline
    have hitem : newSeqs [item.pdu] = [UInt64.ofNat k] := by
      rw [newSeqs, List.filterMap_cons, newSeq_prefetchPdu hpdu, ← hseq, UInt64.ofNat_toNat]
      rfl
    have hpipe : pipeline { s with sh := s.sh.record sealed, prefetch := .publish seq item } =
        (s.pacerPc.item.toList ++ s.sh.ready ++ []) ++ [item] := by
      simp [pipeline, PrefetchPc.item, Shared.record]
    rw [hpipe, List.map_append, newSeqs_append, ← List.append_assoc, firstBlocks_succ, ← hitem]
    exact congrArg (· ++ newSeqs [item.pdu]) horder
  | @publish seq item =>
    have hnext : (seq + 1).toNat = seq.toNat + 1 := by
      have hreached : seq.toNat + 1 = k := hreached
      have htotal := cfg.totalBlocks.toNat_lt
      rw [UInt64.toNat_add]
      exact Nat.mod_eq_of_lt (by show seq.toNat + 1 < 2 ^ 64; omega)
    refine ⟨k, ?_, hle, hnext.trans hreached, hrex, (fun hcl => by cases hclosed hcl), fun hn => ?_,
      hfin⟩
    · rw [← horder]
      simp [pipeline, PrefetchPc.item, handed]
    · cases hclosed (hnew hn).1

theorem FromSource.ne_fin {d : Bytes} (h : FromSource prim cfg d) : d ≠ finPdu cfg := by
  obtain ⟨seq, payload, -, -, hdr, -, -, -, -, hd⟩ := h
  rintro rfl
  have hlen := congrArg List.length hd
  rw [finPdu_eq, finBytes_length, List.length_append, DataHeader.bytes_length] at hlen
  simp only [dataHeaderSize] at hlen
  omega

theorem RexNotNew.of_not_busy {p : Pacer} {pc : PacerPc} (h : pc.busy = false) : RexNotNew p pc := by
  cases pc with
  | stampRex b size => cases h
  | _ => trivial

theorem PacerPc.item_of_not_busy {pc : PacerPc} (h : pc.busy = false) : pc.item = none := by
  cases pc with
  | stampNew b item => cases h
  | _ => rfl

theorem handed_snoc {b b' : Batch} {d : Bytes} (sh : Shared) (hout : b'.out = b.out ++ [d]) :
    handed sh (.build b') = handed sh (.build b) ++ [d] := by
  simp only [handed, PacerPc.out, hout, List.append_assoc]

theorem handed_fin (sh : Shared) : handed { sh with wire := finPdu cfg :: sh.wire } .top =
    handed sh .fin ++ [finPdu cfg] := by
  simp only [handed, PacerPc.out, List.reverse_cons, List.append_nil]

theorem injecting_pacer {p : Pacer} {pc : PacerPc} (hinv : Injecting cfg full k s)
    (hok : SenderInv prim cfg s)
    (h : pacerStep prim cfg s.sh env s.pacer s.pacerPc = some (sh, p, pc)) :
    Injecting cfg full k { s with sh := sh, pacer := p, pacerPc := pc } := by
  obtain ⟨horder, hle, hreached, hrex, hclosed, hnew, hfin⟩ := hinv
  have hpacer := hok.pacing.pacer
  have hclosed' : sh.readyClosed = true → s.prefetch = .exited :=
    (pacerStep_frame h).readyClosed ▸ hclosed
  have hmove := pacerStep_move h
  simp only [pipeline] at horder
  generalize s.pacerPc = pc₀ at hmove horder hrex hfin hpacer
  cases hmove with
  | quiet hframe hhanded hitem hbusy hready hrexq htick hdone =>
    refine ⟨?_, hle, hreached, .of_not_busy hbusy, hclosed', fun hn => ?_, fun hfull => ?_⟩
    · dsimp only [pipeline]
      rw [hhanded, PacerPc.item_of_not_busy hbusy, ← hitem, hready]
      exact horder
    · dsimp only at hn ⊢
      rw [hready, hframe.readyClosed]
      exact hnew (hdone ▸ hn)
    · exact hhanded ▸ hfin hfull
  | pop hframe hpop hwire hready hrexq htick hdone =>
    refine ⟨?_, hle, hreached, trivial, hclosed', fun hn => ?_, fun hfull => ?_⟩
    · dsimp only [pipeline, handed]
      rw [hwire, hready]
      exact horder
    · dsimp only at hn ⊢
      rw [hready, hframe.readyClosed]
      exact hnew (hdone ▸ hn)
    · dsimp only [handed]
      rw [hwire]
      exact hfin hfull
  | fill hbuf hfill =>
    refine ⟨horder, hle, hreached, fun buf hbuf' => ?_, hclosed', hnew, hfin⟩
    dsimp only at hbuf'
    rw [List.getElem?_set_self (List.getElem?_eq_some_iff.mp hbuf).1] at hbuf'
    exact Option.some.inj hbuf' ▸ newSeq_fillRetransmit hfill
  | @stampRex b size buf p' b' hbuf hout hdone =>
    have hsource := hpacer.2 _ hbuf
    have hhanded := handed_snoc { s.sh with tick := (attachTick s.sh.tick env.now buf).1 } hout
    refine ⟨?_, hle, hreached, trivial, hclosed', fun hn => hnew (hdone ▸ hn), fun hfull => ?_⟩
    · dsimp only
      rw [hhanded, newSeqs_snoc_none ((newSeq_attachTick _ _ hsource).trans (hrex _ hbuf))]
      exact horder
    · dsimp only
      rw [hhanded]
      exact (hfin hfull).snoc fun heq => absurd heq (fromSource_attachTick _ _ hsource).ne_fin
  | take hready =>
    refine ⟨?_, hle, hreached, trivial, hclosed', fun hn => ?_, hfin⟩
    · rw [hready] at horder
      exact horder
    · rw [hready] at hnew
      exact absurd (hnew hn).2 (List.cons_ne_nil _ _)
  | exhausted hready hcl =>
    exact ⟨horder, hle, hreached, trivial, hclosed, fun _ => ⟨hcl, hready⟩, hfin⟩
  | @stampNew b item b' hout =>
    have hsource := hpacer.2.1
    have hhanded := handed_snoc { s.sh with tick := (attachTick s.sh.tick env.now item.buf).1 } hout
    refine ⟨?_, hle, hreached, trivial, hclosed', hnew, fun hfull => ?_⟩
    · dsimp only
      -- the item moves from the front of the pipeline to the end of what was handed over
      have hone : newSeqs [(attachTick s.sh.tick env.now item.buf).2.take item.size] =
          newSeqs [item.pdu] := by
        simp only [newSeqs, List.filterMap_cons, newSeq_attachTick _ _ hsource, Prefetched.pdu]
      rw [hhanded, newSeqs_append, hone, List.append_assoc, ← newSeqs_append]
      exact horder
    · dsimp only
      rw [hhanded]
      exact (hfin hfull).snoc fun heq => absurd heq (fromSource_attachTick _ _ hsource).ne_fin
  | fin hdone hempty =>
    obtain ⟨hcl, hready⟩ := hnew hdone
    refine ⟨?_, hle, hreached, trivial, hclosed', hnew, fun hfull => ?_⟩
    · dsimp only
      rw [handed_fin, newSeqs_snoc_none newSeq_finPdu]
      exact horder
    · dsimp only
      rw [handed_fin]
      refine (hfin hfull).snoc fun _ => ?_
      -- the channel is closed and empty: the prefetch thread is through, and nothing is in between
      rw [hclosed hcl] at hreached horder
      rw [← hreached hfull, ← horder, hready]
      simp [PacerPc.item, PrefetchPc.item, newSeqs]

theorem injecting_step {act : Action} (hinv : ∃ k, Injecting cfg full k s)
    (hok : SenderInv prim cfg s) (hC : full → PrefetchUnbroken cfg s act)
    (h : step prim cfg s act = some t) : ∃ k, Injecting cfg full k t := by
  obtain ⟨k, hinv⟩ := hinv
  cases step_move h with
  | prefetch hp => exact injecting_prefetch hinv hC hp
  | pacer hp => exact ⟨k, injecting_pacer hinv hok hp⟩
  | feedback hp =>
    have hframe := feedbackStep_frame hp
    obtain ⟨horder, hle, hreached, hrex, hclosed, hnew, hfin⟩ := hinv
    refine ⟨k, ?_, hle, hreached, hrex, ?_, ?_, ?_⟩
    · dsimp only [pipeline, handed]
      rw [hframe.ready, hframe.wire]
      exact horder
    · dsimp only
      rwa [hframe.readyClosed]
    · dsimp only
      rwa [hframe.readyClosed, hframe.ready]
    · dsimp only [handed]
      rwa [hframe.wire]
  | join hpc =>
    obtain ⟨horder, hle, hreached, hrex, hclosed, hnew, hfin⟩ := hinv
    simp only [pipeline, hpc] at horder hfin
    exact ⟨k, horder, hle, hreached, trivial, hclosed, hnew, hfin⟩
  | flags =>
    exact ⟨k, hinv.order, hinv.le, hinv.reached, hinv.rex, hinv.closed, hinv.newDone, hinv.fin⟩

/-! ## Runs -/

theorem injecting_new : Injecting cfg full 0 (newSender cfg) := by
  refine ⟨?_, Nat.zero_le _, rfl, ?_, nofun, nofun, fun _ earlier later heq => ?_⟩
  · simp only [newSender]
    split_ifs <;> rfl
  · simp only [newSender]
    split_ifs <;> trivial
  · have hnil : handed (newSender cfg).sh (newSender cfg).pacerPc = [] := by
      simp only [newSender]
      split_ifs <;> rfl
    rw [hnil] at heq
    exact absurd heq.symm (List.append_ne_nil_of_right_ne_nil _ (List.cons_ne_nil _ _))

variable (full) in
theorem injecting_run {C : State → Action → Prop} {as : List Action}
    (hC : ∀ s act, C s act → full → PrefetchUnbroken cfg s act)
    (h : Steps (step prim cfg) C (newSender cfg) as t) : ∃ k, Injecting cfg full k t := by
  have hboth := h.invariant (I := fun s => SenderInv prim cfg s ∧ ∃ k, Injecting cfg full k s)
    (fun s act _ hinv hact hstep =>
      ⟨senderInv_step hinv.1 hstep, injecting_step hinv.2 hinv.1 (hC s act hact) hstep⟩)
    ⟨senderInv_new, 0, injecting_new⟩
  exact hboth.2

/-- **New blocks and the FIN.** In every run the new blocks handed over are `0, 1, 2, …` in order,
each once, and a FIN handed over in a run whose prefetch thread is not cut short has all of them in
front of it. -/
theorem fin_truthful :
    (∀ as t, Steps (step prim cfg) Any (newSender cfg) as t →
      ∃ k ≤ cfg.totalBlocks.toNat, newSeqs (handed t.sh t.pacerPc) = firstBlocks k) ∧
    (∀ as t, Steps (step prim cfg) (PrefetchUnbroken cfg) (newSender cfg) as t →
      FinAfterAll cfg (handed t.sh t.pacerPc)) := by
  constructor
  · intro as t hrun
    obtain ⟨k, hinv⟩ := injecting_run False (fun _ _ _ => False.elim) hrun
    obtain ⟨heq, hle⟩ := eq_firstBlocks_of_append hinv.order
    exact ⟨_, hle.trans hinv.le, heq⟩
  · intro as t hrun
    obtain ⟨k, hinv⟩ := injecting_run True (fun _ _ hact _ => hact) hrun
    exact hinv.fin trivial

/-- The only block is read and handed over, and then the FIN. -/
def oneBlockActs : List Action :=
  List.replicate 5 (.prefetch {}) ++ List.replicate 16 (.pacer {})

theorem fin_truthful_sealedByte : ∃ t d,
    Steps (step sealedBytePrims sealedByte) (PrefetchUnbroken sealedByte) (newSender sealedByte)
      oneBlockActs t ∧ handed t.sh t.pacerPc = [d, finPdu sealedByte] ∧ newSeqs [d] = [0] := by
  obtain ⟨t, hrun, hQ⟩ := steps_of_exec_check (step sealedBytePrims sealedByte)
    (newSender sealedByte) oneBlockActs (PrefetchUnbroken sealedByte)
    (fun t => (handed t.sh t.pacerPc).length == 2 &&
      (handed t.sh t.pacerPc).getLast? == some (finPdu sealedByte)) (by decide +kernel)
  simp only [Bool.and_eq_true, beq_iff_eq] at hQ
  obtain ⟨d, e, hde⟩ := List.length_eq_two.mp hQ.1
  rw [hde] at hQ
  obtain rfl : e = finPdu sealedByte := Option.some.inj hQ.2
  exact ⟨t, d, hrun, hde, fin_truthful.2 _ t hrun [d] [] hde⟩

/-- The read of the only block fails; the pacing loop then finds the channel disconnected. -/
def failedReadActs : List Action :=
  [.prefetch {}, .prefetch {}, .prefetch { readErr := some [] }] ++ List.replicate 10 (.pacer {})

/-- A FIN for a file of one block, of which nothing was handed over. -/
theorem fin_without_blocks : ∃ t,
    Steps (step sealedBytePrims sealedByte) Any (newSender sealedByte) failedReadActs t ∧
      sealedByte.totalBlocks = 1 ∧ t.sh.wire = [finPdu sealedByte] ∧
      ¬ FinAfterAll sealedByte (handed t.sh t.pacerPc) := by
  obtain ⟨t, hrun, hQ⟩ := steps_of_exec_check (step sealedBytePrims sealedByte)
    (newSender sealedByte) failedReadActs Any
    (fun t => t.sh.wire == [finPdu sealedByte] && t.pacerPc.out == []) (by decide +kernel)
  simp only [Bool.and_eq_true, beq_iff_eq] at hQ
  refine ⟨t, hrun, rfl, hQ.1, fun hall => ?_⟩
  have hnone := hall [] [] (by rw [handed, hQ.1, hQ.2]; rfl)
  cases hnone

end Girth.Sender
