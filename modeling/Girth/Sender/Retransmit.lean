import Girth.Sender.Nacks

/-!
# Retransmissions

What the pacing loop sends again, and when. A retransmission is the original PDU with the retransmit
flag and the `rex_index` set, from whatever buffers the two were built in
(`retransmission_eq_original`).

The queue is a heap and a set. `queued` is what it is for: the blocks whose last event, a NACK or a
pop, is a NACK. `RexQueue.Correct` says that the two structures hold exactly these blocks and that
pops come out smallest first; `correct_run` has it for every sequence of pushes and pops, and
`rex_run` says that the queue of a running sender only ever goes through such a sequence.
-/

namespace Girth.Sender

open Lib

/-! ## The PDU of a retransmission -/

section pdu

variable {prim : Primitives} {cfg : SendConfig} {seq : UInt64} {buf buf' : Bytes}

theorem getElem?_flags (h : DataHeader) (flags : UInt8) (rest : Bytes) {i : Nat} (hi : i ≠ 1) :
    ({ h with flags := flags }.bytes ++ rest)[i]? = (h.bytes ++ rest)[i]? := by
  have hlen : [flags].length = [h.flags].length := rfl
  exact getElem?_middle [pduData] (h.bytes.drop 2 ++ rest) hlen (by simp; omega)

theorem getElem?_rexIndex (h : DataHeader) (rexIndex : Int64) (rest : Bytes) {i : Nat}
    (hi : ¬ (24 ≤ i ∧ i < 32)) :
    ({ h with rexIndex := rexIndex }.bytes ++ rest)[i]? = (h.bytes ++ rest)[i]? := by
  have hlen : (leBytes 8 rexIndex.toUInt64.toNat).length =
      (leBytes 8 h.rexIndex.toUInt64.toNat).length := rfl
  exact getElem?_middle (h.bytes.take 24) (h.bytes.drop 32 ++ rest) hlen
    (by simp [dataHeaderSize]; omega)

theorem pduHeader_retransmit (payload : Bytes) (rexIndex : Int64) :
    pduHeader prim cfg seq payload flagRetransmit rexIndex =
      { pduHeader prim cfg seq payload 0 0 with
        flags := (pduHeader prim cfg seq payload 0 0).flags ||| flagRetransmit
        rexIndex := rexIndex } := by
  have hflags : (if seq = cfg.totalBlocks - 1 then flagRetransmit ||| flagLastBlock
      else flagRetransmit) =
      (if seq = cfg.totalBlocks - 1 then 0 ||| flagLastBlock else 0) ||| flagRetransmit := by
    split_ifs <;> decide
  simp only [pduHeader, hflags]

theorem pduHeader_flags (prim : Primitives) (cfg : SendConfig) (seq : UInt64) (payload : Bytes) :
    (pduHeader prim cfg seq payload 0 0).flags = 0 ∨
      (pduHeader prim cfg seq payload 0 0).flags = flagLastBlock := by
  show (if seq = cfg.totalBlocks - 1 then 0 ||| flagLastBlock else (0 : UInt8)) = 0 ∨
    (if seq = cfg.totalBlocks - 1 then 0 ||| flagLastBlock else (0 : UInt8)) = flagLastBlock
  split_ifs
  · exact .inr (by decide)
  · exact .inl rfl

/-- A block that starts inside the file has room in a pooled buffer, so it is built exactly when the
source has it. -/
theorem buildPdu_iff_block {flags : UInt8} {rexIndex : Int64} (hbuf : buf.length = bufLen cfg)
    (hle : plen cfg seq ≤ cfg.blockSize) :
    (∃ item sealed, buildPdu prim cfg {} buf seq flags rexIndex = .pdu item sealed) ↔
      (blockOf cfg seq).isSome = true := by
  constructor
  · rintro ⟨item, sealed, h⟩
    obtain ⟨payload, hread, -⟩ := buildPdu_read h
    rw [hread]
    rfl
  · intro hsome
    obtain ⟨payload, hread⟩ := Option.isSome_iff_exists.mp hsome
    rw [blockOf] at hread
    have hroom : ¬ dataHeaderSize + plen cfg seq > buf.length := by
      rw [hbuf, bufLen]
      omega
    simp only [buildPdu, if_neg hroom, hread, finishPdu]
    split
    · exact ⟨_, _, rfl⟩
    · exact ⟨_, _, rfl⟩

/-- Whatever is built for a block, from whatever buffer, has the bytes of the source behind its header
and makes the same call of `seal_data`. -/
theorem pdu_of_buildPdu {env : ReadEnv} {flags : UInt8} {rexIndex : Int64} {item : Prefetched}
    {sealed : Option Seal} {payload : Bytes} (hbuf : buf.length = bufLen cfg)
    (hread : blockOf cfg seq = some payload)
    (h : buildPdu prim cfg env buf seq flags rexIndex = .pdu item sealed) :
    item.pdu = (pduHeader prim cfg seq payload flags rexIndex).bytes ++ body prim cfg seq payload ∧
      sealed = cfg.crypto.map fun box => sealOf prim box seq payload := by
  obtain ⟨p, hp, -, hbytes, -, -⟩ := buildPdu_bytes hbuf h
  obtain rfl : p = payload := Option.some.inj (hp.symm.trans hread)
  obtain ⟨q, hq, hseal⟩ := seal_of_buildPdu h
  obtain rfl : q = p := Option.some.inj (hq.symm.trans hread)
  exact ⟨hbytes, hseal⟩

theorem fillRetransmit_of_lt (hpos : 1 ≤ cfg.blockSize)
    (hin : seq.toNat * cfg.blockSize < cfg.fileSize.toNat) (env : ReadEnv) (b : Bytes) :
    fillRetransmit prim cfg env b seq = buildPdu prim cfg env b seq flagRetransmit seq.toInt64 := by
  have hplen := plen_of_lt hin
  have hfs := cfg.fileSize_lt
  have hoff : (off cfg seq).toNat = seq.toNat * cfg.blockSize := off_toNat (by omega)
  have hrem : rem cfg seq = cfg.fileSize - (off cfg seq).toNat := rem_of_lt (by omega) (by omega)
  exact if_neg (by omega)

/-- **A retransmission equals the original.** Whatever the two buffers held before, the PDU that
`fill_retransmit` builds for a block and the one that `prefetch` builds for it have the same length
and the same bytes, apart from the retransmit flag in byte 1 and the loss index in bytes 24 to 31; so
payload, length, checksum, session, sequence number and last-block flag agree, and with them the call
of `seal_data`. Each is built exactly when the source has the block. -/
theorem retransmission_eq_original (hpos : 1 ≤ cfg.blockSize) (hmax : cfg.blockSize ≤ 65455)
    (htotal : cfg.totalBlocks.toNat = numBlocks cfg.fileSize cfg.blockSize)
    (hseq : seq < cfg.totalBlocks) (hbuf : buf.length = bufLen cfg)
    (hbuf' : buf'.length = bufLen cfg) :
    (∀ env env' item item' sealed sealed', prefetchPdu prim cfg env buf seq = .pdu item sealed →
      fillRetransmit prim cfg env' buf' seq = .pdu item' sealed' →
        item'.pdu.length = item.pdu.length ∧
        (∀ i, i ≠ 1 → ¬ (24 ≤ i ∧ i < 32) → item'.pdu[i]? = item.pdu[i]?) ∧
        getU8 item.pdu 1 &&& flagRetransmit = 0 ∧
        getU8 item'.pdu 1 = getU8 item.pdu 1 ||| flagRetransmit ∧
        item'.pdu.drop dataHeaderSize = item.pdu.drop dataHeaderSize ∧ sealed' = sealed ∧
        ∃ h h', decodeDataHeader item.pdu = some h ∧ decodeDataHeader item'.pdu = some h' ∧
          h.payloadLen.toNat = plen cfg seq ∧ h'.payloadLen = h.payloadLen ∧
          h'.payloadCrc = h.payloadCrc ∧ h'.session = h.session ∧ h'.blockSeq = h.blockSeq ∧
          h'.flags &&& flagLastBlock = h.flags &&& flagLastBlock) ∧
      ((∃ item sealed, prefetchPdu prim cfg {} buf seq = .pdu item sealed) ↔
        (blockOf cfg seq).isSome = true) ∧
      ((∃ item sealed, fillRetransmit prim cfg {} buf' seq = .pdu item sealed) ↔
        (blockOf cfg seq).isSome = true) := by
  have hin : seq.toNat * cfg.blockSize < cfg.fileSize.toNat := by
    rw [UInt64.lt_iff_toNat_lt, htotal] at hseq
    exact (lt_numBlocks_iff hpos).mp hseq
  have hplen := plen_of_lt hin
  have hfill : ∀ env b, fillRetransmit prim cfg env b seq =
      buildPdu prim cfg env b seq flagRetransmit seq.toInt64 := fillRetransmit_of_lt hpos hin
  refine ⟨?_, buildPdu_iff_block hbuf (by omega), ?_⟩
  · intro env env' item item' sealed sealed' h h'
    rw [hfill] at h'
    obtain ⟨payload, hread, -⟩ := buildPdu_read h
    obtain ⟨hd, hseal⟩ := pdu_of_buildPdu hbuf hread h
    obtain ⟨hd', hseal'⟩ := pdu_of_buildPdu hbuf' hread h'
    have hlen : payload.length = plen cfg seq := cfg.source.read_length hread
    have hflags := pduHeader_flags prim cfg seq payload
    have hhdr : (pduHeader prim cfg seq payload 0 0).payloadLen.toNat = payload.length := by
      show (UInt16.ofNat _).toNat = _
      rw [UInt16.toNat_ofNat', Nat.mod_eq_of_lt (by omega)]
    rw [pduHeader_retransmit] at hd'
    rw [hd, hd']
    generalize pduHeader prim cfg seq payload 0 0 = hdr at hhdr hflags
    refine ⟨by simp, ?_, ?_, rfl, rfl, hseal'.trans hseal.symm, hdr, _, decodeDataHeader_bytes _ _,
      decodeDataHeader_bytes _ _, hhdr.trans hlen, rfl, rfl, rfl, rfl, ?_⟩
    · intro i h1 hrex
      exact (getElem?_rexIndex { hdr with flags := hdr.flags ||| flagRetransmit } _ _ hrex).trans
        (getElem?_flags hdr _ _ h1)
    · show hdr.flags &&& flagRetransmit = 0
      rcases hflags with h | h <;> rw [h] <;> decide
    · show (hdr.flags ||| flagRetransmit) &&& flagLastBlock = hdr.flags &&& flagLastBlock
      rcases hflags with h | h <;> rw [h] <;> decide
  · simp only [hfill]
    exact buildPdu_iff_block hbuf' (by omega)

theorem retransmission_eq_original_threeBytes : ∃ item item' sealed,
    prefetchPdu sealedBytePrims threeBytes {} (List.replicate 54 0) 1 = .pdu item sealed ∧
      fillRetransmit sealedBytePrims threeBytes {} (List.replicate 54 255) 1 = .pdu item' sealed ∧
      item'.pdu.length = item.pdu.length ∧
      getU8 item'.pdu 1 = getU8 item.pdu 1 ||| flagRetransmit ∧
      item'.pdu.drop dataHeaderSize = item.pdu.drop dataHeaderSize := by
  have hbuf : ∀ v : UInt8, (List.replicate 54 v).length = bufLen threeBytes :=
    fun v => List.length_replicate
  obtain ⟨hsame, hnew, hrex⟩ := retransmission_eq_original (by decide) (by decide) (by decide)
    (by decide : (1 : UInt64) < threeBytes.totalBlocks) (hbuf 0) (hbuf 255)
  obtain ⟨item, sealed, hitem⟩ := hnew.mpr (by decide)
  obtain ⟨item', sealed', hitem'⟩ := hrex.mpr (by decide)
  obtain ⟨hlen, -, -, hflags, hbody, rfl, -⟩ := hsame _ _ _ _ _ _ hitem hitem'
  exact ⟨item, item', sealed', hitem, hitem', hlen, hflags, hbody⟩

end pdu

/-! ## The queue -/

/-- What happens to a block in the queue. -/
inductive RexEvent
  | nacked (seq : UInt64)
  | popped (seq : UInt64)
  deriving DecidableEq

/-- The blocks NACKed and not popped since; the events are newest first. -/
def queued : List RexEvent → Finset UInt64
  | [] => ∅
  | .nacked seq :: log => insert seq (queued log)
  | .popped seq :: log => (queued log).erase seq

/-- How often a block has come into the queue: the NACKs that found it not queued. -/
def stays (seq : UInt64) : List RexEvent → Nat
  | [] => 0
  | .nacked s :: log => stays seq log + if s = seq ∧ seq ∉ queued log then 1 else 0
  | .popped _ :: log => stays seq log

/-- A queue with what has happened to it. -/
structure RexRun where
  q : RexQueue := {}
  log : List RexEvent := []

/-- A call of `push_retransmits` or `pop_retransmit`. -/
inductive RexOp
  | push (nacks : List NackEntry)
  | pop

namespace RexRun

def nack (r : RexRun) (n : NackEntry) : RexRun := ⟨r.q.push n.blockSeq, .nacked n.blockSeq :: r.log⟩

def step (r : RexRun) : RexOp → Option RexRun
  | .push nacks => some (nacks.foldl nack r)
  | .pop =>
    match r.q.pop with
    | some (seq, q) => some ⟨q, .popped seq :: r.log⟩
    | none => some r

theorem foldl_nack_q (nacks : List NackEntry) (r : RexRun) :
    (nacks.foldl nack r).q = r.q.pushAll nacks := by
  induction nacks generalizing r with
  | nil => rfl
  | cons n nacks ih => exact ih (r.nack n)

/-- The heap holds exactly the elements of the set, each once, and these are the queued blocks; every
block popped was the smallest one queued; and every stay in the queue that is over ended with one
pop. -/
structure Correct (r : RexRun) : Prop where
  sorted : r.q.heap.Pairwise (· ≤ ·)
  nodup : r.q.heap.Nodup
  mem : ∀ seq, seq ∈ r.q.heap ↔ seq ∈ r.q.set
  queued : r.q.set = queued r.log
  least : ∀ newer seq older, r.log = newer ++ .popped seq :: older →
    seq ∈ Sender.queued older ∧ ∀ x ∈ Sender.queued older, seq ≤ x
  stays : ∀ seq, stays seq r.log = r.log.count (.popped seq) + if seq ∈ r.q.set then 1 else 0

variable {r r' : RexRun}

theorem Correct.nack (h : Correct r) (n : NackEntry) : Correct (r.nack n) := by
  have hleast : ∀ newer seq older, (r.nack n).log = newer ++ .popped seq :: older →
      seq ∈ Sender.queued older ∧ ∀ x ∈ Sender.queued older, seq ≤ x := by
    intro newer seq older hlog
    cases newer with
    | nil => cases hlog
    | cons e newer => exact h.least newer seq older (List.cons.inj hlog).2
  by_cases hmem : n.blockSeq ∈ r.q.set
  · -- it is queued already, and stays so
    have hq : (r.nack n).q = r.q := if_pos hmem
    have hin : n.blockSeq ∈ Sender.queued r.log := h.queued ▸ hmem
    refine ⟨hq ▸ h.sorted, hq ▸ h.nodup, hq ▸ h.mem, ?_, hleast, ?_⟩
    · rw [hq, h.queued]
      exact (Finset.insert_eq_of_mem hin).symm
    · intro seq
      have hno : ¬ (n.blockSeq = seq ∧ seq ∉ Sender.queued r.log) := by
        rintro ⟨rfl, hnot⟩
        exact hnot hin
      rw [hq]
      simp only [RexRun.nack, Sender.stays, if_neg hno, h.stays seq]
      simp
  · have hq : (r.nack n).q = ⟨r.q.heap.orderedInsert (· ≤ ·) n.blockSeq, insert n.blockSeq r.q.set⟩ :=
      if_neg hmem
    have hperm : (r.q.heap.orderedInsert (· ≤ ·) n.blockSeq).Perm (n.blockSeq :: r.q.heap) :=
      List.perm_orderedInsert _ _ _
    have hout : n.blockSeq ∉ Sender.queued r.log := h.queued ▸ hmem
    refine ⟨?_, ?_, ?_, ?_, hleast, ?_⟩
    · rw [hq]
      exact h.sorted.orderedInsert _ _
    · rw [hq]
      exact hperm.nodup_iff.mpr (List.nodup_cons.mpr ⟨fun hin => hmem ((h.mem _).mp hin), h.nodup⟩)
    · intro seq
      rw [hq, hperm.mem_iff, List.mem_cons, Finset.mem_insert, h.mem]
    · rw [hq]
      exact congrArg (insert n.blockSeq) h.queued
    · intro seq
      rw [hq]
      simp only [RexRun.nack, Sender.stays, h.stays seq, Finset.mem_insert]
      by_cases hseq : n.blockSeq = seq
      · subst hseq
        simp [hmem, hout]
      · simp [hseq, Ne.symm hseq]

theorem Correct.pop (h : Correct r) {seq : UInt64} {q : RexQueue}
    (hpop : r.q.pop = some (seq, q)) : Correct ⟨q, .popped seq :: r.log⟩ := by
  unfold RexQueue.pop at hpop
  split at hpop
  · cases hpop
  · rename_i x heap hheap
    cases hpop
    have hsorted := h.sorted
    have hnodup := h.nodup
    rw [hheap] at hsorted hnodup
    have hmem : ∀ x, x ∈ r.q.set ↔ x = seq ∨ x ∈ heap := fun x => by
      rw [← h.mem, hheap, List.mem_cons]
    have hin : seq ∈ r.q.set := (hmem seq).mpr (.inl rfl)
    refine ⟨hsorted.of_cons, hnodup.of_cons, ?_, ?_, ?_, ?_⟩
    · intro x
      rw [Finset.mem_erase, hmem]
      constructor
      · intro hx
        exact ⟨fun heq => (List.nodup_cons.mp hnodup).1 (heq ▸ hx), .inr hx⟩
      · rintro ⟨hne, hx⟩
        exact hx.resolve_left hne
    · exact congrArg (·.erase seq) h.queued
    · intro newer y older hlog
      cases newer with
      | nil =>
        -- the pop itself: the head of a sorted heap
        obtain ⟨hy, rfl⟩ := List.cons.inj hlog
        cases hy
        refine ⟨h.queued ▸ hin, ?_⟩
        intro x hx
        rw [← h.queued, hmem] at hx
        rcases hx with rfl | hx
        · exact UInt64.le_refl x
        · exact List.rel_of_pairwise_cons hsorted hx
      | cons e newer => exact h.least newer y older (List.cons.inj hlog).2
    · intro y
      simp only [Sender.stays, h.stays y, Finset.mem_erase]
      by_cases hy : y = seq
      · subst hy
        simp [hin]
      · simp [hy, Ne.symm hy]

theorem correct_step {op : RexOp} (h : Correct r) (hstep : r.step op = some r') : Correct r' := by
  cases op with
  | push nacks =>
    cases hstep
    induction nacks generalizing r with
    | nil => exact h
    | cons n nacks ih => exact ih (h.nack n)
  | pop =>
    simp only [step] at hstep
    split at hstep
    · rename_i hpop
      cases hstep
      exact h.pop hpop
    · cases hstep
      exact h

theorem correct_new : Correct {} := by
  refine ⟨.nil, .nil, fun _ => Iff.rfl.trans (by simp), rfl, ?_, fun _ => rfl⟩
  intro newer seq older hlog
  cases newer <;> cases hlog

theorem correct_run {ops : List RexOp} (h : Steps step Any {} ops r) : Correct r :=
  h.invariant (fun _ _ _ hinv _ hstep => correct_step hinv hstep) correct_new

theorem Correct.pop_eq_none_iff (h : Correct r) :
    r.q.pop = none ↔ Sender.queued r.log = ∅ := by
  rw [← h.queued]
  unfold RexQueue.pop
  constructor
  · intro hnone
    split at hnone
    · rename_i hheap
      exact Finset.eq_empty_of_forall_notMem fun x hx => by simpa [hheap] using (h.mem x).mpr hx
    · cases hnone
  · intro hempty
    cases hheap : r.q.heap with
    | nil => rfl
    | cons x heap =>
      have hx : x ∈ r.q.set := (h.mem x).mp (hheap ▸ List.mem_cons_self)
      simp [hempty] at hx

end RexRun

/-! ## The queue of a running sender -/

section run

variable {prim : Primitives} {cfg : SendConfig} {s t : State} {act : Action} {as : List Action}
  {b : Batch}

theorem rex_step (h : step prim cfg s act = some t) (r : RexRun) (hr : r.q = s.sh.rex) :
    ∃ ops r', Steps RexRun.step Any r ops r' ∧ r'.q = t.sh.rex := by
  have hsame : t.sh.rex = s.sh.rex → ∃ ops r', Steps RexRun.step Any r ops r' ∧ r'.q = t.sh.rex :=
    fun heq => ⟨[], r, .nil r, hr.trans heq.symm⟩
  cases step_move h with
  | prefetch hp => exact hsame (prefetchStep_frame hp).rex
  | pacer hp =>
    have hmove := pacerStep_move hp
    generalize s.pacerPc = pc₀ at hmove
    cases hmove with
    | quiet _ _ _ _ _ hrex => exact hsame hrex
    | @pop _ _ _ seq rex _ hpop _ _ hrex =>
      refine ⟨[.pop], ⟨rex, .popped seq :: r.log⟩, .single trivial ?_, hrex.symm⟩
      simp only [RexRun.step, hr, hpop]
    | fill | stampRex | take | exhausted | stampNew | fin => exact hsame rfl
  | feedback hp =>
    have hmove := feedbackStep_move hp
    generalize s.feedback = pc₀ at hmove
    cases hmove with
    | quiet _ _ _ hrex => exact hsame hrex
    | @pushNacks _ nacks _ _ _ hrex =>
      refine ⟨[.push nacks], nacks.foldl RexRun.nack r, .single trivial rfl, ?_⟩
      rw [RexRun.foldl_nack_q, hr]
      exact hrex.symm
    | storeRate _ _ hrex => exact hsame hrex
    | arrive | setTick => exact hsame rfl
  | join | flags => exact hsame rfl

theorem rex_run (h : Steps (step prim cfg) Any (newSender cfg) as t) :
    ∃ ops r, Steps RexRun.step Any {} ops r ∧ r.q = t.sh.rex := by
  refine h.invariant (I := fun t => ∃ ops r, Steps RexRun.step Any {} ops r ∧ r.q = t.sh.rex) ?_
    ⟨[], {}, .nil _, rfl⟩
  rintro s act t ⟨ops, r, hrun, hr⟩ - hstep
  obtain ⟨ops', r', hrun', hr'⟩ := rex_step hstep r hr
  exact ⟨ops ++ ops', r', hrun.append hrun', hr'⟩

/-! ## New blocks come second -/

def Action.isPacer : Action → Bool
  | .pacer _ => true
  | .prefetch _ | .feedback _ | .join | .stop | .control _ => false

theorem Action.eq_pacer {act : Action} (h : act.isPacer = true) : ∃ env, act = .pacer env := by
  cases act with
  | pacer env => exact ⟨env, rfl⟩
  | _ => cases h

theorem pacerStep_tryRecv {sh sh' : Shared} {env : Env} {p p' : Pacer} {pc : PacerPc}
    (h : pacerStep prim cfg sh env p pc = some (sh', p', .tryRecv b)) :
    pc = .build b ∧ sh.rex.pop = none := by
  cases pacerStep_cases h with
  | seek _ hpop => exact ⟨rfl, hpop⟩

theorem step_pacerPc (h : step prim cfg s act = some t) (hact : act.isPacer = false) :
    t.pacerPc = s.pacerPc ∨ ∃ res, t.pacerPc = .returned res := by
  cases step_move h with
  | pacer => cases hact
  | prefetch | feedback | flags => exact .inl rfl
  | join => exact .inr ⟨_, rfl⟩

/-- Since the last step of the pacing loop, which popped and found the queue empty, only other
threads have moved. -/
def EmptyPop (prim : Primitives) (cfg : SendConfig) (as : List Action) (b : Batch) (t : State) :
    Prop :=
  ∃ before env after u v, as = before ++ .pacer env :: after ∧
    Steps (step prim cfg) Any (newSender cfg) before u ∧ u.pacerPc = .build b ∧
    u.sh.rex.pop = none ∧ step prim cfg u (.pacer env) = some v ∧
    Steps (step prim cfg) (fun _ act => act.isPacer = false) v after t

theorem emptyPop_run (h : Steps (step prim cfg) Any (newSender cfg) as t) :
    t.pacerPc = .tryRecv b → EmptyPop prim cfg as b t := by
  refine h.invariant_of_history (I := fun as t => t.pacerPc = .tryRecv b → EmptyPop prim cfg as b t)
    ?_ ?_
  · intro before u act v hrun hinv _ hstep hpc
    cases hact : act.isPacer with
    | true =>
      obtain ⟨env, rfl⟩ := Action.eq_pacer hact
      obtain ⟨⟨sh, p, pc⟩, hp, rfl⟩ := Option.map_eq_some_iff.mp hstep
      obtain rfl : pc = .tryRecv b := hpc
      obtain ⟨hbuild, hpop⟩ := pacerStep_tryRecv hp
      exact ⟨before, env, [], u, _, rfl, hrun, hbuild, hpop, hstep, .nil _⟩
    | false =>
      have hold : u.pacerPc = .tryRecv b := by
        rcases step_pacerPc hstep hact with heq | ⟨res, hres⟩
        · exact heq ▸ hpc
        · rw [hpc] at hres
          cases hres
      obtain ⟨before', env, after, u', v', rfl, hrun', hbuild, hpop, hstep', hafter⟩ := hinv hold
      exact ⟨before', env, after ++ [act], u', v', by simp, hrun', hbuild, hpop, hstep',
        hafter.append (.single hact hstep)⟩
  · intro hpc
    simp only [newSender] at hpc
    split_ifs at hpc

theorem tryRecv_of_ready_lt (h : step prim cfg s act = some t)
    (hlt : t.sh.ready.length < s.sh.ready.length) : ∃ b, s.pacerPc = .tryRecv b := by
  cases step_move h with
  | prefetch hp =>
    have hmove := prefetchStep_move hp
    generalize s.prefetch = pc₀ at hmove
    cases hmove <;> simp [Shared.record] at hlt
  | pacer hp =>
    have hmove := pacerStep_move hp
    generalize s.pacerPc = pc₀ at hmove
    cases hmove with
    | quiet _ _ _ _ hready => simp [hready] at hlt
    | pop _ _ _ hready => simp [hready] at hlt
    | take => exact ⟨_, rfl⟩
    | fill | stampRex | exhausted | stampNew | fin => simp [Shared.record] at hlt
  | feedback hp =>
    have hframe := feedbackStep_frame hp
    simp [hframe.ready] at hlt
  | join | flags => simp at hlt

/-- **The retransmit queue.** After every sequence of pushes and pops the heap and the set hold the
same blocks, each once: those NACKed and not popped since. Every pop took the smallest of them and
ended its stay, and a pop fails only when nothing is queued. The pacing loop takes a new block from
the ready channel only when its last pop, the step before, found the queue empty. -/
theorem retransmit_queue_correct :
    (∀ ops r, Steps RexRun.step Any {} ops r →
      r.Correct ∧ (r.q.pop = none ↔ queued r.log = ∅)) ∧
    ∀ prim cfg as t, Steps (step prim cfg) Any (newSender cfg) as t →
      (∃ ops r, Steps RexRun.step Any {} ops r ∧ r.q = t.sh.rex) ∧
      ∀ act t', step prim cfg t act = some t' → t'.sh.ready.length < t.sh.ready.length →
        ∃ b, t.pacerPc = .tryRecv b ∧ EmptyPop prim cfg as b t := by
  refine ⟨?_, ?_⟩
  · intro ops r hrun
    have hcorrect := RexRun.correct_run hrun
    exact ⟨hcorrect, hcorrect.pop_eq_none_iff⟩
  · intro prim cfg as t hrun
    refine ⟨rex_run hrun, ?_⟩
    intro act t' hstep hlt
    obtain ⟨b, hpc⟩ := tryRecv_of_ready_lt hstep hlt
    exact ⟨b, hpc, emptyPop_run hrun hpc⟩

/-- Blocks 3 and 1 are asked for, 3 twice; 1 is popped, asked for again and popped again before 3. -/
theorem retransmit_queue_correct_twice : ∃ r,
    Steps RexRun.step Any {} [.push [⟨3, 3⟩, ⟨1, 1⟩, ⟨3, 3⟩], .pop, .push [⟨1, 1⟩], .pop, .pop, .pop] r ∧
      r.Correct ∧ r.q.pop = none ∧ r.log = [.popped 3, .popped 1, .nacked 1, .popped 1, .nacked 3,
        .nacked 1, .nacked 3] := by
  obtain ⟨r, hrun, hlog⟩ := steps_of_exec_check RexRun.step {}
    [.push [⟨3, 3⟩, ⟨1, 1⟩, ⟨3, 3⟩], .pop, .push [⟨1, 1⟩], .pop, .pop, .pop] Any
    (fun r => r.log == [.popped 3, .popped 1, .nacked 1, .popped 1, .nacked 3, .nacked 1, .nacked 3])
    (by decide +kernel)
  have hlog := eq_of_beq hlog
  obtain ⟨hcorrect, hpop⟩ := retransmit_queue_correct.1 _ r hrun
  exact ⟨r, hrun, hcorrect, hpop.mpr (by rw [hlog]; decide +kernel), hlog⟩

end run

end Girth.Sender
