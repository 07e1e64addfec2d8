import Girth.Lib.Tiling
import Girth.Receiver.Outcome

/-!
# What the receiver writes

The payload a block is written with is the payload of a datagram that was delivered. So a property
`G seq payload` that every acceptable datagram has holds of every packet in a worker's hands, of every
block in its place, and of every write in the history (`carries_run`, `Carries.write`), whatever the
interleaving and whichever way a block went.

Two instances of `G` are used. The length of a block, which `handle_packet` does not check:
`writes_inside_cover` says that when the delivered headers state it, every write lies inside the
object and together they cover it. And, in the end-to-end theorem, the bytes of the source:
`sinkHolds_run` says that the sink then holds every block that was written.
-/

namespace Girth.Receiver

open Lib

variable {prim : Primitives} {cfg : RecvConfig} {n : Nat}

/-! ## Delivered datagrams -/

def Recv.msgs : Recv → List Datagram
  | .batch msgs => msgs
  | .timeout | .fatal => []

/-- The datagrams the network delivers in a step. -/
def Action.delivered : Action n → List Datagram
  | .ingest _ env => env.recv.msgs
  | _ => []

/-- Every datagram delivered in this step satisfies `P`. -/
def Delivers (P : Datagram → Prop) (_ : State cfg n) (act : Action n) : Prop :=
  ∀ m ∈ act.delivered, P m

instance (P : Datagram → Prop) [DecidablePred P] (s : State cfg n) (act : Action n) :
    Decidable (Delivers P s act) :=
  inferInstanceAs (Decidable (∀ m ∈ act.delivered, P m))

/-- The messages of its batch that a worker has not looked at. -/
def IngestPc.pending {total : Nat} : IngestPc total → List Datagram
  | .batch rest | .finLearn _ rest | .finStore rest | .data _ _ rest => rest
  | .top | .recv | .timedOut | .exited => []

def IngestPc.pkt {total : Nat} : IngestPc total → Option (DataPkt total)
  | .data _ pkt _ => some pkt
  | _ => none

theorem dataStep_pending (sh : Shared cfg.totalBlocks) (pkt : DataPkt cfg.totalBlocks)
    (rest : List Datagram) (env : Env) (pc : DataPc) :
    (dataStep cfg sh pkt rest env pc).2.pending = rest ∧
      ∀ p ∈ (dataStep cfg sh pkt rest env pc).2.pkt, p = pkt := by
  have hbatch : (.batch rest : IngestPc cfg.totalBlocks).pending = rest ∧
      ∀ p ∈ (.batch rest : IngestPc cfg.totalBlocks).pkt, p = pkt :=
    ⟨rfl, fun p hp => by cases hp⟩
  have hdata : ∀ pc, (IngestPc.data pc pkt rest).pending = rest ∧
      ∀ p ∈ (IngestPc.data pc pkt rest).pkt, p = pkt :=
    fun pc => ⟨rfl, fun p hp => by cases hp; rfl⟩
  cases pc <;> simp only [dataStep]
  case learn => split_ifs <;> first | exact hbatch | exact hdata _
  case setBm => split_ifs <;> first | exact hbatch | exact hdata _
  case tryPool => split <;> exact hdata _
  case direct => split <;> first | exact hbatch | exact hdata _
  case signal => exact hbatch
  all_goals exact hdata _

theorem ingestStep_pending {sh sh' : Shared cfg.totalBlocks} {env : Env}
    {pc pc' : IngestPc cfg.totalBlocks} (h : ingestStep prim cfg sh env pc = some (sh', pc')) :
    (∀ m ∈ pc'.pending, m ∈ pc.pending ∨ ∃ m' ∈ env.recv.msgs, m = m'.cut cfg.bufLen) ∧
      ∀ pkt ∈ pc'.pkt, pkt ∈ pc.pkt ∨
        ∃ m ∈ pc.pending, cfg.classify prim m.data m.addr = .data pkt := by
  cases pc with
  | data dpc pkt rest =>
    simp only [ingestStep, Option.some.injEq] at h
    obtain ⟨hrest, hpkt⟩ := dataStep_pending sh pkt rest env dpc
    rw [h] at hrest hpkt
    refine ⟨fun m hm => .inl (hrest ▸ hm), fun p hp => .inl ?_⟩
    rw [hpkt p hp]
    rfl
  | batch rest =>
    cases rest with
    | nil =>
      cases h
      exact ⟨fun m hm => (List.not_mem_nil hm).elim, fun p hp => by cases hp⟩
    | cons m rest =>
      have hsub : ∀ m' ∈ rest, m' ∈ m :: rest := fun _ => List.mem_cons_of_mem _
      simp only [ingestStep] at h
      split at h
      · cases h
        exact ⟨fun m' hm => .inl (hsub m' hm), fun p hp => by cases hp⟩
      · split at h <;> cases h
        case h_4 pkt hclass =>
          refine ⟨fun m' hm => .inl (hsub m' hm), fun p hp => .inr ⟨m, List.mem_cons_self, ?_⟩⟩
          cases hp
          exact hclass
        all_goals exact ⟨fun m' hm => .inl (hsub m' hm), fun p hp => by cases hp⟩
  | recv =>
    simp only [ingestStep] at h
    split at h <;> cases h
    case h_1 msgs hrecv =>
      refine ⟨fun m hm => .inr ?_, fun p hp => by cases hp⟩
      obtain ⟨m', hm', rfl⟩ := List.mem_map.mp hm
      rw [hrecv]
      exact ⟨m', hm', rfl⟩
    all_goals exact ⟨fun m hm => (List.not_mem_nil hm).elim, fun p hp => by cases hp⟩
  | exited => cases h
  | top | timedOut =>
    cases h
    refine ⟨fun m hm => ?_, fun p hp => ?_⟩
    · split_ifs at hm <;> exact (List.not_mem_nil hm).elim
    · split_ifs at hp <;> cases hp
  | finLearn addr rest =>
    cases h
    refine ⟨fun m hm => .inl ?_, fun p hp => ?_⟩
    · split_ifs at hm <;> exact hm
    · split_ifs at hp <;> cases hp
  | finStore rest =>
    cases h
    exact ⟨fun m hm => .inl hm, fun p hp => by cases hp⟩

/-! ## What every payload satisfies -/

/-- Messages satisfy `P`, and payloads satisfy `G` wherever they are. -/
structure Carries (P : Datagram → Prop) (G : Nat → Bytes → Prop) (s : State cfg n) : Prop where
  pending : ∀ i, ∀ m ∈ (s.workers i).pending, P m
  held : ∀ i, ∀ pkt ∈ (s.workers i).pkt, G pkt.seq pkt.payload
  place : ∀ b, ∃ c, Tracks b s c ∧ ∀ p ∈ c.payload, G b p

variable {P : Datagram → Prop} {G : Nat → Bytes → Prop} {s t : State cfg n}

theorem pkt_of_holding {total b : Nat} {pc : IngestPc total} {h : Hold} {p : Bytes}
    (hpc : pc.holding b = some (h, p)) : ∃ pkt ∈ pc.pkt, pkt.seq = b ∧ pkt.payload = p := by
  cases pc with
  | data dpc pkt rest =>
    simp only [IngestPc.holding] at hpc
    split at hpc
    · rename_i hseq
      obtain ⟨hold, _, heq⟩ := Option.map_eq_some_iff.mp hpc
      exact ⟨pkt, rfl, hseq, (Prod.mk.inj heq).2⟩
    · cases hpc
  | _ => cases hpc

theorem carries_workers {Q : DataPkt cfg.totalBlocks → Prop} {act : Action n}
    (hclass : ∀ m pkt, P m → cfg.classify prim m.data m.addr = .data pkt → Q pkt)
    (hpending : ∀ i, ∀ m ∈ (s.workers i).pending, P m)
    (hheld : ∀ i, ∀ pkt ∈ (s.workers i).pkt, Q pkt)
    (hdel : Delivers (fun m => P (m.cut cfg.bufLen)) s act) (h : step prim s act = some t) :
    (∀ i, ∀ m ∈ (t.workers i).pending, P m) ∧ ∀ i, ∀ pkt ∈ (t.workers i).pkt, Q pkt := by
  cases step_move h with
  | @ingest i _ _ _ hi =>
    obtain ⟨hmsgs, hpkt⟩ := ingestStep_pending hi
    refine ⟨(Function.forall_update_iff s.workers fun _ pc => ∀ m ∈ pc.pending, P m).mpr
        ⟨fun m hm => ?_, fun j _ => hpending j⟩,
      (Function.forall_update_iff s.workers fun _ pc => ∀ pkt ∈ pc.pkt, Q pkt).mpr
        ⟨fun pkt hp => ?_, fun j _ => hheld j⟩⟩
    · rcases hmsgs m hm with hold | ⟨m', hm', rfl⟩
      · exact hpending i m hold
      · exact hdel m' hm'
    · rcases hpkt pkt hp with hold | ⟨m, hm, hdata⟩
      · exact hheld i pkt hold
      · exact hclass m pkt (hpending i m hm) hdata
  | flusher | feedback | quiet => exact ⟨hpending, hheld⟩

theorem carries_step {act : Action n} (hclass : ∀ m pkt, P m →
      cfg.classify prim m.data m.addr = .data pkt → G pkt.seq pkt.payload) (hinv : Carries P G s)
    (hdel : Delivers (fun m => P (m.cut cfg.bufLen)) s act) (h : step prim s act = some t) :
    Carries P G t := by
  obtain ⟨hpending, hheld⟩ := carries_workers hclass hinv.pending hinv.held hdel h
  refine ⟨hpending, hheld, fun b => ?_⟩
  obtain ⟨c, hc, hG⟩ := hinv.place b
  obtain ⟨c', hmove, hc'⟩ := tracks_step hc h
  refine ⟨c', hc', fun p hp => ?_⟩
  rcases hmove.payload_eq with heq | ⟨i, q, rfl⟩
  · exact hG p (heq ▸ hp)
  · -- the block was accepted in this step, so its worker has the packet
    have hholding : (t.workers i).holding b = some (.accepted, q) := by
      rw [hc'.workers i, Custody.holder, if_pos rfl]
    obtain ⟨pkt, hpkt, rfl, rfl⟩ := pkt_of_holding hholding
    cases hp
    exact hheld i pkt hpkt

theorem carries_run {sink : Sink} {as : List (Action n)} {C : State cfg n → Action n → Prop}
    (hclass : ∀ m pkt, P m → cfg.classify prim m.data m.addr = .data pkt → G pkt.seq pkt.payload)
    (hC : ∀ s act, C s act → Delivers (fun m => P (m.cut cfg.bufLen)) s act)
    (hnew : newReceiver cfg n sink = some s) (h : Steps (step prim) C s as t) : Carries P G t := by
  refine h.invariant (fun s act t hinv hc hstep => carries_step hclass hinv (hC s act hc) hstep) ?_
  refine ⟨?_, ?_, fun b => ⟨_, tracks_new hnew b, fun p hp => by cases hp⟩⟩
  all_goals
    obtain ⟨rate, _, rfl⟩ := Option.map_eq_some_iff.mp hnew
    intro i x hx
    cases hx

theorem Carries.write (h : Carries P G s) {path : WritePath} {seq : Nat} {buf : Bytes}
    {res : WriteResult} (hw : .write path seq buf res ∈ s.sh.trace) : G seq buf := by
  obtain ⟨c, hc, hG⟩ := h.place seq
  have hmem : (path, buf, res) ∈ c.writes := by
    rw [← hc.writes]
    exact mem_writesOf.mpr hw
  exact hG buf (Custody.payload_of_mem_writes hmem)

end Girth.Receiver

namespace Girth

open Lib

/-! ## Lengths -/

/-- The length of block `seq`: a whole block, or what is left of the object. -/
def RecvConfig.blockLen (cfg : RecvConfig) (seq : Nat) : Nat :=
  min cfg.blockSize (cfg.fileSize.toNat - seq * cfg.blockSize)

/-- If the datagram is a DATA PDU that passes the header checks, its header states the length of the
block it names. -/
def RecvConfig.StatesLength (cfg : RecvConfig) (m : Receiver.Datagram) : Prop :=
  ∀ h ∈ decodeDataHeader m.data, h.session = cfg.session → h.blockSeq.toNat < cfg.totalBlocks →
    h.payloadLen.toNat ≤ cfg.blockSize → h.payloadLen.toNat = cfg.blockLen h.blockSeq.toNat

instance (cfg : RecvConfig) : DecidablePred cfg.StatesLength :=
  fun m => inferInstanceAs (Decidable (∀ h ∈ decodeDataHeader m.data, _ → _ → _ → _))

namespace Receiver

variable {prim : Primitives} {cfg : RecvConfig} {n : Nat}

theorem decodeDataHeader_cut (m : Datagram) :
    decodeDataHeader (m.cut cfg.bufLen).data = decodeDataHeader m.data := by
  have hk : dataHeaderSize ≤ cfg.bufLen := by
    simp only [RecvConfig.bufLen]
    omega
  exact decodeDataHeader_take m.data hk

theorem statesLength_cut {m : Datagram} (h : cfg.StatesLength m) :
    cfg.StatesLength (m.cut cfg.bufLen) := by
  unfold RecvConfig.StatesLength
  rw [decodeDataHeader_cut]
  exact h

theorem length_of_statesLength {m : Datagram} {pkt : DataPkt cfg.totalBlocks}
    (hm : cfg.StatesLength m) (hclass : cfg.classify prim m.data m.addr = .data pkt) :
    pkt.seq < cfg.totalBlocks ∧ pkt.payload.length = cfg.blockLen pkt.seq := by
  obtain ⟨hdec, hsession, hlen, hle, -⟩ := RecvConfig.classify_data hclass
  refine ⟨pkt.seq_lt, ?_⟩
  rw [hlen]
  exact hm pkt.header hdec hsession pkt.seq_lt (hlen ▸ hle)

theorem block_start_lt {seq : Nat} (h : seq < cfg.totalBlocks) :
    seq * cfg.blockSize < cfg.fileSize.toNat := by
  rw [cfg.total_eq] at h
  exact (lt_numBlocks_iff cfg.blockSize_pos).mp h

theorem block_end_le {seq : Nat} (h : seq < cfg.totalBlocks) :
    seq * cfg.blockSize + cfg.blockLen seq ≤ cfg.fileSize.toNat :=
  tile_end_le (le_of_lt (block_start_lt h))

/-! ## The contents of the sink -/

/-- The sink has the length of the object and holds every block that was written. -/
structure SinkHolds (block : Nat → Bytes) (s : State cfg n) : Prop where
  length : s.sh.sink.contents.length = cfg.fileSize.toNat
  holds : Holds s.sh.sink.contents cfg.blockSize block (Written s.sh.trace)

theorem written_cons {e : Event} {trace : List Event} {k : Nat} (h : Written (e :: trace) k) :
    (∃ path buf, e = .write path k buf .ok) ∨ Written trace k := by
  obtain ⟨path, buf, hw⟩ := h
  rcases List.mem_cons.mp hw with heq | hold
  · exact .inl ⟨path, buf, heq.symm⟩
  · exact .inr ⟨path, buf, hold⟩

theorem sinkHolds_step {block : Nat → Bytes} {s t : State cfg n} {act : Action n}
    (hblock : ∀ seq < cfg.totalBlocks, (block seq).length = cfg.blockLen seq)
    (hinv : SinkHolds block s) (hok : AllWritesOk s act)
    (hwrite : ∀ path seq buf res, emitted s act = some (.write path seq buf res) →
      seq < cfg.totalBlocks ∧ buf = block seq)
    (h : step prim s act = some t) : SinkHolds block t := by
  have hsink := step_sink h
  have htrace := step_trace h
  cases hemit : emitted s act with
  | none =>
    rw [hemit] at hsink htrace
    exact ⟨by rw [hsink]; exact hinv.length, by rw [hsink, htrace]; exact hinv.holds⟩
  | some e =>
    rw [hemit] at hsink htrace
    cases e with
    | feedback p fh nacks =>
      refine ⟨by rw [hsink]; exact hinv.length, ?_⟩
      rw [hsink, htrace]
      intro k hk
      rcases written_cons hk with ⟨_, _, heq⟩ | hold
      · cases heq
      · exact hinv.holds k hold
    | write path seq buf res =>
      obtain ⟨hseq, rfl⟩ := hwrite path seq buf res hemit
      cases res with
      | err written =>
        have hdirect := hok.1 _ hemit
        have hflush := hok.2 _ hemit
        cases path
        · simp [Event.failed] at hdirect
        · simp [Event.failed] at hflush
      | ok =>
        have hlen := hblock seq hseq
        have hend := block_end_le hseq
        have hstart : seq * cfg.blockSize ≤ s.sh.sink.contents.length := by
          rw [hinv.length]
          exact le_of_lt (block_start_lt hseq)
        have hcontents : t.sh.sink.contents =
            overwrite s.sh.sink.contents (seq * cfg.blockSize) (block seq) := by
          rw [hsink]
          exact Sink.writeAllAt_of_le (by rw [hlen, hinv.length]; exact hend)
        refine ⟨?_, ?_⟩
        · rw [hcontents, overwrite_length (by rw [hlen, hinv.length]; exact hend), hinv.length]
        · rw [hcontents, htrace]
          intro k hk
          refine hinv.holds.overwrite hstart ?_ k ?_
          · rw [hlen, hinv.length]
            rfl
          · rcases written_cons hk with ⟨_, _, heq⟩ | hold
            · cases heq
              exact .inl rfl
            · exact .inr hold

theorem sinkHolds_run {P : Datagram → Prop} {block : Nat → Bytes} {sink : Sink} {s t : State cfg n}
    {as : List (Action n)} {C : State cfg n → Action n → Prop}
    (hblock : ∀ seq < cfg.totalBlocks, (block seq).length = cfg.blockLen seq)
    (hclass : ∀ m pkt, P m → cfg.classify prim m.data m.addr = .data pkt →
      pkt.payload = block pkt.seq)
    (hdel : ∀ s act, C s act → Delivers (fun m => P (m.cut cfg.bufLen)) s act)
    (hok : ∀ s act, C s act → AllWritesOk s act)
    (hnew : newReceiver cfg n sink = some s) (hlen : sink.contents.length = cfg.fileSize.toNat)
    (h : Steps (step prim) C s as t) : SinkHolds block t := by
  refine h.invariant_of_run ?_ ?_
  · intro bs u act v hrun hinv hc hstep
    have hcar : Carries P (fun seq p => seq < cfg.totalBlocks ∧ p = block seq) v :=
      carries_run (fun m pkt hm hdata => ⟨pkt.seq_lt, hclass m pkt hm hdata⟩) hdel hnew
        (hrun.append (.single hc hstep))
    refine sinkHolds_step hblock hinv (hok u act hc) (fun path seq buf res hemit => ?_) hstep
    exact hcar.write ((mem_trace_step hstep _).mpr (.inl hemit))
  · obtain ⟨rate, _, rfl⟩ := Option.map_eq_some_iff.mp hnew
    refine ⟨hlen, fun k hk => ?_⟩
    obtain ⟨path, buf, hw⟩ := hk
    exact (List.not_mem_nil hw).elim

/-! ## Inside the object, and all of it -/

/-- **Writes stay inside the object and cover it**, as long as the delivered headers state the length
of the block they name. -/
theorem writes_inside_cover {sink : Sink} {s t : State cfg n} {as : List (Action n)}
    (hnew : newReceiver cfg n sink = some s)
    (h : Steps (step prim) (Delivers cfg.StatesLength) s as t) :
    (∀ i, ∀ pkt ∈ (t.workers i).pkt, pkt.payload.length = cfg.blockLen pkt.seq) ∧
      (∀ path seq buf res, .write path seq buf res ∈ t.sh.trace →
        buf.length = cfg.blockLen seq ∧ seq * cfg.blockSize + buf.length ≤ cfg.fileSize.toNat) ∧
      ((∀ seq < cfg.totalBlocks, Written t.sh.trace seq) → ∀ i < cfg.fileSize.toNat,
        ∃ path seq buf, .write path seq buf .ok ∈ t.sh.trace ∧ seq * cfg.blockSize ≤ i ∧
          i < seq * cfg.blockSize + buf.length) := by
  have hcar : Carries cfg.StatesLength
      (fun seq p => seq < cfg.totalBlocks ∧ p.length = cfg.blockLen seq) t :=
    carries_run (fun m pkt => length_of_statesLength)
      (fun s act hdel m hm => statesLength_cut (hdel m hm)) hnew h
  refine ⟨fun i pkt hpkt => (hcar.held i pkt hpkt).2, fun path seq buf res hw => ?_,
    fun hall i hi => ?_⟩
  · obtain ⟨hseq, hlen⟩ := hcar.write hw
    exact ⟨hlen, hlen ▸ block_end_le hseq⟩
  · obtain ⟨seq, hstart, hlo, hhi⟩ := exists_tile cfg.blockSize_pos hi
    have hseq : seq < cfg.totalBlocks := by
      rw [cfg.total_eq]
      exact (lt_numBlocks_iff cfg.blockSize_pos).mpr hstart
    obtain ⟨path, buf, hw⟩ := hall seq hseq
    obtain ⟨-, hlen⟩ := hcar.write hw
    exact ⟨path, seq, buf, hw, hlo, hlen ▸ hhi⟩

theorem writes_inside_cover_oneBlock : ∃ s t, newReceiver oneBlock 1 zeroByte = some s ∧
    Steps (step oneBlockPrims) (Delivers oneBlock.StatesLength) s (oneBlockActs .ok) t ∧
    .write .flush 0 [7] .ok ∈ t.sh.trace ∧ List.length [(7 : UInt8)] = oneBlock.blockLen 0 := by
  obtain ⟨s, t, hnew, hrun, hQ⟩ := exists_run oneBlockPrims zeroByte (oneBlockActs .ok)
    (Delivers oneBlock.StatesLength)
    (fun t : State oneBlock 1 => decide (.write .flush 0 [7] .ok ∈ t.sh.trace)) (by decide +kernel)
  have hw := of_decide_eq_true hQ
  exact ⟨s, t, hnew, hrun, hw, ((writes_inside_cover hnew hrun).2.1 _ _ _ _ hw).1⟩

/-- The CRC32C of a payload longer than the object. -/
def longPrims : Primitives := ⟨fun bs => if bs = [7, 7] then 0x5fc6da7c else 0, .unused⟩

/-- A DATA datagram of two bytes for the one block of an object of one byte. -/
def longDatagram : Datagram :=
  fromPeer ({ oneBlockHeader with payloadLen := 2, payloadCrc := 0x5fc6da7c }.bytes ++ [7, 7])

def longActs : List (Action 1) :=
  [idle, deliver [longDatagram]] ++ List.replicate 9 idle ++ List.replicate 3 (.flusher {})

/-- A payload longer than its block is accepted, and written past the end of the object. -/
theorem write_outside : ∃ s t, newReceiver oneBlock 1 zeroByte = some s ∧
    Steps (step longPrims) AllWritesOk s longActs t ∧ .write .flush 0 [7, 7] .ok ∈ t.sh.trace ∧
    List.length [(7 : UInt8), 7] ≠ oneBlock.blockLen 0 ∧
    oneBlock.fileSize.toNat < 0 * oneBlock.blockSize + List.length [(7 : UInt8), 7] ∧
    t.sh.sink.contents = [7, 7] := by
  obtain ⟨s, t, hnew, hrun, hQ⟩ := exists_run longPrims zeroByte longActs AllWritesOk
    (fun t : State oneBlock 1 => decide (.write .flush 0 [7, 7] .ok ∈ t.sh.trace) &&
      decide (t.sh.sink.contents = [7, 7])) (by decide +kernel)
  simp only [Bool.and_eq_true, decide_eq_true_eq] at hQ
  exact ⟨s, t, hnew, hrun, hQ.1, by decide, by decide, hQ.2⟩

end Receiver

end Girth
