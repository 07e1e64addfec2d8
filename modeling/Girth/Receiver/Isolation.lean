import Girth.Receiver.Stranded

/-!
# Datagrams without influence

`handlePacket` is `handle_packet` as one call, and `receive` the body of the worker's loop around it.
`receive_leads` connects them with the machine: a worker that is left alone with a message does, step
by step, what `receive` does at once.

A receiver that expects an address locks in the first port from which a valid datagram arrives.
`foreign_no_influence`: of a sequence of arrivals only those matter that come from the locked address
and pass the checks of their type. The checks come in another order for FIN than for DATA, and the
lock makes a datagram count or not depending on all earlier ones; the proof looks at the lock from
the end of the sequence, where it is known which address it is.
-/

namespace Girth.Receiver

open Lib

variable (prim : Primitives) (cfg : RecvConfig)

/-! ## A packet at once -/

/-- A datagram with its arrival time, and the result of the direct write it may lead to. -/
structure Arrival extends Datagram where
  now : UInt64 := 0
  io : WriteResult := .ok

namespace Shared

variable {total : Nat} (sh : Shared total)

/-- The end of `handle_packet`: the payload goes to a pooled buffer, or to the sink if there is
none. -/
def storeBlock (blockSize : Nat) (pkt : DataPkt total) (io : WriteResult) : Shared total :=
  let stats := { sh.stats with
    payloadRecv := sh.stats.payloadRecv + pkt.payload.length
    blocksWritten := sh.stats.blocksWritten + 1 }
  let sh := { sh with stats := stats }
  match sh.free with
  | free + 1 =>
    let sh := { sh with free := free, stage := sh.stage.insert pkt.seq pkt.payload }
    (sh.setReady pkt.seq).signalFlush
  | 0 =>
    let sh := sh.writeBlock blockSize .direct pkt.seq pkt.payload io
    match io with
    | .ok => (sh.setReady pkt.seq).signalFlush
    | .err _ => sh

def seeBlock (seq : Nat) : Shared total :=
  { sh with
    seenAny := true
    maxSeen := max sh.maxSeen seq
    bm := (sh.bm.setAndTest seq).1 }

def countDup : Shared total :=
  { sh with stats := { sh.stats with dupRecv := sh.stats.dupRecv + 1 } }

/-- The block is marked, and stored the first time. -/
def markBlock (blockSize : Nat) (pkt : DataPkt total) (io : WriteResult) : Shared total :=
  if (sh.bm.setAndTest pkt.seq).2 then (sh.seeBlock pkt.seq).storeBlock blockSize pkt io
  else (sh.seeBlock pkt.seq).countDup

/-- What a DATA PDU from the peer does. -/
def acceptData (blockSize : Nat) (pkt : DataPkt total) (now : UInt64) (io : WriteResult) :
    Shared total :=
  let sh := if pkt.header.flags &&& flagHasTick != 0 then sh.applyTick pkt.header now else sh
  sh.markBlock blockSize pkt io

def setPeer (peer : Option SocketAddr) : Shared total := { sh with peer := peer }

def setAllSent : Shared total := { sh with allSent := true }

def countPacket (len : Nat) : Shared total :=
  { sh with stats := { sh.stats with
      packetsRecv := sh.stats.packetsRecv + 1
      bytesRecv := sh.stats.bytesRecv + len } }

def countCorrupt : Shared total :=
  { sh with stats := { sh.stats with corruptRecv := sh.stats.corruptRecv + 1 } }

/-- The counters that every datagram moves, valid or not, set aside. -/
def withoutTraffic : Shared total :=
  { sh with stats := { sh.stats with packetsRecv := 0, bytesRecv := 0, corruptRecv := 0 } }

end Shared

/-- `handle_packet`. -/
def handlePacket (sh : Shared cfg.totalBlocks) (a : Arrival) : Shared cfg.totalBlocks :=
  let learned := cfg.learnPeer sh.peer a.addr
  match cfg.classify prim a.data a.addr with
  | .ignore => sh
  | .corrupt => sh.countCorrupt
  | .fin => if learned.2 then (sh.setPeer learned.1).setAllSent else sh.setPeer learned.1
  | .data pkt =>
    if learned.2 then (sh.setPeer learned.1).acceptData cfg.blockSize pkt a.now a.io
    else sh.setPeer learned.1

/-- The worker's loop body for one message. -/
def receive (sh : Shared cfg.totalBlocks) (a : Arrival) : Shared cfg.totalBlocks :=
  if a.data.isEmpty then sh else handlePacket prim cfg (sh.countPacket a.data.length) a

/-- The messages of a sequence one after the other. -/
def receiveAll (sh : Shared cfg.totalBlocks) (arrivals : List Arrival) : Shared cfg.totalBlocks :=
  arrivals.foldl (receive prim cfg) sh

variable {prim cfg} {sh sh' : Shared cfg.totalBlocks} {a : Arrival} {arrivals : List Arrival}

theorem handlePacket_fin (hcls : cfg.classify prim a.data a.addr = .fin) :
    handlePacket prim cfg sh a = if (cfg.learnPeer sh.peer a.addr).2 then
      (sh.setPeer (cfg.learnPeer sh.peer a.addr).1).setAllSent
      else sh.setPeer (cfg.learnPeer sh.peer a.addr).1 := by
  simp only [handlePacket, hcls]

theorem handlePacket_data {pkt : DataPkt cfg.totalBlocks}
    (hcls : cfg.classify prim a.data a.addr = .data pkt) :
    handlePacket prim cfg sh a = if (cfg.learnPeer sh.peer a.addr).2 then
      (sh.setPeer (cfg.learnPeer sh.peer a.addr).1).acceptData cfg.blockSize pkt a.now a.io
      else sh.setPeer (cfg.learnPeer sh.peer a.addr).1 := by
  simp only [handlePacket, hcls]

/-! ## The machine does the same -/

/-- The environment a message is handled in. -/
def Arrival.env (a : Arrival) : Env := { now := a.now, io := a.io }

/-- A worker that is left alone gets from `x` to `y`. -/
def Leads (prim : Primitives) (cfg : RecvConfig) (env : Env)
    (x y : Shared cfg.totalBlocks × IngestPc cfg.totalBlocks) : Prop :=
  ∃ k, Steps (ingestOnly prim cfg) Any x (List.replicate k env) y

theorem Leads.of_exec {env : Env} {x y : Shared cfg.totalBlocks × IngestPc cfg.totalBlocks} (k : Nat)
    (h : exec (ingestOnly prim cfg) x (List.replicate k env) = some y) : Leads prim cfg env x y :=
  ⟨k, .of_exec h⟩

theorem Leads.trans {env : Env} {x y z : Shared cfg.totalBlocks × IngestPc cfg.totalBlocks}
    (h : Leads prim cfg env x y) (h' : Leads prim cfg env y z) : Leads prim cfg env x z := by
  obtain ⟨j, hj⟩ := h
  obtain ⟨k, hk⟩ := h'
  refine ⟨j + k, ?_⟩
  rw [List.replicate_add]
  exact hj.append hk

variable (pkt : DataPkt cfg.totalBlocks) (rest : List Datagram)

variable {pkt rest} in
theorem Leads.data {sh : Shared cfg.totalBlocks} {env : Env} {pc : DataPc}
    {y : Shared cfg.totalBlocks × IngestPc cfg.totalBlocks}
    (h : Leads prim cfg env (dataStep cfg sh pkt rest env pc) y) :
    Leads prim cfg env (sh, .data pc pkt rest) y := by
  obtain ⟨k, hk⟩ := h
  refine ⟨k + 1, ?_⟩
  rw [List.replicate_succ]
  exact .cons trivial rfl hk

theorem Leads.refl (env : Env) (x : Shared cfg.totalBlocks × IngestPc cfg.totalBlocks) :
    Leads prim cfg env x x := ⟨0, .nil x⟩

theorem storeBlock_leads (prim : Primitives) (sh : Shared cfg.totalBlocks) (env : Env) :
    Leads prim cfg env (sh, .data .count pkt rest)
      (sh.storeBlock cfg.blockSize pkt env.io, .batch rest) := by
  refine .data (.data ?_)
  cases hfree : sh.free with
  | zero =>
    simp only [dataStep, Shared.storeBlock, hfree]
    refine .data ?_
    cases hio : env.io with
    | ok =>
      simp only [dataStep, hio]
      exact .data (.data (.refl env _))
    | err written =>
      simp only [dataStep, hio]
      exact .refl env _
  | succ free =>
    simp only [dataStep, Shared.storeBlock, hfree]
    exact .data (.data (.data (.refl env _)))

theorem markBlock_leads (prim : Primitives) (sh : Shared cfg.totalBlocks) (env : Env) :
    Leads prim cfg env (sh, .data .seenAny pkt rest)
      (sh.markBlock cfg.blockSize pkt env.io, .batch rest) := by
  refine .data (.data (.data ?_))
  cases hfirst : (sh.bm.setAndTest pkt.seq).2 with
  | false =>
    simp only [dataStep, Shared.markBlock, hfirst]
    exact .refl env _
  | true =>
    simp only [dataStep, Shared.markBlock, hfirst]
    exact storeBlock_leads pkt rest prim (sh.seeBlock pkt.seq) env

theorem acceptData_leads (prim : Primitives) (sh : Shared cfg.totalBlocks)
    (addr : Option SocketAddr) (env : Env) (hok : (cfg.learnPeer sh.peer addr).2 = true) :
    Leads prim cfg env (sh, .data (.learn addr) pkt rest)
      ((sh.setPeer (cfg.learnPeer sh.peer addr).1).acceptData cfg.blockSize pkt env.now env.io,
        .batch rest) := by
  refine .data ?_
  simp only [dataStep, hok, Bool.not_true, Bool.false_eq_true, if_false, Shared.acceptData]
  split_ifs
  · exact .data (markBlock_leads pkt rest prim _ env)
  · exact markBlock_leads pkt rest prim _ env

/-- **The machine runs `receive`.** -/
theorem receive_leads (sh : Shared cfg.totalBlocks) (a : Arrival) :
    Leads prim cfg a.env (sh, .batch (a.toDatagram :: rest)) (receive prim cfg sh a, .batch rest) := by
  by_cases hempty : a.data.isEmpty
  · exact .of_exec 1 (by simp [exec, ingestOnly, ingestStep, receive, hempty])
  · rw [receive, if_neg hempty]
    cases hcls : cfg.classify prim a.data a.addr with
    | ignore =>
      exact .of_exec 1 (by simp [exec, ingestOnly, ingestStep, handlePacket, Shared.countPacket,
        hempty, hcls])
    | corrupt =>
      exact .of_exec 1 (by simp [exec, ingestOnly, ingestStep, handlePacket, Shared.countPacket,
        Shared.countCorrupt, hempty, hcls])
    | fin =>
      by_cases hok : (cfg.learnPeer sh.peer a.addr).2
      · exact .of_exec 3 (by simp [exec, ingestOnly, ingestStep, handlePacket, Shared.countPacket,
          Shared.setPeer, Shared.setAllSent, List.replicate_succ, hempty, hcls, hok])
      · exact .of_exec 2 (by simp [exec, ingestOnly, ingestStep, handlePacket, Shared.countPacket,
          Shared.setPeer, List.replicate_succ, hempty, hcls, hok])
    | data pkt =>
      have hfirst : Leads prim cfg a.env (sh, .batch (a.toDatagram :: rest))
          (sh.countPacket a.data.length, .data (.learn a.addr) pkt rest) :=
        .of_exec 1 (by simp [exec, ingestOnly, ingestStep, Shared.countPacket, hempty, hcls])
      refine hfirst.trans ?_
      by_cases hok : (cfg.learnPeer (sh.countPacket a.data.length).peer a.addr).2
      · have haccept := acceptData_leads pkt rest prim _ a.addr a.env hok
        rw [handlePacket_data hcls, if_pos hok]
        exact haccept
      · exact .of_exec 1 (by simp [exec, ingestOnly, ingestStep, dataStep, handlePacket,
          Shared.setPeer, hcls, hok])

/-! ## What the traffic counters touch -/

namespace Shared

variable {total : Nat} (sh : Shared total)

theorem storeBlock_withoutTraffic (blockSize : Nat) (pkt : DataPkt total) (io : WriteResult) :
    (sh.withoutTraffic.storeBlock blockSize pkt io).withoutTraffic =
      (sh.storeBlock blockSize pkt io).withoutTraffic := by
  simp only [storeBlock, withoutTraffic]
  cases sh.free with
  | zero => cases io <;> rfl
  | succ free => rfl

theorem markBlock_withoutTraffic (blockSize : Nat) (pkt : DataPkt total) (io : WriteResult) :
    (sh.withoutTraffic.markBlock blockSize pkt io).withoutTraffic =
      (sh.markBlock blockSize pkt io).withoutTraffic := by
  by_cases hfirst : (sh.bm.setAndTest pkt.seq).2 = true
  · have hleft : sh.withoutTraffic.markBlock blockSize pkt io =
        (sh.seeBlock pkt.seq).withoutTraffic.storeBlock blockSize pkt io := if_pos hfirst
    rw [hleft, storeBlock_withoutTraffic, markBlock, if_pos hfirst]
  · have hleft : sh.withoutTraffic.markBlock blockSize pkt io =
        (sh.seeBlock pkt.seq).withoutTraffic.countDup := if_neg hfirst
    rw [hleft, markBlock, if_neg hfirst]
    rfl

theorem applyTick_withoutTraffic (h : DataHeader) (now : UInt64) :
    (sh.applyTick h now).withoutTraffic = sh.withoutTraffic.applyTick h now := by
  simp only [applyTick, withoutTraffic]
  split_ifs <;> rfl

theorem acceptData_withoutTraffic (blockSize : Nat) (pkt : DataPkt total) (now : UInt64)
    (io : WriteResult) :
    (sh.withoutTraffic.acceptData blockSize pkt now io).withoutTraffic =
      (sh.acceptData blockSize pkt now io).withoutTraffic := by
  simp only [acceptData]
  split
  · rw [← applyTick_withoutTraffic, markBlock_withoutTraffic]
  · rw [markBlock_withoutTraffic]

theorem acceptData_peer (blockSize : Nat) (pkt : DataPkt total) (now : UInt64) (io : WriteResult) :
    (sh.acceptData blockSize pkt now io).peer = sh.peer := by
  have htick : (sh.applyTick pkt.header now).peer = sh.peer := by
    simp only [applyTick]
    split_ifs <;> rfl
  have hmark : ∀ sh : Shared total, (sh.markBlock blockSize pkt io).peer = sh.peer := by
    intro sh
    simp only [markBlock, storeBlock]
    split
    · cases (sh.seeBlock pkt.seq).free with
      | zero => cases io <;> rfl
      | succ free => rfl
    · rfl
  rw [acceptData, hmark]
  split
  · exact htick
  · rfl

end Shared

theorem handlePacket_withoutTraffic (sh : Shared cfg.totalBlocks) (a : Arrival) :
    (handlePacket prim cfg sh.withoutTraffic a).withoutTraffic =
      (handlePacket prim cfg sh a).withoutTraffic := by
  have hpeer : sh.withoutTraffic.peer = sh.peer := rfl
  have hset : ∀ peer, sh.withoutTraffic.setPeer peer = (sh.setPeer peer).withoutTraffic :=
    fun peer => rfl
  cases hcls : cfg.classify prim a.data a.addr with
  | ignore =>
    simp only [handlePacket, hcls]
    rfl
  | corrupt =>
    simp only [handlePacket, hcls]
    rfl
  | fin =>
    rw [handlePacket_fin hcls, handlePacket_fin hcls, hpeer, hset]
    split <;> rfl
  | data pkt =>
    rw [handlePacket_data hcls, handlePacket_data hcls, hpeer, hset]
    split
    · rw [Shared.acceptData_withoutTraffic]
    · rfl

theorem receive_withoutTraffic (sh : Shared cfg.totalBlocks) (a : Arrival) :
    (receive prim cfg sh a).withoutTraffic =
      if a.data.isEmpty then sh.withoutTraffic
      else (handlePacket prim cfg sh.withoutTraffic a).withoutTraffic := by
  unfold receive
  split
  · rfl
  · rw [handlePacket_withoutTraffic, ← handlePacket_withoutTraffic (sh.countPacket a.data.length),
      ← handlePacket_withoutTraffic sh]
    rfl

/-! ## Checks -/

section checks

variable (prim : Primitives) (cfg : RecvConfig)

/-- The length, and the checksum or the tag. -/
def intact (pkt : Bytes) (h : DataHeader) : Bool :=
  match cfg.crypto with
  | some box => (openData prim.aead box (pkt.drop dataHeaderSize) h.payloadLen.toNat h.blockSeq).isSome
  | none => dataHeaderSize + h.payloadLen.toNat ≤ pkt.length ∧
      prim.crc32c (slice pkt dataHeaderSize h.payloadLen.toNat) = h.payloadCrc

/-- A FIN of this session and this number of blocks, or a DATA PDU of this session for a block in
range, no longer than a block and intact. -/
def passesChecks (pkt : Bytes) : Bool :=
  if pduType pkt = pduFin then
    (decodeFin pkt).any fun (session, total) =>
      session = cfg.session ∧ total.toNat = cfg.totalBlocks
  else if pduType pkt = pduData then
    (decodeDataHeader pkt).any fun h => h.session = cfg.session ∧
      h.blockSeq.toNat < cfg.totalBlocks ∧ h.payloadLen.toNat ≤ cfg.blockSize ∧ intact prim cfg pkt h
  else false

/-- The arrival is from the expected address, from the port that was locked in, and valid. -/
def Arrival.counts (ip : IpAddr) (peer : Option SocketAddr) (a : Arrival) : Bool :=
  passesChecks prim cfg a.data && a.addr.all fun addr => addr.ip = ip ∧ peer = some addr

end checks

/-- `handle_packet` goes on to the peer's address. -/
def accepted {total : Nat} : Verdict total → Bool
  | .fin | .data _ => true
  | .ignore | .corrupt => false

theorem intact_of_accepted {pkt : Bytes} {h : DataHeader}
    {seq_lt : h.blockSeq.toNat < cfg.totalBlocks}
    (hp : accepted (cfg.openPayload prim pkt h seq_lt) = true) : intact prim cfg pkt h = true := by
  unfold RecvConfig.openPayload at hp
  unfold intact
  dsimp only at hp
  cases hcrypto : cfg.crypto with
  | some box =>
    simp only [hcrypto] at hp ⊢
    split at hp
    · rename_i hopen
      rw [hopen]
      rfl
    · cases hp
  | none =>
    simp only [hcrypto] at hp
    split_ifs at hp with hlen hcrc
    · cases hp
    · cases hp
    · exact decide_eq_true (p := _ ∧ _) ⟨by omega, not_not.mp hcrc⟩

theorem passesChecks_of_accepted {pkt : Bytes} {addr : Option SocketAddr}
    (h : accepted (cfg.classify prim pkt addr) = true) : passesChecks prim cfg pkt = true := by
  unfold RecvConfig.classify at h
  unfold passesChecks
  split_ifs at h ⊢
  · split at h
    · rename_i session total hdec
      split_ifs at h with hother
      · cases h
      · push Not at hother
        rw [hdec]
        exact decide_eq_true hother
    · cases h
  · split at h
    · rename_i hdr hdec
      unfold RecvConfig.classifyData at h
      split_ifs at h with hsession hseq hlen hforeign
      iterate 3 cases h
      · rw [hdec]
        exact decide_eq_true (p := _ ∧ _ ∧ _ ∧ _)
          ⟨not_not.mp hsession, hseq, by omega, intact_of_accepted h⟩
      · cases h
    · cases h
  · cases h

/-! ## The lock -/

theorem receive_peer_of_locked {p : SocketAddr} (h : sh.peer = some p) :
    (receive prim cfg sh a).peer = some p := by
  have hlocked : (cfg.learnPeer (sh.countPacket a.data.length).peer a.addr).1 = some p := by
    show (cfg.learnPeer sh.peer a.addr).1 = some p
    rw [h]
    unfold RecvConfig.learnPeer
    split
    · rfl
    · split <;> rfl
  unfold receive
  split
  · exact h
  · cases hcls : cfg.classify prim a.data a.addr with
    | ignore =>
      simp only [handlePacket, hcls]
      exact h
    | corrupt =>
      simp only [handlePacket, hcls]
      exact h
    | fin =>
      rw [handlePacket_fin hcls]
      split <;> exact hlocked
    | data pkt =>
      rw [handlePacket_data hcls]
      split
      · rw [Shared.acceptData_peer]
        exact hlocked
      · exact hlocked

theorem receiveAll_peer_of_locked {p : SocketAddr} (h : sh.peer = some p) (arrivals : List Arrival) :
    (receiveAll prim cfg sh arrivals).peer = some p := by
  induction arrivals generalizing sh with
  | nil => exact h
  | cons a arrivals ih => exact ih (receive_peer_of_locked h)

theorem receive_peer_of_learned (sh : Shared cfg.totalBlocks) (hne : a.data.isEmpty = false)
    (haccepted : accepted (cfg.classify prim a.data a.addr) = true) :
    (receive prim cfg sh a).peer = (cfg.learnPeer sh.peer a.addr).1 := by
  rw [receive, if_neg (by rw [hne]; exact Bool.false_ne_true)]
  cases hcls : cfg.classify prim a.data a.addr with
  | ignore =>
    rw [hcls] at haccepted
    cases haccepted
  | corrupt =>
    rw [hcls] at haccepted
    cases haccepted
  | fin =>
    rw [handlePacket_fin hcls]
    split <;> rfl
  | data pkt =>
    rw [handlePacket_data hcls]
    split
    · rw [Shared.acceptData_peer]
      rfl
    · rfl

theorem receive_of_refused (hrefused : accepted (cfg.classify prim a.data a.addr) = true →
    cfg.learnPeer sh.peer a.addr = (sh.peer, false)) :
    (receive prim cfg sh a).withoutTraffic = sh.withoutTraffic := by
  unfold receive
  split
  · rfl
  · cases hcls : cfg.classify prim a.data a.addr with
    | ignore =>
      simp only [handlePacket, hcls]
      rfl
    | corrupt =>
      simp only [handlePacket, hcls]
      rfl
    | fin =>
      rw [hcls] at hrefused
      have hlearn : cfg.learnPeer (sh.countPacket a.data.length).peer a.addr = (sh.peer, false) :=
        hrefused rfl
      rw [handlePacket_fin hcls, hlearn]
      rfl
    | data pkt =>
      rw [hcls] at hrefused
      have hlearn : cfg.learnPeer (sh.countPacket a.data.length).peer a.addr = (sh.peer, false) :=
        hrefused rfl
      rw [handlePacket_data hcls, hlearn]
      rfl

theorem receive_of_not_counts {ip : IpAddr} (hip : cfg.expectedPeerIp = some ip)
    {peer : Option SocketAddr} (hpeer : (receiveAll prim cfg sh (a :: arrivals)).peer = peer)
    (hcounts : a.counts prim cfg ip peer = false) :
    (receive prim cfg sh a).withoutTraffic = sh.withoutTraffic := by
  by_cases hne : a.data.isEmpty
  · rw [receive, if_pos hne]
  refine receive_of_refused fun haccepted => ?_
  have hpass := passesChecks_of_accepted haccepted
  rw [Arrival.counts, hpass, Bool.true_and] at hcounts
  cases haddr : a.addr with
  | none =>
    rw [haddr] at hcounts
    cases hcounts
  | some addr =>
    rw [haddr] at hcounts
    have hother : ¬ (addr.ip = ip ∧ peer = some addr) := by simpa using hcounts
    have hlearned := receive_peer_of_learned sh (Bool.not_eq_true _ ▸ hne) haccepted
    rw [haddr] at hlearned
    by_cases hforeign : addr.ip = ip
    · -- the expected address, so the lock decides; it is on another port at the end
      have hnot : ¬ (receive prim cfg sh a).peer = some addr := fun hsome =>
        hother ⟨hforeign, hpeer.symm.trans (receiveAll_peer_of_locked hsome arrivals)⟩
      cases hold : sh.peer with
      | none =>
        rw [hlearned, hold] at hnot
        exact absurd (by simp [RecvConfig.learnPeer, hip, hforeign]) hnot
      | some p =>
        rw [receive_peer_of_locked hold] at hnot
        have hne : (p == addr) = false := by simpa using hnot
        simp [RecvConfig.learnPeer, hip, hforeign, hne]
    · simp [RecvConfig.learnPeer, hip, hforeign]

/-- **No influence.** A receiver that expects an address, from any state and for every sequence of
arrivals: without those that are from another address, from another port than the one locked in, or
fail a check, everything but the traffic counters is as before at the end. And once locked, the peer
never changes. -/
theorem foreign_no_influence (prim : Primitives) (cfg : RecvConfig) (ip : IpAddr)
    (hip : cfg.expectedPeerIp = some ip) (sh : Shared cfg.totalBlocks) (arrivals : List Arrival) :
    (receiveAll prim cfg sh (arrivals.filter
      (Arrival.counts prim cfg ip (receiveAll prim cfg sh arrivals).peer))).withoutTraffic =
        (receiveAll prim cfg sh arrivals).withoutTraffic ∧
    ∀ earlier later p, arrivals = earlier ++ later →
      (receiveAll prim cfg sh earlier).peer = some p →
        (receiveAll prim cfg sh arrivals).peer = some p := by
  constructor
  · refine view_foldl_filter Shared.withoutTraffic (I := fun s as =>
      (receiveAll prim cfg s as).peer = (receiveAll prim cfg sh arrivals).peer) ?_ ?_ ?_ _ _ _ rfl rfl
    · intro s s' a hs
      rw [receive_withoutTraffic, receive_withoutTraffic, hs]
    · intro s a as h
      exact h
    · intro s a as h hcounts
      exact receive_of_not_counts hip h hcounts
  · rintro earlier later p rfl hlocked
    rw [receiveAll, List.foldl_append]
    exact receiveAll_peer_of_locked hlocked later

/-! ### One block among other datagrams -/

/-- One block is expected, from a known address. -/
def knownPeer : RecvConfig := { oneBlock with expectedPeerIp := some (.v4 0x7f000001) }

/-- The only arrival that counts. -/
def theBlock : Arrival := { fromPeer (oneBlockHeader.bytes ++ [7]) with now := 100 }

/-- A FIN from another host, a block of another session, the block, and a FIN from another port. -/
def mixedArrivals : List Arrival :=
  [{ data := finBytes 9 1, addr := some ⟨.v4 0x7f000002, 5000⟩ },
    { fromPeer ({ oneBlockHeader with session := 8 }.bytes ++ [7]) with now := 50 },
    theBlock,
    { data := finBytes 9 1, addr := some ⟨.v4 0x7f000001, 5001⟩ }]

theorem foreign_no_influence_oneBlock : ∃ s, newReceiver knownPeer 1 zeroByte = some s ∧
    (receiveAll oneBlockPrims knownPeer s.sh [theBlock]).withoutTraffic =
      (receiveAll oneBlockPrims knownPeer s.sh mixedArrivals).withoutTraffic ∧
    (receiveAll oneBlockPrims knownPeer s.sh mixedArrivals).bm.isSet 0 = true ∧
    (receiveAll oneBlockPrims knownPeer s.sh mixedArrivals).allSent = false := by
  have hQ : ((newReceiver knownPeer 1 zeroByte).any fun s =>
      (receiveAll oneBlockPrims knownPeer s.sh mixedArrivals).peer == some somePeer &&
      (receiveAll oneBlockPrims knownPeer s.sh mixedArrivals).bm.isSet 0 &&
      !(receiveAll oneBlockPrims knownPeer s.sh mixedArrivals).allSent) = true := by decide +kernel
  obtain ⟨s, hnew, hQ⟩ := (Option.any_eq_true _ _).mp hQ
  simp only [Bool.and_eq_true, beq_iff_eq, Bool.not_eq_true'] at hQ
  obtain ⟨⟨hpeer, hset⟩, hsent⟩ := hQ
  have hall := (foreign_no_influence oneBlockPrims knownPeer (.v4 0x7f000001) rfl s.sh mixedArrivals).1
  have hcounts : mixedArrivals.map (Arrival.counts oneBlockPrims knownPeer (.v4 0x7f000001)
      (some somePeer)) = [false, false, true, false] := by decide +kernel
  have hfilter : mixedArrivals.filter (Arrival.counts oneBlockPrims knownPeer (.v4 0x7f000001)
      (some somePeer)) = [theBlock] := by
    simp only [mixedArrivals, List.map_cons, List.map_nil, List.cons.injEq, and_true] at hcounts
    obtain ⟨h₀, h₁, h₂, h₃⟩ := hcounts
    simp only [mixedArrivals, List.filter_cons, List.filter_nil, h₀, h₁, h₂, h₃, if_true,
      Bool.false_eq_true, if_false]
  rw [hpeer, hfilter] at hall
  exact ⟨s, hnew, hall, hset, hsent⟩

end Girth.Receiver
