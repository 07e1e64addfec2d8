import Girth.Client.Cancel
import Girth.Handshake
import Girth.Loop.Rate
import Girth.Server.Conn

/-!
# From the request to the bytes

A push or a pull as a whole: the client's call writes a Hello, the server answers it, the call accepts
the answer, and each side starts its end of the data plane from what it then knows. An `Exchange` is
one such request that the call went through with. `serverRecvConfig` and `clientSendConfig` are the
two configurations of a push; those of a pull are `sendConfig` and `recvConfig`.

The two ends of an exchange agree on everything a transfer depends on: session, block size, object
size, number of blocks and cipher (`Exchange.push_transfer`, `Exchange.pull_transfer`). So what an
undisturbed data plane delivers is the object: a push leaves the client's bytes in the object the
server serves under that name, a pull brings the object's bytes to the client, and a pull after a push
brings back what was pushed.
-/

namespace Girth

open Lib

/-! ## What a call has done when it returns `Ok` -/

section calls

variable (client : Client) (p : ClientParams) (job : Job) (env : TransferEnv)

def Direction.mode : Direction → String
  | .push => modeSend
  | .pull => modeRecv

/-- The size in the request: a pull does not know it. -/
def Direction.size (job : Job) : Direction → Int
  | .push => job.size
  | .pull => 0

/-- The Hello of a call; `crc` is that of the source, or 0 for a pull. -/
def requestHello (dir : Direction) (crc : UInt32) (warm : Option RateWarmStart) : Hello :=
  clientHello client p dir.mode job.name (dir.size job) crc ((warmForParams p warm).getD {})
    (clientKeys client p env).2
    (clientAuth client job dir.mode (dir.size job) (clientKeys client p env).2)

variable {client p job env} {w u : World}

theorem tryIo_ok {α : Type} {r : Except IoError α} {a : α}
    (h : (tryIo r).runOn w = (.ok a, u)) : r = .ok a ∧ u = w := by
  rw [tryIo, Call.runOn_ofExcept] at h
  cases r with
  | ok b =>
    cases h
    exact ⟨rfl, rfl⟩
  | error e => cases h

theorem rejectUnlessOk_ok {a : Ack} {x : Unit} (h : (rejectUnlessOk a).runOn w = (.ok x, u)) :
    a.ok = true := by
  rw [rejectUnlessOk, Call.runOn_ofExcept] at h
  cases hok : a.ok with
  | true => rfl
  | false =>
    rw [hok] at h
    cases h

theorem clientCryptoCall_ok {a : Ack} {key : Option Bytes} {box : Option AeadBox}
    (h : (clientCryptoCall client p a key).runOn w = (.ok box, u)) :
    clientCrypto client.kx p.encrypt a.encrypt (a.pubKey.getD []) a.session a.cipher key =
      .ok box := by
  rw [clientCryptoCall, Call.runOn_ofExcept] at h
  generalize clientCrypto client.kx p.encrypt a.encrypt (a.pubKey.getD []) a.session a.cipher key = r
    at h ⊢
  cases r with
  | ok b =>
    cases h
    rfl
  | error e => cases h

theorem hellos_writeHello {hello : Hello} {x : Unit}
    (h : (writeHello hello env).runOn w = (.ok x, u)) : u.hellos = w.hellos ++ [hello] := by
  obtain ⟨_, v, hmodify, hwrite⟩ := Call.runOn_bind_ok h
  rw [(tryIo_ok hwrite).2]
  cases hmodify
  rfl

theorem keeps_hellos_tryIo {α : Type} (hs : List Hello) (r : Except IoError α) :
    Call.Keeps (fun w : World => w.hellos = hs) (tryIo r) := .ofExcept _

theorem keeps_hellos_markPhase (hs : List Hello) (tracked : Bool) (phase : TransferPhase) :
    Call.Keeps (fun w : World => w.hellos = hs) (markPhase tracked phase) := by
  refine .modify fun w hw => ?_
  cases tracked
  · exact hw
  · exact hw

theorem keeps_hellos_runSender (hs : List Hello) (env : TransferEnv) :
    Call.Keeps (fun w : World => w.hellos = hs) (runSender env) :=
  .bind (.modify fun _ hw => hw) fun _ => keeps_hellos_tryIo _ _

theorem keeps_hellos_runReceiver (hs : List Hello) (warm : Option RateWarmStart) (env : TransferEnv) :
    Call.Keeps (fun w : World => w.hellos = hs) (runReceiver warm env) :=
  .bind (.modify fun _ hw => hw) fun _ => keeps_hellos_tryIo _ _

/-- What a call that returns `Ok` wrote and read, and what it made of the answer. -/
structure WentThrough (client : Client) (p : ClientParams) (job : Job) (env : TransferEnv)
    (dir : Direction) (warm : Option RateWarmStart) (w u : World) (a : Ack) (box : Option AeadBox) :
    Prop where
  read : env.ack = .ok a
  ok : a.ok = true
  auth : ((verifyServerAuth client job.token
    (clientAuth client job dir.mode (dir.size job) (clientKeys client p env).2) a).runOn {}).1 = .ok ()
  crypto : clientCrypto client.kx p.encrypt a.encrypt (a.pubKey.getD []) a.session a.cipher
    (clientKeys client p env).1 = .ok box
  wrote : ∃ crc, u.hellos = w.hellos ++ [requestHello client p job env dir crc warm]

theorem answer_ok {mac : Option Bytes} {f : Option AeadBox → Ack → ClientCall} {x : Unit}
    (hf : ∀ box a, Call.Keeps (fun v : World => v.hellos = w.hellos) (f box a))
    (h : (tryIo env.ack >>= fun a => rejectUnlessOk a >>= fun _ =>
      verifyServerAuth client job.token mac a >>= fun _ =>
        clientCryptoCall client p a (clientKeys client p env).1 >>= fun box => f box a).runOn w =
      (.ok x, u)) :
    ∃ a box, env.ack = .ok a ∧ a.ok = true ∧
      ((verifyServerAuth client job.token mac a).runOn {}).1 = .ok () ∧
      clientCrypto client.kx p.encrypt a.encrypt (a.pubKey.getD []) a.session a.cipher
        (clientKeys client p env).1 = .ok box ∧
      u.hellos = w.hellos := by
  obtain ⟨a, w₁, hread, h₁⟩ := Call.runOn_bind_ok h
  obtain ⟨_, w₂, hok, h₂⟩ := Call.runOn_bind_ok h₁
  obtain ⟨_, w₃, hauth, h₃⟩ := Call.runOn_bind_ok h₂
  obtain ⟨box, w₄, hcrypto, h₄⟩ := Call.runOn_bind_ok h₃
  refine ⟨a, box, (tryIo_ok hread).1, rejectUnlessOk_ok hok, congrArg Prod.fst hauth,
    clientCryptoCall_ok hcrypto, ?_⟩
  -- none of the four touches the world
  have hw : w₄ = w :=
    calc w₄ = w₃ := (congrArg Prod.snd hcrypto).symm
      _ = w₂ := (congrArg Prod.snd hauth).symm
      _ = w₁ := (congrArg Prod.snd hok).symm
      _ = w := (congrArg Prod.snd hread).symm
  have hkeeps := hf box a w₄ (by rw [hw])
  rwa [h₄] at hkeeps

theorem core_ok {dir : Direction} {tracked : Bool} {warm : Option RateWarmStart}
    (h : (coreWithStream client p job env dir tracked warm).runOn w = (.ok (), u)) :
    ∃ a box, WentThrough client p job env dir warm w u a box := by
  cases dir with
  | push =>
    obtain ⟨crc, w₁, hcrc, h₁⟩ := Call.runOn_bind_ok h
    obtain ⟨_, w₂, hwrite, h₂⟩ := Call.runOn_bind_ok h₁
    obtain ⟨a, box, hread, hok, hauth, hcrypto, hhellos⟩ := answer_ok (fun _ _ =>
      .bind (keeps_hellos_tryIo _ _) fun _ => .bind (keeps_hellos_tryIo _ _) fun _ =>
      .bind (keeps_hellos_markPhase _ _ _) fun _ => .bind (keeps_hellos_runSender _ _) fun _ =>
      keeps_hellos_markPhase _ _ _) h₂
    refine ⟨a, box, hread, hok, hauth, hcrypto, crc, ?_⟩
    rw [hhellos, hellos_writeHello hwrite, (tryIo_ok hcrc).2]
    rfl
  | pull =>
    obtain ⟨_, w₁, hwrite, h₁⟩ := Call.runOn_bind_ok h
    obtain ⟨a, box, hread, hok, hauth, hcrypto, hhellos⟩ := answer_ok (fun _ _ =>
      .bind (keeps_hellos_tryIo _ _) fun _ => .bind (keeps_hellos_tryIo _ _) fun _ =>
      .bind (keeps_hellos_tryIo _ _) fun _ => .bind (keeps_hellos_markPhase _ _ _) fun _ =>
      .bind (keeps_hellos_runReceiver _ _ _) fun _ => .bind (keeps_hellos_markPhase _ _ _) fun _ =>
      .bind (keeps_hellos_tryIo _ _) fun _ => .bind (keeps_hellos_tryIo _ _) fun _ =>
      .bind (.ofExcept _) fun _ => keeps_hellos_markPhase _ _ _) h₁
    refine ⟨a, box, hread, hok, hauth, hcrypto, 0, ?_⟩
    rw [hhellos, hellos_writeHello hwrite]
    rfl

end calls

/-! ## What a server has done when it grants a request -/

namespace Server

variable {srv : Server} {peer : SocketAddr} {w : World} {h : Hello} {env : HelloEnv}
  {auth : Option AuthState} {a : Ack}

theorem admission_valid (hauth : (srv.admission peer h).2 = .ok auth) :
    validateHelloLimits h srv.limits = .ok () := by
  unfold admission at hauth
  split at hauth
  · cases hauth
  · split at hauth
    · cases hauth
    · assumption

theorem ack_ne_ackErr (hok : a.ok = true) (e : String) (authRequired : Bool) :
    .ack a ≠ ackErr e authRequired := by
  intro heq
  cases heq
  cases hok

theorem handleHello_granted (hans : .ack a ∈ (srv.handleHello peer w h env).events)
    (hok : a.ok = true) :
    WithinLimits h srv.limits ∧ ∃ auth, (srv.admission peer h).2 = .ok auth ∧
      (h.mode = modeSend → .ack a ∈ (srv.recvFromClient w h env auth).events ∧
        (srv.handleHello peer w h env).world = (srv.recvFromClient w h env auth).world) ∧
      (h.mode = modeRecv → .ack a ∈ (srv.sendToClient w h env auth).events ∧
        (srv.handleHello peer w h env).world = (srv.sendToClient w h env auth).world) := by
  have hnoack := admission_no_ack srv peer h a
  have hvalid : ∀ auth, (srv.admission peer h).2 = .ok auth →
      validateHelloLimits h srv.limits = .ok () := fun _ => admission_valid
  unfold handleHello at hans ⊢
  generalize srv.admission peer h = admitted at hans hnoack hvalid
  obtain ⟨events, ⟨e, required⟩ | auth⟩ := admitted
  · rcases List.mem_append.mp hans with hin | hin
    · exact absurd hin hnoack
    · exact absurd (List.mem_singleton.mp hin) (ack_ne_ackErr hok e required)
  · refine ⟨withinLimits_of_valid (hvalid auth rfl), auth, rfl, fun hmode => ?_, fun hmode => ?_⟩
    · dsimp only at hans ⊢
      rw [if_pos hmode] at hans ⊢
      exact ⟨(List.mem_append.mp hans).resolve_left hnoack, rfl⟩
    · have hne : ¬ h.mode = modeSend := by
        rw [hmode]
        decide
      dsimp only at hans ⊢
      rw [if_neg hne, if_pos hmode] at hans ⊢
      exact ⟨(List.mem_append.mp hans).resolve_left hnoack, rfl⟩

theorem recvFromClient_granted (hans : .ack a ∈ (srv.recvFromClient w h env auth).events)
    (hok : a.ok = true) :
    ∃ name sink sink' neg, servedObjectName h.name = .ok name ∧
      (srv.openSink w name env).1 = .ok sink ∧
      sink.allocate env.alloc h.size.toNat = (.ok (), sink') ∧
      srv.negotiate h env = .ok neg ∧ a = srv.okAck h env auth neg ∧
      (srv.recvFromClient w h env auth).world =
        srv.putSink (srv.putSink (srv.openSink w name env).2.1 name sink') name
          { sink' with contents := env.contents } := by
  have hrefused := ack_ne_ackErr hok
  unfold recvFromClient at hans ⊢
  cases hname : servedObjectName h.name with
  | error e =>
    rw [hname] at hans
    simp [hrefused] at hans
  | ok name =>
    rw [hname] at hans
    obtain ⟨kind, hevent⟩ := openSink_event srv w name env
    dsimp only at hans ⊢
    refine ⟨name, ?_⟩
    generalize srv.openSink w name env = opened at hans hevent ⊢
    obtain ⟨res, w', ev⟩ := opened
    dsimp only at hevent
    subst hevent
    cases res with
    | error e =>
      simp [hrefused] at hans
    | ok sink =>
      simp only [List.mem_cons, reduceCtorEq, false_or] at hans
      unfold recvInto at hans ⊢
      dsimp only at hans ⊢
      rcases hallocate : sink.allocate env.alloc h.size.toNat with ⟨e | u, sink'⟩
      · rw [hallocate] at hans
        simp [hrefused] at hans
      · rw [hallocate] at hans
        dsimp only at hans ⊢
        cases hbind : env.bindErr with
        | some e =>
          rw [hbind] at hans
          simp at hans
        | none =>
          rw [hbind] at hans
          dsimp only at hans ⊢
          cases hneg : srv.negotiate h env with
          | error e =>
            rw [hneg] at hans
            simp [hrefused] at hans
          | ok neg =>
            rw [hneg] at hans
            dsimp only at hans ⊢
            cases hackErr : env.ackErr with
            | some e =>
              rw [hackErr] at hans
              simp at hans
            | none =>
              rw [hackErr] at hans
              simp only [List.mem_cons, List.not_mem_nil, or_false, reduceCtorEq, false_or,
                Event.ack.injEq] at hans
              exact ⟨sink, sink', neg, rfl, rfl, hallocate, rfl, hans, rfl⟩

theorem sendToClient_granted (hans : .ack a ∈ (srv.sendToClient w h env auth).events)
    (hok : a.ok = true) :
    ∃ name source neg crc, servedObjectName h.name = .ok name ∧
      (srv.openSource w name env).1 = .ok source ∧ source.len ≤ 2 ^ 63 - 1 ∧
      srv.negotiate h env = .ok neg ∧
      a = { srv.okAck h env auth neg with size := source.len, crc32c := crc } ∧
      (srv.sendToClient w h env auth).world = w := by
  have hrefused := ack_ne_ackErr hok
  unfold sendToClient at hans ⊢
  cases hname : servedObjectName h.name with
  | error e =>
    rw [hname] at hans
    simp [hrefused] at hans
  | ok name =>
    rw [hname] at hans
    obtain ⟨kind, hevent⟩ := openSource_event srv w name env
    dsimp only at hans ⊢
    refine ⟨name, ?_⟩
    generalize srv.openSource w name env = opened at hans hevent ⊢
    obtain ⟨res, ev⟩ := opened
    dsimp only at hevent
    subst hevent
    cases res with
    | error e =>
      simp [hrefused] at hans
    | ok source =>
      simp only [List.mem_cons, reduceCtorEq, false_or] at hans
      have hworld := (srv.sendFrom_spec w h env auth source).1
      unfold sendFrom at hans
      split_ifs at hans with hmax hsize
      · simp [hrefused] at hans
      · simp [hrefused] at hans
      · split at hans
        · simp [hrefused] at hans
        · rename_i crc hcrc
          split at hans
          · cases hans
          · split at hans
            · simp [hrefused] at hans
            · rename_i neg hneg
              split at hans
              · cases hans
              · exact ⟨source, neg, crc, rfl, rfl, by omega, hneg,
                  Event.ack.inj (List.mem_singleton.mp hans), hworld⟩

theorem ack_of_granted (hans : .ack a ∈ (srv.handleHello peer w h env).events) (hok : a.ok = true) :
    ∃ auth neg size crc, (srv.admission peer h).2 = .ok auth ∧ srv.negotiate h env = .ok neg ∧
      a = { srv.okAck h env auth neg with size := size, crc32c := crc } := by
  obtain ⟨hlimits, auth, hauth, hpush, hpull⟩ := handleHello_granted hans hok
  rcases hlimits.mode with hmode | hmode
  · obtain ⟨-, -, -, neg, -, -, -, hneg, hack, -⟩ := recvFromClient_granted (hpush hmode).1 hok
    exact ⟨auth, neg, _, _, hauth, hneg, hack⟩
  · obtain ⟨-, source, neg, crc, -, -, -, hneg, hack, -⟩ := sendToClient_granted (hpull hmode).1 hok
    exact ⟨auth, neg, _, _, hauth, hneg, hack⟩

theorem okAck_pubKey (srv : Server) (h : Hello) (env : HelloEnv) (auth : Option AuthState)
    (neg : Negotiated) : (srv.okAck h env auth neg).pubKey.getD [] = neg.pubKey := by
  show (if neg.pubKey.isEmpty then none else some neg.pubKey).getD [] = neg.pubKey
  cases neg.pubKey with
  | nil => rfl
  | cons b bs => rfl

/-! ### Objects -/

/-- The object `name` holds `data`. -/
def Stores (srv : Server) (w : World) (name : String) (data : Bytes) : Prop :=
  match srv.sinkResolver with
  | some _ => (w.sinks name).contents = data
  | none => w.dir name = some (.file data)

/-- All objects but `name` are as they were. -/
def OthersKept (w w' : World) (name : String) : Prop :=
  ∀ other, other ≠ name → w'.dir other = w.dir other ∧ w'.sinks other = w.sinks other

theorem OthersKept.trans {w₁ w₂ w₃ : World} {name : String} (h : OthersKept w₁ w₂ name)
    (h' : OthersKept w₂ w₃ name) : OthersKept w₁ w₃ name := fun other hne =>
  ⟨(h' other hne).1.trans (h other hne).1, (h' other hne).2.trans (h other hne).2⟩

theorem putSink_stores (srv : Server) (w : World) (name : String) (sink : Sink) :
    srv.Stores (srv.putSink w name sink) name sink.contents := by
  unfold Stores putSink
  cases srv.sinkResolver with
  | some _ =>
    show (Function.update w.sinks name sink name).contents = sink.contents
    rw [Function.update_self]
  | none => exact Function.update_self ..

theorem putSink_others (srv : Server) (w : World) (name : String) (sink : Sink) :
    OthersKept w (srv.putSink w name sink) name := by
  intro other hne
  unfold putSink
  cases srv.sinkResolver with
  | some _ => exact ⟨rfl, Function.update_of_ne hne ..⟩
  | none => exact ⟨Function.update_of_ne hne .., rfl⟩

theorem openSink_others (srv : Server) (w : World) (name : String) (env : HelloEnv) :
    OthersKept w (srv.openSink w name env).2.1 name := by
  intro other hne
  unfold openSink
  cases srv.sinkResolver with
  | some _ => exact ⟨rfl, rfl⟩
  | none =>
    refine ⟨?_, rfl⟩
    show (openNoFollow true w.dir name env).2 other = w.dir other
    unfold openNoFollow
    split
    · rfl
    · split <;> first | rfl | exact Function.update_of_ne hne ..

theorem openSource_eq {source : BlockSource} {name : String} (hdir : srv.sourceResolver = none)
    (hopen : (srv.openSource w name env).1 = .ok source) :
    ∃ data, w.dir name = some (.file data) ∧ source = fileSource data env.readFails := by
  unfold openSource at hopen
  rw [hdir] at hopen
  dsimp only at hopen
  unfold openServedSource openNoFollow at hopen
  split at hopen
  · cases hopen
  · split at hopen
    · cases hopen
    · simp only [Bool.false_eq_true, if_false, Except.bind] at hopen
      unfold regularFile at hopen
      split at hopen <;> cases hopen
    · rename_i node hsym hne hnode
      simp only [Except.bind] at hopen
      unfold regularFile at hopen
      split at hopen
      · cases hopen
      · split at hopen
        · cases hopen
          exact ⟨_, hnode, rfl⟩
        · cases hopen
    · cases hopen

end Server

/-! ## The two ends of a push -/

/-- The configuration `send_core_with_stream` starts a sender with. -/
def clientSendConfig (p : ClientParams) (source : BlockSource) (a : Ack) (crypto : Option AeadBox)
    (peer : SocketAddr) (control : Option TransferControl) (stats : Stats) (warm : Option RateWarmStart)
    (hlen : (source.len : Int) < 2 ^ 63)
    (hblock : p.blockSize + dataHeaderSize + aeadTagLen < 2 ^ 63) : SendConfig where
  peer := some peer
  expectedPeerIp := some peer.ip
  source := source
  fileSize := source.len
  blockSize := p.blockSize
  totalBlocks := UInt64.ofNat (numBlocks source.len p.blockSize)
  session := a.session
  rate := p.rateConfig p.rateBps
  crypto := crypto
  control := control
  stats := stats
  warmStart := warmForParams p warm
  fileSize_lt := hlen
  neg_le_fileSize := by omega
  blockSize_lt := hblock

/-- The configuration `recv_from_client` starts a receiver with. -/
def serverRecvConfig (params : TransferParams) (h : Hello) (peerIp : IpAddr) (session : UInt32)
    (crypto : Option AeadBox) (hsize : h.size < 2 ^ 63)
    (hblock : 0 < (effectiveParams params h).blockSize) : RecvConfig where
  fileSize := h.size
  blockSize := (effectiveParams params h).blockSize
  totalBlocks := numBlocks h.size (effectiveParams params h).blockSize
  session := session
  expectedPeerIp := some peerIp
  rate := (effectiveParams params h).rateConfig h.rateBps
  crypto := crypto
  feedbackIntervalUs := (effectiveParams params h).feedbackIntervalUs
  netTickIntervalUs := (effectiveParams params h).netTickIntervalUs
  maxNacksPerPdu := 0
  control := none
  warmStart := warmFromHello h
  blockSize_pos := hblock
  fileSize_lt := hsize
  total_eq := rfl

/-- Whatever is read from the source is a part of `data`. -/
structure BlockSource.Serves (src : BlockSource) (data : Bytes) : Prop where
  len : src.len = data.length
  read : ∀ off n bytes, src.readExactAt off n = some bytes → bytes = slice data off n

theorem fileSource_serves (data : Bytes) (fails : Nat → Nat → Bool) :
    (fileSource data fails).Serves data where
  len := rfl
  read off n bytes h := by
    simp only [fileSource] at h
    split_ifs at h
    exact memSource_read h

theorem numBlocks_le (size : Int) (blockSize : Nat) (hpos : 0 < blockSize) :
    numBlocks size blockSize ≤ size.toNat := by
  by_contra hlt
  have hin : size.toNat * blockSize < size.toNat := (lt_numBlocks_iff hpos).mp (not_le.mp hlt)
  have hmul := Nat.le_mul_of_pos_right size.toNat hpos
  omega

theorem toNat_totalBlocks {size : Int} {blockSize : Nat} (hpos : 0 < blockSize) (hsize : size < 2 ^ 63) :
    (UInt64.ofNat (numBlocks size blockSize)).toNat = numBlocks size blockSize := by
  have hle := numBlocks_le size blockSize hpos
  have hlt : numBlocks size blockSize < UInt64.size := by
    rw [show UInt64.size = 2 ^ 64 from rfl]
    omega
  exact UInt64.toNat_ofNat_of_lt' hlt

/-! ## Exchanges -/

/-- A request that a call went through with: the call wrote `hello`, the server answered with `ack`,
the call read that and returned `Ok`. -/
structure Exchange (dir : Direction) where
  client : Client
  p : ClientParams
  job : Job
  env : TransferEnv
  tracked : Bool
  warm : Option RateWarmStart
  before : World
  srv : Server
  peer : SocketAddr
  world : Server.World
  henv : Server.HelloEnv
  hello : Hello
  ack : Ack
  wrote : ((coreWithStream client p job env dir tracked warm).runOn before).2.hellos =
    before.hellos ++ [hello]
  answered : .ack ack ∈ (srv.handleHello peer world hello henv).events
  read : env.ack = .ok ack
  returned : ((coreWithStream client p job env dir tracked warm).runOn before).1 = .ok ()
  /-- Both run the same X25519. -/
  kx : client.kx = srv.kx
  comm : ∀ s t, srv.kx.diffieHellman s (srv.kx.publicKey t) =
    srv.kx.diffieHellman t (srv.kx.publicKey s)
  /-- The limits are not above the default: a block fits a datagram. -/
  maxBlockSize_le : srv.limits.maxBlockSize ≤ 65455
  /-- The size of a push is an `i64`. -/
  size_lt : job.size < 2 ^ 63

namespace Exchange

variable {dir : Direction} (x : Exchange dir)

/-- The objects when the server has handled the request. -/
def after : Server.World := (x.srv.handleHello x.peer x.world x.hello x.henv).world

/-- The cipher of the client's end. -/
def clientBox : Option AeadBox :=
  (clientCrypto x.client.kx x.p.encrypt x.ack.encrypt (x.ack.pubKey.getD []) x.ack.session x.ack.cipher
    (clientKeys x.client x.p x.env).1).toOption.join

/-- The cipher of the server's end. -/
def serverBox : Option AeadBox := (x.srv.negotiate x.hello x.henv).toOption.bind Negotiated.box

theorem hello_eq : ∃ crc, x.hello = requestHello x.client x.p x.job x.env dir crc x.warm := by
  obtain ⟨a, box, hthrough⟩ := core_ok (Prod.ext x.returned rfl)
  obtain ⟨crc, hwrote⟩ := hthrough.wrote
  exact ⟨crc, List.singleton_injective (List.append_cancel_left (x.wrote.symm.trans hwrote))⟩

theorem accepted : x.ack.ok = true ∧
    clientCrypto x.client.kx x.p.encrypt x.ack.encrypt (x.ack.pubKey.getD []) x.ack.session
      x.ack.cipher (clientKeys x.client x.p x.env).1 = .ok x.clientBox := by
  obtain ⟨a, box, hthrough⟩ := core_ok (Prod.ext x.returned rfl)
  obtain rfl : a = x.ack := Except.ok.inj (hthrough.read.symm.trans x.read)
  refine ⟨hthrough.ok, ?_⟩
  rw [clientBox, hthrough.crypto]
  rfl

theorem hello_blockSize : x.hello.blockSize = x.p.blockSize := by
  obtain ⟨crc, heq⟩ := x.hello_eq
  rw [heq]
  rfl

theorem blockSize_eq : (effectiveParams x.srv.params x.hello).blockSize = x.p.blockSize := by
  show x.hello.blockSize.toNat = x.p.blockSize
  rw [x.hello_blockSize, Int.toNat_natCast]

theorem blockSize_bounds : 0 < x.p.blockSize ∧ x.p.blockSize ≤ 65455 := by
  have hlimits := (Server.handleHello_granted x.answered x.accepted.1).1
  have hpos := hlimits.blockSize_pos
  have hle := hlimits.blockSize.2
  have hmax := x.maxBlockSize_le
  rw [x.hello_blockSize] at hpos hle
  omega

theorem blockSize_lt : x.p.blockSize + dataHeaderSize + aeadTagLen < 2 ^ 63 := by
  have hhdr : dataHeaderSize = 36 := rfl
  have htag : aeadTagLen = 16 := rfl
  have hle := x.blockSize_bounds.2
  omega

theorem ends_agree {neg : Negotiated} {auth : Option Server.AuthState} {size : Int} {crc : UInt32}
    (hneg : x.srv.negotiate x.hello x.henv = .ok neg)
    (hack : x.ack = { x.srv.okAck x.hello x.henv auth neg with size := size, crc32c := crc }) :
    x.ack.session = x.henv.session ∧ x.serverBox = x.clientBox := by
  have hsession : x.ack.session = x.henv.session := by
    rw [hack]
    rfl
  have hpub : x.ack.pubKey.getD [] = neg.pubKey := by
    rw [hack]
    exact x.srv.okAck_pubKey x.hello x.henv auth neg
  have hencrypt : x.ack.encrypt = neg.enabled := by
    rw [hack]
    rfl
  have hcipher : x.ack.cipher = neg.cipherName := by
    rw [hack]
    rfl
  refine ⟨hsession, ?_⟩
  obtain ⟨crc, heq⟩ := x.hello_eq
  have hserver : x.serverBox = neg.box := by
    rw [serverBox, hneg]
    rfl
  have hclient := x.accepted.2
  rw [hserver]
  rw [Server.negotiate, heq] at hneg
  rw [hencrypt, hpub, hsession, hcipher, x.kx] at hclient
  generalize x.clientBox = box at hclient ⊢
  change negotiateCryptoServer x.srv.kx x.srv.aesHardware x.henv.privKey x.p.encrypt
    ((ciphersIf x.client.aesHardware x.p.encrypt).getD [])
    ((clientKeys x.client x.p x.env).2.getD []) x.henv.session = .ok neg at hneg
  cases hwant : x.p.encrypt with
  | false =>
    rw [hwant] at hneg hclient
    cases hneg
    cases hclient
    rfl
  | true =>
    have hkeys : clientKeys x.client x.p x.env =
        (some x.env.privKey, some (x.srv.kx.publicKey x.env.privKey)) := by
      rw [clientKeys, hwant, x.kx]
      rfl
    rw [hwant, hkeys] at hneg
    rw [hwant, hkeys] at hclient
    obtain ⟨serverBox, hderived, -, hanswer⟩ := negotiate_cases hneg
    rw [hanswer] at hclient ⊢
    simp only [clientCrypto, Bool.not_true, Bool.false_eq_true, if_false] at hclient
    split at hclient
    · cases hclient
    · rename_i clientBox hclientDerived
      cases hclient
      exact congrArg some
        (deriveAead_symm (x.comm x.henv.privKey x.env.privKey) hderived hclientDerived)

/-! ### What the data plane delivers -/

end Exchange

/-- An undisturbed data plane leaves `contents` in the sink: the receiver has flushed the whole
object, or the sender has returned `Ok`. -/
def Transferred (prim : Primitives) (scfg : SendConfig) (rcfg : RecvConfig) (sink : Sink) (os : AllocOs)
    (contents : Bytes) : Prop :=
  ∃ (n : Nat) (sink' : Sink) (recv : Receiver.State rcfg n) (as : List (LoopAct n)) (s : Loop rcfg n),
    sink.allocate os rcfg.fileSize.toNat = (.ok (), sink') ∧
    Receiver.newReceiver rcfg n sink' = some recv ∧
    Steps (Loop.step prim scfg) (Loop.Undisturbed scfg) (.start scfg recv) as s ∧
    (s.recv.sh.flushedBlocks = rcfg.totalBlocks ∨ s.send.pacerPc.result = some (.ok ())) ∧
    s.recv.sh.sink.contents = contents

theorem Transfer.contents_eq {prim : Primitives} {scfg : SendConfig} {rcfg : RecvConfig}
    {data contents : Bytes} {sink : Sink} {os : AllocOs} (ha : prim.aead.Inverts)
    (htr : Transfer scfg rcfg data) (h : Transferred prim scfg rcfg sink os contents) :
    contents = data := by
  obtain ⟨n, sink', recv, as, s, halloc, hnew, hrun, hend, rfl⟩ := h
  rcases hend with hflushed | hok
  · obtain ⟨bs, hbs⟩ := Loop.recv_run_undisturbed hrun
    exact contents_of_flushed ha htr halloc hnew hbs hflushed
  · exact Loop.contents_of_sender_ok ha htr halloc hnew hrun hok

theorem transferred_of_check {prim : Primitives} {scfg : SendConfig} {rcfg : RecvConfig} {n : Nat}
    {sink sink' : Sink} {os : AllocOs} {contents : Bytes} (as : List (LoopAct n))
    (halloc : sink.allocate os rcfg.fileSize.toNat = (.ok (), sink'))
    (h : ((Receiver.newReceiver rcfg n sink').any fun recv =>
      (exec (fun s act => if Loop.Undisturbed scfg s act then Loop.step prim scfg s act else none)
        (.start scfg recv) as).any fun s => s.recv.sh.flushedBlocks == rcfg.totalBlocks &&
          s.recv.sh.sink.contents == contents) = true) :
    Transferred prim scfg rcfg sink os contents := by
  obtain ⟨recv, s, hnew, hrun, hQ⟩ := exists_steps_of_exec_check _ (Loop.start scfg) _ as
    (Loop.Undisturbed scfg) _ h
  simp only [Bool.and_eq_true, beq_iff_eq] at hQ
  exact ⟨n, sink', recv, as, s, halloc, hnew, hrun, .inl hQ.1, hQ.2⟩

namespace Exchange

section push

variable (x : Exchange .push)

theorem hello_size : x.hello.size = x.job.size := by
  obtain ⟨crc, heq⟩ := x.hello_eq
  rw [heq]
  rfl

theorem push_mode : x.hello.mode = modeSend := by
  obtain ⟨crc, heq⟩ := x.hello_eq
  rw [heq]
  rfl

/-- The client's end. -/
def pushSender (source : BlockSource) (hsize : x.job.size = source.len) (peer : SocketAddr)
    (control : Option TransferControl) (stats : Stats) : SendConfig :=
  clientSendConfig x.p source x.ack x.clientBox peer control stats x.warm (hsize ▸ x.size_lt)
    x.blockSize_lt

/-- The server's end. -/
def pushReceiver : RecvConfig :=
  (serverRecvConfig x.srv.params x.hello x.peer.ip x.henv.session x.serverBox
    (x.hello_size.symm ▸ x.size_lt) (x.blockSize_eq.symm ▸ x.blockSize_bounds.1)).withDefaults

theorem push_transfer {source : BlockSource} {data : Bytes} (hsize : x.job.size = source.len)
    (hserves : source.Serves data) (peer : SocketAddr) (control : Option TransferControl) (stats : Stats)
    (hsession : x.ack.session = x.henv.session) (hbox : x.serverBox = x.clientBox) :
    Transfer (x.pushSender source hsize peer control stats) x.pushReceiver data where
  session := hsession
  blockSize := x.blockSize_eq.symm
  blockSize_le := x.blockSize_eq.trans_le x.blockSize_bounds.2
  fileSize := (x.hello_size.trans hsize).symm
  total := by
    show (UInt64.ofNat (numBlocks source.len x.p.blockSize)).toNat =
      numBlocks x.hello.size (effectiveParams x.srv.params x.hello).blockSize
    rw [toNat_totalBlocks x.blockSize_bounds.1 (hsize ▸ x.size_lt), x.blockSize_eq, x.hello_size, hsize]
  crypto := hbox.symm
  length := by
    show (data.length : Int) = x.hello.size
    rw [x.hello_size, hsize, hserves.len]
  serves := hserves.read

theorem push_granted : ∃ name sink sink', Server.servedObjectName x.job.name = .ok name ∧
    (x.srv.openSink x.world name x.henv).1 = .ok sink ∧
    x.after = x.srv.putSink (x.srv.putSink (x.srv.openSink x.world name x.henv).2.1 name sink') name
      { sink' with contents := x.henv.contents } ∧
    x.ack.session = x.henv.session ∧ x.serverBox = x.clientBox := by
  have hname : x.hello.name = x.job.name := by
    obtain ⟨crc, heq⟩ := x.hello_eq
    rw [heq]
    rfl
  obtain ⟨-, auth, -, hpush, -⟩ := Server.handleHello_granted x.answered x.accepted.1
  obtain ⟨hans, hworld⟩ := hpush x.push_mode
  obtain ⟨name, sink, sink', neg, hserved, hopen, -, hneg, hack, hafter⟩ :=
    Server.recvFromClient_granted hans x.accepted.1
  exact ⟨name, sink, sink', hname ▸ hserved, hopen, hworld.trans hafter, x.ends_agree hneg hack⟩

end push

/-- **A push stores the object.** The server opens the object that the request names, sized or created
for it, and touches no other. The two ends that the exchange starts are those of one transfer, and if
it is undisturbed, the object holds the bytes of the client's source. -/
theorem push_stores (x : Exchange .push) {prim : Primitives} (ha : prim.aead.Inverts)
    {source : BlockSource} {data : Bytes} (hsize : x.job.size = source.len)
    (hserves : source.Serves data) :
    ∃ name sink, Server.servedObjectName x.job.name = .ok name ∧
      (x.srv.openSink x.world name x.henv).1 = .ok sink ∧
      Server.OthersKept x.world x.after name ∧
      ∀ peer control stats, Transfer (x.pushSender source hsize peer control stats) x.pushReceiver data ∧
        (Transferred prim (x.pushSender source hsize peer control stats) x.pushReceiver sink x.henv.alloc
          x.henv.contents → x.srv.Stores x.after name data) := by
  obtain ⟨name, sink, sink', hname, hopen, hafter, hsession, hbox⟩ := x.push_granted
  refine ⟨name, sink, hname, hopen, ?_, fun peer control stats => ?_⟩
  · rw [hafter]
    exact (Server.openSink_others x.srv x.world name x.henv).trans
      ((x.srv.putSink_others _ name sink').trans (x.srv.putSink_others _ name _))
  · have htransfer := x.push_transfer hsize hserves peer control stats hsession hbox
    refine ⟨htransfer, fun hdone => ?_⟩
    rw [hafter, htransfer.contents_eq ha hdone]
    exact Server.putSink_stores ..

/-! ### One byte, pushed -/

def byteFile : BlockSource := fileSource [7] fun _ _ => false

theorem byteFile_serves : byteFile.Serves [7] := fileSource_serves [7] _

def byteParams : ClientParams := { plainParams with blockSize := 256 }

/-- The byte 7 is pushed to an empty server under the name `a`. -/
def pushByteA : Exchange .push where
  client := plainClient
  p := byteParams
  job := { name := "a", size := 1 }
  env := { sourceCrc := .ok 0x86b737ba, ack := .ok { ok := true, session := 9, name := "a" } }
  tracked := false
  warm := none
  before := {}
  srv := .plain
  peer := Server.localPeer
  world := Server.emptyWorld
  henv := { session := 9, contents := [7] }
  hello := clientHello plainClient byteParams modeSend "a" 1 0x86b737ba {} none none
  ack := { ok := true, session := 9, name := "a" }
  wrote := rfl
  answered := by decide +kernel
  read := rfl
  returned := rfl
  kx := rfl
  comm _ _ := rfl
  maxBlockSize_le := by decide
  size_lt := by decide

def serverAddr : SocketAddr := ⟨.v4 0x7f000001, 5001⟩

theorem pushByteA_transferred : Transferred Receiver.oneBlockPrims
    (pushByteA.pushSender byteFile rfl serverAddr none {}) pushByteA.pushReceiver ⟨.file, []⟩ {}
    [7] :=
  transferred_of_check (inTurn oneBlockSendActs (Receiver.oneBlockActs .ok)) rfl (by decide +kernel)

theorem push_stores_byteA : ∃ sink, (Server.plain.openSink Server.emptyWorld "a" {}).1 = .ok sink ∧
    Transferred Receiver.oneBlockPrims (pushByteA.pushSender byteFile rfl serverAddr none {})
      pushByteA.pushReceiver sink {} [7] ∧
    Server.plain.Stores pushByteA.after "a" [7] := by
  obtain ⟨name, sink, hname, hopen, -, hstores⟩ :=
    pushByteA.push_stores (fun _ _ _ => rfl : Receiver.oneBlockPrims.aead.Inverts) rfl
      byteFile_serves
  have hserved : Server.servedObjectName "a" = .ok "a" := by decide +kernel
  obtain rfl : name = "a" := Except.ok.inj (hname.symm.trans hserved)
  obtain rfl : ⟨.file, []⟩ = sink := Except.ok.inj hopen
  exact ⟨_, rfl, pushByteA_transferred, (hstores serverAddr none {}).2 pushByteA_transferred⟩

section pull

variable (x : Exchange .pull)

theorem pull_mode : x.hello.mode = modeRecv := by
  obtain ⟨crc, heq⟩ := x.hello_eq
  rw [heq]
  rfl

theorem pull_granted : ∃ name source, Server.servedObjectName x.job.name = .ok name ∧
    (x.srv.openSource x.world name x.henv).1 = .ok source ∧ (source.len : Int) < 2 ^ 63 ∧
    x.after = x.world ∧ x.ack.size = source.len ∧ x.ack.session = x.henv.session ∧
    x.serverBox = x.clientBox := by
  have hname : x.hello.name = x.job.name := by
    obtain ⟨crc, heq⟩ := x.hello_eq
    rw [heq]
    rfl
  obtain ⟨-, auth, -, -, hpull⟩ := Server.handleHello_granted x.answered x.accepted.1
  obtain ⟨hans, hworld⟩ := hpull x.pull_mode
  obtain ⟨name, source, neg, crc, hserved, hopen, hlen, hneg, hack, hafter⟩ :=
    Server.sendToClient_granted hans x.accepted.1
  exact ⟨name, source, hname ▸ hserved, hopen, by omega, hworld.trans hafter, by rw [hack],
    x.ends_agree hneg hack⟩

theorem ack_size_lt : x.ack.size < 2 ^ 63 := by
  obtain ⟨name, source, -, -, hlen, -, hsize, -⟩ := x.pull_granted
  rw [hsize]
  exact hlen

/-- The server's end. -/
def pullSender (source : BlockSource) (hlen : (source.len : Int) < 2 ^ 63) : SendConfig :=
  sendConfig x.srv.params x.hello
    ⟨x.peer.ip, source, source.len, x.henv.session, x.serverBox, hlen, by omega⟩
    (x.blockSize_eq.symm ▸ x.blockSize_lt)

/-- The client's end. -/
def pullReceiver (peerIp : IpAddr) (control : Option TransferControl) (stats : Stats) : RecvConfig :=
  (recvConfig x.p
    ⟨peerIp, x.ack.size, x.ack.session, x.clientBox, control, stats, x.warm, x.ack_size_lt⟩
    x.blockSize_bounds.1).withDefaults

theorem pull_transfer {source : BlockSource} {data : Bytes} (hlen : (source.len : Int) < 2 ^ 63)
    (hserves : source.Serves data) (peerIp : IpAddr) (control : Option TransferControl) (stats : Stats)
    (hsize : x.ack.size = source.len) (hsession : x.ack.session = x.henv.session)
    (hbox : x.serverBox = x.clientBox) :
    Transfer (x.pullSender source hlen) (x.pullReceiver peerIp control stats) data where
  session := hsession.symm
  blockSize := x.blockSize_eq
  blockSize_le := x.blockSize_bounds.2
  fileSize := hsize.symm
  total := by
    show (UInt64.ofNat (numBlocks source.len
      (effectiveParams x.srv.params x.hello).blockSize)).toNat = numBlocks x.ack.size x.p.blockSize
    rw [x.blockSize_eq, toNat_totalBlocks x.blockSize_bounds.1 hlen, hsize]
  crypto := hbox
  length := by
    show (data.length : Int) = x.ack.size
    rw [hsize, hserves.len]
  serves := hserves.read

end pull

/-- **A pull fetches the object.** The server opens the object that the request names and changes
none. The two ends that the exchange starts are those of one transfer, and if it is undisturbed, the
client's sink holds the bytes that the opened source serves. -/
theorem pull_fetches (x : Exchange .pull) {prim : Primitives} (ha : prim.aead.Inverts) :
    ∃ (name : String) (source : BlockSource) (hlen : (source.len : Int) < 2 ^ 63),
      Server.servedObjectName x.job.name = .ok name ∧
      (x.srv.openSource x.world name x.henv).1 = .ok source ∧ x.after = x.world ∧
      ∀ data, source.Serves data → ∀ peerIp control stats,
        Transfer (x.pullSender source hlen) (x.pullReceiver peerIp control stats) data ∧
        ∀ sink os contents, Transferred prim (x.pullSender source hlen)
          (x.pullReceiver peerIp control stats) sink os contents → contents = data := by
  obtain ⟨name, source, hname, hopen, hlen, hafter, hsize, hsession, hbox⟩ := x.pull_granted
  refine ⟨name, source, hlen, hname, hopen, hafter, fun data hserves peerIp control stats => ?_⟩
  have htransfer := x.pull_transfer hlen hserves peerIp control stats hsize hsession hbox
  exact ⟨htransfer, fun sink os contents hdone => htransfer.contents_eq ha hdone⟩

/-! ### The byte, pulled -/

/-- The byte is pulled from the server to which it was pushed. -/
def pullByteA : Exchange .pull where
  client := plainClient
  p := byteParams
  job := { name := "a" }
  env :=
    { ack := .ok { ok := true, session := 9, size := 1, crc32c := 0x86b737ba, name := "a" }
      sinkCrc := .ok (some 0x86b737ba) }
  tracked := false
  warm := none
  before := {}
  srv := .plain
  peer := Server.localPeer
  world := pushByteA.after
  henv := { session := 9 }
  hello := clientHello plainClient byteParams modeRecv "a" 0 0 {} none none
  ack := { ok := true, session := 9, size := 1, crc32c := 0x86b737ba, name := "a" }
  wrote := rfl
  answered := by decide +kernel
  read := rfl
  returned := rfl
  kx := rfl
  comm _ _ := rfl
  maxBlockSize_le := by decide
  size_lt := by decide

theorem byte_len_lt : (byteFile.len : Int) < 2 ^ 63 := by decide

/-- The server's sender hears the START, and then the byte goes the other way. -/
def pullByteActs : List (LoopAct 1) :=
  inTurn (.pacer { recv := .datagram (startBytes 9) Server.localPeer } :: oneBlockSendActs)
    (Receiver.oneBlockActs .ok)

theorem pullByteA_transferred : Transferred Receiver.oneBlockPrims
    (pullByteA.pullSender byteFile byte_len_lt) (pullByteA.pullReceiver serverAddr.ip none {})
    ⟨.mem, []⟩ {} [7] :=
  transferred_of_check pullByteActs rfl (by decide +kernel)

theorem pull_fetches_byteA : ∃ source, ∃ hlen : ((source : BlockSource).len : Int) < 2 ^ 63,
    (Server.plain.openSource pushByteA.after "a" {}).1 = .ok source ∧
    Transferred Receiver.oneBlockPrims (pullByteA.pullSender source hlen)
      (pullByteA.pullReceiver serverAddr.ip none {}) ⟨.mem, []⟩ {} [7] ∧
    ∀ sink os contents, Transferred Receiver.oneBlockPrims (pullByteA.pullSender source hlen)
      (pullByteA.pullReceiver serverAddr.ip none {}) sink os contents → contents = [7] := by
  obtain ⟨name, source, hlen, hname, hopen, -, hfetch⟩ :=
    pullByteA.pull_fetches (fun _ _ _ => rfl : Receiver.oneBlockPrims.aead.Inverts)
  have hserved : Server.servedObjectName "a" = .ok "a" := by decide +kernel
  obtain rfl : name = "a" := Except.ok.inj (hname.symm.trans hserved)
  obtain rfl : byteFile = source := Except.ok.inj hopen
  exact ⟨_, hlen, rfl, pullByteA_transferred, (hfetch [7] byteFile_serves serverAddr.ip none {}).2⟩

/-- **What was pushed is pulled.** A client pushes to a server of a directory, and another client, or
the same, pulls a name for the same object while the server holds it as the push left it. If both
transfers are undisturbed, the second brings back the bytes of the first. -/
theorem pull_after_push (x : Exchange .push) (y : Exchange .pull) {prim : Primitives}
    (ha : prim.aead.Inverts) {source : BlockSource} {data : Bytes} (hsize : x.job.size = source.len)
    (hserves : source.Serves data) (hsrv : y.srv = x.srv) (hsink : x.srv.sinkResolver = none)
    (hsource : x.srv.sourceResolver = none)
    (hname : Server.servedObjectName y.job.name = Server.servedObjectName x.job.name)
    (hkept : ∀ name, Server.servedObjectName x.job.name = .ok name →
      y.world.dir name = x.after.dir name) :
    ∃ (name : String) (sink : Sink) (served : BlockSource) (hlen : (served.len : Int) < 2 ^ 63),
      Server.servedObjectName x.job.name = .ok name ∧
      (x.srv.openSink x.world name x.henv).1 = .ok sink ∧
      (y.srv.openSource y.world name y.henv).1 = .ok served ∧
      ∀ peer control stats peerIp control' stats' sink' os contents,
      Transferred prim (x.pushSender source hsize peer control stats) x.pushReceiver sink x.henv.alloc
        x.henv.contents →
      Transferred prim (y.pullSender served hlen) (y.pullReceiver peerIp control' stats') sink' os
        contents → contents = data := by
  obtain ⟨name, sink, sink', hserved, hopened, hafter, hsession, hbox⟩ := x.push_granted
  obtain ⟨name', served, hserved', hopen, hlen, -, hsize', hsession', hbox'⟩ := y.pull_granted
  obtain rfl : name' = name := Except.ok.inj (hserved'.symm.trans (hname.trans hserved))
  refine ⟨name', sink, served, hlen, hserved, hopened, hopen,
    fun peer control stats peerIp control' stats' sink' os contents hpush hpull => ?_⟩
  have hdata := (x.push_transfer hsize hserves peer control stats hsession hbox).contents_eq ha hpush
  have hstored : x.srv.Stores x.after name' data := by
    rw [hafter, hdata]
    exact Server.putSink_stores ..
  -- the directory that the pull finds is the one the push left
  obtain ⟨found, hfound, rfl⟩ := Server.openSource_eq (hsrv ▸ hsource) hopen
  unfold Server.Stores at hstored
  rw [hsink] at hstored
  rw [hkept name' hserved, hstored] at hfound
  cases hfound
  exact (y.pull_transfer hlen (fileSource_serves ..) peerIp control' stats' hsize' hsession'
    hbox').contents_eq ha hpull

theorem pull_after_push_byteA : ∃ contents, contents = [7] ∧
    Transferred Receiver.oneBlockPrims (pushByteA.pushSender byteFile rfl serverAddr none {})
      pushByteA.pushReceiver ⟨.file, []⟩ {} [7] ∧
    Transferred Receiver.oneBlockPrims (pullByteA.pullSender byteFile byte_len_lt)
      (pullByteA.pullReceiver serverAddr.ip none {}) ⟨.mem, []⟩ {} contents := by
  have hsize : pushByteA.job.size = byteFile.len := rfl
  have hinv : Receiver.oneBlockPrims.aead.Inverts := fun _ _ _ => rfl
  have hkept : ∀ name, Server.servedObjectName pushByteA.job.name = .ok name →
      pullByteA.world.dir name = pushByteA.after.dir name := fun _ _ => rfl
  obtain ⟨name, sink, served, hlen, hname, hopened, hopen, hround⟩ := pull_after_push pushByteA pullByteA
    hinv hsize byteFile_serves rfl rfl rfl rfl hkept
  have hserved : Server.servedObjectName "a" = .ok "a" := by decide +kernel
  obtain rfl : name = "a" := Except.ok.inj (hname.symm.trans hserved)
  obtain rfl : ⟨.file, []⟩ = sink := Except.ok.inj hopened
  obtain rfl : byteFile = served := Except.ok.inj hopen
  exact ⟨[7], hround serverAddr none {} serverAddr.ip none {} _ _ _ pushByteA_transferred
    pullByteA_transferred, pushByteA_transferred, pullByteA_transferred⟩

end Exchange

end Girth
