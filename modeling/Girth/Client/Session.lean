import Mathlib.Data.List.Infix
import Girth.Control
import Girth.Lib.Call

/-!
# The client's side of a transfer

A push is `send_core_with_stream`, a pull `recv_core_with_stream`: each sends a `Hello` on a control
connection, checks the answer, and runs the data plane. The free functions connect first; a
`ClientSession` keeps the connection of the last successful transfer, and what it learned about the
path, for the next one. The functions are written down as calls on a `World`: the handle of the
transfer, the session, the gauges of the `Stats` in use, and as a history variable the `Hello`s sent.
Every step that can fail has its outcome in a `TransferEnv`.

The data plane appears by its result and by what it leaves in the gauges: a sender sets the target
rate only; a receiver seeds its estimator from the warm start and stores what the estimator says
after every sample that `apply_tick` accepts.
-/

namespace Girth

open Lib

/-! ## Handle -/

inductive TransferPhase
  | queued
  | connecting
  | transferring
  | verifying
  | complete
  | failed
  deriving DecidableEq, Repr

namespace TransferPhase

def asU8 : TransferPhase → UInt8
  | .queued => 0
  | .connecting => 1
  | .transferring => 2
  | .verifying => 3
  | .complete => 4
  | .failed => 5

def fromU8 (v : UInt8) : TransferPhase :=
  if v = 1 then .connecting
  else if v = 2 then .transferring
  else if v = 3 then .verifying
  else if v = 4 then .complete
  else if v = 5 then .failed
  else .queued

theorem fromU8_asU8 (p : TransferPhase) : fromU8 p.asU8 = p := by
  cases p <;> rfl

end TransferPhase

/-- The part of a handle that reports on the transfer. -/
structure TransferHandle where
  phaseCode : UInt8 := 0
  lastError : Option String := none
  deriving DecidableEq

namespace TransferHandle

def phase (h : TransferHandle) : TransferPhase := .fromU8 h.phaseCode

def setPhase (h : TransferHandle) (phase : TransferPhase) : TransferHandle where
  phaseCode := phase.asU8
  lastError := if phase ≠ .failed then none else h.lastError

def setFailed (_ : TransferHandle) (err : String) : TransferHandle where
  phaseCode := TransferPhase.failed.asU8
  lastError := some err

theorem phase_setPhase (h : TransferHandle) (phase : TransferPhase) :
    (h.setPhase phase).phase = phase :=
  TransferPhase.fromU8_asU8 phase

theorem phase_setFailed (h : TransferHandle) (err : String) : (h.setFailed err).phase = .failed :=
  TransferPhase.fromU8_asU8 .failed

end TransferHandle

/-! ## Errors -/

inductive IoErrorKind
  | timedOut
  | wouldBlock
  | notFound
  | other
  deriving DecidableEq

structure IoError where
  kind : IoErrorKind
  text : String
  deriving DecidableEq

inductive GirthError
  | timeout
  | stopped
  | authDenied
  | notFound
  | versionMismatch
  | integrity
  | protocol (text : String)
  | io (e : IoError)
  deriving DecidableEq

namespace GirthError

def text : GirthError → String
  | .timeout => "transfer timed out"
  | .stopped => "transfer cancelled"
  | .authDenied => "authentication denied"
  | .notFound => "object not found"
  | .versionMismatch => "protocol version mismatch"
  | .integrity => "integrity check failed (crc32c mismatch)"
  | .protocol s => "protocol error: " ++ s
  | .io e => "io error: " ++ e.text

/-- The conversion behind `?` on an I/O result. -/
def ofIo (e : IoError) : GirthError :=
  match e.kind with
  | .timedOut | .wouldBlock => .timeout
  | .notFound => .notFound
  | .other => .io e

/-- Classify a server's rejection by its text. -/
def fromServerErr (msg : String) : GirthError :=
  let m := msg.toLower.toList
  if "version mismatch".toList <:+: m then .versionMismatch
  else if "auth".toList <:+: m ∨ "denied".toList <:+: m ∨ "unauthorized".toList <:+: m then .authDenied
  else if "no such file".toList <:+: m ∨ "not found".toList <:+: m ∨ "notfound".toList <:+: m then
    .notFound
  else .protocol msg

end GirthError

/-- Map a server's rejection to an error. -/
def rejectError (a : Ack) : GirthError :=
  if a.authRequired then .authDenied else .fromServerErr a.err

/-! ## The world of a call -/

structure ClientSession where
  /-- A control connection is kept. -/
  connected : Bool := false
  warmStart : RateWarmStart := {}
  deriving DecidableEq

/-- The gauges of `Stats` that outlive a transfer. -/
structure Gauges where
  targetRateBps : Nat := 0
  srttNetUs : Nat := 0
  baseRttUs : Nat := 0
  deriving DecidableEq

structure World where
  handle : TransferHandle := {}
  session : ClientSession := {}
  gauges : Gauges := {}
  hellos : List Hello := []

abbrev ClientCall := Call GirthError World Unit

structure ClientParams extends TransferParams where
  encrypt : Bool := false

/-- A client, with the crates it calls. -/
structure Client where
  hmac : Hmac
  kx : KeyExchange
  aesHardware : Bool

/-- What the environment decides in a transfer. -/
structure TransferEnv where
  connect : Except IoError Unit := .ok ()
  privKey : Bytes := []
  sourceCrc : Except IoError UInt32 := .ok 0
  write : Except IoError Unit := .ok ()
  ack : Except IoError Ack
  allocate : Except IoError Unit := .ok ()
  resolvePeer : Except IoError Unit := .ok ()
  socket : Except IoError Unit := .ok ()
  /-- The samples of the network RTT, as they reach `apply_tick`. -/
  netSamples : List ℚ := []
  /-- What the data plane leaves as the target rate. -/
  finalRateBps : Nat := 0
  run : Except IoError Unit := .ok ()
  finalize : Except IoError Unit := .ok ()
  sinkCrc : Except IoError (Option UInt32) := .ok none

/-- `?` on an I/O result. -/
def tryIo {α : Type} (r : Except IoError α) : Call GirthError World α :=
  .ofExcept (r.mapError .ofIo)

/-- `mark_phase`; `tracked` says that the caller passed a handle. -/
def markPhase (tracked : Bool) (phase : TransferPhase) : ClientCall :=
  modify fun w => if tracked then { w with handle := w.handle.setPhase phase } else w

/-- `mark_result` for a caller with a handle. -/
def markResult (c : ClientCall) : ClientCall :=
  tryCatch c fun e => do
    modify fun w => { w with handle := w.handle.setFailed e.text }
    throw e

def warmForParams (p : ClientParams) (warm : Option RateWarmStart) : Option RateWarmStart :=
  if !p.adaptive then none else warm.filter fun w => !w.isEmpty

/-- What the two directions put into the opening message. -/
def clientHello (client : Client) (p : ClientParams) (mode name : String) (size : Int) (crc : UInt32)
    (warm : RateWarmStart) (pubKey authMac : Option Bytes) : Hello where
  version := protocolVersion
  mode := mode
  name := name
  size := size
  blockSize := p.blockSize
  rateBps := p.rateBps
  maxBps := p.maxBps
  adaptive := p.adaptive
  alphaBps := p.alphaBps
  crc32c := crc
  warmRateBps := warm.rateBps
  warmSrttNetUs := warm.srttNetUs
  warmBaseRttUs := warm.baseRttUs
  encrypt := p.encrypt
  ciphers := ciphersIf client.aesHardware p.encrypt
  pubKey := pubKey
  authMac := authMac

/-- `write_json` of a Hello. -/
def writeHello (hello : Hello) (env : TransferEnv) : ClientCall := do
  modify fun w => { w with hellos := w.hellos ++ [hello] }
  tryIo env.write

def rejectUnlessOk (a : Ack) : ClientCall :=
  .ofExcept (if !a.ok then .error (rejectError a) else .ok ())

/-- A client that authenticated expects the server's proof. -/
def verifyServerAuth (client : Client) (token clientMac : Option Bytes) (a : Ack) : ClientCall :=
  .ofExcept (match token, clientMac with
    | some token, some cmac =>
      match a.authMac with
      | some smac =>
        if serverMac client.hmac token a.session (a.pubKey.getD []) cmac == smac then .ok ()
        else .error .authDenied
      | none => .error .authDenied
    | _, _ => .ok ())

def clientCryptoCall (client : Client) (p : ClientParams) (a : Ack) (privKey : Option Bytes) :
    Call GirthError World (Option AeadBox) :=
  .ofExcept ((clientCrypto client.kx p.encrypt a.encrypt (a.pubKey.getD []) a.session a.cipher
    privKey).mapError .protocol)

/-! ## The data plane, by its gauges -/

/-- `Sender::new` and `run`: only the target rate is a gauge of the sender. -/
def runSender (env : TransferEnv) : ClientCall := do
  modify fun w => { w with gauges := { w.gauges with targetRateBps := env.finalRateBps } }
  tryIo env.run

/-- The gauges and the network estimator that `new_receiver` starts with. -/
def newReceiverGauges (g : Gauges) (warm : Option RateWarmStart) : Gauges × RttEstimator :=
  match warm with
  | some w => ({ g with srttNetUs := w.srttNetUs, baseRttUs := w.baseRttUs },
      RttEstimator.new.seed w.srttNetUs w.baseRttUs)
  | none => (g, .new)

/-- A network sample reaches `apply_tick`. -/
def feedNet (x : Gauges × RttEstimator) (sample : ℚ) : Gauges × RttEstimator :=
  if ¬ (0 ≤ sample ∧ sample ≤ 60000000) then x
  else
    let net := (x.2.sample sample).1
    ({ x.1 with srttNetUs := asU64 net.srtt, baseRttUs := asU64 net.minRtt }, net)

/-- `new_receiver` and `run`. -/
def runReceiver (warm : Option RateWarmStart) (env : TransferEnv) : ClientCall := do
  modify fun w =>
    let g := (env.netSamples.foldl feedNet (newReceiverGauges w.gauges warm)).1
    { w with gauges := { g with targetRateBps := env.finalRateBps } }
  tryIo env.run

/-! ## Push and pull -/

/-- What a transfer is about. -/
structure Job where
  name : String
  /-- Of a push. -/
  size : Int := 0
  token : Option Bytes := none

section

variable (client : Client) (p : ClientParams) (job : Job) (env : TransferEnv)

def clientKeys : Option Bytes × Option Bytes :=
  if p.encrypt then (some env.privKey, some (client.kx.publicKey env.privKey)) else (none, none)

def clientAuth (mode : String) (size : Int) (pubKey : Option Bytes) : Option Bytes :=
  job.token.map fun t =>
    clientMac client.hmac t protocolVersion mode job.name size (pubKey.getD [])

/-- `send_core_with_stream`. -/
def sendCoreWithStream (tracked : Bool) (warmStart : Option RateWarmStart) : ClientCall := do
  let crc ← tryIo env.sourceCrc
  let keys := clientKeys client p env
  let authMac := clientAuth client job modeSend job.size keys.2
  let warm := warmForParams p warmStart
  writeHello (clientHello client p modeSend job.name job.size crc (warm.getD {}) keys.2 authMac) env
  let a ← tryIo env.ack
  rejectUnlessOk a
  verifyServerAuth client job.token authMac a
  let _ ← clientCryptoCall client p a keys.1
  tryIo env.resolvePeer
  tryIo env.socket
  markPhase tracked .transferring
  runSender env
  markPhase tracked .complete

/-- `recv_core_with_stream`. -/
def recvCoreWithStream (tracked : Bool) (warmStart : Option RateWarmStart) : ClientCall := do
  let keys := clientKeys client p env
  let authMac := clientAuth client job modeRecv 0 keys.2
  let warm := warmForParams p warmStart
  writeHello (clientHello client p modeRecv job.name 0 0 (warm.getD {}) keys.2 authMac) env
  let a ← tryIo env.ack
  rejectUnlessOk a
  verifyServerAuth client job.token authMac a
  let _ ← clientCryptoCall client p a keys.1
  tryIo env.allocate
  tryIo env.resolvePeer
  tryIo env.socket
  markPhase tracked .transferring
  runReceiver warm env
  markPhase tracked .verifying
  tryIo env.finalize
  let got ← tryIo env.sinkCrc
  .ofExcept (if got.any (· ≠ a.crc32c) then .error .integrity else .ok ())
  markPhase tracked .complete

inductive Direction
  | push
  | pull
  deriving DecidableEq

def coreWithStream : Direction → Bool → Option RateWarmStart → ClientCall
  | .push => sendCoreWithStream client p job env
  | .pull => recvCoreWithStream client p job env

/-- `send_core` and `recv_core`. -/
def core (tracked : Bool) (dir : Direction) : ClientCall := do
  markPhase tracked .connecting
  tryIo env.connect
  coreWithStream client p job env dir tracked none

def clientSendFrom : ClientCall := core client p job env false .push

def clientRecvInto : ClientCall := core client p job env false .pull

def clientSendFromWithHandle : ClientCall := markResult (core client p job env true .push)

def clientRecvIntoWithHandle : ClientCall := markResult (core client p job env true .pull)

/-! ## Sessions -/

/-- The kept connection, or a new one. -/
def getOrConnect : ClientCall := do
  let w ← get
  if w.session.connected then
    modify fun w => { w with session := { w.session with connected := false } }
  else .ofExcept (env.connect.mapError .io)

def putStream : ClientCall :=
  modify fun w => { w with session := { w.session with connected := true } }

def warmFor : Call GirthError World (Option RateWarmStart) := do
  let w ← get
  pure (warmForParams p (some w.session.warmStart))

/-- What a session takes over from the gauges of a transfer: every one that is not zero. -/
def RateWarmStart.record (warm : RateWarmStart) (g : Gauges) : RateWarmStart where
  rateBps := if 0 < g.targetRateBps then g.targetRateBps else warm.rateBps
  srttNetUs := if 0 < g.srttNetUs then g.srttNetUs else warm.srttNetUs
  baseRttUs := if 0 < g.baseRttUs then g.baseRttUs else warm.baseRttUs

def recordWarmStart : ClientCall :=
  modify fun w =>
    if !p.adaptive then w
    else { w with session := { w.session with warmStart := w.session.warmStart.record w.gauges } }

/-- `send_from` and `recv_into`. -/
def sessionCall (dir : Direction) : ClientCall := do
  getOrConnect env
  let warm ← warmFor p
  coreWithStream client p job env dir false warm
  recordWarmStart p
  putStream

/-- `send_from_with_handle` and `recv_into_with_handle`. -/
def sessionCallWithHandle (dir : Direction) : ClientCall := do
  markPhase true .connecting
  getOrConnect env
  let warm ← warmFor p
  markResult (coreWithStream client p job env dir true warm)
  recordWarmStart p
  putStream

namespace ClientSession

def sendFrom : ClientCall := sessionCall client p job env .push

def recvInto : ClientCall := sessionCall client p job env .pull

def sendFromWithHandle : ClientCall := sessionCallWithHandle client p job env .push

def recvIntoWithHandle : ClientCall := sessionCallWithHandle client p job env .pull

end ClientSession

end

/-! ## Without a token and in the clear -/

def plainClient : Client := ⟨⟨fun _ _ => []⟩, .unused, true⟩

def plainParams : ClientParams := { defaultParams with encrypt := false }

end Girth
