import Girth.Crypto
import Girth.Rate

/-!
# The control plane: messages, parameters and proofs of possession

A client opens a transfer with a `Hello`, the server answers with an `Ack`. Both ends turn their
tunable parameters into a rate configuration (`TransferParams.rateConfig`).

With a pre-shared token the client proves possession of it by a MAC over the fields of the request
and its ephemeral public key, and the server answers with a MAC over the session and its own key.
HMAC-SHA256 is a parameter of the model: a function of key and message.

`basename` is the last component of a path, by the rules of Unix paths: empty components and `.` are
skipped, and a path that ends in `..` or has no component has none, in which case the whole text is
taken.
-/

namespace Girth

open Lib

def modeSend : String := "send"
def modeRecv : String := "recv"

/-- The client's opening message. -/
structure Hello where
  version : Int := 0
  mode : String := ""
  name : String := ""
  size : Int := 0
  blockSize : Int := 0
  rateBps : Nat := 0
  maxBps : Nat := 0
  adaptive : Bool := false
  alphaBps : Nat := 0
  crc32c : UInt32 := 0
  warmRateBps : Nat := 0
  warmSrttNetUs : Nat := 0
  warmBaseRttUs : Nat := 0
  encrypt : Bool := false
  ciphers : Option (List String) := none
  pubKey : Option Bytes := none
  authMac : Option Bytes := none
  deriving DecidableEq

/-- The server's reply. -/
structure Ack where
  ok : Bool := false
  err : String := ""
  udpPort : Int := 0
  session : UInt32 := 0
  size : Int := 0
  crc32c : UInt32 := 0
  name : String := ""
  encrypt : Bool := false
  cipher : String := ""
  pubKey : Option Bytes := none
  authRequired : Bool := false
  authMac : Option Bytes := none
  deriving DecidableEq

/-! ## Parameters -/

/-- The knobs shared by client and server that reach the data plane. -/
structure TransferParams where
  blockSize : Nat
  rateBps : Nat
  maxBps : Nat
  adaptive : Bool
  alphaBps : Nat
  feedbackIntervalUs : Nat
  netTickIntervalUs : Nat
  deriving DecidableEq

def defaultParams : TransferParams where
  blockSize := defaultBlockSize
  rateBps := 100000000
  maxBps := 10000000000
  adaptive := false
  alphaBps := 30000000
  feedbackIntervalUs := 5000
  netTickIntervalUs := 10000

def TransferParams.rateConfig (p : TransferParams) (target : Nat) : RateConfig where
  mode := if p.adaptive then .adaptive else .fixed
  targetBps := target
  minBps := 0
  maxBps := p.maxBps
  alpha := p.alphaBps

/-- The warm start a Hello asks for. -/
def warmFromHello (h : Hello) : Option RateWarmStart :=
  if !h.adaptive then none
  else
    let warm : RateWarmStart := ⟨h.warmRateBps, h.warmSrttNetUs, h.warmBaseRttUs⟩
    if warm.isEmpty then none else some warm

/-! ## Names -/

/-- `Path::file_name`. -/
def fileName (p : String) : Option String :=
  let components := (p.toList.splitOn '/').filter fun c => c ≠ [] ∧ c ≠ ['.']
  match components.getLast? with
  | some c => if c = ['.', '.'] then none else some (String.ofList c)
  | none => none

def basename (p : String) : String := (fileName p).getD p

/-! ## Proofs of possession -/

/-- The HMAC-SHA256 crate: key and message to a MAC. -/
structure Hmac where
  mac : Bytes → Bytes → Bytes

def utf8 (s : String) : Bytes := s.toUTF8.toList

def domainClient : Bytes := utf8 "girth-auth-client-v1"
def domainServer : Bytes := utf8 "girth-auth-server-v1"

/-- The eight bytes of an `i64`. -/
def i64Bytes (v : Int) : Bytes := leBytes 8 (v % 2 ^ 64).toNat

/-- What the client's MAC covers. -/
def clientTranscript (version : Int) (mode name : String) (size : Int) (clientPub : Bytes) : Bytes :=
  domainClient ++ i64Bytes version ++ utf8 mode ++ [0] ++ utf8 name ++ [0] ++ i64Bytes size ++
    clientPub

def clientMac (hmac : Hmac) (token : Bytes) (version : Int) (mode name : String) (size : Int)
    (clientPub : Bytes) : Bytes :=
  hmac.mac token (clientTranscript version mode name size clientPub)

def serverMac (hmac : Hmac) (token : Bytes) (session : UInt32) (serverPub clientMac : Bytes) : Bytes :=
  hmac.mac token (domainServer ++ leBytes 4 session.toNat ++ serverPub ++ clientMac)

def verifyClientMac (hmac : Hmac) (token : Bytes) (version : Int) (mode name : String) (size : Int)
    (clientPub presented : Bytes) : Bool :=
  clientMac hmac token version mode name size clientPub == presented

end Girth
