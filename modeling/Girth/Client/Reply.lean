import Girth.Client.Session
import Girth.Handshake
import Girth.Server.Conn
import Girth.Server.Transcript

/-!
# What the server's reply proves

The reply MAC covers `domain | session | public key | client MAC`. The key has any length, but it
stands between four bytes and a MAC of 32 bytes, so the fields can be read back. The domain of the
reply has the length of the client's domain and differs from it, so no reply is a client's proof.

`serverReply_binds` puts this together for `verify_server_auth`. What the holders of the token have
computed is a set of `MacCall`s. If the MAC of an accepted Ack is one of theirs, they computed it for
this session and key, in reply to this client's own proof.
-/

namespace Girth

open Lib

/-- What the server's MAC covers. -/
def serverTranscript (session : UInt32) (serverPub clientMac : Bytes) : Bytes :=
  domainServer ++ leBytes 4 session.toNat ++ serverPub ++ clientMac

/-- The computations of a holder of the token. -/
inductive MacCall
  | client (version : Int) (mode name : String) (size : Int) (clientPub : Bytes)
  | server (session : UInt32) (serverPub clientMac : Bytes)

namespace MacCall

def mac (hmac : Hmac) (token : Bytes) : MacCall → Bytes
  | .client version mode name size clientPub =>
    clientMac hmac token version mode name size clientPub
  | .server session serverPub cmac => serverMac hmac token session serverPub cmac

def transcript : MacCall → Bytes
  | .client version mode name size clientPub => clientTranscript version mode name size clientPub
  | .server session serverPub cmac => serverTranscript session serverPub cmac

theorem mac_eq (hmac : Hmac) (token : Bytes) (call : MacCall) :
    call.mac hmac token = hmac.mac token call.transcript := by
  cases call <;> rfl

/-- A server replies to a MAC of SHA-256's length. -/
def WellFormed : MacCall → Prop
  | .client .. => True
  | .server _ _ cmac => cmac.length = 32

end MacCall

/-! ## The two transcripts -/

theorem serverTranscript_injective {s₁ s₂ : UInt32} {p₁ p₂ c₁ c₂ : Bytes} (h₁ : c₁.length = 32)
    (h₂ : c₂.length = 32) (h : serverTranscript s₁ p₁ c₁ = serverTranscript s₂ p₂ c₂) :
    s₁ = s₂ ∧ p₁ = p₂ ∧ c₁ = c₂ := by
  unfold serverTranscript at h
  -- the MAC from the end, the domain and the session from the front
  obtain ⟨hfront, hmac⟩ := List.append_inj' h (by rw [h₁, h₂])
  obtain ⟨hhead, hpub⟩ := List.append_inj hfront (by simp)
  have hsession : s₁.toNat = s₂.toNat :=
    leBytes_injective s₁.toNat_lt s₂.toNat_lt (List.append_cancel_left hhead)
  exact ⟨UInt32.toNat_inj.mp hsession, hpub, hmac⟩

theorem serverTranscript_ne_clientTranscript (session : UInt32) (serverPub cmac : Bytes)
    (version : Int) (mode name : String) (size : Int) (clientPub : Bytes) :
    serverTranscript session serverPub cmac ≠
      clientTranscript version mode name size clientPub := by
  have hlen : domainServer.length = domainClient.length := by decide +kernel
  have hne : domainServer ≠ domainClient := by decide +kernel
  intro h
  simp only [serverTranscript, clientTranscript, List.append_assoc] at h
  exact hne (List.append_inj h hlen).1

theorem MacCall.eq_of_transcript_eq {session : UInt32} {serverPub cmac : Bytes}
    (hcmac : cmac.length = 32) {call : MacCall} (hcall : call.WellFormed)
    (h : call.transcript = serverTranscript session serverPub cmac) :
    call = .server session serverPub cmac := by
  cases call with
  | client version mode name size clientPub =>
    exact absurd h.symm
      (serverTranscript_ne_clientTranscript session serverPub cmac version mode name size clientPub)
  | server session' serverPub' cmac' =>
    obtain ⟨rfl, rfl, rfl⟩ := serverTranscript_injective hcall hcmac h
    rfl

/-! ## The check of the client -/

section check

variable {client : Client} {token cmac : Bytes} {a : Ack} {w : World}

/-- A client that authenticated accepts exactly the MAC for the Ack's session and key in reply to
its own proof. -/
theorem verifyServerAuth_iff :
    ((verifyServerAuth client (some token) (some cmac) a).runOn w).1 = .ok () ↔
      a.authMac = some (serverMac client.hmac token a.session (a.pubKey.getD []) cmac) := by
  unfold verifyServerAuth
  cases a.authMac with
  | none => exact ⟨nofun, nofun⟩
  | some smac =>
    dsimp only
    split_ifs with hok
    · exact ⟨fun _ => congrArg some (beq_iff_eq.mp hok).symm, fun _ => rfl⟩
    · refine ⟨nofun, fun h => ?_⟩
      rw [Option.some.inj h, beq_self_eq_true] at hok
      exact absurd rfl hok

end check

/-- **The reply binds its session, its key and the client's proof.** Equal transcripts of replies
have equal fields, and none is the transcript of a proof. So, if HMAC has no collision among the
transcripts MACed by the holders of the token and the one the client checks, an accepted Ack carries
a MAC, not that of a client's proof, and if a holder computed it then for this session and key in
reply to this client. -/
theorem serverReply_binds :
    (∀ (s₁ s₂ : UInt32) (p₁ p₂ c₁ c₂ : Bytes), c₁.length = 32 → c₂.length = 32 →
      serverTranscript s₁ p₁ c₁ = serverTranscript s₂ p₂ c₂ → s₁ = s₂ ∧ p₁ = p₂ ∧ c₁ = c₂) ∧
    (∀ (session : UInt32) (serverPub cmac : Bytes) (version : Int) (mode name : String) (size : Int)
      (clientPub : Bytes), serverTranscript session serverPub cmac ≠
        clientTranscript version mode name size clientPub) ∧
    ∀ (client : Client) (token cmac : Bytes) (a : Ack) (w : World) (issued : Set MacCall),
      cmac.length = 32 → (∀ call ∈ issued, call.WellFormed) →
      Set.InjOn (client.hmac.mac token) (insert
        (serverTranscript a.session (a.pubKey.getD []) cmac) (Set.image MacCall.transcript issued)) →
      ((verifyServerAuth client (some token) (some cmac) a).runOn w).1 = .ok () →
        a.authMac.isSome ∧
        (∀ version mode name size clientPub, .client version mode name size clientPub ∈ issued →
          a.authMac ≠ some (clientMac client.hmac token version mode name size clientPub)) ∧
        ((∃ call ∈ issued, a.authMac = some (call.mac client.hmac token)) →
          .server a.session (a.pubKey.getD []) cmac ∈ issued) := by
  refine ⟨fun _ _ _ _ _ _ => serverTranscript_injective, serverTranscript_ne_clientTranscript, ?_⟩
  intro client token cmac a w issued hcmac hwf hinj hok
  rw [verifyServerAuth_iff] at hok
  have hcall (call : MacCall) (hmem : call ∈ issued)
      (hmac : a.authMac = some (call.mac client.hmac token)) :
      call = .server a.session (a.pubKey.getD []) cmac := by
    rw [hok, Option.some.injEq, MacCall.mac_eq] at hmac
    have htranscript := hinj (Set.mem_insert _ _)
      (Set.mem_insert_of_mem _ (Set.mem_image_of_mem _ hmem)) hmac
    exact MacCall.eq_of_transcript_eq hcmac (hwf call hmem) htranscript.symm
  refine ⟨by rw [hok]; rfl, ?_, ?_⟩
  · intro version mode name size clientPub hmem hmac
    cases hcall _ hmem hmac
  · rintro ⟨call, hmem, hmac⟩
    exact hcall call hmem hmac ▸ hmem

/-! ### One exchange

A pull of `a` under the key of all ones, answered in session 9 under the key of all twos; the token is
`s3cr3t`. -/

def sharedToken : Bytes := utf8 "s3cr3t"

def pullMac : Bytes :=
  [59, 220, 225, 173, 121, 188, 163, 57, 90, 30, 233, 19, 135, 93, 76, 106,
   99, 88, 208, 176, 2, 112, 84, 17, 160, 133, 163, 172, 182, 222, 122, 235]

def replyMac : Bytes :=
  [50, 68, 114, 132, 180, 40, 124, 194, 53, 170, 6, 229, 163, 39, 158, 194,
   93, 130, 226, 213, 225, 167, 92, 28, 176, 49, 121, 54, 252, 249, 65, 7]

/-- HMAC-SHA256 under the token, on the two transcripts of this exchange. -/
def exchangeHmac : Hmac where
  mac _ msg :=
    if msg = clientTranscript protocolVersion modeRecv "a" 0 onesPub then pullMac
    else if msg = serverTranscript 9 twosPub pullMac then replyMac
    else List.replicate 32 0

def oneExchange : Set MacCall :=
  { .client protocolVersion modeRecv "a" 0 onesPub, .server 9 twosPub pullMac }

/-- The server's answer. -/
def oneReply : Ack where
  ok := true
  session := 9
  pubKey := some twosPub
  authMac := some replyMac

theorem exchangeHmac_ne : exchangeHmac.mac sharedToken (serverTranscript 9 twosPub pullMac) ≠
    exchangeHmac.mac sharedToken (clientTranscript protocolVersion modeRecv "a" 0 onesPub) := by
  decide +kernel

/-- The client of this exchange accepts the answer, and it is the one computed for it. -/
theorem serverReply_binds_oneExchange :
    ((verifyServerAuth ⟨exchangeHmac, .unused, true⟩ (some sharedToken) (some pullMac) oneReply).runOn
        {}).1 = .ok () ∧
      .server 9 twosPub pullMac ∈ oneExchange := by
  have hok : ((verifyServerAuth ⟨exchangeHmac, .unused, true⟩ (some sharedToken) (some pullMac)
      oneReply).runOn {}).1 = .ok () := by
    decide +kernel
  refine ⟨hok, (serverReply_binds.2.2 _ _ _ oneReply _ oneExchange rfl ?_ ?_ hok).2.2
    ⟨.server 9 twosPub pullMac, .inr rfl, ?_⟩⟩
  · rintro call (rfl | rfl)
    · trivial
    · rfl
  · -- the transcript the client checks is the one of the server
    rintro x (rfl | ⟨_, rfl | rfl, rfl⟩) y (rfl | ⟨_, rfl | rfl, rfl⟩) h
    all_goals first | rfl | exact absurd h exchangeHmac_ne | exact absurd h.symm exchangeHmac_ne
  · decide +kernel

end Girth
