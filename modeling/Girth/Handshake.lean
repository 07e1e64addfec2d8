import Girth.Crypto

/-!
# The encryption handshake

`negotiateCryptoServer` and `clientCrypto` are the two halves of one key exchange. The cipher names
and the public keys travel in the clear, the private keys stay home, and both halves end in
`deriveAead`. `deriveAead_symm` is the reason they agree: the shared secret does not depend on the
side that computes it. `clientCrypto_isSome` is the reason a forged answer cannot switch encryption
off: the client returns what it asked for or an error.
-/

namespace Girth

open Lib

/-- The cipher name of a negotiated box. -/
def AeadBox.name (box : AeadBox) : String :=
  match box.suite with
  | .aes => cipherAesGcm
  | .cha => cipherChacha

/-! ## The two halves -/

theorem AeadBox.name_new {name : String} {key : Bytes} {box : AeadBox}
    (h : AeadBox.new name key = .ok box) : box.name = name := by
  unfold AeadBox.new at h
  split_ifs at h with hlen haes hcha
  · cases h
    exact haes.symm
  · cases h
    exact hcha.symm

theorem deriveAead_name {kx : KeyExchange} {privKey peerPub : Bytes} {session : UInt32}
    {name : String} {box : AeadBox} (h : deriveAead kx privKey peerPub session name = .ok box) :
    box.name = name := by
  simp only [deriveAead] at h
  split at h
  · cases h
  · split at h
    · cases h
    · exact AeadBox.name_new h

theorem deriveAead_symm {kx : KeyExchange} {s t : Bytes} {session : UInt32} {name : String}
    {box box' : AeadBox}
    (hcomm : kx.diffieHellman s (kx.publicKey t) = kx.diffieHellman t (kx.publicKey s))
    (h : deriveAead kx s (kx.publicKey t) session name = .ok box)
    (h' : deriveAead kx t (kx.publicKey s) session name = .ok box') : box = box' := by
  simp only [deriveAead] at h h'
  rw [hcomm] at h
  split at h
  · cases h
  · split at h'
    · cases h'
    · rw [h] at h'
      exact Except.ok.inj h'

theorem chooseCipher_eq_find? (prefer peer : List String) :
    chooseCipher prefer peer = (prefer.find? (· ∈ peer)).getD "" := by
  induction prefer with
  | nil => rfl
  | cons c prefer ih =>
    have hany : (peer.any (· == c)) = decide (c ∈ peer) := by
      rw [Bool.eq_iff_iff]
      simp
    rw [chooseCipher, List.find?_cons, hany, ih]
    by_cases hc : c ∈ peer
    · simp [hc]
    · simp [hc]

theorem negotiate_cases {kx : KeyExchange} {aesHardware : Bool} {privKey peerPub : Bytes}
    {ciphers : List String} {session : UInt32} {answer : Negotiated}
    (h : negotiateCryptoServer kx aesHardware privKey true ciphers peerPub session = .ok answer) :
    ∃ box, deriveAead kx privKey peerPub session answer.cipherName = .ok box ∧
      (localCiphers aesHardware).find? (· ∈ ciphers) = some answer.cipherName ∧
      answer = ⟨true, answer.cipherName, kx.publicKey privKey, some box⟩ := by
  simp only [negotiateCryptoServer, Bool.not_true, Bool.false_eq_true, if_false] at h
  rw [chooseCipher_eq_find?] at h
  split at h
  · cases h
  · rename_i hname
    split at h
    · cases h
    · rename_i box hbox
      cases h
      refine ⟨box, hbox, ?_, rfl⟩
      generalize (localCiphers aesHardware).find? (· ∈ ciphers) = found at hname ⊢
      cases found with
      | none => exact absurd rfl hname
      | some c => rfl

theorem clientCrypto_isSome {kx : KeyExchange} {want serverEncrypt : Bool} {serverPub : Bytes}
    {session : UInt32} {cipher : String} {privKey : Option Bytes} {out : Option AeadBox}
    (h : clientCrypto kx want serverEncrypt serverPub session cipher privKey = .ok out) :
    out.isSome = want := by
  unfold clientCrypto at h
  cases serverEncrypt with
  | false =>
    cases want with
    | false => cases h; rfl
    | true => cases h
  | true =>
    cases privKey with
    | none => cases h
    | some privKey =>
      cases want with
      | false => cases h
      | true =>
        simp only [Bool.not_true, Bool.false_eq_true, if_false] at h
        split at h
        · cases h
        · cases h; rfl

/-! ## Sealing on one side, opening on the other -/

/-- What `sealer` seals behind a header of any length, `opener` opens to the same plaintext, and the
header stays readable. -/
def OpensSealed (a : Aead) (sealer opener : AeadBox) : Prop :=
  ∀ (hdr pt rest : Bytes) (seq : UInt64), aeadTagLen ≤ rest.length →
    ∃ buf n payload, sealData a sealer (hdr ++ (pt ++ rest)) hdr.length pt.length seq = (buf, n) ∧
      n = hdr.length + pt.length + aeadTagLen ∧ buf.take hdr.length = hdr ∧
      openData a opener ((buf.take n).drop hdr.length) pt.length seq = some (payload, pt.length) ∧
      payload.take pt.length = pt

theorem opensSealed_self {a : Aead} (ha : a.Inverts) (box : AeadBox) : OpensSealed a box box := by
  intro hdr pt rest seq hrest
  have hbuf := sealData_eq a box hdr pt rest seq
  have hct := a.encrypt_length box (blockNonce seq) pt
  have htag := a.tag_length box (blockNonce seq) pt
  have hopen := openData_seal ha box pt [] seq
  refine ⟨_, hdr.length + pt.length + aeadTagLen,
    pt ++ ((a.encrypt box (blockNonce seq) pt).2 ++ []), Prod.ext hbuf rfl, rfl, List.take_left, ?_,
    List.take_left⟩
  -- the PDU without its header is ciphertext and tag
  rw [← hopen, List.drop_take, List.drop_left, ← List.append_assoc _ _ (rest.drop aeadTagLen),
    List.append_nil, List.take_left' (by rw [List.length_append, hct, htag]; omega)]

/-! ## Agreement -/

/-- **Agreement and no downgrade.** When both halves succeed they hold the same box, its suite is
the first of the server's that the client offered, and each side opens what the other seals. No
answer whatsoever makes the client run in the clear after it asked for encryption, or encrypt when
it did not. -/
theorem handshake_agrees (kx : KeyExchange) (a : Aead)
    (hcomm : ∀ s t, kx.diffieHellman s (kx.publicKey t) = kx.diffieHellman t (kx.publicKey s))
    (ha : a.Inverts) :
    (∀ (aesHardware : Bool) (serverKey clientKey : Bytes) (ciphers : List String)
        (session : UInt32) (answer : Negotiated) (out : Option AeadBox),
      negotiateCryptoServer kx aesHardware serverKey true ciphers (kx.publicKey clientKey)
        session = .ok answer →
      clientCrypto kx true answer.enabled answer.pubKey session answer.cipherName
        (some clientKey) = .ok out →
      ∃ serverBox clientBox, answer.box = some serverBox ∧ out = some clientBox ∧
        clientBox.suite = serverBox.suite ∧ clientBox.key = serverBox.key ∧
        (localCiphers aesHardware).find? (· ∈ ciphers) = some serverBox.name ∧
        OpensSealed a clientBox serverBox ∧ OpensSealed a serverBox clientBox) ∧
    (∀ (want serverEncrypt : Bool) (serverPub : Bytes) (session : UInt32) (cipher : String)
        (privKey : Option Bytes) (out : Option AeadBox),
      clientCrypto kx want serverEncrypt serverPub session cipher privKey = .ok out →
      out.isSome = want) := by
  refine ⟨?_, fun _ _ _ _ _ _ _ => clientCrypto_isSome⟩
  intro aesHardware serverKey clientKey ciphers session answer out hserver hclient
  obtain ⟨serverBox, hderived, hfirst, hanswer⟩ := negotiate_cases hserver
  have hname := deriveAead_name hderived
  rw [hanswer] at hclient
  simp only [clientCrypto, Bool.not_true, Bool.false_eq_true, if_false] at hclient
  split at hclient
  · cases hclient
  · rename_i clientBox hclientDerived
    cases hclient
    have hbox : serverBox = clientBox :=
      deriveAead_symm (hcomm serverKey clientKey) hderived hclientDerived
    subst hbox
    refine ⟨serverBox, serverBox, by rw [hanswer], rfl, rfl, rfl, ?_, opensSealed_self ha _,
      opensSealed_self ha _⟩
    rw [hfirst, hname]

/-! ### One handshake

X25519 on the private keys of all ones and of all twos, HKDF-SHA256 for session 9. -/

def onesKey : Bytes := List.replicate 32 1

def twosKey : Bytes := List.replicate 32 2

def onesPub : Bytes :=
  [164, 224, 146, 146, 182, 81, 194, 120, 185, 119, 44, 86, 159, 95, 169, 187, 19, 217, 6, 180, 106,
    182, 140, 157, 249, 220, 43, 68, 9, 248, 162, 9]

def twosPub : Bytes :=
  [206, 141, 58, 209, 204, 182, 51, 236, 123, 112, 193, 120, 20, 165, 199, 110, 205, 2, 150, 133, 5,
    13, 52, 71, 69, 186, 5, 135, 14, 88, 125, 89]

def onesTwosSecret : Bytes :=
  [46, 215, 106, 181, 73, 177, 231, 60, 3, 30, 180, 156, 148, 72, 240, 121, 138, 234, 129, 182, 152,
    39, 154, 12, 61, 195, 228, 159, 191, 196, 185, 83]

def onesTwosKey : Bytes :=
  [250, 104, 210, 229, 93, 214, 71, 95, 225, 25, 141, 152, 12, 195, 228, 156, 67, 255, 114, 87, 243,
    153, 105, 189, 146, 59, 147, 204, 16, 151, 152, 175]

def onesTwosExchange : KeyExchange where
  publicKey k :=
    if k = onesKey then onesPub else if k = twosKey then twosPub else List.replicate 32 0
  diffieHellman k p :=
    if k = onesKey ∧ p = twosPub ∨ k = twosKey ∧ p = onesPub then onesTwosSecret else []
  hkdf _ secret _ n := .ok (if secret = onesTwosSecret then onesTwosKey.take n else [])

theorem onesTwosExchange_comm (s t : Bytes) :
    onesTwosExchange.diffieHellman s (onesTwosExchange.publicKey t) =
      onesTwosExchange.diffieHellman t (onesTwosExchange.publicKey s) := by
  have hkeys : onesKey ≠ twosKey := by decide
  have hpubs : onesPub ≠ twosPub := by decide
  have hones : onesPub ≠ List.replicate 32 0 := by decide
  have htwos : twosPub ≠ List.replicate 32 0 := by decide
  simp only [onesTwosExchange]
  split_ifs <;> simp_all

theorem onesTwosExchange_length (key : Bytes) : (onesTwosExchange.publicKey key).length = 32 := by
  simp only [onesTwosExchange]
  split_ifs <;> rfl

/-- The one plaintext that occurs is sealed as ChaCha20-Poly1305 does it under the derived key. -/
def onesTwosAead : Aead where
  encrypt _ _ pt :=
    if pt = [7] then
      ([197], [252, 248, 95, 145, 23, 123, 8, 221, 116, 87, 63, 131, 250, 112, 133, 174])
    else (pt, List.replicate aeadTagLen 0)
  decrypt _ _ ct tag :=
    if tag = [252, 248, 95, 145, 23, 123, 8, 221, 116, 87, 63, 131, 250, 112, 133, 174] then
      if ct = [197] then some [7] else none
    else if tag = List.replicate aeadTagLen 0 then some ct else none
  encrypt_length _ _ pt := by
    split
    · rename_i h
      rw [h]
      rfl
    · rfl
  tag_length _ _ pt := by split <;> rfl
  decrypt_length _ _ ct tag pt h := by
    split_ifs at h with htag hct
    · cases h
      rw [hct]
      rfl
    · cases h
      rfl

theorem onesTwosAead_inverts : onesTwosAead.Inverts := by
  intro box nonce pt
  by_cases hpt : pt = [7]
  · rw [hpt]
    rfl
  · have henc : onesTwosAead.encrypt box nonce pt = (pt, List.replicate aeadTagLen 0) := if_neg hpt
    rw [henc]
    rfl

theorem handshake_agrees_onesTwos :
    ∃ answer box, negotiateCryptoServer onesTwosExchange false twosKey true
        [cipherAesGcm, cipherChacha] (onesTwosExchange.publicKey onesKey) 9 = .ok answer ∧
      clientCrypto onesTwosExchange true answer.enabled answer.pubKey 9 answer.cipherName
        (some onesKey) = .ok (some box) ∧
      box = ⟨.cha, onesTwosKey⟩ ∧ answer.box = some box ∧ OpensSealed onesTwosAead box box := by
  have hserver : negotiateCryptoServer onesTwosExchange false twosKey true
      [cipherAesGcm, cipherChacha] (onesTwosExchange.publicKey onesKey) 9 =
        .ok ⟨true, cipherChacha, twosPub, some ⟨.cha, onesTwosKey⟩⟩ := by decide +kernel
  have hclient : clientCrypto onesTwosExchange true true twosPub 9 cipherChacha (some onesKey) =
      .ok (some ⟨.cha, onesTwosKey⟩) := by decide +kernel
  obtain ⟨serverBox, clientBox, hs, hc, -, -, -, hopens, -⟩ :=
    (handshake_agrees onesTwosExchange onesTwosAead onesTwosExchange_comm onesTwosAead_inverts).1
      false twosKey onesKey [cipherAesGcm, cipherChacha] 9 _ _ hserver hclient
  cases hs
  cases hc
  exact ⟨_, _, hserver, hclient, rfl, rfl, hopens⟩

end Girth
