import Girth.Lib.Text
import Girth.Protocol

/-!
# Data-plane encryption

`Aead` is what the AEAD crates offer on a keyed box: the in-place detached encryption and
decryption, with the lengths their types fix. `KeyExchange` is what the X25519 and HKDF crates
offer. On top of them: the nonce of a block, sealing and opening a DATA payload, and the two halves
of the cipher negotiation.

`sealData_eq` says what sealing leaves in a buffer, `openData_seal` that opening the sealed payload
under the same box and sequence number gives the plaintext back, and `blockNonce_injective` that
the nonce names the block.
-/

namespace Girth

open Lib

def cipherAesGcm : String := "aes-256-gcm"
def cipherChacha : String := "chacha20-poly1305"

def aeadKeyLen : Nat := 32
def aeadNonceLen : Nat := 12
def aeadTagLen : Nat := 16

/-- The two suites. -/
inductive Suite
  | aes
  | cha
  deriving DecidableEq, Repr

/-- A negotiated AEAD: its suite and its key. -/
structure AeadBox where
  suite : Suite
  key : Bytes
  deriving DecidableEq, Repr

/-- The AEAD crates: detached encryption to ciphertext and tag, and its inverse. -/
structure Aead where
  encrypt : AeadBox → Bytes → Bytes → Bytes × Bytes
  decrypt : AeadBox → Bytes → Bytes → Bytes → Option Bytes
  encrypt_length : ∀ box nonce pt, (encrypt box nonce pt).1.length = pt.length
  tag_length : ∀ box nonce pt, (encrypt box nonce pt).2.length = aeadTagLen
  decrypt_length : ∀ box nonce ct tag pt, decrypt box nonce ct tag = some pt →
    pt.length = ct.length

/-- Decryption inverts encryption under the same key and nonce. -/
def Aead.Inverts (a : Aead) : Prop :=
  ∀ box nonce pt, a.decrypt box nonce (a.encrypt box nonce pt).1 (a.encrypt box nonce pt).2 = some pt

/-- A stand-in for configurations without a cipher, where neither function is called. -/
def Aead.unused : Aead where
  encrypt _ _ pt := (pt, List.replicate aeadTagLen 0)
  decrypt _ _ ct _ := some ct
  encrypt_length _ _ _ := rfl
  tag_length _ _ _ := List.length_replicate
  decrypt_length _ _ _ _ _ h := by cases h; rfl

/-! ## Sealing and opening one block -/

/-- The nonce of a block: four zero bytes, then the sequence number. -/
def blockNonce (seq : UInt64) : Bytes :=
  overwrite (List.replicate aeadNonceLen 0) 4 (leBytes 8 seq.toNat)

/-- Encrypt `plen` bytes of `buf` behind the header in place and append the tag; returns the buffer
and the length of the whole PDU. -/
def sealData (a : Aead) (box : AeadBox) (buf : Bytes) (hdrLen plen : Nat) (seq : UInt64) :
    Bytes × Nat :=
  let sealed := a.encrypt box (blockNonce seq) (slice buf hdrLen plen)
  let buf := overwrite buf hdrLen sealed.1
  (overwrite buf (hdrLen + plen) sealed.2, hdrLen + plen + aeadTagLen)

/-- Decrypt a payload (ciphertext, then tag) in place; returns the payload and the length of the
plaintext, or nothing on an authentication failure or a short buffer. -/
def openData (a : Aead) (box : AeadBox) (payload : Bytes) (plen : Nat) (seq : UInt64) :
    Option (Bytes × Nat) :=
  let ctLen := plen + aeadTagLen
  if ctLen > payload.length then none
  else
    let ct := slice payload 0 plen
    let tag := slice payload plen aeadTagLen
    (a.decrypt box (blockNonce seq) ct tag).map fun pt => (overwrite payload 0 pt, plen)

theorem blockNonce_eq (seq : UInt64) : blockNonce seq = [0, 0, 0, 0] ++ leBytes 8 seq.toNat := by
  have hzero : List.replicate aeadNonceLen (0 : UInt8) = [0, 0, 0, 0] ++ List.replicate 8 0 := rfl
  rw [blockNonce, hzero, overwrite_append (show List.length [(0 : UInt8), 0, 0, 0] = 4 from rfl)]
  simp

theorem blockNonce_injective {s t : UInt64} (h : blockNonce s = blockNonce t) : s = t := by
  rw [blockNonce_eq, blockNonce_eq] at h
  have hle := List.append_cancel_left h
  exact UInt64.toNat_inj.mp (leBytes_injective s.toNat_lt t.toNat_lt hle)

theorem sealData_eq (a : Aead) (box : AeadBox) (hdr pt rest : Bytes) (seq : UInt64) :
    (sealData a box (hdr ++ (pt ++ rest)) hdr.length pt.length seq).1 =
      hdr ++ ((a.encrypt box (blockNonce seq) pt).1 ++ ((a.encrypt box (blockNonce seq) pt).2 ++
        rest.drop aeadTagLen)) := by
  have hpt : slice (hdr ++ (pt ++ rest)) hdr.length pt.length = pt := by
    rw [slice, List.drop_left, List.take_left]
  have hct := a.encrypt_length box (blockNonce seq) pt
  have htag := a.tag_length box (blockNonce seq) pt
  simp only [sealData, hpt]
  rw [overwrite_append rfl, hct, List.drop_left, overwrite_append (by simp [hct]), htag]
  simp only [List.append_assoc]

theorem openData_seal {a : Aead} (ha : a.Inverts) (box : AeadBox) (pt rest : Bytes) (seq : UInt64) :
    openData a box ((a.encrypt box (blockNonce seq) pt).1 ++
        ((a.encrypt box (blockNonce seq) pt).2 ++ rest)) pt.length seq =
      some (pt ++ ((a.encrypt box (blockNonce seq) pt).2 ++ rest), pt.length) := by
  have hct := a.encrypt_length box (blockNonce seq) pt
  have htag := a.tag_length box (blockNonce seq) pt
  have hinv := ha box (blockNonce seq) pt
  revert hct htag hinv
  generalize (a.encrypt box (blockNonce seq) pt).1 = ct
  generalize (a.encrypt box (blockNonce seq) pt).2 = tag
  intro hct htag hinv
  have hslice : slice (ct ++ (tag ++ rest)) 0 pt.length = ct := by
    rw [slice, List.drop_zero, ← hct, List.take_left]
  have hsliceTag : slice (ct ++ (tag ++ rest)) pt.length aeadTagLen = tag := by
    rw [slice, ← hct, List.drop_left, ← htag, List.take_left]
  rw [openData, if_neg (by simp [hct, htag]), hslice, hsliceTag]
  simp only [hinv, Option.map_some]
  rw [overwrite_zero, ← hct, List.drop_left]

theorem openData_length {a : Aead} {box : AeadBox} {payload out : Bytes} {plen n : Nat}
    {seq : UInt64} (h : openData a box payload plen seq = some (out, n)) :
    n = plen ∧ plen + aeadTagLen ≤ payload.length ∧ out.length = payload.length := by
  unfold openData at h
  simp only [gt_iff_lt] at h
  split at h
  · cases h
  · rename_i hle
    obtain ⟨pt, hpt, hout⟩ := Option.map_eq_some_iff.mp h
    obtain ⟨rfl, rfl⟩ := Prod.mk.inj hout
    have hlen := a.decrypt_length _ _ _ _ _ hpt
    rw [slice_length] at hlen
    exact ⟨rfl, by omega, overwrite_length (by omega)⟩

/-! ## Negotiation -/

/-- The X25519 and HKDF-SHA256 crates. Expanding fails only for an output that is too long. -/
structure KeyExchange where
  publicKey : Bytes → Bytes
  diffieHellman : Bytes → Bytes → Bytes
  hkdf : Bytes → Bytes → Bytes → Nat → Except String Bytes

/-- Of a server that is never asked to encrypt. -/
def KeyExchange.unused : KeyExchange := ⟨id, fun _ _ => [], fun _ _ _ _ => .ok []⟩

/-- This host's suites in preference order. -/
def localCiphers (aesHardware : Bool) : List String :=
  if aesHardware then [cipherAesGcm, cipherChacha] else [cipherChacha, cipherAesGcm]

/-- The first suite of ours that the peer also supports, or the empty string. -/
def chooseCipher : List String → List String → String
  | [], _ => ""
  | c :: prefer, peer => if peer.any (· == c) then c else chooseCipher prefer peer

def ciphersIf (aesHardware enc : Bool) : Option (List String) :=
  if enc then some (localCiphers aesHardware) else none

def AeadBox.new (name : String) (key : Bytes) : Except String AeadBox :=
  if key.length ≠ aeadKeyLen then .error s!"girth: bad key length {key.length}"
  else if name = cipherAesGcm then .ok ⟨.aes, key⟩
  else if name = cipherChacha then .ok ⟨.cha, key⟩
  else .error ("girth: unknown cipher " ++ debugStr name)

/-- Both ends run this with mirrored keys and arrive at the same symmetric key. -/
def deriveAead (kx : KeyExchange) (privKey peerPub : Bytes) (session : UInt32)
    (cipherName : String) : Except String AeadBox :=
  if peerPub.length ≠ 32 then .error "girth: bad peer public key"
  else
    let secret := kx.diffieHellman privKey peerPub
    let salt := leBytes 4 session.toNat
    let info := ("girth data key " ++ cipherName).toUTF8.toList
    match kx.hkdf salt secret info aeadKeyLen with
    | .error e => .error ("girth: HKDF failed: " ++ e)
    | .ok key => AeadBox.new cipherName key

/-- What the server answers about encryption. -/
structure Negotiated where
  enabled : Bool
  cipherName : String
  pubKey : Bytes
  box : Option AeadBox
  deriving DecidableEq, Repr

/-- Server side of the key exchange, with the ephemeral secret `privKey`. -/
def negotiateCryptoServer (kx : KeyExchange) (aesHardware : Bool) (privKey : Bytes)
    (encrypt : Bool) (peerCiphers : List String) (peerPub : Bytes) (session : UInt32) :
    Except String Negotiated :=
  if !encrypt then .ok ⟨false, "", [], none⟩
  else
    let cipherName := chooseCipher (localCiphers aesHardware) peerCiphers
    if cipherName.isEmpty then .error "no common cipher suite"
    else
      match deriveAead kx privKey peerPub session cipherName with
      | .error e => .error e
      | .ok box => .ok ⟨true, cipherName, kx.publicKey privKey, some box⟩

/-- Client side of the key exchange from the server's answer. -/
def clientCrypto (kx : KeyExchange) (want serverEncrypt : Bool) (serverPub : Bytes)
    (session : UInt32) (cipher : String) (privKey : Option Bytes) :
    Except String (Option AeadBox) :=
  if !serverEncrypt then
    if want then .error "server declined encryption" else .ok none
  else
    match privKey with
    | none => .error "server enabled encryption unexpectedly"
    | some privKey =>
      if !want then .error "server enabled encryption unexpectedly"
      else
        match deriveAead kx privKey serverPub session cipher with
        | .error e => .error e
        | .ok box => .ok (some box)

end Girth
