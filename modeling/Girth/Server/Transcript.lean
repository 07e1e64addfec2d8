import Girth.Server.Limits
import Mathlib.Data.List.GetD
import Mathlib.Data.Set.Function

/-!
# What the client's proof binds

The MAC of a client covers `domain | version | mode 0 | name 0 | size | public key`. The two
NUL-terminated fields are followed by eight bytes and an open end, and a name is any Unicode text:
one that contains a NUL can be read as a shorter name whose terminator it carries itself, with the
bytes behind it taken for a size and a public key.

`clientProof_binds_iff` says for which two names this can happen. Two requests whose names are not
related this way have different transcripts unless they are the same request.
-/

namespace Girth

open Lib

/-! ## The fields of a request -/

/-- The values of an `i64`. -/
def IsI64 (v : Int) : Prop := -2 ^ 63 ≤ v ∧ v < 2 ^ 63

instance (v : Int) : Decidable (IsI64 v) := inferInstanceAs (Decidable (_ ∧ _))

/-- A request as it can arrive at a server: its numbers are `i64`, and the limits admit it. -/
structure Admitted (limits : ServerLimits) (h : Hello) : Prop where
  version : IsI64 h.version
  size : IsI64 h.size
  valid : validateHelloLimits h limits = .ok ()

/-- The bytes of the client's key, none if it sent none. -/
def Hello.clientPub (h : Hello) : Bytes := h.pubKey.getD []

/-- What the proof of a request is computed over. -/
def Hello.transcript (h : Hello) : Bytes :=
  clientTranscript h.version h.mode h.name h.size h.clientPub

/-- The fields the proof is there to bind. -/
def SameRequest (h₁ h₂ : Hello) : Prop :=
  h₁.version = h₂.version ∧ h₁.mode = h₂.mode ∧ h₁.name = h₂.name ∧ h₁.size = h₂.size ∧
    h₁.clientPub = h₂.clientPub

theorem utf8_injective {s t : String} (h : utf8 s = utf8 t) : s = t :=
  String.toByteArray_inj.mp (toList_injective h)

@[simp] theorem i64Bytes_length (v : Int) : (i64Bytes v).length = 8 := leBytes_length 8 _

theorem i64Bytes_injective {v w : Int} (hv : IsI64 v) (hw : IsI64 w)
    (h : i64Bytes v = i64Bytes w) : v = w := by
  obtain ⟨hv₁, hv₂⟩ := hv
  obtain ⟨hw₁, hw₂⟩ := hw
  have heq : (v % 2 ^ 64).toNat = (w % 2 ^ 64).toNat :=
    leBytes_injective (by omega) (by omega) h
  omega

theorem Admitted.mode_length {limits : ServerLimits} {h : Hello} (ha : Admitted limits h) :
    (utf8 h.mode).length = 4 := by
  rcases (withinLimits_of_valid ha.valid).mode with hmode | hmode <;> rw [hmode] <;> decide +kernel

/-! ## Sizes as bytes -/

theorem leNat_top (l : Bytes) (h : l.length = 8) :
    ∃ low < 2 ^ 56, leNat l = low + 2 ^ 56 * (l.getD 7 0).toNat := by
  have h7 : 7 < l.length := by omega
  have hsplit : l = l.take 7 ++ [l.getD 7 0] := by
    rw [List.getD_eq_getElem?_getD, List.getElem?_eq_getElem h7, Option.getD_some,
      List.take_append_getElem h7, List.take_of_length_le (by omega)]
  have hlen : (l.take 7).length = 7 := by rw [List.length_take]; omega
  have hlow := leNat_lt (l.take 7)
  rw [hlen] at hlow
  refine ⟨leNat (l.take 7), by omega, ?_⟩
  conv_lhs => rw [hsplit]
  rw [leNat_append, hlen, leNat, leNat]
  omega

theorem i64Bytes_top {v : Int} (h₀ : 0 ≤ v) (h : IsI64 v) : (i64Bytes v).getD 7 0 < 128 := by
  obtain ⟨low, -, heq⟩ := leNat_top (i64Bytes v) (i64Bytes_length v)
  obtain ⟨-, hlt⟩ := h
  rw [i64Bytes, leNat_leBytes_of_lt (by omega), ← i64Bytes] at heq
  rw [UInt8.lt_iff_toNat_lt]
  show _ < 128
  omega

theorem exists_size {l : Bytes} (hlen : l.length = 8) (htop : l.getD 7 0 < 128) :
    ∃ size : Int, 0 ≤ size ∧ IsI64 size ∧ i64Bytes size = l := by
  obtain ⟨low, hlow, heq⟩ := leNat_top l hlen
  have htop : (l.getD 7 0).toNat < 128 := htop
  have hlt : leNat l < 2 ^ 63 := by omega
  refine ⟨(leNat l : Int), by omega, ⟨by omega, by exact_mod_cast hlt⟩, ?_⟩
  have hmod : ((leNat l : Int) % 2 ^ 64).toNat = leNat l := by omega
  have hback := leBytes_leNat l
  rw [hlen] at hback
  rw [i64Bytes, hmod, hback]

/-! ## Ambiguous names -/

/-- `long` is `short`, a NUL, and bytes that can stand for a size that is not negative. -/
def Confusable (short long : String) : Prop :=
  ∃ r : Bytes, utf8 long = utf8 short ++ 0 :: r ∧ r.getD 7 0 < 128

/-- Where one name, its terminator and the fields behind it read like another name and its fields,
the names are equal or the shorter one ends at a NUL of the longer one. -/
theorem confusable_of_longer {name name' : String} {size : Int} {pub rest : Bytes} (h₀ : 0 ≤ size)
    (hsize : IsI64 size) {a : Bytes} (hname : utf8 name' = utf8 name ++ a)
    (htail : 0 :: (i64Bytes size ++ pub) = a ++ 0 :: rest) :
    a = [] ∨ Confusable name name' := by
  cases a with
  | nil => exact Or.inl rfl
  | cons x r =>
    right
    rw [List.cons_append, List.cons.injEq] at htail
    obtain ⟨rfl, htail⟩ := htail
    refine ⟨r, hname, ?_⟩
    by_cases hr : 7 < r.length
    · -- the top byte of the size lies inside the longer name
      have htop := i64Bytes_top h₀ hsize
      have hbyte : (i64Bytes size ++ pub).getD 7 0 = (r ++ 0 :: rest).getD 7 0 := by rw [htail]
      rw [List.getD_append _ _ _ _ (by simp), List.getD_append _ _ _ _ hr] at hbyte
      rw [← hbyte]
      exact htop
    · rw [List.getD_eq_default _ _ (not_lt.mp hr)]
      decide

theorem tail_injective {name₁ name₂ : String} {size₁ size₂ : Int} {pub₁ pub₂ : Bytes}
    (h₁ : 0 ≤ size₁) (h₂ : 0 ≤ size₂) (hs₁ : IsI64 size₁) (hs₂ : IsI64 size₂)
    (hn₁ : ¬ Confusable name₁ name₂) (hn₂ : ¬ Confusable name₂ name₁)
    (h : utf8 name₁ ++ 0 :: (i64Bytes size₁ ++ pub₁) = utf8 name₂ ++ 0 :: (i64Bytes size₂ ++ pub₂)) :
    name₁ = name₂ ∧ size₁ = size₂ ∧ pub₁ = pub₂ := by
  have hname : utf8 name₁ = utf8 name₂ := by
    rcases List.append_eq_append_iff.mp h with ⟨a, hlong, htail⟩ | ⟨a, hlong, htail⟩
    · rcases confusable_of_longer h₁ hs₁ hlong htail with rfl | hc
      · rw [hlong, List.append_nil]
      · exact absurd hc hn₁
    · rcases confusable_of_longer h₂ hs₂ hlong htail with rfl | hc
      · rw [hlong, List.append_nil]
      · exact absurd hc hn₂
  rw [hname] at h
  obtain ⟨hsize, hpub⟩ := List.append_inj (List.cons.inj (List.append_cancel_left h)).2 (by simp)
  exact ⟨utf8_injective hname, i64Bytes_injective hs₁ hs₂ hsize, hpub⟩

theorem transcript_fields {limits : ServerLimits} {h₁ h₂ : Hello} (ha₁ : Admitted limits h₁)
    (ha₂ : Admitted limits h₂) (h : h₁.transcript = h₂.transcript) :
    h₁.version = h₂.version ∧ h₁.mode = h₂.mode ∧
      utf8 h₁.name ++ 0 :: (i64Bytes h₁.size ++ h₁.clientPub) =
        utf8 h₂.name ++ 0 :: (i64Bytes h₂.size ++ h₂.clientPub) := by
  simp only [Hello.transcript, clientTranscript, List.append_assoc, List.singleton_append] at h
  have hver := List.append_cancel_left h
  obtain ⟨hversion, hmode⟩ := List.append_inj hver (by simp)
  obtain ⟨hmode, htail⟩ :=
    List.append_inj hmode (by rw [ha₁.mode_length, ha₂.mode_length])
  exact ⟨i64Bytes_injective ha₁.version ha₂.version hversion, utf8_injective hmode,
    (List.cons.inj htail).2⟩

/-! ## Two requests, one proof -/

/-- A request to pull `name`. -/
def pullRequest (name : String) (size : Int) (pub : Bytes) : Hello where
  version := protocolVersion
  mode := modeRecv
  name := name
  size := size
  blockSize := 1400
  pubKey := some pub

theorem pullRequest_admitted (name : String) {size : Int} (pub : Bytes) (h₀ : 0 ≤ size)
    (hsize : IsI64 size) : Admitted .default (pullRequest name size pub) := by
  refine ⟨show IsI64 protocolVersion by decide, hsize, ?_⟩
  have hneg : ¬ size < 0 := not_lt.mpr h₀
  simp [validateHelloLimits, pullRequest, ServerLimits.default, modeRecv, modeSend, hneg]

theorem exists_collision {short long : String} (hc : Confusable short long) :
    ∃ size pub, Admitted .default (pullRequest short size pub) ∧
      (pullRequest short size pub).transcript = (pullRequest long 0 []).transcript := by
  obtain ⟨r, hlong, htop⟩ := hc
  -- what stands behind the terminator of the shorter name
  have hlen : ((r ++ 0 :: i64Bytes 0).take 8).length = 8 := by simp
  have hbyte : ((r ++ 0 :: i64Bytes 0).take 8).getD 7 0 < 128 := by
    have hzero : 0 :: i64Bytes 0 = List.replicate 9 0 := by decide +kernel
    rw [List.getD_eq_getElem?_getD, List.getElem?_take_of_lt (by omega),
      ← List.getD_eq_getElem?_getD]
    by_cases hr : 7 < r.length
    · rw [List.getD_append _ _ _ _ hr]
      exact htop
    · rw [hzero, List.getD_append_right _ _ _ _ (not_lt.mp hr), List.getD_replicate _ (by omega)]
      decide
  obtain ⟨size, h₀, hsize, hbytes⟩ := exists_size hlen hbyte
  refine ⟨size, (r ++ 0 :: i64Bytes 0).drop 8, pullRequest_admitted short _ h₀ hsize, ?_⟩
  have htail : i64Bytes size ++ (r ++ 0 :: i64Bytes 0).drop 8 = r ++ 0 :: i64Bytes 0 := by
    rw [hbytes, List.take_append_drop]
  simp only [Hello.transcript, clientTranscript, pullRequest, Hello.clientPub, Option.getD_some,
    List.append_assoc, htail, hlong, List.nil_append, List.append_nil, List.cons_append]

/-- **What the proof binds.** For every two names: requests with these names and equal transcripts
are the same request, and a proof made for one of two different requests never verifies for the
other, if and only if neither name is the other one followed by a NUL and bytes that can stand for a
size. HMAC is assumed to have no collision on the two transcripts under the token. -/
theorem clientProof_binds_iff (name₁ name₂ : String) :
    (∀ (limits : ServerLimits) (h₁ h₂ : Hello), Admitted limits h₁ → Admitted limits h₂ →
      h₁.name = name₁ → h₂.name = name₂ →
      (h₁.transcript = h₂.transcript → SameRequest h₁ h₂) ∧
      ∀ (hmac : Hmac) (token : Bytes), Set.InjOn (hmac.mac token) {h₁.transcript, h₂.transcript} →
        verifyClientMac hmac token h₂.version h₂.mode h₂.name h₂.size h₂.clientPub
          (clientMac hmac token h₁.version h₁.mode h₁.name h₁.size h₁.clientPub) = true →
        SameRequest h₁ h₂) ↔
      ¬ Confusable name₁ name₂ ∧ ¬ Confusable name₂ name₁ := by
  constructor
  · intro hbinds
    constructor
    · intro hc
      obtain ⟨size, pub, hadm, heq⟩ := exists_collision hc
      have hsame := (hbinds .default _ _ hadm (pullRequest_admitted name₂ [] le_rfl (by decide))
        rfl rfl).1 heq
      obtain ⟨r, hlong, -⟩ := hc
      rw [show name₁ = name₂ from hsame.2.2.1] at hlong
      simpa using congrArg List.length hlong
    · intro hc
      obtain ⟨size, pub, hadm, heq⟩ := exists_collision hc
      have hsame := (hbinds .default _ _ (pullRequest_admitted name₁ [] le_rfl (by decide)) hadm
        rfl rfl).1 heq.symm
      obtain ⟨r, hlong, -⟩ := hc
      rw [show name₁ = name₂ from hsame.2.2.1] at hlong
      simpa using congrArg List.length hlong
  · rintro ⟨hn₁, hn₂⟩ limits h₁ h₂ ha₁ ha₂ rfl rfl
    have hsame : h₁.transcript = h₂.transcript → SameRequest h₁ h₂ := by
      intro heq
      obtain ⟨hversion, hmode, htail⟩ := transcript_fields ha₁ ha₂ heq
      obtain ⟨hname, hsize, hpub⟩ := tail_injective (withinLimits_of_valid ha₁.valid).size
        (withinLimits_of_valid ha₂.valid).size ha₁.size ha₂.size hn₁ hn₂ htail
      exact ⟨hversion, hmode, hname, hsize, hpub⟩
    refine ⟨hsame, ?_⟩
    intro hmac token hinj hverify
    rw [verifyClientMac, beq_iff_eq] at hverify
    exact hsame (hinj (Set.mem_insert _ _) (Set.mem_insert_of_mem _ rfl) hverify.symm)

/-- The proof of a pull of `n` under a one-byte key is also the proof of a pull of `n` followed by
a NUL without a key. -/
theorem clientProof_collision :
    Admitted .default (pullRequest "n" 0 [0]) ∧ Admitted .default (pullRequest "n\x00" 0 []) ∧
      (pullRequest "n" 0 [0]).transcript = (pullRequest "n\x00" 0 []).transcript ∧
      ¬ SameRequest (pullRequest "n" 0 [0]) (pullRequest "n\x00" 0 []) ∧
      ∀ (hmac : Hmac) (token : Bytes),
        verifyClientMac hmac token protocolVersion modeRecv "n\x00" 0 []
          (clientMac hmac token protocolVersion modeRecv "n" 0 [0]) = true := by
  have heq : (pullRequest "n" 0 [0]).transcript = (pullRequest "n\x00" 0 []).transcript := by
    decide +kernel
  refine ⟨pullRequest_admitted _ _ le_rfl (by decide), pullRequest_admitted _ _ le_rfl (by decide),
    heq, ?_, ?_⟩
  · rintro ⟨-, -, hname, -⟩
    exact absurd hname (by decide)
  · intro hmac token
    rw [verifyClientMac, beq_iff_eq]
    exact congrArg (hmac.mac token) heq.symm

end Girth
