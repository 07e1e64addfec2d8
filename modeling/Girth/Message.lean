import Girth.Lib.Stream
import Girth.Server.Conn
import Girth.Server.Transcript
import Mathlib.Data.List.Nodup

/-!
# Control messages on the wire

A `Hello` and an `Ack` travel as JSON behind a length of four bytes. What the derived serializers do
with the attributes of the two types is here: the names in camel case, the fields that are left out
when they have their default, bytes as base64 text. The derived deserializers take an object in any
order, ignore what they do not know, refuse a field that occurs twice, and also take an array of the
fields in order. The JSON text itself and base64 are those of the crates, `Codecs`; what is asked of them
is that they read back the values that are written (`Codecs.ReadsBack`).

`Hello.fromJson_toJson` and `Ack.fromJson_toJson`: what is written is read back. `handleConn` is the loop of
a connection over anything it can read Hellos from. `read_frames` says that on a stream of bytes, however
it is cut into segments, it does what it does on the list of the Hellos that were written. `answer_read`
is the way back.
-/

namespace Girth

open Lib

/-! ## JSON -/

/-- A JSON value as `serde_json` has it. -/
inductive Json
  | null
  | bool (b : Bool)
  | num (n : Int)
  /-- A number with a fraction or an exponent, or beyond 64 bits. -/
  | float (bits : UInt64)
  | str (s : String)
  | arr (items : List Json)
  | obj (fields : List (String × Json))

namespace Json

def asI64 : Json → Option Int
  | .num n => if -2 ^ 63 ≤ n ∧ n < 2 ^ 63 then some n else none
  | _ => none

def asU64 : Json → Option Nat
  | .num n => if 0 ≤ n ∧ n < 2 ^ 64 then some n.toNat else none
  | _ => none

def asU32 : Json → Option UInt32
  | .num n => if 0 ≤ n ∧ n < 2 ^ 32 then some (UInt32.ofNat n.toNat) else none
  | _ => none

def asBool : Json → Option Bool
  | .bool b => some b
  | _ => none

def asStr : Json → Option String
  | .str s => some s
  | _ => none

/-- `Option<Vec<String>>`. -/
def asStrs : Json → Option (Option (List String))
  | .null => some none
  | .arr items => (items.mapM asStr).map some
  | _ => none

end Json

/-- The crates: JSON text, and base64 in its standard alphabet with padding. -/
structure Codecs where
  toVec : Json → Bytes
  fromSlice : Bytes → Option Json
  encode : Bytes → String
  decode : String → Option Bytes

/-- The crates read back what they have written: this value, and the bytes in it. -/
structure Codecs.ReadsBack (c : Codecs) (j : Json) (blobs : List Bytes) : Prop where
  json : c.fromSlice (c.toVec j) = some j
  base64 : ∀ bs ∈ blobs, c.decode (c.encode bs) = some bs

/-! ## Objects -/

/-- The fields that are not left out. -/
def entries (fields : List (String × Option Json)) : List (String × Json) :=
  fields.filterMap fun f => f.2.map (f.1, ·)

/-- What a derived deserializer finds under the names: an object in which none of them occurs twice, or
an array of the fields in order. -/
def fieldsOf (names : List String) : Json → Option (List (String × Json))
  | .obj fields =>
    if ∀ n ∈ names, (fields.map Prod.fst).count n ≤ 1 then some fields else none
  | .arr items => if items.length ≤ names.length then some (names.zip items) else none
  | _ => none

def required {α : Type} (fields : List (String × Json)) (name : String) (dec : Json → Option α) :
    Option α :=
  (fields.lookup name).bind dec

/-- `#[serde(default)]`. -/
def orDefault {α : Type} (fields : List (String × Json)) (name : String) (dec : Json → Option α)
    (default : α) : Option α :=
  match fields.lookup name with
  | some j => dec j
  | none => some default

theorem lookup_entries {fields : List (String × Option Json)} (hnodup : (fields.map Prod.fst).Nodup)
    (name : String) : (entries fields).lookup name = (fields.lookup name).join := by
  induction fields with
  | nil => rfl
  | cons f fields ih =>
    obtain ⟨n, v⟩ := f
    rw [List.map_cons, List.nodup_cons] at hnodup
    have ih := ih hnodup.2
    cases hname : name == n with
    | true =>
      rw [List.lookup_cons, hname]
      cases v with
      | some j =>
        show ((n, j) :: entries fields).lookup name = some j
        rw [List.lookup_cons, hname]
      | none =>
        -- a field that is left out does not occur further on
        show (entries fields).lookup name = none
        have hnone : fields.lookup name = none := by
          rw [List.lookup_eq_none_iff]
          intro f hf
          rw [beq_iff_eq.mp hname, bne_iff_ne]
          intro heq
          have hmem : f.1 ∈ fields.map Prod.fst := List.mem_map_of_mem hf
          exact hnodup.1 (heq ▸ hmem)
        rw [ih, hnone]
        rfl
    | false =>
      rw [List.lookup_cons, hname]
      cases v with
      | some j =>
        show ((n, j) :: entries fields).lookup name = (fields.lookup name).join
        rw [List.lookup_cons, hname]
        exact ih
      | none => exact ih

theorem map_fst_entries (fields : List (String × Option Json)) :
    ((entries fields).map Prod.fst).Sublist (fields.map Prod.fst) := by
  induction fields with
  | nil => exact List.Sublist.refl _
  | cons f fields ih =>
    obtain ⟨n, v⟩ := f
    cases v with
    | some j => exact ih.cons_cons n
    | none => exact ih.cons n

theorem fieldsOf_entries {fields : List (String × Option Json)}
    (hnodup : (fields.map Prod.fst).Nodup) (names : List String) :
    fieldsOf names (.obj (entries fields)) = some (entries fields) := by
  refine if_pos fun n _ => ?_
  exact List.nodup_iff_count_le_one.mp (hnodup.sublist (map_fst_entries fields)) n

section entries

variable {α : Type} {fields : List (String × Option Json)} (name : String) (dec : Json → Option α)
  {x : α}

theorem required_entries {j : Json} (hnodup : (fields.map Prod.fst).Nodup)
    (hfield : fields.lookup name = some (some j)) (hdec : dec j = some x) :
    required (entries fields) name dec = some x := by
  rw [required, lookup_entries hnodup, hfield]
  exact hdec

theorem orDefault_entries {v : Option Json} {default : α} (hnodup : (fields.map Prod.fst).Nodup)
    (hfield : fields.lookup name = some v) (hnone : v = none → x = default)
    (hsome : ∀ j, v = some j → dec j = some x) :
    orDefault (entries fields) name dec default = some x := by
  rw [orDefault, lookup_entries hnodup, hfield]
  cases v with
  | none => exact congrArg some (hnone rfl).symm
  | some j => exact hsome j rfl

end entries

/-! ## The two messages -/

variable (c : Codecs)

def bytesField (v : Option Bytes) : Option Json := v.map fun bs => .str (c.encode bs)

/-- `b64opt::deserialize`. -/
def asBytes : Json → Option (Option Bytes)
  | .null => some none
  | .str s => (c.decode s).map some
  | _ => none

namespace Hello

def names : List String :=
  ["version", "mode", "name", "size", "blockSize", "rateBps", "maxBps", "adaptive", "alphaBps",
    "crc32c", "warmRateBps", "warmSrttNetUs", "warmBaseRttUs", "encrypt", "ciphers", "pubKey", "authMac"]

def fields (h : Hello) : List (String × Option Json) :=
  [("version", some (.num h.version)), ("mode", some (.str h.mode)), ("name", some (.str h.name)),
    ("size", some (.num h.size)), ("blockSize", some (.num h.blockSize)),
    ("rateBps", some (.num h.rateBps)), ("maxBps", some (.num h.maxBps)),
    ("adaptive", some (.bool h.adaptive)), ("alphaBps", some (.num h.alphaBps)),
    ("crc32c", some (.num h.crc32c.toNat)),
    ("warmRateBps", if h.warmRateBps = 0 then none else some (.num h.warmRateBps)),
    ("warmSrttNetUs", if h.warmSrttNetUs = 0 then none else some (.num h.warmSrttNetUs)),
    ("warmBaseRttUs", if h.warmBaseRttUs = 0 then none else some (.num h.warmBaseRttUs)),
    ("encrypt", if h.encrypt then some (.bool true) else none),
    ("ciphers", h.ciphers.map fun cs => .arr (cs.map .str)),
    ("pubKey", bytesField c h.pubKey), ("authMac", bytesField c h.authMac)]

def toJson (h : Hello) : Json := .obj (entries (h.fields c))

def fromJson (j : Json) : Option Hello := do
  let fs ← fieldsOf names j
  let version ← required fs "version" Json.asI64
  let mode ← required fs "mode" Json.asStr
  let name ← required fs "name" Json.asStr
  let size ← required fs "size" Json.asI64
  let blockSize ← required fs "blockSize" Json.asI64
  let rateBps ← required fs "rateBps" Json.asU64
  let maxBps ← required fs "maxBps" Json.asU64
  let adaptive ← required fs "adaptive" Json.asBool
  let alphaBps ← required fs "alphaBps" Json.asU64
  let crc32c ← required fs "crc32c" Json.asU32
  let warmRateBps ← orDefault fs "warmRateBps" Json.asU64 0
  let warmSrttNetUs ← orDefault fs "warmSrttNetUs" Json.asU64 0
  let warmBaseRttUs ← orDefault fs "warmBaseRttUs" Json.asU64 0
  let encrypt ← orDefault fs "encrypt" Json.asBool false
  let ciphers ← orDefault fs "ciphers" Json.asStrs none
  let pubKey ← orDefault fs "pubKey" (asBytes c) none
  let authMac ← orDefault fs "authMac" (asBytes c) none
  pure ⟨version, mode, name, size, blockSize, rateBps, maxBps, adaptive, alphaBps, crc32c, warmRateBps,
    warmSrttNetUs, warmBaseRttUs, encrypt, ciphers, pubKey, authMac⟩

def blobs (h : Hello) : List Bytes := h.pubKey.toList ++ h.authMac.toList

/-- The numbers are those of the types of the source. -/
structure Ranged (h : Hello) : Prop where
  version : IsI64 h.version
  size : IsI64 h.size
  blockSize : IsI64 h.blockSize
  rateBps : h.rateBps < 2 ^ 64
  maxBps : h.maxBps < 2 ^ 64
  alphaBps : h.alphaBps < 2 ^ 64
  warmRateBps : h.warmRateBps < 2 ^ 64
  warmSrttNetUs : h.warmSrttNetUs < 2 ^ 64
  warmBaseRttUs : h.warmBaseRttUs < 2 ^ 64

end Hello

namespace Ack

def names : List String :=
  ["ok", "err", "udpPort", "session", "size", "crc32c", "name", "encrypt", "cipher", "pubKey",
    "authRequired", "authMac"]

def fields (a : Ack) : List (String × Option Json) :=
  [("ok", some (.bool a.ok)), ("err", if a.err.isEmpty then none else some (.str a.err)),
    ("udpPort", some (.num a.udpPort)), ("session", some (.num a.session.toNat)),
    ("size", some (.num a.size)), ("crc32c", some (.num a.crc32c.toNat)), ("name", some (.str a.name)),
    ("encrypt", if a.encrypt then some (.bool true) else none),
    ("cipher", if a.cipher.isEmpty then none else some (.str a.cipher)),
    ("pubKey", bytesField c a.pubKey),
    ("authRequired", if a.authRequired then some (.bool true) else none),
    ("authMac", bytesField c a.authMac)]

def toJson (a : Ack) : Json := .obj (entries (a.fields c))

def fromJson (j : Json) : Option Ack := do
  let fs ← fieldsOf names j
  let ok ← required fs "ok" Json.asBool
  let err ← orDefault fs "err" Json.asStr ""
  let udpPort ← required fs "udpPort" Json.asI64
  let session ← required fs "session" Json.asU32
  let size ← required fs "size" Json.asI64
  let crc32c ← required fs "crc32c" Json.asU32
  let name ← required fs "name" Json.asStr
  let encrypt ← orDefault fs "encrypt" Json.asBool false
  let cipher ← orDefault fs "cipher" Json.asStr ""
  let pubKey ← orDefault fs "pubKey" (asBytes c) none
  let authRequired ← orDefault fs "authRequired" Json.asBool false
  let authMac ← orDefault fs "authMac" (asBytes c) none
  pure ⟨ok, err, udpPort, session, size, crc32c, name, encrypt, cipher, pubKey, authRequired, authMac⟩

def blobs (a : Ack) : List Bytes := a.pubKey.toList ++ a.authMac.toList

structure Ranged (a : Ack) : Prop where
  udpPort : IsI64 a.udpPort
  size : IsI64 a.size

end Ack

/-! ## Round trips -/

section roundtrip

variable {c}

theorem bind_intro {α β : Type} {o : Option α} {f : α → Option β} {x : α} {y : β} (h : o = some x)
    (hf : f x = some y) : (o >>= f) = some y := by
  rw [h]
  exact hf

theorem asI64_num {n : Int} (h : IsI64 n) : Json.asI64 (.num n) = some n := if_pos h

theorem asU64_num {n : Nat} (h : n < 2 ^ 64) : Json.asU64 (.num n) = some n := by
  rw [Json.asU64, if_pos (by omega), Int.toNat_natCast]

theorem asU32_num (n : UInt32) : Json.asU32 (.num n.toNat) = some n := by
  have hlt := n.toNat_lt
  rw [Json.asU32, if_pos (by omega), Int.toNat_natCast, UInt32.ofNat_toNat]

theorem asStrs_arr (ss : List String) : Json.asStrs (.arr (ss.map .str)) = some (some ss) := by
  have hmap : (ss.map Json.str).mapM Json.asStr = some ss := by
    induction ss with
    | nil => rfl
    | cons s ss ih =>
      rw [List.map_cons, List.mapM_cons, ih]
      rfl
  rw [Json.asStrs, hmap]
  rfl

theorem orDefault_counter {fields : List (String × Option Json)} (name : String) {n : Nat}
    (hnodup : (fields.map Prod.fst).Nodup) (hn : n < 2 ^ 64)
    (hfield : fields.lookup name = some (if n = 0 then none else some (.num n))) :
    orDefault (entries fields) name Json.asU64 0 = some n := by
  refine orDefault_entries name _ hnodup hfield (fun h => ?_) fun j h => ?_
  · split_ifs at h with hzero
    exact hzero
  · split_ifs at h
    cases h
    exact asU64_num hn

theorem orDefault_flag {fields : List (String × Option Json)} (name : String) {b : Bool}
    (hnodup : (fields.map Prod.fst).Nodup)
    (hfield : fields.lookup name = some (if b then some (.bool true) else none)) :
    orDefault (entries fields) name Json.asBool false = some b := by
  refine orDefault_entries name _ hnodup hfield (fun h => ?_) fun j h => ?_
  · cases b
    · rfl
    · cases h
  · cases b <;> cases h
    rfl

theorem orDefault_text {fields : List (String × Option Json)} (name : String) {t : String}
    (hnodup : (fields.map Prod.fst).Nodup)
    (hfield : fields.lookup name = some (if t.isEmpty then none else some (.str t))) :
    orDefault (entries fields) name Json.asStr "" = some t := by
  refine orDefault_entries name _ hnodup hfield (fun h => ?_) fun j h => ?_
  · split_ifs at h with hempty
    exact String.isEmpty_iff.mp hempty
  · split_ifs at h
    cases h
    rfl

theorem orDefault_bytes {fields : List (String × Option Json)} (name : String) {v : Option Bytes}
    (hc : ∀ bs ∈ v.toList, c.decode (c.encode bs) = some bs) (hnodup : (fields.map Prod.fst).Nodup)
    (hfield : fields.lookup name = some (bytesField c v)) :
    orDefault (entries fields) name (asBytes c) none = some v := by
  refine orDefault_entries name _ hnodup hfield (fun h => ?_) fun j h => ?_
  · exact Option.map_eq_none_iff.mp h
  · obtain ⟨bs, rfl, rfl⟩ := Option.map_eq_some_iff.mp h
    rw [asBytes, hc bs List.mem_cons_self]
    rfl

theorem Hello.names_fields (h : Hello) : (h.fields c).map Prod.fst = Hello.names := rfl

theorem Hello.nodup_fields (c : Codecs) (h : Hello) : ((h.fields c).map Prod.fst).Nodup := by
  rw [h.names_fields]
  decide

theorem Hello.fromJson_toJson {h : Hello} (hr : h.Ranged)
    (hc : ∀ bs ∈ h.blobs, c.decode (c.encode bs) = some bs) :
    Hello.fromJson c (h.toJson c) = some h := by
  obtain ⟨hpub, hmac⟩ := List.forall_mem_append.mp hc
  have hn := nodup_fields c h
  have hciphers : orDefault (entries (h.fields c)) "ciphers" Json.asStrs none = some h.ciphers := by
    refine orDefault_entries "ciphers" _ hn rfl Option.map_eq_none_iff.mp fun j hj => ?_
    obtain ⟨cs, hcs, rfl⟩ := Option.map_eq_some_iff.mp hj
    rw [hcs, asStrs_arr]
  exact bind_intro (fieldsOf_entries hn _) <|
    bind_intro (required_entries "version" _ hn rfl (asI64_num hr.version)) <|
    bind_intro (required_entries "mode" _ hn rfl rfl) <|
    bind_intro (required_entries "name" _ hn rfl rfl) <|
    bind_intro (required_entries "size" _ hn rfl (asI64_num hr.size)) <|
    bind_intro (required_entries "blockSize" _ hn rfl (asI64_num hr.blockSize)) <|
    bind_intro (required_entries "rateBps" _ hn rfl (asU64_num hr.rateBps)) <|
    bind_intro (required_entries "maxBps" _ hn rfl (asU64_num hr.maxBps)) <|
    bind_intro (required_entries "adaptive" _ hn rfl rfl) <|
    bind_intro (required_entries "alphaBps" _ hn rfl (asU64_num hr.alphaBps)) <|
    bind_intro (required_entries "crc32c" _ hn rfl (asU32_num h.crc32c)) <|
    bind_intro (orDefault_counter "warmRateBps" hn hr.warmRateBps rfl) <|
    bind_intro (orDefault_counter "warmSrttNetUs" hn hr.warmSrttNetUs rfl) <|
    bind_intro (orDefault_counter "warmBaseRttUs" hn hr.warmBaseRttUs rfl) <|
    bind_intro (orDefault_flag "encrypt" hn rfl) <| bind_intro hciphers <|
    bind_intro (orDefault_bytes "pubKey" hpub hn rfl) <|
    bind_intro (orDefault_bytes "authMac" hmac hn rfl) rfl

theorem Ack.names_fields (a : Ack) : (a.fields c).map Prod.fst = Ack.names := rfl

theorem Ack.nodup_fields (c : Codecs) (a : Ack) : ((a.fields c).map Prod.fst).Nodup := by
  rw [a.names_fields]
  decide

theorem Ack.fromJson_toJson {a : Ack} (hr : a.Ranged)
    (hc : ∀ bs ∈ a.blobs, c.decode (c.encode bs) = some bs) :
    Ack.fromJson c (a.toJson c) = some a := by
  have hn := nodup_fields c a
  obtain ⟨hpub, hmac⟩ := List.forall_mem_append.mp hc
  exact bind_intro (fieldsOf_entries hn _) <|
    bind_intro (required_entries "ok" _ hn rfl rfl) <| bind_intro (orDefault_text "err" hn rfl) <|
    bind_intro (required_entries "udpPort" _ hn rfl (asI64_num hr.udpPort)) <|
    bind_intro (required_entries "session" _ hn rfl (asU32_num a.session)) <|
    bind_intro (required_entries "size" _ hn rfl (asI64_num hr.size)) <|
    bind_intro (required_entries "crc32c" _ hn rfl (asU32_num a.crc32c)) <|
    bind_intro (required_entries "name" _ hn rfl rfl) <| bind_intro (orDefault_flag "encrypt" hn rfl) <|
    bind_intro (orDefault_text "cipher" hn rfl) <|
    bind_intro (orDefault_bytes "pubKey" hpub hn rfl) <|
    bind_intro (orDefault_flag "authRequired" hn rfl) <|
    bind_intro (orDefault_bytes "authMac" hmac hn rfl) rfl

/-! ## What is accepted -/

theorem asI64_eq_some {j : Json} {n : Int} (h : j.asI64 = some n) : IsI64 n := by
  cases j with
  | num m =>
    simp only [Json.asI64] at h
    split_ifs at h with hm
    cases h
    exact hm
  | _ => cases h

theorem asU64_eq_some {j : Json} {n : Nat} (h : j.asU64 = some n) : n < 2 ^ 64 := by
  cases j with
  | num m =>
    simp only [Json.asU64] at h
    split_ifs at h with hm
    cases h
    omega
  | _ => cases h

theorem required_eq_some {α : Type} {fields : List (String × Json)} {name : String}
    {dec : Json → Option α} {x : α} (h : required fields name dec = some x) : ∃ j, dec j = some x := by
  obtain ⟨j, -, hj⟩ := Option.bind_eq_some_iff.mp h
  exact ⟨j, hj⟩

theorem orDefault_eq_some {α : Type} {fields : List (String × Json)} {name : String}
    {dec : Json → Option α} {x default : α} (h : orDefault fields name dec default = some x) :
    x = default ∨ ∃ j, dec j = some x := by
  unfold orDefault at h
  split at h
  · exact .inr ⟨_, h⟩
  · cases h
    exact .inl rfl

theorem counter_lt {fields : List (String × Json)} {name : String} {n : Nat}
    (h : orDefault fields name Json.asU64 0 = some n) : n < 2 ^ 64 := by
  rcases orDefault_eq_some h with rfl | ⟨j, hj⟩
  · decide
  · exact asU64_eq_some hj

theorem Hello.ranged_of_fromJson {j : Json} {h : Hello} (hok : Hello.fromJson c j = some h) :
    h.Ranged := by
  unfold fromJson at hok
  obtain ⟨fs, -, hok⟩ := Option.bind_eq_some_iff.mp hok
  obtain ⟨version, hversion, hok⟩ := Option.bind_eq_some_iff.mp hok
  obtain ⟨mode, -, hok⟩ := Option.bind_eq_some_iff.mp hok
  obtain ⟨name, -, hok⟩ := Option.bind_eq_some_iff.mp hok
  obtain ⟨size, hsize, hok⟩ := Option.bind_eq_some_iff.mp hok
  obtain ⟨blockSize, hblock, hok⟩ := Option.bind_eq_some_iff.mp hok
  obtain ⟨rateBps, hrate, hok⟩ := Option.bind_eq_some_iff.mp hok
  obtain ⟨maxBps, hmax, hok⟩ := Option.bind_eq_some_iff.mp hok
  obtain ⟨adaptive, -, hok⟩ := Option.bind_eq_some_iff.mp hok
  obtain ⟨alphaBps, halpha, hok⟩ := Option.bind_eq_some_iff.mp hok
  obtain ⟨crc, -, hok⟩ := Option.bind_eq_some_iff.mp hok
  obtain ⟨warmRate, hwarmRate, hok⟩ := Option.bind_eq_some_iff.mp hok
  obtain ⟨warmSrtt, hwarmSrtt, hok⟩ := Option.bind_eq_some_iff.mp hok
  obtain ⟨warmBase, hwarmBase, hok⟩ := Option.bind_eq_some_iff.mp hok
  obtain ⟨encrypt, -, hok⟩ := Option.bind_eq_some_iff.mp hok
  obtain ⟨ciphers, -, hok⟩ := Option.bind_eq_some_iff.mp hok
  obtain ⟨pubKey, -, hok⟩ := Option.bind_eq_some_iff.mp hok
  obtain ⟨authMac, -, hok⟩ := Option.bind_eq_some_iff.mp hok
  cases hok
  obtain ⟨_, hversion⟩ := required_eq_some hversion
  obtain ⟨_, hsize⟩ := required_eq_some hsize
  obtain ⟨_, hblock⟩ := required_eq_some hblock
  obtain ⟨_, hrate⟩ := required_eq_some hrate
  obtain ⟨_, hmax⟩ := required_eq_some hmax
  obtain ⟨_, halpha⟩ := required_eq_some halpha
  exact ⟨asI64_eq_some hversion, asI64_eq_some hsize, asI64_eq_some hblock, asU64_eq_some hrate,
    asU64_eq_some hmax, asU64_eq_some halpha, counter_lt hwarmRate, counter_lt hwarmSrtt,
    counter_lt hwarmBase⟩

end roundtrip

/-! ## Frames -/

/-- `write_json`: the length is cast to a `u32`. -/
def writeJson (j : Json) : Bytes := leBytes 4 ((c.toVec j).length % 2 ^ 32) ++ c.toVec j

inductive ReadErr
  | unexpectedEof
  | tooLarge (n : Nat)
  /-- The text is no JSON, or not of the type that is read. -/
  | invalid

/-- `read_json`, from a stream in segments. -/
def readJson {α : Type} (dec : Json → Option α) (segs : List Bytes) : Except ReadErr (α × List Bytes) :=
  match readExact 4 segs with
  | none => .error .unexpectedEof
  | some (lenbuf, segs) =>
    let n := leNat lenbuf
    if n > 1 <<< 20 then .error (.tooLarge n)
    else
      match readExact n segs with
      | none => .error .unexpectedEof
      | some (b, segs) =>
        match (c.fromSlice b).bind dec with
        | none => .error .invalid
        | some x => .ok (x, segs)

section frames

variable {c} {α : Type} {dec : Json → Option α} {j : Json} {x : α} {segs : List Bytes} {rest : Bytes}

theorem read_length (h : (c.toVec j).length < 2 ^ 32) (hsegs : segs.flatten = writeJson c j ++ rest) :
    ∃ segs', readExact 4 segs = some (leBytes 4 (c.toVec j).length, segs') ∧
      leNat (leBytes 4 (c.toVec j).length) = (c.toVec j).length ∧
      segs'.flatten = c.toVec j ++ rest := by
  rw [writeJson, Nat.mod_eq_of_lt h, List.append_assoc] at hsegs
  obtain ⟨segs', hread, hflat⟩ := readExact_append hsegs
  rw [leBytes_length] at hread
  exact ⟨segs', hread, leNat_leBytes_of_lt (by omega), hflat⟩

theorem readJson_writeJson (hc : c.fromSlice (c.toVec j) = some j) (hdec : dec j = some x)
    (hlen : (c.toVec j).length ≤ 2 ^ 20) (hsegs : segs.flatten = writeJson c j ++ rest) :
    ∃ segs', readJson c dec segs = .ok (x, segs') ∧ segs'.flatten = rest := by
  obtain ⟨segs₁, hread₁, hn, hflat₁⟩ := read_length (by omega) hsegs
  obtain ⟨segs₂, hread₂, hflat₂⟩ := readExact_append hflat₁
  refine ⟨segs₂, ?_, hflat₂⟩
  have hlimit : ¬ (c.toVec j).length > 1 <<< 20 := by
    rw [show 1 <<< 20 = 2 ^ 20 from rfl]
    omega
  rw [readJson, hread₁]
  dsimp only
  rw [hn, if_neg hlimit, hread₂]
  dsimp only
  rw [hc, Option.bind_some, hdec]

theorem readJson_tooLarge (hlen : 2 ^ 20 < (c.toVec j).length) (hlt : (c.toVec j).length < 2 ^ 32)
    (hsegs : segs.flatten = writeJson c j ++ rest) :
    readJson c dec segs = .error (.tooLarge (c.toVec j).length) := by
  obtain ⟨segs', hread, hn, -⟩ := read_length hlt hsegs
  have hlimit : (c.toVec j).length > 1 <<< 20 := by
    rw [show 1 <<< 20 = 2 ^ 20 from rfl]
    omega
  rw [readJson, hread]
  dsimp only
  rw [hn, if_pos hlimit]

end frames

/-! ## A connection -/

/-- What decides an iteration of `handle_conn` besides what it reads. -/
structure Turn where
  /-- `stop` is set when the iteration begins. -/
  stop : Bool := false
  /-- What other connections and processes have made of the served objects. -/
  others : Server.World → Server.World := id
  env : Server.HelloEnv := {}

/-- `handle_conn`, over anything it can read Hellos from: an iteration for each turn, up to the one that
closes the connection. A read that fails says how the call ends. -/
def handleConn {σ : Type} (srv : Server) (peer : SocketAddr)
    (read : σ → Except (Except String Unit) (Hello × σ)) :
    List Turn → Server.Conn → σ → Server.Conn
  | [], s, _ => s
  | turn :: turns, s, input =>
    match s.next with
    | .closed _ => s
    | .again =>
      if turn.stop then { s with next := .closed (.ok ()) }
      else
        match read input with
        | .error res => { s with next := .closed res }
        | .ok (h, input) =>
          let out := srv.handleHello peer (turn.others s.world) h turn.env
          handleConn srv peer read turns ⟨out.world, (h, out.events) :: s.log, out.next⟩ input

/-- Reading a Hello from the stream. A client that is gone ends the connection without an error. -/
def readHello (serdeErr : String) (segs : List Bytes) :
    Except (Except String Unit) (Hello × List Bytes) :=
  match readJson c (Hello.fromJson c) segs with
  | .ok r => .ok r
  | .error .unexpectedEof => .error (.ok ())
  | .error (.tooLarge n) => .error (.error s!"control message too large: {n}")
  | .error .invalid => .error (.error serdeErr)

/-- Taking the next Hello of a list. -/
def nextHello (fin : Except String Unit) : List Hello → Except (Except String Unit) (Hello × List Hello)
  | [] => .error fin
  | h :: hs => .ok (h, hs)

section conn

variable {σ τ : Type} {srv : Server} {peer : SocketAddr} {turns : List Turn} {s : Server.Conn}
  {read : σ → Except (Except String Unit) (Hello × σ)}

theorem handleConn_run (input : σ) :
    ∃ acts, Steps (srv.connStep peer) Any s acts (handleConn srv peer read turns s input) := by
  induction turns generalizing s input with
  | nil => exact ⟨[], .nil s⟩
  | cons turn turns ih =>
    rw [handleConn]
    split
    · exact ⟨[], .nil s⟩
    · rename_i hnext
      split_ifs
      · exact ⟨[.hangUp], .single trivial (by simp only [Server.connStep, hnext])⟩
      · split
        · rename_i res _
          cases res with
          | ok => exact ⟨[.hangUp], .single trivial (by simp only [Server.connStep, hnext])⟩
          | error e => exact ⟨[.readErr e], .single trivial (by simp only [Server.connStep, hnext])⟩
        · rename_i h input' _
          obtain ⟨acts, hacts⟩ := ih (s := ⟨_, _, _⟩) input'
          refine ⟨.others (turn.others s.world) :: .hello h turn.env :: acts, ?_⟩
          refine .cons (t := { s with world := turn.others s.world }) trivial ?_
            (.cons trivial ?_ hacts)
          · simp only [Server.connStep, hnext]
          · simp only [Server.connStep, hnext]

theorem handleConn_congr {read' : τ → Except (Except String Unit) (Hello × τ)} {R : σ → τ → Prop}
    (hread : ∀ a b, R a b → (∃ res, read a = .error res ∧ read' b = .error res) ∨
      ∃ h a' b', read a = .ok (h, a') ∧ read' b = .ok (h, b') ∧ R a' b')
    {a : σ} {b : τ} (hR : R a b) :
    handleConn srv peer read turns s a = handleConn srv peer read' turns s b := by
  induction turns generalizing s a b with
  | nil => rfl
  | cons turn turns ih =>
    rw [handleConn, handleConn]
    obtain ⟨res, ha, hb⟩ | ⟨h, a', b', ha, hb, hR'⟩ := hread a b hR
    · rw [ha, hb]
    · rw [ha, hb]
      dsimp only
      rw [ih hR']

theorem handled_prefix (fin : Except String Unit) (hs : List Hello) :
    ∃ k, (handleConn srv peer (nextHello fin) turns s hs).log.map Prod.fst =
      (hs.take k).reverse ++ s.log.map Prod.fst := by
  induction turns generalizing s hs with
  | nil => exact ⟨0, rfl⟩
  | cons turn turns ih =>
    rw [handleConn]
    split
    · exact ⟨0, rfl⟩
    · split_ifs
      · exact ⟨0, rfl⟩
      · cases hs with
        | nil => exact ⟨0, rfl⟩
        | cons h hs =>
          obtain ⟨k, hk⟩ := ih (s := ⟨_, _, _⟩) hs
          refine ⟨k + 1, hk.trans ?_⟩
          simp

end conn

section frames

variable {c} {srv : Server} {peer : SocketAddr} {segs : List Bytes} {rest : Bytes}

theorem readJson_eq_ok {α : Type} {dec : Json → Option α} {x : α} {segs' : List Bytes}
    (h : readJson c dec segs = .ok (x, segs')) : ∃ j, dec j = some x := by
  unfold readJson at h
  split at h
  · cases h
  · dsimp only at h
    split_ifs at h
    split at h
    · cases h
    · split at h
      · cases h
      · rename_i hdec
        cases h
        obtain ⟨j, -, hj⟩ := Option.bind_eq_some_iff.mp hdec
        exact ⟨j, hj⟩

theorem Hello.ranged_of_readHello {serdeErr : String} {h : Hello} {segs' : List Bytes}
    (hread : readHello c serdeErr segs = .ok (h, segs')) : h.Ranged := by
  unfold readHello at hread
  split at hread
  · rename_i hjson
    cases hread
    obtain ⟨j, hj⟩ := readJson_eq_ok hjson
    exact Hello.ranged_of_fromJson hj
  · cases hread
  · cases hread
  · cases hread

/-- The text of a Hello as it is written. -/
def helloText (c : Codecs) (h : Hello) : Bytes := c.toVec (h.toJson c)

def helloFrames (c : Codecs) (hs : List Hello) : Bytes :=
  (hs.map fun h => writeJson c (h.toJson c)).flatten

/-- A Hello that can be read: its numbers are in range, the crates read it back, and its text is within
the limit. -/
structure Hello.Readable (c : Codecs) (h : Hello) : Prop where
  ranged : h.Ranged
  readsBack : c.ReadsBack (h.toJson c) h.blobs
  length : (helloText c h).length ≤ 2 ^ 20

theorem readHello_write (serdeErr : String) {h : Hello} (hok : h.Readable c)
    (hsegs : segs.flatten = writeJson c (h.toJson c) ++ rest) :
    ∃ segs', readHello c serdeErr segs = .ok (h, segs') ∧ segs'.flatten = rest := by
  obtain ⟨segs', hread, hflat⟩ := readJson_writeJson hok.readsBack.json
    (Hello.fromJson_toJson hok.ranged hok.readsBack.base64) hok.length hsegs
  exact ⟨segs', by rw [readHello, hread], hflat⟩

/-- On the frames of some Hellos in front of something that ends the connection, the loop does what it
does on the Hellos. -/
theorem handleConn_frames (serdeErr : String) {fin : Except String Unit}
    (hrest : ∀ segs : List Bytes, segs.flatten = rest → readHello c serdeErr segs = .error fin)
    {hs : List Hello} (hok : ∀ h ∈ hs, h.Readable c) (hsegs : segs.flatten = helloFrames c hs ++ rest)
    (turns : List Turn) (s : Server.Conn) :
    handleConn srv peer (readHello c serdeErr) turns s segs =
      handleConn srv peer (nextHello fin) turns s hs := by
  refine handleConn_congr (R := fun segs hs => (∀ h ∈ hs, h.Readable c) ∧
    segs.flatten = helloFrames c hs ++ rest) ?_ ⟨hok, hsegs⟩
  rintro segs hs ⟨hok, hsegs⟩
  cases hs with
  | nil => exact .inl ⟨fin, hrest segs hsegs, rfl⟩
  | cons h hs =>
    obtain ⟨hh, hhs⟩ := List.forall_mem_cons.mp hok
    rw [helloFrames, List.map_cons, List.flatten_cons, List.append_assoc] at hsegs
    obtain ⟨segs', hread, hflat⟩ := readHello_write serdeErr hh hsegs
    exact .inr ⟨h, segs', hs, hread, rfl, hhs, hflat⟩

/-- **A connection handles what was written to it.** However the stream is cut into segments, the server
does on it what it does on the list of the Hellos that were written: it handles them in order and
unchanged, up to one that closes the connection or until it is stopped, and behind the last it finds the
end of the stream, or a message that is too long and is refused. What it does is a run of the
connection. And a Hello that it has read can be written again, and is then read as the same. -/
theorem read_frames (serdeErr : String) (srv : Server) (peer : SocketAddr) (hs : List Hello)
    (hok : ∀ h ∈ hs, h.Readable c) :
    (∀ (segs : List Bytes) (turns : List Turn) (s : Server.Conn), segs.flatten = helloFrames c hs →
      handleConn srv peer (readHello c serdeErr) turns s segs =
        handleConn srv peer (nextHello (.ok ())) turns s hs) ∧
    (∀ (segs : List Bytes) (turns : List Turn) (s : Server.Conn) (h : Hello) (rest : Bytes),
      2 ^ 20 < (helloText c h).length → (helloText c h).length < 2 ^ 32 →
      segs.flatten = helloFrames c hs ++ (writeJson c (h.toJson c) ++ rest) →
      handleConn srv peer (readHello c serdeErr) turns s segs = handleConn srv peer
        (nextHello (.error s!"control message too large: {(helloText c h).length}")) turns s hs) ∧
    (∀ (turns : List Turn) (w : Server.World) (fin : Except String Unit),
      let conn := handleConn srv peer (nextHello fin) turns (Server.newConn w) hs
      (∃ k, conn.log.map Prod.fst = (hs.take k).reverse) ∧
        ∃ acts, Steps (srv.connStep peer) Any (Server.newConn w) acts conn) ∧
    ∀ (segs segs' segs₂ : List Bytes) (h : Hello) (rest : Bytes),
      readHello c serdeErr segs = .ok (h, segs') → c.ReadsBack (h.toJson c) h.blobs →
      (helloText c h).length ≤ 2 ^ 20 → segs₂.flatten = writeJson c (h.toJson c) ++ rest →
      ∃ segs₂', readHello c serdeErr segs₂ = .ok (h, segs₂') ∧ segs₂'.flatten = rest := by
  refine ⟨fun segs turns s hsegs => ?_, fun segs turns s h rest hlong hlt hsegs => ?_,
    fun turns w fin => ?_, fun segs segs' segs₂ h rest hread hback hlen hsegs => ?_⟩
  · refine handleConn_frames serdeErr (fun segs (hsegs : segs.flatten = []) => ?_) hok
      (hsegs.trans (List.append_nil _).symm) turns s
    rw [readHello, readJson, readExact_eq_none (by simp [hsegs])]
  · refine handleConn_frames serdeErr (fun segs hsegs => ?_) hok hsegs turns s
    rw [readHello, readJson_tooLarge hlong hlt hsegs]
    rfl
  · obtain ⟨k, hk⟩ : ∃ k, (handleConn srv peer (nextHello fin) turns (Server.newConn w) hs).log.map
        Prod.fst = (hs.take k).reverse ++ [] := handled_prefix fin hs
    exact ⟨⟨k, hk.trans (List.append_nil _)⟩, handleConn_run hs⟩
  · refine readHello_write serdeErr ⟨?_, hback, hlen⟩ hsegs
    exact Hello.ranged_of_readHello hread

/-! ### Two requests, and one behind them -/

/-- A push of the byte 7, and a request of another version of the protocol. -/
def pushSeven : Hello :=
  { version := protocolVersion, mode := modeSend, name := "a", size := 1, blockSize := 1400
    crc32c := 0x86b737ba }

def otherVersion : Hello :=
  { version := 2, mode := modeRecv, name := "b", blockSize := 1400, encrypt := true
    ciphers := some [cipherAesGcm], pubKey := some (List.replicate 32 1) }

/-- The answer to the push. -/
def sevenAck : Ack := { ok := true, udpPort := 40000, session := 7, name := "a" }

/-- Their texts, field by field. -/
def pushSevenText : List String :=
  ["\x7b\"version\":1,", "\"mode\":\"send\",", "\"name\":\"a\",", "\"size\":1,",
    "\"blockSize\":1400,", "\"rateBps\":0,", "\"maxBps\":0,", "\"adaptive\":false,",
    "\"alphaBps\":0,", "\"crc32c\":2260154298\x7d"]

def otherVersionText : List String :=
  ["\x7b\"version\":2,", "\"mode\":\"recv\",", "\"name\":\"b\",", "\"size\":0,",
    "\"blockSize\":1400,", "\"rateBps\":0,", "\"maxBps\":0,", "\"adaptive\":false,",
    "\"alphaBps\":0,", "\"crc32c\":0,", "\"encrypt\":true,", "\"ciphers\":[\"aes-256-gcm\"],",
    "\"pubKey\":\"AQEBAQEBAQEBAQEBAQEBAQEBAQEBAQEBAQEBAQEBAQE=\"\x7d"]

def sevenAckText : List String :=
  ["\x7b\"ok\":true,", "\"udpPort\":40000,", "\"session\":7,", "\"size\":0,", "\"crc32c\":0,",
    "\"name\":\"a\"\x7d"]

def onesBase64 : String := "AQEBAQEBAQEBAQEBAQEBAQEBAQEBAQEBAQEBAQEBAQE="

def ascii (text : List String) : Bytes :=
  text.flatMap fun s => s.toList.map fun ch => UInt8.ofNat ch.toNat

/-- What base64 makes of the key. -/
def onesCodecs : Codecs where
  toVec _ := []
  fromSlice _ := none
  encode bs := if bs = List.replicate 32 1 then onesBase64 else ""
  decode s := if s = onesBase64 then some (List.replicate 32 1) else none

/-- The crates on these messages. -/
def sevenCodecs : Codecs where
  toVec
    | .obj fields =>
      if (fields.lookup "ok").isSome then ascii sevenAckText
      else if (fields.lookup "pubKey").isSome then ascii otherVersionText
      else ascii pushSevenText
    | _ => []
  fromSlice bs :=
    if bs = ascii sevenAckText then some (sevenAck.toJson onesCodecs)
    else if bs = ascii otherVersionText then some (otherVersion.toJson onesCodecs)
    else if bs = ascii pushSevenText then some (pushSeven.toJson onesCodecs)
    else none
  encode := onesCodecs.encode
  decode := onesCodecs.decode

theorem sevenCodecs_fromSlice (bs : Bytes) : sevenCodecs.fromSlice bs =
    if bs = ascii sevenAckText then some (sevenAck.toJson onesCodecs)
    else if bs = ascii otherVersionText then some (otherVersion.toJson onesCodecs)
    else if bs = ascii pushSevenText then some (pushSeven.toJson onesCodecs)
    else none := rfl

theorem sevenAck_readsBack : sevenCodecs.ReadsBack (sevenAck.toJson sevenCodecs) sevenAck.blobs where
  json := by
    have htext : sevenCodecs.toVec (sevenAck.toJson sevenCodecs) = ascii sevenAckText := by
      decide +kernel
    rw [htext, sevenCodecs_fromSlice, if_pos rfl]
    rfl
  base64 _ h := absurd h List.not_mem_nil

theorem pushSeven_readable : pushSeven.Readable sevenCodecs where
  ranged := by constructor <;> simp [pushSeven, protocolVersion, IsI64]
  readsBack := by
    have htext : sevenCodecs.toVec (pushSeven.toJson sevenCodecs) = ascii pushSevenText := by
      decide +kernel
    refine ⟨?_, fun _ h => absurd h List.not_mem_nil⟩
    rw [htext, sevenCodecs_fromSlice, if_neg (by decide +kernel), if_neg (by decide +kernel), if_pos rfl]
    rfl
  length := by decide +kernel

theorem otherVersion_readable : otherVersion.Readable sevenCodecs where
  ranged := by constructor <;> simp [otherVersion, IsI64]
  readsBack := by
    have htext : sevenCodecs.toVec (otherVersion.toJson sevenCodecs) = ascii otherVersionText := by
      decide +kernel
    refine ⟨?_, by decide⟩
    rw [htext, sevenCodecs_fromSlice, if_neg (by decide +kernel), if_pos rfl]
    rfl
  length := by decide +kernel

/-- Every byte a segment. -/
def single (bs : Bytes) : List Bytes := bs.map ([·])

theorem flatten_single (bs : Bytes) : (single bs).flatten = bs := by
  rw [single, ← List.flatMap_def, List.flatMap_singleton']

def sevenEnv : Server.HelloEnv := { session := 7, udpPort := 40000, contents := [7] }

/-- The push is handled, the other request closes the connection, and what is behind it is not read. -/
theorem read_frames_single :
    (handleConn Server.plain Server.localPeer (readHello sevenCodecs "")
      (List.replicate 4 { env := sevenEnv }) (Server.newConn Server.emptyWorld)
      (single (helloFrames sevenCodecs [pushSeven, otherVersion, pushSeven]))).log.map Prod.fst =
    [otherVersion, pushSeven] := by
  have hok : ∀ h ∈ [pushSeven, otherVersion, pushSeven], h.Readable sevenCodecs := by
    simp [pushSeven_readable, otherVersion_readable]
  rw [(read_frames "" Server.plain Server.localPeer _ hok).1 _ _ _ (flatten_single _)]
  decide +kernel

/-! ## Answers -/

/-- An answer in the numbers of the source. -/
def RangedEvent : Server.Event → Prop
  | .ack a => a.Ranged
  | _ => True

@[simp] theorem ranged_access (kind : Server.Access) (name : String) :
    RangedEvent (.access kind name) := trivial

@[simp] theorem ranged_ackErr (e : String) (authRequired : Bool) :
    RangedEvent (Server.ackErr e authRequired) := by
  refine ⟨?_, ?_, ?_⟩ <;> simp [IsI64]

theorem ranged_okAck (srv : Server) (h : Hello) (env : Server.HelloEnv)
    (auth : Option Server.AuthState) (neg : Negotiated) :
    RangedEvent (.ack (srv.okAck h env auth neg)) := by
  have hport := env.udpPort.toNat_lt
  refine ⟨⟨?_, ?_⟩, ?_, ?_⟩ <;> (simp [Server.okAck]; try omega)

theorem ranged_sizeAck {a : Ack} {size : Int} (crc : UInt32) (ha : RangedEvent (.ack a))
    (hsize : IsI64 size) : RangedEvent (.ack { a with size := size, crc32c := crc }) :=
  ⟨ha.udpPort, hsize⟩

theorem ranged_recvInto (srv : Server) (w : Server.World) (h : Hello) (env : Server.HelloEnv)
    (auth : Option Server.AuthState) (name : String) (sink : Sink) :
    ∀ ev ∈ (srv.recvInto w h env auth name sink).events, RangedEvent ev := by
  unfold Server.recvInto
  dsimp only
  split
  · simp
  · split
    · simp
    · split
      · simp
      · rename_i neg _
        split
        · simp
        · simp [ranged_okAck srv h env auth neg]

theorem ranged_recvFromClient (srv : Server) (w : Server.World) (h : Hello) (env : Server.HelloEnv)
    (auth : Option Server.AuthState) :
    ∀ ev ∈ (srv.recvFromClient w h env auth).events, RangedEvent ev := by
  unfold Server.recvFromClient
  split
  · simp
  · rename_i name _
    obtain ⟨kind, hevent⟩ := Server.openSink_event srv w name env
    generalize srv.openSink w name env = opened at hevent
    obtain ⟨res, w', ev⟩ := opened
    dsimp only at hevent
    subst hevent
    cases res with
    | error e => simp
    | ok sink =>
      exact List.forall_mem_cons.mpr
        ⟨ranged_access _ _, ranged_recvInto srv w' h env auth name sink⟩

theorem ranged_sendFrom (srv : Server) (w : Server.World) (h : Hello) (env : Server.HelloEnv)
    (auth : Option Server.AuthState) (source : BlockSource) :
    ∀ ev ∈ (srv.sendFrom w h env auth source).events, RangedEvent ev := by
  unfold Server.sendFrom
  split_ifs with hmax hsize
  · simp
  · simp
  · have hlen : IsI64 (source.len : Int) := ⟨by omega, by omega⟩
    split
    · simp
    · rename_i crc _
      split
      · simp
      · split
        · simp
        · rename_i neg _
          split
          · simp
          · simp [ranged_sizeAck crc (ranged_okAck srv h env auth neg) hlen]

theorem ranged_sendToClient (srv : Server) (w : Server.World) (h : Hello) (env : Server.HelloEnv)
    (auth : Option Server.AuthState) :
    ∀ ev ∈ (srv.sendToClient w h env auth).events, RangedEvent ev := by
  unfold Server.sendToClient
  split
  · simp
  · rename_i name _
    obtain ⟨kind, hevent⟩ := Server.openSource_event srv w name env
    generalize srv.openSource w name env = opened at hevent
    obtain ⟨res, ev⟩ := opened
    dsimp only at hevent
    subst hevent
    cases res with
    | error e => simp
    | ok source =>
      exact List.forall_mem_cons.mpr
        ⟨ranged_access _ _, ranged_sendFrom srv w h env auth source⟩

theorem ranged_handleHello (srv : Server) (peer : SocketAddr) (w : Server.World) (h : Hello)
    (env : Server.HelloEnv) :
    ∀ ev ∈ (srv.handleHello peer w h env).events, RangedEvent ev := by
  have hnoack := Server.admission_no_ack srv peer h
  have hbefore : ∀ ev ∈ (srv.admission peer h).1, RangedEvent ev := by
    intro ev hev
    cases ev with
    | ack a => exact absurd hev (hnoack a)
    | _ => trivial
  unfold Server.handleHello
  generalize srv.admission peer h = admitted at hbefore
  obtain ⟨events, ⟨e, required⟩ | auth⟩ := admitted
  · intro ev hev
    rcases List.mem_append.mp hev with hev | hev
    · exact hbefore ev hev
    · rw [List.mem_singleton.mp hev]
      exact ranged_ackErr e required
  · intro ev hev
    rcases List.mem_append.mp hev with hev | hev
    · exact hbefore ev hev
    · split_ifs at hev
      · exact ranged_recvFromClient srv w h env auth ev hev
      · exact ranged_sendToClient srv w h env auth ev hev
      · rw [List.mem_singleton.mp hev]
        exact ranged_ackErr _ _

/-- **The client reads the server's answer.** Whatever a server is asked and however it goes, each answer
that it writes is read by the client as it is, wherever the segments end, if its text is within the
limit, and refused as too long if not. -/
theorem answer_read (srv : Server) (peer : SocketAddr) (w : Server.World) (h : Hello)
    (env : Server.HelloEnv) (a : Ack) (ha : .ack a ∈ (srv.handleHello peer w h env).events)
    (hback : c.ReadsBack (a.toJson c) a.blobs) (segs : List Bytes) (rest : Bytes)
    (hsegs : segs.flatten = writeJson c (a.toJson c) ++ rest) :
    ((c.toVec (a.toJson c)).length ≤ 2 ^ 20 →
      ∃ segs', readJson c (Ack.fromJson c) segs = .ok (a, segs') ∧ segs'.flatten = rest) ∧
    (2 ^ 20 < (c.toVec (a.toJson c)).length → (c.toVec (a.toJson c)).length < 2 ^ 32 →
      readJson c (Ack.fromJson c) segs = .error (.tooLarge (c.toVec (a.toJson c)).length)) := by
  have hranged : a.Ranged := ranged_handleHello srv peer w h env _ ha
  exact ⟨fun hlen => readJson_writeJson hback.json (Ack.fromJson_toJson hranged hback.base64) hlen hsegs,
    fun hlong hlt => readJson_tooLarge hlong hlt hsegs⟩

theorem answer_read_single : ∃ segs',
    readJson sevenCodecs (Ack.fromJson sevenCodecs)
      (single (writeJson sevenCodecs (sevenAck.toJson sevenCodecs) ++ [1, 2])) = .ok (sevenAck, segs') ∧
    segs'.flatten = [1, 2] :=
  (answer_read Server.plain Server.localPeer Server.emptyWorld pushSeven sevenEnv sevenAck
    (by decide +kernel) sevenAck_readsBack _ [1, 2] (flatten_single _)).1 (by decide +kernel)

end frames

end Girth
