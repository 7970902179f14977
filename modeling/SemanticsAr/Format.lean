import Mathlib.Data.List.TakeWhile
import SemanticsAr.ByteCodec

/-!
# On-disk records

The packed structures of `keystore_format.h` and `preserve_format.h`: the
captured-key record, the preservation record, and the header both files share,
each with the codec of its packed layout.  Numbers keep the width they have in
the structures.
-/

namespace SemanticsAr

def SEMANTICS_AR_KEYSTORE_MAGIC : UInt32 := 0x53414B53
def SEMANTICS_AR_PRESERVE_MAGIC : UInt32 := 0x50524153

abbrev SEMANTICS_AR_KEY_ID_SIZE : Nat := 32
abbrev SEMANTICS_AR_MAC_SIZE : Nat := 32
abbrev SEMANTICS_AR_MAX_KEY_BYTES : Nat := 64
abbrev SEMANTICS_AR_IV_MAX : Nat := 24
abbrev SEMANTICS_AR_PROVENANCE_PATH_MAX : Nat := 260
abbrev SEMANTICS_AR_SAMPLE_TAG_MAX : Nat := 64

def SAR_PRESERVE_PROBATION : UInt32 := 0
def SAR_PRESERVE_PROTECTED : UInt32 := 1
def SAR_PRESERVE_KIND_BYTERANGE : UInt8 := 0
def SAR_PRESERVE_KIND_NAMESPACE : UInt8 := 1

/-- A path buffer: all `SEMANTICS_AR_PROVENANCE_PATH_MAX` code units, also those
    behind the terminating zero. -/
abbrev ProvPath := Vector UInt16 SEMANTICS_AR_PROVENANCE_PATH_MAX

-- paths are compared from the front, as `memcmp` does; the array instance starts at the end
instance : DecidableEq ProvPath := fun p q =>
  decidable_of_iff (p.toList = q.toList) Vector.toList_inj

instance : BEq ProvPath := instBEqOfDecidableEq

abbrev Mac := Vector UInt8 SEMANTICS_AR_MAC_SIZE

/-- `for (i = 0; i < PATH_MAX; i++) { dst[i] = src[i]; if (src[i] == 0) break; }`
    into a zeroed buffer: the code units up to the first zero, then zeros. -/
def copyUnits : List UInt16 → List UInt16
  | [] => []
  | c :: cs => if c = 0 then List.replicate (cs.length + 1) 0 else c :: copyUnits cs

@[simp] theorem length_copyUnits (cs : List UInt16) : (copyUnits cs).length = cs.length := by
  induction cs with
  | nil => rfl
  | cons c cs ih =>
    by_cases hc : c = 0
    · simp [copyUnits, hc]
    · simp [copyUnits, hc, ih]

def copyPath (src : ProvPath) : ProvPath :=
  ⟨(copyUnits src.toList).toArray, by simp⟩

def ZeroPadded (p : ProvPath) : Prop := copyPath p = p

instance (p : ProvPath) : Decidable (ZeroPadded p) := inferInstanceAs (Decidable (_ = _))

/-! ### The text of a path buffer -/

section

open List

variable {p : ProvPath}

def wideUnits (s : String) : List UInt16 := s.toList.map fun c => UInt16.ofNat c.toNat

def pathText (p : ProvPath) : List UInt16 := p.toList.takeWhile (· != 0)

theorem pathText_ne_zero : ∀ c ∈ pathText p, c ≠ 0 := by
  intro c hc
  simpa using mem_takeWhile_imp hc

theorem pathText_of_append {text rest : List UInt16} (hp : p.toList = text ++ rest)
    (htext : ∀ c ∈ text, c ≠ 0) (hrest : ∀ c, rest.head? = some c → c = 0) : pathText p = text := by
  have hstop : rest.takeWhile (· != 0) = [] := by
    cases rest with
    | nil => rfl
    | cons c cs => simp [hrest c rfl]
  rw [pathText, hp, takeWhile_append_of_pos (by simpa using htext), hstop, append_nil]

theorem copyUnits_eq (cs : List UInt16) : copyUnits cs = cs.takeWhile (· != 0) ++
      replicate (cs.length - (cs.takeWhile (· != 0)).length) 0 := by
  induction cs with
  | nil => rfl
  | cons c cs ih =>
    by_cases hc : c = 0
    · simp [copyUnits, hc]
    · simp [copyUnits, hc, ih]

theorem copyPath_toList : (copyPath p).toList = pathText p ++
    replicate (SEMANTICS_AR_PROVENANCE_PATH_MAX - (pathText p).length) 0 := by
  have hunits := copyUnits_eq p.toList
  rw [Vector.length_toList] at hunits
  exact hunits

theorem head?_replicate_zero {n : Nat} {c : UInt16}
    (h : (replicate n (0 : UInt16)).head? = some c) : c = 0 :=
  eq_of_mem_replicate (mem_of_head? h)

@[simp] theorem pathText_copyPath (p : ProvPath) : pathText (copyPath p) = pathText p :=
  pathText_of_append copyPath_toList pathText_ne_zero fun _ => head?_replicate_zero

theorem copyPath_eq_iff {q : ProvPath} : copyPath p = copyPath q ↔ pathText p = pathText q := by
  constructor
  · intro h
    rw [← pathText_copyPath p, ← pathText_copyPath q, h]
  · intro h
    apply Vector.toList_inj.mp
    rw [copyPath_toList, copyPath_toList, h]

end

/-! ### Records -/

/-- `semantics_ar_keystore_record_t`. -/
structure KeystoreRecord where
  keyId : Vector UInt8 SEMANTICS_AR_KEY_ID_SIZE
  algorithm : UInt32
  mode : UInt32
  keyLength : UInt32
  keyBytes : Vector UInt8 SEMANTICS_AR_MAX_KEY_BYTES
  iv : Vector UInt8 SEMANTICS_AR_IV_MAX
  ivLength : UInt8
  ctrLayoutTag : UInt8
  modeParams : UInt64
  provenanceOffset : UInt64
  provenanceLength : UInt64
  provenancePath : ProvPath
  sampleOffset : UInt64
  sampleLength : UInt32
  sampleTag : Mac
  captureTime : UInt64
  actorStartKey : UInt64
deriving DecidableEq

/-- `sar_preserve_record_t`. -/
structure PreserveRecord where
  provenancePath : ProvPath
  provenanceOffset : UInt64
  provenanceLength : UInt64
  captureTime : UInt64
  payloadOffset : UInt64
  payloadLength : UInt64
  actorId : UInt64
  state : UInt32
  kind : UInt8
  iv : Vector UInt8 SEMANTICS_AR_IV_MAX
  ivLength : UInt8
  contentTag : Mac
  causingImagePath : ProvPath
deriving DecidableEq

/-- `semantics_ar_keystore_header_t` and `sar_preserve_header_t`, which have the
    same fields. -/
structure StoreHeader where
  magic : UInt32
  recordCount : UInt64
  generation : UInt64
  headMac : Mac
deriving DecidableEq

/-- `sar_keystore_anchor_t`: the generation and head MAC kept outside the file. -/
structure KeystoreAnchor where
  present : Bool
  generation : UInt64
  headMac : Mac
deriving DecidableEq

/-! ### Packed layouts -/

open FixedCodec in
def macCodec : FixedCodec Mac := u8.vec SEMANTICS_AR_MAC_SIZE

open FixedCodec in
def keystoreRecordCodec : FixedCodec KeystoreRecord :=
  ((u8.vec SEMANTICS_AR_KEY_ID_SIZE).pair <| u32.pair <| u32.pair <| u32.pair <|
    (u8.vec SEMANTICS_AR_MAX_KEY_BYTES).pair <| (u8.vec SEMANTICS_AR_IV_MAX).pair <|
    u8.pair <| u8.pair <| u64.pair <| u64.pair <| u64.pair <|
    (u16.vec SEMANTICS_AR_PROVENANCE_PATH_MAX).pair <| u64.pair <| u32.pair <|
    macCodec.pair <| u64.pair u64).iso
    (fun (keyId, algorithm, mode, keyLength, keyBytes, iv, ivLength, ctrLayoutTag, modeParams,
          provenanceOffset, provenanceLength, provenancePath, sampleOffset, sampleLength,
          sampleTag, captureTime, actorStartKey) =>
      ⟨keyId, algorithm, mode, keyLength, keyBytes, iv, ivLength, ctrLayoutTag, modeParams,
        provenanceOffset, provenanceLength, provenancePath, sampleOffset, sampleLength,
        sampleTag, captureTime, actorStartKey⟩)
    (fun r =>
      (r.keyId, r.algorithm, r.mode, r.keyLength, r.keyBytes, r.iv, r.ivLength, r.ctrLayoutTag,
        r.modeParams, r.provenanceOffset, r.provenanceLength, r.provenancePath, r.sampleOffset,
        r.sampleLength, r.sampleTag, r.captureTime, r.actorStartKey))
    (fun _ => rfl) (fun _ => rfl)

open FixedCodec in
def preserveRecordCodec : FixedCodec PreserveRecord :=
  ((u16.vec SEMANTICS_AR_PROVENANCE_PATH_MAX).pair <| u64.pair <| u64.pair <| u64.pair <|
    u64.pair <| u64.pair <| u64.pair <| u32.pair <| u8.pair <|
    (u8.vec SEMANTICS_AR_IV_MAX).pair <| u8.pair <| macCodec.pair <|
    u16.vec SEMANTICS_AR_PROVENANCE_PATH_MAX).iso
    (fun (provenancePath, provenanceOffset, provenanceLength, captureTime, payloadOffset,
          payloadLength, actorId, state, kind, iv, ivLength, contentTag, causingImagePath) =>
      ⟨provenancePath, provenanceOffset, provenanceLength, captureTime, payloadOffset,
        payloadLength, actorId, state, kind, iv, ivLength, contentTag, causingImagePath⟩)
    (fun r =>
      (r.provenancePath, r.provenanceOffset, r.provenanceLength, r.captureTime, r.payloadOffset,
        r.payloadLength, r.actorId, r.state, r.kind, r.iv, r.ivLength, r.contentTag,
        r.causingImagePath))
    (fun _ => rfl) (fun _ => rfl)

open FixedCodec in
def headerCodec : FixedCodec StoreHeader :=
  (u32.pair <| u64.pair <| u64.pair macCodec).iso
    (fun (magic, recordCount, generation, headMac) => ⟨magic, recordCount, generation, headMac⟩)
    (fun h => (h.magic, h.recordCount, h.generation, h.headMac))
    (fun _ => rfl) (fun _ => rfl)

/-- `sizeof(semantics_ar_keystore_header_t)`. -/
def HEADER_SIZE : Nat := 52

/-- `sizeof(semantics_ar_keystore_disk_record_t)`. -/
def KEYSTORE_DISK_RECORD_SIZE : Nat := 770

/-- `sizeof(sar_preserve_disk_record_t)`. -/
def PRESERVE_DISK_RECORD_SIZE : Nat := 1182

@[simp] theorem headerCodec_width : headerCodec.width = HEADER_SIZE := rfl

@[simp] theorem keystoreRecordCodec_pair_width :
    (keystoreRecordCodec.pair macCodec).width = KEYSTORE_DISK_RECORD_SIZE := rfl

@[simp] theorem preserveRecordCodec_pair_width :
    (preserveRecordCodec.pair macCodec).width = PRESERVE_DISK_RECORD_SIZE := rfl

end SemanticsAr
