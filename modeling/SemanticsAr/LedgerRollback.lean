import SemanticsAr.KeystoreFile

/-!
# What an anchor protects the ledger from

A history of persists fixes which record messages carry a genuine MAC.  A buffer
built without the key can replay those MACs but make no new one.  This module
states what `sar_ksm_load` accepts among such buffers: prefixes of persisted
ledgers under any generation above the anchor's, since neither generation nor
count is authenticated, and the anchored ledger itself at the anchor's
generation.
-/

namespace SemanticsAr

open ChainedLog List

variable {hdr : StoreHeader} {records : List KeystoreRecord} {a : KeystoreAnchor}

/-- One call of `sar_ksm_persist`. -/
structure LedgerPersist where
  records : List KeystoreRecord
  prevGeneration : UInt64

variable {p : LedgerPersist}

namespace LedgerPersist

def generation (p : LedgerPersist) : UInt64 := p.prevGeneration + 1

def anchor (p : LedgerPersist) (macKey : Mac) : KeystoreAnchor :=
  ⟨true, p.generation, ledgerHead macKey p.records⟩

end LedgerPersist

def historyMsgs (macKey : Mac) (history : List LedgerPersist) : Set (List UInt8) :=
  {m | ∃ p ∈ history, m ∈ chainMsgs keystoreRecordCodec macCodec (macOf macKey) zeroMac p.records}

/-- HMAC-SHA-256 under the key on the messages of a history: no two of them
    collide, and none has the zero MAC from which every chain starts. -/
structure IdealMac (macKey : Mac) (history : List LedgerPersist) : Prop where
  injOn : Set.InjOn (macOf macKey) (historyMsgs macKey history)
  ne_zero : ∀ m ∈ historyMsgs macKey history, macOf macKey m ≠ zeroMac

theorem ksmAnchorAdvances_isSome_iff (hpresent : a.present = true) :
    (ksmAnchorAdvances (some a) hdr).isSome = true ↔ a.generation ≤ hdr.generation ∧
        (hdr.generation = a.generation → hdr.headMac = a.headMac) := by
  unfold ksmAnchorAdvances
  simp only [hpresent, if_true]
  by_cases hlt : hdr.generation < a.generation
  · simp [hlt]
  · by_cases heq : hdr.generation = a.generation
    · by_cases hmac : hdr.headMac = a.headMac
      · simp [heq, hmac]
      · simp [heq, hmac]
    · simp only [hlt, heq, if_false, Option.isSome_some, true_iff]
      exact ⟨UInt64.not_lt.mp hlt, fun h => h.elim⟩

theorem ksmAnchorAdvances_of_lt (hgen : a.generation < hdr.generation) :
    ksmAnchorAdvances (some a) hdr = some true := by
  have hnlt : ¬ hdr.generation < a.generation := UInt64.not_lt.mpr (UInt64.le_of_lt hgen)
  have hne : ¬ hdr.generation = a.generation := by
    intro heq
    rw [heq] at hgen
    exact UInt64.lt_irrefl _ hgen
  unfold ksmAnchorAdvances
  simp only [hnlt, hne, if_false, ite_self]

/-- A buffer built without the key: wherever it holds a ledger whose MACs are
    genuine, those MACs were made by the history. -/
def BuiltWithoutKey (macKey : Mac) (history : List LedgerPersist) (buf : List UInt8) : Prop :=
  ∀ records generation, buf = ledgerBytes macKey records generation →
    ∀ m ∈ chainMsgs keystoreRecordCodec macCodec (macOf macKey) zeroMac records,
      m ∈ historyMsgs macKey history

section

variable {macKey : Mac} {history : List LedgerPersist} {buf : List UInt8} {recordsCapacity : UInt64}
  {load : KsmLoad} {anchor : Option KeystoreAnchor}

theorem records_eq_of_ledgerHead_eq (hmac : IdealMac macKey history) (hp : p ∈ history)
    (hmsgs : ∀ m ∈ chainMsgs keystoreRecordCodec macCodec (macOf macKey) zeroMac records,
      m ∈ historyMsgs macKey history)
    (hhead : ledgerHead macKey records = ledgerHead macKey p.records) :
    records = p.records := by
  have hstart : ∀ m ∈ historyMsgs macKey history,
      (∃ r t, m = recordMsg keystoreRecordCodec macCodec r t) → macOf macKey m ≠ zeroMac :=
    fun m hm _ => hmac.ne_zero m hm
  exact (chainHead_injOn keystoreRecordCodec macCodec (macOf macKey) hmac.injOn hstart hstart
    hmsgs (fun m hm => ⟨p, hp, hm⟩) hhead).2

/-- **A ledger accepted** from a buffer built without the key is a prefix of a
    persisted one: records cannot be edited, dropped from the middle or
    reordered. -/
theorem accepted_ledger_prefix (hmac : IdealMac macKey history)
    (hbuilt : BuiltWithoutKey macKey history buf)
    (hload : sarKsmLoad buf macKey anchor recordsCapacity = .ok (.ok load)) :
    load.records = [] ∨ ∃ p ∈ history, load.records <+: p.records := by
  obtain ⟨generation, hbuf, -⟩ := sarKsmLoad_ok hload
  by_cases hnil : load.records = []
  · exact .inl hnil
  · right
    obtain ⟨rs, ⟨p, hp, rfl⟩, hleft⟩ := prefix_of_chainMsgs_subset keystoreRecordCodec macCodec
      (macOf macKey) (F := {rs | ∃ p ∈ history, p.records = rs}) hmac.injOn
      (fun m hm _ => hmac.ne_zero m hm)
      (by rintro rs ⟨p, hp, rfl⟩ m hm; exact ⟨p, hp, hm⟩) hnil
      (by
        intro m hm
        obtain ⟨p, hp, hmem⟩ := hbuilt _ _ hbuf m hm
        exact ⟨p.records, ⟨p, hp, rfl⟩, hmem⟩)
    exact ⟨p, hp, hleft⟩

/-- **What the anchor protects from.**  A ledger built without the key and accepted against the
    anchor of a persist is that of a persist at least as new, exactly when the header claims no
    generation above the anchor's or carries the head MAC of such a persist. -/
theorem ledger_rollback_resistance_iff (hmac : IdealMac macKey history)
    (hbuilt : BuiltWithoutKey macKey history buf)
    {anchored : LedgerPersist} (hanchored : anchored ∈ history)
    (hload : sarKsmLoad buf macKey (some (anchored.anchor macKey)) recordsCapacity =
      .ok (.ok load)) :
    (∃ p ∈ history, anchored.generation ≤ p.generation ∧ load.records = p.records) ↔
      ((headerOf buf).generation ≤ anchored.generation ∨
        ∃ p ∈ history, anchored.generation ≤ p.generation ∧
          (headerOf buf).headMac = ledgerHead macKey p.records) := by
  obtain ⟨generation, hbuf, hadv⟩ := sarKsmLoad_ok hload
  have hhead : (headerOf buf).headMac = ledgerHead macKey load.records := by
    rw [hbuf, headerOf_ledgerBytes]; rfl
  have hmsgs := hbuilt load.records generation hbuf
  constructor
  · rintro ⟨p, hp, hgen, hrecords⟩
    exact .inr ⟨p, hp, hgen, by rw [hhead, hrecords]⟩
  · rintro (hgen | ⟨p, hp, hgen, heq⟩)
    · -- not above the anchor, so at its generation and with its head
      obtain ⟨hge, hfix⟩ := (ksmAnchorAdvances_isSome_iff rfl).mp hadv
      have hsame := hfix (UInt64.le_antisymm hgen hge)
      rw [hhead] at hsame
      exact ⟨anchored, hanchored, UInt64.le_refl _,
        records_eq_of_ledgerHead_eq hmac hanchored hmsgs hsame⟩
    · rw [hhead] at heq
      exact ⟨p, hp, hgen, records_eq_of_ledgerHead_eq hmac hp hmsgs heq⟩

theorem sarKsmLoad_of_higher_generation {generation : UInt64}
    (hfits : HEADER_SIZE + records.length * KEYSTORE_DISK_RECORD_SIZE < 2 ^ 64)
    (hcapacity : UInt64.ofNat records.length ≤ recordsCapacity) (hgen : a.generation < generation) :
    sarKsmLoad (ledgerBytes macKey records generation) macKey (some a) recordsCapacity =
      .ok (.ok ⟨records, ⟨true, generation, ledgerHead macKey records⟩, generation, true⟩) := by
  have hadv : ksmAnchorAdvances (some a) (headerOf (ledgerBytes macKey records generation)) =
      some true := by
    rw [headerOf_ledgerBytes]
    exact ksmAnchorAdvances_of_lt hgen
  rw [sarKsmLoad_ledgerBytes hfits, if_neg (UInt64.not_lt.mpr hcapacity), hadv]

end

theorem ledgerBytes_records_inj {macKey : Mac} {records' : List KeystoreRecord}
    {generation generation' : UInt64}
    (hfits : HEADER_SIZE + records.length * KEYSTORE_DISK_RECORD_SIZE < 2 ^ 64)
    (h : ledgerBytes macKey records generation = ledgerBytes macKey records' generation') :
    records = records' := by
  have hlen := congrArg List.length h
  simp only [length_ledgerBytes, HEADER_SIZE, KEYSTORE_DISK_RECORD_SIZE] at hlen
  have hcount : records'.length = records.length := by omega
  have hload : sarKsmLoad (ledgerBytes macKey records generation) macKey none
      (UInt64.ofNat records.length) = _ := sarKsmLoad_ledgerBytes hfits _
  rw [if_neg (UInt64.lt_irrefl _), h, sarKsmLoad_ledgerBytes (by rwa [hcount]), hcount,
    if_neg (UInt64.lt_irrefl _)] at hload
  simp only [ksmAnchorAdvances, Except.ok.injEq, KsmLoad.mk.injEq] at hload
  exact hload.1.symm

theorem builtWithoutKey_of_front {macKey : Mac} {history : List LedgerPersist}
    {generation : UInt64} (hp : p ∈ history) (hfront : records <+: p.records)
    (hfits : HEADER_SIZE + records.length * KEYSTORE_DISK_RECORD_SIZE < 2 ^ 64) :
    BuiltWithoutKey macKey history (ledgerBytes macKey records generation) := by
  intro records' generation' hbuf m hm
  obtain ⟨rest, hrest⟩ := hfront
  rw [← ledgerBytes_records_inj hfits hbuf] at hm
  refine ⟨p, hp, ?_⟩
  rw [← hrest]
  exact chainMsgs_append_left _ _ _ _ _ _ hm

/-! ### A ledger of two keys -/

def firstKey : KeystoreRecord :=
  { keystoreRecordCodec.get [] with algorithm := 1, keyLength := 16, captureTime := 1 }

def secondKey : KeystoreRecord :=
  { keystoreRecordCodec.get [] with algorithm := 1, keyLength := 32, captureTime := 2 }

def twoKeys : LedgerPersist := ⟨[firstKey, secondKey], 4⟩

def firstMsg : List UInt8 := recordMsg keystoreRecordCodec macCodec firstKey zeroMac

def secondMsg : List UInt8 :=
  recordMsg keystoreRecordCodec macCodec secondKey (macOf zeroMac firstMsg)

theorem twoKeys_macs : macOf zeroMac firstMsg ≠ zeroMac ∧ macOf zeroMac secondMsg ≠ zeroMac ∧
    macOf zeroMac firstMsg ≠ macOf zeroMac secondMsg := by decide +kernel

theorem idealMac_twoKeys : IdealMac zeroMac [twoKeys] := by
  have hmsgs : historyMsgs zeroMac [twoKeys] = {firstMsg, secondMsg} := by
    ext m
    simp [historyMsgs, twoKeys, chainMsgs, firstMsg, secondMsg]
  obtain ⟨hzero₁, hzero₂, hne⟩ := twoKeys_macs
  constructor
  · rw [hmsgs]
    rintro m (rfl | rfl) m' (rfl | rfl) heq
    · rfl
    · exact absurd heq hne
    · exact absurd heq.symm hne
    · rfl
  · rw [hmsgs]
    rintro m (rfl | rfl)
    · exact hzero₁
    · exact hzero₂

/-- The first of two anchored keys alone, under a higher generation. -/
theorem accepted_ledger_prefix_proper :
    let load : KsmLoad := ⟨[firstKey], ⟨true, 6, ledgerHead zeroMac [firstKey]⟩, 6, true⟩
    sarKsmLoad (ledgerBytes zeroMac [firstKey] 6) zeroMac (some (twoKeys.anchor zeroMac)) 4 =
        .ok (.ok load) ∧
      (load.records = [] ∨ ∃ p ∈ [twoKeys], load.records <+: p.records) := by
  intro load
  have hload : sarKsmLoad (ledgerBytes zeroMac [firstKey] 6) zeroMac
      (some (twoKeys.anchor zeroMac)) 4 = .ok (.ok load) :=
    sarKsmLoad_of_higher_generation (by decide) (by decide) (by decide)
  exact ⟨hload, accepted_ledger_prefix idealMac_twoKeys
    (builtWithoutKey_of_front mem_cons_self ⟨[secondKey], rfl⟩ (by decide)) hload⟩

/-- The empty ledger against the anchor of a persist of two keys. -/
theorem emptied_ledger_accepted :
    let buf := ledgerBytes zeroMac [] 6
    (∃ ledger, sarKsmPersist zeroMac twoKeys.records twoKeys.prevGeneration 4096 =
      .ok (ledger, twoKeys.anchor zeroMac)) ∧
    BuiltWithoutKey zeroMac [twoKeys] buf ∧
    ∃ load, sarKsmLoad buf zeroMac (some (twoKeys.anchor zeroMac)) 16384 = .ok (.ok load) ∧
      ¬ ∃ p ∈ [twoKeys], twoKeys.generation ≤ p.generation ∧ load.records = p.records := by
  intro buf
  refine ⟨⟨ledgerBytes zeroMac twoKeys.records 5, ?_⟩,
    builtWithoutKey_of_front mem_cons_self nil_prefix (by decide), ?_⟩
  · rw [sarKsmPersist, sarKeystoreSerialize, if_neg (by decide)]
    simp only [headerOf_ledgerBytes]
    rfl
  · refine ⟨_, sarKsmLoad_of_higher_generation (by decide) (by decide) (by decide), ?_⟩
    rintro ⟨p, hp, -, hrecords⟩
    rw [List.mem_singleton.mp hp] at hrecords
    cases hrecords

theorem sarKsmLoad_anchored {macKey : Mac} {recordsCapacity : UInt64}
    (hfits : HEADER_SIZE + p.records.length * KEYSTORE_DISK_RECORD_SIZE < 2 ^ 64)
    (hcapacity : UInt64.ofNat p.records.length ≤ recordsCapacity) :
    sarKsmLoad (ledgerBytes macKey p.records p.generation) macKey (some (p.anchor macKey))
      recordsCapacity = .ok (.ok ⟨p.records, p.anchor macKey, p.generation, false⟩) := by
  have hadv : ksmAnchorAdvances (some (p.anchor macKey))
      (headerOf (ledgerBytes macKey p.records p.generation)) = some false := by
    rw [headerOf_ledgerBytes]
    simp [ksmAnchorAdvances, LedgerPersist.anchor, fileHeader, ledgerHead]
  rw [sarKsmLoad_ledgerBytes hfits, if_neg (UInt64.not_lt.mpr hcapacity), hadv]
  rfl

/-- The anchored ledger itself, at the anchor's generation. -/
theorem ledger_rollback_resistance_same_generation :
    ∃ load, sarKsmLoad (ledgerBytes zeroMac twoKeys.records twoKeys.generation) zeroMac
        (some (twoKeys.anchor zeroMac)) 16384 = .ok (.ok load) ∧
      ∃ p ∈ [twoKeys], twoKeys.generation ≤ p.generation ∧ load.records = p.records := by
  have hload : sarKsmLoad (ledgerBytes zeroMac twoKeys.records twoKeys.generation) zeroMac
      (some (twoKeys.anchor zeroMac)) 16384 = _ := sarKsmLoad_anchored (by decide) (by decide)
  refine ⟨_, hload, (ledger_rollback_resistance_iff idealMac_twoKeys
    (builtWithoutKey_of_front mem_cons_self (prefix_refl _) (by decide))
    mem_cons_self hload).mpr (.inl ?_)⟩
  rw [headerOf_ledgerBytes]
  exact UInt64.le_refl _

end SemanticsAr
