import SemanticsAr.LedgerRollback
import SemanticsAr.Runs

/-!
# The captured-key store of the driver

`driver/keystore_persist.c`: the ledger in memory with its two files, the load at driver start
and the thread that persists it.  Each file is replaced through a temporary one
(`driver/store_io.c`).  The persist thread is followed step by step, so that appends can come
between any two of its steps and the machine can stop behind any of them.
-/

namespace SemanticsAr

/-! ### Files that are replaced -/

structure FileSlot where
  tmp : Option (List UInt8)
  final : Option (List UInt8)

namespace FileSlot

/-- `SarStoreWriteRaw` into the temporary file. -/
def sarStoreWriteRaw (bytes : List UInt8) (s : FileSlot) : FileSlot := { s with tmp := some bytes }

def sarStoreRename (s : FileSlot) : FileSlot :=
  match s.tmp with
  | none => s
  | some bytes => ⟨none, some bytes⟩

end FileSlot

/-- What becomes of a replacement: the write fails and leaves something in the temporary file,
    the rename fails, or both are done. -/
inductive WriteReply where
  | torn (left : Option (List UInt8))
  | unmoved
  | done

def sarStoreWriteAtomic (reply : WriteReply) (bytes : List UInt8) (s : FileSlot) :
    FileSlot × Bool :=
  match reply with
  | .torn left => ({ s with tmp := left }, false)
  | .unmoved => (s.sarStoreWriteRaw bytes, false)
  | .done => ((s.sarStoreWriteRaw bytes).sarStoreRename, true)

theorem sarStoreWriteAtomic_cases (reply : WriteReply) (bytes : List UInt8) (s : FileSlot) :
    (sarStoreWriteAtomic reply bytes s).1.final = s.final ∧
        (sarStoreWriteAtomic reply bytes s).2 = false ∨
      (sarStoreWriteAtomic reply bytes s).1.final = some bytes ∧
        (sarStoreWriteAtomic reply bytes s).2 = true := by
  cases reply with
  | torn left => exact .inl ⟨rfl, rfl⟩
  | unmoved => exact .inl ⟨rfl, rfl⟩
  | done => exact .inr ⟨rfl, rfl⟩

/-- The failures of `SarStoreReadAll` that do not come from the disk. -/
inductive ReadStatus where
  | objectNameNotFound
  | fileTooLarge
deriving DecidableEq, Repr

/-- `SarStoreReadAll` of a file that can be read. -/
def sarStoreReadAll (maxBytes : Nat) (file : Option (List UInt8)) :
    Except ReadStatus (List UInt8) :=
  match file with
  | none => .error .objectNameNotFound
  | some bytes => if maxBytes < bytes.length then .error .fileTooLarge else .ok bytes

/-! ### The key file -/

def SAR_KEYSTORE_CAPACITY : UInt64 := 16384
def SAR_KS_MAX_FILE : Nat := 64 * 1024 * 1024
def SAR_MACKEY_MAGIC : UInt32 := 0x314B4D53
def SAR_MACKEY_VERSION : UInt32 := 1

/-- `SAR_MACKEY_BLOB`. -/
structure MacKeyBlob where
  magic : UInt32
  version : UInt32
  macKey : Mac
  anchorPresent : UInt8
  reserved : Vector UInt8 7
  anchorGeneration : UInt64
  anchorHeadMac : Mac

open FixedCodec in
def macKeyBlobCodec : FixedCodec MacKeyBlob :=
  (u32.pair <| u32.pair <| macCodec.pair <| u8.pair <| (u8.vec 7).pair <| u64.pair macCodec).iso
    (fun (magic, version, macKey, anchorPresent, reserved, anchorGeneration, anchorHeadMac) =>
      ⟨magic, version, macKey, anchorPresent, reserved, anchorGeneration, anchorHeadMac⟩)
    (fun b =>
      (b.magic, b.version, b.macKey, b.anchorPresent, b.reserved, b.anchorGeneration,
        b.anchorHeadMac))
    (fun _ => rfl) (fun _ => rfl)

def sarKsFillBlob (macKey : Mac) (anchor : KeystoreAnchor) : MacKeyBlob where
  magic := SAR_MACKEY_MAGIC
  version := SAR_MACKEY_VERSION
  macKey := macKey
  anchorPresent := if anchor.present then 1 else 0
  reserved := Vector.replicate 7 0
  anchorGeneration := anchor.generation
  anchorHeadMac := anchor.headMac

def macKeyBytes (macKey : Mac) (anchor : KeystoreAnchor) : List UInt8 :=
  macKeyBlobCodec.put (sarKsFillBlob macKey anchor)

/-! ### The store in memory -/

/-- `SAR_KEYSTORE` and the two posture flags it sets; `running` says that the persist thread
    runs. -/
structure Keystore where
  records : List KeystoreRecord
  recordCapacity : UInt64
  macKey : Mac
  haveKey : Bool
  generation : UInt64
  anchor : KeystoreAnchor
  ready : Bool
  dirty : Bool
  running : Bool
  persistent : Bool
  tamperDetected : Bool

def sarKeystoreCreate : Keystore where
  records := []
  recordCapacity := SAR_KEYSTORE_CAPACITY
  macKey := zeroMac
  haveKey := false
  generation := 0
  anchor := ⟨false, 0, zeroMac⟩
  ready := false
  dirty := false
  running := false
  persistent := false
  tamperDetected := false

/-- The answers of `sar_keystore_append`. -/
inductive KsAppend where
  | appended
  | duplicate
  | full
deriving DecidableEq, Repr

/-- The duplicate test of `sar_keystore_append`. -/
def sameCapture (rec r : KeystoreRecord) : Bool :=
  r.keyId == rec.keyId && r.provenanceOffset == rec.provenanceOffset &&
    r.provenancePath == rec.provenancePath

def sarKeystoreAppend (records : List KeystoreRecord) (capacity : UInt64) (rec : KeystoreRecord) :
    List KeystoreRecord × KsAppend :=
  if records.any (sameCapture rec) then (records, .duplicate)
  else if capacity.toNat ≤ records.length then (records, .full)
  else (records ++ [rec], .appended)

theorem sarKeystoreAppend_cases (records : List KeystoreRecord) (capacity : UInt64)
    (rec : KeystoreRecord) :
    ((sarKeystoreAppend records capacity rec).2 ≠ .appended ∧
        (sarKeystoreAppend records capacity rec).1 = records) ∨
      (sarKeystoreAppend records capacity rec = (records ++ [rec], .appended) ∧
        records.any (sameCapture rec) = false ∧ records.length < capacity.toNat) := by
  unfold sarKeystoreAppend
  split
  · exact .inl ⟨KsAppend.noConfusion, rfl⟩
  next hnew =>
    split
    · exact .inl ⟨KsAppend.noConfusion, rfl⟩
    next hroom =>
      exact .inr ⟨rfl, Bool.eq_false_iff.mpr hnew, Nat.not_le.mp hroom⟩

/-! ### The load -/

structure KsDisk where
  ledger : FileSlot
  key : FileSlot

/-- What the system decides in a driver start: a fresh key, the outcomes of the two writes of the
    key file, whether the thread can be created, and what was left in the temporary files. -/
structure KsStart where
  freshKey : Option Mac
  freshWritten : WriteReply
  advanceWritten : WriteReply
  threadCreated : Bool
  ledgerTmp : Option (List UInt8)
  keyTmp : Option (List UInt8)

/-- The key file part of `SarKeystoreLoad`. -/
def loadMacKey (file : Option (List UInt8)) (K : Keystore) : Keystore :=
  match sarStoreReadAll SAR_KS_MAX_FILE file with
  | .error _ => K
  | .ok bytes =>
    let blob := macKeyBlobCodec.get bytes
    if bytes.length ≠ macKeyBlobCodec.width ∨ blob.magic ≠ SAR_MACKEY_MAGIC ∨
        blob.version ≠ SAR_MACKEY_VERSION then K
    else
      { K with
        macKey := blob.macKey
        anchor := ⟨decide (blob.anchorPresent ≠ 0), blob.anchorGeneration, blob.anchorHeadMac⟩
        haveKey := true }

/-- A fresh key where the key file gave none; the flag is `persist_ok`. -/
def ensureMacKey (env : KsStart) (disk : KsDisk) (K : Keystore) :
    Option (KsDisk × Keystore × Bool) :=
  if K.haveKey then some (disk, K, true)
  else
    match env.freshKey with
    | none => none
    | some macKey =>
      let anchor : KeystoreAnchor := ⟨false, 0, zeroMac⟩
      let written := sarStoreWriteAtomic env.freshWritten (macKeyBytes macKey anchor) disk.key
      some ({ disk with key := written.1 },
        { K with macKey := macKey, anchor := anchor, haveKey := true }, written.2)

/-- The ledger part of `SarKeystoreLoad`.  A parser that reads outside its buffer is taken for
    one that finds the ledger damaged. -/
def loadLedger (env : KsStart) (disk : KsDisk) (K : Keystore) (persistOk : Bool)
    (buf : List UInt8) : KsDisk × Keystore :=
  let anchor := if K.anchor.present then some K.anchor else none
  let kept := if K.anchor.present then K.anchor.generation else 0
  match sarKsmLoad buf K.macKey anchor K.recordCapacity with
  | .ok (.ok load) =>
    let K := { K with
      records := load.records, generation := load.generation, anchor := load.anchorOut }
    if load.anchorAdvanced && persistOk then
      ({ disk with
          key := (sarStoreWriteAtomic env.advanceWritten (macKeyBytes K.macKey load.anchorOut)
            disk.key).1 }, K)
    else (disk, K)
  | .ok (.error .empty) => (disk, { K with records := [], generation := kept })
  | _ => (disk, { K with tamperDetected := true, records := [], generation := kept })

/-- `SarKeystoreLoad` of a store that was just created. -/
def sarKeystoreLoad (env : KsStart) (disk : KsDisk) : KsDisk × Keystore :=
  let K := loadMacKey disk.key.final sarKeystoreCreate
  match ensureMacKey env disk K with
  | none => (disk, { K with persistent := false })
  | some (disk, K, persistOk) =>
    let read := sarStoreReadAll SAR_KS_MAX_FILE disk.ledger.final
    let persistOk := persistOk && decide (read ≠ .error .fileTooLarge)
    let buf := match read with
      | .ok bytes => bytes
      | .error _ => []
    let loaded := loadLedger env disk K persistOk buf
    (loaded.1,
      { loaded.2 with
        ready := true
        running := persistOk && env.threadCreated
        persistent := persistOk && env.threadCreated })

/-! ### The persist thread -/

/-- Where the persist thread stands: at its wait, behind the exchange of the dirty flag, behind
    the allocation for `c` records, and behind each of the steps of `SarKsPersist`. -/
inductive PersistPoint where
  | idle
  | woken
  | counted (c : Nat)
  | serialized (c : Nat) (buf : List UInt8) (na : KeystoreAnchor)
  | ledgerWritten (c : Nat) (na : KeystoreAnchor)
  | ledgerRenamed (c : Nat) (na : KeystoreAnchor)
  | blobWritten (c : Nat)

inductive TurnReply where
  | done
  | failed (left : Option (List UInt8))

/-- The store with its files.  `owed` appends have not yet set the dirty flag, and `lastLedger`
    has the records of the ledger whose rename completed last. -/
structure KsMachine where
  disk : KsDisk
  mem : Keystore
  point : PersistPoint
  owed : Nat
  lastLedger : List KeystoreRecord

namespace KsMachine

/-- `SarKsPersist` returns early and asks for another turn. -/
def giveUp (m : KsMachine) : KsMachine :=
  { m with mem := { m.mem with dirty := true }, point := .idle }

/-- The end of `SarKsPersist`. -/
def finish (m : KsMachine) (c : Nat) (failed : Bool) : KsMachine :=
  { m with
    mem := { m.mem with dirty := m.mem.dirty || failed || decide (c < m.mem.records.length) }
    point := .idle }

def turn (m : KsMachine) (reply : TurnReply) : KsMachine :=
  match m.point, reply with
  | .idle, _ =>
    if m.mem.running && m.mem.dirty then
      { m with mem := { m.mem with dirty := false }, point := .woken }
    else m
  | .woken, .done => { m with point := .counted m.mem.records.length }
  | .woken, .failed _ => m.giveUp
  | .counted c, _ =>
    let need := sarKeystoreSerializedSize (UInt64.ofNat c)
    match sarKsmPersist m.mem.macKey (m.mem.records.take c) m.mem.generation
        (UInt64.ofNat need) with
    | .error _ => m.giveUp
    | .ok (buf, na) => { m with point := .serialized c buf na }
  | .serialized c buf na, .done =>
    { m with
      disk := { m.disk with ledger := m.disk.ledger.sarStoreWriteRaw buf }
      point := .ledgerWritten c na }
  | .serialized _ _ _, .failed left =>
    giveUp { m with disk := { m.disk with ledger := { m.disk.ledger with tmp := left } } }
  | .ledgerWritten c na, .done =>
    { m with
      disk := { m.disk with ledger := m.disk.ledger.sarStoreRename }
      mem := { m.mem with generation := na.generation, anchor := na }
      lastLedger := m.mem.records.take c
      point := .ledgerRenamed c na }
  | .ledgerWritten _ _, .failed _ => m.giveUp
  | .ledgerRenamed c na, .done =>
    { m with
      disk := { m.disk with
        key := m.disk.key.sarStoreWriteRaw (macKeyBytes m.mem.macKey na) }
      point := .blobWritten c }
  | .ledgerRenamed c _, .failed left =>
    finish { m with disk := { m.disk with key := { m.disk.key with tmp := left } } } c true
  | .blobWritten c, .done =>
    finish { m with disk := { m.disk with key := m.disk.key.sarStoreRename } } c false
  | .blobWritten c, .failed _ => m.finish c true

/-- `SarKeystoreAppend` under its lock. -/
def append (m : KsMachine) (rec : KeystoreRecord) : KsMachine :=
  match sarKeystoreAppend m.mem.records m.mem.recordCapacity rec with
  | (records, .appended) => { m with mem := { m.mem with records := records }, owed := m.owed + 1 }
  | _ => m

/-- `SarKeystoreAppend` behind its lock. -/
def mark (m : KsMachine) : KsMachine :=
  if 0 < m.owed then { m with mem := { m.mem with dirty := true }, owed := m.owed - 1 } else m

def restart (m : KsMachine) (env : KsStart) : KsMachine :=
  let loaded := sarKeystoreLoad env
    ⟨{ m.disk.ledger with tmp := env.ledgerTmp }, { m.disk.key with tmp := env.keyTmp }⟩
  { m with disk := loaded.1, mem := loaded.2, point := .idle, owed := 0 }

end KsMachine

inductive KsAct where
  | append (rec : KeystoreRecord)
  | mark
  | turn (reply : TurnReply)
  | restart (env : KsStart)

def KsMachine.step (m : KsMachine) : KsAct → KsMachine
  | .append rec => m.append rec
  | .mark => m.mark
  | .turn reply => m.turn reply
  | .restart env => m.restart env

def KsMachine.installed : KsMachine where
  disk := ⟨⟨none, none⟩, ⟨none, none⟩⟩
  mem := sarKeystoreCreate
  point := .idle
  owed := 0
  lastLedger := []

def KsDisk.anchored (disk : KsDisk) : WithBot ℕ :=
  let anchor := (loadMacKey disk.key.final sarKeystoreCreate).anchor
  if anchor.present then (anchor.generation.toNat : WithBot ℕ) else ⊥

end SemanticsAr
