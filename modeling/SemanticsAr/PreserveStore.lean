import SemanticsAr.HeapSort
import SemanticsAr.PreserveEngine
import SemanticsAr.Runs

/-!
# The preservation store

The state and the operations of `driver/preserve.c`.  The state is
`struct _SAR_PRESERVE` together with the content of the payload file; an
operation is one critical section of the store's lock, and a restore, which
reads behind its critical section, takes the two states it sees.  What the
operating system decides (random bytes, pool allocations, file writes, the
clock, the mode) enters as an explicit outcome record, one for each turn of the
staging loop.
-/

namespace SemanticsAr

def SAR_PRESERVE_AES_BLOCK : Nat := 16
def SAR_PRESERVE_RECORD_CAPACITY : UInt64 := 65536
def SAR_PRESERVE_STAGE_MAX : Nat := 4 * 1024 * 1024
def SAR_PRESERVE_DEFAULT_RETENTION_100NS : UInt64 := 7 * 24 * 3600 * 10000000
def SAR_PRESERVE_DEFAULT_CAPACITY_BYTES : UInt64 := 10 * 1024 * 1024 * 1024
def SAR_PRESKEY_MAGIC : UInt32 := 0x4B455250

/-- `SEMANTICS_AR_MODE_AUDIT` and `SEMANTICS_AR_MODE_ENFORCE`. -/
inductive Mode where
  | audit
  | enforce
deriving DecidableEq, Repr

/-- `SAR_STAGE_RESULT`. -/
inductive StageResult where
  | stored
  | alreadyCovered
  | dropped
  | failed
deriving DecidableEq, Repr

/-- The failure statuses the store returns; `external` is one it passes on. -/
inductive NtStatus where
  | deviceNotReady
  | objectNameCollision
  | insufficientResources
  | bufferTooSmall
  | notFound
  | dataError
  | external
deriving DecidableEq, Repr

/-- `SAR_PRES_EXTENT`. -/
structure Extent where
  off : UInt64
  len : UInt64
deriving DecidableEq, Repr

/-- `struct _SAR_PRESERVE`: `freeExt` is the first `free_count` entries of `free_ext`, `data` the
    content of the payload file, and `tamperDetected` the flag of the posture it points to. -/
structure Preserve where
  records : List PreserveRecord
  recordCapacity : UInt64
  freeExt : List Extent
  freeCapacity : Nat
  dataHighWater : UInt64
  freeDirty : Bool
  dataOpen : Bool
  data : Nat → UInt8
  storeKey : Mac
  macKey : Mac
  haveKey : Bool
  generation : UInt64
  anchor : KeystoreAnchor
  retention100ns : UInt64
  capacityBytes : UInt64
  reservedBytes : UInt64
  ready : Bool
  dirty : Bool
  nextLinkId : Int64
  tamperDetected : Bool

variable {P : Preserve}

/-- AES-CBC without padding as the system library provides it, under a key and
    an initialisation vector. -/
structure BCrypt where
  encrypt : Mac → List UInt8 → List UInt8 → List UInt8
  decrypt : Mac → List UInt8 → List UInt8 → List UInt8

variable {bc : BCrypt}

structure BCrypt.Lawful (bc : BCrypt) : Prop where
  length_encrypt : ∀ key iv data, data.length % SAR_PRESERVE_AES_BLOCK = 0 →
    (bc.encrypt key iv data).length = data.length
  decrypt_encrypt : ∀ key iv data, data.length % SAR_PRESERVE_AES_BLOCK = 0 →
    bc.decrypt key iv (bc.encrypt key iv data) = data

/-- The state `SarPreserveCreate` leaves behind. -/
def sarPreserveCreate : Preserve where
  records := []
  recordCapacity := SAR_PRESERVE_RECORD_CAPACITY
  freeExt := []
  freeCapacity := SAR_PRESERVE_RECORD_CAPACITY.toNat + 1
  dataHighWater := 0
  freeDirty := false
  dataOpen := false
  data := fun _ => 0
  storeKey := Vector.replicate _ 0
  macKey := Vector.replicate _ 0
  haveKey := false
  generation := 0
  anchor := ⟨false, 0, Vector.replicate _ 0⟩
  retention100ns := SAR_PRESERVE_DEFAULT_RETENTION_100NS
  capacityBytes := SAR_PRESERVE_DEFAULT_CAPACITY_BYTES
  reservedBytes := 0
  ready := false
  dirty := false
  nextLinkId := 1
  tamperDetected := false

/-! ### Allocating space in the payload file -/

def sarPresRound16 (v : UInt64) : UInt64 := (v + 15) &&& ~~~15

/-- `SarPresHeapSort` orders extents by offset. -/
def sarPresHeapSort (a : List Extent) : List Extent :=
  (HeapSort.heapSort (fun e : Extent => e.off.toNat) ⟨a.toArray, rfl⟩).toList

/-- One turn of the loop of `SarPresFreeRebuild` over the sorted extents: the
    free extents found so far and `prev_end`. -/
def rebuildStep (freeCapacity : Nat) (acc : List Extent × UInt64) (e : Extent) :
    List Extent × UInt64 :=
  let free :=
    if e.off > acc.2 ∧ acc.1.length < freeCapacity then
      acc.1 ++ [⟨acc.2, e.off - acc.2⟩]
    else acc.1
  (free, if e.off + e.len > acc.2 then e.off + e.len else acc.2)

/-- `SarPresFreeRebuild`; `pool` is the outcome of its allocation. -/
def sarPresFreeRebuild (P : Preserve) (pool : Bool) : Preserve :=
  let n := P.records.length % 2 ^ 32
  if n = 0 then
    { P with freeExt := [], dataHighWater := 0, freeDirty := false }
  else if pool = false then
    { P with freeExt := [] }
  else
    let a := sarPresHeapSort ((P.records.take n).map fun r => ⟨r.payloadOffset, r.payloadLength⟩)
    let res := a.foldl (rebuildStep P.freeCapacity) ([], 0)
    { P with freeExt := res.1, dataHighWater := res.2, freeDirty := false }

/-- First fit: the offset handed out and the free extents that remain.  A used-up
    extent is replaced by the last one. -/
def takeFirstFit (free : List Extent) (len : UInt64) : Option (UInt64 × List Extent) :=
  match free.findIdx? fun e => decide (e.len ≥ len) with
  | none => none
  | some i =>
    match free[i]? with
    | none => none
    | some e =>
      let left : Extent := ⟨e.off + len, e.len - len⟩
      let updated := free.set i left
      some (e.off,
        if left.len = 0 then (updated.set i (updated.getLastD left)).dropLast else updated)

/-- `SarPresAlloc`: the offset and the state after it. -/
def sarPresAlloc (P : Preserve) (len : UInt64) (rebuildPool : Bool) : UInt64 × Preserve :=
  let P := if P.freeDirty then sarPresFreeRebuild P rebuildPool else P
  match takeFirstFit P.freeExt len with
  | some (off, free) => (off, { P with freeExt := free })
  | none => (P.dataHighWater, { P with dataHighWater := P.dataHighWater + len })

/-! ### The payload file -/

/-- The file after `bytes` were written at `off`. -/
def writeData (data : Nat → UInt8) (off : Nat) (bytes : List UInt8) : Nat → UInt8 := fun i =>
  if off ≤ i then bytes.getD (i - off) (data i) else data i

def readData (data : Nat → UInt8) (off len : Nat) : List UInt8 :=
  (List.range len).map fun i => data (off + i)

theorem writeData_outside {data : Nat → UInt8} {off i : Nat} {bytes : List UInt8}
    (h : i < off ∨ off + bytes.length ≤ i) : writeData data off bytes i = data i := by
  unfold writeData
  split
  · rw [List.getD_eq_getElem?_getD, List.getElem?_eq_none (by omega), Option.getD_none]
  · rfl

/-! ### Staging a byte range -/

/-- The arguments of `SarPreserveStage`; `PlaintextLen` is a `ULONG`. -/
structure StageArgs where
  path : ProvPath
  offset : UInt64
  length : UInt64
  actorId : UInt64
  plaintext : List UInt8
  againstReservation : Bool
  plaintext_lt : plaintext.length < 2 ^ 32

structure TurnEnv where
  mode : Mode
  /-- The bytes of `BCryptGenRandom`, or its failure. -/
  iv : Option (Vector UInt8 16)
  ctPool : Bool
  padPool : Bool
  crypt : Bool
  rebuildPool : Bool
  write : Bool
  /-- What a failed write leaves in the range it was given. -/
  torn : List UInt8

structure StageEnv where
  now : UInt64
  causingPath : ProvPath
  turn : Nat → TurnEnv

/-- The room tests of the loop and, in audit mode, the eviction of probation
    records; `none` drops the range. -/
def stageMakeRoom (P : Preserve) (againstReservation : Bool) (mode : Mode) (ctLen : UInt64) :
    Option Preserve :=
  if ctLen > P.capacityBytes then none
  else
    let prot := sarPreserveProtectedBytes P.records
    let res := if againstReservation then 0 else P.reservedBytes
    if prot + ctLen > P.capacityBytes then none
    else if sarPreserveTotalBytes P.records + res + ctLen > P.capacityBytes then
      if mode = .enforce then none
      else
        let evicted := sarPreserveEvictProbationOldest P.records (P.capacityBytes - prot - ctLen)
        some { P with
          records := evicted.1, freeDirty := P.freeDirty || decide (evicted.2 > 0) }
    else some P

def stageRecord (args : StageArgs) (env : StageEnv) (iv : Vector UInt8 16) (off : UInt64)
    (gOff gLen : UInt64) : PreserveRecord :=
  { sarPreserveRecordInit args.path gOff gLen env.now off (sarPresRound16 gLen) args.actorId
      iv.toList (((args.plaintext.drop ((gOff - args.offset).toNat % 2 ^ 32)).take
        (gLen.toNat % 2 ^ 32))) with
    causingImagePath := env.causingPath }

def stagePadded (args : StageArgs) (gOff gLen : UInt64) : List UInt8 :=
  let slice := (args.plaintext.drop ((gOff - args.offset).toNat % 2 ^ 32)).take gLen.toNat
  slice ++ List.replicate ((sarPresRound16 gLen).toNat - slice.length) 0

/-- `SarPresDataWrite`: the payload file is open, the write succeeds, and the
    range lies below the largest file offset, which is signed. -/
def writeSucceeds (P : Preserve) (env : TurnEnv) (off : UInt64) (len : Nat) : Bool :=
  P.dataOpen && env.write && decide (off.toNat + len ≤ 2 ^ 63)

/-- `sar_preserve_append` on the store. -/
def appendRecord (P : Preserve) (rec : PreserveRecord) : Preserve :=
  match sarPreserveAppend P.records P.recordCapacity rec with
  | .appended records => { P with records := records, dirty := true }
  | .covered => P
  | .full => P

/-- The part of a turn behind the allocation of the buffers: allocate space,
    write, and enter the record.  `some` ends the loop with a result. -/
def stageStore (bc : BCrypt) (args : StageArgs) (env : StageEnv) (turn : TurnEnv) (P : Preserve)
    (iv : Vector UInt8 16) (gOff gLen : UInt64) : Preserve × Option StageResult :=
  let ctLen := sarPresRound16 gLen
  let ioLen := ctLen.toNat % 2 ^ 32
  let cipher := bc.encrypt P.storeKey iv.toList ((stagePadded args gOff gLen).take ioLen)
  let alloc := sarPresAlloc P ctLen turn.rebuildPool
  let off := alloc.1
  let P := alloc.2
  if writeSucceeds P turn off ioLen then
    (appendRecord { P with data := writeData P.data off.toNat cipher }
      (stageRecord args env iv off gOff gLen), none)
  else
    ({ P with
        data := if P.dataOpen then writeData P.data off.toNat (turn.torn.take ioLen) else P.data,
        freeDirty := true },
      some .failed)

/-- One turn of the loop of `SarPreserveStage` on a gap. -/
def stageTurn (bc : BCrypt) (args : StageArgs) (env : StageEnv) (turn : TurnEnv) (P : Preserve)
    (gOff gLen : UInt64) : Preserve × Option StageResult :=
  match stageMakeRoom P args.againstReservation turn.mode (sarPresRound16 gLen) with
  | none => (P, some .dropped)
  | some P =>
    if P.recordCapacity.toNat ≤ P.records.length then (P, some .dropped)
    else
      match turn.iv with
      | none => (P, some .failed)
      | some iv =>
        if turn.ctPool && turn.padPool && turn.crypt then
          stageStore bc args env turn P iv gOff gLen
        else (P, some .failed)

/-- `while (cursor < end)`: the state, the result that ended the loop, and
    whether anything was staged. -/
def stageLoop (bc : BCrypt) (args : StageArgs) (env : StageEnv) (n : Nat) (P : Preserve)
    (cursor : UInt64) (staged : Bool) : Preserve × StageResult × Bool :=
  let last := args.offset + args.length
  if cursor < last then
    match hgap : sarPreserveFirstGap P.records args.path cursor (last - cursor) with
    | none => (P, .alreadyCovered, staged)
    | some (gOff, gLen) =>
      have _hprogress := firstGap_progress hgap
      match stageTurn bc args env (env.turn n) P gOff gLen with
      | (P', some result) => (P', result, staged)
      | (P', none) => stageLoop bc args env (n + 1) P' (gOff + gLen) true
  else (P, .alreadyCovered, staged)
termination_by 2 ^ 64 - cursor.toNat
decreasing_by
  have hlt := (gOff + gLen).toNat_lt
  omega

def evictAged (P : Preserve) (now : UInt64) : Preserve :=
  let evicted := sarPreserveEvictAged P.records now P.retention100ns
  { P with records := evicted.1, freeDirty := P.freeDirty || decide (evicted.2 > 0) }

def sarPreserveStage (bc : BCrypt) (args : StageArgs) (env : StageEnv) (P : Preserve) :
    Preserve × StageResult :=
  if P.ready = false then (P, .failed)
  else if args.plaintext.length = 0 ∨ args.length = 0 then (P, .stored)
  else if args.plaintext.length ≠ args.length.toNat then (P, .failed)
  else
    let res := stageLoop bc args env 0 (evictAged P env.now) args.offset false
    (res.1,
      if res.2.1 = .dropped ∨ res.2.1 = .failed then res.2.1
      else if res.2.2 then .stored else .alreadyCovered)

/-! ### The other operations -/

/-- `SarPresReapNamespace` removes the first matching record until none is left. -/
def reapLoop (match? : PreserveRecord → Bool) (records : List PreserveRecord) :
    List PreserveRecord :=
  if records.any match? then reapLoop match? (records.eraseP match?) else records
termination_by records.length
decreasing_by
  obtain ⟨r, hr, hmatch⟩ := List.any_eq_true.mp (by assumption)
  have hpos := List.length_pos_of_mem hr
  rw [List.length_eraseP_of_mem hr hmatch]
  omega

def sarPresReapNamespace (P : Preserve) (match? : PreserveRecord → Bool) : Preserve :=
  let namespaceMatch r := r.kind == SAR_PRESERVE_KIND_NAMESPACE && match? r
  { P with
    records := reapLoop namespaceMatch P.records
    dirty := P.dirty || P.records.any namespaceMatch }

def linkRecord (path : ProvPath) (fileSize actorId linkId now : UInt64) (causingPath : ProvPath) :
    PreserveRecord :=
  { sarPreserveRecordInit path 0 fileSize now linkId 0 actorId [] [] with
    kind := SAR_PRESERVE_KIND_NAMESPACE, causingImagePath := causingPath }

/-- `SarPreserveStageLink`: the state and, on failure, the status. -/
def sarPreserveStageLink (path : ProvPath) (fileSize actorId linkId now : UInt64)
    (causingPath : ProvPath) (P : Preserve) : Preserve × Except NtStatus Unit :=
  if P.ready = false then (P, .error .deviceNotReady)
  else if P.records.any fun r =>
      r.kind == SAR_PRESERVE_KIND_NAMESPACE && r.provenanceOffset == 0 &&
        r.provenancePath == path then
    (P, .error .objectNameCollision)
  else
    let P := evictAged P now
    if P.recordCapacity.toNat ≤ P.records.length then (P, .error .insufficientResources)
    else
      (appendRecord P (linkRecord path fileSize actorId linkId now causingPath), .ok ())

/-- `SarPreservePromote`. -/
def sarPreservePromoteActor (actorId : UInt64) (P : Preserve) : Preserve :=
  if P.ready = false then P
  else
    let promoted := sarPreservePromote P.records actorId
    { P with records := promoted.1, dirty := P.dirty || decide (promoted.2 > 0) }

/-- `SarPreserveReconcile`: reap the namespace records of the range, then
    discard every record of the path inside it. -/
def sarPreserveReconcileRange (path : ProvPath) (keyOffset keyLength : UInt64) (P : Preserve) :
    Preserve :=
  if P.ready = false then P
  else
    let P := sarPresReapNamespace P (reconcileRemoves path keyOffset keyLength)
    let reconciled := sarPreserveReconcile P.records path keyOffset keyLength
    { P with
      records := reconciled.1
      freeDirty := P.freeDirty || decide (reconciled.2 > 0)
      dirty := P.dirty || decide (reconciled.2 > 0) }

/-- `SarPresMaintain`: age eviction from the persist thread. -/
def sarPresMaintain (now : UInt64) (P : Preserve) : Preserve :=
  let P := sarPresReapNamespace P (agedOut now P.retention100ns)
  let evicted := sarPreserveEvictAged P.records now P.retention100ns
  { P with
    records := evicted.1
    freeDirty := P.freeDirty || decide (evicted.2 > 0)
    dirty := P.dirty || decide (evicted.2 > 0) }

def renameRecord (oldPath newPath : ProvPath) (r : PreserveRecord) : PreserveRecord :=
  if r.provenancePath = oldPath then { r with provenancePath := newPath } else r

def sarPreserveRename (oldPath newPath : ProvPath) (P : Preserve) : Preserve :=
  if P.ready = false then P
  else
    { P with
      records := P.records.map (renameRecord oldPath newPath)
      dirty := P.dirty || P.records.any fun r => r.provenancePath == oldPath }

def sarPreserveReserve (bytes : UInt64) (P : Preserve) : Preserve × Bool :=
  if P.ready = false ∨ bytes = 0 then (P, false)
  else if sarPreserveTotalBytes P.records + P.reservedBytes + bytes ≤ P.capacityBytes then
    ({ P with reservedBytes := P.reservedBytes + bytes }, true)
  else (P, false)

def sarPreserveRelease (bytes : UInt64) (P : Preserve) : Preserve :=
  if P.ready = false ∨ bytes = 0 then P
  else
    { P with
      reservedBytes := if bytes ≥ P.reservedBytes then 0 else P.reservedBytes - bytes }

def sarPreserveSetBudget (retention100ns capacityBytes : UInt64) (P : Preserve) : Preserve :=
  if retention100ns = 0 ∨ capacityBytes = 0 then P
  else { P with retention100ns := retention100ns, capacityBytes := capacityBytes }

/-! ### Restoring -/

/-- What the system decides in one restore; `link` is what reading a quarantine
    link gives. -/
structure RestoreEnv where
  pool : Bool
  read : Bool
  crypt : Bool
  link : Except NtStatus (List UInt8)

def restoreMatch (path : ProvPath) (offset length : UInt64) (r : PreserveRecord) : Bool :=
  decide (r.provenanceOffset ≤ offset) &&
    decide (offset + length ≤ r.provenanceOffset + r.provenanceLength) &&
    r.provenancePath == path

/-- The part of `SarPreserveRestore` under the lock: the record is copied out. -/
def restoreLookup (path : ProvPath) (offset length : UInt64) (outCap : UInt32) (P : Preserve) :
    Except NtStatus PreserveRecord :=
  if P.ready = false then .error .deviceNotReady
  else if length.toNat > outCap.toNat then .error .bufferTooSmall
  else
    match P.records.find? (restoreMatch path offset length) with
    | none => .error .notFound
    | some rec => .ok rec

/-- What decrypting the payload of a record gives: the zeroed output buffer keeps
    its rest, should the length have been cut to 32 bits. -/
def decryptPayload (bc : BCrypt) (rec : PreserveRecord) (P : Preserve) : List UInt8 :=
  let ioLen := rec.payloadLength.toNat % 2 ^ 32
  bc.decrypt P.storeKey (rec.iv.toList.take SAR_PRESERVE_AES_BLOCK)
      (readData P.data rec.payloadOffset.toNat ioLen) ++
    List.replicate (rec.payloadLength.toNat - ioLen) 0

def restoreRead (bc : BCrypt) (rec : PreserveRecord) (path : ProvPath) (offset length : UInt64)
    (env : RestoreEnv) (P : Preserve) : Except NtStatus (List UInt8) :=
  if rec.kind = SAR_PRESERVE_KIND_NAMESPACE then env.link.map fun bytes => bytes.take length.toNat
  else if env.pool = false then .error .insufficientResources
  else if (P.dataOpen && env.read) = false then .error .external
  else if env.crypt = false then .error .external
  else
    match sarPreserveVerifyExtract rec path offset length
        ((decryptPayload bc rec P).take rec.provenanceLength.toNat) with
    | .error _ => .error .dataError
    | .ok inner => .ok (((decryptPayload bc rec P).drop inner.toNat).take length.toNat)

/-- `SarPreserveRestore`, which leaves the store as it is.  The lock is released
    in between, so the payload may be read in a later state `P'`. -/
def sarPreserveRestore (bc : BCrypt) (path : ProvPath) (offset length : UInt64) (outCap : UInt32)
    (env : RestoreEnv) (P P' : Preserve) : Except NtStatus (List UInt8) := do
  let r ← restoreLookup path offset length outCap P
  restoreRead bc r path offset length env P'

/-! ### Loading -/

/-- `SAR_PRESKEY_BLOB`. -/
structure PresKeyBlob where
  magic : UInt32
  storeKey : Mac
  macKey : Mac
  anchorPresent : UInt8
  reserved : Vector UInt8 7
  anchorGeneration : UInt64
  anchorHeadMac : Mac
  retention100ns : UInt64
  capacityBytes : UInt64

open FixedCodec in
def presKeyBlobCodec : FixedCodec PresKeyBlob :=
  (u32.pair <| macCodec.pair <| macCodec.pair <| u8.pair <| (u8.vec 7).pair <| u64.pair <|
    macCodec.pair <| u64.pair u64).iso
    (fun (magic, storeKey, macKey, anchorPresent, reserved, anchorGeneration, anchorHeadMac,
          retention100ns, capacityBytes) =>
      ⟨magic, storeKey, macKey, anchorPresent, reserved, anchorGeneration, anchorHeadMac,
        retention100ns, capacityBytes⟩)
    (fun b =>
      (b.magic, b.storeKey, b.macKey, b.anchorPresent, b.reserved, b.anchorGeneration,
        b.anchorHeadMac, b.retention100ns, b.capacityBytes))
    (fun _ => rfl) (fun _ => rfl)

/-- What the system gives a load: the two files as read, fresh keys, and whether
    the payload file opens. -/
structure LoadEnv where
  keyFile : Option (List UInt8)
  freshStoreKey : Option Mac
  freshMacKey : Option Mac
  dataOpens : Bool
  indexFile : Option (List UInt8)

/-- The key file part of `SarPreserveLoad`. -/
def loadKeyFile (keyFile : Option (List UInt8)) (P : Preserve) : Preserve :=
  match keyFile with
  | none => P
  | some bytes =>
    let blob := presKeyBlobCodec.get bytes
    if bytes.length ≠ presKeyBlobCodec.width ∨ blob.magic ≠ SAR_PRESKEY_MAGIC then P
    else
      { P with
        storeKey := blob.storeKey
        macKey := blob.macKey
        anchor := ⟨decide (blob.anchorPresent ≠ 0), blob.anchorGeneration, blob.anchorHeadMac⟩
        retention100ns :=
          if blob.capacityBytes ≠ 0 then blob.retention100ns else P.retention100ns
        capacityBytes :=
          if blob.capacityBytes ≠ 0 then blob.capacityBytes else P.capacityBytes
        haveKey := true }

def ensureKeys (env : LoadEnv) (P : Preserve) : Preserve × Bool :=
  if P.haveKey then (P, true)
  else
    match env.freshStoreKey with
    | none => (P, false)
    | some storeKey =>
      match env.freshMacKey with
      | none => ({ P with storeKey := storeKey }, false)
      | some macKey => ({ P with storeKey := storeKey, macKey := macKey, haveKey := true }, true)

/-- The records `SarPreserveLoad` copies: no more than the table holds. -/
def loadedRecords (buf : List UInt8) (count capacity : UInt64) : List PreserveRecord :=
  match readIndexRecords buf (if count > capacity then capacity else count) with
  | .ok records => records
  | .error _ => []

def nextLinkStep (next : Int64) (r : PreserveRecord) : Int64 :=
  if r.kind = SAR_PRESERVE_KIND_NAMESPACE ∧ r.payloadOffset.toInt64 ≥ next then
    r.payloadOffset.toInt64 + 1
  else next

/-- The index part of `SarPreserveLoad`. -/
def loadIndex (indexFile : Option (List UInt8)) (P : Preserve) : Preserve :=
  match indexFile with
  | none => P
  | some buf =>
    if buf.length < HEADER_SIZE then P
    else
      match sarPreserveVerify buf P.macKey (if P.anchor.present then some P.anchor else none) with
      | .ok (.ok count) =>
        let hdr := headerOf buf
        let records := loadedRecords buf count P.recordCapacity
        { P with
          records := records
          generation := hdr.generation
          anchor := ⟨true, hdr.generation, hdr.headMac⟩
          freeDirty := true
          nextLinkId := records.foldl nextLinkStep P.nextLinkId }
      | .ok (.error status) =>
        { P with
          records := []
          tamperDetected := P.tamperDetected ||
            decide (status = .badMagic ∨ status = .recordMac ∨ status = .rollback) }
      | .error _ => P

def sarPreserveLoad (env : LoadEnv) (P : Preserve) : Preserve :=
  match ensureKeys env (loadKeyFile env.keyFile P) with
  | (P, false) => P
  | (P, true) =>
    if env.dataOpens = false then P
    else { loadIndex env.indexFile { P with dataOpen := true } with ready := true }

theorem sarPreserveLoad_haveKey {env : LoadEnv} (hkey : (loadKeyFile env.keyFile P).haveKey = true)
    (hopens : env.dataOpens = true) :
    sarPreserveLoad env P =
      { loadIndex env.indexFile { loadKeyFile env.keyFile P with dataOpen := true } with
        ready := true } := by
  have hkeys : ensureKeys env (loadKeyFile env.keyFile P) = (loadKeyFile env.keyFile P, true) :=
    if_pos hkey
  simp only [sarPreserveLoad, hkeys, hopens, Bool.true_eq_false, if_false]

/-! ### Runs -/

inductive StoreOp where
  | load (env : LoadEnv)
  | stage (args : StageArgs) (env : StageEnv)
  | stageLink (path : ProvPath) (fileSize actorId linkId now : UInt64) (causingPath : ProvPath)
  | promote (actorId : UInt64)
  | reconcile (path : ProvPath) (keyOffset keyLength : UInt64)
  | maintain (now : UInt64)
  | rename (oldPath newPath : ProvPath)
  | reserve (bytes : UInt64)
  | release (bytes : UInt64)
  | setBudget (retention100ns capacityBytes : UInt64)
  | restore (path : ProvPath) (offset length : UInt64) (outCap : UInt32) (env : RestoreEnv)

variable {ops : List StoreOp}

def StoreOp.apply (bc : BCrypt) (P : Preserve) : StoreOp → Preserve
  | load env => sarPreserveLoad env P
  | stage args env => (sarPreserveStage bc args env P).1
  | stageLink path fileSize actorId linkId now causingPath =>
    (sarPreserveStageLink path fileSize actorId linkId now causingPath P).1
  | promote actorId => sarPreservePromoteActor actorId P
  | reconcile path keyOffset keyLength => sarPreserveReconcileRange path keyOffset keyLength P
  | maintain now => sarPresMaintain now P
  | rename oldPath newPath => sarPreserveRename oldPath newPath P
  | reserve bytes => (sarPreserveReserve bytes P).1
  | release bytes => sarPreserveRelease bytes P
  | setBudget retention100ns capacityBytes => sarPreserveSetBudget retention100ns capacityBytes P
  | restore _ _ _ _ _ => P

def StoreOp.Budgets : StoreOp → Prop
  | reserve _ | release _ | setBudget _ _ | restore _ _ _ _ _ => True
  | _ => False

/-- These calls move the budget at most. -/
theorem StoreOp.Budgets.apply_eq {op : StoreOp} (hop : op.Budgets) (bc : BCrypt) (P : Preserve) :
    ∃ retention capacity reserved, op.apply bc P =
      { P with
        retention100ns := retention, capacityBytes := capacity, reservedBytes := reserved } := by
  cases op with
  | reserve bytes =>
    simp only [apply, sarPreserveReserve]
    split
    · exact ⟨_, _, _, rfl⟩
    · split <;> exact ⟨_, _, _, rfl⟩
  | release bytes =>
    simp only [apply, sarPreserveRelease]
    split <;> exact ⟨_, _, _, rfl⟩
  | setBudget retention capacity =>
    simp only [apply, sarPreserveSetBudget]
    split <;> exact ⟨_, _, _, rfl⟩
  | restore path offset length outCap env => exact ⟨_, _, _, rfl⟩
  | _ => exact absurd hop id

def runStore (bc : BCrypt) (P : Preserve) (ops : List StoreOp) : Preserve :=
  ops.foldl (fun P op => op.apply bc P) P

theorem runStore_nil : runStore bc P [] = P := rfl

theorem runStore_cons (op : StoreOp) :
    runStore bc P (op :: ops) = runStore bc (op.apply bc P) ops := rfl

def EachCall (bc : BCrypt) (cond : Preserve → StoreOp → Prop) : Preserve → List StoreOp → Prop
  | _, [] => True
  | P, op :: ops => cond P op ∧ EachCall bc cond (op.apply bc P) ops

theorem eachCall_iff_each {cond : Preserve → StoreOp → Prop} :
    EachCall bc cond P ops ↔ Runs.Each (fun P op => op.apply bc P) cond P ops := by
  induction ops generalizing P with
  | nil => exact Iff.rfl
  | cons op ops ih => exact and_congr_right fun _ => ih

/-- **The run rule.**  What holds at first and is kept by every call that meets
    the condition holds behind every run of such calls. -/
theorem runStore_rule {cond : Preserve → StoreOp → Prop} {Inv : Preserve → Prop}
    (hstep : ∀ P op, cond P op → Inv P → Inv (op.apply bc P)) (hinv : Inv P)
    (hops : EachCall bc cond P ops) :
    Inv (runStore bc P ops) :=
  Runs.run_rule (fun P op hP hcond => hstep P op hcond hP) hinv (eachCall_iff_each.mp hops)

end SemanticsAr
