import SemanticsAr.RecoverWindows

/-!
# The driver's key recovery

`SarRecoveryExecute` of `driver/recovery.c`: the ledger's records with the requested key id
are tried on a target file.  A record whose sample comes out right is applied: the first
one makes a copy of the target, and each is decrypted over the copy, window by window.  At
the end the copy is cut behind the last byte that was recovered.
-/

namespace SemanticsAr

/-- A file; its size is a nonnegative `LONGLONG`. -/
structure TargetFile where
  bytes : List UInt8
  bound : bytes.length < 2 ^ 63

def TargetFile.size (target : TargetFile) : UInt64 := UInt64.ofNat target.bytes.length

structure OutFile where
  data : Nat → UInt8
  length : Nat

def OutFile.empty : OutFile := ⟨fun _ => 0, 0⟩

def OutFile.write (out : OutFile) (pos : Nat) (bytes : List UInt8) : OutFile :=
  ⟨writeData out.data pos bytes, max out.length (pos + bytes.length)⟩

/-- What the system calls made for one record return, by file position where there are
    several, and the stray memory of each decryption. -/
structure RecordIo where
  sampleRead : Bool
  sampleStray : Stray
  tempOpens : Bool
  copies : Nat → Bool
  windowReads : Nat → Bool
  windowStrays : Nat → Stray
  windowWrites : Nat → Bool

structure RecoveryIo where
  ready : Bool
  pathPool : Bool
  chunkPools : Bool
  targetOpens : Bool
  querySize : Bool
  writesEmpty : Bool
  record : Nat → RecordIo
  truncates : Bool
  flushes : Bool

/-- `semantics_ar_recovery_exec_t`; of the path only its first unit is looked at. -/
structure RecoveryExec where
  keyId : Vector UInt8 SEMANTICS_AR_KEY_ID_SIZE
  firstUnit : UInt16

def sarSampleTag (data : List UInt8) : Mac := sha256 data

/-- The variables of the loop over the ledger.  `ptchunk` is one buffer for all of it; of
    `applied` the code keeps the length. -/
structure RecoveryState where
  temp : Option OutFile
  ptchunk : Nat → UInt8
  matched : Bool
  applied : List KeystoreRecord
  recovered : UInt64
  recoveredEnd : UInt64

/-! ### One record -/

def recordRange (rec : KeystoreRecord) (targetlen : UInt64) : Option FileRange :=
  if rec.provenanceOffset ≥ targetlen then none
  else
    let rest := targetlen - rec.provenanceOffset
    some ⟨rec.provenanceOffset,
      if rec.provenanceLength = 0 ∨ rec.provenanceLength > rest then rest
      else rec.provenanceLength⟩

def SampleInside (rec : KeystoreRecord) (r : FileRange) : Prop :=
  ¬ (rec.sampleLength = 0 ∨ rec.sampleLength.toNat > SAR_PRESERVE_STAGE_MAX ∨
    rec.sampleOffset < r.offset ∨
    rec.sampleOffset + rec.sampleLength.toUInt64 > r.offset + r.length)

instance (rec : KeystoreRecord) (r : FileRange) : Decidable (SampleInside rec r) :=
  inferInstanceAs (Decidable (¬ _))

section

variable (suite : CipherSuite) (target : TargetFile) (rk : RecoveryKey)

/-- `sar_recover_chunk` as the driver calls it, on `wlen` bytes at `pos` of the target. -/
def targetChunk (stray : Stray) (origin pos wlen : Nat) (ptchunk : Nat → UInt8) :
    RecoverStatus × (Nat → UInt8) :=
  sarRecoverChunk suite stray.stack rk .continuous (windowMemory target.bytes pos wlen stray.heap)
    ptchunk origin pos wlen pos target.bytes.length

def copyLoop (copies : Nat → Bool) (pos : Nat) (out : OutFile) : OutFile × Bool :=
  if pos < target.bytes.length then
    if copies pos then
      copyLoop copies (pos + SAR_PRESERVE_STAGE_MAX)
        (out.write pos ((target.bytes.drop pos).take SAR_PRESERVE_STAGE_MAX))
    else (out, false)
  else (out, true)
termination_by target.bytes.length - pos
decreasing_by
  simp only [SAR_PRESERVE_STAGE_MAX]
  omega

/-- The windows of a range from `pos` on. -/
def patchLoop (io : RecordIo) (origin stop pos : Nat) (ptchunk : Nat → UInt8) (out : OutFile) :
    (Nat → UInt8) × OutFile × RecoverStatus :=
  if pos < stop then
    let wlen := min (stop - pos) SAR_PRESERVE_STAGE_MAX
    if io.windowReads pos = false then (ptchunk, out, .declinedTargetIo)
    else
      let chunk := targetChunk suite target rk (io.windowStrays pos) origin pos wlen ptchunk
      if chunk.1 ≠ .ok then (chunk.2, out, .declinedMismatch)
      else if io.windowWrites pos = false then (chunk.2, out, .declinedTargetIo)
      else
        patchLoop io origin stop (pos + SAR_PRESERVE_STAGE_MAX) chunk.2
          (out.write pos (readData chunk.2 0 wlen))
  else (ptchunk, out, .ok)
termination_by stop - pos
decreasing_by
  simp only [SAR_PRESERVE_STAGE_MAX]
  omega

def openTemp (io : RecordIo) (temp : Option OutFile) : Option OutFile × Bool :=
  match temp with
  | some out => (some out, true)
  | none =>
    if io.tempOpens then
      let copy := copyLoop target io.copies 0 .empty
      (some copy.1, copy.2)
    else (none, false)

/-- The sample of a record, decrypted into `ptchunk`. -/
def sampleChunk (io : RecordIo) (rec : KeystoreRecord) (r : FileRange) (ptchunk : Nat → UInt8) :
    RecoverStatus × (Nat → UInt8) :=
  targetChunk suite target (sarRecoveryKeyFromRecord rec) io.sampleStray r.offset.toNat
    rec.sampleOffset.toNat rec.sampleLength.toNat ptchunk

def applyRecord (io : RecordIo) (rec : KeystoreRecord) (r : FileRange) (s : RecoveryState) :
    RecoveryState × RecoverStatus :=
  match openTemp target io s.temp with
  | (some out, true) =>
    let stop := r.offset.toNat + r.length.toNat
    let patched := patchLoop suite target (sarRecoveryKeyFromRecord rec) io r.offset.toNat stop
      r.offset.toNat s.ptchunk out
    let s := { s with temp := some patched.2.1, ptchunk := patched.1 }
    if patched.2.2 ≠ .ok then (s, patched.2.2)
    else
      ({ s with
          applied := s.applied ++ [rec]
          recovered := s.recovered + r.length
          recoveredEnd := if r.offset + r.length > s.recoveredEnd then r.offset + r.length
            else s.recoveredEnd }, .ok)
  | (temp, _) => ({ s with temp := temp }, .declinedTargetIo)

/-- One turn of the loop over the ledger; a status other than `ok` ends the run. -/
def recoverRecord (keyId : Vector UInt8 SEMANTICS_AR_KEY_ID_SIZE) (io : RecordIo)
    (rec : KeystoreRecord) (s : RecoveryState) : RecoveryState × RecoverStatus :=
  if rec.keyId ≠ keyId then (s, .ok)
  else
    let s := { s with matched := true }
    match recordRange rec target.size with
    | none => (s, .ok)
    | some r =>
      if ¬ SampleInside rec r ∨ io.sampleRead = false then (s, .ok)
      else
        let chunk := sampleChunk suite target io rec r s.ptchunk
        let s := { s with ptchunk := chunk.2 }
        if chunk.1 ≠ .ok then (s, .ok)
        else if sarSampleTag (readData chunk.2 0 rec.sampleLength.toNat) ≠ rec.sampleTag then
          (s, .ok)
        else applyRecord suite target io rec r s

def recoverLoop (keyId : Vector UInt8 SEMANTICS_AR_KEY_ID_SIZE) :
    List (KeystoreRecord × RecordIo) → RecoveryState → RecoveryState × RecoverStatus
  | [], s => (s, .ok)
  | (rec, io) :: rest, s =>
    match recoverRecord suite target keyId io rec s with
    | (s, .ok) => recoverLoop keyId rest s
    | (s, status) => (s, status)

/-! ### The run -/

def RecoveryState.initial : RecoveryState where
  temp := none
  ptchunk := fun _ => 0
  matched := false
  applied := []
  recovered := 0
  recoveredEnd := 0

def recoverySteps (io : RecoveryIo) (keystore : List KeystoreRecord) :
    List (KeystoreRecord × RecordIo) :=
  keystore.zipIdx.map fun entry => (entry.1, io.record entry.2)

/-- What a run returns, the number of bytes it reports, the file it leaves and the records
    it applied. -/
structure RecoveryOutcome where
  status : RecoverStatus
  bytesRecovered : UInt64
  temp : Option OutFile
  applied : List KeystoreRecord

def OutFile.truncate (out : OutFile) (length : Nat) : OutFile := { out with length := length }

def finishRecovery (io : RecoveryIo) (s : RecoveryState) : RecoveryOutcome :=
  if s.matched = false then ⟨.declinedNoKeyId, 0, s.temp, s.applied⟩
  else if s.applied = [] then ⟨.declinedMismatch, 0, s.temp, s.applied⟩
  else
    let cut := s.temp.isSome ∧ s.recoveredEnd < target.size
    if cut ∧ io.truncates = false then ⟨.declinedTargetIo, 0, s.temp, s.applied⟩
    else
      let temp := if cut then s.temp.map (·.truncate s.recoveredEnd.toNat) else s.temp
      if temp.isSome ∧ io.flushes = false then ⟨.declinedTargetIo, 0, temp, s.applied⟩
      else ⟨.ok, s.recovered, temp, s.applied⟩

def sarRecoveryExecute (io : RecoveryIo) (keystore : List KeystoreRecord) (request : RecoveryExec) :
    RecoveryOutcome :=
  if io.ready = false then ⟨.declinedTargetIo, 0, none, []⟩
  else if io.pathPool = false ∨ request.firstUnit = 0 ∨ io.chunkPools = false then
    ⟨.invalid, 0, none, []⟩
  else if io.targetOpens = false then ⟨.declinedTargetIo, 0, none, []⟩
  else if io.querySize = false ∨ target.size = 0 then
    if io.writesEmpty then ⟨.ok, 0, some .empty, []⟩ else ⟨.declinedTargetIo, 0, none, []⟩
  else
    match recoverLoop suite target request.keyId (recoverySteps io keystore) .initial with
    | (s, .ok) => finishRecovery target io s
    | (s, status) => ⟨status, 0, s.temp, s.applied⟩

end

end SemanticsAr
