import SemanticsAr.Identity
import SemanticsAr.PreserveStore

/-!
# The operation callbacks

The pre-operation callbacks of `driver/operations.c` and the first part of
`SarPhantomPreCreate`: who is denied, what is refused, and which calls a request makes on the
capture side before it reaches the file system.  What the capture side answers is a parameter
(`CaptureReplies`); a callback makes each of these calls at most once.  The callbacks find the
requesting process by its thread; here it is part of the request.
-/

namespace SemanticsAr

/-! ### Requests -/

structure Process where
  object : UInt64
  id : UInt64
  startKey : UInt64
deriving DecidableEq, Repr

inductive RequestorMode where
  | kernelMode
  | userMode
deriving DecidableEq, Repr

/-- Who makes a request and how its callback runs: at `PASSIVE_LEVEL`, without a top-level
    request. -/
structure Caller where
  process : Process
  requestor : RequestorMode
  passive : Bool
  noTopLevel : Bool
deriving DecidableEq, Repr

/-- `sar_destruct_member_t`. -/
inductive DestructMember where
  | none
  | writeCached
  | writeNoncached
  | writePaging
  | setEof
  | setAllocation
  | disposition
  | dispositionEx
  | rename
  | renameEx
  | link
  | linkEx
  | duplicateExtents
  | offloadWrite
  | setZeroData
  | fileLevelTrim
  | setSparse
  | lockVolume
  | dismountVolume
  | sectionSync
deriving DecidableEq, Repr

inductive CreateDisposition where
  | supersede
  | openExisting
  | createNew
  | openIf
  | overwrite
  | overwriteIf
deriving DecidableEq, Repr

structure CreateRequest where
  caller : Caller
  disposition : CreateDisposition
  directoryFile : Bool
  deleteOnClose : Bool
deriving DecidableEq, Repr

structure WriteRequest where
  caller : Caller
  paging : Bool
  nocache : Bool
  offset : UInt64
  length : UInt32
  paging_kernel : paging = true → caller.requestor = .kernelMode
deriving DecidableEq, Repr

/-- The information classes that `SarClassifySetInformation` knows, with what the callbacks
    read of their buffers. -/
inductive SetInformation where
  | endOfFile (newEof : UInt64)
  | allocation (size : UInt64)
  | disposition (deleteFile : Bool)
  | dispositionEx (deleteFile : Bool)
  | rename (replaceIfExists : Bool)
  | renameEx (replaceIfExists : Bool)
  | link (replaceIfExists : Bool)
  | linkEx (replaceIfExists : Bool)
  | other
deriving DecidableEq, Repr

/-- `buffer` says that there is an information buffer. -/
structure SetInformationRequest where
  caller : Caller
  info : SetInformation
  buffer : Bool
deriving DecidableEq, Repr

/-- The control codes that `SarPreFsControl` tells apart.  A zeroing request has its two
    offsets if its input buffer holds them. -/
inductive FsControl where
  | manageBypassIo
  | getNtfsFileRecord
  | duplicateExtents
  | offloadWrite
  | setZeroData (range : Option (UInt64 × UInt64))
  | fileLevelTrim
  | setSparse
  | lockVolume
  | dismountVolume
  | other
deriving DecidableEq, Repr

structure FsControlRequest where
  caller : Caller
  control : FsControl
deriving DecidableEq, Repr

/-- An acquisition for section synchronisation: whether a section is created, whether its protection
    is writable, and whether the previous mode is user mode. -/
structure SectionRequest where
  caller : Caller
  createSection : Bool
  readWrite : Bool
  previousUser : Bool
deriving DecidableEq, Repr

/-! ### What a callback reads -/

def SAR_BLOCKED_CAPACITY : Nat := 256

/-- The blocked processes of `SAR_CAPTURE_CTX`. -/
structure BlockedTable where
  procs : List Process
  count_le : procs.length ≤ SAR_BLOCKED_CAPACITY

/-- The table that `SarCaptureCreate` makes. -/
def BlockedTable.empty : BlockedTable := ⟨[], Nat.zero_le _⟩

def sarCaptureBlockOriginator (T : BlockedTable) (originator : Process) : BlockedTable :=
  if originator ∈ T.procs then T
  else if h : T.procs.length < SAR_BLOCKED_CAPACITY then
    ⟨T.procs ++ [originator], by rw [List.length_append]; exact h⟩
  else T

def sarCaptureOriginatorBlocked (T : BlockedTable) (originator : Process) : Bool :=
  decide (originator ∈ T.procs)

structure Globals where
  mode : Mode
  identity : IdentityTable
  blocked : BlockedTable
  preserveReady : Bool
  phantomActive : Bool
  unloading : Bool

/-- The flags of `SAR_STREAM_CONTEXT`. -/
structure StreamFlags where
  sectionDirty : Bool
  ownStore : Bool
  phantomBacking : Bool
  readObserved : Bool
  trackedFromOpen : Bool
  osOwned : Bool
  osownChecked : Bool
deriving DecidableEq, Repr

/-- The part of `SAR_STREAM_CONTEXT` the callbacks look at; `hasMap` is `mmap_map != NULL`. -/
structure StreamContext where
  flags : StreamFlags
  hasMap : Bool
deriving DecidableEq, Repr

/-- The context that `SarGetStreamContext` makes where there is none. -/
def StreamContext.fresh : StreamContext :=
  ⟨⟨false, false, false, false, false, false, false⟩, false⟩

/-- `SarGetStreamContext`; `pool` says that a context can be made. -/
def sarGetStreamContext (pool : Bool) (stream : Option StreamContext) : Option StreamContext :=
  match stream with
  | some sc => some sc
  | none => if pool then some .fresh else none

/-- What the system tells a callback about the file of a request: its stream context, what
    `SarTargetExempt` says of its name and its size, each if it can be queried, and whether
    `SarPhantomIsTrustedProcess` holds of the requesting process. -/
structure Target where
  stream : Option StreamContext
  nameExempt : Option Bool
  endOfFile : Option UInt64
  trusted : Bool

inductive CompletionStatus where
  | accessDenied
  | insufficientResources
  | objectNameNotFound
  | reparse
deriving DecidableEq, Repr

/-- `FLT_PREOP_CALLBACK_STATUS`, with the status of a completed request. -/
inductive PreopStatus where
  | successNoCallback
  | successWithCallback
  | complete (status : CompletionStatus)
deriving DecidableEq, Repr

def PreopStatus.refused : PreopStatus → Bool
  | .complete .reparse => false
  | .complete _ => true
  | _ => false

/-- What the capture side answers.  `phantomCreate` is what `SarPhantomPreCreate` returns
    behind its test of the blocked table. -/
structure CaptureReplies where
  inPlaceRegion : StageResult
  submitDelete : StageResult
  submitSupersede : StageResult
  submitRenameTarget : StageResult
  phantomCreate : PreopStatus

inductive CaptureCall where
  | inPlaceRegion (offset length : UInt64)
  | submitDelete
  | submitSupersede
  | submitRenameTarget
  | submitRenameRekey
  | mappedWrite (offset : UInt64) (length : UInt32)
  | submitWrite (member : DestructMember) (offset : UInt64) (length : UInt32)
  | submitMetadata (member : DestructMember)
  | phantomEvidence (processId : UInt64)
  | blockOriginator (process : Process)
  | reserve (bytes : UInt64)
  | flushBuffers
  | mmapArm
deriving DecidableEq, Repr

structure Outcome where
  status : PreopStatus
  calls : List CaptureCall
deriving DecidableEq, Repr

/-! ### Classification and tests -/

def sarClassifyWrite (op : WriteRequest) : DestructMember :=
  if op.paging then .writePaging
  else if op.nocache then .writeNoncached
  else .writeCached

def sarClassifySetInformation : SetInformation → DestructMember
  | .endOfFile _ => .setEof
  | .allocation _ => .setAllocation
  | .disposition _ => .disposition
  | .dispositionEx _ => .dispositionEx
  | .rename _ => .rename
  | .renameEx _ => .renameEx
  | .link _ => .link
  | .linkEx _ => .linkEx
  | .other => .none

def sarClassifyFsControl : FsControl → DestructMember
  | .duplicateExtents => .duplicateExtents
  | .offloadWrite => .offloadWrite
  | .setZeroData _ => .setZeroData
  | .fileLevelTrim => .fileLevelTrim
  | .setSparse => .setSparse
  | .lockVolume => .lockVolume
  | .dismountVolume => .dismountVolume
  | _ => .none

def sarFsControlIsKeyless : DestructMember → Bool
  | .setZeroData | .fileLevelTrim | .setSparse | .lockVolume | .dismountVolume => true
  | _ => false

def CreateDisposition.replaces : CreateDisposition → Bool
  | .supersede | .overwrite | .overwriteIf => true
  | _ => false

def Target.flag (t : Target) (f : StreamFlags → Bool) : Bool :=
  match t.stream with
  | none => false
  | some sc => f sc.flags

def sarStreamConfidentBlind (t : Target) : Bool :=
  t.flag fun f => f.trackedFromOpen && !f.readObserved && !f.sectionDirty

def sarStreamSectionDirty (t : Target) : Bool := t.flag (·.sectionDirty)

def sarTargetIsProtectedStore (t : Target) (c : Caller) : Bool :=
  decide (c.requestor = .userMode) && t.flag (·.ownStore)

def sarStreamExemptTarget (t : Target) (c : Caller) : Bool :=
  match t.stream with
  | none => false
  | some sc =>
    if sc.flags.osOwned then true
    else if sc.flags.osownChecked then false
    else c.passive && t.nameExempt.getD false

def identityExempt (G : Globals) (c : Caller) : Bool :=
  decide (sarStateIdentityLookup G.identity c.process.id = .exempt)

def sarOperationExempt (G : Globals) (t : Target) (c : Caller) : Bool :=
  identityExempt G c || sarStreamExemptTarget t c

def StageResult.lost : StageResult → Bool
  | .dropped | .failed => true
  | _ => false

def refuses (G : Globals) (r : StageResult) : Bool := r.lost && decide (G.mode = .enforce)

/-- The stream has mapped writes to capture: the condition of `SarMmapOnPagingWrite` and
    `SarMmapCaptureNocache` behind their common tests. -/
def mappedCapture (G : Globals) (t : Target) (op : WriteRequest) : Bool :=
  !G.unloading && G.preserveReady && decide (op.length ≠ 0) &&
    (t.flag (·.sectionDirty) && !t.flag (·.ownStore) && !t.flag (·.phantomBacking)) &&
    (match t.stream with
      | none => false
      | some sc => sc.hasMap)

/-! ### The callbacks -/

section

def pass (calls : List CaptureCall) : Outcome := ⟨.successNoCallback, calls⟩

def deny (status : CompletionStatus) (calls : List CaptureCall) : Outcome :=
  ⟨.complete status, calls⟩

variable (G : Globals) (t : Target) (r : CaptureReplies)

/-- `SarEnforceInPlaceCapture`, followed by what the caller does when the request goes on. -/
def sarEnforceInPlaceCapture (c : Caller) (offset length : UInt64) (calls : List CaptureCall) :
    Outcome :=
  if refuses G r.inPlaceRegion && !identityExempt G c then
    deny .insufficientResources [.inPlaceRegion offset length]
  else pass (.inPlaceRegion offset length :: calls)

/-- The call that `SarSubmitWrite` makes. -/
def sarSubmitWrite (member : DestructMember) (offset : UInt64) (length : UInt32) :
    List CaptureCall :=
  if sarStreamConfidentBlind t then [] else [.submitWrite member offset length]

/-- `SarPreWrite` for a write onto the backing of a phantom. -/
def phantomWrite (c : Caller) : Outcome :=
  if c.requestor = .userMode then
    if (sarPhantomEvidenceConvicts G.identity c.process.id).2 = true ∧ G.mode = .enforce then
      deny .accessDenied [.phantomEvidence c.process.id, .blockOriginator c.process]
    else pass [.phantomEvidence c.process.id]
  else pass []

def sarPreWrite (op : WriteRequest) : Outcome :=
  let c := op.caller
  let member := sarClassifyWrite op
  let submit := sarSubmitWrite t member op.offset op.length
  if op.paging && mappedCapture G t op then pass [.mappedWrite op.offset op.length]
  else if sarCaptureOriginatorBlocked G.blocked c.process ∧ c.requestor = .userMode ∧
      op.paging = false then
    deny .accessDenied []
  else if t.flag (·.phantomBacking) then phantomWrite G c
  else if sarTargetIsProtectedStore t c then deny .accessDenied []
  else if sarOperationExempt G t c then pass []
  else if c.passive && !op.paging && c.noTopLevel && decide (op.length ≠ 0) then
    if sarStreamSectionDirty t then
      if member = .writeNoncached ∧ mappedCapture G t op then
        pass (.mappedWrite op.offset op.length :: submit)
      else pass submit
    else if sarStreamConfidentBlind t then pass submit
    else sarEnforceInPlaceCapture G r c op.offset op.length.toUInt64 submit
  else pass submit

/-- The rename and link part of `SarPreSetInformation`. -/
def preRename (c : Caller) (calls : List CaptureCall) : Outcome :=
  if c.passive = false then pass calls
  else if refuses G r.submitRenameTarget then
    deny .insufficientResources [.submitRenameTarget]
  else pass (.submitRenameTarget :: calls)

/-- The disposition part of `SarPreSetInformation`. -/
def preDisposition (c : Caller) (buffer deleteFile : Bool) (calls : List CaptureCall) : Outcome :=
  if c.passive && buffer && deleteFile then
    if refuses G r.submitDelete then deny .insufficientResources [.submitDelete]
    else pass (.submitDelete :: calls)
  else pass calls

/-- The truncation part of `SarPreSetInformation`. -/
def preTruncate (c : Caller) (buffer : Bool) (newEof : UInt64) (calls : List CaptureCall) :
    Outcome :=
  if c.passive && buffer && !sarStreamConfidentBlind t then
    match t.endOfFile with
    | none => pass calls
    | some size =>
      if newEof < size then sarEnforceInPlaceCapture G r c newEof (size - newEof) calls
      else pass calls
  else pass calls

def sarPreSetInformation (op : SetInformationRequest) : Outcome :=
  let c := op.caller
  let member := sarClassifySetInformation op.info
  let metadata : List CaptureCall := [.submitMetadata member]
  if member = .none then pass []
  else if sarCaptureOriginatorBlocked G.blocked c.process then deny .accessDenied []
  else if sarTargetIsProtectedStore t c then deny .accessDenied []
  else if sarOperationExempt G t c then pass []
  else
    match op.info with
    | .rename _ | .renameEx _ =>
      preRename G r c (if c.passive then .submitRenameRekey :: metadata else metadata)
    | .link _ | .linkEx _ => preRename G r c metadata
    | .disposition deleteFile | .dispositionEx deleteFile =>
      preDisposition G r c op.buffer deleteFile metadata
    | .endOfFile newEof | .allocation newEof => preTruncate G t r c op.buffer newEof metadata
    | .other => pass metadata

def sarPreFsControl (op : FsControlRequest) : Outcome :=
  let c := op.caller
  let member := sarClassifyFsControl op.control
  let submit :=
    if sarFsControlIsKeyless member then [.submitMetadata member] else sarSubmitWrite t member 0 0
  if op.control = .manageBypassIo then pass []
  else if op.control = .getNtfsFileRecord ∧ G.phantomActive = true ∧ c.requestor = .userMode ∧
      t.trusted = false then
    deny .accessDenied []
  else if member = .none then pass []
  else if sarTargetIsProtectedStore t c then deny .accessDenied []
  else if sarOperationExempt G t c then pass []
  else
    match op.control with
    | .setZeroData (some (fileOffset, beyondFinalZero)) =>
      if c.passive && !sarStreamConfidentBlind t && decide (fileOffset < beyondFinalZero) then
        sarEnforceInPlaceCapture G r c fileOffset (beyondFinalZero - fileOffset) submit
      else pass submit
    | _ => pass submit

def sarPhantomPreCreate (op : CreateRequest) (calls : List CaptureCall) : Outcome :=
  if op.caller.requestor = .userMode ∧ sarCaptureOriginatorBlocked G.blocked op.caller.process ∧
      op.disposition.replaces then
    deny .accessDenied calls
  else ⟨r.phantomCreate, calls⟩

def sarPreCreate (op : CreateRequest) : Outcome :=
  let c := op.caller
  if decide (c.requestor = .userMode) && c.passive && op.disposition.replaces &&
      !op.directoryFile && !identityExempt G c then
    if refuses G r.submitSupersede then deny .insufficientResources [.submitSupersede]
    else sarPhantomPreCreate G r op [.submitSupersede]
  else sarPhantomPreCreate G r op []

def refusedAnyway (op : CreateRequest) : Bool :=
  decide (op.caller.requestor = .userMode) &&
    sarCaptureOriginatorBlocked G.blocked op.caller.process && op.disposition.replaces

/-- The capture of a file that is to be replaced was lost, and the driver enforces. -/
def supersedeRefused (op : CreateRequest) : Bool :=
  (decide (op.caller.requestor = .userMode) && op.caller.passive && op.disposition.replaces &&
    !op.directoryFile && !identityExempt G op.caller) && refuses G r.submitSupersede

theorem sarPreCreate_status (op : CreateRequest) :
    (sarPreCreate G r op).status =
      if supersedeRefused G r op then .complete .insufficientResources
      else if refusedAnyway G op then .complete .accessDenied
      else r.phantomCreate := by
  have hphantom : ∀ calls, (sarPhantomPreCreate G r op calls).status =
      if refusedAnyway G op then .complete .accessDenied else r.phantomCreate := by
    intro calls
    simp only [sarPhantomPreCreate, refusedAnyway, Bool.and_eq_true, decide_eq_true_eq, and_assoc]
    split <;> rfl
  simp only [sarPreCreate]
  split
  next h =>
    have hrefused : supersedeRefused G r op = refuses G r.submitSupersede := by
      simp only [supersedeRefused, h, Bool.true_and]
    rw [hrefused]
    split
    · rfl
    · exact hphantom _
  next h =>
    have hkept : supersedeRefused G r op = false := by
      simp only [supersedeRefused, Bool.eq_false_iff.mpr h, Bool.false_and]
    rw [hkept]
    exact hphantom _

/-- What the section callback finds: the context that `SarGetStreamContext` returns, what is
    reserved for the stream, the size in the file's header if there is one, and that the file is
    neither compressed nor encrypted. -/
structure SectionTarget where
  context : Option StreamContext
  mmapReserved : UInt64
  headerSize : Option UInt64
  rawSafe : Bool

def SAR_CAPTURE_BUFFER_BYTES : UInt64 := 256

def sectionEstimate (headerSize : Option UInt64) : UInt64 :=
  let size := headerSize.getD 0
  let est := if size > SAR_CAPTURE_BUFFER_BYTES then size else SAR_CAPTURE_BUFFER_BYTES
  est + est / 16

/-- The end of `SarPreAcquireForSection`: the map is built and the seam told. -/
def sectionArm (st : SectionTarget) (c : Caller) : List CaptureCall :=
  (if c.passive && st.rawSafe then [.flushBuffers, .mmapArm] else []) ++
    [.submitMetadata .sectionSync]

/-- `SarPreAcquireForSection`, with the stream context it leaves; `reserved` is the answer of
    `SarPreserveReserve`. -/
def sarPreAcquireForSection (st : SectionTarget) (reserved : Bool) (op : SectionRequest) :
    Outcome × Option StreamContext :=
  let c := op.caller
  if op.createSection = false then (pass [], st.context)
  else
    match st.context with
    | none => (pass [], none)
    | some sc =>
      let sc := { sc with flags := { sc.flags with readObserved := true } }
      if op.readWrite = false then (pass [], some sc)
      else if sc.flags.osOwned || identityExempt G c then (pass [], some sc)
      else if c.requestor ≠ .userMode ∨ op.previousUser = false then (pass [], some sc)
      else
        let sc := { sc with flags := { sc.flags with sectionDirty := true } }
        if c.passive ∧ st.mmapReserved = 0 then
          let call : CaptureCall := .reserve (sectionEstimate st.headerSize)
          if reserved = false ∧ G.mode = .enforce then
            (deny .insufficientResources [call], some sc)
          else (pass (call :: sectionArm st c), some sc)
        else (pass (sectionArm st c), some sc)

def sarPreCleanup (c : Caller) : Outcome :=
  if c.passive && c.noTopLevel && sarStreamSectionDirty t then pass [.flushBuffers] else pass []

end

/-! ### Behind the file system -/

/-- What `SarPostCreate` takes the normalised name for. -/
inductive NameClass where
  | ownStore (phantom : Bool)
  | exempt
  | plain
deriving DecidableEq, Repr

/-- `SarPostCreate` for a create that succeeded: the stream context it leaves.  `name` is the class
    of the name, `opened` that an existing file was opened, `access` that data or deletion access
    was asked for. -/
def sarPostCreate (G : Globals) (op : CreateRequest) (name : Option NameClass)
    (opened access pool : Bool) (stream : Option StreamContext) : Option StreamContext :=
  if op.caller.passive = false then stream
  else
    match name with
    | none => stream
    | some (.ownStore phantom) =>
      (sarGetStreamContext pool stream).map fun sc =>
        { sc with flags := { sc.flags with
            ownStore := true, phantomBacking := sc.flags.phantomBacking || phantom } }
    | some .exempt =>
      (sarGetStreamContext pool stream).map fun sc =>
        { sc with flags := { sc.flags with osOwned := true, osownChecked := true } }
    | some .plain =>
      if op.caller.requestor = .userMode ∧ opened = true ∧ access = true ∧
          op.directoryFile = false ∧ identityExempt G op.caller = false then
        (sarGetStreamContext pool stream).map fun sc =>
          { sc with flags := { sc.flags with trackedFromOpen := true, osownChecked := true } }
      else stream

/-- `SarPostRead` for a read of at least one byte that succeeded. -/
def sarPostRead (c : Caller) (pool : Bool) (stream : Option StreamContext) : Option StreamContext :=
  if c.passive = false then stream
  else
    (sarGetStreamContext pool stream).map fun sc =>
      { sc with flags := { sc.flags with readObserved := true } }

end SemanticsAr
