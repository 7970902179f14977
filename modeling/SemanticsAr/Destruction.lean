import SemanticsAr.MappedWrites

/-!
# Every way of destroying an original

One file and one process that is not exempt, over any sequence of requests: which of them take
bytes of the file away, and whether these bytes were put into the store before.  The callbacks
are those of `Operations`; their calls on the capture side act here on sets of positions.  A
position is on the `disk` as long as its original byte is there, `dirty` if the cache has
another byte for it, `claimed` if a record of the path covers it, `copied` if the store has
its original byte, and `linked` if it belongs to the file that a quarantine link keeps.

A write through the cache counts as one on the disk, except behind a writable mapping, where
the original is still to be had from the disk until the page is written back.
-/

namespace SemanticsAr

open Runs UInt64 Nat

variable {stream : Option StreamContext} {control : FsControl}
  {moves deleteOnClose access readWrite writableView buffer deleteFile nocache : Bool}
  {newEof fileOffset beyondFinalZero : UInt64} {calls : List CaptureCall}

/-! ### Arming -/

def sarWidePrefixI : List UInt16 → List UInt16 → Bool
  | _, [] => true
  | [], _ :: _ => false
  | a :: text, b :: rest =>
    let upper := fun u : UInt16 => if 97 ≤ u ∧ u ≤ 122 then u - 32 else u
    decide (upper a = upper b) && sarWidePrefixI text rest

def sarMmapPathExcluded (path : ProvPath) : Bool :=
  let vp := sarPresVolPrefixChars path
  if vp = 0 then false
  else
    let text := (pathText path).drop (vp + 1)
    sarWidePrefixI text (wideUnits "Windows\\") ||
      sarWidePrefixI text (wideUnits "ProgramData\\Microsoft\\")

/-! ### The file -/

/-- The file and the process: whether the file system makes links, and whether the file is
    compressed or encrypted. -/
structure FileSetting where
  process : Process
  path : ProvPath
  linkable : Bool
  compressed : Bool
  trusted : Bool

/-- The driver at one request: its store is ready, the process is not exempt, and the file is no
    phantom. -/
structure DriverAt (k : FileSetting) where
  globals : Globals
  phantomCreate : PreopStatus
  notExempt : sarStateIdentityLookup globals.identity k.process.id ≠ .exempt
  ready : globals.preserveReady = true
  loaded : globals.unloading = false
  realFile : ∀ status, phantomCreate ≠ .complete status

/-- `coveredLen` is that of the map, and `mapFresh` says that the clusters are still where the
    map has them. -/
structure FileState where
  present : Bool
  size : UInt64
  handles : Nat
  disposition : Bool
  deleteOnClose : Bool
  hasRead : Bool
  writableView : Bool
  stream : Option StreamContext
  coveredLen : UInt64
  mapFresh : Bool
  disk : Nat → Bool
  dirty : Nat → Bool
  claimed : Nat → Bool
  copied : Nat → Bool
  linked : Nat → Bool
  hasLink : Bool

def within (lo hi b : Nat) : Bool := decide (lo ≤ b ∧ b < hi)

@[simp] theorem within_iff {lo hi b : Nat} : within lo hi b = true ↔ lo ≤ b ∧ b < hi :=
  decide_eq_true_iff

def FileState.untouched (size : UInt64) : FileState where
  present := true
  size := size
  handles := 0
  disposition := false
  deleteOnClose := false
  hasRead := false
  writableView := false
  stream := none
  coveredLen := 0
  mapFresh := false
  disk := within 0 size.toNat
  dirty _ := false
  claimed _ := false
  copied _ := false
  linked _ := false
  hasLink := false

inductive Replacing where
  | rename
  | renameEx
  | link
  | linkEx

def Replacing.info : Replacing → SetInformation
  | rename => .rename true
  | renameEx => .renameEx true
  | link => .link true
  | linkEx => .linkEx true

/-- The requests of the process, a change made through a writable view, a page written back, and a
    stream context that is discarded.  A mapping comes with the covered length of the file's
    clusters, a control request with the range it is for and whether it moves clusters. -/
inductive FileAct where
  | create (disposition : CreateDisposition) (directoryFile deleteOnClose access : Bool)
  | read
  | map (readWrite : Bool) (extents : Option UInt64)
  | change (lo hi : Nat)
  | write (nocache : Bool) (offset : UInt64) (length : UInt32)
  | writeBack (offset : UInt64) (length : UInt32)
  | setInformation (info : SetInformation) (buffer : Bool)
  | replace (how : Replacing) (source : Target)
  | fsControl (control : FsControl) (lo hi : Nat) (moves : Bool)
  | close
  | discard

structure FileStep (k : FileSetting) where
  act : FileAct
  performed : Bool
  driver : DriverAt k

section

variable (k : FileSetting)

namespace FileState

def pending (s : FileState) : Bool := s.disposition || s.deleteOnClose

def alive (s : FileState) : Bool := s.present || s.hasLink

def target (s : FileState) : Target := ⟨s.stream, some false, some s.size, k.trusted⟩

def blind (s : FileState) : Bool := sarStreamConfidentBlind (s.target k)

def sectionDirty (s : FileState) : Bool := sarStreamSectionDirty (s.target k)

/-! ### What the capture calls do -/

/-- The bytes of a range go into the store where it has no record yet; `shows` are the positions
    at which the reader finds the original. -/
def stage (s : FileState) (shows : Nat → Bool) (lo hi : Nat) : FileState :=
  { s with
    claimed := fun b => s.claimed b || within lo hi b
    copied := fun b => s.copied b || (within lo hi b && !s.claimed b && shows b) }

def stageView (s : FileState) (lo hi : Nat) : FileState :=
  s.stage (fun b => s.disk b && !s.dirty b) lo hi

def stageRaw (s : FileState) (lo hi : Nat) : FileState :=
  s.stage (fun b => s.disk b && s.mapFresh) lo hi

def partlyClaimed (s : FileState) : Bool := decide (∃ b < s.size.toNat, s.claimed b = true)

/-- `SarPreserveStageLink` finds a link of the path. -/
def collides (s : FileState) : Bool :=
  k.linkable && !s.blind k && decide (s.size ≠ 0) && s.hasLink

/-- `SarCaptureLinkPreserve`.  A link whose range meets a record is not entered. -/
def linkPreserve (s : FileState) : FileState :=
  if s.blind k || decide (s.size = 0) then s
  else if k.linkable then
    if s.hasLink || s.partlyClaimed then s
    else
      { s with
        claimed := fun b => s.claimed b || within 0 s.size.toNat b
        linked := within 0 s.size.toNat
        hasLink := true }
  else s.stageView 0 s.size.toNat

def capture (s : FileState) : CaptureCall → FileState
  | .inPlaceRegion offset length =>
    if s.stream.isSome then s.stageView offset.toNat (min (offset + length).toNat s.size.toNat)
    else s
  | .submitDelete => s.linkPreserve k
  | .submitSupersede => if s.blind k then s else s.stageView 0 s.size.toNat
  | .mappedWrite offset length =>
    if s.coveredLen < offset + length.toUInt64 then s
    else s.stageRaw offset.toNat (offset + length.toUInt64).toNat
  | _ => s

def captureTarget (s : FileState) : CaptureCall → FileState
  | .submitRenameTarget => s.linkPreserve k
  | _ => s

/-- `SarMmapArm`. -/
def arm (s : FileState) (extents : Option UInt64) : FileState :=
  match s.stream, extents with
  | some sc, some coveredLen =>
    if sc.hasMap || sarMmapPathExcluded k.path then s
    else
      { s with
        stream := some { sc with hasMap := true }, coveredLen := coveredLen, mapFresh := true }
  | _, _ => s

end FileState

/-! ### The callbacks -/

def FileSetting.caller : Caller := ⟨k.process, .userMode, true, true⟩

def FileSetting.pager : Caller := ⟨k.process, .kernelMode, true, false⟩

variable {k}

/-- Nothing fails; a link that is already there is answered with `SAR_STAGE_DROPPED`. -/
def DriverAt.replies (g : DriverAt k) (s : FileState) : CaptureReplies where
  inPlaceRegion := .stored
  submitDelete := if s.collides k then .dropped else .stored
  submitSupersede := .stored
  submitRenameTarget := if s.collides k then .dropped else .stored
  phantomCreate := g.phantomCreate

def DriverAt.acquire (g : DriverAt k) (s : FileState) (readWrite : Bool) :
    Outcome × Option StreamContext :=
  sarPreAcquireForSection g.globals
    ⟨sarGetStreamContext true s.stream, 0, some s.size, !k.compressed⟩ true
    ⟨k.caller, true, readWrite, true⟩

namespace FileAct

def outcome (act : FileAct) (g : DriverAt k) (s : FileState) : Outcome :=
  let t := s.target k
  let r := g.replies s
  match act with
  | create disposition directoryFile deleteOnClose _ =>
    sarPreCreate g.globals r ⟨k.caller, disposition, directoryFile, deleteOnClose⟩
  | map readWrite _ => (g.acquire s readWrite).1
  | write nocache offset length =>
    sarPreWrite g.globals t r ⟨k.caller, false, nocache, offset, length, nofun⟩
  | writeBack offset length =>
    sarPreWrite g.globals t r ⟨k.pager, true, true, offset, length, fun _ => rfl⟩
  | setInformation info buffer => sarPreSetInformation g.globals t r ⟨k.caller, info, buffer⟩
  | replace how source => sarPreSetInformation g.globals source r ⟨k.caller, how.info, true⟩
  | fsControl control _ _ _ => sarPreFsControl g.globals t r ⟨k.caller, control⟩
  | close => sarPreCleanup t k.caller
  | read | change _ _ | discard => pass []

def enabled (s : FileState) : FileAct → Bool
  | create _ _ _ _ | replace _ _ => s.present
  | change _ _ => s.writableView && s.alive
  | writeBack _ _ => s.alive
  | discard => decide (s.handles = 0)
  | _ => decide (0 < s.handles)

def captured (act : FileAct) (g : DriverAt k) (s : FileState) : FileState :=
  let calls := (act.outcome g s).calls
  match act with
  | map readWrite extents =>
    let s := { s with stream := (g.acquire s readWrite).2 }
    if .mmapArm ∈ calls then s.arm k extents else s
  | replace _ _ => calls.foldl (FileState.captureTarget k) s
  | _ => calls.foldl (FileState.capture k) s

end FileAct

/-! ### The file system -/

namespace FileState

def wipe (s : FileState) (lo hi : Nat) : FileState :=
  { s with
    disk := fun b => s.disk b && !within lo hi b
    dirty := fun b => s.dirty b && !within lo hi b }

def writeOut (s : FileState) (lo hi : Nat) : FileState :=
  { s with
    disk := fun b => s.disk b && !(s.dirty b && within lo hi b)
    dirty := fun b => s.dirty b && !within lo hi b }

def fits (offset : UInt64) (length : UInt32) : Bool :=
  decide (offset.toNat + length.toNat < 2 ^ 63)

def grow (s : FileState) (last : UInt64) : FileState :=
  { s with size := if s.size < last then last else s.size }

def seen (s : FileState) (stream : Option StreamContext) (writableView : Bool) : FileState :=
  { s with hasRead := true, stream := stream, writableView := writableView }

def opened (s : FileState) (deleteOnClose : Bool) (stream : Option StreamContext) : FileState :=
  { s with
    handles := s.handles + 1, deleteOnClose := s.deleteOnClose || deleteOnClose, stream := stream }

def mark (s : FileState) (deleteFile : Bool) : FileState := { s with disposition := deleteFile }

def remove (s : FileState) : FileState := { s with present := false }

def truncate (s : FileState) (newEof : UInt64) : FileState :=
  { s.wipe newEof.toNat s.size.toNat with size := newEof }

end FileState

variable (k) in
def FileAct.effect (act : FileAct) (G : Globals) (s : FileState) : FileState :=
  match act with
  | create disposition directoryFile deleteOnClose access =>
    let op : CreateRequest := ⟨k.caller, disposition, directoryFile, deleteOnClose⟩
    let stream := fun opened => sarPostCreate G op (some .plain) opened access true s.stream
    if directoryFile then s
    else
      match disposition with
      | .openExisting | .openIf => s.opened deleteOnClose (stream true)
      | .supersede | .overwrite | .overwriteIf =>
        (s.truncate 0).opened deleteOnClose (stream false)
      | .createNew => s
  | read => s.seen (sarPostRead k.caller true s.stream) s.writableView
  | map readWrite _ => s.seen s.stream (s.writableView || readWrite)
  | change lo hi => { s with dirty := fun b => s.dirty b || within lo hi b }
  | write nocache offset length =>
    let last := offset.toNat + length.toNat
    if FileState.fits offset length && decide (length ≠ 0) then
      let s' := s.grow (offset + length.toUInt64)
      if s.sectionDirty k && !nocache then
        { s' with dirty := fun b => s.dirty b || within offset.toNat last b }
      else s'.wipe offset.toNat last
    else s
  | writeBack offset length =>
    if FileState.fits offset length then
      s.writeOut offset.toNat (offset.toNat + length.toNat)
    else s
  | setInformation info buffer =>
    if buffer then
      match info with
      | .endOfFile newEof =>
        if newEof < s.size then s.truncate newEof
        else if newEof.toNat < 2 ^ 63 then { s with size := newEof } else s
      | .allocation newSize => if newSize < s.size then s.truncate newSize else s
      | .disposition deleteFile | .dispositionEx deleteFile => s.mark deleteFile
      | _ => s
    else s
  | replace _ _ => s.remove
  | fsControl control lo hi moves =>
    let s := { s with mapFresh := s.mapFresh && !moves }
    match control with
    | .setZeroData (some (fileOffset, beyondFinalZero)) =>
      s.wipe fileOffset.toNat beyondFinalZero.toNat
    | .duplicateExtents | .offloadWrite | .fileLevelTrim => s.wipe lo hi
    | _ => s
  | close =>
    { s with
      handles := s.handles - 1, present := s.present && !(decide (s.handles = 1) && s.pending) }
  | discard => { s with stream := none }

def FileStep.apply (s : FileState) (st : FileStep k) : FileState :=
  if st.act.enabled s then
    let s' := st.act.captured st.driver s
    match (st.act.outcome st.driver s).status with
    | .complete _ => s'
    | _ => if st.performed then st.act.effect k st.driver.globals s' else s'
  else s

/-! ### What is to be preserved -/

def FileState.condemned (s : FileState) : Bool := s.pending && s.hasRead

/-- The original byte is taken away: it is overwritten, the deletion of the file gets under way, or
    another file takes its name.  Only what the process has read before counts. -/
def Dooms (s s' : FileState) (b : Nat) : Prop :=
  s.disk b = true ∧ ((s.hasRead = true ∧ s'.disk b = false) ∨
      (s.condemned = false ∧ s'.condemned = true) ∨
      (s.hasRead = true ∧ s.pending = false ∧ s.present = true ∧ s'.present = false))

def FileState.Held (s : FileState) (b : Nat) : Prop :=
  s.copied b = true ∨ (s.linked b = true ∧ s.disk b = true)

def StagedBefore (s : FileState) (st : FileStep k) : Prop :=
  ∀ b, Dooms s (st.apply s) b → (st.apply s).Held b

/-! ### The condition -/

namespace FileState

def Kept (s : FileState) (b : Nat) : Prop := s.copied b = true ∨ s.linked b = true

variable (k) in
/-- A copy of the whole file takes the original byte: the stream is not taken for one that was
    never read, no record stands for the byte, and the cache still has it. -/
def KeptWhole (s : FileState) (b : Nat) : Prop :=
  s.copied b = true ∨ (s.blind k = false ∧ s.claimed b = false ∧ s.dirty b = false)

variable (k) in
def KeptInPlace (s : FileState) (b : Nat) : Prop :=
  s.copied b = true ∨
    (s.stream.isSome = true ∧ s.blind k = false ∧ s.claimed b = false ∧ s.dirty b = false)

def mapped (s : FileState) : Bool :=
  match s.stream with
  | none => false
  | some sc => sc.flags.sectionDirty && sc.hasMap

/-- The capture of a mapped write that ends at `last` takes the original byte: the stream has its
    map, the write ends inside it, the clusters have not moved, and no record stands for the byte.
    -/
def KeptMapped (s : FileState) (last b : Nat) : Prop :=
  s.copied b = true ∨
    (s.mapped = true ∧ last ≤ s.coveredLen.toNat ∧ s.mapFresh = true ∧ s.claimed b = false)

variable (k) in
def KeptLinked (s : FileState) (b : Nat) : Prop :=
  s.Kept b ∨ (s.blind k = false ∧
      if k.linkable then s.hasLink = false ∧ s.partlyClaimed = false
      else s.claimed b = false ∧ s.dirty b = false)

end FileState

def DriverAt.blocked (g : DriverAt k) : Bool :=
  sarCaptureOriginatorBlocked g.globals.blocked k.process

def DriverAt.refusesLink (g : DriverAt k) (s : FileState) : Bool :=
  s.collides k && decide (g.globals.mode = .enforce)

def FileAct.Met (act : FileAct) (g : DriverAt k) (s : FileState) : Prop :=
  match act with
  | create disposition directoryFile deleteOnClose _ =>
    directoryFile = false → s.hasRead = true →
      if disposition.replaces then g.blocked = false → ∀ b, s.disk b = true → s.KeptWhole k b
      else
        disposition ≠ .createNew → deleteOnClose = true → s.pending = false →
          ∀ b, s.disk b = true → s.Kept b
  | read | map _ _ =>
    s.hasRead = false → s.pending = true → ∀ b, s.disk b = true → s.Kept b
  | write nocache offset length =>
    s.hasRead = true → g.blocked = false → FileState.fits offset length = true →
      ∀ b, WriteHas offset length b → s.disk b = true →
        if s.sectionDirty k then
          nocache = false ∨ s.KeptMapped (offset.toNat + length.toNat) b
        else s.KeptInPlace k b
  | writeBack offset length =>
    s.hasRead = true → FileState.fits offset length = true →
      ∀ b, WriteHas offset length b → s.disk b = true → s.dirty b = true →
        s.KeptMapped (offset.toNat + length.toNat) b
  | setInformation info buffer =>
    s.hasRead = true → g.blocked = false → buffer = true →
      match info with
      | .endOfFile newEof | .allocation newEof =>
        ∀ b, newEof.toNat ≤ b → s.disk b = true → s.KeptInPlace k b
      | .disposition deleteFile | .dispositionEx deleteFile =>
        deleteFile = true → s.pending = false → g.refusesLink s = false →
          ∀ b, s.disk b = true → s.KeptLinked k b
      | _ => True
  | replace _ source =>
    s.hasRead = true → s.pending = false → g.blocked = false → source.flag (·.ownStore) = false →
        if sarStreamExemptTarget source k.caller then ∀ b, s.disk b = true → s.Kept b
        else g.refusesLink s = false → ∀ b, s.disk b = true → s.KeptLinked k b
  | fsControl control lo hi _ =>
    s.hasRead = true →
      match control with
      | .setZeroData (some (fileOffset, beyondFinalZero)) =>
        ∀ b, fileOffset.toNat ≤ b → b < beyondFinalZero.toNat → s.disk b = true → s.KeptInPlace k b
      | .duplicateExtents | .offloadWrite | .fileLevelTrim =>
        ∀ b, lo ≤ b → b < hi → s.disk b = true → s.copied b = true
      | _ => True
  | change _ _ | close | discard => True

/-- **The condition.** -/
def FileStep.Met (s : FileState) (st : FileStep k) : Prop :=
  st.act.enabled s = true → st.performed = true → st.act.Met st.driver s

end

/-! ### What every step keeps -/

def StreamContext.ordinary (sc : StreamContext) : Bool :=
  !sc.flags.ownStore && !sc.flags.phantomBacking && !sc.flags.osOwned

structure FileState.Ordinary (s : FileState) : Prop where
  stream : s.stream.all StreamContext.ordinary = true
  disk_lt : ∀ b, s.disk b = true → b < s.size.toNat

theorem ordinary_untouched (size : UInt64) : (FileState.untouched size).Ordinary :=
  ⟨rfl, fun _ hb => (within_iff.mp hb).2⟩

def OnlyStore (s s' : FileState) : Prop :=
  ∃ claimed copied linked hasLink,
    s' = { s with claimed := claimed, copied := copied, linked := linked, hasLink := hasLink }

section

variable {k : FileSetting} {s s' s₁ : FileState} {g : DriverAt k} {act : FileAct} {lo hi b : Nat}
  {disposition : CreateDisposition} {info : SetInformation} {offset : UInt64} {length : UInt32}
  {st : FileStep k}

theorem OnlyStore.refl (s : FileState) : OnlyStore s s := ⟨_, _, _, _, rfl⟩

theorem OnlyStore.trans {s'' : FileState} (h : OnlyStore s s') (h' : OnlyStore s' s'') :
    OnlyStore s s'' := by
  obtain ⟨_, _, _, _, rfl⟩ := h
  obtain ⟨_, _, _, _, rfl⟩ := h'
  exact ⟨_, _, _, _, rfl⟩

theorem onlyStore_stage (shows : Nat → Bool) (hi : Nat) :
    OnlyStore s (s.stage shows lo hi) := ⟨_, _, _, _, rfl⟩

theorem OnlyStore.ite {c : Prop} [Decidable c] (h : OnlyStore s s') (h' : OnlyStore s s₁) :
    OnlyStore s (if c then s' else s₁) := by
  split
  · exact h
  · exact h'

theorem onlyStore_linkPreserve : OnlyStore s (s.linkPreserve k) := by
  refine .ite (.refl s) (.ite (.ite (.refl s) ⟨_, _, _, _, rfl⟩) ?_)
  exact onlyStore_stage ..

theorem onlyStore_capture (s : FileState) (call : CaptureCall) :
    OnlyStore s (s.capture k call) := by
  cases call with
  | inPlaceRegion offset length => exact .ite (onlyStore_stage ..) (.refl s)
  | submitDelete => exact onlyStore_linkPreserve
  | submitSupersede => exact .ite (.refl s) (onlyStore_stage ..)
  | mappedWrite offset length => exact .ite (.refl s) (onlyStore_stage ..)
  | _ => exact .refl s

theorem onlyStore_captureTarget (s : FileState) (call : CaptureCall) :
    OnlyStore s (s.captureTarget k call) := by
  unfold FileState.captureTarget
  split
  · exact onlyStore_linkPreserve
  · exact .refl s

theorem onlyStore_foldl {f : FileState → CaptureCall → FileState}
    (hf : ∀ s call, OnlyStore s (f s call)) (calls : List CaptureCall) (s : FileState) :
    OnlyStore s (calls.foldl f s) := by
  induction calls generalizing s with
  | nil => exact .refl s
  | cons call calls ih => exact (hf s call).trans (ih (f s call))

theorem OnlyStore.sectionDirty (h : OnlyStore s s') : s'.sectionDirty k = s.sectionDirty k := by
  obtain ⟨_, _, _, _, rfl⟩ := h
  rfl

theorem OnlyStore.dirty (h : OnlyStore s s') : s'.dirty = s.dirty := by
  obtain ⟨_, _, _, _, rfl⟩ := h
  rfl

theorem OnlyStore.size (h : OnlyStore s s') : s'.size = s.size := by
  obtain ⟨_, _, _, _, rfl⟩ := h
  rfl

theorem OnlyStore.ordinary (h : OnlyStore s s') (hs : s.Ordinary) : s'.Ordinary := by
  obtain ⟨_, _, _, _, rfl⟩ := h
  exact ⟨hs.stream, hs.disk_lt⟩

theorem ordinary_getStreamContext (pool : Bool) (h : stream.all StreamContext.ordinary = true) :
    (sarGetStreamContext pool stream).all StreamContext.ordinary = true := by
  cases stream with
  | some sc => exact h
  | none => cases pool <;> rfl

theorem ordinary_postCreate (G : Globals) (op : CreateRequest) (opened access : Bool)
    (h : stream.all StreamContext.ordinary = true) :
    (sarPostCreate G op (some .plain) opened access true stream).all StreamContext.ordinary =
      true := by
  have hget := ordinary_getStreamContext true h
  unfold sarPostCreate
  split
  · exact h
  dsimp only
  split
  · rw [Option.all_map]
    exact hget
  · exact h

theorem ordinary_postRead (c : Caller) (h : stream.all StreamContext.ordinary = true) :
    (sarPostRead c true stream).all StreamContext.ordinary = true := by
  have hget := ordinary_getStreamContext true h
  unfold sarPostRead
  split
  · exact h
  · rw [Option.all_map]
    exact hget

theorem ordinary_acquire (hs : s.Ordinary) (readWrite : Bool) :
    (g.acquire s readWrite).2.all StreamContext.ordinary = true := by
  have hget := ordinary_getStreamContext true hs.stream
  unfold DriverAt.acquire sarPreAcquireForSection
  rw [if_neg Bool.noConfusion]
  cases hsc : sarGetStreamContext true s.stream with
  | none => rfl
  | some sc =>
    rw [hsc] at hget
    dsimp only
    repeat' split
    all_goals exact hget

theorem FileState.Ordinary.ite {c : Prop} [Decidable c] (h : c → s.Ordinary)
    (h' : ¬ c → s'.Ordinary) : (if c then s else s').Ordinary := by
  split
  · exact h ‹_›
  · exact h' ‹_›

theorem FileState.Ordinary.arm (hs : s.Ordinary) (extents : Option UInt64) :
    (s.arm k extents).Ordinary := by
  unfold FileState.arm
  split
  next sc coveredLen hsc =>
    split
    · exact hs
    · have hsc' := hs.stream
      rw [hsc] at hsc'
      exact ⟨hsc', hs.disk_lt⟩
  · exact hs

theorem FileState.Ordinary.captured (hs : s.Ordinary) (act : FileAct) :
    (act.captured g s).Ordinary := by
  have hcalls : ∀ calls : List CaptureCall, (calls.foldl (FileState.capture k) s).Ordinary :=
    fun calls => (onlyStore_foldl onlyStore_capture calls s).ordinary hs
  cases act with
  | map readWrite extents =>
    have hnew : ({ s with stream := (g.acquire s readWrite).2 } : FileState).Ordinary :=
      ⟨ordinary_acquire hs readWrite, hs.disk_lt⟩
    exact .ite (fun _ => hnew.arm extents) fun _ => hnew
  | replace how source =>
    exact (onlyStore_foldl onlyStore_captureTarget _ s).ordinary hs
  | _ => exact hcalls _

theorem FileState.Ordinary.wipe (hs : s.Ordinary) (hi : Nat) : (s.wipe lo hi).Ordinary :=
  ⟨hs.stream, fun b hb => hs.disk_lt b (Bool.and_eq_true_iff.mp hb).1⟩

theorem FileState.Ordinary.grow (hs : s.Ordinary) (last : UInt64) : (s.grow last).Ordinary := by
  refine ⟨hs.stream, fun b hb => ?_⟩
  have hlt := hs.disk_lt b hb
  unfold FileState.grow
  split
  next hless =>
    exact hlt.trans (lt_iff_toNat_lt.mp hless)
  · exact hlt

theorem FileState.Ordinary.truncate (hs : s.Ordinary) : (s.truncate newEof).Ordinary := by
  refine ⟨hs.stream, fun b hb => ?_⟩
  obtain ⟨hdisk, hout⟩ := Bool.and_eq_true_iff.mp hb
  have hlt := hs.disk_lt b hdisk
  have hout : ¬ (newEof.toNat ≤ b ∧ b < s.size.toNat) := by
    intro h
    rw [within_iff.mpr h] at hout
    cases hout
  exact not_le.mp fun hle => hout ⟨hle, hlt⟩

theorem FileState.Ordinary.effect (hs : s.Ordinary) (G : Globals) :
    (act.effect k G s).Ordinary := by
  cases act with
  | create disposition directoryFile deleteOnClose access =>
    have hstream := fun opened => ordinary_postCreate G
      ⟨k.caller, disposition, directoryFile, deleteOnClose⟩ opened access hs.stream
    refine .ite (fun _ => hs) fun _ => ?_
    cases disposition with
    | openExisting | openIf => exact ⟨hstream true, hs.disk_lt⟩
    | createNew => exact hs
    | _ => exact ⟨hstream false, hs.truncate.disk_lt⟩
  | read => exact ⟨ordinary_postRead k.caller hs.stream, hs.disk_lt⟩
  | map readWrite extents => exact ⟨hs.stream, hs.disk_lt⟩
  | change lo hi => exact ⟨hs.stream, hs.disk_lt⟩
  | write nocache offset length =>
    have hgrown := hs.grow (offset + length.toUInt64)
    refine .ite (fun _ => .ite (fun _ => ?_) fun _ => hgrown.wipe _) fun _ => hs
    exact ⟨hgrown.stream, hgrown.disk_lt⟩
  | writeBack offset length =>
    exact .ite (fun _ => ⟨hs.stream, fun b hb => hs.disk_lt b (Bool.and_eq_true_iff.mp hb).1⟩)
      fun _ => hs
  | setInformation info buffer =>
    refine .ite (fun _ => ?_) fun _ => hs
    cases info with
    | endOfFile newEof =>
      refine .ite (fun _ => hs.truncate) fun hge => .ite (fun _ => ⟨hs.stream, fun b hb => ?_⟩)
        fun _ => hs
      exact (hs.disk_lt b hb).trans_le (not_lt.mp fun hlt => hge (lt_iff_toNat_lt.mpr hlt))
    | allocation newSize => exact .ite (fun _ => hs.truncate) fun _ => hs
    | _ => exact ⟨hs.stream, hs.disk_lt⟩
  | replace how source => exact ⟨hs.stream, hs.disk_lt⟩
  | fsControl control lo hi moves =>
    have hmoved : ({ s with mapFresh := s.mapFresh && !moves } : FileState).Ordinary :=
      ⟨hs.stream, hs.disk_lt⟩
    cases control with
    | setZeroData range =>
      cases range with
      | none => exact hmoved
      | some range => exact hmoved.wipe _
    | duplicateExtents | offloadWrite | fileLevelTrim => exact hmoved.wipe _
    | _ => exact hmoved
  | close => exact ⟨hs.stream, hs.disk_lt⟩
  | discard => exact ⟨rfl, hs.disk_lt⟩

theorem FileState.Ordinary.step (hs : s.Ordinary) : (st.apply s).Ordinary := by
  have hcap := hs.captured (g := st.driver) st.act
  refine .ite (fun _ => ?_) fun _ => hs
  dsimp only
  split
  · exact hcap
  · exact .ite (fun _ => hcap.effect _) fun _ => hcap

/-! ### What the callbacks do for an ordinary file -/

theorem DriverAt.identityExempt_eq {c : Caller} (hc : c.process = k.process) :
    identityExempt g.globals c = false := by
  rw [identityExempt, hc]
  exact decide_eq_false g.notExempt

theorem FileState.Ordinary.flags (hs : s.Ordinary) :
    (s.target k).flag (·.ownStore) = false ∧ (s.target k).flag (·.phantomBacking) = false ∧
      (s.target k).flag (·.osOwned) = false := by
  have hstream := hs.stream
  unfold FileState.target Target.flag
  cases hsc : s.stream with
  | none => exact ⟨rfl, rfl, rfl⟩
  | some sc =>
    rw [hsc] at hstream
    simpa [StreamContext.ordinary, and_assoc] using hstream

theorem FileState.Ordinary.notProtected (hs : s.Ordinary) (c : Caller) :
    sarTargetIsProtectedStore (s.target k) c = false := by
  rw [sarTargetIsProtectedStore, hs.flags.1, Bool.and_false]

theorem FileState.Ordinary.notExempt (hs : s.Ordinary) {c : Caller}
    (hc : c.process = k.process) : sarOperationExempt g.globals (s.target k) c = false := by
  have howned := (hs.flags (k := k)).2.2
  unfold sarOperationExempt sarStreamExemptTarget
  rw [g.identityExempt_eq hc, Bool.false_or]
  unfold Target.flag at howned
  cases hsc : (s.target k).stream with
  | none => rfl
  | some sc =>
    rw [hsc] at howned
    dsimp only at howned ⊢
    rw [howned]
    cases sc.flags.osownChecked <;> simp [FileState.target]

theorem FileState.Ordinary.mappedCapture_eq (hs : s.Ordinary) (op : WriteRequest) :
    mappedCapture g.globals (s.target k) op = (decide (op.length ≠ 0) && s.mapped) := by
  unfold mappedCapture
  rw [g.ready, g.loaded, hs.flags.1, hs.flags.2.1]
  unfold FileState.mapped FileState.target Target.flag
  cases s.stream with
  | none => simp
  | some sc => simp [Bool.and_assoc]

@[simp] theorem foldl_submitWrite (t : Target) (member : DestructMember) :
    (sarSubmitWrite t member offset length).foldl (FileState.capture k) s = s := by
  unfold sarSubmitWrite
  split <;> rfl

theorem enforceInPlace_eq (length : UInt64) :
    sarEnforceInPlaceCapture g.globals (g.replies s) k.caller offset length calls =
      pass (.inPlaceRegion offset length :: calls) :=
  if_neg Bool.false_ne_true

theorem originatorBlocked_eq :
    sarCaptureOriginatorBlocked g.globals.blocked k.caller.process = g.blocked := rfl

theorem confidentBlind_eq : sarStreamConfidentBlind (s.target k) = s.blind k := rfl

theorem caller_passive : k.caller.passive = true := rfl

theorem caller_requestor : k.caller.requestor = .userMode := rfl

theorem write_outcome (hs : s.Ordinary) : (FileAct.write nocache offset length).outcome g s =
      let submit := sarSubmitWrite (s.target k)
        (if nocache then .writeNoncached else .writeCached) offset length
      if g.blocked then deny .accessDenied []
      else if length = 0 then pass submit
      else if s.sectionDirty k then
        if nocache && s.mapped then pass (.mappedWrite offset length :: submit) else pass submit
      else if s.blind k then pass submit
      else pass (.inPlaceRegion offset length.toUInt64 :: submit) := by
  have hmember : sarClassifyWrite ⟨k.caller, false, nocache, offset, length, nofun⟩ =
      if nocache then .writeNoncached else .writeCached := rfl
  have hdirty : sarStreamSectionDirty (s.target k) = s.sectionDirty k := rfl
  have htop : k.caller.noTopLevel = true := rfl
  unfold FileAct.outcome sarPreWrite
  dsimp only
  rw [hs.flags.2.1, hs.notProtected, hs.notExempt rfl, hs.mappedCapture_eq, hmember, hdirty,
    confidentBlind_eq, originatorBlocked_eq, enforceInPlace_eq, caller_passive, htop,
    caller_requestor]
  cases nocache <;> by_cases hlen : length = 0 <;> simp [hlen]

theorem writeBack_outcome (hs : s.Ordinary) : (FileAct.writeBack offset length).outcome g s =
      if decide (length ≠ 0) && s.mapped then pass [.mappedWrite offset length]
      else pass (sarSubmitWrite (s.target k) .writePaging offset length) := by
  have hmember : sarClassifyWrite ⟨k.pager, true, true, offset, length, fun _ => rfl⟩ =
      .writePaging := rfl
  have hkernel : k.pager.requestor = .kernelMode := rfl
  unfold FileAct.outcome sarPreWrite
  dsimp only
  rw [hs.flags.2.1, hs.notProtected, hs.notExempt rfl, hs.mappedCapture_eq, hmember, hkernel]
  simp

theorem setInformation_outcome (hs : s.Ordinary) (info : SetInformation) (buffer : Bool) :
    (FileAct.setInformation info buffer).outcome g s =
      let metadata : List CaptureCall := [.submitMetadata (sarClassifySetInformation info)]
      if info = .other then pass []
      else if g.blocked then deny .accessDenied []
      else
        match info with
        | .rename _ | .renameEx _ =>
          preRename g.globals (g.replies s) k.caller (.submitRenameRekey :: metadata)
        | .link _ | .linkEx _ => preRename g.globals (g.replies s) k.caller metadata
        | .disposition deleteFile | .dispositionEx deleteFile =>
          preDisposition g.globals (g.replies s) k.caller buffer deleteFile metadata
        | .endOfFile newEof | .allocation newEof =>
          preTruncate g.globals (s.target k) (g.replies s) k.caller buffer newEof metadata
        | .other => pass metadata := by
  unfold FileAct.outcome sarPreSetInformation
  dsimp only
  rw [hs.notProtected, hs.notExempt rfl, originatorBlocked_eq]
  cases info <;> simp [sarClassifySetInformation, FileSetting.caller]

theorem preTruncate_eq (buffer : Bool) (newEof : UInt64) (calls : List CaptureCall) :
    preTruncate g.globals (s.target k) (g.replies s) k.caller buffer newEof calls =
      if buffer && !s.blind k && decide (newEof < s.size) then
        pass (.inPlaceRegion newEof (s.size - newEof) :: calls)
      else pass calls := by
  have hsize : (s.target k).endOfFile = some s.size := rfl
  unfold preTruncate
  rw [caller_passive, hsize, confidentBlind_eq]
  dsimp only
  rw [enforceInPlace_eq]
  by_cases hlt : newEof < s.size <;> simp [hlt]

theorem refuses_link : refuses g.globals (g.replies s).submitDelete = g.refusesLink s := by
  unfold refuses DriverAt.replies DriverAt.refusesLink
  cases s.collides k <;> rfl

theorem preDisposition_eq :
    preDisposition g.globals (g.replies s) k.caller buffer deleteFile calls =
      if buffer && deleteFile then
        if g.refusesLink s then deny .insufficientResources [.submitDelete]
        else pass (.submitDelete :: calls)
      else pass calls := by
  unfold preDisposition
  rw [caller_passive, refuses_link, Bool.true_and]

theorem preRename_eq : preRename g.globals (g.replies s) k.caller calls =
      if g.refusesLink s then deny .insufficientResources [.submitRenameTarget]
      else pass (.submitRenameTarget :: calls) := by
  have hrefuses : refuses g.globals (g.replies s).submitRenameTarget = g.refusesLink s :=
    refuses_link
  have hpassive : ¬ k.caller.passive = false := Bool.noConfusion
  unfold preRename
  rw [if_neg hpassive, hrefuses]

theorem replace_outcome (how : Replacing) (source : Target) :
    ∃ calls, (∀ s : FileState, calls.foldl (FileState.captureTarget k) s = s) ∧
      (FileAct.replace how source).outcome g s =
        if g.blocked || source.flag (·.ownStore) then deny .accessDenied []
        else if sarStreamExemptTarget source k.caller then pass []
        else if g.refusesLink s then deny .insufficientResources [.submitRenameTarget]
        else pass (.submitRenameTarget :: calls) := by
  have hprotected : sarTargetIsProtectedStore source k.caller = source.flag (·.ownStore) := by
    rw [sarTargetIsProtectedStore]
    exact Bool.true_and _
  have hexempt : sarOperationExempt g.globals source k.caller =
      sarStreamExemptTarget source k.caller := by
    rw [sarOperationExempt, g.identityExempt_eq rfl, Bool.false_or]
  let metadata : CaptureCall := .submitMetadata (sarClassifySetInformation how.info)
  refine ⟨match how with | .rename | .renameEx => [.submitRenameRekey, metadata] | _ => [metadata],
    by cases how <;> exact fun _ => rfl, ?_⟩
  unfold FileAct.outcome sarPreSetInformation
  cases how <;>
    simp only [metadata, Replacing.info, sarClassifySetInformation, originatorBlocked_eq,
      hprotected, hexempt, preRename_eq, caller_passive] <;>
    cases g.blocked <;> cases source.flag (·.ownStore) <;> simp

theorem create_outcome_replaces (deleteOnClose access : Bool) (h : disposition.replaces = true) :
    (FileAct.create disposition false deleteOnClose access).outcome g s =
      if g.blocked then deny .accessDenied [.submitSupersede]
      else ⟨g.phantomCreate, [.submitSupersede]⟩ := by
  have hrefuses : refuses g.globals (g.replies s).submitSupersede = false := rfl
  unfold FileAct.outcome sarPreCreate sarPhantomPreCreate
  dsimp only
  rw [g.identityExempt_eq rfl, hrefuses, originatorBlocked_eq, caller_passive, caller_requestor, h]
  simp [DriverAt.replies]

theorem create_outcome_opens (deleteOnClose access : Bool) (h : disposition.replaces = false) :
    (FileAct.create disposition false deleteOnClose access).outcome g s =
      ⟨g.phantomCreate, []⟩ := by
  unfold FileAct.outcome sarPreCreate sarPhantomPreCreate
  dsimp only
  rw [h]
  simp [DriverAt.replies]

theorem acquire_status : (g.acquire s readWrite).1.status = .successNoCallback := by
  unfold DriverAt.acquire sarPreAcquireForSection
  dsimp only
  rw [if_neg Bool.noConfusion]
  cases sarGetStreamContext true s.stream with
  | none => rfl
  | some sc =>
    repeat' split
    all_goals first | rfl | simp_all

theorem zeroData_outcome (hs : s.Ordinary) (hi : Nat) :
    (FileAct.fsControl (.setZeroData (some (fileOffset, beyondFinalZero))) lo hi moves).outcome
        g s =
      if !s.blind k && decide (fileOffset < beyondFinalZero) then
        pass [.inPlaceRegion fileOffset (beyondFinalZero - fileOffset),
          .submitMetadata .setZeroData]
      else pass [.submitMetadata .setZeroData] := by
  have hmember : sarClassifyFsControl (.setZeroData (some (fileOffset, beyondFinalZero))) =
      .setZeroData := rfl
  have hkeyless : sarFsControlIsKeyless .setZeroData = true := rfl
  unfold FileAct.outcome sarPreFsControl
  dsimp only
  rw [hs.notProtected, hs.notExempt rfl, caller_passive, confidentBlind_eq, enforceInPlace_eq,
    hmember, hkeyless, if_neg FsControl.noConfusion, if_neg fun h => FsControl.noConfusion h.1,
    if_neg DestructMember.noConfusion, if_neg Bool.false_ne_true, if_neg Bool.false_ne_true,
    if_pos rfl, Bool.true_and]

theorem overwriteControl_outcome (hs : s.Ordinary) (lo hi : Nat) (moves : Bool)
    (h : control = .duplicateExtents ∨ control = .offloadWrite ∨ control = .fileLevelTrim) :
    ∃ calls, (∀ s : FileState, calls.foldl (FileState.capture k) s = s) ∧
      (FileAct.fsControl control lo hi moves).outcome g s = pass calls := by
  unfold FileAct.outcome sarPreFsControl
  dsimp only
  rw [hs.notProtected, hs.notExempt rfl]
  rcases h with rfl | rfl | rfl
  · exact ⟨_, fun _ => foldl_submitWrite .., rfl⟩
  · exact ⟨_, fun _ => foldl_submitWrite .., rfl⟩
  · exact ⟨[.submitMetadata .fileLevelTrim], fun _ => rfl, rfl⟩

/-! ### One step -/

def Outcome.GoesOn (o : Outcome) : Prop := ∀ status, o.status ≠ .complete status

theorem goesOn_pass (calls : List CaptureCall) : (pass calls).GoesOn := fun _ =>
  PreopStatus.noConfusion

theorem Outcome.GoesOn.ite {c : Prop} [Decidable c] {o o' : Outcome} (h : o.GoesOn)
    (h' : o'.GoesOn) : (if c then o else o').GoesOn := by
  split
  · exact h
  · exact h'

structure SameFile (s s' : FileState) : Prop where
  disk : s'.disk = s.disk
  hasRead : s'.hasRead = s.hasRead
  pending : s'.pending = s.pending
  present : s'.present = s.present

theorem SameFile.refl (s : FileState) : SameFile s s := ⟨rfl, rfl, rfl, rfl⟩

theorem SameFile.of_eq (h : s' = s) : SameFile s s' := h ▸ .refl s'

theorem SameFile.trans (h : SameFile s s₁) (h' : SameFile s₁ s') : SameFile s s' :=
  ⟨h'.disk.trans h.disk, h'.hasRead.trans h.hasRead, h'.pending.trans h.pending,
    h'.present.trans h.present⟩

theorem OnlyStore.sameFile (h : OnlyStore s s') : SameFile s s' := by
  obtain ⟨_, _, _, _, rfl⟩ := h
  exact ⟨rfl, rfl, rfl, rfl⟩

theorem SameFile.condemned (h : SameFile s s') : s'.condemned = s.condemned := by
  rw [FileState.condemned, FileState.condemned, h.pending, h.hasRead]

structure Spares (s s' : FileState) : Prop where
  disk : s'.disk = s.disk
  condemned : s'.condemned = true → s.condemned = true
  present : s.pending = false → s'.present = s.present

theorem SameFile.spares (h : SameFile s s') : Spares s s' :=
  ⟨h.disk, fun hc => h.condemned.symm.trans hc, fun _ => h.present⟩

theorem Spares.staged (h : Spares s s') : ∀ b, Dooms s s' b → s'.Held b := by
  rintro b ⟨hdisk, ⟨-, hgone⟩ | ⟨hbefore, hafter⟩ | ⟨-, hpending, hbefore, hafter⟩⟩
  · rw [h.disk, hdisk] at hgone
    cases hgone
  · cases hbefore.symm.trans (h.condemned hafter)
  · rw [h.present hpending, hbefore] at hafter
    cases hafter

theorem captured_sameFile (act : FileAct) : SameFile s (act.captured g s) := by
  cases act with
  | map readWrite extents =>
    unfold FileAct.captured
    dsimp only
    split
    · unfold FileState.arm
      split
      · split <;> exact ⟨rfl, rfl, rfl, rfl⟩
      · exact ⟨rfl, rfl, rfl, rfl⟩
    · exact ⟨rfl, rfl, rfl, rfl⟩
  | replace how source => exact (onlyStore_foldl onlyStore_captureTarget _ s).sameFile
  | _ => exact (onlyStore_foldl onlyStore_capture _ s).sameFile

theorem sameFile_of_refused {st : FileStep k} {status : CompletionStatus}
    (h : (st.act.outcome st.driver s).status = .complete status) : SameFile s (st.apply s) := by
  unfold FileStep.apply
  split
  · dsimp only
    rw [h]
    exact captured_sameFile _
  · exact .refl s

theorem sameFile_of_idle {st : FileStep k} (h : st.act.enabled s = false ∨ st.performed = false) :
    SameFile s (st.apply s) := by
  unfold FileStep.apply
  rcases h with h | h
  · rw [h]
    exact .refl s
  · split
    · rw [h]
      split <;> exact captured_sameFile _
    · exact .refl s

theorem stagedBefore_of_refused {status : CompletionStatus}
    (h : (act.outcome g s).status = .complete status) : StagedBefore s ⟨act, true, g⟩ :=
  (sameFile_of_refused h).spares.staged

theorem stagedBefore_of_spares (h : ∀ s₁, SameFile s s₁ → Spares s (act.effect k g.globals s₁)) :
    StagedBefore s ⟨act, true, g⟩ := by
  have hcap := captured_sameFile (g := g) (s := s) act
  refine Spares.staged ?_
  unfold FileStep.apply
  split
  · dsimp only
    split
    · exact hcap.spares
    · rw [if_pos rfl]
      exact h _ hcap
  · exact (SameFile.refl s).spares

theorem stagedBefore_of_same
    (h : ∀ s₁, SameFile s₁ (act.effect k g.globals s₁)) : StagedBefore s ⟨act, true, g⟩ :=
  stagedBefore_of_spares fun s₁ hsame => (hsame.trans (h s₁)).spares

theorem stagedBefore_iff_effect (hen : act.enabled s = true)
    (hstatus : (act.outcome g s).GoesOn) :
    StagedBefore s ⟨act, true, g⟩ ↔ ∀ b, Dooms s (act.effect k g.globals (act.captured g s)) b →
        (act.effect k g.globals (act.captured g s)).Held b := by
  have happly : FileStep.apply s ⟨act, true, g⟩ = act.effect k g.globals (act.captured g s) := by
    unfold FileStep.apply
    rw [if_pos hen]
    split
    next status hcomplete =>
      exact absurd hcomplete (hstatus status)
    · exact if_pos rfl
  unfold StagedBefore
  rw [happly]

structure Loses (gone : Nat → Prop) (s s' : FileState) : Prop where
  disk : ∀ b, s.disk b = true → (s'.disk b = false ↔ gone b)
  hasRead : s'.hasRead = s.hasRead
  pending : s'.pending = s.pending
  present : s'.present = s.present
  copied : s'.copied = s.copied

theorem Loses.staged_iff {gone : Nat → Prop} (h : Loses gone s₁ s') (hsame : SameFile s s₁) :
    (∀ b, Dooms s s' b → s'.Held b) ↔
      (s.hasRead = true → ∀ b, gone b → s.disk b = true → s₁.copied b = true) := by
  have hdisk : ∀ b, s.disk b = true → (s'.disk b = false ↔ gone b) :=
    fun b hb => h.disk b (by rw [hsame.disk]; exact hb)
  rw [← h.copied]
  constructor
  · intro hall hr b hgone hb
    have hout := (hdisk b hb).mpr hgone
    rcases hall b ⟨hb, .inl ⟨hr, hout⟩⟩ with hcopied | ⟨-, hin⟩
    · exact hcopied
    · cases hout.symm.trans hin
  · rintro hall b ⟨hb, ⟨hr, hout⟩ | ⟨hbefore, hafter⟩ | ⟨-, -, hbefore, hafter⟩⟩
    · exact .inl (hall hr b ((hdisk b hb).mp hout) hb)
    · unfold FileState.condemned at hbefore hafter
      rw [h.pending, h.hasRead, hsame.pending, hsame.hasRead, hbefore] at hafter
      cases hafter
    · rw [h.present, hsame.present, hbefore] at hafter
      cases hafter

/-- **The rule for an overwrite.**  A request that destroys exactly the bytes in `gone` is staged
    for exactly if its capture puts those that are on the disk into the store. -/
theorem stagedBefore_iff_loses (gone : Nat → Prop) {kept : Nat → Prop} (hen : act.enabled s = true)
    (hstatus : (act.outcome g s).GoesOn)
    (hloses : Loses gone (act.captured g s) (act.effect k g.globals (act.captured g s)))
    (hcopied : ∀ b, gone b → s.disk b = true → ((act.captured g s).copied b = true ↔ kept b)) :
    StagedBefore s ⟨act, true, g⟩ ↔
      (s.hasRead = true → ∀ b, gone b → s.disk b = true → kept b) := by
  rw [stagedBefore_iff_effect hen hstatus]
  refine (hloses.staged_iff (captured_sameFile act)).trans (forall_congr' fun _ => ?_)
  exact forall_congr' fun b => forall_congr' fun hgone => forall_congr' fun hb => hcopied b hgone hb

theorem loses_wipe (s : FileState) (lo hi : Nat) :
    Loses (fun b => lo ≤ b ∧ b < hi) s (s.wipe lo hi) := by
  refine ⟨fun b hb => ?_, rfl, rfl, rfl, rfl⟩
  simp [FileState.wipe, hb]

theorem loses_writeOut (hi : Nat) :
    Loses (fun b => s.dirty b = true ∧ lo ≤ b ∧ b < hi) s (s.writeOut lo hi) := by
  refine ⟨fun b hb => ?_, rfl, rfl, rfl, rfl⟩
  simp [FileState.writeOut, hb]

theorem staged_iff_of_emptied (hread : s'.hasRead = s.hasRead)
    (hdisk : ∀ b, s.disk b = true → s'.disk b = false) :
    (∀ b, Dooms s s' b → s'.Held b) ↔
      (s.hasRead = true → ∀ b, s.disk b = true → s'.copied b = true) := by
  constructor
  · intro h hr b hb
    rcases h b ⟨hb, .inl ⟨hr, hdisk b hb⟩⟩ with hcopied | ⟨-, hin⟩
    · exact hcopied
    · cases (hdisk b hb).symm.trans hin
  · rintro h b ⟨hb, hcause⟩
    have hr : s.hasRead = true := by
      rcases hcause with ⟨hr, -⟩ | ⟨-, hafter⟩ | ⟨hr, -⟩
      · exact hr
      · rw [← hread]
        exact (Bool.and_eq_true_iff.mp hafter).2
      · exact hr
    exact .inl (h hr b hb)

/-- Between the states nothing is overwritten, but for the cause given the file is condemned or
    loses its name. -/
structure Condemns (cause : Prop) (s s' : FileState) : Prop where
  disk : s'.disk = s.disk
  cause_iff : (s.condemned = false ∧ s'.condemned = true) ∨
    (s.hasRead = true ∧ s.pending = false ∧ s.present = true ∧ s'.present = false) ↔ cause

theorem Condemns.staged_iff {cause : Prop} (h : Condemns cause s s') :
    (∀ b, Dooms s s' b → s'.Held b) ↔
      (cause → ∀ b, s.disk b = true → s'.copied b = true ∨ s'.linked b = true) := by
  constructor
  · intro hall hc b hb
    rcases hall b ⟨hb, .inr (h.cause_iff.mpr hc)⟩ with hcopied | ⟨hlinked, -⟩
    · exact .inl hcopied
    · exact .inr hlinked
  · rintro hall b ⟨hb, ⟨-, hout⟩ | hc⟩
    · rw [h.disk, hb] at hout
      cases hout
    · rcases hall (h.cause_iff.mp hc) b hb with hcopied | hlinked
      · exact .inl hcopied
      · exact .inr ⟨hlinked, by rw [h.disk]; exact hb⟩

theorem condemns_mark (hsame : SameFile s s₁) :
    Condemns (s.hasRead = true ∧ s.pending = false) s (s₁.mark true) := by
  refine ⟨hsame.disk, ?_⟩
  have hpresent : (s₁.mark true).present = s.present := hsame.present
  have hcondemned : (s₁.mark true).condemned = s.hasRead := hsame.hasRead
  rw [hpresent, hcondemned, FileState.condemned]
  cases s.hasRead <;> cases s.pending <;> cases s.present <;> simp

theorem condemns_remove (hsame : SameFile s s₁) (hpresent : s.present = true) :
    Condemns (s.hasRead = true ∧ s.pending = false) s s₁.remove := by
  refine ⟨hsame.disk, ?_⟩
  have hcondemned : s₁.remove.condemned = s.condemned := hsame.condemned
  have hgone : s₁.remove.present = false := rfl
  rw [hcondemned, hgone, hpresent]
  cases s.condemned <;> simp

/-! ### What a capture keeps -/

theorem copied_stageView (hb : s.disk b = true) (hlo : lo ≤ b) (hhi : b < hi) :
    (s.stageView lo hi).copied b = true ↔
      s.copied b = true ∨ (s.claimed b = false ∧ s.dirty b = false) := by
  have hin : within lo hi b = true := within_iff.mpr ⟨hlo, hhi⟩
  simp [FileState.stageView, FileState.stage, hin, hb]

theorem copied_stageRaw (hb : s.disk b = true) (hlo : lo ≤ b) (hhi : b < hi) :
    (s.stageRaw lo hi).copied b = true ↔
      s.copied b = true ∨ (s.claimed b = false ∧ s.mapFresh = true) := by
  have hin : within lo hi b = true := within_iff.mpr ⟨hlo, hhi⟩
  simp [FileState.stageRaw, FileState.stage, hin, hb]

theorem copied_submitSupersede (hs : s.Ordinary) (hb : s.disk b = true) :
    (s.capture k .submitSupersede).copied b = true ↔ s.KeptWhole k b := by
  unfold FileState.capture FileState.KeptWhole
  cases hblind : s.blind k with
  | true => simp
  | false =>
    rw [if_neg Bool.false_ne_true, copied_stageView hb (zero_le b) (hs.disk_lt b hb)]
    simp

theorem copied_inPlaceRegion (hs : s.Ordinary) {length : UInt64} (hb : s.disk b = true)
    (hlo : offset.toNat ≤ b) (hhi : b < (offset + length).toNat) :
    (if s.blind k then s else s.capture k (.inPlaceRegion offset length)).copied b = true ↔
      s.KeptInPlace k b := by
  unfold FileState.capture FileState.KeptInPlace
  dsimp only
  cases hblind : s.blind k with
  | true => simp
  | false =>
    rw [if_neg Bool.false_ne_true]
    cases hsome : s.stream.isSome with
    | false => simp
    | true =>
      rw [if_pos rfl, copied_stageView hb hlo (Nat.lt_min.mpr ⟨hhi, hs.disk_lt b hb⟩)]
      simp

theorem toNat_writeEnd (h : FileState.fits offset length = true) :
    (offset + length.toUInt64).toNat = offset.toNat + length.toNat := by
  have hfits := of_decide_eq_true h
  rw [UInt64.toNat_add, UInt32.toNat_toUInt64]
  omega

theorem copied_writeRegion (hs : s.Ordinary) (hfits : FileState.fits offset length = true)
    (hb : s.disk b = true) (hhas : WriteHas offset length b) :
    (if s.blind k then s else s.capture k (.inPlaceRegion offset length.toUInt64)).copied b =
      true ↔ s.KeptInPlace k b := by
  apply copied_inPlaceRegion hs hb hhas.1
  rw [toNat_writeEnd hfits]
  exact hhas.2

theorem copied_mappedWrite (hfits : FileState.fits offset length = true) (hb : s.disk b = true)
    (hhas : WriteHas offset length b) :
    (if s.mapped then s.capture k (.mappedWrite offset length) else s).copied b = true ↔
      s.KeptMapped (offset.toNat + length.toNat) b := by
  have hlast := toNat_writeEnd hfits
  unfold FileState.capture FileState.KeptMapped
  dsimp only
  cases hmapped : s.mapped with
  | false => simp
  | true =>
    rw [if_pos rfl]
    by_cases hcovered : s.coveredLen < offset + length.toUInt64
    · have hnot : ¬ offset.toNat + length.toNat ≤ s.coveredLen.toNat := by
        rw [← hlast]
        exact not_le.mpr (lt_iff_toNat_lt.mp hcovered)
      simp [hcovered, hnot]
    · have hin : offset.toNat + length.toNat ≤ s.coveredLen.toNat := by
        rw [← hlast]
        exact not_lt.mp fun hlt => hcovered (lt_iff_toNat_lt.mpr hlt)
      rw [if_neg hcovered, copied_stageRaw hb hhas.1 (by rw [hlast]; exact hhas.2)]
      simp [hin, and_comm]

theorem kept_linkPreserve (hs : s.Ordinary) (hb : s.disk b = true) :
    (s.linkPreserve k).copied b = true ∨ (s.linkPreserve k).linked b = true ↔ s.KeptLinked k b := by
  have hlt := hs.disk_lt b hb
  have hsize : s.size ≠ 0 := by
    rintro hzero
    rw [hzero] at hlt
    exact absurd hlt (not_lt_zero b)
  have hin : within 0 s.size.toNat b = true := within_iff.mpr ⟨zero_le b, hlt⟩
  unfold FileState.linkPreserve FileState.KeptLinked FileState.Kept
  cases hblind : s.blind k with
  | true => simp
  | false =>
    rw [decide_eq_false hsize, Bool.or_false]
    cases hlinkable : k.linkable with
    | true =>
      by_cases hmeets : (s.hasLink || s.partlyClaimed) = true
      · rw [if_neg Bool.false_ne_true, if_pos rfl, if_pos hmeets]
        have hnot : ¬ (s.hasLink = false ∧ s.partlyClaimed = false) := by
          rintro ⟨hl, hp⟩
          rw [hl, hp] at hmeets
          cases hmeets
        simp [hnot]
      · rw [if_neg Bool.false_ne_true, if_pos rfl, if_neg hmeets]
        have hnone : s.hasLink = false ∧ s.partlyClaimed = false := by
          simpa using hmeets
        simp [hin, hnone.1, hnone.2]
    | false =>
      rw [if_neg Bool.false_ne_true, if_neg Bool.false_ne_true, copied_stageView hb (zero_le b) hlt]
      have hlinked : (s.stageView 0 s.size.toNat).linked = s.linked := rfl
      rw [hlinked]
      simpa using Iff.symm or_right_comm

theorem keptAll_linkPreserve (hs : s.Ordinary) :
    (∀ b, s.disk b = true → (s.linkPreserve k).copied b = true ∨
      (s.linkPreserve k).linked b = true) ↔ ∀ b, s.disk b = true → s.KeptLinked k b :=
  forall₂_congr fun _ hb => kept_linkPreserve hs hb

/-! ### The requests one by one -/

/-- The request meets its condition exactly if what it takes away is staged before. -/
def FileAct.Judged (act : FileAct) (g : DriverAt k) (s : FileState) : Prop :=
  act.enabled s = true → (StagedBefore s ⟨act, true, g⟩ ↔ act.Met g s)

theorem write_captured (hs : s.Ordinary) (hblocked : g.blocked = false) (hlen : length ≠ 0) :
    (FileAct.write nocache offset length).captured g s =
      if s.sectionDirty k then
        if nocache then if s.mapped then s.capture k (.mappedWrite offset length) else s else s
      else if s.blind k then s
      else s.capture k (.inPlaceRegion offset length.toUInt64) := by
  unfold FileAct.captured
  dsimp only
  rw [write_outcome hs, hblocked]
  rw [if_neg Bool.false_ne_true, if_neg hlen]
  cases s.sectionDirty k with
  | true => cases nocache <;> cases s.mapped <;> simp [pass]
  | false => cases s.blind k <;> simp [pass]

theorem write_staged_iff (hs : s.Ordinary) {nocache : Bool} :
    (FileAct.write nocache offset length).Judged g s := by
  intro hen
  cases hblocked : g.blocked with
  | true =>
    have hstatus : ((FileAct.write nocache offset length).outcome g s).status =
        .complete .accessDenied := by
      rw [write_outcome hs, hblocked]
      rfl
    refine iff_of_true (stagedBefore_of_refused hstatus) fun _ hfree => ?_
    cases hblocked.symm.trans hfree
  | false =>
    have hstatus : ((FileAct.write nocache offset length).outcome g s).GoesOn := by
      rw [write_outcome hs, hblocked]
      rw [if_neg Bool.false_ne_true]
      exact .ite (goesOn_pass _) (.ite (.ite (goesOn_pass _) (goesOn_pass _))
        (.ite (goesOn_pass _) (goesOn_pass _)))
    by_cases hdo : FileState.fits offset length = true ∧ length ≠ 0
    case neg =>
      refine iff_of_true (stagedBefore_of_same fun _ => .of_eq (if_neg (by simpa using hdo)))
        fun _ _ hfits b hhas => ?_
      have hzero : length = 0 := not_not.mp fun hlen => hdo ⟨hfits, hlen⟩
      rw [hzero] at hhas
      exact absurd (hhas.1.trans_lt hhas.2) (lt_irrefl _)
    obtain ⟨hfits, hlen⟩ := hdo
    have hdirty : ((FileAct.write nocache offset length).captured g s).sectionDirty k =
        s.sectionDirty k := (onlyStore_foldl onlyStore_capture _ s).sectionDirty
    have heffect : (FileAct.write nocache offset length).effect k g.globals
        ((FileAct.write nocache offset length).captured g s) = _ :=
      if_pos (by simp [hfits, hlen])
    cases hcache : s.sectionDirty k && !nocache with
    | true =>
      obtain ⟨hsd, hcached⟩ := Bool.and_eq_true_iff.mp hcache
      have hsame := captured_sameFile (g := g) (s := s) (.write nocache offset length)
      rw [stagedBefore_iff_effect hen hstatus, heffect, hdirty, hcache]
      refine iff_of_true (hsame.trans ⟨rfl, rfl, rfl, rfl⟩).spares.staged fun _ _ _ b _ _ => ?_
      rw [if_pos hsd]
      exact .inl (by simpa using hcached)
    | false =>
      refine (stagedBefore_iff_loses (WriteHas offset length) hen hstatus ?_
        fun b hhas hb => ?_).trans
        ⟨fun h hread _ _ => h hread, fun h hread => h hread hblocked hfits⟩
      · rw [heffect, hdirty, hcache]
        exact ⟨(loses_wipe _ _ _).disk, rfl, rfl, rfl, rfl⟩
      · rw [write_captured hs hblocked hlen]
        cases hsd : s.sectionDirty k with
        | false => exact copied_writeRegion hs hfits hb hhas
        | true =>
          obtain rfl : nocache = true := by simpa [hsd] using hcache
          exact (copied_mappedWrite hfits hb hhas).trans (or_iff_right Bool.noConfusion).symm

theorem writeBack_captured (hs : s.Ordinary) : (FileAct.writeBack offset length).captured g s =
      if decide (length ≠ 0) && s.mapped then s.capture k (.mappedWrite offset length) else s := by
  unfold FileAct.captured
  rw [writeBack_outcome hs]
  split
  · rfl
  · exact foldl_submitWrite _ _

theorem writeBack_staged_iff (hs : s.Ordinary) : (FileAct.writeBack offset length).Judged g s := by
  intro hen
  have hstatus : ((FileAct.writeBack offset length).outcome g s).GoesOn := by
    rw [writeBack_outcome hs]
    exact .ite (goesOn_pass _) (goesOn_pass _)
  have hdirty : ((FileAct.writeBack offset length).captured g s).dirty = s.dirty :=
    (onlyStore_foldl onlyStore_capture _ s).dirty
  cases hfits : FileState.fits offset length with
  | false =>
    refine iff_of_true (stagedBefore_of_same fun _ => .of_eq (if_neg (by rw [hfits]; decide)))
      fun _ hfit => ?_
    cases hfits.symm.trans hfit
  | true =>
    refine (stagedBefore_iff_loses (fun b => s.dirty b = true ∧ WriteHas offset length b) hen
      hstatus ?_ fun b hgone hb => ?_).trans
      ⟨fun h hread _ b hhas hb hd => h hread b ⟨hd, hhas⟩ hb,
        fun h hread b hgone hb => h hread hfits b hgone.2 hb hgone.1⟩
    · have heffect : (FileAct.writeBack offset length).effect k g.globals
          ((FileAct.writeBack offset length).captured g s) = _ := if_pos hfits
      rw [heffect, ← hdirty]
      exact loses_writeOut _
    · have hlen : length ≠ 0 := by
        rintro rfl
        exact absurd (hgone.2.1.trans_lt hgone.2.2) (lt_irrefl _)
      rw [writeBack_captured hs, decide_eq_true hlen, Bool.true_and]
      exact copied_mappedWrite hfits hb hgone.2

theorem setInformation_blocked (hs : s.Ordinary) (buffer : Bool) (hinfo : info ≠ .other)
    (hblocked : g.blocked = true) :
    ((FileAct.setInformation info buffer).outcome g s).status = .complete .accessDenied := by
  rw [setInformation_outcome hs, hblocked]
  rw [if_neg hinfo]
  rfl

/-- The rule for a request that overwrites a region and captures it in place. -/
theorem region_staged_iff (hs : s.Ordinary) (hen : act.enabled s = true) {first last : UInt64}
    {member : DestructMember}
    (hout : act.outcome g s = if !s.blind k && decide (first < last) then
        pass [.inPlaceRegion first (last - first), .submitMetadata member]
      else pass [.submitMetadata member])
    (hcap : act.captured g s = (act.outcome g s).calls.foldl (FileState.capture k) s)
    (hloses : Loses (fun b => first.toNat ≤ b ∧ b < last.toNat) (act.captured g s)
      (act.effect k g.globals (act.captured g s))) :
    StagedBefore s ⟨act, true, g⟩ ↔ (s.hasRead = true → ∀ b, first.toNat ≤ b → b < last.toNat →
      s.disk b = true → s.KeptInPlace k b) := by
  have hstatus : (act.outcome g s).GoesOn := by
    rw [hout]
    exact .ite (goesOn_pass _) (goesOn_pass _)
  refine (stagedBefore_iff_loses _ hen hstatus hloses fun b hgone hb => ?_).trans
    ⟨fun h hread b hlo hhi => h hread b ⟨hlo, hhi⟩,
      fun h hread b hgone => h hread b hgone.1 hgone.2⟩
  have hlt : first < last := lt_iff_toNat_lt.mpr (hgone.1.trans_lt hgone.2)
  have hregion : act.captured g s =
      if s.blind k then s else s.capture k (.inPlaceRegion first (last - first)) := by
    rw [hcap, hout, decide_eq_true hlt]
    cases s.blind k <;> rfl
  rw [hregion]
  refine copied_inPlaceRegion hs hb hgone.1 ?_
  rw [UInt64.add_comm, UInt64.sub_add_cancel]
  exact hgone.2

theorem loses_setEnd {newEof : UInt64} (G : Globals)
    (hinfo : info = .endOfFile newEof ∨ info = .allocation newEof) :
    Loses (fun b => newEof.toNat ≤ b ∧ b < s.size.toNat) s
      ((FileAct.setInformation info true).effect k G s) := by
  unfold FileAct.effect
  by_cases hlt : newEof < s.size
  · rcases hinfo with rfl | rfl <;> dsimp only <;> rw [if_pos rfl, if_pos hlt] <;>
      exact ⟨(loses_wipe _ _ _).disk, rfl, rfl, rfl, rfl⟩
  · have hnone (b : Nat) (hb : s.disk b = true) :
        s.disk b = false ↔ newEof.toNat ≤ b ∧ b < s.size.toNat :=
      iff_of_false (by simp [hb]) fun h => hlt (lt_iff_toNat_lt.mpr (h.1.trans_lt h.2))
    rcases hinfo with rfl | rfl <;> dsimp only <;> rw [if_pos rfl, if_neg hlt]
    · split <;> exact ⟨hnone, rfl, rfl, rfl, rfl⟩
    · exact ⟨hnone, rfl, rfl, rfl, rfl⟩

theorem truncate_staged_iff (hs : s.Ordinary) {newEof : UInt64}
    (hinfo : info = .endOfFile newEof ∨ info = .allocation newEof) :
    (FileAct.setInformation info true).Judged g s := by
  intro hen
  have hmet : (FileAct.setInformation info true).Met g s ↔ (s.hasRead = true → g.blocked = false →
      ∀ b, newEof.toNat ≤ b → s.disk b = true → s.KeptInPlace k b) := by
    rcases hinfo with rfl | rfl <;> exact forall₂_congr fun _ _ => forall_prop_of_true rfl
  rw [hmet]
  have hother : info ≠ .other := by
    rcases hinfo with rfl | rfl <;> exact SetInformation.noConfusion
  cases hblocked : g.blocked with
  | true =>
    refine iff_of_true (stagedBefore_of_refused (setInformation_blocked hs true hother hblocked))
      fun _ hfree => ?_
    cases hfree
  | false =>
    have hout : (FileAct.setInformation info true).outcome g s =
        if !s.blind k && decide (newEof < s.size) then
          pass [.inPlaceRegion newEof (s.size - newEof),
            .submitMetadata (sarClassifySetInformation info)]
        else pass [.submitMetadata (sarClassifySetInformation info)] := by
      rw [setInformation_outcome hs, hblocked]
      rw [if_neg hother, if_neg Bool.false_ne_true]
      rcases hinfo with rfl | rfl <;>
        exact (preTruncate_eq true newEof _).trans (by rw [Bool.true_and])
    have hsize : ((FileAct.setInformation info true).captured g s).size = s.size :=
      (onlyStore_foldl onlyStore_capture _ s).size
    refine (region_staged_iff hs hen hout rfl (hsize ▸ loses_setEnd g.globals hinfo)).trans ?_
    exact ⟨fun h hread _ b hlo hb => h hread b hlo (hs.disk_lt b hb) hb,
      fun h hread b hlo _ => h hread rfl b hlo⟩

theorem disposition_staged_iff (hs : s.Ordinary)
    (hinfo : info = .disposition true ∨ info = .dispositionEx true) :
    (FileAct.setInformation info true).Judged g s := by
  intro hen
  have hmet : (FileAct.setInformation info true).Met g s ↔ (s.hasRead = true → g.blocked = false →
      s.pending = false → g.refusesLink s = false → ∀ b, s.disk b = true → s.KeptLinked k b) := by
    rcases hinfo with rfl | rfl <;> exact forall₂_congr fun _ _ =>
      (forall_prop_of_true rfl).trans (forall_prop_of_true rfl)
  rw [hmet]
  have hother : info ≠ .other := by
    rcases hinfo with rfl | rfl <;> exact SetInformation.noConfusion
  cases hblocked : g.blocked with
  | true =>
    refine iff_of_true (stagedBefore_of_refused (setInformation_blocked hs true hother hblocked))
      fun _ hfree => ?_
    cases hfree
  | false =>
    have hout : (FileAct.setInformation info true).outcome g s =
        if g.refusesLink s then deny .insufficientResources [.submitDelete]
        else pass [.submitDelete, .submitMetadata (sarClassifySetInformation info)] := by
      rw [setInformation_outcome hs, hblocked]
      rw [if_neg hother, if_neg Bool.false_ne_true]
      rcases hinfo with rfl | rfl <;> exact preDisposition_eq
    cases hlink : g.refusesLink s with
    | true =>
      rw [hlink] at hout
      refine iff_of_true (stagedBefore_of_refused (congrArg Outcome.status hout))
        fun _ _ _ hfree => ?_
      cases hfree
    | false =>
      rw [hlink, if_neg Bool.false_ne_true] at hout
      have hcap : (FileAct.setInformation info true).captured g s = s.linkPreserve k := by
        unfold FileAct.captured
        rw [hout]
        rfl
      have heffect : (FileAct.setInformation info true).effect k g.globals
          ((FileAct.setInformation info true).captured g s) = (s.linkPreserve k).mark true := by
        rw [hcap]
        rcases hinfo with rfl | rfl <;> rfl
      rw [stagedBefore_iff_effect hen (hout ▸ goesOn_pass _), heffect,
        (condemns_mark onlyStore_linkPreserve.sameFile).staged_iff]
      exact (forall_congr' fun _ => keptAll_linkPreserve hs).trans
        ⟨fun h hread _ hpending _ => h ⟨hread, hpending⟩,
          fun h hcause => h hcause.1 rfl hcause.2 rfl⟩

theorem spares_unmark (s₁ : FileState) (hsame : SameFile s s₁) : Spares s (s₁.mark false) := by
  refine ⟨hsame.disk, fun hc => ?_, fun _ => hsame.present⟩
  rw [← hsame.condemned]
  simp only [FileState.condemned, FileState.pending, FileState.mark, Bool.false_or,
    Bool.and_eq_true] at hc ⊢
  exact ⟨by rw [hc.1, Bool.or_true], hc.2⟩

theorem setInformation_staged_iff (hs : s.Ordinary) {buffer : Bool} :
    (FileAct.setInformation info buffer).Judged g s := by
  intro hen
  cases buffer with
  | false =>
    refine iff_of_true (stagedBefore_of_same .refl) fun _ _ hbuffer => ?_
    cases hbuffer
  | true =>
    cases info with
    | endOfFile newEof => exact truncate_staged_iff hs (.inl rfl) hen
    | allocation newEof => exact truncate_staged_iff hs (.inr rfl) hen
    | disposition deleteFile =>
      cases deleteFile with
      | true => exact disposition_staged_iff hs (.inl rfl) hen
      | false => exact iff_of_true (stagedBefore_of_spares spares_unmark) fun _ _ _ => nofun
    | dispositionEx deleteFile =>
      cases deleteFile with
      | true => exact disposition_staged_iff hs (.inr rfl) hen
      | false => exact iff_of_true (stagedBefore_of_spares spares_unmark) fun _ _ _ => nofun
    | _ => exact iff_of_true (stagedBefore_of_same .refl) fun _ _ _ => trivial

theorem replace_staged_iff (hs : s.Ordinary) {how : Replacing} {source : Target} :
    (FileAct.replace how source).Judged g s := by
  intro hen
  obtain ⟨calls, hnone, hout⟩ := replace_outcome (g := g) (s := s) how source
  cases hdenied : g.blocked || source.flag (·.ownStore) with
  | true =>
    rw [hdenied, if_pos rfl] at hout
    refine iff_of_true (stagedBefore_of_refused (congrArg Outcome.status hout))
      fun _ _ hfree hother => ?_
    rw [hfree, hother] at hdenied
    cases hdenied
  | false =>
    obtain ⟨hfree, hother⟩ := Bool.or_eq_false_iff.mp hdenied
    rw [hdenied, if_neg Bool.false_ne_true] at hout
    unfold FileAct.Met
    dsimp only
    cases hexempt : sarStreamExemptTarget source k.caller with
    | true =>
      rw [hexempt, if_pos rfl] at hout
      have hcap : (FileAct.replace how source).captured g s = s := by
        unfold FileAct.captured
        rw [hout]
        rfl
      rw [stagedBefore_iff_effect hen (hout ▸ goesOn_pass _), hcap]
      refine (condemns_remove (.refl s) hen).staged_iff.trans ?_
      exact ⟨fun h hread hpending _ _ => h ⟨hread, hpending⟩,
        fun h hcause => h hcause.1 hcause.2 hfree hother⟩
    | false =>
      rw [hexempt, if_neg Bool.false_ne_true] at hout
      cases hlink : g.refusesLink s with
      | true =>
        rw [hlink, if_pos rfl] at hout
        refine iff_of_true (stagedBefore_of_refused (congrArg Outcome.status hout))
          fun _ _ _ _ => ?_
        exact nofun
      | false =>
        rw [hlink, if_neg Bool.false_ne_true] at hout
        have hcap : (FileAct.replace how source).captured g s = s.linkPreserve k := by
          unfold FileAct.captured
          rw [hout]
          exact hnone (s.linkPreserve k)
        rw [stagedBefore_iff_effect hen (hout ▸ goesOn_pass _), hcap]
        refine (condemns_remove onlyStore_linkPreserve.sameFile hen).staged_iff.trans ?_
        exact (forall_congr' fun _ => keptAll_linkPreserve hs).trans
          ⟨fun h hread hpending _ _ _ => h ⟨hread, hpending⟩,
            fun h hcause => h hcause.1 hcause.2 hfree hother rfl⟩

theorem condemns_seen (hsame : SameFile s s₁) :
    Condemns (s.hasRead = false ∧ s.pending = true) s (s₁.seen stream writableView) := by
  refine ⟨hsame.disk, ?_⟩
  have hpresent : (s₁.seen stream writableView).present = s.present := hsame.present
  have hcondemned : (s₁.seen stream writableView).condemned = s.pending := by
    rw [← hsame.pending]
    exact Bool.and_true _
  rw [hpresent, hcondemned, FileState.condemned]
  cases s.hasRead <;> cases s.pending <;> cases s.present <;> simp

theorem read_staged_iff : FileAct.read.Judged g s := by
  intro hen
  rw [stagedBefore_iff_effect hen fun _ => PreopStatus.noConfusion]
  refine (condemns_seen (.refl s)).staged_iff.trans ?_
  exact ⟨fun h hread hpending => h ⟨hread, hpending⟩, fun h hcause => h hcause.1 hcause.2⟩

theorem map_captured_store (readWrite : Bool) (extents : Option UInt64) :
    ((FileAct.map readWrite extents).captured g s).copied = s.copied ∧
      ((FileAct.map readWrite extents).captured g s).linked = s.linked := by
  unfold FileAct.captured
  dsimp only
  split
  · unfold FileState.arm
    split
    · split <;> exact ⟨rfl, rfl⟩
    · exact ⟨rfl, rfl⟩
  · exact ⟨rfl, rfl⟩

theorem map_staged_iff {readWrite : Bool} {extents : Option UInt64} :
    (FileAct.map readWrite extents).Judged g s := by
  intro hen
  have hstatus : ((FileAct.map readWrite extents).outcome g s).GoesOn := by
    intro status
    show (g.acquire s readWrite).1.status ≠ _
    rw [acquire_status]
    exact PreopStatus.noConfusion
  obtain ⟨hcopied, hlinked⟩ := map_captured_store (g := g) (s := s) readWrite extents
  rw [stagedBefore_iff_effect hen hstatus]
  refine (condemns_seen (captured_sameFile _)).staged_iff.trans ?_
  simp only [FileState.seen, hcopied, hlinked]
  exact ⟨fun h hread hpending => h ⟨hread, hpending⟩, fun h hcause => h hcause.1 hcause.2⟩

theorem overwriteControl_staged_iff (hs : s.Ordinary)
    (hcontrol : control = .duplicateExtents ∨ control = .offloadWrite ∨ control = .fileLevelTrim)
    (hen : (FileAct.fsControl control lo hi moves).enabled s = true) :
    StagedBefore s ⟨.fsControl control lo hi moves, true, g⟩ ↔
      (s.hasRead = true → ∀ b, lo ≤ b → b < hi → s.disk b = true → s.copied b = true) := by
  obtain ⟨calls, hnone, hout⟩ := overwriteControl_outcome (g := g) hs lo hi moves hcontrol
  have hcap : (FileAct.fsControl control lo hi moves).captured g s = s := by
    unfold FileAct.captured
    rw [hout]
    exact hnone s
  have hloses : Loses (fun b => lo ≤ b ∧ b < hi) s
      ((FileAct.fsControl control lo hi moves).effect k g.globals s) := by
    rcases hcontrol with rfl | rfl | rfl <;> exact ⟨(loses_wipe _ _ _).disk, rfl, rfl, rfl, rfl⟩
  refine (stagedBefore_iff_loses _ hen (hout ▸ goesOn_pass _) (by rw [hcap]; exact hloses)
    fun b _ _ => by rw [hcap]).trans ?_
  exact ⟨fun h hread b hlo hhi => h hread b ⟨hlo, hhi⟩, fun h hread b hgone =>
    h hread b hgone.1 hgone.2⟩

theorem fsControl_staged_iff (hs : s.Ordinary) :
    (FileAct.fsControl control lo hi moves).Judged g s := by
  intro hen
  cases control with
  | setZeroData range =>
    cases range with
    | none =>
      exact iff_of_true (stagedBefore_of_same fun _ => ⟨rfl, rfl, rfl, rfl⟩) fun _ => trivial
    | some range =>
      exact region_staged_iff hs hen (zeroData_outcome hs hi) rfl
        ⟨(loses_wipe _ _ _).disk, rfl, rfl, rfl, rfl⟩
  | duplicateExtents => exact overwriteControl_staged_iff hs (.inl rfl) hen
  | offloadWrite => exact overwriteControl_staged_iff hs (.inr (.inl rfl)) hen
  | fileLevelTrim => exact overwriteControl_staged_iff hs (.inr (.inr rfl)) hen
  | _ =>
    exact iff_of_true (stagedBefore_of_same fun _ => ⟨rfl, rfl, rfl, rfl⟩) fun _ => trivial

theorem create_replaces_staged_iff (hs : s.Ordinary) (hreplaces : disposition.replaces = true)
    (hen : (FileAct.create disposition false deleteOnClose access).enabled s = true) :
    StagedBefore s ⟨.create disposition false deleteOnClose access, true, g⟩ ↔
      (s.hasRead = true → g.blocked = false → ∀ b, s.disk b = true → s.KeptWhole k b) := by
  have hout := create_outcome_replaces (g := g) (s := s) deleteOnClose access hreplaces
  cases hblocked : g.blocked with
  | true =>
    rw [hblocked] at hout
    refine iff_of_true (stagedBefore_of_refused (congrArg Outcome.status hout)) fun _ hfree => ?_
    cases hfree
  | false =>
    rw [hblocked, if_neg Bool.false_ne_true] at hout
    have hcap : (FileAct.create disposition false deleteOnClose access).captured g s =
        s.capture k .submitSupersede := by
      unfold FileAct.captured
      rw [hout]
      rfl
    have honly := onlyStore_capture (k := k) s .submitSupersede
    have heffect : ∃ stream, (FileAct.create disposition false deleteOnClose access).effect k
        g.globals (s.capture k .submitSupersede) =
        ((s.capture k .submitSupersede).truncate 0).opened deleteOnClose stream := by
      cases disposition with
      | supersede | overwrite | overwriteIf => exact ⟨_, rfl⟩
      | _ => cases hreplaces
    obtain ⟨stream, heffect⟩ := heffect
    have hemptied : ∀ b, s.disk b = true →
        (((s.capture k .submitSupersede).truncate 0).opened deleteOnClose stream).disk b =
          false := by
      intro b hb
      refine ((loses_wipe (s.capture k .submitSupersede) _ _).disk b ?_).mpr ⟨zero_le b, ?_⟩
      · rw [honly.sameFile.disk]
        exact hb
      · rw [honly.size]
        exact hs.disk_lt b hb
    have hread : (((s.capture k .submitSupersede).truncate 0).opened deleteOnClose
        stream).hasRead = s.hasRead := honly.sameFile.hasRead
    rw [stagedBefore_iff_effect hen (hout ▸ g.realFile), hcap, heffect]
    refine (staged_iff_of_emptied hread hemptied).trans ?_
    constructor
    · exact fun h hread _ b hb => (copied_submitSupersede hs hb).mp (h hread b hb)
    · exact fun h hread b hb => (copied_submitSupersede hs hb).mpr (h hread rfl b hb)

theorem condemns_opened : Condemns (s.hasRead = true ∧ deleteOnClose = true ∧ s.pending = false) s
      (s.opened deleteOnClose stream) := by
  refine ⟨rfl, ?_⟩
  have hpresent : (s.opened deleteOnClose stream).present = s.present := rfl
  have hcondemned : (s.opened deleteOnClose stream).condemned =
      ((s.pending || deleteOnClose) && s.hasRead) := by
    simp [FileState.condemned, FileState.pending, FileState.opened, Bool.or_assoc]
  rw [hpresent, hcondemned, FileState.condemned]
  cases s.hasRead <;> cases s.pending <;> cases s.present <;> cases deleteOnClose <;> simp

theorem create_opens_staged_iff (hopens : disposition = .openExisting ∨ disposition = .openIf) :
    (FileAct.create disposition false deleteOnClose access).Judged g s := by
  intro hen
  have hreplaces : disposition.replaces = false := by
    rcases hopens with rfl | rfl <;> rfl
  have hout := create_outcome_opens (g := g) (s := s) deleteOnClose access hreplaces
  have hcap : (FileAct.create disposition false deleteOnClose access).captured g s = s := by
    unfold FileAct.captured
    rw [hout]
    rfl
  have heffect : ∃ stream, (FileAct.create disposition false deleteOnClose access).effect k
      g.globals s = s.opened deleteOnClose stream := by
    rcases hopens with rfl | rfl <;> exact ⟨_, rfl⟩
  obtain ⟨stream, heffect⟩ := heffect
  rw [stagedBefore_iff_effect hen (hout ▸ g.realFile), hcap, heffect]
  refine condemns_opened.staged_iff.trans ?_
  rcases hopens with rfl | rfl <;>
    exact ⟨fun h _ hread _ hdoc hpending => h ⟨hread, hdoc, hpending⟩,
      fun h hcause => h rfl hcause.1 CreateDisposition.noConfusion hcause.2.1 hcause.2.2⟩

theorem create_staged_iff (hs : s.Ordinary) {directoryFile : Bool} :
    (FileAct.create disposition directoryFile deleteOnClose access).Judged g s := by
  intro hen
  cases directoryFile with
  | true =>
    exact iff_of_true (stagedBefore_of_same .refl) nofun
  | false =>
    cases disposition with
    | createNew =>
      exact iff_of_true (stagedBefore_of_same .refl) fun _ _ hnew => absurd rfl hnew
    | openExisting => exact create_opens_staged_iff (.inl rfl) hen
    | openIf => exact create_opens_staged_iff (.inr rfl) hen
    | _ =>
      rw [create_replaces_staged_iff hs rfl hen]
      exact ⟨fun h _ => h, fun h => h rfl⟩

theorem close_staged : StagedBefore s ⟨.close, true, g⟩ := by
  refine stagedBefore_of_spares fun s₁ hsame => ⟨hsame.disk, fun hc => ?_, fun hpending => ?_⟩
  · rw [← hsame.condemned]
    exact hc
  · have hkeeps : s₁.pending = false := hsame.pending.trans hpending
    show (s₁.present && !(_ && s₁.pending)) = _
    rw [hkeeps, Bool.and_false, Bool.not_false, Bool.and_true, hsame.present]

/-- **One step.** -/
theorem stagedBefore_iff_met (hs : s.Ordinary) : StagedBefore s st ↔ st.Met s := by
  obtain ⟨act, performed, g⟩ := st
  cases hen : act.enabled s with
  | false =>
    refine iff_of_true (sameFile_of_idle (.inl hen)).spares.staged fun h => ?_
    cases hen.symm.trans h
  | true =>
    cases performed with
    | false =>
      exact iff_of_true (sameFile_of_idle (.inr rfl)).spares.staged fun _ => nofun
    | true =>
      have hmet : (⟨act, true, g⟩ : FileStep k).Met s ↔ act.Met g s :=
        ⟨fun h => h hen rfl, fun h _ _ => h⟩
      rw [hmet]
      cases act with
      | create disposition directoryFile deleteOnClose access => exact create_staged_iff hs hen
      | read => exact read_staged_iff hen
      | map readWrite extents => exact map_staged_iff hen
      | change lo hi =>
        exact iff_of_true (stagedBefore_of_same fun _ => ⟨rfl, rfl, rfl, rfl⟩) trivial
      | write nocache offset length => exact write_staged_iff hs hen
      | writeBack offset length => exact writeBack_staged_iff hs hen
      | setInformation info buffer => exact setInformation_staged_iff hs hen
      | replace how source => exact replace_staged_iff hs hen
      | fsControl control lo hi moves => exact fsControl_staged_iff hs hen
      | close => exact iff_of_true close_staged trivial
      | discard =>
        exact iff_of_true (stagedBefore_of_same fun _ => ⟨rfl, rfl, rfl, rfl⟩) trivial

end

instance (s s' : FileState) (b : Nat) : Decidable (Dooms s s' b) :=
  inferInstanceAs (Decidable (_ ∧ _))

instance (s : FileState) (b : Nat) : Decidable (s.Held b) :=
  inferInstanceAs (Decidable (_ ∨ _))

def userFile (compressed : Bool) : FileSetting :=
  ⟨⟨1, 1, 7⟩, Vector.replicate SEMANTICS_AR_PROVENANCE_PATH_MAX 0, true, compressed, false⟩

theorem callback_ne_complete (status : CompletionStatus) :
    PreopStatus.successWithCallback ≠ .complete status := nofun

/-- The driver under `ENFORCE`, with empty tables. -/
def enforcingDriver (compressed : Bool) : DriverAt (userFile compressed) where
  globals := ⟨.enforce, sarStateCreate, .empty, true, false, false⟩
  phantomCreate := .successWithCallback
  notExempt := (by decide : sarStateIdentityLookup sarStateCreate 1 ≠ .exempt)
  ready := rfl
  loaded := rfl
  realFile := callback_ne_complete

def allPerformed (compressed : Bool) (acts : List FileAct) :
    List (FileStep (userFile compressed)) :=
  acts.map (⟨·, true, enforcingDriver compressed⟩)

theorem not_each_staged {k : FileSetting} {s : FileState} (front : List (FileStep k))
    (st : FileStep k) (b : Nat)
    (hdooms : Dooms (run FileStep.apply s front) (run FileStep.apply s (front ++ [st])) b)
    (hlost : ¬ (run FileStep.apply s (front ++ [st])).Held b) :
    ¬ Each FileStep.apply StagedBefore s (front ++ [st]) := by
  intro h
  rw [run_append] at hdooms hlost
  exact hlost ((each_append.mp h).2.1 b hdooms)

end SemanticsAr
