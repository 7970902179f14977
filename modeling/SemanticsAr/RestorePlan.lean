import SemanticsAr.PreserveLinks

/-!
# Copies to a folder

The restore planner of the frontend sends a preserved item to a folder instead of its
original place.  The plan goes through the elevated channel, the control pipe and the service
to the driver; on the way only the destination is passed on, and the driver looks the hold up
under it.  `copy_to_folder_iff` says for which stores the copy is made all the same.

Strings are lists of UTF-16 units.
-/

namespace SemanticsAr

open List

variable {bc : BCrypt} {P P' : Preserve} {folderRoot target src targetPath : List UInt16}
  {fuel : Nat}
  {outCap : UInt32} {io : PreserveRecoverIo} {request : PreserveRecoverRequest}
  {recovered : UInt64} {both : Bool}

/-! ### The planner -/

inductive CertaintyRung where
  | definitive
  | bounded
  | unrecoverable
deriving DecidableEq, Repr

inductive RestoreDisposition where
  | additive
  | deletedSince
  | modifiedSince
  | blocked
deriving DecidableEq, Repr

inductive RestoreDestination where
  | originalLocations
  | copyToFolder
deriving DecidableEq, Repr

inductive PlanDecision where
  | inPlace
  | toFolder
  | declineDefinitiveFolder
  | declineBlocked
deriving DecidableEq, Repr

/-- The fields of a `RecoverableItem` that a plan and its execution read. -/
structure RecoverableItem where
  rung : CertaintyRung
  provenancePath : List UInt16
  keyId : List UInt8
  offset : UInt64
  length : UInt64

inductive PlanError where
  | argument
  | pathTooLong
deriving DecidableEq, Repr

namespace RestorePlanner

/-- `Decide`. -/
def decideRestore (rung : CertaintyRung) (disposition : RestoreDisposition)
    (destination : RestoreDestination) : PlanDecision :=
  if destination = .copyToFolder then
    if rung = .definitive then .declineDefinitiveFolder else .toFolder
  else if disposition = .blocked then .declineBlocked
  else .inPlace

def isHighSurrogate (c : UInt16) : Bool := decide (0xD800 ≤ c) && decide (c ≤ 0xDBFF)

def lastIndexOf (s : List UInt16) (c : UInt16) : Option Nat :=
  (s.reverse.idxOf? c).map fun i => s.length - 1 - i

def leafOf (path : List UInt16) : List UInt16 :=
  match lastIndexOf path 92 with
  | some cut => path.drop (cut + 1)
  | none => path

def splitLeaf (leaf : List UInt16) : List UInt16 × List UInt16 :=
  match lastIndexOf leaf 46 with
  | some (dot + 1) => (leaf.take (dot + 1), leaf.drop (dot + 1))
  | _ => (leaf, [])

def suffixOf (n : Nat) (ext : List UInt16) : List UInt16 :=
  (if n = 0 then []
    else 32 :: 40 :: ((Nat.toDigits 10 n).map fun c => UInt16.ofNat c.toNat) ++ [41]) ++ ext

def trimName (name : List UInt16) (budget : Nat) : List UInt16 :=
  if name.length > budget then
    name.take (if isHighSurrogate (name.getD (budget - 1) 0) then budget - 1 else budget)
  else name

/-- The loop of `FolderTargetPath`, for a number of turns. -/
def folderTargetLoop (folderRoot name ext : List UInt16) (taken : List UInt16 → Bool) :
    Nat → Nat → Option (Except PlanError (List UInt16))
  | 0, _ => none
  | fuel + 1, n =>
    let suffix := suffixOf n ext
    if 258 < folderRoot.length + 1 + suffix.length then some (.error .pathTooLong)
    else
      let candidate := folderRoot ++ 92 ::
        (trimName name (259 - folderRoot.length - 1 - suffix.length) ++ suffix)
      if taken candidate then folderTargetLoop folderRoot name ext taken fuel (n + 1)
      else some (.ok candidate)

/-- `FolderTargetPath`: a path in the folder that neither exists nor is reserved. -/
def folderTargetPath (fuel : Nat) (folderRoot provenancePath : List UInt16)
    (reserved probe : List UInt16 → Bool) : Option (Except PlanError (List UInt16)) :=
  let leaf := leafOf provenancePath
  if leaf = [] then some (.error .argument)
  else
    folderTargetLoop folderRoot (splitLeaf leaf).1 (splitLeaf leaf).2
      (fun candidate => probe candidate || reserved candidate) fuel 0

theorem folderTargetLoop_free {name ext : List UInt16} {taken : List UInt16 → Bool} {n : Nat}
    (h : folderTargetLoop folderRoot name ext taken fuel n = some (.ok target)) :
    taken target = false := by
  induction fuel generalizing n with
  | zero => cases h
  | succ fuel ih =>
    rw [folderTargetLoop] at h
    dsimp only at h
    split at h
    · cases h
    split at h
    · exact ih h
    next hfree =>
      cases h
      exact Bool.eq_false_iff.mpr hfree

theorem folderTargetPath_free {path : List UInt16} {reserved probe : List UInt16 → Bool}
    (h : folderTargetPath fuel folderRoot path reserved probe = some (.ok target)) :
    probe target = false := by
  rw [folderTargetPath] at h
  split at h
  · cases h
  · exact (Bool.or_eq_false_iff.mp (folderTargetLoop_free h)).1

end RestorePlanner

/-! ### The way to the driver -/

/-- The calls of the elevated control object that `ElevatedControlChannel.Recover` makes. -/
inductive ControlCall where
  | recover (keyId : List UInt8) (targetPath : List UInt16)
  | preserveRecover (targetPath : List UInt16) (offset length : UInt64)

def ElevatedControlChannel.recover (item : RecoverableItem) (targetPath : List UInt16) :
    ControlCall :=
  if item.rung = .definitive then .recover item.keyId targetPath
  else .preserveRecover targetPath item.offset item.length

/-- `copy_path_in`, and the copies that the service makes: at most 259 units, up to a zero,
    into a zeroed buffer. -/
def copyPathIn (src : List UInt16) : ProvPath :=
  pathOf ((src.takeWhile (· != 0)).take (SEMANTICS_AR_PROVENANCE_PATH_MAX - 1))
    ((length_take_le _ _).trans (Nat.sub_le _ _))

/-- `sar_control_command_t` for `SAR_CTL_OP_PRESERVE_RECOVER`. -/
structure ControlCommand where
  imagePath : ProvPath
  arg0 : UInt64
  arg1 : UInt64

def sarapiPreserveRecover (targetPath : List UInt16) (offset length : UInt64) : ControlCommand :=
  ⟨copyPathIn targetPath, offset, length⟩

/-- The request that `sar_control_apply` and `sar_preserve_recovery_run` make of a command. -/
def controlRequest (cmd : ControlCommand) : PreserveRecoverRequest :=
  ⟨copyPathIn (copyPathIn cmd.imagePath.toList).toList, cmd.arg0, cmd.arg1⟩

abbrev Volume := ProvPath → Option TargetFile

/-- A file with the given bytes; files end below `2 ^ 63`. -/
def TargetFile.ofBytes (bytes : List UInt8) : TargetFile :=
  ⟨bytes.take (2 ^ 63 - 1), (length_take_le _ _).trans_lt (by decide)⟩

/-- `sar_preserve_recovery_run`: what the driver wrote is put in place of the target. -/
def sarPreserveRecoveryRun (bc : BCrypt) (io : PreserveRecoverIo) (replaces : Bool)
    (P P' : Preserve) (request : PreserveRecoverRequest) (files : Volume) :
    RecoverStatus × Volume :=
  match sarPreserveRecoveryExecute bc io (files (provPath io request)) P P' request with
  | ⟨.ok, _, some out⟩ =>
    if replaces then
      (.ok, Function.update files (provPath io request) (some (TargetFile.ofBytes out.bytes)))
    else (.invalid, files)
  | ⟨status, _, _⟩ => (status, files)

def planRequest (item : RecoverableItem) (targetPath : List UInt16) :
    Option PreserveRecoverRequest :=
  match ElevatedControlChannel.recover item targetPath with
  | .recover _ _ => none
  | .preserveRecover path offset length =>
    some (controlRequest (sarapiPreserveRecover path offset length))

theorem takeWhile_ne_zero_copyPathIn : ((copyPathIn src).toList.takeWhile (· != 0)) =
      (src.takeWhile (· != 0)).take (SEMANTICS_AR_PROVENANCE_PATH_MAX - 1) := by
  have hlist : (copyPathIn src).toList =
      (src.takeWhile (· != 0)).take (SEMANTICS_AR_PROVENANCE_PATH_MAX - 1) ++ replicate
        (SEMANTICS_AR_PROVENANCE_PATH_MAX -
          ((src.takeWhile (· != 0)).take (SEMANTICS_AR_PROVENANCE_PATH_MAX - 1)).length) 0 := rfl
  refine pathText_of_append hlist ?_ fun _ => head?_replicate_zero
  intro c hc
  simpa using mem_takeWhile_imp (mem_of_mem_take hc)

theorem copyPathIn_toList : copyPathIn (copyPathIn src).toList = copyPathIn src := by
  have hunits : ((copyPathIn src).toList.takeWhile (· != 0)).take
      (SEMANTICS_AR_PROVENANCE_PATH_MAX - 1) =
      (src.takeWhile (· != 0)).take (SEMANTICS_AR_PROVENANCE_PATH_MAX - 1) := by
    rw [takeWhile_ne_zero_copyPathIn, take_take, Nat.min_self]
  show pathOf _ _ = pathOf _ _
  congr 1

theorem planRequest_eq {item : RecoverableItem} (hrung : item.rung ≠ .definitive) :
    planRequest item targetPath = some ⟨copyPathIn targetPath, item.offset, item.length⟩ := by
  rw [planRequest, ElevatedControlChannel.recover, if_neg hrung]
  simp only [controlRequest, sarapiPreserveRecover, copyPathIn_toList]

/-! ### What the driver restores -/

def HoldIntact (bc : BCrypt) (quarantine : Quarantine) (P : Preserve) (r : PreserveRecord)
    (held : List UInt8) : Prop :=
  if r.kind = SAR_PRESERVE_KIND_NAMESPACE then
    ∃ file, quarantine r.provenancePath r.payloadOffset = some file ∧
      (file.drop r.provenanceOffset.toNat).take r.provenanceLength.toNat = held
  else
    P.dataOpen = true ∧ (decryptPayload bc r P).take r.provenanceLength.toNat = held

section

variable {quarantine : Quarantine} {path : ProvPath} {offset length : UInt64} {env : RestoreEnv}
  {r : PreserveRecord} {held out : List UInt8}

theorem HoldIntact.payloadIntact (hpos : 0 < r.provenanceLength.toNat)
    (hstaged : StagedBytes r held) (h : HoldIntact bc quarantine P r held) :
    PayloadIntact bc quarantine r.provenancePath P r := by
  have hlength := hstaged.length_eq
  rw [HoldIntact] at h
  rw [PayloadIntact]
  split at h
  next hkind =>
    obtain ⟨file, hfile, hbytes⟩ := h
    rw [if_pos hkind]
    refine ⟨file, hfile, ?_⟩
    rw [← hbytes, length_take, length_drop] at hlength
    omega
  next hkind =>
    obtain ⟨hopen, hbytes⟩ := h
    rw [if_neg hkind, hbytes]
    refine ⟨hopen, ?_, (hstaged.tag (by simpa [isByteRange] using hkind)).symm⟩
    rw [← hbytes, length_take] at hlength
    omega

theorem HoldIntact.linkKept (hkind : r.kind = SAR_PRESERVE_KIND_NAMESPACE)
    (hlo : r.provenanceOffset.toNat ≤ offset.toNat)
    (hhi : offset.toNat + length.toNat ≤ r.provenanceOffset.toNat + r.provenanceLength.toNat)
    (hstaged : StagedBytes r held) (h : HoldIntact bc quarantine P r held) :
    LinkKept quarantine r.provenancePath r held offset length := by
  intro file hfile hpos hstart
  rw [HoldIntact, if_pos hkind] at h
  obtain ⟨file', hfile', hbytes⟩ := h
  cases hfile.symm.trans hfile'
  have hlength := hstaged.length_eq
  rw [← hbytes, length_take, length_drop] at hlength
  refine ⟨by omega, ?_⟩
  intro i hi
  rw [← hbytes, getD_eq_getElem?_getD, getD_eq_getElem?_getD,
    getElem?_take_of_lt (by omega), getElem?_drop]
  congr 2
  omega

/-- **An intact hold** gives back what was staged. -/
theorem restore_value (hrange : offset.toNat + length.toNat < 2 ^ 64)
    (hlookup : restoreLookup path offset length outCap P = .ok r) (hstaged : StagedBytes r held)
    (hintact : HoldIntact bc quarantine P' r held)
    (hlink : env.link = linkRead quarantine path offset length outCap P)
    (h : sarPreserveRestore bc path offset length outCap env P P' = .ok out) :
    out = (held.drop (offset.toNat - r.provenanceOffset.toNat)).take length.toNat := by
  obtain ⟨hlo, hhi⟩ := restoreLookup_inside hrange hlookup
  obtain ⟨-, hpath, -⟩ := restoreLookup_ok hlookup
  rw [sarPreserveRestore_of_lookup hlookup] at h
  by_cases hkind : r.kind = SAR_PRESERVE_KIND_NAMESPACE
  · rw [restore_namespace hlookup hkind hlink] at h
    have hkept := hintact.linkKept hkind hlo hhi hstaged
    rw [hpath] at hkept
    exact (restore_namespace_iff hrange hlookup hstaged).mpr hkept out h
  · refine restore_byteRange hrange hlookup (by simpa [isByteRange] using hkind) hstaged ?_ h
    rw [HoldIntact, if_neg hkind] at hintact
    exact fun _ => hintact.2

theorem restore_found (hready : P.ready = true) (hpos : length ≠ 0)
    (hrange : offset.toNat + length.toNat < 2 ^ 64) (hsize : length.toNat < 2 ^ 32)
    {heldOf : PreserveRecord → List UInt8}
    (hstaged : ∀ s ∈ P.records, StagedBytes s (heldOf s))
    (hintact : ∀ s ∈ P.records, HoldIntact bc quarantine P' s (heldOf s))
    (hpool : env.pool = true) (hread : env.read = true) (hcrypt : env.crypt = true)
    (hlink : env.link = linkRead quarantine path offset length length.toUInt32 P)
    (hfind : P.records.find? (restoreMatch path offset length) = some r) :
    sarPreserveRestore bc path offset length length.toUInt32 env P P' =
      .ok (((heldOf r).drop (offset.toNat - r.provenanceOffset.toNat)).take length.toNat) := by
  have hcap : ¬ length.toNat > length.toUInt32.toNat := by
    rw [UInt64.toNat_toUInt32, Nat.mod_eq_of_lt hsize]
    omega
  have hlookup : restoreLookup path offset length length.toUInt32 P = .ok r := by
    rw [restoreLookup, if_neg (by simp [hready]), if_neg hcap, hfind]
  have hr := mem_of_find?_eq_some hfind
  have hpos' : length.toNat ≠ 0 := fun h => hpos (UInt64.toNat_inj.mp h)
  have hpayload : ∀ s ∈ P.records, restoreMatch path offset length s = true →
      PayloadIntact bc quarantine path P' s := by
    intro s hs hmatch
    simp only [restoreMatch, Bool.and_eq_true, decide_eq_true_eq, beq_iff_eq,
      UInt64.le_iff_toNat_le, UInt64.toNat_add, Nat.mod_eq_of_lt hrange] at hmatch
    obtain ⟨⟨hlo, hhi⟩, hpath⟩ := hmatch
    rw [← hpath]
    apply (hintact s hs).payloadIntact _ (hstaged s hs)
    omega
  obtain ⟨out, hout, -⟩ := restore_of_intact hready hpos hrange hsize
    ⟨r, hr, find?_some hfind⟩ hpayload hpool hread hcrypt hlink
  rw [hout]
  exact congrArg _ (restore_value hrange hlookup (hstaged r hr) (hintact r hr) hlink hout)

end

/-! ### The copy -/

theorem TargetFile.bytes_ofBytes {bytes : List UInt8} (h : bytes.length < 2 ^ 63) :
    (TargetFile.ofBytes bytes).bytes = bytes :=
  take_of_length_le (Nat.le_sub_one_of_lt h)

theorem sarPreserveRecoveryRun_of_ok {files : Volume} {out : OutFile}
    (h : sarPreserveRecoveryExecute bc io (files (provPath io request)) P P' request =
      ⟨.ok, recovered, some out⟩) :
    (sarPreserveRecoveryRun bc io true P P' request files).2 =
      Function.update files (provPath io request) (some (TargetFile.ofBytes out.bytes)) := by
  rw [sarPreserveRecoveryRun, h]
  rfl

theorem sarPreserveRecoveryRun_cases (bc : BCrypt) (P P' : Preserve) (files : Volume) :
    (∃ recovered out, sarPreserveRecoveryExecute bc io (files (provPath io request)) P P' request =
        ⟨.ok, recovered, some out⟩) ∨
    (sarPreserveRecoveryRun bc io true P P' request files).2 = files := by
  unfold sarPreserveRecoveryRun
  split
  next recovered out hrun =>
    exact .inl ⟨recovered, out, hrun⟩
  · exact .inr rfl

/-- The held bytes, at their place, are the file at the destination, and the original is as
    it was. -/
structure CopiedToFolder (files files' : Volume) (dest original : ProvPath) (off : Nat)
    (held : List UInt8) : Prop where
  written : ∃ file, files' dest = some file ∧ file.bytes = replicate off 0 ++ held
  untouched : files' original = files original

theorem execute_absent {out : OutFile}
    (h : sarPreserveRecoveryExecute bc io none P P' request = ⟨.ok, recovered, some out⟩) :
    ∃ region, sarPreserveRestore bc (provPath io request) request.offset request.length
        request.length.toUInt32 io.restore P P' = .ok region ∧
      (TargetFile.ofBytes out.bytes).bytes = replicate request.offset.toNat 0 ++ region := by
  obtain ⟨region, hrestore, hlength, hout⟩ := sarPreserveRecoveryExecute_ok h
  refine ⟨region, hrestore, ?_⟩
  obtain ⟨_, _, hpassed⟩ := sarPreserveRecoveryExecute_passed (congrArg
    PreserveRecoverOutcome.status h)
  have hbytes : out.bytes = replicate request.offset.toNat 0 ++ region := by
    rw [hout]
    exact overlay_nil 0 _
  rw [TargetFile.bytes_ofBytes, hbytes]
  rw [hbytes, length_append, length_replicate, hlength]
  exact hpassed.below

theorem sarPreserveRestore_find {path : ProvPath} {offset length : UInt64} {env : RestoreEnv}
    {out : List UInt8} (h : sarPreserveRestore bc path offset length outCap env P P' = .ok out) :
    ∃ s, restoreLookup path offset length outCap P = .ok s ∧
      P.records.find? (restoreMatch path offset length) = some s := by
  cases hlookup : restoreLookup path offset length outCap P with
  | error status =>
    rw [sarPreserveRestore, hlookup] at h
    cases h
  | ok s =>
    refine ⟨s, rfl, ?_⟩
    rw [restoreLookup] at hlookup
    split at hlookup
    · cases hlookup
    split at hlookup
    · cases hlookup
    split at hlookup
    · cases hlookup
    next hfind =>
      cases hlookup
      exact hfind

/-- **When a copy to a folder is made.**  With live intact holds and everything granted, the plan
    ends with the held bytes at the planned path and the original as it was, exactly when the
    planned path is not the original one and the store has a hold of the planned path around the
    same range with the same bytes (and the driver can execute the request at all). -/
theorem copy_to_folder_iff (bc : BCrypt) (quarantine : Quarantine) (io : PreserveRecoverIo)
    (P P' : Preserve) (files : Volume) (item : RecoverableItem)
    (disposition : RestoreDisposition) (fuel : Nat) (folderRoot : List UInt16)
    (reserved probe : List UInt16 → Bool) (target : List UInt16)
    (request : PreserveRecoverRequest) (r : PreserveRecord)
    (heldOf : PreserveRecord → List UInt8)
    (hplan : RestorePlanner.decideRestore item.rung disposition .copyToFolder = .toFolder)
    (htarget : RestorePlanner.folderTargetPath fuel folderRoot item.provenancePath reserved probe =
      some (.ok target))
    (hrequest : planRequest item target = some request)
    (hprobe : probe target = (files (provPath io request)).isSome)
    (hready : P.ready = true) (hr : r ∈ P.records)
    (hpath : r.provenancePath = copyPathIn item.provenancePath)
    (hoffset : r.provenanceOffset = item.offset) (hlength : r.provenanceLength = item.length)
    (hstaged : ∀ s ∈ P.records, StagedBytes s (heldOf s))
    (hintact : ∀ s ∈ P.records, HoldIntact bc quarantine P' s (heldOf s))
    (hgrants : io.Grants)
    (hlink : io.restore.link = linkRead quarantine (provPath io request) item.offset item.length
      item.length.toUInt32 P) :
    CopiedToFolder files (sarPreserveRecoveryRun bc io true P P' request files).2
        (provPath io request) (copyPathIn item.provenancePath) item.offset.toNat (heldOf r) ↔
      provPath io request ≠ r.provenancePath ∧ pathText (copyPathIn target) ≠ [] ∧
        r.provenanceLength ≠ 0 ∧
        r.provenanceOffset.toNat + r.provenanceLength.toNat < 2 ^ 63 ∧
        r.provenanceLength.toNat < 2 ^ 32 ∧
        ∃ s, P.records.find? (restoreMatch (provPath io request) r.provenanceOffset
            r.provenanceLength) = some s ∧
          ((heldOf s).drop (r.provenanceOffset.toNat - s.provenanceOffset.toNat)).take
            r.provenanceLength.toNat = heldOf r := by
  have hrung : item.rung ≠ .definitive := by
    intro h
    rw [RestorePlanner.decideRestore, if_pos rfl, if_pos h] at hplan
    cases hplan
  have hreq : request = ⟨copyPathIn target, item.offset, item.length⟩ :=
    Option.some.inj (hrequest.symm.trans (planRequest_eq hrung))
  have habsent : files (provPath io request) = none := by
    rw [RestorePlanner.folderTargetPath_free htarget] at hprobe
    exact Option.isNone_iff_eq_none.mp (by simpa using hprobe.symm)
  rw [hpath, hoffset, hlength]
  constructor
  · intro h
    obtain ⟨⟨file, hfile, hbytes⟩, huntouched⟩ := h
    rcases sarPreserveRecoveryRun_cases bc P P' files with
      ⟨recovered, out, hrun⟩ | hfiles
    · have hfiles := sarPreserveRecoveryRun_of_ok hrun
      rw [habsent] at hrun
      obtain ⟨region, _, hpassed⟩ := sarPreserveRecoveryExecute_passed (congrArg
        PreserveRecoverOutcome.status hrun)
      obtain ⟨region', hrestore, hcopy⟩ := execute_absent hrun
      cases hrestore.symm.trans hpassed.restored
      have hbelow := hpassed.below
      have hcap := sarPreserveRestore_outCap hrestore
      obtain ⟨s, hlookup, hfind⟩ := sarPreserveRestore_find hrestore
      rw [hfiles, Function.update_self] at hfile
      cases hfile
      -- the bytes at the destination are the region, and the region is what was staged there
      have hregion : region = heldOf r := by
        rw [hcopy, hreq] at hbytes
        exact append_cancel_left hbytes
      have hs := mem_of_find?_eq_some hfind
      subst hreq
      have hvalue := restore_value (hbelow.trans (by decide)) hlookup (hstaged s hs)
        (hintact s hs) hlink hrestore
      refine ⟨?_, hpassed.path_ne, hpassed.length_ne, hbelow,
        hcap.trans_lt (UInt32.toNat_lt _), s, hfind, hvalue.symm.trans hregion⟩
      intro hdest
      rw [hfiles, ← hdest, Function.update_self, habsent] at huntouched
      cases huntouched
    · rw [hfiles, habsent] at hfile
      cases hfile
  · rintro ⟨hdest, htext, hpos, hend, hsize, s, hfind, hsame⟩
    subst hreq
    have hrestore := restore_found hready hpos (hend.trans (by decide)) hsize hstaged
      hintact hgrants.pool hgrants.read hgrants.crypt hlink hfind
    rw [hsame] at hrestore
    obtain ⟨out, hrun⟩ := @execute_of_restored _ none _ _ _ _ _ hgrants htext hpos hend hrestore
      ((hstaged r hr).length_eq.trans (congrArg _ hlength))
    obtain ⟨region, hrestore', hcopy⟩ := execute_absent hrun
    cases hrestore.symm.trans hrestore'
    rw [← habsent] at hrun
    rw [sarPreserveRecoveryRun_of_ok hrun]
    refine ⟨⟨_, Function.update_self _ _ _, hcopy⟩, ?_⟩
    exact Function.update_of_ne (Ne.symm hdest) _ _

/-! ### A plan -/

/-- The hold in `linkedStore`, as the frontend lists it. -/
def itemA : RecoverableItem :=
  ⟨.bounded, wideUnits "\\Device\\HarddiskVolume3\\a", [], 0, 1⟩

/-- The path of the copy, and the name that the driver finds for it. -/
def folderA : List UInt16 := wideUnits "C:\\R\\a"

def folderPath : ProvPath := copyPathIn (wideUnits "\\Device\\HarddiskVolume3\\R\\a")

def requestA : PreserveRecoverRequest := ⟨copyPathIn folderA, 0, 1⟩

/-- The store with the hold and another one of the path of the copy, or without it. -/
def folderStore (both : Bool) : Preserve :=
  if both then
    (sarPreserveStageLink folderPath 1 7 1 2 (Vector.replicate _ 0) linkedStore).1
  else linkedStore

/-- Everything is granted, and every link leads to the byte `9`. -/
def folderIo (both : Bool) : PreserveRecoverIo :=
  { grantedRecover false 9 with
    resolved := folderPath
    restore := ⟨true, true, true, linkRead (quarantineOf [9]) folderPath 0 1 1
      (folderStore both)⟩ }

theorem folderStore_records :
    ∀ r ∈ (folderStore both).records, r.kind = SAR_PRESERVE_KIND_NAMESPACE ∧
      r.provenanceOffset = 0 ∧ r.provenanceLength = 1 := by
  revert both
  decide +kernel

theorem folderStore_staged : ∀ r ∈ (folderStore both).records, StagedBytes r [9] := by
  intro r hr
  obtain ⟨hkind, -, hlen⟩ := folderStore_records r hr
  refine ⟨by rw [hlen]; rfl, ?_⟩
  intro hbyte
  rw [isByteRange, hkind] at hbyte
  cases hbyte

theorem folderStore_intact :
    ∀ r ∈ (folderStore both).records, HoldIntact identityCrypt (quarantineOf [9])
      (folderStore both) r [9] := by
  intro r hr
  obtain ⟨hkind, hoff, hlen⟩ := folderStore_records r hr
  rw [HoldIntact, if_pos hkind, hoff, hlen]
  exact ⟨[9], rfl, rfl⟩

theorem folderA_planned :
    RestorePlanner.decideRestore itemA.rung .deletedSince .copyToFolder = .toFolder ∧
      RestorePlanner.folderTargetPath 1 (wideUnits "C:\\R") itemA.provenancePath (fun _ => false)
        (fun _ => false) = some (.ok folderA) ∧
      planRequest itemA folderA = some requestA :=
  ⟨rfl, by decide +kernel, planRequest_eq (by decide)⟩

/-- Nothing is copied: the driver finds no hold of the path of the copy and declines. -/
theorem folder_copy_declined :
    (∀ r ∈ (folderStore false).records, HoldIntact identityCrypt (quarantineOf [9])
      (folderStore false) r [9]) ∧
    (sarPreserveRecoveryRun identityCrypt (folderIo false) true (folderStore false)
      (folderStore false) requestA (fun _ => none)).1 = .declinedMismatch ∧
    ¬ CopiedToFolder (fun _ => none) (sarPreserveRecoveryRun identityCrypt (folderIo false) true
      (folderStore false) (folderStore false) requestA (fun _ => none)).2
      (provPath (folderIo false) requestA) (copyPathIn itemA.provenancePath) 0 [9] := by
  refine ⟨folderStore_intact, by decide +kernel, ?_⟩
  rintro ⟨⟨file, hfile, -⟩, -⟩
  have hnone : ((sarPreserveRecoveryRun identityCrypt (folderIo false) true (folderStore false)
      (folderStore false) requestA (fun _ => none)).2
      (provPath (folderIo false) requestA)).isNone = true := by
    decide +kernel
  rw [hfile] at hnone
  cases hnone

/-- With a hold of the path of the copy that has the same byte, the copy is made. -/
theorem folder_copy_made :
    ∃ r ∈ (folderStore true).records, r.provenancePath = copyPathIn itemA.provenancePath ∧
      CopiedToFolder (fun _ => none) (sarPreserveRecoveryRun identityCrypt (folderIo true) true
        (folderStore true) (folderStore true) requestA (fun _ => none)).2
        (provPath (folderIo true) requestA) (copyPathIn itemA.provenancePath) 0 [9] := by
  obtain ⟨hplan, htarget, hrequest⟩ := folderA_planned
  have hheld : ∃ r ∈ (folderStore true).records,
      r.provenancePath = copyPathIn itemA.provenancePath := by
    decide +kernel
  have hfound : ((folderStore true).records.find? (restoreMatch
      (provPath (folderIo true) requestA) 0 1)).isSome = true := by
    decide +kernel
  obtain ⟨r, hr, hpath⟩ := hheld
  obtain ⟨s, hfind⟩ := Option.isSome_iff_exists.mp hfound
  obtain ⟨-, hoff, hlen⟩ := folderStore_records r hr
  obtain ⟨-, hsoff, -⟩ := folderStore_records s (mem_of_find?_eq_some hfind)
  refine ⟨r, hr, hpath, ?_⟩
  refine (copy_to_folder_iff identityCrypt (quarantineOf [9]) (folderIo true) (folderStore true)
    (folderStore true) (fun _ => none) itemA .deletedSince 1 (wideUnits "C:\\R") (fun _ => false)
    (fun _ => false) folderA requestA r (fun _ => [9]) hplan htarget hrequest rfl
    (by decide +kernel) hr hpath hoff hlen folderStore_staged folderStore_intact
    ⟨rfl, rfl, rfl, rfl, rfl, rfl, rfl, fun _ => rfl, fun _ => rfl, rfl⟩ ?_).mpr ?_
  · have hdest : provPath (folderIo true) requestA = folderPath := by decide +kernel
    rw [hdest]
    rfl
  · rw [hpath, hoff, hlen]
    refine ⟨by decide +kernel, by decide +kernel, by decide, by decide, by decide, s, hfind, ?_⟩
    rw [hsoff]
    rfl

end SemanticsAr
