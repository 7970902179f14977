import Mathlib.Data.UInt
import SemanticsAr.PreserveRecovery

/-!
# What a restore can vouch for

The two kinds of records take different ways to the bytes.  The payload of a byte range is
checked against the tag of the original; a namespace record names a link in the quarantine
directory, and `SarPresReadLink` returns what the linked file has now.  `restore_vouched_iff`
says when a restore gives back the bytes that were there when the hold was taken, and
`listed_hold_restorable_iff` which of the holds that `SarPreserveProject` lists a recovery
request gives back at all.
-/

namespace SemanticsAr

open List UInt64 Nat

variable {io : PreserveRecoverIo} {finalSize : Nat} {target : Option TargetFile}
  {region : List UInt8} {bc : BCrypt} {path : ProvPath} {offset length size : UInt64}
  {outCap : UInt32} {env : RestoreEnv} {P P' : Preserve} {r : PreserveRecord}

/-! ### Quarantine links -/

/-- The file behind the link of a path and a link id; none where the names of
    `SarPreserveQuarantinePaths` cannot be built or the file does not open. -/
abbrev Quarantine := ProvPath → UInt64 → Option (List UInt8)

variable {quarantine : Quarantine}

/-- `SarPresReadLink`; a read that starts at the end of the file or behind it fails, and one
    that runs into the end gives what is there. -/
def sarPresReadLink (quarantine : Quarantine) (path : ProvPath) (linkId offset : UInt64)
    (length : UInt32) : Except NtStatus (List UInt8) :=
  match quarantine path linkId with
  | none => .error .external
  | some file =>
    if length = 0 then .ok []
    else if file.length ≤ offset.toNat then .error .external
    else .ok ((file.drop offset.toNat).take length.toNat)

def linkRead (quarantine : Quarantine) (path : ProvPath) (offset length : UInt64)
    (outCap : UInt32) (P : Preserve) : Except NtStatus (List UInt8) := do
  let r ← restoreLookup path offset length outCap P
  sarPresReadLink quarantine path r.payloadOffset offset length.toUInt32

/-! ### What was staged -/

/-- The bytes of the record's range when it was staged: as many as the record says, and
    their tag is in the record of a byte range. -/
structure StagedBytes (r : PreserveRecord) (held : List UInt8) : Prop where
  length_eq : held.length = r.provenanceLength.toNat
  tag : isByteRange r = true → r.contentTag = sha256 held

theorem Origin.stagedBytes {args : StageArgs} (h : Origin args r) :
    StagedBytes r (heldBytes args r) :=
  ⟨h.length_heldBytes, fun _ => h.tag⟩

def PayloadTells (bc : BCrypt) (P : Preserve) (r : PreserveRecord) (held : List UInt8) : Prop :=
  sha256 ((decryptPayload bc r P).take r.provenanceLength.toNat) = sha256 held →
    (decryptPayload bc r P).take r.provenanceLength.toNat = held

/-- The linked file cannot be read at the range, or it still has the bytes there that it had
    when the link was made. -/
def LinkKept (quarantine : Quarantine) (path : ProvPath) (r : PreserveRecord)
    (held : List UInt8) (offset length : UInt64) : Prop :=
  ∀ file, quarantine path r.payloadOffset = some file → length ≠ 0 → offset.toNat < file.length →
    offset.toNat + length.toNat ≤ file.length ∧ ∀ i < length.toNat, file.getD (offset.toNat + i) 0 =
        held.getD (offset.toNat - r.provenanceOffset.toNat + i) 0

theorem restoreLookup_inside (hrange : offset.toNat + length.toNat < 2 ^ 64)
    (h : restoreLookup path offset length outCap P = .ok r) :
    r.provenanceOffset.toNat ≤ offset.toNat ∧
      offset.toNat + length.toNat ≤ r.provenanceOffset.toNat + r.provenanceLength.toNat := by
  obtain ⟨-, -, hlo, hhi⟩ := restoreLookup_ok h
  rw [UInt64.toNat_add, mod_eq_of_lt hrange, UInt64.toNat_add] at hhi
  exact ⟨hlo, hhi.trans (mod_le _ _)⟩

theorem restoreLookup_length (h : restoreLookup path offset length outCap P = .ok r) :
    length.toUInt32.toNat = length.toNat := by
  have hcap : length.toNat ≤ outCap.toNat := by
    by_contra hcap
    rw [restoreLookup, if_pos (not_le.mp hcap)] at h
    split at h
    · cases h
    · cases h
  rw [toNat_toUInt32, mod_eq_of_lt (hcap.trans_lt outCap.toNat_lt)]

theorem slice_eq_iff {xs ys : List UInt8} {i j n : Nat} (hys : j + n ≤ ys.length) :
    (xs.drop i).take n = (ys.drop j).take n ↔
      (n = 0 ∨ i + n ≤ xs.length) ∧ ∀ k < n, xs.getD (i + k) 0 = ys.getD (j + k) 0 := by
  constructor
  · intro h
    have hlen := congrArg length h
    simp only [length_take, length_drop] at hlen
    refine ⟨by omega, ?_⟩
    intro k hk
    have hk' := congrArg (fun l => l.getD k 0) h
    simpa [getD_eq_getElem?_getD, hk] using hk'
  · rintro ⟨hxs, h⟩
    apply eq_of_getD 0
    · simp only [length_take, length_drop]
      omega
    · intro k hk
      simp only [length_take, length_drop] at hk
      have hk' := h k (by omega)
      simpa [getD_eq_getElem?_getD, (show k < n by omega)] using hk'

section

variable {held out : List UInt8}

/-- **A byte range** is vouched for by its tag. -/
theorem restore_byteRange (hrange : offset.toNat + length.toNat < 2 ^ 64)
    (hlookup : restoreLookup path offset length outCap P = .ok r) (hbyte : isByteRange r = true)
    (hheld : StagedBytes r held) (htells : PayloadTells bc P' r held)
    (h : restoreRead bc r path offset length env P' = .ok out) :
    out = (held.drop (offset.toNat - r.provenanceOffset.toNat)).take length.toNat := by
  obtain ⟨hlo, hhi⟩ := restoreLookup_inside hrange hlookup
  obtain ⟨-, htag, rfl⟩ := (restoreRead_ok h).2 hbyte
  have hback := htells (htag.trans (hheld.tag hbyte))
  have hinner : (offset - r.provenanceOffset).toNat = offset.toNat - r.provenanceOffset.toNat :=
    UInt64.toNat_sub_of_le _ _ (UInt64.le_iff_toNat_le.mpr hlo)
  rw [hinner, ← hback, slice_take (by omega)]

theorem restore_namespace (hlookup : restoreLookup path offset length outCap P = .ok r)
    (hkind : r.kind = SAR_PRESERVE_KIND_NAMESPACE)
    (hlink : env.link = linkRead quarantine path offset length outCap P) :
    restoreRead bc r path offset length env P' =
      sarPresReadLink quarantine path r.payloadOffset offset length.toUInt32 := by
  have hlen := restoreLookup_length hlookup
  rw [restoreRead, if_pos hkind, hlink, linkRead, hlookup]
  show (sarPresReadLink quarantine path r.payloadOffset offset length.toUInt32).map _ = _
  unfold sarPresReadLink
  split
  · rfl
  split
  · rw [Except.map, take_nil]
  split
  · rfl
  · rw [Except.map, hlen, take_take, min_self]

/-- **A namespace record** gives back what was linked exactly when the file was kept. -/
theorem restore_namespace_iff (hrange : offset.toNat + length.toNat < 2 ^ 64)
    (hlookup : restoreLookup path offset length outCap P = .ok r) (hheld : StagedBytes r held) :
    (∀ out, sarPresReadLink quarantine path r.payloadOffset offset length.toUInt32 = .ok out →
        out = (held.drop (offset.toNat - r.provenanceOffset.toNat)).take length.toNat) ↔
      LinkKept quarantine path r held offset length := by
  obtain ⟨hlo, hhi⟩ := restoreLookup_inside hrange hlookup
  have hlen := restoreLookup_length hlookup
  have hzero : length.toUInt32 = 0 ↔ length = 0 := by
    rw [← UInt32.toNat_inj, hlen, ← UInt64.toNat_inj]
    rfl
  have hfits : offset.toNat - r.provenanceOffset.toNat + length.toNat ≤ held.length := by
    rw [hheld.length_eq]
    omega
  unfold LinkKept sarPresReadLink
  cases hfile : quarantine path r.payloadOffset with
  | none => exact iff_of_true (fun out h => by cases h) (fun file h => by cases h)
  | some file =>
    simp only [Option.some.injEq, forall_eq', hzero, hlen]
    by_cases hl : length = 0
    · subst hl
      simp
    rw [if_neg hl]
    have hpos : length.toNat ≠ 0 := fun h => hl (UInt64.toNat_inj.mp h)
    by_cases hend : file.length ≤ offset.toNat
    · rw [if_pos hend]
      exact iff_of_true (fun out h => by cases h)
        (fun _ h => absurd h (not_lt.mpr hend))
    · rw [if_neg hend]
      simp only [Except.ok.injEq, forall_eq', slice_eq_iff hfits, hpos, false_or]
      exact ⟨fun h _ _ => h, fun h => h hl (not_le.mp hend)⟩

end

/-- **What a restore can vouch for.**  A restore that succeeds gives back the bytes as they were
    when the hold was staged, whatever the payload file and the linked files have become, exactly
    when the record it finds is no namespace record, or the file behind its link was kept in the
    range. -/
theorem restore_vouched_iff (bc : BCrypt) (quarantine : Quarantine) (path : ProvPath)
    (offset length : UInt64) (outCap : UInt32) (env : RestoreEnv) (P P' : Preserve)
    (held : PreserveRecord → List UInt8)
    (hrange : offset.toNat + length.toNat < 2 ^ 64)
    (hheld : ∀ r ∈ P.records, StagedBytes r (held r))
    (htells : ∀ r ∈ P.records, isByteRange r = true → PayloadTells bc P' r (held r))
    (hlink : env.link = linkRead quarantine path offset length outCap P) :
    (∀ r out, restoreLookup path offset length outCap P = .ok r →
        sarPreserveRestore bc path offset length outCap env P P' = .ok out →
        out = ((held r).drop (offset.toNat - r.provenanceOffset.toNat)).take length.toNat) ↔
      ∀ r, restoreLookup path offset length outCap P = .ok r →
        r.kind = SAR_PRESERVE_KIND_NAMESPACE →
        LinkKept quarantine path r (held r) offset length := by
  constructor
  · intro h r hlookup hkind
    have hr := (restoreLookup_ok hlookup).1
    apply (restore_namespace_iff hrange hlookup (hheld r hr)).mp
    intro out hread
    apply h r out hlookup
    rw [sarPreserveRestore_of_lookup hlookup, restore_namespace hlookup hkind hlink]
    exact hread
  · intro h r out hlookup hrestore
    have hr := (restoreLookup_ok hlookup).1
    rw [sarPreserveRestore_of_lookup hlookup] at hrestore
    by_cases hkind : r.kind = SAR_PRESERVE_KIND_NAMESPACE
    · rw [restore_namespace hlookup hkind hlink] at hrestore
      exact (restore_namespace_iff hrange hlookup (hheld r hr)).mpr (h r hlookup hkind) out hrestore
    · have hbyte : isByteRange r = true := by
        simpa [isByteRange] using hkind
      exact restore_byteRange hrange hlookup hbyte (hheld r hr) (htells r hr hbyte) hrestore

def quarantineOf (file : List UInt8) : Quarantine := fun _ _ => some file

/-- The system grants everything, and the link of the hold in `linkedStore` leads to a file. -/
def linkedEnv (file : List UInt8) : RestoreEnv where
  pool := true
  read := true
  crypt := true
  link := linkRead (quarantineOf file) heldPath 0 1 1 linkedStore

/-- The restore of the byte that `linkedStore` holds. -/
def restoreLinked (file : List UInt8) : Except NtStatus (List UInt8) :=
  sarPreserveRestore identityCrypt heldPath 0 1 1 (linkedEnv file) linkedStore
    linkedStore

theorem linkedStore_records :
    ∀ r ∈ linkedStore.records, r.provenanceLength.toNat = 1 ∧ isByteRange r = false ∧
      r.provenanceOffset.toNat = 0 := by
  decide +kernel

theorem linkedStore_staged {v : UInt8} : ∀ r ∈ linkedStore.records, StagedBytes r [v] := by
  intro r hr
  obtain ⟨hlen, hkind, -⟩ := linkedStore_records r hr
  refine ⟨hlen.symm, ?_⟩
  rw [hkind]
  exact fun h => absurd h Bool.false_ne_true

theorem linkedStore_lookup : ∃ r ∈ linkedStore.records,
      restoreLookup heldPath 0 1 1 linkedStore = .ok r := by
  have hok : (restoreLookup heldPath 0 1 1 linkedStore).isOk = true := by
    decide +kernel
  cases hlookup : restoreLookup heldPath 0 1 1 linkedStore with
  | error status =>
    rw [hlookup] at hok
    cases hok
  | ok r => exact ⟨r, (restoreLookup_ok hlookup).1, rfl⟩

/-- The linked file was left alone: the restore gives back the byte. -/
theorem untouched_link_vouched :
    ∃ r, restoreLookup heldPath 0 1 1 linkedStore = .ok r ∧
      restoreLinked [9] = .ok (([9].drop (0 - r.provenanceOffset.toNat)).take 1) := by
  obtain ⟨r, -, hlookup⟩ := linkedStore_lookup
  have hrestore : restoreLinked [9] = .ok [9] := by decide +kernel
  have hvouched := (restore_vouched_iff identityCrypt (quarantineOf [9]) heldPath
    0 1 1 (linkedEnv [9]) linkedStore linkedStore (fun _ => [9]) (by decide) linkedStore_staged
    (fun r hr hbyte => by
      rw [(linkedStore_records r hr).2.1] at hbyte
      cases hbyte)
    rfl).mpr ?_ r [9] hlookup hrestore
  · exact ⟨r, hlookup, hrestore.trans (congrArg _ hvouched)⟩
  · intro r' hlookup' _ file hfile _ _
    cases hfile
    rw [(linkedStore_records r' (restoreLookup_ok hlookup').1).2.2]
    exact ⟨by decide, fun i _ => rfl⟩

/-- The file that was linked when it had the byte `9` was written again through another name:
    the restore succeeds and gives the new byte. -/
theorem written_link_restored :
    (∀ r ∈ linkedStore.records, StagedBytes r [9]) ∧ restoreLinked [2] = .ok [2] :=
  ⟨linkedStore_staged, by decide +kernel⟩

/-! ### Which listed holds can be restored -/

/-- `semantics_ar_preserve_entry_t`. -/
structure PreserveEntry where
  provenancePath : ProvPath
  provenanceOffset : UInt64
  provenanceLength : UInt64
  captureTime : UInt64
  payloadLength : UInt64
  actorStartKey : UInt64
  state : UInt32
  causingImagePath : ProvPath

/-- `SarPreserveProject`: the entry at an index, and how many there are. -/
def sarPreserveProject (index : UInt64) (P : Preserve) : Option PreserveEntry × UInt64 :=
  (P.records[index.toNat]?.map fun r =>
      ⟨r.provenancePath, r.provenanceOffset, r.provenanceLength, r.captureTime, r.payloadLength,
        r.actorId, r.state, r.causingImagePath⟩,
    UInt64.ofNat P.records.length)

def PreserveEntry.request (entry : PreserveEntry) : PreserveRecoverRequest :=
  ⟨entry.provenancePath, entry.provenanceOffset, entry.provenanceLength⟩

structure PreserveRecoverIo.Grants (io : PreserveRecoverIo) : Prop where
  store : io.store = true
  pathPool : io.pathPool = true
  bufferPools : io.bufferPools = true
  pool : io.restore.pool = true
  read : io.restore.read = true
  crypt : io.restore.crypt = true
  tempOpens : io.tempOpens = true
  reads : ∀ pos, io.reads pos = true
  writes : ∀ pos, io.writes pos = true
  flushes : io.flushes = true

/-- The payload of a record is as it was stored: it decrypts to bytes with the record's tag,
    or the linked file is as long as it was. -/
def PayloadIntact (bc : BCrypt) (quarantine : Quarantine) (path : ProvPath) (P : Preserve)
    (r : PreserveRecord) : Prop :=
  if r.kind = SAR_PRESERVE_KIND_NAMESPACE then
    ∃ file, quarantine path r.payloadOffset = some file ∧
      r.provenanceOffset.toNat + r.provenanceLength.toNat ≤ file.length
  else
    P.dataOpen = true ∧ r.provenanceLength.toNat ≤ (decryptPayload bc r P).length ∧
      sha256 ((decryptPayload bc r P).take r.provenanceLength.toNat) = r.contentTag

theorem readLink_of_intact (hlen : length.toUInt32.toNat = length.toNat) (hpos : length ≠ 0)
    (hhi : offset.toNat + length.toNat ≤ r.provenanceOffset.toNat + r.provenanceLength.toNat)
    (hkind : r.kind = SAR_PRESERVE_KIND_NAMESPACE)
    (hintact : PayloadIntact bc quarantine path P r) :
    ∃ out, sarPresReadLink quarantine path r.payloadOffset offset length.toUInt32 = .ok out ∧
      out.length = length.toNat := by
  rw [PayloadIntact, if_pos hkind] at hintact
  obtain ⟨file, hfile, hend⟩ := hintact
  have hpos' : length.toNat ≠ 0 := fun h => hpos (UInt64.toNat_inj.mp h)
  have hne : length.toUInt32 ≠ 0 := by
    intro h
    rw [h] at hlen
    exact hpos' hlen.symm
  refine ⟨(file.drop offset.toNat).take length.toNat, ?_, ?_⟩
  · rw [sarPresReadLink, hfile]
    dsimp only
    rw [if_neg hne, if_neg (by omega), hlen]
  · rw [length_take, length_drop]
    omega

theorem readPayload_of_intact (hpos : length ≠ 0)
    (hpath : r.provenancePath = path) (hlo : r.provenanceOffset ≤ offset)
    (hhi : offset + length ≤ r.provenanceOffset + r.provenanceLength)
    (hfits : offset.toNat + length.toNat ≤ r.provenanceOffset.toNat + r.provenanceLength.toNat)
    (hpool : env.pool = true) (hread : env.read = true) (hcrypt : env.crypt = true)
    (hkind : r.kind ≠ SAR_PRESERVE_KIND_NAMESPACE)
    (hintact : PayloadIntact bc quarantine path P r) :
    ∃ out, restoreRead bc r path offset length env P = .ok out ∧ out.length = length.toNat := by
  rw [PayloadIntact, if_neg hkind] at hintact
  obtain ⟨hopen, hlength, htag⟩ := hintact
  have hinner : (offset - r.provenanceOffset).toNat =
      offset.toNat - r.provenanceOffset.toNat := UInt64.toNat_sub_of_le _ _ hlo
  have hlo' := le_iff_toNat_le.mp hlo
  have hextract : sarPreserveVerifyExtract r path offset length
      ((decryptPayload bc r P).take r.provenanceLength.toNat) =
        .ok (offset - r.provenanceOffset) := by
    have hcontains : sarPresContains r.provenanceOffset r.provenanceLength offset length =
        true := by
      simp [sarPresContains, hlo, hhi]
    have hmatch : ¬ (r.provenancePath ≠ path ∨
        ((decryptPayload bc r P).take r.provenanceLength.toNat).length ≠ r.provenanceLength.toNat ∨
        sarPresContains r.provenanceOffset r.provenanceLength offset length = false) := by
      rw [hcontains, length_take, min_eq_left hlength]
      simp [hpath]
    rw [sarPreserveVerifyExtract, if_neg hpos, if_neg hmatch]
    exact if_neg (not_not.mpr htag)
  refine ⟨((decryptPayload bc r P).drop (offset - r.provenanceOffset).toNat).take length.toNat,
    ?_, ?_⟩
  · rw [restoreRead, if_neg hkind, hpool, hread, hcrypt, hopen, hextract]
    rfl
  · rw [length_take, length_drop, hinner]
    omega

/-- **An intact hold** of less than `2 ^ 32` bytes is restored. -/
theorem restore_of_intact (hready : P.ready = true) (hpos : length ≠ 0)
    (hrange : offset.toNat + length.toNat < 2 ^ 64) (hsize : length.toNat < 2 ^ 32)
    (hheld : ∃ r ∈ P.records, restoreMatch path offset length r = true)
    (hintact : ∀ r ∈ P.records, restoreMatch path offset length r = true →
      PayloadIntact bc quarantine path P' r)
    (hpool : env.pool = true) (hread : env.read = true) (hcrypt : env.crypt = true)
    (hlink : env.link = linkRead quarantine path offset length length.toUInt32 P) :
    ∃ out, sarPreserveRestore bc path offset length length.toUInt32 env P P' = .ok out ∧
      out.length = length.toNat := by
  have hlen : length.toUInt32.toNat = length.toNat := by
    rw [toNat_toUInt32, mod_eq_of_lt hsize]
  obtain ⟨r, hfind⟩ := Option.isSome_iff_exists.mp (find?_isSome.mpr hheld)
  have hlookup : restoreLookup path offset length length.toUInt32 P = .ok r := by
    rw [restoreLookup, if_neg (by simp [hready]), if_neg (by omega), hfind]
  obtain ⟨hr, hpath, hlo, hhi⟩ := restoreLookup_ok hlookup
  have hfits := (restoreLookup_inside hrange hlookup).2
  have hkept := hintact r hr (find?_some hfind)
  rw [sarPreserveRestore_of_lookup hlookup]
  by_cases hkind : r.kind = SAR_PRESERVE_KIND_NAMESPACE
  · rw [restore_namespace hlookup hkind hlink]
    exact readLink_of_intact hlen hpos hfits hkind hkept
  · exact readPayload_of_intact hpos hpath (le_iff_toNat_le.mpr hlo)
      (le_iff_toNat_le.mpr hhi) hfits hpool hread hcrypt hkind hkept

/-- With nothing in the way the loop runs to its end if the file stays below `2 ^ 63` bytes. -/
theorem overlayLoop_granted (hreads : ∀ pos, io.reads pos = true)
    (hwrites : ∀ pos, io.writes pos = true) (target : List UInt8) (off rlen : Nat)
    (region : List UInt8) (hfinal : finalSize < 2 ^ 63) (pos : Nat) (out : OutFile) :
    (overlayLoop io target off rlen region finalSize pos out).2 = true := by
  fun_induction overlayLoop io target off rlen region finalSize pos out with
  | case1 pos out hpos hread => simp [hreads] at hread
  | case2 pos out hpos csize hread hwrite =>
    rw [hwrites] at hwrite
    have hlate := hwrite.resolve_left Bool.noConfusion
    omega
  | case3 pos out hpos csize hread hwrite ih => exact ih
  | case4 pos out hpos => rfl

/-- A file that was written to its end stays below `2 ^ 63` bytes. -/
theorem overlayLoop_below {target : List UInt8} {off rlen : Nat} {pos : Nat} {out : OutFile}
    (hpos : pos < finalSize)
    (hok : (overlayLoop io target off rlen region finalSize pos out).2 = true) :
    finalSize < 2 ^ 63 := by
  fun_induction overlayLoop io target off rlen region finalSize pos out with
  | case1 pos out hpos' hread => cases hok
  | case2 pos out hpos' csize hread hwrite => cases hok
  | case3 pos out hpos' csize hread hwrite ih =>
    by_cases hnext : pos + SAR_PRESERVE_STAGE_MAX < finalSize
    · exact ih hnext hok
    · rw [not_or, not_le] at hwrite
      omega
  | case4 pos out hpos' => exact absurd hpos hpos'

theorem RecoverPassed.below {request : PreserveRecoverRequest} {out : OutFile}
    (h : RecoverPassed bc io target P P' request region out) :
    request.offset.toNat + request.length.toNat < 2 ^ 63 := by
  have hpos : request.length.toNat ≠ 0 := fun hzero => h.length_ne (UInt64.toNat_inj.mp hzero)
  have hstart : 0 < max (request.offset.toNat + request.length.toNat)
      (visibleTarget io target).length := by
    omega
  have hfinal := overlayLoop_below hstart (congrArg Prod.snd h.written)
  omega

theorem length_visibleTarget (io : PreserveRecoverIo) (target : Option TargetFile) :
    (visibleTarget io target).length < 2 ^ 63 := by
  cases target with
  | none => exact Nat.two_pow_pos 63
  | some t =>
    rw [visibleTarget]
    split
    · exact t.bound
    · exact Nat.two_pow_pos 63

/-- A run whose restore succeeds and whose file stays below `2 ^ 63` bytes succeeds. -/
theorem execute_of_restored {request : PreserveRecoverRequest} (hgrants : io.Grants)
    (hpath : pathText request.targetPath ≠ []) (hpos : request.length ≠ 0)
    (hend : request.offset.toNat + request.length.toNat < 2 ^ 63)
    (hrestore : sarPreserveRestore bc (provPath io request) request.offset request.length
      request.length.toUInt32 io.restore P P' = .ok region)
    (hlength : region.length = request.length.toNat) :
    ∃ out, sarPreserveRecoveryExecute bc io target P P' request =
      ⟨.ok, request.length, some out⟩ := by
  have hwrap : ¬ request.offset + request.length < request.offset := by
    rw [UInt64.lt_iff_toNat_lt, UInt64.toNat_add, Nat.mod_eq_of_lt (by omega)]
    omega
  have hcap := sarPreserveRestore_outCap hrestore
  have hle : request.length.toUInt32.toNat ≤ request.length.toNat := by
    rw [toNat_toUInt32]
    exact Nat.mod_le _ _
  have hwritten := overlayLoop_granted hgrants.reads hgrants.writes (visibleTarget io target)
    request.offset.toNat request.length.toNat region
    (Nat.max_lt.mpr ⟨hend, length_visibleTarget io target⟩) 0 .empty
  have hoverlay : ∃ out, writeOverlay io (visibleTarget io target) request region =
      ⟨.ok, request.length, some out⟩ := by
    rw [writeOverlay, if_neg (by simp [hgrants.tempOpens])]
    split
    next out hloop =>
      rw [hloop] at hwritten
      cases hwritten
    next out hloop =>
      exact ⟨out, if_pos hgrants.flushes⟩
  obtain ⟨out, hout⟩ := hoverlay
  refine ⟨out, ?_⟩
  rw [sarPreserveRecoveryExecute, if_neg (by simp [hgrants.store]),
    if_neg (not_or.mpr ⟨hpos, hwrap⟩),
    if_neg (by simp [hgrants.pathPool, hpath, hgrants.bufferPools]), hrestore]
  dsimp only
  rw [if_neg (by omega), hout]

/-- **Which listed holds can be restored.**  With intact payloads and enough memory and disk, the
    request for exactly the listed path, offset and length succeeds, exactly when the entry has a
    path, is not empty, ends below the largest file size and has less than `2 ^ 32` bytes. -/
theorem listed_hold_restorable_iff (bc : BCrypt) (quarantine : Quarantine)
    (io : PreserveRecoverIo) (target : Option TargetFile) (P P' : Preserve) (index : UInt64)
    (entry : PreserveEntry) (hlisted : (sarPreserveProject index P).1 = some entry)
    (hready : P.ready = true) (hgrants : io.Grants)
    (hname : pathText io.resolved ≠ [] → io.resolved = entry.provenancePath)
    (hlink : io.restore.link = linkRead quarantine entry.provenancePath entry.provenanceOffset
      entry.provenanceLength entry.provenanceLength.toUInt32 P)
    (hintact : ∀ r ∈ P.records, restoreMatch entry.provenancePath entry.provenanceOffset
      entry.provenanceLength r = true → PayloadIntact bc quarantine entry.provenancePath P' r) :
    let outcome := sarPreserveRecoveryExecute bc io target P P' entry.request
    (outcome.status = .ok ∧ outcome.bytesRecovered = entry.provenanceLength) ↔
      pathText entry.provenancePath ≠ [] ∧ entry.provenanceLength ≠ 0 ∧
        entry.provenanceOffset.toNat + entry.provenanceLength.toNat < 2 ^ 63 ∧
        entry.provenanceLength.toNat < 2 ^ 32 := by
  intro outcome
  have hprov : provPath io entry.request = entry.provenancePath := by
    rw [provPath]
    split
    next hresolved =>
      exact hname hresolved
    · rfl
  have hrecord : ∃ r ∈ P.records, r.provenancePath = entry.provenancePath ∧
      r.provenanceOffset = entry.provenanceOffset ∧
      r.provenanceLength = entry.provenanceLength := by
    obtain ⟨r, hr, rfl⟩ := Option.map_eq_some_iff.mp hlisted
    exact ⟨r, mem_of_getElem? hr, rfl, rfl, rfl⟩
  constructor
  · rintro ⟨hstatus, -⟩
    obtain ⟨region, out, hpassed⟩ := sarPreserveRecoveryExecute_passed hstatus
    have hcap := sarPreserveRestore_outCap hpassed.restored
    exact ⟨hpassed.path_ne, hpassed.length_ne, hpassed.below,
      hcap.trans_lt (UInt32.toNat_lt _)⟩
  · rintro ⟨hpath, hpos, hend, hsize⟩
    have hheld : ∃ r ∈ P.records, restoreMatch entry.provenancePath entry.provenanceOffset
        entry.provenanceLength r = true := by
      obtain ⟨r, hr, hrpath, hoff, hlen⟩ := hrecord
      refine ⟨r, hr, ?_⟩
      simp [restoreMatch, hrpath, hoff, hlen]
    obtain ⟨region, hrestore, hlength⟩ := restore_of_intact hready hpos (by omega) hsize hheld
      hintact hgrants.pool hgrants.read hgrants.crypt hlink
    have hrestore' : sarPreserveRestore bc (provPath io entry.request) entry.request.offset
        entry.request.length entry.request.length.toUInt32 io.restore P P' = .ok region := by
      rw [hprov]
      exact hrestore
    obtain ⟨out, hout⟩ := @execute_of_restored _ target _ _ _ _ _ hgrants hpath hpos hend hrestore'
      hlength
    have houtcome : outcome = ⟨.ok, entry.provenanceLength, some out⟩ := hout
    rw [houtcome]
    exact ⟨rfl, rfl⟩

/-- The entry of the hold in `linkedStoreOf`. -/
def entryOf (size : UInt64) : PreserveEntry where
  provenancePath := copyPath heldPath
  provenanceOffset := 0
  provenanceLength := size
  captureTime := 1
  payloadLength := 0
  actorStartKey := 7
  state := SAR_PRESERVE_PROBATION
  causingImagePath := Vector.replicate _ 0

def linkedIo (size : UInt64) : PreserveRecoverIo :=
  { grantedRecover false 9 with
    restore := ⟨true, true, true, linkRead (quarantineOf (replicate size.toNat 9))
      (entryOf size).provenancePath 0 size size.toUInt32 (linkedStoreOf size)⟩ }

theorem linkedIo_grants : (linkedIo size).Grants :=
  ⟨rfl, rfl, rfl, rfl, rfl, rfl, rfl, fun _ => rfl, fun _ => rfl, rfl⟩

theorem linkedStoreOf_records : ∃ r,
    (linkedStoreOf size).records = [r] ∧ (sarPreserveProject 0 (linkedStoreOf size)).1 =
      some (entryOf size) ∧ r.kind = SAR_PRESERVE_KIND_NAMESPACE ∧ r.provenanceOffset = 0 ∧
      r.provenanceLength = size :=
  ⟨_, rfl, rfl, rfl, rfl, rfl⟩

theorem linkedStoreOf_intact : ∀ r ∈ (linkedStoreOf size).records, PayloadIntact identityCrypt
      (quarantineOf (replicate size.toNat 9)) (entryOf size).provenancePath
      (linkedStoreOf size) r := by
  obtain ⟨r, hrecords, -, hkind, hoff, hlen⟩ := linkedStoreOf_records
  rw [hrecords]
  intro r' hr'
  rw [mem_singleton.mp hr', PayloadIntact, if_pos hkind, hoff, hlen]
  exact ⟨_, rfl, by rw [length_replicate]; exact le_of_eq (zero_add _)⟩

/-- A file of one byte is restored. -/
theorem small_hold_restored : (sarPreserveProject 0 (linkedStoreOf 1)).1 = some (entryOf 1) ∧
      let outcome := sarPreserveRecoveryExecute identityCrypt (linkedIo 1) none (linkedStoreOf 1)
        (linkedStoreOf 1) (entryOf 1).request
      outcome.status = .ok ∧ outcome.bytesRecovered = 1 := by
  obtain ⟨r, -, hlisted, -⟩ := linkedStoreOf_records
  refine ⟨hlisted, (listed_hold_restorable_iff identityCrypt _ (linkedIo 1) none (linkedStoreOf 1)
    (linkedStoreOf 1) 0 (entryOf 1) hlisted rfl linkedIo_grants ?_ rfl ?_).mpr ?_⟩
  · exact fun h => absurd (by decide +kernel) h
  · exact fun r hr _ => linkedStoreOf_intact r hr
  · exact ⟨by decide +kernel, by decide, by decide, by decide⟩

/-- A file of four gigabytes is held, listed and intact, and the request is declined. -/
theorem large_hold_declined :
    (sarPreserveProject 0 (linkedStoreOf (2 ^ 32))).1 = some (entryOf (2 ^ 32)) ∧
      (linkedIo (2 ^ 32)).Grants ∧
      (∀ r ∈ (linkedStoreOf (2 ^ 32)).records, PayloadIntact identityCrypt
        (quarantineOf (List.replicate (2 ^ 32) 9)) (entryOf (2 ^ 32)).provenancePath
        (linkedStoreOf (2 ^ 32)) r) ∧
      (sarPreserveRecoveryExecute identityCrypt (linkedIo (2 ^ 32)) none (linkedStoreOf (2 ^ 32))
        (linkedStoreOf (2 ^ 32)) (entryOf (2 ^ 32)).request).status = .declinedMismatch := by
  obtain ⟨r, -, hlisted, -⟩ := linkedStoreOf_records
  exact ⟨hlisted, linkedIo_grants, linkedStoreOf_intact, by decide +kernel⟩

end SemanticsAr
