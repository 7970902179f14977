import SemanticsAr.Recovery

/-!
# Recovery of a file in place

`engine/host/recover_file.c`: the file is read and decrypted in memory, the plaintext is
checked against the sample of its verification record, written to a temporary file and put in
place of the original by `ReplaceFileW` or, if that fails, by a rename.  What becomes of the two
files when `ReplaceFileW` fails depends on the error.
-/

namespace SemanticsAr

structure PathPair where
  target : Option (List UInt8)
  repl : Option (List UInt8)
deriving DecidableEq, Repr

/-- The outcomes of `ReplaceFileW` without a backup name: success,
    `ERROR_UNABLE_TO_MOVE_REPLACEMENT` (the replaced file no longer exists),
    `ERROR_UNABLE_TO_MOVE_REPLACEMENT_2` (it exists under another name), and all other errors,
    behind which both files have their names. -/
inductive ReplaceOutcome where
  | replaced
  | unableToMove
  | unableToMove2
  | other
deriving DecidableEq, Repr

structure ReplaceEnv where
  widened : Bool
  outcome : ReplaceOutcome
  renamed : Bool
  deleted : Bool

/-- `ReplaceFileW`: it needs both files. -/
def replaceFileW (env : ReplaceEnv) (f : PathPair) : ReplaceOutcome × PathPair :=
  if f.target.isNone ∨ f.repl.isNone then (.other, f)
  else
    match env.outcome with
    | .replaced => (.replaced, ⟨f.repl, none⟩)
    | .unableToMove => (.unableToMove, ⟨none, f.repl⟩)
    | .unableToMove2 => (.unableToMove2, ⟨none, f.repl⟩)
    | .other => (.other, f)

def sarRenamePosix (env : ReplaceEnv) (f : PathPair) : Bool × PathPair :=
  if f.repl.isSome ∧ env.renamed then (true, ⟨f.repl, none⟩) else (false, f)

def sarReplaceW (env : ReplaceEnv) (f : PathPair) : Bool × PathPair :=
  match replaceFileW env f with
  | (.replaced, f) | (.unableToMove, f) => (true, f)
  | (_, f) => sarRenamePosix env f

def replaceOrDelete (env : ReplaceEnv) (f : PathPair) : Bool × PathPair :=
  let r := sarReplaceW env f
  (r.1, if ¬ r.1 ∧ env.deleted then { r.2 with repl := none } else r.2)

def sarAtomicReplaceFile (env : ReplaceEnv) (f : PathPair) : Bool × PathPair :=
  if env.widened then replaceOrDelete env f else (false, f)

def callMax (n : Nat) : Nat := min n 0x40000000

/-- The loops around `ReadFile` and `WriteFile`: `calls` says how many bytes the call at a
    position moves, if it succeeds; a call that moves none is a failure. -/
def transfer (calls : Nat → Option Nat) (pos : Nat) (rest : List UInt8) : Option (List UInt8) :=
  if rest = [] then some []
  else
    match calls pos with
    | none | some 0 => none
    | some (n + 1) =>
      (transfer calls (pos + callMax (n + 1)) (rest.drop (callMax (n + 1)))).map
        (rest.take (callMax (n + 1)) ++ ·)
termination_by rest.length
decreasing_by
  have := List.length_pos_iff.mpr ‹rest ≠ []›
  rw [List.length_drop, callMax]
  omega

/-- The calls of `sar_recover_file`: `readable` and `writable` are what comes before the two
    loops (conversion of the path, opening or creating the file, its buffers). -/
structure RecoverFileEnv extends ReplaceEnv where
  readable : Bool
  reads : Nat → Option Nat
  allocated : Bool
  writable : Bool
  writes : Nat → Option Nat
  flushed : Bool

/-- `sar_write_replace`; what a failed run leaves of the temporary file is not followed. -/
def sarWriteReplace (env : RecoverFileEnv) (f : PathPair) (data : List UInt8) : Bool × PathPair :=
  if env.writable then
    match transfer env.writes 0 data with
    | some written =>
      if env.flushed then replaceOrDelete env.toReplaceEnv { f with repl := some written }
      else (false, { f with repl := if env.deleted then none else some written })
    | none => (false, { f with repl := if env.deleted then none else some [] })
  else (false, f)

/-- `sar_recovery_verify_t`. -/
structure RecoveryVerify where
  sampleOffset : UInt64
  sampleLength : UInt32
  sampleTag : Mac

def RecoveryVerify.tagOf (v : RecoveryVerify) (pt : List UInt8) : Mac :=
  sarSampleTag ((pt.drop v.sampleOffset.toNat).take v.sampleLength.toNat)

def sarRecoverVerify (pt : List UInt8) (v : RecoveryVerify) : RecoverStatus :=
  if v.sampleLength = 0 then .declinedMismatch
  else if v.sampleOffset.toNat > pt.length ∨
      pt.length - v.sampleOffset.toNat < v.sampleLength.toNat then .declinedMismatch
  else if v.tagOf pt ≠ v.sampleTag then .declinedMismatch
  else .ok

def RecoveryVerify.Carried (v : RecoveryVerify) (pt : List UInt8) : Prop :=
  v.sampleOffset.toNat + v.sampleLength.toNat ≤ pt.length ∧ v.tagOf pt = v.sampleTag

section

variable (suite : CipherSuite) (stray : Stray) (rk : RecoveryKey) (geom : Option Geometry)

/-- What `sar_recover_buffer` makes of a file, in a fresh buffer. -/
def bufferOutput (file : List UInt8) : RecoverStatus × List UInt8 :=
  let r := sarRecoverBuffer suite stray.stack rk geom (fileMemory file stray.heap) (fun _ => 0)
    (UInt64.ofNat file.length)
  (r.1, readData r.2 0 file.length)

def sarRecoverFile (verify : Option RecoveryVerify) (env : RecoverFileEnv) (f : PathPair) :
    RecoverStatus × PathPair :=
  match if env.readable then f.target.bind (transfer env.reads 0) else none with
  | none => (.invalid, f)
  | some [] => (.ok, f)
  | some (b :: file) =>
    let r := bufferOutput suite stray rk geom (b :: file)
    let checked := (verify.map (sarRecoverVerify r.2)).getD .ok
    if env.allocated = false then (.invalid, f)
    else if r.1 ≠ .ok then (r.1, f)
    else if checked ≠ .ok then (checked, f)
    else
      let w := sarWriteReplace env f r.2
      (if w.1 then .ok else .invalid, w.2)

/-- What is asked of a recovery of the file: the plaintext with its sample, or the file. -/
def RecoversOrKeeps (verify : Option RecoveryVerify) (f : PathPair)
    (r : RecoverStatus × PathPair) : Prop :=
  (r.1 ≠ .ok → r.2.target = f.target) ∧ (r.1 = .ok → ∃ file, f.target = some file ∧
      r.2.target = some (bufferOutput suite stray rk geom file).2 ∧
      ∀ v ∈ verify, v.Carried (bufferOutput suite stray rk geom file).2)

end

/-- The outcomes of `ReplaceFileW` that leave a file at the path in the end. -/
def ReplaceEnv.Keeps (env : ReplaceEnv) : Prop :=
  env.outcome ≠ .unableToMove ∧ (env.outcome = .unableToMove2 → env.renamed = true)

def ReplacesOrKeeps (f : PathPair) (r : Bool × PathPair) : Prop :=
  (r.1 = true → f.repl ≠ none ∧ r.2.target = f.repl) ∧ (r.1 = false → r.2.target = f.target)

@[simp] theorem transfer_nil (calls : Nat → Option Nat) (pos : Nat) :
    transfer calls pos [] = some [] := by
  rw [transfer, if_pos rfl]

theorem transfer_eq {calls : Nat → Option Nat} {pos : Nat} {data moved : List UInt8}
    (h : transfer calls pos data = some moved) : moved = data := by
  fun_induction transfer calls pos data generalizing moved with
  | case1 => simpa using h.symm
  | case2 pos rest hrest hcall => cases h
  | case3 pos rest hrest hcall => cases h
  | case4 pos rest hrest n hcall ih =>
    obtain ⟨tail, htail, rfl⟩ := Option.map_eq_some_iff.mp h
    rw [ih htail, List.take_append_drop]

theorem carried_of_verified {out : List UInt8} {v : RecoveryVerify}
    (h : sarRecoverVerify out v = .ok) : v.Carried out := by
  unfold sarRecoverVerify at h
  split at h
  · cases h
  split at h
  · cases h
  split at h
  · cases h
  rename_i hlen hin htag
  exact ⟨by omega, not_not.mp htag⟩

theorem sarRenamePosix_sound (env : ReplaceEnv) (f : PathPair) :
    ReplacesOrKeeps f (sarRenamePosix env f) := by
  rw [sarRenamePosix]
  split
  next h => simpa [ReplacesOrKeeps, Option.isSome_iff_ne_none] using h.1
  · simp [ReplacesOrKeeps]

theorem sarReplaceW_sound_iff (env : ReplaceEnv) (f : PathPair) :
    ReplacesOrKeeps f (sarReplaceW env f) ↔
      (f.target ≠ none → f.repl ≠ none → env.Keeps) := by
  obtain ⟨_ | target, repl⟩ := f
  · simpa [sarReplaceW, replaceFileW] using sarRenamePosix_sound env ⟨none, repl⟩
  obtain _ | repl := repl
  · simpa [sarReplaceW, replaceFileW] using sarRenamePosix_sound env ⟨some target, none⟩
  -- both files are there, so the outcome decides
  cases houtcome : env.outcome with
  | replaced => simp [sarReplaceW, replaceFileW, ReplacesOrKeeps, ReplaceEnv.Keeps, houtcome]
  | unableToMove => simp [sarReplaceW, replaceFileW, ReplacesOrKeeps, ReplaceEnv.Keeps, houtcome]
  | unableToMove2 =>
    cases hrenamed : env.renamed <;>
      simp [sarReplaceW, replaceFileW, sarRenamePosix, ReplacesOrKeeps, ReplaceEnv.Keeps, houtcome,
        hrenamed]
  | other =>
    have hkept := sarRenamePosix_sound env ⟨some target, some repl⟩
    simpa [sarReplaceW, replaceFileW, ReplaceEnv.Keeps, houtcome] using hkept

/-- The deletion of the replacement behind a failure is not seen at the path. -/
theorem replaceOrDelete_sound_iff (env : ReplaceEnv) (f : PathPair) :
    ReplacesOrKeeps f (replaceOrDelete env f) ↔
      (f.target ≠ none → f.repl ≠ none → env.Keeps) := by
  have htarget : (replaceOrDelete env f).2.target = (sarReplaceW env f).2.target := by
    simp only [replaceOrDelete]
    split <;> rfl
  rw [← sarReplaceW_sound_iff, ReplacesOrKeeps, htarget]
  rfl

/-- All of the new content is written before the files change places. -/
def RecoverFileEnv.Writes (env : RecoverFileEnv) (data : List UInt8) : Prop :=
  env.writable = true ∧ transfer env.writes 0 data ≠ none ∧ env.flushed = true

theorem sarWriteReplace_sound_iff (env : RecoverFileEnv) (f : PathPair) (data : List UInt8)
    (htarget : f.target ≠ none) :
    ReplacesOrKeeps { f with repl := some data } (sarWriteReplace env f data) ↔
      (env.Writes data → env.Keeps) := by
  rw [sarWriteReplace, RecoverFileEnv.Writes]
  split
  next hwritable =>
    split
    next hwritten =>
      obtain rfl := transfer_eq hwritten
      split
      next hflushed =>
        rw [replaceOrDelete_sound_iff]
        simp [htarget, hwritable, hwritten, hflushed]
      next hflushed => simp [ReplacesOrKeeps, hflushed]
    next hnone => simp [ReplacesOrKeeps, hnone]
  next hnot => simp [ReplacesOrKeeps, hnot]

def RecoverFileEnv.Reads (env : RecoverFileEnv) (file : List UInt8) : Prop :=
  env.readable = true ∧ transfer env.reads 0 file ≠ none

theorem read_eq_some_iff (env : RecoverFileEnv) (f : PathPair) (file : List UInt8) :
    (if env.readable then f.target.bind (transfer env.reads 0) else none) = some file ↔
      f.target = some file ∧ env.Reads file := by
  simp only [Option.ite_none_right_eq_some, Option.bind_eq_some_iff, RecoverFileEnv.Reads]
  constructor
  · rintro ⟨hreadable, content, htarget, htransfer⟩
    obtain rfl := transfer_eq htransfer
    exact ⟨htarget, hreadable, by simp [htransfer]⟩
  · rintro ⟨htarget, hreadable, hreads⟩
    obtain ⟨moved, htransfer⟩ := Option.ne_none_iff_exists'.mp hreads
    obtain rfl := transfer_eq htransfer
    exact ⟨hreadable, _, htarget, htransfer⟩

/-- The sample of a record is empty. -/
def RecoveryVerify.OfNothing (v : RecoveryVerify) : Prop :=
  v.sampleOffset = 0 ∧ v.sampleLength = 0 ∧ v.sampleTag = sarSampleTag []

theorem carried_nil_iff (v : RecoveryVerify) : v.Carried [] ↔ v.OfNothing := by
  simp [RecoveryVerify.Carried, RecoveryVerify.OfNothing, RecoveryVerify.tagOf, eq_comm,
    ← UInt64.toNat_inj, ← UInt32.toNat_inj, and_assoc]

section

variable (suite : CipherSuite) (stray : Stray) (rk : RecoveryKey) (geom : Option Geometry)
  (verify : Option RecoveryVerify) (env : RecoverFileEnv)

/-- The recovery of a file with content gets as far as the replacement. -/
structure GetsToReplace (file : List UInt8) : Prop where
  allocated : env.allocated = true
  recovered : (bufferOutput suite stray rk geom file).1 = .ok
  verified : ∀ v ∈ verify, sarRecoverVerify (bufferOutput suite stray rk geom file).2 v = .ok
  written : env.Writes (bufferOutput suite stray rk geom file).2

theorem content_recovery_iff {f : PathPair} {file : List UInt8} (htarget : f.target = some file)
    (hreads : env.Reads file) (hne : file ≠ []) :
    RecoversOrKeeps suite stray rk geom verify f
        (sarRecoverFile suite stray rk geom verify env f) ↔
      (GetsToReplace suite stray rk geom verify env file → env.Keeps) := by
  have hkept : ∀ st : RecoverStatus, st ≠ .ok →
      RecoversOrKeeps suite stray rk geom verify f (st, f) :=
    fun st hst => ⟨fun _ => rfl, fun h => absurd h hst⟩
  rw [sarRecoverFile, (read_eq_some_iff env f file).mpr ⟨htarget, hreads⟩]
  obtain ⟨b, rest, rfl⟩ := List.exists_cons_of_ne_nil hne
  dsimp only
  split
  next hnot => exact iff_of_true (hkept _ (by decide)) fun h => by simp [h.allocated] at hnot
  next hallocated =>
  split
  next hst => exact iff_of_true (hkept _ hst) fun h => absurd h.recovered hst
  next hrecovered =>
  split
  next hst =>
    refine iff_of_true (hkept _ hst) fun h => absurd ?_ hst
    cases verify with
    | none => rfl
    | some v => exact h.verified v rfl
  next hchecked =>
  have hverified : ∀ v ∈ verify,
      sarRecoverVerify (bufferOutput suite stray rk geom (b :: rest)).2 v = .ok := by
    rintro v rfl
    simpa using hchecked
  have hgets : GetsToReplace suite stray rk geom verify env (b :: rest) ↔
      env.Writes (bufferOutput suite stray rk geom (b :: rest)).2 :=
    ⟨fun h => h.written, fun h => ⟨by simpa using hallocated, not_not.mp hrecovered, hverified, h⟩⟩
  rw [hgets, ← sarWriteReplace_sound_iff env f _ (by simp [htarget])]
  -- a replacement is reported as the recovery
  cases hdone : (sarWriteReplace env f (bufferOutput suite stray rk geom (b :: rest)).2).1 with
  | false => simp [RecoversOrKeeps, ReplacesOrKeeps, hdone]
  | true =>
    have hcarried : ∀ v ∈ verify,
        v.Carried (bufferOutput suite stray rk geom (b :: rest)).2 :=
      fun v hv => carried_of_verified (hverified v hv)
    simpa [RecoversOrKeeps, ReplacesOrKeeps, hdone, htarget] using fun _ => hcarried

/-- **Recovery in place.**  A recovery leaves the plaintext with its sample or the file as it was
    exactly if, once the file is read, an empty file comes with no record but that of an empty
    sample, and `ReplaceFileW`, where it is reached, does not lose the name of the old file.  A
    replacement leaves the new content or the old exactly if it does not. -/
theorem file_recovery_sound_iff (f : PathPair) :
    (RecoversOrKeeps suite stray rk geom verify f
        (sarRecoverFile suite stray rk geom verify env f) ↔
      ∀ file, f.target = some file → env.Reads file →
        (file = [] → ∀ v ∈ verify, v.OfNothing) ∧
          (file ≠ [] → GetsToReplace suite stray rk geom verify env file → env.Keeps)) ∧
    (ReplacesOrKeeps f (sarAtomicReplaceFile env.toReplaceEnv f) ↔
      (env.widened = true → f.target ≠ none → f.repl ≠ none → env.Keeps)) := by
  constructor
  · by_cases hread : ∃ file, f.target = some file ∧ env.Reads file
    · obtain ⟨file, htarget, hreads⟩ := hread
      simp only [htarget, Option.some.injEq, forall_eq', hreads, forall_const]
      by_cases hempty : file = []
      · subst hempty
        rw [sarRecoverFile, (read_eq_some_iff env f []).mpr ⟨htarget, hreads⟩]
        simp [RecoversOrKeeps, htarget, bufferOutput, readData, carried_nil_iff]
      · simpa [hempty] using
          content_recovery_iff suite stray rk geom verify env htarget hreads hempty
    · have hnone : (if env.readable then f.target.bind (transfer env.reads 0) else none) = none :=
        Option.eq_none_iff_forall_ne_some.mpr fun file h =>
          hread ⟨file, (read_eq_some_iff env f file).mp h⟩
      rw [sarRecoverFile, hnone]
      refine iff_of_true ⟨fun _ => rfl, fun h => by cases h⟩ ?_
      intro file htarget hreads
      exact absurd ⟨file, htarget, hreads⟩ hread
  · rw [sarAtomicReplaceFile]
    split
    next hwide => simp [replaceOrDelete_sound_iff, hwide]
    next hwide => simp [ReplacesOrKeeps, hwide]

end

/-- With the first error a replacement is reported as done although nothing is left at the path;
    with the second and a failed rename the file is gone, too.  An empty file is recovered whatever
    its record says. -/
theorem file_recovery_loses_file :
    sarAtomicReplaceFile ⟨true, .unableToMove, true, true⟩ ⟨some [1], some [2]⟩ =
        (true, ⟨none, some [2]⟩) ∧
      sarAtomicReplaceFile ⟨true, .unableToMove2, false, true⟩ ⟨some [1], some [2]⟩ =
        (false, ⟨none, none⟩) ∧
      ∀ suite stray rk geom (env : RecoverFileEnv) (v : RecoveryVerify), env.readable = true →
        sarRecoverFile suite stray rk geom (some v) env ⟨some [], none⟩ = (.ok, ⟨some [], none⟩) ∧
          (0 < v.sampleLength.toNat → ¬ v.Carried []) := by
  refine ⟨rfl, rfl, ?_⟩
  intro suite stray rk geom env v hreadable
  refine ⟨by simp [sarRecoverFile, hreadable], ?_⟩
  rintro hlen ⟨hin, -⟩
  rw [List.length_nil] at hin
  omega

end SemanticsAr
