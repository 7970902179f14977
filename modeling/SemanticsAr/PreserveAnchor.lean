import Mathlib.Order.WithBot
import SemanticsAr.PreserveBudget

/-!
# The preservation anchor

The store writes its index under a growing generation number and keeps the number and the
head MAC of the last index, the anchor, beside the keys in the key file.  A load accepts an
index only if it is no older than the anchor.  The number itself is taken from the index that
a load accepts: a load that accepts none starts again from 0 with the old anchor in force, and
the next index it writes is anchored whatever its number is.  The file follows the anchor
through loads and persists, and says for which runs it never moves back.
-/

namespace SemanticsAr

open Runs

variable {indexFile : Option (List UInt8)} {P Q : Preserve} {generation : UInt64} {bc : BCrypt}

/-! ### The key file -/

def sarPresFillBlob (P : Preserve) : PresKeyBlob where
  magic := SAR_PRESKEY_MAGIC
  storeKey := P.storeKey
  macKey := P.macKey
  anchorPresent := if P.anchor.present then 1 else 0
  reserved := Vector.replicate 7 0
  anchorGeneration := P.anchor.generation
  anchorHeadMac := P.anchor.headMac
  retention100ns := P.retention100ns
  capacityBytes := P.capacityBytes

/-- `SarPresWriteBlob`: the key file behind it.  Its status is looked at by no caller. -/
def sarPresWriteBlob (written : Bool) (P : Preserve) (keyFile : Option (List UInt8)) :
    Option (List UInt8) :=
  if written then some (presKeyBlobCodec.put (sarPresFillBlob P)) else keyFile

theorem loadKeyFile_put : loadKeyFile (some (presKeyBlobCodec.put (sarPresFillBlob P))) Q =
      { Q with
        storeKey := P.storeKey
        macKey := P.macKey
        anchor := P.anchor
        retention100ns := if P.capacityBytes ≠ 0 then P.retention100ns else Q.retention100ns
        capacityBytes := if P.capacityBytes ≠ 0 then P.capacityBytes else Q.capacityBytes
        haveKey := true } := by
  have hvalid : ¬ ((presKeyBlobCodec.put (sarPresFillBlob P)).length ≠ presKeyBlobCodec.width ∨
      (sarPresFillBlob P).magic ≠ SAR_PRESKEY_MAGIC) := by
    simp [sarPresFillBlob]
  have hpresent : decide ((sarPresFillBlob P).anchorPresent ≠ 0) = P.anchor.present := by
    cases h : P.anchor.present <;> simp [sarPresFillBlob, h]
  unfold loadKeyFile
  simp only [FixedCodec.get_put, if_neg hvalid, hpresent]
  rfl

/-! ### Loads and persists -/

def indexAccepted (indexFile : Option (List UInt8)) (P : Preserve) : Option UInt64 :=
  match indexFile with
  | none => none
  | some buf =>
    if buf.length < HEADER_SIZE then none
    else
      match sarPreserveVerify buf P.macKey (if P.anchor.present then some P.anchor else none) with
      | .ok (.ok _) => some (headerOf buf).generation
      | _ => none

def loadAccepts (env : LoadEnv) (P : Preserve) : Option UInt64 :=
  match ensureKeys env (loadKeyFile env.keyFile P) with
  | (_, false) => none
  | (P, true) => if env.dataOpens = false then none else indexAccepted env.indexFile P

/-- What the system decides in a driver start: whether the key file can be read, the fresh keys,
    which writes of the key file succeed, whether the payload file opens, and what stands in the
    index file. -/
structure StartEnv where
  keyRead : Bool
  freshStoreKey : Option Mac
  freshMacKey : Option Mac
  freshWritten : Bool
  dataOpens : Bool
  indexFile : Option (List UInt8)
  anchorWritten : Bool

variable {env : StartEnv}

structure PersistEnv where
  pool : Bool
  indexWritten : Bool
  keyWritten : Bool

structure DriverStore where
  mem : Preserve
  keyFile : Option (List UInt8)
  indexFile : Option (List UInt8)

variable {S : DriverStore}

def DriverStore.loadEnv (S : DriverStore) (env : StartEnv) : LoadEnv where
  keyFile := if env.keyRead then S.keyFile else none
  freshStoreKey := env.freshStoreKey
  freshMacKey := env.freshMacKey
  dataOpens := env.dataOpens
  indexFile := env.indexFile

def DriverStore.created (S : DriverStore) : Preserve :=
  { sarPreserveCreate with data := S.mem.data }

def DriverStore.accepts (S : DriverStore) (env : StartEnv) : Option UInt64 :=
  loadAccepts (S.loadEnv env) S.created

/-- The key file behind the part of `SarPreserveLoad` that makes fresh keys. -/
def DriverStore.freshKeyFile (S : DriverStore) (env : StartEnv) : Option (List UInt8) :=
  let K := loadKeyFile (S.loadEnv env).keyFile S.created
  let keyed := ensureKeys (S.loadEnv env) K
  if K.haveKey = false ∧ keyed.2 = true then sarPresWriteBlob env.freshWritten keyed.1 S.keyFile
  else S.keyFile

/-- A driver start: `SarPreserveCreate`, then `SarPreserveLoad`. -/
def DriverStore.start (S : DriverStore) (env : StartEnv) : DriverStore :=
  let prior := (loadKeyFile (S.loadEnv env).keyFile S.created).anchor
  let mem := sarPreserveLoad (S.loadEnv env) S.created
  { mem := mem
    keyFile :=
      match S.accepts env with
      | none => S.freshKeyFile env
      | some generation =>
        if prior.present = false ∨ prior.generation < generation then
          sarPresWriteBlob env.anchorWritten mem (S.freshKeyFile env)
        else S.freshKeyFile env
    indexFile := env.indexFile }

def DriverStore.sarPresPersistIndex (S : DriverStore) (env : PersistEnv) : DriverStore :=
  let generation := S.mem.generation + 1
  let need := sarPreserveSerializedSize (UInt64.ofNat S.mem.records.length)
  if env.pool = false then { S with mem := { S.mem with dirty := true } }
  else
    match sarPreserveSerialize S.mem.macKey S.mem.records generation (UInt64.ofNat need) with
    | .error _ => { S with mem := { S.mem with dirty := true } }
    | .ok buf =>
      if env.indexWritten = false then { S with mem := { S.mem with dirty := true } }
      else
        let mem := { S.mem with
          generation := generation
          anchor := ⟨true, generation, (headerOf buf).headMac⟩ }
        { mem := mem
          keyFile := sarPresWriteBlob env.keyWritten mem S.keyFile
          indexFile := some buf }

def DriverStore.persist (S : DriverStore) (env : PersistEnv) : DriverStore :=
  if S.mem.ready = true ∧ S.mem.dirty = true then
    DriverStore.sarPresPersistIndex { S with mem := { S.mem with dirty := false } } env
  else S

/-- `SarPreserveSetBudget` with its write of the key file. -/
def DriverStore.setBudget (S : DriverStore) (retention100ns capacityBytes : UInt64)
    (written : Bool) : DriverStore :=
  if retention100ns = 0 ∨ capacityBytes = 0 then S
  else
    let mem := sarPreserveSetBudget retention100ns capacityBytes S.mem
    { S with mem := mem, keyFile := sarPresWriteBlob written mem S.keyFile }

def StoreOp.KeyFree : StoreOp → Prop
  | .load _ => False
  | .setBudget _ _ => False
  | _ => True

inductive AnchorAct where
  | start (env : StartEnv)
  | persist (env : PersistEnv)
  | setBudget (retention100ns capacityBytes : UInt64) (written : Bool)
  | call (op : StoreOp) (hop : op.KeyFree)

def DriverStore.step (bc : BCrypt) (S : DriverStore) : AnchorAct → DriverStore
  | .start env => S.start env
  | .persist env => S.persist env
  | .setBudget retention100ns capacityBytes written =>
    S.setBudget retention100ns capacityBytes written
  | .call op _ => { S with mem := op.apply bc S.mem }

def DriverStore.anchored (S : DriverStore) : WithBot ℕ :=
  if S.mem.anchor.present then (S.mem.anchor.generation.toNat : WithBot ℕ) else ⊥

/-- **The condition on a step.**  A persist that writes an index gives it a number no smaller than
    the anchored one; a driver start reads an anchor no older than the one last set, or accepts an
    index no older. -/
def AnchorMet (S : DriverStore) : AnchorAct → Prop
  | .start env =>
    S.mem.anchor.present = true → (∃ generation, S.accepts env = some generation ∧
        S.mem.anchor.generation ≤ generation) ∨
      let K := loadKeyFile (S.loadEnv env).keyFile S.created
      K.anchor.present = true ∧ S.mem.anchor.generation ≤ K.anchor.generation
  | .persist env =>
    S.mem.ready = true → S.mem.dirty = true → env.pool = true → env.indexWritten = true →
      S.mem.anchor.present = true → S.mem.anchor.generation ≤ S.mem.generation + 1
  | _ => True

/-! ### The anchor behind a load -/

theorem ensureKeys_anchor (env : LoadEnv) (P : Preserve) :
    (ensureKeys env P).1.anchor = P.anchor := by
  fun_cases ensureKeys env P <;> rfl

theorem loadIndex_anchor_of_none (h : indexAccepted indexFile P = none) :
    (loadIndex indexFile P).anchor = P.anchor := by
  unfold indexAccepted at h
  unfold loadIndex
  cases indexFile with
  | none => rfl
  | some buf =>
    dsimp only at h ⊢
    split
    · rfl
    rename_i hlen
    rw [if_neg hlen] at h
    split
    next hverify =>
      rw [hverify] at h
      cases h
    · rfl
    · rfl

theorem loadIndex_anchor_of_some (h : indexAccepted indexFile P = some generation) :
    (loadIndex indexFile P).anchor.present = true ∧
      (loadIndex indexFile P).anchor.generation = generation ∧
      (P.anchor.present = true → P.anchor.generation ≤ generation) := by
  unfold indexAccepted at h
  cases indexFile with
  | none => cases h
  | some buf =>
    dsimp only at h
    split at h
    · cases h
    rename_i hlen
    split at h
    case h_2 => cases h
    rename_i count hverify
    cases h
    rw [loadIndex_of_verify (Nat.not_lt.mp hlen) hverify]
    refine ⟨rfl, rfl, fun hpresent => ?_⟩
    obtain ⟨-, -, -, -, -, hanchor⟩ := sarPreserveVerify_ok_iff.mp hverify
    rw [if_pos hpresent] at hanchor
    exact (presAnchorAccepts_spec hanchor hpresent).1

/-- **The anchor behind a load** is that of the index it accepts, which is no older than the
    one in the key file, and else the one in the key file. -/
theorem sarPreserveLoad_anchor (env : LoadEnv) :
    let K := loadKeyFile env.keyFile P
    (loadAccepts env P = none ∧ (sarPreserveLoad env P).anchor = K.anchor) ∨
    ∃ generation, loadAccepts env P = some generation ∧
      (sarPreserveLoad env P).anchor.present = true ∧
      (sarPreserveLoad env P).anchor.generation = generation ∧
      (K.anchor.present = true → K.anchor.generation ≤ generation) := by
  have hkeys := ensureKeys_anchor env (loadKeyFile env.keyFile P)
  unfold loadAccepts sarPreserveLoad
  rcases hkeyed : ensureKeys env (loadKeyFile env.keyFile P) with ⟨Q, ok⟩
  rw [hkeyed] at hkeys
  cases ok with
  | false => exact .inl ⟨rfl, hkeys⟩
  | true =>
    cases hopens : env.dataOpens with
    | false => exact .inl ⟨rfl, hkeys⟩
    | true =>
      dsimp only
      rw [if_neg (by decide), if_neg (by decide), ← hkeys]
      cases haccept : indexAccepted env.indexFile Q with
      | none =>
        exact .inl ⟨rfl, loadIndex_anchor_of_none (P := { Q with dataOpen := true }) haccept⟩
      | some generation =>
        exact .inr ⟨generation, rfl,
          loadIndex_anchor_of_some (P := { Q with dataOpen := true }) haccept⟩

/-! ### One step -/

theorem StoreOp.KeyFree.apply_anchor {op : StoreOp} (hop : op.KeyFree) :
    (op.apply bc P).anchor = P.anchor := by
  have hloaded : op.Loaded := by
    cases op with
    | load env => exact hop
    | _ => trivial
  exact (hloaded.frame bc P).anchor_eq

theorem sarPreserveSerialize_need (macKey : Mac) (records : List PreserveRecord) :
    sarPreserveSerialize macKey records generation
        (UInt64.ofNat (sarPreserveSerializedSize (UInt64.ofNat records.length))) =
      .ok (indexBytes macKey records generation) := by
  have hsize : sarPreserveSerializedSize (UInt64.ofNat records.length) < 2 ^ 64 :=
    Nat.mod_lt _ (by decide)
  rw [sarPreserveSerialize, UInt64.toNat_ofNat', Nat.mod_eq_of_lt hsize, if_neg (Nat.lt_irrefl _)]

def DriverStore.persisted (S : DriverStore) (keyWritten : Bool) : DriverStore :=
  let generation := S.mem.generation + 1
  let buf := indexBytes S.mem.macKey S.mem.records generation
  let mem := { S.mem with
    dirty := false
    generation := generation
    anchor := ⟨true, generation, (headerOf buf).headMac⟩ }
  { mem := mem
    keyFile := sarPresWriteBlob keyWritten mem S.keyFile
    indexFile := some buf }

theorem DriverStore.persist_cases (env : PersistEnv) :
    ((S.mem.ready = true ∧ S.mem.dirty = true ∧ env.pool = true ∧ env.indexWritten = true) ∧
      S.persist env = S.persisted env.keyWritten) ∨
    (¬ (S.mem.ready = true ∧ S.mem.dirty = true ∧ env.pool = true ∧ env.indexWritten = true) ∧
      (S.persist env).mem.anchor = S.mem.anchor) := by
  unfold DriverStore.persist
  by_cases hturn : S.mem.ready = true ∧ S.mem.dirty = true
  case neg =>
    rw [if_neg hturn]
    exact .inr ⟨fun h => hturn ⟨h.1, h.2.1⟩, rfl⟩
  rw [if_pos hturn]
  unfold DriverStore.sarPresPersistIndex
  dsimp only
  rw [sarPreserveSerialize_need]
  cases hpool : env.pool with
  | false => exact .inr ⟨fun h => (by cases h.2.2.1), rfl⟩
  | true =>
    cases hindex : env.indexWritten with
    | false => exact .inr ⟨fun h => (by cases h.2.2.2), rfl⟩
    | true => exact .inl ⟨⟨hturn.1, hturn.2, rfl, rfl⟩, rfl⟩

theorem DriverStore.anchored_le_iff {S' : DriverStore} :
    S.anchored ≤ S'.anchored ↔ (S.mem.anchor.present = true →
      S'.mem.anchor.present = true ∧ S.mem.anchor.generation ≤ S'.mem.anchor.generation) := by
  unfold DriverStore.anchored
  cases S.mem.anchor.present with
  | false => simp
  | true => cases S'.mem.anchor.present <;> simp [UInt64.le_iff_toNat_le]

/-- **One step** keeps the anchored generation from going down exactly if it meets the
    condition. -/
theorem anchorMet_iff (act : AnchorAct) :
    AnchorMet S act ↔ S.anchored ≤ (S.step bc act).anchored := by
  rw [DriverStore.anchored_le_iff]
  cases act with
  | start env =>
    have hmem : (S.step bc (.start env)).mem = sarPreserveLoad (S.loadEnv env) S.created := rfl
    rw [hmem]
    rcases sarPreserveLoad_anchor (S.loadEnv env) with
      ⟨hnone, hanchor⟩ | ⟨generation, hsome, hpresent, hgen, hnewer⟩
    · have hnone : S.accepts env = none := hnone
      simp only [AnchorMet, hnone, hanchor, reduceCtorEq, false_and, exists_false, false_or]
    · have hsome : S.accepts env = some generation := hsome
      simp only [AnchorMet, hsome, hpresent, hgen, Option.some.injEq, true_and]
      refine imp_congr_right fun _ => ⟨?_, fun hle => .inl ⟨generation, rfl, hle⟩⟩
      rintro (⟨_, rfl, hle⟩ | ⟨hfile, hle⟩)
      · exact hle
      · exact UInt64.le_trans hle (hnewer hfile)
  | persist env =>
    show AnchorMet S (.persist env) ↔ (_ → (S.persist env).mem.anchor.present = true ∧
      _ ≤ (S.persist env).mem.anchor.generation)
    rcases S.persist_cases env with ⟨⟨hready, hdirty, hpool, hindex⟩, heq⟩ | ⟨hidle, heq⟩
    · rw [heq]
      simp only [AnchorMet, hready, hdirty, hpool, hindex, DriverStore.persisted, true_and,
        forall_const]
    · rw [heq]
      refine iff_of_true (fun h₁ h₂ h₃ h₄ => absurd ⟨h₁, h₂, h₃, h₄⟩ hidle) fun h => ?_
      exact ⟨h, UInt64.le_refl _⟩
  | setBudget retention100ns capacityBytes written =>
    have hanchor : (S.setBudget retention100ns capacityBytes written).mem.anchor =
        S.mem.anchor := by
      unfold DriverStore.setBudget sarPreserveSetBudget
      split <;> rfl
    refine iff_of_true trivial fun h => ?_
    show (S.setBudget retention100ns capacityBytes written).mem.anchor.present = true ∧
      _ ≤ (S.setBudget retention100ns capacityBytes written).mem.anchor.generation
    rw [hanchor]
    exact ⟨h, UInt64.le_refl _⟩
  | call op hop =>
    refine iff_of_true trivial fun h => ?_
    show (op.apply bc S.mem).anchor.present = true ∧ _ ≤ (op.apply bc S.mem).anchor.generation
    rw [hop.apply_anchor]
    exact ⟨h, UInt64.le_refl _⟩

/-! ### Runs -/

def DriverStore.run (bc : BCrypt) (S : DriverStore) (acts : List AnchorAct) : DriverStore :=
  Runs.run (DriverStore.step bc) S acts

theorem anchored_start (h : S.accepts env = some generation) :
    (S.start env).anchored = (generation.toNat : WithBot ℕ) := by
  rcases sarPreserveLoad_anchor (S.loadEnv env) with
    ⟨hnone, -⟩ | ⟨_, hsome, hpresent, hgen, -⟩
  · rw [DriverStore.accepts, hnone] at h
    cases h
  · rw [DriverStore.accepts, hsome] at h
    cases h
    have hpresent : (S.start env).mem.anchor.present = true := hpresent
    have hgen : (S.start env).mem.anchor.generation = _ := hgen
    rw [DriverStore.anchored, hpresent, if_pos rfl, hgen]

/-- **The anchor never moves back** in a run, and no index older than one that was anchored
    before is accepted in it, exactly if every step of the run meets the condition. -/
theorem anchor_never_back_iff (bc : BCrypt) (S : DriverStore) (acts : List AnchorAct) :
    ((∀ front mid back, acts = front ++ (mid ++ back) →
        (S.run bc front).anchored ≤ (S.run bc (front ++ mid)).anchored) ∧
      ∀ front mid env back, acts = front ++ (mid ++ .start env :: back) →
        ∀ generation, (S.run bc (front ++ mid)).accepts env = some generation →
          (S.run bc front).anchored ≤ (generation.toNat : WithBot ℕ)) ↔
    Each (DriverStore.step bc) AnchorMet S acts := by
  have hsteps : Each (DriverStore.step bc) AnchorMet S acts ↔
      Each (DriverStore.step bc) (fun S act => S.anchored ≤ (S.step bc act).anchored) S acts :=
    each_congr_inv (fun _ _ (_ : True) => trivial) (fun S act _ => anchorMet_iff act) trivial
  rw [hsteps, each_le_iff]
  refine ⟨And.left, fun hpoints => ⟨hpoints, ?_⟩⟩
  -- the index that a start takes in is the anchor behind it
  rintro front mid env back rfl generation haccepts
  have hle := hpoints front (mid ++ [.start env]) back (by simp)
  rw [← List.append_assoc, run_append] at hle
  rw [← anchored_start haccepts]
  exact hle

theorem accepts_of_newer {records : List PreserveRecord}
    (hfile : S.keyFile = some (presKeyBlobCodec.put (sarPresFillBlob P)))
    (hread : env.keyRead = true) (hopens : env.dataOpens = true)
    (hindex : env.indexFile = some (indexBytes P.macKey records generation))
    (hfits : HEADER_SIZE + records.length * PRESERVE_DISK_RECORD_SIZE < 2 ^ 64)
    (hnewer : P.anchor.generation < generation) : S.accepts env = some generation := by
  have hlen : ¬ (indexBytes P.macKey records generation).length < HEADER_SIZE := by
    rw [length_indexBytes]
    exact Nat.not_lt.mpr (Nat.le_add_right _ _)
  have haccepts : presAnchorAccepts (if P.anchor.present then some P.anchor else none)
      (headerOf (indexBytes P.macKey records generation)) = true := by
    rw [headerOf_indexBytes]
    cases hpresent : P.anchor.present with
    | false => rfl
    | true =>
      have hne : generation ≠ P.anchor.generation := fun h => UInt64.lt_irrefl _ (h ▸ hnewer)
      simp [presAnchorAccepts, hpresent, fileHeader, UInt64.not_lt.mpr (UInt64.le_of_lt hnewer),
        hne]
  have hverify : sarPreserveVerify (indexBytes P.macKey records generation) P.macKey
      (if P.anchor.present then some P.anchor else none) =
        .ok (.ok (UInt64.ofNat records.length)) :=
    sarPreserveVerify_ok_iff.mpr ⟨records, generation, rfl, hfits, rfl, haccepts⟩
  have hkeyFile : (S.loadEnv env).keyFile = some (presKeyBlobCodec.put (sarPresFillBlob P)) := by
    rw [DriverStore.loadEnv, hread, if_pos rfl, hfile]
  rw [DriverStore.accepts, loadAccepts, hkeyFile, loadKeyFile_put, ensureKeys, if_pos rfl]
  show (if env.dataOpens = false then none else indexAccepted env.indexFile _) = _
  rw [hopens, if_neg (by decide), hindex, indexAccepted, if_neg hlen]
  rw [hverify, headerOf_indexBytes]
  rfl

def newStore : DriverStore := ⟨sarPreserveCreate, none, none⟩

def grantedStart (indexFile : Option (List UInt8)) : AnchorAct :=
  .start ⟨true, some (Vector.replicate _ 0), some (Vector.replicate _ 0), true, true, indexFile,
    true⟩

/-- Sixteen bytes of the file `a` are staged and the index is persisted. -/
def stageAndPersist (offset : UInt64) : List AnchorAct :=
  [.call (.stage (stageZeros (pathOf [97] fileA_fits) offset 16) (grantedEnv 1)) trivial,
    .persist ⟨true, true, true⟩]

def threeIndexes : List AnchorAct :=
  grantedStart none :: (stageAndPersist 0 ++ stageAndPersist 16 ++ stageAndPersist 32)

def afterLoss : List AnchorAct := threeIndexes ++ grantedStart none :: stageAndPersist 0

theorem run_persist (front : List AnchorAct)
    (hready : (S.run bc front).mem.ready = true) (hdirty : (S.run bc front).mem.dirty = true) :
    S.run bc (front ++ [.persist ⟨true, true, true⟩]) = (S.run bc front).persisted true := by
  rcases (S.run bc front).persist_cases ⟨true, true, true⟩ with ⟨-, heq⟩ | ⟨hidle, -⟩
  · exact (run_append _ _ _ _).trans heq
  · exact absurd ⟨hready, hdirty, rfl, rfl⟩ hidle

/-- With three indexes anchored, a start without the index file and one persist set the anchor
    back to 1, and the second index of before is accepted again. -/
theorem anchor_moves_back :
    (newStore.run identityCrypt threeIndexes).anchored = ((3 : ℕ) : WithBot ℕ) ∧
      (newStore.run identityCrypt afterLoss).anchored = ((1 : ℕ) : WithBot ℕ) ∧
      (newStore.run identityCrypt afterLoss).accepts
        ⟨true, none, none, true, true, (newStore.run identityCrypt (threeIndexes.take 5)).indexFile,
          true⟩ = some 2 := by
  refine ⟨by decide +kernel, by decide +kernel, ?_⟩
  have hlast : newStore.run identityCrypt afterLoss =
      (newStore.run identityCrypt afterLoss.dropLast).persisted true :=
    run_persist afterLoss.dropLast (by decide +kernel) (by decide +kernel)
  have hsecond : newStore.run identityCrypt (threeIndexes.take 5) =
      (newStore.run identityCrypt (threeIndexes.take 4)).persisted true :=
    run_persist (threeIndexes.take 4) (by decide +kernel) (by decide +kernel)
  rw [hlast, hsecond]
  have hgen : (newStore.run identityCrypt (threeIndexes.take 4)).mem.generation + 1 = 2 := by
    decide +kernel
  have hkey : (newStore.run identityCrypt (threeIndexes.take 4)).mem.macKey =
      (newStore.run identityCrypt afterLoss.dropLast).mem.macKey := by
    decide +kernel
  have hindex : ((newStore.run identityCrypt (threeIndexes.take 4)).persisted true).indexFile =
      some (indexBytes (newStore.run identityCrypt afterLoss.dropLast).mem.macKey
        (newStore.run identityCrypt (threeIndexes.take 4)).mem.records 2) := by
    rw [DriverStore.persisted, hgen, hkey]
  exact accepts_of_newer rfl rfl rfl hindex (by decide +kernel) (by decide +kernel)

end SemanticsAr
