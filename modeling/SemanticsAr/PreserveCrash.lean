import SemanticsAr.PreserveAnchor
import SemanticsAr.PreserveLinks

/-!
# Preserved originals behind a crash

The index of the preservation store is written behind its payloads, by a thread that holds the
lock only while it serialises the table and while it sets the anchor.  Meanwhile holds are
staged, promoted and discarded, and the space of a discarded hold goes to the next one.  The
machine here takes the steps of that thread one by one and lets it crash between any two of
them.  What it shows: the index on the disk is always a table that the store once had, and of
the holds in it those that were never discarded still have their payloads.  The keys are the
weak point: nothing waits for the key file to be written.
-/

namespace SemanticsAr

open Runs List

variable {bc : BCrypt} {macKey : Mac} {buf : List UInt8} {offset length generation : UInt64}
  {outCap : UInt32} {Q P : Preserve} {a : KeystoreAnchor} {r r' : PreserveRecord} {args : StageArgs}
  {records : List PreserveRecord} {indexFile : Option (List UInt8)} {op : StoreOp}
  {reply dirty written keyWritten : Bool}

/-! ### The machine -/

def StoreOp.Staging : StoreOp → Prop
  | .stage _ _ => True
  | .setBudget _ _ => False
  | op => op.Trims

/-- Where the persist thread is inside `SarPresPersistIndex`: the table is serialised, the
    index file is renamed into place, the anchor is set. -/
inductive IndexPoint where
  | idle
  | serialized (buf : List UInt8) (generation : UInt64)
  | renamed (buf : List UInt8) (generation : UInt64)
  | anchored

variable {point : IndexPoint}

structure CrashStore extends DriverStore where
  point : IndexPoint

variable {S : CrashStore}

structure ReloadEnv where
  freshStoreKey : Option Mac
  freshMacKey : Option Mac
  freshWritten : Bool
  anchorWritten : Bool

variable {env : ReloadEnv}

/-- A call, a step of the persist thread with the outcome of its allocation or write, and a crash
    followed by a driver start.  A crash inside a staging call is one behind a call whose last write
    was torn. -/
inductive CrashAct where
  | call (op : StoreOp) (hop : op.Staging)
  | persist (reply : Bool)
  | reload (env : ReloadEnv)

variable {acts : List CrashAct} {act : CrashAct}

def CrashStore.persistStep (S : CrashStore) (reply : Bool) : CrashStore :=
  match S.point with
  | .idle =>
    if S.mem.ready = true ∧ S.mem.dirty = true then
      let generation := S.mem.generation + 1
      let need := sarPreserveSerializedSize (UInt64.ofNat S.mem.records.length)
      if reply = false then { S with mem := { S.mem with dirty := true } }
      else
        match sarPreserveSerialize S.mem.macKey S.mem.records generation
            (UInt64.ofNat need) with
        | .error _ => { S with mem := { S.mem with dirty := true } }
        | .ok buf =>
          { S with
            mem := { S.mem with dirty := false }
            point := .serialized buf generation }
    else S
  | .serialized buf generation =>
    if reply = false then { S with mem := { S.mem with dirty := true }, point := .idle }
    else { S with indexFile := some buf, point := .renamed buf generation }
  | .renamed buf generation =>
    let anchor : KeystoreAnchor := ⟨true, generation, (headerOf buf).headMac⟩
    { S with
      mem := { S.mem with generation := generation, anchor := anchor }
      point := .anchored }
  | .anchored => { S with keyFile := sarPresWriteBlob reply S.mem S.keyFile, point := .idle }

def CrashStore.startEnv (S : CrashStore) (env : ReloadEnv) : StartEnv where
  keyRead := true
  freshStoreKey := env.freshStoreKey
  freshMacKey := env.freshMacKey
  freshWritten := env.freshWritten
  dataOpens := true
  indexFile := S.indexFile
  anchorWritten := env.anchorWritten

def CrashStore.reload (S : CrashStore) (env : ReloadEnv) : CrashStore :=
  { S.start (S.startEnv env) with point := .idle }

def CrashStore.step (bc : BCrypt) (S : CrashStore) : CrashAct → CrashStore
  | .call op _ => { S with mem := op.apply bc S.mem }
  | .persist reply => S.persistStep reply
  | .reload env => S.reload env

def newCrashStore : CrashStore := { newStore with point := .idle }

def crashRun (bc : BCrypt) (acts : List CrashAct) : CrashStore :=
  run (CrashStore.step bc) newCrashStore acts

theorem crashRun_concat : crashRun bc (acts ++ [act]) = (crashRun bc acts).step bc act :=
  run_append _ _ _ _

theorem persist_uninterrupted (hidle : S.point = .idle) (hready : S.mem.ready = true)
    (hdirty : S.mem.dirty = true) :
    run (CrashStore.step bc) S [.persist true, .persist true, .persist true,
      .persist keyWritten] = { S.persisted keyWritten with point := .idle } := by
  have hfirst : S.persistStep true =
      { S with
        mem := { S.mem with dirty := false }
        point := .serialized (indexBytes S.mem.macKey S.mem.records (S.mem.generation + 1))
          (S.mem.generation + 1) } := by
    unfold CrashStore.persistStep
    rw [hidle]
    rw [if_pos ⟨hready, hdirty⟩, if_neg (by decide), sarPreserveSerialize_need]
  simp only [run_cons, run_nil, CrashStore.step, hfirst]
  rfl

theorem CrashStore.persistStep_mem : (S.persistStep reply).mem.records = S.mem.records ∧
      (S.persistStep reply).mem.data = S.mem.data ∧
      (S.persistStep reply).mem.storeKey = S.mem.storeKey := by
  fun_cases CrashStore.persistStep S reply <;> exact ⟨rfl, rfl, rfl⟩

/-! ### Which hold is which -/

def CrashAct.appends (bc : BCrypt) (S : CrashStore) : CrashAct → List PreserveRecord
  | .call op _ => op.appends bc S.mem
  | _ => []

def StagedIn (bc : BCrypt) (acts : List CrashAct) (r : PreserveRecord) (args : StageArgs) : Prop :=
  ∃ front env hop back r₀, acts = front ++ .call (.stage args env) hop :: back ∧
    r₀ ∈ stageCallLog bc args env (crashRun bc front).mem ∧ SameHold r₀ r

inductive HeldSince (bc : BCrypt) : List CrashAct → PreserveRecord → StageArgs → Prop where
  | staged {acts : List CrashAct} {args : StageArgs} {env : StageEnv}
      {hop : (StoreOp.stage args env).Staging} {r : PreserveRecord}
      (happended : r ∈ stageCallLog bc args env (crashRun bc acts).mem)
      (hheld : r ∈ (crashRun bc (acts ++ [.call (.stage args env) hop])).mem.records) :
      HeldSince bc (acts ++ [.call (.stage args env) hop]) r args
  | kept {acts : List CrashAct} {act : CrashAct} {r r' : PreserveRecord} {args : StageArgs}
      (hsince : HeldSince bc acts r args) (hsame : SameHold r r')
      (hheld : r' ∈ (crashRun bc (acts ++ [act])).mem.records)
      (hnew : r' ∉ act.appends bc (crashRun bc acts)) :
      HeldSince bc (acts ++ [act]) r' args

/-- **The condition on a step.**  Staging is intact; the generation of an index does not wrap;
    and a crash does not find the index on the disk without the key file. -/
def CrashMet (S : CrashStore) : CrashAct → Prop
  | .call op _ => StageIntact S.mem op
  | .persist _ => S.point = .idle → S.mem.generation.toNat + 1 < 2 ^ 64
  | .reload _ => S.keyFile = none → S.indexFile = none

theorem SameHold.symm (h : SameHold r r') : SameHold r' r := by
  rw [SameHold, h]

theorem SameHold.trans {r'' : PreserveRecord} (h : SameHold r r') (h' : SameHold r' r'') :
    SameHold r r'' := by
  rw [SameHold, h', h]

theorem StagedIn.origin (h : StagedIn bc acts r args) : Origin args r := by
  obtain ⟨front, env, hop, back, r₀, -, happended, hsame⟩ := h
  exact (stageCallLog_origin _ happended).of_sameHold hsame

theorem StagedIn.concat (h : StagedIn bc acts r args) : StagedIn bc (acts ++ [act]) r args := by
  obtain ⟨front, env, hop, back, r₀, rfl, happended, hsame⟩ := h
  exact ⟨front, env, hop, back ++ [act], r₀, by simp, happended, hsame⟩

theorem StagedIn.of_sameHold (h : StagedIn bc acts r args) (hsame : SameHold r r') :
    StagedIn bc acts r' args := by
  obtain ⟨front, env, hop, back, r₀, hacts, happended, hsame₀⟩ := h
  exact ⟨front, env, hop, back, r₀, hacts, happended, hsame₀.trans hsame⟩

/-! ### A reload -/

theorem CrashStore.reload_mem (env : ReloadEnv)
    (hkey : S.keyFile = some (presKeyBlobCodec.put (sarPresFillBlob Q))) :
    (S.reload env).mem =
      { loadIndex S.indexFile { loadKeyFile S.keyFile S.created with dataOpen := true } with
        ready := true } := by
  have hhave : (loadKeyFile S.keyFile S.created).haveKey = true := by
    rw [hkey, loadKeyFile_put]
  have hfile : (S.loadEnv (S.startEnv env)).keyFile = S.keyFile := rfl
  exact sarPreserveLoad_haveKey (by rw [hfile]; exact hhave) rfl

theorem CrashStore.reload_keyFile (env : ReloadEnv)
    (hkey : S.keyFile = some (presKeyBlobCodec.put (sarPresFillBlob Q))) :
    (S.reload env).keyFile = S.keyFile ∨ (S.reload env).keyFile =
        some (presKeyBlobCodec.put (sarPresFillBlob (S.reload env).mem)) := by
  have hhave : (loadKeyFile S.keyFile S.created).haveKey = true := by
    rw [hkey, loadKeyFile_put]
  have hfresh : S.freshKeyFile (S.startEnv env) = S.keyFile := by
    refine if_neg fun h => ?_
    have hnone : (loadKeyFile S.keyFile S.created).haveKey = false := h.1
    rw [hhave] at hnone
    cases hnone
  have hwrite : ∀ written P, sarPresWriteBlob written P S.keyFile = S.keyFile ∨
      sarPresWriteBlob written P S.keyFile = some (presKeyBlobCodec.put (sarPresFillBlob P)) := by
    intro written P
    cases written with
    | false => exact .inl rfl
    | true => exact .inr rfl
  show (S.start (S.startEnv env)).keyFile = S.keyFile ∨ (S.start (S.startEnv env)).keyFile = _
  unfold DriverStore.start
  rw [hfresh]
  dsimp only
  split
  · exact .inl rfl
  · split
    · exact hwrite _ _
    · exact .inl rfl

theorem CrashStore.reload_fresh (env : ReloadEnv) (hkey : S.keyFile = none)
    (hindex : S.indexFile = none) :
    (S.reload env).mem.records = [] ∧ (S.reload env).mem.anchor = sarPreserveCreate.anchor ∧
      (S.reload env).mem.recordCapacity = SAR_PRESERVE_RECORD_CAPACITY ∧
      ((S.reload env).keyFile = none ∨ ∃ Q,
        (S.reload env).keyFile = some (presKeyBlobCodec.put (sarPresFillBlob Q)) ∧
        Q.macKey = (S.reload env).mem.macKey ∧ Q.storeKey = (S.reload env).mem.storeKey ∧
        Q.anchor = sarPreserveCreate.anchor) := by
  obtain ⟨⟨mem, keyFile, indexFile⟩, point⟩ := S
  obtain rfl : keyFile = none := hkey
  obtain rfl : indexFile = none := hindex
  obtain ⟨freshStoreKey, freshMacKey, freshWritten, anchorWritten⟩ := env
  cases freshStoreKey with
  | none => exact ⟨rfl, rfl, rfl, .inl rfl⟩
  | some storeKey =>
    cases freshMacKey with
    | none => exact ⟨rfl, rfl, rfl, .inl rfl⟩
    | some macKey =>
      refine ⟨rfl, rfl, rfl, ?_⟩
      cases freshWritten with
      | false => exact .inl rfl
      | true => exact .inr ⟨_, rfl, rfl, rfl, rfl⟩

/-! ### What is on the disk -/

structure TableKept (bc : BCrypt) (acts : List CrashAct) (records : List PreserveRecord) :
    Prop where
  fits : records.length ≤ SAR_PRESERVE_RECORD_CAPACITY.toNat
  extents : TableOk records
  paths : RangesOk ApartOnPath records
  origin : ∀ r ∈ records, ∃ args, StagedIn bc acts r args

def IndexKept (bc : BCrypt) (acts : List CrashAct) (macKey : Mac) (buf : List UInt8) : Prop :=
  ∃ records generation, buf = indexBytes macKey records generation ∧ TableKept bc acts records

def AnchorFits (generation : UInt64) (indexFile : Option (List UInt8)) (a : KeystoreAnchor) :
    Prop :=
  a.present = true → a.generation ≤ generation ∧
    ∃ buf, indexFile = some buf ∧ presAnchorAccepts (some a) (headerOf buf) = true

def KeyFileOk (P : Preserve) (indexFile : Option (List UInt8)) (keyFile : Option (List UInt8)) :
    Prop :=
  ∃ Q, keyFile = some (presKeyBlobCodec.put (sarPresFillBlob Q)) ∧ Q.macKey = P.macKey ∧
    Q.storeKey = P.storeKey ∧ AnchorFits P.generation indexFile Q.anchor

def IndexPointOk (bc : BCrypt) (acts : List CrashAct) (P : Preserve)
    (indexFile : Option (List UInt8)) :
    IndexPoint → Prop
  | .idle => True
  | .serialized buf generation => IndexKept bc acts P.macKey buf ∧
      (headerOf buf).generation = generation ∧ P.generation < generation
  | .renamed buf generation => indexFile = some buf ∧
      (headerOf buf).generation = generation ∧ P.generation < generation
  | .anchored => True

/-- **The invariant** between any two steps of a run. -/
structure CrashInv (bc : BCrypt) (acts : List CrashAct) (S : CrashStore) : Prop where
  extents : ExtentInv S.mem
  capacity : S.mem.recordCapacity = SAR_PRESERVE_RECORD_CAPACITY
  table : TableKept bc acts S.mem.records
  index : ∀ buf, S.indexFile = some buf → IndexKept bc acts S.mem.macKey buf
  keys : S.keyFile = none ∨ KeyFileOk S.mem S.indexFile S.keyFile
  anchor : AnchorFits S.mem.generation S.indexFile S.mem.anchor
  point : IndexPointOk bc acts S.mem S.indexFile S.point

theorem TableKept.concat (h : TableKept bc acts records) :
    TableKept bc (acts ++ [act]) records := by
  refine ⟨h.fits, h.extents, h.paths, fun r hr => ?_⟩
  obtain ⟨args, hstaged⟩ := h.origin r hr
  exact ⟨args, hstaged.concat⟩

theorem IndexKept.concat (h : IndexKept bc acts macKey buf) :
    IndexKept bc (acts ++ [act]) macKey buf := by
  obtain ⟨records, generation, hbuf, htable⟩ := h
  exact ⟨records, generation, hbuf, htable.concat⟩

theorem IndexPointOk.concat (h : IndexPointOk bc acts P indexFile point) (act : CrashAct) :
    IndexPointOk bc (acts ++ [act]) P indexFile point := by
  cases point with
  | idle => trivial
  | serialized buf generation => exact ⟨h.1.concat, h.2⟩
  | renamed buf generation => exact h
  | anchored => trivial

theorem AnchorFits.newer (h : AnchorFits generation indexFile a)
    (hnewer : generation < (headerOf buf).generation) :
    AnchorFits generation (some buf) a := by
  intro hpresent
  obtain ⟨hle, -⟩ := h hpresent
  have hlt : a.generation < (headerOf buf).generation := UInt64.lt_of_le_of_lt hle hnewer
  have hne : (headerOf buf).generation ≠ a.generation := fun heq =>
    UInt64.lt_irrefl _ (heq ▸ hlt)
  refine ⟨hle, buf, rfl, ?_⟩
  simp [presAnchorAccepts, hpresent, UInt64.not_lt.mpr (UInt64.le_of_lt hlt), hne]

theorem AnchorFits.mono {generation' : UInt64} (h : AnchorFits generation indexFile a)
    (hle : generation ≤ generation') :
    AnchorFits generation' indexFile a := by
  intro hpresent
  obtain ⟨hgen, hbuf⟩ := h hpresent
  exact ⟨UInt64.le_trans hgen hle, hbuf⟩

theorem anchorFits_head (buf : List UInt8) : AnchorFits (headerOf buf).generation (some buf)
      ⟨true, (headerOf buf).generation, (headerOf buf).headMac⟩ := by
  intro _
  refine ⟨UInt64.le_refl _, buf, rfl, ?_⟩
  simp [presAnchorAccepts]

theorem anchorFits_absent (h : a.present = false) : AnchorFits generation indexFile a := by
  intro hpresent
  rw [h] at hpresent
  cases hpresent

/-! ### Steps -/

theorem CrashInv.withPoint (h : CrashInv bc acts S)
    (hpoint : IndexPointOk bc acts S.mem S.indexFile point) :
    CrashInv bc acts { S with point := point } :=
  ⟨h.extents, h.capacity, h.table, h.index, h.keys, h.anchor, hpoint⟩

theorem CrashInv.withMem (h : CrashInv bc acts S) (hframe : CallFrame S.mem P)
    (hextents : ExtentInv P) (htable : TableKept bc (acts ++ [act]) P.records) :
    CrashInv bc (acts ++ [act]) { S with mem := P } := by
  obtain ⟨Q, _, _, _, ⟨_, _, _, _, _, _, rfl⟩, rfl⟩ := hframe
  exact {
    extents := hextents
    capacity := h.capacity
    table := htable
    index := fun buf hbuf => (h.index buf hbuf).concat
    keys := h.keys
    anchor := h.anchor
    point := by
      have hpoint := h.point.concat act
      generalize S.point = point at hpoint ⊢
      cases point with
      | idle => trivial
      | serialized buf generation => exact hpoint
      | renamed buf generation => exact hpoint
      | anchored => trivial }

theorem CrashInv.withDirty (h : CrashInv bc acts S) :
    CrashInv bc (acts ++ [act]) { S with mem := { S.mem with dirty := dirty } } :=
  h.withMem (TableFrame.callFrame ⟨_, _, _, _, _, _, rfl⟩)
    (h.extents.frame rfl rfl rfl rfl rfl) h.table.concat

theorem StoreOp.Staging.inRun (hop : op.Staging) : op.InRun := by
  cases op with
  | load env => exact absurd hop id
  | rename oldPath newPath => exact absurd hop id
  | _ => trivial

theorem StoreOp.Staging.loaded (hop : op.Staging) : op.Loaded := by
  cases op with
  | load env => exact absurd hop id
  | _ => trivial

theorem StoreOp.Staging.mem_apply (hop : op.Staging) (hr' : r' ∈ (op.apply bc P).records) :
    r' ∈ op.appends bc P ∨ ∃ r ∈ P.records, SameHold r r' := by
  by_cases hstage : ∃ args env, op = .stage args env
  · obtain ⟨args, env, rfl⟩ := hstage
    exact mem_sarPreserveStage hr'
  · right
    refine (StoreOp.trimStep bc P ?_).mem hr'
    cases op with
    | stage args env => exact absurd ⟨args, env, rfl⟩ hstage
    | setBudget retention100ns capacityBytes => exact absurd hop id
    | _ => exact hop

theorem CrashInv.call (h : CrashInv bc acts (crashRun bc acts)) (hop : op.Staging)
    (hmet : StageIntact (crashRun bc acts).mem op) :
    CrashInv bc (acts ++ [.call op hop]) ((crashRun bc acts).step bc (.call op hop)) := by
  have hframe := hop.loaded.frame bc (crashRun bc acts).mem
  have hextents : ExtentInv (op.apply bc (crashRun bc acts).mem) :=
    h.extents.apply (extentSafe_of_intact hop.inRun hmet)
  refine h.withMem hframe hextents ⟨?_, hextents.table, ?_, ?_⟩
  · have hcount := hextents.count_le
    obtain ⟨Q, _, _, _, ⟨_, _, _, _, _, _, rfl⟩, heq⟩ := hframe
    rw [heq] at hcount ⊢
    exact h.capacity ▸ hcount
  · exact StoreOp.rangesOk apartOnPath_holdRelation hop.inRun h.table.paths
  · intro r' hr'
    rcases hop.mem_apply hr' with happended | ⟨r, hr, hsame⟩
    · cases op with
      | stage args env =>
        exact ⟨args, acts, env, hop, [], r', rfl, happended, rfl⟩
      | _ => exact absurd happended not_mem_nil
    · obtain ⟨args, hstaged⟩ := h.table.origin r hr
      exact ⟨args, (hstaged.of_sameHold hsame).concat⟩

theorem CrashInv.persist (h : CrashInv bc acts S)
    (hmet : S.point = .idle → S.mem.generation.toNat + 1 < 2 ^ 64) :
    CrashInv bc (acts ++ [.persist reply]) (S.persistStep reply) := by
  have hsame : CrashInv bc (acts ++ [.persist reply]) S :=
    h.withMem TableFrame.refl.callFrame h.extents h.table.concat
  have hpoint := hsame.point
  unfold CrashStore.persistStep
  cases hat : S.point with
  | idle =>
    dsimp only
    split
    case isFalse => exact hsame
    split
    case isTrue => exact h.withDirty.withPoint trivial
    rw [sarPreserveSerialize_need]
    refine h.withDirty.withPoint ⟨⟨_, _, rfl, hsame.table⟩, ?_, ?_⟩
    · rw [headerOf_indexBytes, fileHeader]
    · rw [UInt64.lt_iff_toNat_lt, UInt64.toNat_add]
      show S.mem.generation.toNat < (S.mem.generation.toNat + 1) % 2 ^ 64
      rw [Nat.mod_eq_of_lt (hmet hat)]
      exact Nat.lt_succ_self _
  | serialized buf generation =>
    dsimp only
    rw [hat] at hpoint
    obtain ⟨hindex, rfl, hnewer⟩ := hpoint
    split
    · exact h.withDirty.withPoint trivial
    · refine ⟨hsame.extents, hsame.capacity, hsame.table, ?_, ?_, hsame.anchor.newer hnewer,
        rfl, rfl, hnewer⟩
      · intro buf' hbuf
        obtain rfl : buf = buf' := Option.some.inj hbuf
        exact hindex
      · refine hsame.keys.imp_right ?_
        rintro ⟨Q, hfile, hmac, hstore, hfits⟩
        exact ⟨Q, hfile, hmac, hstore, hfits.newer hnewer⟩
  | renamed buf generation =>
    dsimp only
    rw [hat] at hpoint
    obtain ⟨hindex, rfl, hnewer⟩ := hpoint
    refine ⟨hsame.extents.frame rfl rfl rfl rfl rfl, hsame.capacity, hsame.table, hsame.index,
      ?_, ?_, trivial⟩
    · refine hsame.keys.imp_right ?_
      rintro ⟨Q, hfile, hmac, hstore, hfits⟩
      exact ⟨Q, hfile, hmac, hstore, hfits.mono (UInt64.le_of_lt hnewer)⟩
    · show AnchorFits _ S.indexFile _
      rw [hindex]
      exact anchorFits_head buf
  | anchored =>
    refine ⟨hsame.extents, hsame.capacity, hsame.table, hsame.index, ?_, hsame.anchor, trivial⟩
    cases reply with
    | false => exact hsame.keys
    | true => exact .inr ⟨S.mem, rfl, rfl, rfl, hsame.anchor⟩

def reloadedMem (S : CrashStore) (Q : Preserve) (records : List PreserveRecord)
    (generation : UInt64) : Preserve :=
  { S.created with
    records := records
    freeDirty := true
    dataOpen := true
    storeKey := Q.storeKey
    macKey := Q.macKey
    haveKey := true
    generation := generation
    anchor := ⟨true, generation, (headerOf (indexBytes Q.macKey records generation)).headMac⟩
    retention100ns :=
      if Q.capacityBytes ≠ 0 then Q.retention100ns else S.created.retention100ns
    capacityBytes := if Q.capacityBytes ≠ 0 then Q.capacityBytes else S.created.capacityBytes
    ready := true
    nextLinkId := records.foldl nextLinkStep S.created.nextLinkId }

/-- **A reload takes the index in** that is on the disk. -/
theorem CrashStore.reload_index {limit : UInt64} (env : ReloadEnv)
    (hkey : S.keyFile = some (presKeyBlobCodec.put (sarPresFillBlob Q)))
    (hindex : S.indexFile = some (indexBytes Q.macKey records generation))
    (hcap : records.length ≤ SAR_PRESERVE_RECORD_CAPACITY.toNat)
    (hfits : AnchorFits limit S.indexFile Q.anchor) :
    (S.reload env).mem = reloadedMem S Q records generation := by
  have haccepts : presAnchorAccepts (if Q.anchor.present then some Q.anchor else none)
      (headerOf (indexBytes Q.macKey records generation)) = true := by
    cases hpresent : Q.anchor.present with
    | false => rfl
    | true =>
      obtain ⟨-, buf, hbuf, haccepts⟩ := hfits hpresent
      cases hindex.symm.trans hbuf
      exact haccepts
  rw [S.reload_mem env hkey, hkey, loadKeyFile_put, hindex]
  rw [loadIndex_indexBytes (P := { S.created with
    storeKey := Q.storeKey, macKey := Q.macKey, anchor := Q.anchor,
    retention100ns :=
      if Q.capacityBytes ≠ 0 then Q.retention100ns else S.created.retention100ns,
    capacityBytes := if Q.capacityBytes ≠ 0 then Q.capacityBytes else S.created.capacityBytes,
    haveKey := true, dataOpen := true }) rfl hcap haccepts]
  rfl

theorem CrashInv.reload_extents (h : CrashInv bc acts S) (env : ReloadEnv) :
    ExtentInv (S.reload env).mem := by
  have hcreated : ExtentInv S.created := extentInv_create.frame rfl rfl rfl rfl rfl
  refine @ExtentInv.load _ hcreated (S.loadEnv (S.startEnv env)) ?_
  intro buf hbuf
  obtain ⟨records, generation, rfl, htable⟩ := h.index buf hbuf
  exact ⟨_, records, generation, rfl, htable.extents⟩

theorem tableKept_nil : TableKept bc acts [] :=
  ⟨Nat.zero_le _, ⟨forall_mem_nil _, List.Pairwise.nil⟩, RangesOk.nil, forall_mem_nil _⟩

theorem CrashInv.reload (h : CrashInv bc acts S)
    (hmet : S.keyFile = none → S.indexFile = none) :
    CrashInv bc (acts ++ [.reload env]) (S.reload env) := by
  have hextents := h.reload_extents env
  rcases h.keys with hnone | ⟨Q, hkey, hmac, hstore, hfits⟩
  · -- nothing is on the disk
    have hindex := hmet hnone
    obtain ⟨hrecords, hanchor, hcapacity, hfile⟩ := S.reload_fresh env hnone hindex
    refine ⟨hextents, hcapacity, ?_, ?_, ?_, ?_, trivial⟩
    · rw [hrecords]
      exact tableKept_nil
    · intro buf hbuf
      cases hindex.symm.trans hbuf
    · refine hfile.imp_right ?_
      rintro ⟨Q, hfile, hmac, hstore, hQ⟩
      exact ⟨Q, hfile, hmac, hstore, anchorFits_absent (by rw [hQ]; rfl)⟩
    · exact anchorFits_absent (by rw [hanchor]; rfl)
  cases hindex : S.indexFile with
  | none =>
    -- the key file is there, but no index has been written yet
    have habsent : Q.anchor.present = false := by
      cases hpresent : Q.anchor.present with
      | false => rfl
      | true =>
        obtain ⟨-, buf, hbuf, -⟩ := hfits hpresent
        cases hindex.symm.trans hbuf
    have hmem := S.reload_mem env hkey
    rw [hkey, loadKeyFile_put, hindex] at hmem
    refine ⟨hextents, by rw [hmem]; rfl, ?_, ?_, .inr ?_, ?_, trivial⟩
    · rw [hmem]
      exact tableKept_nil
    · intro buf hbuf
      cases hindex.symm.trans hbuf
    · rcases S.reload_keyFile env hkey with hfile | hfile
      · exact ⟨Q, hfile.trans hkey, by rw [hmem]; rfl, by rw [hmem]; rfl,
          anchorFits_absent habsent⟩
      · exact ⟨_, hfile, rfl, rfl, anchorFits_absent (by rw [hmem]; exact habsent)⟩
    · exact anchorFits_absent (by rw [hmem]; exact habsent)
  | some buf =>
    obtain ⟨records, generation, rfl, htable⟩ := h.index buf hindex
    rw [← hmac] at hindex
    have hmem := S.reload_index env hkey hindex htable.fits hfits
    have hgen : (headerOf (indexBytes Q.macKey records generation)).generation = generation := by
      rw [headerOf_indexBytes, fileHeader]
    have hhead := anchorFits_head (indexBytes Q.macKey records generation)
    rw [hgen, ← hindex] at hhead
    refine ⟨hextents, by rw [hmem]; rfl, ?_, ?_, .inr ?_, by rw [hmem]; exact hhead, trivial⟩
    · rw [hmem]
      exact htable.concat
    · intro buf hbuf
      cases hindex.symm.trans hbuf
      rw [hmem]
      exact ⟨records, generation, rfl, htable.concat⟩
    · rcases S.reload_keyFile env hkey with hfile | hfile
      · refine ⟨Q, hfile.trans hkey, by rw [hmem]; rfl, by rw [hmem]; rfl, ?_⟩
        intro hpresent
        obtain ⟨-, buf, hbuf, haccepts⟩ := hfits hpresent
        cases hindex.symm.trans hbuf
        refine ⟨?_, _, hindex, haccepts⟩
        rw [hmem]
        have hle := (presAnchorAccepts_spec haccepts hpresent).1
        rwa [hgen] at hle
      · refine ⟨_, hfile, rfl, rfl, ?_⟩
        rw [hmem]
        exact hhead

/-- **The invariant holds in every run** whose steps meet the condition. -/
theorem crashInv_crashRun (hacts : Each (CrashStore.step bc) CrashMet newCrashStore acts) :
    CrashInv bc acts (crashRun bc acts) := by
  induction acts using List.reverseRecOn with
  | nil =>
    exact ⟨extentInv_create, rfl, tableKept_nil, fun _ hbuf => (by cases hbuf), .inl rfl,
      anchorFits_absent rfl, trivial⟩
  | append_singleton acts act ih =>
    obtain ⟨hbefore, hlast, -⟩ := each_append.mp hacts
    have h := ih hbefore
    rw [crashRun_concat]
    cases act with
    | call op hop => exact h.call hop hlast
    | persist reply => exact h.persist hlast
    | reload env => exact h.reload hlast

/-! ### Payloads -/

theorem HeldSince.origin (h : HeldSince bc acts r args) : Origin args r := by
  induction h with
  | staged happended _ => exact stageCallLog_origin _ happended
  | kept _ hsame _ _ ih => exact ih.of_sameHold hsame

/-- **What a reload finds**: no index, or one that it takes in with the keys and the payload
    file of before. -/
theorem CrashInv.reload_cases (h : CrashInv bc acts S)
    (hmet : S.keyFile = none → S.indexFile = none) :
    (S.indexFile = none ∧ (S.reload env).mem.records = []) ∨
    ∃ Q records generation, S.indexFile = some (indexBytes S.mem.macKey records generation) ∧
      TableKept bc acts records ∧ Q.storeKey = S.mem.storeKey ∧
      (S.reload env).mem = reloadedMem S Q records generation := by
  rcases h.keys with hnone | ⟨Q, hkey, hmac, hstore, hfits⟩
  · exact .inl ⟨hmet hnone, (S.reload_fresh env hnone (hmet hnone)).1⟩
  cases hindex : S.indexFile with
  | none =>
    left
    rw [S.reload_mem env hkey, hkey, loadKeyFile_put, hindex]
    exact ⟨rfl, rfl⟩
  | some buf =>
    right
    obtain ⟨records, generation, rfl, htable⟩ := h.index buf hindex
    rw [← hmac] at hindex
    exact ⟨Q, records, generation, rfl, htable, hstore,
      S.reload_index env hkey hindex htable.fits hfits⟩

theorem CrashInv.reload_payload (h : CrashInv bc acts S)
    (hmet : S.keyFile = none → S.indexFile = none) (hr : r ∈ (S.reload env).mem.records) :
    ∃ Q records generation, TableKept bc acts records ∧ Q.storeKey = S.mem.storeKey ∧
      (S.reload env).mem = reloadedMem S Q records generation := by
  rcases h.reload_cases hmet with ⟨-, hempty⟩ | ⟨Q, records, generation, -, hreload⟩
  · rw [hempty] at hr
    exact absurd hr not_mem_nil
  · exact ⟨Q, records, generation, hreload⟩

theorem CrashInv.spanKept (hlaw : bc.Lawful) (h : CrashInv bc acts S) {act : CrashAct}
    (hmet : CrashMet S act) (hheld : r ∈ (S.step bc act).mem.records) (hbyte : isByteRange r = true)
    (hnew : r ∉ act.appends bc S) :
    (S.step bc act).mem.storeKey = S.mem.storeKey ∧ SpanKept S.mem (S.step bc act).mem r := by
  cases act with
  | call op hop => exact StoreOp.spanKept hlaw h.extents hop.inRun hmet hheld hbyte hnew
  | persist reply =>
    obtain ⟨-, hdata, hkey⟩ := S.persistStep_mem
    refine ⟨hkey, fun b _ _ => ?_⟩
    show (S.persistStep reply).mem.data b = _
    rw [hdata]
  | reload env =>
    obtain ⟨Q, records, generation, -, hstore, hmem⟩ := h.reload_payload hmet hheld
    show (S.reload env).mem.storeKey = _ ∧ SpanKept S.mem (S.reload env).mem r
    rw [hmem]
    exact ⟨hstore, fun _ _ _ => rfl⟩

/-- **A hold that was never discarded has its payload**, whatever was staged, discarded and
    reloaded meanwhile. -/
theorem HeldSince.stored (hlaw : bc.Lawful) (h : HeldSince bc acts r args)
    (hacts : Each (CrashStore.step bc) CrashMet newCrashStore acts) :
    Stored bc args (crashRun bc acts).mem r ∧ args.plaintext.length + 15 < 2 ^ 32 := by
  induction h with
  | @staged acts args env hop r happended hheld =>
    obtain ⟨hbefore, hlast, -⟩ := each_append.mp hacts
    have hinv := crashInv_crashRun hbefore
    rw [crashRun_concat] at hheld ⊢
    exact ⟨stored_of_appended hlaw hinv.extents hlast.1 happended hheld, hlast.2⟩
  | @kept acts act r r' args hsince hsame hheld hnew ih =>
    obtain ⟨hbefore, hlast, -⟩ := each_append.mp hacts
    obtain ⟨hstored, hbound⟩ := ih hbefore
    have hbyte := (hsince.origin.of_sameHold hsame).isByteRange
    rw [crashRun_concat] at hheld ⊢
    obtain ⟨hkey, hspan⟩ := (crashInv_crashRun hbefore).spanKept hlaw hlast hheld hbyte hnew
    exact ⟨(hstored.of_sameHold hsame).of_spanKept hkey hspan, hbound⟩

/-! ### Restoring -/

theorem restoreLookup_of_inside (hready : P.ready = true) (hpaths : RangesOk ApartOnPath P.records)
    (hr : r ∈ P.records) (hpos : length ≠ 0) (hcap : length.toNat ≤ outCap.toNat)
    (hlo : r.provenanceOffset.toNat ≤ offset.toNat)
    (hhi : offset.toNat + length.toNat ≤ r.provenanceOffset.toNat + r.provenanceLength.toNat) :
    restoreLookup r.provenancePath offset length outCap P = .ok r := by
  have hend := hpaths.end_eq r hr
  have hlt := (r.provenanceOffset + r.provenanceLength).toNat_lt
  have hpos' : length.toNat ≠ 0 := fun h => hpos (UInt64.toNat_inj.mp h)
  have hrange : (offset + length).toNat = offset.toNat + length.toNat := by
    rw [UInt64.toNat_add, Nat.mod_eq_of_lt (by omega)]
  have hmatch : restoreMatch r.provenancePath offset length r = true := by
    simp only [restoreMatch, beq_self_eq_true, Bool.and_true, Bool.and_eq_true,
      decide_eq_true_eq, UInt64.le_iff_toNat_le, hrange, hend]
    exact ⟨hlo, hhi⟩
  obtain ⟨f, hfind⟩ := Option.isSome_iff_exists.mp
    (List.find?_isSome.mpr ⟨r, hr, hmatch⟩)
  have hlookup : restoreLookup r.provenancePath offset length outCap P = .ok f := by
    rw [restoreLookup, if_neg (by simp [hready]), if_neg (by omega), hfind]
  obtain ⟨hf, hpath, hflo, hfhi⟩ := restoreLookup_ok hlookup
  rw [hrange, hpaths.end_eq f hf] at hfhi
  have hsame : f = r := by
    refine PathsOk.eq_of_overlap ⟨hpaths.end_eq, hpaths.related⟩ (b := offset.toNat) hr hf hpath
      ⟨hlo, ?_⟩ ⟨hflo, ?_⟩
    · simp only [provSpan]
      omega
    · simp only [provSpan]
      omega
  rw [hlookup, hsame]

theorem restore_of_stored (hlaw : bc.Lawful) (hready : P.ready = true) (hopen : P.dataOpen = true)
    (hpaths : RangesOk ApartOnPath P.records) (hr : r ∈ P.records) (horigin : Origin args r)
    (hstored : Stored bc args P r) (hbound : args.plaintext.length + 15 < 2 ^ 32) {env : RestoreEnv}
    (hpos : length ≠ 0) (hcap : length.toNat ≤ outCap.toNat)
    (hlo : r.provenanceOffset.toNat ≤ offset.toNat)
    (hhi : offset.toNat + length.toNat ≤ r.provenanceOffset.toNat + r.provenanceLength.toNat)
    (hpool : env.pool = true) (hread : env.read = true) (hcrypt : env.crypt = true) :
    sarPreserveRestore bc r.provenancePath offset length outCap env P P =
      .ok ((args.plaintext.drop (offset.toNat - args.offset.toNat)).take length.toNat) := by
  have hend := horigin.end_eq
  have hlt := (r.provenanceOffset + r.provenanceLength).toNat_lt
  have hrange : offset.toNat + length.toNat < 2 ^ 64 := by omega
  have hback := hstored.decrypt hlaw horigin hbound
  have hkind : r.kind ≠ SAR_PRESERVE_KIND_NAMESPACE := by
    rw [horigin.kind_eq]
    decide
  have hintact : PayloadIntact bc (fun _ _ => none) r.provenancePath P r := by
    rw [PayloadIntact, if_neg hkind, hback]
    refine ⟨hopen, ?_, horigin.tag.symm⟩
    have hlen := congrArg List.length hback
    rw [length_take, horigin.length_heldBytes] at hlen
    omega
  have hlookup := restoreLookup_of_inside hready hpaths hr hpos hcap hlo hhi
  obtain ⟨-, -, hlo', hhi'⟩ := restoreLookup_ok hlookup
  obtain ⟨out, hout, -⟩ := readPayload_of_intact hpos rfl (UInt64.le_iff_toNat_le.mpr hlo')
    (UInt64.le_iff_toNat_le.mpr hhi') hhi hpool hread hcrypt hkind hintact
  have hvalue := restore_byteRange hrange hlookup horigin.isByteRange horigin.stagedBytes
    (fun _ => hback) hout
  rw [horigin.slice_heldBytes hlo hhi] at hvalue
  rw [sarPreserveRestore_of_lookup hlookup, hout, hvalue]

def indexedRecords (indexFile : Option (List UInt8)) : List PreserveRecord :=
  match indexFile with
  | none => []
  | some buf =>
    match readIndexRecords buf (headerOf buf).recordCount with
    | .ok records => records
    | .error _ => []

theorem indexedRecords_indexBytes
    (hcap : records.length ≤ SAR_PRESERVE_RECORD_CAPACITY.toNat) :
    indexedRecords (some (indexBytes macKey records generation)) = records := by
  have hcount : (headerOf (indexBytes macKey records generation)).recordCount =
      UInt64.ofNat records.length := by
    rw [headerOf_indexBytes, fileHeader]
  rw [indexedRecords, hcount, readIndexRecords_indexBytes macKey generation (indexFits_of_le hcap)]

structure RestoreInside (r : PreserveRecord) (offset length : UInt64) (outCap : UInt32) :
    Prop where
  pos : length ≠ 0
  lo : r.provenanceOffset.toNat ≤ offset.toNat
  hi : offset.toNat + length.toNat ≤ r.provenanceOffset.toNat + r.provenanceLength.toNat
  cap : length.toNat ≤ outCap.toNat

/-- Every restore inside a record that is granted memory, the read and the cipher gives the
    plaintext of a stage call. -/
def GivenBack (bc : BCrypt) (P : Preserve) (r : PreserveRecord) (args : StageArgs) : Prop :=
  ∀ offset length outCap env, RestoreInside r offset length outCap →
    env.pool = true → env.read = true → env.crypt = true →
    sarPreserveRestore bc r.provenancePath offset length outCap env P P =
      .ok ((args.plaintext.drop (offset.toNat - args.offset.toNat)).take length.toNat)

def GivenBackIfAny (bc : BCrypt) (P : Preserve) (r : PreserveRecord) (args : StageArgs) : Prop :=
  ∀ offset length outCap env out, RestoreInside r offset length outCap →
    sarPreserveRestore bc r.provenancePath offset length outCap env P P = .ok out →
    out = (args.plaintext.drop (offset.toNat - args.offset.toNat)).take length.toNat

/-- **Preserved originals survive a crash.**  At every point of a run whose steps meet the
    condition, the driver start behind a crash loads exactly the index on the disk.  Each of its
    records that was in memory from its stage call to the crash is restored, and every record, if at
    all, to the plaintext of the stage call that made it, where SHA-256 tells that plaintext from
    what is read. -/
theorem originals_survive_crash (bc : BCrypt) (hlaw : bc.Lawful) (acts : List CrashAct)
    (env : ReloadEnv)
    (hacts : Each (CrashStore.step bc) CrashMet newCrashStore (acts ++ [.reload env])) :
    let S := crashRun bc acts
    let P := (S.reload env).mem
    P.records = indexedRecords S.indexFile ∧
      (∀ r ∈ indexedRecords S.indexFile, ∀ r' args, SameHold r r' →
        HeldSince bc acts r' args → GivenBack bc P r args) ∧
      ∀ r ∈ P.records, ∃ args, StagedIn bc acts r args ∧
        (PayloadTells bc P r (heldBytes args r) → GivenBackIfAny bc P r args) := by
  intro S P
  obtain ⟨hbefore, hmet, -⟩ := each_append.mp hacts
  have hinv : CrashInv bc acts S := crashInv_crashRun hbefore
  have hloaded : P.records = indexedRecords S.indexFile := by
    rcases hinv.reload_cases hmet with
      ⟨hindex, hempty⟩ | ⟨Q, records, generation, hindex, htable, -, hmem⟩
    · rw [hindex]
      exact hempty
    · rw [hindex, indexedRecords_indexBytes htable.fits]
      exact congrArg Preserve.records hmem
  refine ⟨hloaded, ?_, ?_⟩
  · intro r hr r' args hsame hsince
    rw [← hloaded] at hr
    obtain ⟨Q, records, generation, htable, hstore, hmem⟩ := hinv.reload_payload hmet hr
    obtain ⟨hstored, hbound⟩ := hsince.stored hlaw hbefore
    have hstored' : Stored bc args P r := by
      refine (hstored.of_sameHold hsame.symm).of_spanKept ?_ ?_
      · rw [show P = _ from hmem]
        exact hstore
      · rw [show P = _ from hmem]
        exact fun _ _ _ => rfl
    intro offset length outCap env' hinside hpool hread hcrypt
    have hpaths : RangesOk ApartOnPath P.records := by
      rw [show P = _ from hmem]
      exact htable.paths
    exact restore_of_stored hlaw (by rw [show P = _ from hmem]; rfl)
      (by rw [show P = _ from hmem]; rfl) hpaths hr (hsince.origin.of_sameHold hsame.symm)
      hstored' hbound hinside.pos hinside.cap hinside.lo hinside.hi hpool hread hcrypt
  · intro r hr
    obtain ⟨Q, records, generation, htable, -, hmem⟩ := hinv.reload_payload hmet hr
    have hrecords : P.records = records := congrArg Preserve.records hmem
    obtain ⟨args, hstaged⟩ := htable.origin r (hrecords ▸ hr)
    refine ⟨args, hstaged, ?_⟩
    intro htells offset length outCap env' out hinside hrestore
    have horigin := hstaged.origin
    have hend := horigin.end_eq
    have hlt := (r.provenanceOffset + r.provenanceLength).toNat_lt
    have hhi := hinside.hi
    have hlookup := restoreLookup_of_inside (by rw [show P = _ from hmem]; rfl)
      (hrecords ▸ htable.paths) hr hinside.pos hinside.cap hinside.lo hinside.hi
    rw [sarPreserveRestore_of_lookup hlookup] at hrestore
    have hvalue := restore_byteRange (by omega) hlookup horigin.isByteRange horigin.stagedBytes
      htells hrestore
    rwa [horigin.slice_heldBytes hinside.lo hinside.hi] at hvalue

/-- **A persist carries the store over a restart.**  Behind a persist that runs to its end the next
    start of the driver has the records, the keys, the payload and the budget of before. -/
theorem persist_reload_keeps (env : ReloadEnv)
    (hacts : Each (CrashStore.step bc) CrashMet newCrashStore acts)
    (hidle : (crashRun bc acts).point = .idle) (hready : (crashRun bc acts).mem.ready = true)
    (hdirty : (crashRun bc acts).mem.dirty = true) :
    let P := (crashRun bc acts).mem
    let Q := (crashRun bc (acts ++ ([true, true, true, true].map .persist ++ [.reload env]))).mem
    Q.ready = true ∧ Q.records = P.records ∧ Q.data = P.data ∧ Q.storeKey = P.storeKey ∧
      Q.macKey = P.macKey ∧ Q.generation = P.generation + 1 ∧
      (P.capacityBytes ≠ 0 →
        Q.retention100ns = P.retention100ns ∧ Q.capacityBytes = P.capacityBytes) := by
  intro P Q
  let T : CrashStore := { (crashRun bc acts).persisted true with point := .idle }
  have hQ : Q = (T.reload env).mem := by
    have hpersisted : run (CrashStore.step bc) (crashRun bc acts) ([true, true, true, true].map
      .persist) = T := persist_uninterrupted hidle hready hdirty
    simp only [Q, crashRun, run_append] at hpersisted ⊢
    rw [hpersisted]
    rfl
  let buf := indexBytes P.macKey P.records (P.generation + 1)
  have hgen : (headerOf buf).generation = P.generation + 1 := by
    rw [headerOf_indexBytes, fileHeader]
  have hfits := anchorFits_head buf
  rw [hgen] at hfits
  rw [hQ, T.reload_index env rfl rfl (crashInv_crashRun hacts).table.fits hfits]
  exact ⟨rfl, rfl, rfl, rfl, rfl, rfl, fun hcap => ⟨if_pos hcap, if_pos hcap⟩⟩

/-! ### A hold that survives, and one that does not -/

def xorCrypt : BCrypt where
  encrypt key _ data := data.map (· ^^^ key.get 0)
  decrypt key _ data := data.map (· ^^^ key.get 0)

theorem xorCrypt_lawful : xorCrypt.Lawful := by
  refine ⟨fun key iv data _ => length_map _, fun key iv data _ => ?_⟩
  have hback : (· ^^^ key.get 0) ∘ (· ^^^ key.get 0) = (id : UInt8 → UInt8) := by
    funext b
    show b ^^^ key.get 0 ^^^ key.get 0 = b
    rw [UInt8.xor_assoc, UInt8.xor_self, UInt8.xor_zero]
  show (data.map _).map _ = data
  rw [map_map, hback, map_id]

def firstReload (written : Bool) : CrashAct :=
  .reload ⟨some (Vector.replicate _ 0), some (Vector.replicate _ 0), written, true⟩

/-- The first sixteen bytes of the file `a` are staged. -/
def stageA : CrashAct :=
  .call (.stage (stageZeros (pathOf [97] fileA_fits) 0 16) (grantedEnv 1)) trivial

def persistA : List CrashAct := [.persist true, .persist true, .persist true, .persist false]

def nextReload : ReloadEnv := ⟨some (Vector.replicate _ 1), some (Vector.replicate _ 1), true, true⟩

def stagedA (written : Bool) : CrashStore := crashRun xorCrypt [firstReload written, stageA]

theorem stagedA_store : (stagedA written).mem.ready = true ∧ (stagedA written).mem.dirty = true ∧
      (stagedA written).mem.generation = 0 ∧
      (stagedA written).keyFile.isSome = written ∧ (stagedA written).indexFile = none ∧
      readData (stagedA written).mem.data 0 16 = List.replicate 16 0 ∧
      (stagedA written).mem.records.map (fun r => (r.provenanceOffset, r.provenanceLength,
        r.payloadOffset, r.payloadLength)) = [(0, 16, 0, 16)] := by
  revert written
  decide +kernel

/-- The hold of `a`. -/
theorem persist_reload_keeps_staged :
    (crashRun xorCrypt ([firstReload true, stageA] ++ ([true, true, true, true].map .persist ++
      [.reload nextReload]))).mem.records = (stagedA true).mem.records := by
  obtain ⟨hready, hdirty, -⟩ := @stagedA_store true
  have hmet : Each (CrashStore.step xorCrypt) CrashMet newCrashStore [firstReload true, stageA] :=
    ⟨fun _ => rfl, ⟨fun _ hpool => (by cases hpool), by decide⟩, trivial⟩
  exact (persist_reload_keeps nextReload hmet rfl hready hdirty).2.1

theorem HeldSince.persist (h : HeldSince bc acts r args) (hr : r ∈ (crashRun bc acts).mem.records)
    (replies : List Bool) :
    HeldSince bc (acts ++ replies.map .persist) r args := by
  induction replies generalizing acts with
  | nil => rwa [map_nil, append_nil]
  | cons reply replies ih =>
    have hr' : r ∈ (crashRun bc (acts ++ [.persist reply])).mem.records := by
      rw [crashRun_concat]
      exact ((crashRun bc acts).persistStep_mem).1 ▸ hr
    rw [map_cons, append_cons]
    exact ih (h.kept (sameHold_refl r) hr' not_mem_nil) hr'

theorem persisted_store :
    (S.persisted false).mem.data = S.mem.data ∧ (S.persisted false).keyFile = S.keyFile ∧
      (S.persisted false).indexFile =
        some (indexBytes S.mem.macKey S.mem.records (S.mem.generation + 1)) :=
  ⟨rfl, rfl, rfl⟩

def persistedRun (written : Bool) : List CrashAct := [firstReload written, stageA] ++ persistA

theorem heldA : ∃ r macKey, HeldSince xorCrypt (persistedRun written) r
        (stageZeros (pathOf [97] (by decide)) 0 16) ∧
      (r.provenanceOffset = 0 ∧ r.provenanceLength = 16 ∧ r.payloadOffset = 0 ∧
        r.payloadLength = 16) ∧
      (crashRun xorCrypt (persistedRun written)).keyFile.isSome = written ∧
      (crashRun xorCrypt (persistedRun written)).indexFile = some (indexBytes macKey [r] 1) ∧
      readData (crashRun xorCrypt (persistedRun written)).mem.data 0 16 = List.replicate 16 0 := by
  obtain ⟨hready, hdirty, hgen, hkey, -, hread, hfields⟩ := stagedA_store
  obtain ⟨r, rest, hrecords, hr, hrest⟩ := map_eq_cons_iff.mp hfields
  obtain rfl := map_eq_nil_iff.mp hrest
  have hheld : r ∈ (stagedA written).mem.records := by
    rw [hrecords]
    exact mem_singleton_self r
  have hbefore : (crashRun xorCrypt [firstReload written]).mem.records = [] := by
    cases written <;> rfl
  have happended : r ∈ stageCallLog xorCrypt (stageZeros (pathOf [97] (by decide)) 0 16)
      (grantedEnv 1) (crashRun xorCrypt [firstReload written]).mem := by
    have hop : (StoreOp.stage (stageZeros (pathOf [97] (by decide)) 0 16) (grantedEnv 1)).Staging :=
      trivial
    rcases hop.mem_apply hheld with happended | ⟨r₀, hr₀, -⟩
    · exact happended
    · have hr₀ : r₀ ∈ (crashRun xorCrypt [firstReload written]).mem.records := hr₀
      rw [hbefore] at hr₀
      exact absurd hr₀ not_mem_nil
  have hstaged : HeldSince xorCrypt ([firstReload written] ++ [stageA]) r _ :=
    HeldSince.staged happended hheld
  have hrun : crashRun xorCrypt (persistedRun written) =
      { (stagedA written).persisted false with point := .idle } :=
    (run_append _ _ _ _).trans
      (persist_uninterrupted (by cases written <;> rfl) hready hdirty)
  obtain ⟨hdata', hkey', hindex'⟩ := persisted_store
  refine ⟨r, (stagedA written).mem.macKey, hstaged.persist hheld [true, true, true, false],
    by simpa using hr, ?_, ?_, ?_⟩
  · rw [hrun, hkey', hkey]
  · rw [hrun, hindex', hrecords, hgen]
    rfl
  · rw [hrun, hdata', hread]

/-- The key file was written at the first start: the hold is restored behind the crash. -/
theorem keyed_hold_survives :
    ∃ r ∈ indexedRecords (crashRun xorCrypt (persistedRun true)).indexFile,
      GivenBack xorCrypt ((crashRun xorCrypt (persistedRun true)).reload nextReload).mem r
        (stageZeros (pathOf [97] (by decide)) 0 16) := by
  obtain ⟨r, macKey, hsince, -, hkey, hindex, -⟩ := heldA
  have hr : r ∈ indexedRecords (crashRun xorCrypt (persistedRun true)).indexFile := by
    rw [hindex, indexedRecords_indexBytes (show 1 ≤ _ by decide)]
    exact mem_singleton_self r
  refine ⟨r, hr, ?_⟩
  refine (originals_survive_crash xorCrypt xorCrypt_lawful _ nextReload ?_).2.1 r hr r _
    (sameHold_refl r) hsince
  refine each_append.mpr ⟨?_, ?_, trivial⟩
  · exact ⟨fun _ => rfl, ⟨fun _ hpool => (by cases hpool), by decide⟩,
      fun _ => by decide +kernel, fun _ => by decide +kernel, fun _ => by decide +kernel,
      fun _ => by decide +kernel, trivial⟩
  · intro hnone
    have hnone : (crashRun xorCrypt (persistedRun true)).keyFile = none := hnone
    rw [hnone] at hkey
    cases hkey

theorem loadIndex_frame (macKey : Mac) (records : List PreserveRecord) (generation : UInt64)
    (hempty : P.records = []) :
    (loadIndex (some (indexBytes macKey records generation)) P).records.Sublist records ∧
      (loadIndex (some (indexBytes macKey records generation)) P).data = P.data ∧
      (loadIndex (some (indexBytes macKey records generation)) P).storeKey = P.storeKey := by
  have hnone : P.records.Sublist records := by
    rw [hempty]
    exact nil_sublist _
  unfold loadIndex
  dsimp only
  split
  · exact ⟨hnone, rfl, rfl⟩
  split
  next count hverify =>
    obtain ⟨n, -, hloaded⟩ := loadedRecords_of_verify hverify
    refine ⟨?_, rfl, rfl⟩
    rw [hloaded]
    exact take_sublist _ _
  · exact ⟨nil_sublist _, rfl, rfl⟩
  · exact ⟨hnone, rfl, rfl⟩

theorem CrashStore.reload_lost (storeKey macKey' : Mac) (written again : Bool)
    (hkey : S.keyFile = none) (hindex : S.indexFile = some (indexBytes macKey records generation)) :
    (S.reload ⟨some storeKey, some macKey', written, again⟩).mem.records.Sublist records ∧
      (S.reload ⟨some storeKey, some macKey', written, again⟩).mem.data = S.mem.data ∧
      (S.reload ⟨some storeKey, some macKey', written, again⟩).mem.storeKey = storeKey := by
  have hmem : (S.reload ⟨some storeKey, some macKey', written, again⟩).mem =
      { loadIndex S.indexFile { S.created with
          storeKey := storeKey, macKey := macKey', haveKey := true, dataOpen := true } with
        ready := true } := by
    obtain ⟨⟨mem, keyFile, indexFile⟩, point⟩ := S
    obtain rfl : keyFile = none := hkey
    rfl
  have hframe := loadIndex_frame macKey records generation (P := { S.created with
    storeKey := storeKey, macKey := macKey', haveKey := true, dataOpen := true }) rfl
  rw [← hindex] at hframe
  rw [hmem]
  exact hframe

/-- The key file was never written: the driver start behind the crash makes other keys, and
    the hold that was in the index and in memory is lost. -/
theorem unkeyed_hold_lost : ∃ r ∈ indexedRecords (crashRun xorCrypt (persistedRun false)).indexFile,
      HeldSince xorCrypt (persistedRun false) r (stageZeros (pathOf [97] (by decide)) 0 16) ∧
      ¬ GivenBack xorCrypt ((crashRun xorCrypt (persistedRun false)).reload nextReload).mem r
        (stageZeros (pathOf [97] (by decide)) 0 16) := by
  obtain ⟨r, macKey, hsince, ⟨hoff, hlen, hpay, hpaylen⟩, hkey, hindex, hread⟩ := heldA
  refine ⟨r, ?_, hsince, ?_⟩
  · rw [hindex, indexedRecords_indexBytes (show 1 ≤ _ by decide)]
    exact mem_singleton_self r
  intro hrestored
  have hrestore := hrestored 0 16 16 restoreGranted ⟨by decide, by rw [hoff],
    by rw [hoff, hlen], by decide⟩ rfl rfl rfl
  obtain ⟨hsub, hdata, hstore⟩ := CrashStore.reload_lost (Vector.replicate _ 1)
    (Vector.replicate _ 1) true true
    (Option.not_isSome_iff_eq_none.mp (by rw [hkey]; decide)) hindex
  generalize hmem : ((crashRun xorCrypt (persistedRun false)).reload nextReload).mem = P
    at hrestore
  have hmem : ((crashRun xorCrypt (persistedRun false)).reload
      ⟨some (Vector.replicate _ 1), some (Vector.replicate _ 1), true, true⟩).mem = P := hmem
  rw [hmem] at hsub hdata hstore
  unfold sarPreserveRestore at hrestore
  cases hlookup : restoreLookup r.provenancePath 0 16 16 P with
  | error status =>
    rw [hlookup] at hrestore
    cases hrestore
  | ok f =>
    rw [hlookup] at hrestore
    have hf := (restoreLookup_ok hlookup).1
    obtain rfl : f = r := mem_singleton.mp (hsub.subset hf)
    obtain ⟨-, hvalue⟩ := restoreRead_ok hrestore
    obtain ⟨-, -, hout⟩ := hvalue hsince.origin.isByteRange
    have hplain : decryptPayload xorCrypt f P = List.replicate 16 1 := by
      have hio : (16 : UInt64).toNat % 2 ^ 32 = 16 := by decide
      have hzero : (0 : UInt64).toNat = 0 := rfl
      unfold decryptPayload
      rw [hpaylen, hpay, hdata, hstore, hio, hzero]
      dsimp only
      rw [hread]
      show (List.replicate 16 (0 : UInt8)).map (· ^^^ (Vector.replicate 32 (1 : UInt8)).get 0) ++
        List.replicate ((16 : UInt64).toNat - 16) 0 = _
      decide
    rw [hplain, hoff] at hout
    revert hout
    decide

end SemanticsAr
