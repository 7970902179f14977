import Mathlib.Data.Fintype.BigOperators
import Mathlib.Data.Fintype.Pigeonhole
import Mathlib.Data.List.OfFn
import SemanticsAr.PreserveWrites

/-!
# First write wins

A run of the store is followed record by record: `CreatedBy` says which stage
call appended a record that is now in the table.  The payload of a record is
never touched as long as rebuilds are safe, so a restore from inside it gives
back the bytes of that call.  Where they are not, or where the record is gone by
the time its payload is read, the content tag still decides, up to a collision
of SHA-256.
-/

namespace SemanticsAr

open Nat
open List hiding Vector

variable {env : StageEnv} {f r r' : PreserveRecord} {offset length len now : UInt64} {bc : BCrypt}
  {P P' P₀ : Preserve} {ops : List StoreOp} {op : StoreOp} {args : StageArgs} {path : ProvPath}
  {x : List UInt8} {tag : List UInt8 → Vector UInt8 32}

/-! ### Following a record through a run -/

def SameHold (r r' : PreserveRecord) : Prop := r' = { r with state := r'.state }

def StoreOp.InRun : StoreOp → Prop
  | .load _ => False
  | .rename _ _ => False
  | _ => True

def StoreOp.appends (bc : BCrypt) (P : Preserve) : StoreOp → List PreserveRecord
  | .stage args env => stageCallLog bc args env P
  | _ => []

inductive CreatedBy (bc : BCrypt) (P₀ : Preserve) :
    List StoreOp → PreserveRecord → StageArgs → Prop where
  | created {ops : List StoreOp} {args : StageArgs} {env : StageEnv} {r : PreserveRecord}
      (happended : r ∈ stageCallLog bc args env (runStore bc P₀ ops))
      (hheld : r ∈ (runStore bc P₀ (ops ++ [.stage args env])).records) :
      CreatedBy bc P₀ (ops ++ [.stage args env]) r args
  | kept {ops : List StoreOp} {op : StoreOp} {r r' : PreserveRecord} {args : StageArgs}
      (hcreated : CreatedBy bc P₀ ops r args) (hsame : SameHold r r')
      (hheld : r' ∈ (runStore bc P₀ (ops ++ [op])).records)
      (hnew : r' ∉ op.appends bc (runStore bc P₀ ops)) :
      CreatedBy bc P₀ (ops ++ [op]) r' args

theorem runStore_concat : runStore bc P (ops ++ [op]) = op.apply bc (runStore bc P ops) := by
  unfold runStore
  rw [foldl_append]
  rfl

theorem eachCall_concat {cond : Preserve → StoreOp → Prop} : EachCall bc cond P (ops ++ [op]) ↔
      EachCall bc cond P ops ∧ cond (runStore bc P ops) op := by
  simp only [eachCall_iff_each, Runs.each_append, Runs.each_cons, Runs.each_nil, and_true]
  exact Iff.rfl

theorem sameHold_refl (r : PreserveRecord) : SameHold r r := rfl

theorem sameHold_promoteRecord (actorId : UInt64) (r : PreserveRecord) :
    SameHold r (promoteRecord actorId r) := by
  unfold promoteRecord
  split <;> rfl

theorem SameHold.isByteRange_eq (h : SameHold r r') : isByteRange r' = isByteRange r := by
  rw [h]
  rfl

structure Joins (records : List PreserveRecord) (r : PreserveRecord) : Prop where
  end_eq : (r.provenanceOffset + r.provenanceLength).toNat =
    r.provenanceOffset.toNat + r.provenanceLength.toNat
  free : sarPreserveCovered records r.provenancePath r.provenanceOffset r.provenanceLength = false

/-- What every call but staging does: it drops records or promotes them, may add
    one link, and leaves the payload file alone. -/
structure QuietStep (P P' : Preserve) : Prop where
  table : ∃ (kept : List PreserveRecord) (f : PreserveRecord → PreserveRecord),
    kept.Sublist P.records ∧ (∀ r, SameHold r (f r)) ∧
    (P'.records = kept.map f ∨ ∃ link, isByteRange link = false ∧ Joins (kept.map f) link ∧
      P'.records = kept.map f ++ [link])
  data_eq : P'.data = P.data
  key_eq : P'.storeKey = P.storeKey

theorem QuietStep.of_sublist (hsub : P'.records.Sublist P.records) (hdata : P'.data = P.data)
    (hkey : P'.storeKey = P.storeKey) : QuietStep P P' :=
  ⟨⟨P'.records, id, hsub, sameHold_refl, .inl (map_id _).symm⟩, hdata, hkey⟩

structure TrimStep (P P' : Preserve) : Prop where
  table : ∃ (kept : List PreserveRecord) (f : PreserveRecord → PreserveRecord),
    kept.Sublist P.records ∧ (∀ r, SameHold r (f r)) ∧ P'.records = kept.map f
  data_eq : P'.data = P.data
  key_eq : P'.storeKey = P.storeKey

theorem TrimStep.of_sublist (hsub : P'.records.Sublist P.records) (hdata : P'.data = P.data)
    (hkey : P'.storeKey = P.storeKey) : TrimStep P P' :=
  ⟨⟨P'.records, id, hsub, sameHold_refl, (map_id _).symm⟩, hdata, hkey⟩

theorem TrimStep.quiet (h : TrimStep P P') : QuietStep P P' := by
  obtain ⟨kept, f, hsub, hsame, hrecords⟩ := h.table
  exact ⟨⟨kept, f, hsub, hsame, .inl hrecords⟩, h.data_eq, h.key_eq⟩

theorem TrimStep.mem (h : TrimStep P P') (hr' : r' ∈ P'.records) :
    ∃ r ∈ P.records, SameHold r r' := by
  obtain ⟨kept, f, hsub, hsame, hrecords⟩ := h.table
  rw [hrecords] at hr'
  obtain ⟨r, hr, rfl⟩ := mem_map.mp hr'
  exact ⟨r, hsub.subset hr, hsame r⟩

def StoreOp.Trims : StoreOp → Prop
  | .load _ => False
  | .stage _ _ => False
  | .stageLink _ _ _ _ _ _ => False
  | .rename _ _ => False
  | _ => True

theorem StoreOp.trimStep (bc : BCrypt) (P : Preserve) (hop : op.Trims) :
    TrimStep P (op.apply bc P) := by
  have hsame : TrimStep P P := TrimStep.of_sublist (.refl _) rfl rfl
  by_cases hbudgets : op.Budgets
  · obtain ⟨_, _, _, heq⟩ := hbudgets.apply_eq bc P
    rw [heq]
    exact TrimStep.of_sublist (.refl _) rfl rfl
  cases op with
  | reserve _ | release _ | setBudget _ _ | restore _ _ _ _ _ => exact absurd trivial hbudgets
  | load _ | stage _ _ | stageLink _ _ _ _ _ _ | rename _ _ => exact absurd hop id
  | promote actorId =>
    show TrimStep P (sarPreservePromoteActor actorId P)
    unfold sarPreservePromoteActor
    split
    · exact hsame
    · exact ⟨⟨P.records, promoteRecord actorId, .refl _,
        sameHold_promoteRecord actorId, rfl⟩, rfl, rfl⟩
  | reconcile path keyOffset keyLength =>
    show TrimStep P (sarPreserveReconcileRange path keyOffset keyLength P)
    unfold sarPreserveReconcileRange
    split
    · exact hsame
    · exact TrimStep.of_sublist (filter_sublist.trans (reapLoop_sublist _ _)) rfl rfl
  | maintain now =>
    exact TrimStep.of_sublist (filter_sublist.trans (reapLoop_sublist _ _)) rfl rfl

theorem quietStep_stageLink (path : ProvPath) (fileSize actorId linkId now : UInt64)
    (causingPath : ProvPath) (P : Preserve) :
    QuietStep P (sarPreserveStageLink path fileSize actorId linkId now causingPath P).1 := by
  generalize hcall : sarPreserveStageLink path fileSize actorId linkId now causingPath P = call
  obtain ⟨P', res⟩ := call
  have haged : (evictAged P now).records.Sublist P.records := filter_sublist
  rcases sarPreserveStageLink_cases hcall with ⟨status, -, rfl | rfl⟩ | ⟨-, hcount, rfl⟩
  · exact QuietStep.of_sublist (.refl _) rfl rfl
  · exact QuietStep.of_sublist haged rfl rfl
  · rcases appendRecord_cases _ _ hcount with ⟨-, happ⟩ | ⟨hcov, happ⟩
    · rw [happ]
      exact QuietStep.of_sublist haged rfl rfl
    · rw [happ]
      refine ⟨⟨(evictAged P now).records, id, haged, sameHold_refl,
        Or.inr ⟨linkRecord path fileSize actorId linkId now causingPath, rfl, ?_, ?_⟩⟩, rfl, rfl⟩
      · rw [map_id]
        refine ⟨?_, hcov⟩
        show ((0 : UInt64) + fileSize).toNat = 0 + fileSize.toNat
        rw [UInt64.zero_add, zero_add]
      · rw [map_id]

theorem StoreOp.quietStep (hop : op.InRun) (hstage : ∀ args env, op ≠ .stage args env) :
    QuietStep P (op.apply bc P) := by
  cases op with
  | load env => exact absurd hop id
  | rename oldPath newPath => exact absurd hop id
  | stage args env => exact absurd rfl (hstage args env)
  | stageLink path fileSize actorId linkId now causingPath =>
    exact quietStep_stageLink path fileSize actorId linkId now causingPath P
  | _ =>
    apply TrimStep.quiet
    apply StoreOp.trimStep
    trivial

theorem QuietStep.mem (h : QuietStep P P') (hr' : r' ∈ P'.records) (hbyte : isByteRange r' = true) :
    ∃ r ∈ P.records, SameHold r r' := by
  obtain ⟨kept, f, hsub, hsame, hrecords⟩ := h.table
  have hmem : r' ∈ kept.map f := by
    rcases hrecords with hrecords | ⟨link, hlink, -, hrecords⟩
    · rwa [hrecords] at hr'
    · rw [hrecords] at hr'
      rcases mem_append.mp hr' with hr' | hr'
      · exact hr'
      · rw [mem_singleton.mp hr', hlink] at hbyte
        cases hbyte
  obtain ⟨r, hr, rfl⟩ := mem_map.mp hmem
  exact ⟨r, hsub.subset hr, hsame r⟩

theorem mem_sarPreserveStage (hr' : r' ∈ (sarPreserveStage bc args env P).1.records) :
    r' ∈ stageCallLog bc args env P ∨ ∃ r ∈ P.records, SameHold r r' := by
  obtain ⟨kept, added, htable, -⟩ := sarPreserveStage_effect
  have hmem : r' ∈ kept ++ added := htable.records_eq ▸ hr'
  rcases mem_append.mp hmem with hmem | hmem
  · exact .inr ⟨r', htable.kept_sub.subset hmem, rfl⟩
  · exact .inl (htable.added_sub.subset hmem)

theorem StoreOp.mem_apply (hop : op.InRun) (hr' : r' ∈ (op.apply bc P).records)
    (hbyte : isByteRange r' = true) :
    r' ∈ op.appends bc P ∨ ∃ r ∈ P.records, SameHold r r' := by
  by_cases hstage : ∃ args env, op = .stage args env
  · obtain ⟨args, env, rfl⟩ := hstage
    exact mem_sarPreserveStage hr'
  · right
    refine (StoreOp.quietStep hop ?_).mem hr' hbyte
    rintro args env rfl
    exact hstage ⟨args, env, rfl⟩

/-- **Every byte-range record was created by a call** of the run, if the table was
    empty at first. -/
theorem exists_createdBy (hempty : P₀.records = []) (hops : ∀ op ∈ ops, op.InRun)
    (hr : r ∈ (runStore bc P₀ ops).records) (hbyte : isByteRange r = true) :
    ∃ args, CreatedBy bc P₀ ops r args := by
  induction ops using reverseRecOn generalizing r with
  | nil =>
    rw [runStore_nil, hempty] at hr
    exact absurd hr not_mem_nil
  | append_singleton ops op ih =>
    have hop := hops op (mem_append_right _ mem_cons_self)
    have hheld := hr
    rw [runStore_concat] at hr
    by_cases hnew : r ∈ op.appends bc (runStore bc P₀ ops)
    · cases op with
      | stage args env => exact ⟨args, CreatedBy.created hnew hheld⟩
      | _ => exact absurd hnew not_mem_nil
    · rcases StoreOp.mem_apply hop hr hbyte with happ | ⟨r₀, hr₀, hsame⟩
      · exact absurd happ hnew
      · obtain ⟨args, hcreated⟩ := ih (fun op' h => hops op' (mem_append_left _ h)) hr₀
          (hsame.isByteRange_eq ▸ hbyte)
        exact ⟨args, hcreated.kept hsame hheld hnew⟩

/-! ### Records of one path do not overlap -/

def provSpan (r : PreserveRecord) : Span :=
  (r.provenanceOffset.toNat, r.provenanceOffset.toNat + r.provenanceLength.toNat)

/-- A relation between the records of a table that a record enters by passing the overlap
    test and that promotion does not touch. -/
structure HoldRelation (R : PreserveRecord → PreserveRecord → Prop) : Prop where
  of_apart : ∀ {r s : PreserveRecord}, (r.provenancePath = s.provenancePath →
    Apart (provSpan r) (provSpan s)) → R r s
  of_sameHold : ∀ {r r' s s' : PreserveRecord}, SameHold r r' → SameHold s s' → R r s → R r' s'

structure RangesOk (R : PreserveRecord → PreserveRecord → Prop) (records : List PreserveRecord) :
    Prop where
  end_eq : ∀ r ∈ records, (r.provenanceOffset + r.provenanceLength).toNat =
    r.provenanceOffset.toNat + r.provenanceLength.toNat
  related : records.Pairwise R

section

variable {R : PreserveRecord → PreserveRecord → Prop} {records : List PreserveRecord}

theorem RangesOk.nil : RangesOk R [] :=
  ⟨forall_mem_nil _, List.Pairwise.nil⟩

theorem RangesOk.sublist (h : RangesOk R records) {records' : List PreserveRecord}
    (hsub : records'.Sublist records) : RangesOk R records' :=
  ⟨fun r hr => h.end_eq r (hsub.subset hr), h.related.sublist hsub⟩

variable (hR : HoldRelation R)

include hR

theorem RangesOk.map (h : RangesOk R records) {f : PreserveRecord → PreserveRecord}
    (hf : ∀ r, SameHold r (f r)) : RangesOk R (records.map f) := by
  constructor
  · intro r hr
    obtain ⟨s, hs, rfl⟩ := mem_map.mp hr
    rw [hf s]
    exact h.end_eq s hs
  · rw [pairwise_map]
    exact h.related.imp fun hrs => hR.of_sameHold (hf _) (hf _) hrs

theorem RangesOk.concat (h : RangesOk R records) (hjoins : Joins records r) :
    RangesOk R (records ++ [r]) := by
  have hfree := hjoins.free
  unfold sarPreserveCovered sarPresOverlap at hfree
  rw [any_eq_false] at hfree
  constructor
  · intro s hs
    rcases mem_append.mp hs with hs | hs
    · exact h.end_eq s hs
    · rw [mem_singleton.mp hs]
      exact hjoins.end_eq
  · refine pairwise_append.mpr ⟨h.related, pairwise_singleton _ _, ?_⟩
    intro s hs t ht
    rw [mem_singleton.mp ht]
    apply hR.of_apart
    intro hpath
    have hfree := hfree s hs
    simp only [hpath, beq_self_eq_true, Bool.true_and, Bool.and_eq_true, decide_eq_true_eq,
      UInt64.lt_iff_toNat_lt, h.end_eq s hs, hjoins.end_eq] at hfree
    unfold Apart provSpan
    omega

theorem QuietStep.rangesOk (h : QuietStep P P') (htable : RangesOk R P.records) :
    RangesOk R P'.records := by
  obtain ⟨kept, f, hsub, hsame, hrecords⟩ := h.table
  have hkept := (htable.sublist hsub).map hR hsame
  rcases hrecords with hrecords | ⟨link, -, hjoins, hrecords⟩
  · rw [hrecords]
    exact hkept
  · rw [hrecords]
    exact hkept.concat hR hjoins

theorem stageTurn_rangesOk {turn : TurnEnv} {cursor gOff gLen : UInt64} {res : Option StageResult}
    (hgap : TurnGap args P cursor gOff gLen)
    (h : stageTurn bc args env turn P gOff gLen = (P', res)) (htable : RangesOk R P.records) :
    RangesOk R P'.records := by
  cases res with
  | some result =>
    obtain ⟨kept, heffect, -⟩ := stageTurn_stop_effect h
    rw [heffect.records_eq, append_nil]
    exact htable.sublist heffect.kept_sub
  | none =>
    obtain ⟨room, iv, hroom, hrecords, -, -, happ⟩ := stageTurn_appends h
    have hkept := htable.sublist hroom.sublist
    rw [hrecords]
    rcases happ with happ | ⟨happ, hcov⟩
    · rw [happ, append_nil]
      exact hkept
    · rw [happ]
      exact hkept.concat hR ⟨hgap.spec.toNat_end, hcov⟩

theorem sarPreserveStage_rangesOk (bc : BCrypt) (args : StageArgs) (env : StageEnv)
    (htable : RangesOk R P.records) : RangesOk R (sarPreserveStage bc args env P).1.records := by
  fun_cases sarPreserveStage bc args env P
  case case1 | case2 | case3 => exact htable
  refine stageLoop_rule (fun _ Q _ _ => RangesOk R Q.records) (fun Q _ _ => RangesOk R Q.records)
    ?_ ?_ ?_ (htable.sublist filter_sublist)
  · intro n Q cursor staged h _
    exact h
  · intro n Q cursor staged gOff gLen Q' result h hgap hturn
    exact stageTurn_rangesOk hR hgap hturn h
  · intro n Q cursor staged gOff gLen Q' h hgap hturn
    exact stageTurn_rangesOk hR hgap hturn h

theorem StoreOp.rangesOk (hop : op.InRun) (htable : RangesOk R P.records) :
    RangesOk R (op.apply bc P).records := by
  by_cases hstage : ∃ args env, op = .stage args env
  · obtain ⟨args, env, rfl⟩ := hstage
    exact sarPreserveStage_rangesOk hR bc args env htable
  · refine (StoreOp.quietStep hop ?_).rangesOk hR htable
    rintro args env rfl
    exact hstage ⟨args, env, rfl⟩

end

def ApartOnPath (r s : PreserveRecord) : Prop :=
  r.provenancePath = s.provenancePath → Apart (provSpan r) (provSpan s)

theorem apartOnPath_holdRelation : HoldRelation ApartOnPath where
  of_apart h := h
  of_sameHold hr hs h := by
    rw [ApartOnPath, hr, hs]
    exact h

structure PathsOk (records : List PreserveRecord) : Prop where
  end_eq : ∀ r ∈ records, (r.provenanceOffset + r.provenanceLength).toNat =
    r.provenanceOffset.toNat + r.provenanceLength.toNat
  apart : records.Pairwise fun r s => r.provenancePath = s.provenancePath →
    Apart (provSpan r) (provSpan s)

theorem runStore_pathsOk (hempty : P₀.records = []) (hops : ∀ op ∈ ops, op.InRun) :
    PathsOk (runStore bc P₀ ops).records := by
  have htable : RangesOk ApartOnPath (runStore bc P₀ ops).records := by
    induction ops using reverseRecOn with
    | nil =>
      rw [runStore_nil, hempty]
      exact RangesOk.nil
    | append_singleton ops op ih =>
      rw [runStore_concat]
      exact StoreOp.rangesOk apartOnPath_holdRelation
        (hops op (mem_append_right _ mem_cons_self))
        (ih fun op' h => hops op' (mem_append_left _ h))
  exact ⟨htable.end_eq, htable.related⟩

/-! ### The payload of a record -/

def heldBytes (args : StageArgs) (r : PreserveRecord) : List UInt8 :=
  (args.plaintext.drop (r.provenanceOffset.toNat - args.offset.toNat)).take
    r.provenanceLength.toNat

theorem Origin.of_sameHold (h : Origin args r) (hsame : SameHold r r') : Origin args r' := by
  rw [hsame]
  exact ⟨h.path_eq, h.kind_eq, h.pos, h.end_eq, h.lo, h.hi, h.plain, h.payload, h.tag⟩

theorem CreatedBy.origin (h : CreatedBy bc P₀ ops r args) : Origin args r := by
  induction h with
  | created happended _ => exact stageCallLog_origin _ happended
  | kept _ hsame _ _ ih => exact ih.of_sameHold hsame

/-- What keeps payloads intact: safe rebuilds, and plaintexts whose padded length
    is a 32-bit number. -/
def StageIntact (P : Preserve) : StoreOp → Prop
  | .stage args env => RebuildSafe env P ∧ args.plaintext.length + 15 < 2 ^ 32
  | _ => True

theorem extentSafe_of_intact (hop : op.InRun) (h : StageIntact P op) : ExtentSafe P op := by
  cases op with
  | load env => exact absurd hop id
  | stage args env => exact h.1
  | _ => trivial

theorem runStore_extentInv (hinv : ExtentInv P₀) (hops : ∀ op ∈ ops, op.InRun)
    (hintact : EachCall bc StageIntact P₀ ops) :
    ExtentInv (runStore bc P₀ ops) := by
  induction ops using reverseRecOn with
  | nil => exact hinv
  | append_singleton ops op ih =>
    obtain ⟨hbefore, hlast⟩ := eachCall_concat.mp hintact
    rw [runStore_concat]
    exact (ih (fun op' h => hops op' (mem_append_left _ h)) hbefore).apply
      (extentSafe_of_intact (hops op (mem_append_right _ mem_cons_self)) hlast)

theorem Stored.of_sameHold (h : Stored bc args P r) (hsame : SameHold r r') :
    Stored bc args P r' := by
  rw [hsame]
  exact h

theorem stored_of_appended (hlaw : bc.Lawful) (hinv : ExtentInv P) (hsafe : RebuildSafe env P)
    (happended : r ∈ stageCallLog bc args env P)
    (hheld : r ∈ (sarPreserveStage bc args env P).1.records) :
    Stored bc args (sarPreserveStage bc args env P).1 r := by
  obtain ⟨kept, added, htable, hdata⟩ := sarPreserveStage_effect
  have hadded : r ∈ added := by
    have hmem : r ∈ kept ++ added := htable.records_eq ▸ hheld
    rcases mem_append.mp hmem with hmem | hmem
    · exact absurd hmem (htable.fresh r happended)
    · exact hmem
  exact (hdata hlaw hinv hsafe).stored r hadded

theorem StoreOp.spanKept (hlaw : bc.Lawful) (hinv : ExtentInv P) (hop : op.InRun)
    (hintact : StageIntact P op) (hheld : r ∈ (op.apply bc P).records)
    (hbyte : isByteRange r = true) (hnew : r ∉ op.appends bc P) :
    (op.apply bc P).storeKey = P.storeKey ∧ SpanKept P (op.apply bc P) r := by
  by_cases hstage : ∃ args env, op = .stage args env
  · obtain ⟨args, env, rfl⟩ := hstage
    obtain ⟨kept, added, htable, hdata⟩ := sarPreserveStage_effect
    have heffect := hdata hlaw hinv hintact.1
    have hkept : r ∈ kept := by
      have hmem : r ∈ kept ++ added := htable.records_eq ▸ hheld
      rcases mem_append.mp hmem with hmem | hmem
      · exact hmem
      · exact absurd (htable.added_sub.subset hmem) hnew
    exact ⟨heffect.key_eq, heffect.spans r hkept hbyte⟩
  · have hquiet : QuietStep P (op.apply bc P) :=
      StoreOp.quietStep hop fun args env h => hstage ⟨args, env, h⟩
    refine ⟨hquiet.key_eq, ?_⟩
    intro b _ _
    rw [hquiet.data_eq]

/-- **A record that its creator stored stays stored**, as long as every call is intact. -/
theorem CreatedBy.stored (hlaw : bc.Lawful) (hinv : ExtentInv P₀) (hops : ∀ op ∈ ops, op.InRun)
    (hintact : EachCall bc StageIntact P₀ ops) (h : CreatedBy bc P₀ ops r args) :
    Stored bc args (runStore bc P₀ ops) r ∧ args.plaintext.length + 15 < 2 ^ 32 := by
  induction h with
  | @created ops args env r happended hheld =>
    obtain ⟨hbefore, hlast⟩ := eachCall_concat.mp hintact
    have hinv' := runStore_extentInv hinv (fun op h => hops op (mem_append_left _ h)) hbefore
    rw [runStore_concat] at hheld ⊢
    exact ⟨stored_of_appended hlaw hinv' hlast.1 happended hheld, hlast.2⟩
  | @kept ops op r r' args hcreated hsame hheld hnew ih =>
    obtain ⟨hbefore, hlast⟩ := eachCall_concat.mp hintact
    have hops' : ∀ op ∈ ops, op.InRun := fun op h => hops op (mem_append_left _ h)
    have hop : op.InRun := hops op (mem_append_right _ mem_cons_self)
    obtain ⟨hstored, hbound⟩ := ih hops' hbefore
    have hbyte := (hcreated.origin.of_sameHold hsame).isByteRange
    rw [runStore_concat] at hheld ⊢
    obtain ⟨hkey, hspan⟩ := StoreOp.spanKept hlaw (runStore_extentInv hinv hops' hbefore) hop
      hlast hheld hbyte hnew
    exact ⟨(hstored.of_sameHold hsame).of_spanKept hkey hspan, hbound⟩

theorem Origin.stagePadded_eq (h : Origin args r) :
    stagePadded args r.provenanceOffset r.provenanceLength = heldBytes args r ++
      replicate ((sarPresRound16 r.provenanceLength).toNat - (heldBytes args r).length) 0 := by
  have hlo := h.lo
  have hhi := h.hi
  have hplain := h.plain
  have hbound := args.plaintext_lt
  have hoff : (r.provenanceOffset - args.offset).toNat % 2 ^ 32 =
      r.provenanceOffset.toNat - args.offset.toNat := by
    rw [UInt64.toNat_sub_of_le _ _ (UInt64.le_iff_toNat_le.mpr hlo), mod_eq_of_lt (by omega)]
  unfold stagePadded
  rw [hoff]
  rfl

theorem Origin.length_heldBytes (h : Origin args r) :
    (heldBytes args r).length = r.provenanceLength.toNat := by
  have hlo := h.lo
  have hhi := h.hi
  have hplain := h.plain
  unfold heldBytes
  rw [length_take, length_drop]
  omega

theorem Stored.decrypt (hlaw : bc.Lawful) (h : Stored bc args P r) (horigin : Origin args r)
    (hbound : args.plaintext.length + 15 < 2 ^ 32) :
    (decryptPayload bc r P).take r.provenanceLength.toNat = heldBytes args r := by
  have hhi := horigin.hi
  have hlo := horigin.lo
  have hplain := horigin.plain
  have hlen := horigin.length_heldBytes
  have hround := toNat_sarPresRound16 (v := r.provenanceLength) (by omega)
  have hio : r.payloadLength.toNat % 2 ^ 32 = r.payloadLength.toNat := by
    rw [horigin.payload, hround]
    omega
  have hpadded : (stagePadded args r.provenanceOffset r.provenanceLength).length =
      r.payloadLength.toNat := by
    rw [length_stagePadded args (by omega), horigin.payload]
  have hblocks : (stagePadded args r.provenanceOffset r.provenanceLength).length %
      SAR_PRESERVE_AES_BLOCK = 0 := by
    rw [hpadded, horigin.payload, hround]
    exact mul_mod_left _ _
  unfold decryptPayload
  dsimp only
  rw [h, hio, ← hpadded, take_length, hlaw.decrypt_encrypt _ _ _ hblocks, Nat.sub_self,
    replicate_zero, append_nil, horigin.stagePadded_eq, ← hlen, take_left]

/-! ### Restoring -/

theorem restoreLookup_ok {outCap : UInt32} (h : restoreLookup path offset length outCap P = .ok f) :
    f ∈ P.records ∧ f.provenancePath = path ∧ f.provenanceOffset.toNat ≤ offset.toNat ∧
      (offset + length).toNat ≤ (f.provenanceOffset + f.provenanceLength).toNat := by
  unfold restoreLookup at h
  split at h
  · cases h
  split at h
  · cases h
  split at h
  · cases h
  rename_i rec hfind
  cases h
  have hmatch := find?_some hfind
  unfold restoreMatch at hmatch
  simp only [Bool.and_eq_true, decide_eq_true_eq, beq_iff_eq, UInt64.le_iff_toNat_le] at hmatch
  exact ⟨mem_of_find?_eq_some hfind, hmatch.2, hmatch.1.1, hmatch.1.2⟩

theorem sarPreserveRestore_of_lookup {outCap : UInt32} {env : RestoreEnv}
    (h : restoreLookup path offset length outCap P = .ok r) :
    sarPreserveRestore bc path offset length outCap env P P' =
      restoreRead bc r path offset length env P' := by
  unfold sarPreserveRestore
  rw [h]
  rfl

theorem restoreRead_ok {env : RestoreEnv} {out : List UInt8}
    (h : restoreRead bc f path offset length env P = .ok out) :
    out.length ≤ length.toNat ∧ (isByteRange f = true → length ≠ 0 ∧
      sha256 ((decryptPayload bc f P).take f.provenanceLength.toNat) = f.contentTag ∧
      out = ((decryptPayload bc f P).drop (offset - f.provenanceOffset).toNat).take
        length.toNat) := by
  unfold restoreRead at h
  split at h
  next hkind =>
    cases hlink : env.link with
    | error status =>
      rw [hlink] at h
      cases h
    | ok bytes =>
      rw [hlink] at h
      cases h
      refine ⟨?_, ?_⟩
      · rw [length_take]
        exact min_le_left _ _
      · intro hbyte
        unfold isByteRange at hbyte
        rw [hkind] at hbyte
        cases hbyte
  split at h
  · cases h
  split at h
  · cases h
  split at h
  · cases h
  split at h
  · cases h
  rename_i inner hextract
  cases h
  unfold sarPreserveVerifyExtract at hextract
  split at hextract
  · cases hextract
  rename_i hlength
  split at hextract
  · cases hextract
  split at hextract
  · cases hextract
  rename_i htag
  cases hextract
  refine ⟨?_, fun _ => ⟨hlength, not_not.mp htag, rfl⟩⟩
  rw [length_take]
  exact min_le_left _ _

theorem PathsOk.eq_of_overlap {records : List PreserveRecord} (h : PathsOk records)
    (hr : r ∈ records) (hf : f ∈ records) (hpath : f.provenancePath = r.provenancePath) {b : Nat}
    (hbr : (provSpan r).1 ≤ b ∧ b < (provSpan r).2)
    (hbf : (provSpan f).1 ≤ b ∧ b < (provSpan f).2) :
    f = r := by
  by_contra hne
  have hsymm : Std.Symm fun r s : PreserveRecord => r.provenancePath = s.provenancePath →
      Apart (provSpan r) (provSpan s) := ⟨fun r s hrs heq => (hrs heq.symm).symm⟩
  exact (h.apart.forall hf hr hne hpath).not_mem_both hbf hbr

def freshStore (env : LoadEnv) : Preserve :=
  sarPreserveLoad { env with indexFile := none } sarPreserveCreate

theorem loadKeyFile_records (keyFile : Option (List UInt8)) :
    (loadKeyFile keyFile P).records = P.records := by
  fun_cases loadKeyFile keyFile P <;> rfl

theorem ensureKeys_records (env : LoadEnv) : (ensureKeys env P).1.records = P.records := by
  fun_cases ensureKeys env P <;> rfl

theorem freshStore_records (env : LoadEnv) : (freshStore env).records = [] := by
  have hkeys : (ensureKeys { env with indexFile := none }
      (loadKeyFile env.keyFile sarPreserveCreate)).1.records = [] := by
    rw [ensureKeys_records, loadKeyFile_records]
    rfl
  unfold freshStore sarPreserveLoad
  split
  next Q hQ =>
    rwa [hQ] at hkeys
  next Q hQ =>
    rw [hQ] at hkeys
    split
    · exact hkeys
    · exact hkeys

theorem extentInv_freshStore (env : LoadEnv) : ExtentInv (freshStore env) :=
  extentInv_create.load fun _ h => by cases h

/-- Between the lookup and the read nothing has happened to the record, and no
    call has endangered a payload. -/
def HeldIntact (bc : BCrypt) (P₀ : Preserve) (ops : List StoreOp) (r : PreserveRecord)
    (args : StageArgs) : Prop :=
  EachCall bc StageIntact P₀ ops ∧ ∃ r', SameHold r r' ∧ CreatedBy bc P₀ ops r' args

def TagTells (bc : BCrypt) (P : Preserve) (r : PreserveRecord) (args : StageArgs) : Prop :=
  sha256 ((decryptPayload bc r P).take r.provenanceLength.toNat) = sha256 (heldBytes args r) →
    (decryptPayload bc r P).take r.provenanceLength.toNat = heldBytes args r

theorem slice_take {α : Type} {l : List α} {n i k : Nat} (h : i + k ≤ n) :
    ((l.take n).drop i).take k = (l.drop i).take k := by
  rw [drop_take, take_take, min_eq_left (by omega)]

theorem Origin.slice_heldBytes (h : Origin args r) {i k : Nat} (hlo : r.provenanceOffset.toNat ≤ i)
    (hhi : i + k ≤ r.provenanceOffset.toNat + r.provenanceLength.toNat) :
    ((heldBytes args r).drop (i - r.provenanceOffset.toNat)).take k =
      (args.plaintext.drop (i - args.offset.toNat)).take k := by
  have hstart : r.provenanceOffset.toNat - args.offset.toNat +
      (i - r.provenanceOffset.toNat) = i - args.offset.toNat := by
    have := h.lo
    omega
  rw [heldBytes, slice_take (by omega), drop_drop, hstart]

theorem decrypt_eq_heldBytes (hlaw : bc.Lawful) (hinv : ExtentInv P₀) (hops : ∀ op ∈ ops, op.InRun)
    (horigin : Origin args r)
    (htag : sha256 ((decryptPayload bc r (runStore bc P₀ ops)).take r.provenanceLength.toNat) =
      r.contentTag)
    (h : HeldIntact bc P₀ ops r args ∨ TagTells bc (runStore bc P₀ ops) r args) :
    (decryptPayload bc r (runStore bc P₀ ops)).take r.provenanceLength.toNat =
      heldBytes args r := by
  rcases h with ⟨hintact, r', hsame, hcreated⟩ | htells
  · obtain ⟨hstored, hbound⟩ := hcreated.stored hlaw hinv hops hintact
    have hback := hstored.decrypt hlaw hcreated.origin hbound
    rw [hsame] at hback
    exact hback
  · exact htells (htag.trans horigin.tag)

/-- **First write wins.**  In every run from a fresh store, every byte-range record was created by
    one stage call, and a successful restore inside it gives back that call's bytes: if no rebuild
    was refused while the mark lay too low, no padded plaintext exceeded 32 bits and the record is
    still held when its payload is read, or else if SHA-256 does not confuse what is read with what
    was staged. -/
theorem first_write_wins (bc : BCrypt) (hlaw : bc.Lawful) (env₀ : LoadEnv)
    (ops between : List StoreOp) (hops : ∀ op ∈ ops ++ between, op.InRun) (r : PreserveRecord)
    (hr : r ∈ (runStore bc (freshStore env₀) ops).records) (hbyte : isByteRange r = true) :
    ∃ args, CreatedBy bc (freshStore env₀) ops r args ∧
      ∀ offset length outCap env out,
        r.provenanceOffset.toNat ≤ offset.toNat →
        offset.toNat + length.toNat ≤ r.provenanceOffset.toNat + r.provenanceLength.toNat →
        sarPreserveRestore bc r.provenancePath offset length outCap env
          (runStore bc (freshStore env₀) ops) (runStore bc (freshStore env₀) (ops ++ between)) =
            .ok out →
        (HeldIntact bc (freshStore env₀) (ops ++ between) r args ∨
          TagTells bc (runStore bc (freshStore env₀) (ops ++ between)) r args) →
        out = (args.plaintext.drop (offset.toNat - args.offset.toNat)).take length.toNat := by
  have hops' : ∀ op ∈ ops, op.InRun := fun op h => hops op (List.mem_append_left _ h)
  obtain ⟨args, hcreated⟩ := exists_createdBy (freshStore_records env₀) hops' hr hbyte
  refine ⟨args, hcreated, ?_⟩
  intro offset length outCap env out hlo hhi hrestore hkept
  have hpaths : PathsOk (runStore bc (freshStore env₀) ops).records :=
    runStore_pathsOk (freshStore_records env₀) hops'
  have horigin := hcreated.origin
  have hend := horigin.end_eq
  have hlt := (r.provenanceOffset + r.provenanceLength).toNat_lt
  unfold sarPreserveRestore at hrestore
  cases hlookup : restoreLookup r.provenancePath offset length outCap
      (runStore bc (freshStore env₀) ops) with
  | error status =>
    rw [hlookup] at hrestore
    cases hrestore
  | ok f =>
    rw [hlookup] at hrestore
    obtain ⟨hshort, hread⟩ := restoreRead_ok hrestore
    obtain ⟨hf, hpath, hflo, hfhi⟩ := restoreLookup_ok hlookup
    by_cases hzero : length.toNat = 0
    · rw [hzero] at hshort ⊢
      rw [List.take_zero]
      exact List.length_eq_zero_iff.mp (le_zero.mp hshort)
    -- the range is not empty, so the record found is the one asked for
    have hrange : (offset + length).toNat = offset.toNat + length.toNat := by
      rw [UInt64.toNat_add, mod_eq_of_lt (by omega)]
    rw [hrange, hpaths.end_eq f hf] at hfhi
    have hsame : f = r := by
      refine hpaths.eq_of_overlap (b := offset.toNat) hr hf hpath ⟨hlo, ?_⟩ ⟨hflo, ?_⟩
      · simp only [provSpan]
        omega
      · simp only [provSpan]
        omega
    subst hsame
    obtain ⟨-, htag, rfl⟩ := hread hbyte
    have hback := decrypt_eq_heldBytes hlaw (extentInv_freshStore env₀) hops horigin htag hkept
    have hinner : (offset - f.provenanceOffset).toNat =
        offset.toNat - f.provenanceOffset.toNat :=
      UInt64.toNat_sub_of_le _ _ (UInt64.le_iff_toNat_le.mpr hlo)
    rw [hinner, ← slice_take (show _ ≤ f.provenanceLength.toNat by omega), hback,
      horigin.slice_heldBytes hlo hhi]

/-! ### What the tag cannot tell -/

theorem identityCrypt_lawful : identityCrypt.Lawful :=
  ⟨fun _ _ _ _ => rfl, fun _ _ _ _ => rfl⟩

theorem exists_tag_collision :
    ∃ x y : List UInt8, x.length = 33 ∧ y.length = 33 ∧ x ≠ y ∧ tag x = tag y := by
  let bytes (x : Fin 33 → Fin 256) : List UInt8 := ofFn fun i => UInt8.ofFin (x i)
  let digits (x : Fin 33 → Fin 256) (i : Fin 32) : Fin 256 := ((tag (bytes x)).get i).toFin
  have hcard : Fintype.card (Fin 32 → Fin 256) < Fintype.card (Fin 33 → Fin 256) := by
    rw [Fintype.card_fun, Fintype.card_fun]
    simp only [Fintype.card_fin]
    exact Nat.pow_lt_pow_right (by decide) (by decide)
  obtain ⟨x, y, hne, hdigits⟩ := Fintype.exists_ne_map_eq_of_card_lt digits hcard
  refine ⟨bytes x, bytes y, length_ofFn, length_ofFn, ?_, ?_⟩
  · intro heq
    apply hne
    funext i
    have hi := congrFun (ofFn_injective heq) i
    exact congrArg UInt8.toFin hi
  · apply Vector.ext
    intro i hi
    exact congrArg UInt8.ofFin (congrFun hdigits ⟨i, hi⟩)

def stage33 (path : ProvPath) (x : List UInt8) (hx : x.length = 33) : StageArgs where
  path := path
  offset := 0
  length := 33
  actorId := 7
  plaintext := x
  againstReservation := false
  plaintext_lt := by rw [hx]; decide

structure EmptyStore (P : Preserve) : Prop where
  records_eq : P.records = []
  ready : P.ready = true
  dataOpen : P.dataOpen = true
  recordCapacity : P.recordCapacity = SAR_PRESERVE_RECORD_CAPACITY
  capacityBytes : P.capacityBytes = SAR_PRESERVE_DEFAULT_CAPACITY_BYTES
  reservedBytes : P.reservedBytes = 0
  free : P.freeDirty = true ∨ (P.freeExt = [] ∧ P.dataHighWater = 0)

theorem EmptyStore.alloc (h : EmptyStore P) (pool : Bool) : (sarPresAlloc P len pool).1 = 0 := by
  have hprepared : ∃ Q, Q = (if P.freeDirty then sarPresFreeRebuild P pool else P) ∧
      Q.freeExt = [] ∧ Q.dataHighWater = 0 := by
    refine ⟨_, rfl, ?_⟩
    rcases h.free with hdirty | hclean
    · rw [if_pos hdirty]
      unfold sarPresFreeRebuild
      rw [h.records_eq]
      exact ⟨rfl, rfl⟩
    · split
      · unfold sarPresFreeRebuild
        rw [h.records_eq]
        exact ⟨rfl, rfl⟩
      · exact hclean
  obtain ⟨Q, hQ, hfree, hmark⟩ := hprepared
  unfold sarPresAlloc
  rw [← hQ]
  dsimp only
  rw [hfree]
  exact hmark

theorem EmptyStore.makeRoom (h : EmptyStore P) (mode : Mode) :
    stageMakeRoom P false mode 48 = some P := by
  unfold stageMakeRoom
  rw [h.records_eq, h.capacityBytes, h.reservedBytes]
  rfl

theorem EmptyStore.turn (h : EmptyStore P) (hx : x.length = 33) :
    stageTurn identityCrypt (stage33 path x hx) (grantedEnv now) grantedTurn P 0 33 =
      (appendRecord (writtenStore identityCrypt (stage33 path x hx) grantedTurn P
          (Vector.replicate _ 0) 0 33)
        (stageRecord (stage33 path x hx) (grantedEnv now) (Vector.replicate _ 0) 0 0 33),
        none) := by
  have hround : sarPresRound16 33 = 48 := by decide
  have hcount : ¬ P.recordCapacity.toNat ≤ P.records.length := by
    rw [h.recordCapacity, h.records_eq]
    decide
  have hopen : (sarPresAlloc P 48 true).2.dataOpen = true := by
    obtain ⟨free, mark, dirty, hframe⟩ := sarPresAlloc_frame
    rw [hframe]
    exact h.dataOpen
  have hwrite : writeSucceeds (sarPresAlloc P 48 true).2 grantedTurn 0 48 = true := by
    unfold writeSucceeds
    rw [hopen]
    rfl
  unfold stageTurn
  rw [hround, show (stage33 path x hx).againstReservation = false from rfl, h.makeRoom]
  dsimp only
  rw [if_neg hcount]
  unfold stageStore writtenStore
  rw [hround]
  dsimp only
  rw [show grantedTurn.rebuildPool = true from rfl, h.alloc]
  exact if_pos hwrite

theorem EmptyStore.evictAged (h : EmptyStore P) : evictAged P now = P := by
  have hrecords := h.records_eq
  cases P
  subst hrecords
  simp [SemanticsAr.evictAged, sarPreserveEvictAged]

def record33 (path : ProvPath) (x : List UInt8) (hx : x.length = 33) (now : UInt64) :
    PreserveRecord :=
  stageRecord (stage33 path x hx) (grantedEnv now) (Vector.replicate _ 0) 0 0 33

def filledStore (P : Preserve) (path : ProvPath) (x : List UInt8) (hx : x.length = 33)
    (now : UInt64) : Preserve :=
  { writtenStore identityCrypt (stage33 path x hx) grantedTurn P (Vector.replicate _ 0) 0 33 with
    records := [record33 path x hx now], dirty := true }

theorem stage33_call (hready : P.ready = true) (hx : x.length = 33) :
    (sarPreserveStage identityCrypt (stage33 path x hx) (grantedEnv now) P).1 =
      (stageLoop identityCrypt (stage33 path x hx) (grantedEnv now) 0 (evictAged P now) 0
        false).1 := by
  have hguards : ¬ (x.length = 0 ∨ (33 : UInt64) = 0) ∧ ¬ x.length ≠ (33 : UInt64).toNat := by
    rw [hx]
    decide
  rw [sarPreserveStage, if_neg (by rw [hready]; decide),
    show (stage33 path x hx).plaintext = x from rfl,
    show (stage33 path x hx).length = 33 from rfl, if_neg hguards.1, if_neg hguards.2]
  rfl

theorem EmptyStore.stage (h : EmptyStore P) (hx : x.length = 33) :
    (sarPreserveStage identityCrypt (stage33 path x hx) (grantedEnv now) P).1 =
      filledStore P path x hx now := by
  have hgap : TurnGap (stage33 path x hx) P 0 0 33 := by
    unfold TurnGap
    rw [h.records_eq]
    have hspan : (0 : UInt64) + (0 + 33 - 0) = 33 := by decide
    show firstGapLoop [] path (0 + (0 + 33 - 0)) 0 = some (0, 33)
    have hscan : coverScan [] path 0 = (false, 0) := rfl
    have hnext : gapEndScan [] path 0 33 = 33 := rfl
    rw [hspan, firstGapLoop, if_pos (by decide), hscan, if_neg Bool.false_ne_true, hnext,
      UInt64.sub_zero]
  have hlt : (0 : UInt64) < 0 + 33 := by decide
  have hend : ¬ (0 : UInt64) + 33 < (stage33 path x hx).offset + (stage33 path x hx).length := by
    show ¬ (0 : UInt64) + 33 < 0 + 33
    decide
  have hloop : stageLoop identityCrypt (stage33 path x hx) (grantedEnv now) 0 P 0 false = _ :=
    stageLoop_of_gap hlt hgap
  rw [show (grantedEnv now).turn 0 = grantedTurn from rfl, h.turn hx] at hloop
  dsimp only at hloop
  rw [stage33_call h.ready, h.evictAged, hloop, stageLoop, if_neg hend]
  -- nothing is in the table that the record could run into
  have happend := appendRecord_cases (writtenStore identityCrypt (stage33 path x hx) grantedTurn P
      (Vector.replicate _ 0) 0 33) (record33 path x hx now)
    (by rw [writtenStore_records, writtenStore_recordCapacity, h.records_eq, h.recordCapacity]
        decide)
  rw [writtenStore_records, h.records_eq] at happend
  rcases happend with ⟨hcov, -⟩ | ⟨-, happend⟩
  · cases hcov
  · exact happend

theorem EmptyStore.apply_stage (h : EmptyStore P) (hx : x.length = 33) :
    (StoreOp.stage (stage33 path x hx) (grantedEnv now)).apply identityCrypt P =
      filledStore P path x hx now :=
  h.stage hx

theorem filledStore_frame (hx : x.length = 33) :
    ∃ free mark dirty data, filledStore P path x hx now =
      { P with freeExt := free, dataHighWater := mark, freeDirty := dirty, data := data,
               records := [record33 path x hx now], dirty := true } := by
  obtain ⟨free, mark, dirty, hframe⟩ := sarPresAlloc_frame
  unfold filledStore writtenStore
  rw [show grantedTurn.rebuildPool = true from rfl]
  dsimp only
  rw [hframe]
  exact ⟨free, mark, dirty, _, rfl⟩

theorem stagePadded_stage33 (hx : x.length = 33) :
    stagePadded (stage33 path x hx) 0 33 = x ++ replicate 15 0 := by
  have hslice : (x.drop (((0 : UInt64) - 0).toNat % 2 ^ 32)).take (33 : UInt64).toNat = x := by
    apply take_of_length_le
    rw [length_drop, hx]
    decide
  have hpad : (sarPresRound16 33).toNat - 33 = 15 := by decide
  unfold stagePadded
  dsimp only [stage33]
  rw [hslice, hx, hpad]

theorem EmptyStore.read_filled (h : EmptyStore P) (hx : x.length = 33) :
    readData (filledStore P path x hx now).data 0 48 = x ++ replicate 15 0 := by
  have hround : sarPresRound16 33 = 48 := by decide
  have hlen : (x ++ replicate 15 (0 : UInt8)).length = 48 := by
    rw [length_append, hx, length_replicate]
  have hread := readData_writeData (sarPresAlloc P 48 true).2.data 0 (x ++ replicate 15 0)
  rw [hlen] at hread
  have hcipher : (x ++ replicate 15 (0 : UInt8)).take ((48 : UInt64).toNat % 2 ^ 32) =
      x ++ replicate 15 0 := take_of_length_le (by rw [hlen]; decide)
  unfold filledStore writtenStore
  rw [hround, stagePadded_stage33 hx, hcipher, show grantedTurn.rebuildPool = true from rfl]
  dsimp only
  rw [h.alloc]
  exact hread

theorem EmptyStore.maintain_filled (h : EmptyStore P)
    (hretention : P.retention100ns = SAR_PRESERVE_DEFAULT_RETENTION_100NS) (path : ProvPath)
    (hx : x.length = 33) :
    EmptyStore (sarPresMaintain (1 + SAR_PRESERVE_DEFAULT_RETENTION_100NS)
      (filledStore P path x hx 1)) := by
  obtain ⟨free, mark, dirty, data, hframe⟩ := filledStore_frame hx
  have haged : agedOut (1 + SAR_PRESERVE_DEFAULT_RETENTION_100NS)
      SAR_PRESERVE_DEFAULT_RETENTION_100NS (record33 path x hx 1) = true := by
    show (decide ((1 : UInt64) + _ > 1) && decide ((1 : UInt64) + _ - 1 ≥ _)) = true
    decide
  have hreap (match? : PreserveRecord → Bool) : reapLoop (fun r =>
      r.kind == SAR_PRESERVE_KIND_NAMESPACE && match? r) [record33 path x hx 1] =
        [record33 path x hx 1] := by
    rw [reapLoop]
    exact if_neg Bool.false_ne_true
  rw [hframe]
  unfold sarPresMaintain sarPresReapNamespace sarPreserveEvictAged
  dsimp only
  rw [hreap, hretention]
  exact {
    records_eq := by
      apply filter_eq_nil_iff.mpr
      intro r hr
      rw [mem_singleton.mp hr, haged]
      exact Bool.false_ne_true
    ready := h.ready
    dataOpen := h.dataOpen
    recordCapacity := h.recordCapacity
    capacityBytes := h.capacityBytes
    reservedBytes := h.reservedBytes
    free := by
      left
      rw [countP_cons_of_pos haged]
      exact Bool.or_true _ }

theorem record33_contentTag (hx : x.length = 33) :
    (record33 path x hx now).contentTag = sha256 x := by
  have hslice : (x.drop (((0 : UInt64) - 0).toNat % 2 ^ 32)).take
      ((33 : UInt64).toNat % 2 ^ 32) = x := by
    apply take_of_length_le
    rw [length_drop, hx]
    decide
  show sarPreserveContentTag ((x.drop (((0 : UInt64) - 0).toNat % 2 ^ 32)).take
      ((33 : UInt64).toNat % 2 ^ 32)) = _
  rw [hslice]
  rfl

def restoreGranted : RestoreEnv := ⟨true, true, true, .error .notFound⟩

theorem restoreRead_of_tag (hpath : ZeroPadded path) {y : List UInt8} (hx : x.length = 33)
    (hy : y.length = 33) (htag : sha256 x = sha256 y) (hopen : P.dataOpen = true)
    (hread : readData P.data 0 48 = y ++ replicate 15 0) :
    restoreRead identityCrypt (record33 path x hx now) path 0 33 restoreGranted P = .ok y := by
  have hplain : decryptPayload identityCrypt (record33 path x hx now) P = y ++ replicate 15 0 := by
    have hround : (sarPresRound16 33).toNat % 2 ^ 32 = 48 := by decide
    have hrest : (sarPresRound16 33).toNat - 48 = 0 := by decide
    show readData P.data 0 ((sarPresRound16 33).toNat % 2 ^ 32) ++
      replicate ((sarPresRound16 33).toNat - (sarPresRound16 33).toNat % 2 ^ 32) 0 = _
    rw [hround, hrest, hread, replicate_zero, append_nil]
  have htake : (y ++ replicate 15 (0 : UInt8)).take 33 = y := by
    rw [← hy, take_left]
  unfold restoreRead
  rw [if_neg (show ¬ (record33 path x hx now).kind = SAR_PRESERVE_KIND_NAMESPACE by
      show ¬ SAR_PRESERVE_KIND_BYTERANGE = SAR_PRESERVE_KIND_NAMESPACE
      decide),
    if_neg (show ¬ restoreGranted.pool = false by decide),
    if_neg (show ¬ (P.dataOpen && restoreGranted.read) = false by rw [hopen]; decide),
    if_neg (show ¬ restoreGranted.crypt = false by decide), hplain,
    show (record33 path x hx now).provenanceLength.toNat = 33 from rfl, htake]
  have hverify : sarPreserveVerifyExtract (record33 path x hx now) path 0 33 y = .ok 0 := by
    unfold sarPreserveVerifyExtract
    rw [if_neg (show ¬ (33 : UInt64) = 0 by decide), if_neg, if_neg]
    · exact congrArg Except.ok (UInt64.sub_zero 0)
    · rw [record33_contentTag, htag]
      exact fun hne => hne rfl
    · rintro (hne | hne | hout)
      · exact hne hpath
      · exact hne hy
      · revert hout
        show ¬ sarPresContains 0 33 0 33 = false
        decide
  rw [hverify]
  show Except.ok ((y ++ replicate 15 0).take 33) = _
  rw [htake]

theorem EmptyStore.lookup_filled (h : EmptyStore P) (hpath : ZeroPadded path) (hx : x.length = 33) :
    restoreLookup path 0 33 33 (filledStore P path x hx now) = .ok (record33 path x hx now) := by
  obtain ⟨free, mark, dirty, data, hframe⟩ := filledStore_frame hx
  have hmatch : restoreMatch path 0 33 (record33 path x hx now) = true := by
    have hrange : (decide ((0 : UInt64) ≤ 0) && decide ((0 : UInt64) + 33 ≤ 0 + 33)) = true := by
      decide
    show (_ && copyPath path == path) = true
    rw [hpath, beq_self_eq_true, Bool.and_true]
    exact hrange
  rw [hframe]
  unfold restoreLookup
  rw [if_neg (by rw [h.ready]; decide), if_neg (by decide)]
  rw [find?_cons_of_pos hmatch]

def firstLoad : LoadEnv :=
  ⟨none, some (Vector.replicate _ 0), some (Vector.replicate _ 0), true, none⟩

theorem emptyStore_freshStore : EmptyStore (freshStore firstLoad) :=
  ⟨rfl, rfl, rfl, rfl, rfl, rfl, .inr ⟨rfl, rfl⟩⟩

/-- SHA-256 is all that guards a restore whose record is evicted while it runs: its space goes to
    another file, and bytes of that file with the same tag are given back. -/
theorem restore_returns_other_original :
    ∃ (x y : List UInt8) (hx : x.length = 33) (hy : y.length = 33), x ≠ y ∧
      sarPreserveRestore identityCrypt (pathOf [97] (by decide)) 0 33 33 restoreGranted
        (runStore identityCrypt (freshStore firstLoad)
          [.stage (stage33 (pathOf [97] (by decide)) x hx) (grantedEnv 1)])
        (runStore identityCrypt (freshStore firstLoad)
          [.stage (stage33 (pathOf [97] (by decide)) x hx) (grantedEnv 1),
            .maintain (1 + SAR_PRESERVE_DEFAULT_RETENTION_100NS),
            .stage (stage33 (pathOf [98] (by decide)) y hy)
              (grantedEnv (1 + SAR_PRESERVE_DEFAULT_RETENTION_100NS))]) = .ok y := by
  obtain ⟨x, y, hx, hy, hne, htag⟩ := exists_tag_collision
  refine ⟨x, y, hx, hy, hne, ?_⟩
  have hpath : ZeroPadded (pathOf [97] (by decide)) := by decide +kernel
  have hempty := emptyStore_freshStore
  have hempty' := hempty.maintain_filled rfl (pathOf [97] (by decide)) hx
  rw [runStore_cons, runStore_nil, runStore_cons, runStore_cons, runStore_cons, runStore_nil,
    hempty.apply_stage, StoreOp.apply, StoreOp.apply, hempty'.stage]
  rw [sarPreserveRestore_of_lookup (hempty.lookup_filled hpath hx)]
  obtain ⟨_, _, _, _, hframe⟩ := filledStore_frame hy
  refine restoreRead_of_tag hpath hx hy htag ?_ (hempty'.read_filled hy)
  rw [hframe]
  exact hempty'.dataOpen

/-- A second stage of the same bytes finds them covered and leaves the store as it is. -/
theorem EmptyStore.stage_again (h : EmptyStore P) (hpath : ZeroPadded path) {y : List UInt8}
    (hx : x.length = 33) (hy : y.length = 33) :
    (StoreOp.stage (stage33 path y hy) (grantedEnv now)).apply identityCrypt
      (filledStore P path x hx now) = filledStore P path x hx now := by
  obtain ⟨free, mark, dirty, data, hframe⟩ := filledStore_frame hx
  have hkept : SemanticsAr.evictAged (filledStore P path x hx now) now =
      filledStore P path x hx now := by
    have haged : agedOut now P.retention100ns (record33 path x hx now) = false :=
      Bool.and_eq_false_iff.mpr (.inl (decide_eq_false (UInt64.lt_irrefl now)))
    rw [hframe]
    simp [SemanticsAr.evictAged, sarPreserveEvictAged, haged]
  have hscan : coverScan [record33 path x hx now] path 0 = (true, 33) :=
    (if_neg (not_not.mpr hpath)).trans
      (if_pos (show (0 : UInt64) ≤ 0 ∧ (0 : UInt64) < 0 + 33 by decide))
  rw [StoreOp.apply, stage33_call (by rw [hframe]; exact h.ready), hkept, stageLoop]
  split
  · split
    · rfl
    next hgap =>
      rw [hframe] at hgap
      have hgap : firstGapLoop [record33 path x hx now] path (0 + (0 + 33 - 0)) 0 = _ := hgap
      rw [firstGapLoop, if_pos (by decide), hscan, if_pos rfl, firstGapLoop,
        if_neg (by decide)] at hgap
      cases hgap
  · rfl

/-- Of two calls for the same bytes the first one's come back. -/
theorem first_write_wins_twice : ∃ args,
    let path := pathOf [97] (by decide)
    CreatedBy identityCrypt (freshStore firstLoad)
        [.stage (stage33 path (List.replicate 33 5) rfl) (grantedEnv 1),
          .stage (stage33 path (List.replicate 33 6) rfl) (grantedEnv 1)]
        (record33 path (List.replicate 33 5) rfl 1) args ∧
      List.replicate 33 5 = (args.plaintext.drop (0 - args.offset.toNat)).take 33 := by
  have hempty := emptyStore_freshStore
  have hpath : ZeroPadded (pathOf [97] (by decide)) := by decide +kernel
  have hlen : ∀ b : UInt8, (List.replicate 33 b).length = 33 := fun _ => rfl
  let staged (b : UInt8) : StoreOp :=
    .stage (stage33 (pathOf [97] (by decide)) (List.replicate 33 b) (hlen b)) (grantedEnv 1)
  have hrun : runStore identityCrypt (freshStore firstLoad) [staged 5, staged 6] =
      filledStore (freshStore firstLoad) (pathOf [97] (by decide)) (List.replicate 33 5) (hlen 5)
        1 := by
    rw [runStore_cons, runStore_cons, runStore_nil, hempty.apply_stage,
      hempty.stage_again hpath (hlen 5) (hlen 6)]
  obtain ⟨_, _, _, _, hframe⟩ := filledStore_frame (hlen 5)
  have hsafe (b : UInt8) (P : Preserve) : StageIntact P (staged b) :=
    ⟨fun _ hpool => absurd hpool (by decide), show (List.replicate 33 b).length + 15 < _ by
      rw [hlen]; decide⟩
  have hintact : EachCall identityCrypt StageIntact (freshStore firstLoad) [staged 5, staged 6] :=
    ⟨hsafe 5 _, hsafe 6 _, trivial⟩
  obtain ⟨args, hcreated, hrestore⟩ := first_write_wins identityCrypt identityCrypt_lawful firstLoad
    [staged 5, staged 6] [] (by simp [staged, StoreOp.InRun])
    (record33 (pathOf [97] (by decide)) (List.replicate 33 5) (hlen 5) 1)
    (by rw [hrun, hframe]; exact List.mem_singleton_self _) rfl
  refine ⟨args, hcreated, hrestore 0 33 33 restoreGranted _ (le_refl _) (le_refl _) ?_
    (.inl ⟨hintact, record33 (pathOf [97] (by decide)) (List.replicate 33 5) (hlen 5) 1, rfl,
      hcreated⟩)⟩
  have hopen : (filledStore (freshStore firstLoad) (pathOf [97] (by decide)) (List.replicate 33 5)
      (hlen 5) 1).dataOpen = true := by
    rw [hframe]
    exact hempty.dataOpen
  have hpath' : (record33 (pathOf [97] (by decide)) (List.replicate 33 5) (hlen 5)
      1).provenancePath = pathOf [97] (by decide) := hpath
  rw [List.append_nil, hrun, hpath',
    sarPreserveRestore_of_lookup (hempty.lookup_filled hpath (hlen 5))]
  exact restoreRead_of_tag hpath (hlen 5) (hlen 5) (Eq.refl (sha256 (List.replicate 33 5))) hopen
    (hempty.read_filled (hlen 5))

end SemanticsAr
