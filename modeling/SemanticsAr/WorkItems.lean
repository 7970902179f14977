import SemanticsAr.CapCache

/-!
# Stages of recycled work items

The items that carry a deferred stage to the worker come from a lookaside list and are not
cleared, so the path of an item is followed by what an earlier item left behind its
terminator.  The walk over the gaps compares the whole buffer, the record of a gap carries
the path as a string; `deferred_stage_covers_iff` says for which stores and items the two
agree.
-/

namespace SemanticsAr

open List UInt64

variable {staged : Bool} {b n : Nat} {records live : List PreserveRecord} {path : ProvPath}
  {last cursor gOff gLen : UInt64} {P : Preserve}

/-! ### The gaps and the records that are thrown away -/

/-- Whether the loop of `SarPreserveStage`, from a turn on, completes a turn whose record
    is computed and written and then refused by the table. -/
def stageDiscards (bc : BCrypt) (args : StageArgs) (env : StageEnv) (n : Nat) (P : Preserve)
    (cursor : UInt64) : Bool := (stageTurns bc args env n P cursor).any isEmpty

def stageCallDiscards (bc : BCrypt) (args : StageArgs) (env : StageEnv) (P : Preserve) : Bool :=
  stageDiscards bc args env 0 (evictAged P env.now) args.offset

section

variable {bc : BCrypt} {args : StageArgs} {env : StageEnv}

/-! ### The loop -/

theorem turnAppends_isEmpty {P' : Preserve} {turn : TurnEnv} (hmode : turn.mode = .enforce)
    (h : StringRecords args live P cursor) (hgap : TurnGap args P cursor gOff gLen)
    (hturn : stageTurn bc args env turn P gOff gLen = (P', none)) :
    (turnAppends args env turn P gOff gLen).isEmpty = gapRefused live args.path (gOff, gLen) := by
  obtain ⟨room, -, hroom, hrecords, -⟩ := stageTurn_appends hturn
  have hsame : room = P := by
    rcases hroom with hroom | hroom
    · exact hroom
    · exact absurd hmode hroom.1
  rw [hsame] at hrecords
  obtain ⟨-, iv, off, ⟨hrefused, hP'⟩ | ⟨hrefused, hP'⟩⟩ := h.step hmode hgap hturn
  · rw [hrefused, append_cancel_left (hrecords.symm.trans hP'), isEmpty_cons]
  · rw [hrefused, self_eq_append_right.mp (hP'.symm.trans hrecords), isEmpty_nil]

/-- **Which loops throw a record away.**  Under enforcement a loop that is not cut short
    does so exactly when an older record of the path overlaps one of the gaps. -/
theorem stageLoop_discards_iff (hmode : ∀ n, (env.turn n).mode = .enforce)
    (hinv : StringRecords args live P cursor)
    (hdropped : (stageLoop bc args env n P cursor staged).2.1 ≠ .dropped)
    (hfailed : (stageLoop bc args env n P cursor staged).2.1 ≠ .failed) :
    stageDiscards bc args env n P cursor = false ↔
      ∀ gap ∈ gapList live args.path (args.offset + args.length) cursor,
        gapRefused live args.path gap = false := by
  fun_induction stageLoop bc args env n P cursor staged with
  | case1 n P cursor staged last hlt hgap =>
    rw [stageDiscards, stageTurns_of_no_gap hgap, gapList_of_no_gap (hinv.gap.symm.trans hgap)]
    simp
  | case2 n P cursor staged last hlt gOff gLen hgap hprogress P' result hturn =>
    rcases stageTurn_stop hturn with h | h
    · exact absurd h hdropped
    · exact absurd h hfailed
  | case3 n P cursor staged last hlt gOff gLen hgap hprogress P' hturn ih =>
    have hinv' := (hinv.step (hmode n) hgap hturn).1
    rw [stageDiscards, stageTurns_of_gap hlt hgap, hturn,
      gapList_of_gap (hinv.gap.symm.trans hgap)]
    simp only [any_cons, turnAppends_isEmpty (hmode n) hinv hgap hturn, Bool.or_eq_false_iff,
      mem_cons, forall_eq_or_imp]
    exact and_congr_right fun _ => ih hinv' hdropped hfailed
  | case4 n P cursor staged last hge =>
    rw [stageDiscards, stageTurns_of_no_gap (firstGap_of_not_lt hge),
      gapList_of_no_gap (firstGap_of_not_lt hge)]
    simp

end

/-! ### The stage of a work item -/

namespace QueuedStage

theorem toNat_args_length (e : QueuedStage) : e.args.length.toNat = e.stage.bytes.length := by
  have hlt := e.len_lt
  exact toNat_ofNat_of_lt' (by simp only [UInt64.size]; omega)

theorem no_wrap_of_covered {e : QueuedStage} {text : List UInt16}
    (hcov : ∀ b, e.args.offset.toNat ≤ b → b < e.args.offset.toNat + e.stage.bytes.length →
      CoveredByText records text b) :
    e.stage.bytes = [] ∨ e.args.offset.toNat + e.stage.bytes.length < 2 ^ 64 := by
  by_cases hbytes : e.stage.bytes = []
  · exact .inl hbytes
  right
  have hpos := length_pos_of_ne_nil hbytes
  obtain ⟨r, -, -, -, hend⟩ :=
    hcov (e.args.offset.toNat + e.stage.bytes.length - 1) (by omega) (by omega)
  have hlt := (r.provenanceOffset + r.provenanceLength).toNat_lt
  omega

end QueuedStage

theorem sarMmapDeferPreserve_eq {menv : MmapEnv} {offset : Nat} {buf : List UInt8} {actor : UInt64}
    {backed : Bool} {stage : DeferredStage}
    (h : sarMmapDeferPreserve menv n path offset buf actor backed = some stage) :
    stage = ⟨workPath (menv.stale n) path, offset, buf, actor, backed⟩ := by
  simp only [sarMmapDeferPreserve, Option.ite_none_left_eq_some, Option.some.injEq] at h
  exact h.2.2.2.2.2.symm

/-- **When a deferred stage covers its range.**  Under enforcement a successful stage of a filled
    work item covers its range by records of the path and throws no record away, exactly when the
    range does not run past the largest offset and no live record of the path overlaps a gap of the
    range among the records of exactly the item's buffer. -/
theorem deferred_stage_covers_iff (bc : BCrypt) (menv : MmapEnv) (n : Nat) (path : ProvPath)
    (offset : Nat) (buf : List UInt8) (actor : UInt64) (backed : Bool) (e : QueuedStage)
    (env : StageEnv) (P : Preserve)
    (hfill : sarMmapDeferPreserve menv n path offset buf actor backed = some e.stage)
    (hmode : ∀ k, (env.turn k).mode = .enforce)
    (hres : (sarPreserveStage bc e.args env P).2 = .stored ∨
      (sarPreserveStage bc e.args env P).2 = .alreadyCovered) :
    ((∀ b, e.args.offset.toNat ≤ b → b < e.args.offset.toNat + e.stage.bytes.length →
        CoveredByText (sarPreserveStage bc e.args env P).1.records (workText path) b) ∧
      stageCallDiscards bc e.args env P = false) ↔
    (e.stage.bytes = [] ∨ e.args.offset.toNat + e.stage.bytes.length < 2 ^ 64) ∧
      ∀ gap ∈ gapList (liveRecords P env.now) (workPath (menv.stale n) path)
          (e.args.offset + e.args.length) e.args.offset,
        sarPreserveCovered (liveRecords P env.now) (copyPath (workPath (menv.stale n) path))
          gap.1 gap.2 = false := by
  have hpath : e.args.path = workPath (menv.stale n) path := by
    show e.stage.path = _
    rw [sarMmapDeferPreserve_eq hfill]
  have htext : pathText e.args.path = workText path := by
    rw [hpath, pathText_workItem]
  rw [← hpath, ← htext]
  have hstart : StringRecords e.args (liveRecords P env.now) (evictAged P env.now)
      e.args.offset := ⟨[], (append_nil _).symm, forall_mem_nil _⟩
  rcases sarPreserveStage_cases hres with ⟨hzero, -⟩ | ⟨hplain, -, hlen, hd, hf, hP'⟩
  · have hbytes : e.stage.bytes = [] := by
      rcases hzero with h | h
      · exact h
      · rw [← length_eq_zero_iff, ← e.toNat_args_length, h]
        rfl
    have hend : ¬ e.args.offset < e.args.offset + e.args.length := by
      have hlen : e.args.length = 0 := by
        rw [← UInt64.toNat_inj, e.toNat_args_length, hbytes]
        rfl
      rw [hlen, add_zero]
      exact UInt64.lt_irrefl _
    have hnone : stageCallDiscards bc e.args env P = false := by
      rw [stageCallDiscards, stageDiscards, stageTurns_of_no_gap (firstGap_of_not_lt hend)]
      rfl
    rw [hnone, gapList_of_no_gap (firstGap_of_not_lt hend), hbytes]
    refine iff_of_true ⟨?_, rfl⟩ ⟨.inl rfl, forall_mem_nil _⟩
    intro b hlo hhi
    exact absurd hhi (Nat.not_lt.mpr hlo)
  · have hiff := stageLoop_discards_iff hmode hstart hd hf
    rw [hP', stageCallDiscards, hiff]
    constructor
    · intro h
      exact ⟨QueuedStage.no_wrap_of_covered h.1, h.2⟩
    · rintro ⟨hwrap, hclear⟩
      refine ⟨?_, hclear⟩
      have hno : e.args.offset.toNat + e.args.length.toNat < 2 ^ 64 := by
        rw [e.toNat_args_length]
        exact hwrap.resolve_left hplain
      obtain ⟨added, hfilled⟩ := stageLoop_filled hlen hno hmode hd hf
      intro b hlo hhi
      rw [hfilled.coveredByText_iff]
      rw [← e.toNat_args_length] at hhi
      rcases coveredBy_or_gap (liveRecords P env.now) hno hlo hhi with hcov | ⟨gap, hgap, hb⟩
      · exact .inl hcov.text
      · exact .inr ⟨gap, hgap, hclear gap hgap, hb⟩

/-- A work item for the first 32 bytes of `a`, in a buffer that held `stale`. -/
def itemOf (stale : ProvPath) : QueuedStage where
  stage := ⟨workPath stale (pathOf [97] fileA_fits), 0, List.replicate 32 0, 7, false⟩
  len_lt := by simp
  succeeds := true

/-- In a cleared item the stage fills what the store does not hold yet. -/
theorem cleared_item_covers :
    let res := sarPreserveStage identityCrypt (itemOf (Vector.replicate _ 0)).args (grantedEnv 2)
      heldStore
    res.2 = .stored ∧
      (∀ b, 0 ≤ b → b < 0 + 32 → CoveredByText res.1.records [97] b) ∧
      stageCallDiscards identityCrypt (itemOf (Vector.replicate _ 0)).args (grantedEnv 2)
        heldStore = false := by
  refine ⟨by decide +kernel, ?_⟩
  refine (deferred_stage_covers_iff identityCrypt grantedMmap 0 (pathOf [97] (by decide)) 0
    (List.replicate 32 0) 7 false (itemOf (Vector.replicate _ 0)) (grantedEnv 2) heldStore rfl
    (fun _ => rfl) (.inl (by decide +kernel))).mpr ⟨.inr (by decide), ?_⟩
  have hpath : copyPath (workPath (Vector.replicate _ 0) (pathOf [97] (by decide))) =
      workPath (Vector.replicate _ 0) (pathOf [97] (by decide)) := by
    decide +kernel
  intro gap hgap
  show sarPreserveCovered _ (copyPath (workPath (Vector.replicate _ 0) _)) _ _ = false
  rw [hpath]
  exact gapList_not_covered hgap

/-- In an item that carried the path `ccb` before, the record of the whole range is written and
    thrown away: the stage reports success and the second half is in no record. -/
theorem recycled_item_uncovered :
    let stale := pathOf [99, 99, 98] (by decide)
    let res := sarPreserveStage identityCrypt (itemOf stale).args (grantedEnv 2) heldStore
    sarMmapDeferPreserve { grantedMmap with stale := fun _ => stale } 0 (pathOf [97] (by decide)) 0
        (List.replicate 32 0) 7 false = some (itemOf stale).stage ∧
      res.2 = .stored ∧ ¬ CoveredByText res.1.records [97] 16 ∧
      stageCallDiscards identityCrypt (itemOf stale).args (grantedEnv 2) heldStore = true := by
  refine ⟨rfl, by decide +kernel, by decide +kernel, by decide +kernel⟩

end SemanticsAr
