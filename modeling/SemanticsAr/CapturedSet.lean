import SemanticsAr.FailClosed

/-!
# The captured ranges are exact

`cap_ranges` after any number of insertions, some of which may have failed for want of memory:
sorted, with a gap between any two ranges, and together the ranges that went in.  The walk of
`SarCaptureInPlaceRegion` over them stages the bytes of its region that none of them has, each
once, as long as no read of the mapped view raises an exception.
-/

namespace SemanticsAr

open List Runs

variable {ranges out : List CapRange} {r : CapRange} {T : CapTable} {b stop cursor : Nat}

/-! ### Insertion -/

structure Gapped (ranges : List CapRange) : Prop where
  lt : ∀ r ∈ ranges, r.start < r.stop
  apart : ranges.Pairwise fun r s => r.stop < s.start

theorem gapped_reverse_cons {rest : List CapRange} : Gapped (r :: rest).reverse ↔
      Gapped rest.reverse ∧ r.start < r.stop ∧ ∀ o ∈ rest, o.stop < r.start := by
  constructor
  · rintro ⟨hlt, hapart⟩
    simp only [reverse_cons, mem_append, mem_reverse, mem_singleton, pairwise_append] at hlt hapart
    refine ⟨⟨fun o ho => hlt o (.inl (mem_reverse.mp ho)), hapart.1⟩, hlt r (.inr rfl), ?_⟩
    intro o ho
    exact hapart.2.2 o ho r rfl
  · rintro ⟨⟨hlt, hapart⟩, hr, hrest⟩
    constructor
    · intro o ho
      rcases mem_cons.mp (mem_reverse.mp ho) with rfl | ho
      · exact hr
      · exact hlt o (mem_reverse.mpr ho)
    · simpa [pairwise_append, hapart] using hrest

theorem mergeInto_gapped (hout : Gapped out.reverse) (hr : r.start < r.stop) :
    Gapped (mergeInto out r).reverse := by
  cases out with
  | nil => simpa [mergeInto] using (⟨by simpa using hr, by simp⟩ : Gapped [r])
  | cons last rest =>
    obtain ⟨hrest, hlast, hbefore⟩ := gapped_reverse_cons.mp hout
    simp only [mergeInto]
    split
    · split
      next hgrow => exact gapped_reverse_cons.mpr ⟨hrest, hlast.trans hgrow, hbefore⟩
      · exact hout
    next hbeyond =>
      have hgap := not_le.mp hbeyond
      refine gapped_reverse_cons.mpr ⟨hout, hr, fun o ho => ?_⟩
      rcases mem_cons.mp ho with rfl | ho
      · exact hgap
      · exact (hbefore o ho).trans (hlast.trans hgap)

theorem mergeRanges_gapped (hlt : ∀ r ∈ ranges, r.start < r.stop) : Gapped (mergeRanges ranges) :=
  foldlRecOn ranges mergeInto (motive := fun out => Gapped out.reverse)
    ⟨forall_mem_nil _, .nil⟩ fun _ hout r hr => mergeInto_gapped hout (hlt r hr)

theorem mem_insertByStart {s : CapRange} (hs : s ∈ insertByStart r ranges) :
    s = r ∨ s ∈ ranges := by
  rcases mem_append.mp hs with hs | hs
  · exact .inr ((takeWhile_sublist _).subset hs)
  · rcases mem_cons.mp hs with rfl | hs
    · exact .inl rfl
    · exact .inr ((dropWhile_sublist _).subset hs)

/-- A call of `SarCapRangeInsert` whose result is ignored. -/
def CapTable.insert (T : CapTable) (call : CapRange × Bool) : CapTable :=
  (sarCapRangeInsert T call.1 call.2).getD T

/-- The ranges of the calls that succeed. -/
def CapTable.inserted : CapTable → List (CapRange × Bool) → List CapRange
  | _, [] => []
  | T, call :: calls =>
    if (sarCapRangeInsert T call.1 call.2).isSome then call.1 :: (T.insert call).inserted calls
    else (T.insert call).inserted calls

theorem CapTable.gapped_insert {call : CapRange × Bool} (hT : Gapped T.ranges)
    (hlt : call.1.start < call.1.stop) : Gapped (T.insert call).ranges := by
  unfold insert
  rcases hins : sarCapRangeInsert T call.1 call.2 with _ | T'
  · exact hT
  · unfold sarCapRangeInsert at hins
    split at hins
    · cases hins
    · cases hins
      apply mergeRanges_gapped
      intro s hs
      rcases mem_insertByStart hs with rfl | hs
      · exact hlt
      · exact hT.lt s hs

theorem CapTable.has_run_insert (T : CapTable) (calls : List (CapRange × Bool)) :
    (run insert T calls).Has b ↔ T.Has b ∨ InRanges (T.inserted calls) b := by
  induction calls generalizing T with
  | nil => simp [inserted]
  | cons call calls ih =>
    rw [run_cons, ih, inserted]
    rcases hins : sarCapRangeInsert T call.1 call.2 with _ | T'
    · simp [insert, hins]
    · have hhas : (T.insert call).Has b ↔ call.1.Has b ∨ T.Has b := by
        simpa [insert, hins] using sarCapRangeInsert_has hins
      simp [hhas, or_assoc, or_left_comm]

/-! ### The walk -/

theorem inChunks_uncaptured_iff (h : ranges.Pairwise StartOrder) (hlo : cursor ≤ b)
    (hhi : b < stop) : InChunks (uncapturedChunks stop ranges cursor) b ↔ ¬ InRanges ranges b := by
  refine ⟨fun hin => ?_, inChunks_uncaptured hlo hhi⟩
  induction ranges generalizing cursor with
  | nil => simp
  | cons r ranges ih =>
    obtain ⟨hr, hrest⟩ := pairwise_cons.mp h
    have hahead : b < r.start → ¬ InRanges (r :: ranges) b := by
      rintro hb ⟨s, hs, hsb, -⟩
      rcases mem_cons.mp hs with rfl | hs
      · exact not_le.mpr hb hsb
      · exact not_le.mpr hb ((hr s hs).trans hsb)
    have hbehind : r.stop ≤ b → ¬ r.Has b := fun hb hhas => not_le.mpr hhas.2 hb
    unfold uncapturedChunks at hin
    rw [if_pos (hlo.trans_lt hhi)] at hin
    rw [inRanges_cons] at hahead ⊢
    split at hin
    next hpast => exact not_or.mpr ⟨hbehind (hpast.trans hlo), ih hrest hlo hin⟩
    split at hin
    next hbeyond => exact hahead (hhi.trans_le hbeyond)
    · obtain ⟨c, hc, hb⟩ := hin
      rcases mem_append.mp hc with hc | hc
      · have hspan := (spanChunks_plan _ _).bounds_of_inChunks ⟨c, hc, hb⟩
        exact hahead (hspan.2.trans_le (min_le_left _ _))
      · have hspan := (uncapturedChunks_plan _ _ _).bounds_of_inChunks ⟨c, hc, hb⟩
        exact not_or.mpr ⟨hbehind hspan.1, ih hrest hspan.1 ⟨c, hc, hb⟩⟩

section

variable {bc : BCrypt} {env : CaptureEnv} {file : FileContent} {path : ProvPath} {actor : UInt64}
  {s : ViewStaging} {spanEnd off : Nat}

variable (bc env file path actor) in
/-- One staging call of the chunk `(offset, length)`. -/
def stageCall (s : ViewStaging) (chunk : Nat × Nat) : ViewStaging :=
  let res := sarPreserveStage bc (chunkArgs file path actor chunk.1 chunk.2) (env.stage s.calls)
    s.store
  ⟨res.1, s.calls + 1, s.worst.worse res.2⟩

theorem stageSpanLoop_eq_run (hfault : ∀ n, env.fault n = false) :
    stageSpanLoop bc env file path actor spanEnd off s =
      run (stageCall bc env file path actor) s (spanChunks spanEnd off) := by
  fun_induction stageSpanLoop bc env file path actor spanEnd off s with
  | case1 off s hlt P hchunk => simp [stageChunk, hfault] at hchunk
  | case2 off s hlt P r hchunk ih =>
    simp only [stageChunk, hfault, Bool.false_and, if_neg Bool.false_ne_true, Prod.mk.injEq,
      Option.some.injEq] at hchunk
    rw [ih, spanChunks_of_lt hlt, run_cons, stageCall, hchunk.1, hchunk.2]
  | case3 off s hge => rw [spanChunks_of_ge (not_lt.mp hge), run_nil]

theorem calls_run_stageCall (s : ViewStaging) (chunks : List (Nat × Nat)) :
    (run (stageCall bc env file path actor) s chunks).calls = s.calls + chunks.length := by
  induction chunks generalizing s with
  | nil => rfl
  | cons chunk chunks ih => rw [run_cons, ih, length_cons, stageCall, Nat.add_right_comm, add_assoc]

/-- What a call gave up before does not change what the later calls do. -/
theorem run_stageCall_worse (w : StageResult) (chunks : List (Nat × Nat)) :
    run (stageCall bc env file path actor) { s with worst := w.worse s.worst } chunks =
      let s' := run (stageCall bc env file path actor) s chunks
      { s' with worst := w.worse s'.worst } := by
  induction chunks generalizing s with
  | nil => rfl
  | cons c chunks ih =>
    rw [run_cons, run_cons, ← ih]
    congr 1
    simp only [stageCall, StageResult.worse]
    split <;> simp_all

theorem stageSpanInto_eq_run (hfault : ∀ n, env.fault n = false) :
    stageSpanInto bc env file path actor off spanEnd s =
      run (stageCall bc env file path actor) s (spanChunks spanEnd off) := by
  unfold stageSpanInto sarCaptureStageSpan
  rw [stageSpanLoop_eq_run hfault]
  exact (run_stageCall_worse (s := ⟨s.store, s.calls, .stored⟩) s.worst _).symm

theorem stageUncaptured_eq_run (hfault : ∀ n, env.fault n = false) :
    stageUncaptured bc env file path actor stop ranges cursor s =
      run (stageCall bc env file path actor) s (uncapturedChunks stop ranges cursor) := by
  induction ranges generalizing cursor s with
  | nil =>
    unfold stageUncaptured uncapturedChunks
    split
    · exact stageSpanInto_eq_run hfault
    next hge => rw [spanChunks_of_ge (not_lt.mp hge), run_nil]
  | cons r ranges ih =>
    unfold stageUncaptured uncapturedChunks
    split
    · split
      · exact ih
      split
      · exact stageSpanInto_eq_run hfault
      · rw [run_append, ih]
        congr 1
        split
        · exact stageSpanInto_eq_run hfault
        next hgap =>
          rw [spanChunks_of_ge ((min_le_left _ _).trans (not_lt.mp hgap)), run_nil]
    · rfl

end

/-- **The captured ranges are exact**, and so is what the walk over them stages: its calls are
    those of a list of chunks that lie one behind the other and together have just the bytes of
    the region outside the ranges inserted. -/
theorem captured_ranges_exact (calls : List (CapRange × Bool))
    (hcalls : ∀ call ∈ calls, call.1.start < call.1.stop) :
    let T := run CapTable.insert .empty calls
    Gapped T.ranges ∧ (∀ b, T.Has b ↔ InRanges (CapTable.empty.inserted calls) b) ∧
    (∀ call, sarCapRangeInsert T call.1 call.2 = none → T.insert call = T) ∧
    ∀ (bc : BCrypt) (env : CaptureEnv) (file : FileContent) (info : Option NormalizedName)
      (c : Caller) (offset length : UInt64) (P : Preserve), (∀ n, env.fault n = false) →
      ∃ chunks : List (Nat × Nat), stageRegion bc env file info c offset length T P =
          run (stageCall bc env file (sarCaptureResolveProvenance info) c.process.startKey)
            ⟨P, 0, .stored⟩ chunks ∧
        (∀ chunk ∈ chunks, 0 < chunk.2 ∧ chunk.2 ≤ SAR_PRESERVE_STAGE_MAX) ∧
        chunks.Pairwise (fun c d => c.1 + c.2 ≤ d.1) ∧
        ∀ b, InChunks chunks b ↔ offset.toNat ≤ b ∧ b < min (offset + length).toNat file.size ∧
          ¬ InRanges (CapTable.empty.inserted calls) b := by
  have hhas : ∀ b, (run CapTable.insert .empty calls).Has b ↔
      InRanges (CapTable.empty.inserted calls) b := by
    intro b
    rw [CapTable.has_run_insert]
    exact or_iff_right fun ⟨r, hr, _⟩ => absurd hr not_mem_nil
  refine ⟨?_, hhas, fun call hnone => by rw [CapTable.insert, hnone]; rfl, ?_⟩
  · have hstep : ∀ T : CapTable, ∀ call ∈ calls, Gapped T.ranges → Gapped (T.insert call).ranges :=
      fun T call hcall hT => CapTable.gapped_insert hT (hcalls call hcall)
    exact run_inv_mem hstep ⟨forall_mem_nil _, .nil⟩
  · intro bc env file info c offset length P hfault
    generalize hstop : min (offset + length).toNat file.size = stop
    generalize hT : run CapTable.insert .empty calls = T at hhas
    have hplan := uncapturedChunks_plan stop T.ranges offset.toNat
    refine ⟨uncapturedChunks stop T.ranges offset.toNat, ?_, ?_, hplan.order, fun b => ?_⟩
    · unfold stageRegion
      rw [hstop, stageUncaptured_eq_run hfault]
    · intro chunk hchunk
      exact (hplan.bounds chunk hchunk).2.2
    · rw [← hhas b]
      constructor
      · intro hin
        obtain ⟨hlo, hhi⟩ := hplan.bounds_of_inChunks hin
        exact ⟨hlo, hhi, (inChunks_uncaptured_iff T.sorted hlo hhi).mp hin⟩
      · rintro ⟨hlo, hhi, hfree⟩
        exact (inChunks_uncaptured_iff T.sorted hlo hhi).mpr hfree

/-- Two insertions, the first refused for want of memory. -/
theorem captured_ranges_exact_refused :
    let T := run CapTable.insert .empty
      [(⟨0, 16, by decide⟩, false), (⟨32, 48, by decide⟩, true)]
    Gapped T.ranges ∧ ¬ T.Has 15 ∧ T.Has 47 := by
  obtain ⟨hgapped, hhas, -⟩ := captured_ranges_exact
    [(⟨0, 16, by decide⟩, false), (⟨32, 48, by decide⟩, true)] (by decide)
  refine ⟨hgapped, fun h => ?_, (hhas 47).mpr ?_⟩
  · obtain ⟨r, hr, hlo, -⟩ := (hhas 15).mp h
    cases mem_singleton.mp hr
    exact absurd hlo (by decide)
  · exact ⟨⟨32, 48, by decide⟩, by decide, by decide, by decide⟩

/-- One byte more than a staging call takes. -/
def longFile : FileContent := ⟨fun _ => 0, SAR_PRESERVE_STAGE_MAX + 1, by decide⟩

/-- Reading the view raises an exception in the first call: no second one is made, and the last
    byte of the region is in no chunk. -/
theorem view_exception_leaves_rest :
    let env := { grantedCapture with fault := fun n => n == 0 }
    InPlaceReached env longFile (some plainName) userCaller 0 (UInt64.ofNat longFile.size)
      readyStore ∧
    ¬ ∃ chunks : List (Nat × Nat),
      stageRegion identityCrypt env longFile (some plainName) userCaller 0
          (UInt64.ofNat longFile.size) .empty readyStore =
        run (stageCall identityCrypt env longFile (sarCaptureResolveProvenance (some plainName))
          userCaller.process.startKey) ⟨readyStore, 0, .stored⟩ chunks ∧
      (∀ chunk ∈ chunks, 0 < chunk.2 ∧ chunk.2 ≤ SAR_PRESERVE_STAGE_MAX) ∧
      ∀ b < longFile.size, InChunks chunks b := by
  intro env
  refine ⟨⟨rfl, rfl, by decide, by decide +kernel, rfl, rfl, rfl, rfl, by decide⟩, ?_⟩
  rintro ⟨chunks, hrun, hbound, hall⟩
  have hcalls : chunks.length = 1 := by
    have hcount := congrArg ViewStaging.calls hrun
    rw [calls_run_stageCall, zero_add] at hcount
    rw [← hcount]
    show (stageSpanLoop _ _ _ _ _ longFile.size 0 _).calls = 1
    rw [stageSpanLoop, if_pos (by decide), stageChunk, if_pos (by decide +kernel)]
  obtain ⟨chunk, rfl⟩ := length_eq_one_iff.mp hcalls
  obtain ⟨_, hfirst, hlo, -⟩ := hall 0 (by decide)
  obtain ⟨_, hlast, -, hhi⟩ := hall SAR_PRESERVE_STAGE_MAX (by decide)
  cases mem_singleton.mp hfirst
  cases mem_singleton.mp hlast
  have hmax := (hbound chunk mem_cons_self).2
  omega

end SemanticsAr
