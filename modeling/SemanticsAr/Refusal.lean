import SemanticsAr.FailClosed
import SemanticsAr.Response

/-!
# Refusals

Under enforcement a request is refused when its capture gives the original up.  This module
says why a capture gives up: a staging call for lack of room or of a system resource, a view
that cannot be read, a link for which the table has no room, but also a path that has no
quarantine directory and a name that already has a link.  From this follows which refusals are
owed to the resource bound alone.
-/

namespace SemanticsAr

open List

variable {P Q : Preserve} {front back chunks : List (Nat × Nat)} {info : Option NormalizedName}
  {cap : CapTable} {lost : Bool} {out : Outcome} {b n spanEnd off : Nat} {offset length : UInt64}
  {c : Caller}
  {G : Globals} {t : Target} {calls : List CaptureCall} {op : SetInformationRequest}

/-! ### Why a staging call gives up -/

section

variable {bc : BCrypt} {args : StageArgs} {env : StageEnv}

variable (bc args env) in
inductive StageTurnAt (P : Preserve) : Nat → Preserve → UInt64 → Prop where
  | start : StageTurnAt P 0 (evictAged P env.now) args.offset
  | next {n : Nat} {Q Q' : Preserve} {cursor gOff gLen : UInt64} (h : StageTurnAt P n Q cursor)
      (hgap : TurnGap args Q cursor gOff gLen)
      (hturn : stageTurn bc args env (env.turn n) Q gOff gLen = (Q', none)) :
      StageTurnAt P (n + 1) Q' (gOff + gLen)

def LacksCapacity (args : StageArgs) (turn : TurnEnv) (Q : Preserve) (gLen : UInt64) : Prop :=
  stageMakeRoom Q args.againstReservation turn.mode (sarPresRound16 gLen) = none ∨
    ∃ room, stageMakeRoom Q args.againstReservation turn.mode (sarPresRound16 gLen) = some room ∧
      room.recordCapacity.toNat ≤ room.records.length

/-- A turn lacks a system resource: random bytes, memory, the cipher, or the payload file. -/
def LacksResource (args : StageArgs) (turn : TurnEnv) (Q : Preserve) (gLen : UInt64) : Prop :=
  turn.iv = none ∨ (turn.ctPool && turn.padPool && turn.crypt) = false ∨
    ∃ room, stageMakeRoom Q args.againstReservation turn.mode (sarPresRound16 gLen) = some room ∧
      let alloc := sarPresAlloc room (sarPresRound16 gLen) turn.rebuildPool
      writeSucceeds alloc.2 turn alloc.1 ((sarPresRound16 gLen).toNat % 2 ^ 32) = false

variable (bc args env) in
def StageLacks (P : Preserve) : Prop :=
  ∃ n Q cursor gOff gLen, StageTurnAt bc args env P n Q cursor ∧ TurnGap args Q cursor gOff gLen ∧
    (LacksCapacity args (env.turn n) Q gLen ∨ LacksResource args (env.turn n) Q gLen)

theorem stageTurn_lacks {turn : TurnEnv} {Q' : Preserve} {gOff gLen : UInt64} {r : StageResult}
    (h : stageTurn bc args env turn Q gOff gLen = (Q', some r)) :
    LacksCapacity args turn Q gLen ∨ LacksResource args turn Q gLen := by
  unfold stageTurn at h
  split at h
  next hroom =>
    exact .inl (.inl hroom)
  rename_i room hroom
  split at h
  next hfull =>
    exact .inl (.inr ⟨room, hroom, hfull⟩)
  split at h
  next hiv =>
    exact .inr (.inl hiv)
  split at h
  · unfold stageStore at h
    dsimp only at h
    split at h
    · cases h
    next hwrite =>
      exact .inr (.inr (.inr ⟨room, hroom, Bool.eq_false_iff.mpr hwrite⟩))
  next hpools =>
    exact .inr (.inr (.inl (Bool.eq_false_iff.mpr hpools)))

/-- **A ready store gives a range up only for lack of capacity or of a resource.** -/
theorem stage_lost_lacks (hready : P.ready = true)
    (hlen : args.plaintext.length = args.length.toNat)
    (h : (sarPreserveStage bc args env P).2.lost = true) : StageLacks bc args env P := by
  unfold sarPreserveStage at h
  rw [if_neg (by simp [hready])] at h
  split at h
  · cases h
  rw [if_neg (not_not.mpr hlen)] at h
  dsimp only at h
  have hresult : (stageLoop bc args env 0 (evictAged P env.now) args.offset false).2.1 = .dropped ∨
      (stageLoop bc args env 0 (evictAged P env.now) args.offset false).2.1 = .failed := by
    by_contra hno
    rw [if_neg hno] at h
    split at h <;> cases h
  refine stageLoop_rule (fun n Q cursor _ => StageTurnAt bc args env P n Q cursor)
    (fun _ result _ => result = .dropped ∨ result = .failed → StageLacks bc args env P)
    ?_ ?_ ?_ StageTurnAt.start hresult
  · intro n Q cursor staged _ _ hres
    rcases hres with hres | hres <;> cases hres
  · intro n Q cursor staged gOff gLen Q' result hat hgap hturn _
    exact ⟨n, Q, cursor, gOff, gLen, hat, hgap, stageTurn_lacks hturn⟩
  · intro n Q cursor staged gOff gLen Q' hat hgap hturn
    exact hat.next hgap hturn

end

/-! ### Why a capture gives up -/

section

variable {bc : BCrypt} {env : CaptureEnv} {file : FileContent} {path : ProvPath} {actor : UInt64}

variable (bc env file path actor) in
def LostAt (n : Nat) (chunks : List (Nat × Nat)) (P : Preserve) : Prop :=
  ∃ front off len back Q, chunks = front ++ (off, len) :: back ∧
    StagedChunks bc env file path actor n front P Q ∧
    ∀ r, (stageChunk bc env file path actor (n + front.length) off len Q).2 = some r → r.lost = true

theorem lostAt_cons {off len : Nat}
    (h : ∀ r, (stageChunk bc env file path actor n off len P).2 = some r → r.lost = true) :
    LostAt bc env file path actor n ((off, len) :: back) P :=
  ⟨[], off, len, back, P, rfl, .nil, h⟩

theorem LostAt.append (h : LostAt bc env file path actor n front P) :
    LostAt bc env file path actor n (front ++ back) P := by
  obtain ⟨before, off, len, after, Q, rfl, hstaged, hlost⟩ := h
  exact ⟨before, off, len, after ++ back, Q, by simp, hstaged, hlost⟩

theorem StagedChunks.lostAt (h : StagedChunks bc env file path actor n front P Q)
    (hlost : LostAt bc env file path actor (n + front.length) back Q) :
    LostAt bc env file path actor n (front ++ back) P := by
  obtain ⟨before, off, len, after, R, rfl, hstaged, hcall⟩ := hlost
  refine ⟨front ++ before, off, len, after, R, by simp, h.append hstaged, ?_⟩
  rwa [length_append, ← Nat.add_assoc]

theorem stageSpanLoop_lostAt (s : ViewStaging) (hs : s.worst.lost = false)
    (h : (stageSpanLoop bc env file path actor spanEnd off s).worst.lost = true) :
    LostAt bc env file path actor s.calls (spanChunks spanEnd off) s.store := by
  fun_induction stageSpanLoop bc env file path actor spanEnd off s with
  | case1 off s hlt P hchunk =>
    rw [spanChunks_of_lt hlt]
    refine lostAt_cons fun r hr => ?_
    rw [hchunk] at hr
    cases hr
  | case2 off s hlt P r hchunk ih =>
    rw [spanChunks_of_lt hlt]
    cases hr : r.lost with
    | true =>
      refine lostAt_cons fun r' hr' => ?_
      rw [hchunk] at hr'
      cases hr'
      exact hr
    | false =>
      have hrest := ih ((StageResult.worse_lost _ _).mpr ⟨hs, hr⟩) h
      unfold stageChunk at hchunk
      dsimp only at hchunk
      split at hchunk
      · cases hchunk
      cases hchunk
      exact StagedChunks.lostAt (.cons hr .nil) hrest
  | case3 off s hge => cases hs.symm.trans h

theorem stageSpanInto_lostAt (spanStart spanEnd : Nat) (s : ViewStaging)
    (hs : s.worst.lost = false)
    (h : (stageSpanInto bc env file path actor spanStart spanEnd s).worst.lost = true) :
    LostAt bc env file path actor s.calls (spanChunks spanEnd spanStart) s.store := by
  refine stageSpanLoop_lostAt ⟨s.store, s.calls, .stored⟩ rfl ?_
  by_contra hspan
  have hworse := (StageResult.worse_lost s.worst _).mpr ⟨hs, Bool.eq_false_iff.mpr hspan⟩
  cases hworse.symm.trans h

theorem stageUncaptured_lostAt (stop : Nat) (ranges : List CapRange) (cursor : Nat)
    (s : ViewStaging) (hs : s.worst.lost = false)
    (h : (stageUncaptured bc env file path actor stop ranges cursor s).worst.lost = true) :
    LostAt bc env file path actor s.calls (uncapturedChunks stop ranges cursor) s.store := by
  induction ranges generalizing cursor s with
  | nil =>
    unfold stageUncaptured at h
    split at h
    · exact stageSpanInto_lostAt cursor stop s hs h
    · cases hs.symm.trans h
  | cons r ranges ih =>
    unfold stageUncaptured at h
    unfold uncapturedChunks
    split_ifs at h ⊢ with hlt hbehind hbeyond hgap
    · exact ih cursor s hs h
    · exact stageSpanInto_lostAt cursor stop s hs h
    · cases hspan :
        (stageSpanInto bc env file path actor cursor (min r.start stop) s).worst.lost with
      | true => exact (stageSpanInto_lostAt cursor _ s hs hspan).append
      | false =>
        obtain ⟨-, hstaged, hcalls⟩ := stageSpanInto_made cursor (min r.start stop) s hspan
        exact hstaged.lostAt (hcalls ▸ ih r.stop _ hspan h)
    · rw [spanChunks_of_ge ((Nat.min_le_left _ _).trans (Nat.not_lt.mp hgap)), nil_append]
      exact ih r.stop s hs h
    · cases hs.symm.trans h

variable (bc env file path actor) in
/-- The staging calls of the plan succeed up to one that cannot read the view, or lacks
    capacity or a resource. -/
def PlanLacks (chunks : List (Nat × Nat)) (P : Preserve) : Prop :=
  ∃ front off len back Q, chunks = front ++ (off, len) :: back ∧
    StagedChunks bc env file path actor 0 front P Q ∧
    (env.fault front.length = true ∨
      StageLacks bc (chunkArgs file path actor off len) (env.stage front.length) Q)

theorem StagedChunks.frame (h : StagedChunks bc env file path actor n chunks P Q) :
    TableFrame P Q := by
  induction h with
  | nil => exact TableFrame.refl
  | cons _ _ ih => exact sarPreserveStage_frame.trans ih

theorem TableFrame.ready_eq {P' : Preserve} (h : TableFrame P P') : P'.ready = P.ready := by
  obtain ⟨_, _, _, _, _, _, rfl⟩ := h
  rfl

theorem LostAt.lacks (h : LostAt bc env file path actor 0 chunks P)
    (hchunks : ∀ c ∈ chunks, ChunkOk c) (hready : P.ready = true) :
    PlanLacks bc env file path actor chunks P := by
  obtain ⟨front, off, len, back, Q, rfl, hstaged, hlost⟩ := h
  rw [Nat.zero_add] at hlost
  refine ⟨front, off, len, back, Q, rfl, hstaged, ?_⟩
  have hok : ChunkOk (off, len) := hchunks _ (mem_append_right _ mem_cons_self)
  have hlen : (chunkArgs file path actor off len).plaintext.length =
      (chunkArgs file path actor off len).length.toNat := by
    rw [hok.plaintext_length, hok.length_toNat]
  unfold stageChunk at hlost
  dsimp only at hlost
  split at hlost
  next hfault =>
    rw [Bool.and_eq_true] at hfault
    exact .inl hfault.1
  · exact .inr (stage_lost_lacks (hstaged.frame.ready_eq.trans hready) hlen (hlost _ rfl))

/-! ### What is held already -/

def HeldThroughout (env : CaptureEnv) (path : ProvPath) (P : Preserve) (b : Nat) : Prop :=
  ∃ r ∈ P.records, RecCovers path r b ∧
    ∀ n, ¬ Expired P.retention100ns (env.stage n).now r.captureTime

theorem HeldThroughout.evictAged (h : HeldThroughout env path P b) :
    HeldThroughout env path (evictAged P (env.stage n).now) b := by
  obtain ⟨r, hr, hcov, hfresh⟩ := h
  exact ⟨r, mem_liveRecords.mpr ⟨hr, hfresh n⟩, hcov, hfresh⟩

theorem HeldThroughout.coveredBy (h : HeldThroughout env path P b) :
    CoveredBy (liveRecords P (env.stage n).now) path b := by
  obtain ⟨r, hr, hcov, hfresh⟩ := h
  exact ⟨r, mem_liveRecords.mpr ⟨hr, hfresh n⟩, hcov⟩

theorem stage_of_covered {args : StageArgs} {env : StageEnv} (hready : P.ready = true)
    (hpos : args.length ≠ 0) (hlen : args.plaintext.length = args.length.toNat)
    (hwrap : args.offset.toNat + args.length.toNat < 2 ^ 64)
    (hcov : RangeCovered (liveRecords P env.now) args.path args.offset args.length) :
    sarPreserveStage bc args env P = (evictAged P env.now, .alreadyCovered) := by
  have hplain : args.plaintext.length ≠ 0 :=
    fun hzero => hpos (UInt64.toNat_inj.mp (hlen.symm.trans hzero))
  unfold sarPreserveStage
  rw [if_neg (by simp [hready]), if_neg (not_or.mpr ⟨hplain, hpos⟩), if_neg (not_not.mpr hlen),
    stageLoop_of_covered (P := evictAged P env.now) hwrap hcov]
  rfl

variable (bc file actor) in
theorem stage_of_held (n : Nat) {off len : Nat} (hok : ChunkOk (off, len)) (hready : P.ready = true)
    (hheld : ∀ b, off ≤ b → b < off + len → HeldThroughout env path P b) :
    sarPreserveStage bc (chunkArgs file path actor off len) (env.stage n) P =
        (evictAged P (env.stage n).now, .alreadyCovered) ∧
      (stageChunk bc env file path actor n off len P).2 = some .alreadyCovered := by
  obtain ⟨args, hargs⟩ : ∃ args, args = chunkArgs file path actor off len := ⟨_, rfl⟩
  have hoff : args.offset.toNat = off := hargs ▸ hok.offset_toNat
  have hlength : args.length.toNat = len := hargs ▸ hok.length_toNat
  have hplain : args.plaintext.length = len := hargs ▸ hok.plaintext_length
  have hpos := hok.pos
  have hwrap : args.offset.toNat + args.length.toNat < 2 ^ 64 := by
    have hend := hok.end_lt
    omega
  have hcov : RangeCovered (liveRecords P (env.stage n).now) path args.offset args.length :=
    fun b hlo hhi => (hheld b (by omega) (by omega)).coveredBy
  have hnonzero : args.length ≠ 0 := by
    intro hzero
    rw [hzero, UInt64.toNat_zero] at hlength
    omega
  subst hargs
  have hstage := @stage_of_covered P bc _ _ hready hnonzero (hplain.trans hlength.symm) hwrap hcov
  refine ⟨hstage, ?_⟩
  unfold stageChunk
  dsimp only
  rw [firstGap_of_covered hwrap hcov, Option.isSome_none, Bool.and_false, if_neg (by simp),
    hstage]

theorem StagedChunks.held (h : StagedChunks bc env file path actor n chunks P Q)
    (hchunks : ∀ c ∈ chunks, ChunkOk c) (hready : P.ready = true)
    (hheld : ∀ c ∈ chunks, ∀ b, c.1 ≤ b → b < c.1 + c.2 → HeldThroughout env path P b)
    (hb : HeldThroughout env path P b) : HeldThroughout env path Q b := by
  induction h with
  | nil => exact hb
  | @cons n off len chunks P Q _ _ ih =>
    have hstage := (stage_of_held bc file actor n (hchunks _ mem_cons_self) hready
      (hheld _ mem_cons_self)).1
    rw [hstage] at ih
    refine ih (fun c hc => hchunks c (mem_cons_of_mem _ hc)) hready ?_ hb.evictAged
    exact fun c hc b hlo hhi => (hheld c (mem_cons_of_mem _ hc) b hlo hhi).evictAged

theorem not_lostAt_of_held (hchunks : ∀ c ∈ chunks, ChunkOk c) (hready : P.ready = true)
    (hheld : ∀ c ∈ chunks, ∀ b, c.1 ≤ b → b < c.1 + c.2 → HeldThroughout env path P b) :
    ¬ LostAt bc env file path actor n chunks P := by
  rintro ⟨front, off, len, back, Q, rfl, hstaged, hlost⟩
  have hmem : (off, len) ∈ front ++ (off, len) :: back :=
    mem_append_right _ mem_cons_self
  have hcall := (stage_of_held bc file actor (n + front.length) (hchunks _ hmem)
    (hstaged.frame.ready_eq.trans hready) fun b hlo hhi =>
      hstaged.held (fun c hc => hchunks c (mem_append_left _ hc)) hready
        (fun c hc => hheld c (mem_append_left _ hc)) (hheld _ hmem b hlo hhi)).2
  cases hlost _ hcall

end

/-! ### The routines -/

section

variable {bc : BCrypt} {env : CaptureEnv} {file : FileContent} {path : ProvPath} {actor : UInt64}

/-- A capture gives up for lack of capacity or of a resource only, and not on a file that is
    held already. -/
def Bounded (lost : Bool) (lacks held : Prop) : Prop :=
  (lost = true → lacks) ∧ (held → lost = false)

theorem bounded_of_not_lost {lacks held : Prop} (h : lost = false) : Bounded lost lacks held := by
  refine ⟨fun hlost => ?_, fun _ => h⟩
  cases h.symm.trans hlost

theorem plan_bounded {held : Prop} (hchunks : ∀ c ∈ chunks, ChunkOk c) (hready : P.ready = true)
    (hlost : lost = true → LostAt bc env file path actor 0 chunks P)
    (hheld : held → ∀ c ∈ chunks, ∀ b, c.1 ≤ b → b < c.1 + c.2 → HeldThroughout env path P b) :
    Bounded lost (PlanLacks bc env file path actor chunks P) held :=
  ⟨fun h => (hlost h).lacks hchunks hready, fun h => Bool.eq_false_iff.mpr fun hyes =>
    not_lostAt_of_held hchunks hready (hheld h) (hlost hyes)⟩

theorem inPlaceRegion_bounded :
    Bounded (sarCaptureInPlaceRegion bc env file info c offset length cap P).result.lost
      (PlanLacks bc env file (sarCaptureResolveProvenance info) c.process.startKey
        (uncapturedChunks (min (offset + length).toNat file.size) cap.ranges offset.toNat) P)
      (∀ b, offset.toNat ≤ b → b < offset.toNat + length.toNat → b < file.size →
        HeldThroughout env (sarCaptureResolveProvenance info) P b) := by
  by_cases hreach : InPlaceReached env file info c offset length P
  · rw [inPlaceRegion_of_reached hreach]
    have hplan := uncapturedChunks_plan (min (offset + length).toNat file.size) cap.ranges
      offset.toNat
    refine plan_bounded (hplan.chunkOk ((Nat.min_le_right _ _).trans_lt file.size_lt)) hreach.ready
      (stageUncaptured_lostAt _ _ _ ⟨P, 0, .stored⟩ rfl) fun hheld chunk hchunk b hlo hhi => ?_
    obtain ⟨hstart, hstop, -⟩ := hplan.bounds chunk hchunk
    have hsum : (offset + length).toNat ≤ offset.toNat + length.toNat := by
      rw [UInt64.toNat_add]
      exact Nat.mod_le _ _
    exact hheld b (by omega) (by omega) (by omega)
  · rw [inPlaceRegion_of_not_reached hreach]
    exact bounded_of_not_lost rfl

theorem wholeContent_bounded (hready : P.ready = true) :
    Bounded (sarCaptureWholeContent bc env file path actor P).2.lost
      (PlanLacks bc env file path actor (spanChunks file.size 0) P)
      (∀ b < file.size, HeldThroughout env path P b) := by
  have hplan := spanChunks_plan file.size 0
  unfold sarCaptureWholeContent
  split
  · exact bounded_of_not_lost rfl
  split
  · exact bounded_of_not_lost rfl
  split
  · refine plan_bounded (hplan.chunkOk file.size_lt) hready
      (stageSpanLoop_lostAt ⟨P, 0, .stored⟩ rfl) fun hheld chunk hchunk b hlo hhi => ?_
    obtain ⟨-, hstop, -⟩ := hplan.bounds chunk hchunk
    exact hheld b (by omega)
  · exact bounded_of_not_lost rfl

def withLinkDrawn (P : Preserve) : Preserve := { P with nextLinkId := P.nextLinkId + 1 }

@[simp] theorem withLinkDrawn_records : (withLinkDrawn P).records = P.records := rfl

def quarantineFor (path : ProvPath) (P : Preserve) : Option (List UInt16 × List UInt16) :=
  sarPreserveQuarantinePaths path P.nextLinkId.toUInt64 96 128

variable (env file path actor) in
def linkStaged (P : Preserve) : Except NtStatus Unit :=
  (sarPreserveStageLink path (UInt64.ofNat file.size) actor P.nextLinkId.toUInt64
    (env.stage 0).now (env.stage 0).causingPath (withLinkDrawn P)).2

variable (bc env file path actor) in
def LinkLacks (P : Preserve) : Prop :=
  quarantineFor path P ≠ none ∧
    if env.setLink then linkStaged env file path actor P = .error .insufficientResources
    else PlanLacks bc env file path actor (spanChunks file.size 0) (withLinkDrawn P)

def LinkExists (path : ProvPath) (P : Preserve) : Prop :=
  ∃ r ∈ P.records, r.kind = SAR_PRESERVE_KIND_NAMESPACE ∧ r.provenanceOffset = 0 ∧
    r.provenancePath = path

/-- **What a link must not meet.**  There is a place for it, the file has no link yet, and a
    full table does not already hold the file. -/
def LinkFree (env : CaptureEnv) (file : FileContent) (path : ProvPath) (P : Preserve) : Prop :=
  quarantineFor path P ≠ none ∧ (env.setLink = true → ¬ LinkExists path P ∧
      ¬ (P.recordCapacity.toNat ≤ (liveRecords P (env.stage 0).now).length ∧
        ∀ b < file.size, HeldThroughout env path P b))

theorem linkExists_iff_any : LinkExists path P ↔ (P.records.any fun r =>
      r.kind == SAR_PRESERVE_KIND_NAMESPACE && r.provenanceOffset == 0 &&
        r.provenancePath == path) = true := by
  simp [LinkExists, any_eq_true, and_assoc]

theorem linkStaged_of_exists (hready : P.ready = true) (h : LinkExists path P) :
    linkStaged env file path actor P = .error .objectNameCollision := by
  unfold linkStaged sarPreserveStageLink
  rw [if_neg (by simp [withLinkDrawn, hready]), withLinkDrawn_records,
    if_pos (linkExists_iff_any.mp h)]

variable (env file actor) in
theorem linkStaged_of_new (hready : P.ready = true) (h : ¬ LinkExists path P) :
    linkStaged env file path actor P =
      if P.recordCapacity.toNat ≤ (liveRecords P (env.stage 0).now).length then
        .error .insufficientResources
      else .ok () := by
  unfold linkStaged sarPreserveStageLink
  rw [if_neg (by simp [withLinkDrawn, hready]), withLinkDrawn_records,
    if_neg (mt linkExists_iff_any.mpr h)]
  dsimp only
  split
  next hfull =>
    exact (if_pos hfull).symm
  next hroom =>
    exact (if_neg hroom).symm

theorem linkOrCopy_none (h : quarantineFor path P = none) :
    (linkOrCopy bc env file path actor P).2 = .failed := by
  unfold quarantineFor at h
  unfold linkOrCopy
  dsimp only
  rw [h]

theorem linkOrCopy_link_lost (h : quarantineFor path P ≠ none) (hlink : env.setLink = true) :
    (linkOrCopy bc env file path actor P).2.lost = true ↔
      linkStaged env file path actor P ≠ .ok () := by
  unfold linkOrCopy linkStaged withLinkDrawn
  dsimp only
  split
  next hnone =>
    exact absurd hnone h
  rw [if_pos hlink]
  split
  next hstage =>
    rw [hstage]
    simp [StageResult.lost]
  next hstage =>
    rw [hstage]
    simp [StageResult.lost]

theorem linkOrCopy_copy (h : quarantineFor path P ≠ none) (hlink : env.setLink = false) :
    linkOrCopy bc env file path actor P =
      sarCaptureWholeContent bc env file path actor (withLinkDrawn P) := by
  unfold linkOrCopy withLinkDrawn
  dsimp only
  split
  next hnone =>
    exact absurd hnone h
  · rw [if_neg (by simp [hlink])]

/-- **When a link is refused for the resource bound only.** -/
theorem linkOrCopy_bounded_iff (hready : P.ready = true) :
    Bounded (linkOrCopy bc env file path actor P).2.lost (LinkLacks bc env file path actor P)
        (∀ b < file.size, HeldThroughout env path P b) ↔ LinkFree env file path P := by
  by_cases hplace : quarantineFor path P = none
  · refine iff_of_false (fun hbound => ?_) fun hfree => hfree.1 hplace
    exact (hbound.1 (by rw [linkOrCopy_none hplace]; rfl)).1 hplace
  cases hlink : env.setLink with
  | false =>
    rw [linkOrCopy_copy hplace hlink]
    have hdrawn : (withLinkDrawn P).ready = true := hready
    refine iff_of_true ⟨fun hlost => ⟨hplace, ?_⟩, (wholeContent_bounded hdrawn).2⟩
      ⟨hplace, fun hyes => ?_⟩
    · rw [if_neg (by simp [hlink])]
      exact (wholeContent_bounded hdrawn).1 hlost
    · cases hlink.symm.trans hyes
  | true =>
    have hlost : (linkOrCopy bc env file path actor P).2.lost = true ↔
        linkStaged env file path actor P ≠ .ok () := linkOrCopy_link_lost hplace hlink
    have hlacks : LinkLacks bc env file path actor P ↔ quarantineFor path P ≠ none ∧
        linkStaged env file path actor P = .error .insufficientResources := by
      unfold LinkLacks
      rw [if_pos hlink]
    by_cases hexists : LinkExists path P
    · have hresult : linkStaged env file path actor P = .error .objectNameCollision :=
        linkStaged_of_exists hready hexists
      refine iff_of_false (fun hbound => ?_) fun hfree => (hfree.2 hlink).1 hexists
      have hres := (hlacks.mp (hbound.1 (hlost.mpr (by rw [hresult]; simp)))).2
      cases hresult.symm.trans hres
    have hresult := linkStaged_of_new env file actor hready hexists
    by_cases hfull : P.recordCapacity.toNat ≤ (liveRecords P (env.stage 0).now).length
    · rw [if_pos hfull] at hresult
      have hyes := hlost.mpr (by rw [hresult]; simp)
      constructor
      · intro hbound
        refine ⟨hplace, fun _ => ⟨hexists, fun hheld => ?_⟩⟩
        cases hyes.symm.trans (hbound.2 hheld.2)
      · intro hfree
        refine ⟨fun _ => hlacks.mpr ⟨hplace, hresult⟩, fun hheld => ?_⟩
        exact absurd ⟨hfull, hheld⟩ (hfree.2 hlink).2
    · rw [if_neg hfull] at hresult
      have hno := Bool.eq_false_iff.mpr fun h => hlost.mp h hresult
      exact iff_of_true (bounded_of_not_lost hno)
        ⟨hplace, fun _ => ⟨hexists, fun hheld => hfull hheld.1⟩⟩

structure LinkReached (env : CaptureEnv) (file : FileContent) (path : ProvPath) (G : Globals)
    (t : Target) (c : Caller) (P : Preserve) : Prop where
  ready : P.ready = true
  passive : c.passive = true
  notExempt : sarCapturePathExempt env.targetExempt path = false
  notTrusted : identityExempt G c = false
  notBlind : sarStreamConfidentBlind t = false
  queried : env.queryInfo = true
  nonempty : file.size ≠ 0

theorem linkPreserve_of_reached (h : LinkReached env file path G t c P) :
    sarCaptureLinkPreserve bc env file path G t c P =
      linkOrCopy bc env file path c.process.startKey P := by
  unfold sarCaptureLinkPreserve
  rw [if_neg (by simp [h.ready, h.passive]), if_neg (by simp [h.notExempt]),
    if_neg (by simp [h.notTrusted]), if_neg (by simp [h.notBlind]),
    if_neg (by simp [h.queried, h.nonempty])]

theorem linkPreserve_of_not_reached (h : ¬ LinkReached env file path G t c P) :
    sarCaptureLinkPreserve bc env file path G t c P = (P, .stored) := by
  unfold sarCaptureLinkPreserve
  split
  · rfl
  rename_i hcall
  split
  · rfl
  rename_i hexempt
  split
  · rfl
  rename_i htrusted
  split
  · rfl
  rename_i hblind
  split
  · rfl
  rename_i hquery
  simp only [not_or, Bool.not_eq_false, Bool.not_eq_true] at hcall hexempt htrusted hblind hquery
  exact absurd ⟨hcall.1, hcall.2, hexempt, htrusted, hblind, hquery.1, hquery.2⟩ h

theorem linkPreserve_bounded_iff : Bounded (sarCaptureLinkPreserve bc env file path G t c P).2.lost
        (LinkLacks bc env file path c.process.startKey P)
        (∀ b < file.size, HeldThroughout env path P b) ↔
      (LinkReached env file path G t c P → LinkFree env file path P) := by
  by_cases hreach : LinkReached env file path G t c P
  · rw [linkPreserve_of_reached hreach, linkOrCopy_bounded_iff hreach.ready]
    exact ⟨fun h _ => h, fun h => h hreach⟩
  · rw [linkPreserve_of_not_reached hreach]
    exact iff_of_true (bounded_of_not_lost rfl) fun h => absurd h hreach

end

/-! ### The callbacks -/

/-- What a request finds: what its callback looks at, the answers of the system to its capture, and
    the file whose original is at stake.  For a rename, a link and a create that replaces, this is
    the file under the name asked for: `named` and `opened` say that the name could be queried and
    the file opened. -/
structure Capturing where
  globals : Globals
  target : Target
  sectionTarget : SectionTarget
  reserved : Bool
  phantomCreate : PreopStatus
  bc : BCrypt
  env : CaptureEnv
  file : FileContent
  info : Option NormalizedName
  replaced : Target
  named : Bool
  opened : Bool
  fileNameLength : Nat
  cap : CapTable
  store : Preserve

def Operation.outcome (env : Surroundings) : Operation → Outcome
  | create op => sarPreCreate env.globals env.replies op
  | write op => sarPreWrite env.globals env.target env.replies op
  | setInformation op => sarPreSetInformation env.globals env.target env.replies op
  | fsControl op => sarPreFsControl env.globals env.target env.replies op
  | acquireForSection op =>
    (sarPreAcquireForSection env.globals env.sectionTarget env.reserved op).1
  | read _ => pass []

/-- The range that a callback gives to `SarEnforceInPlaceCapture`. -/
def Operation.region (t : Target) : Operation → UInt64 × UInt64
  | write op => (op.offset, op.length.toUInt64)
  | setInformation op =>
    match op.info with
    | .endOfFile newEof | .allocation newEof => (newEof, t.endOfFile.getD 0 - newEof)
    | _ => (0, 0)
  | fsControl op =>
    match op.control with
    | .setZeroData (some (fileOffset, beyondFinalZero)) =>
      (fileOffset, beyondFinalZero - fileOffset)
    | _ => (0, 0)
  | _ => (0, 0)

def Operation.Destroys : Operation → Nat → Prop
  | write op, b => op.offset.toNat ≤ b ∧ b < op.offset.toNat + op.length.toNat
  | setInformation op, b =>
    match op.info with
    | .endOfFile newEof | .allocation newEof => newEof.toNat ≤ b
    | _ => True
  | fsControl op, b =>
    match op.control with
    | .setZeroData (some (fileOffset, beyondFinalZero)) =>
      fileOffset.toNat ≤ b ∧ b < beyondFinalZero.toNat
    | _ => True
  | _, _ => True

def Operation.replaceIfExists : Operation → Bool
  | setInformation op =>
    match op.info with
    | .rename replace | .renameEx replace | .link replace | .linkEx replace => replace
    | _ => false
  | _ => false

namespace Capturing

variable (k : Capturing)

def replies (op : Operation) : CaptureReplies where
  inPlaceRegion := (sarCaptureInPlaceRegion k.bc k.env k.file k.info op.caller
    (op.region k.target).1 (op.region k.target).2 k.cap k.store).result
  submitDelete := (sarCaptureSubmitDelete k.bc k.env k.file k.globals k.target op.caller k.info
    k.store).2
  submitSupersede := (sarCaptureSubmitSupersede k.bc k.env k.file k.replaced op.caller k.named
    k.opened k.info k.store).2
  submitRenameTarget := (sarCaptureSubmitRenameTarget k.bc k.env k.file k.globals k.replaced
    op.caller op.replaceIfExists k.fileNameLength k.info k.opened k.store).2
  phantomCreate := k.phantomCreate

def surroundings (op : Operation) : Surroundings :=
  ⟨k.globals, k.target, k.replies op, k.sectionTarget, k.reserved⟩

def path : ProvPath := sarCaptureResolveProvenance k.info

def CallLacks (actor : UInt64) : CaptureCall → Prop
  | .inPlaceRegion offset length =>
    PlanLacks k.bc k.env k.file k.path actor
      (uncapturedChunks (min (offset + length).toNat k.file.size) k.cap.ranges offset.toNat)
      k.store
  | .submitDelete | .submitRenameTarget => LinkLacks k.bc k.env k.file k.path actor k.store
  | .submitSupersede =>
    PlanLacks k.bc k.env k.file k.path actor (spanChunks k.file.size 0) k.store
  | _ => False

def OriginalHeld (op : Operation) : Prop :=
  ∀ b < k.file.size, op.Destroys b → HeldThroughout k.env k.path k.store b

/-- The request is denied for what it is aimed at: the driver's own store, or the backing of a
    phantom by an actor whom this convicts. -/
def Denied : Operation → Prop
  | .write op =>
    ¬ (op.paging = true ∧ mappedCapture k.globals k.target op = true) ∧
      if k.target.flag (·.phantomBacking) then
        op.caller.requestor = .userMode ∧
          (sarPhantomEvidenceConvicts k.globals.identity op.caller.process.id).2 = true
      else sarTargetIsProtectedStore k.target op.caller = true
  | .setInformation op => sarTargetIsProtectedStore k.target op.caller = true
  | .fsControl op => sarTargetIsProtectedStore k.target op.caller = true
  | _ => False

def TakesLink : Operation → Prop
  | .setInformation op =>
    sarOperationExempt k.globals k.target op.caller = false ∧
      match op.info with
      | .disposition deleteFile | .dispositionEx deleteFile =>
        op.buffer = true ∧ deleteFile = true ∧
          LinkReached k.env k.file k.path k.globals k.target op.caller k.store
      | .rename replace | .renameEx replace | .link replace | .linkEx replace =>
        (replace = true ∧ k.fileNameLength ≠ 0 ∧ k.info ≠ none ∧ k.opened = true) ∧
          LinkReached k.env k.file k.path k.globals k.replaced op.caller k.store
      | _ => False
  | _ => False

/-- **The condition.**  The request is not aimed at what belongs to the driver, and where the
    callback takes a link, the path has a place for it and no link yet, and a full table does not
    hold the file. -/
def RefusalMet (op : Operation) : Prop :=
  ¬ k.Denied op ∧ (k.TakesLink op → LinkFree k.env k.file k.path k.store)

end Capturing

/-- A refused request has a capture call that gave up for lack of capacity or of a resource, and
    a request whose original is held is not refused. -/
def RefusalBounded (lacks : CaptureCall → Prop) (held : Prop) (out : Outcome) : Prop :=
  (out.status.refused = true → ∃ call ∈ out.calls, lacks call) ∧
    (held → out.status.refused = false)

section

variable {lacks : CaptureCall → Prop} {held : Prop}

theorem refusalBounded_of_not_refused (h : out.status.refused = false) :
    RefusalBounded lacks held out := by
  refine ⟨fun hrefused => ?_, fun _ => h⟩
  cases h.symm.trans hrefused

theorem not_refusalBounded_deny (h : ∀ call ∈ calls, ¬ lacks call) :
    ¬ RefusalBounded lacks held (deny .accessDenied calls) := by
  intro hbound
  obtain ⟨call, hcall, hlacks⟩ := hbound.1 rfl
  exact h call hcall hlacks

theorem refusalBounded_capture_iff {call : CaptureCall} (hout : out.status.refused = false) :
    RefusalBounded lacks held (if lost = true then deny .insufficientResources [call] else out) ↔
      Bounded lost (lacks call) held := by
  cases lost with
  | false =>
    rw [if_neg (by simp)]
    exact iff_of_true (refusalBounded_of_not_refused hout) (bounded_of_not_lost rfl)
  | true =>
    rw [if_pos rfl]
    unfold RefusalBounded Bounded
    simp [deny, PreopStatus.refused]

theorem refuses_of_enforce (h : G.mode = .enforce) (r : StageResult) : refuses G r = r.lost := by
  simp [refuses, h]

theorem enforceInPlace_bounded {r : CaptureReplies} (hmode : G.mode = .enforce)
    (h : Bounded r.inPlaceRegion.lost (lacks (.inPlaceRegion offset length)) held) :
    RefusalBounded lacks held (sarEnforceInPlaceCapture G r c offset length calls) := by
  unfold sarEnforceInPlaceCapture
  rw [refuses_of_enforce hmode]
  refine (refusalBounded_capture_iff rfl).mpr ⟨fun hlost => ?_, fun hheld => ?_⟩
  · rw [Bool.and_eq_true] at hlost
    exact h.1 hlost.1
  · rw [h.2 hheld, Bool.false_and]

end

namespace Capturing

variable {k : Capturing}

variable (k) in
theorem inPlace_bounded (op : Operation)
    (h : ∀ b, (op.region k.target).1.toNat ≤ b →
      b < (op.region k.target).1.toNat + (op.region k.target).2.toNat → op.Destroys b) :
    Bounded (k.replies op).inPlaceRegion.lost
      (k.CallLacks op.caller.process.startKey
        (.inPlaceRegion (op.region k.target).1 (op.region k.target).2))
      (k.OriginalHeld op) := by
  exact ⟨inPlaceRegion_bounded.1, fun hheld => inPlaceRegion_bounded.2 fun b hlo hhi hsize =>
    hheld b hsize (h b hlo hhi)⟩

theorem linkPreserve_of_off (h : k.store.ready = false ∨ c.passive = false) :
    sarCaptureLinkPreserve k.bc k.env k.file k.path k.globals t c k.store = (k.store, .stored) := by
  unfold sarCaptureLinkPreserve
  rw [if_pos h]

theorem submitDelete_eq {op : Operation} : (k.replies op).submitDelete =
      (sarCaptureLinkPreserve k.bc k.env k.file k.path k.globals k.target op.caller k.store).2 := by
  unfold replies sarCaptureSubmitDelete
  split
  next hoff =>
    rw [linkPreserve_of_off hoff]
  · rfl

theorem submitRenameTarget_eq {op : Operation} : (k.replies op).submitRenameTarget =
      if op.replaceIfExists = true ∧ k.fileNameLength ≠ 0 ∧ k.info ≠ none ∧ k.opened = true then
        (sarCaptureLinkPreserve k.bc k.env k.file k.path k.globals k.replaced op.caller k.store).2
      else .stored := by
  unfold replies sarCaptureSubmitRenameTarget
  split
  next hoff =>
    rw [linkPreserve_of_off hoff, ite_self]
  split
  next hasks =>
    rw [if_neg]
    rintro ⟨hreplace, hlength, -⟩
    simp [hreplace, hlength] at hasks
  rename_i hasks
  simp only [not_or, Bool.not_eq_false] at hasks
  unfold path
  cases k.info with
  | none => simp
  | some dest =>
    dsimp only
    split
    next hopened =>
      rw [if_neg (by simp [hopened])]
    next hopened =>
      rw [if_pos ⟨hasks.1, hasks.2, by simp, by simpa using hopened⟩]
      rfl

section

variable (hmode : k.globals.mode = .enforce)

include hmode

theorem disposition_bounded_iff {deleteFile : Bool}
    (hwhole : ∀ b, (Operation.setInformation op).Destroys b) :
    RefusalBounded (k.CallLacks op.caller.process.startKey) (k.OriginalHeld (.setInformation op))
        (preDisposition k.globals (k.replies (.setInformation op)) op.caller op.buffer deleteFile
          calls) ↔
      (op.buffer = true ∧ deleteFile = true ∧
          LinkReached k.env k.file k.path k.globals k.target op.caller k.store →
        LinkFree k.env k.file k.path k.store) := by
  unfold preDisposition
  by_cases hasks : (op.caller.passive && op.buffer && deleteFile) = true
  · rw [if_pos hasks, refuses_of_enforce hmode, refusalBounded_capture_iff rfl, submitDelete_eq]
    simp only [Bool.and_eq_true] at hasks
    simp only [OriginalHeld, hwhole, true_imp_iff, hasks, true_and]
    exact linkPreserve_bounded_iff
  · rw [if_neg hasks]
    refine iff_of_true (refusalBounded_of_not_refused rfl) ?_
    rintro ⟨hbuffer, hdelete, hreach⟩
    simp [hbuffer, hdelete, hreach.passive] at hasks

theorem rename_bounded_iff (hwhole : ∀ b, (Operation.setInformation op).Destroys b) :
    RefusalBounded (k.CallLacks op.caller.process.startKey) (k.OriginalHeld (.setInformation op))
        (preRename k.globals (k.replies (.setInformation op)) op.caller calls) ↔
      (((Operation.setInformation op).replaceIfExists = true ∧ k.fileNameLength ≠ 0 ∧
          k.info ≠ none ∧ k.opened = true) ∧
          LinkReached k.env k.file k.path k.globals k.replaced op.caller k.store →
        LinkFree k.env k.file k.path k.store) := by
  unfold preRename
  by_cases hpassive : op.caller.passive = false
  · rw [if_pos hpassive]
    refine iff_of_true (refusalBounded_of_not_refused rfl) fun hreach => ?_
    cases hpassive.symm.trans hreach.2.passive
  rw [if_neg hpassive, refuses_of_enforce hmode, refusalBounded_capture_iff rfl,
    submitRenameTarget_eq]
  by_cases hasks : (Operation.setInformation op).replaceIfExists = true ∧ k.fileNameLength ≠ 0 ∧
      k.info ≠ none ∧ k.opened = true
  · rw [if_pos hasks]
    simp only [OriginalHeld, hwhole, true_imp_iff, eq_true hasks, true_and]
    exact linkPreserve_bounded_iff
  · rw [if_neg hasks]
    exact iff_of_true (bounded_of_not_lost rfl) fun h => absurd h.1 hasks

theorem phantomWrite_bounded_iff {held : Prop} :
    RefusalBounded (k.CallLacks c.process.startKey) held (phantomWrite k.globals c) ↔
      ¬ (c.requestor = .userMode ∧
        (sarPhantomEvidenceConvicts k.globals.identity c.process.id).2 = true) := by
  unfold phantomWrite
  by_cases huser : c.requestor = .userMode
  · by_cases hconvicts : (sarPhantomEvidenceConvicts k.globals.identity c.process.id).2 = true
    · rw [if_pos huser, if_pos ⟨hconvicts, hmode⟩]
      refine iff_of_false (not_refusalBounded_deny ?_) fun h => h ⟨huser, hconvicts⟩
      -- neither of the two calls captures anything
      intro call hcall hlacks
      rcases mem_pair.mp hcall with rfl | rfl
      · exact hlacks
      · exact hlacks
    · rw [if_pos huser, if_neg fun h => hconvicts h.1]
      exact iff_of_true (refusalBounded_of_not_refused rfl) fun h => hconvicts h.2
  · rw [if_neg huser]
    exact iff_of_true (refusalBounded_of_not_refused rfl) fun h => huser h.1

theorem write_bounded_iff {op : WriteRequest}
    (hblocked : sarCaptureOriginatorBlocked k.globals.blocked op.caller.process = false) :
    RefusalBounded (k.CallLacks op.caller.process.startKey) (k.OriginalHeld (.write op))
        (sarPreWrite k.globals k.target (k.replies (.write op)) op) ↔
      ¬ k.Denied (.write op) := by
  unfold sarPreWrite Denied
  by_cases hmapped : op.paging = true ∧ mappedCapture k.globals k.target op = true
  · rw [if_pos (by simp [hmapped])]
    exact iff_of_true (refusalBounded_of_not_refused rfl) fun h => h.1 hmapped
  rw [if_neg (by simpa using hmapped), if_neg (by simp [hblocked])]
  by_cases hphantom : k.target.flag (·.phantomBacking) = true
  · rw [if_pos hphantom, phantomWrite_bounded_iff hmode]
    simp [hphantom, hmapped]
  rw [if_neg hphantom]
  by_cases hown : sarTargetIsProtectedStore k.target op.caller = true
  · rw [if_pos hown]
    refine iff_of_false (not_refusalBounded_deny (by simp)) fun h => h ⟨hmapped, ?_⟩
    rw [if_neg hphantom]
    exact hown
  rw [if_neg hown]
  refine iff_of_true ?_ fun h => hown (by simpa [hphantom] using h.2)
  split
  · exact refusalBounded_of_not_refused rfl
  split
  · split
    · split <;> exact refusalBounded_of_not_refused rfl
    split
    · exact refusalBounded_of_not_refused rfl
    · exact enforceInPlace_bounded hmode
        (inPlace_bounded k (.write op) fun b hlo hhi => ⟨hlo, hhi⟩)
  · exact refusalBounded_of_not_refused rfl

theorem truncate_bounded {newEof : UInt64}
    (hinfo : op.info = .endOfFile newEof ∨ op.info = .allocation newEof) :
    RefusalBounded (k.CallLacks op.caller.process.startKey) (k.OriginalHeld (.setInformation op))
      (preTruncate k.globals k.target (k.replies (.setInformation op)) op.caller op.buffer newEof
        calls) := by
  have hregion : (Operation.setInformation op).region k.target =
      (newEof, k.target.endOfFile.getD 0 - newEof) := by
    rcases hinfo with hinfo | hinfo <;> simp only [Operation.region, hinfo]
  have hdestroys : ∀ b, newEof.toNat ≤ b → (Operation.setInformation op).Destroys b := by
    intro b hb
    rcases hinfo with hinfo | hinfo <;> simpa only [Operation.Destroys, hinfo] using hb
  have hbound := inPlace_bounded k (.setInformation op) fun b hlo _ =>
    hdestroys b (by rwa [hregion] at hlo)
  rw [hregion] at hbound
  unfold preTruncate
  split
  · split
    · exact refusalBounded_of_not_refused rfl
    next size hsize =>
      split
      · rw [hsize] at hbound
        exact enforceInPlace_bounded hmode hbound
      · exact refusalBounded_of_not_refused rfl
  · exact refusalBounded_of_not_refused rfl

theorem setInformation_bounded_iff
    (hblocked : sarCaptureOriginatorBlocked k.globals.blocked op.caller.process = false)
    (hmember : sarClassifySetInformation op.info ≠ .none) :
    RefusalBounded (k.CallLacks op.caller.process.startKey) (k.OriginalHeld (.setInformation op))
        (sarPreSetInformation k.globals k.target (k.replies (.setInformation op)) op) ↔
      k.RefusalMet (.setInformation op) := by
  unfold sarPreSetInformation RefusalMet Denied TakesLink
  rw [if_neg hmember, if_neg (by simp [hblocked])]
  by_cases hown : sarTargetIsProtectedStore k.target op.caller = true
  · rw [if_pos hown]
    exact iff_of_false (not_refusalBounded_deny (by simp)) fun h => h.1 hown
  rw [if_neg hown]
  by_cases hexempt : sarOperationExempt k.globals k.target op.caller = true
  · rw [if_pos hexempt]
    refine iff_of_true (refusalBounded_of_not_refused rfl) ⟨hown, fun h => ?_⟩
    cases hexempt.symm.trans h.1
  rw [if_neg hexempt]
  simp only [hown, Bool.false_eq_true, not_false_eq_true, true_and, Bool.eq_false_iff.mpr hexempt]
  cases hinfo : op.info with
  | endOfFile newEof =>
    exact iff_of_true (truncate_bounded hmode (.inl hinfo)) False.elim
  | allocation newEof =>
    exact iff_of_true (truncate_bounded hmode (.inr hinfo)) False.elim
  | disposition deleteFile | dispositionEx deleteFile =>
    refine disposition_bounded_iff hmode fun b => ?_
    simp only [Operation.Destroys, hinfo]
  | rename replace | renameEx replace | link replace | linkEx replace =>
    refine (rename_bounded_iff hmode fun b => ?_).trans ?_
    · simp only [Operation.Destroys, hinfo]
    · simp only [Operation.replaceIfExists, hinfo]
  | other => exact absurd (by rw [hinfo]; rfl) hmember

theorem fsControl_bounded_iff {op : FsControlRequest}
    (hmember : sarClassifyFsControl op.control ≠ .none) :
    RefusalBounded (k.CallLacks op.caller.process.startKey) (k.OriginalHeld (.fsControl op))
        (sarPreFsControl k.globals k.target (k.replies (.fsControl op)) op) ↔
      ¬ k.Denied (.fsControl op) := by
  unfold sarPreFsControl Denied
  have hbypass : op.control ≠ .manageBypassIo := by
    intro h
    exact hmember (by rw [h]; rfl)
  have hrecord : op.control ≠ .getNtfsFileRecord := by
    intro h
    exact hmember (by rw [h]; rfl)
  rw [if_neg hbypass, if_neg fun h => hrecord h.1, if_neg hmember]
  by_cases hown : sarTargetIsProtectedStore k.target op.caller = true
  · rw [if_pos hown]
    exact iff_of_false (not_refusalBounded_deny (by simp)) fun h => h hown
  rw [if_neg hown]
  refine iff_of_true ?_ hown
  split
  · exact refusalBounded_of_not_refused rfl
  split
  next fileOffset beyondFinalZero hcontrol =>
    split
    next hasks =>
      have hregion : (Operation.fsControl op).region k.target =
          (fileOffset, beyondFinalZero - fileOffset) := by
        simp only [Operation.region, hcontrol]
      have hlt : fileOffset < beyondFinalZero := by
        simp only [Bool.and_eq_true, decide_eq_true_eq] at hasks
        exact hasks.2
      have hbound := inPlace_bounded k (.fsControl op) fun b hlo hhi => by
        rw [hregion] at hlo hhi
        rw [UInt64.toNat_sub_of_le _ _ (UInt64.le_of_lt hlt)] at hhi
        simp only [Operation.Destroys, hcontrol]
        dsimp only at hlo hhi
        omega
      rw [hregion] at hbound
      exact enforceInPlace_bounded hmode hbound
    · exact refusalBounded_of_not_refused rfl
  · exact refusalBounded_of_not_refused rfl

theorem create_bounded {op : CreateRequest}
    (hblocked : sarCaptureOriginatorBlocked k.globals.blocked op.caller.process = false)
    (hphantom : k.phantomCreate.refused = false) :
    RefusalBounded (k.CallLacks op.caller.process.startKey) (k.OriginalHeld (.create op))
      (sarPreCreate k.globals (k.replies (.create op)) op) := by
  have hpass : ∀ calls,
      (sarPhantomPreCreate k.globals (k.replies (.create op)) op calls).status.refused = false := by
    intro calls
    unfold sarPhantomPreCreate
    rw [if_neg (by simp [hblocked])]
    exact hphantom
  unfold sarPreCreate
  dsimp only
  split
  · rw [refuses_of_enforce hmode]
    refine (refusalBounded_capture_iff (hpass _)).mpr ?_
    unfold replies sarCaptureSubmitSupersede
    dsimp only
    split
    · exact bounded_of_not_lost rfl
    next hready =>
      have hstore : k.store.ready = true := by simpa using hready
      iterate 3
        split
        · exact bounded_of_not_lost rfl
      split
      · exact ⟨(wholeContent_bounded hstore).1, fun hheld =>
          (wholeContent_bounded hstore).2 fun b hb => hheld b hb trivial⟩
      · exact bounded_of_not_lost rfl
  · exact refusalBounded_of_not_refused (hpass _)

end

end Capturing

/-- **When a refusal is owed to the resource bound.**  Under enforcement a destructive operation of
    an actor that is not blocked is refused only for lack of capacity or of a resource, and not if
    the store holds its original, exactly under the condition. -/
theorem refusal_bounded_iff (k : Capturing) (size : UInt64) (op : Operation)
    (hmode : k.globals.mode = .enforce)
    (hblocked : sarCaptureOriginatorBlocked k.globals.blocked op.caller.process = false)
    (hdestr : op.destructive size = true) (hphantom : k.phantomCreate.refused = false) :
    RefusalBounded (k.CallLacks op.caller.process.startKey) (k.OriginalHeld op)
        (op.outcome (k.surroundings op)) ↔ k.RefusalMet op := by
  cases op with
  | create op =>
    exact iff_of_true (Capturing.create_bounded hmode hblocked hphantom) ⟨id, False.elim⟩
  | write op =>
    refine (Capturing.write_bounded_iff hmode hblocked).trans ?_
    exact ⟨fun h => ⟨h, False.elim⟩, fun h => h.1⟩
  | setInformation op =>
    refine Capturing.setInformation_bounded_iff hmode hblocked fun hnone => ?_
    cases hinfo : op.info with
    | other =>
      simp only [Operation.destructive, hinfo] at hdestr
      cases hdestr
    | _ =>
      rw [hinfo] at hnone
      cases hnone
  | fsControl op =>
    refine (Capturing.fsControl_bounded_iff hmode (of_decide_eq_true hdestr)).trans ?_
    exact ⟨fun h => ⟨h, False.elim⟩, fun h => h.1⟩
  | acquireForSection op => cases hdestr
  | read caller => cases hdestr

/-! ### A second delete -/

/-- A delete of `\Device\V\a`, with every answer of the system given at time 1. -/
def deleting (P : Preserve) : Capturing where
  globals := { openSurroundings.globals with mode := .enforce }
  target := openSurroundings.target
  sectionTarget := openSurroundings.sectionTarget
  reserved := true
  phantomCreate := .successWithCallback
  bc := identityCrypt
  env := { grantedCapture with stage := fun _ => grantedEnv 1 }
  file := zeroFile
  info := some plainName
  replaced := openSurroundings.target
  named := true
  opened := true
  fileNameLength := 0
  cap := .empty
  store := P

def deleteRequest : Operation := .setInformation ⟨userCaller, .disposition true, true⟩

def deletedOnce : Preserve :=
  let k := deleting readyStore
  (sarCaptureSubmitDelete k.bc k.env k.file k.globals k.target userCaller k.info k.store).1

/-- The first delete meets no obstacle. -/
theorem first_delete_bounded : RefusalBounded ((deleting readyStore).CallLacks 7)
      ((deleting readyStore).OriginalHeld deleteRequest)
      (deleteRequest.outcome ((deleting readyStore).surroundings deleteRequest)) := by
  refine (refusal_bounded_iff (deleting readyStore) 16 deleteRequest rfl rfl rfl rfl).mpr ?_
  have hother : ¬ sarTargetIsProtectedStore openSurroundings.target userCaller = true := by decide
  refine ⟨hother, fun _ => ⟨by decide +kernel, fun _ => ⟨?_, ?_⟩⟩⟩
  · rintro ⟨r, hr, -⟩
    exact absurd hr not_mem_nil
  · rintro ⟨hfull, -⟩
    exact absurd hfull (by decide +kernel)

/-- The first delete of the path leaves a namespace hold of the whole file.  The second one is
    refused: the hold is a name collision to the link, and nothing is lacking. -/
theorem second_delete_refused :
    let k := deleting deletedOnce
    let out := deleteRequest.outcome (k.surroundings deleteRequest)
    k.globals.mode = .enforce ∧
      sarCaptureOriginatorBlocked k.globals.blocked deleteRequest.caller.process = false ∧
      deleteRequest.destructive 16 = true ∧ k.OriginalHeld deleteRequest ∧
      out.status = .complete .insufficientResources ∧ ∀ call ∈ out.calls, ¬ k.CallLacks 7 call := by
  have hheld : ∀ b < 16, ∃ r ∈ deletedOnce.records, RecCovers (copyName plainName) r b ∧
      ¬ (r.captureTime < 1 ∧ deletedOnce.retention100ns ≤ 1 - r.captureTime) := by
    decide +kernel
  have hexists : ∃ r ∈ deletedOnce.records, r.kind = SAR_PRESERVE_KIND_NAMESPACE ∧
      r.provenanceOffset = 0 ∧ r.provenancePath = copyName plainName := by
    decide +kernel
  refine ⟨rfl, rfl, rfl, ?_, by decide +kernel, ?_⟩
  · intro b hb _
    obtain ⟨r, hr, hcov, hfresh⟩ := hheld b hb
    exact ⟨r, hr, hcov, fun _ => hfresh⟩
  · intro call hcall
    have hcalls : (deleteRequest.outcome ((deleting deletedOnce).surroundings
        deleteRequest)).calls = [.submitDelete] := by decide +kernel
    rw [hcalls, mem_singleton] at hcall
    rw [hcall]
    rintro ⟨-, hlacks⟩
    have hstaged : linkStaged (deleting deletedOnce).env (deleting deletedOnce).file
        (copyName plainName) 7 deletedOnce = .error .insufficientResources := hlacks
    rw [linkStaged_of_exists rfl hexists] at hstaged
    cases hstaged

end SemanticsAr
