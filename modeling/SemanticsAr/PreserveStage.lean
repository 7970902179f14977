import SemanticsAr.PreserveStore

/-!
# What staging covers

The staging loop alternates the gap walk, allocation, encryption and appending.
This module gives the rule by which facts are carried through the loop
(`stageLoop_rule`), what one turn can do (`stageTurn_cases`), and from these
what a completed call adds (`stageLoop_adds`) and when it covers its range.  The
walk compares the whole path buffer while a record keeps the path as a string,
so the two agree on a buffer that is zero-padded behind its terminator, and on
others only as far as the table refuses no record it should take.
-/

namespace SemanticsAr

open Nat
open List hiding Vector

variable {room P P' : Preserve} {mode : Mode} {r : Option StageResult} {staged pool : Bool}
  {fileSize actorId linkId gOff gLen cursor now retention len : UInt64}
  {causingPath path : ProvPath}
  {bc : BCrypt} {args : StageArgs} {env : StageEnv} {live records added : List PreserveRecord}
  {turn : TurnEnv} {n b : Nat} {rec : PreserveRecord} {iv : Vector UInt8 16}

/-! ### Frames -/

theorem sarPresAlloc_frame : ∃ free mark dirty, (sarPresAlloc P len pool).2 =
      { P with freeExt := free, dataHighWater := mark, freeDirty := dirty } := by
  have hrebuild : ∃ free mark dirty, (if P.freeDirty then sarPresFreeRebuild P pool else P) =
        { P with freeExt := free, dataHighWater := mark, freeDirty := dirty } := by
    split
    · fun_cases sarPresFreeRebuild P pool <;> exact ⟨_, _, _, rfl⟩
    · exact ⟨_, _, _, rfl⟩
  obtain ⟨free, mark, dirty, hrebuild⟩ := hrebuild
  unfold sarPresAlloc
  rw [hrebuild]
  dsimp only
  split <;> exact ⟨_, _, _, rfl⟩

@[simp] theorem sarPresAlloc_records : (sarPresAlloc P len pool).2.records = P.records := by
  obtain ⟨free, mark, dirty, h⟩ := sarPresAlloc_frame
  rw [h]

@[simp] theorem sarPresAlloc_recordCapacity :
    (sarPresAlloc P len pool).2.recordCapacity = P.recordCapacity := by
  obtain ⟨free, mark, dirty, h⟩ := sarPresAlloc_frame
  rw [h]

@[simp] theorem sarPresAlloc_data : (sarPresAlloc P len pool).2.data = P.data := by
  obtain ⟨free, mark, dirty, h⟩ := sarPresAlloc_frame
  rw [h]

@[simp] theorem sarPresAlloc_storeKey : (sarPresAlloc P len pool).2.storeKey = P.storeKey := by
  obtain ⟨free, mark, dirty, h⟩ := sarPresAlloc_frame
  rw [h]

/-- What making room can do: nothing, or outside enforcement take records away
    and mark the free list as stale. -/
def RoomMade (mode : Mode) (P room : Preserve) : Prop :=
  room = P ∨ (mode ≠ .enforce ∧ ∃ records, records.Sublist P.records ∧
    room = { P with records := records, freeDirty := true })

theorem stageMakeRoom_roomMade {against : Bool} {ctLen : UInt64}
    (h : stageMakeRoom P against mode ctLen = some room) :
    RoomMade mode P room := by
  unfold stageMakeRoom at h
  dsimp only at h
  generalize (if against = true then 0 else P.reservedBytes) = res at h
  generalize P.capacityBytes - sarPreserveProtectedBytes P.records - ctLen = cap at h
  split at h
  · simp at h
  split at h
  · simp at h
  split at h
  case isFalse => exact .inl (Option.some.inj h).symm
  split at h
  · simp at h
  rename_i hmode
  have hroom := (Option.some.inj h).symm
  by_cases hzero : (sarPreserveEvictProbationOldest P.records cap).2 = 0
  · left
    rw [hroom, hzero, sarPreserveEvictProbationOldest_eq_of_zero hzero]
    simp
  · right
    refine ⟨hmode, _, sarPreserveEvictProbationOldest_sublist P.records cap, ?_⟩
    rw [hroom, decide_eq_true (pos_of_ne_zero hzero), Bool.or_true]

theorem appendRecord_cases (P : Preserve) (rec : PreserveRecord)
    (hroom : P.records.length < P.recordCapacity.toNat) :
    (sarPreserveCovered P.records rec.provenancePath rec.provenanceOffset
        rec.provenanceLength = true ∧ appendRecord P rec = P) ∨
    (sarPreserveCovered P.records rec.provenancePath rec.provenanceOffset
        rec.provenanceLength = false ∧
      appendRecord P rec = { P with records := P.records ++ [rec], dirty := true }) := by
  unfold appendRecord sarPreserveAppend
  by_cases hcov : sarPreserveCovered P.records rec.provenancePath rec.provenanceOffset
    rec.provenanceLength = true
  · left
    rw [if_pos hcov]
    exact ⟨hcov, rfl⟩
  · right
    rw [if_neg hcov, if_neg (by omega)]
    exact ⟨Bool.eq_false_iff.mpr hcov, rfl⟩

def tornStore (turn : TurnEnv) (P : Preserve) (off : UInt64) (ioLen : Nat) : Preserve :=
  { P with
    data := if P.dataOpen then writeData P.data off.toNat (turn.torn.take ioLen) else P.data
    freeDirty := true }

def writtenStore (bc : BCrypt) (args : StageArgs) (turn : TurnEnv) (room : Preserve)
    (iv : Vector UInt8 16) (gOff gLen : UInt64) : Preserve :=
  let alloc := sarPresAlloc room (sarPresRound16 gLen) turn.rebuildPool
  { alloc.2 with
    data := writeData alloc.2.data alloc.1.toNat (bc.encrypt room.storeKey iv.toList
      ((stagePadded args gOff gLen).take ((sarPresRound16 gLen).toNat % 2 ^ 32))) }

@[simp] theorem writtenStore_records :
    (writtenStore bc args turn room iv gOff gLen).records = room.records :=
  sarPresAlloc_records

@[simp] theorem writtenStore_recordCapacity :
    (writtenStore bc args turn room iv gOff gLen).recordCapacity = room.recordCapacity :=
  sarPresAlloc_recordCapacity

/-- **What a turn can do.**  It gives up with the store as room was made for it, its write fails, or
    it writes the ciphertext of the gap and offers the record to the table. -/
theorem stageTurn_cases (h : stageTurn bc args env turn P gOff gLen = (P', r)) :
    ∃ room, RoomMade turn.mode P room ∧
      (((r = some .dropped ∨ r = some .failed) ∧ P' = room ∧ (r = some .dropped ∧ room = P ∨
        stageMakeRoom P args.againstReservation turn.mode (sarPresRound16 gLen) = some room)) ∨
      ∃ iv, stageMakeRoom P args.againstReservation turn.mode (sarPresRound16 gLen) = some room ∧
        turn.iv = some iv ∧ room.records.length < room.recordCapacity.toNat ∧
        let ctLen := sarPresRound16 gLen
        let ioLen := ctLen.toNat % 2 ^ 32
        let off := (sarPresAlloc room ctLen turn.rebuildPool).1
        ((r = some .failed ∧
          P' = tornStore turn (sarPresAlloc room ctLen turn.rebuildPool).2 off ioLen) ∨
        (r = none ∧ off.toNat + ioLen ≤ 2 ^ 63 ∧
          P' = appendRecord (writtenStore bc args turn room iv gOff gLen)
            (stageRecord args env iv off gOff gLen)))) := by
  unfold stageTurn at h
  split at h
  · cases h
    exact ⟨P, .inl rfl, .inl ⟨.inl rfl, rfl, .inl ⟨rfl, rfl⟩⟩⟩
  rename_i room hroom
  refine ⟨room, stageMakeRoom_roomMade hroom, ?_⟩
  split at h
  · cases h
    exact .inl ⟨.inl rfl, rfl, .inr hroom⟩
  rename_i hcount
  split at h
  · cases h
    exact .inl ⟨.inr rfl, rfl, .inr hroom⟩
  rename_i iv hiv
  split at h
  case isFalse =>
    cases h
    exact .inl ⟨.inr rfl, rfl, .inr hroom⟩
  right
  refine ⟨iv, hroom, hiv, by omega, ?_⟩
  unfold stageStore at h
  dsimp only at h ⊢
  split at h
  next hwrite =>
    cases h
    refine Or.inr ⟨rfl, ?_, rfl⟩
    simp only [writeSucceeds, Bool.and_eq_true, decide_eq_true_eq] at hwrite
    exact hwrite.2
  · cases h
    exact .inl ⟨rfl, rfl⟩

/-! ### What the calls leave alone -/

/-- The second store differs from the first in its table, its payload and its allocation
    at most: keys, generation, anchor, settings and counters are the same. -/
def TableFrame (P P' : Preserve) : Prop :=
  ∃ records freeExt mark freeDirty data dirty, P' =
    { P with
      records := records, freeExt := freeExt, dataHighWater := mark, freeDirty := freeDirty,
      data := data, dirty := dirty }

theorem TableFrame.refl : TableFrame P P := ⟨_, _, _, _, _, _, rfl⟩

theorem TableFrame.trans {Q : Preserve} (h : TableFrame P Q) (h' : TableFrame Q P') :
    TableFrame P P' := by
  obtain ⟨_, _, _, _, _, _, rfl⟩ := h
  obtain ⟨_, _, _, _, _, _, rfl⟩ := h'
  exact ⟨_, _, _, _, _, _, rfl⟩

theorem RoomMade.frame (h : RoomMade mode P room) : TableFrame P room := by
  rcases h with rfl | ⟨-, records, -, rfl⟩
  · exact TableFrame.refl
  · exact ⟨_, _, _, _, _, _, rfl⟩

theorem appendRecord_frame : TableFrame P (appendRecord P rec) := by
  unfold appendRecord
  split <;> exact ⟨_, _, _, _, _, _, rfl⟩

theorem evictAged_frame : TableFrame P (evictAged P now) :=
  ⟨_, _, _, _, _, _, rfl⟩

theorem stageTurn_frame (h : stageTurn bc args env turn P gOff gLen = (P', r)) :
    TableFrame P P' := by
  obtain ⟨room, hroom, hcases⟩ := stageTurn_cases h
  refine hroom.frame.trans ?_
  have halloc : TableFrame room (sarPresAlloc room (sarPresRound16 gLen) turn.rebuildPool).2 := by
    obtain ⟨free, mark, dirty, h⟩ := sarPresAlloc_frame
    exact ⟨_, _, _, _, _, _, h⟩
  rcases hcases with ⟨-, rfl, -⟩ | ⟨iv, -, -, -, ⟨-, rfl⟩ | ⟨-, -, rfl⟩⟩
  · exact TableFrame.refl
  · exact halloc.trans ⟨_, _, _, _, _, _, rfl⟩
  · have hwritten : TableFrame room (writtenStore bc args turn room iv gOff gLen) :=
      halloc.trans ⟨_, _, _, _, _, _, rfl⟩
    exact hwritten.trans appendRecord_frame

/-! ### The loop -/

def TurnGap (args : StageArgs) (P : Preserve) (cursor gOff gLen : UInt64) : Prop :=
  sarPreserveFirstGap P.records args.path cursor (args.offset + args.length - cursor) =
    some (gOff, gLen)

theorem TurnGap.spec (h : TurnGap args P cursor gOff gLen) :
    GapSpec P.records args.path cursor (args.offset + args.length) gOff gLen := by
  have hspec := firstGapLoop_spec.2 gOff gLen h
  rwa [UInt64.add_comm, UInt64.sub_add_cancel] at hspec

theorem stageLoop_of_gap (hlt : cursor < args.offset + args.length)
    (hgap : TurnGap args P cursor gOff gLen) :
    stageLoop bc args env n P cursor staged =
      match stageTurn bc args env (env.turn n) P gOff gLen with
      | (P', some result) => (P', result, staged)
      | (P', none) => stageLoop bc args env (n + 1) P' (gOff + gLen) true := by
  rw [stageLoop, if_pos hlt]
  split
  next h => cases h.symm.trans hgap
  next h =>
    cases h.symm.trans hgap
    rfl

theorem stageLoop_of_no_gap
    (hgap : sarPreserveFirstGap P.records args.path cursor (args.offset + args.length - cursor) =
      none) :
    stageLoop bc args env n P cursor staged = (P, .alreadyCovered, staged) := by
  rw [stageLoop]
  split
  · split
    · rfl
    next h =>
      rw [hgap] at h
      cases h
  · rfl

/-- **The loop rule.**  A fact about turn number, store, cursor and flag that every completed turn
    carries over, and from which the outcome follows wherever the loop ends, gives the outcome of
    the loop. -/
theorem stageLoop_rule (Inv : Nat → Preserve → UInt64 → Bool → Prop)
    (Post : Preserve → StageResult → Bool → Prop)
    (hend : ∀ n P cursor staged, Inv n P cursor staged →
      (∀ b, cursor.toNat ≤ b → b < (args.offset + args.length).toNat →
      CoveredBy P.records args.path b) → Post P .alreadyCovered staged)
    (hstop : ∀ n P cursor staged gOff gLen P' result, Inv n P cursor staged →
      TurnGap args P cursor gOff gLen →
      stageTurn bc args env (env.turn n) P gOff gLen = (P', some result) → Post P' result staged)
    (hstep : ∀ n P cursor staged gOff gLen P', Inv n P cursor staged →
      TurnGap args P cursor gOff gLen →
      stageTurn bc args env (env.turn n) P gOff gLen = (P', none) →
      Inv (n + 1) P' (gOff + gLen) true) (hinv : Inv n P cursor staged) :
    Post (stageLoop bc args env n P cursor staged).1
      (stageLoop bc args env n P cursor staged).2.1
      (stageLoop bc args env n P cursor staged).2.2 := by
  fun_induction stageLoop bc args env n P cursor staged with
  | case1 n P cursor staged last hlt hgap =>
    apply hend n P cursor staged hinv
    have hnone := firstGapLoop_spec.1 hgap
    rwa [UInt64.add_comm, UInt64.sub_add_cancel] at hnone
  | case2 n P cursor staged last hlt gOff gLen hgap hprogress P' result hturn =>
    exact hstop n P cursor staged gOff gLen P' result hinv hgap hturn
  | case3 n P cursor staged last hlt gOff gLen hgap hprogress P' hturn ih =>
    exact ih (hstep n P cursor staged gOff gLen P' hinv hgap hturn)
  | case4 n P cursor staged last hge =>
    apply hend n P cursor staged hinv
    intro b hlo hhi
    exact absurd (UInt64.lt_iff_toNat_lt.mpr (hlo.trans_lt hhi)) hge

theorem sarPreserveStage_frame : TableFrame P (sarPreserveStage bc args env P).1 := by
  fun_cases sarPreserveStage bc args env P
  case case1 | case2 | case3 => exact .refl
  refine stageLoop_rule (fun _ Q _ _ => TableFrame P Q) (fun Q _ _ => TableFrame P Q) ?_ ?_ ?_
    evictAged_frame
  · exact fun n Q cursor staged h _ => h
  · exact fun n Q cursor staged gOff gLen Q' result h _ hturn => h.trans (stageTurn_frame hturn)
  · exact fun n Q cursor staged gOff gLen Q' h _ hturn => h.trans (stageTurn_frame hturn)

/-! ### What a successful call covers -/

def liveRecords (P : Preserve) (now : UInt64) : List PreserveRecord :=
  P.records.filter fun r => !agedOut now P.retention100ns r

def RangeCovered (records : List PreserveRecord) (path : ProvPath) (offset length : UInt64) :
    Prop :=
  ∀ b, offset.toNat ≤ b → b < offset.toNat + length.toNat → CoveredBy records path b

def TextCovered (records : List PreserveRecord) (text : List UInt16) (offset length : UInt64) :
    Prop :=
  ∀ b, offset.toNat ≤ b → b < offset.toNat + length.toNat → CoveredByText records text b

/-- A record of exactly the path buffer starts inside a range that no record of the file
    covers. -/
def RangeSplit (records : List PreserveRecord) (path : ProvPath) (offset length : UInt64) : Prop :=
  SplitsGap (CoveredByText records (pathText path)) (StartsAt records path) offset.toNat
    (offset.toNat + length.toNat)

structure GapRecord (args : StageArgs) (kept : List PreserveRecord) (r : PreserveRecord) :
    Prop where
  text_eq : pathText r.provenancePath = pathText args.path
  gap : IsMaximalGap (CoveredByText kept (pathText args.path)) args.offset.toNat
    (args.offset.toNat + args.length.toNat) r.provenanceOffset.toNat
    (r.provenanceOffset.toNat + r.provenanceLength.toNat)
  tag : r.contentTag = sha256 ((args.plaintext.drop
    (r.provenanceOffset.toNat - args.offset.toNat)).take r.provenanceLength.toNat)

/-- The promise of a successful call: the range is covered, nothing but aged
    records is gone, and what was added fills one maximal gap each. -/
structure StageCovers (args : StageArgs) (now : UInt64) (P P' : Preserve) : Prop where
  covered : TextCovered P'.records (pathText args.path) args.offset args.length
  grows : ∃ kept added, P'.records = kept ++ added ∧ (liveRecords P now).Sublist kept ∧
    kept.Sublist P.records ∧ (∀ r ∈ added, GapRecord args kept r) ∧
    added.Pairwise fun r s =>
      r.provenanceOffset.toNat + r.provenanceLength.toNat ≤ s.provenanceOffset.toNat

theorem CoveredBy.mono {records' : List PreserveRecord} (hsub : ∀ r ∈ records, r ∈ records')
    (h : CoveredBy records path b) :
    CoveredBy records' path b := by
  obtain ⟨r, hr, hcov⟩ := h
  exact ⟨r, hsub r hr, hcov⟩

/-- The table refuses the record of a gap, which carries the path as a string. -/
def gapRefused (records : List PreserveRecord) (path : ProvPath) (gap : UInt64 × UInt64) : Bool :=
  sarPreserveCovered records (copyPath path) gap.1 gap.2

theorem stageTurn_enforce (hmode : turn.mode = .enforce)
    (h : stageTurn bc args env turn P gOff gLen = (P', none)) :
    ∃ iv off, (gapRefused P.records args.path (gOff, gLen) = false ∧
        P'.records = P.records ++ [stageRecord args env iv off gOff gLen]) ∨
      (gapRefused P.records args.path (gOff, gLen) = true ∧ P'.records = P.records) := by
  obtain ⟨room, hroom, hcases⟩ := stageTurn_cases h
  have hsame : room = P := by
    rcases hroom with hroom | hroom
    · exact hroom
    · exact absurd hmode hroom.1
  subst hsame
  rcases hcases with ⟨hres | hres, -⟩ | ⟨iv, -, -, hcount, ⟨hres, -⟩ | ⟨-, -, hP'⟩⟩
  · cases hres
  · cases hres
  · cases hres
  refine ⟨iv, (sarPresAlloc room (sarPresRound16 gLen) turn.rebuildPool).1, ?_⟩
  rcases appendRecord_cases (writtenStore bc args turn room iv gOff gLen)
    (stageRecord args env iv _ gOff gLen) (by simpa using hcount) with ⟨hcov, happ⟩ | ⟨hcov, happ⟩
  · right
    rw [writtenStore_records] at hcov
    rw [hP', happ]
    exact ⟨hcov, writtenStore_records⟩
  · left
    rw [writtenStore_records] at hcov
    rw [hP', happ, writtenStore_records]
    exact ⟨hcov, rfl⟩

structure StagedFor (args : StageArgs) (env : StageEnv) (r : PreserveRecord) : Prop where
  path_eq : r.provenancePath = copyPath args.path
  time_eq : r.captureTime = env.now
  end_eq : (r.provenanceOffset + r.provenanceLength).toNat =
    r.provenanceOffset.toNat + r.provenanceLength.toNat
  tag : r.contentTag = sha256 ((args.plaintext.drop
    (r.provenanceOffset.toNat - args.offset.toNat)).take r.provenanceLength.toNat)

theorem stageRecord_stagedFor (hlen : args.plaintext.length = args.length.toNat)
    (hwrap : args.offset.toNat + args.length.toNat < 2 ^ 64)
    (hcursor : args.offset.toNat ≤ cursor.toNat)
    (hspec : GapSpec records args.path cursor (args.offset + args.length) gOff gLen)
    (iv : Vector UInt8 16) (off : UInt64) :
    StagedFor args env (stageRecord args env iv off gOff gLen) := by
  refine ⟨rfl, rfl, hspec.toNat_end, ?_⟩
  have hfirst := hspec.first_le
  have hlast := hspec.le_last
  have hbound := args.plaintext_lt
  rw [UInt64.toNat_add, mod_eq_of_lt hwrap] at hlast
  -- the gap lies in the range, so the 32-bit offset and length are the gap's own
  have hoff : (gOff - args.offset).toNat = gOff.toNat - args.offset.toNat :=
    UInt64.toNat_sub_of_le _ _ (UInt64.le_iff_toNat_le.mpr (by omega))
  have hoffMod : (gOff - args.offset).toNat % 2 ^ 32 = gOff.toNat - args.offset.toNat := by
    rw [hoff, mod_eq_of_lt (by omega)]
  have hlenMod : gLen.toNat % 2 ^ 32 = gLen.toNat := mod_eq_of_lt (by omega)
  show sha256 _ = sha256 _
  rw [hoffMod, hlenMod]
  rfl

theorem StagedFor.not_agedOut {r : PreserveRecord} (h : StagedFor args env r) :
    agedOut env.now retention r = false := by
  rw [agedOut, h.time_eq, Bool.and_eq_false_iff]
  exact .inl (decide_eq_false (UInt64.lt_irrefl _))

def recGap (r : PreserveRecord) : UInt64 × UInt64 := (r.provenanceOffset, r.provenanceLength)

/-- A loop on its way: behind the records it started on stand its own, which carry the
    path as a string and end at the cursor or before it. -/
def StringRecords (args : StageArgs) (live : List PreserveRecord) (P : Preserve)
    (cursor : UInt64) : Prop :=
  ∃ added, P.records = live ++ added ∧ ∀ r ∈ added,
    r.provenancePath = copyPath args.path ∧ r.provenanceOffset ≤ cursor ∧
      r.provenanceOffset + r.provenanceLength ≤ cursor

theorem StringRecords.gap (h : StringRecords args live P cursor) :
    sarPreserveFirstGap P.records args.path cursor (args.offset + args.length - cursor) =
      sarPreserveFirstGap live args.path cursor (args.offset + args.length - cursor) := by
  obtain ⟨added, hrecords, hadded⟩ := h
  rw [hrecords]
  apply firstGapLoop_append
  intro r hr _
  exact (hadded r hr).2

theorem StringRecords.gapRefused (h : StringRecords args live P cursor) (hle : cursor ≤ gOff) :
    gapRefused P.records args.path (gOff, gLen) = gapRefused live args.path (gOff, gLen) := by
  obtain ⟨added, hrecords, hadded⟩ := h
  have hnone : sarPreserveCovered added (copyPath args.path) gOff gLen = false := by
    rw [sarPreserveCovered, any_eq_false]
    intro r hr
    have hend := UInt64.not_lt.mpr (UInt64.le_trans (hadded r hr).2.2 hle)
    simp [sarPresOverlap, hend]
  rw [SemanticsAr.gapRefused, sarPreserveCovered, hrecords, any_append]
  exact (congrArg _ hnone).trans (Bool.or_false _)

/-- **A turn** appends the record of its gap, unless the table it started on refuses it. -/
theorem StringRecords.step (hmode : turn.mode = .enforce) (h : StringRecords args live P cursor)
    (hgap : TurnGap args P cursor gOff gLen)
    (hturn : stageTurn bc args env turn P gOff gLen = (P', none)) :
    StringRecords args live P' (gOff + gLen) ∧
      ∃ iv off, (SemanticsAr.gapRefused live args.path (gOff, gLen) = false ∧
          P'.records = P.records ++ [stageRecord args env iv off gOff gLen]) ∨
        (SemanticsAr.gapRefused live args.path (gOff, gLen) = true ∧ P'.records = P.records) := by
  have hfirst : cursor ≤ gOff := UInt64.le_iff_toNat_le.mpr hgap.spec.first_le
  have hgapEnd : gOff ≤ gOff + gLen := by
    rw [UInt64.le_iff_toNat_le, hgap.spec.toNat_end]
    exact le_add_right _ _
  obtain ⟨iv, off, hcases⟩ := stageTurn_enforce hmode hturn
  rw [h.gapRefused hfirst] at hcases
  refine ⟨?_, iv, off, hcases⟩
  obtain ⟨added, hP, hadded⟩ := h
  have hkept : ∀ r ∈ added, r.provenancePath = copyPath args.path ∧
      r.provenanceOffset ≤ gOff + gLen ∧
        r.provenanceOffset + r.provenanceLength ≤ gOff + gLen := by
    intro r hr
    obtain ⟨hpath, hstart, hend⟩ := hadded r hr
    have hnext := UInt64.le_trans hfirst hgapEnd
    exact ⟨hpath, UInt64.le_trans hstart hnext, UInt64.le_trans hend hnext⟩
  rcases hcases with ⟨-, hrecords⟩ | ⟨-, hrecords⟩
  · refine ⟨added ++ [stageRecord args env iv off gOff gLen], ?_, ?_⟩
    · rw [hrecords, hP, append_assoc]
    · intro r hr
      rcases mem_append.mp hr with hr | hr
      · exact hkept r hr
      · rw [mem_singleton.mp hr]
        exact ⟨rfl, hgapEnd, UInt64.le_refl _⟩
  · exact ⟨added, hrecords.trans hP, hkept⟩

theorem stageTurn_stop {result : StageResult}
    (h : stageTurn bc args env turn P gOff gLen = (P', some result)) :
    result = .dropped ∨ result = .failed := by
  obtain ⟨room, -, hcases⟩ := stageTurn_cases h
  rcases hcases with ⟨hres | hres, -⟩ | ⟨iv, -, -, -, ⟨hres, -⟩ | ⟨hres, -⟩⟩
  · exact .inl (Option.some.inj hres)
  · exact .inr (Option.some.inj hres)
  · exact .inr (Option.some.inj hres)
  · cases hres

/-- **What a loop adds.**  Under enforcement a loop that is not cut short adds the records of the
    gaps ahead of it, without those that the table refuses. -/
theorem stageLoop_adds (hlen : args.plaintext.length = args.length.toNat)
    (hwrap : args.offset.toNat + args.length.toNat < 2 ^ 64)
    (hmode : ∀ n, (env.turn n).mode = .enforce) (hinv : StringRecords args live P cursor)
    (hcursor : args.offset.toNat ≤ cursor.toNat)
    (hdropped : (stageLoop bc args env n P cursor staged).2.1 ≠ .dropped)
    (hfailed : (stageLoop bc args env n P cursor staged).2.1 ≠ .failed) :
    ∃ added, (stageLoop bc args env n P cursor staged).1.records = P.records ++ added ∧
      (∀ r ∈ added, StagedFor args env r) ∧
      added.map recGap = (gapList live args.path (args.offset + args.length) cursor).filter
        fun gap => !gapRefused live args.path gap := by
  fun_induction stageLoop bc args env n P cursor staged with
  | case1 n P cursor staged last hlt hgap =>
    rw [gapList_of_no_gap (hinv.gap.symm.trans hgap)]
    exact ⟨[], (append_nil _).symm, forall_mem_nil _, rfl⟩
  | case2 n P cursor staged last hlt gOff gLen hgap hprogress P' result hturn =>
    rcases stageTurn_stop hturn with h | h
    · exact absurd h hdropped
    · exact absurd h hfailed
  | case3 n P cursor staged last hlt gOff gLen hgap hprogress P' hturn ih =>
    obtain ⟨hinv', iv, off, hcases⟩ := hinv.step (hmode n) hgap hturn
    obtain ⟨added, hrecords, hstaged, hgaps⟩ := ih hinv' (by omega) hdropped hfailed
    rw [gapList_of_gap (hinv.gap.symm.trans hgap), filter_cons]
    rcases hcases with ⟨hrefused, hP'⟩ | ⟨hrefused, hP'⟩
    · refine ⟨stageRecord args env iv off gOff gLen :: added, ?_, ?_, ?_⟩
      · rw [hrecords, hP', append_assoc, singleton_append]
      · intro r hr
        rcases mem_cons.mp hr with rfl | hr
        · exact stageRecord_stagedFor hlen hwrap hcursor
            (show TurnGap args P cursor gOff gLen from hgap).spec iv off
        · exact hstaged r hr
      · rw [if_pos (by simp [hrefused]), map_cons, hgaps]
        rfl
    · rw [if_neg (by simp [hrefused])]
      exact ⟨added, by rw [hrecords, hP'], hstaged, hgaps⟩
  | case4 n P cursor staged last hge =>
    rw [gapList_of_no_gap (firstGap_of_not_lt hge)]
    exact ⟨[], (append_nil _).symm, forall_mem_nil _, rfl⟩

/-- The table after a completed call: the live records, and one record for each gap of the range
    that is not refused. -/
structure GapsFilled (args : StageArgs) (env : StageEnv) (live : List PreserveRecord) (P : Preserve)
    (added : List PreserveRecord) : Prop where
  records : P.records = live ++ added
  staged : ∀ r ∈ added, StagedFor args env r
  gaps : added.map recGap = (gapList live args.path (args.offset + args.length) args.offset).filter
    fun gap => !gapRefused live args.path gap

theorem stageLoop_filled (hlen : args.plaintext.length = args.length.toNat)
    (hwrap : args.offset.toNat + args.length.toNat < 2 ^ 64)
    (hmode : ∀ n, (env.turn n).mode = .enforce)
    (hdropped : (stageLoop bc args env 0 P args.offset false).2.1 ≠ .dropped)
    (hfailed : (stageLoop bc args env 0 P args.offset false).2.1 ≠ .failed) :
    ∃ added,
      GapsFilled args env P.records (stageLoop bc args env 0 P args.offset false).1 added := by
  obtain ⟨added, hrecords, hstaged, hgaps⟩ := stageLoop_adds hlen hwrap hmode
    ⟨[], (append_nil _).symm, forall_mem_nil _⟩ (Nat.le_refl _) hdropped hfailed
  exact ⟨added, hrecords, hstaged, hgaps⟩

theorem range_walk (live : List PreserveRecord)
    (hwrap : args.offset.toNat + args.length.toNat < 2 ^ 64) :
    ∃ c, GapWalk (CoveredBy live args.path) (StartsAt live args.path) args.offset.toNat
        (args.offset.toNat + args.length.toNat) c
        ((gapList live args.path (args.offset + args.length) args.offset).map gapExtent) ∧
      ∀ b, c ≤ b → b < args.offset.toNat + args.length.toNat → CoveredBy live args.path b := by
  have hlast : (args.offset + args.length).toNat = args.offset.toNat + args.length.toNat := by
    rw [UInt64.toNat_add, mod_eq_of_lt hwrap]
  rw [← hlast]
  exact gapList_walk GapWalk.start

/-- A byte of the range is covered or in a gap. -/
theorem coveredBy_or_gap (live : List PreserveRecord)
    (hwrap : args.offset.toNat + args.length.toNat < 2 ^ 64)
    (hlo : args.offset.toNat ≤ b) (hhi : b < args.offset.toNat + args.length.toNat) :
    CoveredBy live args.path b ∨
      ∃ gap ∈ gapList live args.path (args.offset + args.length) args.offset,
        gap.1.toNat ≤ b ∧ b < (gap.1 + gap.2).toNat := by
  obtain ⟨c, hwalk, hrest⟩ := range_walk live hwrap
  by_cases hc : b < c
  · rcases hwalk.covers hlo hc with hcov | ⟨p, hp, hpb⟩
    · exact .inl hcov
    · obtain ⟨gap, hgap, rfl⟩ := mem_map.mp hp
      exact .inr ⟨gap, hgap, hpb⟩
  · exact .inl (hrest b (not_lt.mp hc) hhi)

theorem GapsFilled.exists_iff (h : GapsFilled args env live P added) {p : UInt64 × UInt64 → Prop} :
    (∃ r ∈ added, p (recGap r)) ↔
      ∃ gap ∈ gapList live args.path (args.offset + args.length) args.offset,
        gapRefused live args.path gap = false ∧ p gap := by
  have hmem : ∀ gap, gap ∈ added.map recGap ↔
      gap ∈ gapList live args.path (args.offset + args.length) args.offset ∧
        gapRefused live args.path gap = false := by
    intro gap
    rw [h.gaps, mem_filter, Bool.not_eq_true']
  constructor
  · rintro ⟨r, hr, hp⟩
    obtain ⟨hgap, hfree⟩ := (hmem _).mp (mem_map_of_mem hr)
    exact ⟨_, hgap, hfree, hp⟩
  · rintro ⟨gap, hgap, hfree, hp⟩
    obtain ⟨r, hr, rfl⟩ := mem_map.mp ((hmem gap).mpr ⟨hgap, hfree⟩)
    exact ⟨r, hr, hp⟩

theorem firstGap_of_covered {offset length : UInt64} (hwrap : offset.toNat + length.toNat < 2 ^ 64)
    (hcov : RangeCovered records path offset length) :
    sarPreserveFirstGap records path offset length = none := by
  rw [Option.eq_none_iff_forall_ne_some]
  rintro ⟨gOff, gLen⟩ hgap
  have hspec := firstGapLoop_spec.2 gOff gLen hgap
  have hpos := hspec.pos
  have hle := hspec.le_last
  rw [UInt64.toNat_add, mod_eq_of_lt hwrap] at hle
  exact absurd (hcov gOff.toNat hspec.first_le (by omega))
    (hspec.uncovered gOff.toNat (le_refl _) (by omega))

theorem stageLoop_of_covered (hwrap : args.offset.toNat + args.length.toNat < 2 ^ 64)
    (hcov : RangeCovered P.records args.path args.offset args.length) :
    stageLoop bc args env n P args.offset staged = (P, .alreadyCovered, staged) := by
  apply stageLoop_of_no_gap
  rw [UInt64.add_comm, UInt64.add_sub_cancel]
  exact firstGap_of_covered hwrap hcov

theorem sarPreserveStage_cases
    (hres : (sarPreserveStage bc args env P).2 = .stored ∨
      (sarPreserveStage bc args env P).2 = .alreadyCovered) :
    ((args.plaintext = [] ∨ args.length = 0) ∧ (sarPreserveStage bc args env P).1 = P) ∨
    (args.plaintext ≠ [] ∧ args.length ≠ 0 ∧ args.plaintext.length = args.length.toNat ∧
      let loop := stageLoop bc args env 0 (evictAged P env.now) args.offset false
      loop.2.1 ≠ .dropped ∧ loop.2.1 ≠ .failed ∧ (sarPreserveStage bc args env P).1 = loop.1) := by
  unfold sarPreserveStage at hres ⊢
  split at hres
  · rcases hres with h | h <;> cases h
  rename_i hready
  split at hres
  next hzero =>
    rw [if_neg hready, if_pos hzero, length_eq_zero_iff] at *
    exact .inl ⟨hzero, rfl⟩
  rename_i hzero
  split at hres
  · rcases hres with h | h <;> cases h
  rename_i hlen
  rw [if_neg hready, if_neg hzero, if_neg hlen]
  rw [not_or, length_eq_zero_iff] at hzero
  dsimp only at hres
  refine Or.inr ⟨hzero.1, hzero.2, not_not.mp hlen, ?_, ?_, rfl⟩
  · intro hd
    rw [if_pos (.inl hd), hd] at hres
    rcases hres with h | h <;> cases h
  · intro hf
    rw [if_pos (.inr hf), hf] at hres
    rcases hres with h | h <;> cases h

theorem kept_eq_live {kept : List PreserveRecord} (hlive : (liveRecords P now).Sublist kept)
    (hkept : kept.Sublist P.records) (hfresh : ∀ r ∈ kept, agedOut now P.retention100ns r = false) :
    kept = liveRecords P now := by
  have hfilter : (kept.filter fun r => !agedOut now P.retention100ns r) = kept := by
    rw [filter_eq_self]
    intro r hr
    rw [hfresh r hr]
    rfl
  have hsub := hkept.filter fun r => !agedOut now P.retention100ns r
  rw [hfilter] at hsub
  exact hsub.antisymm hlive

theorem liveRecords_fresh {r : PreserveRecord} (h : r ∈ liveRecords P now) :
    agedOut now P.retention100ns r = false := by
  rw [liveRecords, mem_filter] at h
  simpa using h.2

/-- **What is added for a zero-padded path** covers the bytes of the range that were not
    covered. -/
theorem GapsFilled.recCovers_iff (h : GapsFilled args env live P added)
    (hwrap : args.offset.toNat + args.length.toNat < 2 ^ 64) (hpath : ZeroPadded args.path) :
    (∃ r ∈ added, RecCovers args.path r b) ↔
      (args.offset.toNat ≤ b ∧ b < args.offset.toNat + args.length.toNat) ∧
        ¬ CoveredBy live args.path b := by
  obtain ⟨c, hwalk, -⟩ := range_walk live hwrap
  constructor
  · rintro ⟨r, hr, -, hrange⟩
    obtain ⟨gap, hgap, -, hb⟩ := (h.exists_iff (p := fun gap => gap.1.toNat ≤ b ∧
      b < (gap.1 + gap.2).toNat)).mp ⟨r, hr, hrange⟩
    obtain ⟨hlo, hhi, hfree⟩ := hwalk.uncovered _ (mem_map_of_mem hgap) b hb.1 hb.2
    exact ⟨⟨hlo, hhi⟩, hfree⟩
  · rintro ⟨⟨hlo, hhi⟩, hfree⟩
    obtain ⟨gap, hgap, hb⟩ := (coveredBy_or_gap live hwrap hlo hhi).resolve_left hfree
    -- the record of a gap carries the path of the walk and cannot be refused
    have hkept : gapRefused live args.path gap = false := by
      rw [gapRefused, show copyPath args.path = args.path from hpath]
      exact gapList_not_covered hgap
    obtain ⟨r, hr, hrange⟩ := (h.exists_iff (p := fun gap => gap.1.toNat ≤ b ∧
      b < (gap.1 + gap.2).toNat)).mpr ⟨gap, hgap, hkept, hb⟩
    exact ⟨r, hr, (h.staged r hr).path_eq.trans hpath, hrange⟩

theorem GapsFilled.coveredByText_iff (h : GapsFilled args env live P added) :
    CoveredByText P.records (pathText args.path) b ↔
      CoveredByText live (pathText args.path) b ∨
        ∃ gap ∈ gapList live args.path (args.offset + args.length) args.offset,
          gapRefused live args.path gap = false ∧ gap.1.toNat ≤ b ∧
            b < (gap.1 + gap.2).toNat := by
  have hnew : CoveredByText added (pathText args.path) b ↔ ∃ r ∈ added,
      (recGap r).1.toNat ≤ b ∧ b < ((recGap r).1 + (recGap r).2).toNat := by
    refine exists_congr fun r => and_congr_right fun hr => ?_
    rw [(h.staged r hr).path_eq, pathText_copyPath]
    exact and_iff_right rfl
  rw [← h.exists_iff (p := fun gap => gap.1.toNat ≤ b ∧ b < (gap.1 + gap.2).toNat), ← hnew,
    h.records]
  simp only [CoveredByText, mem_append, or_and_right, exists_or]

/-- The table refuses the record of each gap of the range exactly if the records of the file
    cover the gap; otherwise they leave it free. -/
def RefusesCovered (args : StageArgs) (live : List PreserveRecord) : Prop :=
  ∀ gap ∈ gapList live args.path (args.offset + args.length) args.offset,
    ∀ b, gap.1.toNat ≤ b → b < (gap.1 + gap.2).toNat →
      (CoveredByText live (pathText args.path) b ↔ gapRefused live args.path gap = true)

theorem GapsFilled.stageCovers (h : GapsFilled args env (liveRecords P env.now) P' added)
    (hwrap : args.offset.toNat + args.length.toNat < 2 ^ 64)
    (hrefuses : RefusesCovered args (liveRecords P env.now))
    (hsplit : ¬ RangeSplit (liveRecords P env.now) args.path args.offset args.length) :
    StageCovers args env.now P P' := by
  obtain ⟨c, hwalk, -⟩ := range_walk (liveRecords P env.now) hwrap
  refine ⟨?_, liveRecords P env.now, added, h.records, .refl _, filter_sublist, ?_, ?_⟩
  · intro b hlo hhi
    rw [h.coveredByText_iff]
    rcases coveredBy_or_gap _ hwrap hlo hhi with hcov | ⟨gap, hgap, hb⟩
    · exact .inl hcov.text
    · cases hfree : gapRefused (liveRecords P env.now) args.path gap with
      | false => exact .inr ⟨gap, hgap, hfree, hb⟩
      | true => exact .inl ((hrefuses gap hgap b hb.1 hb.2).mpr hfree)
  · intro r hr
    have hstaged := h.staged r hr
    obtain ⟨gap, hgap, hkept, rfl⟩ := h.exists_iff.mp ⟨r, hr, rfl⟩
    have hmax := hwalk.isMaximalGap (fun b => CoveredBy.text) hsplit _ (mem_map_of_mem hgap) (by
      intro b hlo hhi hcov
      rw [hrefuses _ hgap b hlo hhi, hkept] at hcov
      cases hcov)
    simp only [gapExtent, recGap, hstaged.end_eq] at hmax
    exact ⟨by rw [hstaged.path_eq, pathText_copyPath], hmax, hstaged.tag⟩
  · have hpairs : (added.map recGap).Pairwise fun g g' => (gapExtent g).2 ≤ (gapExtent g').1 := by
      rw [h.gaps]
      exact (pairwise_map.mp hwalk.pairwise).sublist filter_sublist
    refine (pairwise_map.mp hpairs).imp_of_mem ?_
    intro r s hr _ hle
    simp only [gapExtent, recGap, (h.staged r hr).end_eq] at hle
    exact hle

theorem GapsFilled.of_stageCovers (h : GapsFilled args env (liveRecords P env.now) P' added)
    (hwrap : args.offset.toNat + args.length.toNat < 2 ^ 64)
    (hcovers : StageCovers args env.now P P') :
    RefusesCovered args (liveRecords P env.now) ∧
      ¬ RangeSplit (liveRecords P env.now) args.path args.offset args.length := by
  obtain ⟨c, hwalk, hrest⟩ := range_walk (liveRecords P env.now) hwrap
  obtain ⟨kept, added', hrecords, hlive, hkept, hgaps, -⟩ := hcovers.grows
  have hkeptLive : kept = liveRecords P env.now := by
    apply kept_eq_live hlive hkept
    intro r hr
    have hmem : r ∈ P'.records := by
      rw [hrecords]
      exact mem_append_left _ hr
    rw [h.records] at hmem
    rcases mem_append.mp hmem with hmem | hmem
    · exact liveRecords_fresh hmem
    · exact (h.staged r hmem).not_agedOut
  have hadded : added' = added := by
    have heq := h.records.symm.trans hrecords
    rw [hkeptLive] at heq
    exact (append_cancel_left heq).symm
  subst hkeptLive hadded
  have hfree : ∀ gap ∈ gapList (liveRecords P env.now) args.path (args.offset + args.length)
      args.offset, gapRefused (liveRecords P env.now) args.path gap = false →
      IsMaximalGap (CoveredByText (liveRecords P env.now) (pathText args.path)) args.offset.toNat
        (args.offset.toNat + args.length.toNat) (gapExtent gap).1 (gapExtent gap).2 := by
    intro gap hgap hkept
    obtain ⟨r, hr, rfl⟩ := h.exists_iff.mpr ⟨gap, hgap, hkept, rfl⟩
    have hmax := (hgaps r hr).gap
    rw [← (h.staged r hr).end_eq] at hmax
    exact hmax
  -- the bytes of a refused gap lie in no other gap, so it is the file's own records that cover them
  have hheld : ∀ gap ∈ gapList (liveRecords P env.now) args.path (args.offset + args.length)
      args.offset, gapRefused (liveRecords P env.now) args.path gap = true →
      ∀ b, gap.1.toNat ≤ b → b < (gap.1 + gap.2).toNat →
        CoveredByText (liveRecords P env.now) (pathText args.path) b := by
    intro gap hgap hrefused b hlo hhi
    obtain ⟨hin, hin', -⟩ := hwalk.uncovered _ (mem_map_of_mem hgap) b hlo hhi
    rcases h.coveredByText_iff.mp (hcovers.covered b hin hin') with hcov |
      ⟨gap', hgap', hkept, hb⟩
    · exact hcov
    · have hsame := gapExtent_injective (hwalk.eq_of_mem (mem_map_of_mem hgap)
        (mem_map_of_mem hgap') ⟨hlo, hhi⟩ hb)
      rw [hsame, hkept] at hrefused
      cases hrefused
  constructor
  · intro gap hgap b hlo hhi
    cases hrefused : gapRefused (liveRecords P env.now) args.path gap with
    | true => exact iff_of_true (hheld gap hgap hrefused b hlo hhi) rfl
    | false =>
      exact iff_of_false ((hfree gap hgap hrefused).uncovered b hlo hhi) Bool.false_ne_true
  · apply hwalk.not_splitsGap (fun b => CoveredBy.text) hrest
    intro p hp
    obtain ⟨gap, hgap, rfl⟩ := mem_map.mp hp
    cases hrefused : gapRefused (liveRecords P env.now) args.path gap with
    | true => exact .inl (hheld gap hgap hrefused)
    | false => exact .inr (hfree gap hgap hrefused)

/-- **When staging covers what it reports.**  Under enforcement, a successful call on a range that
    does not wrap keeps its promise exactly when the range is empty, or the plaintext is empty and
    the range was covered before, or there is plaintext, each gap among the live records of exactly
    this path buffer is refused by the table if and only if the live records of the file cover it,
    and no record without extent of this buffer lies inside a gap of the file. -/
theorem stage_covers_iff (bc : BCrypt) (args : StageArgs) (env : StageEnv) (P : Preserve)
    (hwrap : args.offset.toNat + args.length.toNat < 2 ^ 64)
    (hmode : ∀ n, (env.turn n).mode = .enforce)
    (hres : (sarPreserveStage bc args env P).2 = .stored ∨
      (sarPreserveStage bc args env P).2 = .alreadyCovered) :
    StageCovers args env.now P (sarPreserveStage bc args env P).1 ↔
      args.length = 0 ∨
      (args.plaintext = [] ∧ TextCovered P.records (pathText args.path) args.offset args.length) ∨
      (args.plaintext ≠ [] ∧ RefusesCovered args (liveRecords P env.now) ∧
        ¬ RangeSplit (liveRecords P env.now) args.path args.offset args.length) := by
  rcases sarPreserveStage_cases hres with ⟨hzero, hP'⟩ | ⟨hplain, hlength, hlen, hd, hf, hP'⟩
  · rw [hP']
    constructor
    · intro hcovers
      rcases hzero with hplain | hlength
      · exact .inr (.inl ⟨hplain, hcovers.covered⟩)
      · exact .inl hlength
    · intro hcond
      refine ⟨?_, P.records, [], (List.append_nil _).symm, List.filter_sublist, .refl _,
        List.forall_mem_nil _, List.Pairwise.nil⟩
      by_cases hlength : args.length = 0
      · intro b hlo hhi
        rw [hlength] at hhi
        simp at hhi
        omega
      · have hplain : args.plaintext = [] := hzero.resolve_right hlength
        rcases hcond with h | ⟨-, h⟩ | ⟨h, -⟩
        · exact absurd h hlength
        · exact h
        · exact absurd hplain h
  · rw [hP']
    obtain ⟨added, hfilled⟩ := stageLoop_filled hlen hwrap hmode hd hf
    constructor
    · intro hcovers
      exact .inr (.inr ⟨hplain, hfilled.of_stageCovers hwrap hcovers⟩)
    · intro hcond
      rcases hcond with h | ⟨h, -⟩ | ⟨-, hrefuses, hsplit⟩
      · exact absurd h hlength
      · exact absurd h hplain
      · exact hfilled.stageCovers hwrap hrefuses hsplit

/-! ### A path buffer with text behind its terminator -/

def pathOf (units : List UInt16) (h : units.length ≤ SEMANTICS_AR_PROVENANCE_PATH_MAX) : ProvPath :=
  ⟨(units ++ replicate (SEMANTICS_AR_PROVENANCE_PATH_MAX - units.length) 0).toArray,
    by simp; omega⟩

theorem fileA_fits : ([97] : List UInt16).length ≤ SEMANTICS_AR_PROVENANCE_PATH_MAX := by decide

def identityCrypt : BCrypt where
  encrypt _ _ data := data
  decrypt _ _ data := data

def grantedTurn : TurnEnv where
  mode := .enforce
  iv := some (Vector.replicate _ 0)
  ctPool := true
  padPool := true
  crypt := true
  rebuildPool := true
  write := true
  torn := []

def grantedEnv (now : UInt64) : StageEnv := ⟨now, Vector.replicate _ 0, fun _ => grantedTurn⟩

def readyStore : Preserve := { sarPreserveCreate with ready := true, dataOpen := true }

instance neZero_stageLengths : NeZero (2 ^ 32) := ⟨by decide⟩

def stageZeros (path : ProvPath) (offset : UInt64) (n : Fin (2 ^ 32)) : StageArgs where
  path := path
  offset := offset
  length := UInt64.ofNat n
  actorId := 7
  plaintext := replicate n 0
  againstReservation := false
  plaintext_lt := by rw [length_replicate]; exact n.isLt

/-- The store that holds the first 16 bytes of the file `a`. -/
def heldStore : Preserve :=
  (sarPreserveStage identityCrypt (stageZeros (pathOf [97] fileA_fits) 0 16) (grantedEnv 1)
    readyStore).1

/-- The 32 bytes of `a`, with the path in a buffer that still holds the end of
    another path, are reported as stored, and no record reaches behind byte 16. -/
theorem stage_stored_uncovered :
    let args := stageZeros (pathOf [97, 0, 98] (by decide)) 0 32
    let res := sarPreserveStage identityCrypt args (grantedEnv 2) heldStore
    res.2 = .stored ∧
      (∀ r ∈ res.1.records, (r.provenanceOffset + r.provenanceLength).toNat ≤ 16) ∧
      ¬ StageCovers args 2 heldStore res.1 := by
  refine ⟨by decide +kernel, by decide +kernel, ?_⟩
  intro hcovers
  exact absurd (hcovers.covered 16 (by decide) (by decide)) (by decide +kernel)

/-- With the buffer zero-padded the same call fills the rest of the range. -/
theorem stage_covers_rest : StageCovers (stageZeros (pathOf [97] (by decide)) 0 32) 2 heldStore
      (sarPreserveStage identityCrypt (stageZeros (pathOf [97] (by decide)) 0 32) (grantedEnv 2)
        heldStore).1 := by
  refine (stage_covers_iff identityCrypt (stageZeros (pathOf [97] (by decide)) 0 32)
    (grantedEnv 2) heldStore (by decide) (fun _ => rfl) (.inl (by decide +kernel))).mpr ?_
  have hgap : sarPreserveFirstGap (liveRecords heldStore 2) (pathOf [97] (by decide)) 0 32 =
      some (16, 16) := by decide +kernel
  have hgaps : gapList (liveRecords heldStore 2) (pathOf [97] (by decide)) 32 0 = [(16, 16)] := by
    rw [gapList_of_gap hgap, gapList_of_no_gap (firstGap_of_not_lt (by decide))]
  refine Or.inr (.inr ⟨by decide, ?_, ?_⟩)
  · intro gap hmem b hlo hhi
    have hmem' : gap ∈ gapList (liveRecords heldStore 2) (pathOf [97] (by decide)) 32 0 := hmem
    rw [hgaps, mem_singleton] at hmem'
    subst hmem'
    have hnone : ∀ r ∈ liveRecords heldStore 2,
        (r.provenanceOffset + r.provenanceLength).toNat ≤ 16 := by decide +kernel
    refine iff_of_false ?_ (by decide +kernel)
    rintro ⟨r, hr, -, -, hend⟩
    exact absurd (hend.trans_le (hnone r hr)) (not_lt.mpr hlo)
  · rintro ⟨b, hlo, -, ⟨r, hr, -, rfl⟩, -⟩
    have hstart : ∀ r ∈ liveRecords heldStore 2, r.provenanceOffset.toNat = 0 := by decide +kernel
    rw [hstart r hr] at hlo
    exact absurd hlo (not_lt_zero _)

/-! ### Namespace staging -/

/-- What a namespace staging call does: it fails and at most ages records out, or
    it succeeds and offers the record of the link to the table. -/
theorem sarPreserveStageLink_cases {res : Except NtStatus Unit}
    (h : sarPreserveStageLink path fileSize actorId linkId now causingPath P = (P', res)) :
    (∃ status, res = .error status ∧ (P' = P ∨ P' = evictAged P now)) ∨
    (res = .ok () ∧ (evictAged P now).records.length < (evictAged P now).recordCapacity.toNat ∧
      P' = appendRecord (evictAged P now)
        (linkRecord path fileSize actorId linkId now causingPath)) := by
  unfold sarPreserveStageLink at h
  split at h
  · cases h
    exact .inl ⟨_, rfl, .inl rfl⟩
  split at h
  · cases h
    exact .inl ⟨_, rfl, .inl rfl⟩
  dsimp only at h
  split at h
  · cases h
    exact .inl ⟨_, rfl, .inr rfl⟩
  next hcount =>
    cases h
    exact .inr ⟨rfl, not_le.mp hcount, rfl⟩

theorem linkRecord_covers_iff :
    RecCovers path (linkRecord path fileSize actorId linkId now causingPath) b ↔
      ZeroPadded path ∧ b < fileSize.toNat := by
  have hend : ((0 : UInt64) + fileSize).toNat = fileSize.toNat := by rw [UInt64.zero_add]
  constructor
  · intro h
    refine ⟨h.1, ?_⟩
    rw [← hend]
    exact h.2.2
  · intro h
    refine ⟨h.1, zero_le b, ?_⟩
    show b < ((0 : UInt64) + fileSize).toNat
    rw [hend]
    exact h.2

theorem sarPreserveStageLink_records
    (hres : (sarPreserveStageLink path fileSize actorId linkId now causingPath P).2 = .ok ()) :
    (sarPreserveStageLink path fileSize actorId linkId now causingPath P).1.records =
      if sarPreserveCovered (liveRecords P now) (copyPath path) 0 fileSize then liveRecords P now
      else liveRecords P now ++ [linkRecord path fileSize actorId linkId now causingPath] := by
  generalize hcall : sarPreserveStageLink path fileSize actorId linkId now causingPath P = call
    at hres ⊢
  obtain ⟨P', res⟩ := call
  rcases sarPreserveStageLink_cases hcall with ⟨status, herr, -⟩ | ⟨-, hcount, hP'⟩
  · cases herr.symm.trans hres
  subst hP'
  rcases appendRecord_cases (evictAged P now) _ hcount with ⟨hcov, happ⟩ | ⟨hcov, happ⟩
  · rw [happ]
    exact (if_pos hcov).symm
  · rw [happ]
    exact (if_neg (Bool.eq_false_iff.mp hcov)).symm

/-- **When namespace staging covers what it reports.**  A successful call covers the file exactly
    when the live records of the file cover it, as they do the empty file, or the overlap test
    finds none of them, which looks at the zero-padded path. -/
theorem stage_link_covers_iff (path : ProvPath) (fileSize actorId linkId now : UInt64)
    (causingPath : ProvPath) (P : Preserve)
    (hres : (sarPreserveStageLink path fileSize actorId linkId now causingPath P).2 = .ok ()) :
    TextCovered (sarPreserveStageLink path fileSize actorId linkId now causingPath P).1.records
        (pathText path) 0 fileSize ↔
      TextCovered (liveRecords P now) (pathText path) 0 fileSize ∨
        sarPreserveCovered (liveRecords P now) (copyPath path) 0 fileSize = false := by
  rw [sarPreserveStageLink_records hres]
  cases hcov : sarPreserveCovered (liveRecords P now) (copyPath path) 0 fileSize with
  | true =>
    rw [if_pos rfl]
    exact ⟨.inl, fun h => h.resolve_right Bool.noConfusion⟩
  | false =>
    rw [if_neg Bool.false_ne_true]
    refine iff_of_true ?_ (.inr rfl)
    intro b hlo hhi
    rw [UInt64.toNat_zero, zero_add] at hhi
    have hrec : RecCovers (copyPath path)
        (linkRecord path fileSize actorId linkId now causingPath) b := by
      refine ⟨rfl, zero_le b, ?_⟩
      show b < ((0 : UInt64) + fileSize).toNat
      rwa [UInt64.zero_add]
    rw [← pathText_copyPath path]
    exact CoveredBy.text ⟨_, mem_append_right _ mem_cons_self, hrec⟩

/-- The store holds 16 bytes of `a`; linking the 64-byte file succeeds and leaves
    the other 48 uncovered. -/
theorem stage_link_partial_hold :
    let res := sarPreserveStageLink (pathOf [97] (by decide)) 64 7 1 2 (pathOf [] (by decide))
      heldStore
    res.2 = .ok () ∧ ¬ TextCovered res.1.records [97] 0 64 := by
  refine ⟨by decide +kernel, ?_⟩
  intro hcov
  exact absurd (hcov 16 (by decide) (by decide)) (by decide +kernel)

/-- In the empty store the link covers the file. -/
theorem stage_link_covers_empty_store :
    TextCovered (sarPreserveStageLink (pathOf [97] (by decide)) 64 7 1 2 (pathOf [] (by decide))
      readyStore).1.records (pathText (pathOf [97] (by decide))) 0 64 :=
  (stage_link_covers_iff (pathOf [97] (by decide)) 64 7 1 2 (pathOf [] (by decide)) readyStore
    (by decide +kernel)).mpr (.inr (by decide +kernel))

end SemanticsAr
