import SemanticsAr.PreserveExtents

/-!
# What staging writes

The effect of a stage call on the table and on the payload file.  The table
afterwards is what was kept of the old one, followed by records the call
appended (`stageLog`).  Where the rebuilds are safe, the call leaves the payload
of every kept record as it was, and the payload of every appended one is the
ciphertext of its slice of the plaintext.  Together with the extents being
disjoint this says that staging one original never overwrites another.
-/

namespace SemanticsAr

open Nat
open List hiding Vector

variable {data : Nat → UInt8} {off len b n : Nat} {bytes : List UInt8} {Q room P P' : Preserve}
  {mode : Mode} {r : PreserveRecord} {gOff gLen cursor generation : UInt64} {turn : TurnEnv}
  {records : List PreserveRecord} {staged : Bool}

/-! ### Reading and writing the payload file -/

theorem writeData_of_apart {p : Span} (hlen : bytes.length ≤ len)
    (hapart : Apart p (off, off + len)) (hlo : p.1 ≤ b) (hhi : b < p.2) :
    writeData data off bytes b = data b := by
  apply writeData_outside
  rcases hapart with h | h
  · exact .inl (hhi.trans_le h)
  · have hend : off + len ≤ p.1 := h
    omega

theorem readData_writeData (data : Nat → UInt8) (off : Nat) (bytes : List UInt8) :
    readData (writeData data off bytes) off bytes.length = bytes := by
  apply ext_getElem
  · simp [readData]
  · intro i hi hi'
    simp [readData, writeData, hi']

theorem readData_congr {data' : Nat → UInt8} (h : ∀ b, off ≤ b → b < off + len → data' b = data b) :
    readData data' off len = readData data off len := by
  apply map_congr_left
  intro i hi
  rw [mem_range] at hi
  exact h (off + i) (le_add_right _ _) (by omega)

/-! ### Payloads -/

def SpanKept (P P' : Preserve) (r : PreserveRecord) : Prop :=
  ∀ b, r.payloadOffset.toNat ≤ b → b < r.payloadOffset.toNat + r.payloadLength.toNat →
    P'.data b = P.data b

theorem SpanKept.trans {P'' : Preserve} (h : SpanKept P P' r) (h' : SpanKept P' P'' r) :
    SpanKept P P'' r := by
  intro b hlo hhi
  exact (h' b hlo hhi).trans (h b hlo hhi)

def Stored (bc : BCrypt) (args : StageArgs) (P : Preserve) (r : PreserveRecord) : Prop :=
  readData P.data r.payloadOffset.toNat (r.payloadLength.toNat % 2 ^ 32) =
    bc.encrypt P.storeKey (r.iv.toList.take SAR_PRESERVE_AES_BLOCK)
      ((stagePadded args r.provenanceOffset r.provenanceLength).take
        (r.payloadLength.toNat % 2 ^ 32))

theorem Stored.of_spanKept {bc : BCrypt} {args : StageArgs} (h : Stored bc args P r)
    (hkey : P'.storeKey = P.storeKey) (hspan : SpanKept P P' r) :
    Stored bc args P' r := by
  unfold Stored at h ⊢
  rw [hkey, ← h]
  apply readData_congr
  intro b hlo hhi
  exact hspan b hlo (by omega)

theorem length_stagePadded (args : StageArgs) (hlt : gLen.toNat < 2 ^ 32) :
    (stagePadded args gOff gLen).length = (sarPresRound16 gLen).toNat := by
  have hround := toNat_sarPresRound16 (v := gLen) (by omega)
  unfold stagePadded
  simp only [length_append, length_replicate, length_take, length_drop]
  omega

theorem length_cipher {bc : BCrypt} (hlaw : bc.Lawful) (args : StageArgs) (gOff : UInt64)
    (hpos : 0 < gLen.toNat) (hlt : gLen.toNat < 2 ^ 32) (key : Mac) (iv : List UInt8) :
    (bc.encrypt key iv ((stagePadded args gOff gLen).take
      ((sarPresRound16 gLen).toNat % 2 ^ 32))).length = (sarPresRound16 gLen).toNat % 2 ^ 32 := by
  obtain ⟨-, hblocks, -⟩ := round16_gap hpos hlt
  have hmod := mod_le (sarPresRound16 gLen).toNat (2 ^ 32)
  have hlen : ((stagePadded args gOff gLen).take ((sarPresRound16 gLen).toNat % 2 ^ 32)).length =
      (sarPresRound16 gLen).toNat % 2 ^ 32 := by
    rw [length_take, length_stagePadded args hlt, min_eq_left hmod]
  rw [hlaw.length_encrypt _ _ _ ?_, hlen]
  rw [hlen]
  show (sarPresRound16 gLen).toNat % 2 ^ 32 % 16 = 0
  omega

theorem stageRecord_iv (args : StageArgs) (env : StageEnv) (iv : Vector UInt8 16)
    (off : UInt64) :
    (stageRecord args env iv off gOff gLen).iv.toList.take SAR_PRESERVE_AES_BLOCK = iv.toList := by
  apply ext_getElem
  · simp [SAR_PRESERVE_AES_BLOCK, SEMANTICS_AR_IV_MAX]
  · intro i hi hi'
    rw [Vector.length_toList] at hi'
    simp [stageRecord, sarPreserveRecordInit, hi']

@[simp] theorem appendRecord_data : (appendRecord P r).data = P.data := by
  unfold appendRecord
  split <;> rfl

@[simp] theorem appendRecord_storeKey : (appendRecord P r).storeKey = P.storeKey := by
  unfold appendRecord
  split <;> rfl

/-! ### The records a call appends -/

def turnAppends (args : StageArgs) (env : StageEnv) (turn : TurnEnv) (P : Preserve)
    (gOff gLen : UInt64) : List PreserveRecord :=
  match stageMakeRoom P args.againstReservation turn.mode (sarPresRound16 gLen), turn.iv with
  | some room, some iv =>
    let r := stageRecord args env iv
      (sarPresAlloc room (sarPresRound16 gLen) turn.rebuildPool).1 gOff gLen
    if sarPreserveCovered room.records r.provenancePath r.provenanceOffset r.provenanceLength
    then [] else [r]
  | _, _ => []

/-- What each turn that the loop completes appends, from a turn on. -/
def stageTurns (bc : BCrypt) (args : StageArgs) (env : StageEnv) (n : Nat) (P : Preserve)
    (cursor : UInt64) : List (List PreserveRecord) :=
  let last := args.offset + args.length
  if cursor < last then
    match hgap : sarPreserveFirstGap P.records args.path cursor (last - cursor) with
    | none => []
    | some (gOff, gLen) =>
      have _hprogress := firstGap_progress hgap
      match stageTurn bc args env (env.turn n) P gOff gLen with
      | (_, some _) => []
      | (P', none) =>
        turnAppends args env (env.turn n) P gOff gLen ::
          stageTurns bc args env (n + 1) P' (gOff + gLen)
  else []
termination_by 2 ^ 64 - cursor.toNat
decreasing_by
  have hlt := (gOff + gLen).toNat_lt
  omega

/-- The records the loop appends from a turn on, whether or not room has to be
    made at their expense later. -/
def stageLog (bc : BCrypt) (args : StageArgs) (env : StageEnv) (n : Nat) (P : Preserve)
    (cursor : UInt64) : List PreserveRecord := (stageTurns bc args env n P cursor).flatten

section

variable {bc : BCrypt} {args : StageArgs} {env : StageEnv}

theorem stageTurns_of_no_gap
    (hgap : sarPreserveFirstGap P.records args.path cursor (args.offset + args.length - cursor) =
      none) :
    stageTurns bc args env n P cursor = [] := by
  rw [stageTurns]
  split
  · split
    · rfl
    next h =>
      rw [hgap] at h
      cases h
  · rfl

theorem stageTurns_of_gap (hlt : cursor < args.offset + args.length)
    (hgap : TurnGap args P cursor gOff gLen) :
    stageTurns bc args env n P cursor =
      match stageTurn bc args env (env.turn n) P gOff gLen with
      | (_, some _) => []
      | (P', none) =>
        turnAppends args env (env.turn n) P gOff gLen ::
          stageTurns bc args env (n + 1) P' (gOff + gLen) := by
  rw [stageTurns, if_pos hlt]
  split
  next h => cases h.symm.trans hgap
  next h =>
    cases h.symm.trans hgap
    rfl

theorem stageTurn_appends (h : stageTurn bc args env turn P gOff gLen = (P', none)) :
    ∃ room iv, RoomMade turn.mode P room ∧
      P'.records = room.records ++ turnAppends args env turn P gOff gLen ∧
      P'.storeKey = room.storeKey ∧
      let off := (sarPresAlloc room (sarPresRound16 gLen) turn.rebuildPool).1
      P'.data = writeData room.data off.toNat (bc.encrypt room.storeKey iv.toList
        ((stagePadded args gOff gLen).take ((sarPresRound16 gLen).toNat % 2 ^ 32))) ∧
      (turnAppends args env turn P gOff gLen = [] ∨
        turnAppends args env turn P gOff gLen = [stageRecord args env iv off gOff gLen] ∧
        sarPreserveCovered room.records (copyPath args.path) gOff gLen = false) := by
  obtain ⟨room, hroom, hcases⟩ := stageTurn_cases h
  rcases hcases with ⟨hres | hres, -⟩ | ⟨iv, hmake, hiv, hcount, ⟨hres, -⟩ | ⟨-, -, hP'⟩⟩
  · cases hres
  · cases hres
  · cases hres
  have hdata : P'.data = (writtenStore bc args turn room iv gOff gLen).data := by
    rw [hP', appendRecord_data]
  have hkey : P'.storeKey = (writtenStore bc args turn room iv gOff gLen).storeKey := by
    rw [hP', appendRecord_storeKey]
  unfold writtenStore at hdata hkey
  dsimp only at hdata hkey
  rw [sarPresAlloc_data] at hdata
  rw [sarPresAlloc_storeKey] at hkey
  refine ⟨room, iv, hroom, ?_⟩
  unfold turnAppends
  rw [hmake, hiv]
  dsimp only
  rcases appendRecord_cases (writtenStore bc args turn room iv gOff gLen)
    (stageRecord args env iv _ gOff gLen) (by simpa using hcount) with ⟨hcov, happ⟩ | ⟨hcov, happ⟩
  · rw [writtenStore_records] at hcov
    rw [if_pos hcov]
    refine ⟨?_, hkey, hdata, .inl rfl⟩
    rw [hP', happ, writtenStore_records, append_nil]
  · rw [writtenStore_records] at hcov
    rw [if_neg (Bool.eq_false_iff.mp hcov)]
    refine ⟨?_, hkey, hdata, .inr ⟨rfl, hcov⟩⟩
    rw [hP', happ, writtenStore_records]

structure Origin (args : StageArgs) (r : PreserveRecord) : Prop where
  path_eq : r.provenancePath = copyPath args.path
  kind_eq : r.kind = SAR_PRESERVE_KIND_BYTERANGE
  pos : 0 < r.provenanceLength.toNat
  end_eq : (r.provenanceOffset + r.provenanceLength).toNat =
    r.provenanceOffset.toNat + r.provenanceLength.toNat
  lo : args.offset.toNat ≤ r.provenanceOffset.toNat
  hi : r.provenanceOffset.toNat + r.provenanceLength.toNat ≤ args.offset.toNat + args.length.toNat
  plain : args.plaintext.length = args.length.toNat
  payload : r.payloadLength = sarPresRound16 r.provenanceLength
  tag : r.contentTag = sha256 ((args.plaintext.drop
    (r.provenanceOffset.toNat - args.offset.toNat)).take r.provenanceLength.toNat)

theorem Origin.isByteRange (h : Origin args r) : isByteRange r = true := by
  unfold SemanticsAr.isByteRange
  rw [h.kind_eq]
  rfl

theorem TurnGap.no_wrap (h : TurnGap args P cursor gOff gLen)
    (hcursor : args.offset.toNat ≤ cursor.toNat) :
    args.offset.toNat + args.length.toNat < 2 ^ 64 := by
  have hfirst := h.spec.first_le
  have hlast := h.spec.le_last
  have hlen := args.length.toNat_lt
  rw [UInt64.toNat_add] at hlast
  by_contra hwrap
  rw [mod_eq_sub_mod (not_lt.mp hwrap)] at hlast
  omega

theorem turnAppends_origin (env : StageEnv) (turn : TurnEnv)
    (hlen : args.plaintext.length = args.length.toNat) (hcursor : args.offset.toNat ≤ cursor.toNat)
    (hgap : TurnGap args P cursor gOff gLen) :
    ∀ r ∈ turnAppends args env turn P gOff gLen, Origin args r := by
  have hwrap := hgap.no_wrap hcursor
  have hfirst := hgap.spec.first_le
  have hlast := hgap.spec.le_last
  rw [UInt64.toNat_add, mod_eq_of_lt hwrap] at hlast
  intro r hr
  unfold turnAppends at hr
  split at hr
  next room iv hmake hiv =>
    dsimp only at hr
    split at hr
    · exact absurd hr not_mem_nil
    · rw [mem_singleton.mp hr]
      have hstaged : StagedFor args env _ :=
        stageRecord_stagedFor hlen hwrap hcursor hgap.spec iv
          (sarPresAlloc room (sarPresRound16 gLen) turn.rebuildPool).1
      exact ⟨hstaged.path_eq, rfl, hgap.spec.pos, hstaged.end_eq, le_trans hcursor hfirst,
        hlast, hlen, rfl, hstaged.tag⟩
  · exact absurd hr not_mem_nil

theorem stageLog_origin (hlen : args.plaintext.length = args.length.toNat)
    (hcursor : args.offset.toNat ≤ cursor.toNat) :
    ∀ r ∈ stageLog bc args env n P cursor, Origin args r := by
  unfold stageLog
  fun_induction stageTurns bc args env n P cursor with
  | case1 n P cursor last hlt hgap => exact forall_mem_nil _
  | case2 n P cursor last hlt gOff gLen hgap hprogress P' result hturn =>
    exact forall_mem_nil _
  | case3 n P cursor last hlt gOff gLen hgap hprogress P' hturn ih =>
    intro r hr
    rw [flatten_cons, mem_append] at hr
    rcases hr with hr | hr
    · exact turnAppends_origin env _ hlen hcursor hgap r hr
    · exact ih (by omega) r hr
  | case4 n P cursor last hge => exact forall_mem_nil _

/-! ### The effect of a call -/

structure TableEffect (P P' : Preserve) (log kept added : List PreserveRecord) : Prop where
  records_eq : P'.records = kept ++ added
  kept_sub : kept.Sublist P.records
  added_sub : added.Sublist log
  byteRange : ∀ r ∈ log, isByteRange r = true
  fresh : ∀ r ∈ log, r ∉ kept

structure DataEffect (bc : BCrypt) (args : StageArgs) (P P' : Preserve)
    (kept added : List PreserveRecord) : Prop where
  key_eq : P'.storeKey = P.storeKey
  spans : ∀ r ∈ kept, isByteRange r = true → SpanKept P P' r
  stored : ∀ r ∈ added, Stored bc args P' r

theorem TableEffect.trans {log log' kept added kept' added' : List PreserveRecord}
    (h : TableEffect P Q log kept added) (h' : TableEffect Q P' log' kept' added') :
    ∃ old new, old.Sublist kept ∧ new.Sublist added ∧ kept' = old ++ new ∧
      TableEffect P P' (log ++ log') old (new ++ added') := by
  have hsub := h'.kept_sub
  rw [h.records_eq] at hsub
  obtain ⟨old, new, rfl, hold, hnew⟩ := sublist_append_iff.mp hsub
  refine ⟨old, new, hold, hnew, rfl, ⟨?_, hold.trans h.kept_sub, ?_, ?_, ?_⟩⟩
  · rw [h'.records_eq, append_assoc]
  · exact (hnew.trans h.added_sub).append h'.added_sub
  · intro r hr
    rcases mem_append.mp hr with hr | hr
    · exact h.byteRange r hr
    · exact h'.byteRange r hr
  · intro r hr hmem
    rcases mem_append.mp hr with hr | hr
    · exact h.fresh r hr (hold.subset hmem)
    · exact h'.fresh r hr (mem_append_left _ hmem)

theorem DataEffect.trans {log kept added old new added' : List PreserveRecord}
    (htable : TableEffect P Q log kept added) (h : DataEffect bc args P Q kept added)
    (h' : DataEffect bc args Q P' (old ++ new) added') (hold : old.Sublist kept)
    (hnew : new.Sublist added) :
    DataEffect bc args P P' old (new ++ added') := by
  refine ⟨h'.key_eq.trans h.key_eq, ?_, ?_⟩
  · intro r hr hbyte
    exact (h.spans r (hold.subset hr) hbyte).trans (h'.spans r (mem_append_left _ hr) hbyte)
  · intro r hr
    rcases mem_append.mp hr with hr | hr
    · have hadded := hnew.subset hr
      exact (h.stored r hadded).of_spanKept h'.key_eq (h'.spans r (mem_append_right _ hr)
        (htable.byteRange r (htable.added_sub.subset hadded)))
    · exact h'.stored r hr

structure TurnSafe (bc : BCrypt) (turn : TurnEnv) (P : Preserve) : Prop where
  lawful : bc.Lawful
  inv : ExtentInv P
  mark : turn.rebuildPool = false → MarkOk P

theorem RoomMade.sublist (h : RoomMade mode P room) : room.records.Sublist P.records := by
  rcases h with rfl | ⟨-, records, hsub, rfl⟩
  · exact .refl _
  · exact hsub

theorem RoomMade.data_eq (h : RoomMade mode P room) :
    room.data = P.data ∧ room.storeKey = P.storeKey := by
  rcases h with rfl | ⟨-, records, -, rfl⟩
  · exact ⟨rfl, rfl⟩
  · exact ⟨rfl, rfl⟩

theorem write_spanKept {len : UInt64} (hsafe : TurnSafe bc turn P)
    (hroom : RoomMade turn.mode P room) (hlen : bytes.length ≤ len.toNat) (hr : r ∈ room.records)
    (hbyte : isByteRange r = true) (hlo : r.payloadOffset.toNat ≤ b)
    (hhi : b < r.payloadOffset.toNat + r.payloadLength.toNat) :
    writeData room.data (sarPresAlloc room len turn.rebuildPool).1.toNat bytes b = P.data b := by
  have hinv := hsafe.inv.room hroom
  have hcount := hinv.count_le
  have hcap := hinv.capacity
  have hmem : extSpan (recExt r) ∈ liveSpans room.records :=
    mem_map_of_mem (mem_filter.mpr ⟨hr, hbyte⟩)
  have hapart := sarPresAlloc_apart len hinv.table (by omega)
    hinv.packed (fun hpool => (hsafe.mark hpool).room hroom) _ hmem
  rw [writeData_of_apart hlen hapart hlo hhi, hroom.data_eq.1]

theorem stageTurn_stop_effect {result : StageResult}
    (h : stageTurn bc args env turn P gOff gLen = (P', some result)) :
    ∃ kept, TableEffect P P' [] kept [] ∧
      (TurnSafe bc turn P → DataEffect bc args P P' kept []) := by
  obtain ⟨room, hroom, hcases⟩ := stageTurn_cases h
  have htable : ∀ Q : Preserve, Q.records = room.records → TableEffect P Q [] room.records [] := by
    intro Q hQ
    exact ⟨by rw [hQ, append_nil], hroom.sublist, .refl _,
      forall_mem_nil _, forall_mem_nil _⟩
  rcases hcases with ⟨-, rfl, -⟩ | ⟨iv, -, -, -, ⟨-, rfl⟩ | ⟨hres, -⟩⟩
  · refine ⟨_, htable _ rfl, fun _ => ⟨hroom.data_eq.2, ?_, forall_mem_nil _⟩⟩
    intro r _ _ b _ _
    rw [hroom.data_eq.1]
  · refine ⟨room.records, htable _ sarPresAlloc_records, ?_⟩
    intro hsafe
    refine ⟨?_, ?_, forall_mem_nil _⟩
    · exact sarPresAlloc_storeKey.trans hroom.data_eq.2
    · intro r hr hbyte b hlo hhi
      unfold tornStore
      rw [sarPresAlloc_data]
      split
      · refine write_spanKept hsafe hroom ?_ hr hbyte hlo hhi
        rw [length_take]
        exact le_trans (min_le_left _ _) (mod_le _ _)
      · rw [hroom.data_eq.1]
  · cases hres

theorem sarPreserveCovered_of_mem (h : Origin args r) (hr : r ∈ records) :
    sarPreserveCovered records r.provenancePath r.provenanceOffset r.provenanceLength = true := by
  have hpos := h.pos
  have hlt : r.provenanceOffset < r.provenanceOffset + r.provenanceLength := by
    rw [UInt64.lt_iff_toNat_lt, h.end_eq]
    omega
  unfold sarPreserveCovered sarPresOverlap
  rw [any_eq_true]
  exact ⟨r, hr, by simp [hlt]⟩

/-- **The effect of a completed turn.** -/
theorem stageTurn_effect (hlen : args.plaintext.length = args.length.toNat)
    (hcursor : args.offset.toNat ≤ cursor.toNat) (hgap : TurnGap args P cursor gOff gLen)
    (h : stageTurn bc args env turn P gOff gLen = (P', none)) :
    ∃ kept, TableEffect P P' (turnAppends args env turn P gOff gLen) kept
        (turnAppends args env turn P gOff gLen) ∧
      (TurnSafe bc turn P →
        DataEffect bc args P P' kept (turnAppends args env turn P gOff gLen)) := by
  have horigin := turnAppends_origin env turn hlen hcursor hgap
  obtain ⟨room, iv, hroom, hrecords, hkey, hdata, happ⟩ := stageTurn_appends h
  have hnew : ∀ r ∈ turnAppends args env turn P gOff gLen, r = stageRecord args env iv
        (sarPresAlloc room (sarPresRound16 gLen) turn.rebuildPool).1 gOff gLen ∧
      sarPreserveCovered room.records r.provenancePath r.provenanceOffset r.provenanceLength =
        false := by
    intro r hr
    rcases happ with happ | ⟨happ, hcov⟩
    · rw [happ] at hr
      exact absurd hr not_mem_nil
    · rw [happ] at hr
      rw [mem_singleton.mp hr]
      exact ⟨rfl, hcov⟩
  have hlt : gLen.toNat < 2 ^ 32 := by
    have hle := hgap.length_le hcursor
    have hbound := args.plaintext_lt
    omega
  refine ⟨room.records, ⟨hrecords, hroom.sublist, .refl _, ?_, ?_⟩, ?_⟩
  · intro r hr
    exact (horigin r hr).isByteRange
  · intro r hr hmem
    have hcov := sarPreserveCovered_of_mem (horigin r hr) hmem
    rw [(hnew r hr).2] at hcov
    cases hcov
  · intro hsafe
    have hcipher := length_cipher hsafe.lawful args gOff hgap.spec.pos hlt room.storeKey iv.toList
    refine ⟨hkey.trans hroom.data_eq.2, ?_, ?_⟩
    · intro r hr hbyte b hlo hhi
      rw [hdata]
      refine write_spanKept hsafe hroom ?_ hr hbyte hlo hhi
      rw [hcipher]
      exact mod_le _ _
    · intro r hr
      obtain ⟨rfl, -⟩ := hnew r hr
      unfold Stored
      rw [stageRecord_iv, hkey, hdata]
      have hread := readData_writeData room.data
        (sarPresAlloc room (sarPresRound16 gLen) turn.rebuildPool).1.toNat
        (bc.encrypt room.storeKey iv.toList
          ((stagePadded args gOff gLen).take ((sarPresRound16 gLen).toNat % 2 ^ 32)))
      rw [hcipher] at hread
      exact hread

theorem effect_refl (bc : BCrypt) (args : StageArgs) (P : Preserve) (safe : Prop) :
    TableEffect P P [] P.records [] ∧ (safe → DataEffect bc args P P P.records []) := by
  refine ⟨⟨(append_nil _).symm, .refl _, .refl _, ?_, ?_⟩, ?_⟩
  · exact forall_mem_nil _
  · exact forall_mem_nil _
  · exact fun _ => ⟨rfl, fun r _ _ b _ _ => rfl, forall_mem_nil _⟩

/-- **The effect of the loop.** -/
theorem stageLoop_effect (hlen : args.plaintext.length = args.length.toNat)
    (hcursor : args.offset.toNat ≤ cursor.toNat) :
    ∃ kept added,
      TableEffect P (stageLoop bc args env n P cursor staged).1 (stageLog bc args env n P cursor)
        kept added ∧
      (TurnSafe bc (env.turn n) P →
        DataEffect bc args P (stageLoop bc args env n P cursor staged).1 kept added) := by
  fun_induction stageLoop bc args env n P cursor staged with
  | case1 n P cursor staged last hlt hgap =>
    rw [stageLog, stageTurns_of_no_gap hgap]
    exact ⟨P.records, [], effect_refl bc args P _⟩
  | case2 n P cursor staged last hlt gOff gLen hgap hprogress P' result hturn =>
    rw [stageLog, stageTurns_of_gap hlt hgap, hturn]
    obtain ⟨kept, heffect⟩ := stageTurn_stop_effect hturn
    exact ⟨kept, [], heffect⟩
  | case3 n P cursor staged last hlt gOff gLen hgap hprogress P' hturn ih =>
    rw [stageLog, stageTurns_of_gap hlt hgap, hturn]
    have hgap' : TurnGap args P cursor gOff gLen := hgap
    obtain ⟨kept, htable, hdata⟩ := stageTurn_effect hlen hcursor hgap' hturn
    obtain ⟨kept', added', htable', hdata'⟩ := ih (by omega)
    obtain ⟨old, new, hold, hnew, rfl, heffect⟩ := htable.trans htable'
    refine ⟨old, new ++ added', heffect, ?_⟩
    intro hsafe
    have hlt : gLen.toNat < 2 ^ 32 := by
      have hle := hgap'.length_le hcursor
      have hbound := args.plaintext_lt
      omega
    obtain ⟨hinv', hpacked⟩ :=
      stageTurn_extentInv hgap'.spec.pos hlt hsafe.inv hsafe.mark hturn
    have hsafe' : TurnSafe bc (env.turn (n + 1)) P' :=
      ⟨hsafe.lawful, hinv', fun _ => (hpacked rfl).markOk⟩
    exact (hdata hsafe).trans htable (hdata' hsafe') hold hnew
  | case4 n P cursor staged last hge =>
    rw [stageLog, stageTurns_of_no_gap (firstGap_of_not_lt hge)]
    exact ⟨P.records, [], effect_refl bc args P _⟩

def stageCallLog (bc : BCrypt) (args : StageArgs) (env : StageEnv) (P : Preserve) :
    List PreserveRecord :=
  if P.ready = false then []
  else if args.plaintext.length = 0 ∨ args.length = 0 then []
  else if args.plaintext.length ≠ args.length.toNat then []
  else stageLog bc args env 0 (evictAged P env.now) args.offset

theorem stageCallLog_origin : ∀ r ∈ stageCallLog bc args env P, Origin args r := by
  unfold stageCallLog
  split
  · exact forall_mem_nil _
  split
  · exact forall_mem_nil _
  split
  · exact forall_mem_nil _
  next hlen =>
    exact stageLog_origin (not_not.mp hlen) (le_refl _)

/-- **The effect of a stage call.** -/
theorem sarPreserveStage_effect : ∃ kept added,
      TableEffect P (sarPreserveStage bc args env P).1 (stageCallLog bc args env P) kept added ∧
      (bc.Lawful → ExtentInv P → RebuildSafe env P →
        DataEffect bc args P (sarPreserveStage bc args env P).1 kept added) := by
  have hnone : ∃ kept added, TableEffect P P [] kept added ∧
      (bc.Lawful → ExtentInv P → RebuildSafe env P → DataEffect bc args P P kept added) := by
    have hrefl := effect_refl bc args P True
    exact ⟨P.records, [], hrefl.1, fun _ _ _ => hrefl.2 trivial⟩
  unfold sarPreserveStage stageCallLog
  split
  · exact hnone
  split
  · exact hnone
  split
  · exact hnone
  rename_i hlen
  obtain ⟨kept, added, htable, hdata⟩ := stageLoop_effect
    (not_not.mp hlen) (le_refl _)
  refine ⟨kept, added, ?_, ?_⟩
  · exact ⟨htable.records_eq, htable.kept_sub.trans filter_sublist, htable.added_sub,
      htable.byteRange, htable.fresh⟩
  · intro hlaw hinv hsafe
    have hturn : TurnSafe bc (env.turn 0) (evictAged P env.now) :=
      ⟨hlaw, hinv.evictAged env.now, hinv.markOk_evictAged hsafe⟩
    exact ⟨(hdata hturn).key_eq, (hdata hturn).spans, (hdata hturn).stored⟩

theorem mem_of_namespace_stage (hr : r ∈ (sarPreserveStage bc args env P).1.records)
    (hkind : r.kind = SAR_PRESERVE_KIND_NAMESPACE) : r ∈ P.records := by
  obtain ⟨kept, added, heffect, -⟩ := sarPreserveStage_effect
  rw [heffect.records_eq] at hr
  rcases mem_append.mp hr with hr | hr
  · exact heffect.kept_sub.mem hr
  · have hbyte := heffect.byteRange r (heffect.added_sub.mem hr)
    rw [isByteRange, hkind] at hbyte
    cases hbyte

end

/-! ### Runs -/

def InExtent (r : PreserveRecord) (b : Nat) : Prop :=
  r.payloadOffset.toNat ≤ b ∧ b < r.payloadOffset.toNat + (sarPresRound16 r.payloadLength).toNat

def ExtentsDisjoint (P : Preserve) : Prop :=
  P.records.Pairwise fun r s => isByteRange r = true → isByteRange s = true →
    ∀ b, InExtent r b → ¬ InExtent s b

def OriginalsKept (P P' : Preserve) : Prop :=
  ∃ kept added, P'.records = kept ++ added ∧ kept.Sublist P.records ∧
    ∀ r ∈ kept, isByteRange r = true → ∀ b, InExtent r b → P'.data b = P.data b

def ExtentSafe (P : Preserve) : StoreOp → Prop
  | .load env => ∀ buf, env.indexFile = some buf → ValidIndex buf
  | .stage _ env => RebuildSafe env P
  | _ => True

theorem RecordOk.inExtent_iff (h : RecordOk r) : InExtent r b ↔
      r.payloadOffset.toNat ≤ b ∧ b < r.payloadOffset.toNat + r.payloadLength.toNat := by
  have hwrap := h.no_wrap
  have hblocks := h.blocks
  have hround : (sarPresRound16 r.payloadLength).toNat = r.payloadLength.toNat := by
    rw [toNat_sarPresRound16 (by omega)]
    omega
  rw [InExtent, hround]

theorem TableOk.pairwise_inExtent (h : TableOk records) :
    records.Pairwise fun r s => isByteRange r = true → isByteRange s = true →
      ∀ b, InExtent r b → ¬ InExtent s b := by
  have hapart := h.apart
  unfold liveSpans at hapart
  rw [pairwise_map, pairwise_filter] at hapart
  refine hapart.imp_of_mem ?_
  intro r s hr hs hrs hbyteR hbyteS b hinR hinS
  rw [(h.records_ok r hr).inExtent_iff] at hinR
  rw [(h.records_ok s hs).inExtent_iff] at hinS
  exact (hrs hbyteR hbyteS).not_mem_both hinR hinS

theorem extentInv_create : ExtentInv sarPreserveCreate :=
  ⟨by decide, by decide, ⟨fun r hr => absurd hr not_mem_nil, List.Pairwise.nil⟩,
    fun _ => Packed.of_live List.Pairwise.nil fun p hp => absurd hp not_mem_nil⟩

theorem ExtentInv.apply {bc : BCrypt} {op : StoreOp} (hop : ExtentSafe P op) (h : ExtentInv P) :
    ExtentInv (op.apply bc P) := by
  by_cases hbudgets : op.Budgets
  · obtain ⟨_, _, _, heq⟩ := hbudgets.apply_eq bc P
    rw [heq]
    exact h.frame rfl rfl rfl rfl rfl
  cases op with
  | reserve _ | release _ | setBudget _ _ | restore _ _ _ _ _ => exact absurd trivial hbudgets
  | load env => exact h.load hop
  | stage args env => exact sarPreserveStage_extentInv h hop
  | stageLink path fileSize actorId linkId now causingPath =>
    exact h.stageLink
  | promote actorId =>
    show ExtentInv (sarPreservePromoteActor actorId P)
    unfold sarPreservePromoteActor
    split
    · exact h
    · exact h.shrink (.refl _) keepsPayload_promoteRecord rfl rfl rfl rfl id
  | reconcile path keyOffset keyLength => exact h.reconcileRange
  | maintain now => exact h.maintain
  | rename oldPath newPath =>
    show ExtentInv (sarPreserveRename oldPath newPath P)
    unfold sarPreserveRename
    split
    · exact h
    · exact h.shrink (.refl _) keepsPayload_renameRecord rfl rfl rfl
        rfl id

/-- **Live payload extents never collide** in a run in which every loaded index is valid and no
    rebuild is refused while the mark lies below the end of a live extent; and a further such call
    leaves every original that stays its stored bytes. -/
theorem live_extents_disjoint (bc : BCrypt) (ops : List StoreOp)
    (hops : EachCall bc ExtentSafe sarPreserveCreate ops) :
    let P := runStore bc sarPreserveCreate ops
    ExtentsDisjoint P ∧ (bc.Lawful → ∀ args env, RebuildSafe env P →
      OriginalsKept P (sarPreserveStage bc args env P).1) := by
  have hinv : ExtentInv (runStore bc sarPreserveCreate ops) :=
    runStore_rule (fun P op hop h => h.apply hop) extentInv_create hops
  refine ⟨hinv.table.pairwise_inExtent, ?_⟩
  intro hlaw args env hsafe
  obtain ⟨kept, added, htable, hdata⟩ := sarPreserveStage_effect
  refine ⟨kept, added, htable.records_eq, htable.kept_sub, ?_⟩
  intro r hr hbyte b hin
  rw [(hinv.table.records_ok r (htable.kept_sub.subset hr)).inExtent_iff] at hin
  exact (hdata hlaw hinv hsafe).spans r hr hbyte b hin.1 hin.2

/-! ### A rebuild refused after a load -/

theorem loadIndex_of_verify {buf : List UInt8} {count : UInt64} (hlen : HEADER_SIZE ≤ buf.length)
    (hverify : sarPreserveVerify buf P.macKey (if P.anchor.present then some P.anchor else none) =
      .ok (.ok count)) :
    loadIndex (some buf) P =
      { P with
        records := loadedRecords buf count P.recordCapacity
        generation := (headerOf buf).generation
        anchor := ⟨true, (headerOf buf).generation, (headerOf buf).headMac⟩
        freeDirty := true
        nextLinkId :=
          (loadedRecords buf count P.recordCapacity).foldl nextLinkStep P.nextLinkId } := by
  unfold loadIndex
  dsimp only
  rw [if_neg (not_lt.mpr hlen), hverify]

/-- The store after a load with fresh keys: the table of the index, a stale free
    list and the mark at zero. -/
def loadedStore (storeKey macKey : Mac) (records : List PreserveRecord) (generation : UInt64) :
    Preserve :=
  let hdr := headerOf (indexBytes macKey records generation)
  { sarPreserveCreate with
    records := records
    freeDirty := true
    dataOpen := true
    storeKey := storeKey
    macKey := macKey
    haveKey := true
    generation := hdr.generation
    anchor := ⟨true, hdr.generation, hdr.headMac⟩
    nextLinkId := records.foldl nextLinkStep 1
    ready := true }

theorem indexFits_of_le (h : n ≤ SAR_PRESERVE_RECORD_CAPACITY.toNat) :
    HEADER_SIZE + n * PRESERVE_DISK_RECORD_SIZE < 2 ^ 64 := by
  have h : n ≤ 65536 := h
  simp only [HEADER_SIZE, PRESERVE_DISK_RECORD_SIZE]
  omega

/-- **A genuine index is taken in** if the anchor accepts it: the table is the one that was
    serialized. -/
theorem loadIndex_indexBytes {generation : UInt64}
    (hcapacity : P.recordCapacity = SAR_PRESERVE_RECORD_CAPACITY)
    (hcap : records.length ≤ SAR_PRESERVE_RECORD_CAPACITY.toNat)
    (hanchor : presAnchorAccepts (if P.anchor.present then some P.anchor else none)
      (headerOf (indexBytes P.macKey records generation)) = true) :
    loadIndex (some (indexBytes P.macKey records generation)) P =
      { P with
        records := records
        generation := generation
        anchor := ⟨true, generation, (headerOf (indexBytes P.macKey records generation)).headMac⟩
        freeDirty := true
        nextLinkId := records.foldl nextLinkStep P.nextLinkId } := by
  have hcap' : records.length ≤ 65536 := hcap
  have hfits := indexFits_of_le hcap
  have hlen : HEADER_SIZE ≤ (indexBytes P.macKey records generation).length := by
    rw [length_indexBytes]
    exact le_add_right _ _
  have hverify : sarPreserveVerify (indexBytes P.macKey records generation) P.macKey
      (if P.anchor.present then some P.anchor else none) =
        .ok (.ok (UInt64.ofNat records.length)) :=
    sarPreserveVerify_ok_iff.mpr ⟨records, generation, rfl, hfits, rfl, hanchor⟩
  have hloaded : loadedRecords (indexBytes P.macKey records generation)
      (UInt64.ofNat records.length) P.recordCapacity = records := by
    have hcount : ¬ UInt64.ofNat records.length > P.recordCapacity := by
      rw [hcapacity, gt_iff_lt, UInt64.lt_iff_toNat_lt, UInt64.toNat_ofNat',
        mod_eq_of_lt (by omega)]
      exact not_lt.mpr hcap
    unfold loadedRecords
    rw [if_neg hcount, readIndexRecords_indexBytes P.macKey generation hfits]
  have hgen : (headerOf (indexBytes P.macKey records generation)).generation = generation := by
    rw [headerOf_indexBytes, fileHeader]
  rw [loadIndex_of_verify hlen hverify, hloaded, hgen]

theorem sarPreserveLoad_index (storeKey macKey : Mac)
    (hcap : records.length ≤ SAR_PRESERVE_RECORD_CAPACITY.toNat) :
    sarPreserveLoad
        ⟨none, some storeKey, some macKey, true, some (indexBytes macKey records generation)⟩
        sarPreserveCreate = loadedStore storeKey macKey records generation := by
  have hload := loadIndex_indexBytes (P := { sarPreserveCreate with
    storeKey := storeKey, macKey := macKey, haveKey := true, dataOpen := true })
    rfl hcap (show presAnchorAccepts none (headerOf (indexBytes macKey records generation)) = true
      from rfl)
  have hgen : (headerOf (indexBytes macKey records generation)).generation = generation := by
    rw [headerOf_indexBytes, fileHeader]
  show ({ loadIndex (some (indexBytes macKey records generation)) { sarPreserveCreate with
    storeKey := storeKey, macKey := macKey, haveKey := true, dataOpen := true } with
    ready := true } : Preserve) = _
  rw [hload, loadedStore, hgen]
  rfl

def deniedEnv (now : UInt64) : StageEnv :=
  ⟨now, Vector.replicate _ 0, fun _ => { grantedTurn with rebuildPool := false }⟩

/-- The record of 16 bytes of the file `a`, stored at the start of the payload file. -/
def heldRecord : PreserveRecord :=
  stageRecord (stageZeros (pathOf [97] fileA_fits) 0 16) (grantedEnv 1) (Vector.replicate _ 0) 0 0
    16

def reloadEnv : LoadEnv where
  keyFile := none
  freshStoreKey := some (Vector.replicate _ 0)
  freshMacKey := some (Vector.replicate _ 0)
  dataOpens := true
  indexFile := some (indexBytes (Vector.replicate _ 0) [heldRecord] 1)

theorem validIndex_reloadEnv : ∀ buf, reloadEnv.indexFile = some buf → ValidIndex buf := by
  intro buf hbuf
  refine ⟨_, _, _, (Option.some.inj hbuf).symm, ?_, pairwise_singleton _ _⟩
  intro r hr
  rw [mem_singleton.mp hr]
  exact ⟨fun _ => by decide, by decide, fun h => (by cases h), by decide⟩

/-- After a load, a stage call whose rebuild is refused writes over the only
    original there is. -/
theorem loaded_extent_overwritten : (∀ buf, reloadEnv.indexFile = some buf → ValidIndex buf) ∧
      ¬ ExtentsDisjoint (runStore identityCrypt sarPreserveCreate
        [.load reloadEnv, .stage (stageZeros (pathOf [98] (by decide)) 0 16) (deniedEnv 2)]) := by
  refine ⟨validIndex_reloadEnv, ?_⟩
  have hload : sarPreserveLoad reloadEnv sarPreserveCreate =
      loadedStore (Vector.replicate _ 0) (Vector.replicate _ 0) [heldRecord] 1 :=
    sarPreserveLoad_index _ _ (by decide)
  rw [runStore_cons, runStore_cons, runStore_nil, StoreOp.apply, StoreOp.apply, hload]
  have hexts : ((sarPreserveStage identityCrypt (stageZeros (pathOf [98] (by decide)) 0 16)
      (deniedEnv 2) (loadedStore (Vector.replicate _ 0) (Vector.replicate _ 0) [heldRecord]
        1)).1.records.map fun r => (isByteRange r, r.payloadOffset, r.payloadLength)) =
      [(true, 0, 16), (true, 0, 16)] := by decide +kernel
  intro hdisjoint
  obtain ⟨r, records, hrecords, hr, hrest⟩ := List.map_eq_cons_iff.mp hexts
  obtain ⟨s, records, rfl, hs, -⟩ := List.map_eq_cons_iff.mp hrest
  simp only [Prod.mk.injEq] at hr hs
  unfold ExtentsDisjoint at hdisjoint
  rw [hrecords] at hdisjoint
  have hapart := (List.pairwise_cons.mp hdisjoint).1 s List.mem_cons_self hr.1 hs.1
  have hround : (sarPresRound16 16).toNat = 16 := by decide
  refine hapart 0 ⟨?_, ?_⟩ ⟨?_, ?_⟩
  · rw [hr.2.1]
    exact le_refl 0
  · rw [hr.2.1, hr.2.2, hround]
    decide
  · rw [hs.2.1]
    exact le_refl 0
  · rw [hs.2.1, hs.2.2, hround]
    decide

/-- With the rebuild granted the second original gets its own extent. -/
theorem loaded_extents_disjoint : ExtentsDisjoint (runStore identityCrypt sarPreserveCreate
      [.load reloadEnv, .stage (stageZeros (pathOf [98] (by decide)) 0 16) (grantedEnv 2)]) := by
  refine (live_extents_disjoint identityCrypt [.load reloadEnv,
    .stage (stageZeros (pathOf [98] (by decide)) 0 16) (grantedEnv 2)]
    ⟨validIndex_reloadEnv, ?_, trivial⟩).1
  intro _ hpool
  cases hpool

end SemanticsAr
