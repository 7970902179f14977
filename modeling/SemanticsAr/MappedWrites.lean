import SemanticsAr.Battery
import SemanticsAr.Capture
import SemanticsAr.Extents

/-!
# Mapped writes

A write of the memory manager, or one that goes past the cache, to a file with a writable
mapping: `SarMmapCaptureInline` reads what the disk still holds for the range and hands it to
the worker in chunks (`SarMmapDeferPreserve`).  `mapped_write_captured_iff` says for which
writes every byte below `covered_len` is handed over.
-/

namespace SemanticsAr

open List Nat

variable {offset n cursor b : Nat} {buf : List UInt8} {mode : Mode} {length : UInt32} {P : Preserve}

def SAR_RAW_CHUNK : Nat := 256 * 1024

def SAR_MMAP_INFLIGHT_CAP : Nat := 128

/-- The mapping part of `SAR_STREAM_CONTEXT`. -/
structure MmapStream where
  map : Option SarExtentMap
  path : Option ProvPath
  cap : CapTable
  reserved : UInt64
  reserveTried : Bool

variable {S : MmapStream}

/-- The answers of the system to the capture of a mapped write, by chunk; `read` also by extent.
    `inflight` is the number of deferred stages under way, `stale` what the work item held before,
    `originator` the start key of the process under the actor's number. -/
structure MmapEnv where
  passive : Bool
  instanceContext : Bool
  diskTop : Bool
  buf : Nat → Bool
  read : Nat → Nat → Bool
  capPool : Nat → Bool
  inflight : Nat → Nat
  rundown : Nat → Bool
  workPool : Nat → Bool
  workItem : Nat → Bool
  queued : Nat → Bool
  stale : Nat → ProvPath
  originator : Option UInt64

/-- A `SAR_CAPTURE_WORK` with `preserve_only`. -/
structure DeferredStage where
  path : ProvPath
  offset : Nat
  bytes : List UInt8
  actor : UInt64
  backed : Bool

variable {d : DeferredStage}

/-- The request of `SarCaptureSubmitWrite` for the Oracle. -/
structure SeamWrite where
  path : ProvPath
  offset : UInt64
  length : UInt32
  preImage : List UInt8
  originator : UInt64

def sarMmapRangeCovered (cap : CapTable) (offset : UInt64) (length : UInt32) : Bool :=
  cap.ranges.any fun r =>
    decide (r.start ≤ offset.toNat ∧ (offset + length.toUInt64).toNat ≤ r.stop)

section

variable (env : MmapEnv)

/-- `SarMmapDeferPreserve`, for the `n`-th chunk: what is queued for the worker, if anything. -/
def sarMmapDeferPreserve (n : Nat) (path : ProvPath) (offset : Nat) (buf : List UInt8)
    (actor : UInt64) (backed : Bool) : Option DeferredStage :=
  if SAR_MMAP_INFLIGHT_CAP < env.inflight n + 1 then none
  else if env.rundown n = false then none
  else if env.workPool n = false then none
  else if env.workItem n = false then none
  else if env.queued n = false then none
  else some ⟨workPath (env.stale n) path, offset, buf, actor, backed⟩

structure InlineState where
  cap : CapTable
  deferred : List DeferredStage
  preHead : List UInt8
  anyStored : Bool

def InlineState.take (s : InlineState) (n : Nat) (path : ProvPath) (cursor step : Nat)
    (buf : List UInt8) (actor : UInt64) (backed oracleEligible : Bool) : InlineState where
  cap := (sarCapRangeInsert s.cap ⟨cursor, cursor + step, le_add_right _ _⟩
    (env.capPool n)).getD s.cap
  deferred := s.deferred ++ (sarMmapDeferPreserve env n path cursor buf actor backed).toList
  preHead :=
    if oracleEligible && decide (s.preHead.length < SAR_CANDIDATE_SIZE) then
      s.preHead ++ buf.take (SAR_CAPTURE_BUFFER_BYTES.toNat - s.preHead.length)
    else s.preHead
  anyStored := true

variable (disk : Nat → UInt8) (map : SarExtentMap) (path : ProvPath) (actor : UInt64)
  (backed oracleEligible : Bool)

/-- The loop of `SarMmapCaptureInline`, in front of its `n`-th chunk. -/
def inlineLoop (logEnd cursor n : Nat) (s : InlineState) : InlineState :=
  if cursor < logEnd then
    if env.buf n = false then s
    else
      let step := min (logEnd - cursor) SAR_RAW_CHUNK
      match sarMmapReadRange disk map (env.read n) cursor step with
      | none => s
      | some buf =>
        inlineLoop logEnd (cursor + SAR_RAW_CHUNK) (n + 1)
          (s.take env n path cursor step buf actor backed oracleEligible)
  else s
termination_by logEnd - cursor
decreasing_by
  have : 0 < SAR_RAW_CHUNK := by decide
  omega

end

variable {s : InlineState}

/-- What the capture of a mapped write leaves: the store, the stream, the stages handed to the
    worker, the write handed to the Oracle, and its result. -/
structure InlineCapture where
  store : Preserve
  stream : MmapStream
  deferred : List DeferredStage
  submitted : Option SeamWrite
  result : StageResult

/-- The reservation that `SarMmapCaptureInline` makes up for once. -/
def mmapReserve (mode : Mode) (map : SarExtentMap) (S : MmapStream) (P : Preserve) :
    MmapStream × Preserve :=
  if mode = .enforce ∧ S.reserved = 0 ∧ S.reserveTried = false then
    let est := map.coveredLen + map.coveredLen / 16
    let r := sarPreserveReserve est P
    ({ S with reserveTried := true, reserved := if r.2 then est else S.reserved }, r.1)
  else (S, P)

def inlineSubmit (env : MmapEnv) (path : ProvPath) (actor : UInt64) (offset : UInt64)
    (length : UInt32) (oracleEligible : Bool) (s : InlineState) : Option SeamWrite :=
  if oracleEligible && s.anyStored && decide (SAR_CANDIDATE_SIZE ≤ s.preHead.length) then
    match env.originator with
    | none => none
    | some key =>
      if actor ≠ 0 ∧ key ≠ actor then none else some ⟨path, offset, length, s.preHead, key⟩
  else none

def sarMmapCaptureInline (env : MmapEnv) (disk : Nat → UInt8) (mode : Mode) (actor offset : UInt64)
    (length : UInt32) (S : MmapStream) (P : Preserve) : InlineCapture :=
  if env.passive = false then ⟨P, S, [], none, .failed⟩
  else
    match S.map, S.path with
    | some map, some path =>
      -- the sum is one of 64 bits
      let logEnd := offset + length.toUInt64
      if map.coveredLen < logEnd then ⟨P, S, [], none, .stored⟩
      else if sarMmapRangeCovered S.cap offset length then ⟨P, S, [], none, .alreadyCovered⟩
      else if env.instanceContext = false ∨ env.diskTop = false then ⟨P, S, [], none, .failed⟩
      else
        let r := mmapReserve mode map S P
        let backed := decide (r.1.reserved ≠ 0)
        let oracleEligible :=
          (match sarFindExtent map offset.toNat with
            | none => false
            | some ex => ex.lcnByte.isSome) && decide (SAR_CANDIDATE_SIZE ≤ length.toNat)
        let s := inlineLoop env disk map path actor backed oracleEligible logEnd.toNat
          offset.toNat 0 ⟨S.cap, [], [], false⟩
        ⟨r.2, { r.1 with cap := s.cap }, s.deferred,
          inlineSubmit env path actor offset length oracleEligible s,
          if s.anyStored then .stored else .failed⟩
    | _, _ => ⟨P, S, [], none, .failed⟩

/-! ### What the loop hands over -/

structure MmapEnv.NoFailure (env : MmapEnv) : Prop where
  buf : ∀ n, env.buf n = true
  read : ∀ n k, env.read n k = true
  workPool : ∀ n, env.workPool n = true
  workItem : ∀ n, env.workItem n = true

/-- The `n`-th chunk is not turned away: fewer than 128 deferred stages are under way, the
    capture context is not being torn down, and the work item is queued. -/
structure MmapEnv.Admits (env : MmapEnv) (n : Nat) : Prop where
  inflight : env.inflight n < SAR_MMAP_INFLIGHT_CAP
  rundown : env.rundown n = true
  queued : env.queued n = true

/-- The `n`-th chunk is queued. -/
structure MmapEnv.Defers (env : MmapEnv) (n : Nat) : Prop extends env.Admits n where
  workPool : env.workPool n = true
  workItem : env.workItem n = true

section

variable {env : MmapEnv} {disk : Nat → UInt8} {map : SarExtentMap} {path : ProvPath}
  {actor : UInt64} {backed oracleEligible : Bool} {logEnd : Nat}

def chunkStage (env : MmapEnv) (disk : Nat → UInt8) (map : SarExtentMap) (path : ProvPath)
    (actor : UInt64) (backed : Bool) (logEnd n cursor : Nat) : DeferredStage :=
  ⟨workPath (env.stale n) path, cursor,
    readData (map.originalAt disk) cursor (min (logEnd - cursor) SAR_RAW_CHUNK), actor, backed⟩

theorem MmapEnv.NoFailure.defers_iff (hfail : env.NoFailure) : env.Defers n ↔ env.Admits n :=
  ⟨fun h => h.toAdmits, fun h => ⟨h, hfail.workPool n, hfail.workItem n⟩⟩

theorem deferPreserve_of_defers (h : env.Defers n) :
    sarMmapDeferPreserve env n path offset buf actor backed =
      some ⟨workPath (env.stale n) path, offset, buf, actor, backed⟩ := by
  have hcap := h.inflight
  unfold sarMmapDeferPreserve
  rw [if_neg (by omega), if_neg (by simp [h.rundown]), if_neg (by simp [h.workPool]),
    if_neg (by simp [h.workItem]), if_neg (by simp [h.queued])]

theorem deferPreserve_of_not_defers (h : ¬ env.Defers n) :
    sarMmapDeferPreserve env n path offset buf actor backed = none := by
  unfold sarMmapDeferPreserve
  split
  · rfl
  rename_i hcap
  split
  · rfl
  rename_i hrundown
  split
  · rfl
  rename_i hpool
  split
  · rfl
  rename_i hitem
  split
  · rfl
  rename_i hqueued
  simp only [Bool.not_eq_false] at hrundown hpool hitem hqueued
  exact absurd ⟨⟨by omega, hrundown, hqueued⟩, hpool, hitem⟩ h

theorem readChunk_original (hend : logEnd ≤ map.coveredLen.toNat)
    (hlt : cursor < logEnd) :
    sarMmapReadRange disk map (env.read n) cursor (min (logEnd - cursor) SAR_RAW_CHUNK) =
        some (readData (map.originalAt disk) cursor (min (logEnd - cursor) SAR_RAW_CHUNK)) ∨
      (∃ k, env.read n k = false) ∧
        sarMmapReadRange disk map (env.read n) cursor (min (logEnd - cursor) SAR_RAW_CHUNK) =
          none := by
  refine sarMmapReadRange_original (by omega) ?_
  exact (min_le_right _ _).trans (by decide)

theorem length_readChunk {buf : List UInt8} (hend : logEnd ≤ map.coveredLen.toNat)
    (hlt : cursor < logEnd)
    (hgot : sarMmapReadRange disk map (env.read n) cursor (min (logEnd - cursor) SAR_RAW_CHUNK) =
      some buf) : buf.length = min (logEnd - cursor) SAR_RAW_CHUNK := by
  rcases readChunk_original hend hlt with horiginal | ⟨-, hnone⟩
  · rw [Option.some.inj (hgot.symm.trans horiginal), readData, length_map, length_range]
  · cases hnone.symm.trans hgot

theorem mem_take_deferred {step : Nat} :
    d ∈ (s.take env n path cursor step buf actor backed oracleEligible).deferred ↔ d ∈ s.deferred ∨
        (env.Defers n ∧ d = ⟨workPath (env.stale n) path, cursor, buf, actor, backed⟩) := by
  unfold InlineState.take
  by_cases hdefers : env.Defers n
  · simp [deferPreserve_of_defers hdefers, hdefers]
  · simp [deferPreserve_of_not_defers hdefers, hdefers]

theorem mem_inlineLoop_deferred (hfail : env.NoFailure) (hend : logEnd ≤ map.coveredLen.toNat) :
    d ∈ (inlineLoop env disk map path actor backed oracleEligible logEnd cursor n s).deferred ↔
      d ∈ s.deferred ∨ ∃ i, cursor + i * SAR_RAW_CHUNK < logEnd ∧ env.Admits (n + i) ∧
        d = chunkStage env disk map path actor backed logEnd (n + i)
          (cursor + i * SAR_RAW_CHUNK) := by
  have hread : ∀ n cursor, cursor < logEnd →
      sarMmapReadRange disk map (env.read n) cursor (min (logEnd - cursor) SAR_RAW_CHUNK) =
        some (readData (map.originalAt disk) cursor (min (logEnd - cursor) SAR_RAW_CHUNK)) := by
    intro n cursor hlt
    refine (readChunk_original hend hlt).resolve_right ?_
    rintro ⟨⟨k, hrefused⟩, -⟩
    cases hrefused.symm.trans (hfail.read n k)
  fun_induction inlineLoop env disk map path actor backed oracleEligible logEnd cursor n s with
  | case1 cursor n s hlt hbuf => cases hbuf.symm.trans (hfail.buf n)
  | case2 cursor n s hlt hbuf step hfailed => cases hfailed.symm.trans (hread n cursor hlt)
  | case3 cursor n s hlt hbuf step buf hgot ih =>
    have hgot' := Option.some.inj (hgot.symm.trans (hread n cursor hlt))
    refine ih.trans ?_
    rw [mem_take_deferred, hfail.defers_iff, or_assoc]
    refine or_congr_right ⟨?_, ?_⟩
    · rintro (⟨hadm, rfl⟩ | ⟨i, hlt', hadm, rfl⟩)
      · exact ⟨0, by omega, hadm, by simp only [chunkStage, zero_mul, add_zero, hgot']⟩
      · refine ⟨i + 1, ?_, ?_, ?_⟩
        · rw [succ_mul]
          omega
        · rwa [add_comm i 1, ← add_assoc]
        · rw [add_comm i 1, ← add_assoc, add_mul, one_mul, ← add_assoc]
    · rintro ⟨i, hlt', hadm, rfl⟩
      cases i with
      | zero =>
        exact .inl ⟨hadm, by simp only [chunkStage, zero_mul, add_zero, hgot']⟩
      | succ i =>
        refine .inr ⟨i, ?_, ?_, ?_⟩
        · rw [succ_mul] at hlt'
          omega
        · rwa [add_comm i 1, ← add_assoc] at hadm
        · rw [add_comm i 1, ← add_assoc, add_mul, one_mul, ← add_assoc]
  | case4 cursor n s hge =>
    refine ⟨Or.inl, fun h => h.resolve_right ?_⟩
    rintro ⟨i, hlt, -⟩
    omega

theorem inlineLoop_deferred (hend : logEnd ≤ map.coveredLen.toNat) : (∀ d ∈ s.deferred,
      d ∈ (inlineLoop env disk map path actor backed oracleEligible logEnd cursor n s).deferred) ∧
    ((∀ d ∈ s.deferred, d.bytes.length ≤ SAR_RAW_CHUNK) →
      ∀ d ∈ (inlineLoop env disk map path actor backed oracleEligible logEnd cursor n s).deferred,
        d.bytes.length ≤ SAR_RAW_CHUNK) := by
  fun_induction inlineLoop env disk map path actor backed oracleEligible logEnd cursor n s with
  | case1 cursor n s hlt hbuf => exact ⟨fun _ hd => hd, id⟩
  | case2 cursor n s hlt hbuf step hfailed => exact ⟨fun _ hd => hd, id⟩
  | case3 cursor n s hlt hbuf step buf hgot ih =>
    refine ⟨fun d hd => ih.1 d (mem_take_deferred.mpr (.inl hd)), fun hshort => ih.2 ?_⟩
    intro d hd
    rcases mem_take_deferred.mp hd with hd | ⟨-, rfl⟩
    · exact hshort d hd
    · exact (length_readChunk hend hlt hgot).trans_le (min_le_right _ _)
  | case4 cursor n s hge => exact ⟨fun _ hd => hd, id⟩

theorem inlineLoop_cap (hend : logEnd ≤ map.coveredLen.toNat)
    (h : (inlineLoop env disk map path actor backed oracleEligible logEnd cursor n s).cap.Has b) :
    s.cap.Has b ∨ (cursor ≤ b ∧ b < logEnd ∧ (env.Defers (n + (b - cursor) / SAR_RAW_CHUNK) →
        ∃ d ∈ (inlineLoop env disk map path actor backed oracleEligible logEnd cursor n s).deferred,
          d.offset = cursor + (b - cursor) / SAR_RAW_CHUNK * SAR_RAW_CHUNK ∧
            b < d.offset + d.bytes.length)) := by
  have hchunk : 0 < SAR_RAW_CHUNK := by decide
  fun_induction inlineLoop env disk map path actor backed oracleEligible logEnd cursor n s with
  | case1 cursor n s hlt hbuf => exact .inl h
  | case2 cursor n s hlt hbuf step hfailed => exact .inl h
  | case3 cursor n s hlt hbuf step buf hgot ih =>
    rcases ih h with hcap | ⟨hlo, hhi, hdefer⟩
    · have hinsert : s.cap.Has b ∨ (cursor ≤ b ∧ b < cursor + step) := by
        exact (has_of_getD_insert hcap).symm
      refine hinsert.imp_right fun hin => ?_
      have hfirst : (b - cursor) / SAR_RAW_CHUNK = 0 := div_eq_of_lt (by omega)
      rw [hfirst, add_zero, zero_mul, add_zero]
      refine ⟨hin.1, by omega, fun hdefers => ?_⟩
      refine ⟨_, (inlineLoop_deferred hend).1 _
        (mem_take_deferred.mpr (.inr ⟨hdefers, rfl⟩)), rfl, ?_⟩
      rw [length_readChunk hend hlt hgot]
      exact hin.2
    · have hshift : (b - cursor) / SAR_RAW_CHUNK =
          (b - (cursor + SAR_RAW_CHUNK)) / SAR_RAW_CHUNK + 1 := by
        rw [← add_div_right _ hchunk]
        congr 1
        omega
      refine .inr ⟨by omega, hhi, fun hdefers => ?_⟩
      rw [hshift, ← add_assoc, add_right_comm] at hdefers
      obtain ⟨d, hd, hoffset, hlast⟩ := hdefer hdefers
      refine ⟨d, hd, ?_, hlast⟩
      rw [hoffset, hshift, add_mul, one_mul]
      omega
  | case4 cursor n s hge => exact .inl h

def WriteHas (offset : UInt64) (length : UInt32) (b : Nat) : Prop :=
  offset.toNat ≤ b ∧ b < offset.toNat + length.toNat

/-- A stage for the path has the byte that the disk holds at the position: that of its extent,
    or zero in a hole. -/
def HandedOver (map : SarExtentMap) (disk : Nat → UInt8) (path : ProvPath)
    (deferred : List DeferredStage) (b : Nat) : Prop :=
  ∃ d ∈ deferred, (∃ stale, d.path = workPath stale path) ∧ d.offset ≤ b ∧
    ∃ ex ∈ map.ext, ex.start ≤ b ∧ b < ex.stop ∧ d.bytes[b - d.offset]? = some (ex.byteAt disk b)

/-- **The condition.**  The write ends inside `covered_len`, is made at `PASSIVE_LEVEL` on a
    volume whose disk is known, and the chunk of the position is not turned away. -/
structure MappedMet (env : MmapEnv) (map : SarExtentMap) (offset : UInt64) (length : UInt32)
    (b : Nat) : Prop where
  passive : env.passive = true
  inside : offset.toNat + length.toNat ≤ map.coveredLen.toNat
  instanceContext : env.instanceContext = true
  diskTop : env.diskTop = true
  admits : env.Admits ((b - offset.toNat) / SAR_RAW_CHUNK)

theorem chunkStage_bytes (hlo : cursor ≤ b) (hhi : b < logEnd)
    (hnext : b < cursor + SAR_RAW_CHUNK) :
    (chunkStage env disk map path actor backed logEnd n cursor).bytes[b - cursor]? =
      some (map.originalAt disk b) := by
  have hlt : b - cursor < min (logEnd - cursor) SAR_RAW_CHUNK := by omega
  simp only [chunkStage, readData, List.getElem?_map, List.getElem?_range hlt, Option.map_some,
    Nat.add_sub_cancel' hlo]

theorem handedOver_inlineLoop_iff (hfail : env.NoFailure) (hend : logEnd ≤ map.coveredLen.toNat)
    {start : Nat} {cap : CapTable} (hlo : start ≤ b) (hhi : b < logEnd) :
    HandedOver map disk path (inlineLoop env disk map path actor backed oracleEligible logEnd start
        0 ⟨cap, [], [], false⟩).deferred b ↔ env.Admits ((b - start) / SAR_RAW_CHUNK) := by
  have hpos : 0 < SAR_RAW_CHUNK := by decide
  have hdiv := div_add_mod' (b - start) SAR_RAW_CHUNK
  have hmod := mod_lt (b - start) hpos
  constructor
  · rintro ⟨d, hd, -, hstart, ex, -, -, -, hbyte⟩
    obtain ⟨i, hlt, hadm, rfl⟩ :=
      ((mem_inlineLoop_deferred hfail hend).mp hd).resolve_left not_mem_nil
    rw [zero_add] at hadm
    have hin := (List.getElem?_eq_some_iff.mp hbyte).1
    simp only [chunkStage, readData, length_map, length_range] at hin hstart
    have hchunk : (b - start) / SAR_RAW_CHUNK = i := by
      rw [Nat.div_eq_iff hpos]
      omega
    rwa [hchunk]
  · intro hadm
    obtain ⟨ex, hfind⟩ := map.laidOut.tiles.exists_tileAt (zero_le b)
      (hhi.trans_le hend)
    obtain ⟨hex, hfrom, hto⟩ := Tiling.tileAt_spec hfind
    refine ⟨chunkStage env disk map path actor backed logEnd _ _,
      (mem_inlineLoop_deferred hfail hend).mpr (.inr ⟨(b - start) / SAR_RAW_CHUNK, by omega,
        by rwa [zero_add], rfl⟩), ⟨_, rfl⟩, ?_, ex, hex, hfrom, hto, ?_⟩
    · show start + (b - start) / SAR_RAW_CHUNK * SAR_RAW_CHUNK ≤ b
      omega
    · rw [← originalAt_of_mem hex hfrom hto]
      exact chunkStage_bytes (by omega) hhi (by omega)

end

theorem sarMmapCaptureInline_cases (env : MmapEnv) (disk : Nat → UInt8)
    (actor offset : UInt64) :
    let res := sarMmapCaptureInline env disk mode actor offset length S P
    (res.store = P ∧ res.stream = S ∧ res.deferred = []) ∨ ∃ map path backed oracleEligible,
        (offset + length.toUInt64).toNat ≤ map.coveredLen.toNat ∧
        res.store = (mmapReserve mode map S P).2 ∧
        let loop := inlineLoop env disk map path actor backed oracleEligible
          (offset + length.toUInt64).toNat offset.toNat 0 ⟨S.cap, [], [], false⟩
        res.stream.cap = loop.cap ∧ res.deferred = loop.deferred := by
  fun_cases sarMmapCaptureInline env disk mode actor offset length S P with
  | case5 _ map path hmap hpath logEnd hinside =>
    exact .inr ⟨map, path, _, _, UInt64.le_iff_toNat_le.mp (UInt64.not_lt.mp hinside), rfl, rfl,
      rfl⟩
  | _ => exact .inl ⟨rfl, rfl, rfl⟩

/-- **When a mapped write is captured up to the end of the allocation.**  Where no allocation and no
    disk read fails, every byte of the write below `covered_len` that was not captured before is
    handed over, exactly if every such byte meets the condition. -/
theorem mapped_write_captured_iff (env : MmapEnv) (disk : Nat → UInt8) (mode : Mode)
    (actor offset : UInt64) (length : UInt32) (S : MmapStream) (P : Preserve)
    (map : SarExtentMap) (path : ProvPath) (hmap : S.map = some map) (hpath : S.path = some path)
    (hfail : env.NoFailure) :
    (∀ b, WriteHas offset length b → b < map.coveredLen.toNat → ¬ S.cap.Has b →
      HandedOver map disk path
        (sarMmapCaptureInline env disk mode actor offset length S P).deferred b) ↔
      ∀ b, WriteHas offset length b → b < map.coveredLen.toNat → ¬ S.cap.Has b →
        MappedMet env map offset length b := by
  refine forall_congr' fun b => forall_congr' fun hb => forall_congr' fun hcovered =>
    forall_congr' fun hcap => ?_
  have hnone : ¬ HandedOver map disk path [] b := by
    rintro ⟨d, hd, -⟩
    exact absurd hd not_mem_nil
  have hlimit := map.laidOut.covered_lt
  have hlength := length.toNat_lt
  have hend : (offset + length.toUInt64).toNat = offset.toNat + length.toNat := by
    rw [UInt64.toNat_add, UInt32.toNat_toUInt64, mod_eq_of_lt]
    have hstart := hb.1
    omega
  unfold sarMmapCaptureInline
  rw [hmap, hpath]
  split
  next hirql =>
    exact iff_of_false hnone fun h => by cases hirql.symm.trans h.passive
  rename_i hpassive
  dsimp only
  split
  next hcross =>
    refine iff_of_false hnone fun h => ?_
    have hinside := h.inside
    rw [UInt64.lt_iff_toNat_lt, hend] at hcross
    omega
  rename_i hinside
  split
  next hskip =>
    obtain ⟨r, hr, hhas⟩ := any_eq_true.mp hskip
    rw [decide_eq_true_eq, hend] at hhas
    exact absurd ⟨r, hr, hhas.1.trans hb.1, hb.2.trans_le hhas.2⟩ hcap
  split
  next hdisk =>
    refine iff_of_false hnone fun h => ?_
    simp [h.instanceContext, h.diskTop] at hdisk
  rename_i hdisk
  simp only [not_or, Bool.not_eq_false] at hdisk
  rw [UInt64.lt_iff_toNat_lt, hend, not_lt] at hinside
  rw [hend, handedOver_inlineLoop_iff hfail hinside hb.1 hb.2]
  exact ⟨fun h => ⟨by simpa using hpassive, hinside, hdisk.1, hdisk.2, h⟩, fun h => h.admits⟩

/-! ### A write across the end of the map -/

def oneCluster : SarExtentMap where
  ext := [⟨0, 4096, some 8192⟩]
  sectorSize := 512
  coveredLen := 4096
  laidOut := by
    refine ⟨⟨rfl, by decide, rfl⟩, by decide, ?_, ?_, 9, by decide, rfl⟩
    · intro ex hex
      rw [mem_singleton.mp hex]
      rfl
    · intro ex hex lcn hlcn
      rw [mem_singleton.mp hex] at hlcn ⊢
      cases hlcn
      decide

/-- The stream of the file `a`, mapped when it had one cluster. -/
def armedStream : MmapStream :=
  ⟨some oneCluster, some (pathOf [97] fileA_fits), .empty, 0, true⟩

def grantedMmap : MmapEnv where
  passive := true
  instanceContext := true
  diskTop := true
  buf _ := true
  read _ _ := true
  capPool _ := true
  inflight _ := 0
  rundown _ := true
  workPool _ := true
  workItem _ := true
  queued _ := true
  stale _ := Vector.replicate _ 0
  originator := none

/-- A write of the whole cluster is captured. -/
theorem cluster_write_captured : oneCluster.coveredLen = 4096 ∧
      ∀ b, WriteHas 0 4096 b → b < oneCluster.coveredLen.toNat → ¬ armedStream.cap.Has b →
        HandedOver oneCluster (fun _ => 1) (pathOf [97] (by decide))
          (sarMmapCaptureInline grantedMmap (fun _ => 1) .enforce 7 0 4096 armedStream
            readyStore).deferred b := by
  refine ⟨rfl, (mapped_write_captured_iff grantedMmap (fun _ => 1) .enforce 7 0 4096 armedStream
    readyStore oneCluster (pathOf [97] (by decide)) rfl rfl ?_).mpr ?_⟩
  · exact ⟨fun _ => rfl, fun _ _ => rfl, fun _ => rfl, fun _ => rfl⟩
  · intro b _ _ _
    exact ⟨rfl, by decide, rfl, rfl, show 0 < SAR_MMAP_INFLIGHT_CAP by decide, rfl, rfl⟩

/-- The file has grown to two clusters since it was mapped, and both pages are written back at
    once: nothing of the first cluster is handed over, and the capture counts as made. -/
theorem crossing_write_lost :
    let res := sarMmapCaptureInline grantedMmap (fun _ => 1) .enforce 7 0 8192 armedStream
      readyStore
    WriteHas 0 8192 0 ∧ 0 < oneCluster.coveredLen.toNat ∧ ¬ armedStream.cap.Has 0 ∧
      grantedMmap.NoFailure ∧ res.result = .stored ∧
      ¬ HandedOver oneCluster (fun _ => 1) (pathOf [97] (by decide)) res.deferred 0 := by
  refine ⟨⟨le_refl _, by decide⟩, by decide, ?_, ?_, rfl, ?_⟩
  · rintro ⟨r, hr, -⟩
    exact absurd hr not_mem_nil
  · exact ⟨fun _ => rfl, fun _ _ => rfl, fun _ => rfl, fun _ => rfl⟩
  · rintro ⟨d, hd, -⟩
    exact absurd hd not_mem_nil

end SemanticsAr
