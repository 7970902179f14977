import SemanticsAr.PreserveStage
import SemanticsAr.SpanAlloc

/-!
# The extents of the payload file

Every byte-range record owns an extent of the payload file.  The allocator keeps
a list of free extents and a high-water mark, both rebuilt from the record table
when they are stale.  This module shows that they describe a packed file
(`Packed`) and that live extents stay disjoint over whole runs, as long as no
rebuild is refused its memory while the mark lies below the end of a live
extent.  Loading an index leaves exactly that situation behind: the mark is zero
and the list is stale.
-/

namespace SemanticsAr

open List Nat

variable {records' records : List PreserveRecord} {free a : List Extent}
  {len off prev gOff gLen now keyOffset keyLength fileSize actorId linkId capacity : UInt64}
  {e : Extent} {live : List Span} {r : PreserveRecord}
  {pool : Bool} {mode : Mode} {P P' : Preserve} {f : PreserveRecord → PreserveRecord}
  {path causingPath oldPath newPath : ProvPath} {cap : Nat}

/-! ### Rounding to blocks -/

theorem nat_and_not_15 {x : Nat} (h : x < 2 ^ 64) : x &&& (2 ^ 64 - 16) = x / 16 * 16 := by
  apply eq_of_testBit_eq
  intro i
  have hmask : (2 ^ 64 - 16 : Nat) = 2 ^ 4 * (2 ^ 60 - 1) := by decide
  have hmul : x / 16 * 16 = 2 ^ 4 * (x / 2 ^ 4) := by omega
  rw [testBit_and, hmask, hmul, testBit_two_pow_mul, testBit_two_pow_mul,
    testBit_two_pow_sub_one, testBit_div_two_pow]
  by_cases hi : 4 ≤ i
  · rw [Nat.sub_add_cancel hi]
    by_cases hi' : i < 64
    · simp [hi, show i - 4 < 60 by omega]
    · rw [testBit_lt_two_pow (Nat.lt_of_lt_of_le h (Nat.pow_le_pow_right (by decide) (by omega)))]
      simp
  · simp [hi]

theorem toNat_sarPresRound16 {v : UInt64} (h : v.toNat + 15 < 2 ^ 64) :
    (sarPresRound16 v).toNat = (v.toNat + 15) / 16 * 16 := by
  have hmask : (~~~(15 : UInt64)).toNat = 2 ^ 64 - 16 := by decide
  have hsum : (v + 15).toNat = v.toNat + 15 := by
    rw [UInt64.toNat_add]
    exact mod_eq_of_lt h
  rw [sarPresRound16, UInt64.toNat_and, hmask, hsum, nat_and_not_15 h]

/-! ### Extents as spans -/

def extSpan (e : Extent) : Span := (e.off.toNat, e.off.toNat + e.len.toNat)

def recExt (r : PreserveRecord) : Extent := ⟨r.payloadOffset, r.payloadLength⟩

def isByteRange (r : PreserveRecord) : Bool := r.kind != SAR_PRESERVE_KIND_NAMESPACE

def liveSpans (records : List PreserveRecord) : List Span :=
  (records.filter isByteRange).map fun r => extSpan (recExt r)

/-- What the store promises of one record: a byte-range record has whole blocks
    of payload, a namespace record none, and no extent wraps. -/
structure RecordOk (r : PreserveRecord) : Prop where
  pos : isByteRange r = true → 0 < r.payloadLength.toNat
  blocks : r.payloadLength.toNat % 16 = 0
  link : isByteRange r = false → r.payloadLength = 0
  no_wrap : r.payloadOffset.toNat + r.payloadLength.toNat < 2 ^ 64

structure TableOk (records : List PreserveRecord) : Prop where
  records_ok : ∀ r ∈ records, RecordOk r
  apart : (liveSpans records).Pairwise Apart

theorem liveSpans_sublist (h : records'.Sublist records) :
    (liveSpans records').Sublist (liveSpans records) :=
  (h.filter _).map _

theorem TableOk.sublist (h : TableOk records) (hsub : records'.Sublist records) :
    TableOk records' :=
  ⟨fun r hr => h.records_ok r (hsub.subset hr), h.apart.sublist (liveSpans_sublist hsub)⟩

/-! ### First fit -/

theorem swapRemove_perm {α : Type} (front back : List α) (x d : α) :
    (((front ++ x :: back).set front.length ((front ++ x :: back).getLastD d)).dropLast).Perm
      (front ++ back) := by
  rcases eq_nil_or_concat' back with rfl | ⟨rest, y, rfl⟩
  · simp
  · have hlast : (front ++ x :: (rest ++ [y])).getLastD d = y := by
      rw [← cons_append, ← append_assoc, getLastD_concat]
    have hset : (front ++ x :: (rest ++ [y])).set front.length y = front ++ y :: (rest ++ [y]) := by
      simp
    rw [hlast, hset, ← cons_append, ← append_assoc, dropLast_concat]
    refine List.Perm.append_left front ?_
    exact (perm_append_singleton y rest).symm

/-- **First fit**: an extent that is long enough is taken whole or loses its front. -/
theorem takeFirstFit_some {free' : List Extent} (h : takeFirstFit free len = some (off, free')) :
    ∃ e rest, free.Perm (e :: rest) ∧ e.off = off ∧ len.toNat ≤ e.len.toNat ∧
      ((e.len = len ∧ free'.Perm rest) ∨ free'.Perm (⟨e.off + len, e.len - len⟩ :: rest)) := by
  unfold takeFirstFit at h
  split at h
  · cases h
  rename_i i hidx
  obtain ⟨hi, hfit, -⟩ := List.findIdx?_eq_some_iff_getElem.mp hidx
  rw [List.getElem?_eq_getElem hi] at h
  obtain ⟨rfl, rfl⟩ := Prod.mk.inj (Option.some.inj h)
  have hsplit : free = free.take i ++ free[i] :: free.drop (i + 1) := by
    rw [getElem_cons_drop, take_append_drop]
  have hlen : (free.take i).length = i := by
    rw [length_take]
    omega
  generalize free[i] = e at *
  generalize free.take i = front at *
  generalize free.drop (i + 1) = back at *
  subst hsplit hlen
  refine ⟨e, front ++ back, perm_middle, rfl, ?_, ?_⟩
  · exact UInt64.le_iff_toNat_le.mp (of_decide_eq_true hfit)
  · have hset : (front ++ e :: back).set front.length ⟨e.off + len, e.len - len⟩ =
        front ++ ⟨e.off + len, e.len - len⟩ :: back := by simp
    rw [hset]
    split
    next hzero =>
      refine Or.inl ⟨?_, swapRemove_perm _ _ _ _⟩
      calc e.len = e.len - len + len := (UInt64.sub_add_cancel _ _).symm
        _ = len := by rw [show e.len - len = 0 from hzero, UInt64.zero_add]
    · exact .inr perm_middle

/-! ### Rebuilding the free list -/

theorem rebuildStep_fst : (rebuildStep cap (free, prev) e).1 = free ∨
      (prev < e.off ∧ (rebuildStep cap (free, prev) e).1 = free ++ [⟨prev, e.off - prev⟩]) := by
  unfold rebuildStep
  split
  next h =>
    exact .inr ⟨h.1, rfl⟩
  · exact .inl rfl

theorem toNat_rebuildStep_snd
    (hwrap : e.off.toNat + e.len.toNat < 2 ^ 64) :
    (rebuildStep cap (free, prev) e).2.toNat = max prev.toNat (extSpan e).2 := by
  have hend : (e.off + e.len).toNat = e.off.toNat + e.len.toNat := by
    rw [UInt64.toNat_add, mod_eq_of_lt hwrap]
  unfold rebuildStep extSpan
  dsimp only
  split
  next h =>
    rw [gt_iff_lt, UInt64.lt_iff_toNat_lt, hend] at h
    rw [hend, max_eq_right (le_of_lt h)]
  next h =>
    rw [gt_iff_lt, UInt64.lt_iff_toNat_lt, hend, not_lt] at h
    rw [max_eq_left h]

theorem extSpan_gap (h : prev < off) : extSpan ⟨prev, off - prev⟩ = (prev.toNat, off.toNat) := by
  have hlt := UInt64.lt_iff_toNat_lt.mp h
  have hend : prev.toNat + (off - prev).toNat = off.toNat := by
    rw [UInt64.toNat_sub_of_le _ _ (UInt64.le_of_lt h), Nat.add_sub_cancel' (Nat.le_of_lt hlt)]
  show (prev.toNat, prev.toNat + (off - prev).toNat) = _
  rw [hend]

def nonempty (e : Extent) : Bool := decide (0 < e.len.toNat)

theorem rebuildStep_packed (cap : Nat) (h : Packed live (free.map extSpan) prev.toNat)
    (hwrap : e.off.toNat + e.len.toNat < 2 ^ 64)
    (hahead : nonempty e = true → prev.toNat ≤ e.off.toNat) :
    Packed ((if nonempty e then [extSpan e] else []) ++ live)
      ((rebuildStep cap (free, prev) e).1.map extSpan)
      (rebuildStep cap (free, prev) e).2.toNat := by
  rw [toNat_rebuildStep_snd hwrap]
  -- the space up to the extent, as free or as left over
  have hskip : ∀ mark, prev.toNat ≤ e.off.toNat → mark = e.off.toNat →
      Packed live ((rebuildStep cap (free, prev) e).1.map extSpan) mark := by
    intro mark hle hmark
    subst hmark
    rcases rebuildStep_fst with hsame | ⟨hlt, hadd⟩
    · rw [hsame]
      exact h.mono hle
    · rw [hadd, map_append, map_singleton, extSpan_gap hlt]
      exact h.skip hle
  by_cases hne : nonempty e = true
  · have hle := hahead hne
    have hmax : max prev.toNat (extSpan e).2 = (extSpan e).2 := by
      apply max_eq_right
      exact le_trans hle (le_add_right _ _)
    rw [if_pos hne, hmax]
    exact (hskip _ hle rfl).bump (le_add_right _ _)
  · have hlen : e.len.toNat = 0 := by
      simpa [nonempty] using hne
    have hend : (extSpan e).2 = e.off.toNat := by
      rw [extSpan, hlen, add_zero]
    rw [if_neg hne, nil_append, hend]
    rcases le_total prev.toNat e.off.toNat with hle | hle
    · exact hskip _ hle (max_eq_right hle)
    · rcases rebuildStep_fst with hsame | ⟨hlt, -⟩
      · rw [hsame, max_eq_left hle]
        exact h
      · exact absurd (UInt64.lt_iff_toNat_lt.mp hlt) (not_lt.mpr hle)

/-- **The rebuild loop** over extents in order: what comes out is packed. -/
theorem foldl_rebuildStep_packed (cap : Nat) (todo : List Extent)
    (h : Packed live (free.map extSpan) prev.toNat)
    (hwrap : ∀ e ∈ todo, e.off.toNat + e.len.toNat < 2 ^ 64)
    (hsorted : todo.Pairwise fun e f => e.off.toNat ≤ f.off.toNat)
    (hapart : todo.Pairwise fun e f => nonempty e = true → nonempty f = true →
      Apart (extSpan e) (extSpan f))
    (hahead : ∀ e ∈ todo, nonempty e = true → prev.toNat ≤ e.off.toNat) :
    ∃ live', live'.Perm ((todo.filter nonempty).map extSpan ++ live) ∧
      Packed live' ((todo.foldl (rebuildStep cap) (free, prev)).1.map extSpan)
        (todo.foldl (rebuildStep cap) (free, prev)).2.toNat := by
  induction todo generalizing live free prev with
  | nil => exact ⟨live, List.Perm.refl _, h⟩
  | cons e todo ih =>
    obtain ⟨hsortedHead, hsortedTail⟩ := pairwise_cons.mp hsorted
    obtain ⟨hapartHead, hapartTail⟩ := pairwise_cons.mp hapart
    have hwrapHead := hwrap e mem_cons_self
    have hstep := rebuildStep_packed cap h hwrapHead (hahead e mem_cons_self)
    -- a later extent starts behind the mark and behind this one
    have hahead' : ∀ f ∈ todo, nonempty f = true →
        (rebuildStep cap (free, prev) e).2.toNat ≤ f.off.toNat := by
      intro f hf hne
      rw [toNat_rebuildStep_snd hwrapHead]
      apply Nat.max_le.mpr
      refine ⟨hahead f (mem_cons_of_mem _ hf) hne, ?_⟩
      have hle := hsortedHead f hf
      by_cases hne' : nonempty e = true
      · rcases hapartHead f hf hne' hne with hap | hap
        · exact hap
        · simp only [nonempty, decide_eq_true_eq] at hne
          simp only [extSpan] at hap
          omega
      · have hlen : e.len.toNat = 0 := by
          simpa [nonempty] using hne'
        rw [extSpan, hlen]
        exact hle
    obtain ⟨live', hperm, hpacked⟩ := ih hstep
      (fun f hf => hwrap f (mem_cons_of_mem _ hf)) hsortedTail hapartTail hahead'
    refine ⟨live', hperm.trans ?_, hpacked⟩
    by_cases hne : nonempty e = true
    · rw [if_pos hne, filter_cons_of_pos hne, map_cons]
      exact perm_middle
    · rw [if_neg hne, filter_cons_of_neg hne]
      exact List.Perm.refl _

/-! ### The allocator -/

def PackedStore (P : Preserve) : Prop :=
  Packed (liveSpans P.records) (P.freeExt.map extSpan) P.dataHighWater.toNat

def MarkOk (P : Preserve) : Prop := ∀ p ∈ liveSpans P.records, p.2 ≤ P.dataHighWater.toNat

theorem PackedStore.markOk (h : PackedStore P) : MarkOk P := h.live_le

theorem RecordOk.nonempty_iff (h : RecordOk r) : nonempty (recExt r) = isByteRange r := by
  cases hkind : isByteRange r with
  | true => exact decide_eq_true (h.pos hkind)
  | false =>
    apply decide_eq_false
    show ¬ 0 < r.payloadLength.toNat
    rw [h.link hkind]
    exact lt_irrefl 0

theorem TableOk.filter_nonempty (h : TableOk records) :
    ((records.map recExt).filter nonempty).map extSpan = liveSpans records := by
  have hfilter : records.filter (nonempty ∘ recExt) = records.filter isByteRange := by
    apply filter_congr
    intro r hr
    exact (h.records_ok r hr).nonempty_iff
  rw [filter_map, hfilter, map_map]
  rfl

theorem TableOk.pairwise_exts (h : TableOk records) : (records.map recExt).Pairwise fun e f =>
      nonempty e = true → nonempty f = true → Apart (extSpan e) (extSpan f) := by
  have hapart := h.apart
  rw [← h.filter_nonempty, pairwise_map, pairwise_filter] at hapart
  exact hapart

theorem sarPresHeapSort_perm (a : List Extent) : (sarPresHeapSort a).Perm a :=
  HeapSort.heapSort_perm _

theorem sarPresHeapSort_sorted :
    (sarPresHeapSort a).Pairwise fun e f => e.off.toNat ≤ f.off.toNat :=
  HeapSort.heapSort_sorted _

theorem rebuild_packed (cap : Nat)
    (hwrap : ∀ r ∈ records, r.payloadOffset.toNat + r.payloadLength.toNat < 2 ^ 64)
    (hapart : (records.map recExt).Pairwise fun e f => nonempty e = true → nonempty f = true →
      Apart (extSpan e) (extSpan f)) :
    let out := (sarPresHeapSort (records.map recExt)).foldl (rebuildStep cap) ([], 0)
    Packed (((records.map recExt).filter nonempty).map extSpan) (out.1.map extSpan)
      out.2.toNat := by
  have hperm := sarPresHeapSort_perm (records.map recExt)
  have hwrap : ∀ e ∈ sarPresHeapSort (records.map recExt), e.off.toNat + e.len.toNat < 2 ^ 64 := by
    intro e he
    obtain ⟨r, hr, rfl⟩ := mem_map.mp (hperm.mem_iff.mp he)
    exact hwrap r hr
  have hapart := (hperm.pairwise_iff fun h he hf => (h hf he).symm).mpr hapart
  obtain ⟨live', hlive, hpacked⟩ := @foldl_rebuildStep_packed [] 0 [] cap
    (sarPresHeapSort (records.map recExt))
    (Packed.of_live List.Pairwise.nil fun p hp => absurd hp not_mem_nil) hwrap
    sarPresHeapSort_sorted hapart (fun e _ _ => zero_le _)
  refine hpacked.perm (List.Perm.append_right _ ?_)
  rw [append_nil] at hlive
  exact hlive.trans ((hperm.filter nonempty).map extSpan)

theorem sarPresFreeRebuild_records : (sarPresFreeRebuild P pool).records = P.records := by
  unfold sarPresFreeRebuild
  dsimp only
  split
  · rfl
  · split <;> rfl

/-- **A rebuild packs the file**, unless its memory is refused while the mark lies
    too low. -/
theorem sarPresFreeRebuild_packed (hok : TableOk P.records) (hcount : P.records.length < 2 ^ 32)
    (hdenied : pool = false → MarkOk P) :
    PackedStore (sarPresFreeRebuild P pool) := by
  unfold PackedStore
  rw [sarPresFreeRebuild_records]
  unfold sarPresFreeRebuild
  dsimp only
  rw [mod_eq_of_lt hcount]
  split
  next hzero =>
    rw [length_eq_zero_iff.mp hzero]
    exact Packed.of_live List.Pairwise.nil fun p hp => absurd hp not_mem_nil
  split
  next hpool =>
    exact Packed.of_live hok.apart (hdenied hpool)
  · rw [take_length, ← hok.filter_nonempty]
    exact rebuild_packed _ (fun r hr => (hok.records_ok r hr).no_wrap) hok.pairwise_exts

theorem alloc_prepared (hok : TableOk P.records) (hcount : P.records.length < 2 ^ 32)
    (hclean : P.freeDirty = false → PackedStore P) (hdenied : pool = false → MarkOk P) :
    ∃ Q, Q = (if P.freeDirty then sarPresFreeRebuild P pool else P) ∧
      Packed (liveSpans P.records) (Q.freeExt.map extSpan) Q.dataHighWater.toNat := by
  refine ⟨_, rfl, ?_⟩
  split
  · have hpacked := sarPresFreeRebuild_packed hok hcount hdenied
    unfold PackedStore at hpacked
    rwa [sarPresFreeRebuild_records] at hpacked
  next hdirty =>
    exact hclean (Bool.eq_false_iff.mpr hdirty)

theorem sarPresAlloc_apart (len : UInt64) (hok : TableOk P.records)
    (hcount : P.records.length < 2 ^ 32) (hclean : P.freeDirty = false → PackedStore P)
    (hdenied : pool = false → MarkOk P) :
    ∀ p ∈ liveSpans P.records, Apart p
      ((sarPresAlloc P len pool).1.toNat, (sarPresAlloc P len pool).1.toNat + len.toNat) := by
  obtain ⟨Q, hQ, hpacked⟩ := alloc_prepared hok hcount hclean hdenied
  intro p hp
  unfold sarPresAlloc
  rw [← hQ]
  dsimp only
  split
  next off free hfit =>
    obtain ⟨e, rest, hperm, rfl, hle, -⟩ := takeFirstFit_some hfit
    have hmem : extSpan e ∈ Q.freeExt.map extSpan :=
      mem_map_of_mem (hperm.mem_iff.mpr mem_cons_self)
    have hapart := (pairwise_append.mp hpacked.apart).2.2 p hp _ hmem
    apply Apart.symm
    exact hapart.symm.of_le (Nat.le_refl _) (Nat.add_le_add_left hle _)
  · exact .inl (hpacked.live_le p hp)

theorem alloc_of_packed {Q : Preserve}
    (hQ : Q = if P.freeDirty then sarPresFreeRebuild P pool else P)
    (hpacked : Packed live (Q.freeExt.map extSpan) Q.dataHighWater.toNat)
    (hwrap : (sarPresAlloc P len pool).1.toNat + len.toNat < 2 ^ 64) :
    Packed (extSpan ⟨(sarPresAlloc P len pool).1, len⟩ :: live)
      ((sarPresAlloc P len pool).2.freeExt.map extSpan)
      (sarPresAlloc P len pool).2.dataHighWater.toNat := by
  unfold sarPresAlloc at hwrap ⊢
  rw [← hQ] at hwrap ⊢
  dsimp only at hwrap ⊢
  split at hwrap
  next off free hfit =>
    obtain ⟨e, rest, hperm, rfl, hle, hcases⟩ := takeFirstFit_some hfit
    have hfront : Packed live (extSpan e :: rest.map extSpan) Q.dataHighWater.toNat :=
      hpacked.perm (List.Perm.append_left _ (hperm.map extSpan))
    rcases hcases with ⟨rfl, hrest⟩ | hrest
    · exact hfront.take.perm (List.Perm.append_left _ (hrest.map extSpan).symm)
    · have hcut := hfront.cut (le_add_right e.off.toNat len.toNat)
        (Nat.add_le_add_left hle e.off.toNat)
      have hsplit : extSpan ⟨e.off + len, e.len - len⟩ =
          (e.off.toNat + len.toNat, e.off.toNat + e.len.toNat) := by
        have hoff : (e.off + len).toNat = e.off.toNat + len.toNat := by
          rw [UInt64.toNat_add, mod_eq_of_lt hwrap]
        have hlen : (e.len - len).toNat = e.len.toNat - len.toNat :=
          UInt64.toNat_sub_of_le _ _ (UInt64.le_iff_toNat_le.mpr hle)
        show ((e.off + len).toNat, (e.off + len).toNat + (e.len - len).toNat) = _
        rw [hoff, hlen]
        congr 1
        omega
      refine hcut.perm (List.Perm.append_left _ ?_)
      have hmap := (hrest.map extSpan).symm
      rw [map_cons, hsplit] at hmap
      exact hmap
  · dsimp only at hwrap ⊢
    rw [UInt64.toNat_add, mod_eq_of_lt hwrap]
    exact hpacked.bump (le_add_right _ _)

/-- **Allocation** keeps the file packed. -/
theorem sarPresAlloc_packed (hok : TableOk P.records) (hcount : P.records.length < 2 ^ 32)
    (hclean : P.freeDirty = false → PackedStore P) (hdenied : pool = false → MarkOk P)
    (hwrap : (sarPresAlloc P len pool).1.toNat + len.toNat < 2 ^ 64) :
    Packed (((sarPresAlloc P len pool).1.toNat, (sarPresAlloc P len pool).1.toNat + len.toNat) ::
        liveSpans P.records)
      ((sarPresAlloc P len pool).2.freeExt.map extSpan)
      (sarPresAlloc P len pool).2.dataHighWater.toNat := by
  obtain ⟨Q, hQ, hpacked⟩ := alloc_prepared hok hcount hclean hdenied
  exact alloc_of_packed hQ hpacked hwrap

/-! ### The complement of the live extents -/

/-- With room for all gaps the loop leaves nothing out: below its mark every byte lies in an extent
    or in a gap that it has entered. -/
theorem foldl_rebuildStep_covers {todo : List Extent} (hroom : free.length + todo.length ≤ cap)
    (hwrap : ∀ e ∈ todo, e.off.toNat + e.len.toNat < 2 ^ 64) :
    let out := todo.foldl (rebuildStep cap) (free, prev)
    prev.toNat ≤ out.2.toNat ∧ free ⊆ out.1 ∧ (∀ e ∈ todo, (extSpan e).2 ≤ out.2.toNat) ∧
      ∀ b, prev.toNat ≤ b → b < out.2.toNat → ∃ e ∈ todo ++ out.1, (extSpan e).Has b := by
  induction todo generalizing free prev with
  | nil =>
    exact ⟨le_refl _, Subset.refl _, forall_mem_nil _, fun b hlo hhi => absurd hhi (not_lt.mpr hlo)⟩
  | cons e todo ih =>
    rw [length_cons] at hroom
    have hmark := @toNat_rebuildStep_snd free prev e cap (hwrap e mem_cons_self)
    have hgap : free ⊆ (rebuildStep cap (free, prev) e).1 ∧
        (rebuildStep cap (free, prev) e).1.length ≤ free.length + 1 ∧
        (prev < e.off → ⟨prev, e.off - prev⟩ ∈ (rebuildStep cap (free, prev) e).1) := by
      unfold rebuildStep
      dsimp only
      split
      · exact ⟨subset_append_left _ _, by simp, fun _ => by simp⟩
      next hnone => exact ⟨Subset.refl _, le_succ _, fun hlt => absurd ⟨hlt, by omega⟩ hnone⟩
    obtain ⟨hle, hfree, hends, hcover⟩ := @ih (rebuildStep cap (free, prev) e).1
      (rebuildStep cap (free, prev) e).2 (by omega) fun f hf => hwrap f (mem_cons_of_mem _ hf)
    rw [hmark] at hle hcover
    refine ⟨(le_max_left ..).trans hle, Subset.trans hgap.1 hfree, ?_, fun b hlo hhi => ?_⟩
    · exact forall_mem_cons.mpr ⟨(le_max_right ..).trans hle, hends⟩
    · rcases Nat.lt_or_ge b (max prev.toNat (extSpan e).2) with hb | hb
      · have hend : b < (extSpan e).2 := by omega
        by_cases hin : e.off.toNat ≤ b
        · exact ⟨e, by simp, hin, hend⟩
        · have hlt : prev < e.off := UInt64.lt_iff_toNat_lt.mpr (by omega)
          refine ⟨_, mem_append_right _ (hfree (hgap.2.2 hlt)), ?_⟩
          rw [extSpan_gap hlt]
          exact ⟨hlo, not_le.mp hin⟩
      · obtain ⟨f, hf, hhas⟩ := hcover b hb hhi
        exact ⟨f, mem_cons_of_mem _ hf, hhas⟩

theorem sarPresFreeRebuild_granted (hcount : P.records.length < 2 ^ 32) :
    sarPresFreeRebuild P true =
      let out := (sarPresHeapSort (P.records.map recExt)).foldl (rebuildStep P.freeCapacity) ([], 0)
      { P with freeExt := out.1, dataHighWater := out.2, freeDirty := false } := by
  unfold sarPresFreeRebuild
  dsimp only
  rw [mod_eq_of_lt hcount]
  split
  next hzero => rw [length_eq_zero_iff.mp hzero]; rfl
  · rw [if_neg (by decide), take_length]
    rfl

def Extent.Meets (e f : Extent) : Prop := ∃ b, (extSpan e).Has b ∧ (extSpan f).Has b

theorem not_meets_of_apart {e f : Extent} (h : Apart (extSpan e) (extSpan f)) : ¬ e.Meets f :=
  fun ⟨_, he, hf⟩ => h.not_mem_both he hf

theorem nonempty_of_has {b : Nat} (h : (extSpan e).Has b) : nonempty e = true :=
  decide_eq_true (Nat.lt_of_add_lt_add_left (h.1.trans_lt h.2))

/-- **The free list is the complement of the live extents.**  A rebuild that gets its memory sorts
    the extents; its mark lies behind every live one, and the free extents have just the bytes
    below the mark that no live extent has, each in one of them.  What is then allocated is in none
    of the live and the remaining free extents. -/
theorem free_list_complement (P : Preserve) (hcount : P.records.length < 2 ^ 31)
    (hcap : P.records.length ≤ P.freeCapacity)
    (hlink : ∀ r ∈ P.records, isByteRange r = false → r.payloadLength = 0)
    (hwrap : ∀ r ∈ P.records, r.payloadOffset.toNat + r.payloadLength.toNat < 2 ^ 64)
    (hapart : (P.records.filter isByteRange).Pairwise fun r s => ¬ (recExt r).Meets (recExt s)) :
    let live := (P.records.filter isByteRange).map recExt
    let Q := sarPresFreeRebuild P true
    (∀ a, a.length < 2 ^ 31 → (sarPresHeapSort a).Perm a ∧
      (sarPresHeapSort a).Pairwise fun e f => e.off.toNat ≤ f.off.toNat) ∧
    (∀ e ∈ live, e.off.toNat + e.len.toNat ≤ Q.dataHighWater.toNat) ∧
    Q.freeExt.Pairwise (fun e f => ¬ e.Meets f) ∧ (∀ e ∈ live, ∀ f ∈ Q.freeExt, ¬ e.Meets f) ∧
    (∀ b < Q.dataHighWater.toNat, ∃ e ∈ live ++ Q.freeExt, (extSpan e).Has b) ∧
    ∀ len pool, let alloc := sarPresAlloc Q len pool
      alloc.1.toNat + len.toNat < 2 ^ 64 →
        ∀ e ∈ live ++ alloc.2.freeExt, ¬ (Extent.mk alloc.1 len).Meets e := by
  intro live Q
  have hrange : ∀ r ∈ P.records, nonempty (recExt r) = true → isByteRange r = true := by
    intro r hr hne
    by_contra hkind
    rw [nonempty, recExt, hlink r hr (Bool.eq_false_iff.mpr hkind)] at hne
    cases hne
  have hspan {e : Extent} (hne : nonempty e = true) : (extSpan e).1 < (extSpan e).2 :=
    Nat.lt_add_of_pos_right (of_decide_eq_true hne)
  have hexts : (P.records.map recExt).Pairwise fun e f => nonempty e = true →
      nonempty f = true → Apart (extSpan e) (extSpan f) := by
    rw [pairwise_filter] at hapart
    refine pairwise_map.mpr (hapart.imp_of_mem fun hr hs h hne hne' => ?_)
    exact (apart_iff (hspan hne) (hspan hne')).mpr
      fun b hb => h (hrange _ hr hne) (hrange _ hs hne') ⟨b, hb⟩
  have hlive : ∀ e ∈ live, nonempty e = true →
      extSpan e ∈ ((P.records.map recExt).filter nonempty).map extSpan := by
    intro e he hne
    obtain ⟨r, hr, rfl⟩ := mem_map.mp he
    exact mem_map_of_mem (mem_filter.mpr ⟨mem_map_of_mem (mem_of_mem_filter hr), hne⟩)
  have hperm := sarPresHeapSort_perm (P.records.map recExt)
  have hpacked := rebuild_packed P.freeCapacity hwrap hexts
  obtain ⟨-, -, hends, hcover⟩ := @foldl_rebuildStep_covers [] 0 P.freeCapacity
    (sarPresHeapSort (P.records.map recExt))
    (by simpa [hperm.length_eq] using hcap) (by
      intro e he
      obtain ⟨r, hr, rfl⟩ := mem_map.mp (hperm.mem_iff.mp he)
      exact hwrap r hr)
  have hQ : Q = _ := sarPresFreeRebuild_granted (by omega)
  rw [hQ]
  obtain ⟨-, hfree, hacross⟩ := pairwise_append.mp hpacked.apart
  refine ⟨fun a _ => ⟨sarPresHeapSort_perm a, sarPresHeapSort_sorted⟩, ?_, ?_, ?_, ?_, ?_⟩
  · intro e he
    obtain ⟨r, hr, rfl⟩ := mem_map.mp he
    exact hends _ (hperm.mem_iff.mpr (mem_map_of_mem (mem_of_mem_filter hr)))
  · exact (pairwise_map.mp hfree).imp not_meets_of_apart
  · rintro e he f hf ⟨b, hb⟩
    exact not_meets_of_apart (hacross _ (hlive e he (nonempty_of_has hb.1)) _ (mem_map_of_mem hf))
      ⟨b, hb⟩
  · intro b hb
    obtain ⟨e, he, hhas⟩ := hcover b (zero_le _) hb
    refine ⟨e, ?_, hhas⟩
    rcases mem_append.mp he with he | he
    · obtain ⟨r, hr, rfl⟩ := mem_map.mp (hperm.mem_iff.mp he)
      exact mem_append_left _
        (mem_map_of_mem (mem_filter.mpr ⟨hr, hrange r hr (nonempty_of_has hhas)⟩))
    · exact mem_append_right _ he
  · rintro len pool alloc hfits e he ⟨b, hb⟩
    have hnone := (pairwise_cons.mp (alloc_of_packed rfl hpacked hfits).apart).1
    refine not_meets_of_apart (hnone (extSpan e) ?_) ⟨b, hb⟩
    rcases mem_append.mp he with he | he
    · exact mem_append_left _ (hlive e he (nonempty_of_has hb.2))
    · exact mem_append_right _ (mem_map_of_mem he)

def heldAt (off : UInt64) : PreserveRecord :=
  sarPreserveRecordInit (Vector.replicate _ 0) 0 16 0 off 16 7 [] []

/-- Two records with a gap before each of them. -/
theorem free_list_complement_two_gaps :
    let P := { sarPreserveCreate with records := [heldAt 48, heldAt 16] }
    ∀ b < (sarPresFreeRebuild P true).dataHighWater.toNat,
      ∃ e ∈ [⟨48, 16⟩, ⟨16, 16⟩] ++ (sarPresFreeRebuild P true).freeExt, (extSpan e).Has b :=
  (free_list_complement { sarPreserveCreate with records := [heldAt 48, heldAt 16] } (by decide)
    (by decide) (by decide) (by decide)
    (pairwise_pair.mpr fun ⟨_, hb, hb'⟩ => absurd (hb.1.trans_lt hb'.2) (by decide))).2.2.2.2.1

/-- The end of the last block of the address range is computed as 0, and so is the mark. -/
theorem mark_below_wrapped_end :
    ∃ P : Preserve, P.records.length ≤ P.freeCapacity ∧ (∀ r ∈ P.records, isByteRange r = true) ∧
      (P.records.filter isByteRange).Pairwise (fun r s => ¬ (recExt r).Meets (recExt s)) ∧
      ∃ r ∈ P.records, ¬ (recExt r).off.toNat + (recExt r).len.toNat ≤
        (sarPresFreeRebuild P true).dataHighWater.toNat :=
  ⟨{ sarPreserveCreate with records := [heldAt (0 - 16)] }, by decide, by decide,
    pairwise_singleton .., _, mem_singleton_self _, by decide⟩

/-! ### The invariant -/

/-- What holds between calls: the table fits, its records are in order and their
    extents disjoint, and a free list that is not stale describes the file. -/
structure ExtentInv (P : Preserve) : Prop where
  capacity : P.recordCapacity.toNat < 2 ^ 32
  count_le : P.records.length ≤ P.recordCapacity.toNat
  table : TableOk P.records
  packed : P.freeDirty = false → PackedStore P

def KeepsPayload (f : PreserveRecord → PreserveRecord) : Prop :=
  ∀ r, recExt (f r) = recExt r ∧ (f r).kind = r.kind

theorem keepsPayload_id : KeepsPayload id := fun _ => ⟨rfl, rfl⟩

theorem KeepsPayload.isByteRange_eq (hf : KeepsPayload f) (r : PreserveRecord) :
    isByteRange (f r) = isByteRange r := by
  unfold isByteRange
  rw [(hf r).2]

theorem liveSpans_map (hf : KeepsPayload f) : liveSpans (records.map f) = liveSpans records := by
  have hkind : isByteRange ∘ f = isByteRange := by
    funext r
    exact hf.isByteRange_eq r
  unfold liveSpans
  rw [filter_map, hkind, map_map]
  apply map_congr_left
  intro r _
  show extSpan (recExt (f r)) = _
  rw [(hf r).1]

theorem RecordOk.map (hf : KeepsPayload f) (h : RecordOk r) : RecordOk (f r) := by
  have hext := (hf r).1
  have hoff : (f r).payloadOffset = r.payloadOffset := congrArg Extent.off hext
  have hlen : (f r).payloadLength = r.payloadLength := congrArg Extent.len hext
  have hbyte := hf.isByteRange_eq r
  constructor
  · rw [hbyte, hlen]
    exact h.pos
  · rw [hlen]
    exact h.blocks
  · rw [hbyte, hlen]
    exact h.link
  · rw [hoff, hlen]
    exact h.no_wrap

/-- Calls that drop records, or change them without touching their payload, and
    leave the allocator alone but for the stale flag. -/
theorem ExtentInv.shrink (h : ExtentInv P) {kept : List PreserveRecord}
    (hsub : kept.Sublist P.records) (hf : KeepsPayload f) (hrecords : P'.records = kept.map f)
    (hcap : P'.recordCapacity = P.recordCapacity) (hfree : P'.freeExt = P.freeExt)
    (hmark : P'.dataHighWater = P.dataHighWater)
    (hdirty : P'.freeDirty = false → P.freeDirty = false) : ExtentInv P' := by
  have hspans : liveSpans P'.records = liveSpans kept := by
    rw [hrecords, liveSpans_map hf]
  constructor
  · rw [hcap]
    exact h.capacity
  · rw [hcap, hrecords, length_map]
    exact le_trans hsub.length_le h.count_le
  · constructor
    · intro r hr
      rw [hrecords] at hr
      obtain ⟨s, hs, rfl⟩ := mem_map.mp hr
      exact (h.table.records_ok s (hsub.subset hs)).map hf
    · rw [hspans]
      exact (h.table.sublist hsub).apart
  · intro hclean
    unfold PackedStore
    rw [hspans, hfree, hmark]
    exact (h.packed (hdirty hclean)).sublist (liveSpans_sublist hsub) (.refl _)

theorem MarkOk.of_sublist (h : MarkOk P) (hsub : P'.records.Sublist P.records)
    (hmark : P'.dataHighWater = P.dataHighWater) :
    MarkOk P' := by
  intro p hp
  rw [hmark]
  exact h p ((liveSpans_sublist hsub).subset hp)

theorem ExtentInv.evictAged (h : ExtentInv P) (now : UInt64) : ExtentInv (evictAged P now) := by
  refine h.shrink (filter_sublist) keepsPayload_id (map_id _).symm rfl rfl rfl ?_
  intro hclean
  exact (Bool.or_eq_false_iff.mp hclean).1

theorem TableOk.concat (h : TableOk records) (hr : RecordOk r)
    (hapart : isByteRange r = true → ∀ p ∈ liveSpans records, Apart p (extSpan (recExt r))) :
    TableOk (records ++ [r]) := by
  constructor
  · intro s hs
    rcases mem_append.mp hs with hs | hs
    · exact h.records_ok s hs
    · rw [mem_singleton.mp hs]
      exact hr
  · unfold liveSpans
    rw [filter_append, map_append]
    refine pairwise_append.mpr ⟨h.apart, ?_, ?_⟩
    · rw [filter_singleton]
      cases isByteRange r with
      | true => exact pairwise_singleton _ _
      | false => exact List.Pairwise.nil
    · intro p hp q hq
      obtain ⟨s, hs, rfl⟩ := mem_map.mp hq
      rw [mem_filter, mem_singleton] at hs
      obtain ⟨rfl, hbyte⟩ := hs
      exact hapart hbyte p hp

/-! ### Staging -/

section

variable {bc : BCrypt} {args : StageArgs} {env : StageEnv}

theorem TurnGap.length_le {cursor : UInt64} (h : TurnGap args P cursor gOff gLen)
    (hcursor : args.offset.toNat ≤ cursor.toNat) :
    gLen.toNat ≤ args.length.toNat := by
  have hfirst := h.spec.first_le
  have hlast := h.spec.le_last
  rw [UInt64.toNat_add] at hlast
  omega

theorem round16_gap (hpos : 0 < gLen.toNat) (hlt : gLen.toNat < 2 ^ 32) :
    0 < (sarPresRound16 gLen).toNat ∧ (sarPresRound16 gLen).toNat % 16 = 0 ∧
      (sarPresRound16 gLen).toNat ≤ 2 ^ 32 := by
  rw [toNat_sarPresRound16 (by omega)]
  omega

theorem ExtentInv.room {room : Preserve} (h : ExtentInv P) (hroom : RoomMade mode P room) :
    ExtentInv room := by
  rcases hroom with rfl | ⟨-, records, hsub, rfl⟩
  · exact h
  · refine h.shrink hsub keepsPayload_id (map_id _).symm rfl rfl rfl ?_
    intro hclean
    cases hclean

theorem MarkOk.room {room : Preserve} (h : MarkOk P) (hroom : RoomMade mode P room) :
    MarkOk room := by
  rcases hroom with rfl | ⟨-, records, hsub, rfl⟩
  · exact h
  · exact h.of_sublist hsub rfl

theorem ExtentInv.stale (h : ExtentInv P) (hrecords : P'.records = P.records)
    (hcap : P'.recordCapacity = P.recordCapacity) (hdirty : P'.freeDirty = true) :
    ExtentInv P' := by
  constructor
  · rw [hcap]
    exact h.capacity
  · rw [hcap, hrecords]
    exact h.count_le
  · rw [hrecords]
    exact h.table
  · intro hclean
    rw [hdirty] at hclean
    cases hclean

/-- **A turn keeps the invariant**, provided its rebuild is granted or the mark
    lies high enough; a completed turn leaves a packed file behind. -/
theorem stageTurn_extentInv {turn : TurnEnv} {r : Option StageResult} (hpos : 0 < gLen.toNat)
    (hlt : gLen.toNat < 2 ^ 32) (hinv : ExtentInv P) (hmark : turn.rebuildPool = false → MarkOk P)
    (hturn : stageTurn bc args env turn P gOff gLen = (P', r)) :
    ExtentInv P' ∧ (r = none → PackedStore P') := by
  obtain ⟨room, hroom, hcases⟩ := stageTurn_cases hturn
  have hinvRoom := hinv.room hroom
  rcases hcases with ⟨hres, rfl, -⟩ | ⟨iv, -, -, hcount, hcases⟩
  · refine ⟨hinvRoom, ?_⟩
    rintro rfl
    rcases hres with h | h <;> cases h
  obtain ⟨hctPos, hctBlocks, hctLe⟩ := round16_gap hpos hlt
  rcases hcases with ⟨rfl, rfl⟩ | ⟨rfl, hwrite, hP'⟩
  · refine ⟨hinvRoom.stale sarPresAlloc_records sarPresAlloc_recordCapacity rfl, ?_⟩
    intro hnone
    cases hnone
  · have hcap := hinvRoom.capacity
    have hwrap : (sarPresAlloc room (sarPresRound16 gLen) turn.rebuildPool).1.toNat +
        (sarPresRound16 gLen).toNat < 2 ^ 64 := by omega
    have hpacked := sarPresAlloc_packed hinvRoom.table (by omega) hinvRoom.packed
      (fun hpool => (hmark hpool).room hroom) hwrap
    suffices h : TableOk P'.records ∧ P'.records.length ≤ room.recordCapacity.toNat ∧
        P'.recordCapacity = room.recordCapacity ∧ PackedStore P' by
      obtain ⟨htable, hlen, hcapEq, hstore⟩ := h
      refine ⟨⟨?_, ?_, htable, fun _ => hstore⟩, fun _ => hstore⟩
      · rw [hcapEq]
        exact hcap
      · rw [hcapEq]
        exact hlen
    rcases appendRecord_cases (writtenStore bc args turn room iv gOff gLen)
      (stageRecord args env iv _ gOff gLen) (by simpa using hcount) with ⟨-, happ⟩ | ⟨-, happ⟩
    · -- refused: the new span is nobody's
      rw [hP', happ]
      refine ⟨?_, ?_, writtenStore_recordCapacity, ?_⟩
      · rw [writtenStore_records]
        exact hinvRoom.table
      · rw [writtenStore_records]
        exact hinvRoom.count_le
      · unfold PackedStore
        rw [writtenStore_records]
        exact hpacked.sublist (sublist_cons_self _ _) (.refl _)
    · rw [hP', happ]
      dsimp only
      rw [writtenStore_records]
      refine ⟨hinvRoom.table.concat ?_ ?_, ?_, writtenStore_recordCapacity, ?_⟩
      · exact ⟨fun _ => hctPos, hctBlocks, fun h => (by cases h), hwrap⟩
      · intro _ p hp
        exact ((pairwise_cons.mp hpacked.live_apart).1 p hp).symm
      · rw [length_append, length_singleton]
        exact hcount
      · unfold PackedStore liveSpans
        rw [filter_append, map_append]
        exact hpacked.perm (List.Perm.append_right _ (perm_append_singleton _ _).symm)

/-- A stage call is safe where its first rebuild gets its memory, or need not
    because the mark lies behind every live extent. -/
def RebuildSafe (env : StageEnv) (P : Preserve) : Prop :=
  P.freeDirty = true → (env.turn 0).rebuildPool = false →
    ∀ p ∈ liveSpans (liveRecords P env.now), p.2 ≤ P.dataHighWater.toNat

theorem ExtentInv.markOk_evictAged (hinv : ExtentInv P) (hsafe : RebuildSafe env P)
    (hpool : (env.turn 0).rebuildPool = false) :
    MarkOk (SemanticsAr.evictAged P env.now) := by
  cases hdirty : P.freeDirty with
  | true => exact hsafe hdirty hpool
  | false => exact (hinv.packed hdirty).markOk.of_sublist filter_sublist rfl

theorem stageLoop_extentInv (hlen : args.length.toNat < 2 ^ 32) (hinv : ExtentInv P)
    (hmark : (env.turn 0).rebuildPool = false → MarkOk P) :
    ExtentInv (stageLoop bc args env 0 P args.offset false).1 := by
  refine stageLoop_rule
    (fun n Q cursor _ => args.offset.toNat ≤ cursor.toNat ∧ ExtentInv Q ∧
      ((env.turn n).rebuildPool = false → MarkOk Q))
    (fun Q _ _ => ExtentInv Q) ?_ ?_ ?_ ⟨le_refl _, hinv, hmark⟩
  · intro n Q cursor staged h _
    exact h.2.1
  · intro n Q cursor staged gOff gLen Q' result h hgap hturn
    have hle := hgap.length_le h.1
    exact (stageTurn_extentInv hgap.spec.pos (by omega) h.2.1 h.2.2 hturn).1
  · intro n Q cursor staged gOff gLen Q' h hgap hturn
    have hle := hgap.length_le h.1
    obtain ⟨hinv', hpacked⟩ := stageTurn_extentInv hgap.spec.pos (by omega) h.2.1 h.2.2 hturn
    refine ⟨?_, hinv', fun _ => (hpacked rfl).markOk⟩
    have hfirst := hgap.spec.first_le
    rw [hgap.spec.toNat_end]
    omega

/-- **A stage call keeps the invariant** where its first rebuild is safe. -/
theorem sarPreserveStage_extentInv (hinv : ExtentInv P) (hsafe : RebuildSafe env P) :
    ExtentInv (sarPreserveStage bc args env P).1 := by
  unfold sarPreserveStage
  split
  · exact hinv
  split
  · exact hinv
  split
  · exact hinv
  rename_i hlen
  have hbound := args.plaintext_lt
  rw [not_not] at hlen
  exact stageLoop_extentInv (by omega) (hinv.evictAged env.now) (hinv.markOk_evictAged hsafe)

end

/-! ### The other calls -/

theorem reapLoop_sublist (match? : PreserveRecord → Bool) (records : List PreserveRecord) :
    (reapLoop match? records).Sublist records := by
  fun_induction reapLoop match? records with
  | case1 records hany ih => exact ih.trans eraseP_sublist
  | case2 records hany => exact .refl records

theorem keepsPayload_promoteRecord : KeepsPayload (promoteRecord actorId) := by
  intro r
  unfold promoteRecord
  split <;> exact ⟨rfl, rfl⟩

theorem keepsPayload_renameRecord : KeepsPayload (renameRecord oldPath newPath) := by
  intro r
  unfold renameRecord
  split <;> exact ⟨rfl, rfl⟩

theorem ExtentInv.stageLink (h : ExtentInv P) :
    ExtentInv (sarPreserveStageLink path fileSize actorId linkId now causingPath P).1 := by
  generalize hcall : sarPreserveStageLink path fileSize actorId linkId now causingPath P = call
  obtain ⟨P', res⟩ := call
  rcases sarPreserveStageLink_cases hcall with ⟨status, -, rfl | rfl⟩ | ⟨-, hcount, hP'⟩
  · exact h
  · exact h.evictAged now
  have haged := h.evictAged now
  rcases appendRecord_cases _ _ hcount with ⟨-, happ⟩ | ⟨-, happ⟩
  · rw [hP', happ]
    exact haged
  · rw [hP', happ]
    -- a namespace record owns no span
    have hspans : liveSpans ((SemanticsAr.evictAged P now).records ++
        [linkRecord path fileSize actorId linkId now causingPath]) =
        liveSpans (SemanticsAr.evictAged P now).records := by
      unfold liveSpans
      rw [filter_append, map_append]
      exact append_nil _
    refine ⟨haged.capacity, ?_, haged.table.concat ?_ ?_, ?_⟩
    · rw [length_append, length_singleton]
      exact hcount
    · exact ⟨fun hb => (by cases hb), rfl, fun _ => rfl, linkId.toNat_lt⟩
    · intro hb
      cases hb
    · intro hclean
      unfold PackedStore
      rw [hspans]
      exact haged.packed hclean

theorem ExtentInv.reconcileRange (h : ExtentInv P) :
    ExtentInv (sarPreserveReconcileRange path keyOffset keyLength P) := by
  unfold sarPreserveReconcileRange
  split
  · exact h
  · refine h.shrink (filter_sublist.trans (reapLoop_sublist _ _)) keepsPayload_id
      (map_id _).symm rfl rfl rfl ?_
    intro hclean
    exact (Bool.or_eq_false_iff.mp hclean).1

theorem ExtentInv.maintain (h : ExtentInv P) : ExtentInv (sarPresMaintain now P) := by
  refine h.shrink (filter_sublist.trans (reapLoop_sublist _ _)) keepsPayload_id
    (map_id _).symm rfl rfl rfl ?_
  intro hclean
  exact (Bool.or_eq_false_iff.mp hclean).1

theorem ExtentInv.frame (h : ExtentInv P) (hrecords : P'.records = P.records)
    (hcap : P'.recordCapacity = P.recordCapacity) (hfree : P'.freeExt = P.freeExt)
    (hmark : P'.dataHighWater = P.dataHighWater) (hdirty : P'.freeDirty = P.freeDirty) :
    ExtentInv P' :=
  h.shrink (.refl _) keepsPayload_id (hrecords.trans (map_id _).symm) hcap hfree
    hmark fun hclean => hdirty.symm.trans hclean

/-! ### Loading -/

def ValidIndex (buf : List UInt8) : Prop :=
  ∃ macKey records generation, buf = indexBytes macKey records generation ∧ TableOk records

theorem loadedRecords_of_verify {macKey macKey' : Mac} {generation : UInt64}
    {anchor : Option KeystoreAnchor} {count : UInt64}
    (h : sarPreserveVerify (indexBytes macKey records generation) macKey' anchor =
      .ok (.ok count)) :
    ∃ n, n ≤ capacity.toNat ∧
      loadedRecords (indexBytes macKey records generation) count capacity = records.take n := by
  obtain ⟨rs, gen, hbytes, hfits, rfl, -⟩ := sarPreserveVerify_ok_iff.mp h
  have hlen : records.length = rs.length := by
    have hlen := congrArg List.length hbytes
    rw [length_indexBytes, length_indexBytes] at hlen
    simp only [PRESERVE_DISK_RECORD_SIZE] at hlen
    omega
  rw [← hlen] at hfits ⊢
  have hread := readIndexRecords_indexBytes macKey generation hfits
  generalize UInt64.ofNat records.length = count at hread
  have hmin : (if count > capacity then capacity else count).toNat ≤ count.toNat ∧
      (if count > capacity then capacity else count).toNat ≤ capacity.toNat := by
    split
    next hgt =>
      exact ⟨UInt64.le_iff_toNat_le.mp (UInt64.le_of_lt hgt), le_refl _⟩
    next hgt =>
      exact ⟨le_refl _, UInt64.le_iff_toNat_le.mp (UInt64.not_lt.mp hgt)⟩
  refine ⟨_, hmin.2, ?_⟩
  unfold loadedRecords readIndexRecords
  rw [ChainedLog.readLog_take _ _ hread hmin.1]

theorem ExtentInv.loadKeys (h : ExtentInv P) (env : LoadEnv) :
    ExtentInv (ensureKeys env (loadKeyFile env.keyFile P)).1 := by
  have hkeys : ExtentInv (loadKeyFile env.keyFile P) := by
    fun_cases loadKeyFile env.keyFile P <;> exact h.frame rfl rfl rfl rfl rfl
  fun_cases ensureKeys env (loadKeyFile env.keyFile P) <;>
    exact hkeys.frame rfl rfl rfl rfl rfl

theorem ExtentInv.loadIndex (h : ExtentInv P) {indexFile : Option (List UInt8)}
    (hvalid : ∀ buf, indexFile = some buf → ValidIndex buf) :
    ExtentInv (loadIndex indexFile P) := by
  unfold SemanticsAr.loadIndex
  split
  · exact h
  rename_i buf
  split
  · exact h
  obtain ⟨macKey, records, generation, rfl, hok⟩ := hvalid buf rfl
  split
  next count hverify =>
    obtain ⟨n, hn, hloaded⟩ := loadedRecords_of_verify hverify
    refine ⟨h.capacity, ?_, ?_, ?_⟩
    · show (loadedRecords _ count P.recordCapacity).length ≤ _
      rw [hloaded, length_take]
      exact le_trans (min_le_left _ _) hn
    · show TableOk (loadedRecords _ count P.recordCapacity)
      rw [hloaded]
      exact hok.sublist (take_sublist _ _)
    · intro hclean
      cases hclean
  · exact h.shrink (nil_sublist _) keepsPayload_id rfl rfl rfl rfl id
  · exact h

theorem ExtentInv.load (h : ExtentInv P) {env : LoadEnv}
    (hvalid : ∀ buf, env.indexFile = some buf → ValidIndex buf) :
    ExtentInv (sarPreserveLoad env P) := by
  have hkeys := h.loadKeys env
  unfold sarPreserveLoad
  split
  next Q hQ =>
    rw [hQ] at hkeys
    exact hkeys
  next Q hQ =>
    rw [hQ] at hkeys
    split
    · exact hkeys
    · have hopen : ExtentInv { Q with dataOpen := true } := hkeys.frame rfl rfl rfl rfl rfl
      exact (hopen.loadIndex hvalid).frame rfl rfl rfl rfl rfl

end SemanticsAr
