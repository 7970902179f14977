import SemanticsAr.GapWalk
import SemanticsAr.PreserveIndex

/-!
# The preservation record table

The list operations of `engine/src/preserve.c`: overlap and containment tests,
the walk to the first uncovered gap of a range, appending, promotion,
reconciliation and eviction.  A record table is the list of its first
`record_count` entries.  All offsets are 64-bit and wrap as they do in the
source, which is why the coverage of a record is stated with the end the code
computes.
-/

namespace SemanticsAr

open List UInt64

variable {r : PreserveRecord} {first last cursor g l : UInt64} {path : ProvPath}
  {records : List PreserveRecord}

/-! ### Tests on ranges -/

def sarPresOverlap (aOff aLen bOff bLen : UInt64) : Bool :=
  decide (aOff < bOff + bLen) && decide (bOff < aOff + aLen)

def sarPresContains (outerOff outerLen innerOff innerLen : UInt64) : Bool :=
  decide (outerOff ≤ innerOff) && decide (innerOff + innerLen ≤ outerOff + outerLen)

def sarPreserveContentTag (plaintext : List UInt8) : Mac := sha256 plaintext

/-- `sar_preserve_record_init`; `iv` is empty for a null pointer. -/
def sarPreserveRecordInit (provenancePath : ProvPath)
    (provenanceOffset provenanceLength captureTime payloadOffset payloadLength actorId : UInt64)
    (iv : List UInt8) (plaintext : List UInt8) : PreserveRecord where
  provenancePath := copyPath provenancePath
  provenanceOffset := provenanceOffset
  provenanceLength := provenanceLength
  captureTime := captureTime
  payloadOffset := payloadOffset
  payloadLength := payloadLength
  actorId := actorId
  state := SAR_PRESERVE_PROBATION
  kind := SAR_PRESERVE_KIND_BYTERANGE
  iv := Vector.ofFn fun i => iv.getD i.val 0
  ivLength := UInt8.ofNat (min iv.length SEMANTICS_AR_IV_MAX)
  contentTag := sarPreserveContentTag plaintext
  causingImagePath := Vector.replicate _ 0

def sarPreserveCovered (records : List PreserveRecord) (path : ProvPath)
    (offset length : UInt64) : Bool :=
  records.any fun r =>
    r.provenancePath == path &&
      sarPresOverlap r.provenanceOffset r.provenanceLength offset length

/-! ### The first gap -/

/-- The record covers position `b` of the path, with the end as the code computes it. -/
def RecCovers (path : ProvPath) (r : PreserveRecord) (b : Nat) : Prop :=
  r.provenancePath = path ∧ r.provenanceOffset.toNat ≤ b ∧
    b < (r.provenanceOffset + r.provenanceLength).toNat

def CoveredBy (records : List PreserveRecord) (path : ProvPath) (b : Nat) : Prop :=
  ∃ r ∈ records, RecCovers path r b

instance (path : ProvPath) (r : PreserveRecord) (b : Nat) : Decidable (RecCovers path r b) :=
  inferInstanceAs (Decidable (_ ∧ _ ∧ _))

instance (records : List PreserveRecord) (path : ProvPath) (b : Nat) :
    Decidable (CoveredBy records path b) :=
  inferInstanceAs (Decidable (∃ r ∈ records, RecCovers path r b))

/-- Byte `b` is in a record of the file whose path reads `text`. -/
def CoveredByText (records : List PreserveRecord) (text : List UInt16) (b : Nat) : Prop :=
  ∃ r ∈ records, pathText r.provenancePath = text ∧ r.provenanceOffset.toNat ≤ b ∧
    b < (r.provenanceOffset + r.provenanceLength).toNat

instance (records : List PreserveRecord) (text : List UInt16) (b : Nat) :
    Decidable (CoveredByText records text b) :=
  inferInstanceAs (Decidable (∃ r ∈ records, _))

theorem CoveredBy.text {b : Nat} (h : CoveredBy records path b) :
    CoveredByText records (pathText path) b := by
  obtain ⟨r, hr, hpath, hrange⟩ := h
  exact ⟨r, hr, congrArg pathText hpath, hrange⟩

/-- One turn of the first inner loop of `sar_preserve_first_gap`. -/
def coverStep (path : ProvPath) (cursor : UInt64) (acc : Bool × UInt64) (r : PreserveRecord) :
    Bool × UInt64 :=
  if r.provenancePath ≠ path then acc
  else
    let ro := r.provenanceOffset
    let re := ro + r.provenanceLength
    if ro ≤ cursor ∧ cursor < re then (true, if re > acc.2 then re else acc.2) else acc

/-- Whether some record of the path covers the cursor, and the furthest end
    among those that do. -/
def coverScan (records : List PreserveRecord) (path : ProvPath) (cursor : UInt64) : Bool × UInt64 :=
  records.foldl (coverStep path cursor) (false, cursor)

def gapEndStep (path : ProvPath) (cursor gapEnd : UInt64) (r : PreserveRecord) : UInt64 :=
  if r.provenancePath ≠ path then gapEnd
  else if r.provenanceOffset > cursor ∧ r.provenanceOffset < gapEnd then r.provenanceOffset
  else gapEnd

def gapEndScan (records : List PreserveRecord) (path : ProvPath) (cursor last : UInt64) : UInt64 :=
  records.foldl (gapEndStep path cursor) last

theorem coverStep_of_covers (acc : Bool × UInt64) (h : RecCovers path r cursor.toNat) :
    (coverStep path cursor acc r).1 = true ∧
    ((coverStep path cursor acc r).2 = acc.2 ∨
      (coverStep path cursor acc r).2 = r.provenanceOffset + r.provenanceLength) ∧
    acc.2 ≤ (coverStep path cursor acc r).2 ∧
    r.provenanceOffset + r.provenanceLength ≤ (coverStep path cursor acc r).2 := by
  obtain ⟨hpath, hlo, hhi⟩ := h
  rw [coverStep, if_neg (not_not.mpr hpath),
    if_pos ⟨le_iff_toNat_le.mpr hlo, lt_iff_toNat_lt.mpr hhi⟩]
  split
  next hgt =>
    exact ⟨rfl, .inr rfl, UInt64.le_of_lt hgt, UInt64.le_refl _⟩
  next hle =>
    exact ⟨rfl, .inl rfl, UInt64.le_refl _, UInt64.not_lt.mp hle⟩

theorem coverStep_of_not_covers {acc : Bool × UInt64} (h : ¬ RecCovers path r cursor.toNat) :
    coverStep path cursor acc r = acc := by
  rw [coverStep]
  by_cases hpath : r.provenancePath = path
  · rw [if_neg (not_not.mpr hpath)]
    apply if_neg
    rintro ⟨hlo, hhi⟩
    exact h ⟨hpath, le_iff_toNat_le.mp hlo, lt_iff_toNat_lt.mp hhi⟩
  · exact if_pos hpath

theorem foldl_coverStep (path : ProvPath) (cursor : UInt64) (records : List PreserveRecord)
    (acc : Bool × UInt64) :
    let res := records.foldl (coverStep path cursor) acc
    (res.1 = true ↔ acc.1 = true ∨ CoveredBy records path cursor.toNat) ∧
    (res.2 = acc.2 ∨ ∃ r ∈ records, RecCovers path r cursor.toNat ∧
      res.2 = r.provenanceOffset + r.provenanceLength) ∧
    acc.2 ≤ res.2 ∧
    (∀ r ∈ records, RecCovers path r cursor.toNat →
      r.provenanceOffset + r.provenanceLength ≤ res.2) := by
  induction records generalizing acc with
  | nil => simp [CoveredBy]
  | cons r records ih =>
    have ih := ih (coverStep path cursor acc r)
    simp only [foldl_cons, CoveredBy, mem_cons, exists_eq_or_imp, forall_eq_or_imp]
    by_cases hr : RecCovers path r cursor.toNat
    · obtain ⟨hflag, hend, hle, hmax⟩ := ih
      obtain ⟨hflag', hend', hle', hge'⟩ := coverStep_of_covers acc hr
      refine ⟨iff_of_true (hflag.mpr (.inl hflag')) (.inr (.inl hr)), ?_,
        UInt64.le_trans hle' hle, fun _ => UInt64.le_trans hge' hle, hmax⟩
      rcases hend with hend | hend
      · rcases hend' with hend' | hend'
        · exact .inl (hend.trans hend')
        · exact .inr (.inl ⟨hr, hend.trans hend'⟩)
      · exact .inr (.inr hend)
    · rw [coverStep_of_not_covers hr] at ih ⊢
      simp only [hr, false_and, false_or, false_imp_iff, true_and]
      exact ih

theorem coverScan_fst :
    (coverScan records path cursor).1 = true ↔ CoveredBy records path cursor.toNat := by
  have h := (foldl_coverStep path cursor records (false, cursor)).1
  exact h.trans (or_iff_right Bool.false_ne_true)

theorem coverScan_snd (h : CoveredBy records path cursor.toNat) :
    ∃ r ∈ records, RecCovers path r cursor.toNat ∧
      (coverScan records path cursor).2 = r.provenanceOffset + r.provenanceLength := by
  obtain ⟨-, hend, -, hmax⟩ := foldl_coverStep path cursor records (false, cursor)
  rcases hend with hend | hend
  · -- the end cannot have stayed at the cursor: a record that covers it ends behind it
    obtain ⟨r, hr, hcov⟩ := h
    have hle := hmax r hr hcov
    rw [hend, le_iff_toNat_le] at hle
    exact absurd hle (Nat.not_le.mpr hcov.2.2)
  · exact hend

theorem lt_coverScan_snd (h : (coverScan records path cursor).1 = true) :
    cursor < (coverScan records path cursor).2 := by
  obtain ⟨r, -, hcov, hend⟩ := coverScan_snd (coverScan_fst.mp h)
  rw [hend, lt_iff_toNat_lt]
  exact hcov.2.2

theorem foldl_gapEndStep (path : ProvPath) (cursor : UInt64) (records : List PreserveRecord)
    (last : UInt64) (hlast : cursor < last) :
    let res := records.foldl (gapEndStep path cursor) last
    cursor < res ∧ res ≤ last ∧
    (res = last ∨ ∃ r ∈ records, r.provenancePath = path ∧ r.provenanceOffset = res) ∧
    (∀ r ∈ records, r.provenancePath = path → cursor < r.provenanceOffset →
      res ≤ r.provenanceOffset) := by
  induction records generalizing last with
  | nil => simp [hlast]
  | cons r records ih =>
    simp only [foldl_cons, mem_cons, exists_eq_or_imp, forall_eq_or_imp]
    by_cases hr : r.provenancePath = path ∧ cursor < r.provenanceOffset ∧ r.provenanceOffset < last
    · obtain ⟨hpath, hlo, hhi⟩ := hr
      have hstep : gapEndStep path cursor last r = r.provenanceOffset := by
        rw [gapEndStep, if_neg (not_not.mpr hpath), if_pos ⟨hlo, hhi⟩]
      rw [hstep]
      obtain ⟨hgt, hle, hsrc, hmin⟩ := ih r.provenanceOffset hlo
      refine ⟨hgt, UInt64.le_trans hle (UInt64.le_of_lt hhi), .inr ?_, fun _ _ => hle, hmin⟩
      exact hsrc.imp (fun hsrc => ⟨hpath, hsrc.symm⟩) id
    · have hstep : gapEndStep path cursor last r = last := by
        rw [gapEndStep]
        by_cases hpath : r.provenancePath = path
        · rw [if_neg (not_not.mpr hpath), if_neg (fun h => hr ⟨hpath, h.1, h.2⟩)]
        · exact if_pos hpath
      rw [hstep]
      obtain ⟨hgt, hle, hsrc, hmin⟩ := ih last hlast
      refine ⟨hgt, hle, hsrc.imp id .inr, fun hpath hlo => ?_, hmin⟩
      exact UInt64.le_trans hle (UInt64.not_lt.mp fun hlt => hr ⟨hpath, hlo, hlt⟩)

/-- The outer loop of `sar_preserve_first_gap`. -/
def firstGapLoop (records : List PreserveRecord) (path : ProvPath) (last cursor : UInt64) :
    Option (UInt64 × UInt64) :=
  if cursor < last then
    if (coverScan records path cursor).1 = true then
      firstGapLoop records path last (coverScan records path cursor).2
    else
      some (cursor, gapEndScan records path cursor last - cursor)
  else none
termination_by 2 ^ 64 - cursor.toNat
decreasing_by
  have hlt := lt_iff_toNat_lt.mp (lt_coverScan_snd (by assumption))
  have := (coverScan records path cursor).2.toNat_lt
  omega

/-- `sar_preserve_first_gap`: offset and length of the first uncovered interval. -/
def sarPreserveFirstGap (records : List PreserveRecord) (path : ProvPath)
    (offset length : UInt64) : Option (UInt64 × UInt64) :=
  firstGapLoop records path (offset + length) offset

/-- What a reported gap is, whatever the records: it lies in the range, everything
    before it is covered, and no record of the path reaches into it. -/
structure GapSpec (records : List PreserveRecord) (path : ProvPath) (first last g l : UInt64) :
    Prop where
  first_le : first.toNat ≤ g.toNat
  pos : 0 < l.toNat
  le_last : g.toNat + l.toNat ≤ last.toNat
  before : ∀ b, first.toNat ≤ b → b < g.toNat → CoveredBy records path b
  ends_before : ∀ r ∈ records, r.provenancePath = path → r.provenanceOffset.toNat ≤ g.toNat →
    (r.provenanceOffset + r.provenanceLength).toNat ≤ g.toNat
  starts_after : ∀ r ∈ records, r.provenancePath = path → g.toNat < r.provenanceOffset.toNat →
    g.toNat + l.toNat ≤ r.provenanceOffset.toNat
  right_end : g.toNat + l.toNat = last.toNat ∨
    ∃ r ∈ records, r.provenancePath = path ∧ r.provenanceOffset.toNat = g.toNat + l.toNat

theorem firstGapLoop_spec : (firstGapLoop records path last cursor = none →
      ∀ b, cursor.toNat ≤ b → b < last.toNat → CoveredBy records path b) ∧
    (∀ g l, firstGapLoop records path last cursor = some (g, l) →
      GapSpec records path cursor last g l) := by
  fun_induction firstGapLoop records path last cursor with
  | case1 cursor hlt hcov ih =>
    -- the record that covers the cursor covers everything up to the new cursor
    obtain ⟨r, hr, hrcov, hend⟩ := coverScan_snd (coverScan_fst.mp hcov)
    have hbetween : ∀ b, cursor.toNat ≤ b → b < (coverScan records path cursor).2.toNat →
        CoveredBy records path b := by
      intro b hlo hhi
      rw [hend] at hhi
      exact ⟨r, hr, hrcov.1, le_trans hrcov.2.1 hlo, hhi⟩
    have hadvance := lt_iff_toNat_lt.mp (lt_coverScan_snd hcov)
    obtain ⟨hnone, hsome⟩ := ih
    constructor
    · intro h b hlo hhi
      by_cases hb : b < (coverScan records path cursor).2.toNat
      · exact hbetween b hlo hb
      · exact hnone h b (by omega) hhi
    · intro g l h
      have hspec := hsome g l h
      refine { hspec with first_le := ?_, before := ?_ }
      · have := hspec.first_le
        omega
      · intro b hlo hhi
        by_cases hb : b < (coverScan records path cursor).2.toNat
        · exact hbetween b hlo hb
        · exact hspec.before b (by omega) hhi
  | case2 cursor hlt hcov =>
    obtain ⟨hgt, hle, hsrc, hmin⟩ := foldl_gapEndStep path cursor records last hlt
    rw [← gapEndScan] at hgt hle hsrc hmin
    have huncov : ¬ CoveredBy records path cursor.toNat := fun h => hcov (coverScan_fst.mpr h)
    have hlen : (gapEndScan records path cursor last - cursor).toNat =
        (gapEndScan records path cursor last).toNat - cursor.toNat :=
      UInt64.toNat_sub_of_le _ _ (UInt64.le_of_lt hgt)
    rw [lt_iff_toNat_lt] at hgt
    rw [le_iff_toNat_le] at hle
    constructor
    · intro h; simp at h
    · intro g l h
      simp only [Option.some.injEq, Prod.mk.injEq] at h
      obtain ⟨rfl, rfl⟩ := h
      refine ⟨le_refl _, by omega, by omega, fun b hlo hhi => by omega, ?_, ?_, ?_⟩
      · intro r hr hpath hlo
        by_contra hhi
        exact huncov ⟨r, hr, hpath, hlo, by omega⟩
      · intro r hr hpath hlo
        have := le_iff_toNat_le.mp (hmin r hr hpath (lt_iff_toNat_lt.mpr hlo))
        omega
      · rcases hsrc with hsrc | ⟨r, hr, hpath, heq⟩
        · left; rw [hlen, hsrc]; rw [hsrc] at hgt; omega
        · right
          refine ⟨r, hr, hpath, ?_⟩
          rw [heq, hlen]; omega
  | case3 cursor hge =>
    constructor
    · intro _ b hlo hhi
      exact absurd (lt_iff_toNat_lt.mpr (lt_of_le_of_lt hlo hhi)) hge
    · intro g l h; simp at h

theorem GapSpec.uncovered (h : GapSpec records path first last g l) :
    ∀ b, g.toNat ≤ b → b < g.toNat + l.toNat → ¬ CoveredBy records path b := by
  rintro b hlo hhi ⟨r, hr, hpath, hrlo, hrhi⟩
  by_cases hstart : r.provenanceOffset.toNat ≤ g.toNat
  · have := h.ends_before r hr hpath hstart
    omega
  · have := h.starts_after r hr hpath (by omega)
    omega

theorem GapSpec.toNat_end (h : GapSpec records path first last g l) :
    (g + l).toNat = g.toNat + l.toNat := by
  have hle := h.le_last
  have hlast := last.toNat_lt
  rw [UInt64.toNat_add, Nat.mod_eq_of_lt (by omega)]

theorem firstGap_progress {length : UInt64}
    (h : sarPreserveFirstGap records path cursor length = some (g, l)) :
    cursor.toNat < (g + l).toNat := by
  have hspec := firstGapLoop_spec.2 g l h
  have hfirst := hspec.first_le
  have hpos := hspec.pos
  rw [hspec.toNat_end]
  omega

theorem GapSpec.not_covered (h : GapSpec records path first last g l) :
    sarPreserveCovered records path g l = false := by
  rw [sarPreserveCovered, any_eq_false]
  intro r hr
  simp only [sarPresOverlap, Bool.and_eq_true, beq_iff_eq, decide_eq_true_eq, not_and,
    lt_iff_toNat_lt, h.toNat_end]
  intro hpath hstart hend
  by_cases hlo : r.provenanceOffset.toNat ≤ g.toNat
  · have := h.ends_before r hr hpath hlo
    omega
  · have := h.starts_after r hr hpath (by omega)
    omega

/-! ### The gaps of a range -/

def Behind (path : ProvPath) (cursor : UInt64) (r : PreserveRecord) : Prop :=
  r.provenancePath = path → r.provenanceOffset ≤ cursor ∧
    r.provenanceOffset + r.provenanceLength ≤ cursor

section

variable {more : List PreserveRecord} (h : ∀ r ∈ more, Behind path cursor r)

include h

theorem foldl_coverStep_behind (acc : Bool × UInt64) :
    more.foldl (coverStep path cursor) acc = acc := by
  induction more with
  | nil => rfl
  | cons r more ih =>
    have hr : ¬ RecCovers path r cursor.toNat := by
      rintro ⟨hpath, -, hend⟩
      exact absurd (h r mem_cons_self hpath).2
        (UInt64.not_le.mpr (UInt64.lt_iff_toNat_lt.mpr hend))
    rw [foldl_cons, coverStep_of_not_covers hr]
    exact ih fun s hs => h s (mem_cons_of_mem _ hs)

theorem foldl_gapEndStep_behind : more.foldl (gapEndStep path cursor) last = last := by
  induction more with
  | nil => rfl
  | cons r more ih =>
    have hr : gapEndStep path cursor last r = last := by
      unfold gapEndStep
      split
      · rfl
      next hpath =>
        refine if_neg fun hlate => ?_
        exact absurd (h r mem_cons_self (not_not.mp hpath)).1 (UInt64.not_le.mpr hlate.1)
    rw [foldl_cons, hr]
    exact ih fun s hs => h s (mem_cons_of_mem _ hs)

theorem coverScan_append :
    coverScan (records ++ more) path cursor = coverScan records path cursor := by
  rw [coverScan, foldl_append, foldl_coverStep_behind h, coverScan]

theorem gapEndScan_append :
    gapEndScan (records ++ more) path cursor last = gapEndScan records path cursor last := by
  rw [gapEndScan, foldl_append, foldl_gapEndStep_behind h, gapEndScan]

end

theorem Behind.mono {cursor' : UInt64} (h : Behind path cursor r) (hle : cursor ≤ cursor') :
    Behind path cursor' r := fun hpath =>
  ⟨UInt64.le_trans (h hpath).1 hle, UInt64.le_trans (h hpath).2 hle⟩

theorem firstGapLoop_append {more : List PreserveRecord} (h : ∀ r ∈ more, Behind path cursor r) :
    firstGapLoop (records ++ more) path last cursor = firstGapLoop records path last cursor := by
  fun_induction firstGapLoop records path last cursor with
  | case1 cursor hlt hcov ih =>
    have hnext := UInt64.le_of_lt (lt_coverScan_snd hcov)
    rw [firstGapLoop, if_pos hlt, coverScan_append h, if_pos hcov]
    exact ih fun r hr => (h r hr).mono hnext
  | case2 cursor hlt hcov =>
    rw [firstGapLoop, if_pos hlt, coverScan_append h, if_neg hcov, gapEndScan_append h]
  | case3 cursor hge => rw [firstGapLoop, if_neg hge]

/-- The gaps that `sar_preserve_first_gap` reports one after the other. -/
def gapList (records : List PreserveRecord) (path : ProvPath) (last cursor : UInt64) :
    List (UInt64 × UInt64) :=
  match hgap : sarPreserveFirstGap records path cursor (last - cursor) with
  | none => []
  | some (gOff, gLen) =>
    have _hprogress := firstGap_progress hgap
    (gOff, gLen) :: gapList records path last (gOff + gLen)
termination_by 2 ^ 64 - cursor.toNat
decreasing_by
  have hlt := (gOff + gLen).toNat_lt
  omega

theorem gapList_of_no_gap (hgap : sarPreserveFirstGap records path cursor (last - cursor) = none) :
    gapList records path last cursor = [] := by
  rw [gapList]
  split
  · rfl
  next h =>
    rw [hgap] at h
    cases h

theorem gapList_of_gap {gOff gLen : UInt64}
    (hgap : sarPreserveFirstGap records path cursor (last - cursor) = some (gOff, gLen)) :
    gapList records path last cursor = (gOff, gLen) :: gapList records path last (gOff + gLen) := by
  rw [gapList]
  split
  next h =>
    rw [hgap] at h
    cases h
  next h =>
    rw [hgap] at h
    cases h
    rfl

theorem firstGap_of_not_lt (h : ¬ cursor < last) :
    sarPreserveFirstGap records path cursor (last - cursor) = none := by
  rw [sarPreserveFirstGap, UInt64.add_comm, UInt64.sub_add_cancel, firstGapLoop, if_neg h]

theorem gapList_not_covered {gap : UInt64 × UInt64}
    (hmem : gap ∈ gapList records path last cursor) :
    sarPreserveCovered records path gap.1 gap.2 = false := by
  fun_induction gapList records path last cursor with
  | case1 cursor hgap => cases hmem
  | case2 cursor gOff gLen hgap hprogress ih =>
    rcases mem_cons.mp hmem with rfl | hmem
    · exact (firstGapLoop_spec.2 gOff gLen hgap).not_covered
    · exact ih hmem

def StartsAt (records : List PreserveRecord) (path : ProvPath) (b : Nat) : Prop :=
  ∃ r ∈ records, r.provenancePath = path ∧ r.provenanceOffset.toNat = b

def gapExtent (gap : UInt64 × UInt64) : Nat × Nat := (gap.1.toNat, (gap.1 + gap.2).toNat)

theorem gapExtent_injective : Function.Injective gapExtent := by
  rintro ⟨g, l⟩ ⟨g', l'⟩ h
  simp only [gapExtent, Prod.mk.injEq, UInt64.toNat_inj] at h
  obtain ⟨rfl, hend⟩ := h
  exact congrArg (Prod.mk g) ((UInt64.add_right_inj g).mp hend)

/-- **The gaps are those of a walk** over the range, and behind the last one it is covered. -/
theorem gapList_walk {lo : Nat} {filled : List (Nat × Nat)}
    (hw : GapWalk (CoveredBy records path) (StartsAt records path) lo last.toNat cursor.toNat
      filled) :
    ∃ c, GapWalk (CoveredBy records path) (StartsAt records path) lo last.toNat c
        (filled ++ (gapList records path last cursor).map gapExtent) ∧
      ∀ b, c ≤ b → b < last.toNat → CoveredBy records path b := by
  fun_induction gapList records path last cursor generalizing filled with
  | case1 cursor hgap =>
    have hnone := firstGapLoop_spec.1 hgap
    rw [UInt64.add_comm, UInt64.sub_add_cancel] at hnone
    exact ⟨cursor.toNat, by simpa using hw, hnone⟩
  | case2 cursor gOff gLen hgap hprogress ih =>
    have hspec := firstGapLoop_spec.2 gOff gLen hgap
    rw [UInt64.add_comm, UInt64.sub_add_cancel] at hspec
    have hpos := hspec.pos
    have hle := hspec.le_last
    have hw' : GapWalk (CoveredBy records path) (StartsAt records path) lo last.toNat
        (gOff + gLen).toNat (filled ++ [gapExtent (gOff, gLen)]) := by
      dsimp only [gapExtent]
      rw [hspec.toNat_end]
      refine hw.fill hspec.first_le (by omega) hle hspec.before hspec.uncovered ?_ hspec.right_end
      rintro b hlo hhi ⟨r, hr, hpath, rfl⟩
      exact absurd hhi (Nat.not_lt.mpr (hspec.starts_after r hr hpath hlo))
    obtain ⟨c, hwalk, hrest⟩ := ih hw'
    rw [append_assoc] at hwalk
    exact ⟨c, hwalk, hrest⟩

/-! ### Changing the table -/

/-- The three outcomes of `sar_preserve_append`: `0`, `SAR_PRES_FULL` and `1`. -/
inductive AppendResult where
  | covered
  | full
  | appended (records : List PreserveRecord)

def sarPreserveAppend (records : List PreserveRecord) (capacity : UInt64)
    (rec : PreserveRecord) : AppendResult :=
  if sarPreserveCovered records rec.provenancePath rec.provenanceOffset rec.provenanceLength then
    .covered
  else if capacity.toNat ≤ records.length then
    .full
  else
    .appended (records ++ [rec])

/-- Some record of the path holds byte `b`, with ends that do not wrap. -/
def Held (records : List PreserveRecord) (path : ProvPath) (b : Nat) : Prop :=
  ∃ r ∈ records, r.provenancePath = path ∧ r.provenanceOffset.toNat ≤ b ∧
    b < r.provenanceOffset.toNat + r.provenanceLength.toNat

theorem coveredBy_iff_held
    (hends : ∀ r ∈ records, r.provenanceOffset.toNat + r.provenanceLength.toNat < 2 ^ 64)
    {b : Nat} : CoveredBy records path b ↔ Held records path b := by
  refine exists_congr fun r => and_congr_right fun hr => ?_
  rw [RecCovers, UInt64.toNat_add, Nat.mod_eq_of_lt (hends r hr)]

/-- **The first gap is the lowest one**, and a record for it can be appended. -/
theorem sarPreserveFirstGap_lowest {offset length : UInt64}
    (hends : ∀ r ∈ records, r.provenanceOffset.toNat + r.provenanceLength.toNat < 2 ^ 64)
    (hquery : offset.toNat + length.toNat < 2 ^ 64) :
    (sarPreserveFirstGap records path offset length = none ↔
      ∀ b, offset.toNat ≤ b → b < offset.toNat + length.toNat → Held records path b) ∧
    ∀ g l, sarPreserveFirstGap records path offset length = some (g, l) →
      0 < l.toNat ∧ offset.toNat ≤ g.toNat ∧
      g.toNat + l.toNat ≤ offset.toNat + length.toNat ∧
      (∀ b, offset.toNat ≤ b → b < g.toNat → Held records path b) ∧
      (∀ b, g.toNat ≤ b → b < g.toNat + l.toNat → ¬ Held records path b) ∧
      sarPreserveCovered records path g l = false ∧
      ∀ rec capacity, rec.provenancePath = path → rec.provenanceOffset = g →
        rec.provenanceLength = l → records.length < capacity.toNat →
        sarPreserveAppend records capacity rec = .appended (records ++ [rec]) := by
  have hlast : (offset + length).toNat = offset.toNat + length.toNat := by
    rw [UInt64.toNat_add, Nat.mod_eq_of_lt hquery]
  obtain ⟨hnone, hsome⟩ : (sarPreserveFirstGap records path offset length = none → _) ∧ _ :=
    firstGapLoop_spec
  simp only [hlast, coveredBy_iff_held hends] at hnone
  constructor
  · refine ⟨hnone, fun hall => ?_⟩
    cases hgap : sarPreserveFirstGap records path offset length with
    | none => rfl
    | some gap =>
      -- a gap would begin with a byte that is held
      have hspec := hsome gap.1 gap.2 hgap
      have hle := hspec.le_last
      have hpos := hspec.pos
      have hheld := hall gap.1.toNat hspec.first_le (by omega)
      exact absurd ((coveredBy_iff_held hends).mpr hheld) (hspec.uncovered _ le_rfl (by omega))
  · intro g l hgap
    have hspec := hsome g l hgap
    refine ⟨hspec.pos, hspec.first_le, hlast ▸ hspec.le_last, ?_, ?_, hspec.not_covered, ?_⟩
    · intro b hlo hhi
      exact (coveredBy_iff_held hends).mp (hspec.before b hlo hhi)
    · intro b hlo hhi hheld
      exact hspec.uncovered b hlo hhi ((coveredBy_iff_held hends).mpr hheld)
    · rintro rec capacity rfl rfl rfl hroom
      rw [sarPreserveAppend, hspec.not_covered, if_neg Bool.false_ne_true,
        if_neg (Nat.not_le.mpr hroom)]

/-- An empty record inside a range that is otherwise not held. -/
theorem sarPreserveFirstGap_lowest_empty_record :
    ∃ records : List PreserveRecord, records.length = 1 ∧
      (sarPreserveFirstGap records (Vector.replicate _ 0) 0 8 ≠ none) := by
  refine ⟨[sarPreserveRecordInit (Vector.replicate _ 0) 4 0 0 0 0 0 [] []], rfl, ?_⟩
  rw [Ne, (sarPreserveFirstGap_lowest (by decide) (by decide)).1]
  intro hall
  obtain ⟨r, hr, -, hlo, hhi⟩ := hall 0 le_rfl (by decide)
  rw [mem_singleton.mp hr] at hlo
  exact absurd hlo (by decide)

def promoteRecord (actorId : UInt64) (r : PreserveRecord) : PreserveRecord :=
  if r.state = SAR_PRESERVE_PROBATION ∧ r.actorId = actorId then
    { r with state := SAR_PRESERVE_PROTECTED }
  else r

/-- `sar_preserve_promote`: the table and the number of promoted records. -/
def sarPreservePromote (records : List PreserveRecord) (actorId : UInt64) :
    List PreserveRecord × Nat :=
  (records.map (promoteRecord actorId),
    records.countP fun r => decide (r.state = SAR_PRESERVE_PROBATION ∧ r.actorId = actorId))

/-- The records `sar_preserve_reconcile` discards. -/
def reconcileRemoves (path : ProvPath) (keyOffset keyLength : UInt64) (r : PreserveRecord) : Bool :=
  r.provenancePath == path &&
    sarPresContains keyOffset keyLength r.provenanceOffset r.provenanceLength

def sarPreserveReconcile (records : List PreserveRecord) (path : ProvPath)
    (keyOffset keyLength : UInt64) : List PreserveRecord × Nat :=
  (records.filter fun r => !reconcileRemoves path keyOffset keyLength r,
    records.countP (reconcileRemoves path keyOffset keyLength))

/-- The test of `sar_preserve_evict_aged`. -/
def agedOut (now retention : UInt64) (r : PreserveRecord) : Bool :=
  decide (now > r.captureTime) && decide (now - r.captureTime ≥ retention)

def sarPreserveEvictAged (records : List PreserveRecord) (now retention : UInt64) :
    List PreserveRecord × Nat :=
  (records.filter fun r => !agedOut now retention r, records.countP (agedOut now retention))

/-! ### Byte counts and eviction for room -/

def sarPreserveTotalBytes (records : List PreserveRecord) : UInt64 :=
  records.foldl (fun total r => total + r.payloadLength) 0

def sarPreserveProtectedBytes (records : List PreserveRecord) : UInt64 :=
  records.foldl (fun total r =>
    if r.state = SAR_PRESERVE_PROTECTED then total + r.payloadLength else total) 0

def sarPreserveProbationBytes (records : List PreserveRecord) : UInt64 :=
  records.foldl (fun total r =>
    if r.state = SAR_PRESERVE_PROBATION then total + r.payloadLength else total) 0

/-- The search loop of `sar_preserve_evict_probation_oldest`: index and capture
    time of the oldest probation record seen so far, the first among equals. -/
def oldestStep (acc : Option (Nat × UInt64)) (entry : PreserveRecord × Nat) :
    Option (Nat × UInt64) :=
  if entry.1.state ≠ SAR_PRESERVE_PROBATION then acc
  else
    match acc with
    | none => some (entry.2, entry.1.captureTime)
    | some best => if entry.1.captureTime < best.2 then some (entry.2, entry.1.captureTime) else acc

def oldestProbation (records : List PreserveRecord) : Option (Nat × UInt64) :=
  records.zipIdx.foldl oldestStep none

/-- What the search loop knows of the records it has seen: none is on probation, or the best
    entry is the oldest that is, the first among equals. -/
def OldestOf (seen : List PreserveRecord) : Option (Nat × UInt64) → Prop
  | none => ∀ s ∈ seen, s.state ≠ SAR_PRESERVE_PROBATION
  | some best => ∃ front r back, seen = front ++ r :: back ∧
      best = (front.length, r.captureTime) ∧ r.state = SAR_PRESERVE_PROBATION ∧
      (∀ s ∈ front, s.state = SAR_PRESERVE_PROBATION → r.captureTime < s.captureTime) ∧
      ∀ s ∈ back, s.state = SAR_PRESERVE_PROBATION → r.captureTime ≤ s.captureTime

section

variable {seen : List PreserveRecord} {acc : Option (Nat × UInt64)} {best : Nat × UInt64}

theorem OldestOf.step (h : OldestOf seen acc) (e : PreserveRecord) :
    OldestOf (seen ++ [e]) (oldestStep acc (e, seen.length)) := by
  unfold oldestStep
  by_cases hstate : e.state = SAR_PRESERVE_PROBATION
  · rw [if_neg (not_not.mpr hstate)]
    cases acc with
    | none =>
      exact ⟨seen, e, [], rfl, rfl, hstate, fun s hs hprob => absurd hprob (h s hs),
        forall_mem_nil _⟩
    | some best =>
      obtain ⟨front, r, back, rfl, rfl, hprob, hfront, hback⟩ := h
      dsimp only
      split
      next hlt =>
        refine ⟨_, e, [], rfl, rfl, hstate, forall_mem_append.mpr ⟨?_, ?_⟩, forall_mem_nil _⟩
        · exact fun s hs hs' => UInt64.lt_trans hlt (hfront s hs hs')
        · exact forall_mem_cons.mpr ⟨fun _ => hlt, fun s hs hs' =>
            UInt64.lt_of_lt_of_le hlt (hback s hs hs')⟩
      next hge =>
        exact ⟨front, r, back ++ [e], by simp, rfl, hprob, hfront, forall_mem_append.mpr
          ⟨hback, forall_mem_singleton.mpr fun _ => UInt64.not_lt.mp hge⟩⟩
  · rw [if_pos hstate]
    cases acc with
    | none => exact forall_mem_append.mpr ⟨h, forall_mem_singleton.mpr hstate⟩
    | some best =>
      obtain ⟨front, r, back, rfl, hbest, hprob, hfront, hback⟩ := h
      exact ⟨front, r, back ++ [e], by simp, hbest, hprob, hfront, forall_mem_append.mpr
        ⟨hback, forall_mem_singleton.mpr fun hs => absurd hs hstate⟩⟩

theorem foldl_oldestStep (entries seen : List PreserveRecord) (h : OldestOf seen acc) :
    OldestOf (seen ++ entries) ((entries.zipIdx seen.length).foldl oldestStep acc) := by
  induction entries generalizing seen acc with
  | nil => rwa [append_nil]
  | cons e entries ih => simpa using ih (seen ++ [e]) (h.step e)

theorem oldestProbation_spec : OldestOf records (oldestProbation records) :=
  foldl_oldestStep records [] (forall_mem_nil _)

theorem oldestProbation_some (h : oldestProbation records = some best) :
    ∃ front r back, records = front ++ r :: back ∧ records.eraseIdx best.1 = front ++ back ∧
      r.state = SAR_PRESERVE_PROBATION ∧
      (∀ s ∈ front, s.state = SAR_PRESERVE_PROBATION → r.captureTime < s.captureTime) ∧
      ∀ s ∈ back, s.state = SAR_PRESERVE_PROBATION → r.captureTime ≤ s.captureTime := by
  have hspec : OldestOf records _ := oldestProbation_spec
  rw [h] at hspec
  obtain ⟨front, r, back, rfl, rfl, hrest⟩ := hspec
  exact ⟨front, r, back, rfl, by simp [eraseIdx_append], hrest⟩

end

def sarPreserveEvictProbationOldest (records : List PreserveRecord) (probationCap : UInt64) :
    List PreserveRecord × Nat :=
  if sarPreserveProbationBytes records ≤ probationCap then (records, 0)
  else
    match h : oldestProbation records with
    | none => (records, 0)
    | some best =>
      let rest := sarPreserveEvictProbationOldest (records.eraseIdx best.1) probationCap
      (rest.1, rest.2 + 1)
termination_by records.length
decreasing_by
  obtain ⟨front, r, back, rfl, herase, -⟩ := oldestProbation_some h
  rw [herase]
  simp

/-- `sar_preserve_verify_extract`: where the target starts inside the decrypted
    region of a record. -/
def sarPreserveVerifyExtract (rec : PreserveRecord) (targetPath : ProvPath)
    (targetOffset targetLength : UInt64) (decrypted : List UInt8) : Except PresStatus UInt64 :=
  if targetLength = 0 then .error .invalidArg
  else if rec.provenancePath ≠ targetPath ∨ decrypted.length ≠ rec.provenanceLength.toNat ∨
      sarPresContains rec.provenanceOffset rec.provenanceLength targetOffset targetLength = false
  then .error .restoreMismatch
  else if sarPreserveContentTag decrypted ≠ rec.contentTag then .error .restoreMismatch
  else .ok (targetOffset - rec.provenanceOffset)

theorem sarPreserveEvictProbationOldest_sublist (records : List PreserveRecord)
    (probationCap : UInt64) :
    (sarPreserveEvictProbationOldest records probationCap).1.Sublist records := by
  fun_induction sarPreserveEvictProbationOldest records probationCap with
  | case1 records hfits => exact .refl _
  | case2 records hover hnone => exact .refl _
  | case3 records hover best hbest _ ih => exact ih.trans (eraseIdx_sublist _ _)

theorem sarPreserveEvictProbationOldest_eq_of_zero {probationCap : UInt64}
    (h : (sarPreserveEvictProbationOldest records probationCap).2 = 0) :
    (sarPreserveEvictProbationOldest records probationCap).1 = records := by
  rw [sarPreserveEvictProbationOldest] at h ⊢
  split
  · rfl
  next hover =>
    rw [if_neg hover] at h
    split at h
    · rfl
    · simp at h

end SemanticsAr
