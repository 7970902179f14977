import Mathlib.Algebra.Order.BigOperators.Group.List
import SemanticsAr.PreserveSections

/-!
# Making room

Which records leave the table, and why.  A stage call moves the table by `Slides`: it
enters records, and where the mode allows it takes away the oldest probation record.
-/

namespace SemanticsAr

open Nat
open List hiding Vector

variable {acc : Option (Nat × UInt64)} {Q P P' room : Preserve}
  {now gOff gLen ctLen probationCap off : UInt64}
  {path : ProvPath} {q p : PreserveRecord → Bool} {bc : BCrypt} {args : StageArgs} {env : StageEnv}
  {r : Option StageResult} {start l records front back : List PreserveRecord} {against : Bool}
  {mode : Mode} {why : Reaped}

/-! ### Byte counts -/

def payloadBytes (records : List PreserveRecord) : Nat :=
  (records.map fun r => r.payloadLength.toNat).sum

@[simp] theorem payloadBytes_nil : payloadBytes [] = 0 := rfl

@[simp] theorem payloadBytes_cons (r : PreserveRecord) :
    payloadBytes (r :: records) = r.payloadLength.toNat + payloadBytes records := by
  simp [payloadBytes]

@[simp] theorem payloadBytes_append :
    payloadBytes (front ++ back) = payloadBytes front + payloadBytes back := by
  simp [payloadBytes]

theorem payloadBytes_sublist {records' : List PreserveRecord} (h : records'.Sublist records) :
    payloadBytes records' ≤ payloadBytes records := by
  induction h with
  | slnil => exact le_refl _
  | cons r _ ih =>
    rw [payloadBytes_cons]
    omega
  | cons_cons r _ ih =>
    rw [payloadBytes_cons, payloadBytes_cons]
    omega

theorem toNat_foldl_payload (acc : UInt64) :
    (records.foldl (fun total r => total + r.payloadLength) acc).toNat =
      (acc.toNat + payloadBytes records) % 2 ^ 64 := by
  induction records generalizing acc with
  | nil => simp [mod_eq_of_lt acc.toNat_lt]
  | cons r records ih =>
    rw [foldl_cons, ih, payloadBytes_cons, UInt64.toNat_add, mod_add_mod, add_assoc]

theorem toNat_totalBytes (h : payloadBytes records < 2 ^ 64) :
    (sarPreserveTotalBytes records).toNat = payloadBytes records := by
  rw [sarPreserveTotalBytes, toNat_foldl_payload, UInt64.toNat_zero, zero_add, mod_eq_of_lt h]

def isProtected (r : PreserveRecord) : Bool := decide (r.state = SAR_PRESERVE_PROTECTED)

def isProbation (r : PreserveRecord) : Bool := decide (r.state = SAR_PRESERVE_PROBATION)

theorem toNat_poolBytes (h : payloadBytes (records.filter p) < 2 ^ 64) :
    (records.foldl (fun total r => if p r = true then total + r.payloadLength else total)
      0).toNat = payloadBytes (records.filter p) := by
  rw [← foldl_filter]
  exact toNat_totalBytes h

theorem toNat_protectedBytes (h : payloadBytes records < 2 ^ 64) :
    (sarPreserveProtectedBytes records).toNat = payloadBytes (records.filter isProtected) := by
  rw [← toNat_poolBytes (lt_of_le_of_lt (payloadBytes_sublist filter_sublist) h)]
  simp only [sarPreserveProtectedBytes, isProtected, decide_eq_true_eq]

theorem toNat_probationBytes (h : payloadBytes (records.filter isProbation) < 2 ^ 64) :
    (sarPreserveProbationBytes records).toNat = payloadBytes (records.filter isProbation) := by
  rw [← toNat_poolBytes h]
  simp only [sarPreserveProbationBytes, isProbation, decide_eq_true_eq]

theorem payloadBytes_pools
    (h : ∀ r ∈ records, r.state = SAR_PRESERVE_PROBATION ∨ r.state = SAR_PRESERVE_PROTECTED) :
    payloadBytes records =
      payloadBytes (records.filter isProtected) + payloadBytes (records.filter isProbation) := by
  induction records with
  | nil => rfl
  | cons r records ih =>
    have ih := ih fun s hs => h s (mem_cons_of_mem _ hs)
    rcases h r mem_cons_self with hstate | hstate
    · have hother : ¬ isProtected r = true := by simp [isProtected, hstate]; decide
      simp [hother, isProbation, hstate, ih]
      omega
    · have hother : ¬ isProbation r = true := by simp [isProbation, hstate]; decide
      simp [hother, isProtected, hstate, ih]
      omega

/-! ### The oldest probation record -/

/-- **The eviction rule.**  What the removal of an oldest probation record keeps holds of the table
    that eviction leaves, and eviction goes on until the probation bytes fit or no probation record
    is left. -/
theorem evictOldest_rule (Inv : List PreserveRecord → Prop)
    (hstep : ∀ front r back, Inv (front ++ r :: back) → r.state = SAR_PRESERVE_PROBATION →
      (∀ s ∈ front ++ back, s.state = SAR_PRESERVE_PROBATION → r.captureTime ≤ s.captureTime) →
      Inv (front ++ back))
    (h : Inv records) :
    Inv (sarPreserveEvictProbationOldest records probationCap).1 ∧
      (sarPreserveProbationBytes (sarPreserveEvictProbationOldest records probationCap).1 ≤
          probationCap ∨
        ∀ r ∈ (sarPreserveEvictProbationOldest records probationCap).1,
          r.state ≠ SAR_PRESERVE_PROBATION) := by
  fun_induction sarPreserveEvictProbationOldest records probationCap with
  | case1 records hfits => exact ⟨h, .inl hfits⟩
  | case2 records hover hnone =>
    have hspec : OldestOf records _ := oldestProbation_spec
    rw [hnone] at hspec
    exact ⟨h, .inr hspec⟩
  | case3 records hover best hbest _ ih =>
    obtain ⟨front, r, back, rfl, herase, hprob, hfront, hback⟩ := oldestProbation_some hbest
    apply ih
    rw [herase]
    exact hstep front r back h hprob (forall_mem_append.mpr
      ⟨fun s hs hs' => UInt64.le_of_lt (hfront s hs hs'), hback⟩)

/-! ### Sliding -/

structure Entered (r : PreserveRecord) : Prop where
  state_eq : r.state = SAR_PRESERVE_PROBATION
  payload_le : r.payloadLength.toNat ≤ 2 ^ 32
  end_eq : (r.provenanceOffset + r.provenanceLength).toNat =
    r.provenanceOffset.toNat + r.provenanceLength.toNat

/-- What a stage call does to the table it starts on: it enters records and, where it may,
    takes away a probation record that no other is older than. -/
inductive Slides (mayEvict : Prop) (start : List PreserveRecord) : List PreserveRecord → Prop where
  | start : Slides mayEvict start start
  | evict {front back : List PreserveRecord} {r : PreserveRecord}
      (hbefore : Slides mayEvict start (front ++ r :: back)) (hmay : mayEvict)
      (hprobation : r.state = SAR_PRESERVE_PROBATION)
      (holdest : ∀ s ∈ front ++ back, s.state = SAR_PRESERVE_PROBATION →
        r.captureTime ≤ s.captureTime) :
      Slides mayEvict start (front ++ back)
  | enter {records : List PreserveRecord} (hbefore : Slides mayEvict start records)
      (r : PreserveRecord) (hentered : Entered r) : Slides mayEvict start (records ++ [r])

theorem Slides.evictOldest {mayEvict : Prop} (h : Slides mayEvict start records) (hmay : mayEvict) :
    Slides mayEvict start (sarPreserveEvictProbationOldest records probationCap).1 := by
  refine (evictOldest_rule _ ?_ h).1
  intro front r back hbefore hprob hold
  exact hbefore.evict hmay hprob hold

theorem filter_sublist_skip {front back : List PreserveRecord} {r : PreserveRecord}
    (h : (l.filter p).Sublist (front ++ r :: back)) (hr : p r = false) :
    (l.filter p).Sublist (front ++ back) := by
  have hfilter := h.filter p
  rw [filter_filter, filter_append, filter_cons_of_neg (by simp [hr]),
    ← filter_append] at hfilter
  simp only [Bool.and_self] at hfilter
  exact hfilter.trans filter_sublist

theorem Slides.split {mayEvict : Prop} (h : Slides mayEvict start records) :
    ∃ kept added, records = kept ++ added ∧ kept.Sublist start ∧ (∀ r ∈ added, Entered r) ∧
      (start.filter isProtected).Sublist kept ∧ (¬ mayEvict → kept = start) := by
  induction h with
  | start => exact ⟨start, [], (append_nil _).symm, .refl _,
      forall_mem_nil _, filter_sublist, fun _ => rfl⟩
  | @evict front back r _ hmay hprob _ ih =>
    obtain ⟨kept, added, hrecords, hsub, hadded, hprotected, -⟩ := ih
    rcases append_eq_append_iff.mp hrecords with ⟨mid, rfl, hback⟩ | ⟨mid, rfl, rfl⟩
    · cases mid with
      | nil =>
        obtain rfl : r :: back = added := hback
        rw [append_nil] at hsub hprotected
        exact ⟨front, back, rfl, hsub, fun s hs => hadded s (mem_cons_of_mem _ hs),
          hprotected, fun hno => absurd hmay hno⟩
      | cons r' mid =>
        obtain ⟨rfl, rfl⟩ : r = r' ∧ back = mid ++ added := cons.inj hback
        have hskip : (front ++ mid).Sublist (front ++ r :: mid) :=
          List.Sublist.append_left (sublist_cons_self _ _) _
        have hr : isProtected r = false := by
          rw [isProtected, hprob]
          decide
        exact ⟨front ++ mid, added, (append_assoc _ _ _).symm, hskip.trans hsub, hadded,
          filter_sublist_skip hprotected hr, fun hno => absurd hmay hno⟩
    · refine ⟨kept, mid ++ back, append_assoc _ _ _, hsub, ?_, hprotected,
        fun hno => absurd hmay hno⟩
      intro s hs
      rw [mem_append] at hs
      exact hadded s (mem_append.mpr (hs.imp_right (mem_cons_of_mem _)))
  | enter _ r hentered ih =>
    obtain ⟨kept, added, rfl, hsub, hadded, hprotected, hall⟩ := ih
    exact ⟨kept, added ++ [r], append_assoc _ _ _, hsub,
      forall_mem_append.mpr ⟨hadded, forall_mem_singleton.mpr hentered⟩, hprotected, hall⟩

/-! ### What eviction achieves -/

theorem evictOldest_protected :
    (sarPreserveEvictProbationOldest records probationCap).1.filter isProtected =
      records.filter isProtected := by
  refine (evictOldest_rule (fun l => l.filter isProtected = records.filter isProtected) ?_ rfl).1
  intro front r back hbefore hprob _
  have hr : ¬ isProtected r = true := by
    rw [isProtected, hprob]
    decide
  rwa [filter_append, filter_cons_of_neg hr, ← filter_append] at hbefore

theorem evictOldest_fits (probationCap : UInt64)
    (hbytes : payloadBytes records < 2 ^ 64) :
    payloadBytes ((sarPreserveEvictProbationOldest records probationCap).1.filter isProbation) ≤
      probationCap.toNat := by
  obtain ⟨hless, hend⟩ := evictOldest_rule (fun l => payloadBytes l < 2 ^ 64)
    (fun front r back hbefore _ _ => lt_of_le_of_lt
      (payloadBytes_sublist (List.Sublist.append_left (sublist_cons_self r back) front))
      hbefore) hbytes
  rcases hend with hfits | hnone
  · rw [← toNat_probationBytes (lt_of_le_of_lt (payloadBytes_sublist filter_sublist) hless)]
    exact UInt64.le_iff_toNat_le.mp hfits
  · rw [filter_eq_nil_iff.mpr fun r hr => by simpa [isProbation] using hnone r hr]
    exact zero_le _

/-! ### The order by age -/

section

variable {entries : List (PreserveRecord × Nat)}

/-- `d` goes before `e`: captured earlier, or at the same time and further to the front. -/
def olderEntry (d e : PreserveRecord × Nat) : Bool :=
  decide (d.1.captureTime < e.1.captureTime) ||
    (d.1.captureTime == e.1.captureTime && decide (d.2 < e.2))

/-- How many probation entries go before `e`. -/
def ageRank (entries : List (PreserveRecord × Nat)) (e : PreserveRecord × Nat) : Nat :=
  entries.countP fun d => isProbation d.1 && olderEntry d e

/-- What is left of the entries without the first `k` probation entries by age. -/
def dropOldest (entries : List (PreserveRecord × Nat)) (k : Nat) : List (PreserveRecord × Nat) :=
  entries.filter fun e => !(isProbation e.1 && decide (ageRank entries e < k))

def leftOldest (entries : List (PreserveRecord × Nat)) (k : Nat) : List PreserveRecord :=
  (dropOldest entries k).map Prod.fst

@[simp] theorem leftOldest_zero : leftOldest entries 0 = entries.map Prod.fst := by
  simp [leftOldest, dropOldest]

/-- One removal is one rank less for every entry behind it. -/
theorem leftOldest_succ {front back : List (PreserveRecord × Nat)} {e : PreserveRecord × Nat}
    (hidx : (front ++ e :: back).Pairwise fun d d' => d.2 < d'.2) (hprob : isProbation e.1 = true)
    (hfront : ∀ d ∈ front, isProbation d.1 = true → e.1.captureTime < d.1.captureTime)
    (hback : ∀ d ∈ back, isProbation d.1 = true → e.1.captureTime ≤ d.1.captureTime) (k : Nat) :
    leftOldest (front ++ e :: back) (k + 1) = leftOldest (front ++ back) k := by
  have hbehind : ∀ d ∈ back, e.2 < d.2 :=
    (pairwise_cons.mp (pairwise_append.mp hidx).2.1).1
  have holder : ∀ d ∈ front ++ back, isProbation d.1 = true →
      olderEntry e d = true ∧ olderEntry d e = false := by
    refine forall_mem_append.mpr ⟨fun d hd hp => ?_, fun d hd hp => ?_⟩
    · have hlt := UInt64.lt_iff_toNat_lt.mp (hfront d hd hp)
      simp [olderEntry, UInt64.lt_iff_toNat_lt, ← UInt64.toNat_inj]
      omega
    · have hle := UInt64.le_iff_toNat_le.mp (hback d hd hp)
      have hlt := hbehind d hd
      simp [olderEntry, UInt64.lt_iff_toNat_lt, ← UInt64.toNat_inj]
      omega
  have hfirst : ageRank (front ++ e :: back) e = 0 := by
    refine countP_eq_zero.mpr fun d hd hd' => ?_
    rw [Bool.and_eq_true] at hd'
    rcases mem_append.mp hd with hd | hd
    · simp [(holder d (mem_append_left _ hd) hd'.1).2] at hd'
    rcases mem_cons.mp hd with rfl | hd
    · simp [olderEntry] at hd'
    · simp [(holder d (mem_append_right _ hd) hd'.1).2] at hd'
  unfold leftOldest dropOldest
  rw [filter_append, filter_cons_of_neg (by simp [hprob, hfirst]), ← filter_append]
  congr 1
  refine filter_congr fun d hd => ?_
  cases hp : isProbation d.1 with
  | false => rfl
  | true =>
    have hrank : ageRank (front ++ e :: back) d = ageRank (front ++ back) d + 1 := by
      simp [ageRank, hprob, (holder d hd hp).1, Nat.add_assoc]
    simp [hrank]

theorem evictOldest_entries (hidx : entries.Pairwise fun d d' => d.2 < d'.2)
    (hrecords : entries.map Prod.fst = records)
    (hsum : payloadBytes (records.filter isProbation) < 2 ^ 64) :
    let out := sarPreserveEvictProbationOldest records probationCap
    out.1 = leftOldest entries out.2 ∧
      payloadBytes (out.1.filter isProbation) ≤ probationCap.toNat ∧
      ∀ j < out.2, probationCap.toNat <
        payloadBytes ((leftOldest entries j).filter isProbation) := by
  fun_induction sarPreserveEvictProbationOldest records probationCap generalizing entries with
  | case1 records hfits =>
    rw [UInt64.le_iff_toNat_le, toNat_probationBytes hsum] at hfits
    exact ⟨by rw [leftOldest_zero, hrecords], hfits, fun j hj => absurd hj (not_lt_zero j)⟩
  | case2 records hover hnone =>
    have hspec : OldestOf records _ := oldestProbation_spec
    rw [hnone] at hspec
    have hnil : records.filter isProbation = [] :=
      filter_eq_nil_iff.mpr fun r hr => by simpa [isProbation] using hspec r hr
    rw [UInt64.le_iff_toNat_le, toNat_probationBytes hsum, hnil] at hover
    exact absurd (zero_le _) hover
  | case3 records hover best hbest rest =>
    rename_i ih
    obtain ⟨front, r, back, rfl, herase, hprob, hfront, hback⟩ := oldestProbation_some hbest
    obtain ⟨front, tail, rfl, rfl, htail⟩ := map_eq_append_iff.mp hrecords
    obtain ⟨e, back, rfl, rfl, rfl⟩ := map_eq_cons_iff.mp htail
    have hless : (front ++ back).Sublist (front ++ e :: back) :=
      List.Sublist.append_left (sublist_cons_self e back) front
    have hsum' := lt_of_le_of_lt
      (payloadBytes_sublist ((hless.map Prod.fst).filter _)) (hrecords ▸ hsum)
    have hsucc := leftOldest_succ hidx (by simpa [isProbation] using hprob)
      (fun d hd hp => hfront d.1 (mem_map_of_mem hd) (by simpa [isProbation] using hp))
      (fun d hd hp => hback d.1 (mem_map_of_mem hd) (by simpa [isProbation] using hp))
    rw [← map_append] at herase
    obtain ⟨hleft, hfits, hmin⟩ := ih (hidx.sublist hless) herase.symm (herase ▸ hsum')
    refine ⟨hleft.trans (hsucc _).symm, hfits, fun j hj => ?_⟩
    cases j with
    | zero =>
      rw [UInt64.le_iff_toNat_le, toNat_probationBytes hsum, not_le] at hover
      rwa [leftOldest_zero, hrecords]
    | succ j =>
      rw [hsucc]
      exact hmin j (lt_of_succ_lt_succ hj)

/-- **Probation eviction removes the shortest prefix by age**, where the probation bytes are
    below 2^64: of the probation records the first `k` by capture time and position, for the
    least `k` that brings the rest within the cap, and no other record. -/
theorem evictProbationOldest_shortest (records : List PreserveRecord) (probationCap : UInt64)
    (hsum : payloadBytes (records.filter isProbation) < 2 ^ 64) :
    ∃ k, sarPreserveEvictProbationOldest records probationCap =
        (leftOldest records.zipIdx k, k) ∧
      payloadBytes ((leftOldest records.zipIdx k).filter isProbation) ≤ probationCap.toNat ∧
      (∀ j < k, probationCap.toNat <
        payloadBytes ((leftOldest records.zipIdx j).filter isProbation)) ∧
      (leftOldest records.zipIdx k).filter (!isProbation ·) = records.filter (!isProbation ·) := by
  have hidx : records.zipIdx.Pairwise fun d d' => d.2 < d'.2 := by
    rw [← List.pairwise_map, List.zipIdx_map_snd]
    exact List.pairwise_lt_range'
  obtain ⟨hleft, hfits, hmin⟩ := evictOldest_entries hidx (List.zipIdx_map_fst 0 records) hsum
  rw [hleft] at hfits
  refine ⟨_, Prod.ext hleft rfl, hfits, hmin, ?_⟩
  rw [leftOldest, dropOldest, List.filter_map, List.filter_filter]
  conv_rhs => rw [← List.zipIdx_map_fst 0 records, List.filter_map]
  congr 1
  refine List.filter_congr fun e _ => ?_
  cases h : isProbation e.1 <;> simp [h]

/-- Of two records of 16 bytes the older one goes, though it is the second. -/
theorem evictProbationOldest_shortest_pair :
    let held := fun time => sarPreserveRecordInit (pathOf [97] fileA_fits) 0 16 time 0 16 7 [] []
    ∃ k, sarPreserveEvictProbationOldest [held 2, held 1] 16 =
        (leftOldest [held 2, held 1].zipIdx k, k) ∧
      payloadBytes ((leftOldest [held 2, held 1].zipIdx k).filter isProbation) ≤ 16 := by
  obtain ⟨k, heq, hfits, -⟩ := evictProbationOldest_shortest
    [sarPreserveRecordInit (pathOf [97] fileA_fits) 0 16 2 0 16 7 [] [],
      sarPreserveRecordInit (pathOf [97] fileA_fits) 0 16 1 0 16 7 [] []] 16 (by decide)
  exact ⟨k, heq, hfits⟩

end

structure RecordFits (r : PreserveRecord) : Prop where
  pool : r.state = SAR_PRESERVE_PROBATION ∨ r.state = SAR_PRESERVE_PROTECTED
  payload_le : r.payloadLength.toNat ≤ 2 ^ 32
  end_eq : (r.provenanceOffset + r.provenanceLength).toNat =
    r.provenanceOffset.toNat + r.provenanceLength.toNat

theorem Entered.recordFits {r : PreserveRecord} (h : Entered r) : RecordFits r :=
  ⟨.inl h.state_eq, h.payload_le, h.end_eq⟩

def countedReserve (against : Bool) (P : Preserve) : UInt64 :=
  if against then 0 else P.reservedBytes

section

variable (h : stageMakeRoom P against mode ctLen = some room)

include h

/-- What the room tests let through: the payload fits besides everything that is counted,
    or in audit mode probation records made way. -/
theorem stageMakeRoom_cases : sarPreserveProtectedBytes P.records + ctLen ≤ P.capacityBytes ∧
    ((sarPreserveTotalBytes P.records + countedReserve against P + ctLen ≤ P.capacityBytes ∧
        room = P) ∨
      (mode = .audit ∧ room.records = (sarPreserveEvictProbationOldest P.records
        (P.capacityBytes - sarPreserveProtectedBytes P.records - ctLen)).1)) := by
  unfold stageMakeRoom at h
  dsimp only at h
  rw [← countedReserve] at h
  split at h
  · cases h
  split at h
  · cases h
  rename_i hprot
  refine ⟨UInt64.not_lt.mp hprot, ?_⟩
  split at h
  · cases mode with
    | enforce => cases h
    | audit =>
      cases h
      exact .inr ⟨rfl, rfl⟩
  next hsum =>
    exact .inl ⟨UInt64.not_lt.mp hsum, (Option.some.inj h).symm⟩

theorem stageMakeRoom_slides {mayEvict : Prop} (hslides : Slides mayEvict start P.records)
    (hmay : mode = .audit → mayEvict) : Slides mayEvict start room.records := by
  rcases (stageMakeRoom_cases h).2 with ⟨-, rfl⟩ | ⟨hmode, hrecords⟩
  · exact hslides
  · rw [hrecords]
    exact hslides.evictOldest (hmay hmode)

/-- **Room is made for the payload**, as long as the sum that is tested does not wrap. -/
theorem stageMakeRoom_fits (hfits : ∀ r ∈ P.records, RecordFits r)
    (hwrap : payloadBytes P.records + (countedReserve against P).toNat + ctLen.toNat < 2 ^ 64) :
    payloadBytes room.records + ctLen.toNat ≤ P.capacityBytes.toNat := by
  have hbytes : payloadBytes P.records < 2 ^ 64 := by omega
  have hpools := payloadBytes_pools fun r hr => (hfits r hr).pool
  obtain ⟨hprot, ⟨hsum, rfl⟩ | ⟨-, hrecords⟩⟩ := stageMakeRoom_cases h
  · rw [UInt64.le_iff_toNat_le, UInt64.toNat_add, UInt64.toNat_add, toNat_totalBytes hbytes,
      mod_add_mod, mod_eq_of_lt hwrap] at hsum
    omega
  · rw [UInt64.le_iff_toNat_le, UInt64.toNat_add, toNat_protectedBytes hbytes,
      mod_eq_of_lt (by omega)] at hprot
    -- the two pools of what is left: the protected records of before, and what fits behind them
    have hcap : (P.capacityBytes - sarPreserveProtectedBytes P.records - ctLen).toNat =
        P.capacityBytes.toNat - payloadBytes (P.records.filter isProtected) - ctLen.toNat := by
      rw [UInt64.toNat_sub_of_le, UInt64.toNat_sub_of_le, toNat_protectedBytes hbytes]
      · rw [UInt64.le_iff_toNat_le, toNat_protectedBytes hbytes]
        omega
      · rw [UInt64.le_iff_toNat_le, UInt64.toNat_sub_of_le, toNat_protectedBytes hbytes]
        · omega
        · rw [UInt64.le_iff_toNat_le, toNat_protectedBytes hbytes]
          omega
    have hprobation := evictOldest_fits
      (P.capacityBytes - sarPreserveProtectedBytes P.records - ctLen) hbytes
    have hsub := sarPreserveEvictProbationOldest_sublist P.records
      (P.capacityBytes - sarPreserveProtectedBytes P.records - ctLen)
    rw [hrecords, payloadBytes_pools fun r hr => (hfits r (hsub.subset hr)).pool,
      evictOldest_protected]
    omega

end

/-! ### A stage call -/

structure SameBudget (P P' : Preserve) : Prop where
  capacityBytes_eq : P'.capacityBytes = P.capacityBytes
  reservedBytes_eq : P'.reservedBytes = P.reservedBytes
  recordCapacity_eq : P'.recordCapacity = P.recordCapacity
  ready_eq : P'.ready = P.ready

theorem SameBudget.refl : SameBudget P P := ⟨rfl, rfl, rfl, rfl⟩

theorem SameBudget.trans (h : SameBudget P Q) (h' : SameBudget Q P') : SameBudget P P' :=
  ⟨h'.capacityBytes_eq.trans h.capacityBytes_eq, h'.reservedBytes_eq.trans h.reservedBytes_eq,
    h'.recordCapacity_eq.trans h.recordCapacity_eq, h'.ready_eq.trans h.ready_eq⟩

theorem TableFrame.sameBudget (h : TableFrame P P') : SameBudget P P' := by
  obtain ⟨_, _, _, _, _, _, rfl⟩ := h
  exact ⟨rfl, rfl, rfl, rfl⟩

section

variable {turn : TurnEnv}

theorem stageTurn_table (h : stageTurn bc args env turn P gOff gLen = (P', r)) :
    (r = some .dropped ∧ P' = P) ∨
    ∃ room, stageMakeRoom P args.againstReservation turn.mode (sarPresRound16 gLen) = some room ∧
      (r ≠ none ∧ P'.records = room.records ∨
        r = none ∧ room.records.length < room.recordCapacity.toNat ∧
          ∃ iv off, P'.records = room.records ∨
            P'.records = room.records ++ [stageRecord args env iv off gOff gLen]) := by
  obtain ⟨room, -, ⟨hres, rfl, ⟨rfl, rfl⟩ | hroom⟩ | ⟨iv, hroom, -, hcount, hcases⟩⟩ :=
    stageTurn_cases h
  · exact .inl ⟨rfl, rfl⟩
  · exact .inr ⟨_, hroom, .inl ⟨by rcases hres with rfl | rfl <;> simp, rfl⟩⟩
  refine .inr ⟨room, hroom, ?_⟩
  rcases hcases with ⟨rfl, rfl⟩ | ⟨rfl, -, rfl⟩
  · exact .inl ⟨by simp, sarPresAlloc_records⟩
  · refine .inr ⟨rfl, hcount, iv, (sarPresAlloc room (sarPresRound16 gLen) turn.rebuildPool).1, ?_⟩
    rcases appendRecord_cases (writtenStore bc args turn room iv gOff gLen)
      (stageRecord args env iv _ gOff gLen) (by simpa using hcount) with ⟨-, happ⟩ | ⟨-, happ⟩
    · left
      rw [happ, writtenStore_records]
    · right
      simp [happ]

theorem TurnGap.round_le {cursor : UInt64} (hlen : args.plaintext.length = args.length.toNat)
    (hcursor : args.offset.toNat ≤ cursor.toNat) (hgap : TurnGap args P cursor gOff gLen) :
    (sarPresRound16 gLen).toNat ≤ 2 ^ 32 := by
  have hle := hgap.length_le hcursor
  have hlt := args.plaintext_lt
  exact (round16_gap hgap.spec.pos (by omega)).2.2

theorem stageRecord_entered {cursor : UInt64} (hlen : args.plaintext.length = args.length.toNat)
    (hcursor : args.offset.toNat ≤ cursor.toNat) (hgap : TurnGap args P cursor gOff gLen)
    (iv : Vector UInt8 16) : Entered (stageRecord args env iv off gOff gLen) :=
  ⟨rfl, hgap.round_le hlen hcursor, hgap.spec.toNat_end⟩

end

structure TableFits (P : Preserve) : Prop where
  capacity_eq : P.recordCapacity = SAR_PRESERVE_RECORD_CAPACITY
  count_le : P.records.length ≤ P.recordCapacity.toNat
  fits : ∀ r ∈ P.records, RecordFits r

theorem TableFits.payload_le (h : TableFits P) : payloadBytes P.records ≤ 2 ^ 48 := by
  have hsum : payloadBytes P.records ≤ (P.records.map fun r => r.payloadLength.toNat).length *
      2 ^ 32 := by
    refine sum_le_card_nsmul _ _ ?_
    intro n hn
    obtain ⟨r, hr, rfl⟩ := mem_map.mp hn
    exact (h.fits r hr).payload_le
  have hcount := h.count_le
  rw [h.capacity_eq] at hcount
  rw [length_map] at hsum
  have hcount : P.records.length ≤ 65536 := hcount
  omega

def ReserveFits (args : StageArgs) (P : Preserve) : Prop :=
  args.againstReservation = false → P.reservedBytes.toNat + 2 ^ 49 ≤ 2 ^ 64

structure Staging (args : StageArgs) (mayEvict : Prop) (P₀ P : Preserve) : Prop where
  slides : Slides mayEvict P₀.records P.records
  budget : SameBudget P₀ P
  table : TableFits P

section

variable {mayEvict : Prop} {P₀ : Preserve} {n : Nat} {cursor : UInt64}

section

variable (h : Staging args mayEvict P₀ P)

include h

theorem Staging.of_records (hbudget : SameBudget P P')
    (hslides : Slides mayEvict P₀.records P'.records)
    (hcount : P'.records.length ≤ P.recordCapacity.toNat) (hfits : ∀ r ∈ P'.records, RecordFits r) :
    Staging args mayEvict P₀ P' := by
  refine ⟨hslides, h.budget.trans hbudget, ?_, ?_, hfits⟩
  · rw [hbudget.recordCapacity_eq, h.table.capacity_eq]
  · rwa [hbudget.recordCapacity_eq]

theorem Staging.no_wrap (hreserve : ReserveFits args P₀)
    (hlen : args.plaintext.length = args.length.toNat) (hcursor : args.offset.toNat ≤ cursor.toNat)
    (hgap : TurnGap args P cursor gOff gLen) :
    payloadBytes P.records + (countedReserve args.againstReservation P).toNat +
      (sarPresRound16 gLen).toNat < 2 ^ 64 := by
  have hpayload := h.table.payload_le
  have hround := hgap.round_le hlen hcursor
  have hcounted : (countedReserve args.againstReservation P).toNat + 2 ^ 49 ≤ 2 ^ 64 := by
    unfold countedReserve
    split
    · decide
    next hagainst =>
      rw [h.budget.reservedBytes_eq]
      exact hreserve (Bool.eq_false_iff.mpr hagainst)
  omega

/-- **One turn.**  The table slides on; a turn that completes leaves it within the budget,
    and one that does not leaves no more than there was. -/
theorem Staging.turn (hlen : args.plaintext.length = args.length.toNat)
    (hmay : (env.turn n).mode = .audit → mayEvict) (hcursor : args.offset.toNat ≤ cursor.toNat)
    (hgap : TurnGap args P cursor gOff gLen)
    (hturn : stageTurn bc args env (env.turn n) P gOff gLen = (P', r)) :
    Staging args mayEvict P₀ P' ∧ (r ≠ none → payloadBytes P'.records ≤ payloadBytes P.records) ∧
      (r = none → ReserveFits args P₀ → payloadBytes P'.records ≤ P₀.capacityBytes.toNat) := by
  have hbudget := (stageTurn_frame hturn).sameBudget
  rcases stageTurn_table hturn with ⟨rfl, rfl⟩ | ⟨room, hroom, hrest⟩
  · exact ⟨h, fun _ => le_refl _, fun hnone => by cases hnone⟩
  have hmade := stageMakeRoom_roomMade hroom
  have hslides := stageMakeRoom_slides hroom h.slides hmay
  have hfits : ∀ r ∈ room.records, RecordFits r :=
    fun r hr => h.table.fits r (hmade.sublist.subset hr)
  have hless : room.records.length ≤ P.recordCapacity.toNat :=
    le_trans hmade.sublist.length_le h.table.count_le
  rcases hrest with ⟨hsome, hrecords⟩ | ⟨rfl, hcount, iv, off, hrecords⟩
  · refine ⟨?_, fun _ => ?_, fun hnone => absurd hnone hsome⟩
    · rw [← hrecords] at hslides hless hfits
      exact h.of_records hbudget hslides hless hfits
    · rw [hrecords]
      exact payloadBytes_sublist hmade.sublist
  · have hentered : Entered (stageRecord args env iv off gOff gLen) :=
      stageRecord_entered hlen hcursor hgap iv
    rw [hmade.frame.sameBudget.recordCapacity_eq] at hcount
    have hbytes : ReserveFits args P₀ → payloadBytes room.records +
        (sarPresRound16 gLen).toNat ≤ P₀.capacityBytes.toNat := by
      intro hreserve
      rw [← h.budget.capacityBytes_eq]
      exact stageMakeRoom_fits hroom h.table.fits (h.no_wrap hreserve hlen hcursor hgap)
    rcases hrecords with hrecords | hrecords
    · refine ⟨?_, fun hno => absurd rfl hno, fun _ hreserve => ?_⟩
      · rw [← hrecords] at hslides hless hfits
        exact h.of_records hbudget hslides hless hfits
      · rw [hrecords]
        exact le_trans (le_add_right _ _) (hbytes hreserve)
    · refine ⟨h.of_records hbudget ?_ ?_ ?_, fun hno => absurd rfl hno, fun _ hreserve => ?_⟩
      · rw [hrecords]
        exact hslides.enter _ hentered
      · rw [hrecords, length_append]
        exact hcount
      · rw [hrecords]
        exact forall_mem_append.mpr
          ⟨hfits, forall_mem_singleton.mpr hentered.recordFits⟩
      · rw [hrecords, payloadBytes_append]
        exact hbytes hreserve

/-- **The whole loop.** -/
theorem Staging.loop (hlen : args.plaintext.length = args.length.toNat)
    (hmay : ∀ n, (env.turn n).mode = .audit → mayEvict) :
    Staging args mayEvict P₀ (stageLoop bc args env 0 P args.offset false).1 ∧
      ((stageLoop bc args env 0 P args.offset false).2.2 = true → ReserveFits args P₀ →
        payloadBytes (stageLoop bc args env 0 P args.offset false).1.records ≤
          P₀.capacityBytes.toNat) := by
  refine stageLoop_rule
    (fun _ Q cursor staged => args.offset.toNat ≤ cursor.toNat ∧ Staging args mayEvict P₀ Q ∧
      (staged = true → ReserveFits args P₀ → payloadBytes Q.records ≤ P₀.capacityBytes.toNat))
    (fun Q _ staged => Staging args mayEvict P₀ Q ∧
      (staged = true → ReserveFits args P₀ → payloadBytes Q.records ≤ P₀.capacityBytes.toNat))
    ?_ ?_ ?_ ⟨le_refl _, h, fun hstaged => by cases hstaged⟩
  · intro n Q cursor staged hinv _
    exact hinv.2
  · rintro n Q cursor staged gOff gLen Q' result ⟨hcursor, hQ, hbytes⟩ hgap hturn
    obtain ⟨hstaging, hless, -⟩ := hQ.turn hlen (hmay n) hcursor hgap hturn
    refine ⟨hstaging, fun hstaged hreserve => ?_⟩
    exact le_trans (hless (Option.some_ne_none _)) (hbytes hstaged hreserve)
  · rintro n Q cursor staged gOff gLen Q' ⟨hcursor, hQ, -⟩ hgap hturn
    obtain ⟨hstaging, -, hfits⟩ := hQ.turn hlen (hmay n) hcursor hgap hturn
    refine ⟨?_, hstaging, fun _ => hfits rfl⟩
    rw [hgap.spec.toNat_end]
    exact le_trans hcursor (le_trans hgap.spec.first_le (le_add_right _ _))

end

end

/-- The flag `staged` at the end of a stage call. -/
def stageStaged (bc : BCrypt) (args : StageArgs) (env : StageEnv) (P : Preserve) : Bool :=
  if P.ready = false then false
  else if args.plaintext.length = 0 ∨ args.length = 0 then false
  else if args.plaintext.length ≠ args.length.toNat then false
  else (stageLoop bc args env 0 (evictAged P env.now) args.offset false).2.2

def StageEnv.Audits (env : StageEnv) : Prop := ∃ n, (env.turn n).mode = .audit

theorem TableFits.evictAged (h : TableFits P) (now : UInt64) : TableFits (evictAged P now) :=
  ⟨h.capacity_eq, le_trans filter_sublist.length_le h.count_le,
    fun r hr => h.fits r (filter_sublist.subset hr)⟩

/-- **A stage call** turns the call down, or the records that age eviction leaves slide. -/
theorem sarPreserveStage_staging
    (h : TableFits P) :
    ((sarPreserveStage bc args env P).1 = P ∧ stageStaged bc args env P = false) ∨
    (Staging args env.Audits (SemanticsAr.evictAged P env.now) (sarPreserveStage bc args env P).1 ∧
      (stageStaged bc args env P = true → ReserveFits args P →
        payloadBytes (sarPreserveStage bc args env P).1.records ≤ P.capacityBytes.toNat)) := by
  unfold sarPreserveStage stageStaged
  split
  · exact .inl ⟨rfl, rfl⟩
  split
  · exact .inl ⟨rfl, rfl⟩
  split
  · exact .inl ⟨rfl, rfl⟩
  rename_i hlen
  have hstart : Staging args env.Audits (SemanticsAr.evictAged P env.now)
      (SemanticsAr.evictAged P env.now) := ⟨.start, SameBudget.refl, h.evictAged env.now⟩
  exact .inr (hstart.loop (not_not.mp hlen) fun n hn => ⟨n, hn⟩)

/-! ### Why a record may leave -/

def PastRetention (now retention : UInt64) (r : PreserveRecord) : Prop :=
  r.captureTime.toNat + retention.toNat ≤ now.toNat

def InsideRange (path : ProvPath) (keyOffset keyLength : UInt64) (r : PreserveRecord) : Prop :=
  r.provenancePath = path ∧ keyOffset.toNat ≤ r.provenanceOffset.toNat ∧
    r.provenanceOffset.toNat + r.provenanceLength.toNat ≤ keyOffset.toNat + keyLength.toNat

instance (now retention : UInt64) (r : PreserveRecord) :
    Decidable (PastRetention now retention r) :=
  inferInstanceAs (Decidable (_ ≤ _))

instance (path : ProvPath) (keyOffset keyLength : UInt64) (r : PreserveRecord) :
    Decidable (InsideRange path keyOffset keyLength r) :=
  inferInstanceAs (Decidable (_ ∧ _ ∧ _))

theorem pastRetention_of_agedOut {retention : UInt64} {r : PreserveRecord}
    (h : agedOut now retention r = true) : PastRetention now retention r := by
  simp only [agedOut, Bool.and_eq_true, decide_eq_true_eq] at h
  obtain ⟨hlt, hle⟩ := h
  rw [ge_iff_le, UInt64.le_iff_toNat_le, UInt64.toNat_sub_of_le _ _ (UInt64.le_of_lt hlt)] at hle
  rw [gt_iff_lt, UInt64.lt_iff_toNat_lt] at hlt
  unfold PastRetention
  omega

theorem insideRange_of_reconcileRemoves {keyOffset keyLength : UInt64} {r : PreserveRecord}
    (hfits : RecordFits r) (h : reconcileRemoves path keyOffset keyLength r = true) :
    InsideRange path keyOffset keyLength r := by
  simp only [reconcileRemoves, sarPresContains, Bool.and_eq_true, beq_iff_eq,
    decide_eq_true_eq] at h
  obtain ⟨hpath, hlo, hhi⟩ := h
  rw [UInt64.le_iff_toNat_le, hfits.end_eq, UInt64.toNat_add] at hhi
  exact ⟨hpath, UInt64.le_iff_toNat_le.mp hlo, le_trans hhi (mod_le _ _)⟩

def Reaped.Excuses : Reaped → PreserveRecord → Prop
  | aged now retention => PastRetention now retention
  | inside path keyOffset keyLength => InsideRange path keyOffset keyLength

instance (why : Reaped) (r : PreserveRecord) : Decidable (why.Excuses r) :=
  match why with
  | .aged now retention => inferInstanceAs (Decidable (PastRetention now retention r))
  | .inside path keyOffset keyLength =>
    inferInstanceAs (Decidable (InsideRange path keyOffset keyLength r))

theorem Reaped.excuses_of_test {why : Reaped} {r : PreserveRecord} (hfits : RecordFits r)
    (h : why.test r = true) : why.Excuses r := by
  cases why with
  | aged now retention => exact pastRetention_of_agedOut h
  | inside path keyOffset keyLength => exact insideRange_of_reconcileRemoves hfits h

/-- For what reason a section takes records away: the retention time, if it evicts by age,
    or the range that it reconciles. -/
def StoreSection.reason (P : Preserve) : StoreSection → Option Reaped
  | call (.stage _ env) _ => some (.aged env.now P.retention100ns)
  | call (.stageLink _ _ _ _ now _) _ => some (.aged now P.retention100ns)
  | call _ _ => none
  | reap why => some why
  | reconcile path keyOffset keyLength => some (.inside path keyOffset keyLength)
  | evict now => some (.aged now P.retention100ns)

def StoreSection.Removable (P : Preserve) (sec : StoreSection) (r : PreserveRecord) : Prop :=
  ∃ why ∈ sec.reason P, why.Excuses r

instance (P : Preserve) (sec : StoreSection) (r : PreserveRecord) :
    Decidable (sec.Removable P r) :=
  inferInstanceAs (Decidable (∃ why ∈ sec.reason P, why.Excuses r))

def StoreSection.Enforced : StoreSection → Prop
  | call (.stage _ env) _ => ∀ n, (env.turn n).mode = .enforce
  | _ => True

def StoreSection.carry (P : Preserve) : StoreSection → PreserveRecord → PreserveRecord
  | call (.promote actorId) _ => if P.ready then promoteRecord actorId else id
  | call (.rename oldPath newPath) _ => if P.ready then renameRecord oldPath newPath else id
  | _ => id

structure Leaves (bc : BCrypt) (P : Preserve) (sec : StoreSection)
    (kept added : List PreserveRecord) : Prop where
  records_eq : (sec.apply bc P).records = kept.map (sec.carry P) ++ added
  kept_sub : kept.Sublist P.records
  entered : ∀ r ∈ added, Entered r
  enforced : sec.Enforced → (P.records.filter fun r => ¬ sec.Removable P r).Sublist kept
  pinned : (P.records.filter fun r => r.state = SAR_PRESERVE_PROTECTED ∧
    ¬ sec.Removable P r).Sublist kept

theorem filter_sublist_filter (h : ∀ r ∈ l, p r = true → q r = true) :
    (l.filter p).Sublist (l.filter q) := by
  have heq : l.filter p = (l.filter q).filter p := by
    rw [filter_filter]
    refine filter_congr fun r hr => ?_
    cases hp : p r
    · rfl
    · rw [h r hr hp]
      rfl
  rw [heq]
  exact filter_sublist

section

variable {sec : StoreSection} {kept added : List PreserveRecord}

theorem Leaves.of_all (hrecords : (sec.apply bc P).records = kept.map (sec.carry P) ++ added)
    (hsub : kept.Sublist P.records) (hentered : ∀ r ∈ added, Entered r)
    (hall : (P.records.filter fun r => ¬ sec.Removable P r).Sublist kept) :
    Leaves bc P sec kept added := by
  refine ⟨hrecords, hsub, hentered, fun _ => hall, List.Sublist.trans ?_ hall⟩
  refine filter_sublist_filter fun r _ h => ?_
  simp only [decide_eq_true_eq] at h ⊢
  exact h.2

theorem Leaves.of_map (hrecords : (sec.apply bc P).records = P.records.map (sec.carry P)) :
    Leaves bc P sec P.records [] :=
  .of_all (by rw [hrecords, append_nil]) (.refl _)
    (forall_mem_nil _) filter_sublist

theorem Leaves.of_same (hcarry : sec.carry P = id)
    (hrecords : (sec.apply bc P).records = P.records) :
    Leaves bc P sec P.records [] :=
  .of_map (by rw [hcarry, map_id, hrecords])

theorem filter_test_keeps (hfits : TableFits P) (why : Reaped)
    (hreason : sec.reason P = some why) :
    (P.records.filter fun r => ¬ sec.Removable P r).Sublist
      (P.records.filter fun r => !why.test r) := by
  refine filter_sublist_filter fun r hr hstay => ?_
  simp only [decide_eq_true_eq, Bool.not_eq_true'] at hstay ⊢
  rw [Bool.eq_false_iff]
  intro htest
  exact hstay ⟨why, hreason, Reaped.excuses_of_test (hfits.fits r hr) htest⟩

theorem filter_sublist_eraseP (h : ∀ r ∈ l, q r = true → p r = false) :
    (l.filter p).Sublist (l.eraseP q) := by
  by_cases hany : ∃ r ∈ l, q r = true
  · obtain ⟨r, hr, hqr⟩ := hany
    obtain ⟨a, front, back, -, hqa, hl, herase⟩ := exists_of_eraseP hr hqr
    rw [herase]
    refine filter_sublist_skip (r := a) ?_ (h a ?_ hqa)
    · rw [← hl]
      exact filter_sublist
    · rw [hl]
      exact mem_append_right _ mem_cons_self
  · rw [eraseP_of_forall_not fun r hr hqr => hany ⟨r, hr, hqr⟩]
    exact filter_sublist

theorem Leaves.of_reason (hfits : TableFits P) (hreason : sec.reason P = some why)
    (hcarry : sec.carry P = id)
    (hrecords : (sec.apply bc P).records = P.records.filter (fun r => !why.test r) ∨
      (sec.apply bc P).records = P.records.eraseP why.namespaceMatch) :
    Leaves bc P sec (sec.apply bc P).records [] := by
  refine .of_all ?_ ?_ (forall_mem_nil _) ?_
  · rw [hcarry, map_id, append_nil]
  · rcases hrecords with hrecords | hrecords
    · rw [hrecords]
      exact filter_sublist
    · rw [hrecords]
      exact eraseP_sublist
  · rcases hrecords with hrecords | hrecords
    · rw [hrecords]
      exact filter_test_keeps hfits why hreason
    · rw [hrecords]
      refine filter_sublist_eraseP fun r hr hmatch => ?_
      simp only [Reaped.namespaceMatch, Bool.and_eq_true] at hmatch
      simp only [decide_eq_false_iff_not, not_not]
      exact ⟨why, hreason, Reaped.excuses_of_test (hfits.fits r hr) hmatch.2⟩

end

theorem leaves_stage (hop : (StoreOp.stage args env).OneLock) (hfits : TableFits P) :
    ∃ kept added, Leaves bc P (.call (.stage args env) hop) kept added ∧
      TableFits (sarPreserveStage bc args env P).1 := by
  rcases sarPreserveStage_staging hfits with ⟨hsame, -⟩ | ⟨hstaging, -⟩
  · exact ⟨P.records, [], .of_same rfl (congrArg Preserve.records hsame), hsame.symm ▸ hfits⟩
  obtain ⟨kept, added, hrecords, hsub, hentered, hprotected, hall⟩ := hstaging.slides.split
  have hstay : (P.records.filter fun r =>
      ¬ StoreSection.Removable P (.call (.stage args env) hop) r).Sublist
        (liveRecords P env.now) :=
    filter_test_keeps hfits (.aged env.now P.retention100ns) rfl
  refine ⟨kept, added, ⟨?_, hsub.trans filter_sublist, hentered, ?_, ?_⟩, hstaging.table⟩
  · rw [show StoreSection.carry P (.call (.stage args env) hop) = id from rfl, map_id]
    exact hrecords
  · intro henforced
    rw [hall (by rintro ⟨n, hn⟩; rw [henforced n] at hn; cases hn)]
    exact hstay
  · have hpinned := (hstay.filter isProtected).trans hprotected
    rw [filter_filter] at hpinned
    refine List.Sublist.trans (filter_sublist_filter fun r _ h => ?_) hpinned
    simp only [isProtected, Bool.and_eq_true, decide_eq_true_eq] at h ⊢
    exact h

theorem linkRecord_entered (path : ProvPath) (fileSize actorId linkId now : UInt64)
    (causingPath : ProvPath) : Entered (linkRecord path fileSize actorId linkId now causingPath) :=
  ⟨rfl, zero_le _, by
    show ((0 : UInt64) + fileSize).toNat = 0 + fileSize.toNat
    rw [UInt64.zero_add, zero_add]⟩

theorem leaves_stageLink {fileSize actorId linkId : UInt64} {causingPath : ProvPath}
    (hop : (StoreOp.stageLink path fileSize actorId linkId now causingPath).OneLock)
    (hfits : TableFits P) :
    ∃ kept added, Leaves bc P (.call (.stageLink path fileSize actorId linkId now causingPath) hop)
        kept added ∧
      TableFits (sarPreserveStageLink path fileSize actorId linkId now causingPath P).1 := by
  have hstay : (P.records.filter fun r => ¬ StoreSection.Removable P
      (.call (.stageLink path fileSize actorId linkId now causingPath) hop) r).Sublist
        (liveRecords P now) := filter_test_keeps hfits (.aged now P.retention100ns) rfl
  have haged := hfits.evictAged now
  have hentered := linkRecord_entered path fileSize actorId linkId now causingPath
  generalize hcall : sarPreserveStageLink path fileSize actorId linkId now causingPath P = result
  obtain ⟨P', res⟩ := result
  have happly : (StoreSection.call (.stageLink path fileSize actorId linkId now causingPath)
      hop).apply bc P = P' := congrArg Prod.fst hcall
  have hleaves : ∀ added, P'.records = liveRecords P now ++ added → (∀ r ∈ added, Entered r) →
      Leaves bc P (.call (.stageLink path fileSize actorId linkId now causingPath) hop)
        (liveRecords P now) added := by
    intro added hrecords hadded
    refine .of_all ?_ filter_sublist hadded hstay
    rw [happly, hrecords]
    exact congrArg (· ++ _) (map_id _).symm
  rcases sarPreserveStageLink_cases hcall with ⟨status, -, rfl | rfl⟩ | ⟨-, hcount, rfl⟩
  · exact ⟨P'.records, [], .of_same rfl (congrArg Preserve.records happly), hfits⟩
  · exact ⟨_, [], hleaves [] (append_nil _).symm (forall_mem_nil _), haged⟩
  · rcases appendRecord_cases (evictAged P now) (linkRecord path fileSize actorId linkId now
      causingPath) hcount with ⟨-, happend⟩ | ⟨-, happend⟩
    · rw [happend] at hleaves ⊢
      exact ⟨_, [], hleaves [] (append_nil _).symm (forall_mem_nil _), haged⟩
    · rw [happend] at hleaves ⊢
      refine ⟨_, _, hleaves _ rfl (forall_mem_singleton.mpr hentered), haged.capacity_eq, ?_,
        forall_mem_append.mpr
          ⟨haged.fits, forall_mem_singleton.mpr hentered.recordFits⟩⟩
      rw [length_append]
      exact hcount

theorem RecordFits.carry {r : PreserveRecord} (h : RecordFits r)
    (sec : StoreSection) : RecordFits (sec.carry P r) := by
  unfold StoreSection.carry promoteRecord renameRecord
  split
  · split
    · dsimp only
      split
      · exact ⟨.inr rfl, h.payload_le, h.end_eq⟩
      · exact h
    · exact h
  · split
    · dsimp only
      split
      · exact ⟨h.pool, h.payload_le, h.end_eq⟩
      · exact h
    · exact h
  · exact h

theorem TableFits.of_leaves {sec : StoreSection} {kept : List PreserveRecord} (h : TableFits P)
    (hleaves : Leaves bc P sec kept [])
    (hcapacity : (sec.apply bc P).recordCapacity = P.recordCapacity) :
    TableFits (sec.apply bc P) := by
  have hrecords := hleaves.records_eq
  rw [append_nil] at hrecords
  refine ⟨hcapacity.trans h.capacity_eq, ?_, ?_⟩
  · rw [hrecords, hcapacity, length_map]
    exact le_trans hleaves.kept_sub.length_le h.count_le
  · rw [hrecords]
    intro r hr
    obtain ⟨s, hs, rfl⟩ := mem_map.mp hr
    exact (h.fits s (hleaves.kept_sub.subset hs)).carry sec

theorem sarPreservePromoteActor_frame (actorId : UInt64) (P : Preserve) :
    (sarPreservePromoteActor actorId P).records =
        P.records.map (if P.ready then promoteRecord actorId else id) ∧
      (sarPreservePromoteActor actorId P).recordCapacity = P.recordCapacity := by
  unfold sarPreservePromoteActor
  cases P.ready
  · exact ⟨(map_id _).symm, rfl⟩
  · exact ⟨rfl, rfl⟩

theorem sarPreserveRename_frame (oldPath newPath : ProvPath) (P : Preserve) :
    (sarPreserveRename oldPath newPath P).records =
        P.records.map (if P.ready then renameRecord oldPath newPath else id) ∧
      (sarPreserveRename oldPath newPath P).recordCapacity = P.recordCapacity := by
  unfold sarPreserveRename
  cases P.ready
  · exact ⟨(map_id _).symm, rfl⟩
  · exact ⟨rfl, rfl⟩

/-- **What every section leaves**, and that the table it leaves fits again. -/
theorem StoreSection.leaves (hfits : TableFits P) (sec : StoreSection) :
    ∃ kept added, Leaves bc P sec kept added ∧ TableFits (sec.apply bc P) := by
  have hquiet : ∀ {kept}, Leaves bc P sec kept [] →
      (sec.apply bc P).recordCapacity = P.recordCapacity →
      ∃ kept added, Leaves bc P sec kept added ∧ TableFits (sec.apply bc P) :=
    fun hleaves hcapacity => ⟨_, [], hleaves, hfits.of_leaves hleaves hcapacity⟩
  cases sec with
  | reap why => exact hquiet (.of_reason hfits rfl rfl (.inr rfl)) rfl
  | reconcile path keyOffset keyLength =>
    exact hquiet (.of_reason hfits rfl rfl (.inl rfl)) rfl
  | evict now =>
    exact hquiet (.of_reason hfits rfl rfl (.inl rfl)) rfl
  | call op hop =>
    by_cases hbudgets : op.Budgets
    · obtain ⟨_, _, _, heq⟩ := hbudgets.apply_eq bc P
      have hcarry : (StoreSection.call op hop).carry P = id := by
        cases op with
        | promote _ | rename _ _ => exact absurd hbudgets id
        | _ => rfl
      have hcall : (StoreSection.call op hop).apply bc P = _ := heq
      exact hquiet (.of_same hcarry (by rw [hcall])) (by rw [hcall])
    cases op with
    | reserve _ | release _ | setBudget _ _ | restore _ _ _ _ _ => exact absurd trivial hbudgets
    | load _ | reconcile _ _ _ | maintain _ => exact absurd hop id
    | stage args env => exact leaves_stage hop hfits
    | stageLink path fileSize actorId linkId now causingPath => exact leaves_stageLink hop hfits
    | promote actorId =>
      have hframe := sarPreservePromoteActor_frame actorId P
      exact hquiet (.of_map hframe.1) hframe.2
    | rename oldPath newPath =>
      have hframe := sarPreserveRename_frame oldPath newPath P
      exact hquiet (.of_map hframe.1) hframe.2

/-! ### Reachable tables -/

theorem TableFits.of_take (h : TableFits P)
    (hcapacity : P'.recordCapacity = SAR_PRESERVE_RECORD_CAPACITY) {n : Nat}
    (hn : n ≤ P'.recordCapacity.toNat) (hrecords : P'.records = P.records.take n) :
    TableFits P' := by
  refine ⟨hcapacity, ?_, ?_⟩
  · rw [hrecords, length_take]
    exact le_trans (min_le_left _ _) hn
  · rw [hrecords]
    exact fun r hr => h.fits r (mem_of_mem_take hr)

theorem loadKeyFile_recordCapacity (keyFile : Option (List UInt8)) :
    (loadKeyFile keyFile P).recordCapacity = P.recordCapacity := by
  unfold loadKeyFile
  split
  · rfl
  · dsimp only
    split <;> rfl

theorem ensureKeys_recordCapacity (env : LoadEnv) :
    (ensureKeys env P).1.recordCapacity = P.recordCapacity := by
  unfold ensureKeys
  split
  · rfl
  split
  · rfl
  split <;> rfl

theorem keyedStore_records (env : LoadEnv) : (keyedStore env).records = [] := by
  rw [keyedStore, ensureKeys_records, loadKeyFile_records]
  rfl

theorem keyedStore_recordCapacity (env : LoadEnv) :
    (keyedStore env).recordCapacity = SAR_PRESERVE_RECORD_CAPACITY := by
  rw [keyedStore, ensureKeys_recordCapacity, loadKeyFile_recordCapacity]
  rfl

theorem loadIndex_table (h : TableFits P) (hempty : Q.records = [])
    (hcapacity : Q.recordCapacity = SAR_PRESERVE_RECORD_CAPACITY) {indexFile : Option (List UInt8)}
    (hindex : ∀ buf count, indexFile = some buf →
      sarPreserveVerify buf Q.macKey (if Q.anchor.present then some Q.anchor else none) =
      .ok (.ok count) → ∃ macKey generation, buf = indexBytes macKey P.records generation) :
    TableFits (loadIndex indexFile Q) := by
  have hnone : ∀ Q' : Preserve, Q'.recordCapacity = SAR_PRESERVE_RECORD_CAPACITY →
      Q'.records = [] → TableFits Q' := fun Q' hcapacity' hrecords =>
    h.of_take hcapacity' (zero_le _) (hrecords.trans (take_zero).symm)
  unfold loadIndex
  split
  · exact hnone Q hcapacity hempty
  rename_i buf
  split
  · exact hnone Q hcapacity hempty
  split
  next count hverify =>
    obtain ⟨macKey, generation, rfl⟩ := hindex buf count rfl hverify
    obtain ⟨n, hn, hloaded⟩ := loadedRecords_of_verify hverify
    exact h.of_take hcapacity hn hloaded
  · exact hnone _ hcapacity rfl
  · exact hnone Q hcapacity hempty

theorem Reachable.tableFits (h : Reachable bc P) : TableFits P := by
  induction h with
  | create => exact ⟨rfl, zero_le _, forall_mem_nil _⟩
  | next _ sec ih =>
    obtain ⟨-, -, -, hfits⟩ := sec.leaves ih
    exact hfits
  | boot _ env hindex ih =>
    have hrecords := keyedStore_records env
    have hcapacity := keyedStore_recordCapacity env
    have hkeyed : TableFits (keyedStore env) :=
      ih.of_take hcapacity (zero_le _) (hrecords.trans (take_zero).symm)
    unfold sarPreserveLoad
    unfold keyedStore at hindex hrecords hcapacity hkeyed
    split
    next Q hQ =>
      rwa [hQ] at hkeyed
    next Q hQ =>
      rw [hQ] at hindex hrecords hcapacity hkeyed
      split
      · exact hkeyed
      · have hloaded := loadIndex_table (Q := { Q with dataOpen := true }) ih hrecords hcapacity
          hindex
        exact ⟨hloaded.capacity_eq, hloaded.count_le, hloaded.fits⟩

/-- **Originals are not sacrificed for room.**  In every reachable state: under enforcement only
    records past the retention time or inside a reconciled range of their path leave, protected ones
    for no other reason in any mode, and a stage call that stores something ends within the budget,
    with a table that slid from the records age eviction left it, provided that the reserved bytes
    leave room for a full table. -/
theorem originals_leave_for_reason (bc : BCrypt) {P : Preserve} (hreach : Reachable bc P)
    (sec : StoreSection) :
    (∃ kept added, Leaves bc P sec kept added) ∧
    ∀ args env hop, sec = .call (.stage args env) hop → stageStaged bc args env P = true →
      Slides env.Audits (liveRecords P env.now) (sec.apply bc P).records ∧
      (ReserveFits args P → payloadBytes (sec.apply bc P).records ≤ P.capacityBytes.toNat) := by
  have hfits := hreach.tableFits
  obtain ⟨kept, added, hleaves, -⟩ := sec.leaves hfits
  refine ⟨⟨kept, added, hleaves⟩, ?_⟩
  rintro args env hop rfl hstaged
  rcases sarPreserveStage_staging hfits with ⟨-, hno⟩ | ⟨hstaging, hbytes⟩
  · rw [hno] at hstaged
    cases hstaged
  · exact ⟨hstaging.slides, hbytes hstaged⟩

theorem reachable_freshStore (env : LoadEnv) : Reachable bc (freshStore env) :=
  .boot .create _ fun _ _ h => by cases h

def auditEnv (now : UInt64) : StageEnv :=
  ⟨now, Vector.replicate _ 0, fun _ => { grantedTurn with mode := .audit }⟩

/-- A store with a budget of 16 bytes and 16 bytes of the file `a` held. -/
def fullStore : Preserve :=
  runStore identityCrypt (freshStore firstLoad)
    [.setBudget 1000 16, .stage (stageZeros (pathOf [97] fileA_fits) 0 16) (grantedEnv 1)]

theorem reachable_fullStore : Reachable identityCrypt fullStore :=
  (reachable_freshStore _).runStore (by simp [StoreOp.Loaded])

/-- A call in audit mode on a full store: the only record makes way. -/
theorem originals_leave_oldest :
    stageStaged identityCrypt (stageZeros (pathOf [98] (by decide)) 0 16) (auditEnv 2) fullStore =
        true ∧
      payloadBytes (sarPreserveStage identityCrypt (stageZeros (pathOf [98] (by decide)) 0 16)
        (auditEnv 2) fullStore).1.records ≤ fullStore.capacityBytes.toNat := by
  have hstaged : stageStaged identityCrypt (stageZeros (pathOf [98] (by decide)) 0 16) (auditEnv 2)
      fullStore = true := by decide +kernel
  refine ⟨hstaged, ?_⟩
  refine ((originals_leave_for_reason identityCrypt reachable_fullStore
    (.call (.stage (stageZeros (pathOf [98] (by decide)) 0 16) (auditEnv 2)) trivial)).2 _ _ _ rfl
    hstaged).2 fun _ => ?_
  decide +kernel

/-- The same store after two reservations of 2^63 - 9 bytes, made under a budget that allows
    them: the sum that is tested wraps. -/
def overreservedStore : Preserve :=
  runStore identityCrypt (freshStore firstLoad)
    [.setBudget 1000 18446744073709551615,
      .stage (stageZeros (pathOf [97] fileA_fits) 0 16) (grantedEnv 1),
      .reserve 9223372036854775799, .reserve 9223372036854775799, .setBudget 1000 16]

/-- With these reservations a call in audit mode stores 16 bytes, takes nothing away and
    leaves 32 bytes in a budget of 16. -/
theorem stage_over_budget : Reachable identityCrypt overreservedStore ∧
      stageStaged identityCrypt (stageZeros (pathOf [98] (by decide)) 0 16) (auditEnv 2)
        overreservedStore = true ∧
      overreservedStore.capacityBytes.toNat < payloadBytes (sarPreserveStage identityCrypt
        (stageZeros (pathOf [98] (by decide)) 0 16) (auditEnv 2) overreservedStore).1.records := by
  refine ⟨(reachable_freshStore _).runStore (by simp [StoreOp.Loaded]), ?_, ?_⟩
  · decide +kernel
  · decide +kernel

end SemanticsAr
