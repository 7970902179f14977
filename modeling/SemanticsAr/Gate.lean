import Mathlib.Algebra.GroupWithZero.Nat
import Mathlib.Data.List.Basic

/-!
# The novelty gate

`engine/src/gate.c`: which samples are worth a search for a key.  A block of a write passes if
enough of its changed pairs of neighbouring bytes occur nowhere in the block it replaces.
-/

namespace SemanticsAr

open List Nat

def SAR_GATE_BLOCK_SIZE : Nat := 256
def SAR_GATE_THETA_NUM : UInt32 := 10
def SAR_GATE_THETA_DEN : UInt32 := 100
def SAR_GATE_MIN_NOVELTY_BIGRAMS : UInt32 := 12

/-! ### The map of pairs -/

/-- `sar_gate_map_t`: one bit for each pair of bytes. -/
structure GateMap where
  present : Nat → UInt8

def pairAt (bytes : List UInt8) (i : Nat) : UInt32 :=
  ((bytes.getD i 0).toUInt32 <<< 8) ||| (bytes.getD (i + 1) 0).toUInt32

def GateMap.mark (m : GateMap) (pair : UInt32) : GateMap where
  present k :=
    if k = (pair >>> 3).toNat then m.present k ||| ((1 : UInt32) <<< (pair &&& 7)).toUInt8
    else m.present k

def GateMap.has (m : GateMap) (pair : UInt32) : Bool :=
  ((m.present (pair >>> 3).toNat).toUInt32 >>> (pair &&& 7)) &&& 1 != 0

def mapBuildOverlapping (m : GateMap) (original : List UInt8) (blockLen : Nat) : GateMap :=
  (range (blockLen - 1)).foldl (fun m i => m.mark (pairAt original i))
    { m with present := fun _ => 0 }

/-! ### One block -/

/-- `sar_gate_block_counts`: the map, the changed pairs and those of them that the original
    block has too. -/
def sarGateBlockCounts (scratch : GateMap) (original written : List UInt8) (blockLen : Nat) :
    GateMap × UInt32 × UInt32 :=
  let scratch := mapBuildOverlapping scratch original blockLen
  (scratch, (range (blockLen - 1)).foldl (fun (nq, nc) k =>
    if written.getD k 0 = original.getD k 0 ∧ written.getD (k + 1) 0 = original.getD (k + 1) 0 then
      (nq, nc)
    else (nq + 1, if scratch.has (pairAt written k) then nc + 1 else nc)) (0, 0))

def sarGateFires (nQuery nCovered : UInt32) : Bool :=
  if nQuery = 0 then false
  else
    let novel := nQuery - nCovered
    if novel < SAR_GATE_MIN_NOVELTY_BIGRAMS then false
    else decide (novel * SAR_GATE_THETA_DEN ≥ nQuery * SAR_GATE_THETA_NUM)

/-! ### The blocks of a sample -/

/-- `sar_gate_result_t`. -/
structure GateResult where
  candidate : Bool
  noveltyOff : UInt32
  noveltyLen : UInt32
deriving DecidableEq, Repr

structure GateScan where
  scratch : GateMap
  seen : Bool
  first : Nat
  last : Nat

def GateScan.block (original written : List UInt8) (len : Nat) (s : GateScan) (off : Nat) :
    GateScan :=
  let blockLen := min (len - off) SAR_GATE_BLOCK_SIZE
  let (scratch, nq, nc) :=
    sarGateBlockCounts s.scratch (original.drop off) (written.drop off) blockLen
  if sarGateFires nq nc then
    ⟨scratch, true, if s.seen then s.first else off, off + blockLen⟩
  else { s with scratch := scratch }

def sarGateClassify (scratch : GateMap) (original written : List UInt8) (len : Nat) :
    GateMap × GateResult :=
  let blocks := (len + (SAR_GATE_BLOCK_SIZE - 1)) / SAR_GATE_BLOCK_SIZE
  let s := (range blocks).foldl
    (fun s k => GateScan.block original written len s (k * SAR_GATE_BLOCK_SIZE))
    ⟨scratch, false, 0, 0⟩
  (s.scratch,
    if s.seen then ⟨true, UInt32.ofNat s.first, UInt32.ofNat (s.last - s.first)⟩ else ⟨false, 0, 0⟩)

/-- **The gate does not see what the map held before**: the map is cleared for every block. -/
theorem sarGateClassify_scratch (m m' : GateMap) (original written : List UInt8) (len : Nat) :
    (sarGateClassify m original written len).2 = (sarGateClassify m' original written len).2 := by
  simp only [sarGateClassify]
  generalize range ((len + (SAR_GATE_BLOCK_SIZE - 1)) / SAR_GATE_BLOCK_SIZE) = blocks
  cases blocks with
  | nil => rfl
  | cons k blocks => rfl

/-! ### The definition the gate computes -/

/-- The pairs of neighbouring bytes of a block of which a byte is changed. -/
def changedPairs (original written : List UInt8) (blockLen : Nat) : List Nat :=
  (range (blockLen - 1)).filter fun k =>
    !decide (written.getD k 0 = original.getD k 0 ∧
      written.getD (k + 1) 0 = original.getD (k + 1) 0)

/-- The changed pairs whose written bytes are nowhere a pair of the original block. -/
def novelPairs (original written : List UInt8) (blockLen : Nat) : List Nat :=
  (changedPairs original written blockLen).filter fun k => ∀ i < blockLen - 1,
    ¬ (original.getD i 0 = written.getD k 0 ∧ original.getD (i + 1) 0 = written.getD (k + 1) 0)

/-- Block `k` of a sample is novel. -/
def NovelBlock (original written : List UInt8) (len k : Nat) : Prop :=
  let off := k * 256
  let blockLen := min (len - off) 256
  let novel := (novelPairs (original.drop off) (written.drop off) blockLen).length
  off < len ∧ 12 ≤ novel ∧
    (changedPairs (original.drop off) (written.drop off) blockLen).length ≤ 10 * novel

theorem toNat_and_seven (pair : UInt32) : (pair &&& 7).toNat = pair.toNat % 8 := by
  rw [UInt32.toNat_and]
  exact and_two_pow_sub_one_eq_mod pair.toNat 3

theorem toNat_shift_three (pair : UInt32) : (pair >>> 3).toNat = pair.toNat / 8 := by
  simp [UInt32.toNat_shiftRight, shiftRight_eq_div_pow]

theorem GateMap.has_eq (m : GateMap) (pair : UInt32) :
    m.has pair = (m.present (pair.toNat / 8)).toNat.testBit (pair.toNat % 8) := by
  rw [has, Nat.testBit, Bool.eq_iff_iff, bne_iff_ne, bne_iff_ne, not_iff_not, ← UInt32.toNat_inj,
    UInt32.toNat_and, UInt32.toNat_shiftRight, toNat_and_seven, UInt8.toNat_toUInt32, Nat.and_comm,
    mod_eq_of_lt (show pair.toNat % 8 < 32 by omega), toNat_shift_three]
  rfl

/-- Every pair has a bit of its own. -/
theorem GateMap.has_mark (m : GateMap) (p q : UInt32) :
    (m.mark q).has p = (m.has p || decide (p = q)) := by
  have hbit : ((1 : UInt32) <<< (q &&& 7)).toUInt8.toNat = 2 ^ (q.toNat % 8) := by
    have hr : q.toNat % 8 < 8 := mod_lt _ (by decide)
    have hpow : 2 ^ (q.toNat % 8) < 2 ^ 8 := Nat.pow_lt_pow_right (by decide) hr
    rw [UInt32.toNat_toUInt8, UInt32.toNat_shiftLeft, toNat_and_seven,
      mod_eq_of_lt (show q.toNat % 8 < 32 by omega), UInt32.toNat_one, one_shiftLeft,
      Nat.mod_eq_of_lt (Nat.lt_trans hpow (by decide)), Nat.mod_eq_of_lt hpow]
  rw [has_eq, has_eq, mark]
  dsimp only
  rw [toNat_shift_three]
  by_cases hplace : p.toNat / 8 = q.toNat / 8
  · rw [if_pos hplace, UInt8.toNat_or, testBit_or, hbit, testBit_two_pow]
    congr 1
    rw [decide_eq_decide, ← UInt32.toNat_inj]
    omega
  · have hne : p ≠ q := fun h => hplace (by rw [h])
    simp [hplace, hne]

theorem has_mapBuildOverlapping (m : GateMap) (original : List UInt8) (blockLen : Nat)
    (p : UInt32) : (mapBuildOverlapping m original blockLen).has p = true ↔
      ∃ i < blockLen - 1, pairAt original i = p := by
  have hclear : ({ m with present := fun _ => 0 } : GateMap).has p = false := by
    rw [GateMap.has_eq]
    simp
  rw [mapBuildOverlapping]
  induction blockLen - 1 with
  | zero => simp [hclear]
  | succ n ih =>
    rw [range_succ, foldl_append, foldl_cons, foldl_nil]
    simp only [GateMap.has_mark, Bool.or_eq_true, ih, decide_eq_true_eq, exists_lt_succ_right,
      eq_comm (a := p)]

theorem pairAt_eq_iff (a b : List UInt8) (i k : Nat) : pairAt a i = pairAt b k ↔
    a.getD i 0 = b.getD k 0 ∧ a.getD (i + 1) 0 = b.getD (k + 1) 0 := by
  have hnat : ∀ x y : UInt8,
      ((x.toUInt32 <<< 8) ||| y.toUInt32).toNat = x.toNat * 256 + y.toNat := by
    intro x y
    have hx := x.toNat_lt
    have hy := y.toNat_lt
    rw [UInt32.toNat_or, UInt32.toNat_shiftLeft, UInt8.toNat_toUInt32, UInt8.toNat_toUInt32,
      show (8 : UInt32).toNat % 32 = 8 by rfl, mod_eq_of_lt (by rw [shiftLeft_eq]; omega),
      ← shiftLeft_add_eq_or_of_lt hy, shiftLeft_eq]
  rw [pairAt, pairAt, ← UInt32.toNat_inj, hnat, hnat, ← UInt8.toNat_inj, ← UInt8.toNat_inj]
  have h₁ := (a.getD (i + 1) 0).toNat_lt
  have h₂ := (b.getD (k + 1) 0).toNat_lt
  omega

theorem foldl_counts (same : Nat → Prop) [DecidablePred same] (covered : Nat → Bool) (l : List Nat)
    (a b : UInt32) :
    l.foldl (fun (nq, nc) k => if same k then (nq, nc) else
      (nq + 1, if covered k then nc + 1 else nc)) (a, b) =
      (a + UInt32.ofNat (l.filter fun k => !decide (same k)).length,
        b + UInt32.ofNat ((l.filter fun k => !decide (same k)).filter covered).length) := by
  induction l generalizing a b with
  | nil => simp
  | cons k l ih =>
    by_cases hs : same k
    · simp [hs, ih]
    · by_cases hc : covered k
      · simp [hs, hc, ih, UInt32.ofNat_add, UInt32.add_assoc, UInt32.add_comm]
      · simp [hs, hc, ih, UInt32.ofNat_add, UInt32.add_assoc, UInt32.add_comm]

/-- The counts of a block, whatever the map held before. -/
theorem sarGateBlockCounts_eq (scratch : GateMap) (original written : List UInt8) {n : Nat}
    (hn : n ≤ 256) : ∃ scratch' nq nc,
      sarGateBlockCounts scratch original written n = (scratch', nq, nc) ∧
      nq.toNat ≤ 256 ∧ nq.toNat = (changedPairs original written n).length ∧
      nq.toNat = nc.toNat + (novelPairs original written n).length := by
  have hnovel : novelPairs original written n = (changedPairs original written n).filter fun k =>
      !(mapBuildOverlapping scratch original n).has (pairAt written k) := by
    apply filter_congr
    intro k _
    rw [Bool.eq_iff_iff, Bool.not_eq_true', ← Bool.not_eq_true, has_mapBuildOverlapping]
    simp [pairAt_eq_iff]
  have hsplit := length_eq_length_filter_add (l := changedPairs original written n)
    (fun k => (mapBuildOverlapping scratch original n).has (pairAt written k))
  have hall : (changedPairs original written n).length ≤ n - 1 := by
    simpa [changedPairs] using length_filter_le _ (range (n - 1))
  have hsmall : ∀ m ≤ 256, (UInt32.ofNat m).toNat = m := fun m hm =>
    UInt32.toNat_ofNat_of_lt' (Nat.lt_of_le_of_lt hm (by decide))
  refine ⟨_, _, _, congrArg (Prod.mk _) (foldl_counts _ _ _ 0 0), ?_⟩
  rw [← changedPairs, UInt32.zero_add, UInt32.zero_add, hsmall _ (by omega), hsmall _ (by omega),
    hnovel]
  exact ⟨by omega, rfl, hsplit⟩

theorem sarGateFires_iff {nq nc : UInt32} {v : Nat} (hv : nq.toNat = nc.toNat + v)
    (hq : nq.toNat < 2 ^ 16) : sarGateFires nq nc = true ↔ 12 ≤ v ∧ nq.toNat ≤ 10 * v := by
  have hnovel : (nq - nc).toNat = v := by
    rw [UInt32.toNat_sub_of_le _ _ (UInt32.le_iff_toNat_le.mpr (by omega))]
    omega
  have hden : ((nq - nc) * SAR_GATE_THETA_DEN).toNat = v * 100 := by
    rw [UInt32.toNat_mul, hnovel]
    exact mod_eq_of_lt (by simp [SAR_GATE_THETA_DEN]; omega)
  have hnum : (nq * SAR_GATE_THETA_NUM).toNat = nq.toNat * 10 := by
    rw [UInt32.toNat_mul]
    exact mod_eq_of_lt (by simp [SAR_GATE_THETA_NUM]; omega)
  have hmin : SAR_GATE_MIN_NOVELTY_BIGRAMS.toNat = 12 := rfl
  simp only [sarGateFires, UInt32.lt_iff_toNat_lt, ge_iff_le, UInt32.le_iff_toNat_le, hnovel, hden,
    hnum, hmin, ← UInt32.toNat_inj, UInt32.toNat_zero]
  grind

/-- After the first `n` blocks: `first` and `last` are the ends of the novel ones. -/
structure GateScan.Spans (novel : Nat → Prop) (len n : Nat) (s : GateScan) : Prop where
  unseen : s.seen = false → ∀ k < n, ¬ novel k
  seen : s.seen = true → ∃ a b, novel a ∧ novel b ∧ b < n ∧ (∀ k < n, novel k → a ≤ k ∧ k ≤ b) ∧
    s.first = a * 256 ∧ s.last = min ((b + 1) * 256) len

/-- One block fires exactly if it is novel. -/
theorem GateScan.Spans.block {original written : List UInt8} {len n : Nat} {s : GateScan}
    (h : s.Spans (NovelBlock original written len) len n) (hoff : n * 256 < len) :
    (GateScan.block original written len s (n * 256)).Spans (NovelBlock original written len) len
      (n + 1) := by
  have hend : n * 256 + min (len - n * 256) SAR_GATE_BLOCK_SIZE = min ((n + 1) * 256) len := by
    rw [SAR_GATE_BLOCK_SIZE]
    omega
  obtain ⟨scratch, nq, nc, hcounts, hsmall, hchanged, hnovel⟩ :=
    sarGateBlockCounts_eq s.scratch (original.drop (n * 256)) (written.drop (n * 256))
      (n := min (len - n * 256) SAR_GATE_BLOCK_SIZE) (Nat.min_le_right _ _)
  have hfires : sarGateFires nq nc = true ↔ NovelBlock original written len n := by
    rw [sarGateFires_iff hnovel (by omega), hchanged]
    exact ⟨fun h => ⟨hoff, h⟩, And.right⟩
  simp only [GateScan.block, hcounts, hend]
  by_cases hn : NovelBlock original written len n
  · rw [if_pos (hfires.mpr hn)]
    refine ⟨fun hs => (by cases hs), fun _ => ?_⟩
    cases hs : s.seen with
    | true =>
      obtain ⟨a, b, ha, hb, hlt, hall, hf, -⟩ := h.seen hs
      have hab := (hall b hlt hb).1
      refine ⟨a, n, ha, hn, n.lt_succ_self, fun k hk hkn => ?_, hf, rfl⟩
      rcases Nat.lt_succ_iff_lt_or_eq.mp hk with hk | rfl
      · exact ⟨(hall k hk hkn).1, Nat.le_of_lt hk⟩
      · omega
    | false =>
      refine ⟨n, n, hn, hn, n.lt_succ_self, fun k hk hkn => ?_, rfl, rfl⟩
      rcases Nat.lt_succ_iff_lt_or_eq.mp hk with hk | rfl
      · exact absurd hkn (h.unseen hs k hk)
      · omega
  · have hlater : ∀ k < n + 1, NovelBlock original written len k → k < n := fun k hk hkn =>
      Nat.lt_of_le_of_ne (Nat.le_of_lt_succ hk) fun heq => hn (heq ▸ hkn)
    rw [if_neg (mt hfires.mp hn)]
    refine ⟨fun hs k hk hkn => h.unseen hs k (hlater k hk hkn) hkn, fun hs => ?_⟩
    obtain ⟨a, b, ha, hb, hlt, hall, hends⟩ := h.seen hs
    exact ⟨a, b, ha, hb, by omega, fun k hk hkn => hall k (hlater k hk hkn) hkn, hends⟩

/-- **The gate computes its definition**: it reports a candidate exactly if a block is novel, and
    then the least interval of whole blocks with all of them. -/
theorem sarGateClassify_eq (scratch : GateMap) (original written : List UInt8) (len : Nat)
    (hlen : len < 2 ^ 32) :
    let result := (sarGateClassify scratch original written len).2
    (result.candidate = true ↔ ∃ k, NovelBlock original written len k) ∧
    (result.candidate = true →
      ∃ a b, NovelBlock original written len a ∧ NovelBlock original written len b ∧
        (∀ k, NovelBlock original written len k → a ≤ k ∧ k ≤ b) ∧
        result.noveltyOff.toNat = a * 256 ∧
        result.noveltyOff.toNat + result.noveltyLen.toNat = min ((b + 1) * 256) len) := by
  simp only [sarGateClassify]
  generalize hB : (len + (SAR_GATE_BLOCK_SIZE - 1)) / SAR_GATE_BLOCK_SIZE = B
  replace hB : (len + 255) / 256 = B := hB
  have h : ∀ n ≤ B, ((List.range n).foldl
      (fun s k => GateScan.block original written len s (k * SAR_GATE_BLOCK_SIZE))
      ⟨scratch, false, 0, 0⟩).Spans (NovelBlock original written len) len n := by
    intro n hn
    induction n with
    | zero => exact ⟨by simp, by simp⟩
    | succ n ih =>
      rw [range_succ, foldl_append]
      exact (ih (by omega)).block (by omega)
  replace h := h B (Nat.le_refl B)
  generalize (List.range B).foldl _ _ = s at h ⊢
  have hblocks : ∀ k, NovelBlock original written len k → k < B := by
    intro k hk
    have hoff : k * 256 < len := hk.1
    omega
  have hof : ∀ n < 2 ^ 32, (UInt32.ofNat n).toNat = n := fun n => UInt32.toNat_ofNat_of_lt'
  cases hseen : s.seen with
  | true =>
    obtain ⟨a, b, ha, hb, hlt, hall, hf, hl⟩ := h.seen hseen
    have hab := (hall b hlt hb).1
    have hoff : b * 256 < len := hb.1
    have hfirst : a * 256 < 2 ^ 32 :=
      Nat.lt_of_le_of_lt (Nat.mul_le_mul_right 256 hab) (Nat.lt_trans hoff hlen)
    have hwide : min ((b + 1) * 256) len - a * 256 < 2 ^ 32 := by omega
    rw [if_pos rfl, hf, hl]
    refine ⟨iff_of_true rfl ⟨a, ha⟩, fun _ => ⟨a, b, ha, hb, fun k hk => hall k (hblocks k hk) hk,
      hof _ hfirst, ?_⟩⟩
    rw [hof _ hfirst, hof _ hwide]
    omega
  | false =>
    rw [if_neg (by simp)]
    exact ⟨⟨fun hc => (by cases hc), fun ⟨k, hk⟩ => absurd hk (h.unseen hseen k (hblocks k hk))⟩,
      fun hc => by cases hc⟩

/-- Thirty-two bytes that count up in the place of zeros: one novel block. -/
theorem sarGateClassify_eq_counted :
    let novel := NovelBlock (List.replicate 32 0) ((List.range 32).map UInt8.ofNat) 32
    let result := (sarGateClassify ⟨fun _ => 0⟩ (List.replicate 32 0)
      ((List.range 32).map UInt8.ofNat) 32).2
    (∃ k, novel k) ∧ ∃ a b, novel a ∧ novel b ∧ (∀ k, novel k → a ≤ k ∧ k ≤ b) ∧
      result.noveltyOff.toNat = a * 256 ∧
      result.noveltyOff.toNat + result.noveltyLen.toNat = min ((b + 1) * 256) 32 := by
  have hcandidate : (sarGateClassify ⟨fun _ => 0⟩ (List.replicate 32 0)
      ((List.range 32).map UInt8.ofNat) 32).2.candidate = true := by decide +kernel
  obtain ⟨hiff, hspan⟩ := sarGateClassify_eq ⟨fun _ => 0⟩ (List.replicate 32 0)
    ((List.range 32).map UInt8.ofNat) 32 (by decide)
  exact ⟨hiff.mp hcandidate, hspan hcandidate⟩

end SemanticsAr
