import SemanticsAr.PreserveRestore

/-!
# Holds of one path

A byte-range record enters the table only where no record of its path lies, and no call
moves a range.  Renaming gives records another path without looking at the holds that
are already there, and it is the one call that can bring two holds of one path together.
-/

namespace SemanticsAr

open List

variable {oldPath newPath path : ProvPath} {op : StoreOp} {P : Preserve} {bc : BCrypt}

def InRange (r : PreserveRecord) (b : Nat) : Prop := (provSpan r).1 ≤ b ∧ b < (provSpan r).2

def NoSharedByte (r s : PreserveRecord) : Prop :=
  isByteRange r = true → isByteRange s = true → r.provenancePath = s.provenancePath →
    ∀ b, ¬ (InRange r b ∧ InRange s b)

def HoldsApart (records : List PreserveRecord) : Prop := records.Pairwise NoSharedByte

theorem noSharedByte_holdRelation : HoldRelation NoSharedByte where
  of_apart h _ _ hpath _ hb := (h hpath).not_mem_both hb.1 hb.2
  of_sameHold hr hs h := by
    rw [NoSharedByte, hr, hs]
    exact h

/-! ### Renaming -/

section

variable {r s : PreserveRecord}

@[simp] theorem isByteRange_renameRecord : isByteRange (renameRecord oldPath newPath r) =
    isByteRange r := by
  unfold renameRecord
  split <;> rfl

@[simp] theorem provSpan_renameRecord : provSpan (renameRecord oldPath newPath r) = provSpan r := by
  unfold renameRecord
  split <;> rfl

theorem path_renameRecord_of_eq (h : r.provenancePath = oldPath) :
    (renameRecord oldPath newPath r).provenancePath = newPath := by
  rw [renameRecord, if_pos h]

theorem path_renameRecord_of_ne (h : r.provenancePath ≠ oldPath) :
    (renameRecord oldPath newPath r).provenancePath = r.provenancePath := by
  rw [renameRecord, if_neg h]

theorem path_renameRecord_cases (h : (renameRecord oldPath newPath r).provenancePath =
    (renameRecord oldPath newPath s).provenancePath) :
    r.provenancePath = s.provenancePath ∨
      (r.provenancePath = oldPath ∧ s.provenancePath = newPath) ∨
      (s.provenancePath = oldPath ∧ r.provenancePath = newPath) := by
  by_cases hr : r.provenancePath = oldPath
  · by_cases hs : s.provenancePath = oldPath
    · exact .inl (hr.trans hs.symm)
    · rw [path_renameRecord_of_eq hr, path_renameRecord_of_ne hs] at h
      exact .inr (.inl ⟨hr, h.symm⟩)
  · by_cases hs : s.provenancePath = oldPath
    · rw [path_renameRecord_of_ne hr, path_renameRecord_of_eq hs] at h
      exact .inr (.inr ⟨hs, h⟩)
    · rw [path_renameRecord_of_ne hr, path_renameRecord_of_ne hs] at h
      exact .inl h

end

def PathsMeet (records : List PreserveRecord) (oldPath newPath : ProvPath) : Prop :=
  ∃ r ∈ records, ∃ s ∈ records, isByteRange r = true ∧ isByteRange s = true ∧
    r.provenancePath = oldPath ∧ s.provenancePath = newPath ∧ ∃ b, InRange r b ∧ InRange s b

theorem holdsApart_rename_iff {records : List PreserveRecord} (hne : oldPath ≠ newPath)
    (hapart : HoldsApart records) :
    HoldsApart (records.map (renameRecord oldPath newPath)) ↔
      ¬ PathsMeet records oldPath newPath := by
  rw [HoldsApart, pairwise_map]
  constructor
  · rintro h ⟨r, hr, s, hs, hbr, hbs, hpr, hps, b, hb⟩
    have hsymm : Std.Symm fun r s => NoSharedByte (renameRecord oldPath newPath r)
        (renameRecord oldPath newPath s) :=
      ⟨fun r s h hs hr hpath b hb => h hr hs hpath.symm b hb.symm⟩
    have hrs : r ≠ s := by
      rintro rfl
      exact hne (hpr.symm.trans hps)
    have hps' : s.provenancePath ≠ oldPath := fun h => hne (h.symm.trans hps)
    refine h.forall hr hs hrs ?_ ?_ ?_ b ?_
    · rwa [isByteRange_renameRecord]
    · rwa [isByteRange_renameRecord]
    · rw [path_renameRecord_of_eq hpr, path_renameRecord_of_ne hps', hps]
    · simpa only [InRange, provSpan_renameRecord] using hb
  · intro hmeet
    refine hapart.imp_of_mem ?_
    intro r s hr hs hrs hbr hbs hpath b hb
    rw [isByteRange_renameRecord] at hbr hbs
    simp only [InRange, provSpan_renameRecord] at hb
    rcases path_renameRecord_cases hpath with hpath | ⟨hpr, hps⟩ | ⟨hps, hpr⟩
    · exact hrs hbr hbs hpath b hb
    · exact hmeet ⟨r, hr, s, hs, hbr, hbs, hpr, hps, b, hb⟩
    · exact hmeet ⟨s, hs, r, hr, hbs, hbr, hps, hpr, b, hb.symm⟩

/-! ### Runs -/

def StoreOp.Loaded : StoreOp → Prop
  | .load _ => False
  | _ => True

def RenameApart (P : Preserve) : StoreOp → Prop
  | .rename oldPath newPath =>
    P.ready = true → oldPath ≠ newPath → ¬ PathsMeet P.records oldPath newPath
  | _ => True

theorem sarPreserveRename_records : (sarPreserveRename oldPath newPath P).records =
      if P.ready = true then P.records.map (renameRecord oldPath newPath) else P.records := by
  unfold sarPreserveRename
  cases hready : P.ready <;> rfl

theorem renameRecord_self (r : PreserveRecord) : renameRecord path path r = r := by
  unfold renameRecord
  split
  next h =>
    cases r
    cases h
    rfl
  · rfl

theorem StoreOp.Loaded.rename_or_inRun (hop : op.Loaded) :
    (∃ oldPath newPath, op = .rename oldPath newPath) ∨ (op.InRun ∧ ∀ P, RenameApart P op) := by
  cases op with
  | load env => exact absurd hop id
  | rename oldPath newPath => exact .inl ⟨oldPath, newPath, rfl⟩
  | _ => exact .inr ⟨trivial, fun _ => trivial⟩

theorem holdsApart_sarPreserveRename_iff (hapart : HoldsApart P.records) :
    HoldsApart (sarPreserveRename oldPath newPath P).records ↔
      RenameApart P (.rename oldPath newPath) := by
  rw [sarPreserveRename_records, RenameApart]
  by_cases hready : P.ready = true
  · rw [if_pos hready]
    by_cases hne : oldPath = newPath
    · subst hne
      rw [map_congr_left fun r _ => renameRecord_self r, map_id']
      exact iff_of_true hapart fun _ h => absurd rfl h
    · rw [holdsApart_rename_iff hne hapart]
      exact ⟨fun h _ _ => h, fun h => h hready hne⟩
  · rw [if_neg hready]
    exact iff_of_true hapart fun h => absurd h hready

theorem rename_end_eq
    (h : ∀ r ∈ P.records, (r.provenanceOffset + r.provenanceLength).toNat =
      r.provenanceOffset.toNat + r.provenanceLength.toNat) :
    ∀ r ∈ (sarPreserveRename oldPath newPath P).records,
      (r.provenanceOffset + r.provenanceLength).toNat =
        r.provenanceOffset.toNat + r.provenanceLength.toNat := by
  rw [sarPreserveRename_records]
  split
  · intro r hr
    obtain ⟨s, hs, rfl⟩ := mem_map.mp hr
    unfold renameRecord
    split
    · exact h s hs
    · exact h s hs
  · exact h

theorem holdsApart_apply_iff (hop : op.Loaded) (htable : RangesOk NoSharedByte P.records) :
    HoldsApart (op.apply bc P).records ↔ RenameApart P op := by
  rcases hop.rename_or_inRun with ⟨oldPath, newPath, rfl⟩ | ⟨hrun, hmet⟩
  · exact holdsApart_sarPreserveRename_iff htable.related
  · exact iff_of_true (StoreOp.rangesOk noSharedByte_holdRelation hrun htable).related (hmet P)

theorem StoreOp.rangesOk_of_renameApart (hop : op.Loaded) (hmet : RenameApart P op)
    (htable : RangesOk NoSharedByte P.records) :
    RangesOk NoSharedByte (op.apply bc P).records := by
  rcases hop.rename_or_inRun with ⟨oldPath, newPath, rfl⟩ | ⟨hrun, -⟩
  · exact ⟨rename_end_eq htable.end_eq, (holdsApart_sarPreserveRename_iff htable.related).mpr hmet⟩
  · exact StoreOp.rangesOk noSharedByte_holdRelation hrun htable

theorem holdsApart_run_iff {ops : List StoreOp} (hops : ∀ op ∈ ops, op.Loaded)
    (htable : RangesOk NoSharedByte P.records) :
    (∀ n, HoldsApart (runStore bc P (ops.take n)).records) ↔ EachCall bc RenameApart P ops := by
  induction ops generalizing P with
  | nil =>
    refine iff_of_true (fun n => ?_) trivial
    rw [take_nil]
    exact htable.related
  | cons op ops ih =>
    have hop := hops op mem_cons_self
    have hrest : RenameApart P op →
        ((∀ n, HoldsApart (runStore bc (op.apply bc P) (ops.take n)).records) ↔
          EachCall bc RenameApart (op.apply bc P) ops) := fun hmet =>
      ih (fun op' h => hops op' (mem_cons_of_mem _ h))
        (StoreOp.rangesOk_of_renameApart hop hmet htable)
    constructor
    · intro h
      have hmet : RenameApart P op := (holdsApart_apply_iff hop htable).mp (h 1)
      exact ⟨hmet, (hrest hmet).mp fun n => h (n + 1)⟩
    · intro hmet n
      cases n with
      | zero => exact htable.related
      | succ n => exact (hrest hmet.1).mpr hmet.2 n

/-- **Holds of one path overlap only through renames.**  In a run from an empty store each byte of a
    file has at most one original exactly if no rename is made onto a path that holds a byte which
    the old path holds too. -/
theorem holds_apart_iff (bc : BCrypt) {P₀ : Preserve} (hempty : P₀.records = [])
    {ops : List StoreOp} (hops : ∀ op ∈ ops, op.Loaded) :
    (∀ n, HoldsApart (runStore bc P₀ (ops.take n)).records) ↔ EachCall bc RenameApart P₀ ops := by
  refine holdsApart_run_iff hops ?_
  rw [hempty]
  exact RangesOk.nil

/-- A file that is held and then renamed to a name without holds. -/
theorem holds_apart_renamed : (freshStore firstLoad).records = [] ∧
      ∀ n, HoldsApart (runStore identityCrypt (freshStore firstLoad)
        ([.stage (stageZeros (pathOf [97] (by decide)) 0 16) (grantedEnv 1),
          .rename (pathOf [97] (by decide)) (pathOf [98] (by decide))].take n)).records := by
  have hpaths : ∀ r ∈ (sarPreserveStage identityCrypt (stageZeros (pathOf [97] (by decide)) 0 16)
      (grantedEnv 1) (freshStore firstLoad)).1.records,
      r.provenancePath ≠ pathOf [98] (by decide) := by decide +kernel
  refine ⟨freshStore_records _, (holds_apart_iff identityCrypt (freshStore_records _) ?_).mpr
    ⟨trivial, ?_, trivial⟩⟩
  · simp [StoreOp.Loaded]
  · rintro - - ⟨r, hr, s, hs, -, -, -, hnew, -⟩
    exact hpaths s hs hnew

/-- Two files with the same range held, and the first renamed over the second: the store
    then has two originals for each byte of one file. -/
theorem rename_doubles_hold : ¬ HoldsApart (runStore identityCrypt (freshStore firstLoad)
      [.stage (stageZeros (pathOf [97] (by decide)) 0 16) (grantedEnv 1),
        .stage (stageZeros (pathOf [98] (by decide)) 0 16) (grantedEnv 2),
        .rename (pathOf [97] (by decide)) (pathOf [98] (by decide))]).records := by
  have hrecords : ((runStore identityCrypt (freshStore firstLoad)
      [.stage (stageZeros (pathOf [97] (by decide)) 0 16) (grantedEnv 1),
        .stage (stageZeros (pathOf [98] (by decide)) 0 16) (grantedEnv 2),
        .rename (pathOf [97] (by decide)) (pathOf [98] (by decide))]).records.map fun r =>
          (isByteRange r, r.provenancePath, provSpan r)) =
      [(true, pathOf [98] (by decide), (0, 16)), (true, pathOf [98] (by decide), (0, 16))] := by
    decide +kernel
  intro hapart
  obtain ⟨r, records, hr₀, hr, hrest⟩ := map_eq_cons_iff.mp hrecords
  obtain ⟨s, records, rfl, hs, -⟩ := map_eq_cons_iff.mp hrest
  simp only [Prod.mk.injEq] at hr hs
  rw [hr₀] at hapart
  refine (pairwise_cons.mp hapart).1 s mem_cons_self hr.1 hs.1
    (hr.2.1.trans hs.2.1.symm) 0 ?_
  unfold InRange
  rw [hr.2.2, hs.2.2]
  decide

end SemanticsAr
