import SemanticsAr.Keystore

/-!
# The ledger behind a crash

The ledger and the anchor are two files, replaced one after the other.  The invariant here
holds between any two steps of the persist thread: the ledger file is the one whose rename
completed last, and the key file anchors it or an older one.  So every load finds that ledger.
The generation numbers do not wrap because each append makes for at most two ledgers; only
failed writes of the key file, which set the dirty flag again, add to them.
-/

namespace SemanticsAr

open Runs List UInt64 Nat

variable {added pending' c failures more : Nat} {macKey : Mac} {generation : UInt64}
  {anchor : KeystoreAnchor} {m' : KsMachine} {rec : KeystoreRecord} {acts : List KsAct}
  {reply : TurnReply}

/-! ### The two files -/

theorem loadMacKey_macKeyBytes (K : Keystore) : loadMacKey (some (macKeyBytes macKey anchor)) K =
      { K with macKey := macKey, anchor := anchor, haveKey := true } := by
  have hlen : (macKeyBytes macKey anchor).length = macKeyBlobCodec.width :=
    macKeyBlobCodec.put_length _
  have hget : macKeyBlobCodec.get (macKeyBytes macKey anchor) = sarKsFillBlob macKey anchor :=
    macKeyBlobCodec.get_put _
  have hread : sarStoreReadAll SAR_KS_MAX_FILE (some (macKeyBytes macKey anchor)) =
      .ok (macKeyBytes macKey anchor) := by
    refine if_neg ?_
    rw [hlen]
    decide
  have hpresent : decide ((sarKsFillBlob macKey anchor).anchorPresent ≠ 0) = anchor.present := by
    cases h : anchor.present <;> simp [sarKsFillBlob, h]
  unfold loadMacKey
  rw [hread]
  dsimp only
  rw [hget, if_neg (by simp [hlen, sarKsFillBlob]), hpresent]
  rfl

/-- The files of a store with its key: the ledger is `last` under its generation, or there is none
    yet, and the anchor is not ahead of it.  `failures` bounds the generations that no append
    accounts for. -/
structure DiskOk (failures : Nat) (disk : KsDisk) (last : List KeystoreRecord) (macKey : Mac)
    (generation : UInt64) (anchor : KeystoreAnchor) : Prop where
  key : disk.key.final = some (macKeyBytes macKey anchor)
  ledger : (disk.ledger.final = none ∧ last = [] ∧ generation = 0 ∧ anchor.present = false) ∨
    (disk.ledger.final = some (ledgerBytes macKey last generation) ∧
      (anchor.present = true → anchor.generation ≤ generation ∧
        (generation = anchor.generation → ledgerHead macKey last = anchor.headMac)))
  fits : last.length ≤ SAR_KEYSTORE_CAPACITY.toNat
  bound : generation.toNat ≤ 2 * last.length + failures

structure DiskEmpty (disk : KsDisk) (last : List KeystoreRecord) : Prop where
  key : disk.key.final = none
  ledger : disk.ledger.final = none
  last : last = []

section

variable {disk disk' : KsDisk} {last : List KeystoreRecord}

theorem DiskOk.anchored (h : DiskOk failures disk last macKey generation anchor) :
    disk.anchored = if anchor.present then (anchor.generation.toNat : WithBot ℕ) else ⊥ := by
  rw [KsDisk.anchored, h.key, loadMacKey_macKeyBytes]

theorem DiskEmpty.anchored (h : DiskEmpty disk last) : disk.anchored = ⊥ := by
  rw [KsDisk.anchored, h.key]
  rfl

theorem DiskOk.congr (h : DiskOk failures disk last macKey generation anchor)
    (hkey : disk'.key.final = disk.key.final) (hledger : disk'.ledger.final = disk.ledger.final) :
    DiskOk failures disk' last macKey generation anchor :=
  ⟨hkey.trans h.key, by rw [hledger]; exact h.ledger, h.fits, h.bound⟩

theorem DiskOk.mono (h : DiskOk failures disk last macKey generation anchor)
    (hle : failures ≤ more) : DiskOk more disk last macKey generation anchor :=
  ⟨h.key, h.ledger, h.fits, h.bound.trans (Nat.add_le_add_left hle _)⟩

theorem anchored_congr (hkey : disk'.key.final = disk.key.final) :
    disk'.anchored = disk.anchored := by
  rw [KsDisk.anchored, hkey, KsDisk.anchored]

section

variable (h : DiskOk failures disk last macKey generation anchor)
  (hledger : disk.ledger.final = some (ledgerBytes macKey last generation))
  (hkey : disk'.key.final = some (macKeyBytes macKey ⟨true, generation, ledgerHead macKey last⟩))
  (hsame : disk'.ledger.final = disk.ledger.final)

include h hledger hkey hsame

theorem DiskOk.anchorLast :
    DiskOk failures disk' last macKey generation ⟨true, generation, ledgerHead macKey last⟩ :=
  ⟨hkey, .inr ⟨hsame.trans hledger, fun _ => ⟨UInt64.le_refl _, fun _ => rfl⟩⟩, h.fits, h.bound⟩

theorem DiskOk.anchored_le_anchorLast : disk.anchored ≤ disk'.anchored := by
  rw [h.anchored, (h.anchorLast hledger hkey hsame).anchored, if_pos rfl]
  rcases h.ledger with ⟨hnone, -⟩ | ⟨-, hanchor⟩
  · cases hnone.symm.trans hledger
  · cases hpresent : anchor.present with
    | false => exact bot_le
    | true =>
      rw [if_pos rfl]
      exact WithBot.coe_le_coe.mpr (le_iff_toNat_le.mp (hanchor hpresent).1)

end

/-! ### The load -/

theorem readAll_ledgerBytes
    (hfits : last.length ≤ SAR_KEYSTORE_CAPACITY.toNat) :
    sarStoreReadAll SAR_KS_MAX_FILE (some (ledgerBytes macKey last generation)) =
      .ok (ledgerBytes macKey last generation) := by
  have hcap : SAR_KEYSTORE_CAPACITY.toNat = 16384 := rfl
  refine if_neg (not_lt.mpr ?_)
  rw [length_ledgerBytes, HEADER_SIZE, KEYSTORE_DISK_RECORD_SIZE, SAR_KS_MAX_FILE]
  omega

theorem sarKsmLoad_of_anchor (hfits : last.length ≤ SAR_KEYSTORE_CAPACITY.toNat)
    (hanchor : anchor.present = true → anchor.generation ≤ generation ∧
      (generation = anchor.generation → ledgerHead macKey last = anchor.headMac)) :
    ∃ advanced, sarKsmLoad (ledgerBytes macKey last generation) macKey
        (if anchor.present then some anchor else none) SAR_KEYSTORE_CAPACITY =
      .ok (.ok ⟨last, ⟨true, generation, ledgerHead macKey last⟩, generation, advanced⟩) := by
  have hcap : SAR_KEYSTORE_CAPACITY.toNat = 16384 := rfl
  have hsize : HEADER_SIZE + last.length * KEYSTORE_DISK_RECORD_SIZE < 2 ^ 64 := by
    rw [HEADER_SIZE, KEYSTORE_DISK_RECORD_SIZE]
    omega
  have hroom : ¬ SAR_KEYSTORE_CAPACITY < UInt64.ofNat last.length := by
    rw [lt_iff_toNat_lt, toNat_ofNat', mod_eq_of_lt (by omega)]
    exact not_lt.mpr hfits
  rw [sarKsmLoad_ledgerBytes hsize, if_neg hroom]
  cases hpresent : anchor.present with
  | false => exact ⟨true, rfl⟩
  | true =>
    rw [if_pos rfl]
    have hadv : (ksmAnchorAdvances (some anchor)
        (headerOf (ledgerBytes macKey last generation))).isSome = true := by
      rw [ksmAnchorAdvances_isSome_iff hpresent, headerOf_ledgerBytes]
      exact hanchor hpresent
    obtain ⟨advanced, hadvanced⟩ := Option.isSome_iff_exists.mp hadv
    rw [hadvanced]
    exact ⟨advanced, rfl⟩

/-- What a load leaves in memory: the records of the last ledger, and nothing is taken for
    tampering. -/
structure Restored (K : Keystore) (last : List KeystoreRecord) : Prop where
  records : K.records = last
  untampered : K.tamperDetected = false

structure Fresh (K : Keystore) (macKey : Mac) (generation : UInt64) : Prop where
  macKey : K.macKey = macKey
  generation : K.generation = generation
  capacity : K.recordCapacity = SAR_KEYSTORE_CAPACITY
  dirty : K.dirty = false

theorem sarKeystoreLoad_of_diskOk (env : KsStart) (disk : KsDisk)
    (h : DiskOk failures disk last macKey generation anchor) :
    Restored (sarKeystoreLoad env disk).2 last ∧
      Fresh (sarKeystoreLoad env disk).2 macKey generation ∧
      disk.anchored ≤ (sarKeystoreLoad env disk).1.anchored ∧
      ∃ anchor', DiskOk failures (sarKeystoreLoad env disk).1 last macKey generation anchor' := by
  unfold sarKeystoreLoad ensureMacKey
  rw [h.key, loadMacKey_macKeyBytes]
  dsimp only
  rw [if_pos rfl]
  dsimp only
  rcases h.ledger with ⟨hnone, hlast, hgen, habsent⟩ | ⟨hledger, hanchor⟩
  · rw [hnone]
    unfold loadLedger
    rw [habsent]
    exact ⟨⟨hlast.symm, rfl⟩, ⟨rfl, hgen.symm, rfl, rfl⟩, le_rfl, anchor, h⟩
  · obtain ⟨advanced, hload⟩ := sarKsmLoad_of_anchor h.fits hanchor
    rw [hledger, readAll_ledgerBytes h.fits]
    unfold loadLedger
    dsimp only
    rw [show sarKeystoreCreate.recordCapacity = SAR_KEYSTORE_CAPACITY from rfl, hload]
    dsimp only
    split
    · refine ⟨⟨rfl, rfl⟩, ⟨rfl, rfl, rfl, rfl⟩, ?_⟩
      rcases sarStoreWriteAtomic_cases env.advanceWritten
        (macKeyBytes macKey ⟨true, generation, ledgerHead macKey last⟩) disk.key with
        ⟨hfinal, -⟩ | ⟨hfinal, -⟩
      · exact ⟨le_of_eq (anchored_congr hfinal).symm, anchor, h.congr hfinal rfl⟩
      · exact ⟨h.anchored_le_anchorLast hledger hfinal rfl, _, h.anchorLast hledger hfinal rfl⟩
    · exact ⟨⟨rfl, rfl⟩, ⟨rfl, rfl, rfl, rfl⟩, le_rfl, anchor, h⟩

theorem sarKeystoreLoad_of_diskEmpty (env : KsStart) (disk : KsDisk) (h : DiskEmpty disk last) :
    Restored (sarKeystoreLoad env disk).2 last ∧ ((DiskEmpty (sarKeystoreLoad env disk).1 last ∧
          (sarKeystoreLoad env disk).2.running = false) ∨
        ∃ macKey anchor, Fresh (sarKeystoreLoad env disk).2 macKey 0 ∧
          DiskOk 0 (sarKeystoreLoad env disk).1 last macKey 0 anchor) := by
  unfold sarKeystoreLoad ensureMacKey
  rw [h.key]
  dsimp only
  rw [show (loadMacKey none sarKeystoreCreate).haveKey = false from rfl, if_neg Bool.false_ne_true]
  cases env.freshKey with
  | none => exact ⟨⟨h.last.symm, rfl⟩, .inl ⟨h, rfl⟩⟩
  | some macKey =>
    dsimp only
    rw [h.ledger]
    refine ⟨⟨h.last.symm, rfl⟩, ?_⟩
    rcases sarStoreWriteAtomic_cases env.freshWritten
      (macKeyBytes macKey ⟨false, 0, zeroMac⟩) disk.key with
      ⟨hfinal, hfailed⟩ | ⟨hfinal, -⟩
    · refine .inl ⟨⟨hfinal.trans h.key, h.ledger, h.last⟩, ?_⟩
      rw [hfailed]
      rfl
    · refine .inr ⟨macKey, ⟨false, 0, zeroMac⟩, ⟨rfl, rfl, rfl, rfl⟩, hfinal,
        .inl ⟨h.ledger, h.last, rfl, rfl⟩, ?_, zero_le _⟩
      rw [h.last]
      exact zero_le _

end

/-! ### Between the steps -/

/-- What has been asked of the thread and is not yet under way: the dirty flag, and the appends
    that are about to set it. -/
def KsMachine.pending (m : KsMachine) : Nat := m.mem.dirty.toNat + m.owed

/-- The thread is at work on the ledger of the first `c` of all records, to follow the
    generation. -/
structure Counted (failures generation records pending c : Nat) : Prop where
  le : c ≤ records
  next : generation + 1 ≤ 2 * c + failures
  bound : generation + 1 + pending ≤ c + records + failures

/-- The thread has put the ledger of the first `c` of all records into its file. -/
structure Renamed (failures generation records pending c : Nat) : Prop where
  le : c ≤ records
  bound : generation + pending ≤ c + records + failures

def nextAnchor (macKey : Mac) (records : List KeystoreRecord) (generation : UInt64) :
    KeystoreAnchor :=
  ⟨true, generation + 1, ledgerHead macKey records⟩

def PointOk (failures : Nat) (m : KsMachine) (macKey : Mac) (generation : UInt64) : Prop :=
  let g := generation.toNat
  let records := m.mem.records.length
  let ledger := fun c => ledgerBytes macKey (m.mem.records.take c) (generation + 1)
  let anchor := fun c => nextAnchor macKey (m.mem.records.take c) generation
  match m.point with
  | .idle => g + m.pending ≤ 2 * records + failures
  | .woken => g + 1 + m.pending ≤ 2 * records + failures
  | .counted c => Counted failures g records m.pending c
  | .serialized c buf na =>
    Counted failures g records m.pending c ∧ buf = ledger c ∧ na = anchor c
  | .ledgerWritten c na =>
    Counted failures g records m.pending c ∧ m.disk.ledger.tmp = some (ledger c) ∧ na = anchor c
  | .ledgerRenamed c na =>
    Renamed failures g records m.pending c ∧
      m.disk.ledger.final = some (ledgerBytes macKey m.lastLedger generation) ∧
      na = ⟨true, generation, ledgerHead macKey m.lastLedger⟩
  | .blobWritten c =>
    Renamed failures g records m.pending c ∧
      m.disk.ledger.final = some (ledgerBytes macKey m.lastLedger generation) ∧
      m.disk.key.tmp = some (macKeyBytes macKey ⟨true, generation, ledgerHead macKey m.lastLedger⟩)

structure Session (failures : Nat) (m : KsMachine) (macKey : Mac) (generation : UInt64) :
    Prop where
  macKey_eq : m.mem.macKey = macKey
  generation_eq : m.mem.generation = generation
  capacity : m.mem.recordCapacity = SAR_KEYSTORE_CAPACITY
  fits : m.mem.records.length ≤ SAR_KEYSTORE_CAPACITY.toNat
  point : PointOk failures m macKey generation

def KsMachine.Resting (m : KsMachine) : Prop := m.mem.running = false ∧ m.point = .idle

/-- **The invariant.**  There are no files yet and the thread does not run, or the files are in
    order and the store in memory goes with them. -/
def KsInv (failures : Nat) (m : KsMachine) : Prop :=
  (DiskEmpty m.disk m.lastLedger ∧ m.Resting) ∨
    ∃ macKey generation anchor, DiskOk failures m.disk m.lastLedger macKey generation anchor ∧
      (m.Resting ∨ Session failures m macKey generation)

structure Keeps (failures : Nat) (m m' : KsMachine) : Prop where
  inv : KsInv failures m'
  anchored : m.disk.anchored ≤ m'.disk.anchored

def TurnReply.missed : TurnReply → Nat
  | .done => 0
  | .failed _ => 1

section

variable {generation records pending c : Nat}

theorem Counted.weaken (h : Counted failures generation records pending c) (hmore : failures ≤ more)
    (hpending : pending' + failures ≤ pending + added + more) :
    Counted more generation (records + added) pending' c := by
  obtain ⟨hle, hnext, hbound⟩ := h
  exact ⟨by omega, by omega, by omega⟩

theorem Renamed.weaken (h : Renamed failures generation records pending c)
    (hpending : pending' + failures ≤ pending + added + more) :
    Renamed more generation (records + added) pending' c := by
  obtain ⟨hle, hbound⟩ := h
  exact ⟨by omega, by omega⟩

end

theorem ksInv_installed : KsInv 0 .installed :=
  .inl ⟨⟨rfl, rfl, rfl⟩, rfl, rfl⟩

theorem sarKsmPersist_need (macKey : Mac) (records : List KeystoreRecord) (generation : UInt64) :
    sarKsmPersist macKey records generation
        (UInt64.ofNat (sarKeystoreSerializedSize (UInt64.ofNat records.length))) =
      .ok (ledgerBytes macKey records (generation + 1), nextAnchor macKey records generation) := by
  have hsize : sarKeystoreSerializedSize (UInt64.ofNat records.length) < 2 ^ 64 :=
    mod_lt _ (by decide)
  unfold sarKsmPersist sarKeystoreSerialize
  rw [toNat_ofNat', mod_eq_of_lt hsize, if_neg (lt_irrefl _)]
  dsimp only
  rw [headerOf_ledgerBytes]
  rfl

section

variable {m : KsMachine}

theorem Session.toNat_next (hs : Session failures m macKey generation)
    (hfailures : failures < 2 ^ 63) {pending : Nat}
    (hc : Counted failures generation.toNat m.mem.records.length pending c) :
    (generation + 1).toNat = generation.toNat + 1 := by
  have hcap : SAR_KEYSTORE_CAPACITY.toNat = 16384 := rfl
  have hfits := hs.fits
  have hle := hc.le
  have hnext := hc.next
  rw [UInt64.toNat_add, UInt64.toNat_one, mod_eq_of_lt (by omega)]

theorem keeps_of_session (hd : DiskOk failures m.disk m.lastLedger macKey generation anchor)
    (hlast : m'.lastLedger = m.lastLedger) (hkey : m'.disk.key.final = m.disk.key.final)
    (hledger : m'.disk.ledger.final = m.disk.ledger.final)
    (hs : Session failures m' macKey generation) : Keeps failures m m' := by
  refine ⟨.inr ⟨macKey, generation, anchor, ?_, .inr hs⟩, le_of_eq (anchored_congr hkey).symm⟩
  rw [hlast]
  exact hd.congr hkey hledger

/-- What is asked of the thread grows by no more than the records and the failures do. -/
theorem PointOk.weaken {added : List KeystoreRecord} (hp : PointOk failures m macKey generation)
    (hmore : failures ≤ more) (hpoint : m'.point = m.point) (hdisk : m'.disk = m.disk)
    (hlast : m'.lastLedger = m.lastLedger) (hrecords : m'.mem.records = m.mem.records ++ added)
    (hpending : m'.pending + failures ≤ m.pending + added.length + more) :
    PointOk more m' macKey generation := by
  unfold PointOk at hp ⊢
  rw [hpoint, hdisk, hlast, hrecords, length_append]
  revert hp
  cases m.point with
  | idle => exact fun hp => by omega
  | woken => exact fun hp => by omega
  | counted c => exact fun hp => hp.weaken hmore hpending
  | serialized c buf na =>
    intro hp
    dsimp only
    rw [take_append_of_le_length hp.1.le]
    exact ⟨hp.1.weaken hmore hpending, hp.2⟩
  | ledgerWritten c na =>
    intro hp
    dsimp only
    rw [take_append_of_le_length hp.1.le]
    exact ⟨hp.1.weaken hmore hpending, hp.2⟩
  | ledgerRenamed c na => exact fun hp => ⟨hp.1.weaken hpending, hp.2⟩
  | blobWritten c => exact fun hp => ⟨hp.1.weaken hpending, hp.2⟩

theorem Session.mono (hs : Session failures m macKey generation) (hle : failures ≤ more) :
    Session more m macKey generation :=
  { hs with
    point := hs.point.weaken hle rfl rfl rfl (append_nil _).symm (Nat.add_le_add_left hle _) }

theorem Keeps.mono (h : Keeps failures m m') (hle : failures ≤ more) : Keeps more m m' := by
  refine ⟨?_, h.anchored⟩
  rcases h.inv with hempty | ⟨macKey, generation, anchor, hd, hmem⟩
  · exact .inl hempty
  · exact .inr ⟨macKey, generation, anchor, hd.mono hle, hmem.imp_right fun hs => hs.mono hle⟩

/-- `SarKsPersist` gives up before the ledger is renamed. -/
theorem session_giveUp (hs : Session failures m macKey generation)
    (hbound : generation.toNat + 1 + m.owed ≤ 2 * m.mem.records.length + failures) :
    Session failures m.giveUp macKey generation := by
  refine { hs with point := ?_ }
  show generation.toNat + (1 + m.owed) ≤ 2 * m.mem.records.length + failures
  omega

theorem Counted.giveUp_bound
    (hc : Counted failures generation.toNat m.mem.records.length m.pending c) :
    generation.toNat + 1 + m.owed ≤ 2 * m.mem.records.length + failures := by
  have hle := hc.le
  have hbound := hc.bound
  unfold KsMachine.pending at hbound
  omega

/-- The end of `SarKsPersist`: a failure is paid for, and so is an append behind the count. -/
theorem session_finish (hs : Session failures m macKey generation)
    (hr : Renamed failures generation.toNat m.mem.records.length m.pending c) (failed : Bool) :
    Session (failures + failed.toNat) (m.finish c failed) macKey generation := by
  refine { hs with point := ?_ }
  have hle := hr.le
  have hbound := hr.bound
  unfold KsMachine.pending at hbound
  show generation.toNat +
      ((m.mem.dirty || failed || decide (c < m.mem.records.length)).toNat + m.owed) ≤
    2 * m.mem.records.length + (failures + failed.toNat)
  cases hdirty : m.mem.dirty <;> cases failed <;> by_cases hmore : c < m.mem.records.length <;>
    simp [hdirty, hmore] at hbound ⊢ <;> omega

section

variable (hd : DiskOk failures m.disk m.lastLedger macKey generation anchor)
  (hs : Session failures m macKey generation)

include hd hs

theorem keeps_ledgerRename {na : KeystoreAnchor} (hfailures : failures < 2 ^ 63)
    (hc : Counted failures generation.toNat m.mem.records.length m.pending c)
    (htmp : m.disk.ledger.tmp = some (ledgerBytes macKey (m.mem.records.take c) (generation + 1)))
    (hna : na = nextAnchor macKey (m.mem.records.take c) generation) : Keeps failures m
      { m with
        disk := { m.disk with ledger := m.disk.ledger.sarStoreRename }
        mem := { m.mem with generation := na.generation, anchor := na }
        lastLedger := m.mem.records.take c
        point := .ledgerRenamed c na } := by
  have hnext := hs.toNat_next hfailures hc
  have hlen : (m.mem.records.take c).length = c := length_take_of_le hc.le
  have hfinal : m.disk.ledger.sarStoreRename.final =
      some (ledgerBytes macKey (m.mem.records.take c) (generation + 1)) := by
    rw [FileSlot.sarStoreRename, htmp]
  refine ⟨.inr ⟨macKey, generation + 1, anchor, ⟨hd.key, .inr ⟨hfinal, ?_⟩, ?_, ?_⟩, .inr ?_⟩,
    le_rfl⟩
  · -- the anchor is not ahead of the ledger that was there, so it is behind the new one
    intro hpresent
    have hbehind : anchor.generation.toNat ≤ generation.toNat := by
      rcases hd.ledger with ⟨-, -, -, habsent⟩ | ⟨-, hanchor⟩
      · cases habsent.symm.trans hpresent
      · exact le_iff_toNat_le.mp (hanchor hpresent).1
    refine ⟨le_iff_toNat_le.mpr (by omega), fun hsame => ?_⟩
    rw [← hsame, hnext] at hbehind
    omega
  · dsimp only
    rw [hlen]
    exact hc.le.trans hs.fits
  · dsimp only
    rw [hlen, hnext]
    exact hc.next
  · refine ⟨hs.macKey_eq, by rw [hna]; rfl, hs.capacity, hs.fits, ⟨hc.le, ?_⟩, hfinal, hna⟩
    rw [hnext]
    exact hc.bound

theorem keeps_blobRename (hr : Renamed failures generation.toNat m.mem.records.length m.pending c)
    (hledger : m.disk.ledger.final = some (ledgerBytes macKey m.lastLedger generation))
    (htmp : m.disk.key.tmp =
      some (macKeyBytes macKey ⟨true, generation, ledgerHead macKey m.lastLedger⟩)) :
    Keeps failures m
      ({ m with disk := { m.disk with key := m.disk.key.sarStoreRename } }.finish c false) := by
  have hfinal : m.disk.key.sarStoreRename.final =
      some (macKeyBytes macKey ⟨true, generation, ledgerHead macKey m.lastLedger⟩) := by
    rw [FileSlot.sarStoreRename, htmp]
  exact ⟨.inr ⟨macKey, generation, _, hd.anchorLast hledger hfinal rfl,
    .inr { session_finish hs hr false with }⟩, hd.anchored_le_anchorLast hledger hfinal rfl⟩

/-- **One step of the thread.** -/
theorem keeps_turn (hfailures : failures < 2 ^ 63) :
    Keeps (failures + reply.missed) m (m.turn reply) := by
  have hmore : failures ≤ failures + reply.missed := le_add_right _ _
  have hgiveUp : ∀ disk : KsDisk, disk.key.final = m.disk.key.final →
      disk.ledger.final = m.disk.ledger.final →
      generation.toNat + 1 + m.owed ≤ 2 * m.mem.records.length + failures →
      Keeps (failures + reply.missed) m (KsMachine.giveUp { m with disk := disk }) := by
    intro disk hkey hledger hbound
    exact keeps_of_session (hd.mono hmore) rfl hkey hledger
      { (session_giveUp hs hbound).mono hmore with }
  have hsame : ∀ m' : KsMachine, m'.lastLedger = m.lastLedger →
      m'.disk.key.final = m.disk.key.final → m'.disk.ledger.final = m.disk.ledger.final →
      Session failures m' macKey generation → Keeps (failures + reply.missed) m m' :=
    fun m' hlast hkey hledger hs' => (keeps_of_session hd hlast hkey hledger hs').mono hmore
  have hp := hs.point
  unfold PointOk at hp
  unfold KsMachine.turn
  cases hpoint : m.point with
  | idle =>
    rw [hpoint] at hp
    dsimp only
    split
    next hruns =>
      refine hsame _ rfl rfl rfl { hs with point := ?_ }
      have hdirty : m.mem.dirty = true := (Bool.and_eq_true_iff.mp hruns).2
      rw [KsMachine.pending, hdirty] at hp
      show generation.toNat + 1 + (0 + m.owed) ≤ 2 * m.mem.records.length + failures
      simp only [Bool.toNat_true] at hp
      omega
    · exact hsame m rfl rfl rfl hs
  | woken =>
    rw [hpoint] at hp
    cases reply with
    | done =>
      refine hsame _ rfl rfl rfl { hs with point := ⟨le_refl _, ?_, ?_⟩ }
      · omega
      · show generation.toNat + 1 + m.pending ≤
          m.mem.records.length + m.mem.records.length + failures
        omega
    | failed left =>
      refine hgiveUp m.disk rfl rfl ?_
      rw [KsMachine.pending] at hp
      omega
  | counted c =>
    rw [hpoint] at hp
    have hlen : (m.mem.records.take c).length = c := length_take_of_le hp.le
    have hpersist := sarKsmPersist_need m.mem.macKey (m.mem.records.take c) m.mem.generation
    rw [hlen] at hpersist
    dsimp only
    rw [hpersist]
    refine hsame _ rfl rfl rfl { hs with point := ⟨hp, ?_⟩ }
    rw [hs.macKey_eq, hs.generation_eq]
    exact ⟨rfl, rfl⟩
  | serialized c buf na =>
    rw [hpoint] at hp
    obtain ⟨hc, hbuf, hna⟩ := hp
    cases reply with
    | done =>
      exact hsame _ rfl rfl rfl { hs with point := ⟨hc, congrArg some hbuf, hna⟩ }
    | failed left => exact hgiveUp _ rfl rfl hc.giveUp_bound
  | ledgerWritten c na =>
    rw [hpoint] at hp
    obtain ⟨hc, htmp, hna⟩ := hp
    cases reply with
    | done => exact keeps_ledgerRename hd hs hfailures hc htmp hna
    | failed left => exact hgiveUp m.disk rfl rfl hc.giveUp_bound
  | ledgerRenamed c na =>
    rw [hpoint] at hp
    obtain ⟨hr, hledger, hna⟩ := hp
    cases reply with
    | done =>
      refine hsame _ rfl rfl rfl { hs with point := ⟨hr, hledger, ?_⟩ }
      show some (macKeyBytes m.mem.macKey na) = _
      rw [hs.macKey_eq, hna]
    | failed left =>
      exact keeps_of_session (hd.mono hmore) rfl rfl rfl { session_finish hs hr true with }
  | blobWritten c =>
    rw [hpoint] at hp
    obtain ⟨hr, hledger, htmp⟩ := hp
    cases reply with
    | done => exact keeps_blobRename hd hs hr hledger htmp
    | failed left =>
      exact keeps_of_session (hd.mono hmore) rfl rfl rfl (session_finish hs hr true)

end

/-! ### Appends -/

theorem session_append (hs : Session failures m macKey generation) {rec : KeystoreRecord}
    (hroom : m.mem.records.length < m.mem.recordCapacity.toNat) :
    Session failures
      { m with mem := { m.mem with records := m.mem.records ++ [rec] }, owed := m.owed + 1 }
      macKey generation := by
  refine ⟨hs.macKey_eq, hs.generation_eq, hs.capacity, ?_,
    hs.point.weaken (le_refl _) rfl rfl rfl rfl (le_refl _)⟩
  rw [hs.capacity] at hroom
  rw [length_append]
  exact hroom

theorem session_mark (hs : Session failures m macKey generation) (howed : 0 < m.owed) :
    Session failures { m with mem := { m.mem with dirty := true }, owed := m.owed - 1 }
      macKey generation := by
  refine { hs with
    point := hs.point.weaken (le_refl _) rfl rfl rfl (append_nil _).symm
      (Nat.add_le_add_right ?_ _) }
  show 1 + (m.owed - 1) ≤ m.mem.dirty.toNat + m.owed
  omega

theorem KsMachine.append_cases : m.append rec = m ∨ (m.append rec =
          { m with mem := { m.mem with records := m.mem.records ++ [rec] }, owed := m.owed + 1 } ∧
        m.mem.records.length < m.mem.recordCapacity.toNat) := by
  rcases sarKeystoreAppend_cases m.mem.records m.mem.recordCapacity rec with
    ⟨hkept, -⟩ | ⟨happend, -, hroom⟩
  · left
    unfold KsMachine.append
    split
    next hanswer =>
      rw [hanswer] at hkept
      exact absurd rfl hkept
    · rfl
  · right
    unfold KsMachine.append
    rw [happend]
    exact ⟨rfl, hroom⟩

theorem keeps_of_same_disk (hinv : KsInv failures m) (hdisk : m'.disk = m.disk)
    (hlast : m'.lastLedger = m.lastLedger) (hrest : m.Resting → m'.Resting)
    (hsession : ∀ {macKey generation}, Session failures m macKey generation →
      Session failures m' macKey generation) : Keeps failures m m' := by
  refine ⟨?_, le_of_eq (congrArg KsDisk.anchored hdisk.symm)⟩
  rw [KsInv, hdisk, hlast]
  rcases hinv with ⟨hempty, hresting⟩ | ⟨macKey, generation, anchor, hd, hmem⟩
  · exact .inl ⟨hempty, hrest hresting⟩
  · exact .inr ⟨macKey, generation, anchor, hd, hmem.imp hrest hsession⟩

theorem keeps_append (hinv : KsInv failures m) : Keeps failures m (m.append rec) := by
  rcases m.append_cases with hsame | ⟨happend, hroom⟩
  · rw [hsame]
    exact ⟨hinv, le_rfl⟩
  · rw [happend]
    exact keeps_of_same_disk hinv rfl rfl id fun hs => session_append hs hroom

theorem keeps_mark (hinv : KsInv failures m) : Keeps failures m m.mark := by
  unfold KsMachine.mark
  split
  next howed =>
    exact keeps_of_same_disk hinv rfl rfl id fun hs => session_mark hs howed
  · exact ⟨hinv, le_rfl⟩

/-! ### Restarts -/

theorem session_of_fresh (hidle : m.point = .idle) (howed : m.owed = 0)
    (hfresh : Fresh m.mem macKey generation)
    (hfits : m.mem.records.length ≤ SAR_KEYSTORE_CAPACITY.toNat)
    (hbound : generation.toNat ≤ 2 * m.mem.records.length + failures) :
    Session failures m macKey generation := by
  refine ⟨hfresh.macKey, hfresh.generation, hfresh.capacity, hfits, ?_⟩
  unfold PointOk KsMachine.pending
  rw [hidle, hfresh.dirty, howed]
  exact hbound

theorem keeps_restart (hinv : KsInv failures m) (env : KsStart) :
    Restored (m.restart env).mem m.lastLedger ∧ Keeps failures m (m.restart env) := by
  rcases hinv with ⟨hempty, -⟩ | ⟨macKey, generation, anchor, hd, -⟩
  · have hload := sarKeystoreLoad_of_diskEmpty env ⟨{ m.disk.ledger with
      tmp := env.ledgerTmp }, { m.disk.key with tmp := env.keyTmp }⟩
      ⟨hempty.key, hempty.ledger, hempty.last⟩
    have hrestored : Restored (m.restart env).mem m.lastLedger := hload.1
    refine ⟨hrestored, ?_, by rw [hempty.anchored]; exact bot_le⟩
    rcases hload.2 with ⟨hstill, hrunning⟩ | ⟨macKey, anchor, hfresh, hd⟩
    · exact .inl ⟨hstill, hrunning, rfl⟩
    · refine .inr ⟨macKey, 0, anchor, hd.mono (zero_le _), .inr ?_⟩
      refine session_of_fresh rfl rfl hfresh ?_ (zero_le _)
      rw [hrestored.records, hempty.last]
      exact zero_le _
  · obtain ⟨hload, hfresh, hle, anchor', hnext⟩ := sarKeystoreLoad_of_diskOk env
      ⟨{ m.disk.ledger with tmp := env.ledgerTmp }, { m.disk.key with tmp := env.keyTmp }⟩
      (hd.congr rfl rfl)
    have hrestored : Restored (m.restart env).mem m.lastLedger := hload
    have hkept : m.disk.anchored ≤ (m.restart env).disk.anchored :=
      (le_of_eq (anchored_congr rfl)).trans hle
    refine ⟨hrestored, .inr ⟨macKey, generation, anchor', hnext, .inr ?_⟩, hkept⟩
    rw [← hrestored.records] at hd
    exact session_of_fresh rfl rfl hfresh hd.fits hd.bound

/-! ### Runs -/

def KsAct.missed : KsAct → Nat
  | .turn reply => reply.missed
  | _ => 0

/-- **One step.** -/
theorem keeps_step (hinv : KsInv failures m) (hfailures : failures < 2 ^ 63) (act : KsAct) :
    Keeps (failures + act.missed) m (m.step act) := by
  cases act with
  | append rec => exact keeps_append hinv
  | mark => exact keeps_mark hinv
  | restart env => exact (keeps_restart hinv env).2
  | turn reply =>
    have hresting : m.Resting → m.turn reply = m := by
      rintro ⟨hrunning, hidle⟩
      unfold KsMachine.turn
      rw [hidle]
      exact if_neg (by simp [hrunning])
    have hkept : m.Resting → Keeps (failures + reply.missed) m (m.turn reply) := by
      intro hrest
      rw [hresting hrest]
      exact Keeps.mono ⟨hinv, le_rfl⟩ (le_add_right _ _)
    rcases hinv with ⟨-, hrest⟩ | ⟨macKey, generation, anchor, hd, hrest | hs⟩
    · exact hkept hrest
    · exact hkept hrest
    · exact keeps_turn hd hs hfailures

end

def missedSteps (acts : List KsAct) : Nat := (acts.map KsAct.missed).sum

theorem missedSteps_append (front back : List KsAct) :
    missedSteps (front ++ back) = missedSteps front + missedSteps back := by
  simp [missedSteps]

/-- **Every run.** -/
theorem keeps_run {m : KsMachine} (hinv : KsInv failures m)
    (hmissed : failures + missedSteps acts < 2 ^ 63) :
    Keeps (failures + missedSteps acts) m (run KsMachine.step m acts) := by
  induction acts generalizing failures m with
  | nil => exact ⟨hinv, le_rfl⟩
  | cons act acts ih =>
    have hsum : failures + missedSteps (act :: acts) =
        failures + act.missed + missedSteps acts := by
      simp [missedSteps, add_assoc]
    rw [hsum] at hmissed ⊢
    have hstep := keeps_step hinv (by omega) act
    have hrest := ih hstep.inv hmissed
    exact ⟨hrest.inv, hstep.anchored.trans hrest.anchored⟩

/-- **The ledger survives crashes.**  In every run from the installation on, with appends between
    and stops behind any steps of the persist thread, every load gives back the records of the
    ledger whose rename completed last and finds nothing tampered with, and the anchored generation
    never goes back. -/
theorem keystore_crash_consistent (acts : List KsAct) (hmissed : missedSteps acts < 2 ^ 63) :
    (∀ front env back, acts = front ++ .restart env :: back →
      let before := run KsMachine.step .installed front
      (before.restart env).mem.records = before.lastLedger ∧
        (before.restart env).mem.tamperDetected = false) ∧
    ∀ front mid back, acts = front ++ (mid ++ back) →
      (run KsMachine.step .installed front).disk.anchored ≤
        (run KsMachine.step .installed (front ++ mid)).disk.anchored := by
  have hreach : ∀ front back, acts = front ++ back →
      KsInv (0 + missedSteps front) (run KsMachine.step .installed front) ∧
        missedSteps front + missedSteps back < 2 ^ 63 := by
    rintro front back rfl
    rw [missedSteps_append] at hmissed
    exact ⟨(keeps_run ksInv_installed (by omega)).inv, hmissed⟩
  constructor
  · intro front env back hacts
    have hrestored := (keeps_restart (hreach front _ hacts).1 env).1
    exact ⟨hrestored.records, hrestored.untampered⟩
  · intro front mid back hacts
    obtain ⟨hinv, hbound⟩ := hreach front _ hacts
    rw [missedSteps_append] at hbound
    rw [run_append]
    exact (keeps_run hinv (by omega)).anchored

def grantedKsStart : KsStart := ⟨some zeroMac, .done, .done, true, none, none⟩

/-- A key is captured, and the machine stops when its ledger is in place and not yet
    anchored. -/
def stoppedUnanchored : List KsAct :=
  [.restart grantedKsStart, .append (keystoreRecordCodec.get []), .mark] ++
    List.replicate 5 (.turn .done)

/-- The key is there behind the next start. -/
theorem unanchored_ledger_restored :
    let before := run KsMachine.step .installed stoppedUnanchored
    before.disk.anchored = ⊥ ∧ before.lastLedger = [keystoreRecordCodec.get []] ∧
      (before.restart grantedKsStart).mem.records = before.lastLedger ∧
      (before.restart grantedKsStart).mem.tamperDetected = false :=
  ⟨by decide +kernel, by decide +kernel,
    (keystore_crash_consistent (stoppedUnanchored ++ [.restart grantedKsStart]) (by decide)).1
      stoppedUnanchored grantedKsStart [] rfl⟩

end SemanticsAr
