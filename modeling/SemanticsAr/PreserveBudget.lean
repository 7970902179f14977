import SemanticsAr.PreserveRoom
import SemanticsAr.Reservation

/-!
# The budget under interleaving

Staging, reservations and the worker for mapped writes share one budget.  A reservation is
made under the store's lock and entered in the stream by an exchange; the worker stages
against it, takes the rounded length of its range off the stream by another exchange and
gives it back under the lock.  `Shared` holds the store, the streams and the operations
under way, and every step of it is one of a reservation ledger, as long as no sum wraps and
the worker stages no more than it takes off its stream.
-/

namespace SemanticsAr

open List Nat

variable {cursor est last x bytes fileSize actorId linkId now : UInt64} {P P₀ : Preserve}
  {env : StageEnv} {r : PreserveRecord}
  {sec : StoreSection} {i : Nat} {bc : BCrypt} {records more : List PreserveRecord}
  {path causingPath : ProvPath}

/-! ### What a call stores -/

def gapBytes (records : List PreserveRecord) (path : ProvPath) (last cursor : UInt64) : Nat :=
  ((gapList records path last cursor).map fun gap => (sarPresRound16 gap.2).toNat).sum

theorem gapBytes_of_gap {gOff gLen : UInt64}
    (hgap : sarPreserveFirstGap records path cursor (last - cursor) = some (gOff, gLen)) :
    gapBytes records path last cursor =
      (sarPresRound16 gLen).toNat + gapBytes records path last (gOff + gLen) := by
  rw [gapBytes, gapList_of_gap hgap, map_cons, sum_cons]
  rfl

/-! ### Staging under enforcement -/

section

variable {args : StageArgs} {P' : Preserve} {gOff gLen : UInt64}

theorem stageTurn_enforce_stop {turn : TurnEnv} {result : StageResult}
    (hmode : turn.mode = .enforce)
    (h : stageTurn bc args env turn P gOff gLen = (P', some result)) :
    P'.records = P.records := by
  rcases stageTurn_table h with ⟨-, rfl⟩ | ⟨room, hroom, ⟨-, hrecords⟩ | ⟨hnone, -⟩⟩
  · rfl
  · rcases (stageMakeRoom_cases hroom).2 with ⟨-, rfl⟩ | ⟨haudit, -⟩
    · exact hrecords
    · rw [hmode] at haudit
      cases haudit
  · cases hnone

theorem stageLoop_keeps (hmode : ∀ n, (env.turn n).mode = .enforce) {n : Nat} {staged : Bool}
    (hr : r ∈ P.records) :
    r ∈ (stageLoop bc args env n P cursor staged).1.records := by
  refine stageLoop_rule (fun _ Q _ _ => r ∈ Q.records) (fun Q _ _ => r ∈ Q.records) ?_ ?_ ?_ hr
  · exact fun n Q cursor staged h _ => h
  · intro n Q cursor staged gOff gLen Q' result h _ hturn
    rwa [stageTurn_enforce_stop (hmode n) hturn]
  · intro n Q cursor staged gOff gLen Q' h _ hturn
    obtain ⟨iv, off, ⟨-, hrecords⟩ | ⟨-, hrecords⟩⟩ := stageTurn_enforce (hmode n) hturn
    · rw [hrecords]
      exact mem_append_left _ h
    · rwa [hrecords]

/-- A loop on its way: the table is the one it started on and records behind the cursor,
    whose bytes and those of the gaps still ahead are no more than those of all gaps. -/
def FillingGaps (args : StageArgs) (P₀ P : Preserve) (cursor : UInt64) : Prop :=
  ∃ added, P.records = P₀.records ++ added ∧ (∀ r ∈ added, Behind args.path cursor r) ∧
    payloadBytes added + gapBytes P₀.records args.path (args.offset + args.length) cursor ≤
      gapBytes P₀.records args.path (args.offset + args.length) args.offset

theorem FillingGaps.payload_le (h : FillingGaps args P₀ P cursor) :
    payloadBytes P.records ≤ payloadBytes P₀.records +
      gapBytes P₀.records args.path (args.offset + args.length) args.offset := by
  obtain ⟨added, hrecords, -, hbytes⟩ := h
  rw [hrecords, payloadBytes_append]
  omega

theorem FillingGaps.turn {turn : TurnEnv} (hmode : turn.mode = .enforce)
    (h : FillingGaps args P₀ P cursor) (hgap : TurnGap args P cursor gOff gLen)
    (hturn : stageTurn bc args env turn P gOff gLen = (P', none)) :
    FillingGaps args P₀ P' (gOff + gLen) := by
  obtain ⟨added, hrecords, hbehind, hbytes⟩ := h
  have hnext : cursor ≤ gOff + gLen := by
    rw [UInt64.le_iff_toNat_le, hgap.spec.toNat_end]
    exact hgap.spec.first_le.trans (le_add_right _ _)
  have hgap₀ : sarPreserveFirstGap P₀.records args.path cursor
      (args.offset + args.length - cursor) = some (gOff, gLen) := by
    have hgap' := hgap
    rw [TurnGap, sarPreserveFirstGap, hrecords, firstGapLoop_append hbehind] at hgap'
    exact hgap'
  rw [gapBytes_of_gap hgap₀] at hbytes
  have hkept : ∀ r ∈ added, Behind args.path (gOff + gLen) r :=
    fun r hr => (hbehind r hr).mono hnext
  obtain ⟨iv, off, ⟨-, hrecords'⟩ | ⟨-, hrecords'⟩⟩ := stageTurn_enforce hmode hturn
  · refine ⟨added ++ [stageRecord args env iv off gOff gLen], ?_, ?_, ?_⟩
    · rw [hrecords', hrecords, append_assoc]
    · intro r hr
      rcases mem_append.mp hr with hr | hr
      · exact hkept r hr
      · rw [mem_singleton.mp hr]
        refine fun _ => ⟨?_, UInt64.le_refl _⟩
        rw [UInt64.le_iff_toNat_le, hgap.spec.toNat_end]
        exact le_add_right _ _
    · rw [payloadBytes_append, payloadBytes_cons, payloadBytes_nil]
      have hpayload : (stageRecord args env iv off gOff gLen).payloadLength =
        sarPresRound16 gLen := rfl
      rw [hpayload]
      omega
  · refine ⟨added, hrecords'.trans hrecords, hkept, ?_⟩
    omega

/-- **What a call under enforcement adds** is at most the bytes of the gaps of its range
    among the live records. -/
theorem sarPreserveStage_grows (hmode : ∀ n, (env.turn n).mode = .enforce) :
    payloadBytes (sarPreserveStage bc args env P).1.records ≤ payloadBytes P.records +
      gapBytes (liveRecords P env.now) args.path (args.offset + args.length) args.offset := by
  fun_cases sarPreserveStage bc args env P
  case case1 | case2 | case3 => exact le_add_right _ _
  have hlive : payloadBytes (evictAged P env.now).records ≤ payloadBytes P.records :=
    payloadBytes_sublist filter_sublist
  have hloop : payloadBytes (stageLoop bc args env 0 (evictAged P env.now) args.offset
      false).1.records ≤ payloadBytes (evictAged P env.now).records +
        gapBytes (evictAged P env.now).records args.path (args.offset + args.length)
          args.offset := by
    refine stageLoop_rule (fun _ Q cursor _ => FillingGaps args (evictAged P env.now) Q cursor)
      (fun Q _ _ => payloadBytes Q.records ≤ payloadBytes (evictAged P env.now).records +
        gapBytes (evictAged P env.now).records args.path (args.offset + args.length) args.offset)
      ?_ ?_ ?_ ⟨[], (append_nil _).symm, forall_mem_nil _, ?_⟩
    · intro n Q cursor staged hinv _
      exact hinv.payload_le
    · intro n Q cursor staged gOff gLen Q' result hinv _ hturn
      rw [stageTurn_enforce_stop (hmode n) hturn]
      exact hinv.payload_le
    · intro n Q cursor staged gOff gLen Q' hinv hgap hturn
      exact hinv.turn (hmode n) hgap hturn
    · rw [payloadBytes_nil, zero_add]
  exact hloop.trans (Nat.add_le_add_right hlive _)

theorem TurnGap.round_le_length (hcursor : args.offset.toNat ≤ cursor.toNat)
    (hgap : TurnGap args P cursor gOff gLen) (hlen : args.length.toNat + 15 < 2 ^ 64) :
    (sarPresRound16 gLen).toNat ≤ args.length.toNat + 15 := by
  have hle := hgap.length_le hcursor
  rw [toNat_sarPresRound16 (by omega)]
  omega

def WithinBudget (P₀ P : Preserve) : Prop :=
  payloadBytes P.records ≤ payloadBytes P₀.records ∨
    payloadBytes P.records + P₀.reservedBytes.toNat ≤ P₀.capacityBytes.toNat

theorem WithinBudget.turn {turn : TurnEnv} (hmode : turn.mode = .enforce)
    (hnormal : args.againstReservation = false) (hbudget : SameBudget P₀ P)
    (hwrap : payloadBytes P.records + P₀.reservedBytes.toNat + (sarPresRound16 gLen).toNat < 2 ^ 64)
    (hturn : stageTurn bc args env turn P gOff gLen = (P', none)) : WithinBudget P₀ P' := by
  rcases stageTurn_table hturn with ⟨hno, -⟩ | ⟨room, hroom, ⟨hno, -⟩ | ⟨-, -, iv, off, hrecords⟩⟩
  · cases hno
  · exact absurd rfl hno
  rcases (stageMakeRoom_cases hroom).2 with ⟨hfits, rfl⟩ | ⟨haudit, -⟩
  · rw [countedReserve, hnormal, if_neg Bool.false_ne_true, hbudget.reservedBytes_eq,
      hbudget.capacityBytes_eq, UInt64.le_iff_toNat_le, UInt64.toNat_add, UInt64.toNat_add,
      toNat_totalBytes (by omega), mod_add_mod, mod_eq_of_lt hwrap] at hfits
    have hpayload : payloadBytes P'.records ≤ payloadBytes room.records +
        (sarPresRound16 gLen).toNat := by
      rcases hrecords with hrecords | hrecords
      · rw [hrecords]
        exact le_add_right _ _
      · rw [hrecords, payloadBytes_append]
        exact le_refl _
    right
    omega
  · rw [hmode] at haudit
    cases haudit

/-- **A call under enforcement that is not made against a reservation** keeps the budget. -/
theorem sarPreserveStage_withinBudget (hmode : ∀ n, (env.turn n).mode = .enforce)
    (hnormal : args.againstReservation = false) {bound : Nat}
    (hbound : payloadBytes P.records + P.reservedBytes.toNat ≤ bound)
    (hcapacity : P.capacityBytes.toNat ≤ bound) (hwrap : bound + args.length.toNat + 15 < 2 ^ 64) :
    WithinBudget P (sarPreserveStage bc args env P).1 := by
  fun_cases sarPreserveStage bc args env P
  case case1 | case2 | case3 => exact .inl (le_refl _)
  refine stageLoop_rule
    (fun _ Q cursor _ => args.offset.toNat ≤ cursor.toNat ∧ SameBudget P Q ∧ WithinBudget P Q)
    (fun Q _ _ => WithinBudget P Q) ?_ ?_ ?_
    ⟨le_refl _, ⟨rfl, rfl, rfl, rfl⟩, .inl (payloadBytes_sublist filter_sublist)⟩
  · exact fun n Q cursor staged h _ => h.2.2
  · rintro n Q cursor staged gOff gLen Q' result ⟨-, -, hQ⟩ _ hturn
    rw [WithinBudget, stageTurn_enforce_stop (hmode n) hturn]
    exact hQ
  · rintro n Q cursor staged gOff gLen Q' ⟨hcursor, hbudget, hQ⟩ hgap hturn
    have hround := hgap.round_le_length hcursor (by omega)
    refine ⟨?_, hbudget.trans (stageTurn_frame hturn).sameBudget,
      WithinBudget.turn (hmode n) hnormal hbudget ?_ hturn⟩
    · rw [hgap.spec.toNat_end]
      exact hcursor.trans (hgap.spec.first_le.trans (le_add_right _ _))
    · rcases hQ with hQ | hQ
      · omega
      · omega

end

/-! ### The other sections -/

/-- The sections that neither reserve nor release nor set the budget; a stage call among
    them is not made against a reservation. -/
def StoreSection.Plain : StoreSection → Prop
  | call (.stage args _) _ => args.againstReservation = false
  | call (.reserve _) _ => False
  | call (.release _) _ => False
  | call (.setBudget _ _) _ => False
  | _ => True

theorem payloadBytes_map {f : PreserveRecord → PreserveRecord} (hf : KeepsPayload f) :
    payloadBytes (records.map f) = payloadBytes records := by
  unfold payloadBytes
  rw [map_map]
  exact congrArg List.sum
    (map_congr_left fun r _ => congrArg (fun e : Extent => e.len.toNat) (hf r).1)

theorem stageLink_quiet :
    SameBudget P (sarPreserveStageLink path fileSize actorId linkId now causingPath P).1 ∧
      payloadBytes (sarPreserveStageLink path fileSize actorId linkId now causingPath P).1.records ≤
        payloadBytes P.records := by
  have haged : payloadBytes (evictAged P now).records ≤ payloadBytes P.records :=
    payloadBytes_sublist filter_sublist
  generalize hcall : sarPreserveStageLink path fileSize actorId linkId now causingPath P = result
  obtain ⟨P', res⟩ := result
  rcases sarPreserveStageLink_cases hcall with ⟨status, -, rfl | rfl⟩ | ⟨-, hcount, rfl⟩
  · exact ⟨SameBudget.refl, le_refl _⟩
  · exact ⟨⟨rfl, rfl, rfl, rfl⟩, haged⟩
  · have hbudget : SameBudget P (evictAged P now) := ⟨rfl, rfl, rfl, rfl⟩
    refine ⟨hbudget.trans appendRecord_frame.sameBudget, ?_⟩
    rcases appendRecord_cases _ _ hcount with ⟨-, happend⟩ | ⟨-, happend⟩
    · rw [happend]
      exact haged
    · rw [happend]
      rw [payloadBytes_append]
      exact haged

theorem StoreSection.Plain.quiet (hsec : sec.Plain)
    (hstage : ∀ args env hop, sec ≠ .call (.stage args env) hop) :
    SameBudget P (sec.apply bc P) ∧
      payloadBytes (sec.apply bc P).records ≤ payloadBytes P.records := by
  cases sec with
  | reap why =>
    exact ⟨⟨rfl, rfl, rfl, rfl⟩, payloadBytes_sublist eraseP_sublist⟩
  | reconcile path keyOffset keyLength =>
    exact ⟨⟨rfl, rfl, rfl, rfl⟩, payloadBytes_sublist filter_sublist⟩
  | evict now =>
    exact ⟨⟨rfl, rfl, rfl, rfl⟩, payloadBytes_sublist filter_sublist⟩
  | call op hop =>
    cases op with
    | load _ | reconcile _ _ _ | maintain _ => exact absurd hop id
    | reserve _ | release _ | setBudget _ _ => exact absurd hsec id
    | stage args env => exact absurd rfl (hstage args env hop)
    | stageLink path fileSize actorId linkId now causingPath =>
      exact stageLink_quiet
    | promote actorId =>
      show SameBudget P (sarPreservePromoteActor actorId P) ∧
        payloadBytes (sarPreservePromoteActor actorId P).records ≤ _
      unfold sarPreservePromoteActor
      split
      · exact ⟨SameBudget.refl, le_refl _⟩
      · exact ⟨⟨rfl, rfl, rfl, rfl⟩, le_of_eq (payloadBytes_map keepsPayload_promoteRecord)⟩
    | rename oldPath newPath =>
      show SameBudget P (sarPreserveRename oldPath newPath P) ∧
        payloadBytes (sarPreserveRename oldPath newPath P).records ≤ _
      unfold sarPreserveRename
      split
      · exact ⟨SameBudget.refl, le_refl _⟩
      · exact ⟨⟨rfl, rfl, rfl, rfl⟩, le_of_eq (payloadBytes_map keepsPayload_renameRecord)⟩
    | restore path offset length outCap env => exact ⟨SameBudget.refl, le_refl _⟩

/-! ### The shared state -/

/-- An operation between two of its atomic steps: a reservation not yet in its stream; a worker's
    range staged and not yet taken off its stream; bytes still to be released. -/
inductive BudgetPending (σ : Type) where
  | publishing (s : σ) (est : UInt64)
  | staged (s : σ) (bytes : UInt64)
  | releasing (bytes : UInt64)

/-- The store, the streams' `mmap_reserved` and the operations under way. -/
structure Shared (σ : Type) where
  store : Preserve
  mmapReserved : σ → UInt64
  pending : List (BudgetPending σ)

structure WorkArgs where
  args : StageArgs
  against : args.againstReservation = true
  length_eq : args.plaintext.length = args.length.toNat

inductive BudgetAct (σ : Type) where
  | store (sec : StoreSection) (hsec : sec.Plain)
  | reserve (s : σ) (est : UInt64)
  | publish (i : Nat)
  | work (s : σ) (w : WorkArgs) (env : StageEnv)
  | settle (i : Nat)
  | release (i : Nat)
  | close (s : σ)

section

variable {σ : Type} [DecidableEq σ] {s : σ}

/-- The part of `SarCapturePreserveDestruction` that stages: nothing without a path. -/
def workStage (bc : BCrypt) (w : WorkArgs) (env : StageEnv) (P : Preserve) : Preserve :=
  if w.args.path.toList.head? = some 0 then P
  else (sarPreserveStage bc w.args env P).1

def BudgetPending.on (s : σ) : BudgetPending σ → Bool
  | publishing s' _ => decide (s' = s)
  | staged s' _ => decide (s' = s)
  | releasing _ => false

/-- The exchange of `SarMmapReleaseStaged` that succeeds: what it takes off the stream. -/
def settledBytes (cur bytes : UInt64) : UInt64 := if cur < bytes then cur else bytes

/-- A reservation for a stream, up to the end of `SarPreserveReserve`. -/
def Shared.reserve (S : Shared σ) (s : σ) (est : UInt64) : Shared σ :=
  if (sarPreserveReserve est S.store).2 then
    { S with
      store := (sarPreserveReserve est S.store).1
      pending := S.pending ++ [.publishing s est] }
  else S

/-- The exchange that enters a reservation in its stream; where the stream has one already
    the new one is released again. -/
def Shared.publish (S : Shared σ) (i : Nat) : Shared σ :=
  match S.pending[i]? with
  | some (.publishing s est) =>
    if S.mmapReserved s = 0 then
      { S with
        mmapReserved := Function.update S.mmapReserved s est
        pending := S.pending.eraseIdx i }
    else { S with pending := S.pending.set i (.releasing est) }
  | _ => S

def Shared.work (bc : BCrypt) (S : Shared σ) (s : σ) (w : WorkArgs) (env : StageEnv) : Shared σ :=
  { S with
    store := workStage bc w env S.store
    pending := S.pending ++ [.staged s (sarPresRound16 w.args.length)] }

/-- The exchange of `SarMmapReleaseStaged`. -/
def Shared.settle (S : Shared σ) (i : Nat) : Shared σ :=
  match S.pending[i]? with
  | some (.staged s bytes) =>
    let cur := S.mmapReserved s
    if cur.toInt64 ≤ 0 then { S with pending := S.pending.eraseIdx i }
    else
      { S with
        mmapReserved := Function.update S.mmapReserved s (cur - settledBytes cur bytes)
        pending := S.pending.set i (.releasing (settledBytes cur bytes)) }
  | _ => S

/-- `SarPreserveRelease` at the end of an operation. -/
def Shared.release (S : Shared σ) (i : Nat) : Shared σ :=
  match S.pending[i]? with
  | some (.releasing bytes) =>
    { S with
      store := sarPreserveRelease bytes S.store
      pending := S.pending.eraseIdx i }
  | _ => S

def Shared.close (S : Shared σ) (s : σ) : Shared σ :=
  if S.pending.any (BudgetPending.on s) then S
  else
    { S with
      store := sarPreserveRelease (S.mmapReserved s) S.store
      mmapReserved := Function.update S.mmapReserved s 0 }

def BudgetAct.apply (bc : BCrypt) (S : Shared σ) : BudgetAct σ → Shared σ
  | store sec _ => { S with store := sec.apply bc S.store }
  | reserve s est => S.reserve s est
  | publish i => S.publish i
  | work s w env => S.work bc s w env
  | settle i => S.settle i
  | release i => S.release i
  | close s => S.close s

def runShared (bc : BCrypt) (S : Shared σ) (acts : List (BudgetAct σ)) : Shared σ :=
  acts.foldl (fun S act => act.apply bc S) S

/-! ### The ledger behind it -/

def BudgetPending.ledger : BudgetPending σ → Reservation.Pending σ
  | publishing s est => .opening s est.toNat
  | staged s bytes => .drawn s bytes.toNat
  | releasing bytes => .returning bytes.toNat

def Shared.ledger (S : Shared σ) : Reservation.Ledger σ where
  capacity := S.store.capacityBytes.toNat
  used := payloadBytes S.store.records
  reserved := S.store.reservedBytes.toNat
  account := fun s => (S.mmapReserved s).toNat
  pending := S.pending.map BudgetPending.ledger

def Shared.owedBytes (S : Shared σ) : Nat :=
  Reservation.total Reservation.Pending.owed S.ledger.pending

def Shared.stagedBytes (S : Shared σ) (s : σ) : Nat :=
  Reservation.total (Reservation.Pending.drawnOn s) S.ledger.pending

/-- What a step has to meet: stage calls are made under enforcement, no sum wraps, and a worker's
    range has no more bytes of gaps than its rounded length, which its stream's reservation covers.
    -/
def BudgetMet (S : Shared σ) : BudgetAct σ → Prop
  | .store (.call (.stage args env) _) _ => (∀ n, (env.turn n).mode = .enforce) ∧
      S.store.capacityBytes.toNat + S.owedBytes + args.length.toNat + 15 < 2 ^ 64
  | .reserve _ est => S.store.capacityBytes.toNat + S.owedBytes + est.toNat < 2 ^ 64
  | .work s w env => (∀ n, (env.turn n).mode = .enforce) ∧
      gapBytes (liveRecords S.store env.now) w.args.path (w.args.offset + w.args.length)
        w.args.offset ≤ (sarPresRound16 w.args.length).toNat ∧
      S.stagedBytes s + (sarPresRound16 w.args.length).toNat ≤ (S.mmapReserved s).toNat ∧
      (S.mmapReserved s).toNat < 2 ^ 63
  | _ => True

structure LedgerStep (S S' : Shared σ) : Prop where
  ledger : S'.ledger = S.ledger ∨ Reservation.Step (2 ^ 63) S.ledger S'.ledger
  ready_eq : S'.store.ready = S.store.ready

theorem LedgerStep.of_step {S S' : Shared σ} {L : Reservation.Ledger σ}
    (hstep : Reservation.Step (2 ^ 63) S.ledger L) (hledger : S'.ledger = L)
    (hready : S'.store.ready = S.store.ready) : LedgerStep S S' :=
  ⟨.inr (hledger ▸ hstep), hready⟩

omit [DecidableEq σ] in
theorem ledger_store {S : Shared σ} (h : SameBudget S.store P) :
    ({ S with store := P } : Shared σ).ledger =
      { S.ledger with used := payloadBytes P.records } := by
  unfold Shared.ledger
  rw [h.capacityBytes_eq, h.reservedBytes_eq]

theorem pending_split {α : Type} {l : List α} {p : α} (h : l[i]? = some p) :
    ∃ front back, l = front ++ p :: back ∧ l.eraseIdx i = front ++ back ∧
      ∀ q, l.set i q = front ++ q :: back := by
  obtain ⟨hlt, hget⟩ := List.getElem?_eq_some_iff.mp h
  refine ⟨l.take i, l.drop (i + 1), ?_, eraseIdx_eq_take_drop_succ _ _, fun q => ?_⟩
  · rw [← hget, getElem_cons_drop, take_append_drop]
  · rw [set_eq_take_append_cons_drop, if_pos hlt]

omit [DecidableEq σ] in
theorem ledger_split {S : Shared σ} {p : BudgetPending σ} (h : S.pending[i]? = some p) :
    ∃ front back, S.ledger.pending = front ++ p.ledger :: back ∧
      (S.pending.eraseIdx i).map BudgetPending.ledger = front ++ back ∧
      ∀ q : BudgetPending σ, (S.pending.set i q).map BudgetPending.ledger =
        front ++ q.ledger :: back := by
  obtain ⟨front, back, hpending, herase, hset⟩ := pending_split h
  refine ⟨front.map BudgetPending.ledger, back.map BudgetPending.ledger, ?_, ?_, fun q => ?_⟩
  · show S.pending.map _ = _
    rw [hpending, map_append, map_cons]
  · rw [herase, map_append]
  · rw [hset, map_append, map_cons]

theorem account_update {S : Shared σ} : (fun t => (Function.update S.mmapReserved s x t).toNat) =
    Function.update S.ledger.account s x.toNat :=
  Function.comp_update UInt64.toNat S.mmapReserved s x

/-! ### Every step is one of the ledger -/

/-- The store is ready and its ledger balanced; streams that workers have staged against
    hold numbers that are positive when read with a sign. -/
structure SharedOk [Fintype σ] (S : Shared σ) : Prop where
  balanced : Reservation.Balanced (2 ^ 63) S.ledger
  ready : S.store.ready = true

theorem sarPreserveReserve_ok (h : (sarPreserveReserve est P).2 = true) :
    (sarPreserveReserve est P).1 = { P with reservedBytes := P.reservedBytes + est } ∧
      sarPreserveTotalBytes P.records + P.reservedBytes + est ≤ P.capacityBytes := by
  unfold sarPreserveReserve at h ⊢
  split at h
  · cases h
  rename_i hargs
  split at h
  next hfits =>
    rw [if_neg hargs, if_pos hfits]
    exact ⟨rfl, hfits⟩
  · cases h

theorem sarPreserveRelease_eq (hready : P.ready = true) :
    ∃ reserved, sarPreserveRelease bytes P = { P with reservedBytes := reserved } ∧
      reserved.toNat = P.reservedBytes.toNat - bytes.toNat := by
  unfold sarPreserveRelease
  by_cases hzero : bytes = 0
  · rw [if_pos (.inr hzero), hzero]
    exact ⟨P.reservedBytes, rfl, rfl⟩
  rw [if_neg (by simp [hready, hzero])]
  split
  next hge =>
    refine ⟨0, rfl, ?_⟩
    have hge := UInt64.le_iff_toNat_le.mp hge
    rw [UInt64.toNat_zero]
    omega
  next hlt =>
    refine ⟨_, rfl, ?_⟩
    exact UInt64.toNat_sub_of_le _ _ (UInt64.le_of_lt (UInt64.not_le.mp hlt))

section

variable [Fintype σ] {S : Shared σ}

theorem SharedOk.budget (h : SharedOk S) :
    payloadBytes S.store.records + S.store.reservedBytes.toNat ≤
      S.store.capacityBytes.toNat + S.owedBytes := h.balanced.budget

theorem store_ledgerStep (h : SharedOk S) (hsec : sec.Plain)
    (hmet : BudgetMet S (.store sec hsec)) :
    LedgerStep S ((BudgetAct.store sec hsec).apply bc S) := by
  have hstep : SameBudget S.store (sec.apply bc S.store) →
      WithinBudget S.store (sec.apply bc S.store) →
      LedgerStep S ((BudgetAct.store sec hsec).apply bc S) := by
    intro hbudget hwithin
    exact .of_step (.use hwithin) (ledger_store hbudget) hbudget.ready_eq
  rcases Classical.em (∃ args env hop, sec = .call (.stage args env) hop) with
    ⟨args, env, hop, rfl⟩ | hstage
  · exact hstep sarPreserveStage_frame.sameBudget
      (sarPreserveStage_withinBudget hmet.1 hsec h.budget (le_add_right _ _) hmet.2)
  · obtain ⟨hbudget, hless⟩ := hsec.quiet
      fun args env hop hcall => hstage ⟨args, env, hop, hcall⟩
    exact hstep hbudget (.inl hless)

theorem reserve_ledgerStep (h : SharedOk S) {s : σ} (hmet : BudgetMet S (.reserve s est)) :
    LedgerStep S (S.reserve s est) := by
  have hbudget := h.budget
  have hmet : S.store.capacityBytes.toNat + S.owedBytes + est.toNat < 2 ^ 64 := hmet
  unfold Shared.reserve
  split
  next hok =>
    obtain ⟨hstore, hfits⟩ := sarPreserveReserve_ok hok
    rw [UInt64.le_iff_toNat_le, UInt64.toNat_add, UInt64.toNat_add, toNat_totalBytes (by omega),
      mod_add_mod, mod_eq_of_lt (by omega)] at hfits
    have hreserved : (S.store.reservedBytes + est).toNat = S.ledger.reserved + est.toNat := by
      rw [UInt64.toNat_add, mod_eq_of_lt (by omega)]
      rfl
    rw [hstore]
    refine .of_step (.reserve (s := s) hfits) ?_ rfl
    rw [← hreserved, Shared.ledger, map_append]
    rfl
  · exact ⟨.inl rfl, rfl⟩

omit [Fintype σ] in
theorem publish_ledgerStep : LedgerStep S (S.publish i) := by
  unfold Shared.publish
  split
  next s est hget =>
    obtain ⟨front, back, hpending, herase, hset⟩ := ledger_split hget
    split
    next hfree =>
      refine .of_step (.enter hpending (congrArg UInt64.toNat hfree)) ?_ rfl
      rw [← herase, ← account_update]
      rfl
    · refine .of_step (.refuse hpending) ?_ rfl
      rw [Shared.ledger, hset]
      rfl
  · exact ⟨.inl rfl, rfl⟩

theorem workStage_grows (w : WorkArgs)
    (hmode : ∀ n, (env.turn n).mode = .enforce) :
    SameBudget P (workStage bc w env P) ∧ payloadBytes (workStage bc w env P).records ≤
      payloadBytes P.records + gapBytes (liveRecords P env.now) w.args.path
        (w.args.offset + w.args.length) w.args.offset := by
  unfold workStage
  split
  · exact ⟨SameBudget.refl, le_add_right _ _⟩
  · exact ⟨sarPreserveStage_frame.sameBudget, sarPreserveStage_grows hmode⟩

omit [Fintype σ] in
theorem work_ledgerStep {s : σ} {w : WorkArgs} (hmet : BudgetMet S (.work s w env)) :
    LedgerStep S (S.work bc s w env) := by
  obtain ⟨hmode, hgaps, hcover, hlimit⟩ := hmet
  obtain ⟨hbudget, hgrows⟩ := workStage_grows w hmode
  have hused := hgrows.trans (Nat.add_le_add_left hgaps _)
  refine .of_step (.draw hused hcover hlimit) ?_ hbudget.ready_eq
  unfold Shared.work Shared.ledger
  rw [hbudget.capacityBytes_eq, hbudget.reservedBytes_eq, map_append]
  rfl

theorem eq_zero_of_toInt64_nonpos {x : UInt64} (hlt : x.toNat < 2 ^ 63) (h : x.toInt64 ≤ 0) :
    x = 0 := by
  have hint : x.toInt64.toInt = x.toNat := by
    refine BitVec.toInt_eq_toNat_of_lt (x := x.toBitVec) ?_
    show 2 * x.toNat < 2 ^ 64
    omega
  have hzero : (0 : Int64).toInt = 0 := by decide
  rw [Int64.le_iff_toInt_le, hint, hzero] at h
  apply UInt64.toNat_inj.mp
  rw [UInt64.toNat_zero]
  omega

theorem settle_ledgerStep (h : SharedOk S) : LedgerStep S (S.settle i) := by
  unfold Shared.settle
  split
  next s bytes hget =>
    obtain ⟨front, back, hpending, herase, hset⟩ := ledger_split hget
    have hcover := h.balanced.covered s
    have hlimit := h.balanced.limited s
    rw [hpending] at hcover hlimit
    simp only [Reservation.total_append, Reservation.total_cons, BudgetPending.ledger,
      Reservation.Pending.drawnOn, if_true] at hcover hlimit
    have hle : bytes.toNat ≤ (S.mmapReserved s).toNat := by
      have : S.ledger.account s = (S.mmapReserved s).toNat := rfl
      omega
    have hsettled : settledBytes (S.mmapReserved s) bytes = bytes := by
      unfold settledBytes
      rw [if_neg (UInt64.not_lt.mpr (UInt64.le_iff_toNat_le.mpr hle))]
    dsimp only
    split
    next hnonpos =>
      -- a stream that was staged against is positive, so nothing was staged
      have hzero : bytes.toNat = 0 := by
        by_contra hpos
        have hcur := eq_zero_of_toInt64_nonpos (hlimit (by omega)) hnonpos
        rw [hcur, UInt64.toNat_zero] at hle
        omega
      simp only [BudgetPending.ledger] at hpending
      rw [hzero] at hpending
      refine .of_step (.forget hpending) ?_ rfl
      rw [← herase]
      rfl
    · rw [hsettled]
      refine .of_step (.deduct hpending) ?_ rfl
      rw [Shared.ledger, hset, account_update,
        UInt64.toNat_sub_of_le _ _ (UInt64.le_iff_toNat_le.mpr hle)]
      rfl
  · exact ⟨.inl rfl, rfl⟩

omit [Fintype σ] in
theorem release_ledgerStep (hready : S.store.ready = true) : LedgerStep S (S.release i) := by
  unfold Shared.release
  split
  next bytes hget =>
    obtain ⟨front, back, hpending, herase, -⟩ := ledger_split hget
    obtain ⟨reserved, hstore, hreserved⟩ := sarPreserveRelease_eq hready
    rw [hstore]
    refine .of_step (.giveBack hpending) ?_ rfl
    rw [Shared.ledger, herase, hreserved]
    rfl
  · exact ⟨.inl rfl, rfl⟩

omit [Fintype σ] in
theorem drawnOn_of_none {s : σ} {pending : List (BudgetPending σ)}
    (h : pending.any (BudgetPending.on s) = false) :
    Reservation.total (Reservation.Pending.drawnOn s) (pending.map BudgetPending.ledger) = 0 := by
  induction pending with
  | nil => rfl
  | cons p pending ih =>
    rw [any_cons, Bool.or_eq_false_iff] at h
    rw [map_cons, Reservation.total_cons, ih h.2, add_zero]
    cases p with
    | publishing s' est => rfl
    | staged s' bytes => exact if_neg (of_decide_eq_false h.1)
    | releasing bytes => rfl

omit [Fintype σ] in
theorem close_ledgerStep (hready : S.store.ready = true) : LedgerStep S (S.close s) := by
  unfold Shared.close
  split
  · exact ⟨.inl rfl, rfl⟩
  next hnone =>
    obtain ⟨reserved, hstore, hreserved⟩ := sarPreserveRelease_eq hready
    rw [hstore]
    refine .of_step (.close (drawnOn_of_none (Bool.eq_false_iff.mpr hnone))) ?_ rfl
    rw [Shared.ledger, account_update, hreserved]
    rfl

/-- **Every step is one of the ledger**, under its condition. -/
theorem BudgetAct.ledgerStep (h : SharedOk S) {act : BudgetAct σ} (hmet : BudgetMet S act) :
    LedgerStep S (act.apply bc S) := by
  cases act with
  | store sec hsec => exact store_ledgerStep h hsec hmet
  | reserve s est => exact reserve_ledgerStep h hmet
  | publish i => exact publish_ledgerStep
  | work s w env => exact work_ledgerStep hmet
  | settle i => exact settle_ledgerStep h
  | release i => exact release_ledgerStep h.ready
  | close s => exact close_ledgerStep h.ready

theorem SharedOk.step (h : SharedOk S) {act : BudgetAct σ} (hmet : BudgetMet S act) :
    SharedOk (act.apply bc S) ∧
      (act.apply bc S).store.capacityBytes.toNat = S.store.capacityBytes.toNat := by
  obtain ⟨hledger, hready⟩ : LedgerStep S (act.apply bc S) := BudgetAct.ledgerStep h hmet
  have hready' := hready.trans h.ready
  rcases hledger with hsame | hstep
  · refine ⟨⟨?_, hready'⟩, congrArg Reservation.Ledger.capacity hsame⟩
    rw [hsame]
    exact h.balanced
  · exact ⟨⟨hstep.balanced h.balanced, hready'⟩, hstep.capacity_eq⟩

end

def EachAct (bc : BCrypt) (cond : Shared σ → BudgetAct σ → Prop) :
    Shared σ → List (BudgetAct σ) → Prop
  | _, [] => True
  | S, act :: acts => cond S act ∧ EachAct bc cond (act.apply bc S) acts

theorem eachAct_iff_each {cond : Shared σ → BudgetAct σ → Prop} {S : Shared σ}
    {acts : List (BudgetAct σ)} :
    EachAct bc cond S acts ↔ Runs.Each (fun S act => act.apply bc S) cond S acts := by
  induction acts generalizing S with
  | nil => exact Iff.rfl
  | cons act acts ih => exact and_congr_right fun _ => ih

/-- **Any interleaving.** -/
theorem SharedOk.run [Fintype σ] {S : Shared σ} (h : SharedOk S) {acts : List (BudgetAct σ)}
    (hmet : EachAct bc BudgetMet S acts) :
    SharedOk (runShared bc S acts) ∧
      (runShared bc S acts).store.capacityBytes.toNat = S.store.capacityBytes.toNat := by
  have hstep : ∀ (T : Shared σ) (act : BudgetAct σ),
      (SharedOk T ∧ T.store.capacityBytes.toNat = S.store.capacityBytes.toNat) →
        BudgetMet T act → SharedOk (act.apply bc T) ∧
          (act.apply bc T).store.capacityBytes.toNat = S.store.capacityBytes.toNat := by
    rintro T act ⟨hT, hcapacity⟩ hact
    obtain ⟨hnext, hsame⟩ := hT.step hact
    exact ⟨hnext, hsame.trans hcapacity⟩
  exact Runs.run_rule hstep ⟨h, rfl⟩ (eachAct_iff_each.mp hmet)

/-- A state to start from: the store is ready, nothing is under way, the budget is kept and
    the reserved bytes are those of the streams. -/
structure SharedStart [Fintype σ] (S : Shared σ) : Prop where
  ready : S.store.ready = true
  quiet : S.pending = []
  budget : payloadBytes S.store.records + S.store.reservedBytes.toNat ≤ S.store.capacityBytes.toNat
  reserved : S.store.reservedBytes.toNat = ∑ s, (S.mmapReserved s).toNat

theorem SharedStart.sharedOk [Fintype σ] {S : Shared σ} (h : SharedStart S) : SharedOk S := by
  have hpending : S.ledger.pending = [] := by
    show S.pending.map _ = []
    rw [h.quiet]
    rfl
  refine ⟨⟨?_, ?_, fun s => ?_, fun s => ?_⟩, h.ready⟩
  · rw [hpending]
    exact h.reserved
  · rw [hpending]
    exact h.budget
  · rw [hpending]
    exact zero_le _
  · rw [hpending]
    exact fun hpos => absurd hpos (lt_irrefl 0)

/-- **The budget holds for every interleaving** of steps that meet their conditions: when no
    operation is under way, the bytes held and reserved are within the capacity, which no step
    changes, and the reserved bytes are those of the streams. -/
theorem budget_kept [Fintype σ] (bc : BCrypt) {S₀ : Shared σ} (hstart : SharedStart S₀)
    {acts : List (BudgetAct σ)} (hmet : EachAct bc BudgetMet S₀ acts)
    (hquiet : (runShared bc S₀ acts).pending = []) :
    payloadBytes (runShared bc S₀ acts).store.records +
        (runShared bc S₀ acts).store.reservedBytes.toNat ≤ S₀.store.capacityBytes.toNat ∧
      (runShared bc S₀ acts).store.reservedBytes.toNat =
        ∑ s, ((runShared bc S₀ acts).mmapReserved s).toNat := by
  obtain ⟨hok, hcapacity⟩ := hstart.sharedOk.run hmet
  have hpending : (runShared bc S₀ acts).ledger.pending = [] := by
    show (runShared bc S₀ acts).pending.map _ = []
    rw [hquiet]
    rfl
  obtain ⟨hbudget, hreserved⟩ := hok.balanced.of_quiet hpending
  exact ⟨hcapacity ▸ hbudget, hreserved⟩

end

/-- A worker that stages a range of zeros of the file `a`. -/
def workZeros (offset : UInt64) (n : Fin (2 ^ 32)) : WorkArgs where
  args := { stageZeros (pathOf [97] fileA_fits) offset n with againstReservation := true }
  against := rfl
  length_eq := by
    show (List.replicate (n : Nat) (0 : UInt8)).length = (UInt64.ofNat n).toNat
    rw [length_replicate]
    exact (mod_eq_of_lt (n.isLt.trans (by decide))).symm

def sharedStore (ops : List StoreOp) : Shared Bool where
  store := runStore identityCrypt (freshStore firstLoad) (.setBudget 1000 128 :: ops)
  mmapReserved := fun _ => 0
  pending := []

def workedStreams : List (BudgetAct Bool) :=
  [.reserve true 32, .publish 0, .reserve false 48, .publish 0,
    .work true (workZeros 0 32) (grantedEnv 2), .settle 0, .release 0]

theorem gapBytes_emptyStore : gapBytes [] (workZeros 0 32).args.path ((workZeros 0 32).args.offset +
      (workZeros 0 32).args.length) (workZeros 0 32).args.offset = 32 := by
  have hgap : sarPreserveFirstGap [] (workZeros 0 32).args.path 0 (32 - 0) = some (0, 32) := by
    decide +kernel
  have hnone : sarPreserveFirstGap [] (workZeros 0 32).args.path (0 + 32) (32 - (0 + 32)) =
      none := by
    decide +kernel
  refine (gapBytes_of_gap hgap).trans ?_
  rw [gapBytes]
  exact congrArg (fun gaps : List (UInt64 × UInt64) => 32 + (gaps.map _).sum)
    (gapList_of_no_gap hnone)

/-- The 32 bytes are held, the other stream's 48 stay reserved. -/
theorem budget_kept_worked :
    payloadBytes (runShared identityCrypt (sharedStore []) workedStreams).store.records +
        (runShared identityCrypt (sharedStore []) workedStreams).store.reservedBytes.toNat ≤ 128 ∧
      (runShared identityCrypt (sharedStore []) workedStreams).store.reservedBytes.toNat =
        ∑ s, ((runShared identityCrypt (sharedStore []) workedStreams).mmapReserved s).toNat := by
  have hstart : SharedStart (sharedStore []) := ⟨rfl, rfl, by decide +kernel, by decide +kernel⟩
  refine budget_kept identityCrypt hstart ⟨?_, trivial, ?_, trivial, ⟨fun _ => rfl, ?_, ?_, ?_⟩,
    trivial, trivial, trivial⟩ (by decide +kernel)
  · show (_ : Nat) < _
    decide +kernel
  · show (_ : Nat) < _
    decide +kernel
  · exact le_of_eq gapBytes_emptyStore
  · decide +kernel
  · decide +kernel

/-- Three single bytes of the file `a`, with a byte between each two of them. -/
def spottedBytes : List StoreOp :=
  [.stage (stageZeros (pathOf [97] fileA_fits) 1 1) (grantedEnv 1),
    .stage (stageZeros (pathOf [97] fileA_fits) 3 1) (grantedEnv 1),
    .stage (stageZeros (pathOf [97] fileA_fits) 5 1) (grantedEnv 1)]

/-- Over three single bytes the same run stores 80 bytes for the four gaps and releases 32
    for the range: 128 bytes are held, 48 are still reserved. -/
theorem budget_exceeded :
    let S := runShared identityCrypt (sharedStore spottedBytes) workedStreams
    SharedStart (sharedStore spottedBytes) ∧ S.pending = [] ∧
      S.store.capacityBytes.toNat <
        payloadBytes S.store.records + S.store.reservedBytes.toNat := by
  refine ⟨⟨?_, ?_, ?_, ?_⟩, ?_, ?_⟩
  all_goals decide +kernel

end SemanticsAr
