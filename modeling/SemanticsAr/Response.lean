import SemanticsAr.Operations
import SemanticsAr.PreserveRoom

/-!
# The response to a conviction

A convicted actor is entered in the blocked table of the capture context and its held
originals are promoted.  The table has 256 places and is asked by the create, write and
set-information callbacks, each in its own way; `deny_scope_iff` says for which requests the
denials are those that the actor's conviction calls for.  There are two ways to a conviction,
a committed verdict of the Oracle and phantom evidence; `conviction_promotes_iff` says after
which of them no original of the actor is left in probation.
-/

namespace SemanticsAr

open List

variable {q p : Process} {size actorId : UInt64} {asked : List Process} {T : BlockedTable}
  {P : Preserve} {bc : BCrypt}

/-! ### The blocked table -/

def blockAll (asked : List Process) : BlockedTable :=
  asked.foldl sarCaptureBlockOriginator .empty

/-- The process was asked for at a point at which fewer than 256 different ones had been. -/
def AskedEarly (asked : List Process) (p : Process) : Prop :=
  ∃ front back, asked = front ++ p :: back ∧ front.toFinset.card < SAR_BLOCKED_CAPACITY

theorem blockAll_concat : blockAll (asked ++ [q]) = sarCaptureBlockOriginator (blockAll asked) q :=
  foldl_concat ..

theorem askedEarly_concat : AskedEarly (asked ++ [q]) p ↔
      AskedEarly asked p ∨ (p = q ∧ asked.toFinset.card < SAR_BLOCKED_CAPACITY) := by
  constructor
  · rintro ⟨front, back, heq, hcard⟩
    rcases eq_nil_or_concat back with rfl | ⟨back, last, rfl⟩
    · obtain ⟨rfl, hpq⟩ := append_inj' heq rfl
      exact .inr ⟨(singleton_inj.mp hpq).symm, hcard⟩
    · have heq : asked ++ [q] = (front ++ p :: back) ++ [last] := by simpa using heq
      exact .inl ⟨front, back, (append_inj' heq rfl).1, hcard⟩
  · rintro (⟨front, back, rfl, hcard⟩ | ⟨rfl, hcard⟩)
    · exact ⟨front, back ++ [q], by simp, hcard⟩
    · exact ⟨asked, [], rfl, hcard⟩

theorem AskedEarly.mem (h : AskedEarly asked p) : p ∈ asked := by
  obtain ⟨front, back, rfl, -⟩ := h
  simp

theorem askedEarly_of_mem (hp : p ∈ asked) (hcard : asked.toFinset.card < SAR_BLOCKED_CAPACITY) :
    AskedEarly asked p := by
  obtain ⟨front, back, rfl⟩ := append_of_mem hp
  refine ⟨front, back, rfl, (Finset.card_le_card fun x hx => ?_).trans_lt hcard⟩
  simp only [toFinset_append, Finset.mem_union]
  exact .inl hx

theorem mem_sarCaptureBlockOriginator : p ∈ (sarCaptureBlockOriginator T q).procs ↔
      p ∈ T.procs ∨ (p = q ∧ T.procs.length < SAR_BLOCKED_CAPACITY) := by
  unfold sarCaptureBlockOriginator
  split
  next hq =>
    exact ⟨.inl, fun h => h.elim id fun h => h.1 ▸ hq⟩
  split
  next hlt =>
    simp [hlt]
  next hge =>
    simp [hge]

structure TableHolds (asked : List Process) (T : BlockedTable) : Prop where
  mem_iff : ∀ p, p ∈ T.procs ↔ AskedEarly asked p
  length_eq : T.procs.length = min SAR_BLOCKED_CAPACITY asked.toFinset.card

theorem TableHolds.block (h : TableHolds asked T) :
    TableHolds (asked ++ [q]) (sarCaptureBlockOriginator T q) := by
  have hplace : T.procs.length < SAR_BLOCKED_CAPACITY ↔
      asked.toFinset.card < SAR_BLOCKED_CAPACITY := by
    rw [h.length_eq]
    omega
  have hcard : (asked ++ [q]).toFinset.card = asked.toFinset.card + if q ∈ asked then 0 else 1 := by
    rw [toFinset_append, toFinset_cons, toFinset_nil, insert_empty_eq, Finset.union_singleton]
    split
    next hq =>
      rw [Finset.insert_eq_of_mem (mem_toFinset.mpr hq), Nat.add_zero]
    next hq =>
      exact Finset.card_insert_of_notMem fun hmem => hq (mem_toFinset.mp hmem)
  refine ⟨fun p => ?_, ?_⟩
  · rw [mem_sarCaptureBlockOriginator, askedEarly_concat, h.mem_iff, hplace]
  · rw [hcard]
    unfold sarCaptureBlockOriginator
    split
    next hq =>
      rw [if_pos ((h.mem_iff q).mp hq).mem, Nat.add_zero, h.length_eq]
    rename_i hq
    split
    next hlt =>
      have hnew : q ∉ asked := fun hmem =>
        hq ((h.mem_iff q).mpr (askedEarly_of_mem hmem (hplace.mp hlt)))
      rw [if_neg hnew, length_append, length_singleton, h.length_eq]
      omega
    next hge =>
      rw [h.length_eq]
      omega

theorem tableHolds_blockAll : TableHolds asked (blockAll asked) := by
  induction asked using List.reverseRecOn with
  | nil =>
    refine ⟨fun p => ⟨fun h => absurd h not_mem_nil, fun h => ?_⟩, rfl⟩
    exact absurd h.mem not_mem_nil
  | append_singleton asked q ih =>
    rw [blockAll_concat]
    exact ih.block

/-- **The blocked table** after any block requests: a process is in it exactly if it was asked
    for before its 256 places were taken by others. -/
theorem blocked_iff_askedEarly :
    sarCaptureOriginatorBlocked (blockAll asked) p = true ↔ AskedEarly asked p := by
  rw [sarCaptureOriginatorBlocked, decide_eq_true_eq]
  exact tableHolds_blockAll.mem_iff p

/-! ### Who is denied -/

inductive Operation where
  | create (op : CreateRequest)
  | write (op : WriteRequest)
  | setInformation (op : SetInformationRequest)
  | fsControl (op : FsControlRequest)
  | acquireForSection (op : SectionRequest)
  | read (caller : Caller)

variable {op : Operation}

def Operation.caller : Operation → Caller
  | create op => op.caller
  | write op => op.caller
  | setInformation op => op.caller
  | fsControl op => op.caller
  | acquireForSection op => op.caller
  | read caller => caller

structure Surroundings where
  globals : Globals
  target : Target
  replies : CaptureReplies
  sectionTarget : SectionTarget
  reserved : Bool

variable {env : Surroundings}

def Operation.preStatus (env : Surroundings) (T : BlockedTable) (op : Operation) : PreopStatus :=
  let G := { env.globals with blocked := T }
  match op with
  | create op => (sarPreCreate G env.replies op).status
  | write op => (sarPreWrite G env.target env.replies op).status
  | setInformation op => (sarPreSetInformation G env.target env.replies op).status
  | fsControl op => (sarPreFsControl G env.target env.replies op).status
  | acquireForSection op => (sarPreAcquireForSection G env.sectionTarget env.reserved op).1.status
  | read _ => .successNoCallback

/-- The operations that destroy content of a file of the given size: writes; creates that supersede,
    overwrite or delete on close; truncation; deletion; renames; links over an existing name; and
    the controls that `SarClassifyFsControl` knows. -/
def Operation.destructive (size : UInt64) : Operation → Bool
  | create op => op.disposition.replaces || op.deleteOnClose
  | write _ => true
  | setInformation op =>
    match op.info with
    | .endOfFile newEof | .allocation newEof => decide (newEof < size)
    | .disposition deleteFile | .dispositionEx deleteFile => deleteFile
    | .rename _ | .renameEx _ => true
    | .link replaceIfExists | .linkEx replaceIfExists => replaceIfExists
    | .other => false
  | fsControl op => decide (sarClassifyFsControl op.control ≠ .none)
  | acquireForSection _ => false
  | read _ => false

def Operation.asksTable : Operation → Bool
  | create op => op.disposition.replaces
  | write _ => true
  | setInformation op => decide (sarClassifySetInformation op.info ≠ .none)
  | _ => false

/-- The callback asks the table without regard to the requestor and to what the operation
    does. -/
def Operation.asksBlindly : Operation → Bool
  | setInformation op => decide (sarClassifySetInformation op.info ≠ .none)
  | _ => false

/-- The denials that the block requests call for: a destructive operation of a named actor in user
    mode is refused, and any other fares as it does when nobody is blocked. -/
def DenyScope (env : Surroundings) (asked : List Process) (size : UInt64) (op : Operation) : Prop :=
  (op.caller.process ∈ asked → op.caller.requestor = .userMode → op.destructive size = true →
    (op.preStatus env (blockAll asked)).refused = true) ∧
  (op.caller.process ∉ asked ∨ op.caller.requestor = .kernelMode ∨ op.destructive size = false →
    op.preStatus env (blockAll asked) = op.preStatus env .empty)

/-- **The condition.**  A destructive operation of a named actor in user mode is one whose callback
    asks the table, and the actor was named before the table was full; set-information operations of
    a blocked actor are destructive ones in user mode. -/
def DenyMet (asked : List Process) (size : UInt64) (op : Operation) : Prop :=
  (op.caller.process ∈ asked → op.caller.requestor = .userMode → op.destructive size = true →
    AskedEarly asked op.caller.process ∧ op.asksTable = true) ∧
  (AskedEarly asked op.caller.process → op.asksBlindly = true →
    op.caller.requestor = .userMode ∧ op.destructive size = true)

theorem blocked_empty (p : Process) : sarCaptureOriginatorBlocked .empty p = false :=
  decide_eq_false not_mem_nil

theorem preStatus_of_not_blocked (h : sarCaptureOriginatorBlocked T op.caller.process = false) :
    op.preStatus env T = op.preStatus env .empty := by
  have hempty := blocked_empty op.caller.process
  cases op with
  | create op =>
    simp only [Operation.caller] at h hempty
    simp only [Operation.preStatus, sarPreCreate, sarPhantomPreCreate, h, hempty]
    rfl
  | write op =>
    simp only [Operation.caller] at h hempty
    simp only [Operation.preStatus, sarPreWrite, h, hempty]
    rfl
  | setInformation op =>
    simp only [Operation.caller] at h hempty
    simp only [Operation.preStatus, sarPreSetInformation, h, hempty]
    rfl
  | fsControl op => rfl
  | acquireForSection op => rfl
  | read caller => rfl

/-- A callback that does not ask the table about the operation, or only about user-mode
    requests and this is not one, answers as it does when nobody is blocked. -/
theorem preStatus_of_not_asked (hblind : op.asksBlindly = false)
    (h : op.caller.requestor = .kernelMode ∨ op.asksTable = false) :
    op.preStatus env T = op.preStatus env .empty := by
  cases op with
  | create op =>
    have hno : ∀ b : Bool,
        ¬ (op.caller.requestor = .userMode ∧ b = true ∧ op.disposition.replaces = true) := by
      rintro b ⟨huser, -, hreplaces⟩
      rcases h with hkernel | hasks
      · cases huser.symm.trans hkernel
      · cases hreplaces.symm.trans hasks
    simp only [Operation.preStatus, sarPreCreate, sarPhantomPreCreate, if_neg (hno _)]
    rfl
  | write op =>
    have hkernel : op.caller.requestor = .kernelMode :=
      h.resolve_right (by simp [Operation.asksTable])
    simp only [Operation.preStatus, sarPreWrite, hkernel, reduceCtorEq, false_and, and_false,
      if_false]
    rfl
  | setInformation op =>
    have hnone : sarClassifySetInformation op.info = .none := by
      simpa [Operation.asksBlindly] using hblind
    simp only [Operation.preStatus, sarPreSetInformation, hnone, if_true]
  | fsControl op => rfl
  | acquireForSection op => rfl
  | read caller => rfl

theorem refused_of_blind (env : Surroundings)
    (hblocked : sarCaptureOriginatorBlocked T op.caller.process = true)
    (hblind : op.asksBlindly = true) : (op.preStatus env T).refused = true := by
  cases op with
  | setInformation op =>
    simp only [Operation.caller] at hblocked
    have hmember : sarClassifySetInformation op.info ≠ .none := of_decide_eq_true hblind
    simp [Operation.preStatus, sarPreSetInformation, hblocked, hmember, deny, PreopStatus.refused]
  | _ => cases hblind

theorem refused_of_blocked (hblocked : sarCaptureOriginatorBlocked T op.caller.process = true)
    (huser : op.caller.requestor = .userMode) (hasks : op.asksTable = true) :
    (op.preStatus env T).refused = true := by
  cases op with
  | create op =>
    simp only [Operation.caller] at hblocked huser
    simp only [Operation.asksTable] at hasks
    simp only [Operation.preStatus, sarPreCreate, sarPhantomPreCreate, hblocked, huser, hasks]
    split
    · split
      · rfl
      · rfl
    · rfl
  | write op =>
    simp only [Operation.caller] at hblocked huser
    have hpaging : op.paging = false := by
      cases hp : op.paging with
      | false => rfl
      | true => exact absurd (huser.symm.trans (op.paging_kernel hp)) (by decide)
    simp [Operation.preStatus, sarPreWrite, hblocked, huser, hpaging, deny, PreopStatus.refused]
  | setInformation op => exact refused_of_blind env hblocked hasks
  | fsControl op => cases hasks
  | acquireForSection op => cases hasks
  | read caller => cases hasks

theorem asksTable_eq_false (h : op.destructive size = false) (hblind : op.asksBlindly = false) :
    op.asksTable = false := by
  cases op with
  | create op =>
    simp only [Operation.destructive, Bool.or_eq_false_iff] at h
    exact h.1
  | write op => cases h
  | setInformation op => exact hblind
  | fsControl op => rfl
  | acquireForSection op => rfl
  | read caller => rfl

theorem DenyMet.denyScope (h : DenyMet asked size op) : DenyScope env asked size op := by
  obtain ⟨hdeny, hspare⟩ := h
  refine ⟨fun hasked huser hdestr => ?_, fun hother => ?_⟩
  · obtain ⟨hearly, hasks⟩ := hdeny hasked huser hdestr
    exact refused_of_blocked (blocked_iff_askedEarly.mpr hearly) huser hasks
  · by_cases hearly : AskedEarly asked op.caller.process
    case neg =>
      refine preStatus_of_not_blocked (Bool.eq_false_iff.mpr fun hblocked => hearly ?_)
      exact blocked_iff_askedEarly.mp hblocked
    have hblind : op.asksBlindly = false := by
      refine Bool.eq_false_iff.mpr fun hblind => ?_
      obtain ⟨huser, hdestr⟩ := hspare hearly hblind
      rcases hother with hno | hkernel | hno
      · exact hno hearly.mem
      · cases huser.symm.trans hkernel
      · cases hdestr.symm.trans hno
    rcases hother with hno | hkernel | hno
    · exact absurd hearly.mem hno
    · exact preStatus_of_not_asked hblind (.inl hkernel)
    · exact preStatus_of_not_asked hblind (.inr (asksTable_eq_false hno hblind))

def openSurroundings : Surroundings where
  globals := ⟨.audit, sarStateCreate, .empty, true, false, false⟩
  target := ⟨none, none, none, false⟩
  replies := ⟨.stored, .stored, .stored, .stored, .successWithCallback⟩
  sectionTarget := ⟨none, 0, none, false⟩
  reserved := true

theorem open_refuses (r : StageResult) :
    refuses { openSurroundings.globals with blocked := T } r = false := by
  simp [refuses, openSurroundings]

theorem open_not_refused : (op.preStatus openSurroundings .empty).refused = false := by
  have hempty := blocked_empty op.caller.process
  have hflag (f : StreamFlags → Bool) : openSurroundings.target.flag f = false := rfl
  cases op with
  | create op =>
    simp only [Operation.caller] at hempty
    simp only [Operation.preStatus, sarPreCreate, sarPhantomPreCreate, hempty, open_refuses,
      Bool.false_eq_true, false_and, and_false, if_false]
    split <;> rfl
  | write op =>
    simp only [Operation.caller] at hempty
    simp only [Operation.preStatus, sarPreWrite, hempty, hflag, open_refuses,
      sarTargetIsProtectedStore, sarEnforceInPlaceCapture, Bool.false_eq_true, false_and,
      Bool.and_false, Bool.false_and, if_false]
    repeat' split
    all_goals rfl
  | setInformation op =>
    simp only [Operation.caller] at hempty
    simp only [Operation.preStatus, sarPreSetInformation, hempty, hflag, open_refuses,
      sarTargetIsProtectedStore, sarEnforceInPlaceCapture, preRename, preDisposition, preTruncate,
      Bool.false_eq_true, Bool.and_false, Bool.false_and, if_false]
    repeat' split
    all_goals rfl
  | fsControl op =>
    simp only [Operation.preStatus, sarPreFsControl, hflag, open_refuses,
      sarTargetIsProtectedStore, sarEnforceInPlaceCapture, Bool.false_eq_true, Bool.and_false,
      Bool.false_and, if_false]
    have hphantom : openSurroundings.globals.phantomActive = false := rfl
    simp only [hphantom, Bool.false_eq_true, false_and, and_false, if_false]
    repeat' split
    all_goals rfl
  | acquireForSection op =>
    simp only [Operation.preStatus, sarPreAcquireForSection]
    split <;> rfl
  | read caller => rfl

/-- **Who is denied.**  Whatever block requests were made and whatever else holds, the denials
    are those that the requests call for, exactly if the operation meets the condition. -/
theorem deny_scope_iff (asked : List Process) (size : UInt64) (op : Operation) :
    (∀ env, DenyScope env asked size op) ↔ DenyMet asked size op := by
  refine ⟨fun hscope => ?_, fun hmet env => hmet.denyScope⟩
  obtain ⟨hdeny, hspare⟩ := hscope openSurroundings
  refine ⟨fun hasked huser hdestr => ?_, fun hearly hblind => ?_⟩
  · -- refused there, so the callback has asked the table and found the actor
    have hrefused := hdeny hasked huser hdestr
    constructor
    · by_contra hlate
      have hblocked : sarCaptureOriginatorBlocked (blockAll asked) op.caller.process = false :=
        Bool.eq_false_iff.mpr fun h => hlate (blocked_iff_askedEarly.mp h)
      rw [preStatus_of_not_blocked hblocked, open_not_refused] at hrefused
      cases hrefused
    · by_contra hasks
      have hasks := Bool.eq_false_iff.mpr hasks
      have hblind : op.asksBlindly = false := by
        cases op with
        | setInformation op => exact hasks
        | _ => rfl
      rw [preStatus_of_not_asked hblind (.inr hasks), open_not_refused] at hrefused
      cases hrefused
  · by_contra hother
    have hreason : op.caller.requestor = .kernelMode ∨ op.destructive size = false := by
      cases hmode : op.caller.requestor with
      | kernelMode => exact .inl rfl
      | userMode => exact .inr (Bool.eq_false_iff.mpr fun hdestr => hother ⟨hmode, hdestr⟩)
    have hrefused := refused_of_blind openSurroundings
      (blocked_iff_askedEarly.mpr hearly) hblind
    rw [hspare (.inr hreason), open_not_refused] at hrefused
    cases hrefused

instance (env : Surroundings) (asked : List Process) (size : UInt64) (op : Operation) :
    Decidable (DenyScope env asked size op) :=
  inferInstanceAs (Decidable (_ ∧ _))

def numberedProcess (n : Nat) : Process := ⟨UInt64.ofNat n, UInt64.ofNat n, UInt64.ofNat n⟩

def callerOf (process : Process) (requestor : RequestorMode) : Caller :=
  ⟨process, requestor, true, true⟩

theorem numberedProcess_inj {m n : Nat} (hm : m ≤ 256) (hn : n ≤ 256)
    (h : numberedProcess m = numberedProcess n) : m = n := by
  have hobject := congrArg (fun p => p.object.toNat) h
  simp only [numberedProcess, UInt64.toNat_ofNat'] at hobject
  omega

theorem not_askedEarly_last :
    ¬ AskedEarly ((List.range 256).map numberedProcess ++ [numberedProcess 256])
      (numberedProcess 256) := by
  have hlt : ∀ {n}, n ∈ List.range 256 → n ≤ 256 := fun h => Nat.le_of_lt (mem_range.mp h)
  rw [askedEarly_concat]
  rintro (h | ⟨-, hcard⟩)
  · obtain ⟨n, hn, heq⟩ := mem_map.mp h.mem
    have := numberedProcess_inj (hlt hn) (Nat.le_refl _) heq
    have := mem_range.mp hn
    omega
  · have hnodup : ((List.range 256).map numberedProcess).Nodup :=
      nodup_range.map_on fun m hm n hn => numberedProcess_inj (hlt hm) (hlt hn)
    rw [toFinset_card_of_nodup hnodup, length_map, length_range] at hcard
    exact Nat.lt_irrefl _ hcard

/-- Three ways out of the scope: a blocked actor zeroes a range, the 257th actor writes, and a
    kernel-mode request in the context of a blocked actor is denied. -/
theorem deny_scope_gaps : ¬ DenyScope openSurroundings [numberedProcess 0] 16
        (.fsControl ⟨callerOf (numberedProcess 0) .userMode, .setZeroData (some (0, 16))⟩) ∧
      ¬ DenyScope openSurroundings
        ((List.range 256).map numberedProcess ++ [numberedProcess 256]) 16
        (.write ⟨callerOf (numberedProcess 256) .userMode, false, false, 0, 16, by decide⟩) ∧
      ¬ DenyScope openSurroundings [numberedProcess 0] 16
        (.setInformation ⟨callerOf (numberedProcess 0) .kernelMode, .endOfFile 32, true⟩) := by
  refine ⟨by decide +kernel, fun hscope => ?_, by decide +kernel⟩
  have hrefused := hscope.1 (by simp [Operation.caller, callerOf]) rfl rfl
  rw [preStatus_of_not_blocked, open_not_refused] at hrefused
  · cases hrefused
  · exact Bool.eq_false_iff.mpr fun h =>
      not_askedEarly_last (blocked_iff_askedEarly.mp h)

/-! ### Promotion -/

/-- `SarKeystoreAppend`: a new record, a duplicate, no place. -/
inductive KeystoreAppend where
  | appended
  | duplicate
  | full
deriving DecidableEq, Repr

/-- A conviction: a committed verdict of the Oracle, with the keystore's answer and the key's range,
    or phantom evidence that reaches its threshold in `SarPreWrite`. -/
inductive Conviction where
  | oracle (append : KeystoreAppend) (path : ProvPath) (keyOffset keyLength : UInt64)
  | phantom

/-- The first part of `SarCaptureCommit`: what the key recovers is discarded. -/
def Conviction.reconciled (P : Preserve) : Conviction → Preserve
  | oracle .full _ _ _ => P
  | oracle _ path keyOffset keyLength => sarPreserveReconcileRange path keyOffset keyLength P
  | phantom => P

/-- The store behind a conviction.  The phantom branch of `SarPreWrite` enters the actor in the
    blocked table (`phantomWrite`) and leaves the store alone. -/
def Conviction.store (actor : Process) (P : Preserve) (conv : Conviction) : Preserve :=
  match conv with
  | oracle .. => sarPreservePromoteActor actor.startKey (conv.reconciled P)
  | phantom => P

def NoProbation (actorId : UInt64) (P : Preserve) : Prop :=
  ∀ r ∈ P.records, r.actorId = actorId → r.state ≠ SAR_PRESERVE_PROBATION

/-- The second table differs from the first in the state of probation records of the actor
    at most. -/
def PromotesOnly (actorId : UInt64) (before after : List PreserveRecord) : Prop :=
  List.Forall₂ (fun r r' => r' = r ∨ (r.actorId = actorId ∧ r.state = SAR_PRESERVE_PROBATION ∧
    r' = { r with state := SAR_PRESERVE_PROTECTED })) before after

theorem StoreSection.records_of_not_ready (sec : StoreSection)
    (hready : P.ready = false) (hrecords : P.records = []) : (sec.apply bc P).records = [] := by
  cases sec with
  | reap why => simp [apply, reapOne, hrecords]
  | reconcile path keyOffset keyLength =>
    simp [apply, reconcileTable, sarPreserveReconcile, hrecords]
  | evict now => simp [apply, evictTable, sarPreserveEvictAged, hrecords]
  | call op hop =>
    by_cases hbudgets : op.Budgets
    · obtain ⟨_, _, _, heq⟩ := hbudgets.apply_eq bc P
      exact (congrArg Preserve.records heq).trans hrecords
    cases op with
    | reserve _ | release _ | setBudget _ _ | restore _ _ _ _ _ => exact absurd trivial hbudgets
    | load _ | reconcile _ _ _ | maintain _ => exact absurd hop id
    | stage args env => simp [apply, StoreOp.apply, sarPreserveStage, hready, hrecords]
    | stageLink path fileSize actorId linkId now causingPath =>
      simp [apply, StoreOp.apply, sarPreserveStageLink, hready, hrecords]
    | promote actorId =>
      simp [apply, StoreOp.apply, sarPreservePromoteActor, hready, hrecords]
    | rename oldPath newPath =>
      simp [apply, StoreOp.apply, sarPreserveRename, hready, hrecords]

theorem Reachable.records_of_not_ready (h : Reachable bc P) (hready : P.ready = false) :
    P.records = [] := by
  induction h with
  | create => rfl
  | next _ sec ih =>
    have hbefore := sec.frame.ready_eq.symm.trans hready
    exact sec.records_of_not_ready hbefore (ih hbefore)
  | boot _ env hindex ih =>
    have hrecords := keyedStore_records env
    unfold sarPreserveLoad at hready ⊢
    unfold keyedStore at hrecords
    split at hready
    next Q hQ =>
      rwa [hQ] at hrecords
    next Q hQ =>
      rw [hQ] at hrecords
      split at hready
      next hopens =>
        rw [if_pos hopens]
        exact hrecords
      · cases hready

theorem promotesOnly_refl (records : List PreserveRecord) : PromotesOnly actorId records records :=
  forall₂_same.mpr fun _ _ => .inl rfl

theorem promotesOnly_promoteActor :
    PromotesOnly actorId P.records (sarPreservePromoteActor actorId P).records := by
  unfold sarPreservePromoteActor
  split
  · exact promotesOnly_refl _
  · refine forall₂_map_right_iff.mpr (forall₂_same.mpr fun r _ => ?_)
    unfold promoteRecord
    split
    next h =>
      exact .inr ⟨h.2, h.1, rfl⟩
    · exact .inl rfl

theorem noProbation_promoteActor {actorId : UInt64} (hempty : P.ready = false → P.records = []) :
    NoProbation actorId (sarPreservePromoteActor actorId P) := by
  intro r hr hactor hstate
  unfold sarPreservePromoteActor at hr
  split at hr
  next hready =>
    rw [hempty hready] at hr
    exact absurd hr not_mem_nil
  · obtain ⟨s, -, rfl⟩ := mem_map.mp hr
    unfold promoteRecord at hactor hstate
    split at hstate
    · cases hstate
    next hno =>
      rw [if_neg hno] at hactor
      exact hno ⟨hstate, hactor⟩

inductive ResponseAct where
  | locked (sec : StoreSection)
  | convict (actor : Process) (conv : Conviction)

variable {act : ResponseAct}

def ResponseAct.apply (bc : BCrypt) (P : Preserve) : ResponseAct → Preserve
  | .locked sec => sec.apply bc P
  | .convict actor conv => conv.store actor P

def ConvictionPromotes (P : Preserve) : ResponseAct → Prop
  | .locked _ => True
  | .convict actor conv =>
    NoProbation actor.startKey (conv.store actor P) ∧
      PromotesOnly actor.startKey (conv.reconciled P).records (conv.store actor P).records

def PromotionMet (P : Preserve) : ResponseAct → Prop
  | .convict actor .phantom => NoProbation actor.startKey P
  | _ => True

theorem Reachable.reconciled (h : Reachable bc P) (conv : Conviction) :
    Reachable bc (conv.reconciled P) := by
  cases conv with
  | phantom => exact h
  | oracle append path keyOffset keyLength =>
    have hcall : Reachable bc (SemanticsAr.runStore bc P [.reconcile path keyOffset keyLength]) :=
      h.runStore (by simp [StoreOp.Loaded])
    cases append with
    | full => exact h
    | _ => exact hcall

theorem Reachable.response (h : Reachable bc P) : Reachable bc (act.apply bc P) := by
  cases act with
  | locked sec => exact h.next sec
  | convict actor conv =>
    cases conv with
    | phantom => exact h
    | oracle append path keyOffset keyLength =>
      exact (h.reconciled _).next (.call (.promote actor.startKey) trivial)

theorem convictionPromotes_iff (h : Reachable bc P) :
    ConvictionPromotes P act ↔ PromotionMet P act := by
  cases act with
  | locked sec => exact Iff.rfl
  | convict actor conv =>
    cases conv with
    | phantom => exact and_iff_left (promotesOnly_refl _)
    | oracle append path keyOffset keyLength =>
      have hreach := h.reconciled (.oracle append path keyOffset keyLength)
      have hready := hreach.records_of_not_ready
      exact iff_of_true
        ⟨noProbation_promoteActor hready, promotesOnly_promoteActor⟩ trivial

/-- **Every conviction promotes** the actor's originals, and nothing else, in a run from a
    reachable state, exactly if each conviction by phantom evidence finds none of them in
    probation. -/
theorem conviction_promotes_iff (bc : BCrypt) {P : Preserve} (hreach : Reachable bc P)
    (acts : List ResponseAct) :
    Runs.Each (ResponseAct.apply bc) ConvictionPromotes P acts ↔
      Runs.Each (ResponseAct.apply bc) PromotionMet P acts :=
  Runs.each_congr_inv (fun _ _ (h : Reachable bc _) => h.response)
    (fun _ _ h => convictionPromotes_iff h) hreach

/-- Sixteen bytes of the file `a` are held for the actor with start key 7. -/
def heldSection : ResponseAct :=
  .locked (.call (.stage (stageZeros (pathOf [97] fileA_fits) 0 16) (grantedEnv 1)) trivial)

/-- A verdict of the Oracle about another file. -/
theorem conviction_promotes_oracle :
    Runs.Each (ResponseAct.apply identityCrypt) ConvictionPromotes (freshStore firstLoad)
      [heldSection,
        .convict (numberedProcess 7) (.oracle .appended (pathOf [98] (by decide)) 0 16)] :=
  (conviction_promotes_iff identityCrypt (reachable_freshStore _) _).mpr
    ⟨trivial, trivial, trivial⟩

/-- Phantom evidence leaves the original of the actor in probation. -/
theorem phantom_conviction_promotes_nothing : Reachable identityCrypt (freshStore firstLoad) ∧
      ¬ Runs.Each (ResponseAct.apply identityCrypt) ConvictionPromotes (freshStore firstLoad)
        [heldSection, .convict (numberedProcess 7) .phantom] := by
  refine ⟨reachable_freshStore _, fun hrun => ?_⟩
  have hheld : ∃ r ∈ (heldSection.apply identityCrypt (freshStore firstLoad)).records,
      r.actorId = 7 ∧ r.state = SAR_PRESERVE_PROBATION := by decide +kernel
  obtain ⟨r, hr, hactor, hstate⟩ := hheld
  exact hrun.2.1.1 r hr hactor hstate

end SemanticsAr
