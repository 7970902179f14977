import SemanticsAr.ByteCodec
import Mathlib.Data.List.Induction
import Mathlib.Data.Set.Function

/-!
# MAC-chained record logs

An append-only log on disk is a sequence of fixed-width records, each followed
by a tag.  The tag authenticates the record together with the tag before it, so
the last tag commits to the whole sequence.  This module fixes the layout over
an arbitrary record codec, tag codec and tag function, gives the two loops a
reader runs over such a log (check the tags, copy the records out) with every
buffer access bounds-checked, and proves

* what a successful check says about the bytes (`checkLog_eq_some_iff`),
* exactly when a check leaves the buffer (`checkLog_fault_iff`), and
* that equal last tags mean equal logs as long as the tag function does not
  collide on the messages that were authenticated (`chainHead_injOn`).
-/

namespace SemanticsAr

open List Nat

variable {buf : List UInt8} {off n : Nat} {S : Set (List UInt8)}

structure ReadFault where
  limit : Nat
deriving DecidableEq, Repr

/-- Read `n` bytes at index `off`. -/
def readAt (buf : List UInt8) (off n : Nat) : Except ReadFault (List UInt8) :=
  if off + n ≤ buf.length then .ok ((buf.drop off).take n) else .error ⟨off + n⟩

theorem readAt_of_le (h : off + n ≤ buf.length) :
    readAt buf off n = .ok ((buf.drop off).take n) := if_pos h

theorem readAt_of_lt (h : buf.length < off + n) :
    readAt buf off n = .error ⟨off + n⟩ := if_neg (by omega)

theorem length_window (h : off + n ≤ buf.length) : ((buf.drop off).take n).length = n := by
  rw [length_take, length_drop]; omega

theorem take_drop_add (k m : Nat) :
    (buf.drop off).take (k + m) = (buf.drop off).take k ++ (buf.drop (off + k)).take m := by
  rw [take_add, drop_drop]

namespace ChainedLog

variable {R T : Type} (rc : FixedCodec R) (tc : FixedCodec T) (mac : List UInt8 → T) {r : R}

def recordMsg (r : R) (prev : T) : List UInt8 := rc.put r ++ tc.put prev

/-- The last tag of a log that starts from `prev`. -/
def chainHead (prev : T) : List R → T
  | [] => prev
  | r :: rs => chainHead (mac (recordMsg rc tc r prev)) rs

def chainMsgs (prev : T) : List R → List (List UInt8)
  | [] => []
  | r :: rs => recordMsg rc tc r prev :: chainMsgs (mac (recordMsg rc tc r prev)) rs

def chainBody (prev : T) : List R → List UInt8
  | [] => []
  | r :: rs =>
    (rc.pair tc).put (r, mac (recordMsg rc tc r prev)) ++
      chainBody (mac (recordMsg rc tc r prev)) rs

@[simp] theorem length_chainBody (prev : T) (rs : List R) :
    (chainBody rc tc mac prev rs).length = rs.length * (rc.pair tc).width := by
  induction rs generalizing prev with
  | nil => simp [chainBody]
  | cons r rs ih => simp [chainBody, ih, succ_mul, add_comm]

theorem chainHead_append (prev : T) (rs : List R) (r : R) : chainHead rc tc mac prev (rs ++ [r]) =
      mac (recordMsg rc tc r (chainHead rc tc mac prev rs)) := by
  induction rs generalizing prev with
  | nil => rfl
  | cons s rs ih => exact ih _

theorem chainMsgs_append (prev : T) (rs : List R) : chainMsgs rc tc mac prev (rs ++ [r]) =
      chainMsgs rc tc mac prev rs ++ [recordMsg rc tc r (chainHead rc tc mac prev rs)] := by
  induction rs generalizing prev with
  | nil => rfl
  | cons s rs ih => simp only [cons_append, chainMsgs, chainHead, ih]

theorem recordMsg_inj {r s : R} {p q : T} (h : recordMsg rc tc r p = recordMsg rc tc s q) :
    r = s ∧ p = q := by
  have hpair : (rc.pair tc).put (r, p) = (rc.pair tc).put (s, q) := h
  exact Prod.mk.inj ((rc.pair tc).put_injective hpair)

theorem length_recordMsg (p : T) : (recordMsg rc tc r p).length = rc.width + tc.width := by
  simp [recordMsg]

/-! ### Equal heads -/

/-- **The last tag commits to the log.**  Two logs whose last tags agree start from the same tag and
    hold the same records, if the tag function is injective on the messages authenticated and no
    record message produces a start tag unless it is a start message. -/
theorem chainHead_injOn (hinj : Set.InjOn mac S) {p q : T}
    (hp : ∀ m ∈ S, (∃ r t, m = recordMsg rc tc r t) → mac m ≠ p)
    (hq : ∀ m ∈ S, (∃ r t, m = recordMsg rc tc r t) → mac m ≠ q) {rs ss : List R}
    (hrs : ∀ m ∈ chainMsgs rc tc mac p rs, m ∈ S) (hss : ∀ m ∈ chainMsgs rc tc mac q ss, m ∈ S)
    (h : chainHead rc tc mac p rs = chainHead rc tc mac q ss) :
    p = q ∧ rs = ss := by
  -- from the last record backwards, peeling one record off both logs at a time
  induction rs using List.reverseRecOn generalizing ss with
  | nil =>
    rcases eq_nil_or_concat ss with rfl | ⟨ss', s, rfl⟩
    · exact ⟨h, rfl⟩
    · rw [concat_eq_append] at h hss
      rw [chainHead_append] at h
      rw [chainMsgs_append] at hss
      exact absurd h.symm (hp _ (hss _ (by simp)) ⟨s, _, rfl⟩)
  | append_singleton rs r ih =>
    rcases eq_nil_or_concat ss with rfl | ⟨ss', s, rfl⟩
    · rw [chainHead_append] at h
      rw [chainMsgs_append] at hrs
      exact absurd h (hq _ (hrs _ (by simp)) ⟨r, _, rfl⟩)
    · rw [concat_eq_append] at h hss
      rw [chainHead_append, chainHead_append] at h
      rw [chainMsgs_append] at hrs hss
      have hmsg := hinj (hrs _ (by simp)) (hss _ (by simp)) h
      obtain ⟨hrec, hhead⟩ := recordMsg_inj rc tc hmsg
      obtain ⟨hpq, hlists⟩ := ih (fun m hm => hrs m (by simp [hm]))
        (fun m hm => hss m (by simp [hm])) hhead
      exact ⟨hpq, by rw [hlists, hrec]; simp⟩

theorem exists_of_mem_chainMsgs {p : T} {rs : List R} {m : List UInt8}
    (h : m ∈ chainMsgs rc tc mac p rs) :
    ∃ as r bs, rs = as ++ r :: bs ∧ m = recordMsg rc tc r (chainHead rc tc mac p as) := by
  induction rs generalizing p with
  | nil => exact absurd h not_mem_nil
  | cons r rs ih =>
    rcases mem_cons.mp h with rfl | h
    · exact ⟨[], r, rs, rfl, rfl⟩
    · obtain ⟨as, s, bs, rfl, rfl⟩ := ih h
      exact ⟨r :: as, s, bs, rfl, rfl⟩

theorem chainMsgs_append_left (p : T) (rs ss : List R) :
    chainMsgs rc tc mac p rs ⊆ chainMsgs rc tc mac p (rs ++ ss) := by
  induction rs generalizing p with
  | nil => exact nil_subset _
  | cons r rs ih => exact cons_subset_cons _ (ih _)

/-- A log all of whose messages were authenticated along logs of a family is a prefix of a member:
    tags can be replayed only from the start of a log on and without a gap. -/
theorem prefix_of_chainMsgs_subset {F : Set (List R)} {p : T} (hinj : Set.InjOn mac S)
    (hp : ∀ m ∈ S, (∃ r t, m = recordMsg rc tc r t) → mac m ≠ p)
    (hF : ∀ rs ∈ F, ∀ m ∈ chainMsgs rc tc mac p rs, m ∈ S) {ss : List R} (hne : ss ≠ [])
    (hss : ∀ m ∈ chainMsgs rc tc mac p ss, ∃ rs ∈ F, m ∈ chainMsgs rc tc mac p rs) :
    ∃ rs ∈ F, ss <+: rs := by
  obtain ⟨ss, s, rfl⟩ := (eq_nil_or_concat ss).resolve_left hne
  rw [concat_eq_append, chainMsgs_append] at hss
  -- the last message of the log fixes the head before it, hence all records before it
  obtain ⟨rs, hrs, hmem⟩ := hss (recordMsg rc tc s (chainHead rc tc mac p ss)) (by simp)
  obtain ⟨as, r, bs, rfl, hmsg⟩ := exists_of_mem_chainMsgs rc tc mac hmem
  obtain ⟨rfl, hhead⟩ := recordMsg_inj rc tc hmsg
  have hsub : ∀ m ∈ chainMsgs rc tc mac p ss, m ∈ S := by
    intro m hm
    obtain ⟨rs', hrs', hm'⟩ := hss m (by simp [hm])
    exact hF rs' hrs' m hm'
  have hsub' : ∀ m ∈ chainMsgs rc tc mac p as, m ∈ S := fun m hm =>
    hF _ hrs m (chainMsgs_append_left rc tc mac p as _ hm)
  obtain ⟨-, rfl⟩ := chainHead_injOn rc tc mac hinj hp hp hsub hsub' hhead
  exact ⟨_, hrs, bs, by simp⟩

/-! ### Reading a log back -/

variable [DecidableEq T]

/-- Check the tags of `n` records at index `off`.  `none` is a wrong tag, `some`
    carries the last tag. -/
def checkLog (buf : List UInt8) : Nat → Nat → T → Except ReadFault (Option T)
  | 0, _, prev => .ok (some prev)
  | n + 1, off, prev => do
    let disk := (rc.pair tc).get (← readAt buf off (rc.pair tc).width)
    if mac (recordMsg rc tc disk.1 prev) = disk.2 then
      checkLog buf n (off + (rc.pair tc).width) disk.2
    else
      .ok none

def readLog (buf : List UInt8) : Nat → Nat → Except ReadFault (List R)
  | 0, _ => .ok []
  | n + 1, off => do
    let disk := (rc.pair tc).get (← readAt buf off (rc.pair tc).width)
    let rest ← readLog buf n (off + (rc.pair tc).width)
    .ok (disk.1 :: rest)

theorem checkLog_succ_of_le {prev : T} (h : off + (rc.pair tc).width ≤ buf.length) :
    checkLog rc tc mac buf (n + 1) off prev =
      let disk := (rc.pair tc).get ((buf.drop off).take (rc.pair tc).width)
      if mac (recordMsg rc tc disk.1 prev) = disk.2 then
        checkLog rc tc mac buf n (off + (rc.pair tc).width) disk.2
      else .ok none := by
  rw [checkLog, readAt_of_le h]; rfl

theorem checkLog_succ_of_lt {prev : T} (h : buf.length < off + (rc.pair tc).width) :
    checkLog rc tc mac buf (n + 1) off prev = .error ⟨off + (rc.pair tc).width⟩ := by
  rw [checkLog, readAt_of_lt h]; rfl

/-- **A checked log is an encoded log.**  The check succeeds with last tag
    `head` exactly on the windows that encode some records ending in `head`. -/
theorem checkLog_eq_some_iff {prev head : T} (hoff : off ≤ buf.length) :
    checkLog rc tc mac buf n off prev = .ok (some head) ↔
      ∃ rs : List R, rs.length = n ∧ chainHead rc tc mac prev rs = head ∧
        chainBody rc tc mac prev rs = (buf.drop off).take (n * (rc.pair tc).width) := by
  induction n generalizing off prev with
  | zero =>
    constructor
    · intro h
      refine ⟨[], rfl, ?_, by simp [chainBody]⟩
      simpa [checkLog, chainHead] using h
    · rintro ⟨rs, hlen, rfl, -⟩
      rw [length_eq_zero_iff] at hlen
      subst hlen
      rfl
  | succ n ih =>
    set w := (rc.pair tc).width with hw
    by_cases hfit : off + w ≤ buf.length
    · rw [checkLog_succ_of_le rc tc mac hfit]
      set disk := (rc.pair tc).get ((buf.drop off).take w) with hdisk
      have hput : (rc.pair tc).put disk = (buf.drop off).take w :=
        (rc.pair tc).put_get _ (length_window hfit)
      have hcut : (buf.drop off).take ((n + 1) * w) =
          (rc.pair tc).put disk ++ (buf.drop (off + w)).take (n * w) := by
        rw [hput, ← take_drop_add, succ_mul, add_comm (n * w) w]
      constructor
      · intro h
        dsimp only at h
        split at h
        next htag =>
          obtain ⟨rs, hlen, hhead, hbody⟩ := (ih hfit).mp h
          refine ⟨disk.1 :: rs, by simp [hlen], ?_, ?_⟩
          · rw [chainHead, htag, hhead]
          · rw [chainBody, htag, hbody, hcut]
        · simp at h
      · rintro ⟨rs, hlen, hhead, hbody⟩
        cases rs with
        | nil => simp at hlen
        | cons r rs =>
          rw [chainBody, hcut] at hbody
          obtain ⟨hfst, hrest⟩ := append_inj hbody (by simp)
          obtain ⟨hrec, htag⟩ := Prod.ext_iff.mp ((rc.pair tc).put_injective hfst)
          dsimp only at hrec htag ⊢
          rw [← hrec, htag, if_pos rfl]
          refine (ih hfit).mpr ⟨rs, by simpa using hlen, ?_, ?_⟩
          · rw [← htag]; exact hhead
          · rw [← htag]; exact hrest
    · rw [checkLog_succ_of_lt rc tc mac (by omega)]
      constructor
      · intro h; simp at h
      · rintro ⟨rs, hlen, -, hbody⟩
        -- the encoding of `n + 1` records is longer than what is left
        have hsize := congrArg List.length hbody
        rw [length_chainBody, length_take, length_drop, hlen, succ_mul] at hsize
        omega

omit [DecidableEq T] in
theorem readLog_of_chainBody {prev : T} {rs : List R} (hoff : off ≤ buf.length)
    (h : chainBody rc tc mac prev rs = (buf.drop off).take (rs.length * (rc.pair tc).width)) :
    readLog rc tc buf rs.length off = .ok rs := by
  induction rs generalizing off prev with
  | nil => rfl
  | cons r rs ih =>
    set w := (rc.pair tc).width with hw
    have hsize := congrArg List.length h
    rw [length_chainBody, length_take, length_drop, length_cons, succ_mul] at hsize
    have hfit : off + w ≤ buf.length := by omega
    rw [length_cons, succ_mul, add_comm, take_drop_add, chainBody] at h
    obtain ⟨hfst, hrest⟩ := append_inj h (by
      rw [FixedCodec.put_length, length_window hfit])
    rw [length_cons, readLog, readAt_of_le hfit]
    show (do let rest ← readLog rc tc buf rs.length (off + w); _) = _
    rw [ih hfit hrest, ← hfst, FixedCodec.get_put]
    rfl

/-- **When the check leaves the buffer.**  With `k` whole records in the buffer, a check of `n` runs
    past the end exactly when `n` exceeds `k` and the `k` records carry the right tags. -/
theorem checkLog_fault_iff {k : Nat} {prev : T} (hk : off + k * (rc.pair tc).width ≤ buf.length)
    (hk' : buf.length < off + (k + 1) * (rc.pair tc).width) :
    (∃ f, checkLog rc tc mac buf n off prev = .error f) ↔
      k < n ∧ ∃ head, checkLog rc tc mac buf k off prev = .ok (some head) := by
  induction n generalizing k off prev with
  | zero => simp [checkLog]
  | succ n ih =>
    cases k with
    | zero =>
      rw [checkLog_succ_of_lt rc tc mac (by omega)]
      simp [checkLog]
    | succ k =>
      simp only [succ_mul] at hk hk' ih
      have hfit : off + (rc.pair tc).width ≤ buf.length := by omega
      rw [checkLog_succ_of_le rc tc mac hfit, checkLog_succ_of_le rc tc mac hfit]
      dsimp only
      split
      · rw [ih (k := k) (by omega) (by omega), succ_lt_succ_iff]
      · simp

omit [DecidableEq T] in
theorem readLog_take {m : Nat} {rs : List R} (h : readLog rc tc buf n off = .ok rs) (hm : m ≤ n) :
    readLog rc tc buf m off = .ok (rs.take m) := by
  induction n generalizing m off rs with
  | zero =>
    rw [le_zero.mp hm]
    rfl
  | succ n ih =>
    cases m with
    | zero => rfl
    | succ m =>
      rw [readLog] at h ⊢
      cases hread : readAt buf off (rc.pair tc).width with
      | error fault =>
        rw [hread] at h
        cases h
      | ok bytes =>
        rw [hread] at h
        cases hrest : readLog rc tc buf n (off + (rc.pair tc).width) with
        | error fault =>
          simp only [bind, Except.bind, hrest] at h
          cases h
        | ok rest =>
          simp only [bind, Except.bind, hrest] at h
          cases h
          simp only [bind, Except.bind, ih hrest (le_of_succ_le_succ hm)]
          rfl

end ChainedLog

end SemanticsAr
