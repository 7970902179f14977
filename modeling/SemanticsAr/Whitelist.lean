import SemanticsAr.Capture

/-!
# The whitelist

`control/src/whitelist.c`: the identities an operator has exempted.  An identity is compared
by its content hash and its signer alone; the path is carried along for the listing and for
the test whether the image is an interpreter.  The list holds no identity twice, no
interpreter, and no more entries than its storage has room for.
-/

namespace SemanticsAr

open Bool
open List hiding Vector

variable {firstSeen : UInt64}

def SEMANTICS_AR_PROTO_PATH_MAX : Nat := 260
def SEMANTICS_AR_PROTO_SUBJECT_MAX : Nat := 256
def SEMANTICS_AR_CONTENT_HASH_SIZE : Nat := 32
def SAR_WHITELIST_CAPACITY : Nat := 256

abbrev ImagePath := Vector UInt16 SEMANTICS_AR_PROTO_PATH_MAX

/-- `sar_identity_t`. -/
structure SarIdentity where
  imagePath : ImagePath
  certSubject : Vector UInt16 SEMANTICS_AR_PROTO_SUBJECT_MAX
  contentHash : Vector UInt8 SEMANTICS_AR_CONTENT_HASH_SIZE
deriving DecidableEq

variable {id a b : SarIdentity}

/-- `identity_equal`: two comparisons of memory. -/
def identityEqual (a b : SarIdentity) : Bool :=
  a.contentHash.toList == b.contentHash.toList && a.certSubject.toList == b.certSubject.toList

theorem identityEqual_iff :
    identityEqual a b = true ↔ a.contentHash = b.contentHash ∧ a.certSubject = b.certSubject := by
  rw [identityEqual, and_eq_true, beq_iff_eq, beq_iff_eq, Vector.toList_inj, Vector.toList_inj]

theorem identityEqual_symm (h : identityEqual a b = true) : identityEqual b a = true := by
  rw [identityEqual_iff] at h ⊢
  exact ⟨h.1.symm, h.2.symm⟩

theorem identityEqual_trans {c : SarIdentity} (hab : identityEqual a b = true)
    (hbc : identityEqual b c = true) : identityEqual a c = true := by
  rw [identityEqual_iff] at hab hbc ⊢
  exact ⟨hab.1.trans hbc.1, hab.2.trans hbc.2⟩

/-- Text copied into a buffer of `n` units, cut so that a zero follows it
    (`sar_copy_wide`). -/
def copyWide (n : Nat) (text : List UInt16) : Vector UInt16 n :=
  Vector.ofFn fun i => (text.take (n - 1)).getD i.val 0

/-! ### Interpreters -/

def imageText (path : ImagePath) : List UInt16 := path.toList.takeWhile (· != 0)

def leafName (text : List UInt16) : List UInt16 :=
  (text.reverse.takeWhile fun c => c != 92 && c != 47).reverse

def trimmedName (leaf : List UInt16) : List UInt16 :=
  (leaf.reverse.dropWhile fun c => c == 32 || c == 46).reverse

def interpreterNames : List String :=
  ["powershell.exe", "pwsh.exe", "cmd.exe", "wscript.exe", "cscript.exe", "mshta.exe",
    "python.exe", "node.exe"]

def sarIdentityIsInterpreter (path : ImagePath) : Bool :=
  let name := (trimmedName (leafName (imageText path))).map asciiLower
  interpreterNames.any fun n => (wideUnits n).map asciiLower == name

/-! ### The list -/

/-- `sar_wl_status_t`; the status for missing pointers is left out, since the driver's list
    has its storage from its creation on. -/
inductive WlStatus where
  | ok
  | full
  | duplicate
  | notFound
  | interpreter
deriving DecidableEq, Repr

structure WhitelistEntry where
  identity : SarIdentity
  firstSeen : UInt64

variable {e : WhitelistEntry}

def DistinctEntries (entries : List WhitelistEntry) : Prop :=
  entries.Pairwise fun a b => identityEqual a.identity b.identity = false

/-- `sar_whitelist_t`, with the storage the driver gives it. -/
structure Whitelist where
  entries : List WhitelistEntry
  fits : entries.length ≤ SAR_WHITELIST_CAPACITY
  distinct : DistinctEntries entries
  plain : ∀ e ∈ entries, sarIdentityIsInterpreter e.identity.imagePath = false

variable {wl : Whitelist}

namespace Whitelist

/-- `sar_whitelist_match`. -/
def lists (wl : Whitelist) (id : SarIdentity) : Bool :=
  wl.entries.any fun e => identityEqual e.identity id

end Whitelist

theorem lists_eq_true : wl.lists id = true ↔ ∃ e ∈ wl.entries, identityEqual e.identity id = true :=
  any_eq_true

def sarWhitelistInit : Whitelist where
  entries := []
  fits := Nat.zero_le _
  distinct := List.Pairwise.nil
  plain := forall_mem_nil _

theorem distinct_append (hnew : ¬ wl.lists id = true) :
    DistinctEntries (wl.entries ++ [⟨id, firstSeen⟩]) := by
  refine pairwise_append.mpr ⟨wl.distinct, pairwise_singleton _ _, ?_⟩
  intro e hmem added hadded
  rw [mem_singleton.mp hadded, ← not_eq_true]
  intro heq
  exact hnew (lists_eq_true.mpr ⟨e, hmem, heq⟩)

theorem plain_append (hplain : ¬ sarIdentityIsInterpreter id.imagePath = true) :
    ∀ e ∈ wl.entries ++ [⟨id, firstSeen⟩],
      sarIdentityIsInterpreter e.identity.imagePath = false := by
  intro e hmem
  rcases mem_append.mp hmem with hold | hadded
  · exact wl.plain e hold
  · rw [mem_singleton.mp hadded]
    exact eq_false_iff.mpr hplain

theorem fits_append (hroom : ¬ wl.entries.length ≥ SAR_WHITELIST_CAPACITY) :
    (wl.entries ++ [e]).length ≤ SAR_WHITELIST_CAPACITY := by
  rw [length_append, length_singleton]
  omega

def sarWhitelistAdd (wl : Whitelist) (id : SarIdentity) (firstSeen : UInt64) :
    WlStatus × Whitelist :=
  if hplain : sarIdentityIsInterpreter id.imagePath = true then (.interpreter, wl)
  else if hnew : wl.lists id = true then (.duplicate, wl)
  else if hroom : wl.entries.length ≥ SAR_WHITELIST_CAPACITY then (.full, wl)
  else
    (.ok,
      { entries := wl.entries ++ [⟨id, firstSeen⟩]
        fits := fits_append hroom
        distinct := distinct_append hnew
        plain := plain_append hplain })

def eraseIdentity (entries : List WhitelistEntry) (id : SarIdentity) : List WhitelistEntry :=
  entries.eraseP fun e => identityEqual e.identity id

theorem plain_erase :
    ∀ e ∈ eraseIdentity wl.entries id, sarIdentityIsInterpreter e.identity.imagePath = false :=
  fun e hmem => wl.plain e (eraseP_sublist.mem hmem)

def sarWhitelistRemove (wl : Whitelist) (id : SarIdentity) : WlStatus × Whitelist :=
  if wl.lists id then
    (.ok,
      { entries := eraseIdentity wl.entries id
        fits := eraseP_sublist.length_le.trans wl.fits
        distinct := wl.distinct.sublist eraseP_sublist
        plain := plain_erase })
  else (.notFound, wl)

/-! ### What the operations do to the entries -/

theorem sarWhitelistAdd_cases (firstSeen : UInt64) :
    ((sarWhitelistAdd wl id firstSeen).1 = .ok ∧ sarIdentityIsInterpreter id.imagePath = false ∧
        wl.lists id = false ∧ wl.entries.length < SAR_WHITELIST_CAPACITY) ∨
      ((sarWhitelistAdd wl id firstSeen).1 ≠ .ok ∧ (sarWhitelistAdd wl id firstSeen).2 = wl) := by
  unfold sarWhitelistAdd
  split
  · exact .inr ⟨nofun, rfl⟩
  split
  · exact .inr ⟨nofun, rfl⟩
  split
  · exact .inr ⟨nofun, rfl⟩
  next hplain hnew hroom =>
    exact .inl ⟨rfl, eq_false_iff.mpr hplain, eq_false_iff.mpr hnew, Nat.not_le.mp hroom⟩

/-- No two entries of a list have one identity, so the first entry that is found is the only
    one that goes. -/
theorem eraseIdentity_eq_filter {entries : List WhitelistEntry}
    (hdistinct : DistinctEntries entries) :
    eraseIdentity entries id = entries.filter fun e => !identityEqual e.identity id := by
  induction entries with
  | nil => rfl
  | cons first rest ih =>
    obtain ⟨hfirst, hrest⟩ := pairwise_cons.mp hdistinct
    by_cases hhead : identityEqual first.identity id = true
    · have hothers : ∀ e ∈ rest, (!identityEqual e.identity id) = true := by
        intro e hmem
        rw [Bool.not_eq_true', ← not_eq_true]
        intro heq
        have hne := hfirst e hmem
        rw [identityEqual_trans hhead (identityEqual_symm heq)] at hne
        cases hne
      simp [eraseIdentity, hhead, filter_eq_self.mpr hothers]
    · simp [eraseIdentity, hhead, ← ih hrest]

theorem sarWhitelistRemove_entries (wl : Whitelist) (id : SarIdentity) :
    (sarWhitelistRemove wl id).2.entries =
      wl.entries.filter fun e => !identityEqual e.identity id := by
  rw [← eraseIdentity_eq_filter wl.distinct, sarWhitelistRemove]
  split
  · rfl
  next hnone =>
    rw [eraseIdentity, eraseP_of_forall_not]
    intro e hmem heq
    exact hnone (lists_eq_true.mpr ⟨e, hmem, heq⟩)

end SemanticsAr
