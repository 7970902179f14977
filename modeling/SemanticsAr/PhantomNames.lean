import SemanticsAr.StorePaths

/-!
# The names of decoys

The part of `driver/phantom.c` that derives the names and the file references of decoys from
the volume's secret and the directory, and recognises them again: by the extension first, by
the name, and by the reference in the table of decoys that were shown.  Nothing of it asks
whether the directory has a file of that name.
-/

namespace SemanticsAr

open List hiding Vector

def SAR_PHANTOM_MAX_PER_DIR : Nat := 3
def SAR_PHANTOM_NAME_CHARS : Nat := 32
def SAR_PHANTOM_FRN_BASE : UInt64 := 0x0000400000000000
def SAR_PHANTOM_FRN_SPAN : UInt64 := 0x0000010000000000
def SAR_PHANTOM_FRN_INDEX_MASK : UInt64 := 0x0000FFFFFFFFFFFF

/-! ### The keyed hash of a directory and an index -/

/-- `SarPhantomCanonDir`: without the device and the volume, and without a backslash at the
    end. -/
def sarPhantomCanonDir (dir : List UInt16) : List UInt16 :=
  let rest :=
    if sarWideCaselessPrefix dir (wideUnits "\\Device\\") then (fromThirdBackslash 0 dir).getD dir
    else dir
  if rest.getLast? = some 92 then rest.dropLast else rest

/-- The message of `SarPhantomNameForIndex` and its relatives, without their mark. -/
def phantomMessage (dir : List UInt16) (index : UInt32) : List UInt8 :=
  ((sarPhantomCanonDir dir).flatMap fun (c : UInt16) => [c.toUInt8, (c >>> 8).toUInt8]).take 520 ++
    [index.toUInt8, (index >>> 8).toUInt8, (index >>> 16).toUInt8, (index >>> 24).toUInt8]

/-- `hash[i & 31]`. -/
def hashAt (hash : Vector UInt8 32) (i : Nat) : UInt8 := hash.toList.getD (i % 32) 0

/-! ### Names -/

def phantomCons : List UInt16 := wideUnits "bcdfghjklmnprstvwz"
def phantomVow : List UInt16 := wideUnits "aeiou"

/-- The table `g_phantom_ext`. -/
def phantomExt : List String :=
  ["docx", "doc", "xlsx", "xls", "pptx", "ppt", "pdf", "rtf", "txt", "csv", "odt", "ods", "jpg",
    "jpeg", "png", "gif", "bmp", "tiff", "psd", "zip", "rar", "7z", "tar", "gz", "mp3", "mp4",
    "avi", "mov", "wav", "sql", "mdb", "accdb", "db", "dwg", "dxf", "ai", "eps", "htm", "xml",
    "json"]

def phantomSyllable (hash : Vector UInt8 32) (hi : Nat) (capital : Bool) : List UInt16 :=
  let c := phantomCons.getD ((hashAt hash hi).toNat % phantomCons.length) 0
  let v := phantomVow.getD ((hashAt hash (hi + 1)).toNat % phantomVow.length) 0
  [if capital then c - 97 + 65 else c, v]

def phantomWord (hash : Vector UInt8 32) (hi n : Nat) (capital : Bool) : List UInt16 :=
  (range n).flatMap fun s => phantomSyllable hash (hi + 2 * s) (capital && s == 0)

/-- What follows the first word: nothing, digits with or without an underscore, or a second
    word. -/
def phantomTail (hash : Vector UInt8 32) (hi : Nat) : List UInt16 :=
  let tmpl := (hashAt hash hi).toNat % 4
  if tmpl = 1 ∨ tmpl = 2 then
    (if tmpl = 1 then [95] else []) ++
      (range (2 + (hashAt hash (hi + 1)).toNat % 4)).map fun d =>
        48 + UInt16.ofNat ((hashAt hash (hi + 2 + d)).toNat % 10)
  else if tmpl = 3 then
    phantomWord hash (hi + 2) (1 + (hashAt hash (hi + 1)).toNat % 2) true
  else []

def phantomExtOf (hash : Vector UInt8 32) : String :=
  phantomExt.getD (((hashAt hash 30).toNat + 256 * (hashAt hash 31).toNat) % phantomExt.length) ""

def sarPhantomNameForIndex (secret : Vector UInt8 32) (dir : List UInt16) (index : UInt32) :
    List UInt16 :=
  let hash := sarHmacSha256 secret.toList (phantomMessage dir index)
  let nsyl := 2 + (hashAt hash 1).toNat % 3
  phantomWord hash 2 nsyl (decide (hashAt hash 0 &&& 1 ≠ 0)) ++ phantomTail hash (2 + 2 * nsyl) ++
    46 :: wideUnits (phantomExtOf hash)

def sarPhantomExtInPalette (name : List UInt16) : Bool :=
  phantomExt.any fun ext =>
    let e := wideUnits ext
    decide (e.length + 1 ≤ name.length) && name.getD (name.length - e.length - 1) 0 == 46 &&
      (name.drop (name.length - e.length)).map asciiLower == e

/-- `SarPhantomMatchName`; names are compared as `RtlEqualUnicodeString` does, without regard
    to case. -/
def sarPhantomMatchName (upcase : UInt16 → UInt16) (secret : Vector UInt8 32)
    (fileName dir : List UInt16) : Option Nat :=
  (range SAR_PHANTOM_MAX_PER_DIR).find? fun i =>
    fileName.map upcase == (sarPhantomNameForIndex secret dir (UInt32.ofNat i)).map upcase

def hexUnit (d : UInt8) : UInt16 := (wideUnits "0123456789abcdef").getD d.toNat 0

def sarPhantomBuildBackingPath (secret : Vector UInt8 32) (index : UInt32) (dir : List UInt16) :
    List UInt16 :=
  let hash := sarHmacSha256 secret.toList (phantomMessage dir index)
  wideUnits "\\SystemRoot\\System32\\drivers\\SemanticsAr\\phantom\\" ++
    (hash.toList.take 16).flatMap fun (b : UInt8) =>
      [hexUnit (b >>> 4 &&& 15), hexUnit (b &&& 15)]

/-! ### References -/

def sarPhantomRead64 (hash : Vector UInt8 32) (off : Nat) : UInt64 :=
  (range 8).foldl
    (fun v i => v ||| ((hashAt hash (off + i)).toUInt64 <<< UInt64.ofNat (8 * i))) 0

def sarPhantomFrn (secret : Vector UInt8 32) (dir : List UInt16) (index : UInt32) : UInt64 :=
  let hash := sarHmacSha256 secret.toList (phantomMessage dir index ++ [0x46])
  let idx48 := SAR_PHANTOM_FRN_BASE + sarPhantomRead64 hash 0 % SAR_PHANTOM_FRN_SPAN
  let seq := 1 + sarPhantomRead64 hash 8 % 0xFFFE
  (seq <<< 48) ||| (idx48 &&& SAR_PHANTOM_FRN_INDEX_MASK)

def sarPhantomFrnInRange (frn : UInt64) : Bool :=
  let idx := frn &&& SAR_PHANTOM_FRN_INDEX_MASK
  decide (SAR_PHANTOM_FRN_BASE ≤ idx) && decide (idx < SAR_PHANTOM_FRN_BASE + SAR_PHANTOM_FRN_SPAN)

def SAR_PM_IDMAP_SLOTS : Nat := 256

/-- `SAR_PM_IDENT` without the name of the backing file, which only queries of a decoy that is
    open look at. -/
structure PmIdent where
  dir : List UInt16
  name : List UInt16
  index : Nat
  frn : UInt64
deriving DecidableEq, Repr

/-- The table of decoys that were shown: the valid slots by their positions, and the counter
    of insertions. -/
structure PmIdMap where
  slots : Fin SAR_PM_IDMAP_SLOTS → Option PmIdent
  next : UInt32

theorem pmIdMapSlots_pos : 0 < SAR_PM_IDMAP_SLOTS := by decide

/-- `SarPmIdMapInsert`: a ring. -/
def sarPmIdMapInsert (M : PmIdMap) (ident : PmIdent) : PmIdMap :=
  if 284 < ident.dir.length ∨ SAR_PHANTOM_NAME_CHARS < ident.name.length then M
  else
    ⟨Function.update M.slots
      ⟨M.next.toNat % SAR_PM_IDMAP_SLOTS, Nat.mod_lt _ pmIdMapSlots_pos⟩ (some ident), M.next + 1⟩

def sarPmIdMapLookupByRef (M : PmIdMap) (frn : UInt64) : Option PmIdent :=
  (finRange SAR_PM_IDMAP_SLOTS).findSome? fun i =>
    (M.slots i).filter fun ident => ident.frn == frn

/-! ### Every decoy is recognised -/

theorem phantomExtOf_mem (hash : Vector UInt8 32) : phantomExtOf hash ∈ phantomExt := by
  unfold phantomExtOf
  have hlt := Nat.mod_lt ((hashAt hash 30).toNat + 256 * (hashAt hash 31).toNat)
    (by decide : 0 < phantomExt.length)
  rw [getD_eq_getElem _ _ hlt]
  exact getElem_mem hlt

theorem asciiLower_phantomExt (ext : String) (h : ext ∈ phantomExt) :
    (wideUnits ext).map asciiLower = wideUnits ext := by
  have hall : ∀ ext ∈ phantomExt, (wideUnits ext).map asciiLower = wideUnits ext := by decide
  exact hall ext h

theorem extInPalette_of_append (front : List UInt16) {ext : String} (h : ext ∈ phantomExt) :
    sarPhantomExtInPalette (front ++ 46 :: wideUnits ext) = true := by
  refine any_eq_true.mpr ⟨ext, h, ?_⟩
  have hlength : (front ++ 46 :: wideUnits ext).length =
      front.length + ((wideUnits ext).length + 1) := by simp
  have hdot : (front ++ 46 :: wideUnits ext).length - (wideUnits ext).length - 1 =
      front.length := by omega
  have htail : (front ++ 46 :: wideUnits ext).length - (wideUnits ext).length =
      front.length + 1 := by omega
  dsimp only
  rw [hdot, htail, getD_append_right _ _ _ _ (Nat.le_refl _), Nat.sub_self, drop_append, hlength]
  simp [asciiLower_phantomExt ext h]

theorem extInPalette_phantomName (front : List UInt16) (secret : Vector UInt8 32)
    (dir : List UInt16) (index : UInt32) :
    sarPhantomExtInPalette (front ++ sarPhantomNameForIndex secret dir index) = true := by
  unfold sarPhantomNameForIndex
  rw [← append_assoc]
  exact extInPalette_of_append _ (phantomExtOf_mem _)

theorem matchName_phantomName (upcase : UInt16 → UInt16) (secret : Vector UInt8 32)
    (dir : List UInt16) {i : Nat} (hi : i < SAR_PHANTOM_MAX_PER_DIR) :
    (sarPhantomMatchName upcase secret (sarPhantomNameForIndex secret dir (UInt32.ofNat i))
      dir).isSome = true := by
  unfold sarPhantomMatchName
  rw [find?_isSome]
  exact ⟨i, mem_range.mpr hi, beq_self_eq_true _⟩

/-! ### Listing and opening -/

/-- A directory below a volume or a share, or a share below the redirector: its components from
    the root on. -/
structure DirPath where
  components : List (List UInt16)
  named : ∀ c ∈ components, c ≠ []
  plain : ∀ c ∈ components, 92 ∉ c

/-- Every component behind a backslash; nothing for the root. -/
def pathOfComponents (components : List (List UInt16)) : List UInt16 :=
  components.flatMap fun c => 92 :: c

def DirPath.text (d : DirPath) : List UInt16 := pathOfComponents d.components

/-- `ParentDir` of a file in the directory, relative to the volume or the share. -/
def DirPath.parentDir (d : DirPath) : List UInt16 := d.text ++ [92]

/-- The full name of the directory as a listing has it; only that of a root ends in a
    backslash. -/
def DirPath.fullName (d : DirPath) (device : List UInt16) (share : DirPath) : List UInt16 :=
  wideUnits "\\Device\\" ++ device ++ (share.text ++ if d.text = [] then [92] else d.text)

/-- The directory that the create path makes of the parent directory: below a folder `Device` of
    the root two components are taken for a device and cut off. -/
def DirPath.opened (d : DirPath) : List UInt16 :=
  match d.components with
  | first :: _ :: rest =>
    if first.map asciiLower = wideUnits "device" then pathOfComponents rest else d.text
  | _ => d.text

/-- The decoy of an index that a listing shows is the one a create of its name in the directory
    comes to, with its backing. -/
def DecoyOpens (upcase : UInt16 → UInt16) (secret : Vector UInt8 32) (full parent : List UInt16)
    (i : Nat) : Prop :=
  let listed := sarPhantomNameForIndex secret full (UInt32.ofNat i)
  (∀ front, sarPhantomExtInPalette (front ++ listed) = true) ∧
    sarPhantomMatchName upcase secret listed parent = some i ∧
      sarPhantomBuildBackingPath secret (UInt32.ofNat i) full =
        sarPhantomBuildBackingPath secret (UInt32.ofNat i) parent

theorem unitBytes_inj {c c' : UInt16} (hlow : c.toUInt8 = c'.toUInt8)
    (hhigh : (c >>> 8).toUInt8 = (c' >>> 8).toUInt8) : c = c' := by
  have hlow := congrArg UInt8.toNat hlow
  have hhigh := congrArg UInt8.toNat hhigh
  have hc := c.toNat_lt
  have hc' := c'.toNat_lt
  have hshift : ∀ c : UInt16, (c >>> 8).toNat = c.toNat / 256 :=
    fun c => Nat.shiftRight_eq_div_pow c.toNat 8
  rw [UInt16.toNat_toUInt8, UInt16.toNat_toUInt8] at hlow
  rw [UInt16.toNat_toUInt8, UInt16.toNat_toUInt8, hshift, hshift] at hhigh
  apply UInt16.toNat_inj.mp
  omega

def dirBytes (dir : List UInt16) : List UInt8 :=
  dir.flatMap fun (c : UInt16) => [c.toUInt8, (c >>> 8).toUInt8]

theorem take_dirBytes (dir : List UInt16) (n : Nat) :
    (dirBytes dir).take (2 * n) = dirBytes (dir.take n) := by
  induction dir generalizing n with
  | nil => simp [dirBytes]
  | cons c dir ih =>
    cases n with
    | zero => rfl
    | succ n => simpa [dirBytes, Nat.mul_succ] using ih n

theorem dirBytes_inj {dir dir' : List UInt16} (h : dirBytes dir = dirBytes dir') : dir = dir' := by
  induction dir generalizing dir' with
  | nil => cases dir' <;> simp_all [dirBytes]
  | cons c dir ih =>
    cases dir' with
    | nil => simp [dirBytes] at h
    | cons c' dir' =>
      simp only [dirBytes, flatMap_cons, cons_append, nil_append, cons.injEq] at h
      rw [unitBytes_inj h.1 h.2.1, ih h.2.2]

/-- The hash sees 260 units of a directory. -/
theorem phantomMessage_inj {dir dir' : List UInt16} (index : UInt32) :
    phantomMessage dir index = phantomMessage dir' index ↔
      (sarPhantomCanonDir dir).take 260 = (sarPhantomCanonDir dir').take 260 := by
  have hmessage : ∀ dir, phantomMessage dir index = dirBytes ((sarPhantomCanonDir dir).take 260) ++
      [index.toUInt8, (index >>> 8).toUInt8, (index >>> 16).toUInt8, (index >>> 24).toUInt8] :=
    fun dir => congrArg (· ++ _) (take_dirBytes _ 260)
  rw [hmessage, hmessage, append_cancel_right_eq]
  exact ⟨dirBytes_inj, congrArg dirBytes⟩

theorem caselessPrefix_component {c p : List UInt16} (t : List UInt16) (hc : 92 ∉ c)
    (hp : 92 ∉ p) :
    sarWideCaselessPrefix (c ++ 92 :: t) (p ++ [92]) = true ↔
      c.map asciiLower = p.map asciiLower := by
  induction p generalizing c with
  | nil =>
    cases c with
    | nil => simp [sarWideCaselessPrefix]
    | cons a c =>
      have ha : asciiLower a ≠ asciiLower 92 :=
        fun h => hc (by rw [(asciiLower_sep a).mp h]; exact mem_cons_self)
      simp [sarWideCaselessPrefix, ha]
  | cons b p ih =>
    cases c with
    | nil =>
      have hb : asciiLower 92 ≠ asciiLower b :=
        fun h => hp (by rw [(asciiLower_sep b).mp h.symm]; exact mem_cons_self)
      simp [sarWideCaselessPrefix, hb]
    | cons a c =>
      rw [cons_append, cons_append, sarWideCaselessPrefix, Bool.and_eq_true, beq_iff_eq,
        ih (fun h => hc (mem_cons_of_mem _ h)) fun h => hp (mem_cons_of_mem _ h)]
      simp

namespace DirPath

variable (d : DirPath)

theorem text_getLast? : d.text.getLast? ≠ some 92 := by
  rw [text, pathOfComponents]
  rcases eq_nil_or_concat d.components with hnil | ⟨front, last, hlast⟩
  · simp [hnil]
  · have hmem : last ∈ d.components := by simp [hlast]
    rw [hlast, concat_eq_append, flatMap_append, flatMap_singleton,
      getLast?_append_of_ne_nil _ (cons_ne_nil _ _), getLast?_cons_of_ne_nil (d.named last hmem)]
    exact fun h => d.plain last hmem (mem_of_getLast? h)

theorem text_head? (hne : d.text ≠ []) : d.text.head? = some 92 := by
  rw [text, pathOfComponents] at hne ⊢
  cases hcomponents : d.components with
  | nil => simp [hcomponents] at hne
  | cons c rest => rfl

/-- A listing comes to the directory with the share in front. -/
theorem canonDir_fullName {device : List UInt16} (hdevice : 92 ∉ device) (share : DirPath) :
    sarPhantomCanonDir (d.fullName device share) = share.text ++ d.text := by
  obtain ⟨b, hb⟩ : ∃ b, (share.text ++ if d.text = [] then [92] else d.text) = 92 :: b := by
    by_cases hshare : share.text = []
    · rw [hshare, nil_append]
      split
      · exact ⟨[], rfl⟩
      next hne => exact ⟨_, (cons_head?_tail (d.text_head? hne)).symm⟩
    · rw [← cons_head?_tail (share.text_head? hshare)]
      exact ⟨_, rfl⟩
  have hdev : sarWideCaselessPrefix (d.fullName device share) (wideUnits "\\Device\\") = true :=
    (sarWideCaselessPrefix_iff _ _).mpr (.map _ ⟨_, (append_assoc _ _ _).symm⟩)
  have hcount : (wideUnits "\\Device\\" ++ device).count 92 + 0 = 2 := by
    rw [count_append, count_eq_zero.mpr hdevice]
    decide
  have hrest : fromThirdBackslash 0 (d.fullName device share) = some (92 :: b) :=
    (fromThirdBackslash_iff 0 (by decide) _ _).mpr ⟨_, b, by rw [← hb]; rfl, rfl, hcount⟩
  rw [sarPhantomCanonDir, hdev, if_pos rfl, hrest, Option.getD_some, ← hb]
  split
  next hroot => simp [hroot]
  next hne =>
    refine if_neg fun hlast => d.text_getLast? ?_
    rwa [getLast?_append_of_ne_nil _ hne] at hlast

/-- Below a folder `Device` the third backslash is behind the second component; with a single
    component there is none, and nothing is cut off. -/
theorem canonDir_parentDir : sarPhantomCanonDir d.parentDir = d.opened := by
  have hstrip : ∀ l : List UInt16, (if (l ++ [92]).getLast? = some 92 then (l ++ [92]).dropLast
      else l ++ [92]) = l := by simp
  have hplain := d.plain
  rw [sarPhantomCanonDir, parentDir, opened, text]
  match hcomponents : d.components with
  | [] => rfl
  | [first] =>
    have hnone : fromThirdBackslash 0 (pathOfComponents [first] ++ [92]) = none := by
      by_contra hsome
      obtain ⟨rest, hrest⟩ := Option.ne_none_iff_exists'.mp hsome
      obtain ⟨front, b, hsplit, -, hcount⟩ := (fromThirdBackslash_iff 0 (by decide) _ _).mp hrest
      have htotal := congrArg (count 92) hsplit
      have hfirst : first.count 92 = 0 := count_eq_zero.mpr (hplain first (by simp [hcomponents]))
      simp [pathOfComponents, hfirst] at htotal
      omega
    rw [hnone, Option.getD_none, ite_self]
    exact hstrip _
  | first :: second :: rest =>
    have hfirst := hplain first (by simp [hcomponents])
    have hsecond := hplain second (by simp [hcomponents])
    have hpath : pathOfComponents (first :: second :: rest) ++ [92] =
        92 :: (first ++ 92 :: (second ++ (pathOfComponents rest ++ [92]))) := by
      simp [pathOfComponents]
    have hdevice : sarWideCaselessPrefix (pathOfComponents (first :: second :: rest) ++ [92])
        (wideUnits "\\Device\\") = true ↔ first.map asciiLower = wideUnits "device" := by
      rw [hpath]
      exact caselessPrefix_component _ hfirst (by decide : 92 ∉ wideUnits "Device")
    dsimp only
    by_cases hcut : first.map asciiLower = wideUnits "device"
    · obtain ⟨b, hb⟩ : ∃ b, pathOfComponents rest ++ [92] = 92 :: b := by
        cases rest with
        | nil => exact ⟨[], rfl⟩
        | cons c rest => exact ⟨_, rfl⟩
      have hrest : fromThirdBackslash 0 (pathOfComponents (first :: second :: rest) ++ [92]) =
          some (pathOfComponents rest ++ [92]) := by
        refine (fromThirdBackslash_iff 0 (by decide) _ _).mpr
          ⟨92 :: (first ++ 92 :: second), b, ?_, hb, ?_⟩
        · rw [hpath, hb]
          simp
        · simp [count_eq_zero.mpr hfirst, count_eq_zero.mpr hsecond]
      rw [if_pos (hdevice.mpr hcut), hrest, Option.getD_some, if_pos hcut]
      exact hstrip _
    · rw [if_neg (mt hdevice.mp hcut), if_neg hcut]
      exact hstrip _

end DirPath

/-- **Listing and opening.**  The decoy that a listing of a directory shows is the one a create of
    its name comes to, with its index and backing, exactly if both come to the same directory (by
    its first 260 units) and no decoy before it has the same name.  The hash of the backing's name
    is taken to tell the two directories apart. -/
theorem listed_decoy_opens_iff (upcase : UInt16 → UInt16) (secret : Vector UInt8 32)
    (d share : DirPath) {device : List UInt16} (hdevice : 92 ∉ device) {i : Nat}
    (hi : i < SAR_PHANTOM_MAX_PER_DIR)
    (hapart : sarPhantomBuildBackingPath secret (UInt32.ofNat i) (d.fullName device share) =
        sarPhantomBuildBackingPath secret (UInt32.ofNat i) d.parentDir →
      phantomMessage (d.fullName device share) (UInt32.ofNat i) =
        phantomMessage d.parentDir (UInt32.ofNat i)) :
    DecoyOpens upcase secret (d.fullName device share) d.parentDir i ↔
      (share.text ++ d.text).take 260 = d.opened.take 260 ∧
        ∀ j < i, (sarPhantomNameForIndex secret d.parentDir (UInt32.ofNat i)).map upcase ≠
          (sarPhantomNameForIndex secret d.parentDir (UInt32.ofNat j)).map upcase := by
  rw [← d.canonDir_fullName hdevice, ← d.canonDir_parentDir, ← phantomMessage_inj (UInt32.ofNat i)]
  have hname (h : phantomMessage (d.fullName device share) (UInt32.ofNat i) =
        phantomMessage d.parentDir (UInt32.ofNat i)) :
      sarPhantomNameForIndex secret (d.fullName device share) (UInt32.ofNat i) =
        sarPhantomNameForIndex secret d.parentDir (UInt32.ofNat i) := by
    rw [sarPhantomNameForIndex, h, ← sarPhantomNameForIndex]
  have hmatch : sarPhantomMatchName upcase secret
      (sarPhantomNameForIndex secret d.parentDir (UInt32.ofNat i)) d.parentDir = some i ↔
      ∀ j < i, (sarPhantomNameForIndex secret d.parentDir (UInt32.ofNat i)).map upcase ≠
          (sarPhantomNameForIndex secret d.parentDir (UInt32.ofNat j)).map upcase := by
    rw [sarPhantomMatchName, List.find?_range_eq_some]
    simp [hi]
  constructor
  · rintro ⟨-, hfound, hbacking⟩
    have hmessage := hapart hbacking
    rw [hname hmessage] at hfound
    exact ⟨hmessage, hmatch.mp hfound⟩
  · rintro ⟨hmessage, hfirst⟩
    refine ⟨fun front => extInPalette_phantomName front _ _ _, ?_, ?_⟩
    · rw [hname hmessage]
      exact hmatch.mpr hfirst
    · rw [sarPhantomBuildBackingPath, sarPhantomBuildBackingPath, hmessage]

def rootDir : DirPath := ⟨[], by simp, by simp⟩

def deviceDir : DirPath := ⟨[wideUnits "Device"], by decide, by decide⟩

/-- Decoys of the folder `Device` itself are found: its path has no third backslash. -/
theorem listed_decoy_opens_device :
    DecoyOpens id (Vector.replicate 32 0) (deviceDir.fullName [86] rootDir) deviceDir.parentDir 0 :=
  (listed_decoy_opens_iff id _ deviceDir rootDir (by decide) (by decide) fun _ => rfl).mpr
    ⟨rfl, fun _ hj => absurd hj (Nat.not_lt_zero _)⟩

/-- The listing of `\Device\a` shows a decoy whose name no create in that directory comes to: the
    parent directory is taken for a device and its name is cut off. -/
theorem listed_decoy_not_found :
    let secret := Vector.replicate 32 (0 : UInt8)
    sarPhantomMatchName id secret
      (sarPhantomNameForIndex secret (wideUnits "\\Device\\V\\Device\\a") 0)
      (wideUnits "\\Device\\a\\") = none := by
  decide +kernel

end SemanticsAr
