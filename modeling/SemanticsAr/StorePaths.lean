import Mathlib.Data.List.GetD
import SemanticsAr.Capture
import SemanticsAr.Components

/-!
# Which paths are the store's

`driver/operations.c` and `driver/capture.c` know the driver's own files by their names, each
in its own way.  `SarNameIsOwnStore` and `SarTargetExempt` compare names below the system root
and below a volume; `SarCapturePathExempt` looks for a word anywhere in the path.  What a path
lies below is said of its components here, and both recognisers are measured against that.
-/

namespace SemanticsAr

open Components List

/-! ### The tests of the driver -/

/-- The names the driver compares with: that of the system root, if `SarOsAnchorInit` found one, and
    the upcase table, in which the backslash stands for itself alone. -/
structure OsAnchor where
  sysroot : Option (List UInt16)
  sysroot_fits : ∀ root ∈ sysroot, 0 < root.length ∧ root.length ≤ 280
  upcase : UInt16 → UInt16
  upcase_sep : ∀ c, upcase c = 92 ↔ c = 92

/-- `RtlPrefixUnicodeString` without regard to case. -/
def rtlPrefixUnicodeString (upcase : UInt16 → UInt16) (start name : List UInt16) : Bool :=
  (start.map upcase).isPrefixOf (name.map upcase)

def sarWideCaselessPrefix : List UInt16 → List UInt16 → Bool
  | _, [] => true
  | [], _ :: _ => false
  | a :: s, b :: p => asciiLower a == asciiLower b && sarWideCaselessPrefix s p

def sarWideCaselessComponent : List UInt16 → List UInt16 → Bool
  | [], [] => true
  | a :: _, [] => a == 92
  | [], _ :: _ => false
  | a :: s, b :: p => asciiLower a == asciiLower b && sarWideCaselessComponent s p

/-- The table `subs` of `SarTargetExempt`. -/
def osOwnedSubs : List String :=
  ["\\system32\\config\\", "\\system32\\wbem\\repository\\", "\\system32\\winevt\\logs\\",
    "\\system32\\logfiles\\", "\\system32\\catroot2\\", "\\serviceprofiles\\",
    "\\softwaredistribution\\datastore\\", "\\inf\\"]

def sarTargetExempt (A : OsAnchor) (name : List UInt16) : Bool :=
  match A.sysroot with
  | none => false
  | some root =>
    rtlPrefixUnicodeString A.upcase root name && decide (root.length < name.length) &&
      name.getD root.length 0 == 92 &&
      osOwnedSubs.any fun sub => sarWideCaselessPrefix (name.drop root.length) (wideUnits sub)

/-- The rest of a name from its third backslash on, `slashes` of them seen before. -/
def fromThirdBackslash (slashes : Nat) : List UInt16 → Option (List UInt16)
  | [] => none
  | c :: name =>
    if c = 92 then
      if slashes + 1 = 3 then some (c :: name) else fromThirdBackslash (slashes + 1) name
    else fromThirdBackslash slashes name

def sarNameIsOwnStore (A : OsAnchor) (name : List UInt16) : Bool :=
  (match A.sysroot with
    | none => false
    | some root =>
      decide (root.length < name.length) && rtlPrefixUnicodeString A.upcase root name &&
        sarWideCaselessComponent (name.drop root.length)
          (wideUnits "\\System32\\drivers\\SemanticsAr")) ||
    match fromThirdBackslash 0 name with
    | none => false
    | some rest => sarWideCaselessComponent rest (wideUnits "\\SemanticsArQuarantine")

/-! ### Below a directory -/

def components (name : List UInt16) : List (List UInt16) := name.splitOn 92

def SameNames (fold : UInt16 → UInt16) (xs ys : List (List UInt16)) : Prop :=
  xs.map (map fold) = ys.map (map fold)

/-- The components of a path begin with those of the system root and of a directory in it, up
    to case; `rest` is what follows. -/
def BelowSystemRoot (A : OsAnchor) (dir : List String) (name : List UInt16)
    (rest : List (List UInt16)) : Prop :=
  ∃ root ∈ A.sysroot, ∃ front mid, components name = front ++ (mid ++ rest) ∧
    SameNames A.upcase front (components root) ∧ SameNames asciiLower mid (dir.map wideUnits)

def InDriverStore (A : OsAnchor) (name : List UInt16) : Prop :=
  ∃ rest, BelowSystemRoot A ["System32", "drivers", "SemanticsAr"] name rest

/-- The quarantine directory of a volume and what is in it.  A volume is named by two
    components behind a backslash. -/
def InQuarantine (name : List UInt16) : Prop :=
  ∃ volume dir rest, components name = volume ++ dir :: rest ∧ volume.length = 3 ∧
    SameNames asciiLower [dir] [wideUnits "SemanticsArQuarantine"]

def osOwnedDirs : List (List String) :=
  [["system32", "config"], ["system32", "wbem", "repository"], ["system32", "winevt", "logs"],
    ["system32", "logfiles"], ["system32", "catroot2"], ["serviceprofiles"],
    ["softwaredistribution", "datastore"], ["inf"]]

def OsOwned (A : OsAnchor) (name : List UInt16) : Prop :=
  ∃ dir ∈ osOwnedDirs, ∃ rest, rest ≠ [] ∧ BelowSystemRoot A dir name rest

def dirText (dir : List String) : List UInt16 := [92].intercalate (dir.map wideUnits)

/-! ### Folding case -/

theorem asciiLower_sep (c : UInt16) : asciiLower c = 92 ↔ c = 92 := by
  unfold asciiLower
  split
  next h =>
    constructor
    · intro hc
      have : c = 60 := by grind
      subst this
      exact absurd h (by decide)
    · intro hc
      subst hc
      exact absurd h (by decide)
  · exact Iff.rfl

theorem sameNames_components {fold : UInt16 → UInt16} (hfold : ∀ c, fold c = 92 ↔ c = 92)
    {a b : List UInt16} :
    SameNames fold (components a) (components b) ↔ a.map fold = b.map fold := by
  unfold SameNames components
  rw [← splitOn_map hfold, ← splitOn_map hfold]
  exact splitOn_injective.eq_iff

theorem SameNames.ne_nil {fold : UInt16 → UInt16} {xs ys : List (List UInt16)}
    (h : SameNames fold xs ys) (hys : ys ≠ []) : xs ≠ [] := by
  rintro rfl
  exact hys (map_eq_nil_iff.mp h.symm)

theorem components_ne_nil (name : List UInt16) : components name ≠ [] := splitOn_ne_nil _ _

theorem components_eq_append_iff {name : List UInt16} {front back : List (List UInt16)}
    (hfront : front ≠ []) (hback : back ≠ []) :
    components name = front ++ back ↔
      ∃ a b, name = a ++ 92 :: b ∧ components a = front ∧ components b = back :=
  splitOn_eq_append_iff hfront hback

/-! ### What the comparisons accept -/

theorem sarWideCaselessPrefix_iff (s p : List UInt16) :
    sarWideCaselessPrefix s p = true ↔ p.map asciiLower <+: s.map asciiLower := by
  induction p generalizing s with
  | nil => simp [sarWideCaselessPrefix]
  | cons b p ih =>
    cases s with
    | nil => simp [sarWideCaselessPrefix]
    | cons a s =>
      rw [sarWideCaselessPrefix, Bool.and_eq_true, beq_iff_eq, ih, map_cons, map_cons,
        cons_prefix_cons, eq_comm]

theorem sarWideCaselessComponent_iff (s p : List UInt16) : sarWideCaselessComponent s p = true ↔
      ∃ front back, s = front ++ back ∧ front.map asciiLower = p.map asciiLower ∧
        (back = [] ∨ ∃ rest, back = 92 :: rest) := by
  induction p generalizing s with
  | nil => cases s <;> simp [sarWideCaselessComponent]
  | cons b p ih =>
    cases s with
    | nil => simp [sarWideCaselessComponent]
    | cons a s =>
      rw [sarWideCaselessComponent, Bool.and_eq_true, beq_iff_eq, ih]
      constructor
      · rintro ⟨hab, front, back, rfl, hfront, hback⟩
        exact ⟨a :: front, back, rfl, by rw [map_cons, map_cons, hab, hfront], hback⟩
      · rintro ⟨front, back, hs, hfront, hback⟩
        cases front with
        | nil => cases hfront
        | cons c front =>
          obtain ⟨rfl, rfl⟩ := cons.inj hs
          obtain ⟨hcb, hrest⟩ := cons.inj hfront
          exact ⟨hcb, front, back, rfl, hrest, hback⟩

theorem cons_of_map_asciiLower {front text : List UInt16}
    (h : front.map asciiLower = (92 :: text).map asciiLower) :
    ∃ front', front = 92 :: front' ∧ front'.map asciiLower = text.map asciiLower := by
  cases front with
  | nil => cases h
  | cons c front =>
    obtain ⟨hc, hrest⟩ := cons.inj h
    exact ⟨front, by rw [(asciiLower_sep c).mp hc], hrest⟩

/-- What `SarWideCaselessComponent` accepts: a path of whole components. -/
theorem caselessComponent_iff_components (s text : List UInt16) :
    sarWideCaselessComponent s (92 :: text) = true ↔
      ∃ b mid rest, s = 92 :: b ∧ components b = mid ++ rest ∧
        SameNames asciiLower mid (components text) := by
  rw [sarWideCaselessComponent_iff]
  constructor
  · rintro ⟨front, back, rfl, hfront, hback⟩
    obtain ⟨front', rfl, hfront'⟩ := cons_of_map_asciiLower hfront
    have hsame := (sameNames_components asciiLower_sep).mpr hfront'
    rcases hback with rfl | ⟨rest, rfl⟩
    · exact ⟨front', components front', [], by simp, by simp, hsame⟩
    · exact ⟨front' ++ 92 :: rest, components front', components rest, rfl,
        splitOn_append_sep _, hsame⟩
  · rintro ⟨b, mid, rest, rfl, hb, hsame⟩
    have hmid := hsame.ne_nil (components_ne_nil text)
    by_cases hrest : rest = []
    · subst hrest
      rw [append_nil] at hb
      have hmap := (sameNames_components asciiLower_sep).mp (hb ▸ hsame)
      exact ⟨92 :: b, [], by simp, by rw [map_cons, map_cons, hmap], .inl rfl⟩
    · obtain ⟨a, c, rfl, rfl, -⟩ := (components_eq_append_iff hmid hrest).mp hb
      have hmap := (sameNames_components asciiLower_sep).mp hsame
      exact ⟨92 :: a, 92 :: c, rfl, by rw [map_cons, map_cons, hmap],
        Or.inr ⟨c, rfl⟩⟩

/-- What `SarWideCaselessPrefix` accepts of a text that ends in a backslash: whole components
    and at least one more. -/
theorem caselessPrefix_iff_components (s text : List UInt16) :
    sarWideCaselessPrefix s (92 :: (text ++ [92])) = true ↔
      ∃ b mid rest, s = 92 :: b ∧ rest ≠ [] ∧ components b = mid ++ rest ∧
        SameNames asciiLower mid (components text) := by
  rw [sarWideCaselessPrefix_iff]
  constructor
  · rintro ⟨_, hs⟩
    obtain ⟨front, back, rfl, hfront, -⟩ := map_eq_append_iff.mp hs.symm
    obtain ⟨front', rfl, hfront'⟩ := cons_of_map_asciiLower hfront
    rw [map_append] at hfront'
    obtain ⟨a, z, rfl, ha, hz⟩ := map_eq_append_iff.mp hfront'
    obtain ⟨z', rfl, hz'⟩ := cons_of_map_asciiLower hz
    rw [map_nil, map_eq_nil_iff] at hz'
    subst hz'
    refine ⟨a ++ 92 :: back, components a, components back, by simp, components_ne_nil back,
      splitOn_append_sep _, (sameNames_components asciiLower_sep).mpr ha⟩
  · rintro ⟨b, mid, rest, rfl, hrest, hb, hsame⟩
    have hmid := hsame.ne_nil (components_ne_nil text)
    obtain ⟨a, c, rfl, rfl, -⟩ := (components_eq_append_iff hmid hrest).mp hb
    have hmap := (sameNames_components asciiLower_sep).mp hsame
    exact ⟨c.map asciiLower, by simp [hmap]⟩

theorem belowSystemRoot_iff (A : OsAnchor) {dir : List String} {text : List UInt16}
    (hdir : dir.map wideUnits = components text) (name : List UInt16)
    (rest : List (List UInt16)) :
    BelowSystemRoot A dir name rest ↔
      ∃ root ∈ A.sysroot, ∃ a b mid, name = a ++ 92 :: b ∧ a.map A.upcase = root.map A.upcase ∧
        components b = mid ++ rest ∧ SameNames asciiLower mid (components text) := by
  unfold BelowSystemRoot
  rw [hdir]
  refine exists_congr fun root => and_congr_right fun _ => ?_
  constructor
  · rintro ⟨front, mid, hname, hroot, hmid⟩
    have hfront := hroot.ne_nil (components_ne_nil root)
    have hback : mid ++ rest ≠ [] := append_ne_nil_of_left_ne_nil
      (hmid.ne_nil (components_ne_nil text)) rest
    obtain ⟨a, b, rfl, rfl, hb⟩ := (components_eq_append_iff hfront hback).mp hname
    exact ⟨a, b, mid, rfl, (sameNames_components A.upcase_sep).mp hroot, hb, hmid⟩
  · rintro ⟨a, b, mid, rfl, ha, hb, hmid⟩
    exact ⟨components a, mid, hb ▸ splitOn_append_sep _,
      (sameNames_components A.upcase_sep).mpr ha, hmid⟩

theorem rtlPrefixUnicodeString_iff (upcase : UInt16 → UInt16) (root name s : List UInt16) :
    (rtlPrefixUnicodeString upcase root name = true ∧ name.drop root.length = s) ↔
      ∃ a, name = a ++ s ∧ a.map upcase = root.map upcase := by
  rw [rtlPrefixUnicodeString, isPrefixOf_iff_prefix]
  constructor
  · rintro ⟨hstart, rfl⟩
    refine ⟨name.take root.length, (take_append_drop _ _).symm, ?_⟩
    rw [map_take]
    have := prefix_iff_eq_take.mp hstart
    rw [length_map] at this
    exact this.symm
  · rintro ⟨a, rfl, ha⟩
    have hlen : root.length = a.length := by
      have := congrArg length ha
      rw [length_map, length_map] at this
      exact this.symm
    refine ⟨?_, by rw [hlen, drop_left]⟩
    rw [map_append, ha]
    exact prefix_append _ _

theorem getD_drop_eq_cons (root name : List UInt16) :
    (root.length < name.length ∧ name.getD root.length 0 = 92) ↔
      ∃ b, name.drop root.length = 92 :: b := by
  constructor
  · rintro ⟨hlt, hunit⟩
    refine ⟨name.drop (root.length + 1), ?_⟩
    rw [drop_eq_getElem_cons hlt, ← hunit, getD_eq_getElem _ _ hlt]
  · rintro ⟨b, hb⟩
    have hlt : root.length < name.length := by
      by_contra hge
      rw [drop_eq_nil_of_le (Nat.not_lt.mp hge)] at hb
      cases hb
    rw [drop_eq_getElem_cons hlt] at hb
    exact ⟨hlt, by rw [getD_eq_getElem _ _ hlt]; exact (cons.inj hb).1⟩

/-! ### The recognisers -/

theorem osOwnedSubs_eq :
    osOwnedSubs.map wideUnits = osOwnedDirs.map fun dir => 92 :: (dirText dir ++ [92]) := by
  decide

theorem osOwnedDirs_components (dir : List String) (h : dir ∈ osOwnedDirs) :
    dir.map wideUnits = components (dirText dir) := by
  have hall : ∀ dir ∈ osOwnedDirs, dir.map wideUnits = components (dirText dir) := by decide
  exact hall dir h

theorem mem_osOwnedSubs (p : List UInt16 → Bool) :
    (osOwnedSubs.any fun sub => p (wideUnits sub)) = true ↔
      ∃ dir ∈ osOwnedDirs, p (92 :: (dirText dir ++ [92])) = true := by
  have hmap : (osOwnedSubs.any fun sub => p (wideUnits sub)) =
      (osOwnedSubs.map wideUnits).any p := by rw [any_map]; rfl
  rw [hmap, osOwnedSubs_eq, any_map, any_eq_true]
  rfl

/-- `SarTargetExempt` knows the system's directories by whole components. -/
theorem sarTargetExempt_iff (A : OsAnchor) (name : List UInt16) :
    sarTargetExempt A name = true ↔ OsOwned A name := by
  unfold sarTargetExempt OsOwned
  cases hroot : A.sysroot with
  | none => simp [BelowSystemRoot, hroot]
  | some root =>
    simp only [Bool.and_eq_true, decide_eq_true_eq, beq_iff_eq, mem_osOwnedSubs]
    constructor
    · rintro ⟨⟨⟨hstart, hlt⟩, hunit⟩, dir, hdir, hsub⟩
      obtain ⟨b, hb⟩ := (getD_drop_eq_cons root name).mp ⟨hlt, hunit⟩
      obtain ⟨a, rfl, ha⟩ := (rtlPrefixUnicodeString_iff _ _ _ _).mp ⟨hstart, hb⟩
      rw [hb, caselessPrefix_iff_components] at hsub
      obtain ⟨b', mid, rest, hb', hrest, hcomponents, hsame⟩ := hsub
      obtain ⟨-, rfl⟩ := cons.inj hb'
      refine ⟨dir, hdir, rest, hrest, ?_⟩
      rw [belowSystemRoot_iff A (osOwnedDirs_components dir hdir)]
      exact ⟨root, hroot, a, b, mid, rfl, ha, hcomponents, hsame⟩
    · rintro ⟨dir, hdir, rest, hrest, hbelow⟩
      obtain ⟨root', hroot', a, b, mid, rfl, ha, hcomponents, hsame⟩ :=
        (belowSystemRoot_iff A (osOwnedDirs_components dir hdir) _ _).mp hbelow
      rw [hroot, Option.mem_some_iff] at hroot'
      subst hroot'
      obtain ⟨hstart, hdrop⟩ := (rtlPrefixUnicodeString_iff A.upcase root _ _).mpr ⟨a, rfl, ha⟩
      obtain ⟨hlt, hunit⟩ := (getD_drop_eq_cons root _).mpr ⟨b, hdrop⟩
      refine ⟨⟨⟨hstart, hlt⟩, hunit⟩, dir, hdir, ?_⟩
      rw [hdrop, caselessPrefix_iff_components]
      exact ⟨b, mid, rest, rfl, hrest, hcomponents, hsame⟩

theorem fromThirdBackslash_iff (slashes : Nat) (hslashes : slashes ≤ 2) (name rest : List UInt16) :
    fromThirdBackslash slashes name = some rest ↔
      ∃ front b, name = front ++ 92 :: b ∧ rest = 92 :: b ∧ front.count 92 + slashes = 2 := by
  induction name generalizing slashes with
  | nil => simp [fromThirdBackslash]
  | cons c name ih =>
    -- the first part is empty or begins with the first unit of the name
    have hcut : ∀ n, (∃ front b, c :: name = front ++ 92 :: b ∧ rest = 92 :: b ∧
        front.count 92 + n = 2) ↔ (c = 92 ∧ rest = 92 :: name ∧ n = 2) ∨
          ∃ front b, name = front ++ 92 :: b ∧ rest = 92 :: b ∧ (c :: front).count 92 + n = 2 := by
      intro n
      constructor
      · rintro ⟨front, b, hname, hrest, hcount⟩
        cases front with
        | nil =>
          obtain ⟨rfl, rfl⟩ := cons.inj hname
          exact .inl ⟨rfl, hrest, by simpa using hcount⟩
        | cons d front =>
          obtain ⟨rfl, rfl⟩ := cons.inj hname
          exact .inr ⟨front, b, rfl, hrest, hcount⟩
      · rintro (⟨rfl, hrest, hn⟩ | ⟨front, b, rfl, hrest, hcount⟩)
        · exact ⟨[], name, rfl, hrest, by simpa using hn⟩
        · exact ⟨c :: front, b, rfl, hrest, hcount⟩
    rw [hcut, fromThirdBackslash]
    by_cases hc : c = 92
    · subst hc
      rw [if_pos rfl]
      by_cases hthird : slashes + 1 = 3
      · have hn : slashes = 2 := by omega
        subst hn
        simp [eq_comm]
      · have hn : slashes ≠ 2 := by omega
        rw [if_neg hthird, ih (slashes + 1) (by omega)]
        simp [hn, Nat.add_assoc, Nat.add_comm 1]
    · rw [if_neg hc, ih slashes hslashes]
      simp [hc]

theorem inQuarantine_iff (name : List UInt16) :
    InQuarantine name ↔ ∃ rest, fromThirdBackslash 0 name = some rest ∧
      sarWideCaselessComponent rest (wideUnits "\\SemanticsArQuarantine") = true := by
  have htext : wideUnits "\\SemanticsArQuarantine" = 92 :: wideUnits "SemanticsArQuarantine" := by
    decide
  have hdir : components (wideUnits "SemanticsArQuarantine") =
      [wideUnits "SemanticsArQuarantine"] := by decide
  rw [htext]
  constructor
  · rintro ⟨volume, dir, rest, hname, hvolume, hsame⟩
    have hne : volume ≠ [] := by
      rintro rfl
      cases hvolume
    obtain ⟨a, b, rfl, rfl, hb⟩ := (components_eq_append_iff hne (cons_ne_nil _ _)).mp hname
    unfold components at hvolume
    rw [length_splitOn] at hvolume
    refine ⟨92 :: b, (fromThirdBackslash_iff 0 (by decide) _ _).mpr ⟨a, b, rfl, rfl, ?_⟩, ?_⟩
    · exact Nat.succ.inj hvolume
    · exact (caselessComponent_iff_components _ _).mpr
        ⟨b, [dir], rest, rfl, hb, hdir ▸ hsame⟩
  · rintro ⟨rest, hthird, hcomponent⟩
    obtain ⟨a, b, rfl, rfl, hcount⟩ := (fromThirdBackslash_iff 0 (by decide) _ _).mp hthird
    obtain ⟨b', mid, rest, hb', hcomponents, hsame⟩ :=
      (caselessComponent_iff_components _ _).mp hcomponent
    obtain ⟨-, rfl⟩ := cons.inj hb'
    rw [hdir] at hsame
    obtain ⟨dir, rfl⟩ : ∃ dir, mid = [dir] := by
      have hlen := congrArg length hsame
      rw [length_map] at hlen
      exact length_eq_one_iff.mp hlen
    refine ⟨components a, dir, rest, ?_, ?_, hsame⟩
    · unfold components at hcomponents ⊢
      rw [splitOn_append_sep, hcomponents]
      rfl
    · unfold components
      rw [length_splitOn]
      exact congrArg (· + 1) hcount

theorem inDriverStore_iff (A : OsAnchor) (name : List UInt16) :
    InDriverStore A name ↔ ∃ root ∈ A.sysroot, root.length < name.length ∧
      rtlPrefixUnicodeString A.upcase root name = true ∧
      sarWideCaselessComponent (name.drop root.length)
        (wideUnits "\\System32\\drivers\\SemanticsAr") = true := by
  have htext : wideUnits "\\System32\\drivers\\SemanticsAr" =
      92 :: dirText ["System32", "drivers", "SemanticsAr"] := by decide
  have hdir : ["System32", "drivers", "SemanticsAr"].map wideUnits =
      components (dirText ["System32", "drivers", "SemanticsAr"]) := by decide
  unfold InDriverStore
  simp only [belowSystemRoot_iff A hdir, htext, caselessComponent_iff_components]
  constructor
  · rintro ⟨rest, root, hroot, a, b, mid, rfl, ha, hcomponents, hsame⟩
    obtain ⟨hstart, hdrop⟩ := (rtlPrefixUnicodeString_iff A.upcase root _ _).mpr ⟨a, rfl, ha⟩
    exact ⟨root, hroot, ((getD_drop_eq_cons root _).mpr ⟨b, hdrop⟩).1, hstart, b, mid, rest,
      hdrop, hcomponents, hsame⟩
  · rintro ⟨root, hroot, -, hstart, b, mid, rest, hdrop, hcomponents, hsame⟩
    obtain ⟨a, rfl, ha⟩ := (rtlPrefixUnicodeString_iff _ _ _ _).mp ⟨hstart, hdrop⟩
    exact ⟨rest, root, hroot, a, b, mid, rfl, ha, hcomponents, hsame⟩

/-- `SarNameIsOwnStore` knows the two store directories by whole components. -/
theorem sarNameIsOwnStore_iff (A : OsAnchor) (name : List UInt16) :
    sarNameIsOwnStore A name = true ↔ InDriverStore A name ∨ InQuarantine name := by
  rw [sarNameIsOwnStore, Bool.or_eq_true, inDriverStore_iff, inQuarantine_iff]
  refine or_congr ?_ ?_
  · cases A.sysroot with
    | none => simp
    | some root => simp [and_assoc]
  · cases fromThirdBackslash 0 name with
    | none => simp
    | some rest => simp

/-- `SarCaptureProvenanceIsOwn` finds its word within any component. -/
theorem sarCaptureProvenanceIsOwn_iff (path : ProvPath) : sarCaptureProvenanceIsOwn path = true ↔
      ∃ c ∈ components (pathText path), wideUnits "SemanticsAr" <:+: c := by
  unfold components
  rw [← infix_iff_mem_splitOn (by decide) (by decide), infix_iff_prefix_suffix]
  simp only [sarCaptureProvenanceIsOwn, any_eq_true, mem_tails, isPrefixOf_iff_prefix]
  exact exists_congr fun rest => And.comm

/-! ### What is left out -/

def LeftOut (A : OsAnchor) (name : List UInt16) : Prop :=
  InDriverStore A name ∨ InQuarantine name ∨ OsOwned A name

/-- **What a path is left out for.**  `SarCapturePathExempt` leaves a path out only for the
    directory it lies in exactly if it lies in such a directory or none of its components contains
    the driver's name. -/
theorem path_exempt_only_iff (A : OsAnchor) (path : ProvPath) :
    (pathText path ≠ [] → sarCapturePathExempt (sarTargetExempt A) path = true →
        LeftOut A (pathText path)) ↔
      (LeftOut A (pathText path) ∨
        ∀ c ∈ components (pathText path), ¬ wideUnits "SemanticsAr" <:+: c) := by
  constructor
  · intro honly
    by_contra hnot
    simp only [not_or, not_forall, not_not] at hnot
    obtain ⟨hout, c, hc, hword⟩ := hnot
    have hne : pathText path ≠ [] := by
      intro hempty
      rw [hempty] at hc
      rw [List.mem_singleton.mp hc] at hword
      exact absurd (List.infix_nil.mp hword) (by decide)
    have hown := (sarCaptureProvenanceIsOwn_iff path).mpr ⟨c, hc, hword⟩
    exact hout (honly hne (by simp [sarCapturePathExempt, hown]))
  · intro h hne hexempt
    rcases h with hout | hclean
    · exact hout
    simp only [sarCapturePathExempt, Bool.or_eq_true, List.isEmpty_iff] at hexempt
    rcases hexempt with (hempty | hown) | hsystem
    · exact absurd hempty hne
    · obtain ⟨c, hc, hword⟩ := (sarCaptureProvenanceIsOwn_iff path).mp hown
      exact absurd hword (hclean c hc)
    · exact .inr (.inr ((sarTargetExempt_iff A _).mp hsystem))

def asciiUpper (c : UInt16) : UInt16 := if 97 ≤ c ∧ c ≤ 122 then c - 32 else c

theorem asciiUpper_sep (c : UInt16) : asciiUpper c = 92 ↔ c = 92 := by
  unfold asciiUpper
  split
  next h =>
    constructor
    · intro hc
      have : c = 124 := by grind
      subst this
      exact absurd h (by decide)
    · intro hc
      subst hc
      exact absurd h (by decide)
  · exact Iff.rfl

def windowsRoot : List UInt16 := wideUnits "\\Device\\HarddiskVolume3\\Windows"

theorem windowsRoot_fits : ∀ root ∈ some windowsRoot, 0 < root.length ∧ root.length ≤ 280 := by
  decide

/-- A system whose root is the directory `Windows` of its third volume. -/
def windowsAnchor : OsAnchor := ⟨some windowsRoot, windowsRoot_fits, asciiUpper, asciiUpper_sep⟩

theorem notes_noNul :
    ∀ c ∈ wideUnits "\\Device\\HarddiskVolume3\\Users\\SemanticsAr notes.txt", c ≠ 0 :=
  noNul_of_all (by decide)

def notesName : NormalizedName :=
  ⟨wideUnits "\\Device\\HarddiskVolume3\\Users\\SemanticsAr notes.txt", notes_noNul⟩

/-- The notes are left out although they lie in none of the directories. -/
theorem path_exempt_by_word : pathText (copyName notesName) ≠ [] ∧
      sarCapturePathExempt (sarTargetExempt windowsAnchor) (copyName notesName) = true ∧
      ¬ LeftOut windowsAnchor (pathText (copyName notesName)) := by
  rw [LeftOut, ← or_assoc, ← sarNameIsOwnStore_iff, ← sarTargetExempt_iff, sarCapturePathExempt,
    sarCaptureProvenanceIsOwn, pathText_copyName]
  decide

end SemanticsAr
