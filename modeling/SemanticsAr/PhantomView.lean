import SemanticsAr.FailClosed
import SemanticsAr.PhantomNames

/-!
# What an exempt process sees of the decoys

The create and directory callbacks of `driver/phantom.c`, over an arbitrary file system.  For
an exempt process decoys should not exist, so its requests should be answered as they are with
the decoys switched off.  The two runs are compared request by request: directory and journal
queries of an exempt process are left alone, but a create is answered by the decoy's name or
reference alone, before the file system is asked.
-/

namespace SemanticsAr

variable {G : Globals} {t : Target} {active : Bool} {disposition : CreateDisposition}
  {names : List (List UInt16)}

/-! ### Requests -/

/-- A create as `SarPhantomPreCreate` sees it: `fileName` and `related` are the name and the
    related file object of the file object, and the other two are options of the request. -/
structure PhantomCreate where
  base : CreateRequest
  fileName : List UInt16
  related : Bool
  openById : Bool
  openTargetDirectory : Bool

variable {op : PhantomCreate}

/-- A directory request: that it is a query, for one entry only, and of an information class
    that `SarPhantomDirOffsets` knows. -/
structure DirectoryRequest where
  caller : Caller
  query : Bool
  singleEntry : Bool
  knownClass : Bool

inductive ViewRequest where
  | create (op : PhantomCreate)
  | directory (op : DirectoryRequest)
  | fsControl (op : FsControlRequest)

def ViewRequest.caller : ViewRequest → Caller
  | .create op => op.base.caller
  | .directory op => op.caller
  | .fsControl op => op.caller

structure ParsedName where
  finalComponent : List UInt16
  parentDir : List UInt16

/-- The layer of decoys: its secret and the table of those that were shown; `replaceName` says
    that the system has the routine for renaming a file object. -/
structure PhantomLayer where
  active : Bool
  secret : Vector UInt8 32
  upcase : UInt16 → UInt16
  idMap : PmIdMap
  replaceName : Bool

variable {L : PhantomLayer}

/-! ### The callbacks -/

def fileReference (name : List UInt16) : UInt64 :=
  (List.range 4).foldl
    (fun v i => v ||| ((name.getD i 0).toUInt64 <<< UInt64.ofNat (16 * i))) 0

def shownDecoy (L : PhantomLayer) (op : PhantomCreate) : Option PmIdent :=
  if op.openById && decide (4 ≤ op.fileName.length) && op.base.caller.passive &&
      op.base.caller.noTopLevel && sarPhantomFrnInRange (fileReference op.fileName) then
    sarPmIdMapLookupByRef L.idMap (fileReference op.fileName)
  else none

/-- The decoy whose name a create names; `name` is what the system gives for it. -/
def namedDecoy (L : PhantomLayer) (op : PhantomCreate) (name : Option ParsedName) :
    Option (Nat × ParsedName) :=
  if op.openTargetDirectory || !sarPhantomExtInPalette op.fileName then none
  else
    match name with
    | none => none
    | some parsed =>
      (sarPhantomMatchName L.upcase L.secret parsed.finalComponent parsed.parentDir).map
        fun i => (i, parsed)

/-- `SarPhantomPreCreate` behind its test of the blocked table, with the table it leaves;
    `backing` says that the backing of a decoy could be found by its reference. -/
def phantomCreate (L : PhantomLayer) (G : Globals) (op : PhantomCreate)
    (name : Option ParsedName) (backing : Bool) : PreopStatus × PmIdMap :=
  let trusted := identityExempt G op.base.caller
  if L.active = false ∨ op.base.caller.requestor = .kernelMode then
    (.successWithCallback, L.idMap)
  else if op.fileName = [] ∧ op.related = false then
    (if trusted then .successWithCallback else .complete .accessDenied, L.idMap)
  else if (shownDecoy L op).isSome then
    (if trusted then .complete .objectNameNotFound
      else if L.replaceName && backing then .complete .reparse
      else .complete .objectNameNotFound, L.idMap)
  else
    match namedDecoy L op name with
    | none => (.successWithCallback, L.idMap)
    | some (i, parsed) =>
      if trusted then (.complete .objectNameNotFound, L.idMap)
      else if op.base.disposition = .createNew then (.successWithCallback, L.idMap)
      else
        (if L.replaceName then .complete .reparse else .complete .objectNameNotFound,
          sarPmIdMapInsert L.idMap ⟨parsed.parentDir, parsed.finalComponent, i,
            sarPhantomFrn L.secret parsed.parentDir (UInt32.ofNat i)⟩)

/-- `SarPhantomPreDirControl`; `armed` says that everything behind its test of the process was
    granted. -/
def sarPhantomPreDirControl (L : PhantomLayer) (G : Globals) (op : DirectoryRequest)
    (armed : Bool) : PreopStatus :=
  if L.active = false ∨ op.caller.requestor = .kernelMode ∨ op.query = false ∨
      op.singleEntry = true ∨ op.caller.passive = false ∨ op.knownClass = false then
    .successNoCallback
  else if identityExempt G op.caller then .successNoCallback
  else if armed then .successWithCallback
  else .successNoCallback

/-! ### A file system behind the driver -/

/-- A file system with states `S` and answers `R`: `completed` answers a request that a driver
    completes, `nameInfo` is what the system gives for the name of a create, and `merge` puts decoys
    into the answer to a directory query.  A request for which there is no such name changes
    nothing. -/
structure FileServer (S R : Type*) where
  serve : S → ViewRequest → S × R
  completed : CompletionStatus → R
  nameInfo : S → PhantomCreate → Option ParsedName
  merge : S → DirectoryRequest → R → R
  notFound_keeps : ∀ s request, (serve s request).2 = completed .objectNameNotFound →
    (serve s request).1 = s

/-- A request of an exempt process: the driver's globals, what it knows of the file of a control
    request, what the capture side would answer, the decoys shown so far, and what else is granted.
    -/
structure ExemptRequest where
  request : ViewRequest
  globals : Globals
  target : Target
  replies : CaptureReplies
  idMap : PmIdMap
  granted : Bool
  exempt : identityExempt globals request.caller = true
  trusted : target.trusted = true

variable {e : ExemptRequest}

namespace FileServer

variable {S R : Type*} (F : FileServer S R) (secret : Vector UInt8 32) (upcase : UInt16 → UInt16)

def layer (active : Bool) (e : ExemptRequest) : PhantomLayer :=
  ⟨active, secret, upcase, e.idMap, e.granted⟩

def through (s : S) (request : ViewRequest) : PreopStatus → S × R
  | .complete status => (s, F.completed status)
  | _ => F.serve s request

def step (active : Bool) (s : S) (e : ExemptRequest) : S × R :=
  match e.request with
  | .create op =>
    let status := (phantomCreate (layer secret upcase active e) e.globals op (F.nameInfo s op)
      e.granted).1
    F.through s e.request
      (sarPreCreate e.globals { e.replies with phantomCreate := status } op.base).status
  | .directory op =>
    let answer := F.serve s e.request
    if sarPhantomPreDirControl (layer secret upcase active e) e.globals op e.granted =
        .successWithCallback then
      (answer.1, F.merge s op answer.2)
    else answer
  | .fsControl op =>
    F.through s e.request
      (sarPreFsControl { e.globals with phantomActive := active } e.target e.replies op).status

def answers (active : Bool) (s : S) (requests : List ExemptRequest) : List R :=
  Runs.outputs (F.step secret upcase active) s requests

def namesDecoy (s : S) (e : ExemptRequest) : Bool :=
  match e.request with
  | .create op =>
    let L := layer secret upcase true e
    decide (op.base.caller.requestor = .userMode) && !refusedAnyway e.globals op.base &&
      !decide (op.fileName = [] ∧ op.related = false) &&
      ((shownDecoy L op).isSome || (namedDecoy L op (F.nameInfo s op)).isSome)
  | _ => false

end FileServer

/-! ### One request -/

theorem phantomCreate_of_exempt (hexempt : identityExempt G op.base.caller = true)
    (name : Option ParsedName) (backing : Bool) :
    (phantomCreate L G op name backing).1 =
      if L.active = true ∧ op.base.caller.requestor = .userMode ∧
          ¬ (op.fileName = [] ∧ op.related = false) ∧
          ((shownDecoy L op).isSome = true ∨ (namedDecoy L op name).isSome = true) then
        .complete .objectNameNotFound
      else .successWithCallback := by
  simp only [phantomCreate, hexempt, ↓reduceIte]
  by_cases hoff : L.active = false ∨ op.base.caller.requestor = .kernelMode
  · rw [if_pos hoff, if_neg ?_]
    rintro ⟨hactive, huser, -⟩
    rcases hoff with h | h
    · cases hactive.symm.trans h
    · cases huser.symm.trans h
  rw [if_neg hoff]
  have hon : L.active = true ∧ op.base.caller.requestor = .userMode := by
    rw [not_or, Bool.not_eq_false] at hoff
    refine ⟨hoff.1, ?_⟩
    cases hmode : op.base.caller.requestor with
    | kernelMode => exact absurd hmode hoff.2
    | userMode => rfl
  by_cases hvolume : op.fileName = [] ∧ op.related = false
  · rw [if_pos hvolume, if_neg fun h => h.2.2.1 hvolume]
  rw [if_neg hvolume]
  by_cases hshown : (shownDecoy L op).isSome = true
  · rw [if_pos hshown, if_pos ⟨hon.1, hon.2, hvolume, .inl hshown⟩]
  rw [if_neg hshown]
  cases hnamed : namedDecoy L op name with
  | none =>
    rw [if_neg ?_]
    rintro ⟨-, -, -, h | h⟩
    · exact hshown h
    · cases h
  | some decoy =>
    rw [if_pos ⟨hon.1, hon.2, hvolume, .inr rfl⟩]

theorem sarPreCreate_of_exempt {r : CaptureReplies} {op : CreateRequest}
    (hexempt : identityExempt G op.caller = true) :
    (sarPreCreate G r op).status =
      if refusedAnyway G op then .complete .accessDenied else r.phantomCreate := by
  rw [sarPreCreate_status, if_neg (by simp [supersedeRefused, hexempt])]

theorem sarPhantomPreDirControl_of_exempt {op : DirectoryRequest}
    (hexempt : identityExempt G op.caller = true) (armed : Bool) :
    sarPhantomPreDirControl L G op armed = .successNoCallback := by
  unfold sarPhantomPreDirControl
  rw [if_pos hexempt]
  split
  · rfl
  · rfl

theorem sarPreFsControl_of_trusted (htrusted : t.trusted = true) (r : CaptureReplies)
    (op : FsControlRequest) (active : Bool) :
    sarPreFsControl { G with phantomActive := active } t r op = sarPreFsControl G t r op := by
  unfold sarPreFsControl
  simp only [htrusted, Bool.true_eq_false, and_false, if_false]
  rfl

namespace FileServer

variable {S R : Type*} {F : FileServer S R} {secret : Vector UInt8 32} {upcase : UInt16 → UInt16}

theorem namesDecoy_create_iff {s : S} (he : e.request = .create op) :
    F.namesDecoy secret upcase s e = true ↔
      refusedAnyway e.globals op.base = false ∧ op.base.caller.requestor = .userMode ∧
        ¬ (op.fileName = [] ∧ op.related = false) ∧
        ((shownDecoy (layer secret upcase true e) op).isSome = true ∨
          (namedDecoy (layer secret upcase true e) op (F.nameInfo s op)).isSome = true) := by
  unfold namesDecoy
  rw [he]
  simp only [Bool.and_eq_true, Bool.or_eq_true, decide_eq_true_eq, Bool.not_eq_true',
    decide_eq_false_iff_not, and_assoc]
  exact and_left_comm

theorem not_namesDecoy_of_query {s : S} (he : ∀ op, e.request ≠ .create op) :
    F.namesDecoy secret upcase s e = false := by
  unfold namesDecoy
  split
  next op hcreate =>
    exact absurd hcreate (he op)
  · rfl

theorem step_create {s : S} (he : e.request = .create op) : F.step secret upcase active s e =
      if refusedAnyway e.globals op.base then (s, F.completed .accessDenied)
      else if active && F.namesDecoy secret upcase s e then (s, F.completed .objectNameNotFound)
      else F.serve s e.request := by
  have hexempt : identityExempt e.globals op.base.caller = true := by
    have := e.exempt
    rwa [he] at this
  have hstep : F.step secret upcase active s e = F.through s e.request
      (sarPreCreate e.globals { e.replies with
        phantomCreate := (phantomCreate (layer secret upcase active e) e.globals op
          (F.nameInfo s op) e.granted).1 } op.base).status := by
    unfold step
    rw [he]
  rw [hstep, sarPreCreate_of_exempt hexempt]
  by_cases hrefused : refusedAnyway e.globals op.base = true
  · rw [if_pos hrefused, if_pos hrefused]
    rfl
  rw [if_neg hrefused, if_neg hrefused]
  rw [phantomCreate_of_exempt hexempt]
  cases active with
  | false =>
    rw [if_neg fun h => Bool.false_ne_true h.1]
    rfl
  | true =>
    have hiff : F.namesDecoy secret upcase s e = true ↔ _ := namesDecoy_create_iff he
    by_cases hnames : F.namesDecoy secret upcase s e = true
    · rw [if_pos ⟨rfl, (hiff.mp hnames).2⟩, hnames]
      rfl
    · rw [if_neg fun h => hnames (hiff.mpr ⟨Bool.eq_false_iff.mpr hrefused, h.2⟩),
        Bool.eq_false_iff.mpr hnames]
      rfl

theorem step_query {s : S} (he : ∀ op, e.request ≠ .create op) :
    F.step secret upcase active s e = F.step secret upcase false s e := by
  have hexempt := e.exempt
  unfold step
  cases hrequest : e.request with
  | create op => exact absurd hrequest (he op)
  | directory op =>
    rw [hrequest] at hexempt
    dsimp only
    rw [sarPhantomPreDirControl_of_exempt hexempt, sarPhantomPreDirControl_of_exempt hexempt]
  | fsControl op =>
    have hsame := fun on => sarPreFsControl_of_trusted (G := e.globals) e.trusted e.replies op on
    exact congrArg (fun out => F.through s (.fsControl op) out.status)
      ((hsame active).trans (hsame false).symm)

/-- **One request.**  With the decoys switched on, a request that names a decoy is answered
    that there is no such file, and every other one as if they were switched off. -/
theorem step_on (s : S) : F.step secret upcase true s e =
      if F.namesDecoy secret upcase s e then (s, F.completed .objectNameNotFound)
      else F.step secret upcase false s e := by
  by_cases hcreate : ∃ op, e.request = .create op
  · obtain ⟨op, he⟩ := hcreate
    rw [step_create he, step_create he]
    by_cases hnames : F.namesDecoy secret upcase s e = true
    · have hrefused := ((namesDecoy_create_iff he).mp hnames).1
      rw [hnames, hrefused]
      rfl
    · rw [Bool.eq_false_iff.mpr hnames]
      rfl
  · have he : ∀ op, e.request ≠ .create op := fun op h => hcreate ⟨op, h⟩
    rw [not_namesDecoy_of_query he, step_query he]
    rfl

theorem step_off_of_namesDecoy {s : S} (h : F.namesDecoy secret upcase s e = true) :
    F.step secret upcase false s e = F.serve s e.request := by
  by_cases hcreate : ∃ op, e.request = .create op
  · obtain ⟨op, he⟩ := hcreate
    rw [step_create he, ((namesDecoy_create_iff he).mp h).1]
    rfl
  · cases h.symm.trans (not_namesDecoy_of_query fun op he => hcreate ⟨op, he⟩)

/-- **Decoys and exempt processes.**  For every file system and every sequence of requests of a
    process that is exempt throughout, the answers are those without the decoys exactly if the file
    system has no such name for every request that names a decoy. -/
theorem decoys_unseen_iff (F : FileServer S R) (secret : Vector UInt8 32)
    (upcase : UInt16 → UInt16) (s : S) (requests : List ExemptRequest) :
    F.answers secret upcase true s requests = F.answers secret upcase false s requests ↔
      Runs.Each (fun s e => (F.step secret upcase false s e).1)
        (fun s e => F.namesDecoy secret upcase s e = true →
          (F.serve s e.request).2 = F.completed .objectNameNotFound) s requests := by
  have hstep : ∀ s e, (F.step secret upcase true s e).2 = (F.step secret upcase false s e).2 ↔
      (F.namesDecoy secret upcase s e = true →
        (F.serve s e.request).2 = F.completed .objectNameNotFound) := by
    intro s e
    rw [step_on]
    by_cases hnames : F.namesDecoy secret upcase s e = true
    · rw [if_pos hnames, step_off_of_namesDecoy hnames]
      exact ⟨fun h _ => h.symm, fun h => (h hnames).symm⟩
    · rw [if_neg hnames]
      exact iff_of_true rfl fun h => absurd h hnames
  unfold answers
  rw [Runs.outputs_eq_iff]
  · exact Runs.each_congr_inv (fun _ _ _ => trivial) (fun s e (_ : True) => hstep s e) trivial
  · intro s e hanswer
    by_cases hnames : F.namesDecoy secret upcase s e = true
    · have hmissing := (hstep s e).mp hanswer hnames
      rw [step_on, if_pos hnames, step_off_of_namesDecoy hnames, F.notFound_keeps s _ hmissing]
    · rw [step_on, if_neg hnames]

end FileServer

/-! ### A file with the name of a decoy -/

inductive DirectoryAnswer where
  | done
  | entries (names : List (List UInt16))
  | failed (status : CompletionStatus)
deriving DecidableEq, Repr

def decoyDir : List UInt16 := wideUnits "\\Device\\V\\docs\\"

/-- A directory by the names in it: a file is opened if it is there, made if it is not, and
    the entries are listed. -/
def directoryServe (names : List (List UInt16)) : ViewRequest → List (List UInt16) × DirectoryAnswer
  | .create op =>
    let name := op.fileName.drop 1
    if op.base.disposition = .createNew then
      if name ∈ names then (names, .failed .accessDenied) else (names ++ [name], .done)
    else if name ∈ names then (names, .done)
    else (names, .failed .objectNameNotFound)
  | .directory _ => (names, .entries names)
  | .fsControl _ => (names, .done)

theorem directoryServe_notFound (names : List (List UInt16)) (request : ViewRequest)
    (h : (directoryServe names request).2 = .failed .objectNameNotFound) :
    (directoryServe names request).1 = names := by
  cases request with
  | create op =>
    unfold directoryServe at h ⊢
    dsimp only at h ⊢
    split at h
    · split at h
      · cases h
      · cases h
    next hopen =>
      rw [if_neg hopen]
      split
      · rfl
      · rfl
  | directory _ => cases h
  | fsControl _ => cases h

def oneDirectory : FileServer (List (List UInt16)) DirectoryAnswer where
  serve := directoryServe
  completed := .failed
  nameInfo _ op := some ⟨op.fileName.drop 1, decoyDir⟩
  merge _ _ answer := answer
  notFound_keeps := directoryServe_notFound

def zeroSecret : Vector UInt8 32 := Vector.replicate 32 0

def decoyName : List UInt16 := sarPhantomNameForIndex zeroSecret decoyDir (UInt32.ofNat 0)

def exemptGlobals : Globals :=
  ⟨.enforce, sarStateIdentityInsert sarStateCreate 1 7 true true false true, .empty, true, true,
    false⟩

theorem exemptGlobals_exempt : identityExempt exemptGlobals userCaller = true := by
  decide +kernel

def exemptCreate (disposition : CreateDisposition) : ExemptRequest where
  request := .create ⟨⟨userCaller, disposition, false, false⟩, 92 :: decoyName, false, false, false⟩
  globals := exemptGlobals
  target := ⟨none, none, none, true⟩
  replies := ⟨.stored, .stored, .stored, .stored, .successNoCallback⟩
  idMap := ⟨fun _ => none, 0⟩
  granted := true
  exempt := exemptGlobals_exempt
  trusted := rfl

theorem namedDecoy_decoyName (hsecret : L.secret = zeroSecret)
    (hop : op.openTargetDirectory = false) (hname : op.fileName = 92 :: decoyName) :
    (namedDecoy L op (some ⟨decoyName, decoyDir⟩)).isSome = true := by
  have hpalette : sarPhantomExtInPalette (92 :: decoyName) = true :=
    extInPalette_phantomName [92] zeroSecret decoyDir (UInt32.ofNat 0)
  unfold namedDecoy
  rw [if_neg (by simp [hop, hname, hpalette]), hsecret, Option.isSome_map]
  exact matchName_phantomName L.upcase zeroSecret decoyDir (by decide)

theorem exemptCreate_namesDecoy :
    oneDirectory.namesDecoy zeroSecret asciiUpper names (exemptCreate disposition) = true := by
  refine (FileServer.namesDecoy_create_iff rfl).mpr ⟨rfl, rfl, ?_, .inr ?_⟩
  · rintro ⟨h, -⟩
    cases h
  · exact namedDecoy_decoyName rfl rfl rfl

/-- The file is in the directory and the exempt process does not find it; nor can it make one
    where there is none. -/
theorem decoy_name_hidden :
    oneDirectory.answers zeroSecret asciiUpper false [decoyName] [exemptCreate .openExisting] =
        [.done] ∧
      oneDirectory.answers zeroSecret asciiUpper true [decoyName] [exemptCreate .openExisting] =
        [.failed .objectNameNotFound] ∧
      oneDirectory.answers zeroSecret asciiUpper false [] [exemptCreate .createNew] = [.done] ∧
      oneDirectory.answers zeroSecret asciiUpper true [] [exemptCreate .createNew] =
        [.failed .objectNameNotFound] := by
  have hon : ∀ names disposition, oneDirectory.answers zeroSecret asciiUpper true names
      [exemptCreate disposition] = [.failed .objectNameNotFound] := by
    intro names disposition
    unfold FileServer.answers
    simp only [Runs.outputs]
    rw [FileServer.step_on, if_pos exemptCreate_namesDecoy]
    rfl
  have hoff : ∀ names disposition, oneDirectory.answers zeroSecret asciiUpper false names
      [exemptCreate disposition] =
        [(directoryServe names (exemptCreate disposition).request).2] := by
    intro names disposition
    unfold FileServer.answers
    simp only [Runs.outputs]
    rw [FileServer.step_off_of_namesDecoy exemptCreate_namesDecoy]
    rfl
  refine ⟨?_, hon _ _, ?_, hon _ _⟩
  · rw [hoff]
    simp [directoryServe, exemptCreate]
  · rw [hoff]
    simp [directoryServe, exemptCreate]

/-! ### A real file with the name of a decoy -/

/-- A create, by its name, of the path of a decoy. -/
structure DecoyOpen (L : PhantomLayer) where
  op : PhantomCreate
  parsed : ParsedName
  byName : op.openById = false ∧ ¬ (op.fileName = [] ∧ op.related = false)
  names : (namedDecoy L op (some parsed)).isSome = true

/-- Whether the real file is there, and for each open that should reach it whether it has reached
    the backing of the decoy. -/
structure RealFile where
  present : Bool
  handles : List Bool

variable {s : RealFile}

/-- Whether the file system opens or makes the file. -/
def CreateDisposition.succeeds (present : Bool) : CreateDisposition → Bool
  | createNew => !present
  | openExisting | overwrite => present
  | openIf | overwriteIf | supersede => true

inductive RealFileAct (L : PhantomLayer) where
  | open (G : Globals) (r : CaptureReplies) (o : DecoyOpen L)
  | write (G : Globals) (t : Target) (r : CaptureReplies) (handle : Nat) (op : WriteRequest)

def RealFile.step {L : PhantomLayer} (s : RealFile) : RealFileAct L → RealFile
  | .open G r o =>
    if o.op.base.disposition.succeeds s.present then
      let status := (phantomCreate L G o.op (some o.parsed) false).1
      match (sarPreCreate G { r with phantomCreate := status } o.op.base).status with
      | .complete .reparse => { s with handles := s.handles ++ [true] }
      | .complete _ => s
      | _ => ⟨true, s.handles ++ [false]⟩
    else s
  | .write _ _ _ _ _ => s

/-- The open reaches the real file, and the write adds no evidence. -/
def StaysReal {L : PhantomLayer} (s : RealFile) : RealFileAct L → Prop
  | .open G r o => o.op.base.disposition.succeeds s.present = true →
    s.step (.open G r o) = ⟨true, s.handles ++ [false]⟩
  | .write G t r handle op => s.handles[handle]? = some (t.flag (·.phantomBacking)) →
    ∀ id, .phantomEvidence id ∉ (sarPreWrite G t r op).calls

/-- **The condition.**  The open is not refused (the process is not blocked, and nothing is lost of
    a file it replaces), and decoys are off, or the kernel opens the file, or a process that is not
    exempt makes it with `FILE_CREATE`. -/
def LetThrough {L : PhantomLayer} (s : RealFile) : RealFileAct L → Prop
  | .open G r o => o.op.base.disposition.succeeds s.present = true →
    supersedeRefused G r o.op.base = false ∧ refusedAnyway G o.op.base = false ∧
      (L.active = false ∨ o.op.base.caller.requestor = .kernelMode ∨
        (identityExempt G o.op.base.caller = false ∧ o.op.base.disposition = .createNew))
  | .write _ _ _ _ _ => True

theorem staysReal_open_iff (r : CaptureReplies) (o : DecoyOpen L) :
    StaysReal s (.open G r o) ↔ LetThrough s (.open G r o) := by
  have hshown : shownDecoy L o.op = none := if_neg (by simp [o.byName.1])
  obtain ⟨decoy, hnamed⟩ := Option.isSome_iff_exists.mp o.names
  have hne : s ≠ ⟨true, s.handles ++ [false]⟩ := fun h => by
    simpa using congrArg (·.handles.length) h
  refine forall_congr' fun hopens => ?_
  simp only [RealFile.step, if_pos hopens, sarPreCreate_status]
  have hsupersede : ∀ status, supersedeRefused G { r with phantomCreate := status } o.op.base =
      supersedeRefused G r o.op.base := fun _ => rfl
  rw [hsupersede]
  cases supersedeRefused G r o.op.base with
  | true => simp [hne]
  | false =>
  cases refusedAnyway G o.op.base with
  | true => simp [hne]
  | false =>
  -- the decoy layer decides
  simp only [phantomCreate, hshown, hnamed, o.byName.2, if_false, Option.isSome_none,
    Bool.false_eq_true, true_and]
  by_cases hoff : L.active = false ∨ o.op.base.caller.requestor = .kernelMode
  · simp [hoff, ← or_assoc]
  rw [if_neg hoff, ← or_assoc, or_iff_right hoff]
  cases hexempt : identityExempt G o.op.base.caller with
  | true => simp [hne]
  | false =>
    by_cases hnew : o.op.base.disposition = .createNew
    · simp [hnew]
    · cases L.replaceName <;> simp [hnew, hne]

theorem no_evidence_of_real (ht : t.flag (·.phantomBacking) = false) (r : CaptureReplies)
    (op : WriteRequest) (id : UInt64) :
    .phantomEvidence id ∉ (sarPreWrite G t r op).calls := by
  have hsubmit : ∀ member, .phantomEvidence id ∉ sarSubmitWrite t member op.offset op.length := by
    intro member
    unfold sarSubmitWrite
    split <;> simp
  simp only [sarPreWrite, ht, sarEnforceInPlaceCapture]
  grind [pass, deny]

/-- **A real file with the name of a decoy.**  In every run of opens of the path and writes to what
    they reach, from a file that is there or not, every open reaches the real file and no write adds
    evidence, exactly if each open is let through. -/
theorem real_file_stays_iff (L : PhantomLayer) (present : Bool) (acts : List (RealFileAct L)) :
    Runs.Each RealFile.step StaysReal ⟨present, []⟩ acts ↔
      Runs.Each RealFile.step LetThrough ⟨present, []⟩ acts := by
  constructor
  · refine Runs.Each.imp_inv (fun s act (_ : True) h => ⟨trivial, ?_⟩) trivial
    cases act with
    | «open» G r o => exact (staysReal_open_iff r o).mp h
    | write G t r handle op => trivial
  · refine Runs.Each.imp_inv
      (fun s act (hs : ∀ backing ∈ s.handles, backing = false) h => ?_) (by simp)
    cases act with
    | «open» G r o =>
      have hstays := (staysReal_open_iff r o).mpr h
      refine ⟨?_, hstays⟩
      by_cases hopens : o.op.base.disposition.succeeds s.present = true
      · rw [hstays hopens]
        simpa [or_imp, forall_and] using hs
      · simpa [RealFile.step, hopens] using hs
    | write G t r handle op =>
      exact ⟨hs, fun hhandle => no_evidence_of_real (hs _ (List.mem_of_getElem? hhandle)) r op⟩

def decoyLayer : PhantomLayer := ⟨true, zeroSecret, asciiUpper, ⟨fun _ => none, 0⟩, true⟩

def decoyOpen (disposition : CreateDisposition) : DecoyOpen decoyLayer where
  op := ⟨⟨userCaller, disposition, false, false⟩, 92 :: decoyName, false, false, false⟩
  parsed := ⟨decoyName, decoyDir⟩
  byName := ⟨rfl, fun h => List.cons_ne_nil _ _ h.1⟩
  names := namedDecoy_decoyName rfl rfl rfl

/-- A process that is not exempt asks for the file with `FILE_OPEN_IF` and comes to the decoy; and
    when it has made the file with `FILE_CREATE`, an open of it comes to the decoy. -/
theorem real_file_lost :
    let G : Globals := ⟨.enforce, sarStateCreate, .empty, true, true, false⟩
    let r : CaptureReplies := ⟨.stored, .stored, .stored, .stored, .successNoCallback⟩
    ¬ Runs.Each RealFile.step StaysReal ⟨false, []⟩ [.open G r (decoyOpen .openIf)] ∧
      ¬ Runs.Each RealFile.step StaysReal ⟨false, []⟩
        [.open G r (decoyOpen .createNew), .open G r (decoyOpen .openExisting)] := by
  intro G r
  have hlost : ∀ present disposition, disposition ≠ .createNew →
      disposition.succeeds present = true → ∀ handles,
        ¬ StaysReal ⟨present, handles⟩ (.open G r (decoyOpen disposition)) := by
    intro present disposition hnew hopens handles hstays
    rcases ((staysReal_open_iff _ _).mp hstays hopens).2.2 with h | h | h
    · cases h
    · cases h
    · exact hnew h.2
  refine ⟨fun h => hlost false .openIf (by decide) rfl [] h.1, fun h => ?_⟩
  have hmade := h.1 rfl
  rw [Runs.each_cons, hmade] at h
  exact hlost true .openExisting (by decide) rfl _ h.2.1

end SemanticsAr
