import SemanticsAr.PreserveLinks

/-!
# The recovery list

The list of preserved holds in the user interface is loaded page by page: the driver projects one
record of its table, the service collects up to `SAR_CTL_LIST_PAGE` of them in a reply, the
elevation host hands their memory on, and `ElevatedControlChannel` parses it and asks for the
next page.
-/

namespace SemanticsAr

open List

/-- `SAR_CTL_LIST_PAGE` of the service and `SARAPI_PAGE` of the client library. -/
def SAR_CTL_LIST_PAGE : Nat := 8

/-- `sarapi_preserve_entry_t`. -/
structure PageEntry where
  provenancePath : ProvPath
  offset : UInt64
  length : UInt64
  captureTime : UInt64
  size : UInt64
  actorStartKey : UInt64
  appIdentityId : UInt64
  state : UInt32

open FixedCodec in
def pageEntryCodec : FixedCodec (PageEntry × UInt32) :=
  ((u16.vec SEMANTICS_AR_PROVENANCE_PATH_MAX).pair <| u64.pair <| u64.pair <| u64.pair <|
    u64.pair <| u64.pair <| u64.pair <| u32.pair u32).iso
    (fun (path, offset, length, captureTime, size, actor, app, state, pad) =>
      (⟨path, offset, length, captureTime, size, actor, app, state⟩, pad))
    (fun (e, pad) => (e.provenancePath, e.offset, e.length, e.captureTime, e.size,
      e.actorStartKey, e.appIdentityId, e.state, pad))
    (fun _ => rfl) (fun _ => rfl)

def PRESERVE_ENTRY_SIZE : Nat := 576

@[simp] theorem pageEntryCodec_width : pageEntryCodec.width = PRESERVE_ENTRY_SIZE := rfl

inductive PreservePool where
  | probationPool
  | protectedPool
deriving DecidableEq, Repr

/-- A `RecoverableItem` as `ParsePreserve` fills it in. -/
structure ListedHold where
  path : List UInt16
  offset : UInt64
  length : UInt64
  captureTime : UInt64
  size : UInt64
  actorStartKey : UInt64
  appIdentityId : UInt64
  pool : PreservePool
deriving DecidableEq, Repr

/-! ### The driver and the service -/

def sarHandlePreserveQuery (P : Preserve) (index : UInt32) : Option PreserveEntry × UInt32 :=
  if P.ready then
    let r := sarPreserveProject index.toUInt64 P
    (r.1, r.2.toUInt32)
  else (none, 0)

section

variable (resolve : ProvPath → UInt64)

/-- The copy of the service; `resolve` is `sar_attrib_resolve`. -/
def pageEntry (e : PreserveEntry) : PageEntry :=
  ⟨e.provenancePath, e.provenanceOffset, e.provenanceLength, e.captureTime, e.payloadLength,
    e.actorStartKey, resolve e.causingImagePath, e.state⟩

/-- The loop of `SAR_CTL_OP_PRESERVE_LIST`, with `left` turns to go. -/
def preserveListLoop (P : Preserve) (start : UInt32) :
    Nat → UInt32 → UInt32 → List PageEntry × UInt32
  | 0, _, total => ([], total)
  | left + 1, n, _ =>
    match sarHandlePreserveQuery P (start + n) with
    | (none, total) => ([], total)
    | (some e, total) =>
      let rest := preserveListLoop P start left (n + 1) total
      (pageEntry resolve e :: rest.1, rest.2)

/-! ### The host and the channel -/

/-- `PreservePage`: the total, the number of entries and their memory. -/
def preservePage (P : Preserve) (start : UInt32) : UInt32 × Nat × List UInt8 :=
  let r := preserveListLoop resolve P start SAR_CTL_LIST_PAGE 0 0
  (r.2, r.1.length, pageEntryCodec.putList (r.1.map (·, 0)))

def parseEntry (e : PageEntry) : ListedHold :=
  ⟨pathText e.provenancePath, e.offset, e.length, e.captureTime, e.size, e.actorStartKey,
    e.appIdentityId, if e.state = SAR_PRESERVE_PROTECTED then .protectedPool
    else .probationPool⟩

/-- `RecoveryLadder.ParsePreserve`. -/
def parsePreserve (blob : List UInt8) (count : Nat) : List ListedHold :=
  (pageEntryCodec.getList (min count (blob.length / PRESERVE_ENTRY_SIZE)) blob).map
    fun e => parseEntry e.1

/-- `LoadPaged`, at most `pages` pages; `none` while the load has not ended. -/
def loadPaged (P : Preserve) : Nat → UInt32 → List ListedHold → Option (List ListedHold)
  | 0, _, _ => none
  | pages + 1, start, all =>
    let page := preservePage resolve P start
    let returned := page.2.1
    let all := if returned > 0 then all ++ parsePreserve page.2.2 returned else all
    let start := start + UInt32.ofNat returned
    if returned = 0 ∨ start ≥ page.1 then some all else loadPaged P pages start all

/-! ### The list -/

def recordEntry (r : PreserveRecord) : PageEntry :=
  ⟨r.provenancePath, r.provenanceOffset, r.provenanceLength, r.captureTime, r.payloadLength,
    r.actorId, resolve r.causingImagePath, r.state⟩

/-- The row of a record: its fields, and the application its image is attributed to. -/
def recordItem (r : PreserveRecord) : ListedHold where
  path := pathText r.provenancePath
  offset := r.provenanceOffset
  length := r.provenanceLength
  captureTime := r.captureTime
  size := r.payloadLength
  actorStartKey := r.actorId
  appIdentityId := resolve r.causingImagePath
  pool := if r.state = SAR_PRESERVE_PROTECTED then .protectedPool else .probationPool

theorem parsePreserve_putList (entries : List PageEntry) :
    parsePreserve (pageEntryCodec.putList (entries.map (·, 0))) entries.length =
      entries.map parseEntry := by
  have hcount : min entries.length
      ((pageEntryCodec.putList (entries.map (·, 0))).length / PRESERVE_ENTRY_SIZE) =
        (entries.map (·, (0 : UInt32))).length := by
    rw [FixedCodec.length_putList, pageEntryCodec_width, length_map,
      Nat.mul_div_cancel _ (by decide), Nat.min_self]
  rw [parsePreserve, hcount, FixedCodec.getList_putList, map_map]
  rfl

variable {P : Preserve} (hready : P.ready = true)
  (hfits : P.records.length ≤ SAR_PRESERVE_RECORD_CAPACITY.toNat)

include hready hfits

/-- The loop collects the records from `start + n` on. -/
theorem preserveListLoop_eq {start n : UInt32} (left : Nat) (total : UInt32)
    (hn : start.toNat + n.toNat + left ≤ P.records.length + SAR_CTL_LIST_PAGE)
    (hpos : 0 < left) :
    preserveListLoop resolve P start left n total =
      (((P.records.drop (start.toNat + n.toNat)).take left).map (recordEntry resolve),
        UInt32.ofNat P.records.length) := by
  have hcap : P.records.length ≤ 65536 := hfits
  have hpage : SAR_CTL_LIST_PAGE = 8 := rfl
  induction left generalizing n total with
  | zero => exact absurd hpos (Nat.lt_irrefl 0)
  | succ left ih =>
    have hindex : (start + n).toNat = start.toNat + n.toNat := by
      rw [UInt32.toNat_add, Nat.mod_eq_of_lt (by omega)]
    have hnext : (n + 1).toNat = n.toNat + 1 := by
      rw [UInt32.toNat_add, UInt32.toNat_one, Nat.mod_eq_of_lt (by omega)]
    have htotal : (UInt64.ofNat P.records.length).toUInt32 = UInt32.ofNat P.records.length := by
      simp
    simp only [preserveListLoop, sarHandlePreserveQuery, sarPreserveProject, hready, if_true,
      UInt32.toNat_toUInt64, hindex, htotal]
    by_cases hlt : start.toNat + n.toNat < P.records.length
    · rw [List.getElem?_eq_getElem hlt, drop_eq_getElem_cons hlt, take_succ_cons]
      rcases Nat.eq_zero_or_pos left with rfl | hleft
      · rfl
      · simp only [ih (n := n + 1) _ (by omega) hleft, hnext, map_cons, Nat.add_assoc]
        rfl
    · rw [List.getElem?_eq_none (by omega), drop_eq_nil_of_le (by omega)]
      rfl

theorem loadPaged_eq {start : UInt32} {pages : Nat} (all : List ListedHold)
    (hstart : start.toNat ≤ P.records.length)
    (hpages : P.records.length < start.toNat + pages * SAR_CTL_LIST_PAGE) :
    loadPaged resolve P pages start all =
      some (all ++ (P.records.drop start.toNat).map (recordItem resolve)) := by
  have hcap : P.records.length ≤ 65536 := hfits
  have hpage : SAR_CTL_LIST_PAGE = 8 := rfl
  induction pages generalizing start all with
  | zero => omega
  | succ pages ih =>
    rw [Nat.succ_mul] at hpages
    have hlist := @preserveListLoop_eq resolve P hready hfits start 0 SAR_CTL_LIST_PAGE 0
      (by simpa using hstart) (by decide)
    rw [UInt32.toNat_zero, Nat.add_zero] at hlist
    have hlen : (P.records.drop start.toNat).length = P.records.length - start.toNat :=
      length_drop
    have htotal : (UInt32.ofNat P.records.length).toNat = P.records.length :=
      UInt32.toNat_ofNat_of_lt' (by show _ < 2 ^ 32; omega)
    set entries := ((P.records.drop start.toNat).take SAR_CTL_LIST_PAGE).map
      (recordEntry resolve) with hentries
    have hparse : entries.map parseEntry =
        ((P.records.drop start.toNat).take SAR_CTL_LIST_PAGE).map (recordItem resolve) :=
      map_map
    have hreturned : entries.length = min 8 (P.records.length - start.toNat) := by
      rw [length_map, length_take, hlen, hpage]
    have hsum : (start + UInt32.ofNat (min 8 (P.records.length - start.toNat))).toNat =
        start.toNat + min 8 (P.records.length - start.toNat) := by
      rw [UInt32.toNat_add, UInt32.toNat_ofNat_of_lt' (by show _ < 2 ^ 32; omega),
        Nat.mod_eq_of_lt (by omega)]
    simp only [loadPaged, preservePage, hlist, parsePreserve_putList, hparse]
    rw [hreturned]
    split
    · -- the page reaches the end of the table
      rename_i hend
      rw [ge_iff_le, UInt32.le_iff_toNat_le, htotal, hsum] at hend
      rw [take_of_length_le (by omega)]
      split
      · rfl
      · rw [drop_eq_nil_of_le (by omega), map_nil, append_nil]
    next hmore =>
      rw [ge_iff_le, UInt32.le_iff_toNat_le, htotal, hsum, not_or, Nat.not_le] at hmore
      rw [if_pos (by omega), ih _ (by omega) (by omega), hsum, append_assoc]
      congr 2
      rw [show min 8 (P.records.length - start.toNat) = SAR_CTL_LIST_PAGE by omega,
        ← drop_drop]
      rw [← map_append, take_append_drop]

end

/-- **The recovery list.**  The list that is loaded page by page has one item for each record of
    the table, in their order and with their fields. -/
theorem recovery_list_is_store (resolve : ProvPath → UInt64) (P : Preserve)
    (hready : P.ready = true) (hfits : P.records.length ≤ SAR_PRESERVE_RECORD_CAPACITY.toNat)
    (pages : Nat) (hpages : P.records.length / SAR_CTL_LIST_PAGE < pages) :
    loadPaged resolve P pages 0 [] = some (P.records.map (recordItem resolve)) := by
  have hall : P.records.length < (0 : UInt32).toNat + pages * SAR_CTL_LIST_PAGE := by
    rw [UInt32.toNat_zero, Nat.zero_add]
    exact (Nat.div_lt_iff_lt_mul (by decide)).mp hpages
  simpa using loadPaged_eq resolve hready hfits [] (Nat.zero_le _) hall

def numberedHold (i : Nat) : PreserveRecord :=
  { preserveRecordCodec.get [] with
    provenancePath := (Vector.replicate _ 0).set 0 97
    provenanceOffset := UInt64.ofNat i
    provenanceLength := 16
    captureTime := 2
    payloadLength := 16
    actorId := 3
    state := if i = 0 then SAR_PRESERVE_PROTECTED else SAR_PRESERVE_PROBATION
    causingImagePath := Vector.replicate _ 98 }

/-- Ten records of `a` on two pages, the first of them protected. -/
theorem recovery_list_of_ten :
    let P := { readyStore with records := (range 10).map numberedHold }
    P.ready = true ∧ loadPaged (fun image => (image.get 0).toUInt64) P 2 0 [] =
      some ((range 10).map fun i => ⟨[97], UInt64.ofNat i, 16, 2, 16, 3, 98,
        if i = 0 then .protectedPool else .probationPool⟩) := by
  refine ⟨rfl, (recovery_list_is_store _ _ rfl (by decide) 2 (by decide)).trans ?_⟩
  decide +kernel

end SemanticsAr
