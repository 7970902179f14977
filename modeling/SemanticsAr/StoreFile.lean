import SemanticsAr.ChainedLog
import SemanticsAr.Format
import SemanticsAr.Sha256

/-!
# The common file layout of the two stores

The captured-key ledger and the preservation index are both a header followed
by a MAC-chained log; they differ in the record, the magic number and the tag
the chain starts from.  `fileBytes` is that layout, with the record codec, the
magic number and the start tag as parameters.
-/

namespace SemanticsAr

open ChainedLog

variable {buf : List UInt8} {hdr : StoreHeader}

section

variable {R : Type} (rc : FixedCodec R) (magic : UInt32) (macKey start : Mac)

def macOf (msg : List UInt8) : Mac := sarHmacSha256 macKey.toList msg

def fileHeader (records : List R) (generation : UInt64) : StoreHeader where
  magic := magic
  recordCount := UInt64.ofNat records.length
  generation := generation
  headMac := chainHead rc macCodec (macOf macKey) start records

def fileBytes (records : List R) (generation : UInt64) : List UInt8 :=
  headerCodec.put (fileHeader rc magic macKey start records generation) ++
    chainBody rc macCodec (macOf macKey) start records

def headerOf (buf : List UInt8) : StoreHeader := headerCodec.get (buf.take HEADER_SIZE)

section

variable (records : List R) (generation : UInt64)

include records generation

@[simp] theorem length_fileBytes : (fileBytes rc magic macKey start records generation).length =
      HEADER_SIZE + records.length * (rc.pair macCodec).width := by
  simp [fileBytes]

@[simp] theorem headerOf_fileBytes : headerOf (fileBytes rc magic macKey start records generation) =
      fileHeader rc magic macKey start records generation := by
  rw [headerOf, fileBytes, ← headerCodec_width, headerCodec.get_take_put]

theorem drop_fileBytes : (fileBytes rc magic macKey start records generation).drop HEADER_SIZE =
      chainBody rc macCodec (macOf macKey) start records := by
  rw [fileBytes, ← headerCodec_width, headerCodec.drop_put]

theorem readLog_fileBytes : readLog rc macCodec (fileBytes rc magic macKey start records generation)
      records.length HEADER_SIZE = .ok records := by
  apply readLog_of_chainBody rc macCodec (macOf macKey)
  · rw [length_fileBytes]; omega
  · rw [drop_fileBytes, ← length_chainBody rc macCodec (macOf macKey) start, List.take_length]

end

/-- The record loop of a verifier and the comparison of its last MAC with the
    header's head MAC. -/
def checkRecords (buf : List UInt8) (hdr : StoreHeader) : Except ReadFault Bool := do
  match ← checkLog rc macCodec (macOf macKey) buf hdr.recordCount.toNat HEADER_SIZE start with
  | none => .ok false
  | some prev => .ok (prev == hdr.headMac)

theorem checkRecords_eq_true_iff : checkRecords rc macKey start buf hdr = .ok true ↔
      checkLog rc macCodec (macOf macKey) buf hdr.recordCount.toNat HEADER_SIZE start =
        .ok (some hdr.headMac) := by
  rw [checkRecords]
  rcases checkLog rc macCodec (macOf macKey) buf hdr.recordCount.toNat HEADER_SIZE start
    with f | _ | prev <;> simp [bind, Except.bind]

theorem checkRecords_fault_iff : (∃ f, checkRecords rc macKey start buf hdr = .error f) ↔
      ∃ f, checkLog rc macCodec (macOf macKey) buf hdr.recordCount.toNat HEADER_SIZE start =
        .error f := by
  rw [checkRecords]
  rcases checkLog rc macCodec (macOf macKey) buf hdr.recordCount.toNat HEADER_SIZE start
    with f | _ | prev <;> simp [bind, Except.bind]

/-- **Acceptance is serialization.**  In a buffer of the announced size with the right magic number,
    the chain checks and ends in the head MAC exactly when the buffer is the file of the records it
    holds. -/
theorem checkRecords_iff_fileBytes
    (hlen : buf.length = HEADER_SIZE + (headerOf buf).recordCount.toNat * (rc.pair macCodec).width)
    (hmagic : (headerOf buf).magic = magic) :
    checkRecords rc macKey start buf (headerOf buf) = .ok true ↔
      ∃ records : List R, records.length = (headerOf buf).recordCount.toNat ∧
        buf = fileBytes rc magic macKey start records (headerOf buf).generation := by
  have hsplit : buf = headerCodec.put (headerOf buf) ++ buf.drop HEADER_SIZE := by
    rw [headerOf, headerCodec.put_get _ (by rw [List.length_take, headerCodec_width]; omega),
      List.take_append_drop]
  have hall : (buf.drop HEADER_SIZE).take
      ((headerOf buf).recordCount.toNat * (rc.pair macCodec).width) = buf.drop HEADER_SIZE :=
    List.take_of_length_le (by rw [List.length_drop]; omega)
  rw [checkRecords_eq_true_iff, checkLog_eq_some_iff rc macCodec (macOf macKey) (by omega), hall]
  constructor
  · rintro ⟨records, hcount, hhead, hbody⟩
    have hheader : headerOf buf =
        fileHeader rc magic macKey start records (headerOf buf).generation := by
      rw [fileHeader, hhead, hcount, UInt64.ofNat_toNat, ← hmagic]
    refine ⟨records, hcount, ?_⟩
    rw [fileBytes, hbody, ← hheader]
    exact hsplit
  · rintro ⟨records, hcount, hbuf⟩
    have hheader : headerOf buf =
        fileHeader rc magic macKey start records (headerOf buf).generation := by
      conv_lhs => rw [hbuf]
      rw [headerOf_fileBytes]
    have hdrop := drop_fileBytes rc magic macKey start records (headerOf buf).generation
    rw [← hbuf] at hdrop
    refine ⟨records, hcount, ?_, hdrop.symm⟩
    rw [hheader]
    rfl

theorem checkRecords_fileBytes {records : List R} (hn : records.length < 2 ^ 64)
    (generation : UInt64) :
    checkRecords rc macKey start (fileBytes rc magic macKey start records generation)
      (fileHeader rc magic macKey start records generation) = .ok true := by
  have hheader := headerOf_fileBytes rc magic macKey start records generation
  have hcount : (UInt64.ofNat records.length).toNat = records.length := by
    rw [UInt64.toNat_ofNat', Nat.mod_eq_of_lt hn]
  rw [← hheader]
  refine (checkRecords_iff_fileBytes rc magic macKey start ?_ ?_).mpr ⟨records, ?_, ?_⟩
  · rw [hheader, length_fileBytes, fileHeader, hcount]
  · rw [hheader, fileHeader]
  · rw [hheader, fileHeader, hcount]
  · rw [hheader, fileHeader]

end

end SemanticsAr
