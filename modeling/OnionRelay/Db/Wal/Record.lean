import Mathlib.Data.List.Forall2
import Mathlib.Tactic.Common
import OnionRelay.Db.Page
import OnionRelay.Lib.LittleEndian

/-!
# Log records

The records of `wal_types.h` as the code lays them out: a header of 32 bytes, and
for some types a payload behind it.  `WalRecord` is a record as a value; its
`bytes` are what the log functions write, the functions `lsnAt`, `txIdAt` and so on
are what the scans read at a position of the file.

Every scan of the file is the same loop, which reads the header at `pos` as long
as 32 bytes are left and goes on behind the payload.  `scan` is the list of the
positions it comes to; `scan_records` says that these are the places of the
records, as far as whole records go.
-/

namespace OnionRelay.Db

open OnionRelay.Lib

inductive WalRecordType
  | begin
  | commit
  | abort
  | update
  | allocPage
  | freePage
  | checkpoint
deriving DecidableEq

def WalRecordType.code : WalRecordType → Nat
  | begin => 1
  | commit => 2
  | abort => 3
  | update => 4
  | allocPage => 5
  | freePage => 6
  | checkpoint => 7

theorem WalRecordType.code_injective {t t' : WalRecordType} (h : t.code = t'.code) : t = t' := by
  cases t <;> cases t' <;> first | rfl | cases h

theorem WalRecordType.code_lt (t : WalRecordType) : t.code < 256 ^ 4 := by
  cases t <;> decide

def walHeaderSize : Nat := 32

/-- `WalRecordHeader`, the four bytes that align its size included. -/
def headerBytes (lsn prevLsn : UInt64) (txId : UInt32) (type : WalRecordType) (dataLength : Nat) :
    List UInt8 :=
  toLE 8 lsn.toNat ++ toLE 8 prevLsn.toNat ++ toLE 4 txId.toNat ++ toLE 4 type.code ++
    toLE 2 dataLength ++ toLE 2 0 ++ List.replicate 4 0

/-- `WalUpdatePayload` with both images. -/
def updatePayload (pageId offset length : Nat) (old new : List UInt8) : List UInt8 :=
  toLE 4 pageId ++ toLE 2 offset ++ toLE 2 length ++ old ++ new

/-- `WalPagePayload` -/
def pagePayload (pageId : Nat) : List UInt8 := toLE 4 pageId

/-! ## Records as values -/

/-- A change of bytes within one page. -/
structure WalUpdate where
  pageId : Nat
  offset : Nat
  old : List UInt8
  new : List UInt8
  pageId_lt : pageId < 2 ^ 32
  length_eq : old.length = new.length
  length_pos : 0 < new.length
  inPage : offset + new.length ≤ dbPageSize
deriving DecidableEq

/-- The first byte of page 1 is changed. -/
def setByte (old new : UInt8) : WalUpdate :=
  ⟨1, 0, [old], [new], Nat.le_of_ble_eq_true rfl, rfl, Nat.one_pos, Nat.le_of_ble_eq_true rfl⟩

inductive WalBody
  | begin
  | commit
  | abort
  | update (u : WalUpdate)
  | allocPage (pageId : Nat)
  | freePage (pageId : Nat)
  | checkpoint
deriving DecidableEq

namespace WalBody

def type : WalBody → WalRecordType
  | begin => .begin
  | commit => .commit
  | abort => .abort
  | update _ => .update
  | allocPage _ => .allocPage
  | freePage _ => .freePage
  | checkpoint => .checkpoint

def payload : WalBody → List UInt8
  | update u => updatePayload u.pageId u.offset u.new.length u.old u.new
  | allocPage pid => pagePayload pid
  | freePage pid => pagePayload pid
  | _ => []

end WalBody

structure WalRecord where
  lsn : UInt64
  prevLsn : UInt64
  txId : UInt32
  body : WalBody
deriving DecidableEq

namespace WalRecord

def bytes (r : WalRecord) : List UInt8 :=
  headerBytes r.lsn r.prevLsn r.txId r.body.type r.body.payload.length ++ r.body.payload

/-- The bytes a record takes up. -/
def size (r : WalRecord) : Nat := walHeaderSize + r.body.payload.length

end WalRecord

/-- A log of records, one behind the other. -/
def logBytes (rs : List WalRecord) : List UInt8 := rs.flatMap WalRecord.bytes

/-- The positions of the records of a log that starts at `pos`. -/
def offsets : Nat → List WalRecord → List Nat
  | _, [] => []
  | pos, r :: rs => pos :: offsets (pos + r.size) rs

@[simp] theorem length_headerBytes (lsn prevLsn : UInt64) (txId : UInt32) (type : WalRecordType)
    (n : Nat) : (headerBytes lsn prevLsn txId type n).length = walHeaderSize := by
  simp [headerBytes, walHeaderSize]

theorem WalUpdate.length_payload (u : WalUpdate) :
    (WalBody.update u).payload.length = 8 + u.new.length * 2 := by
  simp only [WalBody.payload, updatePayload, List.length_append, length_toLE, u.length_eq]
  omega

theorem WalBody.length_payload_lt (b : WalBody) : b.payload.length < 256 ^ 2 := by
  cases b with
  | update u =>
    have hpage := u.inPage
    rw [u.length_payload]
    rw [dbPageSize] at hpage
    omega
  | _ => simp [WalBody.payload, pagePayload]

@[simp] theorem WalRecord.length_bytes (r : WalRecord) : r.bytes.length = r.size := by
  simp [WalRecord.bytes, WalRecord.size]

theorem WalRecord.size_pos (r : WalRecord) : walHeaderSize ≤ r.size := Nat.le_add_right _ _

@[simp] theorem logBytes_nil : logBytes [] = [] := rfl

@[simp] theorem logBytes_cons (r : WalRecord) (rs : List WalRecord) :
    logBytes (r :: rs) = r.bytes ++ logBytes rs := rfl

@[simp] theorem logBytes_append (rs rs' : List WalRecord) :
    logBytes (rs ++ rs') = logBytes rs ++ logBytes rs' := by
  simp [logBytes]

@[simp] theorem length_offsets (pos : Nat) (rs : List WalRecord) :
    (offsets pos rs).length = rs.length := by
  induction rs generalizing pos with
  | nil => rfl
  | cons r rs ih => rw [offsets, List.length_cons, ih, List.length_cons]

theorem offsets_append (pos : Nat) (rs rs' : List WalRecord) :
    offsets pos (rs ++ rs') = offsets pos rs ++ offsets (pos + (logBytes rs).length) rs' := by
  induction rs generalizing pos with
  | nil => rfl
  | cons r rs ih =>
    rw [List.cons_append, offsets, ih, offsets, logBytes_cons, List.length_append,
      WalRecord.length_bytes, Nat.add_assoc, List.cons_append]

/-! ## What the scans read -/

section Read

variable (data : Mem) (pos : Nat)

def lsnAt : UInt64 := UInt64.ofNat (ofLE (readAt data pos 8))

def txIdAt : UInt32 := UInt32.ofNat (ofLE (readAt data (pos + 16) 4))

def typeAt : Nat := ofLE (readAt data (pos + 20) 4)

def dataLengthAt : Nat := ofLE (readAt data (pos + 24) 2)

def pageIdAt : Nat := ofLE (readAt data (pos + walHeaderSize) 4)

def offsetAt : Nat := ofLE (readAt data (pos + walHeaderSize + 4) 2)

def lengthAt : Nat := ofLE (readAt data (pos + walHeaderSize + 6) 2)

def oldDataAt : List UInt8 := readAt data (pos + walHeaderSize + 8) (lengthAt data pos)

def newDataAt : List UInt8 :=
  readAt data (pos + walHeaderSize + 8 + lengthAt data pos) (lengthAt data pos)

end Read

/-- The file as the scans find it in memory; what lies behind it is `slack`. -/
def mapped (slack : Mem) (file : List UInt8) : Mem := writeAt slack 0 file

/-- The fields of a record are read at a position. -/
structure ReadsAs (data : Mem) (pos : Nat) (r : WalRecord) : Prop where
  lsn : lsnAt data pos = r.lsn
  txId : txIdAt data pos = r.txId
  type : typeAt data pos = r.body.type.code
  dataLength : dataLengthAt data pos = r.body.payload.length
  update : ∀ u, r.body = .update u → pageIdAt data pos = u.pageId ∧ offsetAt data pos = u.offset ∧
    lengthAt data pos = u.new.length ∧ oldDataAt data pos = u.old ∧ newDataAt data pos = u.new

/-- Bytes of the file are read where they stand. -/
theorem readAt_mapped {slack : Mem} {file : List UInt8} (pre mid post : List UInt8) {pos n : Nat}
    (hfile : file = pre ++ (mid ++ post)) (hpos : pos = pre.length) (hn : n = mid.length) :
    readAt (mapped slack file) pos n = mid := by
  subst hpos hn
  refine List.ext_getElem (length_readAt _ _ _) fun i _ hi => ?_
  have hlen : pre.length + i < file.length := by
    rw [hfile, List.length_append, List.length_append]
    omega
  have hread : mapped slack file (pre.length + i) = file[pre.length + i] := by
    have hinside : writeAt slack 0 file (0 + (pre.length + i)) = file[pre.length + i] :=
      writeAt_inside hlen
    rwa [Nat.zero_add] at hinside
  rw [getElem_readAt, hread]
  simp [hfile, hi]

section Reads

variable {slack : Mem} {file pre post : List UInt8} {r : WalRecord}
  (hfile : file = pre ++ (r.bytes ++ post))

include hfile

/-- A part of a record is read where it stands. -/
theorem part_mapped (before mid after : List UInt8) {pos n : Nat}
    (hbytes : r.bytes = before ++ (mid ++ after)) (hpos : pos = pre.length + before.length)
    (hn : n = mid.length) : readAt (mapped slack file) pos n = mid := by
  refine readAt_mapped (pre ++ before) mid (after ++ post) ?_ ?_ hn
  · rw [hfile, hbytes]
    simp only [List.append_assoc]
  · rw [hpos, List.length_append]

/-- The same for a part of the payload. -/
theorem payload_mapped (before mid after : List UInt8) {pos n : Nat}
    (hpayload : r.body.payload = before ++ (mid ++ after))
    (hpos : pos = pre.length + walHeaderSize + before.length) (hn : n = mid.length) :
    readAt (mapped slack file) pos n = mid := by
  refine part_mapped hfile
    (headerBytes r.lsn r.prevLsn r.txId r.body.type r.body.payload.length ++ before) mid after
    ?_ ?_ hn
  · rw [WalRecord.bytes, List.append_assoc, ← hpayload]
  · rw [hpos, List.length_append, length_headerBytes, Nat.add_assoc]

theorem reads_update {u : WalUpdate} (hu : r.body = .update u) :
    pageIdAt (mapped slack file) pre.length = u.pageId ∧
      offsetAt (mapped slack file) pre.length = u.offset ∧
      lengthAt (mapped slack file) pre.length = u.new.length ∧
      oldDataAt (mapped slack file) pre.length = u.old ∧
      newDataAt (mapped slack file) pre.length = u.new := by
  have hpayload : r.body.payload = toLE 4 u.pageId ++ toLE 2 u.offset ++ toLE 2 u.new.length ++
      u.old ++ u.new := by rw [hu]; rfl
  have hpage := u.inPage
  have hpos := u.length_pos
  rw [dbPageSize] at hpage
  have hlength : lengthAt (mapped slack file) pre.length = u.new.length := by
    rw [lengthAt, payload_mapped hfile (toLE 4 u.pageId ++ toLE 2 u.offset)
      (toLE 2 u.new.length) (u.old ++ u.new)
      (by rw [hpayload]; simp only [List.append_assoc]) (by simp [Nat.add_assoc]) (by simp)]
    exact ofLE_toLE_of_lt (by omega)
  refine ⟨?_, ?_, hlength, ?_, ?_⟩
  · rw [pageIdAt, payload_mapped hfile [] (toLE 4 u.pageId)
      (toLE 2 u.offset ++ toLE 2 u.new.length ++ u.old ++ u.new)
      (by rw [hpayload]; simp only [List.append_assoc, List.nil_append]) (by simp) (by simp)]
    exact ofLE_toLE_of_lt u.pageId_lt
  · rw [offsetAt, payload_mapped hfile (toLE 4 u.pageId) (toLE 2 u.offset)
      (toLE 2 u.new.length ++ u.old ++ u.new)
      (by rw [hpayload]; simp only [List.append_assoc]) (by simp) (by simp)]
    exact ofLE_toLE_of_lt (by omega)
  · rw [oldDataAt, hlength, payload_mapped hfile
      (toLE 4 u.pageId ++ toLE 2 u.offset ++ toLE 2 u.new.length) u.old
      u.new (by rw [hpayload]; simp only [List.append_assoc]) (by simp [Nat.add_assoc])
      u.length_eq.symm]
  · rw [newDataAt, hlength, payload_mapped hfile
      (toLE 4 u.pageId ++ toLE 2 u.offset ++ toLE 2 u.new.length ++ u.old)
      u.new []
      (by rw [hpayload]; simp only [List.append_assoc, List.append_nil])
      (by simp only [List.length_append, length_toLE, u.length_eq]; omega) rfl]

/-- **What was written is read.** -/
theorem reads_mapped : ReadsAs (mapped slack file) pre.length r := by
  have hbytes : r.bytes = toLE 8 r.lsn.toNat ++ toLE 8 r.prevLsn.toNat ++ toLE 4 r.txId.toNat ++
      toLE 4 r.body.type.code ++ toLE 2 r.body.payload.length ++ toLE 2 0 ++
      List.replicate 4 0 ++ r.body.payload := rfl
  refine ⟨?_, ?_, ?_, ?_, fun u hu => reads_update hfile hu⟩
  · rw [lsnAt, part_mapped hfile [] (toLE 8 r.lsn.toNat) _
      (by rw [hbytes]; simp only [List.append_assoc, List.nil_append]; rfl) (by simp) (by simp)]
    rw [ofLE_toLE_of_lt r.lsn.toNat_lt, UInt64.ofNat_toNat]
  · rw [txIdAt, part_mapped hfile (toLE 8 r.lsn.toNat ++ toLE 8 r.prevLsn.toNat)
      (toLE 4 r.txId.toNat) _
      (by rw [hbytes]; simp only [List.append_assoc]; rfl) (by simp) (by simp)]
    rw [ofLE_toLE_of_lt r.txId.toNat_lt, UInt32.ofNat_toNat]
  · rw [typeAt, part_mapped hfile
      (toLE 8 r.lsn.toNat ++ toLE 8 r.prevLsn.toNat ++ toLE 4 r.txId.toNat)
      (toLE 4 r.body.type.code) _
      (by rw [hbytes]; simp only [List.append_assoc]; rfl) (by simp) (by simp)]
    exact ofLE_toLE_of_lt r.body.type.code_lt
  · rw [dataLengthAt, part_mapped hfile
      (toLE 8 r.lsn.toNat ++ toLE 8 r.prevLsn.toNat ++ toLE 4 r.txId.toNat ++
        toLE 4 r.body.type.code)
      (toLE 2 r.body.payload.length) _
      (by rw [hbytes]; simp only [List.append_assoc]; rfl) (by simp) (by simp)]
    exact ofLE_toLE_of_lt r.body.length_payload_lt

end Reads

/-! ## The scan -/

/-- The positions the loop `while (pos + 32 <= size) { …; pos += 32 + data_length; }`
comes to.  Each round moves on by at least 32 bytes, so `size` rounds are enough. -/
def scanFrom (data : Mem) (size : Nat) : Nat → Nat → List Nat
  | 0, _ => []
  | fuel + 1, pos =>
    if pos + walHeaderSize ≤ size then
      pos :: scanFrom data size fuel (pos + walHeaderSize + dataLengthAt data pos)
    else []

def scan (data : Mem) (size pos : Nat) : List Nat := scanFrom data size size pos

theorem scanFrom_fuel (data : Mem) (size : Nat) {fuel : Nat} (fuel' : Nat) {pos : Nat} (h : size ≤ fuel + pos)
    (h' : size ≤ fuel' + pos) : scanFrom data size fuel pos = scanFrom data size fuel' pos := by
  induction fuel generalizing fuel' pos with
  | zero =>
    cases fuel' with
    | zero => rfl
    | succ fuel' => rw [scanFrom, scanFrom, if_neg (by rw [walHeaderSize]; omega)]
  | succ fuel ih =>
    cases fuel' with
    | zero => rw [scanFrom, scanFrom, if_neg (by rw [walHeaderSize]; omega)]
    | succ fuel' =>
      rw [scanFrom, scanFrom, ih fuel' (by rw [walHeaderSize]; omega)
        (by rw [walHeaderSize]; omega)]

/-- One round of the loop. -/
theorem scan_eq (data : Mem) (size pos : Nat) : scan data size pos =
    if pos + walHeaderSize ≤ size then
      pos :: scan data size (pos + walHeaderSize + dataLengthAt data pos)
    else [] := by
  cases size with
  | zero => rw [scan, scanFrom, if_neg (by rw [walHeaderSize]; omega)]
  | succ size =>
    rw [scan, scanFrom, scan]
    congr 2
    exact scanFrom_fuel data (size + 1) _ (by rw [walHeaderSize]; omega) (by omega)

theorem scan_of_le {data : Mem} {size pos : Nat} (h : size < pos + walHeaderSize) :
    scan data size pos = [] := by
  rw [scan_eq, if_neg (by omega)]

/-- The loop only moves forward. -/
theorem le_of_mem_scan {data : Mem} {size pos p : Nat} (h : p ∈ scan data size pos) : pos ≤ p := by
  suffices haux : ∀ fuel pos, p ∈ scanFrom data size fuel pos → pos ≤ p from haux size pos h
  intro fuel
  induction fuel with
  | zero => intro pos h; cases h
  | succ fuel ih =>
    intro pos h
    rw [scanFrom] at h
    split at h
    · rcases List.mem_cons.mp h with rfl | h
      · exact Nat.le_refl p
      · have := ih _ h
        omega
    · cases h

/-- **The scan comes to every whole record and goes on behind the last.** -/
theorem scan_records (slack : Mem) {file pre post : List UInt8} {rs : List WalRecord}
    (hfile : file = pre ++ (logBytes rs ++ post)) :
    scan (mapped slack file) file.length pre.length = offsets pre.length rs ++
        scan (mapped slack file) file.length (pre.length + (logBytes rs).length) ∧
      List.Forall₂ (ReadsAs (mapped slack file)) (offsets pre.length rs) rs := by
  induction rs generalizing pre with
  | nil => exact ⟨rfl, .nil⟩
  | cons r rs ih =>
    have hfile' : file = pre ++ (r.bytes ++ (logBytes rs ++ post)) := by
      rw [hfile, logBytes_cons, List.append_assoc]
    have hread : ReadsAs (mapped slack file) pre.length r := reads_mapped hfile'
    have hnext := @ih (pre ++ r.bytes) (by rw [hfile', List.append_assoc])
    rw [List.length_append, WalRecord.length_bytes] at hnext
    have hroom : pre.length + walHeaderSize ≤ file.length := by
      have := r.size_pos
      rw [hfile', List.length_append, List.length_append, WalRecord.length_bytes]
      omega
    have hstep : pre.length + walHeaderSize + dataLengthAt (mapped slack file) pre.length =
        pre.length + r.size := by rw [hread.dataLength, WalRecord.size, Nat.add_assoc]
    refine ⟨?_, ?_⟩
    · rw [scan_eq, if_pos hroom, hstep, hnext.1, offsets, logBytes_cons, List.length_append,
        WalRecord.length_bytes, Nat.add_assoc, List.cons_append]
    · rw [offsets]
      exact .cons hread hnext.2

/-- A file of whole records is scanned to its end. -/
theorem scan_logBytes (slack : Mem) (pre : List WalRecord) (rs : List WalRecord) :
    scan (mapped slack (logBytes (pre ++ rs))) (logBytes (pre ++ rs)).length (logBytes pre).length =
        offsets (logBytes pre).length rs ∧
      List.Forall₂ (ReadsAs (mapped slack (logBytes (pre ++ rs))))
        (offsets (logBytes pre).length rs) rs := by
  have hfile : logBytes (pre ++ rs) = logBytes pre ++ (logBytes rs ++ []) := by
    rw [logBytes_append, List.append_nil]
  have h := scan_records slack hfile
  refine ⟨?_, h.2⟩
  rw [h.1, scan_of_le, List.append_nil]
  rw [logBytes_append, List.length_append, walHeaderSize]
  omega

end OnionRelay.Db
