-- SUMMARY: The graph file: the writer that patches its header at the end, and the two loaders.
import ForgeANN.Storage.BufReader
import Mathlib.Data.List.Induction

/-!
# The graph file

A header of 24 bytes, and then the rows: the degree of each, and its neighbors.
The header is written twice, at first with the size of an empty graph, so that
a file that was not finished says that it has no rows.
-/
namespace ForgeANN

open Lib

/-! ## Numbers and rows as bytes -/

def leU32 (v : UInt32) : Bytes := toLe 4 v.toNat

def leU64 (v : UInt64) : Bytes := toLe 8 v.toNat

/-- `u32::from_le_bytes`. -/
def u32OfLe (bytes : Bytes) : UInt32 := UInt32.ofNat (ofLe bytes)

/-- `u64::from_le_bytes`. -/
def u64OfLe (bytes : Bytes) : UInt64 := UInt64.ofNat (ofLe bytes)

def readU32 (r : BufReader) : AnnResult (UInt32 × BufReader) := do
  let (bytes, r) ← r.readExact 4
  .ok (u32OfLe bytes, r)

def readU64 (r : BufReader) : AnnResult (UInt64 × BufReader) := do
  let (bytes, r) ← r.readExact 8
  .ok (u64OfLe bytes, r)

/-- `neighbors.len() as u32`. -/
def degreeOf (neighbors : List UInt32) : UInt32 := UInt32.ofNat neighbors.length

/-- A row of the file. -/
def encodeRow (neighbors : List UInt32) : Bytes :=
  leU32 (degreeOf neighbors) ++ neighbors.flatMap leU32

def encodeRows (rows : List (List UInt32)) : Bytes := rows.flatMap encodeRow

/-! ## The writer -/

structure DirectMemGraphWriter where
  written : Bytes
  indexSize : UInt64
  maxDegree : UInt32
  start : UInt32
  numFrozenPts : UInt64
deriving DecidableEq, Repr

/-- The header. -/
def memGraphHeader (indexSize : UInt64) (maxDegree start : UInt32) (numFrozenPts : UInt64) :
    Bytes :=
  leU64 indexSize ++ leU32 maxDegree ++ leU32 start ++ leU64 numFrozenPts

namespace DirectMemGraphWriter

def create (start : UInt32) (numFrozenPts : UInt64) : DirectMemGraphWriter :=
  ⟨memGraphHeader 24 0 start numFrozenPts, 24, 0, start, numFrozenPts⟩

def writeNode (writer : DirectMemGraphWriter) (neighbors : List UInt32) : DirectMemGraphWriter where
  written := writer.written ++ encodeRow neighbors
  indexSize := writer.indexSize + UInt64.ofNat ((neighbors.length + 1) * 4)
  maxDegree := max writer.maxDegree (degreeOf neighbors)
  start := writer.start
  numFrozenPts := writer.numFrozenPts

/-- `seek(0)`, and the header again. -/
def finish (writer : DirectMemGraphWriter) : Bytes :=
  writer.written.writeAt 0
    (memGraphHeader writer.indexSize writer.maxDegree writer.start writer.numFrozenPts)

def writeNodes (writer : DirectMemGraphWriter) (rows : List (List UInt32)) :
    DirectMemGraphWriter :=
  rows.foldl writeNode writer

end DirectMemGraphWriter

/-- The file of a graph. -/
def memGraphFile (rows : List (List UInt32)) (start : UInt32) (numFrozenPts : UInt64) : Bytes :=
  ((DirectMemGraphWriter.create start numFrozenPts).writeNodes rows).finish

/-! ## The loader -/

structure LoadedMemGraph where
  indexSize : UInt64
  maxDegree : UInt32
  start : UInt32
  numFrozenPts : UInt64
  neighbors : List (List UInt32)
deriving DecidableEq, Repr

/-- The rows of the payload, of which `bytesRead` bytes are behind and `left` more rows can come. -/
def readRows (expectedNumPoints payloadBytes : Nat) :
    Nat → Nat → BufReader → AnnResult (List (List UInt32))
  | 0, bytesRead, _ =>
      if bytesRead < payloadBytes then
        .error (.index s!"graph has more than {expectedNumPoints} nodes")
      else .ok []
  | left + 1, bytesRead, r =>
      if bytesRead < payloadBytes then do
        let (degree, r) ← readU32 r
        let bytesRead := bytesRead + 4
        if payloadBytes < bytesRead + degree.toNat * 4 then
          .error (.index "graph record exceeds payload size")
        else
          let (row, r) ← BufReader.readMany 4 u32OfLe r degree.toNat
          let rows ← readRows expectedNumPoints payloadBytes left (bytesRead + degree.toNat * 4) r
          .ok (row :: rows)
      else .ok []

def loadMemGraph (file : Bytes) (expectedNumPoints : Nat) : AnnResult LoadedMemGraph := do
  let (indexSize, r) ← readU64 ⟨file, 0⟩
  let (maxDegree, r) ← readU32 r
  let (start, r) ← readU32 r
  let (numFrozenPts, r) ← readU64 r
  if indexSize < 24 then .error (.index "invalid _mem.index header")
  else
    let payloadBytes := indexSize.toNat - 24
    if payloadBytes % 4 ≠ 0 then
      .error (.index s!"graph payload size {payloadBytes} is not u32-aligned")
    else
      let neighbors ← readRows expectedNumPoints payloadBytes expectedNumPoints 0 r
      if neighbors.length ≠ expectedNumPoints then
        .error (.index s!"graph has {neighbors.length} nodes, expected {expectedNumPoints}")
      else .ok ⟨indexSize, maxDegree, start, numFrozenPts, neighbors⟩

/-- `for _ in 0..expected_num_points` of the search driver. -/
def readGraph : Nat → BufReader → AnnResult (List (List UInt32))
  | 0, _ => .ok []
  | n + 1, r => do
      let (degree, r) ← readU32 r
      let (row, r) ← BufReader.readMany 4 u32OfLe r degree.toNat
      let rows ← readGraph n r
      .ok (row :: rows)

/-- `load_graph` of the search driver: the size and the rest of the header are not looked at. -/
def loadGraph (file : Bytes) (expectedNumPoints : Nat) :
    AnnResult (UInt32 × List (List UInt32)) := do
  let (_, r) ← readU64 ⟨file, 0⟩
  let (_, r) ← readU32 r
  let (start, r) ← readU32 r
  let (_, r) ← readU64 r
  let graph ← readGraph expectedNumPoints r
  .ok (start, graph)

/-! ## Rows read back -/

section

variable {v : UInt32} {row : List UInt32} {rows : List (List UInt32)} {r next : BufReader}
  {bytes tail : Bytes} {expectedNumPoints payloadBytes left bytesRead n : Nat}

@[simp] theorem leU32_length (v : UInt32) : (leU32 v).length = 4 := toLe_length 4 _

@[simp] theorem leU64_length (v : UInt64) : (leU64 v).length = 8 := toLe_length 8 _

theorem u32OfLe_leU32 (v : UInt32) : u32OfLe (leU32 v) = v := by
  have hlt : v.toNat < 256 ^ 4 := v.toNat_lt
  rw [u32OfLe, leU32, ofLe_toLe, Nat.mod_eq_of_lt hlt, UInt32.ofNat_toNat]

theorem u64OfLe_leU64 (v : UInt64) : u64OfLe (leU64 v) = v := by
  have hlt : v.toNat < 256 ^ 8 := v.toNat_lt
  rw [u64OfLe, leU64, ofLe_toLe, Nat.mod_eq_of_lt hlt, UInt64.ofNat_toNat]

theorem leU32_u32OfLe (h : bytes.length = 4) : leU32 (u32OfLe bytes) = bytes := by
  have hlt : ofLe bytes < 2 ^ 32 := by
    have hlt := ofLe_lt bytes
    rw [h] at hlt
    exact hlt
  have hbytes := toLe_ofLe bytes
  rw [leU32, u32OfLe, UInt32.toNat_ofNat_of_lt' hlt]
  rwa [h] at hbytes

theorem leU64_u64OfLe (h : bytes.length = 8) : leU64 (u64OfLe bytes) = bytes := by
  have hlt : ofLe bytes < 2 ^ 64 := by
    have hlt := ofLe_lt bytes
    rw [h] at hlt
    exact hlt
  have hbytes := toLe_ofLe bytes
  rw [leU64, u64OfLe, UInt64.toNat_ofNat_of_lt' hlt]
  rwa [h] at hbytes

theorem degreeOf_toNat (h : row.length < 2 ^ 32) : (degreeOf row).toNat = row.length :=
  UInt32.toNat_ofNat_of_lt' h

theorem flatMap_leU32_length (row : List UInt32) : (row.flatMap leU32).length = row.length * 4 := by
  rw [List.length_flatMap, List.map_congr_left fun v _ => leU32_length v, List.map_const',
    List.sum_replicate_nat]

theorem encodeRow_length (row : List UInt32) : (encodeRow row).length = (row.length + 1) * 4 := by
  rw [encodeRow, List.length_append, leU32_length, flatMap_leU32_length]
  omega

theorem encodeRows_cons (row : List UInt32) (rows : List (List UInt32)) :
    encodeRows (row :: rows) = encodeRow row ++ encodeRows rows := List.flatMap_cons

theorem encodeRows_length (rows : List (List UInt32)) :
    (encodeRows rows).length = (rows.map fun row => row.length + 1).sum * 4 := by
  induction rows with
  | nil => rfl
  | cons row rows ih =>
      rw [encodeRows_cons, List.length_append, encodeRow_length, ih, List.map_cons, List.sum_cons,
        ← Nat.add_mul]

theorem readU32_of_rest (h : r.rest = leU32 v ++ tail) :
    readU32 r = .ok (v, r.advance 4) ∧ (r.advance 4).rest = tail := by
  have hne : leU32 v ≠ [] := List.ne_nil_of_length_pos (by rw [leU32_length]; exact Nat.succ_pos 3)
  have hread := BufReader.readExact_append h hne
  have hrest := BufReader.rest_advance h
  rw [leU32_length] at hread hrest
  refine ⟨?_, hrest⟩
  rw [readU32, hread]
  exact congrArg (fun v => Except.ok (v, r.advance 4)) (u32OfLe_leU32 v)

theorem readU64_of_rest {v : UInt64} (h : r.rest = leU64 v ++ tail) :
    readU64 r = .ok (v, r.advance 8) ∧ (r.advance 8).rest = tail := by
  have hne : leU64 v ≠ [] := List.ne_nil_of_length_pos (by rw [leU64_length]; exact Nat.succ_pos 7)
  have hread := BufReader.readExact_append h hne
  have hrest := BufReader.rest_advance h
  rw [leU64_length] at hread hrest
  refine ⟨?_, hrest⟩
  rw [readU64, hread]
  exact congrArg (fun v => Except.ok (v, r.advance 8)) (u64OfLe_leU64 v)

theorem rest_of_readU32 (h : readU32 r = .ok (v, next)) : r.rest = leU32 v ++ next.rest := by
  rw [readU32] at h
  cases hread : r.readExact 4 with
  | error err => rw [hread] at h; cases h
  | ok read =>
      obtain ⟨bytes, mid⟩ := read
      rw [hread] at h
      obtain ⟨rfl, rfl⟩ := Prod.mk.inj (Except.ok.inj h)
      obtain ⟨hrest, hlen⟩ := BufReader.rest_of_readExact hread
      rw [leU32_u32OfLe hlen, hrest]

theorem rest_of_readU64 {v : UInt64} (h : readU64 r = .ok (v, next)) :
    r.rest = leU64 v ++ next.rest := by
  rw [readU64] at h
  cases hread : r.readExact 8 with
  | error err => rw [hread] at h; cases h
  | ok read =>
      obtain ⟨bytes, mid⟩ := read
      rw [hread] at h
      obtain ⟨rfl, rfl⟩ := Prod.mk.inj (Except.ok.inj h)
      obtain ⟨hrest, hlen⟩ := BufReader.rest_of_readExact hread
      rw [leU64_u64OfLe hlen, hrest]

/-- The neighbors of a row read back. -/
theorem readMany_of_rest (h : r.rest = row.flatMap leU32 ++ tail) :
    BufReader.readMany 4 u32OfLe r row.length = .ok (row, r.advance (4 * row.length)) ∧
      (r.advance (4 * row.length)).rest = tail := by
  refine ⟨BufReader.readMany_encode u32OfLe leU32_length (Nat.succ_pos 3) u32OfLe_leU32 h, ?_⟩
  have hrest := BufReader.rest_advance h
  rwa [flatMap_leU32_length, Nat.mul_comm] at hrest

/-- Rows that fit the payload read back as they were written. -/
theorem readRows_of_rest (hrest : r.rest = encodeRows rows ++ tail)
    (hdegree : ∀ row ∈ rows, row.length < 2 ^ 32) (hleft : rows.length ≤ left)
    (hpayload : bytesRead + (encodeRows rows).length = payloadBytes) :
    readRows expectedNumPoints payloadBytes left bytesRead r = .ok rows := by
  induction rows generalizing r left bytesRead with
  | nil =>
      have hdone : ¬ bytesRead < payloadBytes := by
        rw [← hpayload]
        exact Nat.lt_irrefl _
      cases left with
      | zero => rw [readRows, if_neg hdone]
      | succ left => rw [readRows, if_neg hdone]
  | cons row rows ih =>
      cases left with
      | zero => exact absurd hleft (Nat.not_succ_le_zero _)
      | succ left =>
          rw [encodeRows_cons] at hpayload hrest
          rw [encodeRow, List.append_assoc, List.append_assoc] at hrest
          rw [List.length_append, encodeRow_length] at hpayload
          have hrow := degreeOf_toNat (hdegree row List.mem_cons_self)
          obtain ⟨hdeg, hrest⟩ := readU32_of_rest hrest
          obtain ⟨hmany, hrest⟩ := readMany_of_rest hrest
          have hnext : ∀ read, read + (encodeRows rows).length = payloadBytes →
              readRows expectedNumPoints payloadBytes left read
                ((r.advance 4).advance (4 * row.length)) = .ok rows := fun read =>
            ih hrest (fun other h => hdegree other (.tail _ h)) (Nat.le_of_succ_le_succ hleft)
          rw [readRows, if_pos (by omega), hdeg]
          simp only [bind, Except.bind, hrow]
          rw [if_neg (by omega), hmany]
          simp only
          rw [hnext _ (by omega)]

/-- Rows that were read encode to what was read. -/
theorem rest_of_readRows (h : readRows expectedNumPoints payloadBytes left bytesRead r = .ok rows)
    (hle : bytesRead ≤ payloadBytes) :
    (∃ tail, r.rest = encodeRows rows ++ tail) ∧ (∀ row ∈ rows, row.length < 2 ^ 32) ∧
      bytesRead + (encodeRows rows).length = payloadBytes := by
  induction left generalizing r bytesRead rows with
  | zero =>
      rw [readRows] at h
      split_ifs at h with hmore
      obtain rfl := Except.ok.inj h
      exact ⟨⟨r.rest, rfl⟩, fun _ h => absurd h List.not_mem_nil, Nat.le_antisymm hle (Nat.le_of_not_lt hmore)⟩
  | succ left ih =>
      rw [readRows] at h
      split_ifs at h with hmore
      · cases hdeg : readU32 r with
        | error err => rw [hdeg] at h; cases h
        | ok read =>
            obtain ⟨degree, mid⟩ := read
            rw [hdeg] at h
            simp only [bind, Except.bind] at h
            split_ifs at h with hexceeds
            cases hmany : BufReader.readMany 4 u32OfLe mid degree.toNat with
            | error err => rw [hmany] at h; cases h
            | ok many =>
                obtain ⟨row, last⟩ := many
                rw [hmany] at h
                simp only at h
                cases hnext : readRows expectedNumPoints payloadBytes left
                    (bytesRead + 4 + degree.toNat * 4) last with
                | error err => rw [hnext] at h; cases h
                | ok more =>
                    rw [hnext] at h
                    obtain rfl := Except.ok.inj h
                    obtain ⟨hrest, hlen⟩ := BufReader.rest_of_readMany (fun _ => leU32_u32OfLe) hmany
                    obtain ⟨⟨tail, htail⟩, hdegree, hpayload⟩ := ih hnext (Nat.le_of_not_lt hexceeds)
                    have hrow : row.length < 2 ^ 32 := by
                      rw [hlen]
                      exact degree.toNat_lt
                    have hencode : encodeRow row = leU32 degree ++ row.flatMap leU32 := by
                      rw [encodeRow, degreeOf, hlen, UInt32.ofNat_toNat]
                    refine ⟨⟨tail, ?_⟩, ?_, ?_⟩
                    · rw [rest_of_readU32 hdeg, hrest, htail, encodeRows_cons, hencode,
                        List.append_assoc, List.append_assoc]
                    · exact List.forall_mem_cons.mpr ⟨hrow, hdegree⟩
                    · rw [encodeRows_cons, List.length_append, encodeRow_length, hlen]
                      omega
      · obtain rfl := Except.ok.inj h
        exact ⟨⟨r.rest, rfl⟩, fun _ h => absurd h List.not_mem_nil,
          Nat.le_antisymm hle (Nat.le_of_not_lt hmore)⟩

/-- The search driver reads the rows back. -/
theorem readGraph_of_rest (hrest : r.rest = encodeRows rows ++ tail)
    (hdegree : ∀ row ∈ rows, row.length < 2 ^ 32) : readGraph rows.length r = .ok rows := by
  induction rows generalizing r with
  | nil => rfl
  | cons row rows ih =>
      rw [encodeRows_cons, encodeRow, List.append_assoc, List.append_assoc] at hrest
      have hrow := degreeOf_toNat (hdegree row List.mem_cons_self)
      obtain ⟨hdeg, hrest⟩ := readU32_of_rest hrest
      obtain ⟨hmany, hrest⟩ := readMany_of_rest hrest
      rw [List.length_cons, readGraph, hdeg]
      simp only [bind, Except.bind, hrow]
      rw [hmany]
      simp only
      rw [ih hrest fun other h => hdegree other (.tail _ h)]

/-- A degree that was read is a `u32`. -/
theorem length_of_readGraph (h : readGraph n r = .ok rows) : ∀ row ∈ rows, row.length < 2 ^ 32 := by
  induction n generalizing r rows with
  | zero =>
      obtain rfl := Except.ok.inj h
      exact fun _ h => absurd h List.not_mem_nil
  | succ n ih =>
      rw [readGraph] at h
      cases hdeg : readU32 r with
      | error err => rw [hdeg] at h; cases h
      | ok read =>
          obtain ⟨degree, mid⟩ := read
          rw [hdeg] at h
          simp only [bind, Except.bind] at h
          cases hmany : BufReader.readMany 4 u32OfLe mid degree.toNat with
          | error err => rw [hmany] at h; cases h
          | ok many =>
              obtain ⟨row, last⟩ := many
              rw [hmany] at h
              simp only at h
              cases hnext : readGraph n last with
              | error err => rw [hnext] at h; cases h
              | ok more =>
                  rw [hnext] at h
                  obtain rfl := Except.ok.inj h
                  obtain ⟨-, hlen⟩ := BufReader.rest_of_readMany (fun _ => leU32_u32OfLe) hmany
                  refine List.forall_mem_cons.mpr ⟨?_, ih hnext⟩
                  rw [hlen]
                  exact degree.toNat_lt

/-! ## The file that was written -/

/-- The degree of the row with the most neighbors. -/
def maxDegreeOf (rows : List (List UInt32)) : UInt32 :=
  rows.foldl (fun maxDegree row => max maxDegree (degreeOf row)) 0

/-- The size that the header says, modulo 2^64. -/
def indexSizeOf (rows : List (List UInt32)) : UInt64 :=
  UInt64.ofNat (24 + (encodeRows rows).length)

@[simp] theorem memGraphHeader_length (indexSize : UInt64) (maxDegree start : UInt32)
    (numFrozenPts : UInt64) :
    (memGraphHeader indexSize maxDegree start numFrozenPts).length = 24 := by
  simp [memGraphHeader]

namespace DirectMemGraphWriter

/-- Where the writer stands after some rows. -/
theorem writeNodes_eq (rows : List (List UInt32)) (start : UInt32) (numFrozenPts : UInt64) :
    (create start numFrozenPts).writeNodes rows =
      ⟨memGraphHeader 24 0 start numFrozenPts ++ encodeRows rows, indexSizeOf rows,
        maxDegreeOf rows, start, numFrozenPts⟩ := by
  induction rows using List.reverseRecOn with
  | nil => rw [writeNodes, encodeRows, List.flatMap_nil, List.append_nil]; rfl
  | append_singleton rows row ih =>
      have hsize : indexSizeOf (rows ++ [row]) =
          indexSizeOf rows + UInt64.ofNat ((row.length + 1) * 4) := by
        rw [indexSizeOf, indexSizeOf, encodeRows, List.flatMap_append, List.flatMap_singleton,
          List.length_append, encodeRow_length, ← Nat.add_assoc, UInt64.ofNat_add]
        rfl
      rw [writeNodes] at ih ⊢
      rw [List.foldl_append, ih, List.foldl_cons, List.foldl_nil, writeNode, hsize, encodeRows,
        encodeRows, List.flatMap_append, List.flatMap_singleton, maxDegreeOf, maxDegreeOf,
        List.foldl_append, List.append_assoc]
      rfl

end DirectMemGraphWriter

/-- The finished file: the header, and the rows. -/
theorem memGraphFile_eq (rows : List (List UInt32)) (start : UInt32) (numFrozenPts : UInt64) :
    memGraphFile rows start numFrozenPts =
      memGraphHeader (indexSizeOf rows) (maxDegreeOf rows) start numFrozenPts ++
        encodeRows rows := by
  rw [memGraphFile, DirectMemGraphWriter.writeNodes_eq, DirectMemGraphWriter.finish]
  exact Bytes.writeAt_zero_append _ _ _
    (by rw [memGraphHeader_length, memGraphHeader_length])
    (List.ne_nil_of_length_pos (by rw [memGraphHeader_length]; exact Nat.succ_pos 23))

/-! ## Loading -/

/-- The reader behind the header, and what the header said. -/
theorem readHeader_of_append (indexSize : UInt64) (maxDegree start : UInt32)
    (numFrozenPts : UInt64) (payload : Bytes) :
    ∃ r₁ r₂ r₃ r₄ : BufReader,
      readU64 ⟨memGraphHeader indexSize maxDegree start numFrozenPts ++ payload, 0⟩ =
          .ok (indexSize, r₁) ∧
        readU32 r₁ = .ok (maxDegree, r₂) ∧ readU32 r₂ = .ok (start, r₃) ∧
        readU64 r₃ = .ok (numFrozenPts, r₄) ∧ r₄.rest = payload := by
  have hrest : BufReader.rest
      ⟨memGraphHeader indexSize maxDegree start numFrozenPts ++ payload, 0⟩ =
        leU64 indexSize ++ (leU32 maxDegree ++ (leU32 start ++ (leU64 numFrozenPts ++ payload))) := by
    rw [BufReader.rest, List.drop_zero, memGraphHeader, List.append_assoc, List.append_assoc,
      List.append_assoc]
  obtain ⟨h₁, hrest⟩ := readU64_of_rest hrest
  obtain ⟨h₂, hrest⟩ := readU32_of_rest hrest
  obtain ⟨h₃, hrest⟩ := readU32_of_rest hrest
  obtain ⟨h₄, hrest⟩ := readU64_of_rest hrest
  exact ⟨_, _, _, _, h₁, h₂, h₃, h₄, hrest⟩

/-- What is loaded stands in the file: the header, and behind it the rows. -/
theorem file_of_loadMemGraph {file : Bytes} {graph : LoadedMemGraph}
    (h : loadMemGraph file n = .ok graph) :
    (∃ tail, file = memGraphHeader graph.indexSize graph.maxDegree graph.start graph.numFrozenPts ++
        (encodeRows graph.neighbors ++ tail)) ∧
      graph.indexSize.toNat = 24 + (encodeRows graph.neighbors).length ∧
      (∀ row ∈ graph.neighbors, row.length < 2 ^ 32) ∧ graph.neighbors.length = n := by
  rw [loadMemGraph] at h
  cases h₁ : readU64 ⟨file, 0⟩ with
  | error err => rw [h₁] at h; cases h
  | ok read₁ =>
      obtain ⟨indexSize, r₁⟩ := read₁
      rw [h₁] at h
      simp only [bind, Except.bind] at h
      cases h₂ : readU32 r₁ with
      | error err => rw [h₂] at h; cases h
      | ok read₂ =>
          obtain ⟨maxDegree, r₂⟩ := read₂
          rw [h₂] at h
          simp only at h
          cases h₃ : readU32 r₂ with
          | error err => rw [h₃] at h; cases h
          | ok read₃ =>
              obtain ⟨start, r₃⟩ := read₃
              rw [h₃] at h
              simp only at h
              cases h₄ : readU64 r₃ with
              | error err => rw [h₄] at h; cases h
              | ok read₄ =>
                  obtain ⟨numFrozenPts, r₄⟩ := read₄
                  rw [h₄] at h
                  simp only at h
                  split_ifs at h with hsmall haligned
                  cases hrows : readRows n (indexSize.toNat - 24) n 0 r₄ with
                  | error err => rw [hrows] at h; cases h
                  | ok rows =>
                      rw [hrows] at h
                      simp only at h
                      split_ifs at h with hcount
                      obtain rfl := Except.ok.inj h
                      obtain ⟨⟨tail, htail⟩, hdegree, hpayload⟩ :=
                        rest_of_readRows hrows (Nat.zero_le _)
                      have hlarge : 24 ≤ indexSize.toNat := Nat.le_of_not_lt fun hlt =>
                        hsmall (UInt64.lt_iff_toNat_lt.mpr hlt)
                      refine ⟨⟨tail, ?_⟩, by dsimp only; omega, hdegree, not_not.mp hcount⟩
                      have hfile : file = BufReader.rest ⟨file, 0⟩ := List.drop_zero.symm
                      dsimp only
                      rw [hfile, rest_of_readU64 h₁, rest_of_readU32 h₂, rest_of_readU32 h₃,
                        rest_of_readU64 h₄, htail, memGraphHeader, List.append_assoc,
                        List.append_assoc, List.append_assoc]

/-- What the loader makes of a header and the payload behind it. -/
theorem loadMemGraph_append (indexSize : UInt64) (maxDegree start : UInt32)
    (numFrozenPts : UInt64) (payload : Bytes) (n : Nat) : ∃ r : BufReader, r.rest = payload ∧
      loadMemGraph (memGraphHeader indexSize maxDegree start numFrozenPts ++ payload) n =
        if indexSize < 24 then .error (.index "invalid _mem.index header")
        else if (indexSize.toNat - 24) % 4 ≠ 0 then
          .error (.index s!"graph payload size {indexSize.toNat - 24} is not u32-aligned")
        else (readRows n (indexSize.toNat - 24) n 0 r).bind fun neighbors =>
          if neighbors.length ≠ n then
            .error (.index s!"graph has {neighbors.length} nodes, expected {n}")
          else .ok (LoadedMemGraph.mk indexSize maxDegree start numFrozenPts neighbors) := by
  obtain ⟨r₁, r₂, r₃, r₄, h₁, h₂, h₃, h₄, hrest⟩ :=
    readHeader_of_append indexSize maxDegree start numFrozenPts payload
  refine ⟨r₄, hrest, ?_⟩
  rw [loadMemGraph, h₁]
  simp only [bind, Except.bind, h₂, h₃, h₄]

/-- Rows whose degrees are `u32`s, in a file whose size is a `u64`, are loaded. -/
theorem loadMemGraph_memGraphFile (start : UInt32) (numFrozenPts : UInt64)
    (hdegree : ∀ row ∈ rows, row.length < 2 ^ 32)
    (hsize : 24 + (encodeRows rows).length < 2 ^ 64) :
    loadMemGraph (memGraphFile rows start numFrozenPts) rows.length =
      .ok ⟨indexSizeOf rows, maxDegreeOf rows, start, numFrozenPts, rows⟩ := by
  obtain ⟨r, hrest, hload⟩ := loadMemGraph_append (indexSizeOf rows) (maxDegreeOf rows) start
    numFrozenPts (encodeRows rows) rows.length
  have hindex : (indexSizeOf rows).toNat = 24 + (encodeRows rows).length :=
    UInt64.toNat_ofNat_of_lt' hsize
  have hlarge : ¬ indexSizeOf rows < 24 := by
    intro hlt
    have hlt := UInt64.lt_iff_toNat_lt.mp hlt
    rw [hindex] at hlt
    exact absurd hlt (by change ¬ _ < 24; omega)
  have haligned : (encodeRows rows).length % 4 = 0 := by
    rw [encodeRows_length, Nat.mul_mod_left]
  have hpayload : (indexSizeOf rows).toNat - 24 = (encodeRows rows).length := by
    rw [hindex, Nat.add_sub_cancel_left]
  have hrest : r.rest = encodeRows rows ++ [] := by
    rw [hrest, List.append_nil]
  have hread : readRows rows.length (encodeRows rows).length rows.length 0 r = .ok rows :=
    readRows_of_rest hrest hdegree (Nat.le_refl _) (Nat.zero_add _)
  rw [memGraphFile_eq, hload, if_neg hlarge, hpayload, if_neg (not_not.mpr haligned), hread]
  exact if_neg fun h => h rfl

/-- The search driver loads the same rows. -/
theorem loadGraph_memGraphFile (start : UInt32) (numFrozenPts : UInt64)
    (hdegree : ∀ row ∈ rows, row.length < 2 ^ 32) :
    loadGraph (memGraphFile rows start numFrozenPts) rows.length = .ok (start, rows) := by
  obtain ⟨r₁, r₂, r₃, r₄, h₁, h₂, h₃, h₄, hrest⟩ := readHeader_of_append (indexSizeOf rows)
    (maxDegreeOf rows) start numFrozenPts (encodeRows rows)
  have hrest : r₄.rest = encodeRows rows ++ [] := by
    rw [hrest, List.append_nil]
  rw [memGraphFile_eq, loadGraph, h₁]
  simp only [bind, Except.bind, h₂, h₃, h₄]
  rw [readGraph_of_rest hrest hdegree]

/-- A file that was not finished says that it has no rows. -/
theorem loadMemGraph_unfinished {left : Bytes} {start : UInt32} {numFrozenPts : UInt64}
    (hleft : left <+: ((DirectMemGraphWriter.create start numFrozenPts).writeNodes rows).written)
    (hpos : 0 < n) : ∃ err, loadMemGraph left n = .error err := by
  cases hload : loadMemGraph left n with
  | error err => exact ⟨err, rfl⟩
  | ok graph =>
      exfalso
      obtain ⟨⟨tail, hfile⟩, hindex, -, hcount⟩ := file_of_loadMemGraph hload
      rw [DirectMemGraphWriter.writeNodes_eq, hfile, memGraphHeader, memGraphHeader] at hleft
      obtain ⟨more, hmore⟩ := hleft
      simp only [List.append_assoc] at hmore
      have hsize := (List.append_inj hmore (by simp)).1
      have hvalue : graph.indexSize = 24 := by
        rw [← u64OfLe_leU64 graph.indexSize, hsize, u64OfLe_leU64]
      rw [hvalue] at hindex
      have hnone : (encodeRows graph.neighbors).length = 0 := by
        change 24 = 24 + _ at hindex
        omega
      cases hrows : graph.neighbors with
      | nil =>
          rw [hrows] at hcount
          exact absurd hcount (Nat.ne_of_lt hpos)
      | cons row rows =>
          rw [hrows, encodeRows_cons, List.length_append, encodeRow_length] at hnone
          omega

end

/-! ## What the file is good for -/

/-- Both loaders give the graph back. -/
def GraphRoundTrips (rows : List (List UInt32)) (start : UInt32) (numFrozenPts : UInt64) : Prop :=
  (∃ indexSize maxDegree, loadMemGraph (memGraphFile rows start numFrozenPts) rows.length =
      .ok ⟨indexSize, maxDegree, start, numFrozenPts, rows⟩) ∧
    loadGraph (memGraphFile rows start numFrozenPts) rows.length = .ok (start, rows)

/-- Whatever of the file is there when the writer goes away before `finish`, it is not loaded as a
graph with points. -/
def RefusesUnfinished (rows : List (List UInt32)) (start : UInt32) (numFrozenPts : UInt64) : Prop :=
  ∀ left, left <+: ((DirectMemGraphWriter.create start numFrozenPts).writeNodes rows).written →
    ∀ n, 0 < n → ∃ err, loadMemGraph left n = .error err

/-- The rows section is what the loaded rows encode to. -/
def Reencodes (file : Bytes) (n : Nat) : Prop :=
  ∀ graph, loadMemGraph file n = .ok graph →
    (file.drop 24).take (graph.indexSize.toNat - 24) = encodeRows graph.neighbors

theorem reencodes (file : Bytes) (n : Nat) : Reencodes file n := by
  intro graph hload
  obtain ⟨⟨tail, hfile⟩, hindex, -, -⟩ := file_of_loadMemGraph hload
  have hdrop : file.drop 24 = encodeRows graph.neighbors ++ tail := by
    rw [hfile]
    exact List.drop_left' (memGraphHeader_length ..)
  rw [hdrop, hindex, Nat.add_sub_cancel_left]
  exact List.take_left

/-- Graph files keep their promises for just the graphs whose degrees and whose size fit the
header. -/
theorem graphFile_faithful_iff (rows : List (List UInt32)) (start : UInt32)
    (numFrozenPts : UInt64) :
    (GraphRoundTrips rows start numFrozenPts ∧ RefusesUnfinished rows start numFrozenPts ∧
        ∀ file n, Reencodes file n) ↔
      ((∀ row ∈ rows, row.length < 2 ^ 32) ∧
        24 + (rows.map fun row => row.length + 1).sum * 4 < 2 ^ 64) := by
  constructor
  · rintro ⟨⟨⟨indexSize, maxDegree, hload⟩, -⟩, -⟩
    obtain ⟨-, hindex, hdegree, -⟩ := file_of_loadMemGraph hload
    refine ⟨hdegree, ?_⟩
    rw [← encodeRows_length]
    exact hindex ▸ indexSize.toNat_lt
  · rintro ⟨hdegree, hsize⟩
    rw [← encodeRows_length] at hsize
    exact ⟨⟨⟨_, _, loadMemGraph_memGraphFile start numFrozenPts hdegree hsize⟩,
      loadGraph_memGraphFile start numFrozenPts hdegree⟩,
      fun left hleft n hpos => loadMemGraph_unfinished hleft hpos, reencodes⟩

/-- A row of 2^32 neighbors gets the degree 0. -/
theorem wideRow_not_read_back : ¬ GraphRoundTrips [List.replicate (2 ^ 32) 0] 0 0 := by
  rintro ⟨⟨indexSize, maxDegree, hload⟩, -⟩
  obtain ⟨-, -, hdegree, -⟩ := file_of_loadMemGraph hload
  have hlt := hdegree _ List.mem_cons_self
  rw [List.length_replicate] at hlt
  exact Nat.lt_irrefl _ hlt

end ForgeANN
