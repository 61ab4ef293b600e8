-- SUMMARY: The strict-I/O sketch build: one writer after the other, or several chunk writers at once.
import ForgeANN.Common.Float
import ForgeANN.Lib.Transition
import ForgeANN.Storage.DirectIo
import Mathlib.Data.List.Nodup

/-!
# Building the sketch file

`DiskSketchStore::build_from_point_store` writes a 16-byte header and then one
chunk of sketch rows after the other. With more than one thread the chunks are
written by concurrent tasks, each a read step and a write step.
-/
namespace ForgeANN

open Lib

def HEADER_BYTES : Nat := 16

/-- `size_of::<f32>()`. -/
def F32_BYTES : Nat := 4

/-- The inputs of a strict-I/O sketch build. `sketch` is the row that
`fill_sketch_row_from_slice` computes from a dataset row. -/
structure SketchJob where
  numPoints : Nat
  width : Nat
  chunkRows : Nat
  threads : Nat
  sketch : Nat → List F32
  width_pos : 0 < width
  chunkRows_pos : 0 < chunkRows
  sketch_length : ∀ p, (sketch p).length = width

namespace SketchJob

variable (job : SketchJob)

/-- `DirectIoConfig::enabled_with_alignment(4096)`. -/
def ioCfg : DirectIoConfig := DirectIoConfig.enabledWithAlignment 4096

def rowBytes (p : Nat) : Bytes := (job.sketch p).flatMap fun v => toLe F32_BYTES v.bits.toNat

/-- `(0..num_points).step_by(chunk_rows)`. -/
def chunkStarts : List Nat :=
  (List.range ((job.numPoints + job.chunkRows - 1) / job.chunkRows)).map (· * job.chunkRows)

def chunkLen (chunkStart : Nat) : Nat := min (job.numPoints - chunkStart) job.chunkRows

/-- The bytes of one chunk. The dataset is read from `chunk_start as u32` on. -/
def chunkData (chunkStart : Nat) : Bytes :=
  (List.range (job.chunkLen chunkStart)).flatMap fun k => job.rowBytes (chunkStart % 2 ^ 32 + k)

def byteOffset (chunkStart : Nat) : Nat := HEADER_BYTES + chunkStart * job.width * F32_BYTES

def expectedBytes : Nat := HEADER_BYTES + job.numPoints * job.width * F32_BYTES

/-- The file after `create_write` and the two header writes. -/
def createFile : Bytes :=
  DirectIoFile.writeAllAt ioCfg (DirectIoFile.writeAllAt ioCfg [] (toLe 8 job.numPoints) 0)
    (toLe 8 job.width) 8

/-- The one-thread build. -/
def sequentialBuild : Bytes :=
  (job.chunkStarts.foldl (fun file s =>
    DirectIoFile.writeAllAt ioCfg file (job.chunkData s) (job.byteOffset s)) job.createFile).setLen
    job.expectedBytes

/-! ## Concurrent chunk writers -/

/-- The file, the chunks not taken up yet, and the chunks being written, each
with its scratch buffer. -/
structure State where
  file : Bytes
  todo : List Nat
  running : List (Nat × Bytes)

/-- A task takes up a chunk and reads its blocks, or writes its blocks back. -/
inductive Action where
  | read (chunkStart : Nat)
  | write (chunkStart : Nat)

def initial : State := ⟨job.createFile, job.chunkStarts, []⟩

def step (s : State) : Action → Option State
  | .read c =>
      if c ∈ s.todo ∧ s.running.length < job.threads then
        some { s with
          todo := s.todo.erase c
          running := (c, DirectIoFile.readBlocks ioCfg s.file (job.chunkData c) (job.byteOffset c)) ::
            s.running }
      else none
  | .write c =>
      match s.running.find? (fun t => t.1 == c) with
      | some (_, scratch) =>
          some { s with
            file := DirectIoFile.writeBlocks ioCfg s.file scratch (job.byteOffset c)
            running := s.running.eraseP fun t => t.1 == c }
      | none => none

/-- A file the build can end with. -/
inductive Built : Bytes → Prop
  | sequential (h : job.threads ≤ 1) : Built job.sequentialBuild
  | parallel {as : List Action} {s : State} (h : 1 < job.threads)
      (hr : Run job.step job.initial as s) (hd : s.todo = [] ∧ s.running = []) :
      Built (s.file.setLen job.expectedBytes)

/-- The header followed by the sketches of all points, row by row. -/
def expectedFile : Bytes :=
  toLe 8 job.numPoints ++ toLe 8 job.width ++ (List.range job.numPoints).flatMap job.rowBytes

/-! ## The condition -/

/-- The dataset row a build reads for point `p`. -/
def rowRead (p : Nat) : Nat := p / job.chunkRows * job.chunkRows % 2 ^ 32 + p % job.chunkRows

/-- Byte `b` is in the payload of a chunk. -/
def InPayload (c b : Nat) : Prop :=
  job.byteOffset c ≤ b ∧ b < job.byteOffset c + (job.chunkData c).length

instance (c b : Nat) : Decidable (job.InPayload c b) := inferInstanceAs (Decidable (_ ∧ _))

/-- No chunk has a nonzero byte in a block that another chunk's writer puts back. -/
def BlocksApart : Prop :=
  ∀ c ∈ job.chunkStarts, ∀ d ∈ job.chunkStarts, c ≠ d → ∀ b, job.InPayload c b →
    InBlocks ioCfg (job.byteOffset d) (job.chunkData d).length b →
    (job.chunkData c).at' (b - job.byteOffset c) = 0

/-- The condition for a lossless build: the rows read are those of the points,
and concurrent writers share no block, zero bytes apart. -/
structure Lossless : Prop where
  rows : ∀ p < job.numPoints, job.rowBytes (job.rowRead p) = job.rowBytes p
  blocks : job.threads ≤ 1 ∨ job.BlocksApart

/-! ## The bytes of the file -/

def rowLen : Nat := job.width * F32_BYTES

theorem rowLen_pos : 0 < job.rowLen := Nat.mul_pos job.width_pos (by decide)

@[simp] theorem rowBytes_length (p : Nat) : (job.rowBytes p).length = job.rowLen := by
  simp [rowBytes, List.length_flatMap, job.sketch_length, rowLen]

theorem byteOffset_eq (c : Nat) : job.byteOffset c = 16 + c * job.rowLen := by
  rw [byteOffset, rowLen, HEADER_BYTES, Nat.mul_assoc]

theorem expectedBytes_eq : job.expectedBytes = 16 + job.numPoints * job.rowLen := by
  rw [expectedBytes, rowLen, HEADER_BYTES, Nat.mul_assoc]

theorem mem_chunkStarts {c : Nat} :
    c ∈ job.chunkStarts ↔ ∃ q, c = q * job.chunkRows ∧ c < job.numPoints := by
  have hpos := job.chunkRows_pos
  simp only [chunkStarts, List.mem_map, List.mem_range]
  constructor
  · rintro ⟨q, hq, rfl⟩
    refine ⟨q, rfl, ?_⟩
    have := (Nat.lt_div_iff_mul_lt hpos).mp hq
    omega
  · rintro ⟨q, rfl, hq⟩
    exact ⟨q, (Nat.lt_div_iff_mul_lt hpos).mpr (by omega), rfl⟩

theorem chunkStarts_nodup : job.chunkStarts.Nodup :=
  List.Nodup.map (fun _ _ h => Nat.eq_of_mul_eq_mul_right job.chunkRows_pos h) List.nodup_range

@[simp] theorem chunkData_length (c : Nat) :
    (job.chunkData c).length = job.chunkLen c * job.rowLen :=
  Bytes.length_flatMap_range (fun _ => job.rowBytes_length _) _

/-- The chunk whose payload holds byte `b`. -/
def owner (b : Nat) : Nat := (b - 16) / job.rowLen / job.chunkRows * job.chunkRows

theorem inPayload_iff {c b : Nat} (hc : c ∈ job.chunkStarts) :
    job.InPayload c b ↔ 16 ≤ b ∧ b < job.expectedBytes ∧ job.owner b = c := by
  obtain ⟨q, rfl, hq⟩ := job.mem_chunkStarts.mp hc
  have hL := job.rowLen_pos
  have hR := job.chunkRows_pos
  have hlo : q * job.chunkRows * job.rowLen ≤ b - 16 ↔ q * job.chunkRows ≤ (b - 16) / job.rowLen :=
    (Nat.le_div_iff_mul_le hL).symm
  have hhi : b - 16 < (q * job.chunkRows + job.chunkLen (q * job.chunkRows)) * job.rowLen ↔
      (b - 16) / job.rowLen < q * job.chunkRows + job.chunkLen (q * job.chunkRows) :=
    (Nat.div_lt_iff_lt_mul hL).symm
  have hend : b - 16 < job.numPoints * job.rowLen ↔ (b - 16) / job.rowLen < job.numPoints :=
    (Nat.div_lt_iff_lt_mul hL).symm
  rw [Nat.add_mul] at hhi
  rw [InPayload, byteOffset_eq, expectedBytes_eq, chunkData_length, owner]
  generalize (b - 16) / job.rowLen = p at hlo hhi hend ⊢
  have hown : p / job.chunkRows * job.chunkRows = q * job.chunkRows ↔
      q * job.chunkRows ≤ p ∧ p < q * job.chunkRows + job.chunkRows := by
    rw [Nat.mul_right_cancel_iff hR]
    constructor
    · rintro rfl
      exact ⟨Nat.div_mul_le_self .., Nat.lt_div_mul_add hR⟩
    · rintro ⟨h₁, h₂⟩
      refine Nat.div_eq_of_lt_le h₁ ?_
      rwa [Nat.succ_mul]
  rw [hown]
  unfold chunkLen at hhi ⊢
  omega

theorem owner_mem {b : Nat} (h₁ : 16 ≤ b) (h₂ : b < job.expectedBytes) :
    job.owner b ∈ job.chunkStarts := by
  rw [expectedBytes_eq] at h₂
  have hp : (b - 16) / job.rowLen < job.numPoints :=
    (Nat.div_lt_iff_lt_mul job.rowLen_pos).mpr (by omega)
  exact job.mem_chunkStarts.mpr ⟨_, rfl, (Nat.div_mul_le_self ..).trans_lt hp⟩

def header : Bytes := toLe 8 job.numPoints ++ toLe 8 job.width

/-- The file a build without lost updates writes. -/
def writtenFile : Bytes :=
  job.header ++ (List.range job.numPoints).flatMap fun p => job.rowBytes (job.rowRead p)

/-- The payload of each chunk is its part of the written file. -/
theorem at'_chunkData {c b : Nat} (hc : c ∈ job.chunkStarts) (h : job.InPayload c b) :
    (job.chunkData c).at' (b - job.byteOffset c) = job.writtenFile.at' b := by
  have hL := job.rowLen_pos
  obtain ⟨h₁, h₂, rfl⟩ := (job.inPayload_iff hc).mp h
  obtain ⟨hlo, hhi⟩ := h
  rw [byteOffset_eq] at hlo hhi ⊢
  rw [chunkData_length] at hhi
  rw [expectedBytes_eq] at h₂
  have hsub : b - (16 + job.owner b * job.rowLen) = b - 16 - job.owner b * job.rowLen := by omega
  have hdiv : (b - 16 - job.owner b * job.rowLen) / job.rowLen =
      (b - 16) / job.rowLen % job.chunkRows := by
    rw [Nat.mul_comm, Nat.sub_mul_div, owner]
    have := Nat.mod_add_div ((b - 16) / job.rowLen) job.chunkRows
    rw [Nat.mul_comm] at this
    omega
  have hmod : (b - 16 - job.owner b * job.rowLen) % job.rowLen = (b - 16) % job.rowLen := by
    rw [Nat.mul_comm]
    exact Nat.sub_mul_mod (by rw [Nat.mul_comm]; omega)
  rw [hsub, chunkData, Bytes.at'_flatMap_range (fun _ => job.rowBytes_length _) (by omega),
    writtenFile, Bytes.at'_append, if_neg (by simp [header]; omega),
    Bytes.at'_flatMap_range (fun _ => job.rowBytes_length _) (by simp [header]; omega)]
  simp only [header, List.length_append, toLe_length]
  rw [hdiv, hmod, rowRead, owner]

theorem writtenFile_length : job.writtenFile.length = job.expectedBytes := by
  rw [writtenFile, List.length_append, Bytes.length_flatMap_range (fun _ => job.rowBytes_length _),
    expectedBytes_eq]
  simp [header]

theorem expectedFile_length : job.expectedFile.length = job.expectedBytes := by
  rw [expectedFile, List.length_append, Bytes.length_flatMap_range job.rowBytes_length,
    expectedBytes_eq]
  simp

/-- The rows read are those of the points exactly when the written file is the expected one. -/
theorem writtenFile_eq_expectedFile_iff :
    job.writtenFile = job.expectedFile ↔
      ∀ p < job.numPoints, job.rowBytes (job.rowRead p) = job.rowBytes p := by
  have hrow : ∀ {g : Nat → Bytes}, (∀ p, (g p).length = job.rowLen) → ∀ {p i}, p < job.numPoints →
      i < job.rowLen →
      Bytes.at' ((List.range job.numPoints).flatMap g) (p * job.rowLen + i) = (g p).at' i := by
    intro g hg p i hp hi
    have hlt : p * job.rowLen + i < job.numPoints * job.rowLen := by
      have := Nat.mul_le_mul_right job.rowLen (Nat.succ_le_of_lt hp)
      rw [Nat.succ_mul] at this
      omega
    rw [Bytes.at'_flatMap_range hg hlt, Nat.mul_comm, Nat.mul_add_div job.rowLen_pos,
      Nat.div_eq_of_lt hi, Nat.mul_add_mod, Nat.mod_eq_of_lt hi, Nat.add_zero]
  constructor
  · intro h p hp
    have hbody := (List.append_right_inj job.header).mp h
    refine Bytes.ext_at' (by simp) fun i hi => ?_
    rw [rowBytes_length] at hi
    rw [← hrow (g := fun p => job.rowBytes (job.rowRead p)) (fun _ => job.rowBytes_length _) hp hi,
      hbody, hrow job.rowBytes_length hp hi]
  · intro h
    refine congrArg (job.header ++ ·) (List.flatMap_congr fun p hp => ?_)
    exact h p (List.mem_range.mp hp)

/-- Up to `2^32` points the cast of the chunk start loses nothing. -/
theorem rowRead_eq {p : Nat} (h : p < 2 ^ 32) : job.rowRead p = p := by
  have hlt : p / job.chunkRows * job.chunkRows < 2 ^ 32 := (Nat.div_mul_le_self ..).trans_lt h
  rw [rowRead, Nat.mod_eq_of_lt hlt, Nat.mul_comm, Nat.div_add_mod]

theorem rows_of_numPoints_le (h : job.numPoints ≤ 2 ^ 32) :
    ∀ p < job.numPoints, job.rowBytes (job.rowRead p) = job.rowBytes p := fun p hp => by
  rw [job.rowRead_eq (hp.trans_le h)]

/-! ## One writer at a time -/

theorem at'_createFile (b : Nat) :
    job.createFile.at' b = if b < 16 then job.writtenFile.at' b else 0 := by
  rw [createFile, DirectIoFile.at'_writeAllAt, DirectIoFile.at'_writeAllAt]
  simp only [toLe_length, writtenFile, header, List.append_assoc, Bytes.at'_append]
  split_ifs <;> first | rfl | omega

/-- The scratch buffer of a chunk: its payload, and around it the file. -/
theorem at'_readChunk {file : Bytes} {c : Nat} (hc : c ∈ job.chunkStarts) {b : Nat}
    (h : InBlocks ioCfg (job.byteOffset c) (job.chunkData c).length b) :
    (DirectIoFile.readBlocks ioCfg file (job.chunkData c) (job.byteOffset c)).at'
        (b - alignedOffset ioCfg (job.byteOffset c)) =
      if job.InPayload c b then job.writtenFile.at' b else file.at' b := by
  rw [DirectIoFile.at'_readBlocks _ _ _ _ h]
  change (if job.InPayload c b then _ else _) = _
  by_cases hp : job.InPayload c b
  · rw [if_pos hp, if_pos hp, job.at'_chunkData hc hp]
  · rw [if_neg hp, if_neg hp]

/-- A byte that is as written stays so, and a chunk written on its own is as written. -/
theorem at'_writeChunk {file : Bytes} {c : Nat} (hc : c ∈ job.chunkStarts) (b : Nat) :
    (DirectIoFile.writeAllAt ioCfg file (job.chunkData c) (job.byteOffset c)).at' b =
      if job.InPayload c b then job.writtenFile.at' b else file.at' b := by
  rw [DirectIoFile.at'_writeAllAt]
  change (if job.InPayload c b then _ else _) = _
  by_cases h : job.InPayload c b
  · rw [if_pos h, if_pos h, job.at'_chunkData hc h]
  · rw [if_neg h, if_neg h]

/-- The file after the chunks `l` are written one after the other. -/
def writeChunks (file : Bytes) (l : List Nat) : Bytes :=
  l.foldl (fun file s =>
    DirectIoFile.writeAllAt ioCfg file (job.chunkData s) (job.byteOffset s)) file

theorem at'_writeChunks {l : List Nat} (hl : ∀ c ∈ l, c ∈ job.chunkStarts) (file : Bytes) (b : Nat) :
    (job.writeChunks file l).at' b =
      if ∃ c ∈ l, job.InPayload c b then job.writtenFile.at' b else file.at' b := by
  induction l generalizing file with
  | nil => simp [writeChunks]
  | cons c l ih =>
      rw [writeChunks, List.foldl_cons, ← writeChunks,
        ih fun d hd => hl d (List.mem_cons_of_mem _ hd), job.at'_writeChunk (hl c List.mem_cons_self)]
      by_cases htail : ∃ d ∈ l, job.InPayload d b
      · rw [if_pos htail, if_pos (List.exists_mem_cons_of_exists htail)]
      · rw [if_neg htail]
        simp only [List.exists_mem_cons_iff, htail, or_false]

/-- All chunks written one after the other, in any order, make the written file. -/
theorem setLen_writeChunks {l : List Nat} (hl : l.Perm job.chunkStarts) :
    (job.writeChunks job.createFile l).setLen job.expectedBytes = job.writtenFile := by
  refine Bytes.ext_at' (by rw [Bytes.setLen_length, writtenFile_length]) fun b hb => ?_
  rw [Bytes.setLen_length] at hb
  rw [Bytes.at'_setLen hb, job.at'_writeChunks (fun c hc => hl.mem_iff.mp hc), at'_createFile]
  by_cases hhead : b < 16
  · rw [if_pos hhead, ite_self]
  · have howner := job.owner_mem (Nat.le_of_not_lt hhead) hb
    rw [if_pos ⟨_, hl.mem_iff.mpr howner,
      (job.inPayload_iff howner).mpr ⟨Nat.le_of_not_lt hhead, hb, rfl⟩⟩]

theorem sequentialBuild_eq : job.sequentialBuild = job.writtenFile :=
  job.setLen_writeChunks (List.Perm.refl _)

end SketchJob
end ForgeANN
