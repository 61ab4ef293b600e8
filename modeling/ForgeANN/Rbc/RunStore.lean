-- SUMMARY: The external run store: runs of point ids appended to one file a depth, and read back.
import ForgeANN.Storage.BufReader
import ForgeANN.Storage.DirectIo
import Mathlib.Logic.Function.Basic

/-!
# The external run store

Children too large for memory are appended, as runs, to the run file of their
depth. An extent says where a run starts; the file itself holds its length in
front of the points.
-/
namespace ForgeANN

open Lib

def RUN_EXTENT_HEADER_BYTES : Nat := 8

structure RunExtent where
  byteOffset : Nat
  len : Nat
deriving DecidableEq, Repr

/-- How a depth's run file is appended to. A buffered appender seeks to the end
of the file each time; a direct one keeps its own offset. -/
inductive RunAppender where
  | buffered
  | direct (offset : Nat)
deriving DecidableEq, Repr

structure ExternalRunStore where
  baseDir : String
  ioCfg : DirectIoConfig
  writers : Nat → Option RunAppender
  files : String → Option Bytes

namespace ExternalRunStore

def new (baseDir : String) (ioCfg : DirectIoConfig) : ExternalRunStore :=
  ⟨baseDir, ioCfg, fun _ => none, fun _ => none⟩

/-- A depth in the format `{depth:02}`. -/
def depthLabel (depth : Nat) : String := if depth < 10 then s!"0{depth}" else s!"{depth}"

def pathForDepth (store : ExternalRunStore) (depth : Nat) : String :=
  s!"{store.baseDir}/partition_d{depthLabel depth}_runs.bin"

/-- The bytes of a depth's run file; an absent file is created empty when it is opened. -/
def runFile (store : ExternalRunStore) (depth : Nat) : Bytes :=
  (store.files (store.pathForDepth depth)).getD []

/-- The depth's appender, opened at the end of the file when there is none yet. -/
def appender (store : ExternalRunStore) (depth : Nat) : RunAppender :=
  (store.writers depth).getD
    (if store.ioCfg.enabled then .direct (store.runFile depth).length else .buffered)

/-- Where the next run of the depth starts. -/
def appendOffset (store : ExternalRunStore) (depth : Nat) : Nat :=
  match store.appender depth with
  | .buffered => (store.runFile depth).length
  | .direct offset => offset

/-- The same store with another run file and appender for the depth. -/
def setRun (store : ExternalRunStore) (depth : Nat) (file : Bytes) (writer : RunAppender) :
    ExternalRunStore :=
  { store with
    writers := Function.update store.writers depth (some writer)
    files := Function.update store.files (store.pathForDepth depth) (some file) }

end ExternalRunStore

/-- The bytes of a run: its length, then its points. -/
def runBytes (points : List UInt32) : Bytes :=
  toLe RUN_EXTENT_HEADER_BYTES points.length ++ points.flatMap fun point => toLe 4 point.toNat

namespace ExternalRunStore

def appendPoints (store : ExternalRunStore) (depth : Nat) (points : List UInt32) :
    RunExtent × ExternalRunStore :=
  let bytes := runBytes points
  let file := store.runFile depth
  match store.appender depth with
  | .buffered =>
      (⟨file.length, points.length⟩, store.setRun depth (file ++ bytes) .buffered)
  | .direct offset =>
      (⟨offset, points.length⟩,
        store.setRun depth (DirectIoFile.writeAllAt store.ioCfg file bytes offset)
          (.direct (offset + bytes.length)))

/-- `read_run_points_from_path` with direct I/O. -/
def readRunPointsDirect (ioCfg : DirectIoConfig) (path : String) (file : Bytes)
    (extent : RunExtent) : AnnResult (List UInt32) := do
  let header ← DirectIoFile.readExactAt ioCfg file extent.byteOffset path RUN_EXTENT_HEADER_BYTES
  let len := ofLe header
  let bytes ← DirectIoFile.readExactAt ioCfg file (extent.byteOffset + RUN_EXTENT_HEADER_BYTES)
    path (len * 4)
  .ok ((List.range len).map fun idx => UInt32.ofNat (ofLe (bytes.readAt (idx * 4) 4)))

/-- `read_run_points_from_path` through a buffered reader. -/
def readRunPointsBuffered (file : Bytes) (extent : RunExtent) : AnnResult (List UInt32) := do
  let reader : BufReader := ⟨file, extent.byteOffset⟩
  let (header, reader) ← reader.readExact RUN_EXTENT_HEADER_BYTES
  let len := ofLe header
  let (points, _) ← reader.readMany 4 (fun buf => UInt32.ofNat (ofLe buf)) len
  .ok points

def readChildRun (store : ExternalRunStore) (depth : Nat) (extent : RunExtent) :
    AnnResult (List UInt32) :=
  let path := store.pathForDepth depth
  match store.files path with
  | none => .error (.io .notFound)
  | some file =>
      if store.ioCfg.enabled then readRunPointsDirect store.ioCfg path file extent
      else readRunPointsBuffered file extent

def readChildRunChain (store : ExternalRunStore) (depth : Nat) :
    List RunExtent → AnnResult (List UInt32)
  | [] => .ok []
  | extent :: extents => do
      let chunk ← store.readChildRun depth extent
      let points ← store.readChildRunChain depth extents
      .ok (chunk ++ points)

/-! ## What is stored -/

/-- The run `points` stands at `extent`, where no later run of the depth will overwrite it. -/
structure Stored (store : ExternalRunStore) (depth : Nat) (extent : RunExtent)
    (points : List UInt32) : Prop where
  present : store.files (store.pathForDepth depth) = some (store.runFile depth)
  holds : (store.runFile depth).Holds extent.byteOffset (runBytes points)
  below : extent.byteOffset + (runBytes points).length ≤ store.appendOffset depth
  /-- The length fits its header. -/
  fits : points.length < 2 ^ 64

theorem ofLe_toLe_uint32 (point : UInt32) : UInt32.ofNat (ofLe (toLe 4 point.toNat)) = point := by
  have hlt : point.toNat < 256 ^ 4 := point.toNat_lt
  rw [ofLe_toLe, Nat.mod_eq_of_lt hlt, UInt32.ofNat_toNat]

theorem runBytes_ne_nil (points : List UInt32) : runBytes points ≠ [] :=
  List.ne_nil_of_length_pos (by rw [runBytes, List.length_append, toLe_length, RUN_EXTENT_HEADER_BYTES]; omega)

variable {store : ExternalRunStore} {depth : Nat} {extent : RunExtent} {points : List UInt32}

@[simp] theorem setRun_pathForDepth (file : Bytes) (writer : RunAppender) :
    (store.setRun depth file writer).pathForDepth depth = store.pathForDepth depth := rfl

@[simp] theorem setRun_files (file : Bytes) (writer : RunAppender) :
    (store.setRun depth file writer).files (store.pathForDepth depth) = some file :=
  Function.update_self ..

@[simp] theorem setRun_runFile (file : Bytes) (writer : RunAppender) :
    (store.setRun depth file writer).runFile depth = file := by
  rw [runFile, setRun_pathForDepth, setRun_files, Option.getD_some]

@[simp] theorem setRun_appender (file : Bytes) (writer : RunAppender) :
    (store.setRun depth file writer).appender depth = writer := by
  simp [appender, setRun]

/-- What appending a run does: the run is stored at the old append offset, and what was
stored stays so. -/
theorem appendPoints_stored (hfits : points.length < 2 ^ 64) :
    (store.appendPoints depth points).2.Stored depth (store.appendPoints depth points).1 points := by
  cases happ : store.appender depth with
  | buffered =>
      simp only [appendPoints, happ]
      refine ⟨by simp, ?_, by simp [appendOffset], hfits⟩
      rw [setRun_runFile]
      simpa using Bytes.Holds.of_append (store.runFile depth) (runBytes points) []
  | direct offset =>
      simp only [appendPoints, happ]
      refine ⟨by simp, ?_, by simp [appendOffset], hfits⟩
      rw [setRun_runFile]
      exact DirectIoFile.holds_writeAllAt _ _ _ _ (runBytes_ne_nil points)

theorem Stored.appendPoints (h : store.Stored depth extent points) (more : List UInt32) :
    (store.appendPoints depth more).2.Stored depth extent points := by
  have hbelow := h.below
  cases happ : store.appender depth with
  | buffered =>
      simp only [appendOffset, happ] at hbelow
      simp only [ExternalRunStore.appendPoints, happ]
      refine ⟨by simp, ?_, ?_, h.fits⟩
      · rw [setRun_runFile]
        exact h.holds.append _
      · simp only [appendOffset, setRun_appender, setRun_runFile, List.length_append]
        omega
  | direct offset =>
      simp only [appendOffset, happ] at hbelow
      simp only [ExternalRunStore.appendPoints, happ]
      refine ⟨by simp, ?_, ?_, h.fits⟩
      · rw [setRun_runFile]
        exact DirectIoFile.holds_writeAllAt_of_le _ _ _ _ h.holds (runBytes_ne_nil more) hbelow
      · simp only [appendOffset, setRun_appender]
        omega

/-- A run that stands in a file reads back, with either kind of I/O. -/
theorem readRunPoints_of_holds (ioCfg : DirectIoConfig) (path : String) {file : Bytes}
    (hholds : file.Holds extent.byteOffset (runBytes points)) (hfits : points.length < 2 ^ 64) :
    (if ioCfg.enabled then readRunPointsDirect ioCfg path file extent
      else readRunPointsBuffered file extent) = .ok points := by
  have hhead := hholds.left
  have hbody := hholds.right
  have hlen : ofLe (toLe RUN_EXTENT_HEADER_BYTES points.length) = points.length := by
    rw [ofLe_toLe, Nat.mod_eq_of_lt (lt_of_lt_of_le hfits (by decide))]
  have hbytes : (points.flatMap fun point => toLe 4 point.toNat).length = points.length * 4 := by
    simp [List.length_flatMap]
  rw [toLe_length] at hbody
  split_ifs with hdirect
  · have hread := DirectIoFile.readExactAt_of_holds ioCfg file hhead path
    have hread' := DirectIoFile.readExactAt_of_holds ioCfg file hbody path
    rw [toLe_length] at hread
    rw [hbytes] at hread'
    rw [readRunPointsDirect, hread]
    simp only [bind, Except.bind, hlen, hread']
    refine congrArg Except.ok (List.ext_getElem (by simp) fun i hi hi' => ?_)
    rw [List.getElem_map, List.getElem_range,
      Bytes.readAt_flatMap (fun point : UInt32 => toLe_length 4 point.toNat) hi', ofLe_toLe_uint32]
  · have hrest : (⟨file, extent.byteOffset⟩ : BufReader).rest = _ := hholds.drop
    rw [runBytes, List.append_assoc] at hrest
    have hread := BufReader.readExact_append hrest (List.ne_nil_of_length_pos (by rw [toLe_length]; decide))
    have hrest' := BufReader.rest_advance hrest
    have hmany := BufReader.readMany_encode (fun buf => UInt32.ofNat (ofLe buf))
      (fun point : UInt32 => toLe_length 4 point.toNat) (by decide) ofLe_toLe_uint32 hrest'
    rw [toLe_length] at hread hmany
    rw [readRunPointsBuffered]
    simp only [hread, bind, Except.bind, hlen]
    rw [hmany]

theorem Stored.readChildRun (h : store.Stored depth extent points) :
    store.readChildRun depth extent = .ok points := by
  rw [ExternalRunStore.readChildRun, h.present]
  exact readRunPoints_of_holds store.ioCfg (store.pathForDepth depth) h.holds h.fits

end ExternalRunStore
end ForgeANN
