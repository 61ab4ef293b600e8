-- SUMMARY: When concurrent chunk writers of a sketch build lose updates: runs, their invariant, and the losing schedule.
import ForgeANN.Storage.SketchBuild

/-!
# Lost updates between chunk writers

Two chunk writers that share an alignment block can undo each other's bytes.
The build is lossless in every run exactly when no shared block holds a nonzero
byte of the other chunk.
-/
namespace ForgeANN

open Lib

namespace SketchJob

variable (job : SketchJob)

/-! ## Steps -/

theorem step_read {s s' : State} {c : Nat} (h : job.step s (.read c) = some s') :
    c ∈ s.todo ∧ s.running.length < job.threads ∧ s'.file = s.file ∧ s'.todo = s.todo.erase c ∧
      s'.running = (c, DirectIoFile.readBlocks ioCfg s.file (job.chunkData c) (job.byteOffset c)) ::
        s.running := by
  simp only [step] at h
  split_ifs at h with hc
  cases h
  exact ⟨hc.1, hc.2, rfl, rfl, rfl⟩

theorem step_write {s s' : State} {c : Nat} (h : job.step s (.write c) = some s') :
    ∃ scratch, (c, scratch) ∈ s.running ∧
      s'.file = DirectIoFile.writeBlocks ioCfg s.file scratch (job.byteOffset c) ∧
      s'.todo = s.todo ∧ s'.running = s.running.eraseP fun t => t.1 == c := by
  simp only [step] at h
  split at h
  · rename_i d scratch hfind
    cases h
    have hd : d = c := by simpa using List.find?_some hfind
    exact ⟨scratch, hd ▸ List.mem_of_find?_eq_some hfind, rfl, rfl, rfl⟩
  · cases h

/-! ## The invariant of a lossless build -/

/-- A chunk that is neither waiting nor running has been written. -/
def Written (s : State) (c : Nat) : Prop :=
  c ∈ job.chunkStarts ∧ c ∉ s.todo ∧ ∀ t ∈ s.running, t.1 ≠ c

/-- The scratch buffer of a running chunk: its payload, and around it either the
byte as it will be written, or a zero still to be overwritten. -/
structure ScratchOk (c : Nat) (scratch : Bytes) : Prop where
  chunk : c ∈ job.chunkStarts
  length : scratch.length = alignedLen ioCfg (job.byteOffset c) (job.chunkData c).length
  final : ∀ b < job.expectedBytes, InBlocks ioCfg (job.byteOffset c) (job.chunkData c).length b →
    (b < 16 ∨ job.InPayload c b ∨ job.writtenFile.at' b = 0) →
    scratch.at' (b - alignedOffset ioCfg (job.byteOffset c)) = job.writtenFile.at' b

structure Inv (s : State) : Prop where
  todo : ∀ c ∈ s.todo, c ∈ job.chunkStarts
  running : ∀ t ∈ s.running, job.ScratchOk t.1 t.2
  final : ∀ b < job.expectedBytes,
    (b < 16 ∨ job.Written s (job.owner b) ∨ job.writtenFile.at' b = 0) →
    s.file.at' b = job.writtenFile.at' b

theorem inv_initial : job.Inv job.initial where
  todo := fun _ h => h
  running := by simp [initial]
  final := by
    intro b hb h
    simp only [initial]
    rw [at'_createFile]
    split_ifs with hhead
    · rfl
    · rcases h with h | h | h
      · exact absurd h hhead
      · exact absurd (job.owner_mem (Nat.le_of_not_lt hhead) hb) h.2.1
      · exact h.symm

variable {job}

theorem Inv.read {s s' : State} {c : Nat} (hi : job.Inv s) (h : job.step s (.read c) = some s') :
    job.Inv s' := by
  obtain ⟨hc, -, hfile, htodo, hrun⟩ := job.step_read h
  refine ⟨fun d hd => hi.todo d (List.mem_of_mem_erase (htodo ▸ hd)), fun t ht => ?_,
    fun b hb hcase => ?_⟩
  · rw [hrun] at ht
    rcases List.mem_cons.mp ht with rfl | ht
    · refine ⟨hi.todo c hc, DirectIoFile.readBlocks_length .., fun b hb hin hcase => ?_⟩
      refine (job.at'_readChunk (hi.todo c hc) hin).trans ?_
      split_ifs with hp
      · rfl
      · refine hi.final b hb ?_
        rcases hcase with h | h | h
        · exact .inl h
        · exact absurd h hp
        · exact .inr (.inr h)
    · exact hi.running t ht
  · rw [hfile]
    refine hi.final b hb (hcase.imp_right fun h => h.imp_left fun ⟨hm, hnt, hnr⟩ => ?_)
    -- taking a chunk up does not make any other chunk written
    have hne : job.owner b ≠ c := fun h => hnr (c, _) (hrun ▸ List.mem_cons_self) h.symm
    refine ⟨hm, fun h => hnt ?_, fun t ht => hnr t (hrun ▸ List.mem_cons_of_mem _ ht)⟩
    rw [htodo]
    exact (List.mem_erase_of_ne hne).mpr h

theorem Inv.write (hapart : job.BlocksApart) {s s' : State} {c : Nat} (hi : job.Inv s)
    (h : job.step s (.write c) = some s') : job.Inv s' := by
  obtain ⟨scratch, hmem, hfile, htodo, hrun⟩ := job.step_write h
  have hok := hi.running _ hmem
  refine ⟨fun d hd => hi.todo d (htodo ▸ hd), fun t ht => ?_, fun b hb hcase => ?_⟩
  · rw [hrun] at ht
    exact hi.running t (List.mem_of_mem_eraseP ht)
  · rw [hfile, DirectIoFile.at'_writeBlocks _ _ _ hok.length]
    by_cases hin : InBlocks ioCfg (job.byteOffset c) (job.chunkData c).length b
    · rw [if_pos hin]
      refine hok.final b hb hin ?_
      by_cases hhead : b < 16
      · exact .inl hhead
      have hpay := job.inPayload_iff (c := job.owner b) (b := b)
        (job.owner_mem (Nat.le_of_not_lt hhead) hb)
      by_cases hown : job.owner b = c
      · exact .inr (.inl (hown ▸ hpay.mpr ⟨Nat.le_of_not_lt hhead, hb, rfl⟩))
      · -- the byte is another chunk's, so in a shared block it is zero
        have hp := hpay.mpr ⟨Nat.le_of_not_lt hhead, hb, rfl⟩
        have hm := job.owner_mem (Nat.le_of_not_lt hhead) hb
        have hzero := hapart _ hm c hok.chunk hown b hp hin
        rw [job.at'_chunkData hm hp] at hzero
        exact .inr (.inr hzero)
    · rw [if_neg hin]
      by_cases hhead : b < 16
      · exact hi.final b hb (.inl hhead)
      refine hi.final b hb (hcase.imp_right fun h => h.imp_left fun ⟨hm, hnt, hnr⟩ => ?_)
      refine ⟨hm, fun h => hnt (htodo ▸ h), fun t ht hto => ?_⟩
      by_cases hc : t.1 = c
      · -- the chunk just written covers its own payload
        have hp := (job.inPayload_iff hm).mpr ⟨Nat.le_of_not_lt hhead, hb, rfl⟩
        rw [← hto, hc] at hp
        exact hin (inBlocks_of_payload _ _ _ hp)
      · refine hnr t ?_ hto
        rw [hrun]
        exact (List.mem_eraseP_of_neg (by simpa using hc)).mpr ht

/-- Without shared nonzero bytes every run ends with the written file. -/
theorem run_writtenFile (hapart : job.BlocksApart) {as : List Action} {s : State}
    (hr : Run job.step job.initial as s) (hd : s.todo = [] ∧ s.running = []) :
    s.file.setLen job.expectedBytes = job.writtenFile := by
  have hi : job.Inv s := hr.invariant job.inv_initial fun s a t hi h => by
    cases a with
    | read c => exact hi.read h
    | write c => exact hi.write hapart h
  refine Bytes.ext_at' (by rw [Bytes.setLen_length, writtenFile_length]) fun b hb => ?_
  rw [Bytes.setLen_length] at hb
  rw [Bytes.at'_setLen hb]
  refine hi.final b hb ?_
  by_cases hhead : b < 16
  · exact .inl hhead
  · refine .inr (.inl ⟨job.owner_mem (Nat.le_of_not_lt hhead) hb, ?_, ?_⟩)
    · rw [hd.1]; exact List.not_mem_nil
    · rw [hd.2]; simp

/-! ## Schedules -/

variable (job)

/-- One task at a time works off the remaining chunks. -/
theorem run_sequential (h : 0 < job.threads) (file : Bytes) (l : List Nat) :
    ∃ as, Run job.step ⟨file, l, []⟩ as ⟨job.writeChunks file l, [], []⟩ := by
  induction l generalizing file with
  | nil => exact ⟨[], .nil _⟩
  | cons c l ih =>
      obtain ⟨as, hr⟩ := ih
        (DirectIoFile.writeAllAt ioCfg file (job.chunkData c) (job.byteOffset c))
      refine ⟨.read c :: .write c :: as, .cons (u := ?_) ?_ (.cons ?_ hr)⟩
      · exact ⟨file, l,
          [(c, DirectIoFile.readBlocks ioCfg file (job.chunkData c) (job.byteOffset c))]⟩
      · simp [step, h]
      · simp [step, DirectIoFile.writeAllAt, ioCfg, DirectIoConfig.enabledWithAlignment]

/-- Two tasks that overlap: `d` is read before, and written back after, `c` is written. -/
theorem run_overlap (h : 1 < job.threads) {c d : Nat} (hc : c ∈ job.chunkStarts)
    (hd : d ∈ job.chunkStarts) (hcd : c ≠ d) :
    ∃ as file, Run job.step job.initial as ⟨file, (job.chunkStarts.erase d).erase c, []⟩ ∧
      ∀ b, InBlocks ioCfg (job.byteOffset d) (job.chunkData d).length b →
        file.at' b = if job.InPayload d b then job.writtenFile.at' b else job.createFile.at' b := by
  let readD := DirectIoFile.readBlocks ioCfg job.createFile (job.chunkData d) (job.byteOffset d)
  let readC := DirectIoFile.readBlocks ioCfg job.createFile (job.chunkData c) (job.byteOffset c)
  let fileC := DirectIoFile.writeBlocks ioCfg job.createFile readC (job.byteOffset c)
  refine ⟨[.read d, .read c, .write c, .write d],
    DirectIoFile.writeBlocks ioCfg fileC readD (job.byteOffset d), ?_, fun b hb => ?_⟩
  · have h₁ : job.step job.initial (.read d) =
        some ⟨job.createFile, job.chunkStarts.erase d, [(d, readD)]⟩ := by
      simp [step, initial, hd, readD, Nat.zero_lt_of_lt h]
    have h₂ : job.step ⟨job.createFile, job.chunkStarts.erase d, [(d, readD)]⟩ (.read c) =
        some ⟨job.createFile, (job.chunkStarts.erase d).erase c, [(c, readC), (d, readD)]⟩ := by
      simp [step, List.mem_erase_of_ne hcd, hc, h, readC]
    have h₃ : job.step ⟨job.createFile, (job.chunkStarts.erase d).erase c,
        [(c, readC), (d, readD)]⟩ (.write c) =
        some ⟨fileC, (job.chunkStarts.erase d).erase c, [(d, readD)]⟩ := by
      simp [step, fileC]
    have h₄ : job.step ⟨fileC, (job.chunkStarts.erase d).erase c, [(d, readD)]⟩ (.write d) =
        some ⟨DirectIoFile.writeBlocks ioCfg fileC readD (job.byteOffset d),
          (job.chunkStarts.erase d).erase c, []⟩ := by
      simp [step]
    exact .cons h₁ (.cons h₂ (.cons h₃ (.single h₄)))
  · rw [DirectIoFile.at'_writeBlocks _ _ _ (DirectIoFile.readBlocks_length ..), if_pos hb,
      job.at'_readChunk hd hb]

/-- A nonzero byte in a block of another chunk is lost in some run. -/
theorem exists_lost (h : 1 < job.threads) {c d b : Nat} (hc : c ∈ job.chunkStarts)
    (hd : d ∈ job.chunkStarts) (hcd : c ≠ d) (hp : job.InPayload c b)
    (hb : InBlocks ioCfg (job.byteOffset d) (job.chunkData d).length b)
    (hne : (job.chunkData c).at' (b - job.byteOffset c) ≠ 0) :
    ∃ file, job.Built file ∧ file ≠ job.writtenFile := by
  obtain ⟨as, file, hr, hfile⟩ := job.run_overlap h hc hd hcd
  obtain ⟨bs, hr'⟩ := job.run_sequential (Nat.zero_lt_of_lt h) file
    ((job.chunkStarts.erase d).erase c)
  refine ⟨_, .parallel h (hr.append hr') ⟨rfl, rfl⟩, fun heq => hne ?_⟩
  obtain ⟨h16, hend, hown⟩ := (job.inPayload_iff hc).mp hp
  have hother : ∀ e ∈ job.chunkStarts, e ≠ c → ¬ job.InPayload e b := fun e he hec hpe =>
    hec (((job.inPayload_iff he).mp hpe).2.2.symm.trans hown)
  have hrest : ¬ ∃ e ∈ (job.chunkStarts.erase d).erase c, job.InPayload e b := by
    rintro ⟨e, he, hpe⟩
    have hnodup := job.chunkStarts_nodup.erase d
    obtain ⟨hec, he⟩ := hnodup.mem_erase_iff.mp he
    exact hother e (List.mem_of_mem_erase he) hec hpe
  have hmem : ∀ e ∈ (job.chunkStarts.erase d).erase c, e ∈ job.chunkStarts := fun e he =>
    List.mem_of_mem_erase (List.mem_of_mem_erase he)
  rw [job.at'_chunkData hc hp, ← heq, Bytes.at'_setLen hend, job.at'_writeChunks hmem,
    if_neg hrest, hfile b hb, if_neg (hother d hd hcd.symm), at'_createFile,
    if_neg (Nat.not_lt.mpr h16)]

/-! ## The characterisation -/

/-- Every run of the build ends with the expected file exactly when the build is lossless. -/
theorem built_eq_expectedFile_iff :
    (∀ file, job.Built file → file = job.expectedFile) ↔ job.Lossless := by
  constructor
  · intro h
    have hwritten : job.writtenFile = job.expectedFile := by
      refine h _ ?_
      by_cases ht : job.threads ≤ 1
      · exact job.sequentialBuild_eq ▸ .sequential ht
      · obtain ⟨as, hr⟩ := job.run_sequential (by omega) job.createFile job.chunkStarts
        exact job.setLen_writeChunks (.refl _) ▸ .parallel (Nat.lt_of_not_le ht) hr ⟨rfl, rfl⟩
    refine ⟨job.writtenFile_eq_expectedFile_iff.mp hwritten, ?_⟩
    by_contra hcon
    obtain ⟨ht, hb⟩ := not_or.mp hcon
    simp only [BlocksApart, not_forall] at hb
    obtain ⟨c, hc, d, hd, hcd, b, hp, hin, hne⟩ := hb
    obtain ⟨file, hfile, hlost⟩ := job.exists_lost (Nat.lt_of_not_le ht) hc hd hcd hp hin hne
    exact hlost ((h file hfile).trans hwritten.symm)
  · rintro ⟨hrows, hblocks⟩ file hfile
    rw [← job.writtenFile_eq_expectedFile_iff.mpr hrows]
    cases hfile with
    | sequential => exact job.sequentialBuild_eq
    | parallel ht hr hd =>
        exact run_writtenFile (hblocks.resolve_left (Nat.not_le.mpr ht)) hr hd

/-- Two threads, two chunks of 1024 rows of twelve `1.0`s. -/
def twoChunkJob : SketchJob where
  numPoints := 2048
  width := 12
  chunkRows := 1024
  threads := 2
  sketch := fun _ => List.replicate 12 ⟨0x3f800000⟩
  width_pos := by decide
  chunkRows_pos := by decide
  sketch_length := fun _ => List.length_replicate

/-- The second chunk starts 16 bytes into the block that the first one ends in;
byte 49155 of the first chunk is lost when the two writers overlap. -/
theorem twoChunkJob_loses_update :
    ¬ ∀ file, twoChunkJob.Built file → file = twoChunkJob.expectedFile := by
  intro h
  have hrows : twoChunkJob.writtenFile = twoChunkJob.expectedFile :=
    twoChunkJob.writtenFile_eq_expectedFile_iff.mpr fun _ _ => rfl
  have hlen : ∀ c, (twoChunkJob.chunkData c).length = twoChunkJob.chunkLen c * 48 :=
    twoChunkJob.chunkData_length
  have hbyte : (twoChunkJob.chunkData 0).at' (49155 - twoChunkJob.byteOffset 0) ≠ 0 := by
    rw [chunkData, Bytes.at'_flatMap_range (fun _ => twoChunkJob.rowBytes_length _) (by decide)]
    decide
  have hin : InBlocks ioCfg (twoChunkJob.byteOffset 1024) (twoChunkJob.chunkData 1024).length
      49155 := by
    rw [hlen, InBlocks, alignedOffset, alignedLen, leadLen, alignedOffset, ioCfg,
      DirectIoConfig.effectiveAlignment_4096]
    decide
  have hpay : twoChunkJob.InPayload 0 49155 := by
    rw [InPayload, hlen]
    decide
  obtain ⟨file, hfile, hlost⟩ := twoChunkJob.exists_lost (c := 0) (d := 1024) (b := 49155)
    (by decide) (by decide) (by decide) (by decide) hpay hin hbyte
  exact hlost ((h file hfile).trans hrows.symm)

end SketchJob
end ForgeANN
