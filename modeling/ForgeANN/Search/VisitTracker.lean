-- SUMMARY: Visited marks, outdated by a generation of 16 bits and cleared when it wraps.
import ForgeANN.Common.Basic
import Mathlib.Data.List.Basic

/-!
# The visit tracker

A search does not clear the marks of the one before. It takes the next
generation, which no mark has reached yet.
-/
namespace ForgeANN

structure VisitTracker where
  marks : List UInt16
  generation : UInt16
  marks_le : ∀ mark ∈ marks, mark ≤ generation

namespace VisitTracker

def new (size : Nat) : VisitTracker where
  marks := List.replicate size 0
  generation := 0
  marks_le mark hmark := by
    rw [List.eq_of_mem_replicate hmark]
    exact UInt16.le_refl 0

theorem le_add_one {mark generation : UInt16} (h : mark ≤ generation) (hne : generation ≠ 65535) :
    mark < generation + 1 := by
  have hlt := generation.toNat_lt
  have hmax : generation.toNat ≠ 65535 := fun heq => hne (UInt16.toNat_inj.mp heq)
  rw [UInt16.le_iff_toNat_le] at h
  rw [UInt16.lt_iff_toNat_lt, UInt16.toNat_add]
  have hone : (1 : UInt16).toNat = 1 := rfl
  rw [hone, Nat.mod_eq_of_lt (by omega)]
  omega

/-- The next generation. After the last one the marks are cleared. -/
def reset (tracker : VisitTracker) : VisitTracker :=
  if h : tracker.generation = 65535 then
    { marks := tracker.marks.map fun _ => 0
      generation := 1
      marks_le := by
        intro mark hmark
        obtain ⟨_, -, rfl⟩ := List.mem_map.mp hmark
        decide }
  else
    { marks := tracker.marks
      generation := tracker.generation + 1
      marks_le := fun mark hmark => UInt16.le_of_lt (le_add_one (tracker.marks_le mark hmark) h) }

/-- `self.marks[idx] = self.generation`. -/
def marked (tracker : VisitTracker) (idx : Nat) : VisitTracker where
  marks := tracker.marks.set idx tracker.generation
  generation := tracker.generation
  marks_le mark hmark := by
    rcases List.mem_or_eq_of_mem_set hmark with hold | rfl
    · exact tracker.marks_le mark hold
    · exact UInt16.le_refl _

def mark (tracker : VisitTracker) (idx : Nat) : AnnResult VisitTracker :=
  if idx < tracker.marks.length then .ok (tracker.marked idx)
  else .error (.panic "index out of bounds")

def markIfNew (tracker : VisitTracker) (idx : Nat) : AnnResult (Bool × VisitTracker) :=
  match tracker.marks[idx]? with
  | none => .error (.panic "index out of bounds")
  | some mark =>
      if mark = tracker.generation then .ok (false, tracker) else .ok (true, tracker.marked idx)

/-- The mark is of this generation. -/
def Seen (tracker : VisitTracker) (idx : Nat) : Prop :=
  tracker.marks[idx]? = some tracker.generation

instance (tracker : VisitTracker) (idx : Nat) : Decidable (tracker.Seen idx) :=
  inferInstanceAs (Decidable (_ = _))

variable {tracker : VisitTracker} {size idx other : Nat}

@[simp] theorem new_length (size : Nat) : (new size).marks.length = size := List.length_replicate

@[simp] theorem marked_length (tracker : VisitTracker) (idx : Nat) :
    (tracker.marked idx).marks.length = tracker.marks.length := List.length_set

@[simp] theorem reset_length (tracker : VisitTracker) :
    tracker.reset.marks.length = tracker.marks.length := by
  rw [reset]
  split_ifs
  · exact List.length_map _
  · rfl

/-- No mark has reached the next generation. -/
theorem not_seen_reset (tracker : VisitTracker) (idx : Nat) : ¬ tracker.reset.Seen idx := by
  intro hseen
  rw [Seen] at hseen
  have hmem := List.mem_of_getElem? hseen
  rw [reset] at hmem
  split_ifs at hmem with hwrap
  · obtain ⟨_, -, hzero⟩ := List.mem_map.mp hmem
    have hne : (0 : UInt16) ≠ 1 := by decide
    exact hne hzero
  · have hlt := le_add_one (tracker.marks_le _ hmem) hwrap
    exact absurd hlt (UInt16.lt_irrefl _)

theorem seen_marked (hidx : idx < tracker.marks.length) :
    (tracker.marked idx).Seen other ↔ other = idx ∨ tracker.Seen other := by
  rw [Seen, Seen, marked, List.getElem?_set]
  split_ifs with heq
  · simp [heq]
  · simp [Ne.symm heq]

theorem mark_eq (hidx : idx < tracker.marks.length) : tracker.mark idx = .ok (tracker.marked idx) :=
  if_pos hidx

/-- Marking what is seen already changes nothing. -/
theorem marked_of_seen (h : tracker.Seen idx) : tracker.marked idx = tracker := by
  obtain ⟨hlt, hget⟩ := List.getElem?_eq_some_iff.mp h
  have hmarks : tracker.marks.set idx tracker.generation = tracker.marks :=
    (congrArg (tracker.marks.set idx) hget.symm).trans (List.set_getElem_self hlt)
  simp only [marked, hmarks]

theorem markIfNew_eq (hidx : idx < tracker.marks.length) :
    tracker.markIfNew idx = .ok (!decide (tracker.Seen idx), tracker.marked idx) := by
  rw [markIfNew]
  split
  · rename_i hnone
    exact absurd hidx (Nat.not_lt.mpr (List.getElem?_eq_none_iff.mp hnone))
  · rename_i mark hmark
    split_ifs with hseen
    · have hold : tracker.Seen idx := by rw [Seen, hmark, hseen]
      rw [marked_of_seen hold, decide_eq_true hold]
      rfl
    · have hnew : ¬ tracker.Seen idx := by
        rw [Seen, hmark]
        exact fun h => hseen (Option.some.inj h)
      rw [decide_eq_false hnew]
      rfl

theorem markIfNew_error (hidx : tracker.marks.length ≤ idx) :
    tracker.markIfNew idx = .error (.panic "index out of bounds") := by
  rw [markIfNew, List.getElem?_eq_none hidx]

end VisitTracker

end ForgeANN
