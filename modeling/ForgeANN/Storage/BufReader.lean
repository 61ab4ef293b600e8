-- SUMMARY: Buffered sequential readers: exact reads, and runs of fixed-width values.
import ForgeANN.Common.Basic
import ForgeANN.Lib.ByteFile

/-!
# Buffered readers
-/
namespace ForgeANN

open Lib

/-- A `BufReader` over a file: what it has not delivered yet starts at `pos`. -/
structure BufReader where
  file : Bytes
  pos : Nat

namespace BufReader

/-- The bytes still to come. -/
def rest (r : BufReader) : Bytes := r.file.drop r.pos

def seek (r : BufReader) (pos : Nat) : BufReader := { r with pos }

def advance (r : BufReader) (n : Nat) : BufReader := { r with pos := r.pos + n }

def readExact (r : BufReader) (n : Nat) : AnnResult (Bytes × BufReader) :=
  if r.pos + n ≤ r.file.length then .ok (r.rest.take n, r.advance n)
  else .error (.io .unexpectedEof)

/-- Values of `width` bytes each, one `readExact` after the other. -/
def readMany {α : Type} (width : Nat) (decode : Bytes → α) (r : BufReader) :
    Nat → AnnResult (List α × BufReader)
  | 0 => .ok ([], r)
  | n + 1 => do
      let (buf, r) ← r.readExact width
      let (values, r) ← readMany width decode r n
      .ok (decode buf :: values, r)

@[simp] theorem advance_file (r : BufReader) (n : Nat) : (r.advance n).file = r.file := rfl

@[simp] theorem advance_pos (r : BufReader) (n : Nat) : (r.advance n).pos = r.pos + n := rfl

@[simp] theorem seek_file (r : BufReader) (pos : Nat) : (r.seek pos).file = r.file := rfl

@[simp] theorem seek_pos (r : BufReader) (pos : Nat) : (r.seek pos).pos = pos := rfl

@[simp] theorem advance_advance (r : BufReader) (m n : Nat) :
    (r.advance m).advance n = r.advance (m + n) := by
  simp [advance, Nat.add_assoc]

theorem rest_advance {r : BufReader} {a b : Bytes} (h : r.rest = a ++ b) :
    (r.advance a.length).rest = b := by
  rw [rest, advance, ← List.drop_drop, ← rest, h, List.drop_left]

theorem readExact_append {r : BufReader} {a b : Bytes} (h : r.rest = a ++ b) (hne : a ≠ []) :
    r.readExact a.length = .ok (a, r.advance a.length) := by
  have hlen : r.file.length - r.pos = a.length + b.length := by
    rw [← List.length_drop, ← rest, h, List.length_append]
  have hpos : 0 < a.length := List.length_pos_iff.mpr hne
  rw [readExact, if_pos (by omega), h, List.take_left]

/-- What was read stands at the front of what was still to come. -/
theorem rest_of_readExact {r next : BufReader} {n : Nat} {bytes : Bytes}
    (h : r.readExact n = .ok (bytes, next)) : r.rest = bytes ++ next.rest ∧ bytes.length = n := by
  rw [readExact] at h
  split_ifs at h with hle
  obtain ⟨rfl, rfl⟩ := Prod.mk.inj (Except.ok.inj h)
  have hlen : (r.rest.take n).length = n := by
    rw [rest, List.length_take, List.length_drop]
    omega
  refine ⟨?_, hlen⟩
  rw [rest, rest, advance, ← List.drop_drop, List.take_append_drop]

/-- Values that were read encode to what was read. -/
theorem rest_of_readMany {α : Type} {width n : Nat} {decode : Bytes → α} {encode : α → Bytes}
    (hencode : ∀ bytes : Bytes, bytes.length = width → encode (decode bytes) = bytes)
    {values : List α} {r next : BufReader} (h : readMany width decode r n = .ok (values, next)) :
    r.rest = values.flatMap encode ++ next.rest ∧ values.length = n := by
  induction n generalizing r values with
  | zero =>
      obtain ⟨rfl, rfl⟩ := Prod.mk.inj (Except.ok.inj h)
      exact ⟨rfl, rfl⟩
  | succ n ih =>
      rw [readMany] at h
      cases hread : r.readExact width with
      | error err => rw [hread] at h; cases h
      | ok read =>
          obtain ⟨bytes, mid⟩ := read
          rw [hread] at h
          simp only [bind, Except.bind] at h
          cases hmany : readMany width decode mid n with
          | error err => rw [hmany] at h; cases h
          | ok many =>
              obtain ⟨more, last⟩ := many
              rw [hmany] at h
              obtain ⟨rfl, rfl⟩ := Prod.mk.inj (Except.ok.inj h)
              obtain ⟨hrest, hbytes⟩ := rest_of_readExact hread
              obtain ⟨hmore, hlen⟩ := ih hmany
              rw [List.flatMap_cons, hencode bytes hbytes, hrest, hmore, List.append_assoc,
                List.length_cons, hlen]
              exact ⟨rfl, rfl⟩

/-- Encoded values read back as they were written. -/
theorem readMany_encode {α : Type} {width : Nat} (decode : Bytes → α) {encode : α → Bytes}
    (hwidth : ∀ a, (encode a).length = width) (hpos : 0 < width)
    (hdecode : ∀ a, decode (encode a) = a) {values : List α} {r : BufReader} {tail : Bytes}
    (h : r.rest = values.flatMap encode ++ tail) :
    readMany width decode r values.length = .ok (values, r.advance (width * values.length)) := by
  induction values generalizing r with
  | nil => rfl
  | cons a values ih =>
      rw [List.flatMap_cons, List.append_assoc] at h
      have hne : encode a ≠ [] := List.ne_nil_of_length_pos (by rw [hwidth]; exact hpos)
      have hread := readExact_append h hne
      have hrest := rest_advance h
      rw [hwidth] at hread hrest
      rw [List.length_cons, readMany, hread]
      simp only [bind, Except.bind]
      rw [ih hrest, hdecode, advance_advance, Nat.mul_succ, Nat.add_comm width]

end BufReader
end ForgeANN
