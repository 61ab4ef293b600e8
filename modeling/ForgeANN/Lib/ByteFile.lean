-- SUMMARY: A file as its bytes: positioned reads and writes, truncation, and little-endian integers.
import Mathlib.Algebra.GroupWithZero.Nat
import Mathlib.Data.List.Basic
import Mathlib.Tactic.SplitIfs

/-!
# Files as byte lists

Reads past the end of a file deliver zeros, and a write past the end leaves a
hole of zeros, so a file is determined by its length and its bytes read with
default zero.
-/
namespace Lib

abbrev Bytes := List UInt8

namespace Bytes

/-- The byte at a position; zero past the end. -/
def at' (f : Bytes) (i : Nat) : UInt8 := f.getD i 0

/-- Read `len` bytes at `off`, with zeros past the end. -/
def readAt (f : Bytes) (off len : Nat) : Bytes := (List.range len).map fun k => f.at' (off + k)

/-- Overwrite the bytes from `off` on, extending the file where needed. Writing
nothing changes nothing. -/
def writeAt (f : Bytes) (off : Nat) (buf : Bytes) : Bytes :=
  if buf = [] then f
  else (List.range (max f.length (off + buf.length))).map fun i =>
    if off ≤ i ∧ i < off + buf.length then buf.at' (i - off) else f.at' i

/-- `ftruncate`: cut the file off, or extend it with zeros. -/
def setLen (f : Bytes) (len : Nat) : Bytes := f.readAt 0 len

theorem at'_of_le {f : Bytes} {i : Nat} (h : f.length ≤ i) : f.at' i = 0 := by
  rw [at', List.getD_eq_getElem?_getD, List.getElem?_eq_none h, Option.getD_none]

theorem at'_map_range (g : Nat → UInt8) {n i : Nat} :
    at' ((List.range n).map g) i = if i < n then g i else 0 := by
  simp only [at', List.getD_eq_getElem?_getD, List.getElem?_map]
  split_ifs with h
  · simp [List.getElem?_range h]
  · simp [List.getElem?_eq_none (l := List.range n) (by simpa using h)]

/-- Two byte lists of one length are equal if they agree byte by byte. -/
theorem ext_at' {f g : Bytes} (hl : f.length = g.length)
    (h : ∀ i < f.length, f.at' i = g.at' i) : f = g := by
  refine List.ext_getElem hl fun i h₁ h₂ => ?_
  have := h i h₁
  rwa [at', at', List.getD_eq_getElem?_getD, List.getD_eq_getElem?_getD,
    List.getElem?_eq_getElem h₁, List.getElem?_eq_getElem h₂] at this

@[simp] theorem readAt_length (f : Bytes) (off len : Nat) : (f.readAt off len).length = len := by
  simp [readAt]

theorem at'_readAt {f : Bytes} {off len i : Nat} (h : i < len) :
    (f.readAt off len).at' i = f.at' (off + i) := by
  rw [readAt, at'_map_range, if_pos h]

@[simp] theorem setLen_length (f : Bytes) (len : Nat) : (f.setLen len).length = len :=
  readAt_length ..

theorem at'_setLen {f : Bytes} {len i : Nat} (h : i < len) : (f.setLen len).at' i = f.at' i := by
  rw [setLen, at'_readAt h, Nat.zero_add]

theorem writeAt_length (f : Bytes) (off : Nat) (buf : Bytes) :
    (f.writeAt off buf).length = if buf = [] then f.length else max f.length (off + buf.length) := by
  unfold writeAt
  split_ifs <;> simp

/-- A write changes the bytes it covers and no others. -/
theorem at'_writeAt (f : Bytes) (off : Nat) (buf : Bytes) (i : Nat) :
    (f.writeAt off buf).at' i =
      if off ≤ i ∧ i < off + buf.length then buf.at' (i - off) else f.at' i := by
  unfold writeAt
  split_ifs with hnil hin hin
  · subst hnil
    simp only [List.length_nil] at hin
    omega
  · rfl
  · rw [at'_map_range, if_pos (by omega), if_pos hin]
  · rw [at'_map_range]
    split_ifs with hlt
    · rfl
    · exact (at'_of_le (by omega)).symm

theorem at'_append (f g : Bytes) (i : Nat) :
    at' (f ++ g) i = if i < f.length then f.at' i else g.at' (i - f.length) := by
  simp only [at', List.getD_eq_getElem?_getD, List.getElem?_append]
  split_ifs <;> rfl

theorem length_flatMap_range {g : Nat → Bytes} {len : Nat} (hg : ∀ k, (g k).length = len)
    (m : Nat) : ((List.range m).flatMap g).length = m * len := by
  simp [List.length_flatMap, hg]

/-- The bytes of consecutive records of one length. -/
theorem at'_flatMap_range {g : Nat → Bytes} {len : Nat} (hg : ∀ k, (g k).length = len)
    {m i : Nat} (hi : i < m * len) :
    at' ((List.range m).flatMap g) i = (g (i / len)).at' (i % len) := by
  induction m with
  | zero => simp at hi
  | succ m ih =>
      have hlen : 0 < len := by
        rcases Nat.eq_zero_or_pos len with rfl | h
        · simp at hi
        · exact h
      rw [List.range_succ, List.flatMap_append, at'_append, length_flatMap_range hg]
      split_ifs with hlt
      · exact ih hlt
      · rw [Nat.succ_mul] at hi
        have hdiv : i / len = m := Nat.div_eq_of_lt_le (by omega) (by rw [Nat.succ_mul]; omega)
        have hmod : i % len = i - m * len := by
          have := Nat.mod_add_div i len
          rw [hdiv, Nat.mul_comm] at this
          omega
        rw [hdiv, hmod, List.flatMap_cons, List.flatMap_nil, List.append_nil]

theorem readAt_add (f : Bytes) (off m n : Nat) :
    f.readAt off (m + n) = f.readAt off m ++ f.readAt (off + m) n := by
  simp [readAt, List.range_add, Nat.add_assoc]

theorem readAt_eq_take_drop {f : Bytes} {off len : Nat} (h : off + len ≤ f.length) :
    f.readAt off len = (f.drop off).take len := by
  apply ext_at'
  · simp
    omega
  · intro i hi
    rw [readAt_length] at hi
    rw [at'_readAt hi]
    simp [at', List.getElem?_drop, hi]

/-- A part of a part. -/
theorem readAt_readAt (f : Bytes) {off total lead len : Nat} (h : lead + len ≤ total) :
    (f.readAt off total).readAt lead len = f.readAt (off + lead) len := by
  apply ext_at'
  · simp
  · intro i hi
    rw [readAt_length] at hi
    rw [at'_readAt hi, at'_readAt hi, at'_readAt (by omega), Nat.add_assoc]

/-! ## Stretches of a file -/

/-- The bytes `buf` stand in the file from `off` on. -/
def Holds (f : Bytes) (off : Nat) (buf : Bytes) : Prop :=
  off + buf.length ≤ f.length ∧ ∀ i < buf.length, f.at' (off + i) = buf.at' i

namespace Holds

variable {f g a b buf : Bytes} {off o : Nat}

theorem left (h : Holds f off (a ++ b)) : Holds f off a := by
  obtain ⟨hle, hat⟩ := h
  rw [List.length_append] at hle hat
  refine ⟨by omega, fun i hi => ?_⟩
  rw [hat i (by omega), at'_append, if_pos hi]

theorem right (h : Holds f off (a ++ b)) : Holds f (off + a.length) b := by
  obtain ⟨hle, hat⟩ := h
  rw [List.length_append] at hle hat
  refine ⟨by omega, fun i hi => ?_⟩
  rw [Nat.add_assoc, hat (a.length + i) (by omega), at'_append, if_neg (by omega),
    Nat.add_sub_cancel_left]

theorem both (ha : Holds f off a) (hb : Holds f (off + a.length) b) : Holds f off (a ++ b) := by
  obtain ⟨hle, hat⟩ := hb
  refine ⟨by rw [List.length_append]; omega, fun i hi => ?_⟩
  rw [List.length_append] at hi
  rw [at'_append]
  split_ifs with hlt
  · exact ha.2 i hlt
  · rw [← hat (i - a.length) (by omega), Nat.add_assoc, Nat.add_sub_cancel' (Nat.not_lt.mp hlt)]

theorem readAt (h : Holds f off buf) : f.readAt off buf.length = buf :=
  ext_at' (readAt_length ..) fun i hi => by
    rw [readAt_length] at hi
    rw [at'_readAt hi, h.2 i hi]

theorem of_readAt (hle : off + buf.length ≤ f.length) (h : f.readAt off buf.length = buf) :
    Holds f off buf :=
  ⟨hle, fun i hi => by rw [← at'_readAt hi, h]⟩

theorem drop (h : Holds f off buf) : f.drop off = buf ++ f.drop (off + buf.length) := by
  obtain ⟨hle, hat⟩ := h
  refine ext_at' (by simp only [List.length_drop, List.length_append]; omega) fun i hi => ?_
  have hdrop : ∀ n j, at' (f.drop n) j = f.at' (n + j) := fun n j => by simp [at']
  rw [hdrop, at'_append]
  split_ifs with hlt
  · exact hat i hlt
  · rw [hdrop]
    congr 1
    omega

theorem of_append (a b tail : Bytes) : Holds (a ++ b ++ tail) a.length b := by
  refine ⟨by simp only [List.length_append]; omega, fun i hi => ?_⟩
  rw [at'_append, if_pos (by rw [List.length_append]; omega), at'_append, if_neg (by omega),
    Nat.add_sub_cancel_left]

/-- Appending to the file leaves its bytes where they are. -/
theorem append (h : Holds f off buf) (g : Bytes) : Holds (f ++ g) off buf := by
  obtain ⟨hle, hat⟩ := h
  refine ⟨by rw [List.length_append]; omega, fun i hi => ?_⟩
  rw [at'_append, if_pos (by omega), hat i hi]

/-- Cutting the file off behind the bytes leaves them. -/
theorem setLen (h : Holds f off buf) {len : Nat} (hle : off + buf.length ≤ len) :
    Holds (f.setLen len) off buf := by
  refine ⟨by rwa [setLen_length], fun i hi => ?_⟩
  rw [at'_setLen (by omega), h.2 i hi]

end Holds

/-- Of consecutive records of one width, the one at an index. -/
theorem readAt_flatMap {α : Type*} {encode : α → Bytes} {width : Nat}
    (hwidth : ∀ a, (encode a).length = width) {l : List α} {i : Nat} (hi : i < l.length) :
    readAt (l.flatMap encode) (i * width) width = encode l[i] := by
  have hsplit : l.flatMap encode =
      (l.take i).flatMap encode ++ encode l[i] ++ (l.drop (i + 1)).flatMap encode := by
    conv_lhs => rw [← List.take_append_drop i l, List.drop_eq_getElem_cons hi]
    rw [List.flatMap_append, List.flatMap_cons, List.append_assoc]
  have hfront : ((l.take i).flatMap encode).length = i * width := by
    simp [List.length_flatMap, hwidth, Nat.min_eq_left (Nat.le_of_lt hi)]
  have h := Holds.of_append ((l.take i).flatMap encode) (encode l[i])
    ((l.drop (i + 1)).flatMap encode)
  rw [← hsplit, hfront] at h
  simpa [hwidth] using h.readAt

/-- A part of a file overwritten by as many bytes. -/
theorem writeAt_middle (front old new tail : Bytes) (hlen : old.length = new.length)
    (hne : new ≠ []) : writeAt (front ++ old ++ tail) front.length new = front ++ new ++ tail := by
  apply ext_at'
  · rw [writeAt_length, if_neg hne]
    simp only [List.length_append]
    omega
  · intro i hi
    simp only [at'_writeAt, at'_append, List.length_append, hlen]
    by_cases hfront : i < front.length
    · rw [if_neg (by omega), if_pos (by omega), if_pos hfront, if_pos (by omega), if_pos hfront]
    · by_cases hin : i < front.length + new.length
      · rw [if_pos ⟨Nat.le_of_not_lt hfront, hin⟩, if_pos hin, if_neg hfront]
      · rw [if_neg fun h => hin h.2, if_neg hin, if_neg hin]

/-- The front of a file overwritten. -/
theorem writeAt_zero_append (old new tail : Bytes) (hlen : old.length = new.length)
    (hne : new ≠ []) : writeAt (old ++ tail) 0 new = new ++ tail :=
  writeAt_middle [] old new tail hlen hne

end Bytes

/-! ## Little-endian integers -/

/-- The `n` low bytes of `v`, least significant first. -/
def toLe : Nat → Nat → Bytes
  | 0, _ => []
  | n + 1, v => UInt8.ofNat v :: toLe n (v / 256)

/-- The value of a little-endian byte list. -/
def ofLe : Bytes → Nat
  | [] => 0
  | b :: bs => b.toNat + 256 * ofLe bs

@[simp] theorem toLe_length (n v : Nat) : (toLe n v).length = n := by
  induction n generalizing v with
  | zero => rfl
  | succ n ih => simp [toLe, ih]

theorem ofLe_toLe (n v : Nat) : ofLe (toLe n v) = v % 256 ^ n := by
  induction n generalizing v with
  | zero => simp [toLe, ofLe, Nat.mod_one]
  | succ n ih =>
      have hsplit : v % (256 * 256 ^ n) = v % 256 + 256 * (v / 256 % 256 ^ n) := Nat.mod_mul
      rw [toLe, ofLe, ih, UInt8.toNat_ofNat', Nat.pow_succ' (n := n), hsplit]

/-- Only the low bytes count. -/
theorem toLe_mod (n v : Nat) : toLe n (v % 256 ^ n) = toLe n v := by
  induction n generalizing v with
  | zero => rfl
  | succ n ih =>
      have hsplit : v % 256 ^ (n + 1) = v % 256 + 256 * (v / 256 % 256 ^ n) := by
        rw [Nat.pow_succ', Nat.mod_mul]
      have hlow : UInt8.ofNat (v % 256 + 256 * (v / 256 % 256 ^ n)) = UInt8.ofNat v := by
        apply UInt8.toNat_inj.mp
        rw [UInt8.toNat_ofNat', UInt8.toNat_ofNat']
        omega
      have hhigh : (v % 256 + 256 * (v / 256 % 256 ^ n)) / 256 = v / 256 % 256 ^ n := by
        omega
      rw [hsplit, toLe, toLe, hlow, hhigh, ih]

theorem ofLe_lt (bs : Bytes) : ofLe bs < 256 ^ bs.length := by
  induction bs with
  | nil => exact Nat.one_pos
  | cons b bs ih =>
      have hb : b.toNat < 256 := b.toNat_lt
      rw [ofLe, List.length_cons, Nat.pow_succ']
      omega

/-- The bytes of a value that was read are those it was read from. -/
theorem toLe_ofLe (bs : Bytes) : toLe bs.length (ofLe bs) = bs := by
  induction bs with
  | nil => rfl
  | cons b bs ih =>
      have hb : b.toNat < 256 := b.toNat_lt
      have hlow : UInt8.ofNat (b.toNat + 256 * ofLe bs) = b := by
        apply UInt8.toNat_inj.mp
        rw [UInt8.toNat_ofNat']
        omega
      have hhigh : (b.toNat + 256 * ofLe bs) / 256 = ofLe bs := by omega
      rw [ofLe, List.length_cons, toLe, hlow, hhigh, ih]

end Lib
