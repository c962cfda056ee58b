import Mathlib.Data.BitVec

/-!
# Byte order

32-bit words and the four bytes they are in memory.
-/

inductive Endian
  | little
  | big
  deriving DecidableEq, Repr

structure Octets where
  a : BitVec 8
  b : BitVec 8
  c : BitVec 8
  d : BitVec 8
  deriving DecidableEq, Repr

namespace Octets

def reverse (o : Octets) : Octets := ⟨o.d, o.c, o.b, o.a⟩

/-- The most significant byte comes first. -/
def ofWord (w : BitVec 32) : Octets := ⟨w.extractLsb' 24 8, w.extractLsb' 16 8, w.extractLsb' 8 8,
    w.extractLsb' 0 8⟩

def toWord (o : Octets) : BitVec 32 := o.a ++ o.b ++ o.c ++ o.d

@[simp] theorem reverse_reverse (o : Octets) : o.reverse.reverse = o := rfl

@[simp] theorem ofWord_toWord (o : Octets) : ofWord o.toWord = o := by
  obtain ⟨a, b, c, d⟩ := o
  simp only [ofWord, toWord, Octets.mk.injEq]
  refine ⟨?_, ?_, ?_, ?_⟩ <;> ext i hi <;> simp <;> grind

@[simp] theorem toWord_ofWord (w : BitVec 32) : (ofWord w).toWord = w := by
  ext i hi
  simp [ofWord, toWord]
  grind

end Octets

/-- `to_ne_bytes`. -/
def Endian.bytes : Endian → BitVec 32 → Octets
  | .big, w => .ofWord w
  | .little, w => (Octets.ofWord w).reverse

/-- `from_ne_bytes`. -/
def Endian.word : Endian → Octets → BitVec 32
  | .big, o => o.toWord
  | .little, o => o.reverse.toWord

@[simp] theorem Endian.bytes_word (e : Endian) (o : Octets) : e.bytes (e.word o) = o := by
  cases e <;> simp [bytes, word]

theorem Endian.word_inj {e : Endian} (h : e.word o = e.word o') : o = o' := by
  rw [← e.bytes_word o, h, e.bytes_word]
