import Hprd.Core.Bytes

/-!
# Length-prefixed frames

A frame is a 32-bit length in network order and that many bytes. The lemmas say
what a reader can tell from the beginning of a byte stream: the declared length,
whether the whole frame is there, and what is left after it.
-/

namespace Hprd.Core

def frame (p : Bytes) : Bytes := be32 (UInt32.ofNat p.length) ++ p

def frames (ps : List Bytes) : Bytes := ps.flatMap frame

/-- The length the first four bytes declare. -/
def declared (bs : Bytes) : Nat := (ofBe32 (bs.take 4)).toNat

/-- A proper prefix of a frame whose length is between 1 and `bound`. -/
def PartialFrame (bound : Nat) (bs : Bytes) : Prop :=
  ∃ p : Bytes, 0 < p.length ∧ p.length ≤ bound ∧ bs <+: frame p ∧ bs ≠ frame p

@[simp] theorem frame_length (p : Bytes) : (frame p).length = 4 + p.length := by simp [frame]

@[simp] theorem frames_nil : frames [] = [] := rfl

@[simp] theorem frames_cons (p : Bytes) (ps : List Bytes) :
    frames (p :: ps) = frame p ++ frames ps := rfl

theorem frames_append (ps qs : List Bytes) : frames (ps ++ qs) = frames ps ++ frames qs := by
  simp [frames]

theorem frame_ne_nil (p : Bytes) : frame p ≠ [] := by
  intro h
  have := congrArg List.length h
  simp at this

theorem declared_lt (bs : Bytes) : declared bs < 2 ^ 32 := (ofBe32 (bs.take 4)).toNat_lt

theorem declared_append {bs : Bytes} (cs : Bytes) (h : 4 ≤ bs.length) :
    declared (bs ++ cs) = declared bs := by
  rw [declared, declared, List.take_append_of_le_length h]

theorem declared_frame {p : Bytes} (h : p.length < 2 ^ 32) : declared (frame p) = p.length := by
  rw [declared, frame, List.take_append_of_le_length (by simp), List.take_of_length_le (by simp),
    ofBe32_be32, UInt32.toNat_ofNat']
  omega

theorem frame_drop (p : Bytes) : (frame p).drop 4 = p := by
  rw [frame, List.drop_append_of_le_length (by simp), List.drop_of_length_le (by simp)]
  rfl

/-- A prefix of a frame that shows its four length bytes declares the frame's length. -/
theorem declared_of_prefix {bs p : Bytes} (h : bs <+: frame p) (hlen : 4 ≤ bs.length)
    (hp : p.length < 2 ^ 32) : declared bs = p.length := by
  obtain ⟨cs, hcs⟩ := h
  rw [← declared_append cs hlen, hcs, declared_frame hp]

/-- The bytes from the front of the stream that a declared length asks for make a frame. -/
theorem take_eq_frame {bs : Bytes} (h : 4 + declared bs ≤ bs.length) :
    bs.take (4 + declared bs) = frame ((bs.drop 4).take (declared bs)) := by
  have hlen : ((bs.drop 4).take (declared bs)).length = declared bs := by
    rw [List.length_take, List.length_drop]
    omega
  have hhdr : be32 (UInt32.ofNat (declared bs)) = bs.take 4 := by
    have hw : UInt32.ofNat (declared bs) = ofBe32 (bs.take 4) := by
      rw [declared, UInt32.ofNat_toNat]
    rw [hw, be32_ofBe32]
    rw [List.length_take]
    omega
  rw [frame, hlen, hhdr, List.take_add]

theorem eq_frame_append {bs : Bytes} (h : 4 + declared bs ≤ bs.length) :
    bs = frame ((bs.drop 4).take (declared bs)) ++ bs.drop (4 + declared bs) := by
  rw [← take_eq_frame h, List.take_append_drop]

theorem PartialFrame.lt_declared {bound : Nat} {bs : Bytes} (h : PartialFrame bound bs)
    (hbound : bound < 2 ^ 32) (hlen : 4 ≤ bs.length) :
    0 < declared bs ∧ declared bs ≤ bound ∧ bs.length < 4 + declared bs := by
  obtain ⟨p, hpos, hle, hpre, hne⟩ := h
  have hd := declared_of_prefix hpre hlen (Nat.lt_of_le_of_lt hle hbound)
  rw [hd]
  refine ⟨hpos, hle, ?_⟩
  have hlt := Nat.lt_of_le_of_ne hpre.length_le
    fun he => hne (hpre.eq_of_length he)
  simpa using hlt

theorem partialFrame_nil {bound : Nat} (h : 0 < bound) : PartialFrame bound [] :=
  ⟨[0], by simp, by simp; omega, List.nil_prefix, (frame_ne_nil _).symm⟩

end Hprd.Core
