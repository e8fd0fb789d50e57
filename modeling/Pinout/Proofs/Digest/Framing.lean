import Pinout.Digest.Framing

/-! Digests of several parts. The length in front of each part says where the part ends, so that
the bytes that are hashed give the parts back. Equal digests of different parts are therefore two
different messages with one hash. -/

set_option autoImplicit false

namespace Pinout.Digest

variable {left right : List (List UInt8)} {part other rest tail : List UInt8} {length : Nat}

/-- Parts whose lengths fit in the bytes in front of them. -/
def Measured (parts : List (List UInt8)) : Prop :=
  ∀ part ∈ parts, part.length < UInt64.size

instance (parts : List (List UInt8)) : Decidable (Measured parts) :=
  List.decidableBAll _ _

/-- Two messages with one hash. -/
structure Collision (first second : List UInt8) : Prop where
  apart : first ≠ second
  digest : Sha256.digest first = Sha256.digest second

/-! ## Lengths -/

theorem length_lengthBytes (length : Nat) : (lengthBytes length).length = 8 := by
  simp [lengthBytes]

/-- The number that bytes spell, the least significant one first. -/
def littleEndian (bytes : List UInt8) : Nat :=
  bytes.foldr (fun byte value => byte.toNat + 256 * value) 0

theorem littleEndian_lengthBytes (fits : length < UInt64.size) :
    littleEndian (lengthBytes length) = length := by
  simp only [littleEndian, lengthBytes, List.foldr_map]
  simp only [List.range, List.range.loop, List.foldr_cons, List.foldr_nil, UInt8.toNat_ofNat',
    Nat.shiftRight_eq_div_pow]
  rw [UInt64.size] at fits
  omega

/-! ## Streams -/

/-- A part with its length in front ends where the length says, whatever comes behind it. -/
theorem measured_append_inj (fits : part.length < UInt64.size) (fits' : other.length < UInt64.size) :
    lengthBytes part.length ++ part ++ rest = lengthBytes other.length ++ other ++ tail ↔
      part = other ∧ rest = tail := by
  constructor
  · intro same
    rw [List.append_assoc, List.append_assoc] at same
    obtain ⟨lengths, bodies⟩ :=
      List.append_inj same (by rw [length_lengthBytes, length_lengthBytes])
    have measured : part.length = other.length := by
      rw [← littleEndian_lengthBytes fits, lengths, littleEndian_lengthBytes fits']
    exact List.append_inj bodies measured
  · rintro ⟨rfl, rfl⟩
    rfl

theorem frame_cons (part : List UInt8) (parts : List (List UInt8)) :
    frame (part :: parts) = lengthBytes part.length ++ part ++ frame parts :=
  List.flatMap_cons

theorem frame_cons_ne_nil (part : List UInt8) (parts : List (List UInt8)) :
    frame (part :: parts) ≠ [] := by
  intro empty
  have length := congrArg List.length empty
  simp [frame_cons, length_lengthBytes] at length

theorem eq_of_frame_eq (fits : Measured left) (fits' : Measured right)
    (same : frame left = frame right) : left = right := by
  induction left generalizing right with
  | nil =>
      cases right with
      | nil => rfl
      | cons other others => exact absurd same.symm (frame_cons_ne_nil other others)
  | cons part parts ih =>
      cases right with
      | nil => exact absurd same (frame_cons_ne_nil part parts)
      | cons other others =>
          obtain ⟨short, fits⟩ := List.forall_mem_cons.mp fits
          obtain ⟨short', fits'⟩ := List.forall_mem_cons.mp fits'
          rw [frame_cons, frame_cons, measured_append_inj short short'] at same
          rw [same.1, ih fits fits' same.2]

/-- What equal streams and equal digests say about the parts. -/
structure Unambiguous (left right : List (List UInt8)) : Prop where
  stream : frame left = frame right ↔ left = right
  digest : ofParts left = ofParts right ↔ left = right ∨ Collision (frame left) (frame right)

/-- Different parts give different streams, and one digest only where the hash collides. -/
theorem unambiguous_frame (fits : Measured left) (fits' : Measured right) :
    Unambiguous left right := by
  have stream : frame left = frame right ↔ left = right :=
    ⟨eq_of_frame_eq fits fits', congrArg frame⟩
  refine ⟨stream, ?_⟩
  constructor
  · intro same
    by_cases equal : left = right
    · exact .inl equal
    · exact .inr ⟨fun streams => equal (stream.mp streams), same⟩
  · rintro (rfl | collision)
    · rfl
    · exact collision.digest

/-- A part that reads like the length of another one is told from it. -/
theorem frame_lengthlike :
    Measured [[1, 0, 0, 0, 0, 0, 0, 0], [7]] ∧ Measured [[1, 0, 0, 0, 0, 0, 0, 0, 7]] ∧
      frame [[1, 0, 0, 0, 0, 0, 0, 0], [7]] ≠ frame [[1, 0, 0, 0, 0, 0, 0, 0, 7]] := by
  refine ⟨by decide, by decide, fun same => ?_⟩
  exact absurd ((unambiguous_frame (by decide) (by decide)).stream.mp same) (by decide)

end Pinout.Digest
