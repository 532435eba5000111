import CallCapture.Config
import CallCapture.Proofs.Signature.Counting

/-!
Where the nesting limit lies. An encoded type is decoded if fewer types than the limit stand inside
each other, itself included, and refused by the limit otherwise, whatever comes after it. So a limit
of one, which a configuration may have, refuses every type.
-/

namespace CallCapture

namespace Decoder

variable {start limit : Nat} {bytes : List UInt8} {type : TypeSig}

theorem type_of_below (written : TypeForm start bytes type) (rest : List UInt8)
    (below : type.nesting < limit) :
    Decoder.type ⟨⟨start, bytes ++ rest⟩, 0, limit⟩ =
      .ok type ⟨⟨start + bytes.length, rest⟩, 0, limit⟩ := by
  have read := (Reader.typeWithin_exact limit limit start (bytes ++ rest) type
    ⟨start + bytes.length, rest⟩).mpr ⟨bytes, rfl, rfl, written, below⟩
  exact type_eq_ok_iff.mpr ⟨_, read, rfl⟩

/-- A type that is too deep is decoded below a higher limit, so only this limit can refuse it. -/
theorem type_of_above (written : TypeForm start bytes type) (rest : List UInt8)
    (above : limit ≤ type.nesting) :
    ∃ stopped, Decoder.type ⟨⟨start, bytes ++ rest⟩, 0, limit⟩ =
      .error (.recursionLimit limit) stopped := by
  have read := (Reader.typeWithin_exact (type.nesting + 1) (type.nesting + 1) start (bytes ++ rest)
    type ⟨start + bytes.length, rest⟩).mpr ⟨bytes, rfl, rfl, written, Nat.lt_succ_self _⟩
  have follows : Follows (place 0 0 limit) (· = .recursionLimit limit) (TypeSig.moved 0)
      Decoder.type (Reader.type (type.nesting + 1)) :=
    type_follows (Nat.le_succ_of_le above) (.inl rfl)
  have matched := follows ⟨start, bytes ++ rest⟩
  rw [Reader.type, read] at matched
  change Matches _ _ _ _ (Decoder.type ⟨⟨start, bytes ++ rest⟩, 0, limit⟩) _ at matched
  cases outcome : Decoder.type ⟨⟨start, bytes ++ rest⟩, 0, limit⟩ with
  | ok found after =>
      rw [outcome] at matched
      cases matched with
      | ok =>
          obtain ⟨_, accepted, _⟩ := type_eq_ok_iff.mp outcome
          rw [TypeSig.moved_zero] at accepted
          obtain ⟨_, _, _, within⟩ := (Reader.typeWithin_exact limit limit _ _ _ _).mp accepted
          exact absurd within.2 (Nat.not_lt.mpr above)
  | error error stopped =>
      rw [outcome] at matched
      cases matched with
      | excused same => exact ⟨stopped, by rw [same]⟩

/-- The limit is the least number of types inside each other that it refuses. -/
theorem type_boundary (limit : Nat) (written : TypeForm start bytes type) (rest : List UInt8) :
    (type.nesting < limit → Decoder.type ⟨⟨start, bytes ++ rest⟩, 0, limit⟩ =
        .ok type ⟨⟨start + bytes.length, rest⟩, 0, limit⟩) ∧
      (limit ≤ type.nesting → ∃ stopped, Decoder.type ⟨⟨start, bytes ++ rest⟩, 0, limit⟩ =
        .error (.recursionLimit limit) stopped) :=
  ⟨type_of_below written rest, type_of_above written rest⟩

/-- An array of pointers to functions that take a pointer to a modified number: five types. -/
theorem type_boundary_pointers :
    let bytes : List UInt8 := [0x1D, 0x1B, 0x00, 0x01, 0x01, 0x0F, 0x1F, 0x42, 0x08]
    let number : TypeSig := .modified [⟨true, ⟨0x1B000010⟩⟩] (.leaf .i4)
    let type : TypeSig := .wrapped .szArray (.functionPointer ⟨.ofHeader 0, 0,
      ⟨[], false, .leaf .void, ⟨4, 5⟩⟩, [⟨[], false, .wrapped .pointer number, ⟨5, 9⟩⟩], []⟩)
    TypeForm 0 bytes type ∧ type.nesting = 5 ∧
      Decoder.type (.ofBytes 6 bytes) = .ok type ⟨⟨9, []⟩, 0, 6⟩ ∧
      ∃ stopped, Decoder.type (.ofBytes 5 bytes) = .error (.recursionLimit 5) stopped := by
  intro bytes number type
  have written : TypeForm 0 bytes type := ((Reader.typeWithin_exact 6 6).whole_iff.mp rfl).1
  have above := (type_boundary 6 written []).1 (by decide)
  have below := (type_boundary 5 written []).2 (by decide)
  exact ⟨written, rfl, above, below⟩

/-- A configuration may set a limit of one, and a number is one type, but the limit refuses it. -/
theorem single_type_refused :
    ({ Config.initial with maxRecursionDepth := 1 } : Config).validate = .ok () ∧
      TypeForm 0 [0x08] (.leaf .i4) ∧ (TypeSig.leaf .i4).nesting ≤ 1 ∧
      Decoder.type (.ofBytes 1 [0x08]) = .error (.recursionLimit 1) (.ofBytes 1 [0x08]) := by
  have number : TypeForm 0 [(Element.leaf .i4).code] (.leaf .i4) :=
    .intro (.leaf .i4) (.leaf 1 .i4)
  exact ⟨rfl, number, Nat.le_refl 1, rfl⟩

end Decoder

end CallCapture
