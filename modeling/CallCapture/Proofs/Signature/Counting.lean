import CallCapture.Proofs.Bytes.Following
import CallCapture.Proofs.Signature.Relocation
import CallCapture.Signature.Decoder

/-!
The decoder that counts types follows the readers that carry a budget of types. So what it reads is
what they read, and the count is after each read what it was before, wherever the decoder stands and
whether or not the read failed.
-/

namespace CallCapture

namespace Reader

theorem times_steady {α : Type} {item : Reader α} (steady : item.Steady) (count : Nat) :
    (times item count).Steady := by
  induction count with
  | zero => exact pure_steady []
  | succ count ih => exact steady.bind fun first => ih.bind fun others => pure_steady _

theorem count_steady (items : Counted) : (count items).Steady := by
  refine compressed_steady.bind fun announced => remaining_steady.bind fun left => ?_
  exact .ite (throw_steady _) (pure_steady announced)

theorem accept_steady (code : UInt8) : (accept code).Steady := by
  refine peek_steady.bind fun first => ?_
  exact .ite ((skip_steady 1).bind fun _ => pure_steady true) (pure_steady false)

theorem modifiersWithin_steady (fuel : Nat) : (modifiersWithin fuel).Steady := by
  induction fuel with
  | zero => exact pure_steady []
  | succ fuel ih =>
      intro distance excused cursor
      have read (required : Bool) := (skip_steady 1).bind fun _ => token_steady.bind fun type =>
        ih.bind fun others => pure_steady (Modifier.mk required type :: others)
      simp only [modifiersWithin, Cursor.moved]
      split
      next required _ => exact read required distance excused cursor
      next => exact .ok (.refl cursor)

theorem modifiers_steady : modifiers.Steady :=
  remaining_steady.bind modifiersWithin_steady

theorem modifierTokens_steady : modifierTokens.Steady :=
  modifiers_steady.bind fun _ => pure_steady _

theorem skipBounds_steady : skipBounds.Steady :=
  compressed_steady.bind fun bounds =>
    (times_steady compressed_steady bounds).bind fun _ => pure_steady ()

theorem localPrelude_steady (fuel : Nat) : (localPrelude fuel).Steady := by
  induction fuel with
  | zero => exact throw_steady .outOfBounds
  | succ fuel ih =>
      refine modifierTokens_steady.bind fun modifiers => (accept_steady _).bind fun pinned => ?_
      exact .ite (ih.bind fun others => pure_steady _) (pure_steady _)

end Reader

def LocalSig.moved (distance : Nat) (slot : LocalSig) : LocalSig :=
  { slot with type := slot.type.moved distance }

theorem LocalSig.moved_zero : LocalSig.moved 0 = id :=
  funext fun slot => congrArg (LocalSig.mk slot.modifiers slot.byRef slot.pinned) slot.type.moved_zero

namespace Decoder

/-- A decoder that has counted `depth` types and stands further into a blob than the cursor. -/
def place (distance depth limit : Nat) (cursor : Cursor) : Decoder :=
  ⟨cursor.moved distance, depth, limit⟩

variable {distance depth limit : Nat} {excused : Error → Prop}

theorem lift_follows {α : Type} {move : α → α} {reader : Reader α}
    (follows : Follows (Cursor.moved distance) excused move reader reader) :
    Follows (place distance depth limit) excused move (liftM reader : Decoding α) reader := by
  intro cursor
  have matched := follows cursor
  change Matches _ _ _ _ ((place distance depth limit cursor).advance
    (reader (cursor.moved distance))) _
  generalize reader (cursor.moved distance) = left at matched
  generalize reader cursor = right at matched
  cases matched with
  | ok reached => exact .ok reached
  | error reached => exact .error reached
  | excused allowed => exact .excused allowed

theorem steady_follows {α : Type} {reader : Reader α} (steady : reader.Steady) :
    Follows (place distance depth limit) excused id (liftM reader : Decoding α) reader :=
  lift_follows (steady distance excused)

theorem times_follows {α : Type} {move : α → α} {item : Decoding α} {reader : Reader α}
    (follows : Follows (place distance depth limit) excused move item reader) (count : Nat) :
    Follows (place distance depth limit) excused (List.map move) (times item count)
      (reader.times count) := by
  induction count with
  | zero => exact .pure _ []
  | succ count ih => exact follows.bind fun first => ih.bind fun others => .pure _ (first :: others)

section Nested

variable {nested : Decoding TypeSig} {reader : Reader TypeSig}
  (follows : Follows (place distance depth limit) excused (TypeSig.moved distance) nested reader)

include follows

theorem parameter_follows :
    Follows (place distance depth limit) excused (ParameterSig.moved distance) (parameter nested)
      (Reader.parameter reader) := by
  refine (steady_follows Reader.modifierTokens_steady).bind fun modifiers => ?_
  refine (steady_follows (Reader.accept_steady _)).bind fun byRef => ?_
  refine (lift_follows (Reader.pos_follows distance excused)).bind fun start => ?_
  refine follows.bind fun type => ?_
  refine (lift_follows (Reader.pos_follows distance excused)).bind fun stop => ?_
  exact .pure (ParameterSig.moved distance) ⟨modifiers, byRef, type, ⟨start, stop⟩⟩

theorem varargs_follows (count : Nat) :
    Follows (place distance depth limit) excused (ParameterSig.movedAll distance)
      (times (parameter nested) count) (Reader.varargs reader count) := by
  have all := times_follows (parameter_follows follows) count
  rwa [← funext (ParameterSig.movedAll_eq_map distance)] at all

theorem parameters_follows (count : Nat) :
    Follows (place distance depth limit) excused
      (fun value => (ParameterSig.movedAll distance value.1, ParameterSig.movedAll distance value.2))
      (parameters nested count) (Reader.parameters reader count) := by
  induction count with
  | zero => exact .pure _ ([], [])
  | succ count ih =>
      refine (steady_follows (Reader.accept_steady sentinelCode)).bind fun sentinel => ?_
      refine .ite ?_ ?_
      · exact (varargs_follows follows (count + 1)).bind fun after => .pure _ ([], after)
      · exact (parameter_follows follows).bind fun first => ih.bind fun others =>
          .pure _ (first :: others.1, others.2)

/-- What follows the header and the number of generic parameters. -/
theorem countedOver_follows (convention : CallingConvention) (genericCount : Nat) :
    Follows (place distance depth limit) excused (MethodSig.moved distance)
      (do
        let announced ← Reader.count .parameter
        let returnType ← parameter nested
        let (fixed, after) ← parameters nested announced
        return ⟨convention, genericCount, returnType, fixed, after⟩)
      (Reader.countedOver reader convention genericCount) := by
  refine (steady_follows (Reader.count_steady .parameter)).bind fun announced => ?_
  refine (parameter_follows follows).bind fun returnType => ?_
  refine (parameters_follows follows announced).bind fun others => ?_
  exact .pure (MethodSig.moved distance)
    ⟨convention, genericCount, returnType, others.1, others.2⟩

theorem methodOver_follows :
    Follows (place distance depth limit) excused (MethodSig.moved distance) (methodOver nested)
      (Reader.methodOver reader) := by
  refine (steady_follows Reader.byte_steady).bind fun header => .ite ?_ ?_
  · exact (steady_follows Reader.compressed_steady).bind (countedOver_follows follows (.ofHeader header))
  · exact (Follows.pure id 0).bind (countedOver_follows follows (.ofHeader header))

theorem instantiation_follows :
    Follows (place distance depth limit) excused (TypeSig.moved distance) (instantiation nested)
      (Reader.instantiation reader) := by
  refine (steady_follows Reader.peek_steady).bind fun code => ?_
  simp only [id]
  have applied : Follows (place distance depth limit) excused (TypeSig.moved distance)
      (do
        let generic ← nested
        let announced ← Reader.count .genericArgument
        return .instantiation generic (← times nested announced))
      (do
        let generic ← reader
        let announced ← Reader.count .genericArgument
        return .instantiation generic (← Reader.times reader announced)) := by
    refine follows.bind fun generic => ?_
    refine (steady_follows (Reader.count_steady .genericArgument)).bind fun announced => ?_
    have arguments := times_follows follows announced
    rw [← funext (TypeSig.movedAll_eq_map distance)] at arguments
    exact arguments.bind fun arguments => .pure _ (TypeSig.instantiation generic arguments)
  cases Element.ofCode? code with
  | none => exact .throw _
  | some element =>
      cases element with
      | named kind => exact applied
      | _ => exact .throw _

theorem contents_follows :
    Follows (place distance depth limit) excused (TypeSig.moved distance) (contents nested)
      (Reader.typeOver reader) := by
  refine (steady_follows Reader.byte_steady).bind fun code => ?_
  simp only [id]
  cases Element.ofCode? code with
  | none => exact .throw _
  | some element =>
      cases element with
      | leaf kind => exact .pure _ (TypeSig.leaf kind)
      | wrapper kind => exact follows.bind fun inner => .pure _ (TypeSig.wrapped kind inner)
      | named kind =>
          exact (steady_follows Reader.token_steady).bind fun token =>
            .pure _ (TypeSig.named kind token)
      | genericParameter owner =>
          exact (steady_follows Reader.compressed_steady).bind fun index =>
            .pure _ (TypeSig.genericParameter owner index)
      | array =>
          refine follows.bind fun element => ?_
          refine (steady_follows Reader.compressed_steady).bind fun rank => ?_
          refine (steady_follows Reader.skipBounds_steady).bind fun _ => ?_
          refine (steady_follows Reader.skipBounds_steady).bind fun _ => ?_
          exact .pure _ (TypeSig.array element rank)
      | instantiation => exact instantiation_follows follows
      | functionPointer =>
          exact (methodOver_follows follows).bind fun signature =>
            .pure _ (TypeSig.functionPointer signature)
      | modifier required =>
          refine (steady_follows Reader.token_steady).bind fun first => ?_
          refine (steady_follows Reader.modifiers_steady).bind fun others => ?_
          exact follows.bind fun base => .pure _ (TypeSig.modified (⟨required, first⟩ :: others) base)

end Nested

theorem counted_follows {α : Type} {move : α → α} {contents : Decoding α} {reader : Reader α}
    (admitted : depth + 1 < limit)
    (follows : Follows (place distance (depth + 1) limit) excused move contents reader) :
    Follows (place distance depth limit) excused move (counted contents) reader := by
  intro cursor
  have matched := follows cursor
  have below : ¬ limit ≤ depth + 1 := Nat.not_le.mpr admitted
  simp only [counted, place, below, if_false]
  simp only [place] at matched
  generalize contents ⟨cursor.moved distance, depth + 1, limit⟩ = left at matched
  generalize reader cursor = right at matched
  cases matched with
  | ok reached => exact .ok reached
  | error reached => exact .error reached
  | excused allowed => exact .excused allowed

theorem typeWithin_refused (room : Nat) (cursor : Cursor) (refused : limit ≤ depth + 1) :
    typeWithin room ⟨cursor, depth, limit⟩ =
      .error (.recursionLimit limit) ⟨cursor, depth, limit⟩ := by
  cases room with
  | zero => rfl
  | succ room => exact if_pos refused

/-- Where the count refuses a type, the budget does as well, unless there is an excuse. -/
theorem refused_follows {room budget whole : Nat} (refused : limit ≤ depth + 1)
    (together : excused (.recursionLimit limit) ∨ whole = limit ∧ depth + budget ≤ limit) :
    Follows (place distance depth limit) excused (TypeSig.moved distance) (typeWithin room)
      (Reader.typeWithin whole budget) := by
  intro cursor
  rw [place, typeWithin_refused room _ refused]
  rcases together with allowed | ⟨same, fits⟩
  · exact .excused allowed
  · have spent : budget ≤ 1 := by omega
    subst same
    match budget, spent with
    | 0, _ => exact .error (.refl cursor)
    | 1, _ => exact .error (.refl cursor)

/-- The count refuses no type that the budget refuses later, and earlier ones with an excuse only. -/
theorem typeWithin_follows {room budget whole : Nat} (roomy : limit ≤ depth + room)
    (covered : limit ≤ depth + budget)
    (together : excused (.recursionLimit limit) ∨ whole = limit ∧ depth + budget ≤ limit) :
    Follows (place distance depth limit) excused (TypeSig.moved distance) (typeWithin room)
      (Reader.typeWithin whole budget) := by
  induction room generalizing depth budget with
  | zero => exact refused_follows (Nat.le_succ_of_le roomy) together
  | succ room ih =>
      by_cases refused : limit ≤ depth + 1
      · exact refused_follows refused together
      · obtain ⟨left, rfl⟩ : ∃ left, budget = left + 2 := ⟨budget - 2, by omega⟩
        have within : excused (.recursionLimit limit) ∨
            whole = limit ∧ depth + 1 + (left + 1) ≤ limit :=
          together.imp_right fun ⟨same, fits⟩ => ⟨same, by omega⟩
        have inner := ih (by omega) (by omega) within
        exact counted_follows (Nat.lt_of_not_le refused) (contents_follows inner)

/-- The limit itself is room enough at any depth. -/
theorem type_follows_at {budget whole : Nat} (covered : limit ≤ depth + budget)
    (together : excused (.recursionLimit limit) ∨ whole = limit ∧ depth + budget ≤ limit) :
    Follows (place distance depth limit) excused (TypeSig.moved distance) type
      (Reader.typeWithin whole budget) := by
  have follows : Follows (place distance depth limit) excused (TypeSig.moved distance)
      (typeWithin limit) (Reader.typeWithin whole budget) :=
    typeWithin_follows (Nat.le_add_left limit depth) covered together
  exact fun cursor => follows cursor

theorem type_follows {whole : Nat} (covered : limit ≤ whole)
    (together : excused (.recursionLimit limit) ∨ whole = limit) :
    Follows (place distance 0 limit) excused (TypeSig.moved distance) type (Reader.type whole) := by
  apply type_follows_at
  · omega
  · exact together.imp_right fun same => ⟨same, by omega⟩

theorem method_follows :
    Follows (place distance 0 limit) excused (MethodSig.moved distance) method
      (Reader.method limit) :=
  methodOver_follows (type_follows (Nat.le_refl limit) (.inr rfl))

theorem localVariable_follows :
    Follows (place distance 0 limit) excused (LocalSig.moved distance) localVariable
      (Reader.localVariable limit) := by
  refine (steady_follows (Reader.accept_steady _)).bind fun typedReference => .ite ?_ ?_
  · exact .pure (LocalSig.moved distance) ⟨[], false, false, .leaf .typedByRef⟩
  · refine (steady_follows Reader.remaining_steady).bind fun left => ?_
    refine (steady_follows (Reader.localPrelude_steady left)).bind fun marks => ?_
    refine (steady_follows (Reader.accept_steady _)).bind fun byRef => ?_
    refine (type_follows (Nat.le_refl limit) (.inr rfl)).bind fun type => ?_
    exact .pure (LocalSig.moved distance) ⟨marks.1, byRef, marks.2, type⟩

theorem localVariables_follows :
    Follows (place distance 0 limit) excused (List.map (LocalSig.moved distance)) localVariables
      (Reader.localVariables limit) := by
  refine (steady_follows Reader.byte_steady).bind fun header => .ite (.throw _) ?_
  refine (steady_follows (Reader.count_steady .localVariable)).bind fun announced => ?_
  exact times_follows localVariable_follows announced

theorem lift_eq_ok_iff {α : Type} {reader : Reader α} {decoder after : Decoder} {value : α} :
    (liftM reader : Decoding α) decoder = .ok value after ↔
      ∃ later, reader decoder.cursor = .ok value later ∧ after = { decoder with cursor := later } := by
  change decoder.advance (reader decoder.cursor) = .ok value after ↔ _
  cases reader decoder.cursor with
  | ok found later =>
      simp only [advance, EStateM.Result.ok.injEq]
      constructor
      · intro same
        exact ⟨later, ⟨same.1, rfl⟩, same.2.symm⟩
      · intro same
        obtain ⟨_, ⟨found, rfl⟩, reached⟩ := same
        exact ⟨found, reached.symm⟩
  | error => simp [advance]

theorem eq_lift {α : Type} {move : α → α} {process : Decoding α} {reader : Reader α}
    (follows : Follows (place 0 depth limit) (fun _ => False) move process reader)
    (stays : ∀ value, move value = value) (cursor : Cursor) :
    process ⟨cursor, depth, limit⟩ = (liftM reader : Decoding α) ⟨cursor, depth, limit⟩ := by
  have matched := follows cursor
  change process (place 0 depth limit cursor) =
    (place 0 depth limit cursor).advance (reader cursor)
  generalize reader cursor = right at matched
  cases right with
  | ok value after =>
      rw [matched.of_ok.2, stays value]
      rfl
  | error error after => exact matched.of_error.2

/-- The room for nested types is never what a decoder runs out of, so it reads a type by counting it
and reading what is inside, for which it reads types. -/
theorem type_unfold : type = counted (contents type) := by
  funext decoder
  obtain ⟨cursor, depth, limit⟩ := decoder
  by_cases refused : limit ≤ depth + 1
  · have left : type ⟨cursor, depth, limit⟩ = .error (.recursionLimit limit) ⟨cursor, depth, limit⟩ :=
      typeWithin_refused limit cursor refused
    have right : counted (contents type) ⟨cursor, depth, limit⟩ =
        .error (.recursionLimit limit) ⟨cursor, depth, limit⟩ := if_pos refused
    rw [left, right]
  · -- Both sides follow the reader whose budget is what is left to be counted.
    obtain ⟨left, rfl⟩ : ∃ left, limit = depth + (left + 2) := ⟨limit - depth - 2, by omega⟩
    have outer : Follows (place 0 depth (depth + (left + 2))) (fun _ => False) (TypeSig.moved 0) type
        (Reader.typeWithin (depth + (left + 2)) (left + 2)) :=
      type_follows_at (Nat.le_refl _) (.inr ⟨rfl, Nat.le_refl _⟩)
    have inner : Follows (place 0 (depth + 1) (depth + (left + 2))) (fun _ => False)
        (TypeSig.moved 0) type (Reader.typeWithin (depth + (left + 2)) (left + 1)) :=
      type_follows_at (by omega) (.inr ⟨rfl, by omega⟩)
    have counted := counted_follows (by omega) (contents_follows inner)
    rw [eq_lift outer TypeSig.moved_zero, eq_lift counted TypeSig.moved_zero]
    rfl

/-! A decoder that is inside of no type reads just as the readers do. -/

theorem type_eq (limit : Nat) (cursor : Cursor) :
    type ⟨cursor, 0, limit⟩ = (liftM (Reader.type limit) : Decoding TypeSig) ⟨cursor, 0, limit⟩ :=
  eq_lift (type_follows (Nat.le_refl limit) (.inr rfl)) TypeSig.moved_zero cursor

theorem type_eq_ok_iff {cursor : Cursor} {after : Decoder} {value : TypeSig} :
    type ⟨cursor, 0, limit⟩ = .ok value after ↔
      ∃ later, Reader.type limit cursor = .ok value later ∧ after = ⟨later, 0, limit⟩ := by
  rw [type_eq, lift_eq_ok_iff]

theorem method_eq (limit : Nat) (cursor : Cursor) :
    method ⟨cursor, 0, limit⟩ =
      (liftM (Reader.method limit) : Decoding MethodSig) ⟨cursor, 0, limit⟩ :=
  eq_lift method_follows MethodSig.moved_zero cursor

theorem method_eq_ok_iff {cursor : Cursor} {after : Decoder} {signature : MethodSig} :
    method ⟨cursor, 0, limit⟩ = .ok signature after ↔
      ∃ later, Reader.method limit cursor = .ok signature later ∧ after = ⟨later, 0, limit⟩ := by
  rw [method_eq, lift_eq_ok_iff]

theorem localVariables_eq (limit : Nat) (cursor : Cursor) :
    localVariables ⟨cursor, 0, limit⟩ =
      (liftM (Reader.localVariables limit) : Decoding (List LocalSig)) ⟨cursor, 0, limit⟩ := by
  have stays : ∀ locals : List LocalSig, locals.map (LocalSig.moved 0) = locals := fun locals => by
    rw [LocalSig.moved_zero, List.map_id]
  exact eq_lift localVariables_follows stays cursor

end Decoder

end CallCapture
