import CallCapture.Boxing.Classification

/-!
Which slot holds the instruction of which argument. The slots that introspection leaves pending are
resolved one by one, each where its own parameter stands, so that every argument gets what is decided
about its parameter alone.
-/

namespace CallCapture

namespace Boxing

variable {limit : Nat} {module : LoadedModule} {method : Method}

/-- The instruction of the parameter at an index, by introspection or else by the signature. -/
def ofDeclared (limit : Nat) (module : LoadedModule) (method : Method)
    (decoded : Option (List ParameterSig)) (parameter : Parameter) (index : Nat) : Boxing :=
  match ofType? module parameter.type with
  | some instruction => instruction
  | none =>
      match decoded.bind (·[index]?) with
      | some parameter => ofParameter limit module method.signature parameter
      | none => .unsupported

theorem ofDeclared_of_decided {parameter : Parameter} {instruction : Boxing}
    (decided : ofType? module parameter.type = some instruction)
    (decoded : Option (List ParameterSig)) (index : Nat) :
    ofDeclared limit module method decoded parameter index = instruction := by
  simp only [ofDeclared, decided]

/-- What introspection puts into the slot of a parameter. -/
def initial (module : LoadedModule) (parameter : Parameter) : Boxing :=
  (ofType? module parameter.type).getD .unsupported

/-- The slots that are left pending, behind that of an implicit `this` if there is one. -/
def pendingSlots (module : LoadedModule) (receivers : Nat) :
    List (Parameter × Nat) → List (Nat × Nat)
  | [] => []
  | (parameter, index) :: rest =>
      if ofType? module parameter.type = none then
        (receivers + index, index) :: pendingSlots module receivers rest
      else pendingSlots module receivers rest

theorem foldl_introspect (parameters : List Parameter) {receivers index : Nat}
    {instructions : List Boxing} (filled : instructions.length = receivers + index)
    (pending : List (Nat × Nat)) :
    (parameters.zipIdx index).foldl (introspect module) (instructions, pending) =
      (instructions ++ parameters.map (initial module),
        pending ++ pendingSlots module receivers (parameters.zipIdx index)) := by
  induction parameters generalizing index instructions pending with
  | nil => simp [pendingSlots]
  | cons parameter rest ih =>
      have next (instruction : Boxing) :
          (instructions ++ [instruction]).length = receivers + (index + 1) := by
        simp [filled, Nat.add_assoc]
      rw [List.zipIdx_cons, List.foldl_cons]
      cases decided : ofType? module parameter.type with
      | some instruction =>
          simp only [introspect, decided, ih (next instruction), pendingSlots, initial,
            List.map_cons, List.append_assoc, List.singleton_append]
          rfl
      | none =>
          simp only [introspect, decided, ih (next .unsupported), pendingSlots, initial, filled,
            List.map_cons, List.append_assoc, List.singleton_append]
          rfl

theorem foldl_resolveSlot (decoded : List ParameterSig) (parameters : List Parameter)
    {receivers index : Nat} {done : List Boxing} (filled : done.length = receivers + index) :
    (pendingSlots module receivers (parameters.zipIdx index)).foldl
        (resolveSlot limit module method.signature decoded)
        (done ++ parameters.map (initial module)) =
      done ++ (parameters.zipIdx index).map fun declared =>
        ofDeclared limit module method (some decoded) declared.1 declared.2 := by
  induction parameters generalizing index done with
  | nil => rfl
  | cons parameter rest ih =>
      have next (instruction : Boxing) :
          (done ++ [instruction]).length = receivers + (index + 1) := by
        simp [filled, Nat.add_assoc]
      rw [List.zipIdx_cons, List.map_cons, List.map_cons]
      cases decided : ofType? module parameter.type with
      | some instruction =>
          have later := ih (next instruction)
          simp only [List.append_assoc, List.singleton_append] at later
          simpa [pendingSlots, initial, decided, ofDeclared_of_decided decided] using later
      | none =>
          -- the slot of the first parameter that is left comes right behind those that are done
          have overwrite : resolveSlot limit module method.signature decoded
              (done ++ Boxing.unsupported :: rest.map (initial module))
                (receivers + index, index) =
              (done ++ [ofDeclared limit module method (some decoded) parameter index]) ++
                rest.map (initial module) := by
            simp only [resolveSlot, ofDeclared, decided, Option.bind_some, ← filled]
            cases decoded[index]? with
            | some signature => simp
            | none => simp
          have later := ih (next (ofDeclared limit module method (some decoded) parameter index))
          rw [← overwrite] at later
          simpa [pendingSlots, initial, decided] using later

/-- Without a signature that agrees, every slot stays as introspection left it. -/
theorem map_initial (parameters : List Parameter) (index : Nat) :
    parameters.map (initial module) = (parameters.zipIdx index).map fun declared =>
      ofDeclared limit module method none declared.1 declared.2 := by
  induction parameters generalizing index with
  | nil => rfl
  | cons parameter rest ih =>
      rw [List.zipIdx_cons, List.map_cons, List.map_cons, ih (index + 1)]
      refine congrArg (· :: _) ?_
      cases decided : ofType? module parameter.type <;> simp [initial, ofDeclared, decided]

theorem decodedParameters?_of_empty (empty : method.signature = []) :
    decodedParameters? limit method = none := by
  simp only [decodedParameters?, empty]
  rfl

theorem resolvePending_nil (instructions : List Boxing) :
    resolvePending limit module method (instructions, []) = instructions := by
  unfold resolvePending
  split
  · rfl
  · cases decodedParameters? limit method <;> rfl

/-- What is pending is resolved to what is decided about each parameter, behind the receiver. -/
theorem resolvePending_eq (limit : Nat) (module : LoadedModule) (method : Method)
    (receiver : List Boxing) :
    resolvePending limit module method
        (receiver ++ method.parameters.map (initial module),
          pendingSlots module receiver.length method.parameters.zipIdx) =
      receiver ++ method.parameters.zipIdx.map fun declared =>
        ofDeclared limit module method (decodedParameters? limit method) declared.1 declared.2 := by
  unfold resolvePending
  split
  · rename_i empty
    rw [decodedParameters?_of_empty (List.isEmpty_iff.mp empty), map_initial]
  · cases decodedParameters? limit method with
    | some decoded => exact foldl_resolveSlot decoded method.parameters rfl
    | none => exact congrArg _ (map_initial _ 0)

/-- Every argument gets the instruction of its own parameter, whatever is pending. -/
theorem classify_eq (limit : Nat) (module : LoadedModule) (method : Method) :
    classify limit module method =
      (if method.hasThis then [ofReceiver method.declaringType] else []) ++
        method.parameters.mapIdx (fun index parameter =>
          ofDeclared limit module method (decodedParameters? limit method) parameter index) := by
  let receiver := if method.hasThis then [ofReceiver method.declaringType] else []
  have introspected : method.parameters.zipIdx.foldl (introspect module) (receiver, []) =
      (receiver ++ method.parameters.map (initial module),
        pendingSlots module receiver.length method.parameters.zipIdx) :=
    foldl_introspect method.parameters rfl []
  rw [List.mapIdx_eq_zipIdx_map, ← resolvePending_eq]
  simp only [classify]
  rw [introspected]
  split
  · rename_i nothing
    have decided : pendingSlots module receiver.length method.parameters.zipIdx = [] :=
      List.isEmpty_iff.mp nothing
    change _ = resolvePending limit module method
      (_, pendingSlots module receiver.length method.parameters.zipIdx)
    rw [decided, resolvePending_nil]
  · rfl

end Boxing

end CallCapture
