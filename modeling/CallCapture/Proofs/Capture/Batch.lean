import CallCapture.Capture.Instrumented
import CallCapture.Proofs.Boxing.Classified

/-!
What the native side reads in a batch: for each method, the instructions it was classified to.
-/

namespace CallCapture

namespace InstallBatch

/-- The batch of the entries built for a list of methods. -/
def ofResolved (limit : Nat) (methods : List ResolvedMethod) : InstallBatch :=
  ofMethods (methods.map (Instrumented.build limit))

/--
A batch has one element of each kind for every method. The stream of a method is decoded to the
instructions the method was classified to, as many as the count says, just if introspection names
value types by tokens of types: nothing checks these tokens, as is done with those of a signature.
-/
theorem decodeAll_iff_namedByTypes (limit : Nat) (methods : List ResolvedMethod)
    (short : ∀ resolved ∈ methods, resolved.method.signature.length < 0x100000000) :
    (ofResolved limit methods).methodIds.length = methods.length ∧
    (ofResolved limit methods).boxingTokens.length = methods.length ∧
    (ofResolved limit methods).argumentCounts.length = methods.length ∧
    ∀ (index : Nat) (resolved : ResolvedMethod), methods[index]? = some resolved →
      ∃ stream count,
        (ofResolved limit methods).methodIds[index]? = some resolved.id ∧
        (ofResolved limit methods).boxingTokens[index]? = some stream ∧
        (ofResolved limit methods).argumentCounts[index]? = some count ∧
        count = (Boxing.classify limit resolved.module resolved.method).length % UInt32.size ∧
        (Boxing.decodeAll stream =
            .ok (Boxing.classify limit resolved.module resolved.method) ↔
          Boxing.NamedByTypes resolved.module resolved.method) := by
  refine ⟨by simp [ofResolved, ofMethods], by simp [ofResolved, ofMethods],
    by simp [ofResolved, ofMethods], ?_⟩
  intro index resolved found
  have entry : (methods.map (Instrumented.build limit))[index]? =
      some (Instrumented.build limit resolved) := by
    rw [List.getElem?_map, found]
    rfl
  refine ⟨Boxing.encodeAll (Boxing.classify limit resolved.module resolved.method), _, ?_, ?_, ?_,
    rfl, ?_⟩
  · rw [ofResolved, ofMethods, List.getElem?_map, entry]
    rfl
  · rw [ofResolved, ofMethods, List.getElem?_map, entry]
    rfl
  · rw [ofResolved, ofMethods, List.getElem?_map, entry]
    rfl
  · rw [Boxing.decodeAll_encodeAll_iff, Boxing.streamable_classify_iff]
    exact short resolved (List.mem_of_getElem? found)

/-- A method with one parameter, of a value type that its own module reports under a token. -/
def withPoint (named : Token) : ResolvedMethod :=
  let point : RuntimeType := ⟨"Point", "App", .valueType, some "App.dll", some named, [], none⟩
  let method : Method := ⟨⟨0x06000001⟩, "Bar", none, false, [], [⟨"p", point, .byValue⟩],
    [0x00, 0x01, 0x01, 0x11, 0x00]⟩
  ⟨⟨1, "App.dll", false, false, [], [], [method]⟩, method⟩

theorem ofType?_withPoint (named : Token) (parameter : Parameter)
    (among : parameter ∈ (withPoint named).method.parameters) :
    Boxing.ofType? (withPoint named).module parameter.type = some (.token named) := by
  cases List.mem_singleton.mp among
  simp [withPoint, Boxing.ofType?, Boxing.valueTypeToken?, RuntimeType.isOpen, RuntimeType.anyOpen,
    RuntimeType.elementOpen, RuntimeType.isGenericParameter, Name.sameIgnoringCase]

theorem decodeAll_iff_namedByTypes_point :
    (∀ resolved ∈ [withPoint ⟨0x02000004⟩],
      resolved.method.signature.length < 0x100000000) ∧
    Boxing.NamedByTypes (withPoint ⟨0x02000004⟩).module (withPoint ⟨0x02000004⟩).method ∧
    ∃ stream count,
      (ofResolved 100 [withPoint ⟨0x02000004⟩]).boxingTokens[0]? = some stream ∧
      (ofResolved 100 [withPoint ⟨0x02000004⟩]).argumentCounts[0]? = some count ∧
      count = (Boxing.classify 100 (withPoint ⟨0x02000004⟩).module
        (withPoint ⟨0x02000004⟩).method).length % UInt32.size ∧
      Boxing.decodeAll stream = .ok (Boxing.classify 100 (withPoint ⟨0x02000004⟩).module
        (withPoint ⟨0x02000004⟩).method) := by
  have short : ∀ resolved ∈ [withPoint ⟨0x02000004⟩],
      resolved.method.signature.length < 0x100000000 := by decide
  have types : Boxing.NamedByTypes (withPoint ⟨0x02000004⟩).module
      (withPoint ⟨0x02000004⟩).method := by
    intro parameter among named decided
    rw [ofType?_withPoint _ parameter among] at decided
    cases decided
    decide
  obtain ⟨-, -, -, each⟩ := decodeAll_iff_namedByTypes 100 [withPoint ⟨0x02000004⟩] short
  obtain ⟨stream, count, -, tokens, counts, number, decodes⟩ := each 0 _ rfl
  exact ⟨short, types, stream, count, tokens, counts, number, decodes.mpr types⟩

/-- A null token looks like a reference in the stream, and is decoded as one. -/
theorem null_token_decoded_as_reference :
    Boxing.classify 100 (withPoint ⟨0⟩).module (withPoint ⟨0⟩).method = [.token ⟨0⟩] ∧
    (ofResolved 100 [withPoint ⟨0⟩]).boxingTokens = [[0]] ∧
    Boxing.decodeAll [0] = .ok [.passThrough] := by
  have classified : Boxing.classify 100 (withPoint ⟨0⟩).module (withPoint ⟨0⟩).method =
      [.token ⟨0⟩] := by
    have decided := ofType?_withPoint ⟨0⟩ _ (List.mem_singleton.mpr rfl)
    simp only [Boxing.classify_eq, withPoint, Boxing.ofDeclared] at decided ⊢
    simp [decided]
  refine ⟨classified, ?_, ?_⟩
  · simp only [ofResolved, ofMethods, List.map_cons, List.map_nil, Instrumented.boxingTokens,
      Instrumented.build, classified]
    rfl
  · exact (Boxing.decodeAll_encodeAll_iff [.passThrough]).mpr (by decide)

end InstallBatch

end CallCapture
