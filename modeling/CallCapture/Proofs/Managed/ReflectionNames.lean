import CallCapture.Resolution.Description

/-!
The names that overload filters compare. Brackets stand around the arguments of a type and after the
element of an array, but a name is read in one way only: types of the same name have the same shape.
-/

namespace CallCapture

/-- What the name of a type for filters tells. -/
inductive TypeShape where
  | named (scope name : String) (arguments : List TypeShape)
  | wrapped (kind : TypeKind) (element : TypeShape)

/-- A kind of types that stand around an element and that the name tells apart. -/
inductive TypeKind.Wraps : TypeKind → Prop where
  | byRef : Wraps .byRef
  | pointer : Wraps .pointer
  | szArray : Wraps .szArray
  | array {rank : Nat} : 2 ≤ rank → Wraps (.array rank)

namespace TypeShape

/-- The characters that no name may have. -/
def reserved : List Char := ['[', ']', ',', '&', '*']

def Plain (text : String) : Prop :=
  ∀ c ∈ text.toList, c ∉ reserved

instance (text : String) : Decidable (Plain text) :=
  List.decidableBAll (· ∉ reserved) text.toList

inductive WellFormed : TypeShape → Prop where
  | named {scope name : String} {arguments : List TypeShape} :
      name ≠ "" → '.' ∉ name.toList → Plain name → Plain scope →
      (∀ argument ∈ arguments, WellFormed argument) → WellFormed (.named scope name arguments)
  | wrapped {kind : TypeKind} {element : TypeShape} :
      kind.Wraps → WellFormed element → WellFormed (.wrapped kind element)

mutual

def chars : TypeShape → List Char
  | .named scope name arguments => (Name.qualify scope name).toList ++ applied arguments
  | .wrapped kind element => element.chars ++ kind.elementSuffix.toList

def applied : List TypeShape → List Char
  | [] => []
  | first :: rest => '[' :: (first.chars ++ others rest)

def others : List TypeShape → List Char
  | [] => [']']
  | next :: rest => ',' :: (next.chars ++ others rest)

end

end TypeShape

namespace RuntimeType

mutual

def shape : RuntimeType → TypeShape
  | ⟨_, _, kind, _, _, _, some element⟩ => .wrapped kind (shape element)
  | ⟨name, scope, _, _, _, arguments, none⟩ => .named scope name (shapes arguments)

def shapes : List RuntimeType → List TypeShape
  | [] => []
  | type :: types => shape type :: shapes types

end

/--
A named type has a name without periods, and neither this nor its namespace has a reserved
character. Any other type is a reference to, a pointer to, or an array of a well-formed type.
-/
def WellFormed (type : RuntimeType) : Prop :=
  type.shape.WellFormed

mutual

theorem reflectionName_toList : ∀ type : RuntimeType,
    type.reflectionName.toList = type.shape.chars
  | ⟨_, _, kind, _, _, _, some element⟩ => by
      rw [reflectionName, shape, TypeShape.chars, String.toList_append,
        reflectionName_toList element]
  | ⟨name, scope, _, _, _, [], none⟩ => by
      simp [reflectionName, shape, shapes, TypeShape.chars, TypeShape.applied]
  | ⟨name, scope, _, _, _, first :: rest, none⟩ => by
      have listed := reflectionNames_toList first.reflectionName rest
      rw [reflectionName_toList first] at listed
      simp [reflectionName, reflectionNames, shape, shapes, TypeShape.chars, TypeShape.applied,
        ← listed]

theorem reflectionNames_toList (first : String) : ∀ types : List RuntimeType,
    (",".intercalate (first :: reflectionNames types)).toList ++ [']'] =
      first.toList ++ TypeShape.others (shapes types)
  | [] => by simp [reflectionNames, shapes, TypeShape.others]
  | next :: rest => by
      have listed := reflectionNames_toList next.reflectionName rest
      rw [reflectionName_toList next] at listed
      simp [reflectionNames, shapes, TypeShape.others, ← listed]

end

end RuntimeType

/-- A part ends where the property first holds. -/
theorem eq_of_append_eq {p : Char → Prop} {left right l r : List Char}
    (same : left ++ l = right ++ r) (inLeft : ∀ c ∈ left, ¬ p c) (inRight : ∀ c ∈ right, ¬ p c)
    (afterLeft : ∀ c ∈ l.head?, p c) (afterRight : ∀ c ∈ r.head?, p c) : left = right ∧ l = r := by
  induction left generalizing right with
  | nil =>
      cases right with
      | nil => exact ⟨rfl, same⟩
      | cons d right =>
          have starts : l = d :: (right ++ r) := same
          rw [starts] at afterLeft
          exact absurd (afterLeft d rfl) (inRight d List.mem_cons_self)
  | cons c left ih =>
      cases right with
      | nil =>
          have starts : r = c :: (left ++ l) := same.symm
          rw [starts] at afterRight
          exact absurd (afterRight c rfl) (inLeft c List.mem_cons_self)
      | cons d right =>
          obtain ⟨first, rest⟩ := List.cons.inj same
          rw [List.forall_mem_cons] at inLeft inRight
          obtain ⟨parts, rests⟩ := ih rest inLeft.2 inRight.2
          exact ⟨by rw [first, parts], rests⟩

namespace Name

/-- A namespace, read backwards from the name in it. -/
def behind (scope : String) : List Char :=
  if scope = "" then [] else '.' :: scope.toList.reverse

theorem qualify_reverse (scope name : String) :
    (qualify scope name).toList.reverse = name.toList.reverse ++ behind scope := by
  by_cases empty : scope = "" <;> simp [qualify, behind, empty]

theorem behind_head (scope : String) : ∀ c ∈ (behind scope).head?, c = '.' := by
  by_cases empty : scope = "" <;> simp [behind, empty]

theorem behind_injective {left right : String} (same : behind left = behind right) :
    left = right := by
  by_cases none : left = "" <;> by_cases empty : right = "" <;>
    simp [behind, none, empty, String.toList_inj] at same ⊢
  exact same

/-- The name follows the last period. -/
theorem qualify_injective {leftScope leftName rightScope rightName : String}
    (left : '.' ∉ leftName.toList) (right : '.' ∉ rightName.toList)
    (same : qualify leftScope leftName = qualify rightScope rightName) :
    leftScope = rightScope ∧ leftName = rightName := by
  have undotted {name : String} (free : '.' ∉ name.toList) :
      ∀ c ∈ name.toList.reverse, ¬ c = '.' := by
    intro c among dot
    exact free (dot ▸ List.mem_reverse.mp among)
  have backwards : leftName.toList.reverse ++ behind leftScope =
      rightName.toList.reverse ++ behind rightScope := by
    rw [← qualify_reverse, ← qualify_reverse, same]
  obtain ⟨names, scopes⟩ := eq_of_append_eq backwards (undotted left) (undotted right)
    (behind_head leftScope) (behind_head rightScope)
  exact ⟨behind_injective scopes, String.toList_inj.mp (List.reverse_inj.mp names)⟩

end Name

namespace TypeKind

/-- Arrays by the number of commas that their names show. -/
def arrayOf : Nat → TypeKind
  | 0 => .szArray
  | commas + 1 => .array (commas + 2)

namespace Wraps

variable {kind other : TypeKind} {l r : List Char}

theorem suffix_cases (wraps : kind.Wraps) :
    kind = .byRef ∧ kind.elementSuffix.toList = ['&'] ∨
    kind = .pointer ∧ kind.elementSuffix.toList = ['*'] ∨
    ∃ commas, kind = arrayOf commas ∧
      kind.elementSuffix.toList = '[' :: (List.replicate commas ',' ++ [']']) := by
  cases wraps with
  | byRef => exact .inl ⟨rfl, rfl⟩
  | pointer => exact .inr (.inl ⟨rfl, rfl⟩)
  | szArray => exact .inr (.inr ⟨0, rfl, rfl⟩)
  | @array rank many =>
      obtain ⟨commas, same⟩ := Nat.exists_eq_add_of_le' many
      subst same
      exact .inr (.inr ⟨commas + 1, rfl, by simp [elementSuffix]⟩)

theorem commas_injective {left right : Nat}
    (same : List.replicate left ',' ++ ']' :: l = List.replicate right ',' ++ ']' :: r) :
    left = right ∧ l = r := by
  have comma (count : Nat) : ∀ c ∈ List.replicate count ',', ¬ c = ']' := by
    intro c among
    rw [List.eq_of_mem_replicate among]
    decide
  obtain ⟨commas, rests⟩ := eq_of_append_eq same (comma left) (comma right) (by simp) (by simp)
  exact ⟨by simpa using congrArg List.length commas, (List.cons.inj rests).2⟩

theorem suffix_injective (left : kind.Wraps) (right : other.Wraps)
    (same : kind.elementSuffix.toList ++ l = other.elementSuffix.toList ++ r) :
    kind = other ∧ l = r := by
  obtain ⟨leftKind, left⟩ | ⟨leftKind, left⟩ | ⟨leftCommas, leftKind, left⟩ := left.suffix_cases <;>
    obtain ⟨rightKind, right⟩ | ⟨rightKind, right⟩ | ⟨rightCommas, rightKind, right⟩ :=
      right.suffix_cases <;>
    rw [left, right] at same
  case inl.inl => exact ⟨leftKind.trans rightKind.symm, (List.cons.inj same).2⟩
  case inr.inl.inr.inl => exact ⟨leftKind.trans rightKind.symm, (List.cons.inj same).2⟩
  case inr.inr.inr.inr =>
    simp only [List.cons_append, List.nil_append, List.append_assoc, List.cons.injEq] at same
    obtain ⟨commas, rests⟩ := commas_injective same.2
    exact ⟨by rw [leftKind, rightKind, commas], rests⟩
  -- The other kinds differ in the first character of the suffix.
  all_goals simp at same

end Wraps

end TypeKind

namespace TypeShape

variable {left right : TypeShape} {kind : TypeKind} {kinds leftKinds rightKinds : List TypeKind}
variable {l r rest : List Char}

/-- What may follow an argument, or the name as a whole. -/
def Ends (rest : List Char) : Prop :=
  ∀ c ∈ rest.head?, c = ',' ∨ c = ']'

/-- The suffixes of types around a type, the innermost first, and what follows them. -/
def follow (kinds : List TypeKind) (rest : List Char) : List Char :=
  kinds.foldr (fun kind rest => kind.elementSuffix.toList ++ rest) rest

def wrap (shape : TypeShape) (kinds : List TypeKind) : TypeShape :=
  kinds.foldl (fun element kind => .wrapped kind element) shape

theorem chars_wrapped_follow (kind : TypeKind) (element : TypeShape) :
    (wrapped kind element).chars ++ follow kinds rest =
      element.chars ++ follow (kind :: kinds) rest := by
  rw [chars, List.append_assoc]
  rfl

theorem suffix_begins (wraps : kind.Wraps) :
    ∃ c more, kind.elementSuffix.toList = c :: more ∧ c ∈ reserved ∧ ¬ (c = ',' ∨ c = ']') := by
  obtain ⟨_, suffix⟩ | ⟨_, suffix⟩ | ⟨_, _, suffix⟩ := wraps.suffix_cases <;>
    exact ⟨_, _, suffix, by decide, by decide⟩

/-- What follows the bracket of an array does not begin a name. -/
theorem suffix_not_applied (wraps : kind.Wraps) {c : Char} {text : List Char}
    (plain : c ∉ reserved) : kind.elementSuffix.toList ++ rest ≠ '[' :: c :: text := by
  intro same
  obtain ⟨_, suffix⟩ | ⟨_, suffix⟩ | ⟨commas, _, suffix⟩ := wraps.suffix_cases <;>
    rw [suffix] at same
  · simp at same
  · simp at same
  · cases commas with
    | zero =>
        have bracket : ']' = c := (List.cons.inj (List.cons.inj same).2).1
        exact plain (bracket ▸ by decide)
    | succ commas =>
        have comma : ',' = c := (List.cons.inj (List.cons.inj same).2).1
        exact plain (comma ▸ by decide)

theorem Ends.reserved (ends : Ends rest) : ∀ c ∈ rest.head?, c ∈ reserved := by
  intro c first
  obtain same | same := ends c first <;> subst same <;> decide

theorem follow_cons (wraps : kind.Wraps) : ∃ c more,
    follow (kind :: kinds) rest = c :: more ∧ c ∈ reserved ∧ ¬ Ends (c :: more) := by
  obtain ⟨c, more, suffix, among, ends⟩ := suffix_begins wraps
  refine ⟨c, more ++ follow kinds rest, ?_, among, fun ended => ends (ended c rfl)⟩
  rw [follow, List.foldr_cons, suffix]
  rfl

theorem follow_reserved (wrap : ∀ kind ∈ kinds, kind.Wraps) (ends : Ends rest) :
    ∀ c ∈ (follow kinds rest).head?, c ∈ reserved := by
  cases kinds with
  | nil => exact ends.reserved
  | cons kind kinds =>
      obtain ⟨c, more, starts, among, _⟩ := follow_cons (wrap kind List.mem_cons_self)
      rw [starts]
      intro d first
      cases first
      exact among

theorem follow_injective (leftWrap : ∀ kind ∈ leftKinds, kind.Wraps)
    (rightWrap : ∀ kind ∈ rightKinds, kind.Wraps) (leftEnds : Ends l) (rightEnds : Ends r)
    (same : follow leftKinds l = follow rightKinds r) : leftKinds = rightKinds ∧ l = r := by
  induction leftKinds generalizing rightKinds with
  | nil =>
      cases rightKinds with
      | nil => exact ⟨rfl, same⟩
      | cons kind kinds =>
          obtain ⟨c, more, starts, _, ended⟩ := follow_cons (rightWrap kind List.mem_cons_self)
          rw [starts] at same
          exact absurd (same ▸ leftEnds) ended
  | cons leftKind leftKinds ih =>
      cases rightKinds with
      | nil =>
          obtain ⟨c, more, starts, _, ended⟩ := follow_cons (leftWrap leftKind List.mem_cons_self)
          rw [starts] at same
          exact absurd (same ▸ rightEnds) ended
      | cons rightKind rightKinds =>
          rw [List.forall_mem_cons] at leftWrap rightWrap
          obtain ⟨kinds, rests⟩ := leftWrap.1.suffix_injective rightWrap.1 same
          obtain ⟨others, rests⟩ := ih leftWrap.2 rightWrap.2 rests
          exact ⟨by rw [kinds, others], rests⟩

/-! ### Each name is read in one way -/

/-- In front of the suffixes of types around it, the shape is read in one way. -/
def Reads (left : TypeShape) : Prop :=
  ∀ ⦃right : TypeShape⦄ ⦃leftKinds rightKinds : List TypeKind⦄ ⦃l r : List Char⦄,
    right.WellFormed → (∀ kind ∈ leftKinds, kind.Wraps) → (∀ kind ∈ rightKinds, kind.Wraps) →
    Ends l → Ends r →
    left.chars ++ follow leftKinds l = right.chars ++ follow rightKinds r →
    left.wrap leftKinds = right.wrap rightKinds ∧ l = r

theorem Reads.alone (reads : left.Reads) (wellFormed : right.WellFormed) (leftEnds : Ends l)
    (rightEnds : Ends r) (same : left.chars ++ l = right.chars ++ r) : left = right ∧ l = r :=
  @reads right [] [] l r wellFormed (by simp) (by simp) leftEnds rightEnds same

theorem others_ends (shapes : List TypeShape) (rest : List Char) :
    Ends (others shapes ++ rest) := by
  intro c first
  cases shapes with
  | nil =>
      cases first
      exact .inr rfl
  | cons next shapes =>
      cases first
      exact .inl rfl

theorem others_injective {lefts rights : List TypeShape} (reads : ∀ left ∈ lefts, left.Reads)
    (wellFormed : ∀ right ∈ rights, right.WellFormed)
    (same : others lefts ++ l = others rights ++ r) : lefts = rights ∧ l = r := by
  induction lefts generalizing rights with
  | nil =>
      cases rights with
      | nil => exact ⟨rfl, (List.cons.inj same).2⟩
      | cons right rights => exact absurd (List.cons.inj same).1 (by decide)
  | cons left lefts ih =>
      cases rights with
      | nil => exact absurd (List.cons.inj same).1 (by decide)
      | cons right rights =>
          rw [List.forall_mem_cons] at reads wellFormed
          simp only [others, List.cons_append, List.append_assoc, List.cons.injEq] at same
          obtain ⟨first, rests⟩ :=
            reads.1.alone wellFormed.1 (others_ends lefts l) (others_ends rights r) same.2
          obtain ⟨rest, rests⟩ := ih reads.2 wellFormed.2 rests
          exact ⟨by rw [first, rest], rests⟩

theorem qualify_plain {scope name : String} (plainScope : Plain scope) (plainName : Plain name) :
    ∀ c ∈ (Name.qualify scope name).toList, c ∉ reserved := by
  intro c among
  unfold Name.qualify at among
  split at among
  · exact plainName c among
  · simp only [String.toList_append, List.mem_append] at among
    obtain (inScope | dot) | inName := among
    · exact plainScope c inScope
    · cases List.mem_singleton.mp dot
      decide
    · exact plainName c inName

theorem qualify_toList_ne_nil (scope : String) {name : String} (nonempty : name ≠ "") :
    (Name.qualify scope name).toList ≠ [] := by
  unfold Name.qualify
  split <;> simp [nonempty]

theorem WellFormed.chars_begins (wellFormed : left.WellFormed) :
    ∃ c more, left.chars = c :: more ∧ c ∉ reserved := by
  induction wellFormed with
  | @named scope name arguments nonempty _ plainName plainScope _ _ =>
      obtain ⟨c, more, starts⟩ :=
        List.exists_cons_of_ne_nil (qualify_toList_ne_nil scope nonempty)
      have plain := qualify_plain plainScope plainName c (starts ▸ List.mem_cons_self)
      exact ⟨c, more ++ applied arguments, by rw [chars, starts, List.cons_append], plain⟩
  | @wrapped kind element _ _ ih =>
      obtain ⟨c, more, starts, plain⟩ := ih
      exact ⟨c, more ++ kind.elementSuffix.toList, by rw [chars, starts, List.cons_append], plain⟩

/-- Arguments are not taken for the bracket of an array. -/
theorem applied_ne_follow (wellFormed : left.WellFormed) (wrap : ∀ kind ∈ kinds, kind.Wraps)
    (ends : Ends r) (shapes : List TypeShape) :
    applied (left :: shapes) ++ l ≠ follow kinds r := by
  intro same
  obtain ⟨c, more, starts, plain⟩ := wellFormed.chars_begins
  simp only [applied, starts, List.cons_append] at same
  cases kinds with
  | nil =>
      have bracket := ends '[' (by simp [show r = _ from same.symm])
      exact absurd bracket (by decide)
  | cons kind kinds =>
      exact suffix_not_applied (wrap kind List.mem_cons_self) plain same.symm

theorem applied_injective {lefts rights : List TypeShape} (reads : ∀ left ∈ lefts, left.Reads)
    (leftFormed : ∀ left ∈ lefts, left.WellFormed)
    (rightFormed : ∀ right ∈ rights, right.WellFormed)
    (leftWrap : ∀ kind ∈ leftKinds, kind.Wraps) (rightWrap : ∀ kind ∈ rightKinds, kind.Wraps)
    (leftEnds : Ends l) (rightEnds : Ends r)
    (same : applied lefts ++ follow leftKinds l = applied rights ++ follow rightKinds r) :
    lefts = rights ∧ leftKinds = rightKinds ∧ l = r := by
  cases lefts with
  | nil =>
      cases rights with
      | nil => exact ⟨rfl, follow_injective leftWrap rightWrap leftEnds rightEnds same⟩
      | cons right rights =>
          have formed := rightFormed right List.mem_cons_self
          exact absurd same.symm (applied_ne_follow formed leftWrap leftEnds rights)
  | cons left lefts =>
      cases rights with
      | nil =>
          have formed := leftFormed left List.mem_cons_self
          exact absurd same (applied_ne_follow formed rightWrap rightEnds lefts)
      | cons right rights =>
          rw [List.forall_mem_cons] at reads rightFormed
          simp only [applied, List.cons_append, List.append_assoc, List.cons.injEq] at same
          obtain ⟨first, rests⟩ :=
            reads.1.alone rightFormed.1 (others_ends lefts _) (others_ends rights _) same.2
          obtain ⟨rest, rests⟩ := others_injective reads.2 rightFormed.2 rests
          exact ⟨by rw [first, rest], follow_injective leftWrap rightWrap leftEnds rightEnds rests⟩

theorem applied_reserved (shapes : List TypeShape) (after : ∀ c ∈ rest.head?, c ∈ reserved) :
    ∀ c ∈ (applied shapes ++ rest).head?, c ∈ reserved := by
  cases shapes with
  | nil => exact after
  | cons first shapes =>
      intro c starts
      cases starts
      decide

theorem WellFormed.reads (wellFormed : left.WellFormed) : left.Reads := by
  induction wellFormed with
  | @wrapped kind element wraps _ ih =>
      intro right leftKinds rightKinds l r formed leftWrap rightWrap leftEnds rightEnds same
      rw [chars_wrapped_follow] at same
      exact ih formed (List.forall_mem_cons.mpr ⟨wraps, leftWrap⟩) rightWrap leftEnds rightEnds same
  | @named scope name arguments _ undotted plainName plainScope formed reads =>
      intro right leftKinds rightKinds l r rightFormed leftWrap rightWrap leftEnds rightEnds same
      induction rightFormed generalizing rightKinds with
      | @wrapped kind element wraps _ ih =>
          rw [chars_wrapped_follow] at same
          exact ih (List.forall_mem_cons.mpr ⟨wraps, rightWrap⟩) same
      | @named _ _ others _ rightUndotted rightPlainName rightPlainScope rightFormed _ =>
          rw [chars, chars, List.append_assoc, List.append_assoc] at same
          obtain ⟨names, rests⟩ := eq_of_append_eq same
            (qualify_plain plainScope plainName) (qualify_plain rightPlainScope rightPlainName)
            (applied_reserved arguments (follow_reserved leftWrap leftEnds))
            (applied_reserved others (follow_reserved rightWrap rightEnds))
          obtain ⟨scopes, names⟩ :=
            Name.qualify_injective undotted rightUndotted (String.toList_inj.mp names)
          obtain ⟨arguments, kinds, rests⟩ := applied_injective reads formed rightFormed
            leftWrap rightWrap leftEnds rightEnds rests
          exact ⟨by rw [scopes, names, arguments, kinds], rests⟩

end TypeShape

theorem RuntimeType.reflectionName_eq_iff {left right : RuntimeType} (leftFormed : left.WellFormed)
    (rightFormed : right.WellFormed) :
    left.reflectionName = right.reflectionName ↔ left.shape = right.shape := by
  rw [← String.toList_inj, reflectionName_toList, reflectionName_toList]
  constructor
  · intro same
    have ends : TypeShape.Ends [] := by simp [TypeShape.Ends]
    exact (leftFormed.reads.alone rightFormed ends ends (congrArg (· ++ []) same)).1
  · exact congrArg TypeShape.chars

namespace Description

variable {description : Description} {types : List String}

theorem shapes_eq_of_names {left right : List Parameter}
    (leftFormed : ∀ parameter ∈ left, parameter.type.WellFormed)
    (rightFormed : ∀ parameter ∈ right, parameter.type.WellFormed)
    (same : left.map (·.type.reflectionName) = right.map (·.type.reflectionName)) :
    left.map (·.type.shape) = right.map (·.type.shape) := by
  induction left generalizing right with
  | nil =>
      cases right with
      | nil => rfl
      | cons second right => contradiction
  | cons first left ih =>
      cases right with
      | nil => contradiction
      | cons second right =>
          rw [List.forall_mem_cons] at leftFormed rightFormed
          obtain ⟨names, rest⟩ := List.cons.inj same
          have shapes := (RuntimeType.reflectionName_eq_iff leftFormed.1 rightFormed.1).mp names
          rw [List.map_cons, List.map_cons, shapes, ih leftFormed.2 rightFormed.2 rest]

theorem parameterTypes_of_matches {method : Method}
    (selected : (description.withParameterTypes types).matchesMethod method = true) :
    types = method.parameters.map (·.type.reflectionName) := by
  simp only [matchesMethod, Bool.and_eq_true] at selected
  simpa [matchesParameters, withParameterTypes] using selected.2

/--
Well-formed types have the same name for filters just if they have the same shape. Thus no list of
parameter types selects two methods whose parameters differ in their number or in a shape.
-/
theorem parameterTypes_select_one :
    (∀ left right : RuntimeType, left.WellFormed → right.WellFormed →
      (left.reflectionName = right.reflectionName ↔ left.shape = right.shape)) ∧
    ∀ left right : Method, (∀ parameter ∈ left.parameters, parameter.type.WellFormed) →
      (∀ parameter ∈ right.parameters, parameter.type.WellFormed) →
      left.parameters.map (·.type.shape) ≠ right.parameters.map (·.type.shape) →
      ∀ (description : Description) (types : List String),
        ¬ ((description.withParameterTypes types).matchesMethod left = true ∧
          (description.withParameterTypes types).matchesMethod right = true) := by
  constructor
  · intro left right leftFormed rightFormed
    exact RuntimeType.reflectionName_eq_iff leftFormed rightFormed
  · intro left right leftFormed rightFormed apart description types both
    have names := (parameterTypes_of_matches both.1).symm.trans (parameterTypes_of_matches both.2)
    exact apart (shapes_eq_of_names leftFormed rightFormed names)

def listOf (argument : RuntimeType) : RuntimeType :=
  { RuntimeType.ofKind "System.Collections.Generic" "List\x601" .classType with
    arguments := [argument] }

/-- A list of arrays, and an array of lists. -/
theorem parameterTypes_select_one_brackets :
    let int32 := RuntimeType.primitive .int32
    let arrays := listOf (int32.around .szArray)
    let lists := (listOf int32).around .szArray
    let method (type : RuntimeType) : Method := ⟨⟨0x06000001⟩, "Bar",
      some (.ofKind "App" "Foo" .classType), true, [], [⟨"xs", type, .byValue⟩], []⟩
    let wanted := (anyOverload "App.dll" "App.Foo" "Bar").withParameterTypes
      ["System.Collections.Generic.List\x601[System.Int32[]]"]
    arrays.WellFormed ∧ lists.WellFormed ∧ wanted.matchesMethod (method arrays) = true ∧
      wanted.matchesMethod (method lists) = false := by
  intro int32 arrays lists method wanted
  have plain : int32.WellFormed :=
    .named (by decide) (by decide) (by decide) (by decide) (by simp [RuntimeType.shapes])
  have listFormed {argument : RuntimeType} (formed : argument.WellFormed) :
      (listOf argument).WellFormed := by
    apply TypeShape.WellFormed.named (by decide) (by decide) (by decide) (by decide)
    intro shape among
    cases List.mem_singleton.mp among
    exact formed
  have arraysFormed : arrays.WellFormed := listFormed (.wrapped .szArray plain)
  have listsFormed : lists.WellFormed := .wrapped .szArray (listFormed plain)
  have selected : wanted.matchesMethod (method arrays) = true := by decide +kernel
  have apart := parameterTypes_select_one.2 (method arrays) (method lists)
    (by simpa [method] using arraysFormed) (by simpa [method] using listsFormed)
    (by simp [method, arrays, lists, listOf, RuntimeType.around, RuntimeType.ofKind,
      RuntimeType.shape])
    (anyOverload "App.dll" "App.Foo" "Bar")
  refine ⟨arraysFormed, listsFormed, selected, ?_⟩
  rw [← Bool.not_eq_true]
  intro both
  exact apart _ ⟨selected, both⟩

end Description

end CallCapture
