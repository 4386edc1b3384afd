import Mathlib.Data.List.Nodup
import DeferredDefaults.Proofs.Call.LeftToRight

/-!
Which declarations form a signature. Checking accepts exactly those with distinct names whose kinds
do not go back and whose required positional parameters come first; else it names the first
declaration at fault. The names in front of a late default are then found by counting as well: as
many of the positional names, or of all names, as there are declarations in front.
-/

set_option autoImplicit false
set_option relaxedAutoImplicit false

namespace DeferredDefaults.Call

universe u

/-- Two ways to split a list at an item are the same, or one of the items is in front of the other. -/
theorem split_cases {α : Type u} {front other back rest : List α} {item next : α}
    (same : front ++ item :: back = other ++ next :: rest) :
    (front = other ∧ item = next) ∨ (∃ between, other = front ++ item :: between) ∨
      ∃ between, front = other ++ next :: between := by
  rcases List.append_eq_append_iff.1 same with ⟨between, isOther, isBack⟩ | ⟨between, isFront, isRest⟩
  · cases between with
    | nil => exact .inl ⟨by simpa using isOther.symm, (List.cons.inj isBack).1⟩
    | cons first between =>
      rw [(List.cons.inj isBack).1]
      exact .inr (.inl ⟨between, isOther⟩)
  · cases between with
    | nil => exact .inl ⟨by simpa using isFront, (List.cons.inj isRest).1.symm⟩
    | cons first between =>
      rw [(List.cons.inj isRest).1]
      exact .inr (.inr ⟨between, isFront⟩)

variable {V : Type u}

theorem Kind.isPositional_of_rank {front back : Kind} (order : front.rank ≤ back.rank)
    (positional : back.isPositional = true) : front.isPositional = true := by
  cases front with
  | positionalOnly | positionalOrKeyword => rfl
  | keywordOnly =>
    cases back with
    | positionalOnly | positionalOrKeyword => simp [rank] at order
    | keywordOnly => cases positional

namespace Declaration

/-- The declarations form a signature. -/
structure Valid (declarations : List (Declaration V)) : Prop where
  distinct : (declarations.map name).Nodup
  kinds : declarations.Pairwise fun front back => front.kind.rank ≤ back.kind.rank
  /-- No required positional parameter comes behind a positional one with a default. -/
  defaults : declarations.Pairwise fun front back =>
    front.kind.isPositional = true → front.default.isRequired = false →
      back.kind.isPositional = true → back.default.isRequired = false

/-- What is wrong with a declaration behind those in `front`. Its name is looked at first, then its
kind, then its default. -/
inductive Offends (front : List (Declaration V)) (declaration : Declaration V) :
    SignatureFault → Prop
  | duplicate :
      declaration.name ∈ front.map name → Offends front declaration (.duplicate declaration.name)
  | outOfOrder :
      declaration.name ∉ front.map name →
      (∃ earlier ∈ front, declaration.kind.rank < earlier.kind.rank) →
      Offends front declaration (.outOfOrder declaration.name)
  | requiredAfterDefault :
      declaration.name ∉ front.map name →
      (∀ earlier ∈ front, earlier.kind.rank ≤ declaration.kind.rank) →
      declaration.kind.isPositional = true → declaration.default.isRequired = true →
      (∃ earlier ∈ front, earlier.kind.isPositional = true ∧
        earlier.default.isRequired = false) →
      Offends front declaration (.requiredAfterDefault declaration.name)

/-- The names that the parameter at `index` reads, found by counting: as many of the positional names,
or of all names, as there are parameters in front. There may be too few of them. -/
def counted? (declarations : List (Declaration V)) (index : Nat) (kind : Kind) :
    Option (List String) :=
  let names :=
    if kind.isPositional then
      (declarations.filter fun declaration => declaration.kind.isPositional).map name
    else declarations.map name
  if index ≤ names.length then some (names.take index) else none

section

variable {front back : List (Declaration V)} {declaration : Declaration V} {cause : SignatureFault}

private theorem valid_concat : Valid (front ++ [declaration]) ↔
    Valid front ∧ declaration.name ∉ front.map name ∧
      (∀ earlier ∈ front, earlier.kind.rank ≤ declaration.kind.rank) ∧
      ∀ earlier ∈ front, earlier.kind.isPositional = true → earlier.default.isRequired = false →
        declaration.kind.isPositional = true → declaration.default.isRequired = false := by
  have names : ((front ++ [declaration]).map name).Nodup ↔
      declaration.name ∉ front.map name ∧ (front.map name).Nodup := by
    rw [List.map_append, List.map_singleton, ← List.concat_eq_append, List.nodup_concat]
  constructor
  · rintro ⟨distinct, kinds, defaults⟩
    obtain ⟨fresh, distinct⟩ := names.1 distinct
    rw [List.pairwise_append] at kinds defaults
    refine ⟨⟨distinct, kinds.1, defaults.1⟩, fresh, ?_, ?_⟩
    · exact fun earlier member => kinds.2.2 earlier member declaration (by simp)
    · exact fun earlier member => defaults.2.2 earlier member declaration (by simp)
  · rintro ⟨⟨distinct, kinds, defaults⟩, fresh, inOrder, trails⟩
    refine ⟨names.2 ⟨fresh, distinct⟩, ?_, ?_⟩
    · rw [List.pairwise_append]
      refine ⟨kinds, List.pairwise_singleton _ _, fun earlier member last isLast => ?_⟩
      rw [List.mem_singleton] at isLast
      exact isLast ▸ inOrder earlier member
    · rw [List.pairwise_append]
      refine ⟨defaults, List.pairwise_singleton _ _, fun earlier member last isLast => ?_⟩
      rw [List.mem_singleton] at isLast
      exact isLast ▸ trails earlier member

private theorem Valid.of_append (valid : Valid (front ++ back)) : Valid front := by
  obtain ⟨distinct, kinds, defaults⟩ := valid
  rw [List.map_append, List.nodup_append] at distinct
  rw [List.pairwise_append] at kinds defaults
  exact ⟨distinct.1, kinds.1, defaults.1⟩

private theorem Offends.not_valid (offends : Offends front declaration cause) :
    ¬ Valid (front ++ declaration :: back) := by
  intro valid
  rw [List.append_cons] at valid
  obtain ⟨-, fresh, inOrder, trails⟩ := valid_concat.1 valid.of_append
  cases offends with
  | duplicate member => exact fresh member
  | outOfOrder _ earlier =>
    obtain ⟨earlier, member, below⟩ := earlier
    exact absurd (inOrder earlier member) (Nat.not_le_of_lt below)
  | requiredAfterDefault _ _ positional required earlier =>
    obtain ⟨earlier, member, isPositional, defaulted⟩ := earlier
    have notRequired := trails earlier member isPositional defaulted positional
    rw [required] at notRequired
    cases notRequired

private theorem Offends.unique {other : SignatureFault} (offends : Offends front declaration cause)
    (again : Offends front declaration other) : cause = other := by
  cases offends with
  | duplicate member =>
    cases again with
    | duplicate _ => rfl
    | outOfOrder fresh _ => exact absurd member fresh
    | requiredAfterDefault fresh _ _ _ _ => exact absurd member fresh
  | outOfOrder fresh earlier =>
    obtain ⟨earlier, isEarlier, below⟩ := earlier
    cases again with
    | duplicate member => exact absurd member fresh
    | outOfOrder _ _ => rfl
    | requiredAfterDefault _ inOrder _ _ _ =>
      exact absurd (inOrder earlier isEarlier) (Nat.not_le_of_lt below)
  | requiredAfterDefault fresh inOrder _ _ _ =>
    cases again with
    | duplicate member => exact absurd member fresh
    | outOfOrder _ earlier =>
      obtain ⟨earlier, isEarlier, below⟩ := earlier
      exact absurd (inOrder earlier isEarlier) (Nat.not_le_of_lt below)
    | requiredAfterDefault _ _ _ _ _ => rfl

private theorem Valid.isPositional_front (valid : Valid (front ++ declaration :: back))
    (positional : declaration.kind.isPositional = true) :
    ∀ earlier ∈ front, earlier.kind.isPositional = true := by
  intro earlier member
  have order := (List.pairwise_append.1 valid.kinds).2.2 earlier member declaration (by simp)
  exact Kind.isPositional_of_rank order positional

private theorem Valid.counted?_eq (valid : Valid (front ++ declaration :: back)) :
    counted? (front ++ declaration :: back) front.length declaration.kind =
      some (front.map name) := by
  have found : ∀ others : List String, front.length ≤ (front.map name ++ others).length ∧
      (front.map name ++ others).take front.length = front.map name := by
    intro others
    constructor
    · rw [List.length_append, List.length_map]
      exact Nat.le_add_right _ _
    · exact List.take_left' (List.length_map name)
  unfold counted?
  cases positional : declaration.kind.isPositional with
  | true =>
    have all := List.filter_eq_self.2 (valid.isPositional_front positional)
    rw [if_pos rfl, List.filter_append, all, List.map_append]
    simp only [found, if_true]
  | false =>
    rw [if_neg Bool.false_ne_true, List.map_append]
    simp only [found, if_true]

end

end Declaration

namespace Checked

/-- What is known behind the declarations in `front`. -/
structure Tracks (front : List (Declaration V)) (checked : Checked) : Prop where
  names : checked.names = front.map Declaration.name
  kind : ∀ rank, rank < checked.kind.rank ↔ ∃ earlier ∈ front, rank < earlier.kind.rank
  defaulted : checked.defaulted = true ↔
    ∃ earlier ∈ front, earlier.kind.isPositional = true ∧ earlier.default.isRequired = false

private theorem tracks_initial : Tracks ([] : List (Declaration V)) {} where
  names := rfl
  kind := fun rank => by simp [Kind.rank]
  defaulted := by simp

/-- One declaration is accepted behind valid ones, or something is wrong with it. -/
private theorem Tracks.step {front : List (Declaration V)} {checked : Checked}
    (tracks : Tracks front checked) (valid : Declaration.Valid front)
    (declaration : Declaration V) :
    (∃ next, checked.step declaration = .ok next ∧
      Declaration.Valid (front ++ [declaration]) ∧ Tracks (front ++ [declaration]) next) ∨
      ∃ cause, checked.step declaration = .error cause ∧
        Declaration.Offends front declaration cause := by
  unfold Checked.step
  by_cases member : declaration.name ∈ checked.names
  · rw [if_pos member]
    exact .inr ⟨_, rfl, .duplicate (tracks.names ▸ member)⟩
  rw [if_neg member]
  have fresh : declaration.name ∉ front.map Declaration.name := tracks.names ▸ member
  by_cases back : declaration.kind.rank < checked.kind.rank
  · rw [if_pos back]
    exact .inr ⟨_, rfl, .outOfOrder fresh ((tracks.kind _).1 back)⟩
  rw [if_neg back]
  have inOrder : ∀ earlier ∈ front, earlier.kind.rank ≤ declaration.kind.rank := by
    intro earlier isEarlier
    exact Nat.le_of_not_lt fun below => back ((tracks.kind _).2 ⟨earlier, isEarlier, below⟩)
  split
  · next required =>
    simp only [Bool.and_eq_true] at required
    exact .inr ⟨_, rfl, .requiredAfterDefault fresh inOrder required.1.1 required.1.2
      (tracks.defaulted.1 required.2)⟩
  · next allowed =>
    refine .inl ⟨_, rfl, Declaration.valid_concat.2 ⟨valid, fresh, inOrder, ?_⟩, ?_, ?_, ?_⟩
    · intro earlier isEarlier isPositional defaulted positional
      have seen := tracks.defaulted.2 ⟨earlier, isEarlier, isPositional, defaulted⟩
      simpa [positional, seen] using allowed
    · rw [tracks.names, List.map_append]
      rfl
    · intro rank
      constructor
      · exact fun below => ⟨declaration, by simp, below⟩
      · rintro ⟨earlier, isEarlier, below⟩
        rcases List.mem_append.1 isEarlier with inFront | last
        · exact Nat.lt_of_lt_of_le below (inOrder earlier inFront)
        · rw [List.mem_singleton] at last
          exact last ▸ below
    · simp only [Bool.or_eq_true, Bool.and_eq_true, Bool.not_eq_true', tracks.defaulted,
        List.mem_append, List.mem_singleton, or_and_right, exists_or, exists_eq_left]

private theorem run_cases (declarations : List (Declaration V)) :
    (∃ final, declarations.foldlM Checked.step {} = .ok final ∧
      Declaration.Valid declarations) ∨
      ∃ front declaration back cause, declarations = front ++ declaration :: back ∧
        Declaration.Valid front ∧ Declaration.Offends front declaration cause ∧
        declarations.foldlM Checked.step {} = .error cause := by
  have start : Declaration.Valid ([] : List (Declaration V)) := ⟨.nil, .nil, .nil⟩
  have run := foldlM_first (fun front checked => Declaration.Valid front ∧ Tracks front checked)
    Declaration.Offends (fun _ _ declaration sound => sound.2.step sound.1 declaration)
    ⟨start, tracks_initial⟩ declarations
  simp only [List.nil_append] at run
  rcases run with ⟨final, accepted, valid, -⟩ |
    ⟨front, declaration, back, reached, cause, split, ⟨valid, -⟩, offends, failed⟩
  · exact .inl ⟨final, accepted, valid⟩
  · exact .inr ⟨front, declaration, back, cause, split, valid, offends, failed⟩

end Checked

namespace Signature

/-- The parameters of declarations, the names that each reads being found by counting. -/
def paramsByCount? (declarations : List (Declaration V)) : Option (List (Param V)) :=
  declarations.zipIdx.mapM fun (declaration, index) =>
    (Declaration.counted? declarations index declaration.kind).map fun names =>
      ⟨declaration.name, declaration.kind, declaration.default.fill names⟩

variable {name : String} {declarations : List (Declaration V)} {signature : Signature V}

theorem valid_of_build (built : build name declarations = .ok signature) :
    Declaration.Valid declarations := by
  rcases Checked.run_cases declarations with ⟨_, _, valid⟩ | ⟨_, _, _, _, _, _, _, failed⟩
  · exact valid
  · rw [build, failed] at built
    cases built

private theorem paramsByCount?_eq (valid : Declaration.Valid declarations) :
    paramsByCount? declarations = some (paramsFrom [] declarations) := by
  have behind : ∀ front rest, declarations = front ++ rest →
      ((rest.zipIdx front.length).mapM fun (declaration, index) =>
        (Declaration.counted? declarations index declaration.kind).map fun names =>
          (⟨declaration.name, declaration.kind, declaration.default.fill names⟩ : Param V)) =
      some (paramsFrom (front.map Declaration.name) rest) := by
    intro front rest split
    induction rest generalizing front with
    | nil => rfl
    | cons declaration rest ih =>
      have later := ih (front ++ [declaration]) (by rw [split, List.append_cons])
      rw [List.length_append, List.length_singleton, List.map_append, List.map_singleton] at later
      have own := (split ▸ valid).counted?_eq
      rw [← split] at own
      simp only [List.zipIdx_cons, List.mapM_cons, own, later]
      rfl
  exact behind [] declarations rfl

private theorem paramsFrom_append (before : List String) (front back : List (Declaration V)) :
    paramsFrom before (front ++ back) =
      paramsFrom before front ++ paramsFrom (before ++ front.map Declaration.name) back := by
  induction front generalizing before with
  | nil => simp [paramsFrom]
  | cons declaration front ih => simp [paramsFrom, ih]

theorem find?_paramsFrom {front back : List (Declaration V)} {declaration : Declaration V}
    (distinct : ((front ++ declaration :: back).map Declaration.name).Nodup) :
    (paramsFrom [] (front ++ declaration :: back)).find?
        (fun param => param.name == declaration.name) =
      some ⟨declaration.name, declaration.kind,
        declaration.default.fill (front.map Declaration.name)⟩ := by
  rw [List.map_append, List.map_cons, List.nodup_append] at distinct
  have none : ∀ param ∈ paramsFrom [] front, ¬ (param.name == declaration.name) = true := by
    intro param member same
    have inFront : param.name ∈ front.map Declaration.name := by
      rw [← map_name_paramsFrom []]
      exact List.mem_map_of_mem member
    exact distinct.2.2 param.name inFront declaration.name (by simp) (beq_iff_eq.1 same)
  rw [paramsFrom_append, List.find?_append, List.find?_eq_none.2 none, Option.none_or, paramsFrom,
    List.nil_append]
  exact List.find?_cons_of_pos (beq_self_eq_true declaration.name)

/-- A signature is built exactly of declarations with distinct names whose kinds do not go back and
of which no required positional one comes behind a positional one with a default. Else the fault
names the first declaration that is wrong behind those in front of it, and what is wrong with it.
In a signature that was built each late default reads the names of all declarations in front;
counting finds the same names, and there are never too few of them. -/
theorem build_exact (name : String) (declarations : List (Declaration V)) :
    ((∃ signature, build name declarations = .ok signature) ↔
      Declaration.Valid declarations) ∧
    (∀ fault, build name declarations = .error fault ↔
      ∃ front declaration back cause, declarations = front ++ declaration :: back ∧
        Declaration.Valid front ∧ Declaration.Offends front declaration cause ∧
        fault = .invalidSignature name cause) ∧
    ∀ signature, build name declarations = .ok signature →
      paramsByCount? declarations = some signature.params ∧
      ∀ front declaration back body, declarations = front ++ declaration :: back →
        declaration.default = .late body →
        signature.dependencies? declaration.name = some (front.map Declaration.name) := by
  refine ⟨⟨fun ⟨_, built⟩ => valid_of_build built, fun valid => ?_⟩,
    fun fault => ⟨fun failed => ?_, ?_⟩, ?_⟩
  · rcases Checked.run_cases declarations with ⟨_, accepted, -⟩ |
      ⟨front, declaration, back, cause, rfl, -, offends, -⟩
    · exact ⟨_, by rw [build, accepted]⟩
    · exact absurd valid offends.not_valid
  · rcases Checked.run_cases declarations with ⟨_, accepted, -⟩ |
      ⟨front, declaration, back, cause, split, valid, offends, stopped⟩
    · rw [build, accepted] at failed
      cases failed
    · rw [build, stopped] at failed
      exact ⟨front, declaration, back, cause, split, valid, offends, (Except.error.inj failed).symm⟩
  · rintro ⟨front, declaration, back, cause, rfl, valid, offends, rfl⟩
    rcases Checked.run_cases (front ++ declaration :: back) with ⟨_, -, whole⟩ |
      ⟨other, next, rest, found, split, validOther, offendsNext, stopped⟩
    · exact absurd whole offends.not_valid
    rw [build, stopped]
    rcases split_cases split with ⟨rfl, rfl⟩ | ⟨between, rfl⟩ | ⟨between, rfl⟩
    · rw [offends.unique offendsNext]
    · exact absurd validOther offends.not_valid
    · exact absurd valid offendsNext.not_valid
  · intro signature built
    have valid := valid_of_build built
    obtain ⟨rfl, -⟩ := params_of_build built
    refine ⟨paramsByCount?_eq valid, ?_⟩
    rintro front declaration back body rfl late
    rw [dependencies?, find?_paramsFrom valid.distinct, late]
    rfl

/-- A name that is there already is reported before its place in the order. -/
example : (build "f" [⟨"a", .keywordOnly, .eager 1⟩, ⟨"a", .positionalOnly, .required⟩] :
    Except Fault (Signature Nat)) = .error (.invalidSignature "f" (.duplicate "a")) := rfl

end Signature

end DeferredDefaults.Call
