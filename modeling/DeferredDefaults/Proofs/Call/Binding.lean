import DeferredDefaults.Proofs.Call.Building

/-!
How the arguments of a call are bound. Too many arguments are refused first; then the keywords are
taken in order, up to the first that names no parameter or one that is filled already; then the
parameters are taken in order, up to the first required one without an argument. Where nothing is
refused every parameter has its slot, and the order of the keywords does not matter.
-/

set_option autoImplicit false
set_option relaxedAutoImplicit false

namespace DeferredDefaults.Call

universe u

variable {V : Type u}

/-- The keyword names the parameter at `index`. Positional-only parameters have no keyword. -/
def Takes (declarations : List (Declaration V)) (keyword : String) (index : Nat) : Prop :=
  ∃ declaration, declarations[index]? = some declaration ∧ declaration.name = keyword ∧
    declaration.kind ≠ .positionalOnly

/-- Why a keyword behind those in `front` is refused. -/
inductive Refuses (function : String) (declarations : List (Declaration V)) (arguments : List V)
    (front : List (String × V)) (keyword : String) : Fault → Prop
  | unexpected :
      (∀ index, ¬ Takes declarations keyword index) →
      Refuses function declarations arguments front keyword (.unexpectedKeyword function keyword)
  /-- The parameter is filled by position, or by an earlier keyword. -/
  | duplicate {index : Nat} :
      Takes declarations keyword index →
      (index < arguments.length ∨ keyword ∈ front.map Prod.fst) →
      Refuses function declarations arguments front keyword (.duplicateArgument function keyword)

/-- Each keyword names a parameter of its own that is not filled by position. -/
structure Accepts (declarations : List (Declaration V)) (arguments : List V)
    (keywords : List (String × V)) : Prop where
  free : ∀ keyword ∈ keywords.map Prod.fst,
    ∃ index, Takes declarations keyword index ∧ arguments.length ≤ index
  distinct : (keywords.map Prod.fst).Nodup

/-- The number of parameters that arguments reach by position. -/
def Declaration.positionalCount (declarations : List (Declaration V)) : Nat :=
  declarations.countP fun declaration => declaration.kind.isPositional

/-- What binding comes to: the first thing that is refused, or a slot for every parameter. -/
inductive Binds (function : String) (declarations : List (Declaration V)) (arguments : List V)
    (keywords : List (String × V)) : Except Fault (List (String × Slot V)) → Prop
  | tooManyPositional :
      Declaration.positionalCount declarations < arguments.length →
      Binds function declarations arguments keywords (.error
        (.tooManyPositional function (Declaration.positionalCount declarations) arguments.length))
  | keyword {front back : List (String × V)} {keyword : String} {value : V} {fault : Fault} :
      arguments.length ≤ Declaration.positionalCount declarations →
      keywords = front ++ (keyword, value) :: back → Accepts declarations arguments front →
      Refuses function declarations arguments front keyword fault →
      Binds function declarations arguments keywords (.error fault)
  /-- The parameters in front have their slots, and this one has neither argument nor default. -/
  | missing {front back : List (Declaration V)} {declaration : Declaration V}
      {slots : List (String × Slot V)} :
      arguments.length ≤ Declaration.positionalCount declarations →
      Accepts declarations arguments keywords → declarations = front ++ declaration :: back →
      Signature.Waiting (supplied arguments keywords) [] front slots →
      declaration.default = .required →
      supplied arguments keywords front.length declaration.name = none →
      Binds function declarations arguments keywords
        (.error (.missingArgument function declaration.name))
  | bound {slots : List (String × Slot V)} :
      arguments.length ≤ Declaration.positionalCount declarations →
      Accepts declarations arguments keywords →
      Signature.Waiting (supplied arguments keywords) [] declarations slots →
      Binds function declarations arguments keywords (.ok slots)

section

variable {function keyword : String} {declarations : List (Declaration V)} {arguments : List V}
  {front back keywords other : List (String × V)} {value : V} {fault : Fault}

private theorem takes_cons_succ {declaration : Declaration V} {index : Nat} :
    Takes (declaration :: declarations) keyword (index + 1) ↔ Takes declarations keyword index :=
  Iff.rfl

private theorem Takes.unique (distinct : (declarations.map Declaration.name).Nodup)
    {index again : Nat} (takes : Takes declarations keyword index)
    (takesAgain : Takes declarations keyword again) :
    index = again := by
  obtain ⟨declaration, found, named, -⟩ := takes
  obtain ⟨same, foundSame, namedSame, -⟩ := takesAgain
  have inside : index < (declarations.map Declaration.name).length := by
    rw [List.length_map]
    exact (List.getElem?_eq_some_iff.1 found).1
  refine (List.getElem?_inj inside distinct).1 ?_
  rw [List.getElem?_map, List.getElem?_map, found, foundSame, Option.map_some, Option.map_some,
    named, namedSame]

private theorem Accepts.not_refuses (distinct : (declarations.map Declaration.name).Nodup)
    (accepts : Accepts declarations arguments (front ++ (keyword, value) :: back)) :
    ¬ Refuses function declarations arguments front keyword fault := by
  intro refuses
  obtain ⟨index, takes, behind⟩ := accepts.free keyword (by simp)
  cases refuses with
  | unexpected none => exact none index takes
  | duplicate takesAgain filled =>
    rcases filled with byPosition | byKeyword
    · rw [takes.unique distinct takesAgain] at behind
      exact absurd byPosition (Nat.not_lt_of_le behind)
    · have own := accepts.distinct
      rw [List.map_append, List.map_cons, List.nodup_append] at own
      exact own.2.2 keyword byKeyword keyword (by simp) rfl

private theorem Refuses.unique {again : Fault}
    (refuses : Refuses function declarations arguments front keyword fault)
    (refusesAgain : Refuses function declarations arguments front keyword again) :
    fault = again := by
  cases refuses with
  | unexpected none =>
    cases refusesAgain with
    | unexpected _ => rfl
    | duplicate takes _ => exact absurd takes (none _)
  | duplicate takes _ =>
    cases refusesAgain with
    | unexpected none => exact absurd takes (none _)
    | duplicate _ _ => rfl

private theorem Accepts.perm (accepts : Accepts declarations arguments keywords)
    (same : keywords.Perm other) : Accepts declarations arguments other where
  free := fun keyword member => accepts.free keyword ((same.map Prod.fst).mem_iff.2 member)
  distinct := (same.map Prod.fst).nodup_iff.1 accepts.distinct

private theorem lookup_eq_some_iff_mem (distinct : (keywords.map Prod.fst).Nodup) {name : String} :
    keywords.lookup name = some value ↔ (name, value) ∈ keywords := by
  induction keywords with
  | nil => simp
  | cons entry rest ih =>
    obtain ⟨own, held⟩ := entry
    rw [List.map_cons, List.nodup_cons] at distinct
    by_cases named : name = own
    · subst named
      have absent : (name, value) ∉ rest := fun member =>
        distinct.1 (List.mem_map.2 ⟨_, member, rfl⟩)
      simp [absent, eq_comm]
    · rw [List.lookup_cons, beq_eq_false_iff_ne.2 named, List.mem_cons]
      simp [ih distinct.2, named]

private theorem lookup_perm (distinct : (keywords.map Prod.fst).Nodup) (same : keywords.Perm other)
    (name : String) : keywords.lookup name = other.lookup name := by
  have distinctOther := (same.map Prod.fst).nodup_iff.1 distinct
  apply Option.ext
  intro value
  rw [lookup_eq_some_iff_mem distinct, lookup_eq_some_iff_mem distinctOther, same.mem_iff]

end

namespace Signature

section

variable {given : Nat → String → Option V} {names : List String}
  {declarations front back : List (Declaration V)} {declaration : Declaration V}
  {slots others : List (String × Slot V)}

private theorem Waiting.not_missing
    (waiting : Waiting given names (front ++ declaration :: back) slots)
    (required : declaration.default = .required) {index : Nat}
    (level : names.length + front.length = index) : given index declaration.name ≠ none := by
  induction front generalizing names slots with
  | nil =>
    rw [List.length_nil, Nat.add_zero] at level
    intro missing
    rw [← level] at missing
    cases waiting with
    | supplied found _ =>
      rw [found] at missing
      cases missing
    | eager _ isEager _ =>
      rw [required] at isEager
      cases isEager
    | late _ isLate _ =>
      rw [required] at isLate
      cases isLate
  | cons first front ih =>
    have later : (names ++ [first.name]).length + front.length = index := by
      rw [← level, List.length_append, List.length_singleton, List.length_cons]
      omega
    cases waiting with
    | supplied _ behind => exact ih behind later
    | eager _ _ behind => exact ih behind later
    | late _ _ behind => exact ih behind later

private theorem Waiting.unique (waiting : Waiting given names declarations slots)
    (again : Waiting given names declarations others) : slots = others := by
  induction waiting generalizing others with
  | nil => cases again; rfl
  | supplied found _ ih =>
    cases again with
    | supplied foundAgain behind => rw [ih behind, Option.some.inj (found.symm.trans foundAgain)]
    | eager missing _ _ | late missing _ _ => rw [found] at missing; cases missing
  | eager missing isEager _ ih =>
    cases again with
    | supplied found _ => rw [missing] at found; cases found
    | eager _ isEagerAgain behind =>
      cases isEager.symm.trans isEagerAgain
      rw [ih behind]
    | late _ isLate _ => rw [isEager] at isLate; cases isLate
  | late missing isLate _ ih =>
    cases again with
    | supplied found _ => rw [missing] at found; cases found
    | eager _ isEager _ => rw [isLate] at isEager; cases isEager
    | late _ isLateAgain behind =>
      cases isLate.symm.trans isLateAgain
      rw [ih behind]

end

private theorem supply_cases (given : Nat → String → Option V) (function keyword : String)
    (value : V) (before : List String) (declarations : List (Declaration V)) (start : Nat) :
    (∃ index result, Takes declarations keyword index ∧ given (start + index) keyword = none ∧
      supply function keyword value (placed given start (paramsFrom before declarations)) =
        .ok result) ∨
    (∃ index, Takes declarations keyword index ∧ given (start + index) keyword ≠ none ∧
      supply function keyword value (placed given start (paramsFrom before declarations)) =
        .error (.duplicateArgument function keyword)) ∨
    (∀ index, ¬ Takes declarations keyword index) ∧
      supply function keyword value (placed given start (paramsFrom before declarations)) =
        .error (.unexpectedKeyword function keyword) := by
  induction declarations generalizing before start with
  | nil => exact .inr (.inr ⟨fun index takes => by simp [Takes] at takes, rfl⟩)
  | cons declaration rest ih =>
    simp only [paramsFrom, placed, supply]
    by_cases named : declaration.name = keyword ∧ declaration.kind ≠ .positionalOnly
    · have takes : Takes (declaration :: rest) keyword 0 := ⟨declaration, rfl, named⟩
      rw [if_pos named]
      cases found : given start declaration.name with
      | none => exact .inl ⟨0, _, takes, named.1 ▸ found, rfl⟩
      | some value =>
        refine .inr (.inl ⟨0, takes, ?_, rfl⟩)
        rw [Nat.add_zero, ← named.1, found]
        exact Option.some_ne_none _
    · rw [if_neg named]
      have level : ∀ index, start + 1 + index = start + (index + 1) := fun index => by omega
      rcases ih (before ++ [declaration.name]) (start + 1) with
        ⟨index, result, takes, missing, accepted⟩ | ⟨index, takes, filled, refused⟩ |
        ⟨none, refused⟩
      · rw [level] at missing
        exact .inl ⟨index + 1, _, takes_cons_succ.2 takes, missing, by rw [accepted]; rfl⟩
      · rw [level] at filled
        exact .inr (.inl ⟨index + 1, takes_cons_succ.2 takes, filled, by rw [refused]; rfl⟩)
      · refine .inr (.inr ⟨fun index takes => ?_, by rw [refused]; rfl⟩)
        cases index with
        | zero =>
          obtain ⟨_, found, isNamed⟩ := takes
          cases found
          exact named isNamed
        | succ index => exact none index (takes_cons_succ.1 takes)

section

variable {function : String} {declarations : List (Declaration V)} {arguments : List V}
  {keywords : List (String × V)}

private theorem supplied_concat (arguments : List V) (front : List (String × V))
    (entry : String × V) :
    supplied arguments (front ++ [entry]) =
      withKeyword (supplied arguments front) entry.1 entry.2 := by
  funext index name
  have last : [entry].lookup name = if name = entry.1 then some entry.2 else none := by
    by_cases named : name = entry.1
    · rw [if_pos named, List.lookup_cons, beq_iff_eq.2 named]
    · rw [if_neg named, List.lookup_cons, beq_eq_false_iff_ne.2 named, List.lookup_nil]
  rw [withKeyword, supplied, supplied, List.lookup_append, last, Option.or_assoc]

private theorem supplied_eq_none {index : Nat} {name : String} :
    supplied arguments keywords index name = none ↔
      arguments.length ≤ index ∧ name ∉ keywords.map Prod.fst := by
  have absent : keywords.lookup name = none ↔ name ∉ keywords.map Prod.fst := by
    rw [List.lookup_eq_none_iff]
    constructor
    · rintro differ member
      obtain ⟨entry, isEntry, named⟩ := List.mem_map.1 member
      exact bne_iff_ne.1 (differ entry isEntry) named.symm
    · intro absent entry isEntry
      exact bne_iff_ne.2 fun named => absent (named ▸ List.mem_map_of_mem isEntry)
  rw [supplied, Option.or_eq_none_iff, List.getElem?_eq_none_iff, absent]

/-- A keyword behind accepted ones gives its argument to its parameter, or is refused. -/
private theorem supply_step (distinct : (declarations.map Declaration.name).Nodup)
    (function : String) {front : List (String × V)} (accepts : Accepts declarations arguments front)
    (entry : String × V) :
    (∃ next, supply function entry.1 entry.2
        (placed (supplied arguments front) 0 (paramsFrom [] declarations)) = .ok next ∧
      Accepts declarations arguments (front ++ [entry]) ∧
      next = placed (supplied arguments (front ++ [entry])) 0 (paramsFrom [] declarations)) ∨
      ∃ fault, supply function entry.1 entry.2
          (placed (supplied arguments front) 0 (paramsFrom [] declarations)) = .error fault ∧
        Refuses function declarations arguments front entry.1 fault := by
  have params : ((paramsFrom [] declarations).map Param.name).Nodup := by
    rwa [map_name_paramsFrom]
  rcases supply_cases (supplied arguments front) function entry.1 entry.2 [] declarations 0 with
    ⟨index, next, takes, missing, accepted⟩ | ⟨index, takes, filled, refused⟩ | ⟨none, refused⟩
  · rw [Nat.zero_add, supplied_eq_none] at missing
    refine .inl ⟨next, accepted, ⟨?_, ?_⟩, ?_⟩
    · rw [List.map_append, List.map_singleton]
      intro keyword member
      rcases List.mem_append.1 member with inFront | last
      · exact accepts.free keyword inFront
      · rw [List.mem_singleton] at last
        exact ⟨index, last ▸ takes, missing.1⟩
    · rw [List.map_append, List.map_singleton, ← List.concat_eq_append, List.nodup_concat]
      exact ⟨missing.2, accepts.distinct⟩
    · rw [supplied_concat]
      exact supply_placed params accepted
  · rw [Nat.zero_add, ne_eq, supplied_eq_none, Classical.not_and_iff_not_or_not, Nat.not_le,
      Classical.not_not] at filled
    exact .inr ⟨_, refused, .duplicate takes filled⟩
  · exact .inr ⟨_, refused, .unexpected none⟩

private theorem keywords_cases (distinct : (declarations.map Declaration.name).Nodup)
    (function : String) (arguments : List V) (keywords : List (String × V)) :
    (Accepts declarations arguments keywords ∧
      keywords.foldlM (fun supplied keyword => supply function keyword.1 keyword.2 supplied)
        (place (paramsFrom [] declarations) arguments) =
        .ok (placed (supplied arguments keywords) 0 (paramsFrom [] declarations))) ∨
      ∃ front keyword value back fault, keywords = front ++ (keyword, value) :: back ∧
        Accepts declarations arguments front ∧
        Refuses function declarations arguments front keyword fault ∧
        keywords.foldlM (fun supplied keyword => supply function keyword.1 keyword.2 supplied)
          (place (paramsFrom [] declarations) arguments) = .error fault := by
  have start : Accepts declarations arguments [] ∧ place (paramsFrom [] declarations) arguments =
      placed (supplied arguments []) 0 (paramsFrom [] declarations) :=
    ⟨⟨nofun, .nil⟩, place_eq_placed (paramsFrom [] declarations) arguments 0⟩
  have run := foldlM_first
    (fun front entries => Accepts declarations arguments front ∧
      entries = placed (supplied arguments front) 0 (paramsFrom [] declarations))
    (fun front entry => Refuses function declarations arguments front entry.1)
    (fun front entries entry sound => sound.2 ▸ supply_step distinct function sound.1 entry)
    start keywords
  simp only [List.nil_append] at run
  rcases run with ⟨final, accepted, accepts, rfl⟩ |
    ⟨front, entry, back, reached, fault, split, ⟨accepts, -⟩, refuses, failed⟩
  · exact .inl ⟨accepts, accepted⟩
  · exact .inr ⟨front, entry.1, entry.2, back, fault, split, accepts, refuses, failed⟩

private theorem isPositional_of_lt (valid : Declaration.Valid declarations) {index : Nat}
    {declaration : Declaration V} (found : declarations[index]? = some declaration)
    (inside : index < Declaration.positionalCount declarations) :
    declaration.kind.isPositional = true := by
  obtain ⟨bound, rfl⟩ := List.getElem?_eq_some_iff.1 found
  have split : declarations =
      declarations.take index ++ declarations[index] :: declarations.drop (index + 1) := by
    rw [← List.drop_eq_getElem_cons, List.take_append_drop]
  by_contra notPositional
  have order := valid.kinds
  rw [split, List.pairwise_append, List.pairwise_cons] at order
  have none : (declarations[index] :: declarations.drop (index + 1)).countP
      (fun declaration => declaration.kind.isPositional) = 0 := by
    rw [List.countP_eq_zero]
    intro later member positional
    rcases List.mem_cons.1 member with rfl | behind
    · exact notPositional positional
    · exact notPositional (Kind.isPositional_of_rank (order.2.1.1 later behind) positional)
  rw [Declaration.positionalCount, split, List.countP_append, none, Nat.add_zero] at inside
  have few := (declarations.take index).countP_le_length
    (p := fun declaration => declaration.kind.isPositional)
  rw [List.length_take] at few
  omega

private theorem positionalCount_eq (name : String) (declarations : List (Declaration V)) :
    (⟨name, paramsFrom [] declarations⟩ : Signature V).positionalCount =
      Declaration.positionalCount declarations := by
  have counted : ∀ before, (paramsFrom before declarations).countP
      (fun param => param.kind.isPositional) =
      declarations.countP fun declaration => declaration.kind.isPositional := by
    induction declarations with
    | nil => exact fun _ => rfl
    | cons declaration rest ih =>
      intro before
      rw [paramsFrom, List.countP_cons, List.countP_cons, ih]
  exact counted []

end

end Signature

private theorem Binds.unique {function : String} {declarations : List (Declaration V)}
    {arguments : List V} {keywords : List (String × V)}
    {result other : Except Fault (List (String × Slot V))}
    (distinct : (declarations.map Declaration.name).Nodup)
    (binds : Binds function declarations arguments keywords result)
    (again : Binds function declarations arguments keywords other) : result = other := by
  cases binds with
  | tooManyPositional many =>
    cases again with
    | tooManyPositional _ => rfl
    | keyword fits | missing fits | bound fits => exact absurd many (Nat.not_lt_of_le fits)
  | keyword fits split accepts refuses =>
    cases again with
    | tooManyPositional many => exact absurd many (Nat.not_lt_of_le fits)
    | keyword _ splitAgain acceptsAgain refusesAgain =>
      rcases split_cases (split.symm.trans splitAgain) with
        ⟨rfl, same⟩ | ⟨between, rfl⟩ | ⟨between, rfl⟩
      · cases same
        rw [refuses.unique refusesAgain]
      · exact absurd refuses (acceptsAgain.not_refuses distinct)
      · exact absurd refusesAgain (accepts.not_refuses distinct)
    | missing _ all | bound _ all => exact absurd refuses ((split ▸ all).not_refuses distinct)
  | missing fits all split waiting required missing =>
    cases again with
    | tooManyPositional many => exact absurd many (Nat.not_lt_of_le fits)
    | keyword _ splitAgain _ refuses =>
      exact absurd refuses ((splitAgain ▸ all).not_refuses distinct)
    | missing _ _ splitAgain waitingAgain requiredAgain missingAgain =>
      rcases split_cases (split.symm.trans splitAgain) with
        ⟨-, rfl⟩ | ⟨between, rfl⟩ | ⟨between, rfl⟩
      · rfl
      · exact absurd missing (waitingAgain.not_missing required (Nat.zero_add _))
      · exact absurd missingAgain (waiting.not_missing requiredAgain (Nat.zero_add _))
    | bound _ _ whole => exact absurd missing ((split ▸ whole).not_missing required (Nat.zero_add _))
  | bound fits all whole =>
    cases again with
    | tooManyPositional many => exact absurd many (Nat.not_lt_of_le fits)
    | keyword _ splitAgain _ refuses =>
      exact absurd refuses ((splitAgain ▸ all).not_refuses distinct)
    | missing _ _ split _ required missing =>
      exact absurd missing ((split ▸ whole).not_missing required (Nat.zero_add _))
    | bound _ _ wholeAgain => rw [whole.unique wholeAgain]

namespace Signature

variable {name : String} {declarations : List (Declaration V)} {signature : Signature V}
  {arguments : List V} {keywords : List (String × V)}

private theorem binds_bind (built : build name declarations = .ok signature) (arguments : List V)
    (keywords : List (String × V)) :
    Binds name declarations arguments keywords
      ((signature.bind arguments keywords).map Bindings.slots) := by
  obtain ⟨rfl, distinct⟩ := params_of_build built
  rw [bind, positionalCount_eq]
  split
  · next many => exact .tooManyPositional many
  next fits =>
  rw [Nat.not_lt] at fits
  rcases keywords_cases distinct name arguments keywords with ⟨accepts, accepted⟩ |
    ⟨front, keyword, value, back, fault, split, accepts, refuses, failed⟩
  · have names : (Bindings.empty : Bindings V).slots.map Prod.fst = [] := rfl
    rw [accepted]
    rcases slots_cases (supplied arguments keywords) name names (by simpa using distinct) with
      ⟨added, result, waiting, found, same⟩ |
      ⟨front, declaration, back, added, split, waiting, required, missing, failed⟩
    · have filled : result.slots = added := same
      rw [← filled] at waiting
      exact (congrArg (Except.map Bindings.slots) found) ▸ .bound fits accepts waiting
    · rw [List.length_nil, Nat.zero_add] at missing
      exact (congrArg (Except.map Bindings.slots) failed) ▸
        .missing fits accepts split waiting required missing
  · rw [failed]
    exact .keyword fits split accepts refuses

private theorem Waiting.deferred {given : Nat → String → Option V} {names : List String}
    {rest : List (Declaration V)} {slots : List (String × Slot V)}
    (waiting : Waiting given names rest slots) {own : String} {wrapper : Wrapper V}
    (member : (own, .deferred wrapper) ∈ slots) :
    ∃ front declaration back body, rest = front ++ declaration :: back ∧ declaration.name = own ∧
      declaration.default = .late body ∧
      wrapper = ⟨own, ⟨names ++ front.map Declaration.name, body⟩⟩ := by
  induction waiting with
  | nil => cases member
  | supplied _ _ ih | eager _ _ _ ih =>
    rcases List.mem_cons.1 member with isOwn | behind
    · cases isOwn
    · obtain ⟨front, declaration, back, body, rfl, named, late, reads⟩ := ih behind
      exact ⟨_ :: front, declaration, back, body, rfl, named, late, by simpa using reads⟩
  | late _ isLate _ ih =>
    rcases List.mem_cons.1 member with isOwn | behind
    · cases isOwn
      exact ⟨[], _, _, _, rfl, rfl, isLate, by simp⟩
    · obtain ⟨front, declaration, back, body, rfl, named, late, reads⟩ := ih behind
      exact ⟨_ :: front, declaration, back, body, rfl, named, late, by simpa using reads⟩

/-- Binding the arguments of a signature that was built comes to exactly one thing: too many
arguments by position; else the first keyword that names no parameter or a filled one; else the
first required parameter without an argument; else a slot for each parameter, with its argument, its
default, or its late default under its own name and with its own dependencies. Arguments by position
go to positional parameters, and keywords bind the same in any order. -/
theorem bind_exact (built : build name declarations = .ok signature) (arguments : List V)
    (keywords : List (String × V)) :
    (∀ result, (signature.bind arguments keywords).map Bindings.slots = result ↔
      Binds name declarations arguments keywords result) ∧
    (∀ index declaration, index < arguments.length →
      arguments.length ≤ Declaration.positionalCount declarations →
      declarations[index]? = some declaration → declaration.kind.isPositional = true) ∧
    ∀ bindings, signature.bind arguments keywords = .ok bindings →
      (∀ own wrapper, (own, .deferred wrapper) ∈ bindings.slots → wrapper.name = own ∧
        signature.dependencies? own = some wrapper.dependencies) ∧
      ∀ other, keywords.Perm other → signature.bind arguments other = .ok bindings := by
  have valid := valid_of_build built
  have exact : ∀ keywords result, (signature.bind arguments keywords).map Bindings.slots = result ↔
      Binds name declarations arguments keywords result := fun keywords result =>
    ⟨fun same => same ▸ binds_bind built arguments keywords,
      (binds_bind built arguments keywords).unique valid.distinct⟩
  refine ⟨exact keywords, ?_, fun bindings bound => ⟨?_, ?_⟩⟩
  · intro index declaration inside fits found
    exact isPositional_of_lt valid found (Nat.lt_of_lt_of_le inside fits)
  · intro own wrapper member
    obtain ⟨front, declaration, back, body, split, named, late, reads⟩ :=
      (waiting_of_bind built bound).deferred member
    rw [List.nil_append] at reads
    have distinct := valid.distinct
    rw [split] at distinct
    obtain ⟨rfl, -⟩ := params_of_build built
    refine ⟨by rw [reads], ?_⟩
    rw [dependencies?, ← named, split, find?_paramsFrom distinct, late, reads]
    rfl
  · intro other same
    have binds := (exact keywords (.ok bindings.slots)).1 (by rw [bound]; rfl)
    cases binds with
    | bound fits accepts waiting =>
      have equal : supplied arguments keywords = supplied arguments other := by
        funext index name
        rw [supplied, supplied, lookup_perm accepts.distinct same]
      rw [equal] at waiting
      obtain ⟨again, boundAgain, slots⟩ :=
        map_eq_ok.1 ((exact other _).2 (.bound fits (accepts.perm same) waiting))
      rw [boundAgain]
      congr 1
      cases again
      cases bindings
      cases slots
      rfl

/-- In a call of `f(a, /, b=…, *, c=…)` with late defaults the keywords `c` and `b` may change
places, and the positional-only `a` is not taken as one. -/
theorem bind_sums_exact :
    build "f" sums = .ok ⟨"f", paramsFrom [] sums⟩ ∧
    Binds "f" sums [4] [("b", 1), ("a", 2)] (.error (.unexpectedKeyword "f" "a")) ∧
    ∃ bindings, bind ⟨"f", paramsFrom [] sums⟩ [4] [("c", 9), ("b", 5)] = .ok bindings ∧
      bind ⟨"f", paramsFrom [] sums⟩ [4] [("b", 5), ("c", 9)] = .ok bindings := by
  have built : build "f" sums = .ok ⟨"f", paramsFrom [] sums⟩ := rfl
  refine ⟨built, ((bind_exact built _ _).1 _).1 rfl, _, rfl, ?_⟩
  exact ((bind_exact built _ _).2.2 _ rfl).2 _ (.swap _ _ _)

end Signature

end DeferredDefaults.Call
