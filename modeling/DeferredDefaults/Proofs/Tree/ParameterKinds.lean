import DeferredDefaults.Proofs.LateBinding.Dependencies
import DeferredDefaults.Proofs.Tree.Lossless

/-!
Which kinds the parameters of a list get. Stars decide the kind of a parameter where it is read, and
positional parameters without a default are refused behind one that has a default. A `/` makes all
parameters in front of it positional-only, also one behind `**`. So the kinds agree with the stars,
and the defaults trail, exactly in the lists in which no `/` follows a `**`.
-/

set_option autoImplicit false
set_option relaxedAutoImplicit false

namespace DeferredDefaults

/-- The parameter stands behind one `star`. -/
def Parameter.isStarred (star : String) (parameter : Parameter) : Bool :=
  match parameter.stars with
  | [token] => token.isOp star
  | _ => false

namespace ParameterItem

def isSlash : ParameterItem → Bool
  | separator value => value.kind == .positionalOnly
  | parameter _ => false

def takesKeywords : ParameterItem → Bool
  | parameter value => value.isStarred "**"
  | separator _ => false

@[simp] theorem isSlash_beforeSlash (item : ParameterItem) :
    item.beforeSlash.isSlash = item.isSlash := by
  cases item <;> rfl

@[simp] theorem takesKeywords_beforeSlash (item : ParameterItem) :
    item.beforeSlash.takesKeywords = item.takesKeywords := by
  cases item <;> rfl

private theorem kind_beforeSlash (item : ParameterItem) :
    ∀ value ∈ item.beforeSlash.parameter?, value.kind = .positionalOnly := by
  cases item with
  | parameter value =>
    rintro _ ⟨⟩
    rfl
  | separator value => rintro _ ⟨⟩

private theorem mem_parameter? {item : ParameterItem} {value : Parameter}
    (found : value ∈ item.parameter?) :
    item = parameter value := by
  cases item with
  | parameter other =>
    cases found
    rfl
  | separator other => cases found

end ParameterItem

/-- No `/` follows a `**`. -/
def SlashLeads (items : List ParameterItem) : Prop :=
  items.Pairwise fun front back => back.isSlash = true → front.takesKeywords = false

instance (items : List ParameterItem) : Decidable (SlashLeads items) :=
  inferInstanceAs (Decidable (items.Pairwise _))

def Parameter.Trails (front back : Parameter) : Prop :=
  front.kind.isPositional → front.default.isSome → back.kind.isPositional → back.default.isSome

namespace Parameters

/-- The kind and the stars of a parameter that is read, and when its default may be missing. -/
private theorem kind_of_parameter {reading : Reading} {raw : RawItem} {position : Position}
    {parameter : Parameter} (read : reading.parameter raw position = .ok parameter) :
    (parameter.kind, parameter.stars) =
        ((reading.stars raw.tokens).1, (reading.stars raw.tokens).2.1) ∧
      (parameter.kind.isPositional = true → parameter.default.isSome = false →
        reading.defaulted = false) := by
  simp only [Reading.parameter] at read
  split at read
  · cases read
  · split at read
    · cases read
    · split at read
      · cases read
      · obtain ⟨default, found, read⟩ := bind_eq_ok.1 read
        split at read
        · cases read
        · next accepted =>
          cases read
          refine ⟨rfl, fun positional none => ?_⟩
          rw [Option.isSome_eq_false_iff] at none
          simpa [positional, none] using accepted

private theorem stars_cases (reading : Reading) (tokens : List Token) {kind : Parameter.Kind}
    {stars : List Token} (read : (kind, stars) =
      ((reading.stars tokens).1, (reading.stars tokens).2.1)) :
    (kind = .varPositional ∧ ∃ star, stars = [star] ∧ star.isOp "*" = true) ∨
    (kind = .varKeyword ∧ ∃ star, stars = [star] ∧ star.isOp "**" = true) ∨
    (kind = reading.plainKind ∧ stars = []) := by
  unfold Reading.stars at read
  split at read
  · cases read
    exact .inr (.inr ⟨rfl, rfl⟩)
  · split at read
    · next isStar =>
      cases read
      exact .inl ⟨rfl, _, rfl, isStar⟩
    · split at read
      · next isStar =>
        cases read
        exact .inr (.inl ⟨rfl, _, rfl, isStar⟩)
      · cases read
        exact .inr (.inr ⟨rfl, rfl⟩)

/-- The kind that a parameter gets from its stars, its own and those in front of it. -/
inductive Kinded (reading : Reading) (parameter : Parameter) : Prop
  | varPositional : parameter.kind = .varPositional → parameter.isStarred "*" = true →
      parameter.isStarred "**" = false → Kinded reading parameter
  | varKeyword : parameter.kind = .varKeyword → parameter.isStarred "*" = false →
      parameter.isStarred "**" = true → Kinded reading parameter
  | plain : parameter.kind = reading.plainKind → parameter.isStarred "*" = false →
      parameter.isStarred "**" = false → Kinded reading parameter

private theorem isOp_unique {token : Token} {op other : String} (isOp : token.isOp op = true)
    (different : op ≠ other) : token.isOp other = false := by
  rw [← Bool.not_eq_true]
  intro again
  exact different ((Token.isOp_iff.1 isOp).2.symm.trans (Token.isOp_iff.1 again).2)

private theorem Kinded.iff_stars {reading : Reading} {parameter : Parameter}
    (kinded : Kinded reading parameter) :
    (parameter.kind = .varPositional ↔ parameter.isStarred "*" = true) ∧
      (parameter.kind = .varKeyword → parameter.isStarred "**" = true) ∧
      (parameter.isStarred "**" = true → parameter.kind = .varKeyword) := by
  have plainKind : reading.plainKind ≠ .varPositional ∧ reading.plainKind ≠ .varKeyword := by
    unfold Reading.plainKind
    split <;> exact ⟨nofun, nofun⟩
  cases kinded with
  | varPositional kind star noStars => simp [kind, star, noStars]
  | varKeyword kind noStar stars => simp [kind, noStar, stars]
  | plain kind noStar noStars => simp [kind, noStar, noStars, plainKind]

private theorem Kinded.plain_of_leading {reading : Reading} {parameter : Parameter}
    (kinded : Kinded reading parameter) (leads : reading.keywordOnly = false)
    (noVariadic : parameter.kind ≠ .varPositional) : parameter.isStarred "*" = false ∧
      (parameter.isStarred "**" = false → parameter.kind.isPositional = true) := by
  cases kinded with
  | varPositional kind => exact absurd kind noVariadic
  | varKeyword kind noStar stars => exact ⟨noStar, fun noStars => by simp [stars] at noStars⟩
  | plain kind noStar => exact ⟨noStar, fun _ => by simp [kind, Reading.plainKind, leads,
      Parameter.Kind.isPositional]⟩

private theorem kinded_parameter {reading : Reading} {raw : RawItem} {position : Position}
    {parameter : Parameter} (read : reading.parameter raw position = .ok parameter) :
    Kinded reading parameter := by
  rcases stars_cases reading raw.tokens (kind_of_parameter read).1 with
    ⟨kind, star, stars, isStar⟩ | ⟨kind, star, stars, isStar⟩ | ⟨kind, stars⟩
  · refine .varPositional kind ?_ ?_
    · simpa [Parameter.isStarred, stars] using isStar
    · simpa [Parameter.isStarred, stars] using isOp_unique isStar (by decide)
  · refine .varKeyword kind ?_ ?_
    · simpa [Parameter.isStarred, stars] using isOp_unique isStar (by decide)
    · simpa [Parameter.isStarred, stars] using isStar
  · refine .plain kind ?_ ?_
    · simp [Parameter.isStarred, stars]
    · simp [Parameter.isStarred, stars]

namespace Reading

def list (reading : Reading) : List Parameter := reading.items.filterMap ParameterItem.parameter?

/-- The kinds of the parameters read so far, as far as no `/` has followed a `**`. -/
structure Ordered (reading : Reading) : Prop where
  variadic : ∀ parameter ∈ reading.list,
    parameter.kind = .varPositional ↔ parameter.isStarred "*" = true
  starred : ∀ parameter ∈ reading.list,
    parameter.kind = .varKeyword → parameter.isStarred "**" = true
  plain : reading.keywordOnly = false → ∀ parameter ∈ reading.list,
    parameter.isStarred "*" = false ∧
      (parameter.isStarred "**" = false → parameter.kind.isPositional = true)
  slashed : reading.items.Pairwise fun front back => back.isSlash = true →
    ∀ parameter ∈ front.parameter?, parameter.kind = .positionalOnly
  keyword : SlashLeads reading.items → ∀ parameter ∈ reading.list,
    parameter.isStarred "**" = true → parameter.kind = .varKeyword
  seen : SlashLeads reading.items → ∀ parameter ∈ reading.list,
    parameter.kind.isPositional = true → parameter.default.isSome = true →
      reading.defaulted = true
  trail : SlashLeads reading.items → reading.list.Pairwise Parameter.Trails

variable {reading next : Reading}

theorem list_of_separator {separator : Separator}
    (items : next.items = reading.items ++ [.separator separator]) : next.list = reading.list := by
  rw [list, items, List.filterMap_append]
  exact List.append_nil _

theorem list_of_slash {separator : Separator}
    (items : next.items = reading.items.map ParameterItem.beforeSlash ++ [.separator separator]) :
    next.list = reading.list.map fun parameter => { parameter with kind := .positionalOnly } := by
  rw [list, items, List.filterMap_append, List.filterMap_map, list, List.map_filterMap]
  refine (List.append_nil _).trans (List.filterMap_congr fun item _ => ?_)
  cases item <;> rfl

theorem list_of_parameter {parameter : Parameter}
    (items : next.items = reading.items ++ [.parameter parameter]) :
    next.list = reading.list ++ [parameter] := by
  rw [list, items, List.filterMap_append]
  rfl

private theorem Ordered.positional (ordered : reading.Ordered) (leads : reading.keywordOnly = false)
    {slash : ParameterItem} (isSlash : slash.isSlash = true)
    (slashLeads : SlashLeads (reading.items.map ParameterItem.beforeSlash ++ [slash])) :
    SlashLeads reading.items ∧ ∀ parameter ∈ reading.list,
      parameter.isStarred "**" = false ∧ parameter.kind.isPositional = true := by
  rw [SlashLeads, List.pairwise_append, List.pairwise_map] at slashLeads
  obtain ⟨before, -, inFront⟩ := slashLeads
  simp only [ParameterItem.isSlash_beforeSlash, ParameterItem.takesKeywords_beforeSlash] at before
  refine ⟨before, fun parameter member => ?_⟩
  obtain ⟨item, isItem, found⟩ := List.mem_filterMap.1 member
  obtain rfl := ParameterItem.mem_parameter? found
  have noKeywords := inFront _ (List.mem_map_of_mem isItem) slash (List.mem_singleton_self _) isSlash
  rw [ParameterItem.takesKeywords_beforeSlash] at noKeywords
  exact ⟨noKeywords, (ordered.plain leads parameter member).2 noKeywords⟩

private theorem Ordered.slash (ordered : reading.Ordered) (leads : reading.keywordOnly = false)
    {separator : Separator} (isSlash : separator.kind = .positionalOnly)
    (items : next.items = reading.items.map ParameterItem.beforeSlash ++ [.separator separator])
    (defaulted : next.defaulted = reading.defaulted) : next.Ordered := by
  have slashed : (ParameterItem.separator separator).isSlash = true := by
    simp [ParameterItem.isSlash, isSlash]
  have list := list_of_slash items
  have leading := fun leadsHere : SlashLeads next.items =>
    ordered.positional leads slashed (items ▸ leadsHere)
  refine ⟨?_, ?_, fun _ => ?_, ?_, fun leadsHere => ?_, fun leadsHere => ?_, fun leadsHere => ?_⟩
  · rw [list, List.forall_mem_map]
    intro parameter member
    have noStar := (ordered.plain leads parameter member).1
    exact ⟨nofun, fun star => absurd (show parameter.isStarred "*" = true from star) (by simp [noStar])⟩
  · rw [list, List.forall_mem_map]
    exact fun _ _ => nofun
  · rw [list, List.forall_mem_map]
    exact fun parameter member => ⟨(ordered.plain leads parameter member).1, fun _ => rfl⟩
  · rw [items, List.pairwise_append]
    refine ⟨?_, List.pairwise_singleton _ _, ?_⟩
    · rw [List.pairwise_map]
      exact List.pairwise_of_forall fun front _ _ => ParameterItem.kind_beforeSlash front
    · rw [List.forall_mem_map]
      exact fun front _ _ _ _ => ParameterItem.kind_beforeSlash front
  · rw [list, List.forall_mem_map]
    intro parameter member star
    have noKeywords := ((leading leadsHere).2 parameter member).1
    exact absurd (show parameter.isStarred "**" = true from star) (by simp [noKeywords])
  · rw [list, List.forall_mem_map, defaulted]
    intro parameter member _ hasDefault
    obtain ⟨before, positional⟩ := leading leadsHere
    exact ordered.seen before parameter member (positional parameter member).2 hasDefault
  · rw [list, List.pairwise_map]
    obtain ⟨before, positional⟩ := leading leadsHere
    refine (ordered.trail before).imp_of_mem fun {front back} inFront behind trails => ?_
    exact fun _ hasDefault _ => trails (positional _ inFront).2 hasDefault (positional _ behind).2

private theorem Ordered.star (ordered : reading.Ordered) {separator : Separator}
    (noSlash : separator.kind = .keywordOnly)
    (items : next.items = reading.items ++ [.separator separator])
    (keywordOnly : next.keywordOnly = true) (defaulted : next.defaulted = reading.defaulted) :
    next.Ordered := by
  have list := list_of_separator items
  have before : SlashLeads next.items → SlashLeads reading.items := by
    rw [items]
    exact fun leads => (List.pairwise_append.1 leads).1
  refine ⟨?_, ?_, fun plain => ?_, ?_, fun leads => ?_, fun leads => ?_, fun leads => ?_⟩
  · rw [list]
    exact ordered.variadic
  · rw [list]
    exact ordered.starred
  · rw [keywordOnly] at plain
    cases plain
  · rw [items, List.pairwise_append]
    refine ⟨ordered.slashed, List.pairwise_singleton _ _, ?_⟩
    simp [ParameterItem.isSlash, noSlash]
  · rw [list]
    exact ordered.keyword (before leads)
  · rw [list, defaulted]
    exact ordered.seen (before leads)
  · rw [list]
    exact ordered.trail (before leads)

private theorem Ordered.parameter (ordered : reading.Ordered) {parameter : Parameter}
    (kinded : Kinded reading parameter)
    (checked : parameter.kind.isPositional = true → parameter.default.isSome = false →
      reading.defaulted = false)
    (items : next.items = reading.items ++ [.parameter parameter])
    (keywordOnly : next.keywordOnly = (reading.keywordOnly || parameter.kind == .varPositional))
    (defaulted : next.defaulted = (reading.defaulted ||
      (parameter.kind.isPositional && parameter.default.isSome))) : next.Ordered := by
  have list := list_of_parameter items
  have before : SlashLeads next.items → SlashLeads reading.items := by
    rw [items]
    exact fun leads => (List.pairwise_append.1 leads).1
  have own := kinded.iff_stars
  refine ⟨?_, ?_, fun plain => ?_, ?_, fun leads => ?_, fun leads => ?_, fun leads => ?_⟩
  · rw [list, List.forall_mem_append, List.forall_mem_singleton]
    exact ⟨ordered.variadic, own.1⟩
  · rw [list, List.forall_mem_append, List.forall_mem_singleton]
    exact ⟨ordered.starred, own.2.1⟩
  · rw [keywordOnly, Bool.or_eq_false_iff, beq_eq_false_iff_ne] at plain
    rw [list, List.forall_mem_append, List.forall_mem_singleton]
    exact ⟨ordered.plain plain.1, kinded.plain_of_leading plain.1 plain.2⟩
  · rw [items, List.pairwise_append]
    exact ⟨ordered.slashed, List.pairwise_singleton _ _, fun _ _ => by simp [ParameterItem.isSlash]⟩
  · rw [list, List.forall_mem_append, List.forall_mem_singleton]
    exact ⟨ordered.keyword (before leads), own.2.2⟩
  · rw [list, List.forall_mem_append, List.forall_mem_singleton, defaulted]
    refine ⟨fun other member positional hasDefault => ?_, fun positional hasDefault => ?_⟩
    · rw [ordered.seen (before leads) other member positional hasDefault, Bool.true_or]
    · rw [positional, hasDefault, Bool.and_self, Bool.or_true]
  · rw [list, List.pairwise_append]
    refine ⟨ordered.trail (before leads), List.pairwise_singleton _ _, ?_⟩
    intro front inFront behind isBehind positional hasDefault positionalBehind
    obtain rfl := List.mem_singleton.1 isBehind
    have seen := ordered.seen (before leads) front inFront positional hasDefault
    by_contra none
    rw [checked positionalBehind (by simpa using none)] at seen
    cases seen

private theorem Ordered.step {function : Position} {raw : RawItem} (ordered : reading.Ordered)
    (read : reading.step function raw = .ok next) : next.Ordered := by
  rcases step_eq_ok read with ⟨leads, token, -, -, rfl⟩ | ⟨token, -, -, rfl⟩ |
    ⟨position, value, found, rfl⟩
  · exact ordered.slash leads rfl rfl rfl
  · exact ordered.star rfl rfl rfl rfl
  · exact ordered.parameter (kinded_parameter found) (kind_of_parameter found).2 rfl rfl rfl

private theorem Ordered.foldlM {function : Position} {items : List RawItem}
    (ordered : reading.Ordered) (read : items.foldlM (Reading.step function) reading = .ok next) :
    next.Ordered :=
  foldlM_keeps (fun _ _ _ _ ordered step => ordered.step step) ordered read

private theorem ordered_initial : ({} : Reading).Ordered where
  variadic := List.forall_mem_nil _
  starred := List.forall_mem_nil _
  plain := fun _ => List.forall_mem_nil _
  slashed := .nil
  keyword := fun _ => List.forall_mem_nil _
  seen := fun _ => List.forall_mem_nil _
  trail := fun _ => .nil

end Reading

/-- Parameter lists are well formed where no `/` follows a `**`. A parameter is variadic by position
exactly if it stands behind `*`. The others are variadic by keyword exactly if they stand behind
`**`, and positional parameters without a default come first, exactly in the lists in which no `/`
follows a `**`. -/
theorem wellFormed_read {function : Position} {inner : List Token} {parameters : Parameters}
    (read : Parameters.read function inner = .ok parameters) :
    (∀ parameter ∈ parameters.list,
      parameter.kind = .varPositional ↔ parameter.isStarred "*" = true) ∧
    (((∀ parameter ∈ parameters.list,
        parameter.kind = .varKeyword ↔ parameter.isStarred "**" = true) ∧
      parameters.DefaultsTrail) ↔ SlashLeads parameters.items) := by
  obtain ⟨reading, items, read⟩ := bind_eq_ok.1 read
  cases read
  have ordered := Reading.ordered_initial.foldlM items
  refine ⟨ordered.variadic, ?_, fun leads => ⟨fun parameter member => ?_, ordered.trail leads⟩⟩
  · rintro ⟨keyword, -⟩
    refine ordered.slashed.imp_of_mem fun {front back} inFront _ slashed isSlash => ?_
    cases front with
    | separator value => rfl
    | parameter value =>
      have member : value ∈ reading.list := List.mem_filterMap.2 ⟨_, inFront, rfl⟩
      have kind : value.kind = .positionalOnly := slashed isSlash value rfl
      rw [ParameterItem.takesKeywords, ← Bool.not_eq_true, ← keyword value member, kind]
      exact nofun
  · exact ⟨ordered.starred parameter member, ordered.keyword leads parameter member⟩

/-- The parameter list `a, /, b = 1, *c, d, **e`. -/
def leadingSlash : List Token :=
  let token kind text : Token := ⟨kind, text, .origin, .origin⟩
  [token .name "a", token .op ",", token .op "/", token .op ",", token .name "b", token .op "=",
    token .number "1", token .op ",", token .op "*", token .name "c", token .op ",",
    token .name "d", token .op ",", token .op "**", token .name "e"]

/-- The parameter list `a = 1, **b, /`. -/
def trailingSlash : List Token :=
  let token kind text : Token := ⟨kind, text, .origin, .origin⟩
  [token .name "a", token .op "=", token .number "1", token .op ",", token .op "**",
    token .name "b", token .op ",", token .op "/"]

/-- Behind `**b`, the `/` makes `b` a positional parameter without a default. -/
theorem wellFormed_read_slashes :
    (∃ parameters, Parameters.read .origin leadingSlash = .ok parameters ∧
      parameters.list.map Parameter.kind =
        [.positionalOnly, .positionalOrKeyword, .varPositional, .keywordOnly, .varKeyword] ∧
      parameters.DefaultsTrail) ∧
    ∃ parameters, Parameters.read .origin trailingSlash = .ok parameters ∧
      parameters.list.map Parameter.kind = [.positionalOnly, .positionalOnly] ∧
      ¬ ((∀ parameter ∈ parameters.list,
          parameter.kind = .varKeyword ↔ parameter.isStarred "**" = true) ∧
        parameters.DefaultsTrail) := by
  refine ⟨⟨_, rfl, rfl, ((wellFormed_read (rfl : read .origin leadingSlash = _)).2.2 ?_).2⟩,
    ⟨_, rfl, rfl, fun formed => ?_⟩⟩
  · decide
  · exact absurd ((wellFormed_read (rfl : read .origin trailingSlash = _)).2.1 formed) (by decide)

end Parameters

end DeferredDefaults
