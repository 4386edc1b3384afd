import DeferredDefaults.Proofs.Page.ParameterList
import DeferredDefaults.Proofs.Page.Progress
import DeferredDefaults.Proofs.Tree.Headline

/-!
The header of a function in print. Late binding leaves defaults that can be printed and names that
are identifiers. A header ends its line, goes on with its suite, or puts the suite below it.
-/

set_option autoImplicit false
set_option relaxedAutoImplicit false

namespace DeferredDefaults

open Text.Identifier (isIdentifier)

structure Resolution.Sound (resolution : Resolution) : Prop where
  name : isIdentifier resolution.name.toList = true
  dependencies : ∀ name ∈ resolution.dependencies, isIdentifier name.toList = true

def NamesAreIdentifiers (tokens : List Token) : Prop :=
  ∀ token ∈ tokens, token.kind = .name → isIdentifier token.text.toList = true

namespace LateBinding

variable {marker : String} {scope : Scope} {passed : Scope.Passed} {resolutions : List Resolution}

theorem mem_of_mem_visible {kind : Parameter.Kind} {name : String}
    (member : name ∈ scope.visible passed kind) : name ∈ scope.positional ++ scope.keywordOnly := by
  unfold Scope.visible at member
  split at member
  · exact List.mem_append_left _ (List.mem_of_mem_take member)
  · exact List.mem_of_mem_take member

theorem forall_mem_scope {parameters : Parameters} {holds : String → Prop}
    (named : ∀ value, .parameter value ∈ parameters.items → holds value.name.text) :
    ∀ name ∈ (Scope.ofParameters parameters).positional ++
      (Scope.ofParameters parameters).keywordOnly, holds name := by
  have listed : ∀ select, ∀ name ∈ parameters.names select, holds name := by
    intro select name member
    simp only [Parameters.names, Parameters.list, List.mem_map, List.mem_filter,
      List.mem_filterMap] at member
    obtain ⟨value, ⟨⟨item, isItem, found⟩, -⟩, rfl⟩ := member
    cases item with
    | separator => cases found
    | parameter other =>
      cases found
      exact named value isItem
  rw [List.forall_mem_append]
  exact ⟨listed Parameter.Kind.isPositional, listed (· == .keywordOnly)⟩

private theorem isName_of_ofTokens? {name : String} {dependencies : List String}
    {tokens : List Token} (read : Deferred.ofTokens? marker name dependencies tokens = .ok none) :
    ∀ first ∈ tokens.head?, first.isName marker = false := by
  intro first found
  unfold Deferred.ofTokens? at read
  split at read
  · rw [Option.mem_def.1 found] at read
    simp only at read
    split at read
    · cases read
    · next noMarker => simpa using noMarker
  · split at read
    · cases read
    · split at read <;> cases read

/-- What late binding makes of one item of a parameter list, and how to resolve its default. -/
inductive Turns (marker : String) (scope : Scope) :
    ParameterItem → ParameterItem → List Resolution → Prop
  | separator (value : Separator) : Turns marker scope (.separator value) (.separator value) []
  /-- A default that does not begin with the marker is kept. -/
  | kept {value : Parameter} :
      (∀ eq tokens, value.default = some ⟨eq, .expression tokens⟩ → value.kind.isVariadic = false →
        ∀ first ∈ tokens.head?, first.isName marker = false) →
      Turns marker scope (.parameter value) (.parameter value) []
  | deferred {value : Parameter} {eq : Token} {tokens : List Token} {call : MarkerCall}
      (passed : Scope.Passed) : value.default = some ⟨eq, .expression tokens⟩ →
      MarkerCall.ofTokens? marker tokens = some call →
      Turns marker scope (.parameter value)
        (.parameter { value with
          default := some ⟨eq, .deferred ⟨scope.visible passed value.kind, call⟩⟩ })
        [⟨value.name.text, scope.visible passed value.kind⟩]

private theorem turns_parameter {value next : Parameter}
    (bound : parameter marker scope passed value = .ok (next, resolutions)) :
    Turns marker scope (.parameter value) (.parameter next) resolutions := by
  unfold parameter at bound
  split at bound
  · next eq tokens isDefault =>
    split at bound
    · next variadic =>
      cases bound
      refine .kept fun _ _ _ plain => ?_
      rw [variadic] at plain
      cases plain
    · obtain ⟨result, read, bound⟩ := bind_eq_ok.1 bound
      cases result with
      | none =>
        cases bound
        refine .kept fun _ _ same _ first found => ?_
        rw [isDefault] at same
        cases same
        exact isName_of_ofTokens? read first found
      | some deferred =>
        cases bound
        have same : deferred.dependencies = scope.visible passed value.kind := by
          rcases isCall_of_ofTokens? read with ⟨none, -⟩ | ⟨call, found, -⟩
          · cases none
          · rw [Option.some.inj found]
        obtain ⟨dependencies, call⟩ := deferred
        subst same
        exact .deferred passed isDefault (Deferred.ofTokens?_eq_some read)
  · next other =>
    cases bound
    exact .kept fun eq tokens isDefault => absurd isDefault (other eq tokens)

/-- Every item and every resolution comes from an item that has been read. -/
theorem turns_items {list next : List ParameterItem}
    (bound : items marker scope passed list = .ok (next, resolutions)) :
    (∀ after ∈ next, ∃ before ∈ list, ∃ own, Turns marker scope before after own) ∧
      ∀ resolution ∈ resolutions, ∃ before ∈ list, ∃ after own,
        Turns marker scope before after own ∧ resolution ∈ own := by
  induction list generalizing next passed resolutions with
  | nil =>
    cases bound
    exact ⟨List.forall_mem_nil _, List.forall_mem_nil _⟩
  | cons item rest ih =>
    -- The first item, whatever it is, and then the others.
    have joins : ∀ {after : ParameterItem} {own more : List Resolution} {others : List ParameterItem}
        {passed : Scope.Passed}, Turns marker scope item after own →
        items marker scope passed rest = .ok (others, more) →
        (∀ next ∈ after :: others, ∃ before ∈ item :: rest, ∃ own,
            Turns marker scope before next own) ∧
          ∀ resolution ∈ own ++ more, ∃ before ∈ item :: rest, ∃ after own,
            Turns marker scope before after own ∧ resolution ∈ own := by
      intro after own more others passed turns boundRest
      obtain ⟨turned, resolved⟩ := ih boundRest
      refine ⟨List.forall_mem_cons.2 ⟨⟨item, List.mem_cons_self, own, turns⟩, ?_⟩,
        List.forall_mem_append.2 ⟨?_, ?_⟩⟩
      · intro next member
        obtain ⟨before, isBefore, turned⟩ := turned next member
        exact ⟨before, List.mem_cons_of_mem _ isBefore, turned⟩
      · exact fun resolution member => ⟨item, List.mem_cons_self, after, own, turns, member⟩
      · intro resolution member
        obtain ⟨before, isBefore, turned⟩ := resolved resolution member
        exact ⟨before, List.mem_cons_of_mem _ isBefore, turned⟩
    cases item with
    | separator value =>
      obtain ⟨⟨others, more⟩, boundRest, bound⟩ := bind_eq_ok.1 bound
      cases bound
      exact joins (.separator value) boundRest
    | parameter value =>
      obtain ⟨⟨first, own⟩, boundFirst, bound⟩ := bind_eq_ok.1 bound
      obtain ⟨⟨others, more⟩, boundRest, bound⟩ := bind_eq_ok.1 bound
      cases bound
      exact joins (turns_parameter boundFirst) boundRest

private theorem Turns.sound {before after : ParameterItem}
    (turns : Turns marker scope before after resolutions)
    (names : ∀ name ∈ scope.positional ++ scope.keywordOnly, isIdentifier name.toList = true)
    (plain : Parameters.Plain before) (legible : before.Legible)
    (identifiers : NamesAreIdentifiers before.tokens) :
    after.Sound ∧ ∀ resolution ∈ resolutions, resolution.Sound := by
  cases turns with
  | separator value => exact ⟨trivial, List.forall_mem_nil _⟩
  | kept noMarker =>
    refine ⟨fun default member => ?_, List.forall_mem_nil _⟩
    obtain ⟨tokens, isValue⟩ := (plain default member).2
    rw [ParameterDefault.Sound, isValue]
    trivial
  | @deferred value eq tokens call passed isDefault found =>
    have dependencies : ∀ name ∈ scope.visible passed value.kind,
        isIdentifier name.toList = true :=
      fun name member => names name (mem_of_mem_visible member)
    have isName := identifiers value.name
      (by simp [ParameterItem.tokens, Parameter.tokens]) legible.1
    constructor
    · rintro default ⟨⟩
      exact ⟨legible.2 ⟨eq, .expression tokens⟩ isDefault, MarkerCall.whole_ofTokens? found,
        dependencies⟩
    · rw [List.forall_mem_singleton]
      exact ⟨isName, dependencies⟩

/-- A header whose defaults have been deferred: around the items nothing has changed. -/
structure Bound (old new : Header) (resolutions : List Resolution) : Prop where
  head : new.head = old.head
  leading : new.parameters.leading = old.parameters.leading
  parameters : new.parameters.tokens = old.parameters.tokens
  tail : new.tail = old.tail
  items : ∀ item ∈ new.parameters.items, item.Sound
  resolutions : ∀ resolution ∈ resolutions, resolution.Sound

theorem Bound.tokens {old new : Header} (bound : Bound old new resolutions) :
    new.tokens = old.tokens := by
  rw [Header.tokens, Header.tokens, bound.head, bound.parameters, bound.tail]

theorem bound_of_header {old new : Header} (shaped : old.Shaped)
    (plain : ∀ item ∈ old.parameters.items, Parameters.Plain item)
    (identifiers : NamesAreIdentifiers old.parameters.tokens)
    (found : header marker old = .ok (new, resolutions)) : Bound old new resolutions := by
  obtain ⟨⟨list, own⟩, boundItems, found⟩ := bind_eq_ok.1 found
  cases found
  rw [NamesAreIdentifiers, Parameters.tokens, List.forall_mem_append] at identifiers
  have inItem : ∀ item ∈ old.parameters.items, NamesAreIdentifiers item.tokens :=
    fun item isItem token member =>
      identifiers.2 token (List.mem_flatMap.2 ⟨item, isItem, member⟩)
  have names : ∀ name ∈ (Scope.ofParameters old.parameters).positional ++
      (Scope.ofParameters old.parameters).keywordOnly, isIdentifier name.toList = true :=
    forall_mem_scope fun value isItem => inItem _ isItem value.name
      (by simp [ParameterItem.tokens, Parameter.tokens]) (shaped.legible _ isItem).1
  have sound : ∀ {before after : ParameterItem} {own : List Resolution},
      before ∈ old.parameters.items → Turns marker (.ofParameters old.parameters) before after own →
      after.Sound ∧ ∀ resolution ∈ own, resolution.Sound :=
    fun isItem turns =>
      turns.sound names (plain _ isItem) (shaped.legible _ isItem) (inItem _ isItem)
  obtain ⟨turned, resolved⟩ := turns_items boundItems
  have tokens : ({ old.parameters with items := list } : Parameters).tokens =
      old.parameters.tokens := by
    rw [Parameters.tokens, Parameters.tokens, tokens_items boundItems]
  refine ⟨rfl, rfl, tokens, rfl, fun item member => ?_, fun resolution member => ?_⟩
  · obtain ⟨before, isItem, own, turns⟩ := turned item member
    exact (sound isItem turns).1
  · obtain ⟨before, isItem, after, own, turns, isOwn⟩ := resolved resolution member
    exact (sound isItem turns).2 resolution isOwn

end LateBinding

theorem Line.IsWhole.split {front back : List Token} (whole : Line.IsWhole (front ++ back))
    (some : back ≠ []) :
    (∀ token ∈ front, token.isLayout = false ∧ token.kind ≠ .newline) ∧
      ∃ code stop, back = code ++ [stop] ∧ stop.kind = .newline ∧
        ∀ token ∈ code, token.isLayout = false ∧ token.kind ≠ .newline := by
  obtain ⟨line, stop, split, isNewline, inLine, -⟩ := whole
  obtain ⟨code, last, rfl⟩ := (List.eq_nil_or_concat' back).resolve_left some
  rw [← List.append_assoc] at split
  obtain ⟨rfl, isStop⟩ := List.append_inj' split rfl
  cases isStop
  rw [List.forall_mem_append] at inLine
  exact ⟨fun token member => (inLine.1 token member).symm, code, stop, rfl, isNewline,
    fun token member => (inLine.2 token member).symm⟩

namespace Page

variable {code : List Char} {page : Page} {later : List Token} {blocks : List Nat}
  {found : List (Kind × String)} {indent : String} {options : Options} {header : Header}

/-- The header can be printed: its first token is code, and its defaults stand inside brackets. -/
structure Heads (options : Options) (header : Header) : Prop where
  wrapper : isIdentifier options.wrapperName.toList = true
  first : ∃ first more, header.head = first :: more ∧ first.isTrivia = false
  inLine : ∀ token ∈ header.head ++ header.parameters.tokens,
    token.isLayout = false ∧ token.kind ≠ .newline
  within : Within (header.head.foldl Token.depthAfter 0) header.parameters.tokens
  items : ∀ item ∈ header.parameters.items, item.Sound

/-- What is printed of a header in front of its tail. -/
def opening (page : Page) (options : Options) (indent : String) (header : Header) : Page :=
  header.parameters.items.foldl (item options)
    ((page.line indent header.head).tokens header.parameters.leading)

/-- A header up to its tail, in front of which all that is known of the desk is how many brackets are
open. -/
private theorem Proceeds.opening (heads : Heads options header)
    (spaces : indent.toList.all Lexeme.isSpace = true)
    (level : Layout.width indent.toList = blocks.headD 0)
    (continues : ∀ desk : Desk, desk.front ≠ .single → desk.extra = 0 → desk.blocks = blocks →
      desk.spot.depth = (header.head ++ header.parameters.tokens).foldl Token.depthAfter 0 →
      Continues code desk (page.opening options indent header) later found) :
    Proceeds code page (header.head ++ (header.parameters.tokens ++ later))
      (Lines true blocks · (gist header.head ++ ((gist header.parameters.leading ++
        header.parameters.items.flatMap (ParameterItem.linear options)) ++ found))) := by
  obtain ⟨first, more, isHead, noTrivia⟩ := heads.first
  have inLine := heads.inLine
  have within := heads.within
  rw [Page.opening, isHead] at continues
  rw [isHead, List.cons_append, List.forall_mem_cons, List.forall_mem_append] at inLine
  rw [isHead] at within ⊢
  have noLayout := fun token member => (inLine.2.1 token member).1
  have noLayoutInside := fun token member => (inLine.2.2 token member).1
  -- Behind the rest of the head the desk is that of its last token.
  have headed := Desk.behind_eq (.first first blocks) more
  have depth : ((Desk.first first blocks).behind more).spot.depth =
      (first :: more).foldl Token.depthAfter 0 := by
    rw [headed]
    exact Spot.depth_behind noLayout _
  have behind := Desk.behind_eq ((Desk.first first blocks).behind more) header.parameters.tokens
  have noSingle : ((Desk.first first blocks).behind more).front ≠ .single :=
    Desk.front_behind (by nofun) more
  have inside : Continues code ((Desk.first first blocks).behind more)
      (page.line indent (first :: more)) (header.parameters.tokens ++ later)
      ((gist header.parameters.leading ++
        header.parameters.items.flatMap (ParameterItem.linear options)) ++ found) := by
    refine Carries.parameters heads.wrapper heads.items inLine.2.2 noSingle ?_ ?_
      (continues _ (Desk.front_behind noSingle _) ?_ ?_ ?_)
    · rw [headed]
      rfl
    · rwa [depth]
    · rw [behind, headed]
      rfl
    · rw [behind, headed]
      rfl
    · rw [behind, List.foldl_append, ← depth]
      exact Spot.depth_behind noLayoutInside _
  have begun := Proceeds.first inLine.1.1 noTrivia spaces level
    (Continues.tokens inLine.2.1 (fun single => nomatch single) (.inl rfl) inside)
  rw [gist_cons, List.append_assoc]
  exact begun.freshLine

theorem Proceeds.headLine (heads : Heads options header) {suite : List Token}
    (whole : Line.IsWhole (header.tokens ++ suite)) (some : header.tail ≠ [])
    (spaces : indent.toList.all Lexeme.isSpace = true)
    (level : Layout.width indent.toList = blocks.headD 0)
    (proceeds : Proceeds code ((page.header options indent header).tokens suite) later
      (Yields {} blocks · found)) :
    Proceeds code page (header.tokens ++ suite ++ later)
      (Lines true blocks · (header.linear options ++ (gist suite ++ found))) := by
  rw [Header.tokens, List.append_assoc] at whole
  obtain ⟨-, front, stop, isTail, isNewline, inLine⟩ := whole.split (by simp [some])
  have said : header.linear options ++ (gist suite ++ found) =
      gist header.head ++ ((gist header.parameters.leading ++
        header.parameters.items.flatMap (ParameterItem.linear options)) ++
          (gist (front ++ [stop]) ++ found)) := by
    rw [← isTail, Header.linear, gist_append, gist_append]
    simp only [List.append_assoc]
  rw [said, Header.tokens]
  have tokens : header.head ++ header.parameters.tokens ++ header.tail ++ suite ++ later =
      header.head ++ (header.parameters.tokens ++ (front ++ [stop] ++ later)) := by
    rw [← isTail]
    simp only [List.append_assoc]
  rw [tokens]
  refine Proceeds.opening heads spaces level fun desk noSingle noExtra isBlocks _ => ?_
  refine Continues.lineEnd inLine isNewline noSingle noExtra ?_
  rw [isBlocks, ← isTail, tokens_append]
  exact proceeds

theorem Proceeds.headAbove (heads : Heads options header) (closes : header.Closes)
    {suite : List Token} {stop : Token} {width : Nat}
    (inTail : ∀ token ∈ header.tail, token.isLayout = false ∧ token.kind ≠ .newline)
    (inLine : ∀ token ∈ suite, token.isLayout = false ∧ token.kind ≠ .newline)
    (hasCode : ∃ token ∈ suite, token.isTrivia = false)
    (spaces : indent.toList.all Lexeme.isSpace = true)
    (level : Layout.width indent.toList = blocks.headD 0) (deeper : blocks.headD 0 < width)
    (isPrefix : (page.header options indent header).text.toList <+: code)
    (proceeds : (∀ first ∈ suite.head?, first.isTrivia = false) →
      Proceeds code (((page.header options indent header).write "\n").moveTo none)
        (suite ++ [stop] ++ later) (Lines true (width :: blocks) · found)) :
    Proceeds code page (header.tokens ++ (suite ++ [stop]) ++ later)
      (Lines true blocks ·
        (header.linear options ++ ((.newline, "") :: (.indent, "") :: found))) := by
  obtain ⟨⟨front, colon, isTail, isColon⟩, closed⟩ := closes
  rw [isTail, List.forall_mem_append, List.forall_mem_singleton] at inTail
  have said : header.linear options ++ ((.newline, "") :: (.indent, "") :: found) =
      gist header.head ++ ((gist header.parameters.leading ++
        header.parameters.items.flatMap (ParameterItem.linear options)) ++
          (gist front ++ (colon.kind.gist colon.text ++
            ((.newline, "") :: (.indent, "") :: found)))) := by
    rw [Header.linear, isTail, gist_append, gist_append, gist_cons, gist_nil]
    simp only [List.append_assoc, List.append_nil]
  have tokens : header.tokens ++ (suite ++ [stop]) ++ later =
      header.head ++ (header.parameters.tokens ++ (front ++ (colon :: (suite ++ [stop] ++ later)))) := by
    simp [Header.tokens, isTail]
  have printed : page.header options indent header =
      ((page.opening options indent header).tokens front).token colon := by
    rw [Page.header, isTail, tokens_append]
    rfl
  rw [said, tokens]
  rw [printed] at isPrefix proceeds
  refine Proceeds.opening heads spaces level fun desk noSingle noExtra isBlocks depth => ?_
  have behind := desk.behind_eq front
  have noLayout := fun token member => (inTail.1 token member).1
  refine Continues.tokens inTail.1 (fun single => absurd single noSingle) (.inl noExtra) ?_
  refine Continues.leave inTail.2.1 inTail.2.2
    (fun single => absurd single (Desk.front_behind noSingle front)) (.inl ?_)
    (.single (.inr isColon)) ?_
  · rw [behind]
    exact noExtra
  have sameBlocks : (desk.behind front).blocks = blocks := by rw [behind, isBlocks]
  refine @Continues.expand _ _ _ _ _ width _ _ inLine hasCode rfl ?_ ?_ ?_ isPrefix ?_
  · rw [behind]
    exact noExtra
  · rw [Header.tokens, isTail, List.foldl_append, List.foldl_append] at closed
    rw [behind]
    simp only [Spot.depth_after inTail.2.1, Spot.depth_behind noLayout, depth]
    exact closed
  · rwa [sameBlocks]
  · rwa [sameBlocks]

end Page

end DeferredDefaults
