import DeferredDefaults.Proofs.Page.Heading
import DeferredDefaults.Proofs.Page.Placement
import DeferredDefaults.Proofs.Page.Typesetting
import DeferredDefaults.Proofs.Token.Fences
import DeferredDefaults.Proofs.Token.Nesting

/-!
Printing without the marker. The marker comes about neither in what is printed of a token nor where
one piece of text meets the next: tokens keep it apart as they do in their text, and what has been
added ends and begins with characters that the marker does not have.
-/

set_option autoImplicit false
set_option relaxedAutoImplicit false

namespace DeferredDefaults

open Text (Sealed Blunt Bare)
open Text.Identifier (isIdentifier)

def Lacks (text : List Char) : Prop := ¬ markerText <:+: text

instance (text : List Char) : Decidable (Lacks text) :=
  inferInstanceAs (Decidable (¬ markerText <:+: text))

theorem markerText_ne_nil : markerText ≠ [] := by decide

private theorem lacks_append {front back : List Char} (first : Lacks front) (second : Lacks back)
    (seam : Sealed markerText front ∨ Blunt markerText back) : Lacks (front ++ back) :=
  Text.free_append markerText_ne_nil first second seam

private theorem Word.bare {word : Word} {next : Option Char} (stands : word.Stands next)
    (noName : ∀ text, word ≠ .name text) : Bare markerText word.toList := by
  cases word with
  | name text => exact absurd rfl (noName text)
  | blank => decide
  | op c =>
    intro other member
    rw [List.mem_singleton.1 member]
    rcases stands with rfl | stop | ⟨rfl | rfl, -⟩
    · decide
    · simp only [Lexeme.isStop, Bool.or_eq_true, beq_iff_eq] at stop
      rcases stop with ((rfl | rfl) | rfl) | rfl <;> decide
    · decide
    · decide

theorem Phrase.Stands.lacks {words : List Word} {next : Option Char} (stands : Stands words next)
    (names : ∀ text, .name text ∈ words → Lacks text.toList) : Lacks (textOf words) := by
  induction words with
  | nil => exact fun found => markerText_ne_nil (List.infix_nil.1 found)
  | cons word rest ih =>
    obtain ⟨standsWord, standsRest⟩ := stands
    have others := ih standsRest fun text member => names text (List.mem_cons_of_mem _ member)
    rw [textOf_cons]
    cases word with
    | name text =>
      refine lacks_append (names text List.mem_cons_self) others (.inr fun c found => ?_)
      have next : c ∈ (textOf rest).head?.or next := by
        rw [Option.mem_def.1 found]
        rfl
      exact Lexeme.not_mem_markerText (standsWord.2 c next).1
    | op c =>
      have bare := Word.bare standsWord (by nofun)
      exact lacks_append (bare.free markerText_ne_nil) others (.inl bare.sealed)
    | blank =>
      have bare := Word.bare standsWord (by nofun)
      exact lacks_append (bare.free markerText_ne_nil) others (.inl bare.sealed)

/-- Among the tokens the marker is kept apart, and it is no part of any but the marker itself. -/
structure Guarded (tokens : List Token) : Prop where
  fenced : tokens.IsChain Token.Fenced
  edged : ∀ token ∈ tokens, token.Edged
  lacks : ∀ token ∈ tokens, token.isName ({} : Options).markerName = false →
    Lacks token.text.toList

theorem guarded_append {front back : List Token} (guarded : Guarded (front ++ back)) :
    Guarded front ∧ Guarded back := by
  obtain ⟨fenced, edged, lacks⟩ := guarded
  rw [List.forall_mem_append] at edged lacks
  exact ⟨⟨fenced.left_of_append, edged.1, lacks.1⟩, fenced.right_of_append, edged.2, lacks.2⟩

/-- The tokens of a part of a line: each keeps the marker apart from the next. -/
structure Strung (tokens : List Token) : Prop where
  fenced : tokens.IsChain Token.Fenced
  edged : ∀ token ∈ tokens, token.Edged
  noLayout : ∀ token ∈ tokens, token.isLayout = false

private theorem Strung.tail {token : Token} {rest : List Token} (strung : Strung (token :: rest)) :
    Strung rest where
  fenced := strung.fenced.tail
  edged := (List.forall_mem_cons.1 strung.edged).2
  noLayout := (List.forall_mem_cons.1 strung.noLayout).2

private theorem Strung.drop {front back : List Token} (strung : Strung (front ++ back)) :
    Strung back := by
  induction front with
  | nil => exact strung
  | cons token rest ih => exact ih strung.tail

/-- Neither the names nor the tokens of the late default have the marker, but for the marker
itself. -/
structure Deferred.Withheld (deferred : Deferred) : Prop where
  dependencies : ∀ name ∈ deferred.dependencies, Lacks name.toList
  tokens : ∀ token ∈ deferred.call.tokens.tail, Lacks token.text.toList

def ParameterDefault.Withheld (default : ParameterDefault) : Prop :=
  Lacks default.eq.text.toList ∧ match default.value with
    | .expression tokens => ∀ token ∈ tokens, Lacks token.text.toList
    | .deferred value => value.Withheld

def ParameterItem.Withheld : ParameterItem → Prop
  | .separator value => ∀ token ∈ value.token :: value.suffix, Lacks token.text.toList
  | .parameter value =>
    (∀ token ∈ value.stars ++ value.name :: value.hint, Lacks token.text.toList) ∧
      (∀ default ∈ value.default, default.Withheld) ∧
      ∀ token ∈ value.suffix, Lacks token.text.toList

private theorem Token.bare_of_isOp {token : Token} {op : String} (isOp : token.isOp op = true)
    (bare : Bare markerText op.toList) : Bare markerText token.text.toList := by
  rwa [(Token.isOp_iff.1 isOp).2]

private theorem Token.bare_of_closesBracket {token : Token} (closes : token.closesBracket = true) :
    Bare markerText token.text.toList := by
  simp only [closesBracket, Bool.or_eq_true] at closes
  rcases closes with (isOp | isOp) | isOp <;> exact bare_of_isOp isOp (by decide)

theorem Phrase.mem_of_mem_listed {names : List String} {text : String}
    (member : Word.name text ∈ listed names) : text ∈ names := by
  induction names with
  | nil => cases member
  | cons name rest ih =>
    cases rest with
    | nil =>
      cases List.mem_singleton.1 member
      exact List.mem_singleton.2 rfl
    | cons next others =>
      rw [listed_cons_cons] at member
      simp only [List.mem_cons, Word.name.injEq, reduceCtorEq, false_or] at member
      rcases member with rfl | inRest
      · exact List.mem_cons_self
      · exact List.mem_cons_of_mem _ (ih (by simpa using inRest))

theorem Guarded.strung {tokens : List Token} (guarded : Guarded tokens)
    (noLayout : ∀ token ∈ tokens, token.isLayout = false) : Strung tokens :=
  ⟨guarded.fenced, guarded.edged, noLayout⟩

namespace Page

variable {page : Page} {rest : List Token}

structure Clean (page : Page) : Prop where
  lacks : Lacks page.text.toList
  knows : page.Knows

def IsSealed (page : Page) : Prop := Sealed markerText page.text.toList

def Parts (page : Page) (next : Token) : Prop :=
  page.IsSealed ∨ Blunt markerText next.text.toList ∨ padding page.cursor next.start ≠ ""

/-- The marker is not in print, and does not come about in front of the tokens ahead. -/
structure Awaits (page : Page) (rest : List Token) : Prop extends Clean page where
  parts : ∀ next ∈ rest.head?, page.Parts next

theorem clean_empty : ({} : Page).Clean where
  lacks := fun found => markerText_ne_nil (List.infix_nil.1 found)
  knows := rfl

theorem Clean.moveTo (clean : page.Clean) (cursor : Option Position) :
    (page.moveTo cursor).Clean := ⟨clean.lacks, clean.knows⟩

private theorem Clean.write (clean : page.Clean) {text : String} (lacks : Lacks text.toList)
    (seam : page.IsSealed ∨ Blunt markerText text.toList) : (page.write text).Clean where
  lacks := by
    rw [text_write, String.toList_append]
    exact lacks_append clean.lacks lacks seam
  knows := atLineStart_write clean.knows text

theorem Clean.writeBare (clean : page.Clean) {text : String} (bare : Bare markerText text.toList) :
    (page.write text).Clean := clean.write (bare.free markerText_ne_nil) (.inr bare.blunt)

private theorem IsSealed.write (isSealed : page.IsSealed) {text : String}
    (ends : Sealed markerText text.toList) : (page.write text).IsSealed := by
  rw [IsSealed, text_write, String.toList_append]
  exact isSealed.append ends

private theorem isSealed_write {text : String} (ends : Sealed markerText text.toList)
    (blunt : Blunt markerText text.toList) (some : text ≠ "") : (page.write text).IsSealed := by
  rw [IsSealed, text_write, String.toList_append]
  exact ends.append_blunt blunt (by simpa using some)

private theorem IsSealed.awaits (isSealed : page.IsSealed) (clean : page.Clean)
    (rest : List Token) :
    page.Awaits rest := ⟨clean, fun _ _ => .inl isSealed⟩

private theorem bare_padding (cursor : Option Position) (start : Position) :
    Bare markerText (padding cursor start).toList := by
  have blanks : ∀ count, Bare markerText (List.replicate count ' ') := by
    intro count c member
    rw [List.eq_of_mem_replicate member]
    decide
  unfold padding
  split
  · rw [String.toList_ofList]
    exact blanks _
  · split
    · rw [String.toList_ofList]
      refine Bare.append (fun c member => ?_) (blanks _)
      obtain ⟨row, isRow, inRow⟩ := List.mem_flatten.1 member
      rw [List.eq_of_mem_replicate isRow, List.mem_pair] at inRow
      rcases inRow with rfl | rfl <;> decide
    · rw [String.toList_ofList]
      exact blanks _

private theorem Clean.padTo (clean : page.Clean) (start : Position) : (page.padTo start).Clean :=
  clean.writeBare (bare_padding _ _)

private theorem IsSealed.padTo (isSealed : page.IsSealed) (start : Position) :
    (page.padTo start).IsSealed := isSealed.write (bare_padding _ _).sealed

private theorem isSealed_padTo {start : Position} (some : padding page.cursor start ≠ "") :
    (page.padTo start).IsSealed :=
  isSealed_write (bare_padding _ _).sealed (bare_padding _ _).blunt some

private theorem Parts.seam {token : Token} (parts : page.Parts token) :
    (page.padTo token.start).IsSealed ∨ Blunt markerText token.text.toList := by
  rcases parts with isSealed | blunt | padded
  · exact .inl (isSealed.padTo _)
  · exact .inr blunt
  · exact .inl (isSealed_padTo padded)

private theorem Clean.token (clean : page.Clean) {token : Token} (parts : page.Parts token)
    (lacks : Lacks token.text.toList) : (page.token token).Clean := by
  cases isLayout : token.isLayout with
  | true =>
    rw [token_of_isLayout isLayout]
    exact clean
  | false =>
    rw [token_of_not_isLayout isLayout]
    exact ((clean.padTo _).write lacks parts.seam).moveTo _

private theorem isSealed_token {token : Token} (noLayout : token.isLayout = false)
    (parts : page.Parts token) (ends : Sealed markerText token.text.toList)
    (some : token.text ≠ "") : (page.token token).IsSealed := by
  rw [token_of_not_isLayout noLayout]
  show ((page.padTo token.start).write token.text).IsSealed
  rcases parts.seam with isSealed | blunt
  · exact isSealed.write ends
  · exact isSealed_write ends blunt some

private theorem parts_token {token next : Token} (noLayout : token.isLayout = false)
    (parts : page.Parts token) (apart : token.Parts next) : (page.token token).Parts next := by
  rcases apart.apart with ⟨ends, some⟩ | blunt | ⟨noBreak, padded⟩
  · exact .inl (isSealed_token noLayout parts ends some)
  · exact .inr (.inl blunt)
  · refine .inr (.inr ?_)
    rw [token_of_not_isLayout noLayout, if_neg (by simp [noBreak])]
    show padding (some token.stop) next.start ≠ ""
    rw [padding_some]
    intro none
    exact padded (by simpa using congrArg String.toList none)

/-- Printing brings the marker about neither in the tokens nor in front of those ahead. -/
def Withholds (print : Page → Page) (tokens : List Token) : Prop :=
  ∀ ⦃page : Page⦄ ⦃rest : List Token⦄, Strung (tokens ++ rest) → page.Awaits (tokens ++ rest) →
    (print page).Awaits rest

namespace Withholds

private theorem nothing : Withholds id [] := fun _ _ _ awaits => awaits

private theorem append {first second : Page → Page} {front back : List Token}
    (withholds : Withholds first front) (withholdsMore : Withholds second back) :
    Withholds (fun page => second (first page)) (front ++ back) := by
  intro page rest strung awaits
  rw [List.append_assoc] at strung awaits
  exact withholdsMore strung.drop (withholds strung awaits)

private theorem token {token : Token} (lacks : Lacks token.text.toList) :
    Withholds (·.token token) [token] := by
  intro page rest strung awaits
  have parts := awaits.parts token rfl
  have noLayout := strung.noLayout token List.mem_cons_self
  refine ⟨awaits.token parts lacks, fun next found => ?_⟩
  obtain ⟨others, rfl⟩ := List.head?_eq_some_iff.1 found
  have fenced := (List.isChain_cons_cons.1 strung.fenced).1
  exact parts_token noLayout parts (fenced noLayout (strung.noLayout next (by simp)))

theorem tokens {tokens : List Token} (lacks : ∀ token ∈ tokens, Lacks token.text.toList) :
    Withholds (·.tokens tokens) tokens := by
  induction tokens with
  | nil => exact nothing
  | cons token rest ih =>
    rw [List.forall_mem_cons] at lacks
    exact (Withholds.token lacks.1).append (ih lacks.2)

end Withholds

section Deferral

variable {deferred : Deferred}

private theorem lacks_lambdaText (sound : deferred.Sound) (withheld : deferred.Withheld) :
    Lacks (lambdaText {} deferred).toList := by
  rw [textOf_lambdaWords]
  have stands : Phrase.Stands (lambdaWords {} deferred) none :=
    stands_lambdaWords (by decide) sound.dependencies (by nofun)
  refine stands.lacks fun text member => ?_
  simp only [lambdaWords, List.mem_append, List.mem_cons, Word.name.injEq, reduceCtorEq,
    List.not_mem_nil, or_false, false_or] at member
  rcases member with (rfl | rfl) | inNames | ending
  · decide
  · decide
  · split at inNames
    · cases inNames
    · simp only [List.mem_cons, reduceCtorEq, false_or] at inNames
      exact withheld.dependencies text (Phrase.mem_of_mem_listed inNames)
  · split at ending <;> simp at ending

private theorem sealed_lambdaText (deferred : Deferred) :
    Sealed markerText (lambdaText {} deferred).toList := by
  have ends : ∀ text ∈ [[':'], [' ']], ∀ front, Sealed markerText (front ++ text) := by
    intro text member front
    have bare : Bare markerText text ∧ text ≠ [] := by
      revert text
      decide
    exact bare.1.sealed.append_blunt bare.1.blunt bare.2
  simp only [lambdaText, String.toList_append]
  generalize ({} : Options).wrapperName.toList ++ "(lambda".toList ++ _ = front
  split
  · rw [String.toList_empty, List.append_nil]
    exact ends _ (by decide) _
  · exact ends _ (by decide) _

/-- Behind comments and line breaks in front of a parenthesis the row has just begun. -/
private theorem gap_sealed {call : MarkerCall} {later : List Token} (whole : call.Whole)
    (strung : Strung (call.gap ++ call.opening :: later))
    (lacks : ∀ token ∈ call.gap, Lacks token.text.toList) (clean : page.Clean)
    (isSealed : page.IsSealed) : (page.gap call).Clean ∧ (page.gap call).IsSealed := by
  rw [Page.gap]
  split
  · exact ⟨clean, isSealed⟩
  · next some =>
    obtain ⟨front, last, isGap⟩ :=
      (List.eq_nil_or_concat' call.gap).resolve_left fun none => some (by simp [none])
    have trivia := whole.gap
    rw [isGap] at trivia lacks strung ⊢
    rw [List.forall_mem_append, List.forall_mem_singleton] at trivia lacks
    rw [List.append_assoc] at strung
    have ends : Strung (last :: call.opening :: later) := strung.drop
    have noLayout := ends.noLayout last List.mem_cons_self
    have isBreak : last.kind = .nl := by
      refine (Token.kind_of_isTrivia trivia.2).resolve_left fun isComment => ?_
      have noBreak := ((List.isChain_cons_cons.1 ends.fenced).1 noLayout
        (ends.noLayout call.opening (by simp))).rowEnd isComment
      simp [Token.isBreak, (Token.isOp_iff.1 whole.opening).1] at noBreak
    obtain ⟨endsRow, filled⟩ := (ends.edged last List.mem_cons_self).lineBreak isBreak
    have moved : (page.moveTo (Option.some call.name.stop)).IsSealed := isSealed
    have awaits := Withholds.tokens lacks.1 strung (moved.awaits (clean.moveTo _) _)
    have parts := awaits.parts last rfl
    rw [tokens_append]
    exact ⟨(awaits.token parts lacks.2).padTo _,
      (isSealed_token noLayout parts endsRow filled).padTo _⟩

namespace Withholds

private theorem arguments {args : List Argument}
    (lacks : ∀ token ∈ args.flatMap Argument.tokens, Lacks token.text.toList) :
    Withholds (fun page => args.foldl (Page.argument · true) page)
      (args.flatMap Argument.tokens) := by
  induction args with
  | nil => exact nothing
  | cons argument rest ih =>
    rw [List.flatMap_cons, List.forall_mem_append] at lacks
    rw [List.flatMap_cons]
    obtain ⟨own, others⟩ := lacks
    rw [Argument.tokens, List.forall_mem_append] at own
    have comma : Withholds (·.comma true argument.comma) argument.comma.toList := by
      cases isComma : argument.comma with
      | none => exact nothing
      | some comma =>
        rw [isComma] at own
        exact Withholds.token (own.2 comma (List.mem_singleton.2 rfl))
    exact ((Withholds.tokens own.1).append comma).append (ih others)

end Withholds

private theorem Clean.ending {call : MarkerCall} (clean : page.Clean) (whole : call.Whole)
    (strung : Strung (call.trailing ++ call.closing :: rest)) :
    page.Awaits (call.trailing ++ call.closing :: rest) := by
  refine ⟨clean, fun next found => .inr (.inl ?_)⟩
  cases isTrailing : call.trailing with
  | nil =>
    rw [isTrailing] at found
    cases found
    exact (Token.bare_of_closesBracket whole.closing).blunt
  | cons first more =>
    rw [isTrailing] at found strung
    cases found
    have trivia := whole.trailing next (by rw [isTrailing]; exact List.mem_cons_self)
    exact (strung.edged next List.mem_cons_self).trivia trivia

private theorem opened_sealed {later : List Token} (sound : deferred.Sound)
    (withheld : deferred.Withheld)
    (strung : Strung (deferred.call.gap ++ deferred.call.opening :: later)) (clean : page.Clean)
    (isSealed : page.IsSealed) :
    (((page.padTo deferred.call.name.start).write (lambdaText {} deferred)).gap
        deferred.call).Clean ∧
      (((page.padTo deferred.call.name.start).write (lambdaText {} deferred)).gap
        deferred.call).IsSealed := by
  have padded : (page.padTo deferred.call.name.start).IsSealed := isSealed.padTo _
  have lacks : ∀ token ∈ deferred.call.gap, Lacks token.text.toList := fun token member =>
    withheld.tokens token (by simp [MarkerCall.tokens, member])
  exact gap_sealed sound.whole strung lacks
    ((clean.padTo _).write (lacks_lambdaText sound withheld) (.inl padded))
    (padded.write (sealed_lambdaText deferred))

private theorem Clean.listed {later : List Token} (withheld : deferred.Withheld)
    (strung : Strung (deferred.call.args.flatMap Argument.tokens ++ later)) (clean : page.Clean)
    (isSealed : page.IsSealed) :
    (deferred.call.args.foldl (Page.argument · deferred.isTuple)
      (if deferred.isTuple then page.write "(" else page)).Clean := by
  have lacks : ∀ token ∈ deferred.call.args.flatMap Argument.tokens, Lacks token.text.toList := by
    intro token member
    exact withheld.tokens token (by simp [MarkerCall.tokens, MarkerCall.inner, member])
  cases isTuple : deferred.isTuple with
  | true =>
    have bracket : Bare markerText "(".toList := by decide
    have sealed : (page.write "(").IsSealed := isSealed.write bracket.sealed
    exact (Withholds.arguments lacks strung (sealed.awaits (clean.writeBare bracket) _)).toClean
  | false =>
    -- Without a tuple there is at most one argument, and its comma is not printed.
    cases isArgs : deferred.call.args with
    | nil => exact clean
    | cons argument more =>
      obtain rfl : more = [] := by
        rw [Deferred.isTuple, isArgs] at isTuple
        simpa using isTuple
      simp only [isArgs, List.flatMap_cons, List.flatMap_nil, List.append_nil, Argument.tokens,
        List.forall_mem_append] at lacks strung
      rw [List.append_assoc] at strung
      have printed := (Withholds.tokens lacks.1 strung (isSealed.awaits clean _)).toClean
      show ((page.tokens argument.value).comma false argument.comma).Clean
      unfold Page.comma
      split
      · exact printed
      · split
        · contradiction
        · split
          · exact printed.moveTo _
          · exact printed

private theorem Withholds.late {eq : Token} (isEq : eq.isOp "=" = true) (sound : deferred.Sound)
    (withheld : deferred.Withheld) :
    Withholds (fun page => (page.token eq).deferred {} deferred) (eq :: deferred.call.tokens) := by
  intro page rest strung awaits
  have bareEq := Token.bare_of_isOp isEq (by decide)
  have filled : eq.text ≠ "" := by
    rw [(Token.isOp_iff.1 isEq).2]
    decide
  have noLayout := strung.noLayout eq List.mem_cons_self
  have parts := awaits.parts eq rfl
  have clean := awaits.token parts (bareEq.free markerText_ne_nil)
  have isSealed := isSealed_token noLayout parts bareEq.sealed filled
  have split : eq :: deferred.call.tokens ++ rest = [eq, deferred.call.name] ++
      (deferred.call.gap ++ deferred.call.opening :: (deferred.call.args.flatMap Argument.tokens ++
        (deferred.call.trailing ++ deferred.call.closing :: rest))) := by
    simp [MarkerCall.tokens, MarkerCall.inner]
  rw [split] at strung
  have behindName := strung.drop
  have behindOpening := behindName.drop.tail
  have ending := behindOpening.drop
  have lacksTrailing : ∀ token ∈ deferred.call.trailing, Lacks token.text.toList :=
    fun token member => withheld.tokens token (by simp [MarkerCall.tokens, MarkerCall.inner, member])
  have lacksClosing : Lacks deferred.call.closing.text.toList :=
    withheld.tokens _ (by simp [MarkerCall.tokens])
  obtain ⟨opened, openedSealed⟩ := opened_sealed sound withheld behindName clean isSealed
  have listed := Clean.listed withheld behindOpening
    (opened.moveTo (Option.some deferred.call.opening.stop)) openedSealed
  have ended := (Withholds.tokens lacksTrailing ending (listed.ending sound.whole ending)).toClean
  have closed : ∀ (tuple : Bool) (page : Page), page.Clean →
      (if tuple then page.write ")" else page).Clean := by
    intro tuple page clean
    cases tuple with
    | true => exact clean.writeBare (by decide)
    | false => exact clean
  refine Withholds.token lacksClosing ending.drop ⟨closed _ _ ended, ?_⟩
  · rintro next ⟨⟩
    exact .inr (.inl (Token.bare_of_closesBracket sound.whole.closing).blunt)

end Deferral

namespace Withholds

private theorem default {default : ParameterDefault} (sound : default.Sound)
    (withheld : default.Withheld) :
    Withholds (·.default {} (some default)) default.tokens := by
  obtain ⟨eq, value⟩ := default
  obtain ⟨lacksEq, withheld⟩ := withheld
  cases value with
  | expression tokens => exact (Withholds.token lacksEq).append (.tokens withheld)
  | deferred value => exact .late sound.1 sound.2 withheld

private theorem item {item : ParameterItem} (sound : item.Sound) (withheld : item.Withheld) :
    Withholds (Page.item {} · item) item.tokens := by
  cases item with
  | separator value =>
    have withholds : Withholds (·.tokens (value.token :: value.suffix)) _ := .tokens withheld
    exact withholds
  | parameter value =>
    obtain ⟨lacks, withheldDefault, lacksSuffix⟩ := withheld
    have default : Withholds (·.default {} value.default)
        ((value.default.map ParameterDefault.tokens).getD []) := by
      cases isDefault : value.default with
      | none => exact nothing
      | some default =>
        exact .default (sound default isDefault) (withheldDefault default isDefault)
    have named : Withholds
        (fun page => ((page.tokens value.stars).token value.name).tokens value.hint)
        (value.stars ++ value.name :: value.hint) := by
      rw [List.forall_mem_append, List.forall_mem_cons] at lacks
      exact (Withholds.tokens lacks.1).append
        ((Withholds.token lacks.2.1).append (.tokens lacks.2.2))
    exact (named.append default).append (.tokens lacksSuffix)

private theorem items {items : List ParameterItem} (sound : ∀ item ∈ items, item.Sound)
    (withheld : ∀ item ∈ items, item.Withheld) :
    Withholds (fun page => items.foldl (Page.item {}) page)
      (items.flatMap ParameterItem.tokens) := by
  induction items with
  | nil => exact nothing
  | cons item rest ih =>
    rw [List.forall_mem_cons] at sound withheld
    rw [List.flatMap_cons]
    exact (Withholds.item sound.1 withheld.1).append (ih sound.2 withheld.2)

end Withholds

section Lines

variable {indent : String} (spaces : Bare markerText indent.toList)

theorem Clean.freshLine (clean : page.Clean) :
    page.freshLine.Clean ∧ page.freshLine.IsSealed := by
  have rowEnd : Bare markerText "\n".toList := by decide
  rw [Page.freshLine]
  split
  · next atStart =>
    refine ⟨clean, Text.sealed_of_getLast? fun c found => ?_⟩
    have knows := clean.knows
    rw [Knows, atStart, Option.mem_def.1 found] at knows
    have isRowEnd : c = '\n' := by simpa using knows.symm
    rw [isRowEnd]
    decide
  · exact ⟨(clean.writeBare rowEnd).moveTo none,
      isSealed_write rowEnd.sealed rowEnd.blunt (by decide)⟩

include spaces

theorem Clean.line (clean : page.Clean) {line rest : List Token} (strung : Strung (line ++ rest))
    (lacks : ∀ token ∈ line, Lacks token.text.toList) (some : line ≠ []) :
    (page.line indent line).Awaits rest := by
  obtain ⟨first, more, rfl⟩ := List.exists_cons_of_ne_nil some
  obtain ⟨fresh, isSealed⟩ := clean.freshLine
  have indented : (page.freshLine.write indent).IsSealed := isSealed.write spaces.sealed
  have begun : ((page.freshLine.write indent).moveTo (Option.some first.start)).IsSealed := indented
  exact Withholds.tokens lacks strung (begun.awaits ((fresh.writeBare spaces).moveTo _) _)

theorem Clean.addedLine (clean : page.Clean) {text : String} (lacks : Lacks text.toList) :
    (page.addedLine indent text).Clean := by
  obtain ⟨fresh, isSealed⟩ := clean.freshLine
  have rowEnd : Bare markerText "\n".toList := by decide
  refine (fresh.write ?_ (.inl isSealed)).moveTo none
  rw [String.toList_append, String.toList_append]
  exact lacks_append (lacks_append (spaces.free markerText_ne_nil) lacks (.inl spaces.sealed))
    (rowEnd.free markerText_ne_nil) (.inr rowEnd.blunt)

theorem Clean.addedLines (clean : page.Clean) {lines : List String}
    (lacks : ∀ line ∈ lines, Lacks line.toList) :
    (lines.foldl (Page.addedLine · indent) page).Clean := by
  induction lines generalizing page with
  | nil => exact clean
  | cons line rest ih =>
    rw [List.forall_mem_cons] at lacks
    exact ih (clean.addedLine spaces lacks.1) lacks.2

omit spaces in
theorem Clean.trivia (clean : page.Clean) {tokens : List Token}
    (trivia : ∀ token ∈ tokens, token.isTrivia = true) (edged : ∀ token ∈ tokens, token.Edged)
    (lacks : ∀ token ∈ tokens, Lacks token.text.toList) : (page.tokens tokens).Clean := by
  induction tokens generalizing page with
  | nil => exact clean
  | cons token rest ih =>
    rw [List.forall_mem_cons] at trivia edged lacks
    exact ih (clean.token (.inr (.inl (edged.1.trivia trivia.1))) lacks.1) trivia.2 edged.2 lacks.2

theorem Clean.header (clean : page.Clean) {header : Header} (begins : header.head ≠ [])
    (around : ∀ token ∈ header.head ++ header.parameters.leading ++ header.tail,
      Lacks token.text.toList)
    (items : ∀ item ∈ header.parameters.items, item.Sound ∧ item.Withheld)
    (strung : Strung (header.tokens ++ rest)) : (page.header {} indent header).Awaits rest := by
  rw [List.forall_mem_append, List.forall_mem_append] at around
  simp only [Header.tokens, Parameters.tokens, List.append_assoc] at strung
  have headed := clean.line spaces strung around.1.1 begins
  have inItems := Withholds.items (fun item member => (items item member).1)
    fun item member => (items item member).2
  have inside := ((Withholds.tokens around.1.2).append inItems).append (.tokens around.2)
  simp only [List.append_assoc] at inside
  refine inside ?_ ?_
  · simpa only [List.append_assoc] using strung.drop
  · simpa only [List.append_assoc] using headed

end Lines

end Page

def Stmt.Withheld (stmt : Stmt) : Prop :=
  ∀ ⦃indent : String⦄ ⦃page : Page⦄, Bare markerText indent.toList → page.Clean →
    (Page.statement {} indent stmt page).Clean

theorem Page.Clean.statements {page : Page} (clean : page.Clean) {body : List Stmt}
    (withheld : ∀ stmt ∈ body, stmt.Withheld) {indent : String}
    (spaces : Bare markerText indent.toList) : (Page.statements {} indent body page).Clean := by
  induction body generalizing page with
  | nil => exact clean
  | cons stmt rest ih =>
    rw [List.forall_mem_cons] at withheld
    exact ih (withheld.1 spaces clean) withheld.2

end DeferredDefaults
