import DeferredDefaults.Proofs.LateBinding.Rejection
import DeferredDefaults.Proofs.Tree.Trivia

/-!
Which commas separate the items of a list. An item is made of plain tokens, of groups in brackets, and
of the parameters of lambdas; the commas of a list stand between its items. The splitter reports just
these commas: it is at the same place in front of an item and behind it, as brackets close each other
inside it and each `lambda` has its `:`. So a marker call and a parameter list are cut into exactly
their items.
-/

set_option autoImplicit false
set_option relaxedAutoImplicit false

namespace DeferredDefaults

/-- Tokens whose brackets close each other, whatever their sort. -/
inductive Balanced : List Token → Prop
  | nil : Balanced []
  | plain {token : Token} {rest : List Token} :
      token.opensBracket = false → token.closesBracket = false → Balanced rest →
      Balanced (token :: rest)
  | group {opening closing : Token} {inner rest : List Token} :
      opening.opensBracket = true → Balanced inner → closing.closesBracket = true →
      Balanced rest → Balanced (opening :: (inner ++ closing :: rest))

/-- What tokens are part of: an item of a list, or the parameters of a lambda in one. -/
inductive Region where
  | item
  | parameters
deriving DecidableEq, Repr

namespace Region

def ending : Region → String
  | item => ","
  | parameters => ":"

/-- The tokens are part of the region. The parameters of a lambda lead to its `:`, and may hold commas
and lambdas of their own. -/
inductive Holds : Region → List Token → Prop
  | nil {region : Region} : Holds region []
  | plain {region : Region} {token : Token} {rest : List Token} :
      token.opensBracket = false → token.closesBracket = false →
      token.isName "lambda" = false → token.isOp region.ending = false → Holds region rest →
      Holds region (token :: rest)
  | group {region : Region} {opening closing : Token} {inner rest : List Token} :
      opening.opensBracket = true → Balanced inner → closing.closesBracket = true →
      Holds region rest → Holds region (opening :: (inner ++ closing :: rest))
  | lambda {region : Region} {word colon : Token} {inner rest : List Token} :
      word.isName "lambda" = true → Holds parameters inner → colon.isOp ":" = true →
      Holds region rest → Holds region (word :: (inner ++ colon :: rest))

/-- Outside brackets, a lambda is open exactly in its parameters. -/
def Stands (region : Region) (splitter : Splitter) : Prop :=
  splitter.depth = 0 ∧ (splitter.lambdas = 0 ↔ region = item)

end Region

namespace Token

private theorem isOp_of_opensBracket {token : Token} (opens : token.opensBracket = true)
    {op : String} (other : op ≠ "(" ∧ op ≠ "[" ∧ op ≠ "\x7b") : token.isOp op = false := by
  simp only [opensBracket, Bool.or_eq_true, isOp_iff] at opens
  rw [← Bool.not_eq_true, isOp_iff]
  rintro ⟨-, rfl⟩
  rcases opens with (⟨-, same⟩ | ⟨-, same⟩) | ⟨-, same⟩
  · exact other.1 same
  · exact other.2.1 same
  · exact other.2.2 same

private theorem isOp_of_closesBracket {token : Token} (closes : token.closesBracket = true)
    {op : String} (other : op ≠ ")" ∧ op ≠ "]" ∧ op ≠ "\x7d") : token.isOp op = false := by
  simp only [closesBracket, Bool.or_eq_true, isOp_iff] at closes
  rw [← Bool.not_eq_true, isOp_iff]
  rintro ⟨-, rfl⟩
  rcases closes with (⟨-, same⟩ | ⟨-, same⟩) | ⟨-, same⟩
  · exact other.1 same
  · exact other.2.1 same
  · exact other.2.2 same

private theorem plain_of_isName {token : Token} {name : String}
    (isName : token.isName name = true) :
    token.opensBracket = false ∧ token.closesBracket = false ∧ ∀ op, token.isOp op = false := by
  simp only [Token.isName, Bool.and_eq_true, beq_iff_eq] at isName
  simp [opensBracket, closesBracket, isOp, isName.1]

private theorem plain_of_isOp {token : Token} {op : String} (isOp : token.isOp op = true)
    (other : op = "," ∨ op = ":") :
    token.opensBracket = false ∧ token.closesBracket = false ∧ ∀ name, token.isName name = false := by
  obtain ⟨kind, text⟩ := isOp_iff.1 isOp
  rcases other with rfl | rfl <;> simp [opensBracket, closesBracket, Token.isOp, Token.isName, kind, text]

end Token

namespace Splitter

/-- The splitter goes from one state to another over tokens of which none separates items. -/
inductive Crosses : Splitter → List Token → Splitter → Prop
  | nil {splitter : Splitter} : Crosses splitter [] splitter
  | cons {splitter last : Splitter} {token : Token} {rest : List Token} :
      splitter.separates token = false → Crosses (splitter.after token) rest last →
      Crosses splitter (token :: rest) last

variable {splitter between last : Splitter} {tokens front back rest : List Token}

private theorem Crosses.append (crosses : Crosses splitter front between)
    (goesOn : Crosses between back last) : Crosses splitter (front ++ back) last := by
  induction crosses with
  | nil => exact goesOn
  | cons silent _ ih => exact .cons silent (ih goesOn)

private theorem separates_of_isOp {token : Token} (noComma : token.isOp "," = false) :
    splitter.separates token = false := by
  rw [separates, noComma, Bool.and_false]

private theorem Crosses.group {opening closing : Token} (opens : opening.opensBracket = true)
    (closes : closing.closesBracket = true)
    (inner : Crosses ⟨splitter.depth + 1, splitter.lambdas⟩ tokens
      ⟨splitter.depth + 1, splitter.lambdas⟩) (goesOn : Crosses splitter rest last) :
    Crosses splitter (opening :: (tokens ++ closing :: rest)) last := by
  have notOpening := Token.opensBracket_of_closesBracket closes
  have entered : splitter.after opening = ⟨splitter.depth + 1, splitter.lambdas⟩ := by
    simp [after, Token.depthAfter, opens]
  have left : (⟨splitter.depth + 1, splitter.lambdas⟩ : Splitter).after closing = splitter := by
    simp [after, Token.depthAfter, closes, notOpening]
  refine .cons (separates_of_isOp (Token.isOp_of_opensBracket opens (by decide))) ?_
  rw [entered]
  refine inner.append (.cons (separates_of_isOp (Token.isOp_of_closesBracket closes (by decide))) ?_)
  rw [left]
  exact goesOn

end Splitter

private theorem Balanced.crosses {tokens : List Token} (balanced : Balanced tokens)
    {splitter : Splitter} (deep : splitter.depth ≠ 0) :
    Splitter.Crosses splitter tokens splitter := by
  induction balanced generalizing splitter with
  | nil => exact .nil
  | @plain token rest noOpening noClosing _ ih =>
    have silent : splitter.separates token = false := by simp [Splitter.separates, deep]
    have same : splitter.after token = splitter := by
      simp [Splitter.after, noOpening, noClosing, deep]
    exact .cons silent (same.symm ▸ ih deep)
  | group opens _ closes _ inner ih =>
    exact .group opens closes (inner (Nat.succ_ne_zero _)) (ih deep)

/-- What a region holds has no separating comma, and leaves the splitter as it is. -/
private theorem Region.Holds.crosses {region : Region} {tokens : List Token}
    (holds : region.Holds tokens) {splitter : Splitter} (stands : region.Stands splitter) :
    Splitter.Crosses splitter tokens splitter := by
  induction holds generalizing splitter with
  | nil => exact .nil
  | @plain region token rest noOpening noClosing noLambda noEnding _ ih =>
    obtain ⟨top, count⟩ := stands
    have silent : splitter.separates token = false := by
      cases region with
      | item => exact Splitter.separates_of_isOp noEnding
      | parameters =>
        have inLambda : splitter.lambdas ≠ 0 := fun none => nomatch count.1 none
        simp [Splitter.separates, inLambda]
    have same : splitter.after token = splitter := by
      simp only [Splitter.after, noOpening, noClosing, noLambda, top, Bool.or_false,
        Bool.false_eq_true, if_false, if_true]
      split
      · next isColon =>
        -- A colon outside brackets is an annotation's: no lambda is open.
        cases region with
        | item =>
          have none : splitter.lambdas = 0 := count.2 rfl
          rw [none]
          exact congrArg₂ Splitter.mk top.symm none.symm
        | parameters =>
          rw [ending] at noEnding
          rw [noEnding] at isColon
          cases isColon
      · rfl
    exact .cons silent (same.symm ▸ ih ⟨top, count⟩)
  | group opens balanced closes _ ih =>
    exact .group opens closes (balanced.crosses (Nat.succ_ne_zero _)) (ih stands)
  | @lambda region word colon inner rest isLambda _ isColon _ ihInner ih =>
    obtain ⟨noOpening, noClosing, noOp⟩ := Token.plain_of_isName isLambda
    obtain ⟨colonOpens, colonCloses, noName⟩ := Token.plain_of_isOp isColon (.inr rfl)
    have noComma : colon.isOp "," = false := by
      simp [Token.isOp, (Token.isOp_iff.1 isColon).2]
    have entered : splitter.after word = ⟨splitter.depth, splitter.lambdas + 1⟩ := by
      simp [Splitter.after, noOpening, noClosing, stands.1, isLambda]
    have left : (⟨splitter.depth, splitter.lambdas + 1⟩ : Splitter).after colon = splitter := by
      simp only [Splitter.after, colonOpens, colonCloses, noName, stands.1, isColon, Bool.or_false,
        Bool.false_eq_true, if_false, if_true, Nat.add_sub_cancel]
      exact congrArg (Splitter.mk · splitter.lambdas) stands.1.symm
    have inside : parameters.Stands ⟨splitter.depth, splitter.lambdas + 1⟩ :=
      ⟨stands.1, by simp⟩
    refine .cons (Splitter.separates_of_isOp (noOp ",")) ?_
    rw [entered]
    refine (ihInner inside).append (.cons (Splitter.separates_of_isOp noComma) ?_)
    rw [left]
    exact ih stands

namespace Splitter

variable {splitter last : Splitter} {tokens : List Token}

private theorem flags_of_crosses (crosses : Crosses splitter tokens last) (rest : List Token) :
    splitter.flags (tokens ++ rest) =
      List.replicate tokens.length false ++ last.flags rest := by
  induction crosses with
  | nil => rfl
  | cons silent _ ih =>
    rw [List.cons_append, flags, silent, ih, List.length_cons, List.replicate_succ,
      List.cons_append]

private theorem ofTokens_of_crosses (crosses : Crosses splitter tokens last) (rest : List Token) :
    Pieces.ofTokens splitter (tokens ++ rest) =
      tokens.foldr Pieces.push (Pieces.ofTokens last rest) := by
  induction crosses with
  | nil => rfl
  | cons silent _ ih =>
    rw [List.cons_append, Pieces.ofTokens, silent, ih]
    rfl

end Splitter

private theorem Balanced.append {front back : List Token} (balanced : Balanced front)
    (goesOn : Balanced back) : Balanced (front ++ back) := by
  induction balanced with
  | nil => exact goesOn
  | plain noOpening noClosing _ ih => exact .plain noOpening noClosing ih
  | group opens inner closes _ _ ih =>
    rw [List.cons_append, List.append_assoc, List.cons_append]
    exact .group opens inner closes ih

private theorem Balanced.within {tokens : List Token} (balanced : Balanced tokens) {depth : Nat}
    (inside : 0 < depth) : Within depth tokens ∧ tokens.foldl Token.depthAfter depth = depth := by
  induction balanced generalizing depth with
  | nil => exact ⟨inside, rfl⟩
  | @plain token rest noOpening noClosing _ ih =>
    have same : token.depthAfter depth = depth := by simp [Token.depthAfter, noOpening, noClosing]
    rw [Within, List.foldl_cons, same]
    exact ⟨⟨inside, (ih inside).1⟩, (ih inside).2⟩
  | @group opening closing inner rest opens _ closes _ ihInner ih =>
    have notOpening := Token.opensBracket_of_closesBracket closes
    have entered : opening.depthAfter depth = depth + 1 := by simp [Token.depthAfter, opens]
    have left : closing.depthAfter (depth + 1) = depth := by
      simp [Token.depthAfter, closes, notOpening]
    obtain ⟨within, ends⟩ := ihInner (Nat.succ_pos depth)
    rw [Within, List.foldl_cons, entered, within_append, List.foldl_append, ends, Within,
      List.foldl_cons, left]
    exact ⟨⟨inside, within, Nat.succ_pos _, (ih inside).1⟩, (ih inside).2⟩

private theorem Region.Holds.balanced {region : Region} {tokens : List Token}
    (holds : region.Holds tokens) : Balanced tokens := by
  induction holds with
  | nil => exact .nil
  | plain noOpening noClosing _ _ _ ih => exact .plain noOpening noClosing ih
  | group opens inner closes _ ih => exact .group opens inner closes ih
  | lambda isLambda _ isColon _ ihInner ih =>
    obtain ⟨noOpening, noClosing, -⟩ := Token.plain_of_isName isLambda
    obtain ⟨colonOpens, colonCloses, -⟩ := Token.plain_of_isOp isColon (.inr rfl)
    exact .plain noOpening noClosing (ihInner.append (.plain colonOpens colonCloses ih))

/-- A sequence of items joined by commas, each item with code. -/
structure Pieces.Joined (pieces : Pieces) : Prop where
  items : ∀ piece ∈ pieces.ended, Region.item.Holds piece.value
  commas : ∀ piece ∈ pieces.ended, piece.comma.isOp "," = true
  code : ∀ piece ∈ pieces.ended, ∃ token ∈ piece.value, token.isTrivia = false
  last : Region.item.Holds pieces.last
  lastCode : ∃ token ∈ pieces.last, token.isTrivia = false

namespace Pieces

private theorem tokens_cons (piece : Piece) (ended : List Piece) (last : List Token) :
    tokens ⟨piece :: ended, last⟩ = piece.value ++ piece.comma :: tokens ⟨ended, last⟩ := by
  simp [tokens, Piece.tokens]

private theorem foldr_push (value : List Token) (comma : Token) (pieces : Pieces) :
    value.foldr push (pieces.separate comma) =
      { pieces with ended := ⟨value, comma⟩ :: pieces.ended } := by
  induction value with
  | nil => rfl
  | cons token value ih => rw [List.foldr_cons, ih]; rfl

private theorem foldr_push_last (last : List Token) : last.foldr push ⟨[], []⟩ = ⟨[], last⟩ := by
  induction last with
  | nil => rfl
  | cons token last ih => rw [List.foldr_cons, ih]; rfl

private theorem Joined.tail {piece : Piece} {ended : List Piece} {last : List Token}
    (joined : Joined ⟨piece :: ended, last⟩) : Joined ⟨ended, last⟩ where
  items := fun other member => joined.items other (List.mem_cons_of_mem _ member)
  commas := fun other member => joined.commas other (List.mem_cons_of_mem _ member)
  code := fun other member => joined.code other (List.mem_cons_of_mem _ member)
  last := joined.last
  lastCode := joined.lastCode

private theorem fresh_comma {comma : Token} (isComma : comma.isOp "," = true) :
    ({} : Splitter).separates comma = true ∧ ({} : Splitter).after comma = {} := by
  obtain ⟨noOpening, noClosing, noName⟩ := Token.plain_of_isOp isComma (.inl rfl)
  have noColon : comma.isOp ":" = false := by simp [Token.isOp, (Token.isOp_iff.1 isComma).2]
  simp [Splitter.separates, Splitter.after, isComma, noOpening, noClosing, noName, noColon]

private theorem fresh_stands : Region.item.Stands {} := ⟨rfl, by simp⟩

private theorem Joined.flags {pieces : Pieces} (joined : pieces.Joined) :
    Splitter.flags {} pieces.tokens =
      pieces.ended.flatMap (fun piece => List.replicate piece.value.length false ++ [true]) ++
        List.replicate pieces.last.length false := by
  obtain ⟨ended, last⟩ := pieces
  induction ended with
  | nil =>
    have crosses := Splitter.flags_of_crosses (joined.last.crosses fresh_stands) []
    simpa [tokens, Splitter.flags] using crosses
  | cons piece ended ih =>
    have own := (joined.items piece List.mem_cons_self).crosses fresh_stands
    obtain ⟨separates, anew⟩ := fresh_comma (joined.commas piece List.mem_cons_self)
    rw [tokens_cons, Splitter.flags_of_crosses own, Splitter.flags, separates, anew, ih joined.tail]
    simp

private theorem Joined.ofTokens {pieces : Pieces} (joined : pieces.Joined) :
    Pieces.ofTokens {} pieces.tokens = pieces := by
  obtain ⟨ended, last⟩ := pieces
  induction ended with
  | nil =>
    have crosses := Splitter.ofTokens_of_crosses (joined.last.crosses fresh_stands) []
    rw [List.append_nil, Pieces.ofTokens, foldr_push_last] at crosses
    exact crosses
  | cons piece ended ih =>
    have own := (joined.items piece List.mem_cons_self).crosses fresh_stands
    obtain ⟨separates, anew⟩ := fresh_comma (joined.commas piece List.mem_cons_self)
    rw [tokens_cons, Splitter.ofTokens_of_crosses own, Pieces.ofTokens, anew, ih joined.tail]
    simp only [separates, if_true, foldr_push]

private theorem Joined.balanced {pieces : Pieces} (joined : pieces.Joined) :
    Balanced pieces.tokens := by
  obtain ⟨ended, last⟩ := pieces
  induction ended with
  | nil => exact joined.last.balanced
  | cons piece ended ih =>
    obtain ⟨noOpening, noClosing, -⟩ :=
      Token.plain_of_isOp (joined.commas piece List.mem_cons_self) (.inl rfl)
    have own := (joined.items piece List.mem_cons_self).balanced
    rw [tokens_cons]
    exact own.append (.plain noOpening noClosing (ih joined.tail))

end Pieces

namespace Parameters

/-- Raw items and the trivia in front of them are the items of a sequence: each has lost the trivia at
its front to the comma in front of it, or to the start of the list, and the trivia at its end to its
own suffix, in front of its comma. -/
inductive Spread : (front : List Token) → List Piece → (last : List Token) → List RawItem → Prop
  | last {front core back : List Token} :
      (∀ token ∈ front, token.isTrivia = true) → (∀ token ∈ back, token.isTrivia = true) →
      core ≠ [] → RawItem.Trimmed ⟨core, back⟩ →
      Spread front [] (front ++ (core ++ back)) [⟨core, back⟩]
  | next {front core back behind last : List Token} (comma : Token) {rest : List Piece}
      {raws : List RawItem} :
      (∀ token ∈ front, token.isTrivia = true) → (∀ token ∈ back, token.isTrivia = true) →
      core ≠ [] → RawItem.Trimmed ⟨core, back ++ comma :: behind⟩ →
      Spread behind rest last raws →
      Spread front (⟨front ++ (core ++ back), comma⟩ :: rest) last
        (⟨core, back ++ comma :: behind⟩ :: raws)

private theorem split_of_code {tokens : List Token}
    (code : ∃ token ∈ tokens, token.isTrivia = false) :
    tokens = tokens.takeWhile Token.isTrivia ++
        ((splitTrailing (tokens.dropWhile Token.isTrivia)).1 ++
          (splitTrailing (tokens.dropWhile Token.isTrivia)).2) ∧
      (∀ token ∈ tokens.takeWhile Token.isTrivia, token.isTrivia = true) ∧
      (∀ token ∈ (splitTrailing (tokens.dropWhile Token.isTrivia)).2, token.isTrivia = true) ∧
      (splitTrailing (tokens.dropWhile Token.isTrivia)).1 ≠ [] := by
  have front : ∀ token ∈ tokens.takeWhile Token.isTrivia, token.isTrivia = true :=
    List.all_eq_true.1 List.all_takeWhile
  have back : ∀ token ∈ (splitTrailing (tokens.dropWhile Token.isTrivia)).2,
      token.isTrivia = true := by
    rw [splitTrailing_eq]
    intro token member
    exact List.all_eq_true.1 List.all_takeWhile token (List.mem_reverse.1 member)
  have whole : tokens = tokens.takeWhile Token.isTrivia ++
      ((splitTrailing (tokens.dropWhile Token.isTrivia)).1 ++
        (splitTrailing (tokens.dropWhile Token.isTrivia)).2) := by
    rw [append_splitTrailing, List.takeWhile_append_dropWhile]
  refine ⟨whole, front, back, fun none => ?_⟩
  obtain ⟨token, member, isCode⟩ := code
  rw [whole, none, List.nil_append, List.mem_append] at member
  rw [member.elim (front token) (back token)] at isCode
  cases isCode

private theorem spread_rawItems {pieces : Pieces} (joined : pieces.Joined) :
    Spread (rawItems pieces.last pieces.ended).1 pieces.ended pieces.last
      (rawItems pieces.last pieces.ended).2 := by
  obtain ⟨ended, last⟩ := pieces
  induction ended with
  | nil =>
    obtain ⟨whole, front, back, some⟩ := split_of_code joined.lastCode
    have body : (last.dropWhile Token.isTrivia).isEmpty = false := by
      rw [List.isEmpty_eq_false_iff, ← append_splitTrailing (last.dropWhile Token.isTrivia)]
      exact List.append_ne_nil_of_left_ne_nil some _
    have spread := Spread.last front back some (trimmed_splitTrailing last _)
    rw [← whole] at spread
    simpa only [rawItems, body, Bool.false_eq_true, if_false] using spread
  | cons piece ended ih =>
    obtain ⟨value, comma⟩ := piece
    obtain ⟨whole, front, back, some⟩ := split_of_code (joined.code _ List.mem_cons_self)
    have spread := Spread.next comma front back some (trimmed_splitTrailing value _) (ih joined.tail)
    rw [← whole] at spread
    exact spread

end Parameters

namespace Pieces

/-- In a sequence of items joined by commas exactly those commas separate. So cutting gives back the
items, a marker call around the sequence has them for its arguments, and a parameter list has them
for its items, with the trivia at their ends moved to the commas. -/
theorem separates_joined {pieces : Pieces} (joined : pieces.Joined) :
    Splitter.flags {} pieces.tokens =
      pieces.ended.flatMap (fun piece => List.replicate piece.value.length false ++ [true]) ++
        List.replicate pieces.last.length false ∧
    Pieces.ofTokens {} pieces.tokens = pieces ∧
    (∀ marker name gap opening closing, name.isName marker = true →
      (∀ token ∈ gap, token.isTrivia = true) → opening.isOp "(" = true →
      closing.closesBracket = true →
      MarkerCall.ofTokens? marker (name :: (gap ++ opening :: (pieces.tokens ++ [closing]))) =
        some ⟨name, gap, opening,
          pieces.ended.map (fun piece => ⟨piece.value, some piece.comma⟩) ++ [⟨pieces.last, none⟩],
          [], closing⟩) ∧
    let cut := Pieces.ofTokens {} pieces.tokens
    Parameters.Spread (Parameters.rawItems cut.last cut.ended).1 pieces.ended pieces.last
      (Parameters.rawItems cut.last cut.ended).2 := by
  refine ⟨joined.flags, joined.ofTokens, ?_, ?_⟩
  · intro marker name gap opening closing isName trivia isOpening closes
    obtain ⟨within, ends⟩ := joined.balanced.within Nat.one_pos
    have noTrivia : pieces.last.all Token.isTrivia = false := by
      obtain ⟨token, member, isCode⟩ := joined.lastCode
      exact List.all_eq_false.2 ⟨token, member, by simp [isCode]⟩
    rw [MarkerCall.ofTokens?_of_within isName trivia isOpening closes within ends, joined.ofTokens,
      MarkerCall.arguments, noTrivia]
    rfl
  · rw [joined.ofTokens]
    exact Parameters.spread_rawItems joined

def word (kind : Kind) (text : String) : Token := ⟨kind, text, .origin, .origin⟩

/-- The item `lambda a, b = lambda: a: b`. -/
def lambdaItem : List Token :=
  word .name "lambda" :: ([word .name "a", word .op ",", word .name "b", word .op "=",
    word .name "lambda", word .op ":", word .name "a"] ++ [word .op ":", word .name "b"])

def lambdaAndIndex : Pieces :=
  ⟨[⟨lambdaItem, word .op ","⟩], [word .nl "\n", word .name "x"] ++
    word .op "[" :: ([word .name "i", word .op ",", word .name "j"] ++ [word .op "]"])⟩

/-- Of the three commas the second separates, and the row break goes to it. -/
theorem separates_joined_lambda :
    lambdaAndIndex.Joined ∧ Pieces.ofTokens {} lambdaAndIndex.tokens = lambdaAndIndex ∧
    (Parameters.rawItems lambdaAndIndex.last lambdaAndIndex.ended).2.map
      Parameters.RawItem.suffix = [[word .op ",", word .nl "\n"], []] := by
  have inner : Region.parameters.Holds [word .name "a", word .op ",", word .name "b", word .op "=",
      word .name "lambda", word .op ":", word .name "a"] :=
    .plain rfl rfl rfl rfl (.plain rfl rfl rfl rfl (.plain rfl rfl rfl rfl
      (.plain rfl rfl rfl rfl (@Region.Holds.lambda _ _ _ [] _ rfl .nil rfl
        (.plain rfl rfl rfl rfl .nil)))))
  have index : Balanced [word .name "i", word .op ",", word .name "j"] :=
    .plain rfl rfl (.plain rfl rfl (.plain rfl rfl .nil))
  have joined : lambdaAndIndex.Joined := {
    items := List.forall_mem_singleton.2 (.lambda rfl inner rfl (.plain rfl rfl rfl rfl .nil))
    commas := List.forall_mem_singleton.2 rfl
    code := List.forall_mem_singleton.2 ⟨word .name "b", by simp [lambdaItem], rfl⟩
    last := .plain rfl rfl rfl rfl (.plain rfl rfl rfl rfl (.group rfl index rfl .nil))
    lastCode := ⟨word .name "x", by simp [lambdaAndIndex], rfl⟩ }
  exact ⟨joined, (separates_joined joined).2.1, rfl⟩

end Pieces

end DeferredDefaults
