import Mathlib.Data.List.TakeWhile
import DeferredDefaults.Proofs.Tree.Lossless

/-!
Recognising a marker call from both ends. The parenthesis and the bracket that closes it are found by
counting indices; then the name is taken off the front, the closing bracket off the back, and the gap
and the parenthesis off what is left. This is the call that is read in one pass, no index is out of
range on the way, no token is lost, and what is no call comes back as it was.
-/

set_option autoImplicit false
set_option relaxedAutoImplicit false

namespace DeferredDefaults

namespace MarkerCall

/-- The index of the bracket that closes the outermost open one, `index` being that of the first token
and `depth` the number of open brackets. A bracket that closes none ends the search. -/
def closeIndex? : (index depth : Nat) → List Token → Option Nat
  | _, _, [] => none
  | index, depth, token :: rest =>
    if token.opensBracket then closeIndex? (index + 1) (depth + 1) rest
    else if token.closesBracket then
      match depth with
      | 0 => none
      | 1 => some index
      | depth + 2 => closeIndex? (index + 1) (depth + 1) rest
    else closeIndex? (index + 1) depth rest

/-- The index of the parenthesis, if the tokens are exactly one call of `marker`: it is the first token
behind the name that is not trivia, and the bracket that closes it is the last token. -/
def openIndex? (marker : String) (tokens : List Token) : Option Nat :=
  if tokens.head?.any fun first => first.isName marker then
    match (tokens.drop 1).findIdx? fun token => !token.isTrivia with
    | none => none
    | some gap =>
      let index := gap + 1
      if (tokens[index]?.any fun token => token.isOp "(") ∧
          closeIndex? index 0 (tokens.drop index) = some (tokens.length - 1) then
        some index
      else none
  else none

/-- Takes the parts of a call off both ends of the tokens, or gives the tokens back. -/
def peel (marker : String) (tokens : List Token) : Except (List Token) MarkerCall :=
  match openIndex? marker tokens with
  | none => .error tokens
  | some index =>
    match tokens with
    | [] => .error []
    | name :: rest =>
      match rest.getLast? with
      | none => .error []
      | some closing =>
        match rest.dropLast.drop (index - 1) with
        | [] => .error []
        | opening :: inner =>
          let arguments := arguments (Pieces.ofTokens {} inner)
          .ok ⟨name, rest.dropLast.take (index - 1), opening, arguments.1, arguments.2, closing⟩

private theorem closeIndex?_eq (index depth : Nat) (list : List Token) :
    closeIndex? index (depth + 1) list =
      (Cut.atClose depth list).map fun cut => index + cut.before.length := by
  induction list generalizing index depth with
  | nil => rfl
  | cons token rest ih =>
    have shift : ∀ found : Option Cut,
        (found.map fun cut => index + 1 + cut.before.length) =
          (found.map (Cut.push token)).map fun cut => index + cut.before.length := by
      intro found
      cases found with
      | none => rfl
      | some cut =>
        simp only [Option.map_some, Cut.push, List.length_cons]
        congr 1
        omega
    simp only [closeIndex?, Cut.atClose]
    split
    · rw [ih, shift]
    · split
      · cases depth with
        | zero => rfl
        | succ depth => exact (ih _ _).trans (shift _)
      · rw [ih, shift]

private theorem findIdx?_isTrivia (list : List Token) :
    (list.findIdx? fun token => !token.isTrivia) =
      if list.dropWhile Token.isTrivia = [] then none
      else some (list.takeWhile Token.isTrivia).length := by
  induction list with
  | nil => rfl
  | cons token rest ih =>
    cases trivia : token.isTrivia with
    | true =>
      rw [List.findIdx?_cons, trivia, List.dropWhile_cons_of_pos trivia,
        List.takeWhile_cons_of_pos trivia, ih, Bool.not_true, if_neg Bool.false_ne_true]
      split <;> rfl
    | false =>
      rw [List.findIdx?_cons, trivia, List.dropWhile_cons_of_neg (by simp [trivia]),
        List.takeWhile_cons_of_neg (by simp [trivia])]
      rfl

/-- A parenthesis behind a gap opens a call if the bracket that closes it is the last token. -/
private theorem openIndex?_behind (name : Token) (gap : List Token) (opening : Token)
    (inner : List Token) :
    (let index := gap.length + 1
      if ((name :: (gap ++ opening :: inner))[index]?.any fun token => token.isOp "(") = true ∧
          closeIndex? index 0 ((name :: (gap ++ opening :: inner)).drop index) =
            some ((name :: (gap ++ opening :: inner)).length - 1) then
        some index
      else none) =
    if opening.isOp "(" ∧ (Cut.atClose 0 inner).any fun cut => cut.after.isEmpty then
      some (gap.length + 1)
    else none := by
  have atIndex : (name :: (gap ++ opening :: inner))[gap.length + 1]? = some opening := by simp
  have behind : (name :: (gap ++ opening :: inner)).drop (gap.length + 1) = opening :: inner := by
    simp
  simp only [atIndex, behind, Option.any_some]
  by_cases isOpening : opening.isOp "(" = true
  · have opens : opening.opensBracket = true := by simp [Token.opensBracket, isOpening]
    rw [closeIndex?, if_pos opens, closeIndex?_eq]
    cases close : Cut.atClose 0 inner with
    | none => simp
    | some cut =>
      have size := congrArg List.length (Cut.tokens_atClose close)
      rw [Cut.tokens, List.length_append, List.length_cons] at size
      have last : gap.length + 1 + 1 + cut.before.length =
          (name :: (gap ++ opening :: inner)).length - 1 ↔ cut.after = [] := by
        rw [← List.length_eq_zero_iff, List.length_cons, List.length_append, List.length_cons]
        omega
      simp only [isOpening, true_and, Option.map_some, Option.some.injEq, last, Option.any_some,
        List.isEmpty_iff]
  · rw [if_neg fun both => isOpening both.1, if_neg fun both => isOpening both.1]

private theorem openIndex?_eq (marker : String) (tokens : List Token) :
    openIndex? marker tokens =
      (ofTokens? marker tokens).map fun call => call.gap.length + 1 := by
  cases tokens with
  | nil => rfl
  | cons name rest =>
    simp only [openIndex?, ofTokens?, List.head?_cons, Option.any_some, List.drop_one,
      List.tail_cons, findIdx?_isTrivia]
    split
    · cases split : rest.dropWhile Token.isTrivia with
      | nil => rfl
      | cons opening inner =>
        have whole : rest = rest.takeWhile Token.isTrivia ++ opening :: inner := by
          rw [← split, List.takeWhile_append_dropWhile]
        generalize rest.takeWhile Token.isTrivia = gap at whole ⊢
        subst whole
        rw [if_neg (List.cons_ne_nil _ _)]
        refine (openIndex?_behind name gap opening inner).trans ?_
        by_cases isOpening : opening.isOp "(" = true
        · simp only [isOpening, if_true, true_and]
          cases Cut.atClose 0 inner with
          | none => rfl
          | some cut =>
            obtain ⟨before, closing, after⟩ := cut
            cases after <;> rfl
        · rw [if_neg fun both => isOpening both.1]
          simp only [if_neg isOpening, Option.map_none]
    · rfl

private theorem arguments_inner {marker : String} {tokens : List Token} {call : MarkerCall}
    (found : ofTokens? marker tokens = some call) :
    arguments (Pieces.ofTokens {} call.inner) = (call.args, call.trailing) := by
  cases tokens with
  | nil => cases found
  | cons name rest =>
    simp only [ofTokens?] at found
    split at found
    · split at found
      · cases found
      · split at found
        · split at found
          · next body closing close =>
            cases found
            rw [inner, tokens_arguments, Pieces.tokens_ofTokens]
          · cases found
        · cases found
    · cases found

private theorem peel_eq (marker : String) (tokens : List Token) :
    peel marker tokens = (ofTokens? marker tokens).elim (.error tokens) .ok := by
  rw [peel, openIndex?_eq]
  cases found : ofTokens? marker tokens with
  | none => rfl
  | some call =>
    have parts := arguments_inner found
    rw [← tokens_ofTokens? found, MarkerCall.tokens]
    simp only [Option.map_some, Option.elim_some, List.cons_append, List.getLast?_concat,
      List.dropLast_concat, Nat.add_sub_cancel, List.drop_left, List.take_left, parts]

private theorem comma_arguments (pieces : Pieces) :
    ∀ argument ∈ (arguments pieces).1.dropLast, argument.comma.isSome = true := by
  have ended : ∀ argument ∈ pieces.ended.map fun piece => (⟨piece.value, some piece.comma⟩ : Argument),
      argument.comma.isSome = true := by
    intro argument member
    obtain ⟨piece, -, rfl⟩ := List.mem_map.1 member
    rfl
  intro argument member
  simp only [arguments] at member
  split at member
  · exact ended argument (List.dropLast_subset _ member)
  · rw [List.dropLast_concat] at member
    exact ended argument member

/-- The tokens are taken apart exactly if they are one call of the marker. Then the parts, one behind
the other, are the tokens, trivia is all that stands in the gap and behind the last comma, and only
the last argument may be without a comma. Else the tokens come back as they are, since no index of a
parenthesis has been found: taking parts off never runs out of tokens. -/
theorem peel_lossless (marker : String) (tokens : List Token) :
    (openIndex? marker tokens).isSome = isCall marker tokens ∧
    ((∃ call, peel marker tokens = .ok call) ↔ isCall marker tokens = true) ∧
    (∀ call, peel marker tokens = .ok call →
      ofTokens? marker tokens = some call ∧
      call.name :: (call.gap ++ call.opening ::
        (call.args.flatMap Argument.tokens ++ call.trailing ++ [call.closing])) = tokens ∧
      (∀ token ∈ call.gap, token.isTrivia = true) ∧
      (∀ token ∈ call.trailing, token.isTrivia = true) ∧
      ∀ argument ∈ call.args.dropLast, argument.comma.isSome = true) ∧
    ∀ back, peel marker tokens = .error back →
      back = tokens ∧ openIndex? marker tokens = none := by
  rw [peel_eq, isCall, openIndex?_eq]
  cases found : ofTokens? marker tokens with
  | none =>
    refine ⟨rfl, ⟨?_, nofun⟩, ?_, ?_⟩
    · rintro ⟨call, taken⟩
      cases taken
    · intro call taken
      cases taken
    · intro back failed
      cases failed
      exact ⟨rfl, rfl⟩
  | some call =>
    refine ⟨rfl, ⟨fun _ => rfl, fun _ => ⟨call, rfl⟩⟩, fun other taken => ?_,
      fun back failed => ?_⟩
    · cases taken
      have whole := whole_ofTokens? found
      have commas := comma_arguments (Pieces.ofTokens {} call.inner)
      rw [arguments_inner found] at commas
      refine ⟨rfl, ?_, whole.gap, whole.trailing, commas⟩
      rw [← tokens_ofTokens? found, MarkerCall.tokens, inner]
      simp
    · cases failed

end MarkerCall

end DeferredDefaults
