import DeferredDefaults.Proofs.Token.Edges
import DeferredDefaults.Proofs.Token.Stepping

/-!
Texts with a carriage return in front of every line feed. What is read at the front of such a text
is what is read without the returns, and it gains its own returns. The one exception is a string in
single quotes that goes on behind an escaped line feed: the escape takes one character along, which
is then the carriage return, and the line feed behind it ends the row inside the string.
-/

set_option autoImplicit false
set_option relaxedAutoImplicit false

namespace DeferredDefaults

/-- The text with a carriage return in front of every line feed. -/
def Text.withReturns (text : List Char) : List Char :=
  text.flatMap fun c => if c = '\n' then ['\r', '\n'] else [c]

open Text (withReturns)

namespace Text

@[simp] theorem withReturns_nil : withReturns [] = [] := rfl

@[simp] theorem withReturns_feed (rest : List Char) :
    withReturns ('\n' :: rest) = '\r' :: '\n' :: withReturns rest := rfl

private theorem withReturns_cons {c : Char} (noFeed : c ≠ '\n') (rest : List Char) :
    withReturns (c :: rest) = c :: withReturns rest := by
  simp [withReturns, noFeed]

private theorem withReturns_append (front back : List Char) :
    withReturns (front ++ back) = withReturns front ++ withReturns back := List.flatMap_append

private theorem withReturns_eq_nil (text : List Char) : withReturns text = [] ↔ text = [] := by
  cases text with
  | nil => exact Iff.rfl
  | cons c rest =>
    by_cases feed : c = '\n'
    · simp [feed]
    · simp [withReturns_cons feed]

theorem withReturns_of_noFeed {text : List Char} (noFeed : '\n' ∉ text) :
    withReturns text = text := by
  induction text with
  | nil => rfl
  | cons c rest ih =>
    rw [List.mem_cons, not_or] at noFeed
    rw [withReturns_cons (Ne.symm noFeed.1), ih noFeed.2]

private theorem head?_withReturns {c : Char} (noEnd : Lexeme.isLineEnd c = false)
    (text : List Char) :
    (withReturns text).head? = some c ↔ text.head? = some c := by
  cases text with
  | nil => rfl
  | cons first rest =>
    by_cases feed : first = '\n'
    · subst feed
      rw [withReturns_feed, List.head?_cons, List.head?_cons, Option.some.injEq, Option.some.injEq]
      constructor
      · rintro rfl
        cases noEnd
      · rintro rfl
        cases noEnd
    · rw [withReturns_cons feed, List.head?_cons, List.head?_cons]

private theorem any_head?_withReturns {holds : Char → Bool} (same : holds '\r' = holds '\n')
    (text : List Char) : (withReturns text).head?.any holds = text.head?.any holds := by
  cases text with
  | nil => rfl
  | cons first rest =>
    by_cases feed : first = '\n'
    · subst feed
      exact same
    · rw [withReturns_cons feed, List.head?_cons, List.head?_cons]

end Text

theorem Position.advance_withReturns (p : Position) {text : List Char} (noReturn : '\r' ∉ text) :
    p.advance (withReturns text) = p.advance text := by
  induction text generalizing p with
  | nil => rfl
  | cons c rest ih =>
    rw [List.mem_cons, not_or] at noReturn
    by_cases feed : c = '\n'
    · subst feed
      rw [Text.withReturns_feed, advance, advance, if_pos (.inr rfl), ih _ noReturn.2]
      exact fun _ isReturn => absurd isReturn (by decide)
    · have plain : ¬ (c = '\r' ∨ c = '\n') := by
        rintro (rfl | rfl)
        · exact noReturn.1 rfl
        · exact feed rfl
      have noPair : ∀ others : List Char, ∀ tail, c = '\r' → others = '\n' :: tail → False :=
        fun _ _ isReturn => absurd isReturn.symm noReturn.1
      rw [Text.withReturns_cons feed, advance, advance, if_neg plain, if_neg plain, ih _ noReturn.2]
      · exact noPair _
      · exact noPair _

namespace Lexeme

private theorem ink_withReturns (text : List Char) : ink (withReturns text) = ink text := by
  induction text with
  | nil => rfl
  | cons c rest ih =>
    by_cases feed : c = '\n'
    · subst feed
      rfl
    · have flags : ((withReturns rest).head? != some '=') = (rest.head? != some '=') := by
        rw [Bool.eq_iff_iff, bne_iff_ne, bne_iff_ne, ne_eq, ne_eq, Text.head?_withReturns rfl]
      rw [Text.withReturns_cons feed]
      simp only [ink, ih, flags]

private theorem isCode_withReturns {text : List Char} (code : IsCode text) :
    IsCode (withReturns text) := by
  cases text with
  | nil => exact code
  | cons c rest =>
    rw [isCode_cons_iff] at code
    have feed : c ≠ '\n' := by
      rintro rfl
      cases code.2.1
    rw [Text.withReturns_cons feed, isCode_cons_iff, Text.any_head?_withReturns rfl]
    exact code

section Quotes

variable {quote : Char} (isQuote : isQuote quote = true)
include isQuote

private theorem ne_feed_of_isQuote : quote ≠ '\n' := by
  rintro rfl
  cases isQuote

private theorem longTail_lineEnd {c : Char} (isEnd : isLineEnd c = true) (escaped : Bool)
    (rest : List Char) :
    longTail quote escaped (c :: rest) = (longTail quote false rest).map (· + 1) := by
  cases escaped with
  | true => rfl
  | false =>
    have noQuote : quote ≠ c := by
      rintro rfl
      simp only [isLineEnd, Bool.or_eq_true, beq_iff_eq] at isEnd
      rcases isEnd with rfl | rfl <;> cases isQuote
    have noEscape : c ≠ '\\' := by
      rintro rfl
      cases isEnd
    rw [longTail, if_neg noEscape, if_neg (by simp [List.isPrefixOf, noQuote])]

/-- A long string is closed at the same place, whichever way its rows end. -/
private theorem longTail_withReturns (escaped : Bool) (text : List Char) :
    longTail quote escaped (withReturns text) =
      (longTail quote escaped text).map fun length => (withReturns (text.take length)).length := by
  induction text generalizing escaped with
  | nil => cases escaped <;> rfl
  | cons c rest ih =>
    have deeper : ∀ (next : Bool) (front : List Char),
        (∀ tail, withReturns (c :: tail) = front ++ withReturns tail) →
        (longTail quote next (withReturns rest)).map (· + front.length) =
          ((longTail quote next rest).map (· + 1)).map fun length =>
            (withReturns ((c :: rest).take length)).length := by
      intro next front grows
      rw [ih, Option.map_map, Option.map_map]
      congr 1
      funext length
      simp only [Function.comp_apply, List.take_succ_cons, grows, List.length_append]
      omega
    by_cases feed : c = '\n'
    · subst feed
      rw [Text.withReturns_feed, longTail_lineEnd isQuote rfl, longTail_lineEnd isQuote rfl,
        longTail_lineEnd isQuote rfl, Option.map_map]
      exact deeper false ['\r', '\n'] fun _ => rfl
    · have grown := fun next => deeper next [c] fun tail => Text.withReturns_cons feed tail
      rw [Text.withReturns_cons feed]
      cases escaped with
      | true => exact grown false
      | false =>
        have solid : isSolid [quote, quote, quote] = true := by
          simp only [Lexeme.isQuote, Bool.or_eq_true, beq_iff_eq] at isQuote
          rcases isQuote with rfl | rfl <;> rfl
        have closes : [quote, quote, quote].isPrefixOf (c :: withReturns rest) =
            [quote, quote, quote].isPrefixOf (c :: rest) := by
          rw [← Text.withReturns_cons feed, ← isPrefixOf_ink solid, ink_withReturns,
            isPrefixOf_ink solid]
        simp only [longTail, closes]
        split
        · exact grown true
        · split
          · next isClosed =>
            have quotes : (c :: rest).take 3 = [quote, quote, quote] :=
              (List.prefix_iff_eq_take.1 (List.isPrefixOf_iff_prefix.1 isClosed)).symm
            have noFeed : '\n' ∉ [quote, quote, quote] := by
              simp [(ne_feed_of_isQuote isQuote).symm]
            rw [Option.map_some, quotes, Text.withReturns_of_noFeed noFeed]
            rfl
          · exact grown false

private theorem shortTail_lineEnd {c : Char} (isEnd : isLineEnd c = true) (rest : List Char) :
    shortTail quote false (c :: rest) = none := by
  have noQuote : c ≠ quote := by
    rintro rfl
    simp only [isLineEnd, Bool.or_eq_true, beq_iff_eq] at isEnd
    rcases isEnd with rfl | rfl <;> cases isQuote
  have noEscape : c ≠ '\\' := by
    rintro rfl
    cases isEnd
  rw [shortTail, if_neg noEscape, if_neg noQuote, if_pos isEnd]

/-- A short string is closed at the same place if it holds no line feed, and not at all if it holds
one: the escape in front of it takes only the carriage return along. -/
private theorem shortTail_withReturns (escaped : Bool) (text : List Char) :
    shortTail quote escaped (withReturns text) =
      (shortTail quote escaped text).filter fun length => !(text.take length).contains '\n' := by
  induction text generalizing escaped with
  | nil => cases escaped <;> rfl
  | cons c rest ih =>
    by_cases feed : c = '\n'
    · subst feed
      cases escaped with
      | true =>
        rw [Text.withReturns_feed, shortTail, shortTail_lineEnd isQuote rfl, shortTail]
        cases shortTail quote false rest <;> simp [Option.filter]
      | false =>
        rw [Text.withReturns_feed, shortTail_lineEnd isQuote rfl, shortTail_lineEnd isQuote rfl]
        rfl
    · have deeper : ∀ next : Bool, (shortTail quote next (withReturns rest)).map (· + 1) =
          ((shortTail quote next rest).map (· + 1)).filter fun length =>
            !((c :: rest).take length).contains '\n' := by
        intro next
        rw [ih]
        cases shortTail quote next rest with
        | none => rfl
        | some length =>
          by_cases held : '\n' ∈ rest.take length
          · simp [Option.filter, held]
          · simp [Option.filter, held, Ne.symm feed]
      rw [Text.withReturns_cons feed]
      cases escaped with
      | true => exact deeper false
      | false =>
        simp only [shortTail]
        split
        · exact deeper true
        · split
          · simp [Option.filter, Ne.symm feed]
          · split
            · rfl
            · exact deeper false

end Quotes

private theorem isTripled_withReturns (text : List Char) :
    isTripled (withReturns text) = isTripled text := by
  rw [← isTripled_plain, plain_congr (ink_withReturns text), isTripled_plain]

private theorem isTripled_append {front : List Char} (tripled : isTripled front = true)
    (back : List Char) : isTripled (front ++ back) = true := by
  match front with
  | _ :: _ :: _ :: _ => exact tripled
  | [] | [_] | [_, _] => cases tripled

def breaksOff (text : List Char) : Bool := !isTripled text && text.contains '\n'

private theorem breaksOff_of_noFeed {text : List Char} (noFeed : '\n' ∉ text) :
    breaksOff text = false := by
  simp [breaksOff, noFeed]

private theorem quoted_withReturns (text : List Char) : quoted (withReturns text) =
    if breaksOff (text.take (quoted text)) then 0
    else (withReturns (text.take (quoted text))).length := by
  cases text with
  | nil => rfl
  | cons quote rest =>
    by_cases isQuote : isQuote quote = true
    · have feed := ne_feed_of_isQuote isQuote
      have tripled := isTripled_withReturns (quote :: rest)
      rw [Text.withReturns_cons feed] at tripled ⊢
      cases isLong : isTripled (quote :: rest) with
      | true =>
        obtain ⟨tail, rfl⟩ : ∃ tail, rest = quote :: quote :: tail := by
          rcases rest with - | ⟨second, - | ⟨third, tail⟩⟩
          · cases isLong
          · cases isLong
          · simp only [isTripled, Bool.and_eq_true, beq_iff_eq] at isLong
            obtain ⟨⟨-, rfl⟩, rfl⟩ := isLong
            exact ⟨tail, rfl⟩
        have noFeed : '\n' ∉ [quote, quote] := by simp [feed.symm]
        rw [Text.withReturns_cons feed, Text.withReturns_cons feed, quoted_tripled isQuote,
          quoted_tripled isQuote, longTail_withReturns isQuote]
        cases longTail quote false tail with
        | none =>
          simp only [Option.map_none, Option.getD_none, List.take_succ_cons, List.take_zero,
            breaksOff_of_noFeed noFeed, Text.withReturns_of_noFeed noFeed]
          rfl
        | some length =>
          have long : breaksOff (quote :: quote :: quote :: tail.take length) = false := by
            simp [breaksOff, isTripled, isQuote]
          simp only [Option.map_some, Option.getD_some, List.take_succ_cons, long,
            Text.withReturns_cons feed, List.length_cons]
          rfl
      | false =>
        rw [quoted_of_not_isTripled isQuote (tripled.trans isLong),
          quoted_of_not_isTripled isQuote isLong, shortTail_withReturns isQuote]
        cases short : shortTail quote false rest with
        | none => rfl
        | some length =>
          have bound := shortTail_le_length rest short
          have single : isTripled (quote :: rest.take length) = false := by
            rw [← Bool.not_eq_true]
            intro tripled
            have whole := isTripled_append tripled (rest.drop length)
            rw [List.cons_append, List.take_append_drop, isLong] at whole
            cases whole
          by_cases held : '\n' ∈ rest.take length
          · simp [Option.filter, held, breaksOff, single]
          · have noFeed : '\n' ∉ quote :: rest.take length := by
              simp [held, feed.symm]
            simp [Option.filter, held, breaksOff, feed.symm, Text.withReturns_of_noFeed noFeed, bound]
    · have none : ∀ others, quoted (quote :: others) = 0 := by
        intro others
        rw [quoted, if_neg isQuote]
      rw [none]
      by_cases feed : quote = '\n'
      · subst feed
        rfl
      · rw [Text.withReturns_cons feed, none]
        rfl

private theorem noFeed_take {text : List Char} {count : Nat}
    (within : count ≤ (plain text).length) :
    '\n' ∉ text.take count := by
  intro member
  have isPrefix : text.take count <+: plain text :=
    List.prefix_of_prefix_length_le (List.take_prefix count text) (List.takeWhile_prefix isPlain)
      (Nat.le_trans (List.length_take_le count text) within)
  have visible := List.all_eq_true.1 (List.all_takeWhile (p := isPlain) (l := text)) _
    (isPrefix.subset member)
  cases visible

private theorem noFeed_letters (text : List Char) : '\n' ∉ text.take (lettersLength text) := by
  refine noFeed_take ?_
  rw [← lettersLength_plain]
  exact lettersLength_le_length _

private theorem lettersLength_withReturns (text : List Char) :
    lettersLength (withReturns text) = lettersLength text := by
  rw [← lettersLength_plain, plain_congr (ink_withReturns text), lettersLength_plain]

private theorem string_withReturns (text : List Char) : string (withReturns text) =
    if breaksOff ((text.take (string text)).drop (lettersLength text)) then 0
    else (withReturns (text.take (string text))).length := by
  have whole := List.take_append_drop (lettersLength text) text
  have noFeed := noFeed_letters text
  have size : (text.take (lettersLength text)).length = lettersLength text :=
    List.length_take_of_le (lettersLength_le_length text)
  have behind : (withReturns text).drop (lettersLength text) =
      withReturns (text.drop (lettersLength text)) := by
    rw [← congrArg withReturns whole, Text.withReturns_append, Text.withReturns_of_noFeed noFeed]
    exact List.drop_left' size
  rw [string_eq (withReturns text), lettersLength_withReturns, behind, quoted_withReturns,
    string_eq text]
  generalize text.drop (lettersLength text) = rest at *
  generalize text.take (lettersLength text) = letters at *
  subst whole
  rw [← size]
  by_cases none : quoted rest = 0
  · simp [none, breaksOff, isTripled]
  · have some : (withReturns (rest.take (quoted rest))).length ≠ 0 := by
      rw [ne_eq, List.length_eq_zero_iff, Text.withReturns_eq_nil, List.take_eq_nil_iff]
      rintro (noQuote | rfl)
      · exact none noQuote
      · exact none rfl
    rw [if_neg none, List.take_length_add_append, List.drop_left, Text.withReturns_append,
      Text.withReturns_of_noFeed noFeed, List.length_append]
    cases breaksOff (rest.take (quoted rest)) with
    | true => rfl
    | false => exact if_neg some

section First

variable {text rest : List Char} {kind : Kind}

private theorem noFeed_of_first (nonempty : text ≠ []) (code : IsCode (text ++ rest))
    (read : first (text ++ rest) = (kind, text.length)) (noString : kind ≠ .string) :
    '\n' ∉ text := by
  have within : ∀ rule : List Char → Nat, (∀ other, rule (plain other) = rule other) →
      (∀ other, rule other ≤ other.length) → rule (text ++ rest) = text.length → '\n' ∉ text := by
    intro rule onPlain bound length
    have short := bound (plain (text ++ rest))
    rw [onPlain, length] at short
    simpa using noFeed_take short
  have decided := read
  rw [first_of_isCode code] at decided
  split at decided
  · exact absurd (Prod.mk.inj decided).1.symm noString
  · split at decided
    · exact within openQuote openQuote_plain openQuote_le_length (Prod.mk.inj decided).2
    · split at decided
      · exact within number number_plain number_le_length (Prod.mk.inj decided).2
      · split at decided
        · exact within name name_plain name_le_length (Prod.mk.inj decided).2
        · split at decided
          · have none : ∀ op ∈ operators, '\n' ∉ op.toList := by decide
            rw [← (Prod.mk.inj decided).1] at read
            obtain ⟨op, isOperator, rfl⟩ := mem_operators_of_first nonempty read
            exact none op isOperator
          · obtain ⟨c, rfl⟩ := List.length_eq_one_iff.1 (Prod.mk.inj decided).2.symm
            have noEnd := ((isCode_cons_iff c rest).1 code).2.1
            rintro member
            cases List.mem_singleton.1 member
            cases noEnd

/-- The string at the front breaks off when its rows end in carriage returns and line feeds. -/
def Kind.breaksOff (kind : Kind) (text : List Char) : Bool :=
  kind == .string && Lexeme.breaksOff (text.drop (lettersLength text))

private theorem isCode_of_string (read : first (text ++ rest) = (.string, text.length)) :
    IsCode (text ++ rest) := by
  rcases first_cases read with h | h | h | h | ⟨-, code⟩
  · cases h.1
  · cases h.1
  · cases h.1
  · cases h.1
  · exact code

private theorem string_of_first (code : IsCode (text ++ rest))
    (read : first (text ++ rest) = (.string, text.length)) :
    string (text ++ rest) = text.length ∧ text.length ≠ 0 ∧
      lettersLength (text ++ rest) = lettersLength text := by
  obtain ⟨length, some⟩ := (first_string_iff code).1 read
  refine ⟨length, some, lettersLength_append ?_ rest⟩
  have quotes : quoted ((text ++ rest).drop (lettersLength (text ++ rest))) ≠ 0 := by
    intro none
    rw [string_eq, if_pos none] at length
    exact some length.symm
  have long := two_le_of_quoted quotes
  rw [string_eq, if_neg quotes] at length
  omega

private theorem first_of_breaksOff (read : first (text ++ rest) = (kind, text.length))
    (broken : kind.breaksOff text = true) :
    (first (withReturns (text ++ rest))).1 = .openQuote := by
  rw [Kind.breaksOff, Bool.and_eq_true, beq_iff_eq] at broken
  obtain ⟨rfl, broken⟩ := broken
  have code := isCode_of_string read
  obtain ⟨length, some, letters⟩ := string_of_first code read
  have noString : string (withReturns (text ++ rest)) = 0 := by
    rw [string_withReturns, length, List.take_left, letters, if_pos broken]
  have quotes : openQuote (withReturns (text ++ rest)) ≠ 0 := by
    rw [openQuote_congr (ink_withReturns _)]
    intro noQuote
    exact some (length ▸ string_eq_zero noQuote)
  rw [first_of_isCode (isCode_withReturns code), if_neg (by simp [noString]), if_pos quotes]

private theorem first_string_withReturns (code : IsCode (text ++ rest))
    (read : first (text ++ rest) = (.string, text.length))
    (whole : Kind.breaksOff .string text = false) :
    first (withReturns (text ++ rest)) = (.string, (withReturns text).length) := by
  obtain ⟨length, some, letters⟩ := string_of_first code read
  have again := string_withReturns (text ++ rest)
  rw [length, List.take_left, letters, if_neg (by simpa [Kind.breaksOff] using whole)] at again
  rw [first_string_iff (isCode_withReturns code)]
  exact ⟨again, by simpa [Text.withReturns_eq_nil] using some⟩

private theorem first_code_withReturns (nonempty : text ≠ []) (code : IsCode (text ++ rest))
    (read : first (text ++ rest) = (kind, text.length)) (isString : kind ≠ .string) :
    first (text ++ withReturns rest) = (kind, text.length) := by
  have again : withReturns (text ++ rest) = text ++ withReturns rest := by
    rw [Text.withReturns_append,
      Text.withReturns_of_noFeed (noFeed_of_first nonempty code read isString)]
  have same := ink_withReturns (text ++ rest)
  have codeAgain := isCode_withReturns code
  have noString : string (text ++ rest) = 0 := by
    by_contra some
    rw [first_of_isCode code, if_pos some] at read
    exact isString (Prod.mk.inj read).1.symm
  have noStringAgain : string (withReturns (text ++ rest)) = 0 := by
    simp [string_withReturns, noString]
  have heads : (text ++ withReturns rest).head? = (text ++ rest).head? := by
    rw [List.head?_append_of_ne_nil _ nonempty, List.head?_append_of_ne_nil _ nonempty]
  rw [again] at same codeAgain noStringAgain
  rw [first_of_isCode code, noString] at read
  rw [first_of_isCode codeAgain, noStringAgain, openQuote_congr same, number_congr same,
    name_congr same, operator_congr same heads]
  exact read

/-- Where a lexeme without carriage returns holds line feeds. -/
theorem feeds_of_first (nonempty : text ≠ []) (noReturn : '\r' ∉ text)
    (read : first (text ++ rest) = (kind, text.length)) :
    (kind = .lineBreak ∧ text = ['\n']) ∨ (kind = .continuation ∧ text = ['\\', '\n']) ∨
      kind = .string ∨ (kind ≠ .lineBreak ∧ kind ≠ .continuation ∧ '\n' ∉ text) := by
  have feed : ∀ lineEnd ∈ breaks, '\r' ∉ lineEnd → lineEnd = ['\n'] := by decide
  rcases first_cases read with ⟨rfl, length⟩ | ⟨rfl, -⟩ | ⟨rfl, -⟩ | ⟨rfl, -⟩ | ⟨isCode, code⟩
  · obtain ⟨c, lineEnd, rfl⟩ := List.exists_cons_of_ne_nil nonempty
    have escape : c = '\\' := by
      by_contra different
      rw [List.cons_append, continuation_of_ne different] at length
      cases length
    subst escape
    rw [feed lineEnd (first_continuation_iff.1 read).1 (List.not_mem_of_not_mem_cons noReturn)]
    exact .inr (.inl ⟨rfl, rfl⟩)
  · exact .inl ⟨rfl, feed text ((first_lineBreak_iff nonempty).1 read).1 noReturn⟩
  · have spaces := ((first_space_iff nonempty).1 read).1
    have noFeed : '\n' ∉ text := fun member => by cases List.all_eq_true.1 spaces _ member
    exact .inr (.inr (.inr ⟨nofun, nofun, noFeed⟩))
  · have row := ((first_comment_iff nonempty).1 read).2.1
    have noFeed : '\n' ∉ text := fun member => by cases List.all_eq_true.1 row _ member
    exact .inr (.inr (.inr ⟨nofun, nofun, noFeed⟩))
  · by_cases isString : kind = .string
    · exact .inr (.inr (.inl isString))
    · have noFeed := noFeed_of_first nonempty code read isString
      refine .inr (.inr (.inr ⟨?_, ?_, noFeed⟩))
      · rintro rfl
        cases isCode
      · rintro rfl
        cases isCode

/-- Unless it breaks off, the first lexeme stays what it is and has its own carriage returns. -/
private theorem first_withReturns (nonempty : text ≠ []) (noReturn : '\r' ∉ text)
    (read : first (text ++ rest) = (kind, text.length)) (whole : kind.breaksOff text = false) :
    first (withReturns text ++ withReturns rest) = (kind, (withReturns text).length) := by
  by_cases isString : kind = .string
  · subst isString
    rw [← Text.withReturns_append]
    exact first_string_withReturns (isCode_of_string read) read whole
  · rcases feeds_of_first nonempty noReturn read with ⟨rfl, rfl⟩ | ⟨rfl, rfl⟩ | again |
      ⟨noBreak, noContinuation, noFeed⟩
    · rfl
    · rfl
    · exact absurd again isString
    · rw [Text.withReturns_of_noFeed noFeed]
      rcases first_cases read with h | h | ⟨rfl, -⟩ | ⟨rfl, -⟩ | ⟨-, code⟩
      · exact absurd h.1 noContinuation
      · exact absurd h.1 noBreak
      · rw [first_space_iff nonempty] at read ⊢
        rwa [Text.any_head?_withReturns rfl]
      · rw [first_comment_iff nonempty] at read ⊢
        rwa [Text.any_head?_withReturns rfl]
      · exact first_code_withReturns nonempty code read isString

end First

end Lexeme

/-- The lexeme with a carriage return in front of every line feed. -/
def Lexeme.withReturns (lexeme : Lexeme) : Lexeme := ⟨lexeme.kind, Text.withReturns lexeme.text⟩

/-- A lexeme that does not break off is read as itself, and reading goes on behind it. -/
theorem Lexeme.split_withReturns {lexeme : Lexeme} {rest : List Lexeme}
    (reads : Reads (lexeme :: rest)) (noReturn : '\r' ∉ lexeme.text)
    (whole : lexeme.kind.breaksOff lexeme.text = false) :
    split (Text.withReturns (textOf (lexeme :: rest))) =
      lexeme.withReturns :: split (Text.withReturns (textOf rest)) := by
  obtain ⟨nonempty, read, -⟩ := reads
  have again := first_withReturns nonempty noReturn read whole
  obtain ⟨c, more, cons⟩ := List.exists_cons_of_ne_nil
    (mt (Text.withReturns_eq_nil lexeme.text).1 nonempty)
  rw [textOf_cons, Text.withReturns_append, withReturns]
  rw [cons] at again ⊢
  rw [List.cons_append, split_cons, ← List.cons_append, again]
  simp

theorem Lexeme.split_of_breaksOff {lexeme : Lexeme} {rest : List Lexeme}
    (reads : Reads (lexeme :: rest)) (broken : lexeme.kind.breaksOff lexeme.text = true) :
    ∃ quotes others, split (Text.withReturns (textOf (lexeme :: rest))) = quotes :: others ∧
      quotes.kind = .openQuote := by
  obtain ⟨nonempty, read, -⟩ := reads
  have quotes := first_of_breaksOff read broken
  obtain ⟨c, more, cons⟩ := List.exists_cons_of_ne_nil
    (mt (Text.withReturns_eq_nil (lexeme.text ++ textOf rest)).1 (by simp [nonempty]))
  rw [cons] at quotes
  rw [textOf_cons, cons, split_cons]
  exact ⟨_, _, rfl, quotes⟩

end DeferredDefaults
