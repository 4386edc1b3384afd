import DeferredDefaults.Position

/-!
Everything that can be wrong with a source text, as causes. Each cause carries the place where it
shows; its wording stands in one function.
-/

set_option autoImplicit false
set_option relaxedAutoImplicit false

namespace DeferredDefaults

inductive LexFault where
  | unterminatedString
  | unmatchedUnindent
  | openBracketAtEnd
deriving DecidableEq, Repr

inductive SyntaxFault where
  | unexpectedIndent
  | unexpectedBlockEnd
  | unexpectedLineEnd
  | unexpectedInputEnd
  | unexpectedInputEndInBlock
  | expectedBlock
  | expectedFunctionName
  | unclosedTypeParameters
  | expectedParameterList
  | unclosedParameterList
  | expectedColon
  | emptyParameter
  | misplacedSlash
  | expectedParameterName
  | expectedParameterEnd
  | expectedDefault
  | variadicDefault
  | requiredAfterDefault
deriving DecidableEq, Repr

inductive DeferFault where
  | notParenthesized
  | noExpression
  | keywordArgument
deriving DecidableEq, Repr

inductive Fault where
  | lex (cause : LexFault) (position : Position)
  | parse (cause : SyntaxFault) (position : Position)
  /-- A token starts before the end of the token in front of it. -/
  | overlap (position : Position)
  /-- The late default of the parameter `name` cannot be deferred. -/
  | lateDefault (name : String) (cause : DeferFault) (position : Position)
deriving DecidableEq, Repr

def LexFault.message : LexFault → String
  | .unterminatedString => "unterminated string literal"
  | .unmatchedUnindent => "unindent does not match any outer indentation level"
  | .openBracketAtEnd => "unexpected end of input inside brackets"

def SyntaxFault.message : SyntaxFault → String
  | .unexpectedIndent => "unexpected indent"
  | .unexpectedBlockEnd => "unexpected end of block"
  | .unexpectedLineEnd => "unexpected end of line"
  | .unexpectedInputEnd => "unexpected end of input"
  | .unexpectedInputEndInBlock => "unexpected end of input in block"
  | .expectedBlock => "expected an indented block"
  | .expectedFunctionName => "expected a function name"
  | .unclosedTypeParameters => "unclosed type parameter list"
  | .expectedParameterList => "expected `(` after function name"
  | .unclosedParameterList => "unclosed parameter list"
  | .expectedColon => "expected `:` after function signature"
  | .emptyParameter => "empty parameter"
  | .misplacedSlash => "`/` must precede `*` and keyword-only parameters"
  | .expectedParameterName => "expected a parameter name"
  | .expectedParameterEnd => "expected `:`, `=` or `,` after parameter name"
  | .expectedDefault => "expected a default value"
  | .variadicDefault => "variadic parameters cannot have a default"
  | .requiredAfterDefault => "parameter without a default follows parameter with a default"

def DeferFault.message : DeferFault → String
  | .notParenthesized => "expected a parenthesized expression after `=>`"
  | .noExpression => "expected an expression after `=>`"
  | .keywordArgument => "keyword arguments are not allowed"

namespace Fault

def position : Fault → Position
  | lex _ position => position
  | parse _ position => position
  | overlap position => position
  | lateDefault _ _ position => position

def reason : Fault → String
  | lex cause _ => cause.message
  | parse cause _ => "syntax error: " ++ cause.message
  | overlap _ => "token starts before the end of the previous token"
  | lateDefault name cause _ =>
    "invalid late-bound default for `" ++ name ++ "`: " ++ cause.message

def message (fault : Fault) : String := fault.position.render ++ ": " ++ fault.reason

end Fault

end DeferredDefaults
