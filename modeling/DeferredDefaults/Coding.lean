import DeferredDefaults.Text.Utf8
import DeferredDefaults.Text.Word

/-!
The coding header of a source: a comment on the first or second line that names the encoding, as in
`# -*- coding: name -*-`. The second line counts only below a blank line or a comment.
-/

set_option autoImplicit false
set_option relaxedAutoImplicit false

namespace DeferredDefaults.Coding

def isNameChar (c : Char) : Bool := c == '-' || c == '.' || Text.Word.isWord c

def isIndent (c : Char) : Bool := c == ' ' || c == '\t' || c == '\x0c'

/-- The name that follows `coding:` or `coding=` at the front of a text. -/
def nameAt? (text : List Char) : Option (List Char) :=
  if "coding".toList.isPrefixOf text then
    match text.drop "coding".toList.length with
    | [] => none
    | mark :: rest =>
      let name := (rest.dropWhile fun c => c == ' ' || c == '\t').takeWhile isNameChar
      if (mark = ':' ∨ mark = '=') ∧ name ≠ [] then some name else none
  else none

def firstName? : List Char → Option (List Char)
  | [] => none
  | c :: rest => match nameAt? (c :: rest) with
    | some name => some name
    | none => firstName? rest

def lineName? (line : List Char) : Option (List Char) :=
  match line.dropWhile isIndent with
  | '#' :: comment => firstName? comment
  | _ => none

def isLineFeed (byte : UInt8) : Bool := byte == 0x0A

def isFiller (byte : UInt8) : Bool :=
  byte == 0x20 || byte == 0x09 || byte == 0x0C || byte == 0x0D

def lacksCode (line : List UInt8) : Bool :=
  match line.dropWhile isFiller with
  | [] => true
  | byte :: _ => byte == 0x23

def firstLine (source : List UInt8) : List UInt8 := source.takeWhile fun byte => !isLineFeed byte

def behindFirstLine? (source : List UInt8) : Option (List UInt8) :=
  match source.dropWhile fun byte => !isLineFeed byte with
  | [] => none
  | _ :: rest => some rest

/-- The name that the bytes of a line declare. A comment ends where it is no longer UTF-8. -/
def bytesName? (line : List UInt8) : Option String :=
  (lineName? (Text.Utf8.readable line)).map String.ofList

/-- The encoding that the header of a source names. -/
def declaration? (source : List UInt8) : Option String :=
  match bytesName? (firstLine source) with
  | some name => some name
  | none =>
    if lacksCode (firstLine source) then
      (behindFirstLine? source).bind fun rest => bytesName? (firstLine rest)
    else none

end DeferredDefaults.Coding
