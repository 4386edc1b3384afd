/-!
Bytes read as UTF-8. Reading stops at the first byte that starts no well-formed sequence, and says
how many bytes of it could still have been one. A sequence cut off by the end of the input is told
apart from one that goes wrong.
-/

set_option autoImplicit false
set_option relaxedAutoImplicit false

namespace DeferredDefaults.Text.Utf8

inductive Fault where
  /-- From `index` on, `length` bytes begin a sequence that the next byte cannot go on with. -/
  | invalid (length index : Nat)
  /-- The input ends inside the sequence that begins at `index`. -/
  | incomplete (index : Nat)
deriving DecidableEq, Repr

def Fault.message : Fault → String
  | .invalid length index =>
    "invalid utf-8 sequence of " ++ toString length ++ " bytes from index " ++ toString index
  | .incomplete index => "incomplete utf-8 byte sequence from index " ++ toString index

inductive Sequence where
  /-- A character and the number of bytes after its first one. -/
  | char (value : Char) (more : Nat)
  /-- A sequence that goes wrong after `length` bytes. -/
  | broken (length : Nat)
  /-- A sequence that the end of the input cuts off. -/
  | cutOff
deriving DecidableEq, Repr

def isTail (byte : UInt8) : Bool := 0x80 ≤ byte.toNat && byte.toNat ≤ 0xBF

/-- The second byte may follow the first: no overlong form, no surrogate, nothing past U+10FFFF. -/
def isSecond (lead byte : UInt8) : Bool :=
  if lead.toNat = 0xE0 then 0xA0 ≤ byte.toNat && byte.toNat ≤ 0xBF
  else if lead.toNat = 0xED then 0x80 ≤ byte.toNat && byte.toNat ≤ 0x9F
  else if lead.toNat = 0xF0 then 0x90 ≤ byte.toNat && byte.toNat ≤ 0xBF
  else if lead.toNat = 0xF4 then 0x80 ≤ byte.toNat && byte.toNat ≤ 0x8F
  else isTail byte

def tailLength (lead : UInt8) : Option Nat :=
  if lead.toNat < 0x80 then some 0
  else if 0xC2 ≤ lead.toNat && lead.toNat ≤ 0xDF then some 1
  else if 0xE0 ≤ lead.toNat && lead.toNat ≤ 0xEF then some 2
  else if 0xF0 ≤ lead.toNat && lead.toNat ≤ 0xF4 then some 3
  else none

/-- The character whose sequence has the first byte `lead` and the bytes `tail` after it. -/
def assemble (lead : UInt8) (tail : List UInt8) : Char :=
  let top := match tail.length with
    | 0 => lead.toNat
    | 1 => lead.toNat % 0x20
    | 2 => lead.toNat % 0x10
    | _ => lead.toNat % 0x08
  Char.ofNat (tail.foldl (fun point byte => point * 0x40 + byte.toNat % 0x40) top)

/-- The length of the run of bytes that may follow `lead`, up to `want` of them. -/
def goodTail (lead : UInt8) (want : Nat) : List UInt8 → Nat
  | [] => 0
  | byte :: rest =>
    if want = 0 then 0
    else if isSecond lead byte then 1 + ((rest.take (want - 1)).takeWhile isTail).length
    else 0

/-- The sequence that begins with the byte `lead`. -/
def first (lead : UInt8) (rest : List UInt8) : Sequence :=
  match tailLength lead with
  | none => .broken 1
  | some want =>
    let good := goodTail lead want rest
    if good = want then .char (assemble lead (rest.take want)) want
    else if rest.length ≤ good then .cutOff
    else .broken (good + 1)

/-- The characters up to the first fault, and that fault. The first `skip` bytes belong to the
character before them. -/
def scanFrom (index : Nat) : (skip : Nat) → List UInt8 → List Char × Option Fault
  | _, [] => ([], none)
  | skip + 1, _ :: rest => scanFrom (index + 1) skip rest
  | 0, lead :: rest =>
    match first lead rest with
    | .char value more =>
      let tail := scanFrom (index + 1) more rest
      (value :: tail.1, tail.2)
    | .broken length => ([], some (.invalid length index))
    | .cutOff => ([], some (.incomplete index))

def readable (bytes : List UInt8) : List Char := (scanFrom 0 0 bytes).1

/-- The characters of well-formed bytes. -/
def decode (bytes : List UInt8) : Except Fault (List Char) :=
  match scanFrom 0 0 bytes with
  | (text, none) => .ok text
  | (_, some fault) => .error fault

theorem scanFrom_skip (index skip : Nat) (bytes : List UInt8) (enough : skip ≤ bytes.length) :
    scanFrom index skip bytes = scanFrom (index + skip) 0 (bytes.drop skip) := by
  induction skip generalizing index bytes with
  | zero => simp
  | succ skip ih =>
    cases bytes with
    | nil => simp at enough
    | cons byte rest =>
      have fits : skip ≤ rest.length := by simpa using enough
      simp only [scanFrom, List.drop_succ_cons]
      rw [ih (index + 1) rest fits, Nat.add_right_comm, Nat.add_assoc]

end DeferredDefaults.Text.Utf8
