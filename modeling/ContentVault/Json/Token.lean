import ContentVault.Json.Basic
import ContentVault.Text.Decimal
import ContentVault.Text.Hex

/-!
# JSON tokens

The first half of reading: characters to tokens. The lexer is a transducer, a step function from what has been begun
and the next character to the tokens that are now complete and what is begun instead; `Token.scan?` runs it over a
text. A number or a word ends where a character comes that cannot belong to it, so that character is looked at
twice, by `Lexeme.step` and by `start`. A text is a list of characters in which a byte that is no part of one is
`none`: within quotes such a byte leaves the string without meaning, anywhere else it is an error.
-/

namespace ContentVault.Json

/-- A token: a bracket, a separator, or a value without parts. -/
inductive Token where
  | beginArray
  | endArray
  | beginObject
  | endObject
  | comma
  | colon
  | scalar (value : Json)

/-! ## Numbers and words -/

/-- Splits the leading digits off. -/
def spanDigits (cs : List Char) : List Char × List Char := cs.span Char.isDigit

/-- The exponent at the end of a number: nothing, or a mark, an optional sign and digits. -/
def exponent? : List Char → Option (Option Int)
  | [] => some none
  | c :: rest =>
    if c = 'e' ∨ c = 'E' then
      let (sign, digits) : Int × List Char := match rest with
        | '+' :: digits => (1, digits)
        | '-' :: digits => (-1, digits)
        | digits => (1, digits)
      if !digits.isEmpty && digits.all Char.isDigit then some (some (sign * Text.digitsValue digits)) else none
    else none

/-- The number that a literal spells once its sign has been taken off: digits without a superfluous zero in front, and
optionally a fraction and an exponent. -/
def Number.unsigned? (negative : Bool) (cs : List Char) : Option Number :=
  let (whole, rest) := spanDigits cs
  if whole.isEmpty || (whole.head? == some '0' && whole.length > 1) then none
  else
    match rest with
    | '.' :: rest =>
      let (fraction, rest) := spanDigits rest
      if fraction.isEmpty then none
      else (exponent? rest).map fun e => ⟨negative, Text.digitsValue whole, fraction, e⟩
    | rest => (exponent? rest).map fun e => ⟨negative, Text.digitsValue whole, [], e⟩

/-- The number a literal spells. -/
def Number.ofChars? : List Char → Option Number
  | '-' :: cs => unsigned? true cs
  | cs => unsigned? false cs

/-- The value that a bare word stands for. -/
def word? (cs : List Char) : Option Json :=
  if cs = ['n', 'u', 'l', 'l'] then some .null
  else if cs = ['t', 'r', 'u', 'e'] then some (.bool true)
  else if cs = ['f', 'a', 'l', 's', 'e'] then some (.bool false)
  else none

/-! ## Strings -/

/-- The part of a string that has been read: its characters, last one first; whether it makes sense so far; and the
first half of a surrogate pair whose second half is still to come. -/
structure Spelling where
  chars : List Char
  sound : Bool
  pending : Option Nat

namespace Spelling

/-- Nothing read yet. -/
def empty : Spelling := ⟨[], true, none⟩

/-- Adds a character. -/
def push (s : Spelling) (c : Char) : Spelling :=
  ⟨c :: s.chars, s.sound && s.pending.isNone, none⟩

/-- Adds the code unit of an escape: a character, or half of a surrogate pair. -/
def pushUnit (s : Spelling) (unit : Nat) : Spelling :=
  if 0xd800 ≤ unit ∧ unit < 0xdc00 then ⟨s.chars, s.sound && s.pending.isNone, some unit⟩
  else if 0xdc00 ≤ unit ∧ unit < 0xe000 then
    match s.pending with
    | some high => ⟨Char.ofNat (0x10000 + (high - 0xd800) * 1024 + (unit - 0xdc00)) :: s.chars, s.sound, none⟩
    | none => ⟨s.chars, false, none⟩
  else s.push (Char.ofNat unit)

/-- Adds a byte that is no part of a character. -/
def pushStray (s : Spelling) : Spelling := { s with sound := false }

/-- The string, once its closing quote has been read. -/
def close (s : Spelling) : Json :=
  if s.sound && s.pending.isNone then .string (String.ofList s.chars.reverse) else .garbled

end Spelling

/-- The character that a one-letter escape stands for. -/
def escaped? (c : Char) : Option Char :=
  if c = '"' ∨ c = '\\' ∨ c = '/' then some c
  else if c = 'b' then some '\x08'
  else if c = 'f' then some '\x0c'
  else if c = 'n' then some '\n'
  else if c = 'r' then some '\r'
  else if c = 't' then some '\t'
  else none

/-! ## The transducer -/

/-- What has been begun. -/
inductive Lexeme where
  | nothing
  | number (chars : List Char)
  | word (chars : List Char)
  | string (spelling : Spelling)
  | escape (spelling : Spelling)
  /-- In a numeric escape, after `count` of its four digits. -/
  | unit (spelling : Spelling) (count value : Nat)

/-- Whether a character can belong to a number. -/
def isNumberChar (c : Char) : Bool :=
  c.isDigit || c == '-' || c == '+' || c == '.' || c == 'e' || c == 'E'

/-- What a character begins: white space nothing, punctuation a complete token, anything else a longer lexeme. -/
def start (c : Char) : Option (List Token × Lexeme) :=
  if c = ' ' ∨ c = '\t' ∨ c = '\n' ∨ c = '\r' then some ([], .nothing)
  else if c = '[' then some ([.beginArray], .nothing)
  else if c = ']' then some ([.endArray], .nothing)
  else if c = '\x7b' then some ([.beginObject], .nothing)
  else if c = '\x7d' then some ([.endObject], .nothing)
  else if c = ',' then some ([.comma], .nothing)
  else if c = ':' then some ([.colon], .nothing)
  else if c = '"' then some ([], .string .empty)
  else if c = '-' ∨ c.isDigit then some ([], .number [c])
  else if c.isLower then some ([], .word [c])
  else none

/-- Reads one character. -/
def Lexeme.step (lexeme : Lexeme) (c : Char) : Option (List Token × Lexeme) :=
  match lexeme with
  | .nothing => start c
  | .number chars =>
    if isNumberChar c then some ([], .number (c :: chars))
    else do
      let n ← Number.ofChars? chars.reverse
      let (tokens, next) ← start c
      return (.scalar (.number n) :: tokens, next)
  | .word chars =>
    if c.isLower then some ([], .word (c :: chars))
    else do
      let value ← word? chars.reverse
      let (tokens, next) ← start c
      return (.scalar value :: tokens, next)
  | .string s =>
    if c = '"' then some ([.scalar s.close], .nothing)
    else if c = '\\' then some ([], .escape s)
    else if c.toNat < 0x20 then none
    else some ([], .string (s.push c))
  | .escape s =>
    if c = 'u' then some ([], .unit s 0 0)
    else (escaped? c).map fun c => ([], .string (s.push c))
  | .unit s count value => do
    let digit ← Text.hexValue? c
    let value := value * 16 + digit
    if count = 3 then some ([], .string (s.pushUnit value))
    else some ([], .unit s (count + 1) value)

/-- Reads a byte that is no part of a character. -/
def Lexeme.stepStray : Lexeme → Option (List Token × Lexeme)
  | .string s => some ([], .string s.pushStray)
  | _ => none

/-- Reads a character, or a byte that is no part of one. -/
def Lexeme.read (lexeme : Lexeme) : Option Char → Option (List Token × Lexeme)
  | some c => lexeme.step c
  | none => lexeme.stepStray

/-- What is complete when the text ends. -/
def Lexeme.finish : Lexeme → Option (List Token)
  | .nothing => some []
  | .number chars => (Number.ofChars? chars.reverse).map fun n => [.scalar (.number n)]
  | .word chars => (word? chars.reverse).map fun value => [.scalar value]
  | _ => none

/-- The tokens of a text that follows what has been begun, put after those in `done` (last one first). -/
def scanFrom (lexeme : Lexeme) (done : List Token) : List (Option Char) → Option (List Token)
  | [] => lexeme.finish.map fun tokens => done.reverse ++ tokens
  | c :: cs =>
    match lexeme.read c with
    | none => none
    | some (tokens, next) => scanFrom next (tokens.reverse ++ done) cs

/-- The tokens of a text. -/
def Token.scan? (cs : List (Option Char)) : Option (List Token) := scanFrom .nothing [] cs

end ContentVault.Json
