import LinearCongruences.Hexadecimal
import LinearCongruences.Json.Value

/-!
Quoted text. Control characters, the quote and the backslash are escaped, all other characters
stand for themselves. A reader also takes any character by its code, one above the basic plane as
a pair of surrogates.
-/
namespace LinearCongruences.Json.Text

def escapeLetter (c : Char) : Option Char :=
  match c with
  | '"' => some '"'
  | '\\' => some '\\'
  | '\x08' => some 'b'
  | '\x0c' => some 'f'
  | '\n' => some 'n'
  | '\r' => some 'r'
  | '\t' => some 't'
  | _ => none

def escape (c : Char) : List Char :=
  match escapeLetter c with
  | some letter => ['\\', letter]
  | none =>
    if c.toNat < 0x20 then
      ['\\', 'u', '0', '0', Hexadecimal.digit (c.toNat / 16), Hexadecimal.digit (c.toNat % 16)]
    else [c]

def write (s : String) : List Char :=
  '"' :: s.toList.flatMap escape ++ ['"']

/-- The character that a letter after a backslash stands for. A slash may be escaped as well. -/
def unescape (letter : Char) : Option Char :=
  match letter with
  | '"' => some '"'
  | '\\' => some '\\'
  | '/' => some '/'
  | 'b' => some '\x08'
  | 'f' => some '\x0c'
  | 'n' => some '\n'
  | 'r' => some '\r'
  | 't' => some '\t'
  | _ => none

def isHighSurrogate (unit : Nat) : Bool := 0xD800 ≤ unit && unit ≤ 0xDBFF

def isLowSurrogate (unit : Nat) : Bool := 0xDC00 ≤ unit && unit ≤ 0xDFFF

def joinSurrogates (high low : Nat) : Char :=
  Char.ofNat ((high - 0xD800) * 0x400 + (low - 0xDC00) + 0x10000)

/-- Why no code could be read: four bytes were needed, or the text ends before. -/
def shortCode (rest : List Char) : Problem :=
  if (String.ofList rest).utf8ByteSize < 4 then .endOfText else .illFormed

def missingSurrogate : List Char → Problem
  | [] => .endOfText
  | ['\\'] => .endOfText
  | '\\' :: 'u' :: rest => shortCode rest
  | _ => .illFormed

/-- Reads up to the closing quote. The characters read so far come last first. -/
def read (done : List Char) : List Char → Except Problem (String × List Char)
  | [] => .error .endOfText
  | '"' :: rest => .ok (String.ofList done.reverse, rest)
  | '\\' :: 'u' :: a :: b :: c :: d :: rest =>
    match Hexadecimal.unit? a b c d with
    | none => .error .illFormed
    | some unit =>
      if isLowSurrogate unit then .error .illFormed
      else if isHighSurrogate unit then
        match rest with
        | '\\' :: 'u' :: a :: b :: c :: d :: rest =>
          match Hexadecimal.unit? a b c d with
          | none => .error .illFormed
          | some low =>
            if isLowSurrogate low then read (joinSurrogates unit low :: done) rest
            else .error .illFormed
        | rest => .error (missingSurrogate rest)
      else read (Char.ofNat unit :: done) rest
  | '\\' :: 'u' :: rest => .error (shortCode rest)
  | ['\\'] => .error .endOfText
  | '\\' :: letter :: rest =>
    match unescape letter with
    | some c => read (c :: done) rest
    | none => .error .illFormed
  | c :: rest => if c.toNat < 0x20 then .error .illFormed else read (c :: done) rest

theorem length_read_le (done cs : List Char) (s : String) (rest : List Char)
    (h : read done cs = .ok (s, rest)) : rest.length < cs.length := by
  fun_induction read done cs <;> simp_all <;> omega

end LinearCongruences.Json.Text
