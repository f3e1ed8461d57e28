import LinearCongruences.Hexadecimal

/-!
The small parts of a TOML document: blanks, comments, texts in quotes and the names of keys.
-/
namespace LinearCongruences.Toml

def isSpace (c : Char) : Bool := c == ' ' || c == '\t'

/-- Control characters other than the tab stand nowhere but at the end of a line. -/
def isControl (c : Char) : Bool := (c.toNat < 0x20 && c != '\t') || c.toNat == 0x7F

def skipSpaces (cs : List Char) : List Char := cs.dropWhile isSpace

def newline? : List Char → Option (List Char)
  | '\n' :: cs => some cs
  | '\r' :: '\n' :: cs => some cs
  | _ => none

def skipComment (cs : List Char) : List Char :=
  match skipSpaces cs with
  | '#' :: rest => rest.dropWhile fun c => !isControl c
  | rest => rest

/-- What follows the rest of a line that holds nothing more. -/
def endLine? (cs : List Char) : Option (List Char) :=
  match skipComment cs with
  | [] => some []
  | rest => newline? rest

def skipLines : Nat → List Char → List Char
  | 0, cs => cs
  | lines + 1, cs =>
    let rest := skipComment cs
    match newline? rest with
    | some after => skipLines lines after
    | none => rest

def unescape (c : Char) : Option Char :=
  match c with
  | 'b' => some '\x08'
  | 't' => some '\t'
  | 'n' => some '\n'
  | 'f' => some '\x0c'
  | 'r' => some '\r'
  | '"' => some '"'
  | '\\' => some '\\'
  | _ => none

def basic (done : List Char) : List Char → Option (String × List Char)
  | [] => none
  | '"' :: rest => some (String.ofList done.reverse, rest)
  | '\\' :: 'u' :: a :: b :: c :: d :: rest => do
    basic ((← Hexadecimal.char? (← Hexadecimal.unit? a b c d)) :: done) rest
  | '\\' :: 'U' :: a :: b :: c :: d :: e :: f :: g :: h :: rest => do
    let high ← Hexadecimal.unit? a b c d
    let low ← Hexadecimal.unit? e f g h
    basic ((← Hexadecimal.char? (high * 0x10000 + low)) :: done) rest
  | '\\' :: letter :: rest => do
    basic ((← unescape letter) :: done) rest
  | c :: rest => if isControl c then none else basic (c :: done) rest

def literal (done : List Char) : List Char → Option (String × List Char)
  | [] => none
  | '\x27' :: rest => some (String.ofList done.reverse, rest)
  | c :: rest => if isControl c then none else literal (c :: done) rest

/-- Text in three quotes of a kind, which may go over several lines. Up to two quotes may stand
before the closing ones. `joining` tells that a backslash has ended the line, so that blanks and
ends of lines are left out. -/
def long (quote : Char) (escapes joining : Bool) (done : List Char) :
    List Char → Option (String × List Char)
  | [] => none
  | '\r' :: '\n' :: rest =>
    long quote escapes joining (if joining then done else '\n' :: done) rest
  | c :: rest =>
    if joining && (isSpace c || c == '\n') then long quote escapes true done rest
    else if c == quote then
      match rest with
      | q₁ :: q₂ :: after =>
        if q₁ == quote && q₂ == quote then
          match after with
          | q₃ :: q₄ :: after' =>
            if q₃ == quote && q₄ == quote then
              some (String.ofList (quote :: quote :: done).reverse, after')
            else if q₃ == quote then some (String.ofList (quote :: done).reverse, q₄ :: after')
            else some (String.ofList done.reverse, after)
          | [q₃] =>
            if q₃ == quote then some (String.ofList (quote :: done).reverse, [])
            else some (String.ofList done.reverse, after)
          | [] => some (String.ofList done.reverse, after)
        else long quote escapes false (c :: done) rest
      | _ => none
    else if escapes && c == '\\' then
      match rest with
      | 'u' :: a :: b :: c :: d :: rest => do
        long quote escapes false ((← Hexadecimal.char? (← Hexadecimal.unit? a b c d)) :: done) rest
      | 'U' :: a :: b :: c :: d :: e :: f :: g :: h :: rest => do
        let high ← Hexadecimal.unit? a b c d
        let low ← Hexadecimal.unit? e f g h
        long quote escapes false ((← Hexadecimal.char? (high * 0x10000 + low)) :: done) rest
      | letter :: rest =>
        match unescape letter with
        | some c => long quote escapes false (c :: done) rest
        | none =>
          let ends := match (letter :: rest).dropWhile isSpace with
            | '\n' :: _ => true
            | '\r' :: '\n' :: _ => true
            | _ => false
          if ends then long quote escapes true done rest else none
      | [] => none
    else if c == '\n' then long quote escapes false (c :: done) rest
    else if isControl c then none
    else long quote escapes false (c :: done) rest

/-- An end of line right behind the opening quotes does not count. -/
def longText (quote : Char) (escapes : Bool) (cs : List Char) : Option (String × List Char) :=
  long quote escapes false [] ((newline? cs).getD cs)

def isBareKeyChar (c : Char) : Bool :=
  c.isAlphanum || c == '_' || c == '-'

def name? (cs : List Char) : Option (String × List Char) :=
  match cs with
  | '"' :: rest => basic [] rest
  | '\x27' :: rest => literal [] rest
  | _ =>
    let bare := cs.takeWhile isBareKeyChar
    if bare.isEmpty then none else some (String.ofList bare, cs.dropWhile isBareKeyChar)

def namesWithin? : Nat → List Char → Option (List String × List Char)
  | 0, _ => none
  | names + 1, cs => do
    let (name, rest) ← name? (skipSpaces cs)
    match skipSpaces rest with
    | '.' :: after => do
      let (others, rest) ← namesWithin? names after
      return (name :: others, rest)
    | rest => return ([name], rest)

/-- How many names a path may have, and how far containers may stand in each other. -/
def depthLimit : Nat := 79

def path? (cs : List Char) : Option (List String × List Char) := namesWithin? depthLimit cs

end LinearCongruences.Toml
