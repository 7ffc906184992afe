import Directives.Json
/-!
Reading JSON text. Every well-formed text is accepted; what it holds that no value stands for
becomes `Json.unreadable` at its place, so that it does no harm where nobody looks at it.
-/

namespace Directives.Json

/-- Blanks between the parts of a value. -/
def isBlank (c : Char) : Bool := c = ' ' || c = '\n' || c = '\t' || c = '\r'

def skipBlanks (cs : List Char) : List Char := cs.dropWhile isBlank

/-- The value of a hexadecimal digit. -/
def hexValue? (c : Char) : Option Nat :=
  if '0' ≤ c && c ≤ '9' then some (c.toNat - '0'.toNat)
  else if 'a' ≤ c && c ≤ 'f' then some (c.toNat - 'a'.toNat + 10)
  else if 'A' ≤ c && c ≤ 'F' then some (c.toNat - 'A'.toNat + 10)
  else none

/-- The value of four hexadecimal digits. -/
def hexValue4? (a b c d : Char) : Option Nat := do
  return (((← hexValue? a) * 16 + (← hexValue? b)) * 16 + (← hexValue? c)) * 16 + (← hexValue? d)

/-- The first half of a surrogate pair. -/
def isLeading (n : Nat) : Bool := 0xD800 ≤ n && n ≤ 0xDBFF

/-- The second half of a surrogate pair. -/
def isTrailing (n : Nat) : Bool := 0xDC00 ≤ n && n ≤ 0xDFFF

/-- The character of a surrogate pair. -/
def pairChar (leading trailing : Nat) : Char :=
  Char.ofNat (0x10000 + (leading - 0xD800) * 0x400 + (trailing - 0xDC00))

/-- The character of an escape of one letter. -/
def escaped? : Char → Option Char
  | '"' => some '"'
  | '\\' => some '\\'
  | '/' => some '/'
  | 'b' => some '\x08'
  | 'f' => some '\x0c'
  | 'n' => some '\n'
  | 'r' => some '\r'
  | 't' => some '\t'
  | _ => none

/-- What quoted text is made of: characters, and the numbers of long escapes, of which two may stand
for one character. -/
inductive TextPart where
  | char (c : Char)
  | code (n : Nat)

/-- Reads the parts of quoted text, and its closing quote. -/
def readParts : List Char → Option (List TextPart × List Char)
  | [] => none
  | '"' :: rest => some ([], rest)
  | '\\' :: 'u' :: a :: b :: c :: d :: rest =>
    match hexValue4? a b c d, readParts rest with
    | some n, some (parts, rest) => some (.code n :: parts, rest)
    | _, _ => none
  | '\\' :: c :: rest =>
    match escaped? c, readParts rest with
    | some e, some (parts, rest) => some (.char e :: parts, rest)
    | _, _ => none
  | c :: rest =>
    if c.toNat < 32 then none
    else (readParts rest).map fun (parts, rest) => (.char c :: parts, rest)

/-- The characters of the parts, unless half of a surrogate pair is among them. -/
def joinParts? : List TextPart → Option (List Char)
  | [] => some []
  | .char c :: rest => (joinParts? rest).map (c :: ·)
  | .code n :: .code m :: rest =>
    if isLeading n then
      if isTrailing m then (joinParts? rest).map (pairChar n m :: ·) else none
    else if isTrailing n then none
    else (joinParts? (.code m :: rest)).map (Char.ofNat n :: ·)
  | .code n :: rest =>
    if isLeading n || isTrailing n then none else (joinParts? rest).map (Char.ofNat n :: ·)

/-- Reads text up to its closing quote. -/
def readText (cs : List Char) : Option (Option String × List Char) :=
  (readParts cs).map fun (parts, rest) => ((joinParts? parts).map String.ofList, rest)

/-- Splits off a run of at least one digit. -/
def readDigits (cs : List Char) : Option (List Char × List Char) :=
  match cs.takeWhile Char.isDigit with
  | [] => none
  | digits => some (digits, cs.dropWhile Char.isDigit)

/-- Passes over a fraction, if there is one; says whether there was. -/
def skipFraction : List Char → Option (Bool × List Char)
  | '.' :: cs => (readDigits cs).map fun r => (true, r.2)
  | cs => some (false, cs)

/-- Passes over an exponent, if there is one; says whether there was. -/
def skipExponent : List Char → Option (Bool × List Char)
  | c :: cs =>
    if c = 'e' || c = 'E' then
      match cs with
      | '+' :: cs | '-' :: cs => (readDigits cs).map fun r => (true, r.2)
      | cs => (readDigits cs).map fun r => (true, r.2)
    else some (false, c :: cs)
  | [] => some (false, [])

/-- Reads a number without its sign. A leading zero stands alone. -/
def readNumber (negative : Bool) (cs : List Char) : Option (Json × List Char) := do
  let (digits, rest) ← readDigits cs
  if digits.head? = some '0' && digits.length ≠ 1 then none
  else
    let (fraction, rest) ← skipFraction rest
    let (exponent, rest) ← skipExponent rest
    let n := Nat.ofDigitChars 10 digits 0
    let j :=
      if fraction || exponent then .unreadable
      else if negative then (if n = 0 then .negZero else .int (-n))
      else .int n
    return (j, rest)

/-- The object with the members, where every name is readable. -/
def objectOf (members : List (Option String × Json)) : Json :=
  match members.mapM fun m => m.1.map (·, m.2) with
  | some members => .obj members
  | none => .unreadable

mutual

/-- Reads a value, with at most `depth` arrays and objects inside each other. Each call takes one
unit of `fuel`; every second call takes a character. -/
def readValue : (fuel depth : Nat) → List Char → Option (Json × List Char)
  | 0, _, _ => none
  | fuel + 1, depth, cs =>
    match skipBlanks cs with
    | 'n' :: 'u' :: 'l' :: 'l' :: rest => some (.null, rest)
    | 't' :: 'r' :: 'u' :: 'e' :: rest => some (.bool true, rest)
    | 'f' :: 'a' :: 'l' :: 's' :: 'e' :: rest => some (.bool false, rest)
    | '"' :: rest =>
      (readText rest).map fun (s, rest) => (s.elim .unreadable .str, rest)
    | '-' :: rest => readNumber true rest
    | '[' :: rest =>
      match skipBlanks rest with
      | ']' :: rest => some (if depth = 0 then .unreadable else .arr [], rest)
      | rest =>
        (readItems fuel (depth - 1) rest).map fun (items, rest) =>
          (if depth = 0 then .unreadable else .arr items, rest)
    | '\x7b' :: rest =>
      match skipBlanks rest with
      | '\x7d' :: rest => some (if depth = 0 then .unreadable else .obj [], rest)
      | rest =>
        (readMembers fuel (depth - 1) rest).map fun (members, rest) =>
          (if depth = 0 then .unreadable else objectOf members, rest)
    | rest => readNumber false rest

/-- Reads the items of an array, of which there is one at least, and its end. -/
def readItems : (fuel depth : Nat) → List Char → Option (List Json × List Char)
  | 0, _, _ => none
  | fuel + 1, depth, cs =>
    match readValue fuel depth cs with
    | none => none
    | some (j, rest) =>
      match skipBlanks rest with
      | ',' :: rest => (readItems fuel depth rest).map fun (items, rest) => (j :: items, rest)
      | ']' :: rest => some ([j], rest)
      | _ => none

/-- Reads the members of an object, of which there is one at least, and its end. -/
def readMembers : (fuel depth : Nat) → List Char → Option (List (Option String × Json) × List Char)
  | 0, _, _ => none
  | fuel + 1, depth, cs =>
    match skipBlanks cs with
    | '"' :: rest =>
      match readText rest with
      | none => none
      | some (name, rest) =>
        match skipBlanks rest with
        | ':' :: rest =>
          match readValue fuel depth rest with
          | none => none
          | some (j, rest) =>
            match skipBlanks rest with
            | ',' :: rest =>
              (readMembers fuel depth rest).map fun (members, rest) => ((name, j) :: members, rest)
            | '\x7d' :: rest => some ([(name, j)], rest)
            | _ => none
        | _ => none
    | _ => none

end

/-- How many arrays and objects may stand inside each other in a text that holds a program, a report
or options. -/
def textDepth : Nat := 127

/-- The value of a text, with at most `depth` arrays and objects inside each other. -/
def parse? (depth : Nat) (s : String) : Option Json :=
  let cs := s.toList
  match readValue (2 * cs.length + 2) depth cs with
  | some (j, rest) => if (skipBlanks rest).isEmpty then some j else none
  | none => none

end Directives.Json
