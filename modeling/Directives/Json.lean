/-!
JSON values and their text. A value is printed on one line, or over several lines with an indent of
two blanks.
-/

namespace Directives

/-- A JSON value. Objects keep their members in order, repeated names included. -/
inductive Json where
  | null
  | bool (b : Bool)
  | int (v : Int)
  /-- The number written `-0`. -/
  | negZero
  | str (s : String)
  | arr (items : List Json)
  | obj (members : List (String × Json))
  /-- A value that is well formed and stands for nothing that can be read: a number with a fraction
  or an exponent, text with half of a surrogate pair, values nested too deeply. -/
  | unreadable
  deriving Inhabited

namespace Json

/-- A hexadecimal digit, in lower case. -/
def hexDigit (n : Nat) : Char := Nat.digitChar n

/-- A character inside quotes: quotes, backslashes and control characters are escaped. -/
def escape (c : Char) : List Char :=
  match c with
  | '"' => ['\\', '"']
  | '\\' => ['\\', '\\']
  | '\n' => ['\\', 'n']
  | '\r' => ['\\', 'r']
  | '\t' => ['\\', 't']
  | '\x08' => ['\\', 'b']
  | '\x0c' => ['\\', 'f']
  | c =>
    if c.toNat < 32 then ['\\', 'u', '0', '0', hexDigit (c.toNat / 16), hexDigit (c.toNat % 16)]
    else [c]

/-- Text in quotes. -/
def quoted (s : String) : List Char :=
  '"' :: (s.toList.flatMap escape ++ ['"'])

/-- The decimal digits of an integer, after its sign. -/
def decimal : Int → List Char
  | .ofNat n => Nat.toDigits 10 n
  | .negSucc n => '-' :: Nat.toDigits 10 (n + 1)

/-- Whether a value is spread over several lines. -/
inductive Layout where
  | compact
  | pretty
  deriving DecidableEq, Repr, Inhabited

/-- What separates the parts of a value at an indent. -/
def Layout.break (layout : Layout) (indent : Nat) : List Char :=
  match layout with
  | .compact => []
  | .pretty => '\n' :: List.replicate (2 * indent) ' '

/-- What stands between the name of a member and its value. -/
def Layout.colon : Layout → List Char
  | .compact => [':']
  | .pretty => [':', ' ']

mutual

/-- The text of a value at an indent. -/
def chars (layout : Layout) (indent : Nat) : Json → List Char
  | .null | .unreadable => ['n', 'u', 'l', 'l']
  | .bool true => ['t', 'r', 'u', 'e']
  | .bool false => ['f', 'a', 'l', 's', 'e']
  | .int v => decimal v
  | .negZero => ['-', '0']
  | .str s => quoted s
  | .arr items => '[' :: itemChars layout indent true items
  | .obj members => '\x7b' :: memberChars layout indent true members

/-- The text of the items of an array up to its end; `first` says that none was printed yet. -/
def itemChars (layout : Layout) (indent : Nat) (first : Bool) : List Json → List Char
  | [] => (if first then [] else layout.break indent) ++ [']']
  | j :: rest =>
    (if first then [] else [',']) ++ layout.break (indent + 1) ++ chars layout (indent + 1) j
      ++ itemChars layout indent false rest

/-- The text of the members of an object up to its end; `first` says that none was printed yet. -/
def memberChars (layout : Layout) (indent : Nat) (first : Bool) :
    List (String × Json) → List Char
  | [] => (if first then [] else layout.break indent) ++ ['\x7d']
  | (name, j) :: rest =>
    (if first then [] else [',']) ++ layout.break (indent + 1) ++ quoted name ++ layout.colon
      ++ chars layout (indent + 1) j ++ memberChars layout indent false rest

end

/-- The text of a value. -/
def text (layout : Layout) (j : Json) : String := String.ofList (j.chars layout 0)

/-- The text of a value on one line. -/
def compactText (j : Json) : String := j.text .compact

/-- The text of a value over several lines. -/
def prettyText (j : Json) : String := j.text .pretty

mutual

/-- How deeply arrays and objects stand inside each other. -/
def height : Json → Nat
  | .arr items => itemsHeight items + 1
  | .obj members => membersHeight members + 1
  | _ => 0

/-- The height of the highest item. -/
def itemsHeight : List Json → Nat
  | [] => 0
  | j :: rest => max j.height (itemsHeight rest)

/-- The height of the highest member. -/
def membersHeight : List (String × Json) → Nat
  | [] => 0
  | (_, j) :: rest => max j.height (membersHeight rest)

end

end Json

end Directives
