import Yew.Util.Text

/-!
# JSON texts

A reader of JSON texts that follows `serde_json` where a `Value` or a record is asked for: values
as trees in which an object keeps its members in order, repeated keys included, and a number its
spelling.  A string is decoded as it is read, so half of a surrogate pair alone is an error here;
where `serde_json` takes over a text unread, as the façade has it do, the reader is that of
`Yew.Util.RawValue`.

The reader is given fuel; the length of the text is always enough.
-/

namespace Yew

/-- A JSON value. -/
inductive Json where
  | null
  | bool (b : Bool)
  /-- A number, as it is spelled. -/
  | num (lexeme : List Char)
  | str (s : String)
  | arr (elements : List Json)
  /-- An object's members, in order. -/
  | obj (members : List (String × Json))

namespace Json

open Text

/-! ## Reading -/

/-- JSON's white space. -/
def isWs (c : Char) : Bool := c = ' ' || c = '\n' || c = '\t' || c = '\r'

/-- The text behind leading white space. -/
def ws (cs : List Char) : List Char := cs.dropWhile isWs

/-- The number four hexadecimal digits spell. -/
def hexNum4 (a b c d : Char) : Option Nat := do
  let a ← hexDigit? a
  let b ← hexDigit? b
  let c ← hexDigit? c
  let d ← hexDigit? d
  some (((a * 16 + b) * 16 + c) * 16 + d)

/-- Four hexadecimal digits. -/
def hex4 : List Char → Option (Nat × List Char)
  | a :: b :: c :: d :: cs => (hexNum4 a b c d).map (·, cs)
  | _ => none

/-- The second half of a surrogate pair whose first is `n`. -/
def lowSurrogate (n : Nat) : List Char → Option (Char × List Char)
  | '\\' :: 'u' :: cs => do
    let (m, cs) ← hex4 cs
    if 0xdc00 ≤ m ∧ m ≤ 0xdfff then
      some (Char.ofNat (0x10000 + (n - 0xd800) * 0x400 + (m - 0xdc00)), cs)
    else none
  | _ => none

/-- The character of a `\u` escape: a scalar value, or a surrogate pair. -/
def unicode (cs : List Char) : Option (Char × List Char) := do
  let (n, cs) ← hex4 cs
  if 0xd800 ≤ n ∧ n ≤ 0xdbff then lowSurrogate n cs
  else if 0xdc00 ≤ n ∧ n ≤ 0xdfff then none
  else some (Char.ofNat n, cs)

/-- The character of an escape, behind the backslash. -/
def escape : List Char → Option (Char × List Char)
  | 'u' :: cs => unicode cs
  | e :: cs =>
    if e = '\"' ∨ e = '\\' ∨ e = '/' then some (e, cs)
    else if e = 'b' then some (Char.ofNat 8, cs)
    else if e = 'f' then some (Char.ofNat 12, cs)
    else if e = 'n' then some ('\n', cs)
    else if e = 'r' then some ('\r', cs)
    else if e = 't' then some ('\t', cs)
    else none
  | [] => none

/-- A string, behind its opening quote. -/
def string : Nat → List Char → Option (List Char × List Char)
  | 0, _ => none
  | _ + 1, [] => none
  | n + 1, c :: cs =>
    if c = '\"' then some ([], cs)
    else if c = '\\' then do
      let (e, cs) ← escape cs
      let (s, cs) ← string n cs
      some (e :: s, cs)
    else if c.toNat < 0x20 then none
    else do
      let (s, cs) ← string n cs
      some (c :: s, cs)

/-- A decimal digit. -/
def isDigit (c : Char) : Bool := (decDigit? c).isSome

/-- A run of at least one digit. -/
def digits (cs : List Char) : Option (List Char × List Char) :=
  match cs.takeWhile isDigit with
  | [] => none
  | ds => some (ds, cs.dropWhile isDigit)

/-- The fraction of a number, if it has one. -/
def fraction : List Char → Option (List Char × List Char)
  | '.' :: cs => do
    let (ds, cs) ← digits cs
    some ('.' :: ds, cs)
  | cs => some ([], cs)

/-- The sign of an exponent. -/
def expSign : List Char → List Char × List Char
  | c :: cs => if c = '+' ∨ c = '-' then ([c], cs) else ([], c :: cs)
  | [] => ([], [])

/-- The exponent of a number, if it has one. -/
def exponent : List Char → Option (List Char × List Char)
  | c :: cs =>
    if c = 'e' ∨ c = 'E' then do
      let (ds, rest) ← digits (expSign cs).2
      some (c :: (expSign cs).1 ++ ds, rest)
    else some ([], c :: cs)
  | [] => some ([], [])

/-- A number without its sign: no zero stands before another digit. -/
def unsigned (cs : List Char) : Option (List Char × List Char) := do
  let (ds, cs) ← digits cs
  if ds.head? = some '0' ∧ ds.length ≠ 1 then none
  else
    let (fs, cs) ← fraction cs
    let (es, cs) ← exponent cs
    some (ds ++ fs ++ es, cs)

/-- One of the three words. -/
def word : List Char → Option (Json × List Char)
  | 't' :: 'r' :: 'u' :: 'e' :: cs => some (.bool true, cs)
  | 'f' :: 'a' :: 'l' :: 's' :: 'e' :: cs => some (.bool false, cs)
  | 'n' :: 'u' :: 'l' :: 'l' :: cs => some (.null, cs)
  | _ => none

/-- A value that is not a string, an array or an object. -/
def scalar : List Char → Option (Json × List Char)
  | [] => none
  | c :: cs =>
    if c = '-' then (unsigned cs).map fun x ↦ (.num ('-' :: x.1), x.2)
    else if isDigit c then (unsigned (c :: cs)).map fun x ↦ (.num x.1, x.2)
    else word (c :: cs)

mutual

/-- A value. -/
def value : Nat → List Char → Option (Json × List Char)
  | 0, _ => none
  | n + 1, cs =>
    match ws cs with
    | [] => none
    | c :: cs =>
      if c = '\x7b' then
        match ws cs with
        | [] => none
        | d :: ds =>
          if d = '\x7d' then some (.obj [], ds)
          else (members n cs).map fun x ↦ (.obj x.1, x.2)
      else if c = '[' then
        match ws cs with
        | [] => none
        | d :: ds =>
          if d = ']' then some (.arr [], ds)
          else (elements n cs).map fun x ↦ (.arr x.1, x.2)
      else if c = '\"' then (string n cs).map fun x ↦ (.str (String.ofList x.1), x.2)
      else scalar (c :: cs)

/-- The members of an object that has some, and its closing brace. -/
def members : Nat → List Char → Option (List (String × Json) × List Char)
  | 0, _ => none
  | n + 1, cs =>
    match ws cs with
    | [] => none
    | q :: cs =>
      if q = '\"' then do
        let (k, cs) ← string n cs
        match ws cs with
        | [] => none
        | c :: cs =>
          if c = ':' then do
            let (v, cs) ← value n cs
            match ws cs with
            | [] => none
            | d :: cs =>
              if d = '\x7d' then some ([(String.ofList k, v)], cs)
              else if d = ',' then (members n cs).map fun x ↦ ((String.ofList k, v) :: x.1, x.2)
              else none
          else none
      else none

/-- The elements of an array that has some, and its closing bracket. -/
def elements : Nat → List Char → Option (List Json × List Char)
  | 0, _ => none
  | n + 1, cs => do
    let (v, cs) ← value n cs
    match ws cs with
    | [] => none
    | d :: cs =>
      if d = ']' then some ([v], cs)
      else if d = ',' then (elements n cs).map fun x ↦ (v :: x.1, x.2)
      else none

end

/-- `serde_json::from_str`: one value, with white space around it. -/
def parse (cs : List Char) : Option Json := do
  let (v, rest) ← value (cs.length + 1) cs
  if (ws rest).isEmpty then some v else none

end Json

end Yew
