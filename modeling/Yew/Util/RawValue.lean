import Yew.Util.Json

/-!
# Raw values

`serde_json` takes over a `RawValue` unread: it checks the grammar and keeps the text.  What is kept
here is the tree of that text, with every string and every number as it is spelled.  So a string is
not decoded when it is passed over: an escape only needs its four digits, and half of a surrogate
pair alone is let through.  It is refused where the string is read (`Raw.text`).

The text of a request is a list of bytes.  The grammar looks at single bytes only, so a byte is taken
as the character of its code, and the readers of numbers and of blanks are those of JSON texts.
That a raw value is UTF-8 is a check of its own (`Raw.isUtf8`): a value that is skipped, such as that
of a field nobody asks for, is not held to it.
-/

namespace Yew

/-- A `RawValue`. -/
inductive Raw where
  | null
  | bool (b : Bool)
  /-- A number, as it is spelled. -/
  | num (lexeme : List Char)
  /-- A string, as it is spelled between its quotes. -/
  | str (spelling : Bytes)
  | arr (elements : List Raw)
  /-- An object's members, in order. -/
  | obj (members : List (Bytes × Raw))

namespace Raw

open Text Json

/-! ## Reading -/

/-- Bytes as characters, and back. -/
def chars (b : Bytes) : List Char := b.map fun c ↦ Char.ofNat c.toNat

@[inherit_doc chars]
def bytes (cs : List Char) : Bytes := cs.map fun c ↦ UInt8.ofNat c.toNat

/-- `ignore_escape`, behind the backslash: what it passes over, and the rest. -/
def ignoreEscape : List Char → Option (List Char × List Char)
  | 'u' :: a :: b :: c :: d :: cs => (hexNum4 a b c d).map fun _ ↦ (['u', a, b, c, d], cs)
  | e :: cs =>
    if e ∈ ['\"', '\\', '/', 'b', 'f', 'n', 'r', 't'] then some ([e], cs) else none
  | [] => none

/-- `ignore_str`, behind the opening quote: what it passes over, and the rest. -/
def ignoreStr : Nat → List Char → Option (List Char × List Char)
  | 0, _ => none
  | _ + 1, [] => none
  | n + 1, c :: cs =>
    if c = '\"' then some ([], cs)
    else if c = '\\' then do
      let (e, cs) ← ignoreEscape cs
      let (s, cs) ← ignoreStr n cs
      some ('\\' :: e ++ s, cs)
    else if c.toNat < 0x20 then none
    else do
      let (s, cs) ← ignoreStr n cs
      some (c :: s, cs)

/-- One of the three words. -/
def word : List Char → Option (Raw × List Char)
  | 't' :: 'r' :: 'u' :: 'e' :: cs => some (.bool true, cs)
  | 'f' :: 'a' :: 'l' :: 's' :: 'e' :: cs => some (.bool false, cs)
  | 'n' :: 'u' :: 'l' :: 'l' :: cs => some (.null, cs)
  | _ => none

/-- A value that is not a string, an array or an object. -/
def scalar : List Char → Option (Raw × List Char)
  | [] => none
  | c :: cs =>
    if c = '-' then (unsigned cs).map fun x ↦ (.num ('-' :: x.1), x.2)
    else if isDigit c then (unsigned (c :: cs)).map fun x ↦ (.num x.1, x.2)
    else word (c :: cs)

mutual

/-- `ignore_value`. -/
def value : Nat → List Char → Option (Raw × List Char)
  | 0, _ => none
  | n + 1, cs =>
    match ws cs with
    | [] => none
    | c :: cs =>
      if c = '\x7b' then
        match ws cs with
        | [] => none
        | d :: ds =>
          if d = '\x7d' then some (.obj [], ds)
          else (members n cs).map fun x ↦ (.obj x.1, x.2)
      else if c = '[' then
        match ws cs with
        | [] => none
        | d :: ds =>
          if d = ']' then some (.arr [], ds)
          else (elements n cs).map fun x ↦ (.arr x.1, x.2)
      else if c = '\"' then (ignoreStr n cs).map fun x ↦ (.str (bytes x.1), x.2)
      else scalar (c :: cs)

/-- The members of an object that has some, and its closing brace. -/
def members : Nat → List Char → Option (List (Bytes × Raw) × List Char)
  | 0, _ => none
  | n + 1, cs =>
    match ws cs with
    | [] => none
    | q :: cs =>
      if q = '\"' then do
        let (k, cs) ← ignoreStr n cs
        match ws cs with
        | [] => none
        | c :: cs =>
          if c = ':' then do
            let (v, cs) ← value n cs
            match ws cs with
            | [] => none
            | d :: cs =>
              if d = '\x7d' then some ([(bytes k, v)], cs)
              else if d = ',' then (members n cs).map fun x ↦ ((bytes k, v) :: x.1, x.2)
              else none
          else none
      else none

/-- The elements of an array that has some, and its closing bracket. -/
def elements : Nat → List Char → Option (List Raw × List Char)
  | 0, _ => none
  | n + 1, cs => do
    let (v, cs) ← value n cs
    match ws cs with
    | [] => none
    | d :: cs =>
      if d = ']' then some ([v], cs)
      else if d = ',' then (elements n cs).map fun x ↦ (v :: x.1, x.2)
      else none

end

/-- The one value of a text, with white space around it.  The length of the text is fuel enough: a level
of nesting takes two steps of it and has two brackets. -/
def parse (b : Bytes) : Option Raw := do
  let (v, rest) ← value (b.length + 1) (chars b)
  if (ws rest).isEmpty then some v else none

/-! ## Strings -/

/-- A string that is read: UTF-8, and every escape stands for a character. -/
def text (spelling : Bytes) : Option String := do
  let cs ← fromUtf8 spelling
  let (s, rest) ← string (cs.length + 1) (cs ++ ['\"'])
  if rest.isEmpty then some (String.ofList s) else none

/-- `from_str::<String>`. -/
def str? : Raw → Option String
  | .str s => text s
  | _ => none

/-- The spelling of a string that needs no escape. -/
def plain (s : String) : Bytes := utf8 s.toList

mutual

/-- Whether the text of a value is UTF-8. -/
def isUtf8 : Raw → Bool
  | .str s => (fromUtf8 s).isSome
  | .arr vs => areUtf8 vs
  | .obj ms => membersUtf8 ms
  | _ => true

@[inherit_doc isUtf8]
def areUtf8 : List Raw → Bool
  | [] => true
  | v :: vs => isUtf8 v && areUtf8 vs

@[inherit_doc isUtf8]
def membersUtf8 : List (Bytes × Raw) → Bool
  | [] => true
  | m :: ms => memberUtf8 m && membersUtf8 ms

@[inherit_doc isUtf8]
def memberUtf8 : Bytes × Raw → Bool
  | (k, v) => (fromUtf8 k).isSome && isUtf8 v

end

/-- The values an object has under a key. -/
def lookup (ms : List (Bytes × Raw)) (k : String) : List Raw :=
  (ms.filter fun m ↦ text m.1 = some k).map Prod.snd

/-- A character that stands for itself in a string. -/
def IsPlain (c : Char) : Prop := c ≠ '\"' ∧ c ≠ '\\' ∧ 0x20 ≤ c.toNat

instance : DecidablePred IsPlain := fun _ ↦ inferInstanceAs (Decidable (_ ∧ _ ∧ _))

theorem string_plain {n : Nat} {cs : List Char} (h : ∀ c ∈ cs, IsPlain c) (hn : cs.length < n) :
    string n (cs ++ ['\"']) = some (cs, []) := by
  induction cs generalizing n with
  | nil =>
    obtain ⟨n, rfl⟩ : ∃ k, n = k + 1 := ⟨n - 1, by omega⟩
    rfl
  | cons c cs ih =>
    obtain ⟨n, rfl⟩ : ∃ k, n = k + 1 := ⟨n - 1, by omega⟩
    obtain ⟨hquote, hslash, hctl⟩ := h c List.mem_cons_self
    have hrest := ih (fun d hd ↦ h d (List.mem_cons_of_mem _ hd)) (Nat.lt_of_succ_lt_succ hn)
    rw [List.cons_append, string, if_neg hquote, if_neg hslash, if_neg (by omega), hrest]
    rfl

theorem text_plain {s : String} (h : s.toList.all fun c ↦ IsPlain c) : text (plain s) = some s := by
  have hplain : ∀ c ∈ s.toList, IsPlain c := by simpa using h
  rw [text, plain, fromUtf8_utf8, Option.bind_eq_bind, Option.bind_some,
    string_plain hplain (Nat.lt_succ_self _), Option.bind_eq_bind, Option.bind_some]
  exact congrArg some String.ofList_toList

/-! ## An array begins with a bracket -/

theorem scalar_ne_arr {cs rest : List Char} {vs : List Raw} : scalar cs ≠ some (.arr vs, rest) := by
  intro h
  unfold scalar at h
  split at h
  · cases h
  · split at h
    · obtain ⟨x, _, hx⟩ := Option.map_eq_some_iff.mp h
      cases hx
    · split at h
      · obtain ⟨x, _, hx⟩ := Option.map_eq_some_iff.mp h
        cases hx
      · unfold word at h
        split at h <;> cases h

theorem ws_of_parse {b : Bytes} {vs : List Raw} (h : parse b = some (.arr vs)) :
    ∃ cs, ws (chars b) = '[' :: cs := by
  obtain ⟨⟨v, rest⟩, hv, h⟩ := Option.bind_eq_some_iff.mp h
  dsimp only at h
  split at h
  · cases h
    rw [value] at hv
    split at hv
    · cases hv
    · rename_i c cs hcs
      split at hv
      · split at hv
        · cases hv
        · split at hv
          · cases hv
          · obtain ⟨x, _, hx⟩ := Option.map_eq_some_iff.mp hv
            cases hx
      · split at hv
        · rename_i hc
          exact ⟨cs, by rw [hcs, hc]⟩
        · split at hv
          · obtain ⟨x, _, hx⟩ := Option.map_eq_some_iff.mp hv
            cases hx
          · exact absurd hv scalar_ne_arr
  · cases h

end Raw

end Yew
