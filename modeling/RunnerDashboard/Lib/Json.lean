import Mathlib.Data.Int.Notation
import Mathlib.Data.List.Basic
import Mathlib.Tactic.IntervalCases

/-!
# JSON texts

The values of the `json` module of a Python program, the text `json.dumps` writes
for them and the reader `json.loads`.  Strings are written with `ensure_ascii`, so
a text is plain ASCII: every other character becomes a `\u` escape, and one above
the basic plane a surrogate pair.  Numbers are integers; a text with a fraction or
an exponent, or with a surrogate outside a pair, is not read.

## Main definitions

* `Json` — values; an object is the list of its fields in order.
* `Json.dumps`, `Json.dumpsCompact` — the text with `", "`, `": "` and with
  `","`, `":"` as separators.
* `Json.renderUnicode` — the compact text without `ensure_ascii`.
* `Json.sortKeys` — the effect of `sort_keys` on a value.
* `Json.loads` — the reader.
* `Json.field?`, `Json.replaceField` — a field of an object, and the fields with another value of
  it.
* `Json.Distinct` — the values without an object that has a key twice.

## Main results

* `Json.loads_dumps`, `Json.loads_dumpsCompact` — what was written reads back.
* `Json.render_obj_append_inj` — where the text of an object ends.
* `Json.field?_sortKeys` — the fields of an object whose keys were sorted.
* `Json.printable_render`, `Json.newline_not_mem_render` — a text is printable, and one line.
-/

inductive Json where
  | null
  | bool (b : Bool)
  | num (n : Int)
  | str (s : String)
  | arr (items : List Json)
  | obj (fields : List (String × Json))
  deriving Repr, Inhabited

namespace Json

/-! ### Characters -/

def quote : Char := Char.ofNat 34

def backslash : Char := Char.ofNat 92

/-- Four lower-case hexadecimal digits. -/
def hex4 (n : ℕ) : List Char :=
  [(n / 4096 % 16).digitChar, (n / 256 % 16).digitChar, (n / 16 % 16).digitChar,
    (n % 16).digitChar]

/-- The `\u` escape of a code unit. -/
def escapeUnit (n : ℕ) : List Char := backslash :: 'u' :: hex4 n

/-- One character as `json.dumps` writes it inside a string. -/
def escapeChar (c : Char) : List Char :=
  if c = quote then [backslash, quote]
  else if c = backslash then [backslash, backslash]
  else if c = Char.ofNat 8 then [backslash, 'b']
  else if c = Char.ofNat 12 then [backslash, 'f']
  else if c = '\n' then [backslash, 'n']
  else if c = '\r' then [backslash, 'r']
  else if c = '\t' then [backslash, 't']
  else if 32 ≤ c.toNat ∧ c.toNat ≤ 126 then [c]
  else if c.toNat < 65536 then escapeUnit c.toNat
  else escapeUnit (0xD800 + (c.toNat - 65536) / 1024) ++
    escapeUnit (0xDC00 + (c.toNat - 65536) % 1024)

def renderString (s : String) : List Char :=
  quote :: (s.toList.flatMap escapeChar ++ [quote])

/-- The decimal text of an integer. -/
def renderInt : Int → List Char
  | .ofNat n => Nat.toDigits 10 n
  | .negSucc n => '-' :: Nat.toDigits 10 (n + 1)

/-- `str(n)`. -/
def intText (n : Int) : String := String.ofList (renderInt n)

/-! ### Writing -/

/-- A separator, followed by a blank when the text is spaced. -/
def sep (spaced : Bool) (c : Char) : List Char := if spaced then [c, ' '] else [c]

mutual

/-- The text of a value. -/
def render (spaced : Bool) : Json → List Char
  | .null => ['n', 'u', 'l', 'l']
  | .bool true => ['t', 'r', 'u', 'e']
  | .bool false => ['f', 'a', 'l', 's', 'e']
  | .num n => renderInt n
  | .str s => renderString s
  | .arr [] => ['[', ']']
  | .arr (v :: vs) => '[' :: (v.render spaced ++ renderItems spaced vs)
  | .obj [] => ['{', '}']
  | .obj ((k, v) :: fs) =>
    '{' :: (renderString k ++ sep spaced ':' ++ (v.render spaced ++ renderFields spaced fs))

/-- The rest of an array after an item, with the closing bracket. -/
def renderItems (spaced : Bool) : List Json → List Char
  | [] => [']']
  | v :: vs => sep spaced ',' ++ (v.render spaced ++ renderItems spaced vs)

/-- The rest of an object after a field, with the closing brace. -/
def renderFields (spaced : Bool) : List (String × Json) → List Char
  | [] => ['}']
  | (k, v) :: fs =>
    sep spaced ',' ++
      (renderString k ++ sep spaced ':' ++ (v.render spaced ++ renderFields spaced fs))

end

/-- `json.dumps(v)`. -/
def dumps (v : Json) : String := String.ofList (v.render true)

/-- `json.dumps(v, separators=(",", ":"))`. -/
def dumpsCompact (v : Json) : String := String.ofList (v.render false)

/-- One character as `json.dumps` writes it with `ensure_ascii=False`. -/
def unicodeChar (c : Char) : List Char := if 126 < c.toNat then [c] else escapeChar c

/-- A string literal with these characters. -/
def renderUnicodeString (s : String) : List Char :=
  quote :: (s.toList.flatMap unicodeChar ++ [quote])

mutual

/-- `json.dumps(v, separators=(",", ":"), ensure_ascii=False)`. -/
def renderUnicode : Json → List Char
  | .str s => renderUnicodeString s
  | .arr [] => ['[', ']']
  | .arr (v :: vs) => '[' :: (v.renderUnicode ++ renderUnicodeItems vs)
  | .obj [] => ['{', '}']
  | .obj ((k, v) :: fs) =>
    '{' :: (renderUnicodeString k ++ ':' :: (v.renderUnicode ++ renderUnicodeFields fs))
  | v => v.render false

/-- The rest of an array after an item, with the closing bracket. -/
def renderUnicodeItems : List Json → List Char
  | [] => [']']
  | v :: vs => ',' :: (v.renderUnicode ++ renderUnicodeItems vs)

/-- The rest of an object after a field, with the closing brace. -/
def renderUnicodeFields : List (String × Json) → List Char
  | [] => ['}']
  | (k, v) :: fs =>
    ',' :: (renderUnicodeString k ++ ':' :: (v.renderUnicode ++ renderUnicodeFields fs))

end

mutual

/-- `sort_keys=True`: the fields of every object in the order of their keys. -/
def sortKeys : Json → Json
  | .arr vs => .arr (sortKeysItems vs)
  | .obj fs => .obj ((sortKeysFields fs).mergeSort fun a b => a.1 ≤ b.1)
  | v => v

/-- `sortKeys` on the items of an array. -/
def sortKeysItems : List Json → List Json
  | [] => []
  | v :: vs => v.sortKeys :: sortKeysItems vs

/-- `sortKeys` on the values of an object's fields. -/
def sortKeysFields : List (String × Json) → List (String × Json)
  | [] => []
  | (k, v) :: fs => (k, v.sortKeys) :: sortKeysFields fs

end

/-! ### Reading -/

def skipWs : List Char → List Char
  | [] => []
  | c :: cs => if c = ' ' ∨ c = '\t' ∨ c = '\n' ∨ c = '\r' then skipWs cs else c :: cs

/-- The value of a hexadecimal digit. -/
def hexVal (c : Char) : Option ℕ :=
  if '0' ≤ c ∧ c ≤ '9' then some (c.toNat - 48)
  else if 'a' ≤ c ∧ c ≤ 'f' then some (c.toNat - 87)
  else if 'A' ≤ c ∧ c ≤ 'F' then some (c.toNat - 55)
  else none

/-- Read four hexadecimal digits. -/
def parseHex4 : List Char → Option (ℕ × List Char)
  | a :: b :: c :: d :: cs => do
    let a ← hexVal a
    let b ← hexVal b
    let c ← hexVal c
    let d ← hexVal d
    some (((a * 16 + b) * 16 + c) * 16 + d, cs)
  | _ => none

/-- Read what follows `\u`: one code unit, or both of a surrogate pair. -/
def parseUnicode (cs : List Char) : Option (Char × List Char) := do
  let (u, cs) ← parseHex4 cs
  if u < 0xD800 ∨ 0xDFFF < u then some (Char.ofNat u, cs)
  else match cs with
    | b :: e :: cs =>
      if u < 0xDC00 ∧ b = backslash ∧ e = 'u' then do
        let (l, cs) ← parseHex4 cs
        if 0xDC00 ≤ l ∧ l ≤ 0xDFFF then
          some (Char.ofNat (65536 + (u - 0xD800) * 1024 + (l - 0xDC00)), cs)
        else none
      else none
    | _ => none

/-- Read what follows a backslash. -/
def parseEscape : List Char → Option (Char × List Char)
  | [] => none
  | e :: cs =>
    if e = quote ∨ e = backslash ∨ e = '/' then some (e, cs)
    else if e = 'b' then some (Char.ofNat 8, cs)
    else if e = 'f' then some (Char.ofNat 12, cs)
    else if e = 'n' then some ('\n', cs)
    else if e = 'r' then some ('\r', cs)
    else if e = 't' then some ('\t', cs)
    else if e = 'u' then parseUnicode cs
    else none

/-- Read the characters of a string up to its closing quote, at most `fuel` of them. -/
def parseChars : ℕ → List Char → Option (List Char × List Char)
  | 0, _ => none
  | _ + 1, [] => none
  | fuel + 1, c :: cs =>
    if c = quote then some ([], cs)
    else if c = backslash then do
      let (d, cs) ← parseEscape cs
      let (ds, cs) ← parseChars fuel cs
      some (d :: ds, cs)
    else if c.toNat < 32 then none
    else do
      let (ds, cs) ← parseChars fuel cs
      some (c :: ds, cs)

/-- Read a string, after its opening quote. -/
def parseString (cs : List Char) : Option (String × List Char) :=
  (parseChars (cs.length + 1) cs).map fun p => (String.ofList p.1, p.2)

/-- Read the digits of a number without leading zeros, fraction or exponent. -/
def parseNat (cs : List Char) : Option (ℕ × List Char) :=
  let ds := cs.takeWhile Char.isDigit
  let rest := cs.dropWhile Char.isDigit
  let n := Nat.ofDigitChars 10 ds 0
  if ds ≠ Nat.toDigits 10 n ∨ rest.head? = some '.' ∨ rest.head? = some 'e' ∨
    rest.head? = some 'E' then none
  else some (n, rest)

/-- Read an integer. -/
def parseInt : List Char → Option (Int × List Char)
  | '-' :: cs => (parseNat cs).map fun p => (-(p.1 : Int), p.2)
  | cs => (parseNat cs).map fun p => ((p.1 : Int), p.2)

mutual

def parseValue : ℕ → List Char → Option (Json × List Char)
  | 0, _ => none
  | fuel + 1, cs =>
    match skipWs cs with
    | [] => none
    | c :: cs =>
      if c = quote then (parseString cs).map fun p => (.str p.1, p.2)
      else if c = '[' then
        match skipWs cs with
        | ']' :: rest => some (.arr [], rest)
        | _ => (parseItems fuel cs).map fun p => (.arr p.1, p.2)
      else if c = '{' then
        match skipWs cs with
        | '}' :: rest => some (.obj [], rest)
        | _ => (parseFields fuel cs).map fun p => (.obj p.1, p.2)
      else if ['u', 'l', 'l'].isPrefixOf cs ∧ c = 'n' then some (.null, cs.drop 3)
      else if ['r', 'u', 'e'].isPrefixOf cs ∧ c = 't' then some (.bool true, cs.drop 3)
      else if ['a', 'l', 's', 'e'].isPrefixOf cs ∧ c = 'f' then some (.bool false, cs.drop 4)
      else (parseInt (c :: cs)).map fun p => (.num p.1, p.2)

/-- Read the items of an array up to its closing bracket. -/
def parseItems : ℕ → List Char → Option (List Json × List Char)
  | 0, _ => none
  | fuel + 1, cs => do
    let (v, cs) ← parseValue fuel cs
    match skipWs cs with
    | ',' :: cs => do
      let (vs, cs) ← parseItems fuel cs
      some (v :: vs, cs)
    | ']' :: cs => some ([v], cs)
    | _ => none

/-- Read the fields of an object up to its closing brace. -/
def parseFields : ℕ → List Char → Option (List (String × Json) × List Char)
  | 0, _ => none
  | fuel + 1, cs =>
    match skipWs cs with
    | [] => none
    | q :: cs =>
      if q = quote then do
        let (k, cs) ← parseString cs
        match skipWs cs with
        | ':' :: cs => do
          let (v, cs) ← parseValue fuel cs
          match skipWs cs with
          | ',' :: cs => do
            let (fs, cs) ← parseFields fuel cs
            some ((k, v) :: fs, cs)
          | '}' :: cs => some ([(k, v)], cs)
          | _ => none
        | _ => none
      else none

end

/-- `json.loads(text)`; `none` where it raises `JSONDecodeError`. -/
def loads (text : String) : Option Json :=
  match parseValue (text.toList.length + 1) text.toList with
  | some (v, rest) => if skipWs rest = [] then some v else none
  | none => none

/-! ### Reading back one character -/

theorem hexVal_digitChar : ∀ d, d < 16 → hexVal d.digitChar = some d := by decide

theorem parseHex4_hex4 {n : ℕ} (h : n < 65536) (cs : List Char) :
    parseHex4 (hex4 n ++ cs) = some (n, cs) := by
  have h₁ := hexVal_digitChar (n / 4096 % 16) (by omega)
  have h₂ := hexVal_digitChar (n / 256 % 16) (by omega)
  have h₃ := hexVal_digitChar (n / 16 % 16) (by omega)
  have h₄ := hexVal_digitChar (n % 16) (by omega)
  have hn : ((n / 4096 % 16 * 16 + n / 256 % 16) * 16 + n / 16 % 16) * 16 + n % 16 = n := by
    omega
  simp only [hex4, List.cons_append, List.nil_append, parseHex4, h₁, h₂, h₃, h₄,
    Option.bind_eq_bind, Option.bind_some, hn]

/-- A code unit outside the surrogates is a character by itself. -/
theorem parseUnicode_unit {n : ℕ} (h : n < 65536) (hs : n < 0xD800 ∨ 0xDFFF < n)
    (cs : List Char) : parseUnicode (hex4 n ++ cs) = some (Char.ofNat n, cs) := by
  simp only [parseUnicode, parseHex4_hex4 h, Option.bind_eq_bind, Option.bind_some, if_pos hs]

theorem parseUnicode_pair {v : ℕ} (h : v < 1048576) (cs : List Char) :
    parseUnicode (hex4 (0xD800 + v / 1024) ++ (escapeUnit (0xDC00 + v % 1024) ++ cs)) =
      some (Char.ofNat (65536 + v), cs) := by
  have hhi : ¬ (0xD800 + v / 1024 < 0xD800 ∨ 0xDFFF < 0xD800 + v / 1024) := by omega
  have hlt : 0xD800 + v / 1024 < 0xDC00 := by omega
  have hlo : 0xDC00 ≤ 0xDC00 + v % 1024 ∧ 0xDC00 + v % 1024 ≤ 0xDFFF := by omega
  have hv : 65536 + (0xD800 + v / 1024 - 0xD800) * 1024 + (0xDC00 + v % 1024 - 0xDC00) =
      65536 + v := by omega
  rw [parseUnicode, parseHex4_hex4 (by omega)]
  simp only [Option.bind_eq_bind, Option.bind_some, if_neg hhi, escapeUnit, List.cons_append,
    hlt, and_self, if_true]
  rw [parseHex4_hex4 (by omega)]
  simp only [Option.bind_some, if_pos hlo, hv]

theorem parseChars_escape {fuel : ℕ} {es cs : List Char} {d : Char}
    (h : parseEscape es = some (d, cs)) :
    parseChars (fuel + 1) (backslash :: es) =
      (parseChars fuel cs).bind fun p => some (d :: p.1, p.2) := by
  have hbs : backslash ≠ quote := by decide
  rw [parseChars, if_neg hbs, if_pos rfl, h]
  rfl

/-- A character is written as an escape of two, as itself, or by its code units. -/
theorem escapeChar_cases (c : Char) :
    (∃ e, escapeChar c = [backslash, e] ∧ ∀ cs, parseEscape (e :: cs) = some (c, cs)) ∨
    (escapeChar c = [c] ∧ c ≠ quote ∧ c ≠ backslash ∧ 32 ≤ c.toNat) ∨
    (escapeChar c = escapeUnit c.toNat ∧ c.toNat < 65536) ∨
    (escapeChar c = escapeUnit (0xD800 + (c.toNat - 65536) / 1024) ++
      escapeUnit (0xDC00 + (c.toNat - 65536) % 1024) ∧ 65536 ≤ c.toNat) := by
  unfold escapeChar
  by_cases hq : c = quote
  · subst hq; exact .inl ⟨quote, if_pos rfl, fun _ => rfl⟩
  rw [if_neg hq]
  by_cases hb : c = backslash
  · subst hb; exact .inl ⟨backslash, if_pos rfl, fun _ => rfl⟩
  rw [if_neg hb]
  by_cases h8 : c = Char.ofNat 8
  · subst h8; exact .inl ⟨'b', if_pos rfl, fun _ => rfl⟩
  rw [if_neg h8]
  by_cases h12 : c = Char.ofNat 12
  · subst h12; exact .inl ⟨'f', if_pos rfl, fun _ => rfl⟩
  rw [if_neg h12]
  by_cases hn : c = '\n'
  · subst hn; exact .inl ⟨'n', if_pos rfl, fun _ => rfl⟩
  rw [if_neg hn]
  by_cases hr : c = '\r'
  · subst hr; exact .inl ⟨'r', if_pos rfl, fun _ => rfl⟩
  rw [if_neg hr]
  by_cases ht : c = '\t'
  · subst ht; exact .inl ⟨'t', if_pos rfl, fun _ => rfl⟩
  rw [if_neg ht]
  by_cases hp : 32 ≤ c.toNat ∧ c.toNat ≤ 126
  · exact .inr (.inl ⟨if_pos hp, hq, hb, hp.1⟩)
  rw [if_neg hp]
  by_cases hu : c.toNat < 65536
  · exact .inr (.inr (.inl ⟨if_pos hu, hu⟩))
  · exact .inr (.inr (.inr ⟨if_neg hu, not_lt.mp hu⟩))

/-- Every escape reads back as its character and leaves the text after it. -/
theorem parseChars_escapeChar (fuel : ℕ) (c : Char) (cs : List Char) :
    parseChars (fuel + 1) (escapeChar c ++ cs) =
      (parseChars fuel cs).bind fun p => some (c :: p.1, p.2) := by
  rcases escapeChar_cases c with ⟨e, heq, hread⟩ | ⟨heq, hq, hb, hp⟩ | ⟨heq, hu⟩ | ⟨heq, hu⟩
  · rw [heq]
    exact parseChars_escape (hread cs)
  · rw [heq, List.singleton_append, parseChars, if_neg hq, if_neg hb, if_neg (not_lt.mpr hp)]
    rfl
  · -- a character of the basic plane is never a surrogate
    have hs : c.toNat < 0xD800 ∨ 0xDFFF < c.toNat := by
      have := c.valid
      simp only [UInt32.isValidChar, Nat.isValidChar] at this
      change c.val.toNat < _ ∨ _ < c.val.toNat
      omega
    have hunit := parseUnicode_unit hu hs cs
    rw [Char.ofNat_toNat] at hunit
    rw [heq]
    exact parseChars_escape hunit
  · have hlt : c.toNat < 0x110000 := by
      have := c.valid
      simp only [UInt32.isValidChar, Nat.isValidChar] at this
      change c.val.toNat < _
      omega
    have hv : 65536 + (c.toNat - 65536) = c.toNat := by omega
    -- the two halves of a pair are read together
    have hpair := parseUnicode_pair (v := c.toNat - 65536) (by omega) cs
    rw [hv, Char.ofNat_toNat] at hpair
    rw [heq, List.append_assoc, escapeUnit, List.cons_append, List.cons_append]
    exact parseChars_escape hpair

/-! ### Reading back strings and numbers -/

theorem parseChars_flatMap (l rest : List Char) {fuel : ℕ} (h : l.length + 1 ≤ fuel) :
    parseChars fuel (l.flatMap escapeChar ++ quote :: rest) = some (l, rest) := by
  induction l generalizing fuel with
  | nil =>
    match fuel, h with
    | fuel + 1, _ => simp [parseChars]
  | cons c l ih =>
    match fuel, h with
    | fuel + 1, h =>
      have hl : l.length + 1 ≤ fuel := by simpa using h
      rw [List.flatMap_cons, List.append_assoc, parseChars_escapeChar, ih hl]
      rfl

theorem length_escapeChar_pos (c : Char) : 1 ≤ (escapeChar c).length := by
  rcases escapeChar_cases c with ⟨e, heq, -⟩ | ⟨heq, -⟩ | ⟨heq, -⟩ | ⟨heq, -⟩
  · simp [heq]
  · simp [heq]
  · simp [heq, escapeUnit]
  · simp [heq, escapeUnit]

theorem length_le_flatMap_escapeChar (l : List Char) :
    l.length ≤ (l.flatMap escapeChar).length := by
  induction l with
  | nil => simp
  | cons c l ih =>
    have := length_escapeChar_pos c
    simp only [List.flatMap_cons, List.length_append, List.length_cons]
    omega

theorem parseString_renderString (s : String) (rest : List Char) :
    parseString ((renderString s).tail ++ rest) = some (s, rest) := by
  have hlen : s.toList.length + 1 ≤
      ((s.toList.flatMap escapeChar ++ [quote]) ++ rest).length + 1 := by
    have := length_le_flatMap_escapeChar s.toList
    simp only [List.length_append, List.length_singleton]
    omega
  rw [renderString, List.tail_cons, parseString, List.append_assoc, List.singleton_append]
  rw [List.append_assoc, List.singleton_append] at hlen
  rw [parseChars_flatMap _ _ hlen, Option.map_some, String.ofList_toList]

/-- What may follow a number: nothing that would be read as part of it. -/
def Follow (rest : List Char) : Prop :=
  ∀ c, rest.head? = some c → c.isDigit = false ∧ c ≠ '.' ∧ c ≠ 'e' ∧ c ≠ 'E'

theorem follow_nil : Follow [] := by intro c h; simp at h

theorem follow_cons {c : Char} {rest : List Char}
    (h : c.isDigit = false ∧ c ≠ '.' ∧ c ≠ 'e' ∧ c ≠ 'E') : Follow (c :: rest) := by
  intro c' hc
  simp only [List.head?_cons, Option.some.injEq] at hc
  exact hc ▸ h

theorem isDigit_of_mem_toDigits {n : ℕ} {c : Char} (h : c ∈ Nat.toDigits 10 n) :
    c.isDigit = true := Nat.isDigit_of_mem_toDigits (by decide) (by decide) h

theorem parseNat_toDigits (n : ℕ) {rest : List Char} (h : Follow rest) :
    parseNat (Nat.toDigits 10 n ++ rest) = some (n, rest) := by
  have hall : ∀ c ∈ Nat.toDigits 10 n, c.isDigit = true := fun c => isDigit_of_mem_toDigits
  have htake : (Nat.toDigits 10 n ++ rest).takeWhile Char.isDigit = Nat.toDigits 10 n := by
    rw [List.takeWhile_append_of_pos hall]
    cases rest with
    | nil => simp
    | cons c rest => simp [(h c rfl).1]
  have hdrop : (Nat.toDigits 10 n ++ rest).dropWhile Char.isDigit = rest := by
    rw [List.dropWhile_append_of_pos hall]
    cases rest with
    | nil => rfl
    | cons c rest => simp [(h c rfl).1]
  have hhead : ¬ (rest.head? = some '.' ∨ rest.head? = some 'e' ∨ rest.head? = some 'E') := by
    rintro (hc | hc | hc)
    · exact (h _ hc).2.1 rfl
    · exact (h _ hc).2.2.1 rfl
    · exact (h _ hc).2.2.2 rfl
  simp only [parseNat, htake, hdrop, Nat.ofDigitChars_ten_toDigits, ne_eq, not_true_eq_false,
    false_or, if_neg hhead]

theorem renderInt_eq_cons (n : Int) :
    ∃ c cs, renderInt n = c :: cs ∧ (c.isDigit = true ∨ c = '-') := by
  cases n with
  | ofNat n =>
    cases h : Nat.toDigits 10 n with
    | nil => exact absurd h Nat.toDigits_ne_nil
    | cons c cs => exact ⟨c, cs, h, .inl (isDigit_of_mem_toDigits (n := n) (by simp [h]))⟩
  | negSucc n => exact ⟨_, _, rfl, .inr rfl⟩

theorem parseInt_renderInt (n : Int) {rest : List Char} (h : Follow rest) :
    parseInt (renderInt n ++ rest) = some (n, rest) := by
  cases n with
  | ofNat n =>
    have hnat := parseNat_toDigits n h
    cases hd : Nat.toDigits 10 n with
    | nil => exact absurd hd Nat.toDigits_ne_nil
    | cons c cs =>
      have hc : c.isDigit = true := isDigit_of_mem_toDigits (n := n) (by simp [hd])
      have hne : c ≠ '-' := by rintro rfl; revert hc; decide
      rw [hd] at hnat
      simp only [renderInt, hd, List.cons_append] at hnat ⊢
      rw [parseInt]
      · rw [hnat]; rfl
      · rintro cs' hcs
        exact hne (List.cons.inj hcs).1
  | negSucc n =>
    simp only [renderInt, List.cons_append, parseInt, parseNat_toDigits (n + 1) h, Option.map_some]
    rfl

theorem intText_injective : Function.Injective intText := by
  intro n m h
  have htext : renderInt n = renderInt m := String.ofList_injective h
  have hn := parseInt_renderInt n follow_nil
  have hm := parseInt_renderInt m follow_nil
  rw [List.append_nil] at hn hm
  rw [htext, hm] at hn
  exact (congrArg Prod.fst (Option.some.inj hn)).symm

/-- The text of an integer is made of digits and a minus sign. -/
theorem mem_renderInt {n : Int} {c : Char} (h : c ∈ renderInt n) :
    c.isDigit = true ∨ c = '-' := by
  cases n with
  | ofNat n => exact .inl (isDigit_of_mem_toDigits h)
  | negSucc n =>
    rcases List.mem_cons.mp h with rfl | h
    · exact .inr rfl
    · exact .inl (isDigit_of_mem_toDigits h)

/-! ### Reading back values -/

mutual

/-- The fuel a value needs: one for each value and one for each item and field. -/
def weight : Json → ℕ
  | .arr vs => 1 + weightItems vs
  | .obj fs => 1 + weightFields fs
  | _ => 1

/-- The fuel of the items of an array. -/
def weightItems : List Json → ℕ
  | [] => 0
  | v :: vs => 1 + v.weight + weightItems vs

/-- The fuel of the fields of an object. -/
def weightFields : List (String × Json) → ℕ
  | [] => 0
  | (_, v) :: fs => 1 + v.weight + weightFields fs

end

theorem weight_pos (v : Json) : 1 ≤ v.weight := by cases v <;> simp [weight]

/-- The text after a separator's own character. -/
def pad (spaced : Bool) (cs : List Char) : List Char := if spaced then ' ' :: cs else cs

theorem sep_append (spaced : Bool) (c : Char) (cs : List Char) :
    sep spaced c ++ cs = c :: pad spaced cs := by
  cases spaced <;> rfl

@[simp] theorem skipWs_pad (spaced : Bool) (cs : List Char) :
    skipWs (pad spaced cs) = skipWs cs := by
  cases spaced <;> simp [pad, skipWs]

theorem skipWs_cons {c : Char} (h : ¬ (c = ' ' ∨ c = '\t' ∨ c = '\n' ∨ c = '\r'))
    (cs : List Char) : skipWs (c :: cs) = c :: cs := if_neg h

@[simp] theorem parseValue_pad (spaced : Bool) (fuel : ℕ) (cs : List Char) :
    parseValue fuel (pad spaced cs) = parseValue fuel cs := by
  cases fuel <;> simp [parseValue]

@[simp] theorem parseItems_pad (spaced : Bool) (fuel : ℕ) (cs : List Char) :
    parseItems fuel (pad spaced cs) = parseItems fuel cs := by
  cases fuel <;> simp [parseItems]

@[simp] theorem parseFields_pad (spaced : Bool) (fuel : ℕ) (cs : List Char) :
    parseFields fuel (pad spaced cs) = parseFields fuel cs := by
  cases fuel <;> simp [parseFields]

/-- A value's text starts with a character that is no blank and closes nothing. -/
theorem render_eq_cons (spaced : Bool) (v : Json) :
    ∃ c cs, v.render spaced = c :: cs ∧
      ¬ (c = ' ' ∨ c = '\t' ∨ c = '\n' ∨ c = '\r') ∧ c ≠ ']' := by
  cases v with
  | null => exact ⟨_, _, rfl, by decide, by decide⟩
  | bool b => cases b <;> exact ⟨_, _, rfl, by decide, by decide⟩
  | num n =>
    obtain ⟨c, cs, h, hc⟩ := renderInt_eq_cons n
    refine ⟨c, cs, h, ?_, ?_⟩
    · rintro (rfl | rfl | rfl | rfl) <;> rcases hc with hc | hc <;> revert hc <;> decide
    · rintro rfl; rcases hc with hc | hc <;> revert hc <;> decide
  | str s => exact ⟨_, _, rfl, by decide, by decide⟩
  | arr vs => cases vs <;> exact ⟨_, _, rfl, by decide, by decide⟩
  | obj fs => rcases fs with _ | ⟨⟨k, v⟩, fs⟩ <;> exact ⟨_, _, rfl, by decide, by decide⟩

theorem follow_renderItems (spaced : Bool) (vs : List Json) (rest : List Char) :
    Follow (renderItems spaced vs ++ rest) := by
  cases vs with
  | nil => exact follow_cons (by decide)
  | cons v vs =>
    rw [renderItems, List.append_assoc, sep_append]
    exact follow_cons (by decide)

theorem follow_renderFields (spaced : Bool) (fs : List (String × Json)) (rest : List Char) :
    Follow (renderFields spaced fs ++ rest) := by
  rcases fs with _ | ⟨⟨k, v⟩, fs⟩
  · exact follow_cons (by decide)
  · rw [renderFields, List.append_assoc, sep_append]
    exact follow_cons (by decide)

/-- The dispatch of `parseValue` on the first character of a number. -/
theorem parseValue_renderInt (fuel : ℕ) (n : Int) {rest : List Char} (h : Follow rest) :
    parseValue (fuel + 1) (renderInt n ++ rest) = some (.num n, rest) := by
  obtain ⟨c, cs, hn, hc⟩ := renderInt_eq_cons n
  have hws : ¬ (c = ' ' ∨ c = '\t' ∨ c = '\n' ∨ c = '\r') := by
    rintro (rfl | rfl | rfl | rfl) <;> rcases hc with hc | hc <;> revert hc <;> decide
  have hne : c ≠ quote ∧ c ≠ '[' ∧ c ≠ '{' ∧ c ≠ 'n' ∧ c ≠ 't' ∧ c ≠ 'f' := by
    refine ⟨?_, ?_, ?_, ?_, ?_, ?_⟩ <;> rintro rfl <;> rcases hc with hc | hc <;> revert hc <;>
      decide
  have hint := parseInt_renderInt n h
  rw [hn, List.cons_append] at hint ⊢
  rw [parseValue, skipWs_cons hws]
  simp [hne.1, hne.2.1, hne.2.2.1, hne.2.2.2.1, hne.2.2.2.2.1, hne.2.2.2.2.2, hint]

theorem parseFields_key (spaced : Bool) (fuel : ℕ) (k : String) (cs : List Char) :
    parseFields (fuel + 1) (renderString k ++ (sep spaced ':' ++ cs)) =
      (parseValue fuel cs).bind fun p =>
        match skipWs p.2 with
        | ',' :: cs => (parseFields fuel cs).bind fun q => some ((k, p.1) :: q.1, q.2)
        | '}' :: cs => some ([(k, p.1)], cs)
        | _ => none := by
  have hk := parseString_renderString k (sep spaced ':' ++ cs)
  rw [renderString, List.cons_append]
  rw [renderString, List.tail_cons] at hk
  rw [parseFields, skipWs_cons (by decide)]
  simp only [↓reduceIte, hk, Option.bind_eq_bind, Option.bind_some]
  rw [sep_append, skipWs_cons (by decide)]
  simp only [parseValue_pad]

mutual

/-- **A value's text reads back as the value** and leaves the text after it. -/
theorem parseValue_render (spaced : Bool) : ∀ (v : Json) (fuel : ℕ) (rest : List Char),
    v.weight ≤ fuel → Follow rest → parseValue fuel (v.render spaced ++ rest) = some (v, rest)
  | v, 0, rest, hw, _ => absurd (v.weight_pos.trans hw) (by decide)
  | .null, fuel + 1, rest, _, _ => by simp [render, parseValue, skipWs, quote]
  | .bool true, fuel + 1, rest, _, _ => by simp [render, parseValue, skipWs, quote]
  | .bool false, fuel + 1, rest, _, _ => by simp [render, parseValue, skipWs, quote]
  | .num n, fuel + 1, rest, _, hf => by
    rw [render]
    exact parseValue_renderInt fuel n hf
  | .str s, fuel + 1, rest, _, _ => by
    have hs := parseString_renderString s rest
    rw [render, renderString, List.cons_append]
    rw [renderString, List.tail_cons] at hs
    rw [parseValue, skipWs_cons (by decide)]
    simp only [↓reduceIte, hs, Option.map_some]
  | .arr [], fuel + 1, rest, _, _ => by
    simp [render, parseValue, skipWs, quote]
  | .arr (v :: vs), fuel + 1, rest, hw, _ => by
    have hw' : weightItems (v :: vs) ≤ fuel := by
      simp only [weight] at hw
      omega
    have hitems := parseItems_render spaced v vs fuel rest hw'
    obtain ⟨c, cs, hc, hws, hne⟩ := render_eq_cons spaced v
    rw [render, List.cons_append, List.append_assoc]
    rw [parseValue, skipWs_cons (by decide)]
    simp only [show ('[' : Char) ≠ quote by decide, if_false, if_true]
    rw [hc, List.cons_append] at hitems ⊢
    rw [skipWs_cons hws]
    simp [hne, hitems]
  | .obj [], fuel + 1, rest, _, _ => by
    simp [render, parseValue, skipWs, quote]
  | .obj ((k, v) :: fs), fuel + 1, rest, hw, _ => by
    have hw' : weightFields ((k, v) :: fs) ≤ fuel := by
      simp only [weight] at hw
      omega
    have hfields := parseFields_render spaced k v fs fuel rest hw'
    rw [render, List.cons_append, List.append_assoc, List.append_assoc, List.append_assoc]
    rw [parseValue, skipWs_cons (by decide)]
    simp only [show ('{' : Char) ≠ quote by decide, show ('{' : Char) ≠ '[' by decide, if_false,
      if_true]
    rw [renderString, List.cons_append] at hfields ⊢
    rw [skipWs_cons (by decide)]
    change (parseFields fuel (quote :: _)).map _ = _
    rw [hfields, Option.map_some]

theorem parseItems_render (spaced : Bool) : ∀ (v : Json) (vs : List Json) (fuel : ℕ)
    (rest : List Char), weightItems (v :: vs) ≤ fuel →
      parseItems fuel (v.render spaced ++ (renderItems spaced vs ++ rest)) =
        some (v :: vs, rest)
  | v, vs, 0, rest, hw => by simp [weightItems] at hw
  | v, [], fuel + 1, rest, hw => by
    have hv := parseValue_render spaced v fuel (renderItems spaced [] ++ rest)
      (by simp only [weightItems] at hw; omega) (follow_renderItems spaced [] rest)
    rw [parseItems, hv]
    simp [renderItems, skipWs]
  | v, v' :: vs, fuel + 1, rest, hw => by
    have hv := parseValue_render spaced v fuel (renderItems spaced (v' :: vs) ++ rest)
      (by simp only [weightItems] at hw; omega) (follow_renderItems spaced (v' :: vs) rest)
    have hvs := parseItems_render spaced v' vs fuel rest
      (by simp only [weightItems] at hw ⊢; omega)
    rw [parseItems, hv]
    rw [renderItems, List.append_assoc, sep_append, List.append_assoc]
    simp only [Option.bind_eq_bind, Option.bind_some]
    rw [skipWs_cons (by decide)]
    simp [hvs]

theorem parseFields_render (spaced : Bool) : ∀ (k : String) (v : Json)
    (fs : List (String × Json)) (fuel : ℕ) (rest : List Char),
      weightFields ((k, v) :: fs) ≤ fuel →
        parseFields fuel (renderString k ++
          (sep spaced ':' ++ (v.render spaced ++ (renderFields spaced fs ++ rest)))) =
          some ((k, v) :: fs, rest)
  | k, v, fs, 0, rest, hw => by simp [weightFields] at hw
  | k, v, [], fuel + 1, rest, hw => by
    have hv := parseValue_render spaced v fuel (renderFields spaced [] ++ rest)
      (by simp only [weightFields] at hw; omega) (follow_renderFields spaced [] rest)
    rw [parseFields_key, hv]
    simp [renderFields, skipWs]
  | k, v, (k', v') :: fs, fuel + 1, rest, hw => by
    have hv := parseValue_render spaced v fuel (renderFields spaced ((k', v') :: fs) ++ rest)
      (by simp only [weightFields] at hw; omega)
      (follow_renderFields spaced ((k', v') :: fs) rest)
    have hfs := parseFields_render spaced k' v' fs fuel rest
      (by simp only [weightFields] at hw ⊢; omega)
    rw [parseFields_key, hv]
    rw [renderFields, List.append_assoc, sep_append, List.append_assoc, List.append_assoc,
      List.append_assoc]
    simp only [Option.bind_some]
    rw [skipWs_cons (by decide)]
    simp [hfs]

end

/-! ### Whole texts -/

mutual

/-- A value's text is at least as long as the fuel needed to read it. -/
theorem weight_le_length (spaced : Bool) : ∀ v : Json, v.weight ≤ (v.render spaced).length
  | .null => by simp [weight, render]
  | .bool true => by simp [weight, render]
  | .bool false => by simp [weight, render]
  | .num n => by
    obtain ⟨c, cs, h, _⟩ := renderInt_eq_cons n
    simp [weight, render, h]
  | .str s => by simp [weight, render, renderString]
  | .arr [] => by simp [weight, weightItems, render]
  | .arr (v :: vs) => by
    have hv := weight_le_length spaced v
    have hvs := weightItems_le_length spaced vs
    simp only [weight, weightItems, render, List.length_cons, List.length_append]
    omega
  | .obj [] => by simp [weight, weightFields, render]
  | .obj ((k, v) :: fs) => by
    have hv := weight_le_length spaced v
    have hfs := weightFields_le_length spaced fs
    simp only [weight, weightFields, render, renderString, List.length_cons, List.length_append,
      List.length_nil]
    omega

/-- The same for the rest of an array, whose separators and bracket count too. -/
theorem weightItems_le_length (spaced : Bool) : ∀ vs : List Json,
    weightItems vs + 1 ≤ (renderItems spaced vs).length
  | [] => by simp [weightItems, renderItems]
  | v :: vs => by
    have hv := weight_le_length spaced v
    have hvs := weightItems_le_length spaced vs
    have hsep : 1 ≤ (sep spaced ',').length := by cases spaced <;> simp [sep]
    simp only [weightItems, renderItems, List.length_append]
    omega

theorem weightFields_le_length (spaced : Bool) : ∀ fs : List (String × Json),
    weightFields fs + 1 ≤ (renderFields spaced fs).length
  | [] => by simp [weightFields, renderFields]
  | (k, v) :: fs => by
    have hv := weight_le_length spaced v
    have hfs := weightFields_le_length spaced fs
    have hsep : 1 ≤ (sep spaced ',').length := by cases spaced <;> simp [sep]
    simp only [weightFields, renderFields, List.length_append]
    omega

end

/-- A text that is the text of a value reads back as that value. -/
theorem loads_render (spaced : Bool) (v : Json) :
    loads (String.ofList (v.render spaced)) = some v := by
  have hfuel : v.weight ≤ (v.render spaced).length + 1 := by
    have := weight_le_length spaced v
    omega
  have hread := parseValue_render spaced v _ [] hfuel follow_nil
  rw [List.append_nil] at hread
  simp only [loads, String.toList_ofList, hread, skipWs, if_true]

/-- **`json.loads(json.dumps(v))` is `v`.** -/
@[simp] theorem loads_dumps (v : Json) : loads v.dumps = some v := loads_render true v

/-- **The same for the compact text.** -/
@[simp] theorem loads_dumpsCompact (v : Json) : loads v.dumpsCompact = some v :=
  loads_render false v

theorem dumpsCompact_injective : Function.Injective dumpsCompact := by
  intro v w h
  have := congrArg loads h
  rw [loads_dumpsCompact, loads_dumpsCompact] at this
  exact Option.some.inj this

/-- The text of an object ends where its brace closes: what comes after it can be told from it. -/
theorem render_obj_append_inj {spaced : Bool} {f f' : String × Json} {fs fs' : List (String × Json)}
    {rest rest' : List Char}
    (h : (obj (f :: fs)).render spaced ++ rest = (obj (f' :: fs')).render spaced ++ rest') :
    f :: fs = f' :: fs' ∧ rest = rest' := by
  obtain ⟨k, v⟩ := f
  obtain ⟨k', v'⟩ := f'
  have hread := parseFields_render spaced k v fs
    (weightFields ((k, v) :: fs) + weightFields ((k', v') :: fs')) rest (by omega)
  have hread' := parseFields_render spaced k' v' fs'
    (weightFields ((k, v) :: fs) + weightFields ((k', v') :: fs')) rest' (by omega)
  simp only [render, List.cons_append, List.append_assoc, List.cons.injEq, true_and] at h
  rw [h, hread'] at hread
  simpa [eq_comm] using hread

theorem dumps_ne_empty (v : Json) : v.dumps ≠ "" := by
  intro h
  have hread := loads_dumps v
  rw [h] at hread
  exact absurd hread (by simp [loads, parseValue, skipWs])

/-! ### Fields -/

def field? (v : Json) (k : String) : Option Json :=
  match v with
  | .obj fs => fs.lookup k
  | _ => none

/-- `bool(v)`. -/
def truthy : Json → Bool
  | .null => false
  | .bool b => b
  | .num n => n ≠ 0
  | .str s => s ≠ ""
  | .arr items => !items.isEmpty
  | .obj fields => !fields.isEmpty

/-- Fields with distinct keys are found in any order of them. -/
theorem lookup_perm {l l' : List (String × Json)} (h : l.Perm l') (hn : (l.map Prod.fst).Nodup)
    (k : String) : l.lookup k = l'.lookup k := by
  induction h with
  | nil => rfl
  | cons x _ ih =>
    rw [List.lookup_cons, List.lookup_cons, ih (List.nodup_cons.mp hn).2]
  | swap x y l =>
    obtain ⟨a, v⟩ := x
    obtain ⟨b, w⟩ := y
    simp only [List.map_cons, List.nodup_cons, List.mem_cons, not_or] at hn
    simp only [List.lookup_cons]
    by_cases ha : k = a
    · have hb : (k == b) = false := beq_false_of_ne fun hb => hn.1.1 (hb.symm.trans ha)
      rw [hb]
    · have ha : (k == a) = false := beq_false_of_ne ha
      rw [ha]
  | trans h₁ _ ih₁ ih₂ =>
    exact (ih₁ hn).trans (ih₂ ((h₁.map Prod.fst).nodup_iff.mp hn))

theorem lookup_sortKeysFields (fs : List (String × Json)) (k : String) :
    (sortKeysFields fs).lookup k = (fs.lookup k).map sortKeys := by
  induction fs with
  | nil => rfl
  | cons x fs ih =>
    obtain ⟨k', v⟩ := x
    simp only [sortKeysFields, List.lookup_cons, ih]
    cases k == k'
    · rfl
    · rfl

theorem map_fst_sortKeysFields (fs : List (String × Json)) :
    (sortKeysFields fs).map Prod.fst = fs.map Prod.fst := by
  induction fs with
  | nil => rfl
  | cons x fs ih => simp only [sortKeysFields, List.map_cons, ih]

theorem field?_sortKeys {fs : List (String × Json)} (hn : (fs.map Prod.fst).Nodup)
    (k : String) : (obj fs).sortKeys.field? k = ((obj fs).field? k).map sortKeys := by
  have hn' : ((sortKeysFields fs).map Prod.fst).Nodup := by rwa [map_fst_sortKeysFields]
  have hperm := (List.mergeSort_perm (sortKeysFields fs) fun a b => a.1 ≤ b.1).symm
  rw [sortKeys, field?, field?, ← lookup_perm hperm hn', lookup_sortKeysFields]

mutual

/-- The value of a program: no object has a key twice. -/
def Distinct : Json → Prop
  | .arr vs => DistinctItems vs
  | .obj fs => (fs.map Prod.fst).Nodup ∧ DistinctFields fs
  | _ => True

/-- `Distinct` for the items of an array. -/
def DistinctItems : List Json → Prop
  | [] => True
  | v :: vs => v.Distinct ∧ DistinctItems vs

/-- `Distinct` for the fields of an object. -/
def DistinctFields : List (String × Json) → Prop
  | [] => True
  | (_, v) :: fs => v.Distinct ∧ DistinctFields fs

end

theorem distinctFields_iff {fs : List (String × Json)} :
    DistinctFields fs ↔ ∀ f ∈ fs, f.2.Distinct := by
  induction fs with
  | nil => simp [DistinctFields]
  | cons f fs ih =>
    obtain ⟨k, v⟩ := f
    simp [DistinctFields, ih]

theorem Distinct.field {v w : Json} {k : String} (h : v.Distinct) (hk : v.field? k = some w) :
    w.Distinct := by
  cases v with
  | obj fs =>
    obtain ⟨l, l', heq, -⟩ := List.lookup_eq_some_iff.mp hk
    exact distinctFields_iff.mp h.2 (k, w) (by simp [heq])
  | _ => exact absurd hk (by simp [field?])

/-- The fields with another value of one of them. -/
def replaceField (fs : List (String × Json)) (k : String) (v : Json) : List (String × Json) :=
  fs.map fun f => (f.1, if f.1 = k then v else f.2)

theorem map_fst_replaceField (fs : List (String × Json)) (k : String) (v : Json) :
    (replaceField fs k v).map Prod.fst = fs.map Prod.fst := by
  rw [replaceField, List.map_map]
  rfl

theorem lookup_replaceField (fs : List (String × Json)) (k : String) (v : Json) (k' : String) :
    (replaceField fs k v).lookup k' = (fs.lookup k').map fun w => if k' = k then v else w := by
  induction fs with
  | nil => rfl
  | cons f fs ih =>
    obtain ⟨k₀, w⟩ := f
    rw [replaceField, List.map_cons, List.lookup_cons, List.lookup_cons]
    by_cases hk : k' = k₀
    · simp [hk]
    · rw [beq_eq_false_iff_ne.mpr hk]
      exact ih

theorem Distinct.replaceField {fs : List (String × Json)} (h : (obj fs).Distinct) (k : String)
    {v : Json} (hv : v.Distinct) : (obj (Json.replaceField fs k v)).Distinct := by
  constructor
  · rw [map_fst_replaceField]
    exact h.1
  · rw [distinctFields_iff]
    intro f hf
    obtain ⟨g, hg, rfl⟩ := List.mem_map.mp hf
    dsimp only
    split
    · exact hv
    · exact distinctFields_iff.mp h.2 g hg

/-- A value that is another one but for the order of keys changes nothing but that order. -/
theorem sortKeys_replaceField {fs : List (String × Json)} {k : String} {v w : Json}
    (hn : (fs.map Prod.fst).Nodup) (hv : fs.lookup k = some v) (hw : w.sortKeys = v.sortKeys) :
    (obj (replaceField fs k w)).sortKeys = (obj fs).sortKeys := by
  have hfields : sortKeysFields (replaceField fs k w) = sortKeysFields fs := by
    induction fs with
    | nil => rfl
    | cons f fs ih =>
      obtain ⟨k₀, u⟩ := f
      rw [List.map_cons, List.nodup_cons] at hn
      by_cases hk : k = k₀
      · subst hk
        have huv : u = v := by simpa using hv
        -- no later field has the key
        have hrest : replaceField fs k w = fs := by
          rw [replaceField, List.map_congr_left, List.map_id]
          intro f hf
          have hne : f.1 ≠ k := fun heq => hn.1 (List.mem_map.mpr ⟨f, hf, heq⟩)
          simp [hne]
        have hcons : replaceField ((k, u) :: fs) k w = (k, w) :: replaceField fs k w := by
          simp [replaceField]
        rw [hcons, hrest, sortKeysFields, sortKeysFields, hw, huv]
      · rw [List.lookup_cons, beq_eq_false_iff_ne.mpr hk] at hv
        have hcons : replaceField ((k₀, u) :: fs) k w = (k₀, u) :: replaceField fs k w := by
          simp [replaceField, Ne.symm hk]
        rw [hcons, sortKeysFields, sortKeysFields, ih hn.2 hv]
  rw [sortKeys, sortKeys, hfields]

/-! ### Lines -/

def Printable (c : Char) : Prop := 32 ≤ c.toNat ∧ c.toNat ≤ 126

instance (c : Char) : Decidable (Printable c) := inferInstanceAs (Decidable (_ ∧ _))

theorem printable_of_all {l : List Char} (h : (l.all fun c => Printable c) = true) :
    ∀ c ∈ l, Printable c := by
  simpa using h

theorem printable_digitChar : ∀ d < 16, Printable d.digitChar := by decide

theorem printable_escapeUnit (n : ℕ) : ∀ c ∈ escapeUnit n, Printable c := by
  simp only [escapeUnit, hex4, List.forall_mem_cons, List.not_mem_nil, false_implies, implies_true,
    and_true]
  exact ⟨by decide, by decide, printable_digitChar _ (Nat.mod_lt _ (by decide)),
    printable_digitChar _
      (Nat.mod_lt _ (by decide)), printable_digitChar _ (Nat.mod_lt _ (by decide)),
    printable_digitChar _ (Nat.mod_lt _ (by decide))⟩

private theorem printable_ite {p : Prop} [Decidable p] {l l' : List Char}
    (hl : p → ∀ d ∈ l, Printable d) (hl' : ∀ d ∈ l', Printable d) :
    ∀ d ∈ if p then l else l', Printable d := by
  by_cases h : p
  · rw [if_pos h]
    exact hl h
  · rw [if_neg h]
    exact hl'

theorem printable_escapeChar (c : Char) : ∀ d ∈ escapeChar c, Printable d := by
  unfold escapeChar
  refine printable_ite (fun _ => printable_of_all (by decide)) ?_
  refine printable_ite (fun _ => printable_of_all (by decide)) ?_
  refine printable_ite (fun _ => printable_of_all (by decide)) ?_
  refine printable_ite (fun _ => printable_of_all (by decide)) ?_
  refine printable_ite (fun _ => printable_of_all (by decide)) ?_
  refine printable_ite (fun _ => printable_of_all (by decide)) ?_
  refine printable_ite (fun _ => printable_of_all (by decide)) ?_
  refine printable_ite (fun hp => ?_) (printable_ite (fun _ => printable_escapeUnit _) ?_)
  · -- the character itself
    rw [List.forall_mem_singleton]
    exact hp
  · rw [List.forall_mem_append]
    exact ⟨printable_escapeUnit _, printable_escapeUnit _⟩

theorem printable_renderString (s : String) : ∀ c ∈ renderString s, Printable c := by
  simp only [renderString, List.forall_mem_cons, List.forall_mem_append, List.not_mem_nil,
    false_implies, implies_true, and_true]
  refine ⟨by decide, fun c hc => ?_, by decide⟩
  obtain ⟨d, -, hd⟩ := List.mem_flatMap.mp hc
  exact printable_escapeChar d c hd

theorem printable_sep (spaced : Bool) {c : Char} (hc : Printable c) :
    ∀ d ∈ sep spaced c, Printable d := by
  unfold sep
  cases spaced
  · simpa using hc
  · rw [if_pos rfl, List.forall_mem_cons, List.forall_mem_singleton]
    exact ⟨hc, by decide⟩

mutual

/-- **A text is plain printable ASCII.** -/
theorem printable_render (spaced : Bool) : ∀ v : Json, ∀ c ∈ v.render spaced, Printable c
  | .null => by
    rw [render]
    exact printable_of_all (by decide)
  | .bool true => by
    rw [render]
    exact printable_of_all (by decide)
  | .bool false => by
    rw [render]
    exact printable_of_all (by decide)
  | .num n => by
    intro c hc
    rw [render] at hc
    rcases mem_renderInt hc with hdigit | rfl
    · simp only [Char.isDigit, Bool.and_eq_true, decide_eq_true_eq] at hdigit
      have h48 : 48 ≤ c.toNat := hdigit.1
      have h57 : c.toNat ≤ 57 := hdigit.2
      exact ⟨by omega, by omega⟩
    · decide
  | .str s => by
    rw [render]
    exact printable_renderString s
  | .arr [] => by
    rw [render]
    exact printable_of_all (by decide)
  | .arr (v :: vs) => by
    simp only [render, List.forall_mem_cons, List.forall_mem_append]
    exact ⟨by decide, printable_render spaced v, printable_renderItems spaced vs⟩
  | .obj [] => by
    rw [render]
    exact printable_of_all (by decide)
  | .obj ((k, v) :: fs) => by
    simp only [render, List.forall_mem_cons, List.forall_mem_append]
    exact ⟨by decide, ⟨printable_renderString k, printable_sep spaced (by decide)⟩,
      printable_render spaced v, printable_renderFields spaced fs⟩

theorem printable_renderItems (spaced : Bool) :
    ∀ vs : List Json, ∀ c ∈ renderItems spaced vs, Printable c
  | [] => by
    rw [renderItems]
    exact printable_of_all (by decide)
  | v :: vs => by
    simp only [renderItems, List.forall_mem_append]
    exact ⟨printable_sep spaced (by decide), printable_render spaced v,
      printable_renderItems spaced vs⟩

theorem printable_renderFields (spaced : Bool) :
    ∀ fs : List (String × Json), ∀ c ∈ renderFields spaced fs, Printable c
  | [] => by
    rw [renderFields]
    exact printable_of_all (by decide)
  | (k, v) :: fs => by
    simp only [renderFields, List.forall_mem_append]
    exact ⟨printable_sep spaced (by decide),
      ⟨printable_renderString k, printable_sep spaced (by decide)⟩,
      printable_render spaced v, printable_renderFields spaced fs⟩

end

/-- **A text is one line.** -/
theorem newline_not_mem_render (spaced : Bool) (v : Json) : '\n' ∉ v.render spaced :=
  fun h => absurd (printable_render spaced v _ h) (by decide)

end Json
