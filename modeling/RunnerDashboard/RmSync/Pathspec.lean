import RunnerDashboard.RmSync.Porcelain

/-!
# Patterns for paths

`git restore` and `git clean` take patterns.  A pattern selects the file of that name and all that
is below it; one with special characters selects what it matches as well, where a star goes over
`/` too.
-/

namespace RmSync

/-! ### Wildcards -/

inductive SetItem
  | range (lo hi : Char)
  | named (p : Char → Bool)

def SetItem.accepts (c : Char) : SetItem → Bool
  | range lo hi => lo ≤ c && c ≤ hi
  | named p => p c

/-- A part of a pattern. -/
inductive Token
  | any
  | star
  | one (c : Char)
  | set (negated : Bool) (items : List SetItem)
  /-- A pattern that is not finished. -/
  | broken

/-- A printed character that is no blank. -/
def isGraph (c : Char) : Bool := 33 ≤ c.toNat && c.toNat ≤ 126

def namedSet (name : List Char) : Option (Char → Bool) :=
  match String.ofList name with
  | "alnum" => some Char.isAlphanum
  | "alpha" => some Char.isAlpha
  | "blank" => some fun c => c = ' ' || c = '\t'
  | "cntrl" => some fun c => c.toNat < 32 || c.toNat = 127
  | "digit" => some Char.isDigit
  | "graph" => some isGraph
  | "lower" => some Char.isLower
  | "print" => some fun c => 32 ≤ c.toNat && c.toNat ≤ 126
  | "punct" => some fun c => isGraph c && !c.isAlphanum
  | "space" => some fun c => c = ' ' || (9 ≤ c.toNat && c.toNat ≤ 13)
  | "upper" => some Char.isUpper
  | "xdigit" => some fun c => c.isDigit || ('a' ≤ c && c ≤ 'f') || ('A' ≤ c && c ≤ 'F')
  | _ => none

/-- The items between brackets and what is after them, where `prev` may begin a range. -/
def setItems : ℕ → Bool → Option Char → List Char → Option (List SetItem × List Char)
  | 0, _, _, _ => none
  | _ + 1, _, _, [] => none
  | fuel + 1, first, prev, c :: p =>
    if c = ']' ∧ first = false then some ([], p)
    else if c = backslash then
      match p with
      | [] => none
      | d :: p => (setItems fuel false (some d) p).map fun r => (.range d d :: r.1, r.2)
    else
      match c, prev, p with
      | '-', some lo, hi :: p' =>
        if hi = ']' then (setItems fuel false (some c) p).map fun r => (.range c c :: r.1, r.2)
        else if hi = backslash then
          match p' with
          | [] => none
          | hi :: p' => (setItems fuel false none p').map fun r => (.range lo hi :: r.1, r.2)
        else (setItems fuel false none p').map fun r => (.range lo hi :: r.1, r.2)
      | '[', _, ':' :: p' =>
        let name := p'.takeWhile (· ≠ ']')
        let rest := p'.drop name.length
        if rest = [] then none
        else if name.getLast? = some ':' then
          match namedSet name.dropLast with
          | none => none
          | some q => (setItems fuel false none (rest.drop 1)).map fun r => (.named q :: r.1, r.2)
        else (setItems fuel false (some c) p).map fun r => (.range c c :: r.1, r.2)
      | _, _, _ => (setItems fuel false (some c) p).map fun r => (.range c c :: r.1, r.2)

/-- The parts of a pattern; each takes one character at least. -/
def tokens : ℕ → List Char → List Token
  | 0, _ => []
  | _ + 1, [] => []
  | fuel + 1, c :: p =>
    if c = '?' then .any :: tokens fuel p
    else if c = '*' then .star :: tokens fuel p
    else if c = backslash then
      match p with
      | [] => [.broken]
      | d :: p => .one d :: tokens fuel p
    else if c = '[' then
      let negated := p.head? = some '!' ∨ p.head? = some '^'
      match setItems p.length true none (if negated then p.drop 1 else p) with
      | none => [.broken]
      | some (items, rest) => .set negated items :: tokens fuel rest
    else .one c :: tokens fuel p

def starMatches (rest : List Char → Bool) : List Char → Bool
  | [] => rest []
  | c :: s => rest (c :: s) || starMatches rest s

def tokensMatch : List Token → List Char → Bool
  | [], s => s.isEmpty
  | .star :: ts, s => starMatches (tokensMatch ts) s
  | .any :: ts, s => match s with | [] => false | _ :: s => tokensMatch ts s
  | .one d :: ts, s => match s with | [] => false | c :: s => c = d && tokensMatch ts s
  | .set negated items :: ts, s =>
    match s with
    | [] => false
    | c :: s => (items.any (SetItem.accepts c)) != negated && tokensMatch ts s
  | .broken :: _, _ => false

/-- `wildmatch` without flags. -/
def wildmatch (p s : List Char) : Bool := tokensMatch (tokens p.length p) s

/-! ### Files -/

/-- The file itself, or a file below it. -/
def under (rel m : Name) : Bool := m = rel || (rel ++ ['/']).isPrefixOf m

/-- A character that makes a pattern of a path. -/
def globSpecial (c : Char) : Bool := c = '*' || c = '?' || c = '[' || c = backslash

/-- A pattern selects a file. -/
def pathspecMatches (p : List Char) (n : Name) : Bool :=
  p.isEmpty || under p n || (p.getLast? = some '/' && p.isPrefixOf n) ||
    (p.any globSpecial && wildmatch p n)

/-- How `git` reads patterns. -/
structure Git where
  /-- The patterns select the file. -/
  selects : List (List Char) → Name → Bool
  /-- One of the patterns is not valid, or leads out of the checkout. -/
  refuses : List (List Char) → Bool
  /-- One of the patterns matches none of the files. -/
  misses : List (List Char) → List Name → Bool

/-- Patterns without magic, that is, without a colon in front. -/
def Git.glob : Git where
  selects paths n := paths.any (pathspecMatches · n)
  refuses paths := paths.any fun p => p.head? = some '/' || "../".toList.isPrefixOf p
  misses paths names := paths.any fun p => !names.any (pathspecMatches p)

example : wildmatch "[a-c]?*[!x[:digit:]]".toList "b/ny".toList = true := by decide
example : wildmatch "\\303".toList "303".toList = true := by decide

end RmSync
