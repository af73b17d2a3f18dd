import Mathlib.Data.List.Basic
import Mathlib.Tactic.IntervalCases

/-!
# URL-safe base64

The texts that `base64.urlsafe_b64encode` writes, and the reader `base64.urlsafe_b64decode`, which
skips every character outside the alphabet and stops at the padding.

## Main definitions

* `Base64.encode` — the text of some bytes.
* `Base64.decode` — the reader.

## Main results

* `Base64.decode_encode` — what was written reads back.
* `Base64.ascii_of_mem_encode` — a text is plain ASCII.
-/

namespace Base64

/-- The character of six bits. -/
def digit (n : ℕ) : Char :=
  if n < 26 then Char.ofNat (65 + n)
  else if n < 52 then Char.ofNat (71 + n)
  else if n < 62 then Char.ofNat (n - 4)
  else if n = 62 then '-'
  else '_'

/-- The six bits of a character, also of the other alphabet. -/
def value? (c : Char) : Option ℕ :=
  let n := c.toNat
  if 65 ≤ n ∧ n ≤ 90 then some (n - 65)
  else if 97 ≤ n ∧ n ≤ 122 then some (n - 71)
  else if 48 ≤ n ∧ n ≤ 57 then some (n + 4)
  else if c = '-' ∨ c = '+' then some 62
  else if c = '_' ∨ c = '/' then some 63
  else none

/-- Three bytes are four characters; a rest is padded. -/
def encode : List UInt8 → List Char
  | [] => []
  | [a] => [digit (a.toNat / 4), digit (a.toNat % 4 * 16), '=', '=']
  | [a, b] =>
    [digit (a.toNat / 4), digit (a.toNat % 4 * 16 + b.toNat / 16), digit (b.toNat % 16 * 4), '=']
  | a :: b :: c :: bytes =>
    digit (a.toNat / 4) :: digit (a.toNat % 4 * 16 + b.toNat / 16) ::
      digit (b.toNat % 16 * 4 + c.toNat / 64) :: digit (c.toNat % 64) :: encode bytes

/-- The reader, after `pos` characters of a group of four, with `left` not yet written and `pads`
signs of padding. -/
def decodeFrom (pos left pads : ℕ) : List Char → Option (List UInt8)
  | [] => if pos = 0 then some [] else none
  | c :: cs =>
    if c = '=' then
      if pos < 2 then decodeFrom pos left pads cs
      else if 4 ≤ pos + (pads + 1) then some []
      else decodeFrom pos left (pads + 1) cs
    else
      match value? c with
      | none => decodeFrom pos left pads cs
      | some v =>
        match pos with
        | 0 => decodeFrom 1 v 0 cs
        | 1 => (decodeFrom 2 (v % 16) 0 cs).map (UInt8.ofNat (left * 4 + v / 16) :: ·)
        | 2 => (decodeFrom 3 (v % 4) 0 cs).map (UInt8.ofNat (left * 16 + v / 4) :: ·)
        | _ => (decodeFrom 0 0 0 cs).map (UInt8.ofNat (left * 64 + v) :: ·)

/-- `urlsafe_b64decode`. -/
def decode (text : List Char) : Option (List UInt8) := decodeFrom 0 0 0 text

theorem value?_digit : ∀ n < 64, value? (digit n) = some n ∧ digit n ≠ '=' := by decide

section Steps

variable {n pos left pads : ℕ} {cs : List Char}

theorem decodeFrom_digit (h : n < 64) : decodeFrom pos left pads (digit n :: cs) =
    match pos with
    | 0 => decodeFrom 1 n 0 cs
    | 1 => (decodeFrom 2 (n % 16) 0 cs).map (UInt8.ofNat (left * 4 + n / 16) :: ·)
    | 2 => (decodeFrom 3 (n % 4) 0 cs).map (UInt8.ofNat (left * 16 + n / 4) :: ·)
    | _ => (decodeFrom 0 0 0 cs).map (UInt8.ofNat (left * 64 + n) :: ·) := by
  rw [decodeFrom, if_neg (value?_digit n h).2, (value?_digit n h).1]

theorem decodeFrom_zero (h : n < 64) :
    decodeFrom 0 left pads (digit n :: cs) = decodeFrom 1 n 0 cs := decodeFrom_digit h

theorem decodeFrom_one (h : n < 64) : decodeFrom 1 left pads (digit n :: cs) =
    (decodeFrom 2 (n % 16) 0 cs).map (UInt8.ofNat (left * 4 + n / 16) :: ·) := decodeFrom_digit h

theorem decodeFrom_two (h : n < 64) : decodeFrom 2 left pads (digit n :: cs) =
    (decodeFrom 3 (n % 4) 0 cs).map (UInt8.ofNat (left * 16 + n / 4) :: ·) := decodeFrom_digit h

theorem decodeFrom_three (h : n < 64) : decodeFrom 3 left pads (digit n :: cs) =
    (decodeFrom 0 0 0 cs).map (UInt8.ofNat (left * 64 + n) :: ·) := decodeFrom_digit h

end Steps

theorem ofNat_split {a : UInt8} {n : ℕ} (h : n = a.toNat) : UInt8.ofNat n = a := by
  rw [h, UInt8.ofNat_toNat]

/-- **What was written reads back.** -/
theorem decode_encode (bytes : List UInt8) : decode (encode bytes) = some bytes := by
  unfold decode
  induction bytes using encode.induct with
  | case1 => rfl
  | case2 a =>
    have ha := a.toNat_lt
    rw [encode, decodeFrom_zero (by omega), decodeFrom_one (by omega),
      ofNat_split (show _ = a.toNat by omega)]
    rfl
  | case3 a b =>
    have ha := a.toNat_lt
    have hb := b.toNat_lt
    rw [encode, decodeFrom_zero (by omega), decodeFrom_one (by omega), decodeFrom_two (by omega),
      ofNat_split (show _ = a.toNat by omega), ofNat_split (show _ = b.toNat by omega)]
    rfl
  | case4 a b c bytes ih =>
    have ha := a.toNat_lt
    have hb := b.toNat_lt
    have hc := c.toNat_lt
    rw [encode, decodeFrom_zero (by omega), decodeFrom_one (by omega), decodeFrom_two (by omega),
      decodeFrom_three (by omega), ofNat_split (show _ = a.toNat by omega),
      ofNat_split (show _ = b.toNat by omega), ofNat_split (show _ = c.toNat by omega), ih]
    rfl

theorem encode_ne_nil {bytes : List UInt8} (h : bytes ≠ []) : encode bytes ≠ [] := by
  cases bytes with
  | nil => exact absurd rfl h
  | cons a bytes =>
    rcases bytes with _ | ⟨b, _ | ⟨c, bytes⟩⟩ <;> exact List.cons_ne_nil _ _

theorem digit_ascii : ∀ n < 64, (digit n).toNat < 128 := by decide

theorem ascii_of_mem_encode (bytes : List UInt8) : ∀ c ∈ encode bytes, c.toNat < 128 := by
  have hpad : '='.toNat < 128 := by decide
  induction bytes using encode.induct with
  | case1 => exact nofun
  | case2 a =>
    have ha := a.toNat_lt
    simp only [encode, List.forall_mem_cons]
    exact ⟨digit_ascii _ (by omega), digit_ascii _ (by omega), hpad, hpad, nofun⟩
  | case3 a b =>
    have ha := a.toNat_lt
    have hb := b.toNat_lt
    simp only [encode, List.forall_mem_cons]
    exact ⟨digit_ascii _
      (by omega), digit_ascii _ (by omega), digit_ascii _ (by omega), hpad, nofun⟩
  | case4 a b c bytes ih =>
    have ha := a.toNat_lt
    have hb := b.toNat_lt
    have hc := c.toNat_lt
    simp only [encode, List.forall_mem_cons]
    exact ⟨digit_ascii _ (by omega), digit_ascii _ (by omega), digit_ascii _ (by omega),
      digit_ascii _ (by omega), ih⟩

end Base64
