import Mathlib.Logic.Function.Basic
import RunnerDashboard.Lib.Path
import RunnerDashboard.PrivateMode.Transcripts

/-!
# What a transcript reads back as

An append counts the lines and writes one more, and another append may come in between.  A reader
finds all chunks exactly if none did.  Whoever rewrites the file without the key makes the reader
fail, or cuts the chunks at some line: nothing tells how many there were.

## Main results

* `decrypt_eq_some_iff` — a number is decrypted from its own chunk only.
* `readLines_eq_ok_iff` — **a reader finds a number of the first chunks, or fails**.
* `whole_iff` — **a reader finds all chunks exactly if the appends are undisturbed and the file is
  not truncated**.
-/

namespace Transcripts

open Py (Value)

/-! ### Runs -/

/-- A step of an append: it counts the lines, or it writes. -/
inductive Act
  | count (call : ℕ)
  | append (call : ℕ) (nonce : Nonce) (plaintext : Bytes)

/-- A thread, and what the calls under way have counted. -/
structure Sys where
  th : Thread
  counted : ℕ → Option ℕ

/-- The steps of the calls of `append_chunk`, in any order. -/
inductive Step (C : Cipher) (md : ThreadMetadata) : Sys → Act → Sys → Prop
  | count (y : Sys) (i : ℕ) {text : String} (h : y.th.chunks = some text) :
      Step C md y (.count i)
        { y with counted := Function.update y.counted i (some (countChunks text)) }
  | append (y : Sys) (i : ℕ) {text : String} {seq : ℕ} (nonce : Nonce) (plaintext : Bytes)
      (h : y.th.chunks = some text) (hi : y.counted i = some seq) :
      Step C md y (.append i nonce plaintext)
        ⟨writeChunk C y.th md text seq nonce plaintext, Function.update y.counted i none⟩

/-- What the calls append, in the order in which they write. -/
def appended : List Act → List Bytes
  | [] => []
  | .count _ :: acts => appended acts
  | .append _ _ plaintext :: acts => plaintext :: appended acts

/-- No call writes between the count of a call and its own write; `current` are the calls that have
counted since the last write. -/
def undisturbed : List ℕ → List Act → Bool
  | _, [] => true
  | current, .count i :: acts => undisturbed (i :: current) acts
  | current, .append i _ _ :: acts => decide (i ∈ current) && undisturbed [] acts

def oneByOne (calls : List (Nonce × Bytes)) : List Act :=
  calls.flatMap fun c => [.count 0, .append 0 c.1 c.2]

theorem undisturbed_oneByOne (calls : List (Nonce × Bytes)) :
    undisturbed [] (oneByOne calls) = true := by
  induction calls with
  | nil => rfl
  | cons c calls ih => simpa [oneByOne, undisturbed] using ih

section Runs

variable {C : Cipher} {md : ThreadMetadata}

theorem path_of_appendChunk {th th' : Thread} {plaintext : Bytes} {nonce : Nonce} {now : Int}
    {seq : ℕ} (hmd : loadMetadata th = .ok md)
    (h : appendChunk C th plaintext nonce now = .ok (seq, th')) :
    Lts.Path (Step C md) ⟨th, fun _ => none⟩ [.count 0, .append 0 nonce plaintext]
      ⟨th', fun _ => none⟩ := by
  unfold appendChunk at h
  rw [hmd] at h
  dsimp only at h
  split_ifs at h
  split at h
  · exact absurd h (by simp)
  · rename_i text htext
    split at h
    · exact absurd h (by simp)
    · simp only [Except.ok.injEq, Prod.mk.injEq] at h
      obtain ⟨rfl, rfl⟩ := h
      refine .cons (.count ⟨th, fun _ => none⟩ 0 htext) (.single ?_)
      have hwrite : Step C md
          ⟨th, Function.update (fun _ => none) 0 (some (countChunks text))⟩
            (.append 0 nonce plaintext)
          ⟨writeChunk C th md text (countChunks text) nonce plaintext,
            Function.update (Function.update (fun _ => none) 0 (some (countChunks text))) 0 none⟩ :=
        .append _ 0 nonce plaintext htext (by simp)
      rwa [Function.update_idem, Function.update_eq_self_iff.mpr rfl] at hwrite

end Runs

/-! ### The records of the chunks -/

/-- The records of encryptions that are numbered from `k` on. -/
def chunkRecords : ℕ → List Sealed → List (Int × Bytes × Bytes)
  | _, [] => []
  | k, b :: boxes => ((k : Int), b.nonce.1, b.ciphertext) :: chunkRecords (k + 1) boxes

/-- The lines of the file are the records of some of the first chunks, but not of all. -/
def Truncated (C : Cipher) (th : Thread) (text : String) : Prop :=
  ∃ n < th.boxes.length,
    (linesOf text).map (parseRecord C) = (chunkRecords 0 (th.boxes.take n)).map some

/-- Every encryption is under its own number. -/
def Numbered (th : Thread) (md : ThreadMetadata) : Prop :=
  ∀ i b, th.boxes[i]? = some b → b.aad = chunkAad th.threadId md.level i

section Reading

variable {C : Cipher} {md : ThreadMetadata} {th : Thread}

/-- **A number is decrypted from its own chunk only.** -/
theorem decrypt_eq_some_iff (hnum : Numbered th md) {nonce ciphertext plaintext : Bytes} {k : ℕ} :
    decrypt th.boxes nonce ciphertext (chunkAad th.threadId md.level k) = some plaintext ↔
      ∃ b, th.boxes[k]? = some b ∧ b.nonce.1 = nonce ∧ b.ciphertext = ciphertext ∧
        b.plaintext = plaintext := by
  -- whatever the search finds stands at the number
  have hat : ∀ b ∈ th.boxes, b.aad = chunkAad th.threadId md.level k → th.boxes[k]? = some b := by
    intro b hb haad
    obtain ⟨i, hi⟩ := List.mem_iff_getElem?.mp hb
    obtain rfl := chunkAad_injective _ _ ((hnum i b hi).symm.trans haad)
    exact hi
  unfold decrypt
  rw [Option.map_eq_some_iff]
  constructor
  · rintro ⟨b, hfind, rfl⟩
    have hp := List.find?_some hfind
    simp only [Bool.and_eq_true, decide_eq_true_eq] at hp
    exact ⟨b, hat b (List.mem_of_find?_eq_some hfind) hp.2.2, hp.1, hp.2.1, rfl⟩
  · rintro ⟨b, hb, hnonce, hciphertext, rfl⟩
    have haad := hnum k b hb
    have hsome : (th.boxes.find? fun b => decide (b.nonce.1 = nonce) &&
        (decide (b.ciphertext = ciphertext) &&
          decide (b.aad = chunkAad th.threadId md.level k))).isSome = true := by
      rw [List.find?_isSome]
      exact ⟨b, List.mem_of_getElem? hb, by simp [hnonce, hciphertext, haad]⟩
    obtain ⟨b', hfind⟩ := Option.isSome_iff_exists.mp hsome
    have hp := List.find?_some hfind
    simp only [Bool.and_eq_true, decide_eq_true_eq] at hp
    have hb' := hat b' (List.mem_of_find?_eq_some hfind) hp.2.2
    rw [hb] at hb'
    exact ⟨b', hfind, by rw [Option.some.inj hb']⟩

/-- A line is read if it is the record of the chunk that has its number. -/
theorem readLines_cons_eq_ok_iff (hnum : Numbered th md) {k : ℕ} {line : List Char}
    {lines : List (List Char)} {out : List Bytes} :
    readLines C th md k (line :: lines) = .ok out ↔ ∃ b out', th.boxes[k]? = some b ∧
      parseRecord C line = some ((k : Int), b.nonce.1, b.ciphertext) ∧
      readLines C th md (k + 1) lines = .ok out' ∧ out = b.plaintext :: out' := by
  rw [readLines]
  constructor
  · intro h
    split at h
    · exact absurd h (by simp)
    rename_i seq nonce ciphertext hparse
    split at h
    · exact absurd h (by simp)
    rename_i hseq
    split at h
    · exact absurd h (by simp)
    rename_i plaintext hdec
    obtain ⟨b, hb, rfl, rfl, rfl⟩ := (decrypt_eq_some_iff hnum).mp hdec
    rcases hrest : readLines C th md (k + 1) lines with e | out'
    · rw [hrest] at h
      exact absurd h (by simp [Except.map])
    · rw [hrest] at h
      obtain rfl : seq = (k : Int) := by
        by_contra hne
        exact hseq (.inl hne)
      exact ⟨b, out', hb, hparse, rfl, (Except.ok.inj h).symm⟩
  · rintro ⟨b, out', hb, hparse, hrest, rfl⟩
    have hdec : decrypt th.boxes b.nonce.1 b.ciphertext (chunkAad th.threadId md.level k)
        = some b.plaintext := (decrypt_eq_some_iff hnum).mpr ⟨b, hb, rfl, rfl, rfl⟩
    rw [hparse]
    dsimp only
    rw [if_neg (by simp [b.nonce.2]), hdec, hrest]
    rfl

/-- **A reader finds a number of the first chunks, or fails.** -/
theorem readLines_eq_ok_iff (hnum : Numbered th md) {front rest : List Sealed} {k : ℕ}
    {lines : List (List Char)} {out : List Bytes} (hboxes : th.boxes = front ++ rest)
    (hk : front.length = k) :
    readLines C th md k lines = .ok out ↔ ∃ n ≤ rest.length,
      lines.map (parseRecord C) = (chunkRecords k (rest.take n)).map some ∧
        out = (rest.take n).map Sealed.plaintext := by
  induction lines generalizing front rest k out with
  | nil =>
    rw [readLines, Except.ok.injEq]
    constructor
    · rintro rfl
      exact ⟨0, Nat.zero_le _, by simp [chunkRecords]⟩
    · rintro ⟨n, hn, hlines, rfl⟩
      rcases hrest : rest.take n with _ | ⟨b, boxes⟩
      · rfl
      · simp [hrest, chunkRecords] at hlines
  | cons line lines ih =>
    rw [readLines_cons_eq_ok_iff hnum]
    constructor
    · rintro ⟨b, out', hb, hparse, hread, rfl⟩
      obtain ⟨rest', rfl⟩ : ∃ rest', rest = b :: rest' := by
        rw [hboxes, List.getElem?_append_right hk.le, hk, Nat.sub_self] at hb
        rcases rest with _ | ⟨b', rest'⟩
        · exact absurd hb (by simp)
        · exact ⟨rest', by rw [Option.some.inj hb]⟩
      have hnext : th.boxes = (front ++ [b]) ++ rest' := by simp [hboxes]
      obtain ⟨n, hn, hlines, rfl⟩ := (ih hnext (by simp [hk])).mp hread
      refine ⟨n + 1, Nat.succ_le_succ hn, ?_, rfl⟩
      rw [List.map_cons, hparse, hlines]
      rfl
    · rintro ⟨n, hn, hlines, rfl⟩
      rcases rest with _ | ⟨b, rest'⟩
      · simp [chunkRecords] at hlines
      rcases n with _ | n
      · simp [chunkRecords] at hlines
      rw [List.take_succ_cons, chunkRecords, List.map_cons, List.map_cons,
        List.cons.injEq] at hlines
      refine ⟨b, _, by simp [hboxes, ← hk], hlines.1, ?_, rfl⟩
      have hnext : th.boxes = (front ++ [b]) ++ rest' := by simp [hboxes]
      exact (ih hnext (by simp [hk])).mpr ⟨n, Nat.le_of_succ_le_succ hn, hlines.2, rfl⟩

end Reading

/-! ### The file of a run -/

def fileOf (l : List (ℕ × Sealed)) : List Char :=
  l.flatMap fun x => chunkLine x.1 x.2.nonce.1 x.2.ciphertext ++ ['\n']

theorem splitLines_fileOf (l : List (ℕ × Sealed)) :
    Py.splitLines (fileOf l) = l.map fun x => chunkLine x.1 x.2.nonce.1 x.2.ciphertext := by
  induction l with
  | nil => rfl
  | cons x l ih =>
    have hcons : fileOf (x :: l)
        = chunkLine x.1 x.2.nonce.1 x.2.ciphertext ++ '\n' :: fileOf l := by simp [fileOf]
    rw [hcons, Py.splitLines_append_newline (isLineBreak_chunkLine _ _ _), ih, List.map_cons]

theorem linesOf_fileOf (l : List (ℕ × Sealed)) :
    linesOf (String.ofList (fileOf l))
      = l.map fun x => chunkLine x.1 x.2.nonce.1 x.2.ciphertext := by
  rw [linesOf, String.toList_ofList, splitLines_fileOf]

theorem countChunks_fileOf (l : List (ℕ × Sealed)) :
    countChunks (String.ofList (fileOf l)) = l.length := by
  rw [countChunks, linesOf_fileOf, List.countP_map, List.countP_eq_length.mpr]
  intro x _
  exact decide_eq_true (stripChars_chunkLine _ _ _)

/-- The file and the encryptions of a thread. -/
structure Written (md : ThreadMetadata) (th : Thread) (l : List (ℕ × Sealed)) : Prop where
  chunks : th.chunks = some (String.ofList (fileOf l))
  boxes : th.boxes = l.map Prod.snd
  aad : ∀ x ∈ l, x.2.aad = chunkAad th.threadId md.level x.1

/-- The numbers of the lines are right. -/
def InOrder (l : List (ℕ × Sealed)) : Prop :=
  ∀ (j : ℕ) (x : ℕ × Sealed), l[j]? = some x → x.1 = j

/-- The calls in `current`, and no others, have counted all lines. -/
structure Counts (current : List ℕ) (counted : ℕ → Option ℕ) (n : ℕ) : Prop where
  le : ∀ i seq, counted i = some seq → seq ≤ n
  current : ∀ i, i ∈ current ↔ counted i = some n

section Runs

variable {C : Cipher} {md : ThreadMetadata} {th : Thread} {l : List (ℕ × Sealed)} {y y' : Sys}

theorem written_writeChunk (h : Written md th l) (seq : ℕ) (nonce : Nonce) (plaintext : Bytes) :
    ∃ b, b.plaintext = plaintext ∧
      Written md (writeChunk C th md (String.ofList (fileOf l)) seq nonce plaintext)
        (l ++ [(seq, b)]) := by
  refine ⟨⟨nonce, plaintext, chunkAad th.threadId md.level seq,
    C.encrypt nonce.1 plaintext (chunkAad th.threadId md.level seq)⟩, rfl, ?_, ?_, fun x hx => ?_⟩
  · simp [writeChunk, fileOf, String.ofList_append]
  · simp [writeChunk, h.boxes]
  · rcases List.mem_append.mp hx with hx | hx
    · exact h.aad x hx
    · obtain rfl := List.mem_singleton.mp hx
      rfl

theorem written_path {acts : List Act} (p : Lts.Path (Step C md) y acts y')
    (hw : Written md y.th l) :
    ∃ l', Written md y'.th (l ++ l') ∧ l'.map (fun x => x.2.plaintext) = appended acts := by
  induction p generalizing l with
  | nil => exact ⟨[], by simpa using hw, rfl⟩
  | cons h _ ih =>
    cases h with
    | count i htext => exact ih hw
    | append i nonce plaintext htext hi =>
      obtain rfl := Option.some.inj (hw.chunks.symm.trans htext)
      obtain ⟨b, hb, hw'⟩ := written_writeChunk hw _ nonce plaintext
      obtain ⟨l', hl', happ⟩ := ih hw'
      refine ⟨(_, b) :: l', by simpa using hl', ?_⟩
      rw [List.map_cons, happ, appended, hb]

theorem Counts.count {current : List ℕ} {counted : ℕ → Option ℕ} {n : ℕ}
    (h : Counts current counted n) (i : ℕ) :
    Counts (i :: current) (Function.update counted i (some n)) n := by
  constructor
  · intro j seq hj
    by_cases hji : j = i
    · subst hji
      rw [Function.update_self] at hj
      exact (Option.some.inj hj).ge
    · rw [Function.update_of_ne hji] at hj
      exact h.le j seq hj
  · intro j
    by_cases hji : j = i
    · simp [hji]
    · rw [List.mem_cons, Function.update_of_ne hji, ← h.current j]
      simp [hji]

theorem Counts.append {current : List ℕ} {counted : ℕ → Option ℕ} {n : ℕ}
    (h : Counts current counted n) (i : ℕ) :
    Counts [] (Function.update counted i none) (n + 1) := by
  have hle : ∀ j seq, Function.update counted i none j = some seq → seq ≤ n := by
    intro j seq hj
    by_cases hji : j = i
    · simp [hji] at hj
    · rw [Function.update_of_ne hji] at hj
      exact h.le j seq hj
  constructor
  · exact fun j seq hj => Nat.le_succ_of_le (hle j seq hj)
  · refine fun j => iff_of_false (by simp) fun hj => ?_
    have := hle j _ hj
    omega

theorem inOrder_snoc {x : ℕ × Sealed} (h : InOrder l) (hx : x.1 = l.length) :
    InOrder (l ++ [x]) := by
  intro j x' hj
  rcases Nat.lt_trichotomy j l.length with hlt | rfl | hgt
  · exact h j x' (by rwa [List.getElem?_append_left hlt] at hj)
  · simp only [List.getElem?_concat_length, Option.some.injEq] at hj
    rw [← hj, hx]
  · rw [List.getElem?_eq_none (by simp; omega)] at hj
    exact absurd hj (by simp)

/-- **The numbers of the lines are right exactly if the appends are undisturbed.** -/
theorem inOrder_path_iff {acts : List Act} {current : List ℕ}
    (p : Lts.Path (Step C md) y acts y') (hw : Written md y.th l) (hin : InOrder l)
    (hcounts : Counts current y.counted l.length) :
    ∃ l', Written md y'.th (l ++ l') ∧ l'.map (fun x => x.2.plaintext) = appended acts ∧
      (InOrder (l ++ l') ↔ undisturbed current acts = true) := by
  induction p generalizing l current with
  | nil => exact ⟨[], by simpa using hw, rfl, by simpa [undisturbed] using hin⟩
  | @cons y t _ _ _ h p ih =>
    cases h with
    | count i htext =>
      obtain rfl := Option.some.inj (hw.chunks.symm.trans htext)
      rw [countChunks_fileOf] at p ih
      exact ih hw hin (hcounts.count i)
    | @append i text seq nonce plaintext htext hi =>
      obtain rfl := Option.some.inj (hw.chunks.symm.trans htext)
      obtain ⟨b, hb, hw'⟩ := written_writeChunk (C := C) hw seq nonce plaintext
      by_cases hcur : i ∈ current
      · -- the number is the one of the line
        obtain rfl : l.length = seq := Option.some.inj (((hcounts.current i).mp hcur).symm.trans hi)
        have hcounts' :
          Counts [] (Function.update y.counted i none) (l ++ [(l.length, b)]).length := by
          rw [List.length_append, List.length_singleton]
          exact hcounts.append i
        obtain ⟨l', hl', happ, hiff⟩ := ih hw' (inOrder_snoc hin rfl) hcounts'
        refine ⟨(l.length, b) :: l', by simpa using hl', ?_, ?_⟩
        · rw [List.map_cons, happ, appended, hb]
        · simpa [undisturbed, hcur] using hiff
      · -- the number is the one of an earlier line, and stays
        obtain ⟨l', hl', happ⟩ := written_path p hw'
        refine ⟨(seq, b) :: l', by simpa using hl', by rw [List.map_cons, happ, appended, hb], ?_⟩
        refine iff_of_false (fun hall => ?_) (by simp [undisturbed, hcur])
        have hseq := hall l.length (seq, b) (by simp)
        dsimp only at hseq
        exact hcur ((hcounts.current i).mpr (hseq ▸ hi))

/-- A reader that gets through a file has found every line under its number. -/
theorem inOrder_of_readLines {k : ℕ} {out : List Bytes}
    (h : readLines C th md k (l.map fun x => chunkLine x.1 x.2.nonce.1 x.2.ciphertext) = .ok out) :
    ∀ (j : ℕ) (x : ℕ × Sealed), l[j]? = some x → x.1 = k + j := by
  induction l generalizing k out with
  | nil => simp
  | cons x₀ l ih =>
    rw [List.map_cons, readLines, parseRecord_chunkLine] at h
    dsimp only at h
    split at h
    · exact absurd h (by simp)
    rename_i hseq
    split at h
    · exact absurd h (by simp)
    rcases hrest : readLines C th md (k + 1)
      (l.map fun x => chunkLine x.1 x.2.nonce.1 x.2.ciphertext) with e | out'
    · rw [hrest] at h
      exact absurd h (by simp [Except.map])
    · intro j x hj
      rcases j with _ | j
      · simp only [List.getElem?_cons_zero, Option.some.injEq] at hj
        subst hj
        by_contra hne
        exact hseq (.inl (by omega))
      · rw [List.getElem?_cons_succ] at hj
        have := ih hrest j x hj
        omega

theorem numbered_of_inOrder (hw : Written md th l) (hin : InOrder l) : Numbered th md := by
  intro i b hb
  rw [hw.boxes, List.getElem?_map, Option.map_eq_some_iff] at hb
  obtain ⟨x, hx, rfl⟩ := hb
  rw [hw.aad x (List.mem_of_getElem? hx), hin i x hx]

theorem map_parseRecord_fileOf {k : ℕ}
    (hin : ∀ (j : ℕ) (x : ℕ × Sealed), l[j]? = some x → x.1 = k + j) :
    (l.map fun x => chunkLine x.1 x.2.nonce.1 x.2.ciphertext).map (parseRecord C)
      = (chunkRecords k (l.map Prod.snd)).map some := by
  induction l generalizing k with
  | nil => rfl
  | cons x l ih =>
    obtain ⟨seq, b⟩ := x
    obtain rfl : seq = k := hin 0 _ rfl
    have hrest : ∀ (j : ℕ) (x : ℕ × Sealed), l[j]? = some x → x.1 = seq + 1 + j := by
      intro j x hj
      rw [hin (j + 1) x (by simpa using hj)]
      omega
    rw [List.map_cons, List.map_cons, List.map_cons, chunkRecords, List.map_cons, ih hrest,
      parseRecord_chunkLine]

theorem readLines_fileOf (hw : Written md th l) (hin : InOrder l) :
    readLines C th md 0 (linesOf (String.ofList (fileOf l)))
      = .ok (l.map fun x => x.2.plaintext) := by
  rw [linesOf_fileOf]
  refine (readLines_eq_ok_iff (numbered_of_inOrder hw hin) (List.nil_append _).symm rfl).mpr
    ⟨l.length, by simp [hw.boxes], ?_, ?_⟩
  · rw [hw.boxes, List.take_of_length_le (by simp)]
    apply map_parseRecord_fileOf
    intro j x hj
    rw [hin j x hj]
    simp
  · rw [hw.boxes, List.take_of_length_le (by simp), List.map_map]
    rfl

end Runs

/-! ### The reader -/

/-- A caller with the right to read, before the thread expires, while the key can be unwrapped. -/
structure Admitted (authorizer : Option (String → String → List String → Bool)) (th : Thread)
    (md : ThreadMetadata) (principal : String) (now : Int) : Prop where
  validId : validThreadId th.threadId = true
  named : Py.strip principal ≠ ""
  enabled : th.enabled = true
  metadata : loadMetadata th = .ok md
  allowed : allowed authorizer th.threadId (Py.strip principal) md = true
  unexpired : now < md.expiresAt
  unavailable : th.unavailable = none

def rewrite (th : Thread) (text : String) : Thread := { th with chunks := some text }

section Reader

variable {C : Cipher} {md : ThreadMetadata} {th : Thread} {y y' : Sys}
  {principal : String} {now : Int}
  {authorizer : Option (String → String → List String → Bool)}

theorem readChunks_of_admitted (h : Admitted authorizer th md principal now) {text : String}
    (htext : th.chunks = some text) :
    readChunks C authorizer th principal now = readLines C th md 0 (linesOf text) := by
  rw [readChunks, h.validId, h.enabled, h.metadata, h.unavailable, htext]
  dsimp only
  rw [h.allowed]
  simp [h.named, h.unexpired.not_ge]

theorem readLines_rewrite (text : String) (k : ℕ) (lines : List (List Char)) :
    readLines C (rewrite th text) md k lines = readLines C th md k lines := by
  induction lines generalizing k with
  | nil => rfl
  | cons line lines ih =>
    simp only [readLines, ih]
    rfl

/-- An append leaves alone what admits a reader, and so does whoever rewrites the file. -/
theorem Admitted.step {a : Act} (h : Admitted authorizer y.th md principal now)
    (hstep : Step C md y a y') : Admitted authorizer y'.th md principal now := by
  cases hstep with
  | count i htext => exact h
  | append i nonce plaintext htext hi =>
    exact ⟨h.validId, h.named, h.enabled, h.metadata, h.allowed, h.unexpired, h.unavailable⟩

theorem Admitted.rewrite (h : Admitted authorizer th md principal now) (text : String) :
    Admitted authorizer (rewrite th text) md principal now :=
  ⟨h.validId, h.named, h.enabled, h.metadata, h.allowed, h.unexpired, h.unavailable⟩

/-- **A reader finds all chunks exactly if the appends are undisturbed and the file is not
truncated.** -/
theorem whole_iff {acts : List Act} (hchunks : y.th.chunks = some "") (hboxes : y.th.boxes = [])
    (hidle : ∀ i, y.counted i = none) (hadm : Admitted authorizer y.th md principal now)
    (p : Lts.Path (Step C md) y acts y') :
    (readChunks C authorizer y'.th principal now = .ok (appended acts) ↔
        undisturbed [] acts = true) ∧
      (undisturbed [] acts = true → ∀ text,
        (∀ out, readChunks C authorizer (rewrite y'.th text) principal now = .ok out →
            out = appended acts) ↔
          ¬ Truncated C y'.th text) := by
  have hw₀ : Written md y.th [] := ⟨hchunks, hboxes, by simp⟩
  have hin₀ : InOrder [] := by
    intro j x hj
    exact absurd hj (by simp)
  have hcounts₀ : Counts [] y.counted 0 := ⟨by simp [hidle], by simp [hidle]⟩
  obtain ⟨l, hw, happ, hiff⟩ := inOrder_path_iff p hw₀ hin₀ hcounts₀
  rw [List.nil_append] at hw hiff
  have hadm' : Admitted authorizer y'.th md principal now :=
    p.invariant (I := fun z => Admitted authorizer z.th md principal now)
      (fun _ _ _ hz hstep => hz.step hstep) hadm
  refine ⟨?_, fun hund text => ?_⟩
  · rw [readChunks_of_admitted hadm' hw.chunks, ← hiff, ← happ]
    constructor
    · intro hread j x hj
      rw [linesOf_fileOf] at hread
      rw [inOrder_of_readLines hread j x hj, Nat.zero_add]
    · exact readLines_fileOf hw
  · have hin := hiff.mpr hund
    have hall : y'.th.boxes.map Sealed.plaintext = appended acts := by
      rw [hw.boxes, List.map_map, ← happ]
      rfl
    -- what a reader finds is a number of the first chunks
    have hread : ∀ out, readChunks C authorizer (rewrite y'.th text) principal now = .ok out ↔
        ∃ n ≤ y'.th.boxes.length,
          (linesOf text).map (parseRecord C) = (chunkRecords 0 (y'.th.boxes.take n)).map some ∧
            out = (y'.th.boxes.take n).map Sealed.plaintext := by
      intro out
      rw [readChunks_of_admitted (hadm'.rewrite text) rfl, readLines_rewrite]
      exact readLines_eq_ok_iff (numbered_of_inOrder hw hin) (List.nil_append _).symm rfl
    constructor
    · rintro hwhole ⟨n, hn, hlines⟩
      have hout := hwhole _ ((hread _).mpr ⟨n, hn.le, hlines, rfl⟩)
      have hlen := congrArg List.length hout
      rw [← hall, List.length_map, List.length_map, List.length_take] at hlen
      omega
    · intro hnot out hout
      obtain ⟨n, hn, hlines, rfl⟩ := (hread out).mp hout
      rcases hn.lt_or_eq with hlt | rfl
      · exact absurd ⟨n, hlt, hlines⟩ hnot
      · rw [List.take_length, hall]

end Reader

/-! ### A thread of its own -/

def plainCipher : Cipher where
  encrypt := fun _ plaintext _ => plaintext
  intOf := fun _ => none
  loads := fun s => (Json.loads s).map Value.ofJson
  loads_line := map_loads_chunkLine

def zeroNonce : Nonce := ⟨List.replicate 12 0, rfl⟩

def oneNonce : Nonce := ⟨List.replicate 12 1, rfl⟩

/-- Readable by `p` before the time 9. -/
def sensitiveMetadata : ThreadMetadata := ⟨"SENSITIVE", 9, ["p"]⟩

def newThread : Thread := ⟨"t", true, false, .valid sensitiveMetadata, none, some "", []⟩

def firstWritten : Thread := writeChunk plainCipher newThread sensitiveMetadata "" 0 zeroNonce [1]

theorem admitted_newThread : Admitted none newThread sensitiveMetadata "p" 0 :=
  ⟨by decide +kernel, by decide +kernel, rfl, rfl, by decide +kernel, by decide, rfl⟩

theorem path_newThread :
    Lts.Path (Step plainCipher sensitiveMetadata) ⟨newThread, fun _ => none⟩
      (oneByOne [(zeroNonce, [1])])
      ⟨firstWritten, Function.update (Function.update (fun _ => none) 0 (some 0)) 0 none⟩ :=
  .cons (.count ⟨newThread, fun _ => none⟩ 0 rfl) (.single (.append _ 0 zeroNonce [1] rfl rfl))

/-- What was appended is read. -/
theorem whole_newThread : readChunks plainCipher none firstWritten "p" 0 = .ok [[1]] :=
  (whole_iff rfl rfl (fun _ => rfl) admitted_newThread path_newThread).1.mpr
    (undisturbed_oneByOne _)

/-- An emptied file is read as a thread without chunks, and of two appends that have counted the
same lines the second makes the thread unreadable. -/
theorem not_whole :
    (∃ y, Lts.Path (Step plainCipher sensitiveMetadata) ⟨newThread, fun _ => none⟩
        (oneByOne [(zeroNonce, [1])]) y ∧
      readChunks plainCipher none (rewrite y.th "") "p" 0 = .ok [] ∧
      appended (oneByOne [(zeroNonce, [1])]) = [[1]]) ∧
    ∃ y, Lts.Path (Step plainCipher sensitiveMetadata) ⟨newThread, fun _ => none⟩
        [.count 0, .count 1, .append 0 zeroNonce [1], .append 1 oneNonce [2]] y ∧
      readChunks plainCipher none y.th "p" 0
        = .error (.integrity "chunk sequence mismatch at 1") := by
  constructor
  · exact ⟨_, path_newThread, by decide +kernel, rfl⟩
  · have htext : firstWritten.chunks
        = some (String.ofList (chunkLine 0 zeroNonce.1 [1] ++ ['\n'])) := by
      rw [firstWritten, writeChunk, String.empty_append]
      rfl
    have hfirst : Step plainCipher sensitiveMetadata
        ⟨newThread, Function.update (Function.update (fun _ => none) 0 (some 0)) 1 (some 0)⟩
        (.append 0 zeroNonce [1]) ⟨firstWritten, _⟩ := .append _ 0 zeroNonce [1] rfl rfl
    have hsecond : Step plainCipher sensitiveMetadata
        ⟨firstWritten,
          Function.update (Function.update (Function.update (fun _ => none) 0 (some 0)) 1
          (some 0)) 0 none⟩ (.append 1 oneNonce [2]) _ := .append _ 1 oneNonce [2] htext rfl
    exact ⟨_, .cons (.count _ 0 rfl) (.cons (.count _ 1 rfl) (.cons hfirst (.single hsecond))),
      by decide +kernel⟩

end Transcripts
