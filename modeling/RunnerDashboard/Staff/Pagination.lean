import Mathlib.Data.Prod.Lex
import Mathlib.Data.String.Basic
import RunnerDashboard.Lib.Base64
import RunnerDashboard.Lib.Json
import RunnerDashboard.Lib.Keyset

/-!
# Cursor pages

The pages of a list that is sorted from newest to oldest, and the cursors that are handed out with
a page.  A cursor is base64 of a JSON text with a timestamp and an identifier; it stands for the
items below that pair.

## Main results

* `decodeCursor_encodeCursor` — what was encoded is decoded.
* `reversible_iff` — **`prev_cursor` leads back exactly if there is only one page**.
-/

namespace Pagination

structure CursorPage (α : Type*) where
  items : List α
  nextCursor : Option String
  prevCursor : Option String
  hasMore : Bool

inductive PageError
  /-- The assertion that the limit is positive. -/
  | limit
  /-- 400, `invalid_cursor`. -/
  | invalidCursor

/-! ### Cursors -/

def encodeCursor (createdAt itemId : String) : String :=
  let payload := (Json.obj [("ts", .str createdAt), ("id", .str itemId)]).dumps
  String.ofList (Base64.encode payload.toByteArray.data.toList)

def cursorValue (cursor : String) : Option Json :=
  if cursor.toList.all fun c => c.toNat < 128 then
    (Base64.decode cursor.toList).bind fun bytes =>
      (String.fromUTF8? ⟨bytes.toArray⟩).bind Json.loads
  else none

/-- `str(v)`; `other` is for the values that are no texts. -/
def strOf (other : Json → String) : Json → String
  | .str s => s
  | v => other v

variable (other : Json → String)

def decodeCursor (cursor : String) : Except PageError (String × String) :=
  match cursorValue cursor with
  | none => .error .invalidCursor
  | some data =>
    match data.field? "ts", data.field? "id" with
    | some ts, some itemId => .ok (strOf other ts, strOf other itemId)
    | _, _ => .error .invalidCursor

theorem decodeCursor_encodeCursor (createdAt itemId : String) :
    decodeCursor other (encodeCursor createdAt itemId) = .ok (createdAt, itemId) := by
  have hvalue : cursorValue (encodeCursor createdAt itemId) =
      some (Json.obj [("ts", .str createdAt), ("id", .str itemId)]) := by
    unfold cursorValue encodeCursor
    rw [String.toList_ofList, if_pos, Base64.decode_encode, Option.bind_some]
    · generalize hv : Json.obj [("ts", .str createdAt), ("id", .str itemId)] = v
      have hutf8 : String.fromUTF8? ⟨v.dumps.toByteArray.data.toList.toArray⟩ = some v.dumps :=
        dif_pos v.dumps.isValidUTF8
      rw [hutf8, Option.bind_some]
      exact Json.loads_render true v
    · rw [List.all_eq_true]
      exact fun c hc => decide_eq_true (Base64.ascii_of_mem_encode _ c hc)
  unfold decodeCursor
  rw [hvalue]
  rfl

theorem encodeCursor_ne_empty (createdAt itemId : String) : encodeCursor createdAt itemId ≠ "" := by
  intro h
  have hbytes : Base64.encode
      (Json.obj [("ts", .str createdAt), ("id", .str itemId)]).dumps.toByteArray.data.toList = [] :=
    String.ofList_eq_empty_iff.mp h
  have hne : ∀ v : Json, v.dumps.toByteArray.data.toList ≠ [] := by
    intro v hnil
    apply Json.dumps_ne_empty v
    apply String.toByteArray_inj.mp
    exact ByteArray.ext (Array.toList_inj.mp hnil)
  exact Base64.encode_ne_nil (hne _) hbytes

/-! ### Pages -/

variable {α : Type*}

def older (item cur : String × String) : Bool :=
  item.1 < cur.1 ∨ item.1 = cur.1 ∧ item.2 < cur.2

def startIdx (keyFn : α → String × String) (items : List α) :
    Option String → Except PageError ℕ
  | none => .ok 0
  | some cursor =>
    if cursor = "" then .ok 0
    else
      match decodeCursor other cursor with
      | .error e => .error e
      | .ok cur => .ok (items.findIdx fun x => older (keyFn x) cur)

def paginateItems (keyFn : α → String × String) (items : List α) (limit : ℕ)
    (cursor : Option String) : Except PageError (CursorPage α) :=
  if limit = 0 then .error .limit
  else
    match startIdx other keyFn items cursor with
    | .error e => .error e
    | .ok start =>
      let page := (items.drop start).take limit
      let cursorOf := fun x => encodeCursor (keyFn x).1 (keyFn x).2
      .ok {
        items := page
        nextCursor := if start + limit < items.length then page.getLast?.map cursorOf else none
        prevCursor := if 0 < start then page.head?.map cursorOf else none
        hasMore := start + limit < items.length }

/-- The pages met by following `next_cursor` until it is absent. -/
inductive Follow (fetch : Option String → Except PageError (CursorPage α)) :
    Option String → List (CursorPage α) → Prop
  | last {c : Option String} {p : CursorPage α} (h : fetch c = .ok p)
      (hnext : p.nextCursor = none) :
      Follow fetch c [p]
  | more {c : Option String} {c' : String} {p : CursorPage α} {pages : List (CursorPage α)}
      (h : fetch c = .ok p) (hnext : p.nextCursor = some c') (w : Follow fetch (some c') pages) :
      Follow fetch c (p :: pages)

/-- The cursors met by following `next_cursor` from the start. -/
inductive Reached (fetch : Option String → Except PageError (CursorPage α)) : Option String → Prop
  | first : Reached fetch none
  | next {c : Option String} {c' : String} {p : CursorPage α} (r : Reached fetch c)
      (h : fetch c = .ok p) (hnext : p.nextCursor = some c') : Reached fetch (some c')

variable {other} {keyFn : α → String × String} {items : List α} {limit : ℕ}

abbrev pages (other : Json → String) (keyFn : α → String × String) (items : List α) (limit : ℕ) :=
  paginateItems other keyFn items limit

/-- `next_cursor` leads through the list page by page, and `prev_cursor` leads back. -/
structure Reversible (other : Json → String) (keyFn : α → String × String) (items : List α)
    (limit : ℕ) : Prop where
  /-- The page of `prev_cursor` has the items of the page before. -/
  back : ∀ c c' p p', Reached (pages other keyFn items limit) c →
    pages other keyFn items limit c = .ok p → p.nextCursor = some c' →
    pages other keyFn items limit (some c') = .ok p' → ∃ b q, p'.prevCursor = some b ∧
      pages other keyFn items limit (some b) = .ok q ∧ q.items = p.items
  /-- Only the first page has no `prev_cursor`. -/
  first : ∀ c p, Reached (pages other keyFn items limit) c →
    pages other keyFn items limit c = .ok p → (p.prevCursor = none ↔ c = none)
  /-- The pages cut the list. -/
  partition : ∃ ps, Follow (pages other keyFn items limit) none ps ∧
    (ps.map CursorPage.items).flatten = items

/-! ### Pages of the keys -/

/-- The key of an item, as one ordered value. -/
def lexKey (keyFn : α → String × String) (x : α) : String ×ₗ String := toLex (keyFn x)

def cursorOf (k : String ×ₗ String) : String := encodeCursor (ofLex k).1 (ofLex k).2

theorem older_iff {x cur : String × String} : older x cur = true ↔ toLex x < toLex cur := by
  unfold older
  rw [decide_eq_true_eq, Prod.Lex.lt_iff]
  rfl

theorem startIdx_eq (c : Option (String ×ₗ String)) :
    startIdx other keyFn items (c.map cursorOf) = .ok (Keyset.start (lexKey keyFn) items c) := by
  cases c with
  | none => rfl
  | some k =>
    unfold startIdx Keyset.start
    dsimp only [Option.map_some]
    unfold cursorOf
    rw [if_neg (encodeCursor_ne_empty _ _), decodeCursor_encodeCursor]
    dsimp only
    congr 2
    funext x
    rw [Bool.eq_iff_iff, older_iff, decide_eq_true_eq]
    rfl

variable (other keyFn items) in
/-- **A page of the code is a page of the keys.** -/
theorem paginateItems_eq (hlimit : 0 < limit) (c : Option (String ×ₗ String)) :
    paginateItems other keyFn items limit (c.map cursorOf) = .ok {
      items := Keyset.slice (lexKey keyFn) items limit c
      nextCursor := (Keyset.next (lexKey keyFn) items limit c).map cursorOf
      prevCursor := (Keyset.prev (lexKey keyFn) items limit c).map cursorOf
      hasMore := Keyset.start (lexKey keyFn) items c + limit < items.length } := by
  unfold paginateItems
  rw [if_neg (by omega), startIdx_eq]
  dsimp only
  congr 2
  · unfold Keyset.next Keyset.slice
    split_ifs
    · rw [Option.map_map]
      rfl
    · rfl
  · unfold Keyset.prev Keyset.slice
    split_ifs
    · rw [Option.map_map]
      rfl
    · rfl

variable (other) in
theorem follow_iff_walk (hlimit : 0 < limit) {c : Option (String ×ₗ String)} {qs : List (List α)} :
    (∃ ps, Follow (paginateItems other keyFn items limit) (c.map cursorOf) ps ∧
      ps.map CursorPage.items = qs) ↔ Keyset.Walk (lexKey keyFn) items limit c qs := by
  have hpage := paginateItems_eq other keyFn items hlimit
  constructor
  · rintro ⟨ps, w, rfl⟩
    generalize hc : c.map cursorOf = s at w
    induction w generalizing c with
    | last h hnext =>
      rw [← hc, hpage] at h
      obtain rfl := Except.ok.inj h
      exact .last (Option.map_eq_none_iff.mp hnext)
    | more h hnext w ih =>
      rw [← hc, hpage] at h
      obtain rfl := Except.ok.inj h
      obtain ⟨k, hk, rfl⟩ := Option.map_eq_some_iff.mp hnext
      exact .more hk (ih rfl)
  · intro w
    induction w with
    | last h => exact ⟨_, .last (hpage _) (Option.map_eq_none_iff.mpr h), rfl⟩
    | more h w ih =>
      obtain ⟨ps, hps, hitems⟩ := ih
      refine ⟨_, .more (hpage _) (Option.map_eq_some_iff.mpr ⟨_, h, rfl⟩) hps, ?_⟩
      rw [List.map_cons, hitems]

def Sorted (keyFn : α → String × String) (items : List α) : Prop :=
  items.Pairwise fun x y => older (keyFn y) (keyFn x) = true

theorem Sorted.pairwise (h : Sorted keyFn items) :
    items.Pairwise fun x y => lexKey keyFn y < lexKey keyFn x :=
  h.imp older_iff.mp

theorem Sorted.nodup (h : Sorted keyFn items) : items.Nodup := by
  refine h.pairwise.imp fun {x y} hlt heq => ?_
  subst heq
  exact lt_irrefl _ hlt

/-- **Following `next_cursor` cuts a sorted list into pages.** -/
theorem follow_flatten_of_sorted (hlimit : 0 < limit) (h : Sorted keyFn items) :
    ∃ ps, Follow (paginateItems other keyFn items limit) none ps ∧
      (ps.map CursorPage.items).flatten = items := by
  have hstart : Keyset.start (lexKey keyFn) items none = 0 * limit := (Nat.zero_mul limit).symm
  obtain ⟨qs, w, hflat⟩ := Keyset.exists_walk hlimit
    (fun m hm hlt => Keyset.cleanCut_of_sorted h.pairwise (Nat.mul_pos hm hlimit)) hstart
  obtain ⟨ps, hps, rfl⟩ := (follow_iff_walk other hlimit).mpr w
  rw [Nat.zero_mul, List.drop_zero] at hflat
  exact ⟨ps, hps, hflat⟩

/-! ### Back again -/

/-- The page of the key of the first item of a later page does not have the first item of the
list. -/
theorem not_mem_slice {j : ℕ} (hj : j < items.length) (h : Sorted keyFn items)
    (hlen : 0 < items.length) :
    items[0] ∉ Keyset.slice (lexKey keyFn) items limit (some (lexKey keyFn items[j])) := by
  intro hmem
  obtain ⟨i, hi, hx⟩ := Keyset.exists_of_mem_slice hmem
  obtain rfl := Keyset.index_unique h.nodup hx (List.getElem?_eq_getElem hlen)
  -- so the page starts at the first item, which is not below the key
  have hstart := (Keyset.start_eq_iff hlen).mp (Nat.le_zero.mp hi)
  rcases Nat.eq_zero_or_pos j with rfl | hpos
  · exact lt_irrefl _ hstart.1
  · exact lt_asymm hstart.1 (List.pairwise_iff_getElem.mp h.pairwise 0 j hlen hj hpos)

/-- With more than one page, `prev_cursor` of the second does not lead to the first. -/
theorem length_le_of_reversible (hlimit : 0 < limit) (h : Sorted keyFn items)
    (hrev : Reversible other keyFn items limit) : items.length ≤ limit := by
  by_contra hlen
  have hlen := Nat.lt_of_not_le hlen
  have hpage := paginateItems_eq other keyFn items hlimit
  have hzero : Keyset.start (lexKey keyFn) items none = 0 := rfl
  have hmore : Keyset.start (lexKey keyFn) items none + limit < items.length := by omega
  have hnext := Keyset.next_eq_some hlimit hmore
  have hcut := (Keyset.cleanCut_iff hlimit hlen).mp (Keyset.cleanCut_of_sorted h.pairwise hlimit)
  simp only [hzero, Nat.zero_add] at hnext
  obtain ⟨b, q, hb, hq, hitems⟩ := hrev.back none _ _ _ .first (hpage none)
    (congrArg (Option.map cursorOf) hnext) (hpage (some _))
  -- the cursor is the key of the first item of the second page
  have hprev : Keyset.prev (lexKey keyFn) items limit
      (some (lexKey keyFn items[limit - 1])) = some (lexKey keyFn items[limit]) := by
    rw [Keyset.prev, hcut, if_pos hlimit, Keyset.slice, hcut, List.drop_eq_getElem_cons hlen]
    obtain ⟨n, rfl⟩ : ∃ n, limit = n + 1 := ⟨limit - 1, by omega⟩
    rfl
  dsimp only at hb
  rw [hprev] at hb
  obtain rfl := Option.some.inj hb
  have hback := hpage (some (lexKey keyFn items[limit]))
  obtain rfl := Except.ok.inj (hback.symm.trans hq)
  dsimp only at hitems
  apply not_mem_slice hlen h (by omega)
  rw [hitems]
  have hfirst : Keyset.slice (lexKey keyFn) items limit none = items.take limit := by
    rw [Keyset.slice, hzero, List.drop_zero]
  rw [hfirst, List.mem_take_iff_getElem]
  exact ⟨0, by omega, rfl⟩

/-- **`prev_cursor` leads back exactly if there is only one page.** -/
theorem reversible_iff (hlimit : 0 < limit) (h : Sorted keyFn items) :
    Reversible other keyFn items limit ↔ items.length ≤ limit := by
  refine ⟨length_le_of_reversible hlimit h, fun hlen => ?_⟩
  have hpage := paginateItems_eq other keyFn items hlimit none
  have hnext : Keyset.next (lexKey keyFn) items limit none = none :=
    (Keyset.next_eq_none_iff hlimit).mpr (hlen.trans (Nat.le_add_left limit _))
  have hprev : Keyset.prev (lexKey keyFn) items limit none = none := if_neg (Nat.lt_irrefl 0)
  have hfirst : ∀ c, Reached (pages other keyFn items limit) c → c = none := by
    intro c hc
    induction hc with
    | first => rfl
    | next r hp hn ih =>
      subst ih
      obtain rfl := Except.ok.inj (hpage.symm.trans hp)
      rw [hnext] at hn
      cases hn
  refine ⟨?_, ?_, follow_flatten_of_sorted hlimit h⟩
  · intro c c' p p' hc hp hn
    obtain rfl := hfirst c hc
    obtain rfl := Except.ok.inj (hpage.symm.trans hp)
    rw [hnext] at hn
    cases hn
  · intro c p hc hp
    obtain rfl := hfirst c hc
    obtain rfl := Except.ok.inj (hpage.symm.trans hp)
    exact iff_of_true (by rw [hprev]; rfl) rfl

def threeItems : List (String × String) := [("3", "c"), ("2", "b"), ("1", "a")]

/-- The second of the pages of one item leads on to the third and not back to the first. -/
theorem not_reversible_three : ¬ ∀ (items : List (String × String)) (limit : ℕ), 0 < limit →
    Sorted id items → Reversible (fun _ => "") id items limit := by
  intro h
  have hsorted : Sorted id threeItems := by
    unfold Sorted threeItems
    decide
  exact absurd (length_le_of_reversible one_pos hsorted (h threeItems 1 one_pos hsorted)) (by
    decide)

theorem reversible_three : Reversible (fun _ => "") id threeItems 3 := by
  have hsorted : Sorted id threeItems := by
    unfold Sorted threeItems
    decide
  exact (reversible_iff (by decide) hsorted).mpr (by decide)

end Pagination
