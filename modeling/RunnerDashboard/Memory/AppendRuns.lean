import Mathlib.Logic.Relation
import RunnerDashboard.Lib.Json
import RunnerDashboard.Lib.Path
import RunnerDashboard.Memory.Store

/-!
# Runs of appends

An entry that supersedes another one is linked with it both ways by `append`.  The other way to add
an entry writes only one end of the link.  And `append` measures another text of the body than the
one it stores.

## Main results

* `acyclic` — **entries do not supersede each other in a circle.**
* `appends_sound` — **in every such run the store is sound.**
-/

namespace Memory

open Sql Lts MemoryStore

variable {β : Type*}

/-! ### Runs -/

inductive AppendCall (β : Type*)
  | append (id : String) (e : MemoryEntry β)
  | appendIdempotent (id : String) (e : MemoryEntry β) (key fingerprint : String)

/-- What a call returns: the id, the entry, and whether it was there before. -/
abbrev AppendResult (β : Type*) := Except StoreError (String × MemoryEntry β × Bool)

def MemoryStore.call (enc : Encodings β) (maxStoreBytes : ℕ) (s : MemoryStore β) :
    AppendCall β → AppendResult β × MemoryStore β
  | .append id e =>
    ((s.append enc maxStoreBytes id e).1.map fun e => (id, e, false),
      (s.append enc maxStoreBytes id e).2)
  | .appendIdempotent id e key fingerprint =>
    s.appendIdempotent enc maxStoreBytes id e key fingerprint

section Runs

variable (enc : Encodings β) (maxStoreBytes : ℕ)

def AppendStep (s : MemoryStore β) (l : AppendCall β × AppendResult β)
    (s' : MemoryStore β) : Prop :=
  s.call enc maxStoreBytes l.1 = (l.2, s')

/-- **The text that is stored fits where the text that is measured does, and only `append`
supersedes.**  An entry is not superseded when it is added. -/
def Fits (s : MemoryStore β) : AppendCall β → Prop
  | .append _ e => e.supersededBy = none ∧
      (s.totalPayloadBytes + enc.compact e.body ≤ maxStoreBytes →
        s.totalPayloadBytes + enc.spaced e.body ≤ maxStoreBytes)
  | .appendIdempotent _ e key _ =>
    s.idempotency.get? key = none → e.supersededBy = none ∧ e.target = none

def FittingStep (s : MemoryStore β) (l : AppendCall β × AppendResult β) (s' : MemoryStore β) :
    Prop := AppendStep enc maxStoreBytes s l s' ∧ Fits enc maxStoreBytes s l.1

end Runs

/-! ### Links -/

def Supersedes (s : MemoryStore β) (y x : String) : Prop :=
  ∃ r, s.entries.get? y = some r ∧ r.entry.target = some x

/-- How many entries were added before. -/
def MemoryStore.position (s : MemoryStore β) (id : String) : ℕ :=
  (s.entries.rows.map Prod.fst).idxOf id

/-- **The two ends of each link agree**, and a link goes to an older entry. -/
structure Linked (s : MemoryStore β) : Prop where
  forward : ∀ x y r, s.entries.get? x = some r → r.entry.supersededBy = some y → Supersedes s y x
  backward : ∀ x y, Supersedes s y x →
    ∃ r, s.entries.get? x = some r ∧ r.entry.supersededBy = some y
  later : ∀ x y, Supersedes s y x → s.position x < s.position y

/-- What is promised of a store after some calls. -/
structure Sound (enc : Encodings β) (maxStoreBytes : ℕ)
    (ls : List (AppendCall β × AppendResult β)) (s : MemoryStore β) : Prop where
  linked : Linked s
  /-- An entry is superseded by at most one. -/
  unique : ∀ x y y', Supersedes s y x → Supersedes s y' x → y = y'
  acyclic : ∀ x, ¬ Relation.TransGen (Supersedes s) x x
  size : s.totalPayloadBytes ≤ maxStoreBytes
  /-- A call that repeats a key returns the entry of the first call, as it is now, or raises where
  the fingerprint is another one; it changes nothing. -/
  replay : ∀ before id e key fingerprint after,
    ls = before ++ (.appendIdempotent id e key fingerprint, .ok (id, e, false)) :: after →
    ∃ link, ∀ id' e' fingerprint', (enc.unicode e'.body).isSome →
      s.call enc maxStoreBytes (.appendIdempotent id' e' key fingerprint') =
        (if fingerprint = fingerprint' then .ok (id, { e with supersededBy := link }, true)
          else .error .idempotencyKeyReused, s)
  raises : ∀ call err, (s.call enc maxStoreBytes call).1 = .error err →
    (s.call enc maxStoreBytes call).2 = s

variable {enc : Encodings β} {maxStoreBytes : ℕ} {s s' superseded : MemoryStore β}
  {id x y k key fingerprint target : String} {e : MemoryEntry β} {r : Row β} {bytes : ℕ}
  {ls : List (AppendCall β × AppendResult β)}

theorem Linked.unique (h : Linked s) {y' : String} (hy : Supersedes s y x)
    (hy' : Supersedes s y' x) : y = y' := by
  obtain ⟨r, hr, hlink⟩ := h.backward x y hy
  obtain ⟨r', hr', hlink'⟩ := h.backward x y' hy'
  obtain rfl := Option.some.inj (hr.symm.trans hr')
  exact Option.some.inj (hlink.symm.trans hlink')

/-- **Entries do not supersede each other in a circle.** -/
theorem Linked.acyclic (h : Linked s) (x : String) : ¬ Relation.TransGen (Supersedes s) x x := by
  have hlater : ∀ {x y}, Relation.TransGen (Supersedes s) y x → s.position x < s.position y := by
    intro x y hyx
    induction hyx with
    | single hstep => exact h.later _ _ hstep
    | tail _ hstep ih => exact (h.later _ _ hstep).trans ih
  exact fun hx => lt_irrefl _ (hlater hx)

/-! ### What a call does to the rows -/

def MemoryStore.ids (s : MemoryStore β) : List String := s.entries.rows.map Prod.fst

theorem mem_ids_iff : k ∈ s.ids ↔ (s.entries.get? k).isSome := by
  rw [← not_iff_not, Option.not_isSome_iff_eq_none, Table.get?_eq_none_iff]
  rfl

/-- **What an entry that is added tells the one it supersedes.** -/
theorem supersede_spec {target : Option String} (h : s.supersede id target = .ok superseded) :
    superseded.idempotency = s.idempotency ∧ superseded.ids = s.ids ∧
      (∀ t, target = some t → ∃ r, s.entries.get? t = some r ∧ r.entry.supersededBy = none) ∧
      ∀ k, superseded.entries.get? k =
        (s.entries.get? k).map fun r => if target = some k then supersedeRow id r else r := by
  cases target with
  | none =>
    obtain rfl := Except.ok.inj h
    refine ⟨rfl, rfl, ?_, fun k => ?_⟩
    · intro t ht
      cases ht
    · simp
  | some t =>
    obtain ⟨⟨r, hr, hnone⟩, rfl⟩ := supersede_ok h
    refine ⟨rfl, ?_, ?_, fun k => ?_⟩
    · unfold MemoryStore.ids Table.update
      rw [List.map_map]
      rfl
    · intro t' ht'
      obtain rfl := Option.some.inj ht'
      exact ⟨r, hr, hnone⟩
    · rw [Table.get?_update]
      by_cases hk : t = k
      · subst hk
        rw [hr, Option.map_some, Option.map_some]
        simp [current, hnone]
      · have hk' : ¬ k = t := fun heq => hk heq.symm
        simp [current, hk, hk']

theorem get?_of_insert (h : s.insert id e bytes = .ok s') :
    s'.entries.get? k = if k = id then some ⟨e, bytes⟩ else s.entries.get? k := by
  obtain ⟨hnone, rfl⟩ := insert_ok h
  show (s.entries.insertNew id ⟨e, bytes⟩).get? k = _
  rw [Table.get?_insertNew, hnone]
  rfl

theorem ids_of_insert (h : s.insert id e bytes = .ok s') : s'.ids = s.ids ++ [id] := by
  obtain ⟨hnone, rfl⟩ := insert_ok h
  unfold MemoryStore.ids
  rw [Table.rows_insertNew_of_none hnone, List.map_append]
  rfl

theorem not_mem_ids_of_insert (h : s.insert id e bytes = .ok s') : id ∉ s.ids := by
  rw [mem_ids_iff, (insert_ok h).1]
  simp

theorem position_of_insert (h : s.insert id e bytes = .ok s') (hk : k ∈ s.ids) :
    s'.position k = s.position k := by
  unfold position
  show (s'.ids).idxOf k = (s.ids).idxOf k
  rw [ids_of_insert h, List.idxOf_append_of_mem hk]

theorem position_lt_of_insert (h : s.insert id e bytes = .ok s') (hk : k ∈ s.ids) :
    s'.position k < s'.position id := by
  rw [position_of_insert h hk]
  unfold position
  show (s.ids).idxOf k < (s'.ids).idxOf id
  rw [ids_of_insert h, List.idxOf_append_of_notMem (not_mem_ids_of_insert h)]
  have hlt := List.idxOf_lt_length_of_mem hk
  omega

theorem linked_insert (hinv : Linked s) (hsupersede : s.supersede id e.target = .ok superseded)
    (hinsert : superseded.insert id e bytes = .ok s') (hnone : e.supersededBy = none) :
    Linked s' := by
  obtain ⟨-, hids, htarget, hget⟩ := supersede_spec hsupersede
  have hnew : id ∉ s.ids := hids ▸ not_mem_ids_of_insert hinsert
  have hmem : ∀ {k r}, s.entries.get? k = some r → k ∈ s.ids := fun h =>
    mem_ids_iff.mpr (Option.isSome_of_eq_some h)
  have hold : ∀ {k}, k ≠ id → s'.entries.get? k =
      (s.entries.get? k).map fun r => if e.target = some k then supersedeRow id r else r := by
    intro k hk
    rw [get?_of_insert hinsert, if_neg hk, hget]
  have hself : s'.entries.get? id = some ⟨e, bytes⟩ := by rw [get?_of_insert hinsert, if_pos rfl]
  -- what supersedes in the new store: what did before, and the new entry
  have hsuper : ∀ {y x}, Supersedes s' y x ↔ Supersedes s y x ∨ y = id ∧ e.target = some x := by
    intro y x
    by_cases hy : y = id
    · subst hy
      constructor
      · rintro ⟨r, hr, ht⟩
        obtain rfl := Option.some.inj (hself.symm.trans hr)
        exact .inr ⟨rfl, ht⟩
      · rintro (⟨r, hr, -⟩ | ⟨-, ht⟩)
        · exact absurd (hmem hr) hnew
        · exact ⟨_, hself, ht⟩
    · unfold Supersedes
      rw [hold hy]
      constructor
      · rintro ⟨r', hr', ht⟩
        obtain ⟨r, hr, rfl⟩ := Option.map_eq_some_iff.mp hr'
        refine .inl ⟨r, hr, ?_⟩
        split at ht
        · exact ht
        · exact ht
      · rintro (⟨r, hr, ht⟩ | ⟨heq, -⟩)
        · refine ⟨_, by rw [hr, Option.map_some], ?_⟩
          split
          · exact ht
          · exact ht
        · exact absurd heq hy
  refine ⟨fun x y r' hr' hlink => ?_, fun x y hyx => ?_, fun x y hyx => ?_⟩
  · by_cases hx : x = id
    · subst hx
      obtain rfl := Option.some.inj (hself.symm.trans hr')
      exact absurd (hnone.symm.trans hlink) (by simp)
    · rw [hold hx] at hr'
      obtain ⟨r, hr, rfl⟩ := Option.map_eq_some_iff.mp hr'
      by_cases ht : e.target = some x
      · rw [if_pos ht] at hlink
        exact hsuper.mpr (.inr ⟨(Option.some.inj hlink).symm, ht⟩)
      · rw [if_neg ht] at hlink
        exact hsuper.mpr (.inl (hinv.forward x y r hr hlink))
  · rcases hsuper.mp hyx with hbefore | ⟨rfl, ht⟩
    · obtain ⟨r, hr, hlink⟩ := hinv.backward x y hbefore
      have hx : x ≠ id := fun heq => hnew (heq ▸ hmem hr)
      refine ⟨r, ?_, hlink⟩
      rw [hold hx, hr, Option.map_some, if_neg]
      -- what was superseded is not superseded again
      intro ht
      obtain ⟨r', hr', hfree⟩ := htarget x ht
      obtain rfl := Option.some.inj (hr.symm.trans hr')
      exact absurd (hfree.symm.trans hlink) (by simp)
    · obtain ⟨r, hr, -⟩ := htarget x ht
      have hx : x ≠ y := fun heq => hnew (heq ▸ hmem hr)
      refine ⟨supersedeRow y r, ?_, rfl⟩
      rw [hold hx, hr, Option.map_some, if_pos ht]
  · have hposition : ∀ {k}, k ∈ s.ids → s'.position k = s.position k := by
      intro k hk
      rw [position_of_insert hinsert (hids ▸ hk)]
      unfold position
      exact congrArg (List.idxOf k) hids
    rcases hsuper.mp hyx with hbefore | ⟨rfl, ht⟩
    · obtain ⟨r, hr, -⟩ := hinv.backward x y hbefore
      have hy : y ∈ s.ids := by
        obtain ⟨ry, hry, -⟩ := hbefore
        exact hmem hry
      rw [hposition (hmem hr), hposition hy]
      exact hinv.later x y hbefore
    · obtain ⟨r, hr, -⟩ := htarget x ht
      exact position_lt_of_insert hinsert (hids ▸ hmem hr)

/-! ### The size -/

theorem totalPayloadBytes_of_insert (h : s.insert id e bytes = .ok s') :
    s'.totalPayloadBytes = s.totalPayloadBytes + bytes := by
  obtain ⟨hnone, rfl⟩ := insert_ok h
  unfold totalPayloadBytes
  show (s.entries.insertNew id ⟨e, bytes⟩).sum _ _ = _
  rw [Table.sum_insertNew hnone, if_pos rfl]

theorem totalPayloadBytes_of_supersede {target : Option String}
    (h : s.supersede id target = .ok superseded) :
    superseded.totalPayloadBytes ≤ s.totalPayloadBytes := by
  cases target with
  | none =>
    obtain rfl := Except.ok.inj h
    exact le_rfl
  | some t =>
    obtain ⟨-, rfl⟩ := supersede_ok h
    show (s.entries.update (current t) fun _ => supersedeRow id).sum (fun _ _ => true) (·.bytes) ≤
      s.entries.sum (fun _ _ => true) (·.bytes)
    exact Table.sum_update_le fun _ _ _ _ _ => ⟨rfl, le_rfl⟩

/-! ### Entries are kept -/

/-- **Entries and keys are kept**, but for the link to what supersedes an entry. -/
structure Extends (s s' : MemoryStore β) : Prop where
  entries : ∀ k r, s.entries.get? k = some r → ∃ link,
    s'.entries.get? k = some { r with entry := { r.entry with supersededBy := link } }
  keys : ∀ k r, s.idempotency.get? k = some r → s'.idempotency.get? k = some r

theorem Extends.refl (s : MemoryStore β) : Extends s s :=
  ⟨fun _ r h => ⟨r.entry.supersededBy, h⟩, fun _ _ h => h⟩

theorem extends_insert {target : Option String}
    (hsupersede : s.supersede id target = .ok superseded)
    (hinsert : superseded.insert id e bytes = .ok s') : Extends s s' := by
  obtain ⟨hkeys, hids, -, hget⟩ := supersede_spec hsupersede
  refine ⟨fun k r hr => ?_, fun k r hr => ?_⟩
  · have hk : k ≠ id := by
      rintro rfl
      refine not_mem_ids_of_insert hinsert (hids ▸ mem_ids_iff.mpr ?_)
      exact Option.isSome_of_eq_some hr
    rw [get?_of_insert hinsert, if_neg hk, hget, hr, Option.map_some]
    split
    · exact ⟨some id, rfl⟩
    · exact ⟨r.entry.supersededBy, rfl⟩
  · obtain ⟨-, rfl⟩ := insert_ok hinsert
    exact hkeys ▸ hr

theorem extends_insertKey {inserted : MemoryStore β} (h : Extends s inserted)
    (hkey : inserted.insertKey key fingerprint id = .ok s') : Extends s s' := by
  obtain rfl := insertKey_ok hkey
  exact ⟨h.entries, fun k r hr => Table.get?_insertNew_of_some (h.keys k r hr)⟩

/-- What a call that returns did. -/
inductive Added (enc : Encodings β) (maxStoreBytes : ℕ) (s : MemoryStore β) :
    AppendCall β → AppendResult β → MemoryStore β → Prop
  | appended {id : String} {e : MemoryEntry β} {superseded s' : MemoryStore β}
      (fits : s.totalPayloadBytes + enc.compact e.body ≤ maxStoreBytes)
      (hsupersede : s.supersede id e.target = .ok superseded)
      (hinsert : superseded.insert id e (enc.spaced e.body) = .ok s') :
      Added enc maxStoreBytes s (.append id e) (.ok (id, e, false)) s'
  | replayed {id key fingerprint entryId : String} {e first : MemoryEntry β}
      (hkey : s.idempotency.get? key = some (fingerprint, entryId))
      (hfirst : s.get entryId = some first) :
      Added enc maxStoreBytes s (.appendIdempotent id e key fingerprint)
        (.ok (entryId, first, true)) s
  | keyed {id key fingerprint : String} {e : MemoryEntry β} {payload : ℕ}
      {inserted s' : MemoryStore β} (hkey : s.idempotency.get? key = none)
      (fits : s.totalPayloadBytes + payload ≤ maxStoreBytes)
      (hinsert : s.insert id e payload = .ok inserted)
      (hinsertKey : inserted.insertKey key fingerprint id = .ok s') :
      Added enc maxStoreBytes s (.appendIdempotent id e key fingerprint) (.ok (id, e, false)) s'
  | raised {call : AppendCall β} {err : StoreError} :
      Added enc maxStoreBytes s call (.error err) s

theorem call_error {call : AppendCall β} {err : StoreError}
    (h : (s.call enc maxStoreBytes call).1 = .error err) :
    (s.call enc maxStoreBytes call).2 = s := by
  cases call with
  | append id e =>
    cases hresult : (s.append enc maxStoreBytes id e).1 with
    | error err' => exact append_error hresult
    | ok result =>
      simp only [MemoryStore.call, hresult, Except.map] at h
      cases h
  | appendIdempotent id e key fingerprint => exact appendIdempotent_error h

/-- **A call does no more than this.** -/
theorem added_of_step {l : AppendCall β × AppendResult β}
    (h : AppendStep enc maxStoreBytes s l s') : Added enc maxStoreBytes s l.1 l.2 s' := by
  obtain ⟨call, result⟩ := l
  have hcall : s.call enc maxStoreBytes call = (result, s') := h
  cases result with
  | error err =>
    have hsame : (s.call enc maxStoreBytes call).2 = s := call_error (congrArg Prod.fst hcall)
    rw [hcall] at hsame
    obtain rfl : s' = s := hsame
    exact .raised
  | ok result =>
    cases call with
    | append id e =>
      cases happend : s.append enc maxStoreBytes id e with
      | mk first second =>
        simp only [MemoryStore.call, happend] at hcall
        cases first with
        | error err => cases (Prod.mk.inj hcall).1
        | ok first =>
          obtain ⟨hresult, rfl⟩ := Prod.mk.inj hcall
          obtain rfl := Except.ok.inj hresult
          obtain ⟨rfl, hfits, superseded, hsupersede, hinsert⟩ := append_ok happend
          exact .appended hfits hsupersede hinsert
    | appendIdempotent id e key fingerprint =>
      rcases appendIdempotent_ok hcall with ⟨entryId, first, hkey, hfirst, rfl, rfl⟩ |
        ⟨payload, inserted, -, hkey, hfits, rfl, hinsert, hinsertKey⟩
      · exact .replayed hkey hfirst
      · exact .keyed hkey hfits hinsert hinsertKey

theorem extends_added {call : AppendCall β} {result : AppendResult β}
    (h : Added enc maxStoreBytes s call result s') : Extends s s' := by
  cases h with
  | appended fits hsupersede hinsert => exact extends_insert hsupersede hinsert
  | replayed hkey hfirst => exact .refl s
  | @keyed id key fingerprint e payload inserted s' hkey fits hinsert hinsertKey =>
    have hnone : s.supersede id none = .ok s := rfl
    exact extends_insertKey (extends_insert hnone hinsert) hinsertKey
  | raised => exact .refl s

/-! ### Runs from the start -/

/-- The links agree, and the store is not above its size. -/
structure Inv (maxStoreBytes : ℕ) (s : MemoryStore β) : Prop where
  linked : Linked s
  size : s.totalPayloadBytes ≤ maxStoreBytes

/-- **A call that finds this keeps the links and the size.** -/
theorem inv_added {call : AppendCall β} {result : AppendResult β} (hinv : Inv maxStoreBytes s)
    (h : Added enc maxStoreBytes s call result s') (hfits : Fits enc maxStoreBytes s call) :
    Inv maxStoreBytes s' := by
  cases h with
  | appended fits hsupersede hinsert =>
    obtain ⟨hnone, hspaced⟩ := hfits
    refine ⟨linked_insert hinv.linked hsupersede hinsert hnone, ?_⟩
    have hle := totalPayloadBytes_of_supersede hsupersede
    have hstored := hspaced fits
    rw [totalPayloadBytes_of_insert hinsert]
    omega
  | replayed hkey hfirst => exact hinv
  | @keyed id key fingerprint e payload inserted s' hkey fits hinsert hinsertKey =>
    obtain ⟨hnone, htarget⟩ := hfits hkey
    have hsupersede : s.supersede id e.target = .ok s := by rw [htarget]; rfl
    have hlinked := linked_insert hinv.linked hsupersede hinsert hnone
    have hsize := totalPayloadBytes_of_insert hinsert
    obtain rfl := insertKey_ok hinsertKey
    refine ⟨⟨hlinked.forward, hlinked.backward, hlinked.later⟩, ?_⟩
    show inserted.totalPayloadBytes ≤ maxStoreBytes
    omega
  | raised => exact hinv

/-- The key of a call, and the entry it was used for. -/
def Keyed (s : MemoryStore β) (key fingerprint id : String) (e : MemoryEntry β) : Prop :=
  s.idempotency.get? key = some (fingerprint, id) ∧
    ∃ link bytes, s.entries.get? id = some ⟨{ e with supersededBy := link }, bytes⟩

theorem keyed_of_extends (h : Extends s s') (hkeyed : Keyed s key fingerprint id e) :
    Keyed s' key fingerprint id e := by
  obtain ⟨hkey, link, bytes, hentry⟩ := hkeyed
  obtain ⟨link', hentry'⟩ := h.entries id _ hentry
  exact ⟨h.keys key _ hkey, link', bytes, hentry'⟩

theorem keyed_of_added
    (h : Added enc maxStoreBytes s (.appendIdempotent id e key fingerprint)
      (.ok (id, e, false)) s') :
    Keyed s' key fingerprint id e := by
  cases h with
  | keyed hkey fits hinsert hinsertKey =>
    have hget := get?_of_insert (k := id) hinsert
    rw [if_pos rfl] at hget
    have hnone : _ = none := hkey
    obtain ⟨-, rfl⟩ := insert_ok hinsert
    obtain rfl := insertKey_ok hinsertKey
    refine ⟨?_, e.supersededBy, _, hget⟩
    rw [Table.get?_insertNew, if_pos rfl]
    show some ((s.idempotency.get? key).getD _) = _
    rw [hnone]
    rfl

/-- **A key that is used again returns the first entry and changes nothing.** -/
theorem call_of_keyed {link : Option String} {id' fingerprint' : String} {e' : MemoryEntry β}
    (hkey : s.idempotency.get? key = some (fingerprint, id))
    (hentry : s.entries.get? id = some ⟨{ e with supersededBy := link }, bytes⟩)
    (hencoded : (enc.unicode e'.body).isSome) :
    s.call enc maxStoreBytes (.appendIdempotent id' e' key fingerprint') =
      (if fingerprint = fingerprint' then .ok (id, { e with supersededBy := link }, true)
        else .error .idempotencyKeyReused, s) := by
  obtain ⟨payload, hpayload⟩ := Option.isSome_iff_exists.mp hencoded
  have hget : s.get id = some { e with supersededBy := link } := by
    unfold MemoryStore.get
    rw [hentry]
    rfl
  show s.appendIdempotent enc maxStoreBytes id' e' key fingerprint' = _
  unfold appendIdempotent
  simp only [hpayload]
  unfold immediateTxn appendIdempotentBody
  by_cases heq : fingerprint = fingerprint'
  · subst heq
    simp only [hkey, ne_eq, not_true_eq_false, if_false, if_true, hget]
  · simp only [hkey, heq, ne_eq, not_false_eq_true, if_true, if_false]

theorem keyed_of_run {s₀ : MemoryStore β} (path : Path (AppendStep enc maxStoreBytes) s₀ ls s) :
    ∀ before id e key fingerprint after,
      ls = before ++ (.appendIdempotent id e key fingerprint, .ok (id, e, false)) :: after →
      Keyed s key fingerprint id e := by
  refine path.history (I := fun ls s => ∀ before id e key fingerprint after,
    ls = before ++ (.appendIdempotent id e key fingerprint, .ok (id, e, false)) :: after →
    Keyed s key fingerprint id e) ?_ ?_
  · intro past s l t ih hstep before id e key fingerprint after hls
    have hadded := added_of_step hstep
    rcases snoc_eq_append_cons_iff.mp hls with ⟨-, rfl, -⟩ | ⟨after', rfl, hpast⟩
    · exact keyed_of_added hadded
    · exact keyed_of_extends (extends_added hadded) (ih before id e key fingerprint after' hpast)
  · intro before id e key fingerprint after hls
    simp at hls

theorem linked_empty : Linked (empty : MemoryStore β) where
  forward := fun x y r hr => by cases hr
  backward := by
    rintro x y ⟨r, hr, -⟩
    cases hr
  later := by
    rintro x y ⟨r, hr, -⟩
    cases hr

/-- **In every such run the store is sound.** -/
theorem appends_sound (path : Path (FittingStep enc maxStoreBytes) empty ls s) :
    Sound enc maxStoreBytes ls s := by
  have hinv : Inv maxStoreBytes s := by
    refine path.invariant (I := Inv maxStoreBytes) (fun s l t hinv hstep => ?_)
      ⟨linked_empty, Nat.zero_le _⟩
    exact inv_added hinv (added_of_step hstep.1) hstep.2
  have hpath : Path (AppendStep enc maxStoreBytes) empty ls s :=
    path.imp (I := fun _ => True) (fun _ _ _ _ hstep => ⟨hstep.1, trivial⟩) trivial
  refine ⟨hinv.linked, fun x y y' => hinv.linked.unique, hinv.linked.acyclic, hinv.size, ?_,
    fun call err => call_error⟩
  intro before id e key fingerprint after hls
  obtain ⟨hkey, link, bytes, hentry⟩ :=
    keyed_of_run hpath before id e key fingerprint after hls
  exact ⟨link, fun id' e' fingerprint' => call_of_keyed hkey hentry⟩

def utf8Bytes (text : List Char) : ℕ := (text.map Char.utf8Size).sum

def jsonEncodings : Encodings Json where
  compact := fun body => utf8Bytes (body.render false)
  spaced := fun body => utf8Bytes (body.render true)
  unicode := fun body => some (utf8Bytes body.renderUnicode)

def shortEntry (supersedesId : Option String) : MemoryEntry Json where
  entryType := "decision"
  body := .obj [("a", .num 1)]
  createdAt := "2026-01-01T00:00:00+00:00"
  supersedesId

def MemoryStore.shown (maxStoreBytes : ℕ) (s : MemoryStore Json) (call : AppendCall Json) :
    AppendCall Json × AppendResult Json := (call, (s.call jsonEncodings maxStoreBytes call).1)

def MemoryStore.after (maxStoreBytes : ℕ) (s : MemoryStore Json) (call : AppendCall Json) :
    MemoryStore Json := (s.call jsonEncodings maxStoreBytes call).2

theorem step_after (maxStoreBytes : ℕ) (s : MemoryStore Json) (call : AppendCall Json) :
    AppendStep jsonEncodings maxStoreBytes s (s.shown maxStoreBytes call)
      (s.after maxStoreBytes call) := rfl

/-- An entry is added, and another one that supersedes it. -/
theorem appends_sound_pair :
    let first := AppendCall.append "mem_a" (shortEntry none)
    let second := AppendCall.append "mem_b" (shortEntry (some "mem_a"))
    let s := (empty.after 100 first).after 100 second
    Sound jsonEncodings 100 [empty.shown 100 first, (empty.after 100 first).shown 100 second] s ∧
      Supersedes s "mem_b" "mem_a" := by
  intro first second s
  have path : Path (FittingStep jsonEncodings 100) empty
      [empty.shown 100 first, (empty.after 100 first).shown 100 second] s := by
    refine .cons ⟨step_after 100 empty first, rfl, fun _ => ?_⟩
      (.single ⟨step_after 100 _ second, rfl, fun _ => ?_⟩)
    · decide +kernel
    · decide +kernel
  refine ⟨appends_sound path, ?_⟩
  obtain ⟨r, hr, hlink⟩ : ∃ r, s.entries.get? "mem_b" = some r ∧
      r.entry.target = some "mem_a" := ⟨_, rfl, rfl⟩
  exact ⟨r, hr, hlink⟩

/-- **A link with one end, and a store above its size.** -/
theorem half_linked :
    (let first := AppendCall.append "mem_a" (shortEntry none)
      let second := AppendCall.appendIdempotent "mem_b" (shortEntry (some "mem_a")) "key" "print"
      ∃ s, Path (AppendStep jsonEncodings 100) empty
        [empty.shown 100 first, (empty.after 100 first).shown 100 second] s ∧
        ¬ Sound jsonEncodings 100
          [empty.shown 100 first, (empty.after 100 first).shown 100 second] s) ∧
    let only := AppendCall.append "mem_a" (shortEntry none)
    ∃ s, Path (AppendStep jsonEncodings 7) empty [empty.shown 7 only] s ∧
      ¬ Sound jsonEncodings 7 [empty.shown 7 only] s := by
  refine ⟨?_, ?_⟩
  · intro first second
    refine ⟨_, .cons (step_after 100 empty first) (.single (step_after 100 _ second)), fun h => ?_⟩
    have hsuper : Supersedes ((empty.after 100 first).after 100 second) "mem_b" "mem_a" :=
      ⟨_, rfl, rfl⟩
    obtain ⟨r, hr, hlink⟩ := h.linked.backward _ _ hsuper
    have hnone : (((empty.after 100 first).after 100 second).get "mem_a").map (·.supersededBy) =
        some none := by decide +kernel
    unfold MemoryStore.get at hnone
    rw [hr] at hnone
    exact absurd (Option.some.inj hnone) (by simp [hlink])
  · intro only
    refine ⟨_, .single (step_after 7 empty only), fun h => ?_⟩
    have hsize : ¬ (empty.after 7 only).totalPayloadBytes ≤ 7 := by decide +kernel
    exact hsize h.size

end Memory
