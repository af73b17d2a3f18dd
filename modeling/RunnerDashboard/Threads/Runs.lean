import Mathlib.Data.List.Range
import RunnerDashboard.Lib.Path
import RunnerDashboard.Threads.Store

/-!
# Numbers and unread counters over a run

Any sequence of calls on one store.  The messages of a thread are numbered without gaps, and a key
that is used again adds nothing.  The unread counter of a participant counts the messages of the
others since that participant read the thread, once for every time that the participant stands in
the list of the thread.

## Main results

* `numbered_path` — the numbers of a thread are `1, …, n`.
* `counters_path` — what a counter holds.
* `exact_iff` — **a run is exact exactly if no participant with unread messages is listed twice.**
-/

namespace Threads

open Sql Lts

variable {redact : String → String} {redactMeta : List (String × Json) → List (String × Json)}

/-! ### Steps -/

inductive Call
  | create (a : CreateArgs)
  | add (a : AddArgs)
  | update (id : String) (u : MessageUpdate)
  | read (threadId principal : String)

/-- What a call did. -/
inductive Outcome
  | created
  /-- A message was added. -/
  | added (x : String × Message)
  | found (x : String × Message)
  | done
  | raised (e : StoreError)

abbrev Event := Call × Outcome

def perform (redact : String → String) (redactMeta : List (String × Json) → List (String × Json))
    (s : Store) : Call → Outcome × Store
  | .create a =>
    match createThread redact redactMeta s a with
    | .ok s' => (.created, s')
    | .error e => (.raised e, s)
  | .add a =>
    match addMessage redact redactMeta s a with
    | .ok (x, s') => (if s.messages.get? x.1 = none then .added x else .found x, s')
    | .error e => (.raised e, s)
  | .update id u => (.done, updateMessage redact redactMeta s id u)
  | .read threadId principal => (.done, markThreadRead s threadId principal)

def Step (redact : String → String) (redactMeta : List (String × Json) → List (String × Json))
    (s : Store) (e : Event) (s' : Store) : Prop := perform redact redactMeta s e.1 = (e.2, s')

variable {s s' : Store} {a : AddArgs} {x y : String × Message} {e : Event} {es : List Event}
  {t p k : String}

theorem get?_of_mem_rows (hx : x ∈ s.messages.rows) : s.messages.get? x.1 = some x.2 :=
  Table.get?_eq_some_iff.mpr hx

/-- A call whose key was used finds the message that has it. -/
theorem perform_found (hvalid : s.EpochValid a) (h : a.key.bind (findKey s a.threadId) = some x) :
    perform redact redactMeta s (.add a) = (.found x, s) := by
  obtain ⟨k, -, hfind⟩ := Option.bind_eq_some_iff.mp h
  have hget : ¬ s.messages.get? x.1 = none := by
    rw [get?_of_mem_rows (of_findKey hfind).1]
    exact Option.some_ne_none _
  unfold perform
  dsimp only
  rw [addMessage_eq_ok_iff.mpr ⟨hvalid, .inl ⟨h, rfl⟩⟩]
  dsimp only
  rw [if_neg hget]

/-- **What a call of `add_message` does.** -/
theorem cases_of_step_add {o : Outcome} (h : Step redact redactMeta s (.add a, o) s') :
    (∃ x, o = .found x ∧ s' = s) ∨
    (o = .added (a.id, a.message redact redactMeta (maxSeq s a.threadId + 1)) ∧
      a.key.bind (findKey s a.threadId) = none ∧ s.messages.get? a.id = none ∧
      s.Added redact redactMeta a s') ∨
    (∃ e, o = .raised e ∧ s' = s) := by
  unfold Step perform at h
  dsimp only at h
  cases hadd : addMessage redact redactMeta s a with
  | error e =>
    rw [hadd] at h
    obtain ⟨rfl, rfl⟩ := Prod.mk.inj h
    exact .inr (.inr ⟨e, rfl, rfl⟩)
  | ok r =>
    obtain ⟨x, s₁⟩ := r
    rw [hadd] at h
    obtain ⟨ho, rfl⟩ := Prod.mk.inj h
    obtain ⟨hvalid, ⟨hkey, rfl⟩ | ⟨hkey, hid, rfl, hadded⟩⟩ := addMessage_eq_ok_iff.mp hadd
    · have hfound : perform redact redactMeta s₁ (.add a) = (.found x, s₁) :=
        perform_found hvalid hkey
      unfold perform at hfound
      dsimp only at hfound
      rw [hadd] at hfound
      exact .inl ⟨x, ho.symm.trans (Prod.mk.inj hfound).1, rfl⟩
    · rw [if_pos hid] at ho
      exact .inr (.inl ⟨ho.symm, hkey, hid, hadded⟩)

/-! ### The messages -/

/-- Two rows of one message: what no call changes. -/
def SameMessage (x y : String × Message) : Prop :=
  x.1 = y.1 ∧ x.2.threadId = y.2.threadId ∧ x.2.seq = y.2.seq ∧ x.2.author = y.2.author ∧
    x.2.idempotencyKey = y.2.idempotencyKey

theorem SameMessage.refl (x : String × Message) : SameMessage x x := ⟨rfl, rfl, rfl, rfl, rfl⟩

theorem SameMessage.trans {z : String × Message} (h : SameMessage x y) (h' : SameMessage y z) :
    SameMessage x z :=
  ⟨h.1.trans h'.1, h.2.1.trans h'.2.1, h.2.2.1.trans h'.2.2.1, h.2.2.2.1.trans h'.2.2.2.1,
    h.2.2.2.2.trans h'.2.2.2.2⟩

/-- The rows after a step: the same messages, with one more where one was added. -/
def Grows (s : Store) (o : Outcome) (s' : Store) : Prop :=
  ∃ rows, List.Forall₂ SameMessage s.messages.rows rows ∧
    s'.messages.rows = rows ++ match o with
      | .added x => [x]
      | _ => []

theorem forall₂_sameMessage (l : List (String × Message)) : List.Forall₂ SameMessage l l :=
  List.forall₂_same.mpr fun x _ => .refl x

theorem grows_of_eq {o : Outcome} (h : s'.messages = s.messages) (ho : ∀ x, o ≠ .added x) :
    Grows s o s' := by
  refine ⟨s.messages.rows, forall₂_sameMessage _, ?_⟩
  rw [h]
  cases o with
  | added x => exact absurd rfl (ho x)
  | _ => exact (List.append_nil _).symm

theorem grows_setMessage (id : String) (u : MessageUpdate) :
    Grows s .done (s.setMessage redact redactMeta id u) := by
  refine ⟨(s.setMessage redact redactMeta id u).messages.rows, ?_, (List.append_nil _).symm⟩
  refine List.forall₂_map_right_iff.mpr (List.forall₂_same.mpr fun x _ => ?_)
  refine ⟨rfl, ?_⟩
  dsimp only
  split_ifs
  · exact ⟨rfl, rfl, rfl, rfl⟩
  · exact ⟨rfl, rfl, rfl, rfl⟩

/-- **What a step does to the messages.** -/
theorem grows_step (h : Step redact redactMeta s e s') : Grows s e.2 s' := by
  obtain ⟨c, o⟩ := e
  cases c with
  | create a =>
    unfold Step perform createThread at h
    dsimp only at h
    cases hget : s.threads.get? a.id with
    | some th =>
      rw [hget] at h
      obtain ⟨rfl, rfl⟩ := Prod.mk.inj h
      exact grows_of_eq rfl fun x h => by cases h
    | none =>
      rw [hget] at h
      obtain ⟨rfl, rfl⟩ := Prod.mk.inj h
      exact grows_of_eq rfl fun x h => by cases h
  | add a =>
    rcases cases_of_step_add h with ⟨x, rfl, rfl⟩ | ⟨rfl, -, hid, hmessages, -⟩ | ⟨e, rfl, rfl⟩
    · exact grows_of_eq rfl fun x h => by cases h
    · refine ⟨s.messages.rows, forall₂_sameMessage _, ?_⟩
      rw [hmessages, Table.rows_insertNew_of_none hid]
    · exact grows_of_eq rfl fun x h => by cases h
  | update id u =>
    obtain ⟨rfl, rfl⟩ := Prod.mk.inj h
    unfold updateMessage
    split
    · exact grows_of_eq rfl fun x h => by cases h
    · split
      · exact grows_setMessage id u
      · split_ifs
        · exact grows_setMessage id u
        · exact grows_of_eq rfl fun x h => by cases h
  | read threadId principal =>
    obtain ⟨rfl, rfl⟩ := Prod.mk.inj h
    unfold markThreadRead
    split
    · exact grows_of_eq rfl fun x h => by cases h
    · exact grows_of_eq rfl fun x h => by cases h

/-! ### The numbers -/

/-- The numbers of a thread, in the order of insertion. -/
def seqsOf (rows : List (String × Message)) (t : String) : List ℕ :=
  (rows.filter fun x => x.2.threadId = t).map fun x => x.2.seq

/-- The messages of every thread are numbered `1, …, n`. -/
def Numbered (s : Store) : Prop :=
  ∀ t, seqsOf s.messages.rows t = List.range' 1 (seqsOf s.messages.rows t).length

theorem seqsOf_cons (x : String × Message) (l : List (String × Message)) (t : String) :
    seqsOf (x :: l) t = if x.2.threadId = t then x.2.seq :: seqsOf l t else seqsOf l t := by
  unfold seqsOf
  rw [List.filter_cons]
  split_ifs with h h' h'
  · rfl
  · exact absurd (of_decide_eq_true h) h'
  · exact absurd (decide_eq_true h') h
  · rfl

theorem seqsOf_append (l l' : List (String × Message)) (t : String) :
    seqsOf (l ++ l') t = seqsOf l t ++ seqsOf l' t := by
  unfold seqsOf
  rw [List.filter_append, List.map_append]

theorem seqsOf_congr {l l' : List (String × Message)} (h : List.Forall₂ SameMessage l l') :
    seqsOf l' t = seqsOf l t := by
  induction h with
  | nil => rfl
  | cons hxy _ ih => rw [seqsOf_cons, seqsOf_cons, hxy.2.1, hxy.2.2.1, ih]

theorem max_range' (n : ℕ) : (List.range' 1 n).max?.getD 0 = n := by
  cases n with
  | zero => rfl
  | succ n =>
    have hmax : (List.range' 1 (n + 1)).max? = some (n + 1) := by
      refine List.max?_eq_some_iff.mpr ⟨List.mem_range'_1.mpr ⟨by omega, by omega⟩, ?_⟩
      intro m hm
      have := List.mem_range'_1.mp hm
      omega
    rw [hmax]
    rfl

/-- The next number is the number of messages, plus one. -/
theorem maxSeq_eq (h : Numbered s) (t : String) :
    maxSeq s t = (seqsOf s.messages.rows t).length := by
  have hmax : maxSeq s t = (seqsOf s.messages.rows t).max?.getD 0 := rfl
  rw [hmax, h t, max_range', List.length_range']

theorem of_step_added (h : Step redact redactMeta s e s') (he : e.2 = .added x) :
    x.2.seq = maxSeq s x.2.threadId + 1 := by
  obtain ⟨c, o⟩ := e
  obtain rfl := he
  cases c with
  | add a =>
    rcases cases_of_step_add h with ⟨y, hy, -⟩ | ⟨hx, -⟩ | ⟨e, he, -⟩
    · cases hy
    · rw [Outcome.added.inj hx]
      rfl
    · cases he
  | create a =>
    unfold Step perform at h
    dsimp only at h
    split at h
    · cases h
    · cases h
  | update id u => cases h
  | read threadId principal => cases h

theorem numbered_step (hs : Numbered s) (h : Step redact redactMeta s e s') : Numbered s' := by
  intro t
  obtain ⟨rows, hsame, hrows⟩ := grows_step h
  rw [hrows, seqsOf_append, seqsOf_congr hsame]
  cases ho : e.2 with
  | added x =>
    dsimp only
    rw [seqsOf_cons]
    by_cases ht : x.2.threadId = t
    · rw [if_pos ht, of_step_added h ho, maxSeq_eq hs, ht]
      show _ ++ [_] = List.range' 1 (_ ++ [_]).length
      rw [List.length_append, List.length_singleton, List.range'_1_concat, ← hs t, Nat.add_comm]
    · rw [if_neg ht]
      show _ ++ [] = List.range' 1 (_ ++ []).length
      rw [List.append_nil]
      exact hs t
  | _ =>
    show _ ++ [] = List.range' 1 (_ ++ []).length
    rw [List.append_nil]
    exact hs t

theorem numbered_path (p : Path (Step redact redactMeta) .empty es s) : Numbered s :=
  p.invariant (fun _ _ _ hs h => numbered_step hs h) fun _ => rfl

theorem inThread_eq (h : Numbered s) (t : String) :
    s.inThread t = s.messages.matching fun _ m => m.threadId = t := by
  refine List.Pairwise.insertionSort_eq (List.pairwise_map.mp ?_ : List.Pairwise
    (fun x y : String × Message => x.2.seq ≤ y.2.seq) _)
  have hsorted : (List.range' 1 (seqsOf s.messages.rows t).length).Pairwise (· ≤ ·) :=
    List.pairwise_le_range'
  rw [← h t] at hsorted
  exact hsorted

/-! ### The counters -/

/-- The messages by others since the last reading, after one more call. -/
def unreadStep (t p : String) (n : ℕ) : Event → ℕ
  | (.create a, .created) => if a.id = t then 0 else n
  | (.add _, .added x) => if x.2.threadId = t ∧ x.2.author ≠ p then n + 1 else n
  | (.read t' p', .done) => if t' = t ∧ p' = p then 0 else n
  | _ => n

/-- The messages in a thread by others, since the participant read it or it was created. -/
def unread (t p : String) (es : List Event) : ℕ := es.foldl (unreadStep t p) 0

@[simp] theorem unread_snoc (t p : String) (es : List Event) (e : Event) :
    unread t p (es ++ [e]) = unreadStep t p (unread t p es) e := by
  unfold unread
  rw [List.foldl_append]
  rfl

theorem get?_zeroCounters {parts : List String} (hp : p ∈ parts) :
    (zeroCounters parts).get? p = some 0 := by
  have hfold : ∀ (l : List String) (c : Table String ℕ), p ∈ l ∨ c.get? p = some 0 →
      (l.foldl (fun counters p => counters.put p 0) c).get? p = some 0 := by
    intro l
    induction l with
    | nil => exact fun c h => h.resolve_left List.not_mem_nil
    | cons q l ih =>
      intro c h
      apply ih
      by_cases hq : p = q
      · exact .inr (by rw [Table.get?_put, if_pos hq])
      · rw [Table.get?_put_of_ne _ hq]
        exact h.imp_left fun hmem => (List.mem_cons.mp hmem).resolve_left hq
  exact hfold parts .empty (.inl hp)

/-- A message counts once for every time that a participant is listed. -/
theorem get?_countUnread {author : String} (parts : List String) (c : Table String ℕ) {n : ℕ}
    (hc : c.get? p = some n) : (countUnread author parts c).get? p =
      some (if p = author then n else n + parts.count p) := by
  unfold countUnread
  induction parts generalizing c n with
  | nil =>
    rw [List.foldl_nil, List.count_nil, Nat.add_zero, ite_self]
    exact hc
  | cons q parts ih =>
    rw [List.foldl_cons]
    by_cases hq : q = author
    · rw [if_neg (not_not.mpr hq), ih c hc]
      split_ifs with hp
      · rfl
      · rw [List.count_cons_of_ne fun h => hp (h.symm.trans hq)]
    · rw [if_pos hq]
      by_cases hp : p = q
      · subst hp
        have hget : (c.put p ((c.get? p).getD 0 + 1)).get? p = some (n + 1) := by
          rw [Table.get?_put, if_pos rfl, hc]
          rfl
        rw [ih _ hget, if_neg hq, if_neg hq, List.count_cons_self]
        congr 1
        omega
      · have hget : (c.put q ((c.get? q).getD 0 + 1)).get? p = some n := by
          rw [Table.get?_put_of_ne _ hp]
          exact hc
        rw [ih _ hget, List.count_cons_of_ne fun h => hp h.symm]

def Counted (es : List Event) (s : Store) : Prop :=
  ∀ t th, s.threads.get? t = some th → ∀ p ∈ th.participants,
    th.unreadCounters.get? p = some (th.participants.count p * unread t p es)

theorem counted_of_eq (hs : Counted es s) (hthreads : s'.threads = s.threads)
    (hcount : ∀ t p, unreadStep t p (unread t p es) e = unread t p es) :
      Counted (es ++ [e]) s' := by
  intro t th hth p hp
  rw [unread_snoc, hcount]
  rw [hthreads] at hth
  exact hs t th hth p hp

theorem counted_create {b : CreateArgs} {o : Outcome} (hs : Counted es s)
    (h : Step redact redactMeta s (.create b, o) s') : Counted (es ++ [(.create b, o)]) s' := by
  unfold Step perform createThread at h
  dsimp only at h
  cases hget : s.threads.get? b.id with
  | some th =>
    rw [hget] at h
    obtain ⟨rfl, rfl⟩ := Prod.mk.inj h
    exact counted_of_eq hs rfl fun _ _ => rfl
  | none =>
    rw [hget] at h
    obtain ⟨rfl, rfl⟩ := Prod.mk.inj h
    intro t th hth p hp
    rw [unread_snoc]
    show _ = some (_ * if b.id = t then 0 else _)
    by_cases ht : b.id = t
    · subst ht
      have hnew : (s.threads.insertNew b.id (b.thread redact redactMeta)).get? b.id =
          some (b.thread redact redactMeta) := by
        rw [Table.get?_insertNew, hget]
        simp
      obtain rfl := Option.some.inj (hnew.symm.trans hth)
      rw [if_pos rfl, Nat.mul_zero]
      exact get?_zeroCounters hp
    · rw [if_neg ht]
      have hold : (s.threads.insertNew b.id (b.thread redact redactMeta)).get? t =
          s.threads.get? t := by
        rw [Table.get?_insertNew]
        simp [Ne.symm ht]
      exact hs t th (hold.symm.trans hth) p hp

theorem counted_add {o : Outcome} (hs : Counted es s)
    (h : Step redact redactMeta s (.add a, o) s') : Counted (es ++ [(.add a, o)]) s' := by
  rcases cases_of_step_add h with ⟨x, rfl, rfl⟩ | ⟨rfl, -, -, -, hthreads⟩ | ⟨e, rfl, rfl⟩
  · exact counted_of_eq hs rfl fun _ _ => rfl
  · intro t th hth p hp
    rw [unread_snoc]
    show _ = some (_ * if a.threadId = t ∧ a.author ≠ p then _ else _)
    rw [hthreads, Table.get?_update] at hth
    obtain ⟨th₀, hth₀, rfl⟩ := Option.map_eq_some_iff.mp hth
    by_cases ht : t = a.threadId
    · rw [if_pos (decide_eq_true ht)] at hp ⊢
      refine (get?_countUnread th₀.participants _ (hs t th₀ hth₀ p hp)).trans (congrArg some ?_)
      show _ = th₀.participants.count p * _
      by_cases hauthor : p = a.author
      · rw [if_pos hauthor, if_neg fun h => h.2 hauthor.symm]
      · rw [if_neg hauthor, if_pos ⟨ht.symm, Ne.symm hauthor⟩, Nat.mul_succ]
    · rw [if_neg (by simpa using ht)] at hp ⊢
      rw [if_neg fun h => ht h.1.symm]
      exact hs t th₀ hth₀ p hp
  · exact counted_of_eq hs rfl fun _ _ => rfl

theorem counted_read {t₀ p₀ : String} {o : Outcome} (hs : Counted es s)
    (h : Step redact redactMeta s (.read t₀ p₀, o) s') : Counted (es ++ [(.read t₀ p₀, o)]) s' := by
  obtain ⟨rfl, rfl⟩ := Prod.mk.inj h
  intro t th hth p hp
  rw [unread_snoc]
  show _ = some (_ * if t₀ = t ∧ p₀ = p then 0 else _)
  unfold markThreadRead at hth
  cases hget : s.threads.get? t₀ with
  | none =>
    rw [hget] at hth
    have ht : ¬ (t₀ = t ∧ p₀ = p) := by
      rintro ⟨rfl, -⟩
      rw [hget] at hth
      cases hth
    rw [if_neg ht]
    exact hs t th hth p hp
  | some th₁ =>
    rw [hget] at hth
    unfold Store.setThread at hth
    dsimp only at hth
    rw [Table.get?_update] at hth
    obtain ⟨th₀, hth₀, rfl⟩ := Option.map_eq_some_iff.mp hth
    by_cases ht : t = t₀
    · subst ht
      obtain rfl := Option.some.inj (hget.symm.trans hth₀)
      rw [if_pos (decide_eq_true rfl)] at hp ⊢
      dsimp only at hp ⊢
      by_cases hp₀ : p = p₀
      · rw [if_pos ⟨rfl, hp₀.symm⟩, Nat.mul_zero, Table.get?_put, if_pos hp₀]
      · rw [if_neg fun h => hp₀ h.2.symm, Table.get?_put_of_ne _ hp₀]
        exact hs t th₁ hth₀ p hp
    · rw [if_neg (by simpa using ht)] at hp ⊢
      rw [if_neg fun h => ht h.1.symm]
      exact hs t th₀ hth₀ p hp

theorem threads_updateMessage (s : Store) (id : String) (u : MessageUpdate) :
    (updateMessage redact redactMeta s id u).threads = s.threads := by
  unfold updateMessage
  split
  · rfl
  · split
    · rfl
    · split_ifs
      · rfl
      · rfl

/-- **What a counter holds**: the unread messages, for every time that the participant is listed. -/
theorem counters_path (p : Path (Step redact redactMeta) .empty es s) : Counted es s := by
  refine p.history ?_ fun t th hth => by cases hth
  rintro es s ⟨c, o⟩ s' hs h
  cases c with
  | create b => exact counted_create hs h
  | add a => exact counted_add hs h
  | update id u =>
    obtain ⟨rfl, rfl⟩ := Prod.mk.inj h
    exact counted_of_eq hs (threads_updateMessage s id u) fun _ _ => rfl
  | read t₀ p₀ => exact counted_read hs h

/-! ### Exact runs -/

/-- The numbers, the repeats and the counters of a run are exact. -/
structure Exact (redact : String → String)
    (redactMeta : List (String × Json) → List (String × Json)) (es : List Event) (s : Store) :
    Prop where
  /-- The numbers of a thread are `1, …, n`. -/
  numbered : ∀ t, (s.inThread t).map (fun x => x.2.seq) = List.range' 1 (s.inThread t).length
  /-- A message that was added is still there, with its number and its key. -/
  kept : ∀ c x, (c, Outcome.added x) ∈ es → ∃ y ∈ s.messages.rows, SameMessage x y
  /-- A key that was used again finds its message and adds nothing. -/
  repeats : ∀ a k, a.key = some k → ∀ y ∈ s.messages.rows, y.2.threadId = a.threadId →
    y.2.idempotencyKey = some k → s.EpochValid a →
      perform redact redactMeta s (.add a) = (.found y, s)
  /-- A counter is the number of unread messages. -/
  counted : ∀ t th, s.threads.get? t = some th → ∀ p ∈ th.participants,
    th.unreadCounters.get? p = some (unread t p es)

theorem kept_path (p : Path (Step redact redactMeta) .empty es s) :
    ∀ c x, (c, Outcome.added x) ∈ es → ∃ y ∈ s.messages.rows, SameMessage x y := by
  refine p.history (I := fun es s => ∀ c x, (c, Outcome.added x) ∈ es →
    ∃ y ∈ s.messages.rows, SameMessage x y) ?_ fun c x hx => absurd hx List.not_mem_nil
  intro es s e s' hs h c x hx
  obtain ⟨rows, hsame, hrows⟩ := grows_step h
  rw [hrows]
  rcases List.mem_append.mp hx with hx | hx
  · obtain ⟨y, hy, hxy⟩ := hs c x hx
    obtain ⟨n, hn, rfl⟩ := List.mem_iff_getElem.mp hy
    have hn' : n < rows.length := hsame.length_eq ▸ hn
    exact ⟨rows[n], List.mem_append_left _ (List.getElem_mem hn'),
      hxy.trans ((List.forall₂_iff_get.mp hsame).2 n hn hn')⟩
  · obtain rfl := List.mem_singleton.mp hx
    exact ⟨x, List.mem_append_right _ List.mem_cons_self, .refl x⟩

theorem perform_repeat (hk : a.key = some k) (hy : y ∈ s.messages.rows)
    (ht : y.2.threadId = a.threadId) (hky : y.2.idempotencyKey = some k) (hvalid : s.EpochValid a) :
    perform redact redactMeta s (.add a) = (.found y, s) := by
  apply perform_found hvalid
  rw [hk]
  exact findKey_eq_some_iff.mpr ⟨hy, ht, hky⟩

/-- **A run is exact exactly if no participant with unread messages is listed twice.** -/
theorem exact_iff (p : Path (Step redact redactMeta) .empty es s) :
    Exact redact redactMeta es s ↔ ∀ t th, s.threads.get? t = some th → ∀ q ∈ th.participants,
      th.participants.count q = 1 ∨ unread t q es = 0 := by
  have hnumbered := numbered_path p
  have hcounted := counters_path p
  constructor
  · intro h t th hth q hq
    have hcount := (hcounted t th hth q hq).symm.trans (h.counted t th hth q hq)
    have hmul : th.participants.count q * unread t q es = 1 * unread t q es := by
      rw [Nat.one_mul]
      exact Option.some.inj hcount
    rcases Nat.eq_zero_or_pos (unread t q es) with hzero | hpos
    · exact .inr hzero
    · exact .inl (Nat.eq_of_mul_eq_mul_right hpos hmul)
  · intro h
    refine ⟨fun t => ?_, kept_path p, ?_, ?_⟩
    · rw [inThread_eq hnumbered t]
      exact (hnumbered t).trans (by rw [seqsOf, List.length_map]; rfl)
    · intro a k hk y hy ht hky hvalid
      exact perform_repeat hk hy ht hky hvalid
    · intro t th hth q hq
      rw [hcounted t th hth q hq]
      rcases h t th hth q hq with hone | hzero
      · rw [hone, Nat.one_mul]
      · rw [hzero, Nat.mul_zero]

def trace (redact : String → String) (redactMeta : List (String × Json) → List (String × Json))
    (s : Store) : List Call → List Event × Store
  | [] => ([], s)
  | c :: cs =>
    let rest := trace redact redactMeta (perform redact redactMeta s c).2 cs
    ((c, (perform redact redactMeta s c).1) :: rest.1, rest.2)

theorem path_trace (s : Store) (cs : List Call) : Path (Step redact redactMeta) s
    (trace redact redactMeta s cs).1 (trace redact redactMeta s cs).2 := by
  induction cs generalizing s with
  | nil => exact .nil s
  | cons c cs ih => exact .cons rfl (ih _)

def oneMessage (participants : List String) : List Call :=
  [.create { id := "th", title := "", kind := .direct, participants, createdBy := "",
             metaDict := [], role := none, now := "" },
    .add { id := "msg", threadId := "th", author := "bob" }]

/-- A participant that is listed twice has two unread messages after one. -/
theorem not_exact_twice : ¬ ∀ es s, Path (Step id id) .empty es s → Exact id id es s := by
  intro h
  have hcount := (h _ _ (path_trace .empty (oneMessage ["ann", "ann"]))).counted "th" _ rfl "ann"
    List.mem_cons_self
  exact absurd hcount (by decide)

/-- A participant that is listed once has one. -/
theorem exact_once : Exact id id (trace id id .empty (oneMessage ["ann", "bob"])).1
    (trace id id .empty (oneMessage ["ann", "bob"])).2 := by
  refine (exact_iff (path_trace _ _)).mpr fun t th hth q hq => ?_
  have hmem : (t, th) ∈ [("th", _)] := Table.get?_eq_some_iff.mp hth
  obtain ⟨-, rfl⟩ := Prod.mk.inj (List.mem_singleton.mp hmem)
  exact .inl (List.count_eq_one_of_mem (by decide) hq)

end Threads
