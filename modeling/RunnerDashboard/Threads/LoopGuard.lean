import RunnerDashboard.Threads.Runs

/-!
# The loop guard

`LoopGuard.check` of `staff/loop_guard.py`: how many agent turns a thread has since the last message
of a user.  The guard reads a page of the thread and counts from the newest message of the page
backwards.  `list_messages` gives the oldest messages, so the page of a long thread is its start.

## Main results

* `tripped_correct_iff` — **when the verdict on the page is the verdict on the thread.**
-/

namespace Threads

open Sql Lts

/-! ### The guard -/

/-- The loop of `check` over the messages, the newest first. -/
def countTurns (consecutive : ℕ) : List Message → ℕ
  | [] => consecutive
  | m :: ms =>
    if m.delivery = .pending then countTurns consecutive ms
    else match m.authorKind with
      | .user => consecutive
      | .system => countTurns consecutive ms
      | _ => countTurns (consecutive + 1) ms

/-- `LoopGuard.check`, with `max_agent_turns`: whether the guard tripped, and the turns. -/
def check (limit : ℤ) (threadId : String) (s : Store) : Bool × ℕ :=
  let messages := listMessages s threadId ((max limit 1).toNat + 10) 0
  if messages = [] then (limit ≤ 0, 0)
  else
    let sorted := messages.insertionSort fun x y => y.2.seq ≤ x.2.seq
    let turns := countTurns 0 (sorted.map Prod.snd)
    (limit ≤ turns, turns)

/-- A message that the guard looks at. -/
def counts (m : Message) : Bool := m.delivery ≠ .pending && m.authorKind ≠ .system

/-- The turns before the first message of a user, the newest first. -/
def turnsSinceUser (ms : List Message) : ℕ :=
  ((ms.filter counts).takeWhile fun m => m.authorKind ≠ .user).length

def HasUser (ms : List Message) : Prop := ∃ m ∈ ms, counts m = true ∧ m.authorKind = .user

/-- The messages of a thread that the guard reads. -/
def page (limit : ℤ) (s : Store) (threadId : String) : List Message :=
  ((s.inThread threadId).take ((max limit 1).toNat + 10)).map Prod.snd

def later (limit : ℤ) (s : Store) (threadId : String) : List Message :=
  ((s.inThread threadId).drop ((max limit 1).toNat + 10)).map Prod.snd

variable {redact : String → String} {redactMeta : List (String × Json) → List (String × Json)}
  {s : Store} {es : List Event} {limit : ℤ} {t : String} {m : Message} {ms : List Message}

/-! ### Counting -/

theorem turnsSinceUser_cons (m : Message) (ms : List Message) : turnsSinceUser (m :: ms) =
    if counts m then if m.authorKind = .user then 0 else turnsSinceUser ms + 1
    else turnsSinceUser ms := by
  unfold turnsSinceUser
  rw [List.filter_cons]
  split_ifs with h huser
  · rw [List.takeWhile_cons_of_neg (by simpa using huser), List.length_nil]
  · rw [List.takeWhile_cons_of_pos (by simpa using huser), List.length_cons]
  · rfl

theorem countTurns_eq (n : ℕ) (ms : List Message) : countTurns n ms = n + turnsSinceUser ms := by
  induction ms generalizing n with
  | nil => rfl
  | cons m ms ih =>
    rw [countTurns, turnsSinceUser_cons]
    by_cases hpending : m.delivery = .pending
    · have hcounts : counts m = false := by simp [counts, hpending]
      rw [if_pos hpending, hcounts, ih]
      rfl
    · rw [if_neg hpending]
      have hcounts : counts m = decide (m.authorKind ≠ .system) := by simp [counts, hpending]
      rw [hcounts]
      cases m.authorKind with
      | user => rfl
      | system => exact ih n
      | bot => exact (ih (n + 1)).trans (by simp; omega)
      | role => exact (ih (n + 1)).trans (by simp; omega)

theorem turnsSinceUser_eq_zero_of_nil : turnsSinceUser [] = 0 := rfl

theorem turnsSinceUser_append (newer older : List Message) :
    (HasUser newer → turnsSinceUser (newer ++ older) = turnsSinceUser newer) ∧
    (¬ HasUser newer →
      turnsSinceUser (newer ++ older) = turnsSinceUser newer + turnsSinceUser older) := by
  induction newer with
  | nil =>
    constructor
    · rintro ⟨m, hm, -⟩
      exact absurd hm List.not_mem_nil
    · intro _
      rw [List.nil_append, turnsSinceUser_eq_zero_of_nil, Nat.zero_add]
  | cons m newer ih =>
    rw [List.cons_append, turnsSinceUser_cons, turnsSinceUser_cons]
    by_cases hcounts : counts m = true
    · rw [if_pos hcounts, if_pos hcounts]
      by_cases huser : m.authorKind = .user
      · rw [if_pos huser, if_pos huser]
        exact ⟨fun _ => rfl, fun h => absurd ⟨m, List.mem_cons_self, hcounts, huser⟩ h⟩
      · rw [if_neg huser, if_neg huser]
        have htail : HasUser (m :: newer) ↔ HasUser newer := by
          unfold HasUser
          rw [List.exists_mem_cons_iff]
          exact or_iff_right fun h => huser h.2
        rw [htail]
        refine ⟨fun h => by rw [ih.1 h], fun h => ?_⟩
        rw [ih.2 h]
        omega
    · rw [if_neg hcounts, if_neg hcounts]
      have htail : HasUser (m :: newer) ↔ HasUser newer := by
        unfold HasUser
        rw [List.exists_mem_cons_iff]
        exact or_iff_right fun h => hcounts h.1
      rw [htail]
      exact ih

theorem hasUser_reverse : HasUser ms.reverse ↔ HasUser ms := by
  unfold HasUser
  simp only [List.mem_reverse]

/-! ### The page -/

theorem listMessages_zero (h : Numbered s) (t : String) (n : ℕ) :
    listMessages s t n 0 = (s.inThread t).take n := by
  unfold listMessages Store.inThread
  congr 2
  refine List.filter_congr fun x hx => ?_
  by_cases ht : x.2.threadId = t
  · have hmem : x.2.seq ∈ seqsOf s.messages.rows t :=
      List.mem_map.mpr ⟨x, List.mem_filter.mpr ⟨hx, decide_eq_true ht⟩, rfl⟩
    rw [h t] at hmem
    have hpos : 0 < x.2.seq := (List.mem_range'_1.mp hmem).1
    simp [ht, hpos]
  · simp [ht]

theorem insertionSort_page (s : Store) (t : String) (n : ℕ) :
    ((s.inThread t).take n).insertionSort (fun x y => y.2.seq ≤ x.2.seq) =
      ((s.inThread t).take n).reverse := by
  have hasc : ((s.inThread t).take n).Pairwise fun x y => x.2.seq < y.2.seq :=
    (inThread_sorted s t).sublist (List.take_sublist _ _)
  have hdesc : ((s.inThread t).take n).reverse.Pairwise fun x y => y.2.seq ≤ x.2.seq :=
    (List.pairwise_reverse.mpr hasc).imp le_of_lt
  have hnodup : (((s.inThread t).take n).map fun x => x.2.seq).Nodup :=
    (List.pairwise_map.mpr hasc).imp ne_of_lt
  refine ((List.perm_insertionSort _ _).trans (List.reverse_perm _).symm).eq_of_pairwise ?_
    (List.pairwise_insertionSort _ _) hdesc
  intro x y hx hy hyx hxy
  have hx : x ∈ (s.inThread t).take n := (List.mem_insertionSort _).mp hx
  have hy : y ∈ (s.inThread t).take n := List.mem_reverse.mp hy
  exact List.inj_on_of_nodup_map hnodup hx hy (le_antisymm hxy hyx)

/-- The guard trips if there are enough turns at the end of its page. -/
theorem check_tripped_iff (h : Numbered s) (limit : ℤ) (t : String) :
    (check limit t s).1 = true ↔ limit ≤ turnsSinceUser (page limit s t).reverse := by
  unfold check page
  dsimp only
  rw [listMessages_zero h]
  by_cases hnil : (s.inThread t).take ((max limit 1).toNat + 10) = []
  · rw [if_pos hnil, hnil]
    have hzero :
      turnsSinceUser (List.map Prod.snd ([] : List (String × Message))).reverse = 0 := rfl
    rw [hzero, decide_eq_true_iff]
    rfl
  · rw [if_neg hnil, insertionSort_page, countTurns_eq, Nat.zero_add, List.map_reverse,
      decide_eq_true_iff]

/-- The turns of the thread: those after the page, and those of the page if no user wrote since. -/
theorem turnsSinceUser_inThread (limit : ℤ) (s : Store) (t : String) :
    (HasUser (later limit s t) → turnsSinceUser ((s.inThread t).map Prod.snd).reverse =
      turnsSinceUser (later limit s t).reverse) ∧
    (¬ HasUser (later limit s t) → turnsSinceUser ((s.inThread t).map Prod.snd).reverse =
      turnsSinceUser (later limit s t).reverse + turnsSinceUser (page limit s t).reverse) := by
  have hsplit : (s.inThread t).map Prod.snd = page limit s t ++ later limit s t := by
    unfold page later
    rw [← List.map_append, List.take_append_drop]
  rw [hsplit, List.reverse_append, ← hasUser_reverse]
  exact turnsSinceUser_append _ _

/-- The messages after the page leave the verdict of the page. -/
def PageDecides (limit : ℤ) (s : Store) (t : String) : Prop :=
  (HasUser (later limit s t) → (limit ≤ turnsSinceUser (page limit s t).reverse ↔
    limit ≤ turnsSinceUser (later limit s t).reverse)) ∧
  (¬ HasUser (later limit s t) → limit ≤ turnsSinceUser (page limit s t).reverse ∨
    (turnsSinceUser (later limit s t).reverse + turnsSinceUser (page limit s t).reverse
      : ℕ) < limit)

/-- **The verdict is that of the thread exactly if the later messages leave that of the page.** -/
theorem tripped_correct_iff (p : Path (Step redact redactMeta) .empty es s) (limit : ℤ)
    (t : String) :
    ((check limit t s).1 = true ↔
      limit ≤ turnsSinceUser ((s.inThread t).map Prod.snd).reverse) ↔ PageDecides limit s t := by
  rw [check_tripped_iff (numbered_path p)]
  obtain ⟨huser, hnone⟩ := turnsSinceUser_inThread limit s t
  unfold PageDecides
  by_cases h : HasUser (later limit s t)
  · rw [huser h]
    exact ⟨fun heq => ⟨fun _ => heq, fun hn => absurd h hn⟩, fun hd => hd.1 h⟩
  · rw [hnone h]
    constructor
    · intro heq
      refine ⟨fun hu => absurd hu h, fun _ => ?_⟩
      by_contra hnot
      obtain ⟨hpage, hall⟩ := not_or.mp hnot
      exact hpage (heq.mpr (not_lt.mp hall))
    · intro hd
      rcases hd.2 h with hpage | hall
      · refine iff_of_true hpage (hpage.trans ?_)
        exact Int.ofNat_le.mpr (Nat.le_add_left _ _)
      · refine iff_of_false (fun hpage => ?_) (not_le.mpr hall)
        have hle : (turnsSinceUser (page limit s t).reverse : ℤ) ≤
            (turnsSinceUser (later limit s t).reverse + turnsSinceUser
              (page limit s t).reverse : ℕ) :=
          Int.ofNat_le.mpr (Nat.le_add_left _ _)
        omega

theorem pageDecides_of_length_le (h : (s.inThread t).length ≤ (max limit 1).toNat + 10) :
    PageDecides limit s t := by
  have hlater : later limit s t = [] := by
    unfold later
    rw [List.drop_eq_nil_of_le h, List.map_nil]
  unfold PageDecides
  rw [hlater]
  refine ⟨fun hu => ?_, fun _ => ?_⟩
  · obtain ⟨m, hm, -⟩ := hu
    exact absurd hm List.not_mem_nil
  · have hzero : turnsSinceUser ([] : List Message).reverse = 0 := rfl
    rw [hzero, Nat.zero_add]
    omega

/-- Messages of a user, and then of an agent. -/
def userThenBot (users bots : ℕ) : List Call :=
  (List.range (users + bots)).map fun n =>
    .add { id := String.ofList (List.replicate n 'm'), threadId := "th",
           authorKind := if n < users then .user else .bot }

/-- After eleven messages of a user, a turn of an agent is not seen. -/
theorem turn_not_seen : ¬ ∀ es s, Path (Step id id) .empty es s → ∀ limit : ℤ, 1 ≤ limit → ∀ t,
    ((check limit t s).1 = true ↔ limit ≤
      turnsSinceUser ((s.inThread t).map Prod.snd).reverse) := by
  intro h
  have heq := h _ _ (path_trace .empty (userThenBot 11 1)) 1 le_rfl "th"
  revert heq
  decide +kernel

/-- A thread of two messages. -/
theorem turn_seen : (check 1 "th" (trace id id .empty (userThenBot 1 1)).2).1 = true ↔
    (1 : ℤ) ≤ turnsSinceUser
      (((trace id id .empty (userThenBot 1 1)).2.inThread "th").map Prod.snd).reverse := by
  refine (tripped_correct_iff (path_trace _ _) 1 "th").mpr (pageDecides_of_length_le ?_)
  decide +kernel

end Threads
