import RunnerDashboard.Coordination.Postman

/-!
# What a postman sends over its cycles

A message is sent to a recipient once: while its key is among the delivered ones no cycle sends it
again, and the first cycle that lists it does, unless the guard refuses its body.  The memory holds
the last 5000 keys, so what is proved is about cycles that list a message before 5000 others were
sent after it.

## Main results

* `deliver_remembers`, `cycle_remembers`, `run_remembers` — a delivery, a cycle and a run keep that.
* `delivered_once` — every listed message is sent to each recipient exactly once.
-/

namespace Postman

/-! ### The delivered keys -/

/-- A key that is not among the last ones yet is there after one more, if there is room for it. -/
theorem mark_keeps {st : PostmanState} {key : String} {a b : List String} (key' : String)
    (h : st.delivered = a ++ key :: b) (hroom : b.length + 1 < maxDelivered) :
    ∃ a' b', (st.mark key').delivered = a' ++ key :: b' ∧ b'.length ≤ b.length + 1 := by
  unfold PostmanState.mark
  split
  · exact ⟨a, b, h, by omega⟩
  · refine ⟨a.drop ((a ++ key :: b ++ [key']).length - maxDelivered), b ++ [key'], ?_, by simp⟩
    have hle : (a ++ key :: b ++ [key']).length - maxDelivered ≤ a.length := by
      simp only [List.length_append, List.length_cons, List.length_nil]
      omega
    have hdrop := @List.drop_append_of_le_length _ a (key :: b ++ [key']) _ hle
    simpa [h] using hdrop

theorem mark_last {st : PostmanState} {key : String} (h : key ∉ st.delivered) :
    ∃ a, (st.mark key).delivered = a ++ [key] := by
  have hpos : 0 < maxDelivered := by simp [maxDelivered]
  have hle : (st.delivered ++ [key]).length - maxDelivered ≤ st.delivered.length := by
    rw [List.length_append, List.length_singleton]
    omega
  refine ⟨st.delivered.drop ((st.delivered ++ [key]).length - maxDelivered), ?_⟩
  have hdrop := @List.drop_append_of_le_length _ st.delivered [key] _ hle
  simpa [PostmanState.mark, h] using hdrop

theorem of_mem_mark {st : PostmanState} {key key' : String} (h : key ∈ (st.mark key').delivered) :
    key ∈ st.delivered ∨ key = key' := by
  unfold PostmanState.mark at h
  split at h
  · exact .inl h
  · dsimp only at h
    simpa using List.mem_of_mem_drop h

/-! ### Cycles -/

section Code

variable (E : Env) {mid to_ : String}

theorem foldl_deliver (st : PostmanState) (sent todo : List Delivery) :
    todo.foldl (deliver E) (st, sent)
      = ((todo.filter fun d => !E.refuses d.body).foldl (fun st d => st.mark d.idempotencyKey) st,
        sent ++ todo.filter fun d => !E.refuses d.body) := by
  induction todo generalizing st sent with
  | nil => simp
  | cons d todo ih =>
    by_cases h : E.refuses d.body
    · simp [deliver, h, ih]
    · simp [deliver, h, ih, List.append_assoc]

/-- What a cycle sends: what it plans, less what is delivered and what the guard refuses. -/
theorem cycle_sent (st : PostmanState) (r : Reads) :
    (cycle E st r).2 = (((plan E r (followRollover r st.boardIssue)).getD []).filter
      fun d => !st.has d.idempotencyKey).filter fun d => !E.refuses d.body := by
  unfold cycle
  dsimp only
  split
  · rename_i h
    simp [h]
  · rename_i planned h
    rw [foldl_deliver]
    simp [h]

@[simp] theorem run_nil (st : PostmanState) : run E st [] = (st, []) := rfl

theorem run_snoc (st : PostmanState) (cycles : List Reads) (r : Reads) :
    run E st (cycles ++ [r]) = ((cycle E (run E st cycles).1 r).1,
      (run E st cycles).2 ++ (cycle E (run E st cycles).1 r).2) := by
  simp [run, List.foldl_append]

theorem countP_run_append_le (st : PostmanState) (cycles later : List Reads)
    (p : Delivery → Bool) :
    (run E st cycles).2.countP p ≤ (run E st (cycles ++ later)).2.countP p := by
  induction later using List.reverseRecOn with
  | nil => simp
  | append_singleton later r ih =>
    rw [← List.append_assoc, run_snoc, List.countP_append]
    omega

/-! ### What the delivered keys tell -/

/-- The key under which the message `mid` goes to `to_`. -/
def messageKey (mid to_ : String) : String := deliveryKey E .message to_ mid

/-- The key of a pair is delivered only if the pair was sent, and it is as near to the end of the
delivered keys as the pair is to the end of what was sent, while that is less than what is kept. -/
structure Remembers (mid to_ : String) (st : PostmanState) (sent : List Delivery) : Prop where
  unsent : sent.countP (isPair mid to_) = 0 → messageKey E mid to_ ∉ st.delivered
  near : ∀ older d newer, sent = older ++ d :: newer → isPair mid to_ d = true →
    newer.length < maxDelivered →
    ∃ a b, st.delivered = a ++ messageKey E mid to_ :: b ∧ b.length ≤ newer.length

def KeyTells (mid to_ : String) (d : Delivery) : Prop :=
  (isPair mid to_ d = true ↔ d.idempotencyKey = messageKey E mid to_)

theorem snoc_eq_append_cons {α : Type*} {l older newer : List α} {x y : α}
    (h : l ++ [x] = older ++ y :: newer) :
    (newer = [] ∧ y = x) ∨ ∃ newer', newer = newer' ++ [x] ∧ l = older ++ y :: newer' := by
  induction newer using List.reverseRecOn with
  | nil => exact .inl ⟨rfl, by simpa using (List.append_inj_right' h rfl).symm⟩
  | append_singleton newer z _ =>
    rw [← List.cons_append, ← List.append_assoc] at h
    obtain ⟨hl, hz⟩ := List.append_inj' h rfl
    exact .inr ⟨newer, by rw [List.singleton_inj.mp hz], hl⟩

theorem deliver_remembers {st : PostmanState} {sent : List Delivery} {d : Delivery}
    (h : Remembers E mid to_ st sent) (hkey : KeyTells E mid to_ d)
    (hfirst : isPair mid to_ d = true → sent.countP (isPair mid to_) = 0) :
    Remembers E mid to_ (deliver E (st, sent) d).1 (deliver E (st, sent) d).2 := by
  unfold deliver
  split
  · exact h
  dsimp only
  by_cases hpair : isPair mid to_ d = true
  · have hnone := hfirst hpair
    obtain ⟨a, ha⟩ := mark_last (hkey.mp hpair ▸ h.unsent hnone)
    refine ⟨fun hzero => ?_, fun older e newer hsplit he _ => ?_⟩
    · simp [hpair] at hzero
    · rcases snoc_eq_append_cons hsplit with ⟨rfl, rfl⟩ | ⟨newer', rfl, rfl⟩
      · exact ⟨a, [], by rw [ha, hkey.mp hpair], by simp⟩
      · simp [he] at hnone
  · have hne : messageKey E mid to_ ≠ d.idempotencyKey := fun heq => hpair (hkey.mpr heq.symm)
    refine ⟨fun hzero hmem => ?_, fun older e newer hsplit he hroom => ?_⟩
    · rw [List.countP_append] at hzero
      rcases of_mem_mark hmem with hmem | hmem
      · exact h.unsent (by omega) hmem
      · exact hne hmem
    · rcases snoc_eq_append_cons hsplit with ⟨rfl, rfl⟩ | ⟨newer', rfl, rfl⟩
      · exact absurd he hpair
      · rw [List.length_append, List.length_singleton] at hroom ⊢
        obtain ⟨a, b, hab, hb⟩ := h.near older e newer' rfl he (by omega)
        obtain ⟨a', b', hab', hb'⟩ :=
          mark_keeps d.idempotencyKey hab (by omega : b.length + 1 < maxDelivered)
        exact ⟨a', b', hab', by omega⟩

theorem foldl_deliver_remembers (todo : List Delivery) {st : PostmanState} {sent : List Delivery}
    (h : Remembers E mid to_ st sent) (hkeys : ∀ d ∈ todo, KeyTells E mid to_ d)
    (hone : todo.countP (isPair mid to_) ≤ 1)
    (hfirst : 0 < todo.countP (isPair mid to_) → sent.countP (isPair mid to_) = 0) :
    Remembers E mid to_ (todo.foldl (deliver E) (st, sent)).1
      (todo.foldl (deliver E) (st, sent)).2 := by
  induction todo generalizing st sent with
  | nil => exact h
  | cons d todo ih =>
    rw [List.countP_cons] at hone hfirst
    have hd : isPair mid to_ d = true → sent.countP (isPair mid to_) = 0 := fun hpair =>
      hfirst (by simp [hpair])
    have hsent : (deliver E (st, sent) d).2.countP (isPair mid to_)
        ≤ sent.countP (isPair mid to_) + if isPair mid to_ d = true then 1 else 0 := by
      unfold deliver
      split <;> simp [List.countP_append]
    rw [List.foldl_cons]
    apply ih (deliver_remembers E h (hkeys d (by simp)) hd)
      (fun e he => hkeys e (List.mem_cons_of_mem _ he)) (by omega)
    intro hpos
    have hzero := hfirst (by omega)
    by_cases hpair : isPair mid to_ d = true
    · simp only [hpair, if_true] at hone
      omega
    · simp only [hpair, Bool.false_eq_true, if_false] at hsent
      omega

/-! ### The assumptions on a cycle -/

/-- The keys that a cycle plans tell the pair, and it comes before the memory ran over. -/
structure CycleFine (mid to_ : String) (st : PostmanState) (sent : List Delivery) (r : Reads) :
    Prop where
  bars : BarFree E r
  digests : ∀ planned, plan E r (followRollover r st.boardIssue) = some planned →
    ∀ d ∈ planned, d.idempotencyKey = messageKey E mid to_ →
      keyText d.kind d.to_ d.boardMessageId = keyText .message to_ mid
  recent : Listed E r mid to_ → ∀ older d newer, sent = older ++ d :: newer →
    isPair mid to_ d = true → newer.length < maxDelivered

section Cycle

variable {E} {st : PostmanState} {sent planned : List Delivery} {r : Reads}

theorem keyTells_of_mem_plan (hfine : CycleFine E mid to_ st sent r) (hto : '|' ∉ to_.toList)
    (hplan : plan E r (followRollover r st.boardIssue) = some planned) {d : Delivery}
    (hd : d ∈ planned) : KeyTells E mid to_ d := by
  constructor
  · intro hpair
    rw [idempotencyKey_plan E hplan hd]
    simp only [isPair, Bool.and_eq_true, decide_eq_true_eq] at hpair
    rw [hpair.1, hpair.2.1, hpair.2.2]
    rfl
  · intro hkey
    exact isPair_of_keyText E hplan hd hfine.bars hto (hfine.digests planned hplan d hd hkey)

theorem countP_todo (hmem : Remembers E mid to_ st sent) (hfine : CycleFine E mid to_ st sent r)
    (hto : '|' ∉ to_.toList)
    (hplan : plan E r (followRollover r st.boardIssue) = some planned) :
    (planned.filter fun d => !st.has d.idempotencyKey).countP (isPair mid to_)
      = if sent.countP (isPair mid to_) = 0 then planned.countP (isPair mid to_) else 0 := by
  classical
  split
  · rename_i hnone
    -- no key of the pair is delivered, so none of it is left out
    rw [List.countP_filter]
    apply List.countP_congr
    intro d hd
    simp only [Bool.and_eq_true, Bool.not_eq_true', and_iff_left_iff_imp]
    intro hpair
    have hkey := (keyTells_of_mem_plan hfine hto hplan hd).mp hpair
    simpa [PostmanState.has, hkey] using hmem.unsent hnone
  · rename_i hsome
    rw [List.countP_eq_zero]
    intro d hd hpair
    obtain ⟨hd, hnot⟩ := List.mem_filter.mp hd
    have hlisted : Listed E r mid to_ := by
      by_contra hno
      have hzero := countP_plan E mid to_ hplan hfine.bars
      rw [if_neg hno, List.countP_eq_zero] at hzero
      exact hzero d hd hpair
    obtain ⟨e, he, hepair⟩ := List.countP_pos_iff.mp (Nat.pos_of_ne_zero hsome)
    obtain ⟨older, newer, rfl⟩ := List.append_of_mem he
    obtain ⟨a, b, hab, -⟩ := hmem.near older e newer rfl hepair
      (hfine.recent hlisted older e newer rfl hepair)
    have hkey := (keyTells_of_mem_plan hfine hto hplan hd).mp hpair
    simp [PostmanState.has, hkey, hab] at hnot

theorem cycle_remembers (hmem : Remembers E mid to_ st sent)
    (hfine : CycleFine E mid to_ st sent r) (hto : '|' ∉ to_.toList) :
    Remembers E mid to_ (cycle E st r).1 (sent ++ (cycle E st r).2) := by
  classical
  rw [cycle_sent]
  unfold cycle
  dsimp only
  split
  · rename_i hplan
    simpa [hplan] using hmem
  · rename_i planned hplan
    have hcount := countP_plan E mid to_ hplan hfine.bars
    have htodo := countP_todo hmem hfine hto hplan
    have hone : planned.countP (isPair mid to_) ≤ 1 := by
      rw [hcount]
      split <;> omega
    have hmem' :
      Remembers E mid to_ { st with boardIssue := followRollover r st.boardIssue } sent :=
      ⟨hmem.unsent, hmem.near⟩
    have hfold := foldl_deliver_remembers E (planned.filter fun d => !st.has d.idempotencyKey) hmem'
      (fun d hd => keyTells_of_mem_plan hfine hto hplan (List.mem_filter.mp hd).1)
      (by rw [htodo]; split <;> omega)
      (by
        rw [htodo]
        intro hpos
        by_contra hne
        rw [if_neg hne] at hpos
        omega)
    rw [foldl_deliver] at hfold ⊢
    simpa [hplan] using hfold

end Cycle

/-! ### Runs -/

def RunFine (st : PostmanState) (cycles : List Reads) (mid to_ : String) : Prop :=
  ∀ front r back, cycles = front ++ r :: back →
    CycleFine E mid to_ (run E st front).1 (run E st front).2 r

/-- Some cycle that gets through its planning lists the pair, with a body that the guard lets
pass. -/
def Offered (st : PostmanState) (cycles : List Reads) (mid to_ : String) : Prop :=
  ∃ front r back planned, cycles = front ++ r :: back ∧ Listed E r mid to_ ∧
    plan E r (followRollover r (run E st front).1.boardIssue) = some planned ∧
    ∀ d ∈ planned, isPair mid to_ d = true → E.refuses d.body = false

section Run

variable {E} {st : PostmanState} {cycles : List Reads}

theorem run_remembers (hst : messageKey E mid to_ ∉ st.delivered)
    (hfine : RunFine E st cycles mid to_) (hto : '|' ∉ to_.toList) :
    Remembers E mid to_ (run E st cycles).1 (run E st cycles).2 := by
  induction cycles using List.reverseRecOn with
  | nil => exact ⟨fun _ => hst, fun older d newer h => absurd h (by simp)⟩
  | append_singleton cycles r ih =>
    rw [run_snoc]
    apply cycle_remembers _ (hfine cycles r [] rfl) hto
    exact ih fun front r' back h => hfine front r' (back ++ [r]) (by simp [h])

/-- A pair is sent at most once, whatever the guard refuses. -/
theorem countP_run_le_one (hst : messageKey E mid to_ ∉ st.delivered)
    (hfine : RunFine E st cycles mid to_) (hto : '|' ∉ to_.toList) :
    (run E st cycles).2.countP (isPair mid to_) ≤ 1 := by
  classical
  induction cycles using List.reverseRecOn with
  | nil => simp
  | append_singleton cycles r ih =>
    have hfine' : RunFine E st cycles mid to_ := fun front r' back h =>
      hfine front r' (back ++ [r]) (by simp [h])
    have hr := hfine cycles r [] rfl
    have hle := ih hfine'
    rw [run_snoc, List.countP_append, cycle_sent]
    rcases hplan : plan E r (followRollover r (run E st cycles).1.boardIssue) with _ | planned
    · simpa using hle
    · have htodo := countP_todo (run_remembers hst hfine' hto) hr hto hplan
      have hone := countP_plan E mid to_ hplan hr.bars
      have hsub := List.Sublist.countP_le (p := isPair mid to_)
        (List.filter_sublist (p := fun d => !E.refuses d.body)
          (l := planned.filter fun d => !(run E st cycles).1.has d.idempotencyKey))
      rw [htodo] at hsub
      rw [Option.getD_some]
      split at hone <;> split at hsub <;> omega

/-- A listed message is sent to the recipient exactly once: if the guard lets it pass in some cycle
that lists it, and if no cycle lists it when 5000 others were sent after it. -/
theorem delivered_once (hst : messageKey E mid to_ ∉ st.delivered)
    (hfine : RunFine E st cycles mid to_) (hoffered : Offered E st cycles mid to_) :
    (run E st cycles).2.countP (isPair mid to_) = 1 := by
  classical
  obtain ⟨front, r, back, planned, rfl, hlisted, hplan, hpass⟩ := hoffered
  have hr := hfine front r back rfl
  have hto : '|' ∉ to_.toList := by
    obtain ⟨x, hx, -, rfl⟩ := hlisted
    exact hr.bars x hx
  have hfront : RunFine E st front mid to_ := fun front' r' back' h =>
    hfine front' r' (back' ++ r :: back) (by simp [h])
  -- after this cycle it was sent, then or before
  have hsent : 1 ≤ (run E st (front ++ [r])).2.countP (isPair mid to_) := by
    have htodo := countP_todo (run_remembers hst hfront hto) hr hto hplan
    have hone := countP_plan E mid to_ hplan hr.bars
    rw [if_pos hlisted] at hone
    rw [run_snoc, List.countP_append, cycle_sent, hplan, Option.getD_some, List.countP_filter]
    by_cases hzero : (run E st front).2.countP (isPair mid to_) = 0
    · rw [if_pos hzero, hone] at htodo
      have hcongr : ∀ d ∈ planned.filter fun d => !(run E st front).1.has d.idempotencyKey,
          (isPair mid to_ d && !E.refuses d.body) = true ↔ isPair mid to_ d = true := by
        intro d hd
        have := hpass d (List.mem_filter.mp hd).1
        simp only [Bool.and_eq_true, Bool.not_eq_true', and_iff_left_iff_imp]
        exact this
      rw [List.countP_congr hcongr, htodo]
      omega
    · omega
  have hle := countP_run_le_one hst hfine hto
  have hlater := countP_run_append_le E st (front ++ [r]) back (isPair mid to_)
  rw [List.append_assoc, List.singleton_append] at hlater
  omega

end Run

/-- A postman for one agent, as far as the messages below reach. -/
def aliceEnv : Env where
  roster := ["alice"]
  digest := id
  refuses := Py.contains "AKIA0123456789ABCDEF"
  claims := fun _ => false
  mentioned := fun _ _ _ => false
  rejected := fun _ => none
  lower := id

/-- A cycle that reads one message in one inbox. -/
def aliceReads (text : String) : Reads where
  inspect := fun issue => { issue := issue }
  sessions := [{ session := "s1", agent := "bob", repo := "Tools", expires := none }]
  inbox := fun _ _ => ([{ id := "m1", recipient := "s1", text := text, session := "s2",
                          senderAgent := "carol" }], [])
  now := 0

/-- A message that the guard refuses is listed and never sent. -/
theorem not_delivered_secret :
    ¬ ∀ (E : Env) (st : PostmanState) (cycles : List Reads) (mid to_ : String),
      messageKey E mid to_ ∉ st.delivered → (∃ r ∈ cycles, Listed E r mid to_) →
      (run E st cycles).2.countP (isPair mid to_) = 1 := by
  intro h
  have hone := h aliceEnv { boardIssue := 1 } [aliceReads "key AKIA0123456789ABCDEF"] "m1" "s1"
    (by simp) ⟨_, List.mem_singleton.mpr rfl, _, List.mem_singleton.mpr rfl, rfl, rfl⟩
  have hsent :
    (run aliceEnv { boardIssue := 1 } [aliceReads "key AKIA0123456789ABCDEF"]).2 = [] := by
    decide +kernel
  rw [hsent] at hone
  exact absurd hone (by simp)

theorem delivered_once_hello :
    (run aliceEnv { boardIssue := 1 } [aliceReads "hello", aliceReads "hello"]).2.countP
      (isPair "m1" "s1") = 1 := by
  apply delivered_once
  · simp
  · intro front r back h
    have hr : r ∈ [aliceReads "hello", aliceReads "hello"] := h ▸ by simp
    have hr : r = aliceReads "hello" := by simpa using hr
    subst hr
    have hshort : (run aliceEnv { boardIssue := 1 } front).2.length ≤ 1 := by
      match front with
      | [] => simp
      | [c] =>
        have hc : c = aliceReads "hello" := by simpa using (List.cons.inj h).1.symm
        subst hc
        decide +kernel
      | _ :: _ :: front => exact absurd (congrArg List.length h) (by simp)
    refine ⟨fun x hx => ?_, fun planned hplan d hd hkey => ?_, fun _ older d newer hsplit _ => ?_⟩
    · obtain rfl := List.mem_singleton.mp hx
      decide
    · rw [idempotencyKey_plan aliceEnv hplan hd] at hkey
      simpa [messageKey, deliveryKey, aliceEnv] using hkey
    · rw [hsplit, List.length_append, List.length_cons] at hshort
      have : 0 < maxDelivered := by simp [maxDelivered]
      omega
  · refine ⟨[], aliceReads "hello", [aliceReads "hello"],
      [pair aliceEnv .message .request "s1" "m1" "[board #1] s2 -> s1: hello" 1], rfl,
      ⟨_, List.mem_singleton.mpr rfl, rfl, rfl⟩, ?_, ?_⟩
    · decide +kernel
    · decide +kernel

end Code

end Postman
