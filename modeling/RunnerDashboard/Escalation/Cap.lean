import Mathlib.Data.Finset.Card
import Mathlib.Data.List.DropRight
import RunnerDashboard.Lib.PyStr

/-!
# The cap of the expedited pull requests

The events of the label guard are kept for ever, newest first.  A pull request is expedited if its
newest event says so, but only the newest 200 events are looked at, and the events of a repository
that is written in two ways are not taken together there.  The count of a repository takes them
together.

## Main results

* `capped_and_exact` — **no more than the cap are expedited, if the window holds all of them
  whenever the cap is asked**.
-/

namespace Escalation

/-! ### Events -/

/-- `EscalationOutcome`. -/
inductive Outcome
  | applied
  | stripped
  | refused
  deriving DecidableEq

/-- `EscalationEvent`.  The number of an event is its place in the history. -/
structure Event where
  repo : String
  prNumber : Int
  githubActor : String
  outcome : Outcome
  reason : String := ""
  ts : String := ""
  deriving DecidableEq

/-- `append`; `none` where an assertion fails. -/
def append (history : List Event) (event : Event) : Option (List Event) :=
  if Py.strip event.repo = "" ∨ event.prNumber ≤ 0 then none else some (event :: history)

def listRecent (history : List Event) (limit : Int) : List Event :=
  history.take (max 1 (min limit 200)).toNat

/-- The newest event of each repository and pull request, as they come. -/
def latest : List (String × Int) → List Event → List Event
  | _, [] => []
  | seen, row :: rows =>
    if (row.repo, row.prNumber) ∈ seen then latest seen rows
    else row :: latest ((row.repo, row.prNumber) :: seen) rows

def listActive (history : List Event) : List Event :=
  (latest [] (listRecent history 200)).filter fun r => r.outcome = .applied

/-- `name.split("/")[-1]`. -/
def bareName (name : String) : List Char := name.toList.rtakeWhile fun c => c ≠ '/'

def repoMatches (stored target : String) : Bool :=
  stored = target || stored.toList =
    bareName target || ('/' :: bareName target).isSuffixOf stored.toList

def activeCountForRepo (repo : String) (history : List Event) (excludePr : Option Int) : ℕ :=
  (listActive history).countP fun row =>
    !(excludePr = some row.prNumber && repoMatches row.repo repo) && repoMatches row.repo repo

def capacityRefused (repo : String) (cap : ℕ) (prNumber : Int) (history : List Event) :
    Option String :=
  if cap ≤ activeCountForRepo repo history (some prNumber) then
    some ("Expedite cap reached for " ++ repo ++ " (" ++ toString cap ++ " concurrent). " ++
      "Clear an active priority:expedite or wait for CI to finish.")
  else none

/-! ### Names -/

theorem bareName_eq_self {name : String} (h : '/' ∉ name.toList) : bareName name = name.toList := by
  rw [bareName, List.rtakeWhile_eq_self_iff]
  intro c hc
  rw [decide_eq_true_eq]
  rintro rfl
  exact h hc

theorem bareName_append {name : String} {front bare : List Char} (h : '/' ∉ bare)
    (hname : name.toList = front ++ '/' :: bare) : bareName name = bare := by
  have hall : ∀ c ∈ bare.reverse, decide (c ≠ '/') = true := by
    intro c hc
    rw [decide_eq_true_eq]
    rintro rfl
    exact h (List.mem_reverse.mp hc)
  rw [bareName, List.rtakeWhile, hname, List.reverse_append, List.reverse_cons, List.append_assoc,
    List.takeWhile_append_of_pos hall]
  simp

theorem slash_notMem_bareName (name : String) : '/' ∉ bareName name := by
  intro h
  have hno := List.mem_rtakeWhile_imp h
  exact absurd rfl (of_decide_eq_true hno)

theorem eq_or_endsWith_bareName (name : String) :
    name.toList = bareName name ∨ ∃ front, name.toList = front ++ '/' :: bareName name := by
  have hcut := List.rdropWhile_append_rtakeWhile (p := fun c => decide (c ≠ '/')) (l := name.toList)
  rcases hfront : name.toList.rdropWhile (fun c => decide (c ≠ '/')) with _ | ⟨c, cs⟩
  · rw [hfront, List.nil_append] at hcut
    exact .inl hcut.symm
  · have hne : name.toList.rdropWhile (fun c => decide (c ≠ '/')) ≠ [] := by
      rw [hfront]
      exact List.cons_ne_nil c cs
    have hlast := List.rdropWhile_last_not _ _ hne
    rw [decide_eq_true_eq, not_not] at hlast
    refine .inr ⟨(name.toList.rdropWhile fun c => decide (c ≠ '/')).dropLast, ?_⟩
    conv_lhs => rw [← hcut, ← List.dropLast_append_getLast hne, hlast]
    rw [List.append_assoc]
    rfl

/-- **Names match if their last parts are the same.** -/
theorem repoMatches_iff (stored target : String) :
    repoMatches stored target = true ↔ bareName stored = bareName target := by
  have hslash := slash_notMem_bareName target
  simp only [repoMatches, Bool.or_eq_true, decide_eq_true_eq, List.isSuffixOf_iff_suffix]
  constructor
  · rintro ((rfl | hbare) | ⟨front, hfront⟩)
    · rfl
    · rw [bareName_eq_self (by rw [hbare]; exact hslash), hbare]
    · exact bareName_append hslash hfront.symm
  · intro h
    rcases eq_or_endsWith_bareName stored with hself | ⟨front, hfront⟩
    · exact .inl (.inr (hself.trans h))
    · exact .inr ⟨front, by rw [hfront, h]⟩

/-! ### What is listed -/

section Listed

variable {seen : List (String × Int)} {rows history : List Event} {e : Event}

theorem mem_latest_iff :
    e ∈ latest seen rows ↔ (e.repo, e.prNumber) ∉ seen ∧ ∃ front back, rows = front ++ e :: back ∧
      ∀ x ∈ front, ¬ (x.repo = e.repo ∧ x.prNumber = e.prNumber) := by
  induction rows generalizing seen with
  | nil => simp [latest]
  | cons row rows ih =>
    have hcons : (∃ front back, row :: rows = front ++ e :: back ∧
        ∀ x ∈ front, ¬ (x.repo = e.repo ∧ x.prNumber = e.prNumber)) ↔
        row = e ∨ ¬ (row.repo = e.repo ∧ row.prNumber = e.prNumber) ∧ ∃ front back,
          rows = front ++ e :: back ∧
            ∀ x ∈ front, ¬ (x.repo = e.repo ∧ x.prNumber = e.prNumber) := by
      constructor
      · rintro ⟨front, back, hrows, hfront⟩
        rcases front with _ | ⟨x, front⟩
        · exact .inl (List.cons.inj hrows).1
        · obtain ⟨rfl, rfl⟩ := List.cons.inj hrows
          exact .inr ⟨hfront row List.mem_cons_self, front, back, rfl,
            fun y hy => hfront y (List.mem_cons_of_mem row hy)⟩
      · rintro (rfl | ⟨hne, front, back, rfl, hfront⟩)
        · exact ⟨[], rows, rfl, by simp⟩
        · exact ⟨row :: front, back, rfl, List.forall_mem_cons.mpr ⟨hne, hfront⟩⟩
    rw [hcons, latest]
    split
    · next hseen =>
      rw [ih]
      constructor
      · rintro ⟨hnot, hrest⟩
        refine ⟨hnot, .inr ⟨fun hsame => hnot ?_, hrest⟩⟩
        rwa [← hsame.1, ← hsame.2]
      · rintro ⟨hnot, rfl | ⟨-, hrest⟩⟩
        · exact absurd hseen hnot
        · exact ⟨hnot, hrest⟩
    · next hseen =>
      rw [List.mem_cons, ih, List.mem_cons, not_or]
      constructor
      · rintro (rfl | ⟨⟨hne, hnot⟩, hrest⟩)
        · exact ⟨hseen, .inl rfl⟩
        · refine ⟨hnot, .inr ⟨fun hsame => hne ?_, hrest⟩⟩
          rw [hsame.1, hsame.2]
      · rintro ⟨hnot, rfl | ⟨hne, hrest⟩⟩
        · exact .inl rfl
        · exact .inr ⟨⟨fun hsame => hne ⟨(congrArg Prod.fst hsame).symm,
            (congrArg Prod.snd hsame).symm⟩, hnot⟩, hrest⟩

/-- **What is listed**: the events that expedite, are among the newest 200, and have no newer one
with the same name and number. -/
theorem mem_listActive_iff :
    e ∈ listActive history ↔ e.outcome = .applied ∧ ∃ front back, history = front ++ e :: back ∧
      front.length < 200 ∧ ∀ x ∈ front, ¬ (x.repo = e.repo ∧ x.prNumber = e.prNumber) := by
  have htake : listRecent history 200 = history.take 200 := rfl
  rw [listActive, htake, List.mem_filter, mem_latest_iff, decide_eq_true_eq, and_comm]
  apply and_congr_right
  intro _
  constructor
  · rintro ⟨-, front, back, hrows, hfront⟩
    have hlen := congrArg List.length hrows
    rw [List.length_take, List.length_append, List.length_cons] at hlen
    refine ⟨front, back ++ history.drop 200, ?_, by omega, hfront⟩
    rw [← List.cons_append, ← List.append_assoc, ← hrows, List.take_append_drop]
  · rintro ⟨front, back, rfl, hlen, hfront⟩
    refine ⟨by simp, front, back.take (199 - front.length), ?_, hfront⟩
    have hleft : 200 - front.length = 199 - front.length + 1 := by omega
    rw [List.take_append, List.take_of_length_le hlen.le, hleft, List.take_succ_cons]

end Listed

/-! ### What is expedited -/

section Expedited

variable {ρ : Type*} (repository : String → ρ)

/-- Two events are of one pull request, by whatever a name of a repository stands for. -/
def SamePr (x e : Event) : Prop := repository x.repo = repository e.repo ∧ x.prNumber = e.prNumber

/-- The event expedites its pull request, and no newer one is of it. -/
def Active (history : List Event) (e : Event) : Prop :=
  e.outcome = .applied ∧ ∃ front back, history = front ++ e :: back ∧
    ∀ x ∈ front, ¬ SamePr repository x e

/-- No event that expedites its pull request, as the newest of it, is older than the newest 200. -/
def InWindow (history : List Event) : Prop :=
  ∀ front e back, history = front ++ e :: back → e.outcome = .applied →
    (∀ x ∈ front, ¬ SamePr repository x e) → front.length < 200

/-- An event of the newest 200 that expedites its pull request and is not the newest of it has a
newer one with its own spelling. -/
def Spelled (history : List Event) : Prop :=
  ∀ front e back, history = front ++ e :: back → e.outcome = .applied → front.length < 200 →
    (∃ x ∈ front, SamePr repository x e) → ∃ x ∈ front, x.repo = e.repo ∧ x.prNumber = e.prNumber

variable {repository} {history : List Event} {e : Event}

theorem samePr_of_spelling {x e : Event} (h : x.repo = e.repo ∧ x.prNumber = e.prNumber) :
    SamePr repository x e :=
  ⟨congrArg repository h.1, h.2⟩

/-- The places of an event before which nothing is of its pull request are one. -/
theorem length_front_le {front back front' back' : List Event}
    (h : history = front ++ e :: back) (hfront : ∀ x ∈ front, ¬ SamePr repository x e)
    (h' : history = front' ++ e :: back') : front.length ≤ front'.length := by
  by_contra hlt
  have hlt := Nat.lt_of_not_le hlt
  have hget : history[front'.length]? = some e := by
    rw [h', List.getElem?_append_right le_rfl]; simp
  rw [h, List.getElem?_append_left hlt] at hget
  exact hfront e (List.mem_of_getElem? hget) ⟨rfl, rfl⟩

theorem mem_listActive_of_active (hw : InWindow repository history)
    (h : Active repository history e) :
    e ∈ listActive history := by
  obtain ⟨happlied, front, back, hhistory, hfront⟩ := h
  exact mem_listActive_iff.mpr ⟨happlied, front, back, hhistory,
    hw front e back hhistory happlied hfront, fun x hx hsame =>
      hfront x hx (samePr_of_spelling hsame)⟩

/-- **What is listed is what is expedited exactly if the events are in the window and spelled.** -/
theorem exactList_iff :
    (∀ e, e ∈ listActive history ↔ Active repository history e) ↔
      InWindow repository history ∧ Spelled repository history := by
  constructor
  · intro hexact
    constructor
    · intro front e back hhistory happlied hfront
      have hlisted := (hexact e).mpr ⟨happlied, front, back, hhistory, hfront⟩
      obtain ⟨-, front', back', hhistory', hlen, -⟩ := mem_listActive_iff.mp hlisted
      exact (length_front_le hhistory hfront hhistory').trans_lt hlen
    · rintro front e back hhistory happlied hlen ⟨x, hx, hsame⟩
      by_contra hno
      -- then the event is listed, and stands behind `x`
      have hlisted : e ∈ listActive history :=
        mem_listActive_iff.mpr ⟨happlied, front, back, hhistory, hlen, fun y hy hspelled =>
          hno ⟨y, hy, hspelled⟩⟩
      obtain ⟨-, front', back', hhistory', hfront'⟩ := (hexact e).mp hlisted
      have hle := length_front_le hhistory' hfront' hhistory
      have hge := length_front_le hhistory
        (fun y hy (hspelled : SamePr id y e) => hno ⟨y, hy, hspelled⟩) hhistory'
      obtain rfl := List.append_inj_left (hhistory'.symm.trans hhistory) (hle.antisymm hge)
      exact hfront' x hx hsame
  · rintro ⟨hw, hspelled⟩ e
    refine ⟨fun hlisted => ?_, mem_listActive_of_active hw⟩
    obtain ⟨happlied, front, back, hhistory, hlen, hfront⟩ := mem_listActive_iff.mp hlisted
    refine ⟨happlied, front, back, hhistory, fun x hx hsame => ?_⟩
    obtain ⟨y, hy, hy'⟩ := hspelled front e back hhistory happlied hlen ⟨x, hx, hsame⟩
    exact hfront y hy hy'

/-! ### The cap -/

variable (repository) in
/-- The newest event of a pull request. -/
def latestOf [DecidableEq ρ] (history : List Event) (r : ρ) (n : Int) : Option Event :=
  history.find? fun e => repository e.repo = r && e.prNumber = n

variable (repository) in
/-- The pull requests of a repository that are expedited. -/
def activePrs [DecidableEq ρ] (history : List Event) (r : ρ) : Finset Int :=
  (history.map Event.prNumber).toFinset.filter fun n =>
    (latestOf repository history r n).any fun e => e.outcome = .applied

/-- The cap was asked before each event that expedites, and did not refuse. -/
def Admitted (cap : ℕ) : List Event → Prop
  | [] => True
  | e :: history => Admitted cap history ∧
      (e.outcome = .applied → capacityRefused e.repo cap e.prNumber history = none)

variable (repository) in
/-- Whenever the cap is asked, all that is expedited is in the window. -/
def AskedInWindow : List Event → Prop
  | [] => True
  | e :: history => AskedInWindow history ∧ (e.outcome = .applied → InWindow repository history)

variable [DecidableEq ρ] {r : ρ} {n : Int} {cap : ℕ}

theorem mem_activePrs_iff :
    n ∈ activePrs repository history r ↔ ∃ e, latestOf repository history r n = some e ∧
      e.outcome = .applied := by
  rw [activePrs, Finset.mem_filter, List.mem_toFinset, List.mem_map, Option.any_eq_true]
  constructor
  · rintro ⟨-, e, he, happlied⟩
    exact ⟨e, he, of_decide_eq_true happlied⟩
  · rintro ⟨e, he, happlied⟩
    have hp := List.find?_some he
    rw [Bool.and_eq_true, decide_eq_true_eq, decide_eq_true_eq] at hp
    exact ⟨⟨e, List.mem_of_find?_eq_some he, hp.2⟩, e, he, decide_eq_true happlied⟩

theorem active_of_latestOf (h : latestOf repository history r n = some e)
    (happlied : e.outcome = .applied) :
    Active repository history e ∧ repository e.repo = r ∧ e.prNumber = n := by
  obtain ⟨hp, front, back, hhistory, hfront⟩ := List.find?_eq_some_iff_append.mp h
  rw [Bool.and_eq_true, decide_eq_true_eq, decide_eq_true_eq] at hp
  refine ⟨⟨happlied, front, back, hhistory, fun x hx hsame => ?_⟩, hp⟩
  have hno := hfront x hx
  rw [hsame.1, hsame.2, hp.1, hp.2] at hno
  simp at hno

theorem latestOf_cons (e : Event) (history : List Event) (r : ρ) (n : Int) :
    latestOf repository (e :: history) r n =
      if repository e.repo = r ∧ e.prNumber =
        n then some e else latestOf repository history r n := by
  rw [latestOf, List.find?_cons]
  split
  · next h =>
    rw [Bool.and_eq_true, decide_eq_true_eq, decide_eq_true_eq] at h
    rw [if_pos h]
  · next h =>
    rw [Bool.and_eq_false_iff, decide_eq_false_iff_not, decide_eq_false_iff_not] at h
    rw [if_neg (fun hboth => h.elim (fun h => h hboth.1) (fun h => h hboth.2))]
    rfl

/-- An event that expedites a pull request adds this one, and another event adds none. -/
theorem activePrs_cons_subset (e : Event) (history : List Event) (r : ρ) :
    activePrs repository (e :: history) r ⊆
      if e.outcome = .applied ∧ repository e.repo = r then
        insert e.prNumber ((activePrs repository history r).erase e.prNumber)
      else activePrs repository history r := by
  intro n hn
  obtain ⟨x, hx, happlied⟩ := mem_activePrs_iff.mp hn
  rw [latestOf_cons] at hx
  split at hx
  · next hsame =>
    obtain rfl := Option.some.inj hx
    rw [if_pos ⟨happlied, hsame.1⟩, ← hsame.2]
    exact Finset.mem_insert_self _ _
  · next hsame =>
    have hold : n ∈ activePrs repository history r := mem_activePrs_iff.mpr ⟨x, hx, happlied⟩
    split
    · next hnew =>
      have hne : n ≠ e.prNumber := fun h => hsame ⟨hnew.2, h.symm⟩
      exact Finset.mem_insert_of_mem (Finset.mem_erase.mpr ⟨hne, hold⟩)
    · exact hold

/-- The count is no less than the other pull requests that are expedited. -/
theorem card_erase_le_count (hbare : ∀ x y, repository x = repository y → bareName x = bareName y)
    (hw : InWindow repository history) (repo : String) (n : Int) :
    ((activePrs repository history (repository repo)).erase n).card ≤
      activeCountForRepo repo history (some n) := by
  rw [activeCountForRepo, List.countP_eq_length_filter]
  refine le_trans ?_ ((List.toFinset_card_le _).trans (List.length_map Event.prNumber).le)
  apply Finset.card_le_card
  intro m hm
  obtain ⟨hne, hactive⟩ := Finset.mem_erase.mp hm
  obtain ⟨e, he, happlied⟩ := mem_activePrs_iff.mp hactive
  obtain ⟨he', hrepo, rfl⟩ := active_of_latestOf he happlied
  have hmatches := (repoMatches_iff e.repo repo).mpr (hbare _ _ hrepo)
  rw [List.mem_toFinset, List.mem_map]
  refine ⟨e, List.mem_filter.mpr ⟨mem_listActive_of_active hw he', ?_⟩, rfl⟩
  rw [hmatches]
  simpa using fun h : n = e.prNumber => hne h.symm

/-- No more than the cap are expedited, if the window holds all of them whenever the cap is
asked. -/
theorem card_activePrs_le (hbare : ∀ x y, repository x = repository y → bareName x = bareName y)
    (h : Admitted cap history) (hw : AskedInWindow repository history) (r : ρ) :
    (activePrs repository history r).card ≤ cap := by
  induction history with
  | nil => simp [activePrs]
  | cons e history ih =>
    have hbefore := ih h.1 hw.1
    have hsub : (activePrs repository (e :: history) r).card ≤ _ :=
      Finset.card_le_card (activePrs_cons_subset e history r)
    refine hsub.trans ?_
    split
    · next hnew =>
      obtain ⟨happlied, rfl⟩ := hnew
      have hcount := card_erase_le_count hbare (hw.2 happlied) e.repo e.prNumber
      have hasked := h.2 happlied
      rw [capacityRefused] at hasked
      split at hasked
      · exact absurd hasked (by simp)
      · next hless =>
        have hinsert := Finset.card_insert_le e.prNumber
          ((activePrs repository history (repository e.repo)).erase e.prNumber)
        omega
    · exact hbefore

/-- **No more than the cap are expedited, if the window holds all of them whenever the cap is asked;
and what is listed is what is expedited exactly if the events are in the window and spelled.** -/
theorem capped_and_exact (hbare : ∀ x y, repository x = repository y → bareName x = bareName y)
    (h : Admitted cap history) :
    (AskedInWindow repository history → ∀ r, (activePrs repository history r).card ≤ cap) ∧
      ((∀ e, e ∈ listActive history ↔ Active repository history e) ↔
        InWindow repository history ∧ Spelled repository history) :=
  ⟨card_activePrs_le hbare h, exactList_iff⟩

end Expedited

/-! ### Histories -/

def demoEvent (repo : String) (prNumber : Int) (outcome : Outcome) : Event :=
  ⟨repo, prNumber, "guard", outcome, "", ""⟩

def twoApplied : List Event := [demoEvent "demo" 2 .applied, demoEvent "demo" 1 .applied]

theorem admitted_twoApplied : Admitted 2 twoApplied :=
  ⟨⟨trivial, fun _ => by decide +kernel⟩, fun _ => by decide +kernel⟩

theorem inWindow_of_length_le {history : List Event} (h : history.length ≤ 200) :
    InWindow bareName history := by
  intro front e back heq _ _
  have hlen := congrArg List.length heq
  rw [List.length_append, List.length_cons] at hlen
  omega

theorem spelled_twoApplied : Spelled bareName twoApplied := by
  rintro front e back h - - ⟨x, hx, -, hnumber⟩
  rcases front with - | ⟨x', front⟩
  · cases hx
  · obtain ⟨rfl, hrest⟩ := List.cons.inj h
    rcases front with - | ⟨y, front⟩
    · obtain ⟨rfl, -⟩ := List.cons.inj hrest
      rw [List.mem_singleton.mp hx] at hnumber
      exact absurd hnumber (by decide)
    · have hlen := congrArg List.length hrest
      simp at hlen

theorem capped_twoApplied :
    (activePrs bareName twoApplied (bareName "demo")).card ≤ 2 ∧
      demoEvent "demo" 1 .applied ∈ listActive twoApplied := by
  obtain ⟨hcap, hexact⟩ := capped_and_exact (fun _ _ => id) admitted_twoApplied
  have hasked : AskedInWindow bareName twoApplied :=
    ⟨⟨trivial, fun _ => inWindow_of_length_le (by simp)⟩, fun _ => inWindow_of_length_le (by simp)⟩
  have hactive : Active bareName twoApplied (demoEvent "demo" 1 .applied) := by
    refine ⟨rfl, [demoEvent "demo" 2 .applied], [], rfl, ?_⟩
    rintro x hx ⟨-, hnumber⟩
    rw [List.mem_singleton.mp hx] at hnumber
    exact absurd hnumber (by decide)
  exact ⟨hcap hasked _,
    (hexact.mpr ⟨inWindow_of_length_le (by simp [twoApplied]), spelled_twoApplied⟩ _).mpr hactive⟩

/-- A pull request, 200 refusals of another one, and a second pull request. -/
def outOfWindow : List Event :=
  demoEvent "demo" 2 .applied :: (List.replicate 200 (demoEvent "demo" 9 .refused) ++
    [demoEvent "demo" 1 .applied])

theorem admitted_refusals (n : ℕ) (h : Admitted cap history) :
    Admitted cap (List.replicate n (demoEvent "demo" 9 .refused) ++ history) := by
  induction n with
  | zero => exact h
  | succ n ih => exact ⟨ih, fun happlied => absurd happlied (by decide)⟩

/-- Two pull requests are expedited under a cap of one; and one is listed that was stripped under
another spelling. -/
theorem not_capped_and_exact :
    (Admitted 1 outOfWindow ∧ 1 < (activePrs bareName outOfWindow (bareName "demo")).card) ∧
      Admitted 1 [demoEvent "o/demo" 1 .stripped, demoEvent "demo" 1 .applied] ∧
      demoEvent "demo" 1 .applied ∈
        listActive [demoEvent "o/demo" 1 .stripped, demoEvent "demo" 1 .applied] ∧
      ¬ Active bareName [demoEvent "o/demo" 1 .stripped, demoEvent "demo" 1 .applied]
        (demoEvent "demo" 1 .applied) := by
  refine ⟨⟨⟨admitted_refusals 200
    ⟨trivial, fun _ => by decide +kernel⟩, fun _ => by decide +kernel⟩,
    by decide +kernel⟩, ⟨⟨trivial, fun _ => by decide +kernel⟩, fun h => absurd h (by decide)⟩,
    by decide +kernel, ?_⟩
  rintro ⟨-, front, back, h, hfront⟩
  rcases front with _ | ⟨x, front⟩
  · exact absurd (List.cons.inj h).1 (by decide)
  · obtain ⟨rfl, -⟩ := List.cons.inj h
    exact hfront _ List.mem_cons_self ⟨by decide +kernel, rfl⟩

end Escalation
