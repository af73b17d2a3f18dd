import RunnerDashboard.Memory.AppendRuns
import RunnerDashboard.Memory.Lessons

/-!
# Interleaved reviews

A review reads the accepted lessons, and some time after it updates the lesson.  The update looks at
the status of this lesson only.  So a lesson that was accepted in between is not seen, and neither
is one that is not on the page, or that names the other lesson where the other one does not name it.

## Main results

* `lessons_agree` — **in every such run no two accepted lessons conflict.**
-/

namespace Memory

open Sql Lts MemoryStore

/-! ### Runs -/

inductive ReviewState
  | ready
  /-- The lesson was read and tested, with the store as it was then. -/
  | checked (id : String) (e : MemoryEntry Json) (target : String) (seen : MemoryStore Json)
  | done

/-- The store, and how far the reviews are. -/
structure Reviews where
  store : MemoryStore Json
  calls : ℕ → ReviewState

def Reviews.move (w : Reviews) (c : ℕ) (state : ReviewState) : Reviews :=
  { w with calls := Function.update w.calls c state }

/-- What a step does. -/
inductive ReviewEvent
  | appended (id : String) (e : MemoryEntry Json)
  | checked (c : ℕ) (id requested : String)
  /-- The review is refused, also after its test. -/
  | refused (c : ℕ)
  | committed (c : ℕ)

def expectedStatus (e : MemoryEntry Json) : String :=
  (e.reviewStatus.filter (· ≠ "")).getD "proposed"

section Steps

variable (py : Builtins) (enc : Encodings Json) (maxStoreBytes : ℕ)

/-- An append, or a step of a review.  A lesson is proposed when it is added. -/
inductive ReviewStep : Reviews → ReviewEvent → Reviews → Prop
  | append {w : Reviews} {id : String} {e : MemoryEntry Json}
      (proposed : e.entryType = "lesson" → e.reviewStatus = some "proposed") :
      ReviewStep w (.appended id e) { w with store := (w.store.append enc maxStoreBytes id e).2 }
  | check {w : Reviews} {c : ℕ} {id requested target : String} {e : MemoryEntry Json}
      (ready : w.calls c = .ready) (hget : w.store.get id = some e)
      (htarget : reviewTarget py w.store id requested e = some target) :
      ReviewStep w (.checked c id requested) (w.move c (.checked id e target w.store))
  | refuse {w : Reviews} {c : ℕ} : ReviewStep w (.refused c) (w.move c .done)
  | commit {w : Reviews} {c : ℕ} {id target : String} {e : MemoryEntry Json}
      {seen : MemoryStore Json} (checked : w.calls c = .checked id e target seen)
      (reviewedBy : String) (acceptedAt expiresAt : Option String) :
      ReviewStep w (.committed c)
        ({ w with store := (w.store.updateReview id (expectedStatus e) target reviewedBy acceptedAt
          expiresAt).2 }.move c .done)

/-- **An acceptance has seen all that it conflicts with**: the page of its test was not full, a
lesson that conflicts with it was accepted before the test and may be seen by all, and conflicts
both ways. -/
structure SeenAll (now seen : MemoryStore Json) (id : String) (e : MemoryEntry Json) : Prop where
  page : seen.entries.count (listed (some "lesson") e.repo (some "accepted")) ≤ 100
  before : ∀ otherId other, now.get otherId = some other → acceptedLesson other = true →
    Conflict py id e otherId other →
    fleetVisible other.visibility = true ∧ (seen.get otherId).any acceptedLesson = true
  both : ∀ otherId other, now.get otherId = some other → acceptedLesson other = true →
    Conflict py otherId other id e → Conflict py id e otherId other

def Covered (w : Reviews) : ReviewEvent → Prop
  | .committed c => ∀ id e seen, w.calls c = .checked id e "accepted" seen →
    SeenAll py w.store seen id e
  | _ => True

def CoveredStep (w : Reviews) (event : ReviewEvent) (w' : Reviews) : Prop :=
  ReviewStep py enc maxStoreBytes w event w' ∧ Covered py w event

def NoConflict (s : MemoryStore Json) : Prop :=
  ∀ id e otherId other, s.get id = some e → acceptedLesson e = true →
    s.get otherId = some other → acceptedLesson other = true → ¬ Conflict py id e otherId other

end Steps

variable {py : Builtins} {enc : Encodings Json} {maxStoreBytes : ℕ} {s s' seen : MemoryStore Json}
  {id k otherId target : String} {e e' other other' : MemoryEntry Json} {w w' w₀ : Reviews}
  {event : ReviewEvent} {events : List ReviewEvent}

/-! ### What does not change -/

/-- The parts of a lesson that no call changes. -/
structure SameLesson (e e' : MemoryEntry Json) : Prop where
  body : e'.body = e.body
  repo : e'.repo = e.repo
  visibility : e'.visibility = e.visibility

theorem SameLesson.refl (e : MemoryEntry Json) : SameLesson e e := ⟨rfl, rfl, rfl⟩

theorem SameLesson.trans {e'' : MemoryEntry Json} (h : SameLesson e e') (h' : SameLesson e' e'') :
    SameLesson e e'' :=
  ⟨h'.body.trans h.body, h'.repo.trans h.repo, h'.visibility.trans h.visibility⟩

theorem conflict_congr (h : SameLesson e e') (hother : SameLesson other other') :
    Conflict py id e' otherId other' ↔ Conflict py id e otherId other := by
  unfold Conflict
  rw [h.body, h.repo, hother.body, hother.repo]

def Grown (s s' : MemoryStore Json) : Prop :=
  ∀ k e, s.get k = some e → ∃ e', s'.get k = some e' ∧ SameLesson e e'

theorem Grown.refl (s : MemoryStore Json) : Grown s s := fun _ e h => ⟨e, h, .refl e⟩

theorem Grown.trans {s'' : MemoryStore Json} (h : Grown s s') (h' : Grown s' s'') :
    Grown s s'' := by
  intro k e he
  obtain ⟨e', he', hsame⟩ := h k e he
  obtain ⟨e'', he'', hsame'⟩ := h' k e' he'
  exact ⟨e'', he'', hsame.trans hsame'⟩

/-! ### Appends -/

theorem added_append (enc : Encodings Json) (maxStoreBytes : ℕ) (s : MemoryStore Json)
    (id : String) (e : MemoryEntry Json) :
    ∃ result, Added enc maxStoreBytes s (.append id e) result
      (s.append enc maxStoreBytes id e).2 :=
  ⟨_, added_of_step (l := (.append id e, (s.call enc maxStoreBytes (.append id e)).1)) rfl⟩

theorem grown_append : Grown s (s.append enc maxStoreBytes id e).2 := by
  obtain ⟨result, hadded⟩ := added_append enc maxStoreBytes s id e
  intro k e₀ he₀
  obtain ⟨r, hr, rfl⟩ := Option.map_eq_some_iff.mp he₀
  obtain ⟨link, hlink⟩ := (extends_added hadded).entries k r hr
  refine ⟨{ r.entry with supersededBy := link }, ?_, ⟨rfl, rfl, rfl⟩⟩
  unfold MemoryStore.get
  rw [hlink]
  rfl

theorem accepted_of_append (proposed : e.entryType = "lesson" → e.reviewStatus = some "proposed")
    (hget : (s.append enc maxStoreBytes id e).2.get k = some e')
    (haccepted : acceptedLesson e' = true) : s.get k = some e' := by
  obtain ⟨result, hadded⟩ := added_append enc maxStoreBytes s id e
  obtain ⟨r', hr', rfl⟩ := Option.map_eq_some_iff.mp hget
  unfold acceptedLesson at haccepted
  simp only [Bool.and_eq_true, decide_eq_true_eq, Option.isNone_iff_eq_none] at haccepted
  obtain ⟨⟨hlesson, hstatus⟩, hnone⟩ := haccepted
  generalize hs' : (s.append enc maxStoreBytes id e).2 = s' at hr' hadded
  cases hadded with
  | raised =>
    unfold MemoryStore.get
    rw [hr']
    rfl
  | appended fits hsupersede hinsert =>
    obtain ⟨-, -, -, hbefore⟩ := supersede_spec hsupersede
    rw [get?_of_insert hinsert] at hr'
    split at hr'
    · -- the new entry
      obtain rfl := Option.some.inj hr'
      exact absurd ((proposed hlesson).symm.trans hstatus) (by simp)
    · rw [hbefore] at hr'
      obtain ⟨r, hr, rfl⟩ := Option.map_eq_some_iff.mp hr'
      split at hnone
      · -- the entry that it supersedes
        cases hnone
      · next hne =>
        rw [if_neg hne]
        unfold MemoryStore.get
        rw [hr]
        rfl

/-! ### Updates -/

def reviewed (target reviewedBy : String) (acceptedAt expiresAt : Option String)
    (e : MemoryEntry Json) : MemoryEntry Json :=
  (reviewRow target reviewedBy acceptedAt expiresAt ⟨e, 0⟩).entry

/-- **What a review updates.** -/
theorem get_updateReview {expected reviewedBy : String} {acceptedAt expiresAt : Option String} :
    (s.updateReview id expected target reviewedBy acceptedAt expiresAt).2.get k =
      (s.get k).map fun e => if k = id ∧ e.reviewStatus = some expected then
        reviewed target reviewedBy acceptedAt expiresAt e else e := by
  have hupdate :
    (s.entries.update (fun k r => decide (k = id ∧ r.entry.reviewStatus = some expected))
      fun _ => reviewRow target reviewedBy acceptedAt expiresAt).get? k =
      (s.entries.get? k).map fun r => if k = id ∧ r.entry.reviewStatus = some expected then
        reviewRow target reviewedBy acceptedAt expiresAt r else r := by
    rw [Table.get?_update]
    simp only [decide_eq_true_eq]
  have hget : ∀ t : MemoryStore Json, t.entries = s.entries.update
      (fun k r => decide (k = id ∧ r.entry.reviewStatus = some expected))
      (fun _ => reviewRow target reviewedBy acceptedAt expiresAt) →
      t.get k = (s.get k).map fun e => if k = id ∧ e.reviewStatus = some expected then
        reviewed target reviewedBy acceptedAt expiresAt e else e := by
    intro t ht
    unfold MemoryStore.get
    rw [ht, hupdate, Option.map_map, Option.map_map]
    congr 1
    funext r
    simp only [Function.comp_apply]
    split
    · rfl
    · rfl
  unfold updateReview
  dsimp only
  split
  · next hcount =>
    -- no row is updated
    have hsame := Table.update_eq_self
      (f := fun _ => reviewRow target reviewedBy acceptedAt expiresAt)
      (Table.count_eq_zero_iff.mp hcount)
    split
    · exact hget s hsame.symm
    · exact hget s hsame.symm
  · split
    · exact hget _ rfl
    · exact hget _ rfl

theorem grown_updateReview {expected reviewedBy : String} {acceptedAt expiresAt : Option String} :
    Grown s (s.updateReview id expected target reviewedBy acceptedAt expiresAt).2 := by
  intro k e he
  rw [get_updateReview, he]
  refine ⟨_, rfl, ?_⟩
  dsimp only
  split
  · exact ⟨rfl, rfl, rfl⟩
  · exact .refl e

theorem accepted_of_updateReview {expected reviewedBy : String}
    {acceptedAt expiresAt : Option String}
    (hget : (s.updateReview id expected target reviewedBy acceptedAt expiresAt).2.get k = some e')
    (haccepted : acceptedLesson e' = true) :
    s.get k = some e' ∨
      k = id ∧ target = "accepted" ∧ ∃ e, s.get k = some e ∧ SameLesson e e' := by
  rw [get_updateReview, Option.map_eq_some_iff] at hget
  obtain ⟨e, he, rfl⟩ := hget
  by_cases hclause : k = id ∧ e.reviewStatus = some expected
  · rw [if_pos hclause] at haccepted ⊢
    have htarget : target = "accepted" := by
      unfold acceptedLesson reviewed reviewRow at haccepted
      simp only [Bool.and_eq_true, decide_eq_true_eq, Option.some.injEq] at haccepted
      exact haccepted.1.2
    exact .inr ⟨hclause.1, htarget, e, he, ⟨rfl, rfl, rfl⟩⟩
  · rw [if_neg hclause]
    exact .inl he

/-! ### The invariant -/

/-- What is known of a review that made its test. -/
def TestedOk (py : Builtins) (now : MemoryStore Json) : ReviewState → Prop
  | .checked id e target seen => Grown seen now ∧ seen.get id = some e ∧
      (target = "accepted" → validateLessonAcceptance py seen id e = "accepted")
  | _ => True

theorem TestedOk.grown {state : ReviewState} (h : TestedOk py s state) (hgrown : Grown s s') :
    TestedOk py s' state := by
  cases state with
  | ready => trivial
  | checked id e target seen => exact ⟨h.1.trans hgrown, h.2⟩
  | done => trivial

theorem validate_of_reviewTarget {requested : String}
    (h : reviewTarget py s id requested e = some "accepted") :
    validateLessonAcceptance py s id e = "accepted" := by
  unfold reviewTarget at h
  split at h
  · cases h
  · split at h
    · cases h
    · split at h
      · exact Option.some.inj h
      · next hne => exact absurd (Option.some.inj h) hne

/-- No conflict, and each review that made its test made it right. -/
structure ReviewInv (py : Builtins) (w : Reviews) : Prop where
  noConflict : NoConflict py w.store
  tested : ∀ c, TestedOk py w.store (w.calls c)

theorem not_conflict_of_seenAll (hseen : SeenAll py s seen id e) (hgrown : Grown seen s)
    (hvalid : validateLessonAcceptance py seen id e = "accepted")
    (hother : s.get otherId = some other) (haccepted : acceptedLesson other = true) :
    ¬ Conflict py id e otherId other := by
  intro hconflict
  obtain ⟨hvisible, hbefore⟩ := hseen.before otherId other hother haccepted hconflict
  rw [Option.any_eq_true] at hbefore
  obtain ⟨old, hold, holdAccepted⟩ := hbefore
  obtain ⟨other', hother', hsame⟩ := hgrown otherId old hold
  obtain rfl := Option.some.inj (hother.symm.trans hother')
  refine not_conflict_of_accepted hvalid hseen.page hold holdAccepted ?_ ?_
  · rw [← hsame.visibility]
    exact hvisible
  · exact (conflict_congr (.refl e) hsame).mp hconflict

/-- **An acceptance that has seen all adds no conflict.** -/
theorem noConflict_commit {expected reviewedBy : String} {acceptedAt expiresAt : Option String}
    (hinv : NoConflict py s) (htested : TestedOk py s (.checked id e target seen))
    (hseen : target = "accepted" → SeenAll py s seen id e) :
    NoConflict py (s.updateReview id expected target reviewedBy acceptedAt expiresAt).2 := by
  obtain ⟨hgrown, hget, hvalid⟩ := htested
  obtain ⟨now, hnow, hnowSame⟩ := hgrown id e hget
  -- the lesson that is accepted, where it is the one or the other of the two
  have hself : ∀ {e'}, (∃ e₀, s.get id = some e₀ ∧ SameLesson e₀ e') → SameLesson e e' := by
    rintro e' ⟨e₀, he₀, hsame⟩
    obtain rfl := Option.some.inj (hnow.symm.trans he₀)
    exact hnowSame.trans hsame
  intro k₁ e₁ k₂ e₂ hget₁ haccepted₁ hget₂ haccepted₂ hconflict
  have hne : k₂ ≠ k₁ := by
    have htest := hconflict.2
    unfold conflicting at htest
    simp only [Bool.and_eq_true, decide_eq_true_eq] at htest
    exact htest.1
  rcases accepted_of_updateReview hget₁ haccepted₁ with hold₁ | ⟨rfl, htarget, hsame₁⟩
  · rcases accepted_of_updateReview hget₂ haccepted₂ with hold₂ | ⟨rfl, htarget, hsame₂⟩
    · exact hinv k₁ e₁ k₂ e₂ hold₁ haccepted₁ hold₂ haccepted₂ hconflict
    · -- an older lesson conflicts with the new one: so does the new one with it
      have hall := hseen htarget
      have hback := hall.both k₁ e₁ hold₁ haccepted₁
        ((conflict_congr (.refl e₁) (hself hsame₂)).mp hconflict)
      exact not_conflict_of_seenAll hall hgrown (hvalid htarget) hold₁ haccepted₁ hback
  · rcases accepted_of_updateReview hget₂ haccepted₂ with hold₂ | ⟨rfl, -, -⟩
    · have hforward := (conflict_congr (hself hsame₁) (.refl e₂)).mp hconflict
      exact not_conflict_of_seenAll (hseen htarget) hgrown (hvalid htarget) hold₂
        haccepted₂ hforward
    · exact absurd rfl hne

theorem tested_move {c c' : ℕ} {state : ReviewState} (h : ∀ c, TestedOk py w.store (w.calls c))
    (hstate : TestedOk py w.store state) : TestedOk py w.store ((w.move c state).calls c') := by
  unfold Reviews.move
  dsimp only
  by_cases hc : c' = c
  · subst hc
    rwa [Function.update_self]
  · rw [Function.update_of_ne hc]
    exact h c'

theorem reviewInv_step (hinv : ReviewInv py w)
    (h : CoveredStep py enc maxStoreBytes w event w') : ReviewInv py w' := by
  obtain ⟨hstep, hcovered⟩ := h
  cases hstep with
  | append proposed =>
    refine ⟨?_, fun c => (hinv.tested c).grown grown_append⟩
    intro k₁ e₁ k₂ e₂ hget₁ haccepted₁ hget₂ haccepted₂
    exact hinv.noConflict k₁ e₁ k₂ e₂ (accepted_of_append proposed hget₁ haccepted₁) haccepted₁
      (accepted_of_append proposed hget₂ haccepted₂) haccepted₂
  | check ready hget htarget =>
    refine ⟨hinv.noConflict, fun c' => tested_move hinv.tested ⟨Grown.refl _, hget, ?_⟩⟩
    rintro rfl
    exact validate_of_reviewTarget htarget
  | refuse => exact ⟨hinv.noConflict, fun c' => tested_move hinv.tested trivial⟩
  | @commit c id target e seen checked reviewedBy acceptedAt expiresAt =>
    have htested : TestedOk py w.store (.checked id e target seen) := checked ▸ hinv.tested c
    refine ⟨noConflict_commit hinv.noConflict htested ?_, fun c' => ?_⟩
    · rintro rfl
      exact hcovered id e seen checked
    · refine tested_move (w := { w with store := (w.store.updateReview id (expectedStatus e) target
        reviewedBy acceptedAt expiresAt).2 }) (fun c => ?_) trivial
      exact (hinv.tested c).grown grown_updateReview

/-- **In every such run no two accepted lessons conflict.** -/
theorem lessons_agree (hstart : NoConflict py w₀.store) (hready : ∀ c, w₀.calls c = .ready)
    (path : Path (CoveredStep py enc maxStoreBytes) w₀ events w) : NoConflict py w.store := by
  have hinv : ReviewInv py w := by
    refine path.invariant (I := ReviewInv py) (fun _ _ _ hinv hstep => reviewInv_step hinv hstep)
      ⟨hstart, fun c => ?_⟩
    rw [hready]
    trivial
  exact hinv.noConflict

/-! ### Two reviews at a time -/

/-- What Python makes of texts and whole numbers. -/
def plainBuiltins : Builtins where
  str := fun v => match v with
    | .str s => s
    | .null => "None"
    | .bool true => "True"
    | .bool false => "False"
    | .num n => Json.intText n
    | v => v.dumps
  eq := fun v w => v.render false == w.render false
  lower := Py.lower
  isWord := fun c => c.isAlphanum || c == '_'

def proposedLesson (body : Json) : MemoryEntry Json where
  entryType := "lesson"
  body
  createdAt := "2026-01-01T00:00:00+00:00"
  repo := some "org/app"
  reviewStatus := some "proposed"

def mergeLesson (stance : String) : MemoryEntry Json :=
  proposedLesson (.obj [("topic", .str "merge"), ("stance", .str stance)])

def namingLesson (id : String) : MemoryEntry Json :=
  proposedLesson (.obj [("conflicts_with", .str id)])

def reviewsStart : Reviews := ⟨.empty, fun _ => .ready⟩

def Reviews.added (w : Reviews) (id : String) (e : MemoryEntry Json) : Reviews :=
  { w with store := (w.store.append jsonEncodings 1000 id e).2 }

def Reviews.tested (w : Reviews) (c : ℕ) (id : String) (e : MemoryEntry Json) : Reviews :=
  w.move c (.checked id e "accepted" w.store)

def Reviews.accepted (w : Reviews) (c : ℕ) (id : String) (e : MemoryEntry Json) : Reviews :=
  { w with store := (w.store.updateReview id (expectedStatus e) "accepted" "librarian" none
    none).2 }.move c .done

theorem step_added (w : Reviews) (id : String) (body : Json) :
    ReviewStep plainBuiltins jsonEncodings 1000 w (.appended id (proposedLesson body))
      (w.added id (proposedLesson body)) := .append fun _ => rfl

theorem step_tested {c : ℕ} (ready : w.calls c = .ready) (hget : w.store.get id = some e)
    (htarget : reviewTarget plainBuiltins w.store id "accepted" e = some "accepted") :
    ReviewStep plainBuiltins jsonEncodings 1000 w (.checked c id "accepted") (w.tested c id e) :=
  .check ready hget htarget

theorem step_accepted {c : ℕ} (checked : w.calls c = .checked id e "accepted" seen) :
    ReviewStep plainBuiltins jsonEncodings 1000 w (.committed c) (w.accepted c id e) :=
  .commit checked "librarian" none none

theorem noConflict_empty : NoConflict py .empty := by
  intro id e otherId other hget
  cases hget

theorem lessons_agree_one :
    let e := mergeLesson "squash"
    let w := ((reviewsStart.added "mem_a" e).tested 0 "mem_a" e).accepted 0 "mem_a" e
    NoConflict plainBuiltins w.store ∧ (w.store.get "mem_a").any acceptedLesson = true := by
  intro e w
  have hno : ∀ otherId other, (reviewsStart.added "mem_a" e).store.get otherId = some other →
      acceptedLesson other = true → False := by
    intro otherId other hget haccepted
    have hbefore : reviewsStart.store.get otherId = some other :=
      accepted_of_append (fun _ => rfl) hget haccepted
    cases hbefore
  have path : Path (CoveredStep plainBuiltins jsonEncodings 1000) reviewsStart
      [.appended "mem_a" e, .checked 0 "mem_a" "accepted", .committed 0] w := by
    refine .cons ⟨step_added _ "mem_a" _, trivial⟩ (.cons ⟨step_tested rfl rfl ?_, trivial⟩
      (.single ⟨step_accepted rfl, ?_⟩))
    · decide +kernel
    · intro id e' seen hcall
      obtain ⟨rfl, rfl, -, rfl⟩ := hcall
      refine ⟨?_, fun k other hget haccepted => ?_, fun k other hget haccepted => ?_⟩
      · decide +kernel
      · exact (hno k other hget haccepted).elim
      · exact (hno k other hget haccepted).elim
  refine ⟨lessons_agree noConflict_empty (fun _ => rfl) path, ?_⟩
  decide +kernel

def bothConflict (py : Builtins) (s : MemoryStore Json) (id otherId : String) : Bool :=
  (s.get id).any fun e => (s.get otherId).any fun other =>
    acceptedLesson e && acceptedLesson other && filterBy e.repo other.repo &&
      conflicting py id e.body otherId other.body

theorem not_noConflict_of_ids (id otherId : String) (h : bothConflict py s id otherId = true) :
    ¬ NoConflict py s := by
  intro hno
  unfold bothConflict at h
  rw [Option.any_eq_true] at h
  obtain ⟨e, hget, h⟩ := h
  rw [Option.any_eq_true] at h
  obtain ⟨other, hother, h⟩ := h
  simp only [Bool.and_eq_true] at h
  obtain ⟨⟨⟨haccepted, hotherAccepted⟩, hrepo⟩, hconflict⟩ := h
  exact hno id e otherId other hget haccepted hother hotherAccepted ⟨hrepo, hconflict⟩

/-- **Two reviews at a time, and a lesson that names another one.** -/
theorem both_accepted :
    (∃ w, Path (ReviewStep plainBuiltins jsonEncodings 1000) reviewsStart
      [.appended "mem_a" (mergeLesson "squash"), .appended "mem_b" (mergeLesson "rebase"),
        .checked 0 "mem_a" "accepted", .checked 1 "mem_b" "accepted", .committed 0,
        .committed 1] w ∧ ¬ NoConflict plainBuiltins w.store) ∧
    ∃ w, Path (ReviewStep plainBuiltins jsonEncodings 1000) reviewsStart
      [.appended "mem_a" (namingLesson "mem_b"), .appended "mem_b" (mergeLesson "rebase"),
        .checked 0 "mem_a" "accepted", .committed 0, .checked 1 "mem_b" "accepted",
        .committed 1] w ∧ ¬ NoConflict plainBuiltins w.store := by
  constructor
  · let w := ((reviewsStart.added "mem_a" (mergeLesson "squash")).added "mem_b"
      (mergeLesson "rebase")).tested 0 "mem_a" (mergeLesson "squash")
    let w' := ((w.tested 1 "mem_b" (mergeLesson "rebase")).accepted 0 "mem_a"
      (mergeLesson "squash")).accepted 1 "mem_b" (mergeLesson "rebase")
    refine ⟨w', ?_, ?_⟩
    · refine .cons (step_added _ _ _) (.cons (step_added _ _ _) (.cons (step_tested rfl rfl ?_)
        (.cons (step_tested rfl rfl ?_) (.cons (step_accepted rfl) (.single (step_accepted rfl))))))
      · decide +kernel
      · decide +kernel
    · apply not_noConflict_of_ids "mem_a" "mem_b"
      decide +kernel
  · let w := ((reviewsStart.added "mem_a" (namingLesson "mem_b")).added "mem_b"
      (mergeLesson "rebase")).tested 0 "mem_a" (namingLesson "mem_b")
    let w' := ((w.accepted 0 "mem_a" (namingLesson "mem_b")).tested 1 "mem_b"
      (mergeLesson "rebase")).accepted 1 "mem_b" (mergeLesson "rebase")
    refine ⟨w', ?_, ?_⟩
    · refine .cons (step_added _ _ _) (.cons (step_added _ _ _) (.cons (step_tested rfl rfl ?_)
        (.cons (step_accepted rfl) (.cons (step_tested rfl rfl ?_) (.single (step_accepted rfl))))))
      · decide +kernel
      · decide +kernel
    · apply not_noConflict_of_ids "mem_a" "mem_b"
      decide +kernel

end Memory
