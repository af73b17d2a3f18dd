import RunnerDashboard.Staff.PersonaLease

/-!
# Fencing tokens of an ingested spool

After an ingest the lease of a role has at least the highest epoch spooled for it, so a
checkout that takes the lease over gets a higher one.  But the epoch is raised in place: the
holder of a live lease renews it at the raised epoch, which may be that of a spooled entry
of another holder.

## Main results

* `sound_of_path` — the rows are sound in every run.
* `ingest_ok` — what an ingest leaves.
-/

namespace Persona

open Sql Lts Tenure Continuity

/-! ### Sound rows -/

/-- Epochs fit their column, and a lease that is not released has a holder. -/
def Sound (db : Db) : Prop :=
  ∀ scope r, db.lease scope = some r →
    fitsInteger r.epoch = true ∧ (r.releasedAt = none → Py.strip r.holder ≠ "")

variable {redact : String → String} {txt : Texts} {now : Int} {st st' : Store} {db db' : Db}
  {entries : List SpoolEntry}

theorem sound_empty : Sound .empty := fun _ _ h => nomatch h

private theorem Sound.checkedOut {a : CheckoutArgs} {scope : String} {reply : CheckoutReply}
    (h : Sound db) (hholder : Py.strip a.holder ≠ "") (hout : CheckedOut a scope db reply db') :
    Sound db' := by
  intro scope' r hr
  cases hout with
  | conflict => exact h scope' r hr
  | taken _ _ hfits =>
    rw [lease_putLease] at hr
    split at hr
    · obtain rfl := Option.some.inj hr
      exact ⟨hfits, fun _ => hholder⟩
    · exact h scope' r hr
  | fresh =>
    rw [lease_putLease] at hr
    split at hr
    · obtain rfl := Option.some.inj hr
      exact ⟨by simp [CheckoutArgs.fresh, fitsInteger], fun _ => hholder⟩
    · exact h scope' r hr

theorem Sound.step {s t : State} {e : Event} (h : Sound s.db) (hs : Step redact s e t) :
    Sound t.db := by
  intro scope r' hr'
  have hch := hs.change scope
  rw [show t.lease scope = some r' from hr'] at hch
  generalize hr : s.lease scope = r at hch
  cases hch with
  | same => exact h scope r' hr
  | taken a hcall norm hreply =>
    obtain ⟨scope₀, -, hholder, hout⟩ := hs.checkedOut hcall hreply
    exact h.checkedOut hholder hout scope _ hr'
  | fresh a hcall norm hreply =>
    obtain ⟨scope₀, -, hholder, hout⟩ := hs.checkedOut hcall hreply
    exact h.checkedOut hholder hout scope _ hr'
  | @extended cur a => exact h scope cur hr
  | @noted cur a => exact h scope cur hr
  | @released cur cur' a _ _ _ _ _ after =>
    have hepoch : cur'.epoch = cur.epoch := epoch_noted after
    refine ⟨?_, fun hrel => absurd hrel (by simp [Lease.released])⟩
    rw [show (cur'.released e.at').epoch = cur.epoch from hepoch]
    exact (h scope cur hr).1

/-- **The rows are sound** in every run. -/
theorem sound_of_path {clock : Int} {t : State} {ls : List Event}
    (p : Path (Step redact) (.new clock) ls t) : Sound t.db :=
  p.invariant (I := fun s => Sound s.db) (fun _ _ _ h hs => h.step hs) sound_empty

def otherCheckout : Call :=
  .checkout { scope := "barb:back-door", holder := "agent-fable-barb", now := 10 }

/-- The lease of the front door is checked out, and that of another scope. -/
theorem sound_sampleHeld : Sound (sampleHeld.after id otherCheckout).db := by
  have hfirst := @step_after id (.new 0) (sampleCheckout 0) (by decide)
  have hother := @step_after id sampleHeld otherCheckout (by decide)
  exact sound_of_path (.cons hfirst (.single hother))

theorem Sound.bumpAll {l : List (String × Int)} (h : Sound st.db)
    (hroles : ∀ x ∈ l, validateRoleName x.1 = .ok x.1)
    (hbump : bumpAll now l st = (.ok (), st')) : Sound st'.db := by
  induction l generalizing st with
  | nil =>
    obtain ⟨-, rfl⟩ := Prod.ext_iff.mp hbump
    exact h
  | cons y l ih =>
    obtain ⟨role, n⟩ := y
    unfold Persona.bumpAll at hbump
    split at hbump
    · cases hbump
    · next st₁ hone =>
      refine ih ?_ (fun x hx => hroles x (by simp [hx])) hbump
      obtain ⟨-, hfits, hfits', hlease⟩ := bumpEpochFloor_ok (hroles (role, n) (by simp)) hone
      intro scope r hr
      rw [hlease] at hr
      split at hr
      · next hs =>
        subst hs
        obtain rfl := Option.some.inj hr
        cases hcur : st.db.lease ("persona:" ++ role) with
        | none => exact ⟨hfits' hcur, fun hrel => absurd hrel (by simp [floored, floorLease])⟩
        | some cur =>
          obtain ⟨hfit, hholder⟩ := h _ _ hcur
          unfold floored
          dsimp only
          split
          · next hlow => exact ⟨hfits cur hcur hlow, hholder⟩
          · exact ⟨hfit, hholder⟩
      · exact h scope r hr

/-! ### The ingest -/

/-- What an ingest leaves: its keys in the ledger, whose rows are kept, and the lease of each
role with its highest epoch. -/
structure Ingested (now : Int) (entries : List SpoolEntry) (st st' : Store) : Prop where
  valid : ∀ x ∈ entries, x.Valid
  keeps : Keeps st st'
  keys : ∀ x ∈ entries, (st'.slots.get? x.key).isSome
  lease : ∀ x ∈ entries, ∃ n, (∀ y ∈ entries, y.role = x.role → y.epoch ≤ n) ∧
    (∃ y ∈ entries, y.role = x.role ∧ y.epoch = n) ∧
    st'.db.lease ("persona:" ++ x.role) =
      some (floored (st.db.lease ("persona:" ++ x.role)) x.role n (seconds now))
  sound : Sound st.db → Sound st'.db

theorem parseLines_valid {n : ℕ} {lines : List String}
    (h : parseLines txt n lines = .ok entries) : ∀ x ∈ entries, x.Valid := by
  have hall := parseLines_ok_iff.mp h
  clear h
  induction hall with
  | nil => simp
  | cons hline _ ih =>
    intro x hx
    rcases List.mem_cons.mp hx with rfl | hx
    · exact parseLine_valid hline
    · exact ih x hx

theorem ingested_of_ok {rs : List SlotReply} {st₁ : Store} (hv : ∀ x ∈ entries, x.Valid)
    (hclaim : claimAll now entries st = (.ok rs, st₁))
    (hbump : bumpAll now (maxEpochByRole entries) st₁ = (.ok (), st')) :
    Ingested now entries st st' := by
  obtain ⟨hdb, hkeeps, hkeys⟩ := claimAll_ok hv hclaim
  have hhigh := highest_maxEpochByRole hv
  have hmem : ∀ role n, (role, n) ∈ maxEpochByRole entries →
      (maxEpochByRole entries).lookup role = some n := fun role n hm =>
    Table.get?_eq_some_iff (t := ⟨maxEpochByRole entries, hhigh.nodup⟩).mpr hm
  have hroles : ∀ y ∈ maxEpochByRole entries, validateRoleName y.1 = .ok y.1 := by
    rintro ⟨role, n⟩ hy
    obtain ⟨x, hx, rfl, -⟩ := hhigh.reached role n (hmem role n hy)
    exact (hv x hx).role
  obtain ⟨hslots, hin, -⟩ := bumpAll_ok hroles hhigh.nodup hbump
  refine ⟨hv, ?_, ?_, ?_, ?_⟩
  · intro key row hrow
    rw [hslots]
    exact hkeeps key row hrow
  · intro x hx
    rw [hslots]
    exact hkeys x hx
  · intro x hx
    obtain ⟨n, hn, -⟩ := hhigh.above x hx
    refine ⟨n, ?_, hhigh.reached _ _ hn, ?_⟩
    · intro y hy hrole
      obtain ⟨m, hm, hle⟩ := hhigh.above y hy
      rw [hrole, hn] at hm
      exact Option.some.inj hm ▸ hle
    · rw [← hdb]
      exact hin _ _ (Table.get?_eq_some_iff (t := ⟨_, hhigh.nodup⟩).mp hn)
  · intro hsound
    rw [← hdb] at hsound
    exact hsound.bumpAll hroles hbump

/-- **What an ingest leaves**, when it returns. -/
theorem ingest_ok {file file' : List String} {reply : IngestReply}
    (h : ingestFallbackSpool txt now file st = (.ok reply, st', file')) :
    ∃ entries, parseLines txt 1 (rawLines file) = .ok entries ∧ Ingested now entries st st' := by
  unfold ingestFallbackSpool at h
  split at h
  · next hraw =>
    obtain ⟨-, h⟩ := Prod.ext_iff.mp h
    obtain ⟨rfl, -⟩ := Prod.ext_iff.mp h
    exact ⟨[], by rw [hraw]; rfl, ⟨by simp, .refl _, by simp, by simp, id⟩⟩
  · split at h
    · cases h
    · next entries hentries =>
      split at h
      · cases h
      · next rs st₁ hclaim =>
        split at h
        · cases h
        · next st₂ hbump =>
          obtain ⟨-, h⟩ := Prod.ext_iff.mp h
          obtain ⟨rfl, -⟩ := Prod.ext_iff.mp h
          exact ⟨entries, hentries, ingested_of_ok (parseLines_valid hentries) hclaim hbump⟩

/-! ### Fresh tokens -/

/-- Every token accepted later for a role is higher than those spooled for it by others. -/
def TokensFresh (redact : String → String) (db : Db) (clock : Int)
    (entries : List SpoolEntry) : Prop :=
  ∀ x ∈ entries, ∀ ls s e t h n, Path (Step redact) ⟨db, clock⟩ ls s → Step redact s e t →
    e.Acquires ("persona:" ++ x.role) h n → x.holder ≠ h → x.epoch < n

/-- No entry of another holder than that of a live lease has the epoch the lease is raised
to: the lease's own epoch or a higher entry of the role is above it. -/
def Fresh (db : Db) (entries : List SpoolEntry) (at' : Int) : Prop :=
  ∀ x ∈ entries, ∀ r, db.lease ("persona:" ++ x.role) = some r → r.live at' = true →
    x.holder ≠ r.holder → x.epoch < r.epoch ∨ ∃ y ∈ entries, y.role = x.role ∧ x.epoch < y.epoch

theorem seatAt_floored (r : Option Lease) (role : String) (n at' : Int) :
    seatAt (some (floored r role n at')) at' =
      ⟨max n ((r.map Lease.epoch).getD n), (seatAt r at').holder⟩ := by
  cases r with
  | none =>
    have hdead : (floorLease role n at').live at' = false := by
      simp [Lease.live, Lease.isReleased, floorLease]
    simp only [floored, seatAt_some, hdead]
    simp [floorLease, seatAt]
  | some cur =>
    unfold floored
    dsimp only
    split
    · next hlow =>
      simp only [seatAt_some, Option.map_some, Option.getD_some, max_eq_left hlow.le]
      rfl
    · next hlow =>
      simp only [seatAt_some, Option.map_some, Option.getD_some, max_eq_right (not_lt.mp hlow)]

def renewal (role holder : String) (now : Int) : CheckoutArgs where
  scope := "persona:" ++ role
  holder := holder
  now := now

theorem normalizeScope_persona {role : String} (h : validateRoleName role = .ok role) :
    normalizeScope ("persona:" ++ role) = .ok ("persona:" ++ role) := by
  obtain ⟨hre, hstrip⟩ := validateRoleName_ok_iff.mp h
  rw [← hstrip] at hre
  have hne : role.toList ≠ [] := by
    intro hnil
    exact roleRe_ne_empty hre (String.toList_inj.mp hnil)
  have hscope : Py.strip ("persona:" ++ role) = "persona:" ++ role :=
    Py.strip_append rfl (by decide) hne (not_space_of_roleRe hre)
  have hstart : properPrefix ("persona:" ++ role) "persona:" = true := by
    have hlen : 0 < role.length := by
      rw [← String.length_toList]
      exact List.length_pos_of_ne_nil hne
    simp only [properPrefix, decide_eq_true_eq, Py.startsWith, String.toList_append,
      String.length_append]
    exact ⟨by simp, by omega⟩
  simp [normalizeScope, hscope, hstart]

theorem exists_renewal {role : String} {r : Lease} (hrole : validateRoleName role = .ok role)
    (hsound : Sound db) (hrow : db.lease ("persona:" ++ role) = some r)
    (hlive : r.live (seconds now) = true) :
    ∃ e t, Step redact ⟨db, now⟩ e t ∧ e.Acquires ("persona:" ++ role) r.holder r.epoch := by
  obtain ⟨hfits, hholder⟩ := hsound _ _ hrow
  have hblank : Py.strip (renewal role r.holder now).holder ≠ "" :=
    hholder (Lease.live_iff.mp hlive).1
  have hrenews : (renewal role r.holder now).renews r = true :=
    CheckoutArgs.renews_iff.mpr ⟨rfl, hlive⟩
  have hepoch : ((renewal role r.holder now).over r).epoch = r.epoch := by
    simp [CheckoutArgs.over, hrenews]
  have hbody : checkoutBody (renewal role r.holder now) ("persona:" ++ role) db =
      .ok (.acquired (rowToLease ("persona:" ++ role) ((renewal role r.holder now).over r)
        (seconds now)), db.putLease ("persona:" ++ role) ((renewal role r.holder now).over r)) := by
    unfold checkoutBody
    rw [hrow]
    dsimp only
    rw [if_neg (fun h => h.2.1 rfl), if_neg (by rw [hepoch, hfits]; simp)]
    rfl
  have hcheckout : checkoutLease (renewal role r.holder now) db =
      (.ok (.acquired (rowToLease ("persona:" ++ role) ((renewal role r.holder now).over r)
        (seconds now))),
        db.putLease ("persona:" ++ role) ((renewal role r.holder now).over r)) := by
    unfold checkoutLease
    rw [show normalizeScope (renewal role r.holder now).scope = _ from normalizeScope_persona hrole]
    dsimp only
    rw [if_neg hblank]
    exact immediateTxn_ok.mpr hbody
  have hstep : exec redact db (.checkout (renewal role r.holder now)) =
      (.checkedOut (checkoutLease (renewal role r.holder now) db).1,
        (checkoutLease (renewal role r.holder now) db).2) := rfl
  rw [hcheckout] at hstep
  exact ⟨⟨_, _⟩, ⟨_, now⟩, ⟨le_rfl, hstep, rfl⟩, renewal role r.holder now, _, rfl,
    normalizeScope_persona hrole, rfl, rfl, hepoch⟩

/-- **The tokens are fresh exactly when no live lease is raised to another's token.**  After
an ingest that returns, in every sequence of lease operations from then on, every checkout of
a role that is acquired has an epoch above every entry of the role that another holder
spooled, if and only if no live lease was raised to the epoch of an entry of another holder. -/
theorem tokensFresh_iff {file file' : List String} {reply : IngestReply}
    (hsound : Sound st.db)
    (hparse : parseLines txt 1 (rawLines file) = .ok entries)
    (h : ingestFallbackSpool txt now file st = (.ok reply, st', file')) :
    TokensFresh redact st'.db now entries ↔ Fresh st.db entries (seconds now) := by
  obtain ⟨entries', hparse', hing⟩ := ingest_ok h
  obtain rfl := Except.ok.inj (hparse.symm.trans hparse')
  constructor
  · intro hfresh x hx r hr hlive hother
    obtain ⟨n, -, ⟨y, hy, hrole, rfl⟩, hlease⟩ := hing.lease x hx
    rw [hr] at hlease
    -- the live holder renews at the floor
    have hlive' : (floored (some r) x.role y.epoch (seconds now)).live (seconds now) = true := by
      unfold floored
      dsimp only
      split
      · exact hlive
      · exact hlive
    obtain ⟨e, t, hstep, hacq⟩ := @exists_renewal redact _ _ _ _ (hing.valid x hx).role
      (hing.sound hsound) hlease hlive'
    have hholder : (floored (some r) x.role y.epoch (seconds now)).holder = r.holder := by
      unfold floored
      dsimp only
      split
      · rfl
      · rfl
    have hlt := hfresh x hx [] _ e t _ _ (.nil _) hstep hacq (by rwa [hholder])
    unfold floored at hlt
    dsimp only at hlt
    split at hlt
    · exact .inr ⟨y, hy, hrole, hlt⟩
    · exact .inl hlt
  · intro hfresh x hx ls s e t holder n p hs hacq hother
    obtain ⟨m, hle, -, hlease⟩ := hing.lease x hx
    have hseat := hs.seat_acquired hacq
    have hfrom : (State.mk st'.db now).seat ("persona:" ++ x.role) ≤ ⟨n, some holder⟩ := by
      rw [← hseat]
      exact seat_le_of_path (p.snoc hs) _
    have hstart : (State.mk st'.db now).seat ("persona:" ++ x.role) =
        ⟨max m (((st.db.lease ("persona:" ++ x.role)).map Lease.epoch).getD m),
          (seatAt (st.db.lease ("persona:" ++ x.role)) (seconds now)).holder⟩ := by
      rw [← seatAt_floored _ x.role, ← hlease]
      rfl
    rw [hstart] at hfrom
    have hxm := hle x hx rfl
    have hmn := (le_max_left _ _).trans (Seat.epoch_le hfrom)
    rcases lt_or_eq_of_le (Seat.epoch_le hfrom) with hlt | heq
    · exact (hxm.trans (le_max_left _ _)).trans_lt hlt
    · -- the lease was live, and this is its holder
      have hsame := Seat.ext_iff.mp (Seat.eq_of_le hfrom heq (by simp))
      obtain ⟨r, hr, hlive⟩ := @exists_live_of_holder
        (st.db.lease ("persona:" ++ x.role)) (seconds now)
          (by rw [show _ = some holder from hsame.2]; simp)
      have hholder : r.holder = holder := by
        have := hsame.2
        simp only [hr, seatAt_some, hlive, if_true] at this
        exact Option.some.inj this
      simp only [hr, Option.map_some, Option.getD_some] at heq
      rcases hfresh x hx r hr hlive (by rwa [hholder]) with hlow | ⟨y, hy, hrole, hlow⟩
      · exact hlow.trans_le (heq ▸ le_max_right _ _)
      · exact hlow.trans_le ((hle y hy hrole).trans hmn)

/-! ### A raised lease -/

def sampleTexts : Texts := ⟨fun _ => "", fun _ => none, fun _ => "t"⟩

/-- A claim of a node at epoch 3, while offline. -/
def sampleEntry : SpoolEntry where
  role := "bob"
  job := "daily-note"
  slot := "noon"
  holder := "rd:desk"
  epoch := 3

def sampleLine : String :=
  (Json.obj (recordFields sampleTexts sampleEntry.key "rd:desk" sampleEntry 0)).sortKeys.dumps

def sampleLease : Lease := (renewal "bob" "grok-fallback" 0).fresh

def sampleStore : Store := ⟨Db.empty.putLease "persona:bob" sampleLease, .empty⟩

def sampleIngested : Store where
  db := sampleStore.db.putLease "persona:bob" (raised sampleLease 3)
  slots := Table.empty.insertNew "bob/daily-note/noon" (sampleEntry.row "rd:desk" 1000000)

theorem sound_sample : Sound sampleStore.db := by
  intro scope r hr
  simp only [sampleStore, lease_putLease] at hr
  split at hr
  · obtain rfl := Option.some.inj hr
    exact ⟨by decide, fun _ => by decide⟩
  · cases hr

theorem parse_sample :
    parseLines sampleTexts 1 (rawLines [sampleLine]) = .ok [sampleEntry] := by
  have happend : appendFallbackSpool sampleTexts sampleEntry 0 = .ok sampleLine := rfl
  obtain ⟨hparse, hne⟩ := parseLine_append happend
  have hraw : rawLines [sampleLine] = [Py.strip sampleLine] := by
    simp [rawLines, hne]
  rw [hraw, parseLines, hparse]
  rfl

private theorem ingest_sample :
    ingestFallbackSpool sampleTexts 1000000 [sampleLine] sampleStore =
      (.ok ⟨1, 0, ["bob/daily-note/noon"]⟩, sampleIngested, []) := by
  have hne : rawLines [sampleLine] ≠ [] := by
    intro h
    have := parse_sample
    rw [h] at this
    cases this
  have hclaim : claimAll 1000000 [sampleEntry] sampleStore =
      (.ok [⟨"bob/daily-note/noon", true, sampleEntry.row "rd:desk" 1000000⟩],
        { sampleStore with
          slots := Table.empty.insertNew "bob/daily-note/noon"
            (sampleEntry.row "rd:desk" 1000000) }) := rfl
  have hbump : bumpAll 1000000 (maxEpochByRole [sampleEntry])
      { sampleStore with
        slots := Table.empty.insertNew "bob/daily-note/noon"
          (sampleEntry.row "rd:desk" 1000000) } = (.ok (), sampleIngested) := rfl
  unfold ingestFallbackSpool
  rw [if_neg hne, parse_sample]
  dsimp only
  rw [hclaim]
  dsimp only
  rw [hbump]
  rfl

theorem tokensFresh_iff_sample :
    TokensFresh id sampleIngested.db 1000000 [sampleEntry] ↔
      Fresh sampleStore.db [sampleEntry] 1 :=
  tokensFresh_iff sound_sample parse_sample ingest_sample

/-- The live lease is raised to the epoch of the node's entry, and its holder renews it at
that epoch: the fallback's token is the node's. -/
theorem not_tokensFresh_sample :
    ∃ reply, ingestFallbackSpool sampleTexts 1000000 [sampleLine] sampleStore =
      (.ok reply, sampleIngested, []) ∧
        ¬ TokensFresh id sampleIngested.db 1000000 [sampleEntry] := by
  refine ⟨_, ingest_sample, fun hfresh => ?_⟩
  have hstep : Step id ⟨sampleIngested.db, 1000000⟩ _ _ :=
    step_after (c := .checkout (renewal "bob" "grok-fallback" 1000000)) le_rfl
  have hlt := hfresh sampleEntry (by simp) [] _ _ _ "grok-fallback" 3 (.nil _) hstep
    ⟨_, _, rfl, rfl, rfl, rfl, rfl⟩ (by decide)
  exact absurd hlt (by decide)

end Persona
