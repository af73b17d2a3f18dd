import Mathlib.Logic.Function.Basic
import RunnerDashboard.RunnerLease.Store

/-!
# Processes on the runner-lease file

`_atomic_read_modify_write` in steps: a process opens `leases.yml`, waits for the
exclusive lock on the inode it opened, reads through that handle, computes the new
records, replaces the directory entry by a new inode and unlocks.  The lock
belongs to the inode, and the replacement leaves the old inode, with its lock and
its content, to whoever has it open.

When every lock is granted on the inode that the path still names, the processes
refine the atomic store: each `os.replace` is one call of `AtomicStep`, and every
other step is invisible.  Without that condition a lease is lost.

## Main results

* `simulates_atomic` — guarded steps simulate the atomic store.
* `lease_lost` — two processes that open the file together lose a lease.
-/

namespace RunnerLease

open Lts

/-! ### Steps -/

/-- Where a process stands in `_atomic_read_modify_write`, with the inode it opened. -/
inductive Phase
  | idle
  | opened (c : Call) (ino : ℕ)
  /-- Inside `_locked_yaml_file`. -/
  | locked (c : Call) (ino : ℕ)
  | read (c : Call) (ino : ℕ) (records : List LeaseRecord)
  | mutated (c : Call) (ino : ℕ) (res : Result) (new : List LeaseRecord)
  /-- The mutation raised. -/
  | failed (c : Call) (ino : ℕ) (e : LeaseError)
  | replaced (c : Call) (ino : ℕ) (res : Result)

/-- The directory entry, the contents of the inodes, their locks, and the
processes.  Inodes from `next` on are free.  `log` is the ghost record of the calls
in the order of their replacements. -/
structure System where
  dir : ℕ
  next : ℕ
  files : ℕ → List LeaseRecord
  locks : ℕ → Option ℕ
  phase : ℕ → Phase
  clock : Int
  log : List Commit

/-- What a step shows: the process and what it did. -/
inductive Label
  | tick (now : Int)
  | opens (p : ℕ) (c : Call)
  | flock (p : ℕ)
  | reads (p : ℕ)
  | mutates (p : ℕ) (now₁ now₂ : Int)
  | replaces (p : ℕ)
  /-- The lock is released and the call returns or raises. -/
  | unlocks (p : ℕ) (answer : Except LeaseError Result)

def afterMutate (c : Call) (ino : ℕ) :
    Except LeaseError (Result × List LeaseRecord) → Phase
  | .ok (res, new) => .mutated c ino res new
  | .error e => .failed c ino e

inductive Step (quota : String → ℕ) : System → Label → System → Prop
  | tick {s : System} {now : Int} (h : s.clock ≤ now) :
      Step quota s (.tick now) { s with clock := now }
  /-- `path.touch()` and `open(path, "r+")`. -/
  | opens {s : System} {p : ℕ} {c : Call} (h : s.phase p = .idle) (hq : c.Respects quota) :
      Step quota s (.opens p c)
        { s with phase := Function.update s.phase p (.opened c s.dir) }
  /-- `flock(fh, LOCK_EX)` returns when nobody holds the lock of the inode. -/
  | flock {s : System} {p : ℕ} {c : Call} {ino : ℕ} (h : s.phase p = .opened c ino)
      (hl : s.locks ino = none) :
      Step quota s (.flock p)
        { s with
          locks := Function.update s.locks ino (some p)
          phase := Function.update s.phase p (.locked c ino) }
  /-- `fh.read()` through the handle that was locked. -/
  | reads {s : System} {p : ℕ} {c : Call} {ino : ℕ} (h : s.phase p = .locked c ino) :
      Step quota s (.reads p)
        { s with phase := Function.update s.phase p (.read c ino (s.files ino)) }
  /-- The expiry sweep and `mutate`, with their clock readings. -/
  | mutates {s : System} {p : ℕ} {c : Call} {ino : ℕ} {records : List LeaseRecord}
      {now₁ now₂ : Int} (h : s.phase p = .read c ino records) (h₁ : s.clock ≤ now₁)
      (h₂ : now₁ ≤ now₂) :
      Step quota s (.mutates p now₁ now₂)
        { s with
          clock := now₂
          phase := Function.update s.phase p
            (afterMutate c ino (readModify c now₁ now₂ records)) }
  /-- `os.replace(tmp_path, leases_path)`: the path names a new inode. -/
  | replaces {s : System} {p : ℕ} {c : Call} {ino : ℕ} {res : Result} {new : List LeaseRecord}
      (h : s.phase p = .mutated c ino res new) :
      Step quota s (.replaces p)
        { s with
          dir := s.next
          next := s.next + 1
          files := Function.update s.files s.next new
          phase := Function.update s.phase p (.replaced c ino res)
          log := s.log ++ [(c, res)] }
  /-- `flock(fh, LOCK_UN)` and the return. -/
  | unlocks {s : System} {p : ℕ} {c : Call} {ino : ℕ} {res : Result}
      (h : s.phase p = .replaced c ino res) :
      Step quota s (.unlocks p (.ok res))
        { s with
          locks := Function.update s.locks ino none
          phase := Function.update s.phase p .idle }
  | raises {s : System} {p : ℕ} {c : Call} {ino : ℕ} {e : LeaseError}
      (h : s.phase p = .failed c ino e) :
      Step quota s (.unlocks p (.error e))
        { s with
          locks := Function.update s.locks ino none
          phase := Function.update s.phase p .idle }

def System.current (s : System) : List LeaseRecord := s.files s.dir

/-- No call is under way, nothing was granted yet, and the file is well formed. -/
structure Started (quota : String → ℕ) (s : System) : Prop where
  idle : ∀ p, s.phase p = .idle
  unlocked : ∀ ino, s.locks ino = none
  log : s.log = []
  fresh : s.dir < s.next
  wellFormed : WellFormed quota s.current

/-- The condition on a step: a lock is granted on the inode the path still names. -/
def OnCurrentInode (s : System) : Label → Prop
  | .flock p => ∀ c ino, s.phase p = .opened c ino → ino = s.dir
  | _ => True

def GuardedStep (quota : String → ℕ) (s : System) (l : Label) (t : System) : Prop :=
  Step quota s l t ∧ OnCurrentInode s l

/-- The contract of the lease file after the steps `ls`: a lease that a call
returned is in the current file until it expires or is renewed or released; two
principals do not hold unexpired leases of one runner; and quotas are respected. -/
structure Serialisable (quota : String → ℕ) (ls : List Label) (s : System) : Prop where
  present : ∀ p r, Label.unlocks p (.ok (.acquired r)) ∈ ls →
    r ∈ s.current ∨ r.unexpired s.clock = false ∨
      ∃ before after c₀ c, s.log = before ++ c₀ :: after ∧ r ∈ granted c₀ ∧ c ∈ after ∧
        ends c r
  exclusive : ∀ r ∈ live s.log, ∀ r' ∈ live s.log, r.unexpired s.clock →
    r'.unexpired s.clock → r.runnerId = r'.runnerId → r.principalId = r'.principalId
  quota_le : ∀ p, (live s.log).countP (fun r => r.principalId = p ∧ r.unexpired s.clock) ≤
    quota p

/-! ### The critical section -/

/-- The inode a process holds the lock of, between the lock and the replacement. -/
def Phase.critical : Phase → Option ℕ
  | .locked _ ino => some ino
  | .read _ ino _ => some ino
  | .mutated _ ino _ _ => some ino
  | .failed _ ino _ => some ino
  | _ => none

def Phase.call : Phase → Option Call
  | .idle => none
  | .opened c _ => some c
  | .locked c _ => some c
  | .read c _ _ => some c
  | .mutated c _ _ _ => some c
  | .failed c _ _ => some c
  | .replaced c _ _ => some c

def Phase.inode : Phase → Option ℕ
  | .idle => none
  | .opened _ ino => some ino
  | .locked _ ino => some ino
  | .read _ ino _ => some ino
  | .mutated _ ino _ _ => some ino
  | .failed _ ino _ => some ino
  | .replaced _ ino _ => some ino

/-- What a process knows in its phase about the inode the path names, the file and
the time. -/
def Phase.Knows (dir : ℕ) (current : List LeaseRecord) (clock : Int) : Phase → Prop
  | .read _ _ records => records = current
  | .mutated c _ res new =>
    ∃ now₁ now₂, now₁ ≤ now₂ ∧ now₂ ≤ clock ∧ readModify c now₁ now₂ current = .ok (res, new)
  | .replaced _ ino _ => ino ≠ dir
  | _ => True

/-- What holds of process `p` in phase `ph`. -/
structure Sound (quota : String → ℕ) (s : System) (p : ℕ) (ph : Phase) : Prop where
  respects : ∀ c, ph.call = some c → c.Respects quota
  inode_lt : ∀ ino, ph.inode = some ino → ino < s.next
  holds : ∀ ino, ph.critical = some ino → ino = s.dir ∧ s.locks ino = some p
  knows : ph.Knows s.dir s.current s.clock

/-- What guarded runs keep: who is between lock and replacement holds the lock of the
current inode and knows the current file. -/
structure Exclusive (quota : String → ℕ) (s : System) : Prop where
  fresh : s.dir < s.next
  sound : ∀ p, Sound quota s p (s.phase p)

/-- **Mutual exclusion**: one process at a time is between lock and replacement. -/
theorem Exclusive.unique {quota : String → ℕ} {s : System} (h : Exclusive quota s) {p q : ℕ}
    {i j : ℕ} (hp : (s.phase p).critical = some i) (hq : (s.phase q).critical = some j) :
    p = q := by
  obtain ⟨hi, hlp⟩ := (h.sound p).holds i hp
  obtain ⟨hj, hlq⟩ := (h.sound q).holds j hq
  rw [hi] at hlp
  rw [hj, hlp] at hlq
  exact Option.some.inj hlq

theorem Started.exclusive {quota : String → ℕ} {s : System} (h : Started quota s) :
    Exclusive quota s := by
  refine ⟨h.fresh, fun p => ?_⟩
  rw [h.idle p]
  exact ⟨by simp [Phase.call], by simp [Phase.inode], by simp [Phase.critical], trivial⟩

theorem Phase.Knows.mono {dir : ℕ} {current : List LeaseRecord} {clock clock' : Int}
    {ph : Phase} (h : ph.Knows dir current clock) (hle : clock ≤ clock') :
    ph.Knows dir current clock' := by
  cases ph with
  | mutated c ino res new =>
    obtain ⟨now₁, now₂, h₁, h₂, hok⟩ := h
    exact ⟨now₁, now₂, h₁, by omega, hok⟩
  | _ => exact h

theorem Exclusive.move {quota : String → ℕ} {s : System} (h : Exclusive quota s) {p : ℕ}
    {ph : Phase} (hp : Sound quota s p ph) :
    Exclusive quota { s with phase := Function.update s.phase p ph } := by
  refine ⟨h.fresh, ?_⟩
  refine (Function.forall_update_iff s.phase (p := fun q ph => Sound quota _ q ph)).mpr ⟨?_, ?_⟩
  · exact ⟨hp.respects, hp.inode_lt, hp.holds, hp.knows⟩
  · intro q _
    have hq := h.sound q
    exact ⟨hq.respects, hq.inode_lt, hq.holds, hq.knows⟩

theorem Exclusive.tick {quota : String → ℕ} {s : System} (h : Exclusive quota s) {now : Int}
    (hle : s.clock ≤ now) : Exclusive quota { s with clock := now } := by
  refine ⟨h.fresh, fun q => ?_⟩
  have hq := h.sound q
  exact ⟨hq.respects, hq.inode_lt, hq.holds, hq.knows.mono hle⟩

/-- The lock of an inode nobody in the critical section holds may change. -/
theorem Exclusive.setLock {quota : String → ℕ} {s : System} (h : Exclusive quota s) {ino : ℕ}
    (hfree : ∀ q, (s.phase q).critical ≠ some ino) (v : Option ℕ) :
    Exclusive quota { s with locks := Function.update s.locks ino v } := by
  refine ⟨h.fresh, fun q => ?_⟩
  have hq := h.sound q
  refine ⟨hq.respects, hq.inode_lt, ?_, hq.knows⟩
  intro j hj
  obtain ⟨hdir, hlock⟩ := hq.holds j hj
  have hne : j ≠ ino := fun heq => hfree q (heq ▸ hj)
  refine ⟨hdir, ?_⟩
  simpa only [Function.update_of_ne hne] using hlock

/-- The replacement: no other process is in the critical section. -/
theorem Exclusive.replaces {quota : String → ℕ} {s : System} (h : Exclusive quota s) {p : ℕ}
    {c : Call} {ino : ℕ} {res : Result} {new : List LeaseRecord}
    (hp : s.phase p = .mutated c ino res new) :
    Exclusive quota { s with
      dir := s.next
      next := s.next + 1
      files := Function.update s.files s.next new
      phase := Function.update s.phase p (.replaced c ino res)
      log := s.log ++ [(c, res)] } := by
  have hsound := h.sound p
  rw [hp] at hsound
  have hlt : ino < s.next := hsound.inode_lt ino rfl
  refine ⟨Nat.lt_succ_self _, ?_⟩
  refine (Function.forall_update_iff s.phase (p := fun q ph => Sound quota _ q ph)).mpr ⟨?_, ?_⟩
  · refine ⟨hsound.respects, ?_, by simp [Phase.critical], hlt.ne⟩
    intro j hj
    obtain rfl : ino = j := Option.some.inj hj
    exact Nat.lt_succ_of_lt hlt
  · intro q hq
    have hother := h.sound q
    have hcrit : (s.phase q).critical = none := by
      cases hc : (s.phase q).critical with
      | none => rfl
      | some j => exact absurd (h.unique hc (by rw [hp]; rfl)) hq
    refine ⟨hother.respects, fun j hj => Nat.lt_succ_of_lt (hother.inode_lt j hj), ?_, ?_⟩
    · intro j hj
      rw [hcrit] at hj
      exact absurd hj (by simp)
    · cases hph : s.phase q with
      | replaced c' ino' res' =>
        have := hother.inode_lt ino' (by rw [hph]; rfl)
        exact this.ne
      | read => rw [hph] at hcrit; exact absurd hcrit (by simp [Phase.critical])
      | mutated => rw [hph] at hcrit; exact absurd hcrit (by simp [Phase.critical])
      | _ => trivial

theorem sound_idle (quota : String → ℕ) (s : System) (p : ℕ) : Sound quota s p .idle :=
  ⟨by simp [Phase.call], by simp [Phase.inode], by simp [Phase.critical], trivial⟩

private theorem sound_afterMutate {quota : String → ℕ} {s : System} {p : ℕ} {c : Call}
    {ino : ℕ} {records : List LeaseRecord} {now₁ now₂ : Int} (h₂ : now₁ ≤ now₂)
    (hclock : now₂ ≤ s.clock) (h : Sound quota s p (.read c ino records)) :
    Sound quota s p (afterMutate c ino (readModify c now₁ now₂ records)) := by
  have hrec : records = s.current := h.knows
  cases hm : readModify c now₁ now₂ records with
  | error e => exact ⟨h.respects, h.inode_lt, h.holds, trivial⟩
  | ok x =>
    refine ⟨h.respects, h.inode_lt, h.holds, now₁, now₂, h₂, hclock, ?_⟩
    rw [← hrec, hm]

/-- **A guarded step keeps the critical section exclusive.** -/
theorem Exclusive.step {quota : String → ℕ} {s t : System} {l : Label} (hi : Exclusive quota s)
    (h : Step quota s l t) (hg : OnCurrentInode s l) : Exclusive quota t := by
  cases h with
  | tick hle => exact hi.tick hle
  | @opens p c hp hq =>
    refine hi.move ⟨?_, ?_, by simp [Phase.critical], trivial⟩
    · intro c' hc'
      exact Option.some.inj hc' ▸ hq
    · intro ino hino
      exact Option.some.inj hino ▸ hi.fresh
  | @flock p c ino hp hl =>
    have hsound := hi.sound p
    rw [hp] at hsound
    have hfree : ∀ q, (s.phase q).critical ≠ some ino := by
      intro q hq
      have := ((hi.sound q).holds ino hq).2
      rw [hl] at this
      exact absurd this (by simp)
    refine (hi.setLock hfree (some p)).move ⟨hsound.respects, hsound.inode_lt, ?_, trivial⟩
    intro j hj
    obtain rfl : ino = j := Option.some.inj hj
    exact ⟨hg c ino hp, Function.update_self _ _ _⟩
  | @reads p c ino hp =>
    have hsound := hi.sound p
    rw [hp] at hsound
    refine hi.move ⟨hsound.respects, hsound.inode_lt, hsound.holds, ?_⟩
    rw [(hsound.holds ino rfl).1]
    exact rfl
  | @mutates p c ino records now₁ now₂ hp h₁ h₂ =>
    have hlater := hi.tick (h₁.trans h₂)
    have hsound := hlater.sound p
    rw [hp] at hsound
    exact hlater.move (sound_afterMutate h₂ le_rfl hsound)
  | replaces hp => exact hi.replaces hp
  | @unlocks p c ino res hp =>
    have hsound := hi.sound p
    rw [hp] at hsound
    -- the lock that is released belongs to an inode the path no longer names
    have hne : ino ≠ s.dir := hsound.knows
    refine (hi.setLock ?_ none).move (sound_idle _ _ p)
    intro q hq
    exact hne ((hi.sound q).holds ino hq).1
  | @raises p c ino e hp =>
    refine (hi.move (sound_idle quota s p)).setLock ?_ none
    intro q hq
    simp only at hq
    by_cases hqp : q = p
    · subst hqp
      rw [Function.update_self] at hq
      exact absurd hq (by simp [Phase.critical])
    · rw [Function.update_of_ne hqp] at hq
      exact hqp (hi.unique hq (by rw [hp]; rfl))

/-! ### The simulation -/

/-- The atomic store of a system of processes. -/
structure Refines (s : System) (a : Store) : Prop where
  file : a.file = s.current
  log : a.log = s.log
  clock_le : a.clock ≤ s.clock

theorem Refines.step {quota : String → ℕ} {s t : System} {a : Store} {l : Label}
    (hr : Refines s a) (hi : Exclusive quota s) (h : Step quota s l t) :
    Refines t a ∨ ∃ c a', AtomicStep quota a c a' ∧ Refines t a' := by
  cases h with
  | tick hle => exact .inl ⟨hr.file, hr.log, hr.clock_le.trans hle⟩
  | opens => exact .inl ⟨hr.file, hr.log, hr.clock_le⟩
  | flock => exact .inl ⟨hr.file, hr.log, hr.clock_le⟩
  | reads => exact .inl ⟨hr.file, hr.log, hr.clock_le⟩
  | mutates _ h₁ h₂ => exact .inl ⟨hr.file, hr.log, hr.clock_le.trans (h₁.trans h₂)⟩
  | unlocks => exact .inl ⟨hr.file, hr.log, hr.clock_le⟩
  | raises => exact .inl ⟨hr.file, hr.log, hr.clock_le⟩
  | @replaces p c ino res new hp =>
    have hsound := hi.sound p
    rw [hp] at hsound
    obtain ⟨now₁, now₂, h₁, h₂, hok⟩ := hsound.knows
    rw [← hr.file] at hok
    refine .inr ⟨(c, res), _, .commit (hsound.respects c rfl) h₁ h₂ hr.clock_le hok, ?_, ?_, le_rfl⟩
    · simp [System.current]
    · rw [hr.log]

/-- **Guarded steps simulate the atomic store.** -/
theorem simulates_atomic (quota : String → ℕ) :
    Simulates (GuardedStep quota) (AtomicStep quota)
      fun s a => Exclusive quota s ∧ Refines s a := by
  rintro s l t a ⟨hi, hr⟩ ⟨h, hg⟩
  have hi' := hi.step h hg
  rcases hr.step hi h with hr' | ⟨c, a', ha, hr'⟩
  · exact .inl ⟨hi', hr'⟩
  · exact .inr ⟨c, a', ha, hi', hr'⟩

/-! ### What was returned -/

/-- Every lease that was returned, or is about to be, was granted by a commit. -/
structure ReturnedLogged (past : List Label) (s : System) : Prop where
  returned : ∀ p r, Label.unlocks p (.ok (.acquired r)) ∈ past → ∃ c₀ ∈ s.log, r ∈ granted c₀
  replaced : ∀ p c ino res, s.phase p = .replaced c ino res → (c, res) ∈ s.log

private theorem replaced_of_update {phase : ℕ → Phase} {p q : ℕ} {ph : Phase} {c : Call}
    {ino : ℕ} {res : Result} (hph : ∀ c ino res, ph ≠ .replaced c ino res)
    (h : Function.update phase p ph q = .replaced c ino res) : phase q = .replaced c ino res := by
  by_cases hq : q = p
  · subst hq
    rw [Function.update_self] at h
    exact absurd h (hph c ino res)
  · rwa [Function.update_of_ne hq] at h

theorem ReturnedLogged.step {quota : String → ℕ} {past : List Label} {s t : System} {l : Label}
    (hi : ReturnedLogged past s) (h : Step quota s l t) : ReturnedLogged (past ++ [l]) t := by
  -- only `unlocks` returns from a call
  have hold : ∀ {p r}, l ≠ .unlocks p (.ok (.acquired r)) →
      Label.unlocks p (.ok (.acquired r)) ∈ past ++ [l] →
        ∃ c₀ ∈ s.log, r ∈ granted c₀ := by
    intro p r hl hmem
    rcases List.mem_append.mp hmem with hmem | hmem
    · exact hi.returned p r hmem
    · exact absurd (by simpa using hmem : _ = l) (Ne.symm hl)
  cases h with
  | tick => exact ⟨fun p r => hold (by simp), hi.replaced⟩
  | opens =>
    exact ⟨fun p r => hold (by simp), fun q c ino res hq =>
      hi.replaced q c ino res (replaced_of_update (by simp) hq)⟩
  | flock =>
    exact ⟨fun p r => hold (by simp), fun q c ino res hq =>
      hi.replaced q c ino res (replaced_of_update (by simp) hq)⟩
  | reads =>
    exact ⟨fun p r => hold (by simp), fun q c ino res hq =>
      hi.replaced q c ino res (replaced_of_update (by simp) hq)⟩
  | @mutates p c ino records now₁ now₂ hp h₁ h₂ =>
    refine ⟨fun p r => hold (by simp), fun q c' ino' res' hq =>
      hi.replaced q c' ino' res' (replaced_of_update ?_ hq)⟩
    intro c' ino' res'
    unfold afterMutate
    split <;> simp
  | @replaces p c ino res new hp =>
    constructor
    · intro q r hq
      obtain ⟨c₀, hc₀, hr⟩ := hold (by simp) hq
      exact ⟨c₀, List.mem_append_left _ hc₀, hr⟩
    · intro q c' ino' res' hq
      simp only at hq
      by_cases hqp : q = p
      · subst hqp
        rw [Function.update_self] at hq
        cases hq
        simp
      · rw [Function.update_of_ne hqp] at hq
        exact List.mem_append_left _ (hi.replaced q c' ino' res' hq)
  | @unlocks p c ino res hp =>
    refine ⟨?_, fun q c ino res hq => hi.replaced q c ino res (replaced_of_update (by simp) hq)⟩
    intro q r hq
    rcases List.mem_append.mp hq with hq | hq
    · exact hi.returned q r hq
    · obtain ⟨rfl, rfl⟩ : q = p ∧ Result.acquired r = res := by simpa using hq
      exact ⟨_, hi.replaced q c ino _ hp, by simp [granted]⟩
  | raises =>
    exact ⟨fun p r => hold (by simp), fun q c ino res hq =>
      hi.replaced q c ino res (replaced_of_update (by simp) hq)⟩

/-- **The lease file is serialisable** in every run whose locks are all granted on
the inode the path still names. -/
theorem serialisable {quota : String → ℕ} {s₀ s : System} {ls : List Label}
    (h₀ : Started quota s₀) (p : Path (GuardedStep quota) s₀ ls s) :
    Serialisable quota ls s := by
  have hstart : Exclusive quota s₀ ∧ Refines s₀ ⟨s₀.current, [], s₀.clock⟩ :=
    ⟨h₀.exclusive, rfl, h₀.log.symm, le_rfl⟩
  obtain ⟨ms, a, q, -, hr⟩ := (simulates_atomic quota).path p hstart
  have hinv : AtomicInv quota a := by
    refine q.invariant (I := AtomicInv quota) (fun _ _ _ hi h => hi.step h) ?_
    exact ⟨h₀.wellFormed, List.nodup_nil, by simp⟩
  have hlog : ReturnedLogged ls s := by
    refine p.history (I := ReturnedLogged) (fun _ _ _ _ hi h => hi.step h.1) ?_
    exact ⟨by simp, fun p c ino res hp => by rw [h₀.idle p] at hp; exact absurd hp (by simp)⟩
  have hfile : ∀ r ∈ live s.log, r.unexpired s.clock → r ∈ s.current := by
    intro r hr' hx
    rw [← hr.file]
    rw [← hr.log] at hr'
    exact hinv.live_mem r hr' (LeaseRecord.unexpired_mono hx hr.clock_le)
  refine ⟨?_, ?_, ?_⟩
  · intro p r hret
    obtain ⟨c₀, hc₀, hgr⟩ := hlog.returned p r hret
    rcases mem_live_or_ended s.log hc₀ hgr with hlive | ⟨before, after, c, hsplit, hc, hend⟩
    · cases hx : r.unexpired s.clock with
      | true => exact .inl (hfile r hlive hx)
      | false => exact .inr (.inl rfl)
    · exact .inr (.inr ⟨before, after, c₀, c, hsplit, hgr, hc, hend⟩)
  · intro r hr₁ r' hr₂ hx₁ hx₂ hrun
    have hwf : WellFormed quota s.current := by
      rw [← hr.file]
      exact hinv.wellFormed
    rw [hwf.eq_of_runner (hfile r hr₁ hx₁) (hfile r' hr₂ hx₂) hrun]
  · intro p
    rw [← hr.log]
    exact hinv.live_le_quota hr.clock_le p

/-! ### Two processes -/

def oneRunner : String → ℕ := fun _ => 1

/-- An empty `leases.yml`. -/
def emptyFile : System where
  dir := 0
  next := 1
  files := fun _ => []
  locks := fun _ => none
  phase := fun _ => .idle
  clock := 0
  log := []

theorem emptyFile_started : Started oneRunner emptyFile :=
  ⟨fun _ => rfl, fun _ => rfl, rfl, by decide, ⟨by simp [emptyFile, System.current],
    fun p => by simp [emptyFile, System.current]⟩⟩

/-- A principal's call for the runner `gpu-1`. -/
def acquireGpu (principalId : String) : AcquireArgs where
  principalId := principalId
  maxRunners := 1
  runnerId := "gpu-1"

/-- What it returns when it is the only one. -/
def gpuLease (principalId : String) (now : Int) : Result :=
  .acquired ((acquireGpu principalId).record now)

def acquireOther : AcquireArgs := { acquireGpu "bob" with runnerId := "gpu-2" }

/-- Two calls that overlap: the second one opens the file that the first has just put there. -/
theorem serialisable_overlap :
    ∃ ls s, Serialisable oneRunner ls s ∧
      s.log = [(.acquire (acquireGpu "alice"), gpuLease "alice" 1),
        (.acquire acquireOther, .acquired (acquireOther.record 2))] := by
  refine ⟨_, _, serialisable emptyFile_started
    (.cons ⟨.opens (p := 0) (c := .acquire (acquireGpu "alice")) rfl rfl, trivial⟩
    (.cons ⟨.flock (p := 0) rfl rfl, ?_⟩
    (.cons ⟨.reads (p := 0) rfl, trivial⟩
    (.cons ⟨.mutates (p := 0) rfl (show (0 : Int) ≤ 1 by decide) (le_refl (1 : Int)), trivial⟩
    (.cons ⟨.replaces (p := 0) rfl, trivial⟩
    (.cons ⟨.opens (p := 1) (c := .acquire acquireOther) rfl rfl, trivial⟩
    (.cons ⟨.flock (p := 1) rfl rfl, ?_⟩
    (.cons ⟨.unlocks (p := 0) rfl, trivial⟩
    (.cons ⟨.reads (p := 1) rfl, trivial⟩
    (.cons ⟨.mutates (p := 1) rfl (show (1 : Int) ≤ 2 by decide) (le_refl (2 : Int)), trivial⟩
    (.cons ⟨.replaces (p := 1) rfl, trivial⟩
    (.single ⟨.unlocks (p := 1) rfl, trivial⟩)))))))))))), rfl⟩
  · intro c ino h
    cases h
    rfl
  · intro c ino h
    cases h
    rfl

/-- Two processes open the file together.  The second one waits for the lock, gets
it on the inode the first has replaced, and reads the file as it was: both are
granted the runner, and the first lease is gone. -/
theorem lease_lost : ¬ ∀ (quota : String → ℕ) (s₀ s : System) (ls : List Label),
    Started quota s₀ → Path (Step quota) s₀ ls s → Serialisable quota ls s := by
  intro h
  have hser := h oneRunner _ _ _ emptyFile_started
    (.cons (.opens (p := 0) (c := .acquire (acquireGpu "alice")) rfl rfl)
    (.cons (.opens (p := 1) (c := .acquire (acquireGpu "bob")) rfl rfl)
    (.cons (.flock (p := 0) rfl rfl)
    (.cons (.reads (p := 0) rfl)
    (.cons (.mutates (p := 0) rfl (show (0 : Int) ≤ 1 by decide) (le_refl (1 : Int)))
    (.cons (.replaces (p := 0) rfl)
    (.cons (.unlocks (p := 0) rfl)
    (.cons (.flock (p := 1) rfl rfl)
    (.cons (.reads (p := 1) rfl)
    (.cons (.mutates (p := 1) rfl (show (1 : Int) ≤ 2 by decide) (le_refl (2 : Int)))
    (.cons (.replaces (p := 1) rfl)
    (.single (.unlocks (p := 1) rfl)))))))))))))
  have halice : (acquireGpu "alice").record 1 ∈
      live [(.acquire (acquireGpu "alice"), gpuLease "alice" 1),
        (.acquire (acquireGpu "bob"), gpuLease "bob" 2)] := by
    simp [live, gpuLease, granted, ends, acquireGpu, AcquireArgs.record]
  have hbob : (acquireGpu "bob").record 2 ∈
      live [(.acquire (acquireGpu "alice"), gpuLease "alice" 1),
        (.acquire (acquireGpu "bob"), gpuLease "bob" 2)] := by
    simp [live, gpuLease, granted]
  have hsame := hser.exclusive _ halice _ hbob (by decide) (by decide) rfl
  exact absurd hsame (by decide)

end RunnerLease
