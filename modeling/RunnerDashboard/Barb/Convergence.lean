import Mathlib.Data.Fintype.EquivFin
import Mathlib.Data.Multiset.Basic
import RunnerDashboard.Barb.Card
import RunnerDashboard.Lib.Path

/-!
# Convergence of a run's card

A finite multiset of updates of one run reaches the store in any order and any number of
times.  Whatever the order, the register of the run behaves; whether the card it ends with
is the same for every order depends on the two ways a card is written: the first update
to arrive has its meta redacted value by value, a later one as a text; and on the receipt
limits, as an update whose transaction cannot prune is rolled back.

## Main definitions

* `CardRun` — the deliveries of a multiset of updates.
* `CardContract`, `Convergent` — what the senders are promised, and when it holds.

## Main results

* `Tracks.step`, `CardRun.invariant` — one delivery keeps track of the register, so every run does.
* `cardContract_iff` — the promise holds exactly under the condition.
-/

namespace Barb

open Sql Lts Register

/-! ### Runs -/

/-- The updates of a run: explicit versions from one, equal versions with equal content. -/
structure Updates where
  all : Multiset Update
  one_le : ∀ x ∈ all, 1 ≤ x.version
  agree : ∀ x ∈ all, ∀ y ∈ all, x.version = y.version → x = y

def Updates.Highest (ups : Updates) (x : Update) : Prop :=
  x ∈ ups.all ∧ ∀ y ∈ ups.all, y.version ≤ x.version

/-- A delivery, with what the call drew and returned. -/
structure CardEvent where
  draw : Draw
  update : Update
  reply : Except BarbError Reply

/-- One delivery, by a store object whose clock and count of updates are what they may be. -/
structure CardStep (env : Env) (c : RunCard) (ups : Updates) (db : Db) (ev : CardEvent)
    (db' : Db) : Prop where
  mem : ev.update ∈ ups.all
  clock : env.since ≤ ev.draw.pruneAt
  count : ev.draw.applied < receiptPruneEvery
  call : applyRunCardUpdate env ev.draw (c.call .unset ev.update) db = (ev.reply, db')

/-- The receipt ids a run drew, latest first. -/
def receiptIds (evs : List CardEvent) : List String :=
  (evs.map fun ev => ev.draw.receiptId).reverse

/-- A run of deliveries into a database without the card, with distinct receipt ids. -/
structure CardRun (env : Env) (c : RunCard) (ups : Updates) (evs : List CardEvent) (db : Db) :
    Prop where
  path : ∃ messages fence, messages.get? c.messageId = none ∧
    Path (CardStep env c ups) (.new messages fence) evs db
  fresh : (receiptIds evs).Nodup

structure NextCard (env : Env) (c : RunCard) (ups : Updates) (before : List CardEvent) (db : Db)
    (ev : CardEvent) (db' : Db) : Prop where
  run : CardRun env c ups before db
  step : CardStep env c ups db ev db'
  fresh : ev.draw.receiptId ∉ receiptIds before

/-- The card, the stored version and the stored status are those of an update, redacted. -/
structure CardIs (env : Env) (c : RunCard) (db : Db) (x : Update) : Prop where
  row : ∃ row, db.versions.get? c.runId = some row ∧ row.version = x.version ∧
    row.status = x.status
  card : ∃ record, getMessage db c.messageId = .ok (some record) ∧
    record.bodyMd = env.redact x.bodyMd ∧
    record.metaDict = redactFields env.redact x.metaDict

/-- What the senders of a run's updates are promised. -/
structure CardContract (env : Env) (c : RunCard) (ups : Updates) : Prop where
  /-- The stored version never decreases. -/
  monotone : ∀ before db ev db', NextCard env c ups before db ev db' →
    currentVersion db c.runId ≤ currentVersion db' c.runId
  /-- A version that was applied is then a duplicate, with its receipt, or stale. -/
  once : ∀ before db ev db', NextCard env c ups before db ev db' →
    ∀ e ∈ before, ∀ card v r, e.reply = .ok (card, ⟨.applied, v, r⟩) →
      e.update.version = ev.update.version →
      (∃ card', ev.reply = .ok (card', ⟨.duplicate, v, r⟩)) ∨
        ∃ card' v', ev.reply = .ok (card', ⟨.stale, v', none⟩)
  /-- Duplicate and stale updates change nothing. -/
  inert : ∀ before db ev db', NextCard env c ups before db ev db' →
    ∀ card res, ev.reply = .ok (card, res) → res.outcome ≠ .applied → db' = db
  /-- No update leaves a stored terminal status. -/
  sticky : ∀ before db ev db', NextCard env c ups before db ev db' →
    ∀ row, db.versions.get? c.runId = some row → row.status ∈ terminalStatuses →
      ev.update.status ∉ terminalStatuses → db' = db
  /-- Once all updates arrived, the card is the highest, if that is terminal. -/
  converges : ∀ x, ups.Highest x → x.status ∈ terminalStatuses →
    ∀ evs db, CardRun env c ups evs db → (∀ y ∈ ups.all, ∃ ev ∈ evs, ev.update = y) →
      CardIs env c db x

/-- A terminal highest update fits the version column, no prune in its transaction fails, and,
unless no other version of the multiset has a status of a run, redacting the text of its meta is
redacting its values. -/
def Convergent (env : Env) (ups : Updates) : Prop :=
  ∀ x, ups.Highest x → x.status ∈ terminalStatuses →
    x.version < 2 ^ 63 ∧ LimitsHold env ∧
      ((∀ y ∈ ups.all, y.status ∈ runStatuses → y.version = x.version) ∨
        decodeMeta (env.redact (Json.obj x.metaDict).dumps) =
          some (redactFields env.redact x.metaDict))

variable {env : Env} {c : RunCard} {ups : Updates} {before evs : List CardEvent} {db db' : Db}
  {ev : CardEvent} {held held' : Option Update} {x y : Update}

/-! ### The register of a run -/

/-- What holds of a register and the history of its run. -/
structure Tracks (env : Env) (c : RunCard) (ups : Updates) (past : List CardEvent) (db : Db)
    (held : Option Update) : Prop where
  shows : Shows env c db held
  kept : WellKept (receiptIds past) db
  sound : ∀ y, held = some y → y ∈ ups.all ∧ y.status ∈ runStatuses ∧ fitsInteger y.version
  covered : ∀ ev ∈ past, ∀ reply, ev.reply = .ok reply →
    checkUpdate (c.call .unset ev.update) = .ok () ∧ ¬ Takes held ev.update
  receipts : ∀ ev ∈ past, ∀ card v r, ev.reply = .ok (card, ⟨.applied, v, r⟩) →
    v = ev.update.version ∧ fitsInteger v ∧ v ≤ currentVersion db c.runId ∧
      (currentVersion db c.runId = v → findReceipt db c.runId v = r)

theorem receiptIds_snoc (past : List CardEvent) (ev : CardEvent) :
    receiptIds (past ++ [ev]) = ev.draw.receiptId :: receiptIds past := by
  simp [receiptIds]

theorem checkUpdate_ok_iff (hpos : 1 ≤ x.version) :
    checkUpdate (c.call .unset x) = .ok () ↔ x.status ∈ runStatuses := by
  have hv : ¬ (c.call .unset x).version.any (· < 1) := by
    simp only [RunCard.call, Option.any_some, decide_eq_true_eq]
    omega
  have hcall : (c.call .unset x).status = x.status := rfl
  unfold checkUpdate
  rw [hcall]
  by_cases hst : x.status ∈ runStatuses
  · rw [if_neg (not_not.mpr hst), if_neg hv]
    exact ⟨fun _ => hst, fun _ => rfl⟩
  · rw [if_pos hst]
    exact ⟨fun h => (nomatch h), fun h => absurd h hst⟩

/-- An update the register takes advances the stored version. -/
theorem Shows.lt_of_takes (h : Shows env c db held) (hpos : 1 ≤ x.version)
    (hacc : Takes held x) : currentVersion db c.runId < x.version := by
  rw [h.currentVersion_eq]
  cases held with
  | none => exact Int.lt_of_lt_of_le Int.zero_lt_one hpos
  | some y => exact (hacc y rfl).1

/-- What each outcome of a delivery without an epoch leaves behind. -/
theorem Delivery.unset_cases {d : Draw} {reply : Except BarbError Reply}
    (h : Delivery env c d .unset x db held reply db' held') :
    (held' = held ∧ db' = db ∧ ∀ card res, reply = .ok (card, res) →
      ¬ Takes held x ∧ res.outcome ≠ .applied ∧
        res = db.decide c.runId x.version x.status c.messageId) ∨
    (held' = some x ∧ Takes held x ∧ fitsInteger x.version ∧
      (∃ m, db'.messages.get? c.messageId = some m ∧ m.metaText = cardText env held x) ∧
      findReceipt db' c.runId x.version = some d.receiptId ∧
      ∃ card, reply = .ok (card, ⟨.applied, x.version, some d.receiptId⟩)) := by
  cases h with
  | refused => exact .inl ⟨rfl, rfl, fun _ _ h => nomatch h⟩
  | covered hnot hout _ hstill =>
    refine .inl ⟨rfl, hstill Int.zero_lt_one, ?_⟩
    intro card res h
    obtain ⟨rfl, rfl⟩ := Prod.mk.inj (Except.ok.inj h)
    exact ⟨hnot, hout, rfl⟩
  | taken hacc _ hfit htext hreceipt => exact .inr ⟨rfl, hacc, hfit, htext, hreceipt, _, rfl⟩

/-- **One delivery** keeps track. -/
theorem Tracks.step {past : List CardEvent} (h : Tracks env c ups past db held)
    (hstep : CardStep env c ups db ev db') (hfresh : ev.draw.receiptId ∉ receiptIds past) :
    ∃ held', Delivery env c ev.draw .unset ev.update db held ev.reply db' held' ∧
      Tracks env c ups (past ++ [ev]) db' held' := by
  obtain ⟨hin, -, -, happly⟩ := hstep
  have hpos := ups.one_le _ hin
  obtain ⟨held', hdel, hshows, hkept⟩ := deliver h.kept h.shows hpos hfresh happly
  have hcheck : ∀ reply, ev.reply = .ok reply → checkUpdate (c.call .unset ev.update) = .ok () := by
    intro reply hreply
    rw [hreply] at happly
    exact (applyRunCardUpdate_ok_iff.mp happly).1
  refine ⟨held', hdel, hshows, by rwa [receiptIds_snoc], ?_, ?_, ?_⟩
  · intro y hy
    rcases hdel.unset_cases with ⟨rfl, -, -⟩ | ⟨rfl, -, hfit, -, -, card, hreply⟩
    · exact h.sound y hy
    · obtain rfl := Option.some.inj hy
      exact ⟨hin, (checkUpdate_ok_iff hpos).mp (hcheck _ hreply), hfit⟩
  · intro e he reply hreply
    rcases List.mem_append.mp he with he | he
    · obtain ⟨hpass, hnot⟩ := h.covered e he reply hreply
      exact ⟨hpass, hdel.move.covered hnot⟩
    · obtain rfl := List.mem_singleton.mp he
      refine ⟨hcheck reply hreply, ?_⟩
      rw [hreply] at hdel
      exact hdel.not_takes
  · intro e he card v r hreply
    rcases hdel.unset_cases with ⟨-, rfl, hres⟩ | ⟨rfl, hacc, hfit, -, hreceipt, card', hreply'⟩
    · rcases List.mem_append.mp he with he | he
      · exact h.receipts e he card v r hreply
      · obtain rfl := List.mem_singleton.mp he
        exact absurd rfl (hres _ _ hreply).2.1
    · have hcur := hshows.currentVersion_eq
      simp only [Option.map_some, Option.getD_some] at hcur
      rcases List.mem_append.mp he with he | he
      · -- an earlier version is below the new stored one
        obtain ⟨hv, hfit', hle, -⟩ := h.receipts e he card v r hreply
        have hlt := h.shows.lt_of_takes hpos hacc
        exact ⟨hv, hfit', by omega, fun heq => absurd heq (by omega)⟩
      · obtain rfl := List.mem_singleton.mp he
        obtain ⟨-, hres⟩ := Prod.mk.inj (Except.ok.inj (hreply.symm.trans hreply'))
        simp only [ApplyResult.mk.injEq, true_and] at hres
        obtain ⟨rfl, rfl⟩ := hres
        exact ⟨rfl, hfit, hcur.ge, fun _ => hreceipt⟩

/-- Every delivery preserves a property of the database and its register. -/
def Preserves (env : Env) (c : RunCard) (ups : Updates) (P : Db → Option Update → Prop) : Prop :=
  ∀ (past : List CardEvent) (db : Db) (held : Option Update) (ev : CardEvent) (db' : Db)
    (held' : Option Update), Tracks env c ups past db held → P db held →
    Delivery env c ev.draw .unset ev.update db held ev.reply db' held' → P db' held'

theorem Tracks.run {P : Db → Option Update → Prop} (hstep : Preserves env c ups P)
    (p : Path (CardStep env c ups) db evs db') : ∀ {past held}, Tracks env c ups past db held →
      P db held → (receiptIds (past ++ evs)).Nodup →
      ∃ held', Tracks env c ups (past ++ evs) db' held' ∧ P db' held' := by
  induction p with
  | nil =>
    intro past held ht hP _
    exact ⟨held, by rwa [List.append_nil], hP⟩
  | @cons s t u ev evs h _ ih =>
    intro past held ht hP hnodup
    have hassoc : past ++ ev :: evs = (past ++ [ev]) ++ evs := by simp
    have hfresh : ev.draw.receiptId ∉ receiptIds past := by
      have hsub : (receiptIds (past ++ [ev])).Nodup := by
        rw [hassoc, receiptIds, List.map_append, List.reverse_append] at hnodup
        exact (List.nodup_append.mp hnodup).2.1
      rw [receiptIds_snoc] at hsub
      exact (List.nodup_cons.mp hsub).1
    obtain ⟨held', hdel, ht'⟩ := ht.step h hfresh
    rw [hassoc] at hnodup ⊢
    exact ih ht' (hstep past s held ev t held' ht hP hdel) hnodup

/-- A database without the card has an empty register. -/
theorem Tracks.new {messages : Table String Message} (fence : Option EpochFence)
    (hmiss : messages.get? c.messageId = none) :
    Tracks env c ups [] (.new messages fence) none where
  shows := ⟨rfl, hmiss⟩
  kept := .new messages fence
  sound := fun _ hy => (nomatch hy)
  covered := fun _ he => absurd he List.not_mem_nil
  receipts := fun _ he => absurd he List.not_mem_nil

/-- **The register of a run**: every run has one, it keeps track of its history, and what
every delivery preserves holds of it. -/
theorem CardRun.invariant {P : Db → Option Update → Prop}
    (hnew : ∀ messages fence, messages.get? c.messageId = none → P (.new messages fence) none)
    (hstep : Preserves env c ups P) (h : CardRun env c ups evs db) :
    ∃ held, Tracks env c ups evs db held ∧ P db held := by
  obtain ⟨⟨messages, fence, hmiss, p⟩, hfresh⟩ := h
  exact Tracks.run hstep p (.new fence hmiss) (hnew messages fence hmiss) hfresh

theorem CardRun.tracks (h : CardRun env c ups evs db) :
    ∃ held, Tracks env c ups evs db held := by
  obtain ⟨held, ht, -⟩ := h.invariant (P := fun _ _ => True) (fun _ _ _ => trivial)
    fun _ _ _ _ _ _ _ _ _ => trivial
  exact ⟨held, ht⟩

/-! ### What every run keeps -/

theorem NextCard.tracks (h : NextCard env c ups before db ev db') :
    ∃ held held', Tracks env c ups before db held ∧
      Delivery env c ev.draw .unset ev.update db held ev.reply db' held' ∧
      Tracks env c ups (before ++ [ev]) db' held' := by
  obtain ⟨held, ht⟩ := h.run.tracks
  obtain ⟨held', hdel, ht'⟩ := ht.step h.step h.fresh
  exact ⟨held, held', ht, hdel, ht'⟩

theorem NextCard.version_le (h : NextCard env c ups before db ev db') :
    currentVersion db c.runId ≤ currentVersion db' c.runId := by
  obtain ⟨held, held', ht, hdel, ht'⟩ := h.tracks
  rcases hdel.unset_cases with ⟨-, rfl, -⟩ | ⟨rfl, hacc, -⟩
  · exact le_rfl
  · have hlt := ht.shows.lt_of_takes (ups.one_le _ h.step.mem) hacc
    have hcur := ht'.shows.currentVersion_eq
    simp only [Option.map_some, Option.getD_some] at hcur
    omega

theorem NextCard.eq_of_not_applied (h : NextCard env c ups before db ev db')
    {card : Option MessageRecord} {res : ApplyResult} (hreply : ev.reply = .ok (card, res))
    (hout : res.outcome ≠ .applied) : db' = db := by
  obtain ⟨held, held', -, hdel, -⟩ := h.tracks
  rcases hdel.unset_cases with ⟨-, hdb, -⟩ | ⟨-, -, -, -, -, card', hreply'⟩
  · exact hdb
  · obtain ⟨-, rfl⟩ := Prod.mk.inj (Except.ok.inj (hreply.symm.trans hreply'))
    exact absurd rfl hout

theorem NextCard.eq_of_terminal (h : NextCard env c ups before db ev db') {row : VersionRow}
    (hrow : db.versions.get? c.runId = some row) (hterm : row.status ∈ terminalStatuses)
    (hnon : ev.update.status ∉ terminalStatuses) : db' = db := by
  obtain ⟨held, held', ht, hdel, -⟩ := h.tracks
  rcases hdel.unset_cases with ⟨-, hdb, -⟩ | ⟨-, hacc, -⟩
  · exact hdb
  · cases held with
    | none => exact absurd (hrow.symm.trans ht.shows.1) (by simp)
    | some y =>
      obtain ⟨row', hrow', -, hs⟩ := Holds.row ht.shows
      obtain rfl := Option.some.inj (hrow.symm.trans hrow')
      have hfinal : y.Final := by rwa [hs] at hterm
      exact absurd ((hacc y rfl).2 hfinal) hnon

theorem NextCard.once (h : NextCard env c ups before db ev db') {e : CardEvent} (he : e ∈ before)
    {card : Option MessageRecord} {v : Int} {r : Option String}
    (happ : e.reply = .ok (card, ⟨.applied, v, r⟩)) (hv : e.update.version = ev.update.version) :
    (∃ card', ev.reply = .ok (card', ⟨.duplicate, v, r⟩)) ∨
      ∃ card' v', ev.reply = .ok (card', ⟨.stale, v', none⟩) := by
  obtain ⟨held, held', ht, hdel, -⟩ := h.tracks
  obtain ⟨hpass, hnot⟩ := ht.covered e he _ happ
  obtain ⟨hver, hfit, -, hreceipt⟩ := ht.receipts e he card v r happ
  have hpos := ups.one_le _ h.step.mem
  have hin : e.update ∈ ups.all := by
    obtain ⟨messages, fence, -, p⟩ := h.run.path
    obtain ⟨l, l', rfl⟩ := List.append_of_mem he
    obtain ⟨t, t', -, hstep, -⟩ := path_middle_iff.mp p
    exact hstep.mem
  rw [ups.agree _ hin _ h.step.mem hv] at hpass hnot hver
  obtain ⟨reply, hreply⟩ := deliver_isOk ht.kept ht.shows hpos h.fresh hpass ⟨db, rfl⟩
    ⟨hver ▸ hfit, rfl⟩ (fun hacc => absurd hacc hnot) fun hacc => absurd hacc hnot
  rw [h.step.call] at hreply
  change ev.reply = .ok reply at hreply
  rcases hdel.unset_cases with ⟨-, -, hres⟩ | ⟨-, hacc, -⟩
  · obtain ⟨card', res⟩ := reply
    obtain ⟨-, hout, hdecide⟩ := hres card' res hreply
    rcases db.decide_cases c.runId ev.update.version ev.update.status c.messageId with
      ⟨row, hrow, hrv, hd⟩ | ⟨-, -, hd⟩ | ⟨-, -, hd⟩
    · left
      have hcur : currentVersion db c.runId = v := by
        rw [currentVersion, hrow, hver]
        exact hrv
      refine ⟨card', ?_⟩
      rw [hreply, hdecide, hd, ← hver, hreceipt hcur]
    · rw [hdecide, hd] at hout
      exact absurd rfl hout
    · right
      exact ⟨card', _, by rw [hreply, hdecide, hd]⟩
  · exact absurd hacc hnot

/-! ### When a run converges -/

/-- The meta of the card reads as its update's redacted meta, if the update is the highest
and terminal. -/
def Exact (env : Env) (c : RunCard) (ups : Updates) (db : Db) (held : Option Update) : Prop :=
  ∀ x, held = some x → ups.Highest x → x.status ∈ terminalStatuses →
    ∃ m, db.messages.get? c.messageId = some m ∧
      decodeMeta m.metaText = some (redactFields env.redact x.metaDict)

/-- An update the register takes over another can only be rewritten as a text. -/
private theorem Convergent.decode_of_takes (h : Convergent env ups) {past : List CardEvent}
    (ht : Tracks env c ups past db (some y)) (hx : ups.Highest x)
    (hterm : x.status ∈ terminalStatuses) (hacc : Takes (some y) x) :
    decodeMeta (env.redact (Json.obj x.metaDict).dumps) =
      some (redactFields env.redact x.metaDict) := by
  rcases (h x hx hterm).2.2 with honly | hdecode
  · obtain ⟨hin, hst, -⟩ := ht.sound y rfl
    have hlt := (hacc y rfl).1
    have := honly y hin hst
    omega
  · exact hdecode

private theorem Convergent.exact_step (h : Convergent env ups) {past : List CardEvent}
    (ht : Tracks env c ups past db held) (hexact : Exact env c ups db held)
    (hdel : Delivery env c ev.draw .unset ev.update db held ev.reply db' held') :
    Exact env c ups db' held' := by
  rcases hdel.unset_cases with ⟨rfl, rfl, -⟩ | ⟨rfl, hacc, -, ⟨m, hm, htext⟩, -⟩
  · exact hexact
  · intro x hx hhigh hterm
    obtain rfl := Option.some.inj hx
    refine ⟨m, hm, ?_⟩
    rw [htext]
    cases held with
    | none => exact decodeMeta_dumps _
    | some y => exact h.decode_of_takes ht hhigh hterm hacc

/-- The highest update, if terminal, does not fail under the condition. -/
private theorem Convergent.isOk (h : Convergent env ups) {past : List CardEvent}
    (ht : Tracks env c ups past db held) (hstep : CardStep env c ups db ev db')
    (hfresh : ev.draw.receiptId ∉ receiptIds past) (hx : ups.Highest ev.update)
    (hterm : ev.update.status ∈ terminalStatuses) : ∃ reply, ev.reply = .ok reply := by
  have hpos := ups.one_le _ hstep.mem
  have hrun : ev.update.status ∈ runStatuses := by
    have hsub : ∀ s ∈ terminalStatuses, s ∈ runStatuses := by decide
    exact hsub _ hterm
  have hfit : fitsInteger ev.update.version = true := by
    have := (h _ hx hterm).1
    simp only [fitsInteger, decide_eq_true_eq]
    omega
  have hok := deliver_isOk ht.kept ht.shows hpos hfresh ((checkUpdate_ok_iff hpos).mpr hrun)
    ⟨db, rfl⟩ ⟨hfit, rfl⟩
    (fun hacc => by
      cases held with
      | none => exact .inl rfl
      | some y => exact .inr ⟨_, h.decode_of_takes ht hx hterm hacc⟩)
    fun _ => (h _ hx hterm).2.1.countApplied_isOk hstep.clock
  rw [hstep.call] at hok
  exact hok

/-- **A complete run ends with the highest update**, if that is terminal, under the
condition. -/
theorem Convergent.cardIs (h : Convergent env ups) (hx : ups.Highest x)
    (hterm : x.status ∈ terminalStatuses) (hrun : CardRun env c ups evs db)
    (hall : ∀ y ∈ ups.all, ∃ ev ∈ evs, ev.update = y) : CardIs env c db x := by
  obtain ⟨held, ht, hexact⟩ := hrun.invariant (P := Exact env c ups)
    (fun _ _ _ _ hy => (nomatch hy)) fun _ _ _ _ _ _ ht hP hdel => h.exact_step ht hP hdel
  -- the highest update was delivered once, and its delivery did not fail
  have hcovered : ¬ Takes held x := by
    obtain ⟨ev, hev, rfl⟩ := hall x hx.1
    obtain ⟨reply, hreply⟩ : ∃ reply, ev.reply = .ok reply := by
      obtain ⟨⟨messages, fence, hmiss, p⟩, hfresh⟩ := hrun
      obtain ⟨before, after, rfl⟩ := List.append_of_mem hev
      obtain ⟨t, t', p₁, hstep, -⟩ := path_middle_iff.mp p
      rw [receiptIds, List.map_append, List.map_cons, List.nodup_reverse,
        List.nodup_append] at hfresh
      have hbefore : CardRun env c ups before t :=
        ⟨⟨messages, fence, hmiss, p₁⟩, List.nodup_reverse.mpr hfresh.1⟩
      obtain ⟨held, ht⟩ := hbefore.tracks
      refine h.isOk ht hstep ?_ hx hterm
      intro hmem
      exact hfresh.2.2 _ (List.mem_reverse.mp hmem) _ List.mem_cons_self rfl
    exact (ht.covered ev hev reply hreply).2
  have hheld : held = some x := eq_of_covered (fun y hy => (ht.sound y hy).1)
    (fun y hy hv => ups.agree y hy x hx.1 hv) hx.2 (.inl hterm) hcovered
  subst hheld
  obtain ⟨row, hrow, hv, hs⟩ := Holds.row ht.shows
  obtain ⟨m, hm, hof⟩ := Holds.card ht.shows
  obtain ⟨m', hm', hdecode⟩ := hexact x rfl hx hterm
  obtain rfl := Option.some.inj (hm.symm.trans hm')
  refine ⟨⟨row, hrow, hv, hs⟩,
    m.record c.messageId (redactFields env.redact x.metaDict), ?_, hof.body, rfl⟩
  rw [getMessage, hm]
  dsimp only
  rw [fromRow_of_decode hdecode]
  rfl

/-! ### When it does not -/

private theorem exists_run (env : Env) (c : RunCard) (ups : Updates) (l : List Update) :
    ∀ (db : Db) (used : List String), (∀ x ∈ l, x ∈ ups.all) → used.Nodup →
      ∃ evs db', Path (CardStep env c ups) db evs db' ∧ evs.map CardEvent.update = l ∧
        (receiptIds evs ++ used).Nodup := by
  induction l with
  | nil =>
    intro db used _ hused
    exact ⟨[], db, .nil db, rfl, hused⟩
  | cons x l ih =>
    intro db used hl hused
    obtain ⟨id, hid⟩ := Infinite.exists_notMem_finset used.toFinset
    have hid' : id ∉ used := fun h => hid (List.mem_toFinset.mpr h)
    let d : Draw := ⟨id, "", "", "", "", env.since, 0⟩
    let r := applyRunCardUpdate env d (c.call .unset x) db
    obtain ⟨evs, db', p, hmap, hnodup⟩ := ih r.2 (id :: used)
      (fun y hy => hl y (List.mem_cons_of_mem _ hy)) (List.nodup_cons.mpr ⟨hid', hused⟩)
    refine ⟨⟨d, x, r.1⟩ :: evs, db',
      .cons ⟨hl x List.mem_cons_self, le_rfl, Nat.succ_pos 63, rfl⟩ p, ?_, ?_⟩
    · rw [List.map_cons, hmap]
    · simpa [receiptIds] using hnodup

private theorem exists_complete (env : Env) (c : RunCard) (ups : Updates) {y : Update}
    (hy : y ∈ ups.all) :
    ∃ ev evs db₁ db, CardStep env c ups (.new .empty none) ev db₁ ∧ ev.update = y ∧
      Path (CardStep env c ups) db₁ evs db ∧ CardRun env c ups (ev :: evs) db ∧
      ∀ z ∈ ups.all, ∃ ev' ∈ ev :: evs, ev'.update = z := by
  obtain ⟨evs, db, p, hmap, hnodup⟩ := exists_run env c ups (y :: ups.all.toList)
    (.new .empty none) [] (by simpa using hy) .nil
  rw [List.append_nil] at hnodup
  cases evs with
  | nil => exact absurd hmap (by simp)
  | cons ev evs =>
    obtain ⟨db₁, hstep, p'⟩ := path_cons_iff.mp p
    obtain ⟨hev, hrest⟩ := List.cons.inj hmap
    refine ⟨ev, evs, db₁, db, hstep, hev, p', ⟨⟨.empty, none, rfl, p⟩, hnodup⟩, ?_⟩
    intro z hz
    have hz' : z ∈ evs.map CardEvent.update := by
      rw [hrest]
      exact Multiset.mem_toList.mpr hz
    obtain ⟨ev', hev', rfl⟩ := List.mem_map.mp hz'
    exact ⟨ev', List.mem_cons_of_mem _ hev', rfl⟩

/-- The card is of an update of the run, which has the stored version. -/
private theorem Tracks.eq_of_cardIs {past : List CardEvent} (ht : Tracks env c ups past db held)
    (hx : x ∈ ups.all) (hcard : CardIs env c db x) : held = some x := by
  obtain ⟨row, hrow, hv, -⟩ := hcard.row
  cases held with
  | none => exact absurd (hrow.symm.trans ht.shows.1) (by simp)
  | some y =>
    obtain ⟨row', hrow', hv', -⟩ := Holds.row ht.shows
    obtain rfl := Option.some.inj (hrow.symm.trans hrow')
    rw [ups.agree y (ht.sound y rfl).1 x hx (hv'.symm.trans hv)]

private def Rewritten (env : Env) (c : RunCard) (x : Update) (db : Db) (held : Option Update) :
    Prop :=
  held ≠ none ∧ (held = some x → ∃ m, db.messages.get? c.messageId = some m ∧
    m.metaText = env.redact (Json.obj x.metaDict).dumps)

private theorem preserves_rewritten (x : Update) :
    Preserves env c ups (Rewritten env c x) := by
  rintro past db held ev db' held' - ⟨hne, hm⟩ hdel
  rcases hdel.unset_cases with ⟨rfl, rfl, -⟩ | ⟨rfl, -, -, ⟨m, hm', htext⟩, -⟩
  · exact ⟨hne, hm⟩
  · refine ⟨by simp, fun heq => ⟨m, hm', ?_⟩⟩
    obtain rfl := Option.some.inj heq
    cases held with
    | none => exact absurd rfl hne
    | some y => exact htext

private theorem CardStep.first (h : CardStep env c ups (.new .empty none) ev db')
    (hlimits : LimitsHold env) (hrun : ev.update.status ∈ runStatuses)
    (hfit : fitsInteger ev.update.version = true) :
    Tracks env c ups [ev] db' (some ev.update) := by
  have ht := @Tracks.new env c ups .empty none rfl
  obtain ⟨held', hdel, ht'⟩ := ht.step h List.not_mem_nil
  have hpos := ups.one_le _ h.mem
  obtain ⟨reply, hreply⟩ := deliver_isOk ht.kept ht.shows hpos List.not_mem_nil
    ((checkUpdate_ok_iff hpos).mpr hrun) ⟨_, rfl⟩ ⟨hfit, rfl⟩ (fun _ => .inl rfl)
    fun _ => hlimits.countApplied_isOk h.clock
  rw [h.call] at hreply
  rcases hdel.unset_cases with ⟨-, -, hres⟩ | ⟨rfl, -⟩
  · exact absurd accepts_none (hres _ _ hreply).1
  · exact ht'

private def Updates.others (ups : Updates) (v : Int) : Updates where
  all := ups.all.filter fun y => y.version ≠ v
  one_le y hy := ups.one_le y (Multiset.mem_of_mem_filter hy)
  agree y hy z hz := ups.agree y (Multiset.mem_of_mem_filter hy) z (Multiset.mem_of_mem_filter hz)

/-- A complete run delivers an update first, and then the others. -/
private theorem exists_others {d : Draw} {reply : Except BarbError Reply} (hx : x ∈ ups.all)
    (hid : d.receiptId = "")
    (hstep : CardStep env c ups (.new .empty none) ⟨d, x, reply⟩ (.new .empty none)) :
    ∃ evs db, CardRun env c ups (⟨d, x, reply⟩ :: evs) db ∧
      CardRun env c (ups.others x.version) evs db ∧
      ∀ y ∈ ups.all, ∃ ev ∈ ⟨d, x, reply⟩ :: evs, ev.update = y := by
  obtain ⟨evs, db, p, hmap, hnodup⟩ := exists_run env c (ups.others x.version)
    (ups.others x.version).all.toList (.new .empty none) [""]
    (fun y hy => Multiset.mem_toList.mp hy) (List.nodup_singleton _)
  have p' : Path (CardStep env c ups) (.new .empty none) evs db :=
    p.imp (I := fun _ => True) (fun _ _ _ _ hs =>
      ⟨⟨Multiset.mem_of_mem_filter hs.mem, hs.clock, hs.count, hs.call⟩, trivial⟩) trivial
  refine ⟨evs, db, ⟨⟨.empty, none, rfl, .cons hstep p'⟩, ?_⟩,
    ⟨⟨.empty, none, rfl, p⟩, hnodup.of_append_left⟩, ?_⟩
  · simpa [receiptIds, hid] using hnodup
  · intro y hy
    by_cases hv : y.version = x.version
    · exact ⟨_, List.mem_cons_self, (ups.agree y hy x hx hv).symm⟩
    · have hin : y ∈ evs.map CardEvent.update := by
        rw [hmap]
        exact Multiset.mem_toList.mpr (Multiset.mem_filter.mpr ⟨hy, hv⟩)
      obtain ⟨ev, hev, rfl⟩ := List.mem_map.mp hin
      exact ⟨ev, List.mem_cons_of_mem _ hev, rfl⟩

/-- **The promise needs the limits**: the highest update arrives once, as the last before a prune,
and the prune fails and takes it back. -/
private theorem CardContract.limitsHold (h : CardContract env c ups) (hx : ups.Highest x)
    (hterm : x.status ∈ terminalStatuses) : LimitsHold env := by
  let d : Draw := ⟨"", "", "", "", "", env.since, 63⟩
  obtain ⟨reply, hreply⟩ : ∃ reply,
    (applyRunCardUpdate env d (c.call .unset x) (.new .empty none)).1 = reply := ⟨_, rfl⟩
  have hstep : CardStep env c ups (.new .empty none) ⟨d, x, reply⟩
      (applyRunCardUpdate env d (c.call .unset x) (.new .empty none)).2 :=
    ⟨hx.1, le_rfl, Nat.lt_succ_self 63, Prod.ext hreply rfl⟩
  cases reply with
  | ok reply =>
    have ht := @Tracks.new env c ups .empty none rfl
    obtain ⟨held', hdel, -⟩ := ht.step hstep List.not_mem_nil
    obtain ⟨-, db₁, -, hcount⟩ := applyRunCardUpdate_ok_iff.mp hstep.call
    rcases hdel.unset_cases with ⟨-, -, hres⟩ | ⟨-, -, -, -, -, card, heq⟩
    · exact absurd accepts_none (hres _ _ rfl).1
    · have happ : reply.2.outcome = .applied := by rw [Except.ok.inj heq]
      rw [if_pos happ] at hcount
      exact LimitsHold.of_countApplied (d := d) (Nat.le_refl 64) rfl hcount
  | error e =>
    rw [applyRunCardUpdate_error hreply] at hstep
    obtain ⟨evs, db, hrun, hothers, hall⟩ := exists_others hx.1 rfl hstep
    obtain ⟨row, hrow, hv, -⟩ := (h.converges x hx hterm _ _ hrun hall).row
    -- the others never bring its version
    obtain ⟨held, ht⟩ := hothers.tracks
    cases held with
    | none => exact absurd (hrow.symm.trans ht.shows.1) (by simp)
    | some y =>
      obtain ⟨row', hrow', hv', -⟩ := Holds.row ht.shows
      obtain rfl := Option.some.inj (hrow.symm.trans hrow')
      have hne := (Multiset.mem_filter.mp (ht.sound y rfl).1).2
      exact absurd (hv'.symm.trans hv) hne

/-- **The promise needs the condition**: a complete run that delivers another update first
ends with the text of the highest one's meta redacted. -/
theorem CardContract.convergent (h : CardContract env c ups) : Convergent env ups := by
  intro x hx hterm
  have hfit : x.version < 2 ^ 63 := by
    obtain ⟨ev, evs, db₁, db, -, -, -, hrun, hall⟩ := exists_complete env c ups hx.1
    obtain ⟨held, ht⟩ := hrun.tracks
    have hheld := ht.eq_of_cardIs hx.1 (h.converges x hx hterm _ _ hrun hall)
    have := (ht.sound x hheld).2.2
    simp only [fitsInteger, decide_eq_true_eq] at this
    exact this.2
  have hlimits := h.limitsHold hx hterm
  refine ⟨hfit, hlimits, ?_⟩
  by_cases honly : ∀ y ∈ ups.all, y.status ∈ runStatuses → y.version = x.version
  · exact .inl honly
  right
  simp only [not_forall] at honly
  obtain ⟨y, hy, hst, hne⟩ := honly
  obtain ⟨ev, evs, db₁, db, hstep, rfl, p, hrun, hall⟩ := exists_complete env c ups hy
  have hfit' : fitsInteger ev.update.version = true := by
    have hpos := ups.one_le _ hy
    have hle := hx.2 _ hy
    simp only [fitsInteger, decide_eq_true_eq]
    omega
  -- the run in which the update of the other version comes first
  have ht := hstep.first hlimits hst hfit'
  have hstart : Rewritten env c x db₁ (some ev.update) :=
    ⟨by simp, fun heq => absurd (congrArg Update.version (Option.some.inj heq)) hne⟩
  obtain ⟨held, ht', hend⟩ := Tracks.run (preserves_rewritten x) p ht hstart hrun.fresh
  have hcard := h.converges x hx hterm _ _ hrun hall
  obtain ⟨m, hm, htext⟩ := hend.2 (ht'.eq_of_cardIs hx.1 hcard)
  obtain ⟨record, hread, -, hmeta⟩ := hcard.card
  rw [getMessage, hm] at hread
  dsimp only at hread
  cases hd : decodeMeta m.metaText with
  | none =>
    rw [fromRow_of_decode_none hd] at hread
    cases hread
  | some fields =>
    rw [fromRow_of_decode hd] at hread
    obtain rfl := Option.some.inj (Except.ok.inj hread)
    rw [← htext, hd]
    exact congrArg some hmeta

/-- **When upserts converge.**  The senders of a run's updates have what they are promised
exactly if, for a terminal highest update, its version fits the column, the receipt limits hold,
and it is the only version with a status of a run or redacting the text of its meta is redacting its
values. -/
theorem cardContract_iff (env : Env) (c : RunCard) (ups : Updates) :
    CardContract env c ups ↔ Convergent env ups := by
  constructor
  · exact CardContract.convergent
  · intro h
    exact {
      monotone := fun _ _ _ _ hnext => hnext.version_le
      once := fun _ _ _ _ hnext _ he _ _ _ happ hv => hnext.once he happ hv
      inert := fun _ _ _ _ hnext _ _ hreply hout => hnext.eq_of_not_applied hreply hout
      sticky := fun _ _ _ _ hnext _ hrow hterm hnon => hnext.eq_of_terminal hrow hterm hnon
      converges := fun _ hx hterm _ _ hrun hall => h.cardIs hx hterm hrun hall }

/-! ### A card that depends on the order -/

/-- `[0-9A-Za-z_]`. -/
def isWordChar (ch : Char) : Bool := ch.isAlphanum || ch = '_'

/-- A match of `(?:AKIA|ASIA|AROA)[0-9A-Z]{16}\b` at the start of a text. -/
def awsKeyAt (l : List Char) : Bool :=
  [['A', 'K', 'I', 'A'], ['A', 'S', 'I', 'A'], ['A', 'R', 'O', 'A']].contains (l.take 4) &&
    ((l.drop 4).take 16).length = 16 &&
    ((l.drop 4).take 16).all (fun ch => ch.isDigit || ch.isUpper) &&
    !((l.drop 20).head?.any isWordChar)

/-- The pass of `redact_sensitive_content` over AWS access keys, from a position with `skip`
characters of a match left, after a word character or not. -/
def redactAwsKeysFrom (skip : ℕ) (afterWord : Bool) : List Char → List Char
  | [] => []
  | ch :: rest =>
    if skip ≠ 0 then redactAwsKeysFrom (skip - 1) true rest
    else if !afterWord && awsKeyAt (ch :: rest) then
      "[REDACTED_AWS_KEY]".toList ++ redactAwsKeysFrom 19 true rest
    else ch :: redactAwsKeysFrom 0 (isWordChar ch) rest

/-- The pass of `redact_sensitive_content` over AWS access keys, the only one that acts on
the texts below. -/
def redactAwsKeys (text : String) : String := String.ofList (redactAwsKeysFrom 0 false text.toList)

def sampleCard : RunCard :=
  ⟨"thread", "run", "msg-card-run", "role", "role", by decide,
    role_mem_messageAuthorKinds⟩

def startedUpdate : Update := ⟨1, "running", "started", [("error", .str "")]⟩

/-- The run fails, with a key at the start of a line of its error. -/
def failedUpdate : Update :=
  ⟨2, "failed", "failed", [("error", .str "rejected:\nAKIAABCDEFGHIJKLMNOP")]⟩

def sampleUpdates : Updates where
  all := {startedUpdate, failedUpdate}
  one_le := by simp [startedUpdate, failedUpdate]
  agree := by simp [startedUpdate, failedUpdate]

/-- **The card of a failed run depends on the order**: the key is redacted if the failure
arrives first and stays in the card if it arrives second, where the text of the meta has a
letter before the key. -/
theorem not_cardContract_sample :
    ¬ CardContract (.default redactAwsKeys) sampleCard sampleUpdates := by
  intro h
  have hhigh : sampleUpdates.Highest failedUpdate := by
    simp [Updates.Highest, sampleUpdates, startedUpdate, failedUpdate]
  rcases (h.convergent failedUpdate hhigh (by decide)).2.2 with honly | hdecode
  · have hin : startedUpdate ∈ sampleUpdates.all := by simp [sampleUpdates]
    exact absurd (honly _ hin (by decide)) (by decide)
  · have htext := congrArg (Option.map fun fields => (Json.obj fields).dumps) hdecode
    exact absurd htext (by decide +kernel)

end Barb
