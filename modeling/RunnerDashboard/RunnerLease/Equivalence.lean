import RunnerDashboard.RunnerLease.Sqlite

/-!
# The two lease stores

The same calls at the same times on the YAML file and on the SQLite table.  The file drops
what has expired whenever it is written, the table when a transaction commits; apart from
what has expired they hold the same leases, and refuse the same calls.

What `yaml.safe_load` reads of a text that `yaml.dump` wrote is a parameter; of a dictionary
it reads the same fields, not always in the same order.

## Main results

* `stores_agree` — the stores answer alike and agree after every call.
-/

namespace RunnerLease

open Sql Lts

/-! ### Equal records -/

/-- Equal dictionaries: the order of the keys plays no part, at any depth. -/
def SameDict (d d' : List (String × Json)) : Prop :=
  ∀ k, (d.lookup k).map Json.sortKeys = (d'.lookup k).map Json.sortKeys

/-- No key occurs twice. -/
def IsDict (d : List (String × Json)) : Prop := (d.map Prod.fst).Nodup

/-- The records agree but for the fencing token. -/
structure LeaseRecord.Same (r r' : LeaseRecord) : Prop where
  runner : r.runnerId = r'.runnerId
  principal : r.principalId = r'.principalId
  acquired : r.acquiredAt = r'.acquiredAt
  expires : r.expiresAt = r'.expiresAt
  task : r.taskId = r'.taskId
  metadata : SameDict r.metadata r'.metadata

section Dicts

variable {d d' : List (String × Json)} {r r' r'' : LeaseRecord}

theorem SameDict.refl (d : List (String × Json)) : SameDict d d := fun _ => rfl

theorem SameDict.trans {d'' : List (String × Json)} (h : SameDict d d') (h' : SameDict d' d'') :
    SameDict d d'' := fun k => (h k).trans (h' k)

theorem LeaseRecord.Same.trans (h : r.Same r') (h' : r'.Same r'') : r.Same r'' where
  runner := h.runner.trans h'.runner
  principal := h.principal.trans h'.principal
  acquired := h.acquired.trans h'.acquired
  expires := h.expires.trans h'.expires
  task := h.task.trans h'.task
  metadata := h.metadata.trans h'.metadata

theorem LeaseRecord.Same.unexpired (h : r.Same r') (now : Int) :
    r.unexpired now = r'.unexpired now := by
  rw [LeaseRecord.unexpired, LeaseRecord.unexpired, h.expires]

private theorem lookup_cons (k' k : String) (v : Json) (d : List (String × Json)) :
    ((k, v) :: d).lookup k' = if k' = k then some v else d.lookup k' := by
  rw [List.lookup_cons]
  by_cases h : k' = k
  · subst h
    simp
  · rw [if_neg h, beq_false_of_ne h]

/-- The values of a dictionary in which the value of a key is replaced. -/
private theorem lookup_replace (d : List (String × Json)) (k : String) (v : Json) (k' : String) :
    (d.map fun kv => if kv.1 = k then (k, v) else kv).lookup k' =
      if k' = k then (d.lookup k).map fun _ => v else d.lookup k' := by
  induction d with
  | nil => simp
  | cons x d ih =>
    obtain ⟨k₀, v₀⟩ := x
    rw [List.map_cons]
    by_cases hk₀ : k₀ = k
    · subst hk₀
      rw [if_pos rfl, lookup_cons, ih, lookup_cons, lookup_cons]
      by_cases hk' : k' = k₀
      · simp [hk']
      · simp [hk']
    · rw [if_neg hk₀, lookup_cons, ih, lookup_cons, lookup_cons, if_neg (Ne.symm hk₀)]
      by_cases hk' : k' = k
      · rw [if_pos hk', if_pos hk', if_neg (by rw [hk']; exact Ne.symm hk₀)]
      · rw [if_neg hk', if_neg hk']

theorem lookup_setItem (d : List (String × Json)) (k : String) (v : Json) (k' : String) :
    (setItem d k v).lookup k' = if k' = k then some v else d.lookup k' := by
  unfold setItem
  split
  · next hmem =>
    rw [lookup_replace]
    split
    · obtain ⟨⟨k₀, v₀⟩, hx, rfl⟩ := List.mem_map.mp hmem
      cases hfound : d.lookup k₀ with
      | none =>
        have := List.lookup_eq_none_iff.mp hfound _ hx
        exact absurd this (by simp)
      | some v₁ => rfl
    · rfl
  · next hmem =>
    rw [List.lookup_append, lookup_cons]
    split
    · next hk =>
      subst hk
      have hnone : d.lookup k' = none := by
        refine List.lookup_eq_none_iff.mpr fun x hx => ?_
        rw [bne_iff_ne]
        rintro rfl
        exact hmem (List.mem_map.mpr ⟨x, hx, rfl⟩)
      rw [hnone]
      rfl
    · simp

theorem SameDict.setItem (h : SameDict d d') (k : String) (v : Json) :
    SameDict (setItem d k v) (setItem d' k v) := by
  intro k'
  rw [lookup_setItem, lookup_setItem]
  split
  · rfl
  · exact h k'

theorem SameDict.merge (h : SameDict d d') (new : List (String × Json)) :
    SameDict (mergeMetadata d new) (mergeMetadata d' new) := by
  unfold mergeMetadata
  induction new generalizing d d' with
  | nil => exact h
  | cons x new ih => exact ih (h.setItem x.1 x.2)

theorem IsDict.setItem (h : IsDict d) (k : String) (v : Json) : IsDict (setItem d k v) := by
  unfold RunnerLease.setItem IsDict
  split
  · have hkeys : (d.map fun kv => if kv.1 = k then (k, v) else kv).map Prod.fst =
        d.map Prod.fst := by
      rw [List.map_map]
      refine List.map_congr_left fun kv _ => ?_
      rw [Function.comp_apply]
      split
      · next hk => exact hk.symm
      · rfl
    rw [hkeys]
    exact h
  · next hnew =>
    rw [List.map_append, List.nodup_append]
    refine ⟨h, by simp, ?_⟩
    rintro x hx y hy rfl
    rw [List.map_cons, List.map_nil, List.mem_singleton] at hy
    have hk : x = k := hy
    exact hnew (hk ▸ hx)

theorem IsDict.merge (h : IsDict d) (new : List (String × Json)) :
    IsDict (mergeMetadata d new) := by
  unfold mergeMetadata
  induction new generalizing d with
  | nil => exact h
  | cons x new ih => exact ih (h.setItem x.1 x.2)

end Dicts

/-! ### Lookups in the file -/

def find (records : List LeaseRecord) (runnerId : String) : Option LeaseRecord :=
  records.find? fun r => r.runnerId = runnerId

section Find

variable {records l₁ l₂ : List LeaseRecord} {k : String} {r lease : LeaseRecord}
  {a : AcquireArgs} {now : Int}

theorem find_some (h : find records k = some r) : r ∈ records ∧ r.runnerId = k :=
  ⟨List.mem_of_find?_eq_some h, by simpa using List.find?_some h⟩

theorem find_none_iff : find records k = none ↔ ∀ r ∈ records, r.runnerId ≠ k := by
  simp [find]

theorem find_of_mem (hn : (records.map LeaseRecord.runnerId).Nodup) (hr : r ∈ records) :
    find records r.runnerId = some r := by
  cases hfound : find records r.runnerId with
  | none => exact absurd rfl (find_none_iff.mp hfound r hr)
  | some r' =>
    obtain ⟨hr', heq⟩ := find_some hfound
    rw [List.inj_on_of_nodup_map hn hr' hr heq]

theorem find_append : find (l₁ ++ l₂) k = (find l₁ k).or (find l₂ k) := List.find?_append ..

theorem find_cons : find (r :: l₂) k = if r.runnerId = k then some r else find l₂ k := by
  unfold find
  rw [List.find?_cons]
  by_cases h : r.runnerId = k
  · simp [h]
  · simp [h]

theorem find_filter (hn : (records.map LeaseRecord.runnerId).Nodup) (q : LeaseRecord → Bool)
    (k : String) : find (records.filter q) k = (find records k).filter q := by
  have hn' : ((records.filter q).map LeaseRecord.runnerId).Nodup :=
    hn.sublist (List.filter_sublist.map _)
  cases hfound : find records k with
  | none =>
    refine find_none_iff.mpr fun r hr => ?_
    exact find_none_iff.mp hfound r (List.mem_filter.mp hr).1
  | some r =>
    obtain ⟨hr, rfl⟩ := find_some hfound
    by_cases hq : q r = true
    · rw [Option.filter_some, if_pos hq]
      exact find_of_mem hn' (List.mem_filter.mpr ⟨hr, hq⟩)
    · rw [Option.filter_some, if_neg hq]
      refine find_none_iff.mpr fun r' hr' heq => ?_
      obtain ⟨hr', hq'⟩ := List.mem_filter.mp hr'
      rw [List.inj_on_of_nodup_map hn hr' hr heq] at hq'
      exact hq hq'

theorem acquireLoop_of_find (h : find records a.runnerId = some lease) :
    (lease.principalId ≠ a.principalId ∧ acquireLoop a now records = some (.error (.value
      ("Runner " ++ a.runnerId ++ " is already leased by " ++ lease.principalId)))) ∨
    (lease.principalId = a.principalId ∧ ∃ l₁ l₂, records = l₁ ++ lease :: l₂ ∧
      find l₁ a.runnerId = none ∧
      acquireLoop a now records = some (.ok (a.updated now lease,
        l₁ ++ a.updated now lease :: l₂))) := by
  obtain ⟨hlease, l₁, l₂, rfl, hbefore⟩ := List.find?_eq_some_iff_append.mp h
  have hrunner : lease.runnerId = a.runnerId := by simpa using hlease
  have hno : ∀ r ∈ l₁, r.runnerId ≠ a.runnerId := by simpa using hbefore
  clear h hbefore
  have hloop : acquireLoop a now (l₁ ++ lease :: l₂) =
      some (if lease.principalId = a.principalId then
        .ok (a.updated now lease, l₁ ++ a.updated now lease :: l₂)
      else .error (.value
        ("Runner " ++ a.runnerId ++ " is already leased by " ++ lease.principalId))) := by
    induction l₁ with
    | nil =>
      rw [List.nil_append, acquireLoop, if_pos hrunner]
      split
      · rfl
      · rfl
    | cons r l₁ ih =>
      rw [List.cons_append, acquireLoop, if_neg (hno r (by simp)),
        ih fun r' hr' => hno r' (by simp [hr'])]
      split
      · rfl
      · rfl
  rw [hloop]
  by_cases hp : lease.principalId = a.principalId
  · exact .inr ⟨hp, l₁, l₂, rfl, find_none_iff.mpr hno, by rw [if_pos hp]⟩
  · exact .inl ⟨hp, by rw [if_neg hp]⟩

theorem acquireLoop_of_find_none (h : find records a.runnerId = none) :
    acquireLoop a now records = none := by
  have hno := find_none_iff.mp h
  clear h
  induction records with
  | nil => rfl
  | cons r records ih =>
    rw [acquireLoop, if_neg (hno r (by simp)), ih fun r' hr' => hno r' (by simp [hr'])]
    rfl

end Find

/-! ### Agreement -/

def recordOf (rows : Sqlite.Rows) (k : String) : Option LeaseRecord :=
  (rows.get? k).map fun row => row.record k

/-- **The stores hold the same unexpired leases.** -/
structure Agree (now : Int) (file : List LeaseRecord) (rows : Sqlite.Rows) : Prop where
  nodup : (file.map LeaseRecord.runnerId).Nodup
  dicts : ∀ r ∈ file, IsDict r.metadata
  same : ∀ k, Option.Rel LeaseRecord.Same ((find file k).filter fun r => r.unexpired now)
    ((recordOf rows k).filter fun r => r.unexpired now)

section Agree

variable {now now' : Int} {file new : List LeaseRecord} {rows rows' : Sqlite.Rows}
  {a : AcquireArgs} {o o' : Option LeaseRecord} {k : String}

private theorem rel_filter {q : LeaseRecord → Bool} (h : Option.Rel LeaseRecord.Same o o')
    (hq : ∀ r r', r.Same r' → q r = q r') :
    Option.Rel LeaseRecord.Same (o.filter q) (o'.filter q) := by
  cases h with
  | none => exact .none
  | @some r r' hr =>
    rw [Option.filter_some, Option.filter_some, hq r r' hr]
    split
    · exact .some hr
    · exact .none

private theorem filter_later (o : Option LeaseRecord) (hle : now ≤ now') :
    (o.filter fun r => r.unexpired now).filter (fun r => r.unexpired now') =
      o.filter fun r => r.unexpired now' := by
  cases o with
  | none => rfl
  | some r =>
    rw [Option.filter_some, Option.filter_some]
    split
    · rw [Option.filter_some]
    · next hnot =>
      have hnot' : r.unexpired now' = false := by
        by_contra h
        exact hnot (LeaseRecord.unexpired_mono (by simpa using h) hle)
      rw [hnot']
      rfl

theorem Agree.later (h : Agree now file rows) (hle : now ≤ now') : Agree now' file rows where
  nodup := h.nodup
  dicts := h.dicts
  same k := by
    have := rel_filter (q := fun r => r.unexpired now') (h.same k)
      fun r r' hs => hs.unexpired now'
    rwa [filter_later _ hle, filter_later _ hle] at this

theorem recordOf_deleteExpired (now : Int) (rows : Sqlite.Rows) (k : String) :
    recordOf (Sqlite.deleteExpired now rows) k =
      (recordOf rows k).filter fun r => r.unexpired now := by
  unfold recordOf
  rw [Sqlite.get?_deleteExpired]
  cases rows.get? k with
  | none => rfl
  | some row =>
    rw [Option.filter_some, Option.map_some, Option.filter_some, Sqlite.Row.unexpired_record]
    split
    · rfl
    · rfl

/-- After the sweeps the stores hold the same leases. -/
theorem Agree.swept (h : Agree now file rows) (k : String) :
    Option.Rel LeaseRecord.Same (find (pruneExpired now file) k)
      (recordOf (Sqlite.deleteExpired now rows) k) := by
  rw [recordOf_deleteExpired, pruneExpired, find_filter h.nodup]
  exact h.same k

theorem countP_eq (hn : (file.map LeaseRecord.runnerId).Nodup)
    (hsame : ∀ k, Option.Rel LeaseRecord.Same (find file k) (recordOf rows k)) (p : String) :
    file.countP (·.principalId = p) = rows.count fun _ row => row.principalId = p := by
  have hn₁ : ((file.filter fun r => r.principalId = p).map LeaseRecord.runnerId).Nodup :=
    hn.sublist (List.filter_sublist.map _)
  have hn₂ : ((rows.rows.filter fun x => x.2.principalId = p).map Prod.fst).Nodup :=
    rows.nodupKeys.sublist (List.filter_sublist.map _)
  have hmem : ∀ k, k ∈ (file.filter fun r => r.principalId = p).map LeaseRecord.runnerId ↔
      k ∈ (rows.rows.filter fun x => x.2.principalId = p).map Prod.fst := by
    intro k
    have hrel := hsame k
    unfold recordOf at hrel
    constructor
    · intro hk
      obtain ⟨r, hr, rfl⟩ := List.mem_map.mp hk
      obtain ⟨hr, hp⟩ := List.mem_filter.mp hr
      rw [find_of_mem hn hr] at hrel
      cases hrow : rows.get? r.runnerId with
      | none => rw [hrow] at hrel; cases hrel
      | some row =>
        rw [hrow] at hrel
        cases hrel with
        | some hs =>
          refine List.mem_map.mpr ⟨(r.runnerId, row), List.mem_filter.mpr
            ⟨Table.get?_eq_some_iff.mp hrow, ?_⟩, rfl⟩
          have hprincipal : r.principalId = row.principalId := hs.principal
          simpa [← hprincipal] using hp
    · intro hk
      obtain ⟨⟨k, row⟩, hx, rfl⟩ := List.mem_map.mp hk
      obtain ⟨hx, hp⟩ := List.mem_filter.mp hx
      rw [Table.get?_eq_some_iff.mpr hx] at hrel
      cases hfound : find file k with
      | none => rw [hfound] at hrel; cases hrel
      | some r =>
        rw [hfound] at hrel
        obtain ⟨hr, rfl⟩ := find_some hfound
        cases hrel with
        | some hs =>
          refine List.mem_map.mpr ⟨r, List.mem_filter.mpr ⟨hr, ?_⟩, rfl⟩
          have hprincipal : r.principalId = row.principalId := hs.principal
          simpa [hprincipal] using hp
  -- two lists of distinct keys with the same members are as long
  have hlen := ((List.perm_ext_iff_of_nodup hn₁ hn₂).mpr hmem).length_eq
  rwa [List.length_map, List.length_map, ← List.countP_eq_length_filter,
    ← List.countP_eq_length_filter] at hlen

/-- A new file and a new table whose leases are the same but for one runner agree. -/
private theorem Agree.replace {R : String} (h : Agree now file rows)
    (hnodup : (new.map LeaseRecord.runnerId).Nodup) (hdicts : ∀ r ∈ new, IsDict r.metadata)
    (hfile : ∀ k, k ≠ R → find new k = find (pruneExpired now file) k)
    (hrows : ∀ k, k ≠ R → recordOf rows' k = recordOf (Sqlite.deleteExpired now rows) k)
    (hR : Option.Rel LeaseRecord.Same (find new R) (recordOf rows' R)) :
    Agree now new rows' := by
  refine ⟨hnodup, hdicts, fun k => rel_filter ?_ fun r r' hs => hs.unexpired now⟩
  by_cases hk : k = R
  · rw [hk]
    exact hR
  · rw [hfile k hk, hrows k hk]
    exact h.swept k

private theorem nodup_pruneExpired (h : Agree now file rows) :
    ((pruneExpired now file).map LeaseRecord.runnerId).Nodup :=
  h.nodup.sublist (List.filter_sublist.map _)

/-- What a call leads to on both stores: they refuse it alike, or grant the same lease. -/
inductive BothAcquire (now : Int) (file : List LeaseRecord) (rows : Sqlite.Rows) :
    Except LeaseError (LeaseRecord × List LeaseRecord) → Except LeaseError LeaseRecord →
      Sqlite.Rows → Prop
  | refused (e : LeaseError) : BothAcquire now file rows (.error e) (.error e) rows
  | granted {r r' : LeaseRecord} {new : List LeaseRecord} {rows' : Sqlite.Rows}
      (same : r.Same r') (agree : Agree now new rows') :
      BothAcquire now file rows (.ok (r, new)) (.ok r') rows'

private theorem same_renew {lease : LeaseRecord} {row : Sqlite.Row} {R : String}
    (hs : lease.Same (row.record R)) (hR : R = a.runnerId)
    (hp : lease.principalId = a.principalId) :
    (a.updated now lease).Same ((Sqlite.renewRow a now row).record R) where
  runner := hR.symm
  principal := hp.symm.trans hs.principal
  acquired := hs.acquired
  expires := rfl
  task := by
    have : lease.taskId = row.taskId := hs.task
    show orTask a.taskId lease.taskId = orTask a.taskId row.taskId
    rw [this]
  metadata := by
    show SameDict (mergeMetadata lease.metadata a.metadata)
      (Sqlite.MetadataText.ofFields _).fields
    rw [Sqlite.MetadataText.fields_ofFields]
    exact SameDict.merge hs.metadata a.metadata

private theorem same_new (a : AcquireArgs) (now : Int) :
    (a.record now).Same ((Sqlite.newRow a now).record a.runnerId) where
  runner := rfl
  principal := rfl
  acquired := rfl
  expires := rfl
  task := rfl
  metadata := by
    show SameDict a.metadata (Sqlite.MetadataText.ofFields a.metadata).fields
    rw [Sqlite.MetadataText.fields_ofFields]
    exact .refl _

/-- **An acquisition keeps the stores in agreement.** -/
theorem Agree.acquire (h : Agree now file rows) (ha : IsDict a.metadata) :
    BothAcquire now file rows (acquireMutate a now (pruneExpired now file))
      (Sqlite.acquire a now rows).1 (Sqlite.acquire a now rows).2 := by
  have hn := nodup_pruneExpired h
  have hdicts : ∀ r ∈ pruneExpired now file, IsDict r.metadata := fun r hr =>
    h.dicts r (List.mem_filter.mp hr).1
  have hrel := h.swept a.runnerId
  have hcount := countP_eq hn h.swept a.principalId
  have hcases := Sqlite.acquire_cases a now rows
  generalize (Sqlite.acquire a now rows).1 = x at hcases ⊢
  generalize (Sqlite.acquire a now rows).2 = rows' at hcases ⊢
  unfold acquireMutate
  -- the table decides, and the file has the same lease of the runner
  cases hcases with
  | @leased row found other =>
    rw [recordOf, found, Option.map_some] at hrel
    generalize hfound : find (pruneExpired now file) a.runnerId = o at hrel
    cases hrel with
    | @some lease _ hs =>
      have hp : lease.principalId = row.principalId := hs.principal
      rcases @acquireLoop_of_find _ _ _ now hfound with ⟨-, hloop⟩ | ⟨hown, -⟩
      · rw [hloop, hp]
        exact .refused _
      · exact absurd (hp.symm.trans hown) other
  | full free reached =>
    rw [recordOf, free, Option.map_none] at hrel
    generalize hfound : find (pruneExpired now file) a.runnerId = o at hrel
    cases hrel with
    | none =>
      rw [acquireLoop_of_find_none hfound]
      dsimp only
      rw [if_pos (by rw [hcount]; exact reached)]
      exact .refused _
  | @renewed row found own =>
    rw [recordOf, found, Option.map_some] at hrel
    generalize hfound : find (pruneExpired now file) a.runnerId = o at hrel
    cases hrel with
    | @some lease _ hs =>
      have hp : lease.principalId = row.principalId := hs.principal
      rcases @acquireLoop_of_find _ _ _ now hfound with ⟨hother, -⟩ |
        ⟨hown, l₁, l₂, hlist, hbefore, hloop⟩
      · exact absurd (hp.trans own) hother
      · -- the lease is renewed in its place
        obtain ⟨hlease, hrunner⟩ := find_some hfound
        have hsame := @same_renew now _ _ _ _ hs rfl hown
        rw [hloop]
        refine .granted hsame (h.replace (R := a.runnerId) ?_ ?_ ?_ ?_ ?_)
        · rw [hlist, List.map_append, List.map_cons, hrunner] at hn
          rwa [List.map_append, List.map_cons]
        · intro r hr
          rcases List.mem_append.mp hr with hr | hr
          · exact hdicts r (by rw [hlist]; simp [hr])
          · rcases List.mem_cons.mp hr with rfl | hr
            · exact (hdicts lease hlease).merge _
            · exact hdicts r (by rw [hlist]; simp [hr])
        · intro k hk
          have hupdated : (a.updated now lease).runnerId ≠ k := Ne.symm hk
          have hne : lease.runnerId ≠ k := by
            rw [hrunner]
            exact Ne.symm hk
          rw [hlist, find_append, find_append, find_cons, find_cons, if_neg hupdated, if_neg hne]
        · intro k hk
          rw [recordOf, recordOf, Table.get?_put_of_ne _ hk]
        · have hupdated : (a.updated now lease).runnerId = a.runnerId := rfl
          rw [find_append, hbefore, find_cons, if_pos hupdated, recordOf, Table.get?_put_self]
          exact .some hsame
  | inserted free room =>
    rw [recordOf, free, Option.map_none] at hrel
    generalize hfound : find (pruneExpired now file) a.runnerId = o at hrel
    cases hrel with
    | none =>
      rw [acquireLoop_of_find_none hfound]
      dsimp only
      rw [if_neg (by rw [hcount]; exact not_le.mpr room)]
      refine .granted (same_new a now) (h.replace (R := a.runnerId) ?_ ?_ ?_ ?_ ?_)
      · rw [List.map_append, List.nodup_append]
        refine ⟨hn, by simp, ?_⟩
        rintro x hx y hy rfl
        obtain ⟨r, hr, hrx⟩ := List.mem_map.mp hx
        have hy' : x = a.runnerId := by simpa [AcquireArgs.record] using hy
        exact find_none_iff.mp hfound r hr (hrx.trans hy')
      · intro r hr
        rcases List.mem_append.mp hr with hr | hr
        · exact hdicts r hr
        · rw [List.mem_singleton.mp hr]
          exact ha
      · intro k hk
        have hne : (a.record now).runnerId ≠ k := Ne.symm hk
        rw [find_append, find_cons, if_neg hne]
        exact Option.or_none
      · intro k hk
        rw [recordOf, recordOf, Table.get?_insertNew, if_neg hk]
      · have hrecord : (a.record now).runnerId = a.runnerId := rfl
        rw [find_append, hfound, find_cons, if_pos hrecord, recordOf, Table.get?_insertNew,
          if_pos rfl, free]
        exact .some (same_new a now)

private theorem releases_iff {runnerId : String} {p : Option String} (hp : p ≠ some "")
    (r : LeaseRecord) : releases runnerId p r = true ↔
      r.runnerId = runnerId ∧ ∀ q, p = some q → q = r.principalId := by
  unfold releases
  split
  · simp
  · exact absurd rfl hp
  · next q _ =>
    rw [decide_eq_true_eq]
    constructor
    · rintro ⟨hr, rfl⟩
      exact ⟨hr, fun q' hq' => (Option.some.inj hq').symm⟩
    · rintro ⟨hr, hq⟩
      exact ⟨hr, (hq q rfl).symm⟩

/-- What a release without a fencing token drops from the table. -/
private theorem recordOf_release {runnerId : String} {p : Option String} (hp : p ≠ some "")
    (k : String) : recordOf (Sqlite.release runnerId p none rows).2 k =
      (recordOf rows k).filter fun r => !releases runnerId p r := by
  have hcases := Sqlite.release_cases runnerId p none rows
  generalize (Sqlite.release runnerId p none rows).2 = rows' at hcases ⊢
  generalize (Sqlite.release runnerId p none rows).1 = x at hcases
  -- a release that deletes nothing names none of the rows
  have hkeep : (∀ row, rows.get? runnerId = some row →
      ¬ ∀ q, p = some q → q = row.principalId) →
      recordOf rows k = (recordOf rows k).filter fun r => !releases runnerId p r := by
    intro hno
    unfold recordOf
    cases hrow : rows.get? k with
    | none => rfl
    | some row =>
      have hnot : ¬ releases runnerId p (row.record k) = true := by
        rw [releases_iff hp]
        rintro ⟨hk, hown⟩
        have hk' : k = runnerId := hk
        exact hno row (hk' ▸ hrow) hown
      rw [Option.map_some, Option.filter_some, if_pos (by simpa using hnot)]
  cases hcases with
  | missing free => exact hkeep fun row hrow => by rw [free] at hrow; cases hrow
  | stale _ given => cases given
  | @other row q found given other =>
    refine hkeep fun row' hrow' hown => ?_
    obtain rfl := Option.some.inj (found.symm.trans hrow')
    exact other (hown q given)
  | @deleted row found _ own =>
    unfold recordOf
    rw [Table.get?_delete]
    cases hrow : rows.get? k with
    | none => rfl
    | some row' =>
      rw [Option.filter_some, Option.map_some, Option.filter_some]
      by_cases hk : k = runnerId
      · subst hk
        obtain rfl := Option.some.inj (found.symm.trans hrow)
        have hyes : releases k p (row.record k) = true := (releases_iff hp _).mpr ⟨rfl, own⟩
        simp [hyes]
      · have hnot : ¬ releases runnerId p (row'.record k) = true := by
          rw [releases_iff hp]
          exact fun h => hk h.1
        simp [hk, hnot]

/-- **A release keeps the stores in agreement**; an empty principal id is none to the file,
and a principal to the table. -/
theorem Agree.release (h : Agree now file rows) (runnerId : String) {p : Option String}
    (hp : p ≠ some "") :
    Agree now (releaseMutate runnerId p (pruneExpired now file))
      (Sqlite.release runnerId p none rows).2 := by
  have hn := nodup_pruneExpired h
  have hsub : (releaseMutate runnerId p (pruneExpired now file)).Sublist
      (pruneExpired now file) := List.filter_sublist
  refine ⟨hn.sublist (hsub.map _), fun r hr =>
    h.dicts r (List.mem_filter.mp (hsub.subset hr)).1, fun k => ?_⟩
  have hrel := rel_filter (q := fun r => !releases runnerId p r) (h.swept k) fun r r' hs => by
    rw [Bool.eq_iff_iff]
    simp only [Bool.not_eq_true', Bool.eq_false_iff, ne_eq, releases_iff hp]
    rw [hs.runner, hs.principal]
  have hrel' := rel_filter (q := fun r => r.unexpired now) hrel fun r r' hs => hs.unexpired now
  rw [recordOf_deleteExpired] at hrel'
  rw [recordOf_release hp, releaseMutate, find_filter hn]
  -- the order of the filters plays no part
  have hswap : ((recordOf rows k).filter fun r => !releases runnerId p r).filter
      (fun r => r.unexpired now) = (((recordOf rows k).filter fun r => r.unexpired now).filter
        fun r => !releases runnerId p r).filter fun r => r.unexpired now := by
    cases recordOf rows k with
    | none => rfl
    | some r =>
      cases hu : r.unexpired now with
      | true => simp [Option.filter, hu]
      | false =>
        cases hq : releases runnerId p r with
        | true => simp [Option.filter, hu, hq]
        | false => simp [Option.filter, hu, hq]
  rw [hswap]
  exact hrel'

/-- **A sweep keeps the stores in agreement.** -/
theorem Agree.prune (h : Agree now file rows) :
    Agree now (pruneExpired now file) (Sqlite.deleteExpired now rows) where
  nodup := nodup_pruneExpired h
  dicts r hr := h.dicts r (List.mem_filter.mp hr).1
  same k := rel_filter (h.swept k) fun _ _ hs => hs.unexpired now

end Agree

/-! ### Runs -/

/-- What is read of a file that was written has the same records, in dictionaries. -/
def Faithful (reload : List LeaseRecord → List LeaseRecord) : Prop :=
  ∀ rs, (∀ r ∈ rs, IsDict r.metadata) →
    List.Forall₂ (fun r' r => r'.Same r ∧ IsDict r'.metadata) (reload rs) rs

/-- A call on the file: its records as they are read, `reload` after they are written. -/
def yamlCall (reload : List LeaseRecord → List LeaseRecord) (c : Call) (now : Int)
    (file : List LeaseRecord) : Except LeaseError Result × List LeaseRecord :=
  match readModify c now now file with
  | .ok (r, new) => (.ok r, reload new)
  | .error e => (.error e, file)

/-- What a call on the table returns or raises. -/
inductive SqliteReply
  | acquired (r : Except LeaseError LeaseRecord)
  | released (r : Except Sqlite.StaleFencingToken Bool)
  | pruned (removed : ℕ)

/-- A call on the table, without a fencing token. -/
def sqliteCall (c : Call) (now : Int) (rows : Sqlite.Rows) : SqliteReply × Sqlite.Rows :=
  match c with
  | .acquire a => (.acquired (Sqlite.acquire a now rows).1, (Sqlite.acquire a now rows).2)
  | .release runnerId p =>
    (.released (Sqlite.release runnerId p none rows).1, (Sqlite.release runnerId p none rows).2)
  | .prune => (.pruned (Sqlite.pruneExpired now rows).1, (Sqlite.pruneExpired now rows).2)

/-- The stores grant the same lease or refuse alike; what the other calls return is no
matter. -/
inductive Alike : Except LeaseError Result → SqliteReply → Prop
  | granted {r r' : LeaseRecord} (same : r.Same r') :
      Alike (.ok (.acquired r)) (.acquired (.ok r'))
  | refused (e : LeaseError) : Alike (.error e) (.acquired (.error e))
  | released (dropped : Bool) (r : Except Sqlite.StaleFencingToken Bool) :
      Alike (.ok (.released dropped)) (.released r)
  | pruned (n m : ℕ) : Alike (.ok (.pruned n)) (.pruned m)

/-- A call whose metadata is a dictionary and whose principal id is not empty. -/
def Call.Plain : Call → Prop
  | .acquire a => IsDict a.metadata
  | .release _ p => p ≠ some ""
  | .prune => True

/-- A call on both stores, and the answers. -/
structure BothEvent where
  call : Call
  now : Int
  yaml : Except LeaseError Result
  sqlite : SqliteReply

/-- Both stores, and the time of the last call. -/
structure Stores where
  file : List LeaseRecord
  rows : Sqlite.Rows
  clock : Int

def Stores.new (clock : Int) : Stores := ⟨[], .empty, clock⟩

structure BothStep (reload : List LeaseRecord → List LeaseRecord) (s : Stores) (ev : BothEvent)
    (t : Stores) : Prop where
  clock_le : s.clock ≤ ev.now
  plain : ev.call.Plain
  yaml : yamlCall reload ev.call ev.now s.file = (ev.yaml, t.file)
  sqlite : sqliteCall ev.call ev.now s.rows = (ev.sqlite, t.rows)
  clock_eq : t.clock = ev.now

def SameLeases (now : Int) (file records : List LeaseRecord) : Prop :=
  (∀ r ∈ file, r.unexpired now = true →
    ∃ r' ∈ records, r'.unexpired now = true ∧ r.Same r') ∧
  ∀ r' ∈ records, r'.unexpired now = true → ∃ r ∈ file, r.unexpired now = true ∧ r.Same r'

section Runs

variable {reload : List LeaseRecord → List LeaseRecord} {s t : Stores} {ev : BothEvent}
  {evs : List BothEvent} {now : Int} {file new : List LeaseRecord} {rows : Sqlite.Rows}

section Reloaded

variable {new' : List LeaseRecord}

theorem runners_reloaded
    (h : List.Forall₂ (fun r' r => r'.Same r ∧ IsDict r'.metadata) new' new) :
    new'.map LeaseRecord.runnerId = new.map LeaseRecord.runnerId := by
  induction h with
  | nil => rfl
  | cons hr _ ih => rw [List.map_cons, List.map_cons, hr.1.runner, ih]

theorem find_reloaded (h : List.Forall₂ (fun r' r => r'.Same r ∧ IsDict r'.metadata) new' new)
    (k : String) : Option.Rel LeaseRecord.Same (find new' k) (find new k) := by
  induction h with
  | nil => exact .none
  | @cons r' r _ _ hr _ ih =>
    rw [find_cons, find_cons, hr.1.runner]
    split
    · exact .some hr.1
    · exact ih

theorem dicts_reloaded (h : List.Forall₂ (fun r' r => r'.Same r ∧ IsDict r'.metadata) new' new) :
    ∀ r' ∈ new', IsDict r'.metadata := by
  induction h with
  | nil => simp
  | cons hr _ ih =>
    intro r' hr'
    rcases List.mem_cons.mp hr' with rfl | hr'
    · exact hr.2
    · exact ih r' hr'

end Reloaded

/-- A file that is read again agrees as the one that was written. -/
theorem Agree.reloaded (h : Agree now new rows) (hreload : Faithful reload) :
    Agree now (reload new) rows := by
  have hall := hreload new h.dicts
  refine ⟨runners_reloaded hall ▸ h.nodup, dicts_reloaded hall, fun k => ?_⟩
  have hrel := rel_filter (q := fun r => r.unexpired now) (find_reloaded hall k) fun _ _ hs =>
    hs.unexpired now
  have hsame := h.same k
  generalize (find (reload new) k).filter (fun r => r.unexpired now) = o at hrel ⊢
  generalize (find new k).filter (fun r => r.unexpired now) = o' at hrel hsame
  generalize (recordOf rows k).filter (fun r => r.unexpired now) = o'' at hsame ⊢
  cases hrel with
  | none => exact hsame
  | some hr =>
    cases hsame with
    | some hs => exact .some (hr.trans hs)

theorem Agree.sameLeases (h : Agree now file rows) :
    SameLeases now file (Sqlite.records rows) := by
  constructor
  · intro r hr hlive
    have hrel := h.same r.runnerId
    rw [find_of_mem h.nodup hr, Option.filter_some, if_pos hlive] at hrel
    generalize hswept : (recordOf rows r.runnerId).filter (fun r => r.unexpired now) = o at hrel
    cases hrel with
    | @some _ r' hs =>
      obtain ⟨hrecord, hlive'⟩ := Option.filter_eq_some_iff.mp hswept
      obtain ⟨row, hrow, hr'⟩ := Option.map_eq_some_iff.mp hrecord
      exact ⟨r', List.mem_map.mpr ⟨_, Table.get?_eq_some_iff.mp hrow, hr'⟩, hlive', hs⟩
  · intro r' hr' hlive
    obtain ⟨⟨k, row⟩, hmem, rfl⟩ := List.mem_map.mp hr'
    have hrel := h.same k
    rw [recordOf, Table.get?_eq_some_iff.mpr hmem, Option.map_some, Option.filter_some,
      if_pos hlive] at hrel
    generalize hfound : (find file k).filter (fun r => r.unexpired now) = o at hrel
    cases hrel with
    | @some r _ hs =>
      obtain ⟨hfound, hlive'⟩ := Option.filter_eq_some_iff.mp hfound
      exact ⟨r, (find_some hfound).1, hlive', hs⟩

/-- **A call is answered alike and keeps the stores in agreement.** -/
theorem Agree.step (hreload : Faithful reload) (h : Agree s.clock s.file s.rows)
    (hs : BothStep reload s ev t) :
    Alike ev.yaml ev.sqlite ∧ Agree t.clock t.file t.rows := by
  have hnow := h.later hs.clock_le
  rw [hs.clock_eq]
  have hyaml := hs.yaml
  have hsqlite := hs.sqlite
  have hplain := hs.plain
  unfold yamlCall at hyaml
  cases hc : ev.call with
  | acquire a =>
    rw [hc] at hyaml hsqlite hplain
    have hboth := hnow.acquire hplain
    obtain ⟨hanswer, hrows⟩ := Prod.ext_iff.mp hsqlite
    have hrows' : (Sqlite.acquire a ev.now s.rows).2 = t.rows := hrows
    have hanswer' : SqliteReply.acquired (Sqlite.acquire a ev.now s.rows).1 = ev.sqlite := hanswer
    rw [← hanswer', ← hrows']
    simp only [readModify] at hyaml
    generalize acquireMutate a ev.now (pruneExpired ev.now s.file) = y at hyaml hboth
    generalize (Sqlite.acquire a ev.now s.rows).1 = x at hboth
    generalize (Sqlite.acquire a ev.now s.rows).2 = rows' at hboth
    -- both refuse, or both grant and write
    cases hboth with
    | refused e =>
      obtain ⟨hy, hfile⟩ := Prod.ext_iff.mp hyaml
      have hy' : Except.error e = ev.yaml := hy
      have hfile' : s.file = t.file := hfile
      rw [← hy', ← hfile']
      exact ⟨.refused e, hnow⟩
    | granted same agree =>
      obtain ⟨hy, hfile⟩ := Prod.ext_iff.mp hyaml
      have hy' : Except.ok (Result.acquired _) = ev.yaml := hy
      have hfile' : reload _ = t.file := hfile
      rw [← hy', ← hfile']
      exact ⟨.granted same, agree.reloaded hreload⟩
  | release runnerId p =>
    rw [hc] at hyaml hsqlite hplain
    obtain ⟨hy, hfile⟩ := Prod.ext_iff.mp hyaml
    obtain ⟨hanswer, hrows⟩ := Prod.ext_iff.mp hsqlite
    have hy' : Except.ok (Result.released _) = ev.yaml := hy
    have hanswer' : SqliteReply.released _ = ev.sqlite := hanswer
    have hfile' : reload _ = t.file := hfile
    have hrows' : (Sqlite.release runnerId p none s.rows).2 = t.rows := hrows
    rw [← hy', ← hfile', ← hrows', ← hanswer']
    exact ⟨.released _ _, (hnow.release runnerId hplain).reloaded hreload⟩
  | prune =>
    rw [hc] at hyaml hsqlite
    obtain ⟨hy, hfile⟩ := Prod.ext_iff.mp hyaml
    obtain ⟨hanswer, hrows⟩ := Prod.ext_iff.mp hsqlite
    have hy' : Except.ok (Result.pruned _) = ev.yaml := hy
    have hanswer' : SqliteReply.pruned _ = ev.sqlite := hanswer
    have hfile' : reload _ = t.file := hfile
    have hrows' : Sqlite.deleteExpired ev.now s.rows = t.rows := hrows
    rw [← hy', ← hfile', ← hrows', ← hanswer']
    exact ⟨.pruned _ _, hnow.prune.reloaded hreload⟩

/-- **The SQLite store implements the leases of the YAML store**: in every sequence of calls
on both, at the same times, each acquisition is granted alike or refused with the same error,
and after the last call the stores have the same unexpired leases. -/
theorem stores_agree (hreload : Faithful reload) {clock : Int}
    (p : Path (BothStep reload) (.new clock) evs s) :
    (∀ ev ∈ evs, Alike ev.yaml ev.sqlite) ∧
      SameLeases s.clock s.file (Sqlite.records s.rows) := by
  have hnew : Agree clock [] .empty := ⟨List.nodup_nil, by simp, fun _ => .none⟩
  have hrun := p.history (I := fun evs s => (∀ ev ∈ evs, Alike ev.yaml ev.sqlite) ∧
      Agree s.clock s.file s.rows) (fun past s ev t hi hs => ?_) ⟨by simp, hnew⟩
  · exact ⟨hrun.1, hrun.2.sameLeases⟩
  · obtain ⟨halike, hagree⟩ := hi.2.step hreload hs
    refine ⟨fun ev' hev' => ?_, hagree⟩
    rcases List.mem_append.mp hev' with hev' | hev'
    · exact hi.1 ev' hev'
    · rwa [List.mem_singleton.mp hev']

def aliceAcquires : AcquireArgs where
  principalId := "alice"
  maxRunners := 1
  runnerId := "gpu-1"

/-- Alice acquires a runner on both stores. -/
theorem stores_agree_acquired :
    SameLeases 5 [aliceAcquires.record 5]
      (Sqlite.records (Sqlite.acquire aliceAcquires 5 .empty).2) := by
  have hreload : Faithful id := by
    intro rs hrs
    refine List.forall₂_same.mpr fun r hr => ⟨⟨rfl, rfl, rfl, rfl, rfl, .refl _⟩, hrs r hr⟩
  have hstep : BothStep id (.new 0)
      ⟨.acquire aliceAcquires, 5, .ok (.acquired (aliceAcquires.record 5)),
        .acquired (Sqlite.acquire aliceAcquires 5 .empty).1⟩
      ⟨[aliceAcquires.record 5], (Sqlite.acquire aliceAcquires 5 .empty).2, 5⟩ :=
    ⟨by decide, List.nodup_nil, rfl, rfl, rfl⟩
  exact (stores_agree hreload (.single hstep)).2

end Runs

end RunnerLease
