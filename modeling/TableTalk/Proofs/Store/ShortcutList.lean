import TableTalk.Proofs.Store.HelperTables
import TableTalk.Proofs.Store.Ordering
import TableTalk.Proofs.Text.Bytes

/-!
# The list of shortcuts

Of two shortcuts with one name the list decides which one counts, so its order matters.  It
is gathered from all shortcut tables, which are made on demand.  After any history it has the
shortcuts that were added, each as often as it was added and unchanged.  Those of one
table stand in the order in which they were added, and the tables in ascending order of the
bytes of their ids (`Database.shortcuts_of_history`).
-/

namespace TableTalk

/-- The shortcut that an operation adds, with the id of its table. -/
def Operation.shortcut? : Operation → Option (Text × Shortcut)
  | .addShortcut _ id s => some (id, s)
  | .define _ | .grant _ _ _ _ | .handle _ _ _ _ => none

/-- The shortcuts that were added, each with the id of its table, in the order in which they
were added. -/
def Log.shortcuts (log : Log) : List (Text × Shortcut) :=
  log.done Operation.shortcut?

/-- The shortcuts of one table. -/
def Log.shortcutsIn (log : Log) (id : Text) : List (Text × Shortcut) :=
  log.shortcuts.filter fun x => x.1 == id

theorem Log.shortcutsIn_append (log : Log) (op : Operation) (succeeded : Bool) (id : Text) :
    shortcutsIn (log ++ [(op, succeeded)]) id = shortcutsIn log id ++
      (if succeeded then op.shortcut? else none).toList.filter fun x => x.1 == id := by
  unfold shortcutsIn shortcuts
  rw [done_append, List.filter_append]

/-- A shortcut is added as a row of a shortcut table. -/
theorem Operation.helperRow_of_shortcut {op : Operation} {x : Text × Shortcut}
    (h : op.shortcut? = some x) :
    ∃ w, op.helperRow? = some w ∧ w.kind = .shortcut ∧ w.id = x.1 := by
  cases op with
  | define t => cases h
  | grant stamp id phone password => cases h
  | handle limits stamp now message => cases h
  | addShortcut stamp id s =>
      obtain rfl := Option.some.inj h
      exact ⟨_, rfl, rfl, rfl⟩

namespace Database

variable {db : Database} {u : StoredTable} {log : Log}

/-! ### One table -/

/-- A row that was written for a shortcut is read as this shortcut. -/
theorem shortcutsOf_append (kind : TableKind) (id : Text) (rows : List StoredRow)
    (stamp : Instant) (s : Shortcut) :
    shortcutsOf (.ofHelper kind id (rows ++ [(HelperRow.ofShortcut stamp id s).stored])) =
      shortcutsOf (.ofHelper kind id rows) ++ [s] := by
  change ((rows ++ [_]).filter StoredRow.isComplete).map shortcutOfRow =
    (rows.filter StoredRow.isComplete).map shortcutOfRow ++ [s]
  rw [List.filter_append, List.map_append]
  rfl

/-- The rows of a shortcut table are read as the shortcuts that were added to it. -/
theorem shortcutsOf_ofHelper (log : Log) (id : Text) :
    shortcutsOf (.ofHelper .shortcut id (HelperRow.storedIn log.helperRows .shortcut id)) =
      (log.shortcutsIn id).map Prod.snd := by
  induction log using List.reverseRecOn with
  | nil => rfl
  | append_singleton log x ih =>
      obtain ⟨op, succeeded⟩ := x
      rw [Log.helperRows_append, Log.shortcutsIn_append, List.map_append, ← ih]
      cases succeeded with
      | false => simp
      | true =>
          cases op with
          | define t => simp [Operation.helperRow?, Operation.shortcut?]
          | handle limits stamp now message => simp [Operation.helperRow?, Operation.shortcut?]
          | grant stamp id' phone password =>
              simp [Operation.helperRow?, Operation.shortcut?, HelperRow.storedIn_append,
                HelperRow.ofGrant]
          | addShortcut stamp id' s =>
              change shortcutsOf (.ofHelper .shortcut id (HelperRow.storedIn
                (Log.helperRows log ++ [.ofShortcut stamp id' s]) .shortcut id)) =
                  shortcutsOf _ ++ ([(id', s)].filter fun x => x.1 == id).map Prod.snd
              rw [HelperRow.storedIn_append]
              by_cases hId : id' = id
              · subst hId
                rw [if_pos ⟨rfl, rfl⟩, shortcutsOf_append]
                simp
              · rw [if_neg fun hOwn => hId hOwn.2, List.append_nil]
                simp [hId]

/-! ### All tables -/

/-- The shortcut tables by the bytes of their ids. -/
def shortcutTables (db : Database) : List StoredTable :=
  (db.tables.filter fun t => t.kind == .shortcut).mergeSort fun a b => ¬ b.id < a.id

theorem mem_shortcutTables_iff : u ∈ db.shortcutTables ↔ u ∈ db.tables ∧ u.kind = .shortcut := by
  unfold shortcutTables
  rw [List.mem_mergeSort, List.mem_filter, beq_iff_eq]

theorem pairwise_shortcutTables (db : Database) :
    db.shortcutTables.Pairwise fun a b => a.id.bytes ≤ b.id.bytes := by
  refine pairwise_mergeSort_of_le (fun a b => ?_) _
  rw [decide_eq_true_iff, not_lt, Text.bytes_le_bytes_iff]

theorem WellNamed.nodup_shortcutTables (h : db.WellNamed) : db.shortcutTables.Nodup :=
  (List.mergeSort_perm _ _).nodup_iff.mpr (h.nodup.filter _)

/-- The shortcuts of a history, table by table. -/
def listed (db : Database) (log : Log) : List (Text × Shortcut) :=
  db.shortcutTables.flatMap fun u => log.shortcutsIn u.id

theorem shortcuts_eq_listed (h : empty.History log db) :
    db.shortcuts = (db.listed log).map Prod.snd := by
  unfold listed
  rw [List.map_flatMap]
  refine List.flatMap_congr fun u hu => ?_
  obtain ⟨hu, hKind⟩ := mem_shortcutTables_iff.mp hu
  have hForm := h.holds.rows u hu (hKind ▸ TableKind.noConfusion)
  rw [hKind] at hForm
  conv_lhs => rw [hForm]
  exact shortcutsOf_ofHelper log u.id

/-- Shortcuts of another table are not among those of a table. -/
theorem filter_shortcutsIn_of_ne {id id' : Text} (h : id' ≠ id) (log : Log) :
    (log.shortcutsIn id').filter (fun x => x.1 == id) = [] := by
  refine List.filter_eq_nil_iff.mpr fun x hx hSame => h ?_
  have hOwn := (List.mem_filter.mp hx).2
  rw [beq_iff_eq] at hOwn hSame
  exact hOwn.symm.trans hSame

/-- Those of one table stand together, as they were added. -/
theorem filter_listed (h : empty.History log db) (id : Text) :
    (db.listed log).filter (fun x => x.1 == id) = log.shortcutsIn id := by
  unfold listed
  rw [List.filter_flatMap]
  by_cases hTable : ∃ u ∈ db.shortcutTables, u.id = id
  · obtain ⟨u, hu, rfl⟩ := hTable
    rw [Traversal.flatMap_eq_of_unique h.wellNamed.nodup_shortcutTables hu fun v hv hOther => ?_]
    · exact List.filter_eq_self.mpr fun x hx => (List.mem_filter.mp hx).2
    · refine filter_shortcutsIn_of_ne (fun hSame => hOther ?_) log
      exact h.wellNamed.eq_of_id (mem_shortcutTables_iff.mp hv).1
        (mem_shortcutTables_iff.mp hu).1 hSame
  · -- Whatever is added has its table, so there is nothing to list.
    have hNone : log.shortcutsIn id = [] := by
      refine List.filter_eq_nil_iff.mpr fun x hx hOwn => hTable ?_
      obtain ⟨op, hDone, hShortcut⟩ := Log.mem_done_iff.mp hx
      obtain ⟨w, hRow, hKind, hId⟩ := Operation.helperRow_of_shortcut hShortcut
      obtain ⟨u, hu, hSameKind, hSameId⟩ :=
        h.holds.hasTable w (Log.mem_done_iff.mpr ⟨op, hDone, hRow⟩)
      exact ⟨u, mem_shortcutTables_iff.mpr ⟨hu, hSameKind.trans hKind⟩,
        hSameId.trans (hId.trans (beq_iff_eq.mp hOwn))⟩
    rw [hNone]
    refine List.flatMap_eq_nil_iff.mpr fun u hu => ?_
    exact filter_shortcutsIn_of_ne (fun hSame => hTable ⟨u, hu, hSame⟩) log

/-- The tables follow each other by the bytes of their ids. -/
theorem pairwise_listed (db : Database) (log : Log) :
    (db.listed log).Pairwise fun a b => a.1.bytes ≤ b.1.bytes := by
  have hOwn {id : Text} {x : Text × Shortcut} (hx : x ∈ log.shortcutsIn id) : x.1 = id :=
    beq_iff_eq.mp (List.mem_filter.mp hx).2
  refine List.pairwise_flatMap.mpr ⟨fun u hu => ?_, ?_⟩
  · refine List.pairwise_of_forall_mem_list fun a ha b hb => ?_
    rw [hOwn ha, hOwn hb]
  · refine (pairwise_shortcutTables db).imp fun {u v} hOrder a ha b hb => ?_
    rwa [hOwn ha, hOwn hb]

/-- **The list of shortcuts** after any history of operations, each of them done or failed.
With the ids of their tables written to them, the shortcuts that are listed are those that
were added, each as often as it was added.  They stand in ascending order of the bytes of
the ids, and those of one id in the order in which they were added. -/
theorem shortcuts_of_history (h : empty.History log db) :
    ∃ listed : List (Text × Shortcut), db.shortcuts = listed.map Prod.snd ∧
      listed.Perm log.shortcuts ∧ (listed.Pairwise fun a b => a.1.bytes ≤ b.1.bytes) ∧
      ∀ id, listed.filter (fun x => x.1 == id) = log.shortcuts.filter fun x => x.1 == id := by
  refine ⟨db.listed log, shortcuts_eq_listed h, ?_, pairwise_listed db log, filter_listed h⟩
  refine List.perm_iff_count.mpr fun x => ?_
  -- A shortcut is counted among those of its own table.
  have hCount (xs : List (Text × Shortcut)) : (xs.filter fun y => y.1 == x.1).count x =
      xs.count x := List.count_filter (beq_self_eq_true x.1)
  rw [← hCount, filter_listed h]
  exact hCount log.shortcuts

/-- A shortcut for the weather, one for the tides, and another for the weather. -/
def sky : Shortcut := ⟨"sky".toList, [], "@weather ?W".toList⟩

def tide : Shortcut := ⟨"tide".toList, [], "@tides ?T".toList⟩

def rain : Shortcut := ⟨"sky".toList, "%d%".toList, "@weather ?W =D %d%".toList⟩

def bookStamp : Instant :=
  .midnight ⟨2025, 1, 3, by decide⟩

/-- Shortcuts of two tables in turn, and a credential for which there is no room. -/
def bookLog : Log :=
  [(.addShortcut bookStamp ['w'] sky, true), (.addShortcut bookStamp ['t'] tide, true),
    (.grant bookStamp ['w'] ['7'] ['a'], false), (.addShortcut bookStamp ['w'] rain, true)]

/-- The two tables with given shortcuts. -/
def bookDb (weather tides : List Shortcut) : Database :=
  let table (id : Text) (added : List Shortcut) : StoredTable :=
    .ofHelper .shortcut id (added.map fun s => (HelperRow.ofShortcut bookStamp id s).stored)
  ⟨[table ['w'] weather, table ['t'] tides]⟩

theorem history_bookDb : empty.History bookLog (bookDb [sky, rain] [tide]) := by
  have hSky : empty.carryOut (.addShortcut bookStamp ['w'] sky) =
      .ok ⟨(bookDb [sky] []).tables.take 1⟩ := by
    rfl
  have hTide : carryOut ⟨(bookDb [sky] []).tables.take 1⟩ (.addShortcut bookStamp ['t'] tide) =
      .ok (bookDb [sky] [tide]) := by
    rfl
  have hRain : (bookDb [sky] [tide]).carryOut (.addShortcut bookStamp ['w'] rain) =
      .ok (bookDb [sky, rain] [tide]) := by
    rfl
  exact (((History.start.step (.done hSky)).step (.done hTide)).step (.failed _)).step
    (.done hRain)

/-- The weather comes behind the tides, and its two shortcuts in the order in which they were
added. -/
theorem shortcuts_of_history_book :
    empty.History bookLog (bookDb [sky, rain] [tide]) ∧
      ∃ listed : List (Text × Shortcut),
        (bookDb [sky, rain] [tide]).shortcuts = listed.map Prod.snd ∧
        listed.Perm [(['w'], sky), (['t'], tide), (['w'], rain)] ∧
        (listed.Pairwise fun a b => a.1.bytes ≤ b.1.bytes) ∧
        (listed.filter fun x => x.1 == ['w']) = [(['w'], sky), (['w'], rain)] := by
  obtain ⟨listed, hListed, hPerm, hOrder, hOwn⟩ := shortcuts_of_history history_bookDb
  exact ⟨history_bookDb, listed, hListed, hPerm, hOrder, hOwn ['w']⟩

end Database

end TableTalk
