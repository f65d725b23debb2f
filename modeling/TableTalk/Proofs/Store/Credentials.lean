import TableTalk.Proofs.Store.HelperTables

/-!
# Credentials are grants

A credential is asked for in a statement that names the access table, and it is granted
through the registered ids.  Whatever the history of a database, both lead to the same
table, and its rows are those of the grants that succeeded, so a phone and a password are
accepted if and only if they were granted together in this table
(`Database.credentials_are_grants`).

A helper row for an id that is registered with another kind is refused before anything is
written (`Database.WellNamed.refused_of_otherKind`).
-/

namespace TableTalk

namespace Database

variable {db db' : Database} {u : StoredTable} {w : HelperRow} {op : Operation} {log : Log}

/-! ### Rows of access tables -/

/-- A row pairs a phone with a password. -/
def isCredential (phone password : Text) (r : StoredRow) : Bool :=
  r.isComplete && r.value? "phone".toList == some phone &&
    r.value? "password".toList == some password

/-- Rows of access tables come from grants. -/
theorem eq_grant_of_helperRow (hRow : op.helperRow? = some w) (hKind : w.kind = .access) :
    ∃ stamp phone password, op = .grant stamp w.id phone password ∧
      w = .ofGrant stamp w.id phone password := by
  rcases Operation.cases_of_helperRow hRow with
    ⟨stamp, id, s, -, rfl⟩ | ⟨stamp, id, phone, password, rfl, rfl⟩
  · exact absurd hKind TableKind.noConfusion
  · exact ⟨stamp, phone, password, rfl, rfl⟩

/-- The row of a grant pairs the phone and the password that were granted. -/
theorem isCredential_stored_iff {id phone password phone' password' : Text} {stamp : Instant} :
    isCredential phone password (HelperRow.ofGrant stamp id phone' password').stored = true ↔
      phone' = phone ∧ password' = password := by
  change (true && some phone' == some phone && some password' == some password) = true ↔ _
  simp

/-- What an access table answers, given its rows. -/
theorem hasCredential_of_named {id phone password : Text} {rows : List StoredRow}
    (hName : Statement.isName id = true) (hTable : db.named id = some (.ofHelper .access id rows)) :
    db.hasCredential id phone password = .ok (rows.any (isCredential phone password)) := by
  have hColumns : (["phone".toList, "password".toList].find? fun c =>
      ((StoredTable.ofHelper .access id rows).columnNamed c).isNone) = none := by
    rfl
  unfold hasCredential
  simp only [hName, hTable, hColumns]
  rfl

/-- **An access table accepts what was granted in it.** -/
theorem hasCredential_iff (h : empty.History log db) (hu : u ∈ db.tables)
    (hKind : u.kind = .access) (phone password : Text) :
    ∃ granted, db.hasCredential u.id phone password = .ok granted ∧
      (granted = true ↔ ∃ stamp, (Operation.grant stamp u.id phone password, true) ∈ log) := by
  have hTable := h.wellNamed.named hu
  rw [h.holds.rows u hu (hKind ▸ TableKind.noConfusion), hKind] at hTable
  refine ⟨_, hasCredential_of_named (h.wellNamed.isName u hu) hTable, ?_⟩
  rw [List.any_eq_true]
  constructor
  · rintro ⟨r, hr, hAccepted⟩
    obtain ⟨w, hw, rfl⟩ := List.mem_map.mp hr
    obtain ⟨hw, hOwn⟩ := List.mem_filter.mp hw
    obtain ⟨hAccess, hId⟩ := of_decide_eq_true hOwn
    obtain ⟨op, hDone, hRow⟩ := Log.mem_done_iff.mp hw
    obtain ⟨stamp, phone', password', rfl, hForm⟩ := eq_grant_of_helperRow hRow hAccess
    rw [hForm, isCredential_stored_iff] at hAccepted
    obtain ⟨rfl, rfl⟩ := hAccepted
    exact ⟨stamp, hId ▸ hDone⟩
  · rintro ⟨stamp, hDone⟩
    have hw : HelperRow.ofGrant stamp u.id phone password ∈ Log.helperRows log :=
      Log.mem_done_iff.mpr ⟨_, hDone, rfl⟩
    exact ⟨_, List.mem_map_of_mem (List.mem_filter.mpr ⟨hw, decide_eq_true ⟨rfl, rfl⟩⟩),
      isCredential_stored_iff.mpr ⟨rfl, rfl⟩⟩

/-! ### Ids of another kind -/

/-- A helper row for an id that is registered with another kind is refused, and whatever the
operation comes to, it changes nothing. -/
theorem WellNamed.refused_of_otherKind (h : db.WellNamed) (hu : u ∈ db.tables)
    (hRow : op.helperRow? = some w) (hId : u.id = w.id) (hKind : u.kind ≠ w.kind) :
    db.carryOut op = .error (.definition (.otherKind w.id u.kind.name)) ∧
      ∀ succeeded db', db.Step op succeeded db' → succeeded = false ∧ db' = db := by
  have hEnsure (columns : List Text) : db.ensureHelper w.id w.kind columns =
      .error (.definition (.otherKind w.id u.kind.name)) := by
    unfold ensureHelper
    rw [← hId, h.isName u hu, h.withId hu]
    exact if_neg hKind
  have hRefused : db.carryOut op = .error (.definition (.otherKind w.id u.kind.name)) := by
    rw [carryOut_of_helperRow hRow]
    unfold writeHelper
    rw [hEnsure]
  refine ⟨hRefused, fun succeeded db' hStep => ?_⟩
  cases hStep with
  | done hDone =>
      rw [hRefused] at hDone
      cases hDone
  | failed => exact ⟨rfl, rfl⟩
  | halfway hRow' hMade =>
      obtain rfl := Option.some.inj (hRow.symm.trans hRow')
      rw [hEnsure] at hMade
      cases hMade

/-- **Credentials are grants.**  After any history of operations, each of them done or
failed, a table in which a grant has succeeded accepts a phone and a password exactly if a
grant of both in this table has succeeded.  A grant on the id of a data or shortcut table
fails and changes nothing, and so does a shortcut on that of a data or access table. -/
theorem credentials_are_grants (h : empty.History log db) :
    (∀ acl, (∃ stamp phone password, (Operation.grant stamp acl phone password, true) ∈ log) →
      ∀ phone password, ∃ granted, db.hasCredential acl phone password = .ok granted ∧
        (granted = true ↔ ∃ stamp, (Operation.grant stamp acl phone password, true) ∈ log)) ∧
    (∀ u ∈ db.tables, u.kind = .data ∨ u.kind = .shortcut → ∀ stamp phone password,
      db.grant stamp u.id phone password = .error (.definition (.otherKind u.id u.kind.name)) ∧
        ∀ succeeded db', db.Step (.grant stamp u.id phone password) succeeded db' →
          succeeded = false ∧ db' = db) ∧
    ∀ u ∈ db.tables, u.kind = .data ∨ u.kind = .access → ∀ stamp s,
      db.addShortcut stamp u.id s = .error (.definition (.otherKind u.id u.kind.name)) ∧
        ∀ succeeded db', db.Step (.addShortcut stamp u.id s) succeeded db' →
          succeeded = false ∧ db' = db := by
  refine ⟨?_, ?_, ?_⟩
  · rintro acl ⟨stamp, phone', password', hDone⟩ phone password
    obtain ⟨u, hu, hKind, rfl⟩ :=
      h.holds.hasTable _ (Log.mem_done_iff.mpr ⟨_, hDone, rfl⟩)
    exact hasCredential_iff h hu hKind phone password
  · intro u hu hKind stamp phone password
    have hOther : u.kind ≠ .access := by
      rcases hKind with hKind | hKind <;> exact hKind ▸ TableKind.noConfusion
    have hRow : (Operation.grant stamp u.id phone password).helperRow? =
        some (.ofGrant stamp u.id phone password) := rfl
    exact h.wellNamed.refused_of_otherKind hu hRow rfl hOther
  · intro u hu hKind stamp s
    have hOther : u.kind ≠ .shortcut := by
      rcases hKind with hKind | hKind <;> exact hKind ▸ TableKind.noConfusion
    have hRow : (Operation.addShortcut stamp u.id s).helperRow? =
        some (.ofShortcut stamp u.id s) := rfl
    exact h.wellNamed.refused_of_otherKind hu hRow rfl hOther

/-- The instant of two grants. -/
def gateStamp : Instant :=
  .midnight ⟨2025, 1, 2, by decide⟩

/-- A table of guests. -/
def guests : Table :=
  ⟨"guests".toList, "guests".toList,
    [{ storageName := ['n'], displayName := ['N'], type := .text }], some "gate".toList⟩

/-- Two grants in one table, and another that fails, after a definition. -/
def gateLog : Log :=
  [(.define guests, true), (.grant gateStamp "gate".toList ['7'] ['a'], true),
    (.grant gateStamp "gate".toList ['8'] ['b'], false),
    (.grant gateStamp "gate".toList ['8'] ['c'], true)]

/-- The database with the guests, and the first credentials of the gate. -/
def gateDb (passwords : List (Text × Text)) : Database :=
  ⟨[.ofTable guests [], .ofHelper .access "gate".toList (passwords.map fun p =>
    (HelperRow.ofGrant gateStamp "gate".toList p.1 p.2).stored)]⟩

theorem history_gateDb :
    empty.History gateLog (gateDb [(['7'], ['a']), (['8'], ['c'])]) := by
  have hDefine : empty.carryOut (.define guests) = .ok ⟨[.ofTable guests []]⟩ := by
    rfl
  have hFirst : carryOut ⟨[.ofTable guests []]⟩ (.grant gateStamp "gate".toList ['7'] ['a']) =
      .ok (gateDb [(['7'], ['a'])]) := by
    rfl
  have hSecond : (gateDb [(['7'], ['a'])]).carryOut
      (.grant gateStamp "gate".toList ['8'] ['c']) =
        .ok (gateDb [(['7'], ['a']), (['8'], ['c'])]) := by
    rfl
  exact (((History.start.step (.done hDefine)).step (.done hFirst)).step (.failed _)).step
    (.done hSecond)

/-- A password whose grant has failed is not accepted. -/
theorem credentials_are_grants_gate :
    empty.History gateLog (gateDb [(['7'], ['a']), (['8'], ['c'])]) ∧
      (gateDb [(['7'], ['a']), (['8'], ['c'])]).hasCredential "gate".toList ['8'] ['c'] =
        .ok true ∧
      (gateDb [(['7'], ['a']), (['8'], ['c'])]).hasCredential "gate".toList ['8'] ['b'] =
        .ok false ∧
      (gateDb [(['7'], ['a']), (['8'], ['c'])]).grant gateStamp "guests".toList ['7'] ['a'] =
        .error (.definition (.otherKind "guests".toList "data".toList)) := by
  obtain ⟨hAccepted, hGrants, -⟩ := credentials_are_grants history_gateDb
  have hGate : ∃ stamp phone password,
      (Operation.grant stamp "gate".toList phone password, true) ∈ gateLog :=
    ⟨_, _, _, List.mem_cons_of_mem _ List.mem_cons_self⟩
  refine ⟨history_gateDb, ?_, ?_, ?_⟩
  · obtain ⟨granted, hAnswer, hGranted⟩ := hAccepted _ hGate ['8'] ['c']
    rw [hAnswer, hGranted.mpr ⟨gateStamp, List.getLast_mem (List.cons_ne_nil _ _)⟩]
  · obtain ⟨granted, hAnswer, hGranted⟩ := hAccepted _ hGate ['8'] ['b']
    have hNone : ¬ granted = true := fun h => by
      obtain ⟨stamp, hMem⟩ := hGranted.mp h
      simp [gateLog] at hMem
    rw [hAnswer, Bool.eq_false_iff.mpr hNone]
  · exact (hGrants (.ofTable guests []) List.mem_cons_self (Or.inl rfl) gateStamp ['7']
      ['a']).1

end Database

end TableTalk
