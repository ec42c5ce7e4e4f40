-- SUMMARY: Requests that create and delete databases at the same time, over D1: what holds under every interleaving.
import EdgeReplica.Lib.Pool
import EdgeReplica.Repo.D1Served
import EdgeReplica.Services.Admin

/-!
# Databases under concurrent requests

A request awaits one storage call after the other, and the calls of other requests
come in between. `DeleteDatabase` reads the row, looks at its organization and deletes
it later, when the row may be gone and its name taken again; what is deleted is
still the database that was looked at, since identifiers are not reused.
-/

namespace EdgeReplica

open AdminServer (Response databasePb)
open Common (mapStoreError validateDatabaseName)
open Effect (final)
open SessionAuth (requireSession)
open Sql (ScanOrder)

inductive DatabaseRequest where
  | create (name : String)
  | delete (databaseId : String)

structure DatabaseCall where
  ctx : RpcContext
  nowMs : Int64
  request : DatabaseRequest

namespace DatabaseRaces

/-- The storage call that a request awaits. -/
inductive Awaiting where
  | createDatabase (session : SessionContext) (name : String)
  | getDatabase (session : SessionContext) (id : DatabaseId)
  | deleteDatabase (session : SessionContext) (id : DatabaseId)
  | answered (result : Except ConnectError Response)

structure Task where
  call : DatabaseCall
  awaiting : Awaiting

/-- The repository, and the identifiers that were generated for databases. -/
structure Store where
  repo : D1Repo
  generated : List DatabaseId

/-- What a request does before its first storage call. -/
def check (call : DatabaseCall) : Except ConnectError Awaiting := do
  let session ← requireSession call.ctx
  match call.request with
  | .create name =>
    if session.role ≠ .admin then
      throw ⟨.permissionDenied, "admin role required to create a database"⟩
    validateDatabaseName name
    return .createDatabase session (Text.trim name)
  | .delete databaseId =>
    if session.role ≠ .admin then
      throw ⟨.permissionDenied, "admin role required to delete a database"⟩
    return .getDatabase session ⟨databaseId⟩

def start (call : DatabaseCall) : Task where
  call := call
  awaiting := match check call with
    | .ok awaiting => awaiting
    | .error e => .answered (.error e)

section

variable [ScanOrder]

/-- One storage call of a request, and what the request does before the next one. -/
def turn (ids : FreshIds) (task : Task) (store : Store) : Option (Task × Store) :=
  match task.awaiting with
  | .createDatabase session name =>
    if ids.databaseId ∈ store.generated then none
    else
      let generated := ids.databaseId :: store.generated
      match (D1Repo.createDatabase ids session.org name session.user task.call.nowMs).run
          store.repo with
      | .ok db repo =>
        some (⟨task.call, .answered (.ok (.database (databasePb db)))⟩, ⟨repo, generated⟩)
      | .error e repo => some (⟨task.call, .answered (.error (mapStoreError e))⟩, ⟨repo, generated⟩)
  | .getDatabase session id =>
    match (D1Repo.getDatabase id).run store.repo with
    | .ok (some db) repo =>
      if db.orgId ≠ session.org then
        some (⟨task.call, .answered (.error
          ⟨.permissionDenied, "database belongs to another organization"⟩)⟩, { store with repo })
      else some (⟨task.call, .deleteDatabase session id⟩, { store with repo })
    | .ok none repo =>
      some (⟨task.call, .answered (.error ⟨.notFound, "database not found"⟩)⟩, { store with repo })
    | .error e repo => some (⟨task.call, .answered (.error (mapStoreError e))⟩, { store with repo })
  | .deleteDatabase _ id =>
    match (D1Repo.deleteDatabase id).run store.repo with
    | .ok _ repo => some (⟨task.call, .answered (.ok .deleted)⟩, { store with repo })
    | .error e repo => some (⟨task.call, .answered (.error (mapStoreError e))⟩, { store with repo })
  | .answered _ => none

end

/-- The calls that write to the table of databases. -/
def writesDatabases : RepoCall → Bool
  | .createDatabase _ _ _ _ | .deleteDatabase _ => true
  | _ => false

section

variable [ScanOrder]

/-- A storage call of any other request. -/
def others (call : FreshIds × RepoCall) (store : Store) : Option Store :=
  if writesDatabases call.2 then none
  else some { store with repo := final ((D1Repo.serve call.1 call.2).run store.repo) }

def system : Pool.System Store DatabaseCall Task FreshIds (FreshIds × RepoCall) where
  start := start
  turn := turn
  others := others

end

abbrev State := Pool.State Store Task

abbrev Label := Pool.Label DatabaseCall FreshIds (FreshIds × RepoCall)

def initial : State := Pool.empty ⟨.new, []⟩

/-! ## Answers -/

/-- The request has created a database. -/
def Created (s : State) (i : Nat) (db : Pb.Database) : Prop :=
  ∃ call, s.requests i = some ⟨call, .answered (.ok (.database db))⟩

/-- The request, to delete this database, has succeeded. -/
def Deleted (s : State) (i : Nat) (id : String) : Prop :=
  ∃ call response, s.requests i = some ⟨call, .answered (.ok response)⟩ ∧
    call.request = .delete id

/-- The database was created for the organization. -/
def Owned (s : State) (id orgId : String) : Prop :=
  ∃ i db, Created s i db ∧ db.id = id ∧ db.orgId = orgId

/-! ## Turns -/

section

variable [ScanOrder]

/-- What a turn can come to. -/
inductive Turns (task : Task) (store : Store) : Task → Store → Prop
  | created (session : SessionContext) (name : String) (id : DatabaseId) (nowMs : Int64)
      (row : DatabaseRow) (hawaiting : task.awaiting = .createDatabase session name)
      (hid : id ∉ store.generated)
      (hrow : row = ⟨id.asStr, session.org.asStr, name, session.user.asStr, D1Repo.ms nowMs⟩)
      (hnew : D1Repo.databasesTable.violation row store.repo = none) :
      Turns task store
        ⟨task.call, .answered
          (.ok (.database (databasePb ⟨id, session.org, name, session.user, nowMs⟩)))⟩
        ⟨D1Repo.databasesTable.add row store.repo, id :: store.generated⟩
  | found (session : SessionContext) (id : DatabaseId) (row : DatabaseRow)
      (hawaiting : task.awaiting = .getDatabase session id) (hrow : row ∈ store.repo.databases)
      (hid : row.id = id.asStr) (horg : row.orgId = session.org.asStr) :
      Turns task store ⟨task.call, .deleteDatabase session id⟩ store
  | deleted (session : SessionContext) (id : DatabaseId) (row : DatabaseRow)
      (hawaiting : task.awaiting = .deleteDatabase session id) (hrow : row ∈ store.repo.databases)
      (hid : row.id = id.asStr) :
      Turns task store ⟨task.call, .answered (.ok .deleted)⟩
        { store with repo := store.repo.withoutDatabase id }
  | failed (e : ConnectError) (generated : List DatabaseId)
      (hgenerated : store.generated ⊆ generated) :
      Turns task store ⟨task.call, .answered (.error e)⟩ { store with generated }

theorem turns {ids : FreshIds} {task task' : Task} {store store' : Store}
    (h : turn ids task store = some (task', store')) : Turns task store task' store' := by
  unfold turn at h
  cases hawaiting : task.awaiting with
  | createDatabase session name =>
    simp only [hawaiting, D1Repo.run_createDatabase] at h
    split at h
    · cases h
    · next hid =>
      cases hnew : D1Repo.databasesTable.violation ⟨ids.databaseId.asStr, session.org.asStr, name,
          session.user.asStr, D1Repo.ms task.call.nowMs⟩ store.repo with
      | some rule =>
        rw [hnew] at h
        cases h
        exact .failed _ _ (List.subset_cons_self _ _)
      | none =>
        rw [hnew] at h
        cases h
        exact .created session name ids.databaseId task.call.nowMs _ hawaiting hid rfl hnew
  | getDatabase session id =>
    -- The row that is looked at here may be gone by the next turn.
    simp only [hawaiting, D1Repo.getDatabase] at h
    obtain hrun | ⟨e, hrun⟩ | ⟨row, hrow, hid, db, hinto, hrun⟩ := D1Repo.first_cases store.repo
      D1Repo.databasesTable (fun r => r.id = id.asStr) DatabaseRow.into
    · rw [hrun] at h
      cases h
      exact .failed _ _ (List.Subset.refl _)
    · rw [hrun] at h
      cases h
      exact .failed _ _ (List.Subset.refl _)
    · simp only [hrun] at h
      split at h
      · cases h
        exact .failed _ _ (List.Subset.refl _)
      · next horg =>
        cases h
        refine .found session id row hawaiting hrow (of_decide_eq_true hid) ?_
        rw [← DatabaseRow.orgId_of_into hinto, not_not.mp horg]
  | deleteDatabase session id =>
    simp only [hawaiting, D1Repo.run_deleteDatabase] at h
    by_cases hrow : ∃ r ∈ store.repo.databases, r.id = id.asStr
    · rw [if_pos hrow] at h
      cases h
      obtain ⟨row, hrow, hid⟩ := hrow
      exact .deleted session id row hawaiting hrow hid
    · rw [if_neg hrow] at h
      cases h
      exact .failed _ _ (List.Subset.refl _)
  | answered result =>
    rw [hawaiting] at h
    cases h

end

/-! ## The life of a database -/

/-- What has been created and deleted so far, the rows that there are and the
identifiers that were generated. -/
structure Life (created : Nat → Pb.Database → Prop) (deleted : Nat → String → Prop)
    (rows : List DatabaseRow) (generated : List DatabaseId) : Prop where
  rowsCreated : ∀ r ∈ rows, ∃ i db, created i db ∧ db.id = r.id ∧ db.orgId = r.orgId
  deletedCreated : ∀ i id, deleted i id → ∃ j db, created j db ∧ db.id = id
  generated : ∀ i db, created i db → ⟨db.id⟩ ∈ generated
  once : ∀ i j db db', created i db → created j db' → db.id = db'.id → i = j
  live : ∀ i db, created i db → (∃ j, deleted j db.id) ∨
    ∃ r ∈ rows, r.id = db.id ∧ r.orgId = db.orgId ∧ r.name = db.name
  gone : ∀ i id, deleted i id → ∀ r ∈ rows, r.id ≠ id
  deletedOnce : ∀ i j id, deleted i id → deleted j id → i = j

section

variable {created created' : Nat → Pb.Database → Prop} {deleted deleted' : Nat → String → Prop}
  {rows : List DatabaseRow} {generated generated' : List DatabaseId}

theorem Life.none (hcreated : ∀ i db, ¬ created i db) (hdeleted : ∀ i id, ¬ deleted i id) :
    Life created deleted [] [] := by
  constructor <;> simp [hcreated, hdeleted]

/-- Nothing succeeds, and some identifiers may have been generated in vain. -/
theorem Life.quiet (h : Life created deleted rows generated)
    (hcreated : ∀ i db, created' i db ↔ created i db)
    (hdeleted : ∀ i id, deleted' i id ↔ deleted i id) (hgenerated : generated ⊆ generated') :
    Life created' deleted' rows generated' where
  rowsCreated := by simpa only [hcreated] using h.rowsCreated
  deletedCreated := by simpa only [hcreated, hdeleted] using h.deletedCreated
  generated i db hi := hgenerated (h.generated i db ((hcreated i db).mp hi))
  once := by simpa only [hcreated] using h.once
  live := by simpa only [hcreated, hdeleted] using h.live
  gone := by simpa only [hdeleted] using h.gone
  deletedOnce := by simpa only [hdeleted] using h.deletedOnce

/-- A database is created under a new identifier. -/
theorem Life.create (h : Life created deleted rows generated) (k : Nat) (new : Pb.Database)
    {row : DatabaseRow} (hnew : ⟨new.id⟩ ∉ generated)
    (hrow : row.id = new.id ∧ row.orgId = new.orgId ∧ row.name = new.name)
    (hcreated : ∀ i db, created' i db ↔ created i db ∨ i = k ∧ db = new)
    (hdeleted : ∀ i id, deleted' i id ↔ deleted i id) :
    Life created' deleted' (rows ++ [row]) (⟨new.id⟩ :: generated) := by
  -- Every database that was ever created has its identifier among the generated ones.
  have hfresh : ∀ i db, created i db → db.id ≠ new.id := by
    rintro i db hdb heq
    refine hnew ?_
    have hmem := h.generated i db hdb
    rwa [heq] at hmem
  constructor
  case rowsCreated =>
    intro r hr
    rcases List.mem_append.mp hr with hr | hr
    · obtain ⟨i, db, hdb, hids⟩ := h.rowsCreated r hr
      exact ⟨i, db, (hcreated i db).mpr (.inl hdb), hids⟩
    · obtain rfl := List.mem_singleton.mp hr
      exact ⟨k, new, (hcreated k new).mpr (.inr ⟨rfl, rfl⟩), hrow.1.symm, hrow.2.1.symm⟩
  case deletedCreated =>
    intro i id hi
    obtain ⟨j, db, hdb, hid⟩ := h.deletedCreated i id ((hdeleted i id).mp hi)
    exact ⟨j, db, (hcreated j db).mpr (.inl hdb), hid⟩
  case generated =>
    intro i db hdb
    rcases (hcreated i db).mp hdb with hdb | ⟨-, rfl⟩
    · exact List.mem_cons_of_mem _ (h.generated i db hdb)
    · exact List.mem_cons_self
  case once =>
    intro i j db db' hdb hdb' heq
    rcases (hcreated i db).mp hdb with hdb | ⟨rfl, rfl⟩ <;>
      rcases (hcreated j db').mp hdb' with hdb' | ⟨rfl, rfl⟩
    · exact h.once i j db db' hdb hdb' heq
    · exact absurd heq (hfresh i db hdb)
    · exact absurd heq.symm (hfresh j db' hdb')
    · rfl
  case live =>
    intro i db hdb
    simp only [hdeleted]
    rcases (hcreated i db).mp hdb with hdb | ⟨-, rfl⟩
    · refine (h.live i db hdb).imp_right ?_
      rintro ⟨r, hr, hids⟩
      exact ⟨r, List.mem_append_left _ hr, hids⟩
    · exact .inr ⟨row, List.mem_append_right _ List.mem_cons_self, hrow⟩
  case gone =>
    intro i id hi r hr
    rw [hdeleted] at hi
    rcases List.mem_append.mp hr with hr | hr
    · exact h.gone i id hi r hr
    · obtain rfl := List.mem_singleton.mp hr
      obtain ⟨j, db, hdb, hid⟩ := h.deletedCreated i id hi
      rintro rfl
      exact hfresh j db hdb (hid.trans hrow.1)
  case deletedOnce => simpa only [hdeleted] using h.deletedOnce

/-- A database that is there is deleted. -/
theorem Life.delete (h : Life created deleted rows generated) {k : Nat} {row : DatabaseRow}
    (hrow : row ∈ rows) (hcreated : ∀ i db, created' i db ↔ created i db)
    (hdeleted : ∀ i id, deleted' i id ↔ deleted i id ∨ i = k ∧ id = row.id) :
    Life created' deleted' (rows.filter fun r => !decide (r.id = row.id)) generated := by
  have hrest : ∀ r, r ∈ (rows.filter fun r => !decide (r.id = row.id)) ↔
      r ∈ rows ∧ r.id ≠ row.id := by
    intro r
    rw [List.mem_filter, Bool.not_eq_true', decide_eq_false_iff_not]
  -- The row is still there, so nobody has deleted it before.
  have hnone : ∀ i, ¬ deleted i row.id := fun i hi => h.gone i _ hi row hrow rfl
  constructor
  case rowsCreated =>
    intro r hr
    simp only [hcreated]
    exact h.rowsCreated r ((hrest r).mp hr).1
  case deletedCreated =>
    intro i id hi
    simp only [hcreated]
    rcases (hdeleted i id).mp hi with hi | ⟨-, rfl⟩
    · exact h.deletedCreated i id hi
    · obtain ⟨j, db, hdb, hid, -⟩ := h.rowsCreated row hrow
      exact ⟨j, db, hdb, hid⟩
  case generated => simpa only [hcreated] using h.generated
  case once => simpa only [hcreated] using h.once
  case live =>
    intro i db hdb
    rw [hcreated] at hdb
    by_cases heq : db.id = row.id
    · exact .inl ⟨k, (hdeleted k db.id).mpr (.inr ⟨rfl, heq⟩)⟩
    · rcases h.live i db hdb with ⟨j, hj⟩ | ⟨r, hr, hids⟩
      · exact .inl ⟨j, (hdeleted j db.id).mpr (.inl hj)⟩
      · exact .inr ⟨r, (hrest r).mpr ⟨hr, by rwa [hids.1]⟩, hids⟩
  case gone =>
    intro i id hi r hr
    obtain ⟨hr, hne⟩ := (hrest r).mp hr
    rcases (hdeleted i id).mp hi with hi | ⟨-, rfl⟩
    · exact h.gone i id hi r hr
    · exact hne
  case deletedOnce =>
    intro i j id hi hj
    rcases (hdeleted i id).mp hi with hi | ⟨rfl, rfl⟩ <;>
      rcases (hdeleted j _).mp hj with hj | ⟨rfl, hid⟩
    · exact h.deletedOnce i j id hi hj
    · subst hid
      exact absurd hi (hnone i)
    · exact absurd hj (hnone j)
    · rfl

end

/-! ## What every step keeps -/

/-- A request and what it awaits. -/
inductive Stage (s : State) : Task → Prop
  | creating (call : DatabaseCall) (session : SessionContext) (name requested : String)
      (hrequest : call.request = .create requested) : Stage s ⟨call, .createDatabase session name⟩
  | looking (call : DatabaseCall) (session : SessionContext) (id : String)
      (hrequest : call.request = .delete id) (hsession : call.ctx.session = some session) :
      Stage s ⟨call, .getDatabase session ⟨id⟩⟩
  | deleting (call : DatabaseCall) (session : SessionContext) (id : String)
      (hrequest : call.request = .delete id) (hsession : call.ctx.session = some session)
      (howned : Owned s id session.org.asStr) : Stage s ⟨call, .deleteDatabase session ⟨id⟩⟩
  | created (call : DatabaseCall) (db : Pb.Database) (requested : String)
      (hrequest : call.request = .create requested) :
      Stage s ⟨call, .answered (.ok (.database db))⟩
  | deleted (call : DatabaseCall) (session : SessionContext) (id : String)
      (hrequest : call.request = .delete id) (hsession : call.ctx.session = some session)
      (howned : Owned s id session.org.asStr) : Stage s ⟨call, .answered (.ok .deleted)⟩
  | failed (call : DatabaseCall) (e : ConnectError) : Stage s ⟨call, .answered (.error e)⟩

structure Sound (s : State) : Prop where
  stages : ∀ i task, s.requests i = some task → Stage s task
  distinct : D1Repo.databasesTable.Distinct s.store.repo
  life : Life (Created s) (Deleted s) s.store.repo.databases s.store.generated

section

variable {s s' : State}

theorem sound_initial : Sound initial := by
  have hcreated : ∀ i db, ¬ Created initial i db := by
    rintro i db ⟨call, h⟩
    cases h
  have hdeleted : ∀ i id, ¬ Deleted initial i id := by
    rintro i id ⟨call, response, h, -⟩
    cases h
  exact ⟨fun _ _ h => (by cases h), fun _ _ => List.Pairwise.nil, .none hcreated hdeleted⟩

/-- The request has not been answered. -/
def Open (s : State) (i : Nat) : Prop :=
  ∀ task, s.requests i = some task → ∀ result, task.awaiting ≠ .answered result

theorem created_put {i j : Nat} (hopen : Open s i) (task : Task) (store : Store)
    {db : Pb.Database} : Created (s.put i task store) j db ↔
      Created s j db ∨ j = i ∧ task.awaiting = .answered (.ok (.database db)) := by
  unfold Created
  rw [Pool.put_requests]
  split
  · next heq =>
    subst heq
    constructor
    · rintro ⟨call, h⟩
      obtain rfl := Option.some.inj h
      exact .inr ⟨rfl, rfl⟩
    · rintro (⟨call, h⟩ | ⟨-, h⟩)
      · exact absurd rfl (hopen _ h _)
      · exact ⟨task.call, by rw [← h]⟩
  · next hne => simp [hne]

theorem deleted_put {i j : Nat} (hopen : Open s i) (task : Task) (store : Store) {id : String} :
    Deleted (s.put i task store) j id ↔ Deleted s j id ∨
      j = i ∧ (∃ response, task.awaiting = .answered (.ok response)) ∧
        task.call.request = .delete id := by
  unfold Deleted
  rw [Pool.put_requests]
  split
  · next heq =>
    subst heq
    constructor
    · rintro ⟨call, response, h, hrequest⟩
      obtain rfl := Option.some.inj h
      exact .inr ⟨rfl, ⟨response, rfl⟩, hrequest⟩
    · rintro (⟨call, response, h, -⟩ | ⟨-, ⟨response, h⟩, hrequest⟩)
      · exact absurd rfl (hopen _ h _)
      · exact ⟨task.call, response, by rw [← h], hrequest⟩
  · next hne => simp [hne]

theorem Stage.mono {task : Task} (h : Stage s task)
    (howned : ∀ id orgId, Owned s id orgId → Owned s' id orgId) : Stage s' task := by
  cases h with
  | creating call session name requested hrequest =>
    exact .creating call session name requested hrequest
  | looking call session id hrequest hsession => exact .looking call session id hrequest hsession
  | deleting call session id hrequest hsession hown =>
    exact .deleting call session id hrequest hsession (howned _ _ hown)
  | created call db requested hrequest => exact .created call db requested hrequest
  | deleted call session id hrequest hsession hown =>
    exact .deleted call session id hrequest hsession (howned _ _ hown)
  | failed call e => exact .failed call e

theorem stages_put {i : Nat} {task : Task} {store : Store}
    (hstages : ∀ j t, s.requests j = some t → Stage s t)
    (howned : ∀ id orgId, Owned s id orgId → Owned (s.put i task store) id orgId)
    (htask : Stage (s.put i task store) task) :
    ∀ j t, (s.put i task store).requests j = some t → Stage (s.put i task store) t := by
  intro j t ht
  rw [Pool.put_requests] at ht
  split at ht
  · cases ht
    exact htask
  · exact (hstages j t ht).mono howned

theorem owned_put {i : Nat} (hopen : Open s i) (task : Task) (store : Store) :
    ∀ id orgId, Owned s id orgId → Owned (s.put i task store) id orgId := by
  rintro id orgId ⟨j, db, hdb, hid, horg⟩
  exact ⟨j, db, (created_put hopen task store).mpr (.inl hdb), hid, horg⟩

/-- A request that did not succeed in its turn, over databases that stay. -/
theorem Sound.put_quiet (h : Sound s) {i : Nat} (hopen : Open s i) {task : Task} {store : Store}
    (hfails : ∀ response, task.awaiting ≠ .answered (.ok response))
    (hrows : store.repo.databases = s.store.repo.databases)
    (hgenerated : s.store.generated ⊆ store.generated)
    (htask : Stage (s.put i task store) task) : Sound (s.put i task store) where
  stages := stages_put h.stages (owned_put hopen task store) htask
  distinct := h.distinct.congr hrows
  life := by
    rw [Pool.put_store, hrows]
    refine h.life.quiet ?_ ?_ hgenerated
    · intro j db
      rw [created_put hopen]
      exact or_iff_left fun hnew => hfails _ hnew.2
    · intro j id
      rw [deleted_put hopen]
      refine or_iff_left ?_
      rintro ⟨-, ⟨response, hnew⟩, -⟩
      exact hfails response hnew

/-- What was deleted had been created, for the organization of the session. -/
theorem Sound.owned_of_deleted (h : Sound s) {i : Nat} {id : String} (hi : Deleted s i id) :
    ∃ call session, (∃ awaiting, s.requests i = some ⟨call, awaiting⟩) ∧
      call.ctx.session = some session ∧ Owned s id session.org.asStr := by
  obtain ⟨call, response, hp, hrequest⟩ := hi
  cases h.stages i _ hp with
  | created _ db requested hcreate =>
    rw [hrequest] at hcreate
    cases hcreate
  | deleted _ session id' hrequest' hsession howned =>
    obtain rfl : id = id' := DatabaseRequest.delete.inj (hrequest.symm.trans hrequest')
    exact ⟨call, session, ⟨_, hp⟩, hsession, howned⟩

theorem check_cases (call : DatabaseCall) :
    (∃ e, check call = .error e) ∨
      (∃ session name requested, check call = .ok (.createDatabase session name) ∧
        call.request = .create requested) ∨
      ∃ session id, check call = .ok (.getDatabase session ⟨id⟩) ∧ call.request = .delete id ∧
        call.ctx.session = some session := by
  cases hcheck : check call with
  | error e => exact .inl ⟨e, rfl⟩
  | ok awaiting =>
    right
    obtain ⟨session, hsession, hrest⟩ := Effect.bind_eq_ok.mp hcheck
    cases hrequest : call.request with
    | create name =>
      left
      rw [hrequest] at hrest
      simp only at hrest
      split at hrest
      · cases hrest
      · obtain ⟨_, -, hrest⟩ := Effect.bind_eq_ok.mp hrest
        cases hrest
        exact ⟨session, Text.trim name, name, rfl, rfl⟩
    | delete id =>
      right
      rw [hrequest] at hrest
      simp only at hrest
      split at hrest
      · cases hrest
      · cases hrest
        exact ⟨session, id, rfl, rfl, SessionAuth.requireSession_eq_ok.mp hsession⟩

theorem stage_start (call : DatabaseCall) :
    Stage s (start call) ∧ ∀ response, (start call).awaiting ≠ .answered (.ok response) := by
  rw [start]
  obtain ⟨e, h⟩ | ⟨session, name, requested, h, hrequest⟩ | ⟨session, id, h, hrequest, hsession⟩ :=
    check_cases call
  · rw [h]
    exact ⟨.failed call e, fun _ heq => by cases heq⟩
  · rw [h]
    exact ⟨.creating call session name requested hrequest, fun _ heq => by cases heq⟩
  · rw [h]
    exact ⟨.looking call session id hrequest hsession, fun _ heq => by cases heq⟩

end

/-! ## Steps -/

section

variable {s s' : State}

theorem open_of_awaiting {i : Nat} {task : Task} (hp : s.requests i = some task)
    (hawaiting : ∀ result, task.awaiting ≠ .answered result) : Open s i := by
  intro task' hp'
  obtain rfl := Option.some.inj (hp.symm.trans hp')
  exact hawaiting

theorem Sound.put_created (h : Sound s) {i : Nat} {task : Task} (hp : s.requests i = some task)
    {session : SessionContext} {name : String} {id : DatabaseId} {nowMs : Int64}
    {row : DatabaseRow} (hawaiting : task.awaiting = .createDatabase session name)
    (hid : id ∉ s.store.generated)
    (hrow : row = ⟨id.asStr, session.org.asStr, name, session.user.asStr, D1Repo.ms nowMs⟩)
    (hnew : D1Repo.databasesTable.violation row s.store.repo = none) :
    Sound (s.put i
      ⟨task.call, .answered
        (.ok (.database (databasePb ⟨id, session.org, name, session.user, nowMs⟩)))⟩
      ⟨D1Repo.databasesTable.add row s.store.repo, id :: s.store.generated⟩) := by
  have hopen : Open s i := open_of_awaiting hp fun result h => by rw [hawaiting] at h; cases h
  obtain ⟨requested, hrequest⟩ : ∃ requested, task.call.request = .create requested := by
    cases h.stages i task hp with
    | creating call session' name' requested hrequest => exact ⟨requested, hrequest⟩
    | _ => cases hawaiting
  refine ⟨stages_put h.stages (owned_put hopen _ _) (.created task.call _ requested hrequest),
    h.distinct.insert hnew, ?_⟩
  refine h.life.create i (databasePb ⟨id, session.org, name, session.user, nowMs⟩) hid ?_ ?_ ?_
  · rw [hrow]
    exact ⟨rfl, rfl, rfl⟩
  · intro j db
    rw [created_put hopen]
    refine or_congr_right (and_congr_right fun _ => ⟨fun heq => ?_, fun heq => by rw [heq]⟩)
    cases heq
    rfl
  · intro j id'
    rw [deleted_put hopen]
    refine or_iff_left ?_
    rintro ⟨-, -, hdelete⟩
    rw [hrequest] at hdelete
    cases hdelete

theorem Sound.put_deleted (h : Sound s) {i : Nat} {task : Task} (hp : s.requests i = some task)
    {session : SessionContext} {id : DatabaseId} {row : DatabaseRow}
    (hawaiting : task.awaiting = .deleteDatabase session id)
    (hrow : row ∈ s.store.repo.databases) (hid : row.id = id.asStr) :
    Sound (s.put i ⟨task.call, .answered (.ok .deleted)⟩
      { s.store with repo := s.store.repo.withoutDatabase id }) := by
  have hopen : Open s i := open_of_awaiting hp fun result h => by rw [hawaiting] at h; cases h
  obtain ⟨hrequest, hsession, howned⟩ : task.call.request = .delete id.asStr ∧
      task.call.ctx.session = some session ∧ Owned s id.asStr session.org.asStr := by
    cases h.stages i task hp with
    | deleting call session' id' hrequest hsession howned =>
      cases hawaiting
      exact ⟨hrequest, hsession, howned⟩
    | _ => cases hawaiting
  refine ⟨stages_put h.stages (owned_put hopen _ _)
    (.deleted task.call session id.asStr hrequest hsession (owned_put hopen _ _ _ _ howned)),
    h.distinct.delete _, ?_⟩
  rw [Pool.put_store, D1Repo.withoutDatabase, ← hid]
  refine h.life.delete (k := i) hrow ?_ ?_
  · intro j db
    rw [created_put hopen]
    refine or_iff_left ?_
    rintro ⟨-, hnew⟩
    cases hnew
  · intro j id'
    rw [deleted_put hopen, hid]
    refine or_congr_right (and_congr_right fun _ => ?_)
    constructor
    · rintro ⟨-, hrequest'⟩
      exact DatabaseRequest.delete.inj (hrequest'.symm.trans hrequest)
    · rintro rfl
      exact ⟨⟨_, rfl⟩, hrequest⟩

variable [ScanOrder]

omit [ScanOrder] in
/-- Calls that do not write to the table of databases leave it alone. -/
theorem databases_of_serves {ids : FreshIds} {d d' : D1Repo} {call : RepoCall}
    (h : D1Repo.Serves ids d call d') (hcall : writesDatabases call = false) :
    d'.databases = d.databases := by
  cases h with
  | database row hnew => cases hcall
  | databaseDeleted id => cases hcall
  | _ => rfl

theorem Sound.moves (h : Sound s) (hmoves : Pool.Moves system s s') : Sound s' := by
  cases hmoves with
  | arrive i call hfree =>
    have hopen : Open s i := fun task htask => by
      rw [hfree] at htask
      cases htask
    obtain ⟨hstage, hfails⟩ := stage_start (s := s.put i (start call) s.store) call
    exact h.put_quiet hopen hfails rfl (List.Subset.refl _) hstage
  | turn i ids task task' store hp hturn =>
    cases turns hturn with
    | created session name id nowMs row hawaiting hid hrow hnew =>
      exact h.put_created hp hawaiting hid hrow hnew
    | found session id row hawaiting hrow hid horg =>
      have hopen : Open s i :=
        open_of_awaiting hp fun result heq => by rw [hawaiting] at heq; cases heq
      refine h.put_quiet hopen (fun _ heq => by cases heq) rfl (List.Subset.refl _) ?_
      -- What was found is remembered as what some request created: that outlives the row.
      obtain ⟨j, db, hdb, hdbid, hdborg⟩ := h.life.rowsCreated row hrow
      have howned : Owned s id.asStr session.org.asStr :=
        ⟨j, db, hdb, hdbid.trans hid, hdborg.trans horg⟩
      cases h.stages i task hp with
      | looking call session' id' hrequest hsession =>
        cases hawaiting
        exact .deleting call _ _ hrequest hsession (owned_put hopen _ _ _ _ howned)
      | _ => cases hawaiting
    | deleted session id row hawaiting hrow hid => exact h.put_deleted hp hawaiting hrow hid
    | failed e generated hgenerated =>
      have hopen : Open s i := by
        refine open_of_awaiting hp fun result heq => ?_
        have hnone : turn ids task s.store = none := by rw [turn, heq]
        rw [show turn ids task s.store = _ from hturn] at hnone
        cases hnone
      exact h.put_quiet hopen (fun _ heq => by cases heq) rfl hgenerated (.failed task.call e)
  | others call store hothers =>
    change others call s.store = some store at hothers
    rw [others] at hothers
    split at hothers
    · cases hothers
    · next hcall =>
      obtain rfl := Option.some.inj hothers
      -- The other call writes to other tables only.
      have hrows := databases_of_serves (D1Repo.serves call.1 s.store.repo call.2)
        (Bool.eq_false_iff.mpr hcall)
      refine ⟨fun i task hp => (h.stages i task hp).mono fun _ _ howned => howned,
        h.distinct.congr hrows, ?_⟩
      exact hrows ▸ h.life

end

/-! ## Runs -/

section

variable [ScanOrder]

theorem sound_of_run {labels : List Label} {s : State}
    (h : Machine.run (Pool.step system) labels initial = some s) : Sound s :=
  Pool.run_keeps h sound_initial fun _ _ hs hmoves => hs.moves hmoves

/-- A database that was created is there, as it was created, until a request to delete
it succeeds, and from then on it is gone. Names are unique, every other request to
delete it fails, and one that succeeds is of the organization that it belongs to. -/
theorem database_lifecycle {labels labels' : List Label} {s s' : State}
    (h : Machine.run (Pool.step system) labels initial = some s)
    (h' : Machine.run (Pool.step system) labels' s = some s') :
    (∀ r ∈ s.store.repo.databases, ∀ r' ∈ s.store.repo.databases,
      r.orgId = r'.orgId → r.name = r'.name → r = r') ∧
    (∀ i db, Created s i db → (∀ j, ¬ Deleted s' j db.id) →
      ∃ r ∈ s'.store.repo.databases, r.id = db.id ∧ r.orgId = db.orgId ∧ r.name = db.name) ∧
    (∀ i id, Deleted s i id → ∀ r ∈ s'.store.repo.databases, r.id ≠ id) ∧
    (∀ i id, Deleted s i id → ∀ j call result, j ≠ i →
      s'.requests j = some ⟨call, .answered result⟩ → call.request = .delete id →
      ∃ e, result = .error e) ∧
    (∀ i id call awaiting, Deleted s i id → s.requests i = some ⟨call, awaiting⟩ →
      (∃ j db, Created s j db ∧ db.id = id) ∧
      ∀ j db, Created s j db → db.id = id →
        ∃ session, call.ctx.session = some session ∧ db.orgId = session.org.asStr) := by
  have hs := sound_of_run h
  have hall : Machine.run (Pool.step system) (labels ++ labels') initial = some s' := by
    rw [Machine.run_append, h]
    exact h'
  have hs' := sound_of_run hall
  have hkeep : ∀ i call result, s.requests i = some ⟨call, .answered result⟩ →
      s'.requests i = some ⟨call, .answered result⟩ := fun i call result hi =>
    Pool.run_settled h' hi fun _ _ => rfl
  have hdeleted : ∀ i id, Deleted s i id → Deleted s' i id :=
    fun i id ⟨call, response, hi, hrequest⟩ => ⟨call, response, hkeep i _ _ hi, hrequest⟩
  refine ⟨?_, ?_, ?_, ?_, ?_⟩
  · intro r hr r' hr' horg hname
    refine hs.distinct.eq_of_key (List.mem_cons_of_mem _ List.mem_cons_self) hr hr' ?_
    exact Prod.ext horg hname
  · rintro i db ⟨call, hi⟩ hnone
    exact (hs'.life.live i db ⟨call, hkeep i _ _ hi⟩).resolve_left fun ⟨j, hj⟩ => hnone j hj
  · intro i id hi
    exact hs'.life.gone i id (hdeleted i id hi)
  · intro i id hi j call result hne hj hrequest
    cases result with
    | error e => exact ⟨e, rfl⟩
    | ok response =>
      have hsame := hs'.life.deletedOnce i j id (hdeleted i id hi) ⟨call, response, hj, hrequest⟩
      exact absurd hsame.symm hne
  · intro i id call awaiting hdel hi
    refine ⟨hs.life.deletedCreated i id hdel, ?_⟩
    obtain ⟨call', session, ⟨_, hi'⟩, hsession, k, db', hk, hid, horg⟩ := hs.owned_of_deleted hdel
    obtain ⟨rfl, -⟩ := Task.mk.inj (Option.some.inj (hi.symm.trans hi'))
    intro j db hj hdbid
    obtain rfl := hs.life.once j k db db' hj hk (hdbid.trans hid.symm)
    obtain ⟨_, hj⟩ := hj
    obtain ⟨_, hk⟩ := hk
    rw [hj] at hk
    cases hk
    exact ⟨session, hsession, horg⟩

end

/-- Two requests look at one database and then delete it, and it is created anew under
its name in between. -/
theorem database_lifecycle_race :
    let _ := ScanOrder.oldestFirst
    let ids : String → FreshIds := fun n => ⟨⟨n⟩, ⟨n⟩, ⟨n⟩, ⟨n⟩⟩
    let ctx : RpcContext := ⟨some ⟨⟨"0"⟩, "ada@x.org", ⟨"0"⟩, .admin, 9⟩⟩
    let labels : List Label := [
      .others (ids "0", .createPasswordUser ⟨"ada@x.org", "hash"⟩ 1),
      .arrive 0 ⟨ctx, 2, .create "main"⟩, .turn 0 (ids "1"),
      .arrive 1 ⟨ctx, 3, .delete "1"⟩, .arrive 2 ⟨ctx, 3, .delete "1"⟩,
      .turn 1 (ids "2"), .turn 2 (ids "3"), .turn 1 (ids "4"),
      .arrive 3 ⟨ctx, 4, .create "main"⟩, .turn 3 (ids "5")]
    let labels' : List Label := [.turn 2 (ids "6")]
    ∃ s s', Machine.run (Pool.step system) labels initial = some s ∧
      Machine.run (Pool.step system) labels' s = some s' ∧ Deleted s 1 "1" ∧
      s'.store.repo.databases.map DatabaseRow.id = ["5"] ∧
      ∀ r ∈ s'.store.repo.databases, r.id ≠ "1" := by
  intro _ ids ctx labels labels'
  have hrun : ∃ s s', Machine.run (Pool.step system) labels initial = some s ∧
      Machine.run (Pool.step system) labels' s = some s' ∧ Deleted s 1 "1" ∧
      s'.store.repo.databases.map DatabaseRow.id = ["5"] :=
    ⟨_, _, rfl, rfl, ⟨_, _, rfl, rfl⟩, rfl⟩
  obtain ⟨s, s', h, h', hdeleted, hids⟩ := hrun
  exact ⟨s, s', h, h', hdeleted, hids, (database_lifecycle h h').2.2.1 1 "1" hdeleted⟩

end DatabaseRaces

end EdgeReplica
