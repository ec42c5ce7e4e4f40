-- SUMMARY: Tenant isolation: what a request can do to the data of an organization, over all runs of the admin service.
import EdgeReplica.Lib.Machine
import EdgeReplica.Services.AdminServed

/-!
# Tenants

Every session is rooted on a personal organization that its user owns, so no two
users share one; and a request reaches no database but those of the organization of
its session.
-/

namespace EdgeReplica

open Effect (final)
open InMemoryRepo (Fresh)
open SessionAuth (Minted)
open Text (Lowercase)
open Tokens (MintSessionInput MintSyncInput)

namespace AdminServer

/-! ## The invariant -/

/-- The rows of the repository agree with their keys, and whoever is a member of a
personal organization owns it and is its admin. -/
structure Tenancy (g : InMemoryRepo) : Prop where
  orgIds {id : OrgId} {org : Domain.Organization} :
    g.organizations.lookup id = some org → org.id = id
  members {userId : UserId} {orgId : OrgId} {m : Domain.OrgMembership} :
    g.orgMemberships.lookup (userId, orgId) = some m →
      ∃ org, g.organizations.lookup orgId = some org ∧
        (org.personal = true → org.ownerUserId = some userId ∧ m.role = .admin)
  databaseIds {id : DatabaseId} {db : Domain.Database} :
    g.databases.lookup id = some db → db.id = id

/-- The session names a personal organization that its user owns and administers. -/
def Rooted (g : InMemoryRepo) (input : MintSessionInput) : Prop :=
  (∃ org, g.organizations.lookup input.org = some org ∧ org.personal = true ∧
    org.ownerUserId = some input.userId) ∧
  (∃ m, g.orgMemberships.lookup (input.userId, input.org) = some m ∧ m.role = .admin) ∧
  input.role = .admin

structure Inv (s : AdminServer) : Prop where
  tenancy : Tenancy s.repo
  rooted : ∀ input ∈ s.sessions, Rooted s.repo input

theorem empty_inv : empty.Inv where
  tenancy := ⟨nofun, nofun, nofun⟩
  rooted := nofun

section

variable {g : InMemoryRepo} {ids : FreshIds} {input : NewUser} {nowMs : Int64}

/-- Nobody is a member of an organization that does not exist. -/
theorem Tenancy.notMem_members (hg : Tenancy g) {userId : UserId} {orgId : OrgId}
    (horg : orgId ∉ g.organizations) : (userId, orgId) ∉ g.orgMemberships := by
  intro hmem
  obtain ⟨m, hm⟩ := Option.isSome_iff_exists.mp (AList.lookup_isSome.mpr hmem)
  obtain ⟨org, hlookup, -⟩ := hg.members hm
  exact horg (AList.lookup_isSome.mp (by rw [hlookup]; rfl))

theorem Tenancy.insertUser (hg : Tenancy g) (hfresh : Fresh ids g) :
    Tenancy (g.insertUser ids input nowMs) where
  orgIds := by
    intro id org horg
    rcases HashMap.lookup_insert_eq_some.mp horg with ⟨rfl, rfl⟩ | ⟨-, hold⟩
    · rfl
    · exact hg.orgIds hold
  members := by
    intro userId orgId m hm
    rcases HashMap.lookup_insert_eq_some.mp hm with ⟨hkey, rfl⟩ | ⟨-, hold⟩
    · cases hkey
      exact ⟨_, AList.lookup_insert _, fun _ => ⟨rfl, rfl⟩⟩
    · obtain ⟨org, horg, hmember⟩ := hg.members hold
      exact ⟨org, HashMap.lookup_insert_of_notMem hfresh.2.2.1 horg, hmember⟩
  databaseIds := hg.databaseIds

theorem Rooted.insertUser (hg : Tenancy g) (hfresh : Fresh ids g) {session : MintSessionInput}
    (h : Rooted g session) : Rooted (g.insertUser ids input nowMs) session := by
  obtain ⟨⟨org, horg, howner⟩, ⟨m, hm, hadmin⟩, hrole⟩ := h
  exact ⟨⟨org, HashMap.lookup_insert_of_notMem hfresh.2.2.1 horg, howner⟩,
    ⟨m, HashMap.lookup_insert_of_notMem (hg.notMem_members hfresh.2.2.1) hm, hadmin⟩, hrole⟩

theorem Rooted.of_listed (hg : Tenancy g) {session : MintSessionInput} (h : ListedFor g session) :
    Rooted g session := by
  obtain ⟨orgId, org, m, hm, horg, hpersonal, hid, hrole⟩ := h
  have hkey : session.org = orgId := hid.trans (hg.orgIds horg)
  obtain ⟨org', horg', hmember⟩ := hg.members hm
  obtain rfl : org = org' := Option.some.inj (horg.symm.trans horg')
  obtain ⟨howner, hadmin⟩ := hmember hpersonal
  rw [← hkey] at hm horg
  exact ⟨⟨org, horg, hpersonal, howner⟩, ⟨m, hm, hadmin⟩, hrole.trans hadmin⟩

theorem Tenancy.insertDatabase (hg : Tenancy g) {id : DatabaseId} {db : Domain.Database}
    (hid : db.id = id) : Tenancy { g with databases := g.databases.insert id db } where
  orgIds := hg.orgIds
  members := hg.members
  databaseIds := by
    intro id' db' hdb
    rcases HashMap.lookup_insert_eq_some.mp hdb with ⟨rfl, rfl⟩ | ⟨-, hold⟩
    · exact hid
    · exact hg.databaseIds hold

theorem Tenancy.eraseDatabase (hg : Tenancy g) (id : DatabaseId) :
    Tenancy { g with databases := g.databases.erase id } where
  orgIds := hg.orgIds
  members := hg.members
  databaseIds hdb := hg.databaseIds (HashMap.lookup_erase_eq_some.mp hdb).2

end

variable [TokenClaimsCodec]

/-! ## Every request keeps the invariant -/

section

variable {app : AppState} {call : Call} {s : AdminServer} {r : Result}

theorem OpensSession.inv (h : OpensSession app s r) (hs : s.Inv) : (final r).Inv := by
  cases h with
  | fails e => exact hs
  | opens input info listed =>
    refine ⟨hs.tenancy, fun input' hinput' => ?_⟩
    rcases List.mem_cons.mp hinput' with rfl | hold
    · exact .of_listed hs.tenancy listed
    · exact hs.rooted input' hold

/-- Every request keeps the invariant. -/
theorem Served.inv (h : Served app call s r) (hfresh : Fresh call.env.ids s.repo) (hs : s.Inv) :
    (final r).Inv := by
  cases h with
  | fails e => exact hs
  | whoami info => exact hs
  | signup input opens =>
    exact opens.inv ⟨hs.tenancy.insertUser hfresh,
      fun input hinput => (hs.rooted input hinput).insertUser hs.tenancy hfresh⟩
  | login opens => exact opens.inv hs
  | createDatabase session db hsession hid horg =>
    exact ⟨hs.tenancy.insertDatabase hid, hs.rooted⟩
  | listDatabases session dbs hsession owned => exact hs
  | deleteDatabase session id db owned => exact ⟨hs.tenancy.eraseDatabase id, hs.rooted⟩
  | issueSyncToken session id db owned input hdatabase horg expUnix => exact ⟨hs.tenancy, hs.rooted⟩

end

/-! ## What a request reaches -/

/-- The databases of the other organizations. -/
def outside (org : OrgId) (s : AdminServer) (id : DatabaseId) : Option Domain.Database :=
  (s.repo.databases.lookup id).filter fun db => db.orgId ≠ org

/-- A sync token is for a database of the organization. -/
def IssuedFor (org : OrgId) (s : AdminServer) (input : MintSyncInput) : Prop :=
  input.org = org ∧ ∃ db, s.repo.databases.lookup input.database = some db ∧ db.orgId = org

/-- A request under a session for `org` reaches nothing outside of it. -/
structure Confined (app : AppState) (org : OrgId) (s : AdminServer) (r : Result) : Prop where
  outside : (final r).outside org = s.outside org
  returned {response : Response} {t : AdminServer} : r = .ok response t → ∀ d ∈ response.dbs,
    ∃ db, t.repo.databases.lookup db.id = some db ∧ db.orgId = org ∧ d = databasePb db
  issued : (final r).syncs = s.syncs ∨
    ∃ input, (final r).syncs = input :: s.syncs ∧ IssuedFor org s input
  token {response : Pb.IssueSyncTokenResponse} {t : AdminServer} :
    r = .ok (.syncToken response) t →
      ∃ input, response.token = Tokens.mintSync app.keyring input ∧ IssuedFor org s input

/-- A request without a session reaches no database. -/
structure Public (s : AdminServer) (r : Result) : Prop where
  databases : (final r).repo.databases = s.repo.databases
  returned {response : Response} {t : AdminServer} : r = .ok response t → response.dbs = []
  issued : (final r).syncs = s.syncs
  token {response : Pb.IssueSyncTokenResponse} {t : AdminServer} : r ≠ .ok (.syncToken response) t

section

variable {app : AppState} {call : Call} {s t : AdminServer} {r : Result} {org : OrgId}

theorem OpensSession.public (h : OpensSession app s r) : Public s r := by
  cases h with
  | fails e => exact ⟨rfl, nofun, rfl, nofun⟩
  | opens input info listed =>
    refine ⟨rfl, fun heq => ?_, rfl, nofun⟩
    cases heq
    rfl

theorem Public.confined (h : Public s r) : Confined app org s r where
  outside := by
    unfold AdminServer.outside
    rw [h.databases]
  returned hr d hd := by
    rw [h.returned hr] at hd
    exact absurd hd List.not_mem_nil
  issued := .inl h.issued
  token hr := absurd hr h.token

/-- Signing up and logging in return no database and change none. -/
theorem OpensSession.public_of_signup {input : NewUser}
    (h : OpensSession app (s.withRepo (s.repo.insertUser call.env.ids input call.env.nowMs)) r) :
    Public s r :=
  ⟨h.public.databases, h.public.returned, h.public.issued, h.public.token⟩

theorem Served.public (h : Served app call s r) (hnone : call.ctx.session = none) :
    Public s r := by
  cases h with
  | fails e => exact ⟨rfl, nofun, rfl, nofun⟩
  | whoami info =>
    refine ⟨rfl, fun heq => ?_, rfl, nofun⟩
    cases heq
    rfl
  | signup input opens => exact opens.public_of_signup
  | login opens => exact opens.public
  | createDatabase session db hsession hid horg => cases hnone.symm.trans hsession
  | listDatabases session dbs hsession owned => cases hnone.symm.trans hsession
  | deleteDatabase session id db owned => cases hnone.symm.trans owned.hsession
  | issueSyncToken session id db owned input hdatabase horg expUnix =>
    cases hnone.symm.trans owned.hsession

omit [TokenClaimsCodec] in
theorem outside_insert {id : DatabaseId} (hid : id ∉ s.repo.databases) {db : Domain.Database}
    (horg : db.orgId = org) :
    (s.withDatabases (s.repo.databases.insert id db)).outside org = s.outside org := by
  funext id'
  show ((s.repo.databases.insert id db).lookup id').filter _ = _
  rw [HashMap.lookup_insert_eq]
  split
  · next heq =>
    rw [heq, AdminServer.outside, AList.lookup_eq_none.mpr hid]
    simp [horg]
  · rfl

omit [TokenClaimsCodec] in
theorem outside_erase {id : DatabaseId} {db : Domain.Database}
    (hdb : s.repo.databases.lookup id = some db) (horg : db.orgId = org) :
    (s.withDatabases (s.repo.databases.erase id)).outside org = s.outside org := by
  funext id'
  show ((s.repo.databases.erase id).lookup id').filter _ = _
  rw [HashMap.lookup_erase_eq]
  split
  · next heq =>
    rw [heq, AdminServer.outside, hdb]
    simp [Option.filter, horg]
  · rfl

/-- Whatever the request, the session bounds what it reaches. -/
theorem Served.confined (h : Served app call s r) (hfresh : Fresh call.env.ids s.repo) (hs : s.Inv)
    {session : SessionContext} (hctx : call.ctx.session = some session) :
    Confined app session.org s r := by
  cases h with
  | fails e => exact ⟨rfl, nofun, .inl rfl, nofun⟩
  | whoami info =>
    refine ⟨rfl, fun heq => ?_, .inl rfl, nofun⟩
    cases heq
    exact fun d hd => absurd hd List.not_mem_nil
  | signup input opens => exact opens.public_of_signup.confined
  | login opens => exact opens.public.confined
  | createDatabase session' db hsession hid horg =>
    obtain rfl : session = session' := Option.some.inj (hctx.symm.trans hsession)
    refine ⟨outside_insert hfresh.2.2.2 horg, fun heq d hd => ?_, .inl rfl, nofun⟩
    cases heq
    obtain rfl : d = databasePb db := List.mem_singleton.mp hd
    exact ⟨db, by rw [hid]; exact AList.lookup_insert _, horg, rfl⟩
  | listDatabases session' dbs hsession owned =>
    obtain rfl : session = session' := Option.some.inj (hctx.symm.trans hsession)
    refine ⟨rfl, fun heq d hd => ?_, .inl rfl, nofun⟩
    cases heq
    obtain ⟨db, hdb, rfl⟩ := List.mem_map.mp hd
    obtain ⟨id, howned⟩ := owned db hdb
    exact ⟨db, by rw [hs.tenancy.databaseIds howned.present]; exact howned.present, howned.org, rfl⟩
  | deleteDatabase session' id db owned =>
    obtain rfl : session = session' := Option.some.inj (hctx.symm.trans owned.hsession)
    refine ⟨outside_erase owned.present owned.org, fun heq d hd => ?_, .inl rfl, nofun⟩
    cases heq
    exact absurd hd List.not_mem_nil
  | issueSyncToken session' id db owned input hdatabase horg expUnix =>
    obtain rfl : session = session' := Option.some.inj (hctx.symm.trans owned.hsession)
    have hissued : IssuedFor session.org s input := by
      refine ⟨horg, db, ?_, owned.org⟩
      rw [hdatabase, hs.tenancy.databaseIds owned.present]
      exact owned.present
    refine ⟨rfl, fun heq d hd => ?_, .inr ⟨input, rfl, hissued⟩, fun heq => ?_⟩
    · cases heq
      exact absurd hd List.not_mem_nil
    · cases heq
      exact ⟨input, rfl, hissued⟩

/-- A session token that is handed out is one of those on record. -/
theorem Served.logged {response : Pb.AuthResponse}
    (h : Served app call s (.ok (.auth response) t)) :
    ∃ input ∈ t.sessions, response.sessionToken = Tokens.mintSession app.keyring input := by
  cases h with
  | signup input opens =>
    cases opens with
    | opens input info listed => exact ⟨input, List.mem_cons_self, rfl⟩
  | login opens =>
    cases opens with
    | opens input info listed => exact ⟨input, List.mem_cons_self, rfl⟩

end

/-! ## Runs -/

/-- Identifiers are generated fresh, and a session was minted here. -/
def Call.Enabled (call : Call) (s : AdminServer) : Prop :=
  Fresh call.env.ids s.repo ∧ ∀ session ∈ call.ctx.session, Minted s.sessions session

instance (call : Call) (s : AdminServer) : Decidable (call.Enabled s) := by
  unfold Call.Enabled
  infer_instance

section

variable [HashOrder] [Argon2] [Lowercase]

def step (app : AppState) (call : Call) (s : AdminServer) : Option AdminServer :=
  if call.Enabled s then some (final (result app call s)) else none

theorem step_eq_some {app : AppState} {call : Call} {s t : AdminServer} :
    step app call s = some t ↔ call.Enabled s ∧ final (result app call s) = t := by
  unfold step
  split <;> simp_all

/-- The invariant holds in every run. -/
theorem inv_of_run {app : AppState} {calls : List Call} {s : AdminServer}
    (hrun : Machine.run (step app) calls empty = some s) : s.Inv := by
  refine Machine.run_keeps hrun empty_inv fun call _ s t hstep hs => ?_
  obtain ⟨henabled, rfl⟩ := step_eq_some.mp hstep
  exact (served app call s).inv henabled.1 hs

/-- Tenants are isolated. In every run the sessions minted so far name personal
organizations that their users own and administer, and no organization is named by
the sessions of two users. Any next request stays within the organization of its
session, and reaches no database without one. -/
theorem tenants_isolated (app : AppState) {calls : List Call} {s : AdminServer}
    (hrun : Machine.run (step app) calls empty = some s) :
    (∀ input ∈ s.sessions, Rooted s.repo input) ∧
    (∀ i ∈ s.sessions, ∀ j ∈ s.sessions, i.org = j.org → i.userId = j.userId) ∧
    ∀ call : Call, call.Enabled s →
      (∀ session, call.ctx.session = some session →
        Confined app session.org s (result app call s)) ∧
      (call.ctx.session = none → Public s (result app call s)) ∧
      ∀ response t, result app call s = .ok (.auth response) t →
        ∃ input ∈ t.sessions, response.sessionToken = Tokens.mintSession app.keyring input := by
  have hs : s.Inv := inv_of_run hrun
  refine ⟨hs.rooted, fun i hi j hj horg => ?_, fun call henabled => ⟨?_, ?_, ?_⟩⟩
  · -- Both own the organization they name.
    obtain ⟨⟨org, horg₁, -, howner₁⟩, -⟩ := hs.rooted i hi
    obtain ⟨⟨org', horg₂, -, howner₂⟩, -⟩ := hs.rooted j hj
    rw [horg] at horg₁
    obtain rfl : org = org' := Option.some.inj (horg₁.symm.trans horg₂)
    exact Option.some.inj (howner₁.symm.trans howner₂)
  · exact fun session hctx => (served app call s).confined henabled.1 hs hctx
  · exact fun hnone => (served app call s).public hnone
  · intro response t hr
    have hserved := served app call s
    rw [hr] at hserved
    exact hserved.logged

end

omit [TokenClaimsCodec]

def sampleApp : AppState := { keyring := ⟨Tokens.sampleKey 0⟩ }

/-- The surroundings of the `n`-th request. -/
def sampleEnv (n : String) : Env where
  nowMs := 1000
  nowUnix := 1
  ids := ⟨⟨"u_" ++ n⟩, ⟨"i_" ++ n⟩, ⟨"o_" ++ n⟩, ⟨"db_" ++ n⟩⟩
  salt := "salt"

def adaSession : SessionContext := ⟨⟨"u_1"⟩, "ada@example.com", ⟨"o_1"⟩, .admin, 100⟩

def bobSession : SessionContext := ⟨⟨"u_2"⟩, "bob@example.com", ⟨"o_2"⟩, .admin, 100⟩

/-- Ada and Bob sign up, and Ada creates a database. -/
def sampleCalls : List Call :=
  [⟨⟨none⟩, sampleEnv "1", .signup "ada@example.com" "correct horse"⟩,
    ⟨⟨none⟩, sampleEnv "2", .signup "bob@example.com" "battery staple"⟩,
    ⟨⟨some adaSession⟩, sampleEnv "3", .createDatabase "main"⟩]

/-- Bob tries to delete it. -/
def sampleDelete : Call := ⟨⟨some bobSession⟩, sampleEnv "4", .deleteDatabase "db_3"⟩

theorem tenants_isolated_sample :
    letI := TokenClaimsCodec.protobuf
    letI := Argon2.readable
    letI := Lowercase.ascii
    letI := HashOrder.newestFirst
    ∃ s, Machine.run (step sampleApp) sampleCalls empty = some s ∧
      (∀ i ∈ s.sessions, ∀ j ∈ s.sessions, i.org = j.org → i.userId = j.userId) ∧
      s.sessions.map (·.org) = [⟨"o_2"⟩, ⟨"o_1"⟩] ∧
      Confined sampleApp ⟨"o_2"⟩ s (result sampleApp sampleDelete s) := by
  let _ := TokenClaimsCodec.protobuf
  let _ := Argon2.readable
  let _ := Lowercase.ascii
  let _ := HashOrder.newestFirst
  have hrun : (Machine.run (step sampleApp) sampleCalls empty).map (fun s =>
      (s.sessions.map (·.org), decide (sampleDelete.Enabled s))) =
      some ([⟨"o_2"⟩, ⟨"o_1"⟩], true) := by decide +kernel
  obtain ⟨s, hs, heq⟩ := Option.map_eq_some_iff.mp hrun
  obtain ⟨horgs, henabled⟩ := Prod.mk.inj heq
  obtain ⟨-, hdistinct, hnext⟩ := tenants_isolated sampleApp hs
  exact ⟨s, hs, hdistinct, horgs,
    (hnext sampleDelete (of_decide_eq_true henabled)).1 bobSession rfl⟩

end AdminServer

end EdgeReplica
