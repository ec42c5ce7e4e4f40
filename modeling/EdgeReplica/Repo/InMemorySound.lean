-- SUMMARY: What every run of the in-memory repository keeps: unique emails, admins, and databases that belong somewhere.
import EdgeReplica.Repo.Calls

/-!
# Invariants of the in-memory repository

The tables are linked by identifiers that nothing but the operations' own checks keeps
right. `Change` lists what a call can do to them, with the checks it has passed;
the invariants are kept by each change, so by every run.
-/

namespace EdgeReplica

open Text (Lowercase)
open Effect (Outcome final)
open Domain (Identity Organization OrgMembership OAuthState)

namespace InMemoryRepo

variable [HashOrder] [Lowercase]

/-! ## What a call changes -/

/-- What a call can do to the tables, and what it has checked. -/
inductive Change (ids : FreshIds) (g : InMemoryRepo) : InMemoryRepo → Prop
  | user (input : NewUser) (nowMs : Int64) (hemail : g.findUserByEmail input.email = none) :
      Change ids g (g.insertUser ids input nowMs)
  | identity (id : IdentityId) (identity : Identity) :
      Change ids g { g with identities := g.identities.insert id identity }
  | organization (org : Organization) (owner : OrgMembership) (hid : org.id = ids.orgId)
      (hpersonal : org.personal = false) (hrole : owner.role = .admin)
      (horg : owner.orgId = ids.orgId) (howner : owner.userId ∈ g.users) :
      Change ids g { g with
        organizations := g.organizations.insert ids.orgId org
        orgMemberships := g.orgMemberships.insert (owner.userId, ids.orgId) owner }
  | dissolve (id : OrgId) (org : Organization) (horg : g.organizations.lookup id = some org)
      (hpersonal : org.personal = false)
      (hempty : ∀ dbId db, g.databases.lookup dbId = some db → db.orgId ≠ id) :
      Change ids g { g with
        organizations := g.organizations.erase id
        orgMemberships := HashMap.retain (fun key _ => key.2 ≠ id) g.orgMemberships }
  | join (m : OrgMembership) (hnew : (m.userId, m.orgId) ∉ g.orgMemberships) :
      Change ids g { g with
        orgMemberships := g.orgMemberships.insert (m.userId, m.orgId) m }
  | leave (userId : UserId) (orgId : OrgId) (m : OrgMembership)
      (hm : g.orgMemberships.lookup (userId, orgId) = some m)
      (hadmin : m.role = .admin → 1 < (g.admins orgId).length) :
      Change ids g { g with orgMemberships := g.orgMemberships.erase (userId, orgId) }
  | database (db : Domain.Database) (hid : db.id = ids.databaseId)
      (horg : db.orgId ∈ g.organizations)
      (hname : ∀ id db', g.databases.lookup id = some db' →
        ¬ (db'.orgId = db.orgId ∧ db'.name = db.name)) :
      Change ids g { g with databases := g.databases.insert ids.databaseId db }
  | drop (id : DatabaseId) : Change ids g { g with databases := g.databases.erase id }
  | oauth (states : HashMap String OAuthState) : Change ids g { g with oauthStates := states }

/-- The call fails and changes nothing, or returns after one change at most. -/
def Served {α : Type} (ids : FreshIds) (g : InMemoryRepo) (m : RepoM α) : Prop :=
  Outcome (fun _ g' => g' = g ∨ Change ids g g') (fun _ g' => g' = g) (m.run g)

section

variable {α β : Type} {ids : FreshIds} {g g' : InMemoryRepo} {m : RepoM α}

theorem Served.map (h : Served ids g m) (f : α → β) : Served ids g (f <$> m) := by
  unfold Served at h ⊢
  rw [Effect.run_map]
  cases hrun : m.run g <;> (rw [hrun] at h; exact h)

theorem Served.reads {a : α} (hrun : m.run g = .ok a g) : Served ids g m := by
  rw [Served, hrun]
  exact .inl rfl

theorem Served.fails {e : StoreError} (hrun : m.run g = .error e g) : Served ids g m := by
  rw [Served, hrun]
  rfl

theorem Served.writes {a : α} (hrun : m.run g = .ok a g') (h : Change ids g g') :
    Served ids g m := by
  rw [Served, hrun]
  exact .inr h

end

section

variable (ids : FreshIds) (g : InMemoryRepo)

theorem served_createUser (input : NewUser) (nowMs : Int64) :
    Served ids g (createUser ids input nowMs) := by
  cases hemail : g.findUserByEmail input.email with
  | some u =>
    refine .fails (e := .alreadyExists s!"user with email {input.email}") ?_
    simp [createUser, hemail]
  | none =>
    refine .writes (a := ⟨ids.userId, input.email, input.emailVerified, nowMs⟩) ?_
      (.user input nowMs hemail)
    simp only [createUser, EStateM.run_bind, EStateM.run_get, hemail]
    rfl

theorem served_linkIdentity (userId : UserId) (provider providerUserId : String)
    (secret : Option String) (nowMs : Int64) :
    Served ids g (linkIdentity ids userId provider providerUserId secret nowMs) := by
  cases hold : g.identityOf provider providerUserId with
  | none =>
    let identity : Identity := ⟨ids.identityId, userId, provider, providerUserId, secret, nowMs⟩
    refine .writes (a := identity) ?_ (.identity ids.identityId identity)
    simp only [linkIdentity, EStateM.run_bind, EStateM.run_get, hold]
    rfl
  | some existing =>
    by_cases huser : existing.userId = userId
    · exact .reads (a := existing) (by simp [linkIdentity, hold, huser])
    · let e : StoreError :=
        .conflict s!"identity {provider}:{providerUserId} belongs to another user"
      refine .fails (e := e) ?_
      simp only [linkIdentity, EStateM.run_bind, EStateM.run_get, hold]
      rw [if_pos huser]
      rfl

theorem served_updateIdentitySecret (identityId : IdentityId) (newSecret : String) :
    Served ids g (updateIdentitySecret identityId newSecret) := by
  cases hold : g.identities.lookup identityId with
  | none =>
    refine .fails (e := .notFound s!"identity {identityId.asStr}") ?_
    simp [updateIdentitySecret, hold]
  | some identity =>
    refine .writes (a := ()) ?_
      (.identity identityId { identity with secret := some newSecret })
    simp only [updateIdentitySecret, EStateM.run_bind, EStateM.run_get, hold]
    rfl

theorem served_createOrganization (displayName : String) (ownerUserId : UserId) (nowMs : Int64) :
    Served ids g (createOrganization ids displayName ownerUserId nowMs) := by
  by_cases howner : ownerUserId ∈ g.users
  · let org : Organization := ⟨ids.orgId, displayName, false, some ownerUserId, nowMs⟩
    refine .writes (a := org) ?_
      (.organization org ⟨ownerUserId, ids.orgId, .admin, nowMs⟩ rfl rfl rfl rfl howner)
    simp only [createOrganization, EStateM.run_bind, EStateM.run_get, howner]
    rfl
  · refine .fails (e := .notFound s!"user {ownerUserId.asStr}") ?_
    simp [createOrganization, howner]

theorem served_deleteOrganization (id : OrgId) : Served ids g (deleteOrganization id) := by
  cases horg : g.organizations.lookup id with
  | none =>
    refine .fails (e := .notFound s!"organization {id.asStr}") ?_
    simp [deleteOrganization, horg]
  | some org =>
    cases hpersonal : org.personal with
    | true =>
      refine .fails (e := .conflict "personal organizations are deleted with the user") ?_
      simp [deleteOrganization, horg, hpersonal]
    | false =>
      cases hattached : (HashMap.values g.databases).any fun d => d.orgId = id with
      | true =>
        let e : StoreError := .conflict "cannot delete organization: databases still attached"
        refine .fails (e := e) ?_
        simp only [deleteOrganization, EStateM.run_bind, EStateM.run_get, horg, hpersonal,
          hattached]
        rfl
      | false =>
        refine .writes (a := ()) ?_ (.dissolve id org horg hpersonal ?_)
        · simp only [deleteOrganization, EStateM.run_bind, EStateM.run_get, horg, hpersonal,
            hattached]
          rfl
        · intro dbId db hdb
          simpa using List.any_eq_false.mp hattached db (HashMap.mem_values.mpr ⟨dbId, hdb⟩)

theorem served_addOrgMembership (userId : UserId) (orgId : OrgId) (role : Role) (nowMs : Int64) :
    Served ids g (addOrgMembership userId orgId role nowMs) := by
  by_cases hold : (userId, orgId) ∈ g.orgMemberships
  · refine .fails (e := .alreadyExists s!"org membership {userId.asStr} -> {orgId.asStr}") ?_
    simp [addOrgMembership, hold]
  · refine .writes (a := ()) ?_ (.join ⟨userId, orgId, role, nowMs⟩ hold)
    simp only [addOrgMembership, EStateM.run_bind, EStateM.run_get, hold]
    rfl

theorem served_removeOrgMembership (userId : UserId) (orgId : OrgId) :
    Served ids g (removeOrgMembership userId orgId) := by
  cases hold : g.orgMemberships.lookup (userId, orgId) with
  | none =>
    refine .fails (e := .notFound "org membership") ?_
    simp [removeOrgMembership, hold]
  | some m =>
    by_cases hlast : m.role = .admin ∧ (g.admins orgId).length ≤ 1
    · refine .fails (e := .conflict "cannot remove the last admin of an organization") ?_
      simp [removeOrgMembership, hold, hlast]
    · refine .writes (a := ()) ?_ (.leave userId orgId m hold ?_)
      · simp only [removeOrgMembership, EStateM.run_bind, EStateM.run_get, hold, hlast]
        rfl
      · intro hrole
        exact Nat.lt_of_not_le fun hle => hlast ⟨hrole, hle⟩

theorem served_createDatabase (orgId : OrgId) (name : String) (createdBy : UserId)
    (nowMs : Int64) : Served ids g (createDatabase ids orgId name createdBy nowMs) := by
  by_cases horg : orgId ∈ g.organizations
  · cases hname : (HashMap.values g.databases).any fun d => d.orgId = orgId ∧ d.name = name with
    | true =>
      refine .fails (e := .alreadyExists s!"database '{name}' in {orgId.asStr}") ?_
      simp only [createDatabase, EStateM.run_bind, EStateM.run_get, horg, hname]
      rfl
    | false =>
      let db : Domain.Database := ⟨ids.databaseId, orgId, name, createdBy, nowMs⟩
      refine .writes (a := db) ?_ (.database db rfl horg ?_)
      · simp only [createDatabase, EStateM.run_bind, EStateM.run_get, horg, hname]
        rfl
      · intro id db' hdb'
        simpa using List.any_eq_false.mp hname db' (HashMap.mem_values.mpr ⟨id, hdb'⟩)
  · refine .fails (e := .notFound s!"organization {orgId.asStr}") ?_
    simp [createDatabase, horg]

theorem served_deleteDatabase (id : DatabaseId) : Served ids g (deleteDatabase id) := by
  by_cases hold : id ∈ g.databases
  · exact .writes (a := ()) (by rw [run_deleteDatabase, if_pos hold]) (.drop id)
  · exact .fails (by rw [run_deleteDatabase, if_neg hold])

theorem served_consumeOAuthState (state : String) (nowMs : Int64) :
    Served ids g (consumeOAuthState state nowMs) := by
  cases hold : g.oauthStates.lookup state with
  | none => exact .reads (a := none) (by simp [consumeOAuthState, hold])
  | some s =>
    by_cases hexpired : s.expiresAtMs < nowMs
    · refine .writes (a := none) ?_ (.oauth (g.oauthStates.erase state))
      simp only [consumeOAuthState, EStateM.run_bind, EStateM.run_get, hold, hexpired]
      rfl
    · refine .writes (a := some s) ?_ (.oauth (g.oauthStates.erase state))
      simp only [consumeOAuthState, EStateM.run_bind, EStateM.run_get, hold, hexpired]
      rfl

/-- Whatever is called, the call fails and changes nothing, or makes one change at
most. -/
theorem served (call : RepoCall) : Served ids g (serve ids call) := by
  cases call with
  | getUser id => exact .reads rfl
  | getUserByEmail email => exact .reads rfl
  | listIdentities userId => exact .reads rfl
  | findIdentity provider providerUserId => exact .reads rfl
  | linkIdentity userId provider providerUserId secret nowMs =>
    exact (served_linkIdentity ids g userId provider providerUserId secret nowMs).map _
  | updateIdentitySecret identityId newSecret =>
    exact (served_updateIdentitySecret ids g identityId newSecret).map _
  | createPasswordUser input nowMs => exact (served_createUser ids g _ nowMs).map _
  | createOAuthUser input nowMs => exact (served_createUser ids g _ nowMs).map _
  | getOrganization id => exact .reads rfl
  | createOrganization displayName ownerUserId nowMs =>
    exact (served_createOrganization ids g displayName ownerUserId nowMs).map _
  | listOrganizationsForUser userId => exact .reads rfl
  | deleteOrganization id => exact (served_deleteOrganization ids g id).map _
  | getOrgMembership userId orgId => exact .reads rfl
  | addOrgMembership userId orgId role nowMs =>
    exact (served_addOrgMembership ids g userId orgId role nowMs).map _
  | removeOrgMembership userId orgId => exact (served_removeOrgMembership ids g userId orgId).map _
  | listOrgMemberships orgId => exact .reads rfl
  | createDatabase orgId name createdBy nowMs =>
    exact (served_createDatabase ids g orgId name createdBy nowMs).map _
  | getDatabase id => exact .reads rfl
  | listDatabasesForOrg orgId => exact .reads rfl
  | deleteDatabase id => exact (served_deleteDatabase ids g id).map _
  | storeOAuthState state => exact .writes rfl (.oauth (g.oauthStates.insert state.state state))
  | consumeOAuthState state nowMs => exact (served_consumeOAuthState ids g state nowMs).map _

end

/-! ## What the changes keep -/

/-- The rows of the tables fit together. -/
structure Sound (g : InMemoryRepo) : Prop where
  emails : ∀ id id' user user', g.users.lookup id = some user → g.users.lookup id' = some user' →
    Lowercase.toLowercase user.email = Lowercase.toLowercase user'.email → id = id'
  keyed : ∀ key m, g.orgMemberships.lookup key = some m → key = (m.userId, m.orgId)
  administered : ∀ orgId org, g.organizations.lookup orgId = some org →
    ∃ userId m, g.orgMemberships.lookup (userId, orgId) = some m ∧ m.role = .admin
  attached : ∀ id db, g.databases.lookup id = some db → db.orgId ∈ g.organizations
  names : ∀ id id' db db', g.databases.lookup id = some db → g.databases.lookup id' = some db' →
    db.orgId = db'.orgId → db.name = db'.name → id = id'

/-- The personal organizations are still there. -/
def PersonalKept (g g' : InMemoryRepo) : Prop :=
  ∀ orgId org, g.organizations.lookup orgId = some org → org.personal = true →
    g'.organizations.lookup orgId = some org

section

variable {ids : FreshIds} {g g' : InMemoryRepo}

theorem Change.emails (h : Change ids g g') (hg : Sound g) :
    ∀ id id' user user', g'.users.lookup id = some user → g'.users.lookup id' = some user' →
      Lowercase.toLowercase user.email = Lowercase.toLowercase user'.email → id = id' := by
  cases h with
  | user input nowMs hemail =>
    intro id id' user user' hid hid' heq
    -- Either may be the new user, whose email no search has found.
    rcases HashMap.lookup_insert_eq_some.mp hid with ⟨hnew, rfl⟩ | ⟨-, hold⟩ <;>
      rcases HashMap.lookup_insert_eq_some.mp hid' with ⟨hnew', rfl⟩ | ⟨-, hold'⟩
    · rw [hnew, hnew']
    · exact absurd heq.symm (findUserByEmail_eq_none.mp hemail _ _ hold')
    · exact absurd heq (findUserByEmail_eq_none.mp hemail _ _ hold)
    · exact hg.emails id id' user user' hold hold' heq
  | _ => exact hg.emails

theorem Change.keyed (h : Change ids g g') (hg : Sound g) :
    ∀ key m, g'.orgMemberships.lookup key = some m → key = (m.userId, m.orgId) := by
  have hinsert : ∀ (m : OrgMembership) (key : UserId × OrgId) (m' : OrgMembership),
      (g.orgMemberships.insert (m.userId, m.orgId) m).lookup key = some m' →
        key = (m'.userId, m'.orgId) := by
    intro m key m' hkey
    rcases HashMap.lookup_insert_eq_some.mp hkey with ⟨rfl, rfl⟩ | ⟨-, hold⟩
    · rfl
    · exact hg.keyed key m' hold
  cases h with
  | user input nowMs hemail => exact hinsert ⟨ids.userId, ids.orgId, .admin, nowMs⟩
  | organization org owner hid hpersonal hrole horg howner =>
    rw [← horg]
    exact hinsert owner
  | dissolve id org horg hpersonal hempty =>
    intro key m hkey
    exact hg.keyed key m (HashMap.lookup_retain.mp hkey).1
  | join m hnew => exact hinsert m
  | leave userId orgId m hm hadmin =>
    intro key m' hkey
    exact hg.keyed key m' (HashMap.lookup_erase_eq_some.mp hkey).2
  | _ => exact hg.keyed

omit [HashOrder] in
/-- A new row gives its organization an admin, and takes none from the others. -/
theorem administered_insert (hg : Sound g) {orgId : OrgId} (org : Organization)
    (m : OrgMembership) (hm : m.orgId = orgId → m.role = .admin)
    (horg : orgId ≠ m.orgId → g.organizations.lookup orgId = some org) :
    ∃ userId m', (g.orgMemberships.insert (m.userId, m.orgId) m).lookup (userId, orgId) = some m' ∧
      m'.role = .admin := by
  by_cases hsame : orgId = m.orgId
  · refine ⟨m.userId, m, ?_, hm hsame.symm⟩
    rw [hsame, AList.lookup_insert]
  · obtain ⟨userId, m', hm', hrole⟩ := hg.administered orgId org (horg hsame)
    refine ⟨userId, m', ?_, hrole⟩
    rw [AList.lookup_insert_ne, hm']
    exact fun heq => hsame (Prod.mk.inj heq).2

theorem Change.administered (h : Change ids g g') (hg : Sound g) :
    ∀ orgId org, g'.organizations.lookup orgId = some org →
      ∃ userId m, g'.orgMemberships.lookup (userId, orgId) = some m ∧ m.role = .admin := by
  cases h with
  | user input nowMs hemail =>
    intro orgId org horg
    refine administered_insert hg org ⟨ids.userId, ids.orgId, .admin, nowMs⟩ (fun _ => rfl) ?_
    intro hne
    simpa only [insertUser, insertPersonalOrgUnderLock, HashMap.lookup_insert_eq, if_neg hne]
      using horg
  | organization org owner hid hpersonal hrole horg howner =>
    intro orgId org' horg'
    rw [← horg] at horg' ⊢
    refine administered_insert hg org' _ (fun _ => hrole) ?_
    intro hne
    simpa only [HashMap.lookup_insert_eq, if_neg hne] using horg'
  | dissolve id org horg hpersonal hempty =>
    intro orgId org' horg'
    obtain ⟨hne, hold⟩ := HashMap.lookup_erase_eq_some.mp horg'
    obtain ⟨userId, m, hm, hrole⟩ := hg.administered orgId org' hold
    exact ⟨userId, m, HashMap.lookup_retain.mpr ⟨hm, by simpa using hne⟩, hrole⟩
  | join m hnew =>
    intro orgId org horg
    obtain ⟨userId, m', hm', hrole⟩ := hg.administered orgId org horg
    exact ⟨userId, m', HashMap.lookup_insert_of_notMem hnew hm', hrole⟩
  | leave userId orgId m hm hadmin =>
    intro orgId' org' horg'
    obtain ⟨userId', m', hm', hrole⟩ := hg.administered orgId' org' horg'
    by_cases hsame : (userId', orgId') = (userId, orgId)
    · -- The admin who leaves is not the last one.
      obtain ⟨rfl, rfl⟩ := Prod.mk.inj hsame
      obtain rfl : m' = m := Option.some.inj (hm'.symm.trans hm)
      obtain ⟨key, m₂, hne, hm₂, hother⟩ :=
        HashMap.exists_ne_of_two (hadmin hrole) (userId', orgId')
      obtain ⟨horg₂, hrole₂⟩ : m₂.orgId = orgId' ∧ m₂.role = .admin := by simpa using hother
      obtain rfl := hg.keyed key m₂ hm₂
      rw [horg₂] at hm₂ hne
      exact ⟨m₂.userId, m₂, (AList.lookup_erase_ne hne).trans hm₂, hrole₂⟩
    · exact ⟨userId', m', (AList.lookup_erase_ne hsame).trans hm', hrole⟩
  | _ => exact hg.administered

theorem Change.attached (h : Change ids g g') (hg : Sound g) :
    ∀ id db, g'.databases.lookup id = some db → db.orgId ∈ g'.organizations := by
  cases h with
  | user input nowMs hemail =>
    intro id db hdb
    exact (AList.mem_insert _).mpr (.inr (hg.attached id db hdb))
  | organization org owner hid hpersonal hrole horg howner =>
    intro id db hdb
    exact (AList.mem_insert _).mpr (.inr (hg.attached id db hdb))
  | dissolve id org horg hpersonal hempty =>
    intro dbId db hdb
    exact AList.mem_erase.mpr ⟨hempty dbId db hdb, hg.attached dbId db hdb⟩
  | database db hid horg hname =>
    intro id db' hdb'
    rcases HashMap.lookup_insert_eq_some.mp hdb' with ⟨-, rfl⟩ | ⟨-, hold⟩
    · exact horg
    · exact hg.attached id db' hold
  | drop id =>
    intro id' db hdb
    exact hg.attached id' db (HashMap.lookup_erase_eq_some.mp hdb).2
  | _ => exact hg.attached

theorem Change.names (h : Change ids g g') (hg : Sound g) :
    ∀ id id' db db', g'.databases.lookup id = some db → g'.databases.lookup id' = some db' →
      db.orgId = db'.orgId → db.name = db'.name → id = id' := by
  cases h with
  | database db hid horg hname =>
    intro id₁ id₂ db₁ db₂ h₁ h₂ horgs hnames
    rcases HashMap.lookup_insert_eq_some.mp h₁ with ⟨hnew₁, rfl⟩ | ⟨-, hold₁⟩ <;>
      rcases HashMap.lookup_insert_eq_some.mp h₂ with ⟨hnew₂, rfl⟩ | ⟨-, hold₂⟩
    · rw [hnew₁, hnew₂]
    · exact absurd ⟨horgs.symm, hnames.symm⟩ (hname id₂ db₂ hold₂)
    · exact absurd ⟨horgs, hnames⟩ (hname id₁ db₁ hold₁)
    · exact hg.names id₁ id₂ db₁ db₂ hold₁ hold₂ horgs hnames
  | drop id =>
    intro id₁ id₂ db₁ db₂ h₁ h₂
    exact hg.names id₁ id₂ db₁ db₂ (HashMap.lookup_erase_eq_some.mp h₁).2
      (HashMap.lookup_erase_eq_some.mp h₂).2
  | _ => exact hg.names

/-- Every change keeps the tables fitting together. -/
theorem Change.sound (h : Change ids g g') (hg : Sound g) : Sound g' where
  emails := h.emails hg
  keyed := h.keyed hg
  administered := h.administered hg
  attached := h.attached hg
  names := h.names hg

/-- No change takes a personal organization away, as long as new organizations get
identifiers of their own. -/
theorem Change.personalKept (h : Change ids g g') (hids : Fresh ids g) : PersonalKept g g' := by
  obtain ⟨-, -, hnew, -⟩ := hids
  cases h with
  | user input nowMs hemail =>
    intro orgId org horg _
    exact HashMap.lookup_insert_of_notMem hnew horg
  | organization org owner hid hpersonal hrole horg howner =>
    intro orgId org' horg' _
    exact HashMap.lookup_insert_of_notMem hnew horg'
  | dissolve id org horg hpersonal hempty =>
    intro orgId org' horg' hpersonal'
    have hne : orgId ≠ id := by
      rintro rfl
      rw [Option.some.inj (horg'.symm.trans horg), hpersonal] at hpersonal'
      cases hpersonal'
    exact (AList.lookup_erase_ne hne).trans horg'
  | _ => exact fun _ _ horg _ => horg

end

/-! ## Runs -/

/-- One call, with new identifiers; the state it leaves, whether it returned or
failed. -/
def step (l : FreshIds × RepoCall) (g : InMemoryRepo) : Option InMemoryRepo :=
  if Fresh l.1 g then some (final ((serve l.1 l.2).run g)) else none

theorem step_cases {l : FreshIds × RepoCall} {g g' : InMemoryRepo} (h : step l g = some g') :
    Fresh l.1 g ∧ (g' = g ∨ Change l.1 g g') := by
  rw [step] at h
  split at h
  · next hids =>
    refine ⟨hids, ?_⟩
    obtain rfl := Option.some.inj h
    have hserved := served l.1 g l.2
    unfold Served at hserved
    cases hrun : (serve l.1 l.2).run g with
    | ok reply g' =>
      rw [hrun] at hserved
      exact hserved
    | error e g' =>
      rw [hrun] at hserved
      exact .inl hserved
  · cases h

theorem step_sound {l : FreshIds × RepoCall} {g g' : InMemoryRepo} (h : step l g = some g')
    (hg : Sound g) : Sound g' := by
  obtain ⟨-, rfl | hchange⟩ := step_cases h
  · exact hg
  · exact hchange.sound hg

theorem step_personalKept {l : FreshIds × RepoCall} {g g' : InMemoryRepo}
    (h : step l g = some g') : PersonalKept g g' := by
  obtain ⟨hids, rfl | hchange⟩ := step_cases h
  · exact fun _ _ horg _ => horg
  · exact hchange.personalKept hids

omit [HashOrder] in
theorem sound_new : Sound new := by
  constructor <;> simp [new]

/-- After any calls, the tables fit together, a call that fails changes nothing, and
whatever is called next the personal organizations stay. -/
theorem run_sound {calls calls' : List (FreshIds × RepoCall)} {g g' : InMemoryRepo}
    (h : Machine.run step calls new = some g) (h' : Machine.run step calls' g = some g') :
    Sound g ∧ PersonalKept g g' ∧
      ∀ ids call e g'', (serve ids call).run g = .error e g'' → g'' = g := by
  refine ⟨?_, ?_, ?_⟩
  · exact Machine.run_keeps h sound_new fun l _ s s' hstep hs => step_sound hstep hs
  · refine Machine.run_keeps h' (fun _ _ horg _ => horg) ?_
    intro l _ s s' hstep hkept orgId org horg hpersonal
    exact step_personalKept hstep orgId org (hkept orgId org horg hpersonal) hpersonal
  · intro ids call e g'' hrun
    have hserved := served ids g call
    rw [Served, hrun] at hserved
    exact hserved

end InMemoryRepo

open InMemoryRepo in
/-- The last admin of a shared organization stays, and its database is in the way of
its removal; once the database is gone only the personal organization remains. -/
theorem run_sound_shared :
    let _ := HashOrder.newestFirst
    let _ := Lowercase.ascii
    let ids : String → FreshIds := fun n => ⟨⟨n⟩, ⟨n⟩, ⟨n⟩, ⟨n⟩⟩
    let calls := [
      (ids "0", .createPasswordUser ⟨"Ada@x.org", "hash"⟩ 1),
      (ids "1", .createPasswordUser ⟨"ada@X.ORG", "hash"⟩ 2),
      (ids "2", .createOrganization "shared" ⟨"0"⟩ 3),
      (ids "3", .removeOrgMembership ⟨"0"⟩ ⟨"2"⟩),
      (ids "4", .createDatabase ⟨"2"⟩ "main" ⟨"0"⟩ 4),
      (ids "5", .deleteOrganization ⟨"2"⟩)]
    let calls' := [
      (ids "6", .deleteDatabase ⟨"4"⟩),
      (ids "7", .deleteOrganization ⟨"2"⟩),
      (ids "8", .deleteOrganization ⟨"0"⟩)]
    ∃ g g', Machine.run step calls new = some g ∧ Machine.run step calls' g = some g' ∧
      (HashMap.values g.users).length = 1 ∧ (HashMap.values g.organizations).length = 2 ∧
      (HashMap.values g'.organizations).length = 1 ∧ Sound g ∧ PersonalKept g g' := by
  intro _ _ ids calls calls'
  have hall : ((Machine.run step calls new).bind fun g => (Machine.run step calls' g).map fun g' =>
      ((HashMap.values g.users).length, (HashMap.values g.organizations).length,
        (HashMap.values g'.organizations).length)) = some (1, 2, 1) := by decide
  obtain ⟨g, hg, hrest⟩ := Option.bind_eq_some_iff.mp hall
  obtain ⟨g', hg', hcounts⟩ := Option.map_eq_some_iff.mp hrest
  obtain ⟨hsound, hkept, -⟩ := run_sound hg hg'
  simp only [Prod.mk.injEq] at hcounts
  exact ⟨g, g', hg, hg', hcounts.1, hcounts.2.1, hcounts.2.2, hsound, hkept⟩

end EdgeReplica
