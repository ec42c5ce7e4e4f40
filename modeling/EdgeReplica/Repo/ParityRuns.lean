-- SUMMARY: Call by call, the two repositories have the same results where their rules agree; so have runs of such calls.
import EdgeReplica.Repo.Parity

/-!
# Runs on the two repositories

Each operation is compared on states with the same rows. `Agrees` collects the
conditions under which an operation has the same result on both; the run theorem
follows step by step.
-/

namespace EdgeReplica

open Effect (final)
open HashMap (values)
open Sql (ScanOrder Table lower)
open Text (Lowercase)
open Domain (Identity Organization OrgMembership OAuthState)
open D1Repo (ms)

/-! ## When a call has the same result -/

section

variable [HashOrder] [Lowercase]

/-- A new user is refused by both, or by none: the in-memory repository looks at the
email in lower case, D1 at its ASCII letters in lower case and at the identity. -/
def SignupAgrees (g : InMemoryRepo) (email provider providerUserId : String) : Prop :=
  (∃ u ∈ values g.users, Lowercase.toLowercase u.email = Lowercase.toLowercase email) ↔
    (∃ u ∈ values g.users, lower u.email = lower email) ∨
      ∃ i ∈ values g.identities, i.provider = provider ∧ i.providerUserId = providerUserId

/-- The condition under which a call has the same result on both. -/
def Agrees (ids : FreshIds) (g : InMemoryRepo) : RepoCall → Prop
  | .getUser id => ∀ u ∈ g.users.lookup id, Readable u.createdAtMs
  | .getUserByEmail email => ∀ u ∈ values g.users,
      (Lowercase.toLowercase u.email = Lowercase.toLowercase email ↔
        lower u.email = lower email) ∧
      (lower u.email = lower email → Readable u.createdAtMs)
  | .listIdentities userId =>
    ∀ i ∈ values g.identities, i.userId = userId → Readable i.createdAtMs
  | .findIdentity provider providerUserId => ∀ i ∈ values g.identities,
      i.provider = provider ∧ i.providerUserId = providerUserId → Readable i.createdAtMs
  | .linkIdentity userId provider providerUserId _ _ =>
    userId ∈ g.users ∧
      ∀ i ∈ values g.identities, ¬ (i.provider = provider ∧ i.providerUserId = providerUserId)
  | .updateIdentitySecret identityId _ => identityId ∈ g.identities
  | .createPasswordUser input _ =>
    SignupAgrees g input.email IdentityProvider.PASSWORD ids.userId.asStr
  | .createOAuthUser input _ => SignupAgrees g input.email input.provider input.providerUserId
  | .getOrganization id => ∀ o ∈ g.organizations.lookup id, Readable o.createdAtMs
  | .createOrganization _ ownerUserId _ => ownerUserId ∈ g.users
  | .listOrganizationsForUser userId => ∀ m ∈ values g.orgMemberships, m.userId = userId →
      ∀ o ∈ g.organizations.lookup m.orgId, Readable o.createdAtMs
  | .getOrgMembership userId orgId =>
    ∀ m ∈ g.orgMemberships.lookup (userId, orgId), Readable m.createdAtMs
  | .createDatabase orgId name createdBy _ =>
    orgId ∈ g.organizations ∧
      (createdBy ∈ g.users ∨ ∃ db ∈ values g.databases, db.orgId = orgId ∧ db.name = name)
  | .getDatabase id => ∀ db ∈ g.databases.lookup id, Readable db.createdAtMs
  | .listDatabasesForOrg orgId =>
    ∀ db ∈ values g.databases, db.orgId = orgId → Readable db.createdAtMs
  | .deleteDatabase _ => True
  | .storeOAuthState state => state.state ∉ g.oauthStates
  | .consumeOAuthState state _ => ∀ s ∈ g.oauthStates.lookup state,
      Readable s.createdAtMs ∧ Readable s.expiresAtMs
  -- D1 does not implement these.
  | .deleteOrganization _ | .addOrgMembership _ _ _ _ | .removeOrgMembership _ _
  | .listOrgMemberships _ => False

end

/-! ## Users and identities -/

section

variable [HashOrder] [ScanOrder] {g : InMemoryRepo} {d : D1Repo}

omit [HashOrder] in
theorem alike_getUser (h : Mirrors g d) {id : UserId}
    (hread : ∀ u ∈ g.users.lookup id, Readable u.createdAtMs) :
    BothReply Eq ((InMemoryRepo.getUser id).run g) ((D1Repo.getUser id).run d) := by
  have hfind := h.users.find_key (ScanOrder.scan_perm d.users) (k := id)
    (p := fun r => r.id = id.asStr) fun r => by simp [UserId.ext_iff]
  exact alike_first h hfind fun u hu => into_userRow (hread u hu)

theorem alike_getUserByEmail [Lowercase] (h : Mirrors g d) {email : String}
    (hsame : ∀ u ∈ values g.users,
      Lowercase.toLowercase u.email = Lowercase.toLowercase email ↔ lower u.email = lower email)
    (hread : ∀ u ∈ values g.users, lower u.email = lower email → Readable u.createdAtMs) :
    BothReply Eq ((InMemoryRepo.getUserByEmail email).run g)
      ((D1Repo.getUserByEmail email).run d) := by
  have hfind : (ScanOrder.scan d.users).find? (fun r => lower r.email = lower email) =
      (g.findUserByEmail email).map userRow := by
    refine h.users.find (ScanOrder.scan_perm d.users) ?_ ?_
    · intro u hu
      exact decide_eq_decide.mpr (hsame u hu).symm
    · intro row hrow row' hrow' hp hp'
      refine h.emails.eq_of_key (List.mem_cons_of_mem _ List.mem_cons_self) hrow hrow' ?_
      exact (of_decide_eq_true hp).trans (of_decide_eq_true hp').symm
  refine alike_first h hfind fun u hu => into_userRow ?_
  have hu' := List.mem_of_find?_eq_some hu
  exact hread u hu' ((hsame u hu').mp (by simpa using List.find?_some hu))

theorem alike_listIdentities (h : Mirrors g d) {userId : UserId}
    (hread : ∀ i ∈ values g.identities, i.userId = userId → Readable i.createdAtMs) :
    BothReply List.Perm ((InMemoryRepo.listIdentities userId).run g)
      ((D1Repo.listIdentities userId).run d) := by
  have hrows := h.identities.filter (ScanOrder.scan_perm d.identities)
    (p := fun r => r.userId = userId.asStr) (q := fun i => i.userId = userId)
    fun _ => decide_eq_decide.mpr UserId.ext_iff.symm
  obtain ⟨is, hinto, -, hperm⟩ := mapM_into IdentityRow.into hrows fun i hi => by
    obtain ⟨hi, huser⟩ := List.mem_filter.mp hi
    exact into_identityRow (hread i hi (of_decide_eq_true huser))
  have hrun : (D1Repo.listIdentities userId).run d = .ok is d := by
    rw [D1Repo.listIdentities, D1Repo.run_all]
    simp only [show D1Repo.identitiesTable.rows d = d.identities from rfl, hinto]
  rw [hrun]
  exact ⟨hperm.symm, h⟩

omit [HashOrder] [ScanOrder] in
/-- No other row has the provider and the subject of a row. -/
theorem Mirrors.subject_alone (h : Mirrors g d) {provider providerUserId : String} :
    ∀ row ∈ d.identities, ∀ row' ∈ d.identities,
      decide (row.provider = provider ∧ row.providerUserId = providerUserId) = true →
      decide (row'.provider = provider ∧ row'.providerUserId = providerUserId) = true →
        row = row' := by
  intro row hrow row' hrow' hp hp'
  obtain ⟨hprovider, hsubject⟩ := of_decide_eq_true hp
  obtain ⟨hprovider', hsubject'⟩ := of_decide_eq_true hp'
  refine h.subjects.eq_of_key (List.mem_cons_of_mem _ List.mem_cons_self) hrow hrow' ?_
  rw [hprovider, hsubject, hprovider', hsubject']

theorem alike_findIdentity (h : Mirrors g d) {provider providerUserId : String}
    (hread : ∀ i ∈ values g.identities,
      i.provider = provider ∧ i.providerUserId = providerUserId → Readable i.createdAtMs) :
    BothReply Eq ((InMemoryRepo.findIdentity provider providerUserId).run g)
      ((D1Repo.findIdentity provider providerUserId).run d) := by
  have hfind : (ScanOrder.scan d.identities).find?
      (fun r => r.provider = provider ∧ r.providerUserId = providerUserId) =
      (g.identityOf provider providerUserId).map identityRow :=
    h.identities.find (ScanOrder.scan_perm d.identities) (fun _ _ => rfl) h.subject_alone
  refine alike_first h hfind fun i hi => into_identityRow ?_
  exact hread i (List.mem_of_find?_eq_some hi) (by simpa using List.find?_some hi)

omit [ScanOrder] in
/-- D1 admits an identity whose provider and subject are not linked. -/
theorem Mirrors.identity_new (h : Mirrors g d) {row : IdentityRow} {d' : D1Repo}
    (hrows : d'.identities = d.identities) (hid : ⟨row.id⟩ ∉ g.identities)
    (hsubject : ∀ i ∈ values g.identities,
      ¬ (i.provider = row.provider ∧ i.providerUserId = row.providerUserId))
    (huser : d'.hasUser row.userId = true) : D1Repo.identitiesTable.violation row d' = none := by
  rw [Table.violation_eq_none]
  refine ⟨?_, huser⟩
  intro rule hrule old hold
  have hold : old ∈ d.identities := by rwa [← hrows]
  simp only [D1Repo.identitiesTable, List.mem_cons, List.not_mem_nil, or_false] at hrule
  rcases hrule with rfl | rfl
  · exact decide_eq_false fun heq =>
      h.identities.notMem_iff.mp hid old hold (congrArg IdentityId.mk heq)
  · obtain ⟨i, hi, rfl⟩ := h.identities.lookup_of_mem hold
    exact decide_eq_false fun heq =>
      hsubject i (HashMap.mem_values.mpr ⟨_, hi⟩) (Prod.mk.inj heq)

omit [ScanOrder] in
/-- It refuses one that is. -/
theorem Mirrors.identity_duplicate (h : Mirrors g d) (row : IdentityRow) (d' : D1Repo)
    (hrows : d'.identities = d.identities) {i : Identity} (hi : i ∈ values g.identities)
    (hsubject : i.provider = row.provider ∧ i.providerUserId = row.providerUserId) :
    ∃ columns, D1Repo.identitiesTable.violation row d' = some (.unique columns) := by
  obtain ⟨id, hid⟩ := HashMap.mem_values.mp hi
  have hold : identityRow i ∈ d'.identities := by
    rw [hrows]
    exact h.identities.mem_of_lookup hid
  obtain ⟨rule, -, hviolation⟩ := D1Repo.identitiesTable.violation_unique
    (List.mem_cons_of_mem _ List.mem_cons_self) hold
    (decide_eq_true (Prod.ext hsubject.1 hsubject.2))
  exact ⟨rule.columns, hviolation⟩

omit [ScanOrder] in
theorem alike_linkIdentity (h : Mirrors g d) {ids : FreshIds} {userId : UserId}
    {provider providerUserId : String} (secret : Option String) (nowMs : Int64)
    (hid : ids.identityId ∉ g.identities) (huser : userId ∈ g.users)
    (hsubject : ∀ i ∈ values g.identities,
      ¬ (i.provider = provider ∧ i.providerUserId = providerUserId)) :
    BothReply Eq ((InMemoryRepo.linkIdentity ids userId provider providerUserId secret nowMs).run g)
      ((D1Repo.linkIdentity ids userId provider providerUserId secret nowMs).run d) := by
  have hnone : g.identityOf provider providerUserId = none :=
    List.find?_eq_none.mpr fun i hi => by simpa using hsubject i hi
  let identity : Identity := ⟨ids.identityId, userId, provider, providerUserId, secret, nowMs⟩
  have hviolation : D1Repo.identitiesTable.violation (identityRow identity) d = none :=
    h.identity_new rfl hid hsubject (h.hasUser.mpr huser)
  have hmem : (InMemoryRepo.linkIdentity ids userId provider providerUserId secret nowMs).run g =
      .ok identity { g with identities := g.identities.insert ids.identityId identity } := by
    simp only [InMemoryRepo.linkIdentity, EStateM.run_bind, EStateM.run_get, hnone]
    rfl
  have hd1 : (D1Repo.linkIdentity ids userId provider providerUserId secret nowMs).run d =
      .ok identity (D1Repo.identitiesTable.add (identityRow identity) d) := by
    show (D1Repo.exec (D1Repo.identitiesTable.insert (identityRow identity)) >>=
      fun _ => pure identity).run d = _
    rw [EStateM.run_bind, D1Repo.run_exec_insert_new d hviolation]
    rfl
  rw [hmem, hd1]
  refine ⟨rfl, ?_⟩
  exact { h with
    identities := h.identities.insert hid rfl
    emails := h.emails.congr rfl
    subjects := h.subjects.insert hviolation }

omit [HashOrder] [ScanOrder] in
theorem alike_updateIdentitySecret (h : Mirrors g d) {identityId : IdentityId}
    (newSecret : String) (hid : identityId ∈ g.identities) :
    BothReply Eq ((InMemoryRepo.updateIdentitySecret identityId newSecret).run g)
      ((D1Repo.updateIdentitySecret identityId newSecret).run d) := by
  obtain ⟨identity, hold⟩ := Option.isSome_iff_exists.mp (AList.lookup_isSome.mpr hid)
  have hmem : (InMemoryRepo.updateIdentitySecret identityId newSecret).run g =
      .ok () { g with
        identities :=
          g.identities.insert identityId { identity with secret := some newSecret } } := by
    simp only [InMemoryRepo.updateIdentitySecret, EStateM.run_bind, EStateM.run_get, hold]
    rfl
  rw [hmem]
  refine ⟨rfl, ?_⟩
  have hsubjects := h.subjects.update (fun r => decide (r.id = identityId.asStr))
    (f := fun r => { r with secret := some newSecret }) ?_
  · exact { h with
      identities := h.identities.replace hold
        (fun r => by simp [IdentityId.ext_iff]) rfl fun _ => rfl
      emails := h.emails.congr rfl
      subjects := hsubjects }
  · intro rule hrule row row'
    simp only [D1Repo.identitiesTable, List.mem_cons, List.not_mem_nil, or_false] at hrule
    rcases hrule with rfl | rfl <;> exact ⟨rfl, rfl⟩

end

/-! ## Organizations -/

section

variable {g : InMemoryRepo} {d : D1Repo}

/-- D1 admits a new organization with an owner. -/
theorem Mirrors.org_new (h : Mirrors g d) (org : Organization) (hid : org.id ∉ g.organizations)
    {owner : UserId} (howner : org.ownerUserId = some owner) (huser : owner ∈ g.users) :
    D1Repo.organizationsTable.violation (orgRow org) d = none := by
  rw [Table.violation_eq_none]
  constructor
  · intro rule hrule old hold
    obtain rfl := List.mem_singleton.mp hrule
    exact decide_eq_false fun heq =>
      h.organizations.notMem_iff.mp hid old hold (congrArg OrgId.mk heq)
  · show (org.ownerUserId.map UserId.asStr).all d.hasUser = true
    rw [howner]
    exact h.hasUser.mpr huser

/-- And then its first membership. -/
theorem Mirrors.membership_new (h : Mirrors g d) (org : Organization) (m : OrgMembership)
    (hid : org.id ∉ g.organizations) (horg : m.orgId = org.id) (huser : m.userId ∈ g.users) :
    D1Repo.orgMembershipsTable.violation (orgMembershipRow m)
      (D1Repo.organizationsTable.add (orgRow org) d) = none := by
  rw [Table.violation_eq_none]
  constructor
  · intro rule hrule old hold
    obtain rfl := List.mem_singleton.mp hrule
    refine decide_eq_false fun heq => hid (h.hasOrganization.mp ?_)
    rw [← horg, show m.orgId.asStr = old.orgId from (Prod.mk.inj heq).2.symm]
    exact h.joined old hold
  · show (d.hasUser m.userId.asStr && (d.organizations ++ [orgRow org]).any _) = true
    rw [h.hasUser.mpr huser, List.any_append]
    simp [orgRow, orgMembershipRow, horg]

/-- The rows are the same after a new organization got its first member. -/
theorem Mirrors.add_org (h : Mirrors g d) (org : Organization) (m : OrgMembership)
    (hid : org.id ∉ g.organizations) (horg : m.orgId = org.id) :
    Mirrors
      { g with
        organizations := g.organizations.insert org.id org
        orgMemberships := g.orgMemberships.insert (m.userId, org.id) m }
      (D1Repo.orgMembershipsTable.add (orgMembershipRow m)
        (D1Repo.organizationsTable.add (orgRow org) d)) where
  users := h.users
  identities := h.identities
  organizations := h.organizations.insert hid rfl
  orgMemberships := by
    -- No membership can refer to an organization that is new.
    refine h.orgMemberships.insert ?_ (by rw [← horg]; rfl)
    rw [h.orgMemberships.notMem_iff]
    intro row hrow heq
    refine hid (h.hasOrganization.mp ?_)
    rw [← (Prod.mk.inj heq).2]
    exact h.joined row hrow
  databases := h.databases
  oauthStates := h.oauthStates
  emails := h.emails.congr rfl
  subjects := h.subjects.congr rfl
  joined := by
    intro row hrow
    show (d.organizations ++ [orgRow org]).any _ = true
    rw [List.any_append, Bool.or_eq_true]
    rcases List.mem_append.mp hrow with hrow | hrow
    · exact .inl (h.joined row hrow)
    · right
      obtain rfl := List.mem_singleton.mp hrow
      simp [orgRow, orgMembershipRow, horg]

theorem alike_createOrganization (h : Mirrors g d) {ids : FreshIds} {displayName : String}
    {ownerUserId : UserId} {nowMs : Int64} (hid : ids.orgId ∉ g.organizations)
    (huser : ownerUserId ∈ g.users) :
    BothReply Eq ((InMemoryRepo.createOrganization ids displayName ownerUserId nowMs).run g)
      ((D1Repo.createOrganization ids displayName ownerUserId nowMs).run d) := by
  let org : Organization := ⟨ids.orgId, displayName, false, some ownerUserId, nowMs⟩
  let m : OrgMembership := ⟨ownerUserId, ids.orgId, .admin, nowMs⟩
  have hmem : (InMemoryRepo.createOrganization ids displayName ownerUserId nowMs).run g =
      .ok org { g with
        organizations := g.organizations.insert ids.orgId org
        orgMemberships := g.orgMemberships.insert (ownerUserId, ids.orgId) m } := by
    simp only [InMemoryRepo.createOrganization, EStateM.run_bind, EStateM.run_get, huser]
    rfl
  have horg := h.org_new org hid rfl huser
  have hm := h.membership_new org m hid rfl huser
  have hd1 : (D1Repo.createOrganization ids displayName ownerUserId nowMs).run d =
      .ok org (D1Repo.orgMembershipsTable.add (orgMembershipRow m)
        (D1Repo.organizationsTable.add (orgRow org) d)) := by
    show (D1Repo.runBatch [D1Repo.organizationsTable.insert (orgRow org),
      D1Repo.orgMembershipsTable.insert (orgMembershipRow m)] >>= fun _ => pure org).run d = _
    rw [EStateM.run_bind, D1Repo.run_runBatch, Sql.run_insert_cons, horg]
    dsimp only
    rw [Sql.run_insert_cons, hm]
    rfl
  rw [hmem, hd1]
  exact ⟨rfl, h.add_org org m hid rfl⟩

end

/-! ## New users -/

/-- What the in-memory repository is given for the same user. -/
def D1Repo.SignupRecord.input (rec : D1Repo.SignupRecord) : NewUser where
  email := rec.email
  emailVerified := rec.emailVerified
  provider := rec.provider
  providerUserId := fun userId => rec.providerUserId.getD userId.asStr
  secret := rec.secret

section

variable [HashOrder] {g : InMemoryRepo} {d : D1Repo}

/-- D1 admits a user whose email is new in its ASCII letters. -/
theorem Mirrors.user_new (h : Mirrors g d) {row : UserRow} (hid : ⟨row.id⟩ ∉ g.users)
    (hemail : ¬ ∃ u ∈ values g.users, lower u.email = lower row.email) :
    D1Repo.usersTable.violation row d = none := by
  rw [Table.violation_eq_none]
  refine ⟨?_, rfl⟩
  intro rule hrule old hold
  simp only [D1Repo.usersTable, List.mem_cons, List.not_mem_nil, or_false] at hrule
  rcases hrule with rfl | rfl
  · exact decide_eq_false fun heq =>
      h.users.notMem_iff.mp hid old hold (congrArg UserId.mk heq)
  · obtain ⟨u, hu, rfl⟩ := h.users.lookup_of_mem hold
    exact decide_eq_false fun heq => hemail ⟨u, HashMap.mem_values.mpr ⟨_, hu⟩, heq⟩

/-- It refuses one whose email is not, or whose identity is linked. -/
theorem Mirrors.signup_duplicate (h : Mirrors g d) (ids : FreshIds) (rec : D1Repo.SignupRecord)
    (htaken : (∃ u ∈ values g.users, lower u.email = lower rec.email) ∨
      ∃ i ∈ values g.identities, i.provider = rec.provider ∧
        i.providerUserId = rec.input.providerUserId ids.userId) :
    ∃ columns, D1Repo.signupViolation ids rec d = some (.unique columns) := by
  rw [D1Repo.signupViolation]
  cases hviolation : D1Repo.usersTable.violation (rec.userRow ids) d with
  | some rule =>
    obtain ⟨columns, rfl⟩ := D1Repo.usersTable.unique_of_violation rfl hviolation
    exact ⟨columns, rfl⟩
  | none =>
    rcases htaken with ⟨u, hu, hemail⟩ | ⟨i, hi, hsubject⟩
    · -- A taken email does not get past the first row.
      obtain ⟨id, hid⟩ := HashMap.mem_values.mp hu
      have hnew := (D1Repo.usersTable.violation_eq_none.mp hviolation).1 _
        (List.mem_cons_of_mem _ List.mem_cons_self) _ (h.users.mem_of_lookup hid)
      exact absurd hemail (of_decide_eq_false hnew)
    · obtain ⟨columns, hdup⟩ :=
        h.identity_duplicate (rec.identityRow ids) (D1Repo.signedUpUser ids rec d) rfl hi hsubject
      exact ⟨columns, by rw [Option.none_or, hdup]; rfl⟩

variable {ids : FreshIds} {rec : D1Repo.SignupRecord}

omit [HashOrder] in
/-- The rows are the same once the user and the identity are in. -/
theorem Mirrors.add_user (h : Mirrors g d) (hids : InMemoryRepo.Fresh ids g)
    (huser : D1Repo.usersTable.violation (rec.userRow ids) d = none)
    (hidentity : D1Repo.identitiesTable.violation (rec.identityRow ids)
      (D1Repo.signedUpUser ids rec d) = none) :
    Mirrors
      { g with
        users := g.users.insert ids.userId ⟨ids.userId, rec.email, rec.emailVerified, rec.nowMs⟩
        identities := g.identities.insert ids.identityId
          ⟨ids.identityId, ids.userId, rec.provider, rec.input.providerUserId ids.userId,
            rec.secret, rec.nowMs⟩ }
      (D1Repo.signedUpIdentity ids rec d) :=
  { h with
    users := h.users.insert hids.1 rfl
    identities := h.identities.insert hids.2.1 rfl
    emails := (h.emails.insert huser).congr rfl
    subjects := by
      have hsubjects : D1Repo.identitiesTable.Distinct (D1Repo.signedUpUser ids rec d) :=
        h.subjects.congr rfl
      exact hsubjects.insert hidentity }

/-- A user with a new email and a new identity gets all four rows. -/
theorem Mirrors.signup_new (h : Mirrors g d) (hids : InMemoryRepo.Fresh ids g)
    (hemail : ¬ ∃ u ∈ values g.users, lower u.email = lower rec.email)
    (hsubject : ¬ ∃ i ∈ values g.identities, i.provider = rec.provider ∧
      i.providerUserId = rec.input.providerUserId ids.userId) :
    D1Repo.signupViolation ids rec d = none ∧
      Mirrors (g.insertUser ids rec.input rec.nowMs) (D1Repo.signedUp ids rec d) := by
  have huser : D1Repo.usersTable.violation (rec.userRow ids) d = none :=
    h.user_new hids.1 hemail
  -- The identity refers to the user of the statement before it.
  have hhas : (D1Repo.signedUpUser ids rec d).hasUser ids.userId.asStr = true := by
    show (d.users ++ [rec.userRow ids]).any _ = true
    rw [List.any_append]
    simp [D1Repo.SignupRecord.userRow]
  have hidentity : D1Repo.identitiesTable.violation (rec.identityRow ids)
      (D1Repo.signedUpUser ids rec d) = none :=
    h.identity_new rfl hids.2.1 (fun i hi heq => hsubject ⟨i, hi, heq⟩) hhas
  have hadded := h.add_user hids huser hidentity
  let org : Organization :=
    ⟨ids.orgId, Domain.personalOrgName rec.email, true, some ids.userId, rec.nowMs⟩
  let m : OrgMembership := ⟨ids.userId, ids.orgId, .admin, rec.nowMs⟩
  have horg := hadded.org_new org hids.2.2.1 rfl ((AList.mem_insert _).mpr (.inl rfl))
  have hm := hadded.membership_new org m hids.2.2.1 rfl ((AList.mem_insert _).mpr (.inl rfl))
  refine ⟨?_, hadded.add_org org m hids.2.2.1 rfl⟩
  rw [D1Repo.signupViolation, huser, hidentity, Option.none_or, Option.none_or]
  exact (congrArg₂ Option.or horg hm).trans rfl

theorem alike_createUser [Lowercase] (rec : D1Repo.SignupRecord) (h : Mirrors g d)
    (hids : InMemoryRepo.Fresh ids g)
    (hsame : SignupAgrees g rec.email rec.provider (rec.input.providerUserId ids.userId)) :
    BothReply Eq ((InMemoryRepo.createUser ids rec.input rec.nowMs).run g)
      ((D1Repo.signupWithPersonalOrg ids rec).run d) := by
  rw [D1Repo.run_signup]
  have hmem : (g.findUserByEmail rec.input.email).isSome ↔
      ∃ u ∈ values g.users, Lowercase.toLowercase u.email = Lowercase.toLowercase rec.email := by
    simp only [InMemoryRepo.findUserByEmail, List.find?_isSome, decide_eq_true_eq]
    rfl
  by_cases htaken : (g.findUserByEmail rec.input.email).isSome
  · obtain ⟨columns, hdup⟩ := h.signup_duplicate ids rec (hsame.mp (hmem.mp htaken))
    have hrun : (InMemoryRepo.createUser ids rec.input rec.nowMs).run g =
        .error (.alreadyExists s!"user with email {rec.input.email}") g := by
      simp [InMemoryRepo.createUser, htaken]
    rw [hrun, hdup]
    dsimp only
    rw [if_pos (D1Repo.isUniqueViolation_unique columns)]
    exact ⟨trivial, h⟩
  · obtain ⟨hemail, hsubject⟩ := not_or.mp ((not_congr hsame).mp ((not_congr hmem).mp htaken))
    have hrun : (InMemoryRepo.createUser ids rec.input rec.nowMs).run g =
        .ok ⟨ids.userId, rec.email, rec.emailVerified, rec.nowMs⟩
          (g.insertUser ids rec.input rec.nowMs) := by
      simp only [InMemoryRepo.createUser, EStateM.run_bind, EStateM.run_get]
      rw [if_neg htaken]
      rfl
    obtain ⟨hnone, hmirrors⟩ := h.signup_new hids hemail hsubject
    rw [hrun, hnone]
    exact ⟨rfl, hmirrors⟩

end

/-! ## Organizations and databases that are read -/

section

variable [ScanOrder] {g : InMemoryRepo} {d : D1Repo}

theorem alike_getOrganization (h : Mirrors g d) {id : OrgId}
    (hread : ∀ o ∈ g.organizations.lookup id, Readable o.createdAtMs) :
    BothReply Eq ((InMemoryRepo.getOrganization id).run g) ((D1Repo.getOrganization id).run d) := by
  have hfind := h.organizations.find_key (ScanOrder.scan_perm d.organizations) (k := id)
    (p := fun r => r.id = id.asStr) fun r => by simp [OrgId.ext_iff]
  exact alike_first h hfind fun o ho => into_orgRow (hread o ho)

theorem alike_getOrgMembership (h : Mirrors g d) {userId : UserId} {orgId : OrgId}
    (hread : ∀ m ∈ g.orgMemberships.lookup (userId, orgId), Readable m.createdAtMs) :
    BothReply Eq ((InMemoryRepo.getOrgMembership userId orgId).run g)
      ((D1Repo.getOrgMembership userId orgId).run d) := by
  have hfind := h.orgMemberships.find_key (ScanOrder.scan_perm d.orgMemberships)
    (k := (userId, orgId)) (p := fun r => r.userId = userId.asStr ∧ r.orgId = orgId.asStr)
    fun r => by simp [UserId.ext_iff, OrgId.ext_iff]
  exact alike_first h hfind fun m hm => into_orgMembershipRow (hread m hm)

theorem alike_getDatabase (h : Mirrors g d) {id : DatabaseId}
    (hread : ∀ db ∈ g.databases.lookup id, Readable db.createdAtMs) :
    BothReply Eq ((InMemoryRepo.getDatabase id).run g) ((D1Repo.getDatabase id).run d) := by
  have hfind := h.databases.find_key (ScanOrder.scan_perm d.databases) (k := id)
    (p := fun r => r.id = id.asStr) fun r => by simp [DatabaseId.ext_iff]
  exact alike_first h hfind fun db hdb => into_databaseRow (hread db hdb)

variable [HashOrder]

theorem alike_listDatabasesForOrg (h : Mirrors g d) {orgId : OrgId}
    (hread : ∀ db ∈ values g.databases, db.orgId = orgId → Readable db.createdAtMs) :
    BothReply (SameOrder Domain.Database.createdAtMs)
      ((InMemoryRepo.listDatabasesForOrg orgId).run g)
      ((D1Repo.listDatabasesForOrg orgId).run d) := by
  have hreadable : ∀ db ∈ (values g.databases).filter (fun db => db.orgId = orgId),
      Readable db.createdAtMs := by
    intro db hdb
    obtain ⟨hdb, horg⟩ := List.mem_filter.mp hdb
    exact hread db hdb (of_decide_eq_true horg)
  have hrows := h.databases.filter (ScanOrder.scan_perm d.databases)
    (p := fun r => r.orgId = orgId.asStr) (q := fun db => db.orgId = orgId)
    fun _ => decide_eq_decide.mpr OrgId.ext_iff.symm
  obtain ⟨dbs, hinto, hdbs, hperm⟩ := mapM_into DatabaseRow.into
    ((List.perm_insertionSort (fun a b => a.createdAtMs ≤ b.createdAtMs) _).trans hrows)
    fun db hdb => into_databaseRow (hreadable db hdb)
  have hrun : (D1Repo.listDatabasesForOrg orgId).run d = .ok dbs d := by
    show (ofExcept (List.mapM DatabaseRow.into
      (List.insertionSort _ ((ScanOrder.scan d.databases).filter _))) : D1M _).run d = _
    rw [hinto]
    rfl
  have hmem : ((values g.databases).filter fun db => db.orgId = orgId).insertionSort
      (fun a b => a.createdAtMs ≤ b.createdAtMs) |>.Perm dbs :=
    (List.perm_insertionSort _ _).trans hperm.symm
  rw [hrun]
  refine ⟨⟨hmem, ?_⟩, h⟩
  -- Both are sorted by the time that was stored.
  have hsorted : dbs.Pairwise fun a b => a.createdAtMs ≤ b.createdAtMs := by
    have hpairs : (dbs.map databaseRow).Pairwise fun a b => a.createdAtMs ≤ b.createdAtMs := by
      rw [← hdbs]
      exact Sorted.pairwise DatabaseRow.createdAtMs (fun _ _ => Iff.rfl) _
    refine (List.pairwise_map.mp hpairs).imp_of_mem fun ha hb hle => ?_
    rwa [Int64.le_iff_toInt_le, ← ms_of_readable (hreadable _ (hperm.mem_iff.mp ha)),
      ← ms_of_readable (hreadable _ (hperm.mem_iff.mp hb))]
  exact Sorted.keys_eq hmem
    (Sorted.pairwise Domain.Database.createdAtMs (fun _ _ => Iff.rfl) _) hsorted

/-- The memberships of a user, each with its organization. -/
def membershipsOf (g : InMemoryRepo) (userId : UserId) : List (OrgMembership × Organization) :=
  ((values g.orgMemberships).filter fun m => m.userId = userId).filterMap fun m =>
    (g.organizations.lookup m.orgId).map (m, ·)

/-- The join of D1 has the rows of the memberships that the in-memory repository
finds. -/
theorem Mirrors.join_perm (h : Mirrors g d) (userId : UserId) :
    ((ScanOrder.scan (d.orgMemberships.flatMap fun m =>
        (d.organizations.filter fun o => m.orgId = o.id).map (m, ·))).filter
      fun row => row.1.userId = userId.asStr).Perm
      ((membershipsOf g userId).map fun row => (orgMembershipRow row.1, orgRow row.2)) := by
  have hjoin : (d.orgMemberships.flatMap fun m =>
      (d.organizations.filter fun o => m.orgId = o.id).map (m, ·)).Perm
      ((values g.orgMemberships).filterMap fun m =>
        (g.organizations.lookup m.orgId).map fun o => (orgMembershipRow m, orgRow o)) := by
    refine (h.orgMemberships.perm.symm.flatMap_right _).trans (.of_eq ?_)
    rw [List.flatMap_map, List.filterMap_eq_flatMap_toList]
    refine List.flatMap_congr fun m _ => ?_
    rw [h.organizations.filter_key (k := m.orgId) fun r => by
      simp [orgMembershipRow, OrgId.ext_iff, eq_comm]]
    cases g.organizations.lookup m.orgId <;> rfl
  refine (((ScanOrder.scan_perm _).trans hjoin).filter _).trans (.of_eq ?_)
  rw [membershipsOf, List.filter_filterMap, List.map_filterMap, List.filterMap_filter]
  refine List.filterMap_congr fun m _ => ?_
  by_cases huser : m.userId = userId
  · cases g.organizations.lookup m.orgId <;> simp [huser, orgMembershipRow]
  · have hne : m.userId.asStr ≠ userId.asStr := fun heq => huser (UserId.ext heq)
    cases g.organizations.lookup m.orgId <;> simp [huser, hne, orgMembershipRow]

omit [ScanOrder] in
theorem Mirrors.run_listOrganizations (h : Mirrors g d) (userId : UserId) :
    (InMemoryRepo.listOrganizationsForUser userId).run g =
      .ok (((membershipsOf g userId).map fun row => (row.2, row.1.role)).insertionSort
        fun a b => a.1.id.asStr ≤ b.1.id.asStr) g := by
  have hout : (((HashMap.rows g.orgMemberships).filter fun row => row.1.1 = userId).filterMap
      fun row => (g.organizations.lookup row.1.2).map fun org => (org, row.2.role)) =
      (membershipsOf g userId).map fun row => (row.2, row.1.role) := by
    rw [h.orgMemberships.rows_eq, membershipsOf, List.filter_map, List.filterMap_map,
      List.map_filterMap]
    refine List.filterMap_congr fun m _ => ?_
    show (g.organizations.lookup m.orgId).map _ = _
    cases g.organizations.lookup m.orgId <;> rfl
  show EStateM.Result.ok (List.insertionSort _ _) g = _
  rw [hout]

/-- D1 lists the same rows, sorted. -/
theorem Mirrors.run_listOrganizations_d1 (h : Mirrors g d) (userId : UserId)
    (hread : ∀ row ∈ membershipsOf g userId, Readable row.2.createdAtMs) :
    ∃ rows : List (OrgMembership × Organization), rows.Perm (membershipsOf g userId) ∧
      (rows.Pairwise fun a b => a.2.id.asStr ≤ b.2.id.asStr) ∧
      (D1Repo.listOrganizationsForUser userId).run d =
        .ok (rows.map fun row => (row.2, row.1.role)) d := by
  obtain ⟨rows, hrows, hperm⟩ := exists_map_of_perm
    ((List.perm_insertionSort (fun a b => a.2.id ≤ b.2.id) _).trans (h.join_perm userId))
  have hinto : (rows.map fun row => (orgMembershipRow row.1, orgRow row.2)).mapM
      (fun row => do return (← row.2.into, row.1.role)) =
      (.ok (rows.map fun row => (row.2, row.1.role.asStr)) :
        Except StoreError (List (Organization × String))) := by
    refine mapM_ok fun row hrow => ?_
    simp only [into_orgRow (hread row (hperm.mem_iff.mp hrow))]
    rfl
  have hroles : (rows.map fun row => (row.2, row.1.role.asStr)).mapM
      (fun row => do return (row.1, ← D1Repo.parseRole row.2)) =
      (.ok (rows.map fun row => (row.2, row.1.role)) : Except StoreError (List OrgWithRole)) := by
    refine mapM_ok fun row _ => ?_
    simp only [D1Repo.parseRole, Role.fromStr_asStr]
    rfl
  refine ⟨rows, hperm, ?_, ?_⟩
  · have hpairs : (rows.map fun row => (orgMembershipRow row.1, orgRow row.2)).Pairwise
        fun a b => a.2.id ≤ b.2.id := by
      rw [← hrows]
      exact Sorted.pairwise (fun row : OrgMembershipRow × OrgRow => row.2.id) (fun _ _ => Iff.rfl) _
    rw [List.pairwise_map] at hpairs
    exact hpairs
  · show (ofExcept (List.mapM _ (List.insertionSort _ (List.filter _ (ScanOrder.scan
      (d.orgMemberships.flatMap fun m => (d.organizations.filter fun o => m.orgId = o.id).map
        (m, ·)))))) >>= fun rows => ofExcept (List.mapM _ rows) : D1M _).run d = _
    rw [hrows, hinto]
    show (ofExcept (List.mapM _ (rows.map fun row => (row.2, row.1.role.asStr))) : D1M _).run d = _
    rw [hroles]
    rfl

theorem alike_listOrganizationsForUser (h : Mirrors g d) {userId : UserId}
    (hread : ∀ m ∈ values g.orgMemberships, m.userId = userId →
      ∀ o ∈ g.organizations.lookup m.orgId, Readable o.createdAtMs) :
    BothReply (SameOrder fun row => row.1.id.asStr)
      ((InMemoryRepo.listOrganizationsForUser userId).run g)
      ((D1Repo.listOrganizationsForUser userId).run d) := by
  have hreadable : ∀ row ∈ membershipsOf g userId, Readable row.2.createdAtMs := by
    intro row hrow
    obtain ⟨m, hm, hlookup⟩ := List.mem_filterMap.mp hrow
    obtain ⟨o, ho, rfl⟩ := Option.map_eq_some_iff.mp hlookup
    obtain ⟨hm, huser⟩ := List.mem_filter.mp hm
    exact hread m hm (of_decide_eq_true huser) o ho
  obtain ⟨rows, hperm, hsorted, hrun⟩ := h.run_listOrganizations_d1 userId hreadable
  rw [h.run_listOrganizations userId, hrun]
  have hsame : ((membershipsOf g userId).map fun row => (row.2, row.1.role)).insertionSort
      (fun a b => a.1.id.asStr ≤ b.1.id.asStr) |>.Perm (rows.map fun row => (row.2, row.1.role)) :=
    (List.perm_insertionSort _ _).trans (hperm.symm.map _)
  refine ⟨⟨hsame, Sorted.keys_eq hsame ?_ ?_⟩, h⟩
  · exact Sorted.pairwise (fun row : OrgWithRole => row.1.id.asStr) (fun _ _ => Iff.rfl) _
  · rw [List.pairwise_map]
    exact hsorted

end

/-! ## Databases and OAuth states -/

section

variable [HashOrder] {g : InMemoryRepo} {d : D1Repo}

/-- Both refuse a name that is taken in the organization. -/
theorem alike_createDatabase_taken (h : Mirrors g d) {ids : FreshIds} {orgId : OrgId}
    {name : String} {createdBy : UserId} {nowMs : Int64} (horg : orgId ∈ g.organizations)
    {db : Domain.Database} (hdb : db ∈ values g.databases)
    (hname : db.orgId = orgId ∧ db.name = name) :
    BothReply Eq ((InMemoryRepo.createDatabase ids orgId name createdBy nowMs).run g)
      ((D1Repo.createDatabase ids orgId name createdBy nowMs).run d) := by
  have hany : (values g.databases).any fun db => db.orgId = orgId ∧ db.name = name :=
    List.any_eq_true.mpr ⟨db, hdb, decide_eq_true hname⟩
  have hmem : (InMemoryRepo.createDatabase ids orgId name createdBy nowMs).run g =
      .error (.alreadyExists s!"database '{name}' in {orgId.asStr}") g := by
    simp only [InMemoryRepo.createDatabase, EStateM.run_bind, EStateM.run_get, horg, hany]
    rfl
  obtain ⟨id, hid⟩ := HashMap.mem_values.mp hdb
  have hdup : ∃ rule ∈ D1Repo.databasesTable.uniques, D1Repo.databasesTable.violation
      ⟨ids.databaseId.asStr, orgId.asStr, name, createdBy.asStr, ms nowMs⟩ d =
        some (.unique rule.columns) :=
    D1Repo.databasesTable.violation_unique (List.mem_cons_of_mem _ List.mem_cons_self)
      (h.databases.mem_of_lookup hid)
      (decide_eq_true (Prod.ext (congrArg OrgId.asStr hname.1) hname.2))
  obtain ⟨rule, -, hdup⟩ := hdup
  rw [hmem, D1Repo.run_createDatabase, hdup]
  dsimp only
  rw [if_pos (D1Repo.isUniqueViolation_unique rule.columns)]
  exact ⟨trivial, h⟩

theorem alike_createDatabase_new (h : Mirrors g d) {ids : FreshIds} {orgId : OrgId}
    {name : String} {createdBy : UserId} {nowMs : Int64} (hid : ids.databaseId ∉ g.databases)
    (horg : orgId ∈ g.organizations) (huser : createdBy ∈ g.users)
    (hname : ¬ ∃ db ∈ values g.databases, db.orgId = orgId ∧ db.name = name) :
    BothReply Eq ((InMemoryRepo.createDatabase ids orgId name createdBy nowMs).run g)
      ((D1Repo.createDatabase ids orgId name createdBy nowMs).run d) := by
  have hany : (values g.databases).any (fun db => db.orgId = orgId ∧ db.name = name) = false :=
    List.any_eq_false.mpr fun db hdb heq => hname ⟨db, hdb, of_decide_eq_true heq⟩
  let db : Domain.Database := ⟨ids.databaseId, orgId, name, createdBy, nowMs⟩
  have hmem : (InMemoryRepo.createDatabase ids orgId name createdBy nowMs).run g =
      .ok db { g with databases := g.databases.insert ids.databaseId db } := by
    simp only [InMemoryRepo.createDatabase, EStateM.run_bind, EStateM.run_get, horg, hany]
    rfl
  have hnew : D1Repo.databasesTable.violation
      ⟨ids.databaseId.asStr, orgId.asStr, name, createdBy.asStr, ms nowMs⟩ d = none := by
    rw [Table.violation_eq_none]
    constructor
    · intro rule hrule old hold
      simp only [D1Repo.databasesTable, List.mem_cons, List.not_mem_nil, or_false] at hrule
      rcases hrule with rfl | rfl
      · exact decide_eq_false fun heq =>
          h.databases.notMem_iff.mp hid old hold (congrArg DatabaseId.mk heq)
      · obtain ⟨db', hdb', rfl⟩ := h.databases.lookup_of_mem hold
        refine decide_eq_false fun heq => hname ⟨db', HashMap.mem_values.mpr ⟨_, hdb'⟩, ?_⟩
        exact ⟨OrgId.ext (Prod.mk.inj heq).1, (Prod.mk.inj heq).2⟩
    · show (d.hasOrganization orgId.asStr && d.hasUser createdBy.asStr) = true
      rw [h.hasOrganization.mpr horg, h.hasUser.mpr huser]
      rfl
  have hd1 : (D1Repo.createDatabase ids orgId name createdBy nowMs).run d =
      .ok db (D1Repo.databasesTable.add (databaseRow db) d) := by
    rw [D1Repo.run_createDatabase, hnew]
    rfl
  rw [hmem, hd1]
  refine ⟨rfl, ?_⟩
  exact { h with
    databases := h.databases.insert hid rfl
    emails := h.emails.congr rfl
    subjects := h.subjects.congr rfl }

variable [ScanOrder]

omit [HashOrder] in
theorem alike_deleteDatabase (h : Mirrors g d) (id : DatabaseId) :
    BothReply Eq ((InMemoryRepo.deleteDatabase id).run g) ((D1Repo.deleteDatabase id).run d) := by
  have hrow : id ∈ g.databases ↔ ∃ r ∈ d.databases, r.id = id.asStr := by
    rw [← not_iff_not, h.databases.notMem_iff]
    simp [DatabaseId.ext_iff]
  rw [InMemoryRepo.run_deleteDatabase, D1Repo.run_deleteDatabase]
  by_cases hid : id ∈ g.databases
  · rw [if_pos hid, if_pos (hrow.mp hid)]
    refine ⟨rfl, ?_⟩
    exact { h with
      databases := h.databases.erase fun r => by simp [DatabaseId.ext_iff]
      emails := h.emails.congr rfl
      subjects := h.subjects.congr rfl }
  · rw [if_neg hid, if_neg fun hr => hid (hrow.mpr hr)]
    exact ⟨trivial, h⟩

omit [HashOrder] [ScanOrder] in
theorem alike_storeOAuthState (h : Mirrors g d) {state : OAuthState}
    (hnew : state.state ∉ g.oauthStates) :
    BothReply Eq ((InMemoryRepo.storeOAuthState state).run g)
      ((D1Repo.storeOAuthState state).run d) := by
  have hviolation : D1Repo.oauthStatesTable.violation (oauthStateRow state) d = none := by
    rw [Table.violation_eq_none]
    refine ⟨?_, rfl⟩
    intro rule hrule old hold
    obtain rfl := List.mem_singleton.mp hrule
    exact decide_eq_false fun heq => h.oauthStates.notMem_iff.mp hnew old hold heq
  have hd1 : (D1Repo.storeOAuthState state).run d =
      .ok () (D1Repo.oauthStatesTable.add (oauthStateRow state) d) :=
    D1Repo.run_exec_insert_new d hviolation
  rw [hd1]
  refine ⟨rfl, ?_⟩
  exact { h with
    oauthStates := h.oauthStates.insert hnew rfl
    emails := h.emails.congr rfl
    subjects := h.subjects.congr rfl }

omit [HashOrder] in
theorem alike_consumeOAuthState (h : Mirrors g d) {state : String} (nowMs : Int64)
    (hread : ∀ s ∈ g.oauthStates.lookup state,
      Readable s.createdAtMs ∧ Readable s.expiresAtMs) :
    BothReply Eq ((InMemoryRepo.consumeOAuthState state nowMs).run g)
      ((D1Repo.consumeOAuthState state nowMs).run d) := by
  have hfind := h.oauthStates.find_key (ScanOrder.scan_perm d.oauthStates) (k := state)
    (p := fun r => r.state = state) fun _ => rfl
  have herased : Mirrors { g with oauthStates := g.oauthStates.erase state }
      (d.withoutOAuthState state) :=
    { h with
      oauthStates := h.oauthStates.erase fun _ => rfl
      emails := h.emails.congr rfl
      subjects := h.subjects.congr rfl }
  rw [D1Repo.run_consumeOAuthState, hfind]
  cases hold : g.oauthStates.lookup state with
  | none =>
    have hmem : (InMemoryRepo.consumeOAuthState state nowMs).run g = .ok none g := by
      simp [InMemoryRepo.consumeOAuthState, hold]
    -- D1 deletes without looking first.
    have hsame : g.oauthStates.erase state = g.oauthStates := by
      refine AList.ext ?_
      exact List.kerase_of_notMem_keys (AList.lookup_eq_none.mp hold)
    rw [hmem]
    rw [hsame] at herased
    exact ⟨rfl, herased⟩
  | some s =>
    have hmem : (InMemoryRepo.consumeOAuthState state nowMs).run g =
        .ok (if s.expiresAtMs < nowMs then none else some s)
          { g with oauthStates := g.oauthStates.erase state } := by
      simp only [InMemoryRepo.consumeOAuthState, EStateM.run_bind, EStateM.run_get, hold]
      by_cases hexpired : s.expiresAtMs < nowMs <;> simp only [hexpired] <;> rfl
    obtain ⟨hcreated, hexpires⟩ := hread s hold
    rw [hmem, Option.map_some]
    dsimp only
    rw [into_oauthStateRow hcreated hexpires]
    exact ⟨rfl, herased⟩

end

/-! ## Runs -/

section

variable [HashOrder] [ScanOrder] [Lowercase] {g : InMemoryRepo} {d : D1Repo}

/-- A call that agrees has the same result on both, and leaves the same rows. -/
theorem alike_serve (h : Mirrors g d) {ids : FreshIds} (hids : InMemoryRepo.Fresh ids g)
    {call : RepoCall} (hagrees : Agrees ids g call) :
    BothReply RepoReply.Same ((InMemoryRepo.serve ids call).run g)
      ((D1Repo.serve ids call).run d) := by
  cases call with
  | getUser id => exact (alike_getUser h hagrees).map fun _ _ => congrArg RepoReply.optUser
  | getUserByEmail email =>
    exact (alike_getUserByEmail h (fun u hu => (hagrees u hu).1) fun u hu => (hagrees u hu).2).map
      fun _ _ => congrArg RepoReply.optUser
  | listIdentities userId => exact (alike_listIdentities h hagrees).map fun _ _ => id
  | findIdentity provider providerUserId =>
    exact (alike_findIdentity h hagrees).map fun _ _ => congrArg RepoReply.optIdentity
  | linkIdentity userId provider providerUserId secret nowMs =>
    exact (alike_linkIdentity h secret nowMs hids.2.1 hagrees.1 hagrees.2).map
      fun _ _ => congrArg RepoReply.identity
  | updateIdentitySecret identityId newSecret =>
    exact (alike_updateIdentitySecret h newSecret hagrees).map fun _ _ _ => rfl
  | createPasswordUser input nowMs =>
    exact (alike_createUser ⟨input.email, false, IdentityProvider.PASSWORD, none,
      some input.passwordHash, nowMs⟩ h hids hagrees).map fun _ _ => congrArg RepoReply.user
  | createOAuthUser input nowMs =>
    exact (alike_createUser ⟨input.email, true, input.provider, some input.providerUserId, none,
      nowMs⟩ h hids hagrees).map fun _ _ => congrArg RepoReply.user
  | getOrganization id =>
    exact (alike_getOrganization h hagrees).map fun _ _ => congrArg RepoReply.optOrganization
  | createOrganization displayName ownerUserId nowMs =>
    exact (alike_createOrganization h hids.2.2.1 hagrees).map
      fun _ _ => congrArg RepoReply.organization
  | listOrganizationsForUser userId =>
    exact (alike_listOrganizationsForUser h hagrees).map fun _ _ => id
  | getOrgMembership userId orgId =>
    exact (alike_getOrgMembership h hagrees).map fun _ _ => congrArg RepoReply.optMembership
  | createDatabase orgId name createdBy nowMs =>
    obtain ⟨horg, hrest⟩ := hagrees
    -- A name that is taken is refused before D1 looks at the user.
    by_cases hname : ∃ db ∈ values g.databases, db.orgId = orgId ∧ db.name = name
    · obtain ⟨db, hdb, hname⟩ := hname
      exact (alike_createDatabase_taken h horg hdb hname).map
        fun _ _ => congrArg RepoReply.database
    · have huser := hrest.resolve_right hname
      exact (alike_createDatabase_new h hids.2.2.2 horg huser hname).map
        fun _ _ => congrArg RepoReply.database
  | getDatabase id =>
    exact (alike_getDatabase h hagrees).map fun _ _ => congrArg RepoReply.optDatabase
  | listDatabasesForOrg orgId => exact (alike_listDatabasesForOrg h hagrees).map fun _ _ => id
  | deleteDatabase id => exact (alike_deleteDatabase h id).map fun _ _ _ => rfl
  | storeOAuthState state => exact (alike_storeOAuthState h hagrees).map fun _ _ _ => rfl
  | consumeOAuthState state nowMs =>
    exact (alike_consumeOAuthState h nowMs hagrees).map
      fun _ _ => congrArg RepoReply.optOAuthState
  | deleteOrganization | addOrgMembership | removeOrgMembership | listOrgMemberships =>
    exact hagrees.elim

/-- Every call of a run gets new identifiers and agrees in the state it is made in. -/
def AgreesAlong : List (FreshIds × RepoCall) → InMemoryRepo → Prop
  | [], _ => True
  | (ids, call) :: calls, g =>
    InMemoryRepo.Fresh ids g ∧ Agrees ids g call ∧
      AgreesAlong calls (final ((InMemoryRepo.serve ids call).run g))

instance (ids : FreshIds) (g : InMemoryRepo) (call : RepoCall) : Decidable (Agrees ids g call) := by
  cases call <;> dsimp only [Agrees, SignupAgrees] <;> infer_instance

instance decidableAgreesAlong :
    (calls : List (FreshIds × RepoCall)) → (g : InMemoryRepo) → Decidable (AgreesAlong calls g)
  | [], _ => inferInstanceAs (Decidable True)
  | (ids, call) :: calls, g =>
    have := decidableAgreesAlong calls (final ((InMemoryRepo.serve ids call).run g))
    inferInstanceAs (Decidable (InMemoryRepo.Fresh ids g ∧ Agrees ids g call ∧
      AgreesAlong calls (final ((InMemoryRepo.serve ids call).run g))))

theorem results_of_mirrors (h : Mirrors g d) {calls : List (FreshIds × RepoCall)}
    (hcalls : AgreesAlong calls g) :
    List.Forall₂ SameResult (results InMemoryRepo.serve calls g)
      (results D1Repo.serve calls d) := by
  induction calls generalizing g d with
  | nil => exact .nil
  | cons l calls ih =>
    obtain ⟨hids, hagrees, hrest⟩ := hcalls
    have halike := alike_serve h hids hagrees
    exact .cons halike.answers (ih halike.mirrors hrest)

/-- A run whose calls all agree has the same results on both repositories. -/
theorem same_results {calls : List (FreshIds × RepoCall)} (hcalls : AgreesAlong calls .new) :
    List.Forall₂ SameResult (results InMemoryRepo.serve calls .new)
      (results D1Repo.serve calls .new) :=
  results_of_mirrors mirrors_new hcalls

end

/-- Users with emails that differ in ASCII case, one database twice, and a state that is
consumed twice. -/
theorem same_results_signups :
    let _ := HashOrder.newestFirst
    let _ := ScanOrder.oldestFirst
    let _ := Lowercase.ascii
    let ids : String → FreshIds := fun n => ⟨⟨n⟩, ⟨n⟩, ⟨n⟩, ⟨n⟩⟩
    let calls : List (FreshIds × RepoCall) := [
      (ids "0", .createPasswordUser ⟨"Ada@x.org", "hash"⟩ 1),
      (ids "1", .createOAuthUser ⟨"ada@X.org", "github", "7"⟩ 2),
      (ids "2", .createDatabase ⟨"0"⟩ "main" ⟨"0"⟩ 3),
      (ids "3", .createDatabase ⟨"0"⟩ "main" ⟨"9"⟩ 4),
      (ids "4", .listOrganizationsForUser ⟨"0"⟩),
      (ids "5", .storeOAuthState ⟨"s", "github", 5, 9⟩),
      (ids "6", .consumeOAuthState "s" 7),
      (ids "7", .consumeOAuthState "s" 7)]
    AgreesAlong calls .new ∧ List.Forall₂ SameResult (results InMemoryRepo.serve calls .new)
      (results D1Repo.serve calls .new) := by
  intro _ _ _ ids calls
  have hcalls : AgreesAlong calls .new := by decide
  exact ⟨hcalls, same_results hcalls⟩

/-- The in-memory repository misses the identity whose secret is to change, D1 does
not. -/
theorem results_differ :
    let _ := HashOrder.newestFirst
    let _ := ScanOrder.oldestFirst
    let _ := Lowercase.ascii
    let calls : List (FreshIds × RepoCall) :=
      [(⟨⟨"u"⟩, ⟨"i"⟩, ⟨"o"⟩, ⟨"d"⟩⟩, .updateIdentitySecret ⟨"x"⟩ "secret")]
    ¬ List.Forall₂ SameResult (results InMemoryRepo.serve calls .new)
      (results D1Repo.serve calls .new) := by
  intro _ _ _ calls h
  cases h with
  | cons hfirst _ => exact hfirst

end EdgeReplica
