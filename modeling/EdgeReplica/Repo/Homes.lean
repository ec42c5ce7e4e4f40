-- SUMMARY: The personal organizations of the in-memory repository: whose comes first among a user's memberships, and which calls leave it so.
import EdgeReplica.Repo.InMemorySound

/-!
# Homes

Each user is created with a personal organization and as its admin. Memberships are
added to personal organizations and removed from them as in any other, so a user's
own need not stay the first one of his. `Harmless` are the calls after which it still
is.
-/

namespace EdgeReplica

open Domain (Organization OrgMembership)
open Effect (final Steps)
open Text (Lowercase)

namespace InMemoryRepo

/-! ## Whose comes first -/

def Personal (g : InMemoryRepo) (orgId : OrgId) : Prop :=
  ∃ org ∈ g.organizations.lookup orgId, org.personal = true

/-- The organization is the personal one of the user. -/
def Owns (g : InMemoryRepo) (userId : UserId) (orgId : OrgId) : Prop :=
  ∃ org ∈ g.organizations.lookup orgId, org.personal = true ∧ org.ownerUserId = some userId

instance (g : InMemoryRepo) (orgId : OrgId) : Decidable (Personal g orgId) := by
  unfold Personal
  infer_instance

instance (g : InMemoryRepo) (userId : UserId) (orgId : OrgId) :
    Decidable (Owns g userId orgId) := by
  unfold Owns
  infer_instance

/-- Among the personal organizations that the user is a member of this is the first. -/
structure First (g : InMemoryRepo) (userId : UserId) (orgId : OrgId) : Prop where
  member : (userId, orgId) ∈ g.orgMemberships
  personal : Personal g orgId
  least : ∀ orgId', (userId, orgId') ∈ g.orgMemberships → Personal g orgId' →
    orgId.asStr ≤ orgId'.asStr

/-- The first one is the user's own, and he is its admin. -/
structure Home (g : InMemoryRepo) (userId : UserId) (orgId : OrgId) : Prop where
  owns : Owns g userId orgId
  admin : ∃ m ∈ g.orgMemberships.lookup (userId, orgId), m.role = .admin
  first : ∀ orgId', (userId, orgId') ∈ g.orgMemberships → Personal g orgId' →
    orgId.asStr ≤ orgId'.asStr

/-- Every user has a home. -/
structure Homes (g : InMemoryRepo) : Prop where
  userIds : ∀ id, ∀ user ∈ g.users.lookup id, user.id = id
  orgIds : ∀ id, ∀ org ∈ g.organizations.lookup id, org.personal = true → org.id = id
  owned : ∀ id, ∀ org ∈ g.organizations.lookup id, org.personal = true →
    ∃ userId ∈ g.users, org.ownerUserId = some userId
  unique : ∀ userId orgId orgId', Owns g userId orgId → Owns g userId orgId' → orgId = orgId'
  homes : ∀ userId ∈ g.users, ∃ orgId, Home g userId orgId

theorem homes_new : Homes new := by
  constructor <;> simp [new, Owns]

section

variable {g g' : InMemoryRepo} {ids : FreshIds} {input : NewUser} {nowMs : Int64} {userId : UserId}
  {orgId : OrgId}

theorem Owns.personal (h : Owns g userId orgId) : Personal g orgId := by
  obtain ⟨org, horg, hpersonal, -⟩ := h
  exact ⟨org, horg, hpersonal⟩

theorem Personal.mem (h : Personal g orgId) : orgId ∈ g.organizations := by
  obtain ⟨org, horg, -⟩ := h
  exact AList.lookup_isSome.mp (by rw [horg]; rfl)

theorem Home.isFirst (h : Home g userId orgId) : First g userId orgId := by
  obtain ⟨m, hm, -⟩ := h.admin
  exact ⟨AList.lookup_isSome.mp (by rw [hm]; rfl), h.owns.personal, h.first⟩

theorem First.eq {orgId' : OrgId} (h : First g userId orgId) (h' : First g userId orgId') :
    orgId = orgId' :=
  OrgId.ext (Std.le_antisymm (h.least orgId' h'.member h'.personal)
    (h'.least orgId h.member h.personal))

theorem Homes.owner_mem (hg : Homes g) (h : Owns g userId orgId) : userId ∈ g.users := by
  obtain ⟨org, horg, hpersonal, howner⟩ := h
  obtain ⟨userId', huser, howner'⟩ := hg.owned orgId org horg hpersonal
  obtain rfl : userId = userId' := Option.some.inj (howner.symm.trans howner')
  exact huser

/-- The home of a user who owns an organization is that one. -/
theorem Homes.home_of_owns (hg : Homes g) (h : Owns g userId orgId) : Home g userId orgId := by
  obtain ⟨orgId', hhome⟩ := hg.homes userId (hg.owner_mem h)
  obtain rfl := hg.unique userId orgId orgId' h hhome.owns
  exact hhome

/-! ## Calls that leave the homes alone -/

/-- The users, the personal organizations and the memberships in them are the same. -/
structure SameHomes (g g' : InMemoryRepo) : Prop where
  users : g'.users = g.users
  organizations : ∀ id org, org.personal = true →
    (org ∈ g'.organizations.lookup id ↔ org ∈ g.organizations.lookup id)
  members : ∀ userId orgId, Personal g orgId →
    g'.orgMemberships.lookup (userId, orgId) = g.orgMemberships.lookup (userId, orgId)

theorem SameHomes.of_eq (husers : g'.users = g.users) (horgs : g'.organizations = g.organizations)
    (hmembers : g'.orgMemberships = g.orgMemberships) : SameHomes g g' where
  users := husers
  organizations id org _ := by rw [horgs]
  members userId orgId _ := by rw [hmembers]

theorem SameHomes.personal_iff (h : SameHomes g g') : Personal g' orgId ↔ Personal g orgId := by
  constructor
  · rintro ⟨org, horg, hpersonal⟩
    exact ⟨org, (h.organizations orgId org hpersonal).mp horg, hpersonal⟩
  · rintro ⟨org, horg, hpersonal⟩
    exact ⟨org, (h.organizations orgId org hpersonal).mpr horg, hpersonal⟩

theorem SameHomes.owns_iff (h : SameHomes g g') : Owns g' userId orgId ↔ Owns g userId orgId := by
  constructor
  · rintro ⟨org, horg, hpersonal, howner⟩
    exact ⟨org, (h.organizations orgId org hpersonal).mp horg, hpersonal, howner⟩
  · rintro ⟨org, horg, hpersonal, howner⟩
    exact ⟨org, (h.organizations orgId org hpersonal).mpr horg, hpersonal, howner⟩

theorem SameHomes.homes (h : SameHomes g g') (hg : Homes g) : Homes g' where
  userIds id user huser := hg.userIds id user (h.users ▸ huser)
  orgIds id org horg hpersonal :=
    hg.orgIds id org ((h.organizations id org hpersonal).mp horg) hpersonal
  owned id org horg hpersonal := by
    rw [h.users]
    exact hg.owned id org ((h.organizations id org hpersonal).mp horg) hpersonal
  unique userId orgId orgId' howns howns' :=
    hg.unique userId orgId orgId' (h.owns_iff.mp howns) (h.owns_iff.mp howns')
  homes userId huser := by
    rw [h.users] at huser
    obtain ⟨orgId, hhome⟩ := hg.homes userId huser
    refine ⟨orgId, h.owns_iff.mpr hhome.owns, ?_, fun orgId' hmember hpersonal => ?_⟩
    · rw [h.members userId orgId hhome.owns.personal]
      exact hhome.admin
    · have hpersonal' : Personal g orgId' := h.personal_iff.mp hpersonal
      rw [← AList.lookup_isSome, h.members userId orgId' hpersonal', AList.lookup_isSome] at hmember
      exact hhome.first orgId' hmember hpersonal'

/-! ## New users -/

/-- No membership names the identifiers that are generated. -/
def Unlinked (ids : FreshIds) (g : InMemoryRepo) : Prop :=
  ∀ key ∈ g.orgMemberships.keys, key.1 ≠ ids.userId ∧ key.2 ≠ ids.orgId

instance (ids : FreshIds) (g : InMemoryRepo) : Decidable (Unlinked ids g) := by
  unfold Unlinked
  infer_instance

theorem mem_lookup_insertUser_organizations (hfresh : Fresh ids g) {org : Organization} :
    org ∈ (g.insertUser ids input nowMs).organizations.lookup orgId ↔
      orgId = ids.orgId ∧ org = ⟨ids.orgId, Domain.personalOrgName input.email, true,
        some ids.userId, nowMs⟩ ∨ org ∈ g.organizations.lookup orgId := by
  change org ∈ (g.organizations.insert ids.orgId _).lookup orgId ↔ _
  rw [HashMap.lookup_insert_eq]
  split
  · next heq =>
    subst heq
    rw [AList.lookup_eq_none.mpr hfresh.2.2.1]
    simp [eq_comm]
  · next hne => simp [hne]

theorem owns_insertUser (hfresh : Fresh ids g) :
    Owns (g.insertUser ids input nowMs) userId orgId ↔
      userId = ids.userId ∧ orgId = ids.orgId ∨ Owns g userId orgId := by
  unfold Owns
  simp only [mem_lookup_insertUser_organizations hfresh]
  constructor
  · rintro ⟨org, ⟨rfl, rfl⟩ | horg, hpersonal, howner⟩
    · exact .inl ⟨(Option.some.inj howner).symm, rfl⟩
    · exact .inr ⟨org, horg, hpersonal, howner⟩
  · rintro (⟨rfl, rfl⟩ | ⟨org, horg, hpersonal, howner⟩)
    · exact ⟨_, .inl ⟨rfl, rfl⟩, rfl, rfl⟩
    · exact ⟨org, .inr horg, hpersonal, howner⟩

theorem personal_insertUser (hfresh : Fresh ids g) :
    Personal (g.insertUser ids input nowMs) orgId ↔ orgId = ids.orgId ∨ Personal g orgId := by
  unfold Personal
  simp only [mem_lookup_insertUser_organizations hfresh]
  constructor
  · rintro ⟨org, ⟨rfl, -⟩ | horg, hpersonal⟩
    · exact .inl rfl
    · exact .inr ⟨org, horg, hpersonal⟩
  · rintro (rfl | ⟨org, horg, hpersonal⟩)
    · exact ⟨_, .inl ⟨rfl, rfl⟩, rfl⟩
    · exact ⟨org, .inr horg, hpersonal⟩

/-- A new user has a home, which nobody else is a member of. -/
theorem Homes.insertUser (hg : Homes g) (hfresh : Fresh ids g) (hunlinked : Unlinked ids g) :
    Homes (g.insertUser ids input nowMs) where
  userIds := by
    intro id user huser
    rcases HashMap.lookup_insert_eq_some.mp huser with ⟨rfl, rfl⟩ | ⟨-, hold⟩
    · rfl
    · exact hg.userIds id user hold
  orgIds := by
    intro id org horg hpersonal
    rcases (mem_lookup_insertUser_organizations hfresh).mp horg with ⟨rfl, rfl⟩ | hold
    · rfl
    · exact hg.orgIds id org hold hpersonal
  owned := by
    intro id org horg hpersonal
    rcases (mem_lookup_insertUser_organizations hfresh).mp horg with ⟨rfl, rfl⟩ | hold
    · exact ⟨ids.userId, (AList.mem_insert _).mpr (.inl rfl), rfl⟩
    · obtain ⟨userId, huser, howner⟩ := hg.owned id org hold hpersonal
      exact ⟨userId, (AList.mem_insert _).mpr (.inr huser), howner⟩
  unique := by
    intro userId orgId orgId' howns howns'
    rcases (owns_insertUser hfresh).mp howns with ⟨huser, rfl⟩ | hold <;>
      rcases (owns_insertUser hfresh).mp howns' with ⟨huser', rfl⟩ | hold'
    · rfl
    · exact absurd (huser ▸ hg.owner_mem hold') hfresh.1
    · exact absurd (huser' ▸ hg.owner_mem hold) hfresh.1
    · exact hg.unique userId orgId orgId' hold hold'
  homes := by
    intro userId huser
    rcases (AList.mem_insert _).mp huser with rfl | hold
    · refine ⟨ids.orgId, (owns_insertUser hfresh).mpr (.inl ⟨rfl, rfl⟩),
        ⟨_, AList.lookup_insert _, rfl⟩, fun orgId' hmember _ => ?_⟩
      rcases (AList.mem_insert _).mp hmember with heq | hmember'
      · obtain rfl : orgId' = ids.orgId := (Prod.mk.inj heq).2
        exact Std.le_refl _
      · exact absurd rfl (hunlinked _ hmember').1
    · obtain ⟨orgId, hhome⟩ := hg.homes userId hold
      have hne : userId ≠ ids.userId := fun heq => hfresh.1 (heq ▸ hold)
      refine ⟨orgId, (owns_insertUser hfresh).mpr (.inr hhome.owns), ?_,
        fun orgId' hmember hpersonal => ?_⟩
      · obtain ⟨m, hm, hrole⟩ := hhome.admin
        refine ⟨m, ?_, hrole⟩
        exact (AList.lookup_insert_ne fun heq => hne (Prod.mk.inj heq).1).trans hm
      · rcases (AList.mem_insert _).mp hmember with heq | hmember'
        · exact absurd (Prod.mk.inj heq).1 hne
        · rcases (personal_insertUser hfresh).mp hpersonal with rfl | hpersonal'
          · exact absurd rfl (hunlinked _ hmember').2
          · exact hhome.first orgId' hmember' hpersonal'

/-! ## Memberships -/

/-- A membership that comes after the user's own organization, or is in none that
counts. -/
theorem Homes.join (hg : Homes g) {m : OrgMembership}
    (hnew : (userId, orgId) ∉ g.orgMemberships)
    (hafter : userId ∈ g.users → Personal g orgId →
      ∃ home, Owns g userId home ∧ home.asStr ≤ orgId.asStr) :
    Homes { g with orgMemberships := g.orgMemberships.insert (userId, orgId) m } where
  userIds := hg.userIds
  orgIds := hg.orgIds
  owned := hg.owned
  unique := hg.unique
  homes := by
    intro userId' huser
    obtain ⟨home, hhome⟩ := hg.homes userId' huser
    refine ⟨home, hhome.owns, ?_, fun orgId' hmember hpersonal => ?_⟩
    · obtain ⟨m', hm', hrole⟩ := hhome.admin
      exact ⟨m', HashMap.lookup_insert_of_notMem hnew hm', hrole⟩
    · rcases (AList.mem_insert _).mp hmember with heq | hold
      · obtain ⟨rfl, rfl⟩ := Prod.mk.inj heq
        obtain ⟨home', howns, hle⟩ := hafter huser hpersonal
        obtain rfl := hg.unique userId' home home' hhome.owns howns
        exact hle
      · exact hhome.first orgId' hold hpersonal

theorem Homes.leave (hg : Homes g) (hown : ¬ Owns g userId orgId) :
    Homes { g with orgMemberships := g.orgMemberships.erase (userId, orgId) } where
  userIds := hg.userIds
  orgIds := hg.orgIds
  owned := hg.owned
  unique := hg.unique
  homes := by
    intro userId' huser
    obtain ⟨home, hhome⟩ := hg.homes userId' huser
    refine ⟨home, hhome.owns, ?_, fun orgId' hmember hpersonal => ?_⟩
    · obtain ⟨m, hm, hrole⟩ := hhome.admin
      refine ⟨m, (AList.lookup_erase_ne fun heq => ?_).trans hm, hrole⟩
      obtain ⟨rfl, rfl⟩ := Prod.mk.inj heq
      exact hown hhome.owns
    · exact hhome.first orgId' (AList.mem_erase.mp hmember).2 hpersonal

end

/-! ## Calls -/

/-- The call keeps to what `SameHomes` allows, step by step. -/
def Spares {α : Type} (g : InMemoryRepo) (m : RepoM α) : Prop := Steps SameHomes g m

section

variable (ids : FreshIds) (g : InMemoryRepo)

theorem spares_updateIdentitySecret (identityId : IdentityId) (newSecret : String) :
    Spares g (updateIdentitySecret identityId newSecret) := by
  refine Steps.get_bind ?_
  cases g.identities.lookup identityId with
  | none => exact .throw _
  | some identity => exact .modify (.of_eq rfl rfl rfl)

/-- A shared organization is not a home. -/
theorem spares_createOrganization (hfresh : Fresh ids g) (displayName : String)
    (ownerUserId : UserId) (nowMs : Int64) :
    Spares g (createOrganization ids displayName ownerUserId nowMs) := by
  refine Steps.get_bind ?_
  by_cases howner : ownerUserId ∈ g.users
  · simp only [howner]
    refine Steps.bind (.modify ⟨rfl, fun id org hpersonal => ?_, fun userId orgId hold => ?_⟩)
      fun _ _ _ => .pure _
    · rw [HashMap.lookup_insert_eq]
      split
      · next heq =>
        rw [heq, AList.lookup_eq_none.mpr hfresh.2.2.1]
        refine iff_of_false (fun hnew => ?_) (fun hnone => nomatch hnone)
        obtain rfl := Option.mem_some_iff.mp hnew
        cases hpersonal
      · rfl
    · refine AList.lookup_insert_ne fun heq => ?_
      exact hfresh.2.2.1 ((Prod.mk.inj heq).2 ▸ hold.mem)
  · simp only [howner]
    exact .throw _

theorem spares_consumeOAuthState (state : String) (nowMs : Int64) :
    Spares g (consumeOAuthState state nowMs) := by
  refine Steps.get_bind ?_
  cases g.oauthStates.lookup state with
  | none => exact .pure _
  | some s =>
    refine Steps.bind (.modify (.of_eq rfl rfl rfl)) fun _ _ _ => ?_
    by_cases hexpired : s.expiresAtMs < nowMs
    · simp only [hexpired]
      exact .pure _
    · simp only [hexpired]
      exact .pure _

theorem spares_deleteDatabase (id : DatabaseId) : Spares g (deleteDatabase id) := by
  unfold Spares Steps
  rw [run_deleteDatabase]
  split
  · exact .single (.of_eq rfl rfl rfl)
  · exact .refl

variable [HashOrder]

theorem spares_linkIdentity (userId : UserId) (provider providerUserId : String)
    (secret : Option String) (nowMs : Int64) :
    Spares g (linkIdentity ids userId provider providerUserId secret nowMs) := by
  refine Steps.get_bind ?_
  cases g.identityOf provider providerUserId with
  | none => exact Steps.bind (.modify (.of_eq rfl rfl rfl)) fun _ _ _ => .pure _
  | some existing =>
    show Steps SameHomes g (if existing.userId ≠ userId then _ else _)
    split
    · exact Steps.bind (.throw _) fun _ _ hrun => nomatch hrun
    · exact .pure _

theorem spares_deleteOrganization (id : OrgId) : Spares g (deleteOrganization id) := by
  refine Steps.get_bind ?_
  cases horg : g.organizations.lookup id with
  | none => exact .throw _
  | some org =>
    cases hpersonal : org.personal with
    | true =>
      simp only [hpersonal]
      exact .throw _
    | false =>
      have hshared : ¬ Personal g id := by
        rintro ⟨org', horg', hpersonal'⟩
        obtain rfl : org = org' := Option.some.inj (horg.symm.trans horg')
        rw [hpersonal] at hpersonal'
        cases hpersonal'
      cases hattached : (HashMap.values g.databases).any fun d => d.orgId = id with
      | true =>
        simp only [hpersonal]
        exact .throw _
      | false =>
        simp only [hpersonal]
        refine .modify ⟨rfl, fun id' org' hpersonal' => ?_, fun userId orgId hold => ?_⟩
        · rw [HashMap.lookup_erase_eq]
          split
          · next heq =>
            refine iff_of_false (fun hnone => nomatch hnone) fun horg' => ?_
            exact hshared ⟨org', heq ▸ horg', hpersonal'⟩
          · rfl
        · have hne : orgId ≠ id := fun heq => hshared (heq ▸ hold)
          ext m
          show m ∈ (HashMap.retain _ g.orgMemberships).lookup (userId, orgId) ↔ _
          rw [Option.mem_def, HashMap.lookup_retain]
          simp [hne]

theorem spares_createDatabase (orgId : OrgId) (name : String) (createdBy : UserId)
    (nowMs : Int64) : Spares g (createDatabase ids orgId name createdBy nowMs) := by
  unfold Spares Steps
  rcases createDatabase_cases ids orgId name createdBy nowMs g with ⟨e, hrun⟩ | ⟨-, hrun⟩
  · rw [hrun]
    exact .refl
  · rw [hrun]
    exact .single (.of_eq rfl rfl rfl)

end

/-- The calls after which every user's own organization still comes first. -/
def Harmless [HashOrder] (g : InMemoryRepo) : RepoCall → Prop
  | .addOrgMembership userId orgId _ _ =>
    userId ∈ g.users → Personal g orgId → ¬ Owns g userId orgId →
      ∃ home ∈ g.organizations.keys, Owns g userId home ∧ home.asStr < orgId.asStr
  | .removeOrgMembership userId orgId =>
    Owns g userId orgId → (g.admins orgId).length ≤ 1
  | _ => True

instance decidableHarmless [HashOrder] (g : InMemoryRepo) :
    (call : RepoCall) → Decidable (Harmless g call)
  | .addOrgMembership userId orgId _ _ =>
    inferInstanceAs (Decidable (userId ∈ g.users → Personal g orgId → ¬ Owns g userId orgId →
      ∃ home ∈ g.organizations.keys, Owns g userId home ∧ home.asStr < orgId.asStr))
  | .removeOrgMembership userId orgId =>
    inferInstanceAs (Decidable (Owns g userId orgId → (g.admins orgId).length ≤ 1))
  | .getUser _ | .getUserByEmail _ | .listIdentities _ | .findIdentity _ _
  | .linkIdentity _ _ _ _ _ | .updateIdentitySecret _ _ | .createPasswordUser _ _
  | .createOAuthUser _ _ | .getOrganization _ | .createOrganization _ _ _
  | .listOrganizationsForUser _ | .deleteOrganization _ | .getOrgMembership _ _
  | .listOrgMemberships _ | .createDatabase _ _ _ _ | .getDatabase _ | .listDatabasesForOrg _
  | .deleteDatabase _ | .storeOAuthState _ | .consumeOAuthState _ _ => isTrue trivial

section

variable [HashOrder] {g : InMemoryRepo} {userId : UserId} {orgId : OrgId}

omit [HashOrder] in
theorem run_addOrgMembership (role : Role) (nowMs : Int64) :
    (addOrgMembership userId orgId role nowMs).run g =
      if (userId, orgId) ∈ g.orgMemberships then
        .error (.alreadyExists s!"org membership {userId.asStr} -> {orgId.asStr}") g
      else .ok () { g with
        orgMemberships :=
          g.orgMemberships.insert (userId, orgId) ⟨userId, orgId, role, nowMs⟩ } := by
  by_cases hold : (userId, orgId) ∈ g.orgMemberships
  · simp [addOrgMembership, hold]
  · simp only [addOrgMembership, EStateM.run_bind, EStateM.run_get, hold]
    rfl

/-- A membership is removed unless it is not there or is the last admin's. -/
theorem removeOrgMembership_cases (userId : UserId) (orgId : OrgId) (g : InMemoryRepo) :
    (∃ e, (removeOrgMembership userId orgId).run g = .error e g ∧
      ∀ m ∈ g.orgMemberships.lookup (userId, orgId),
        m.role = .admin ∧ (g.admins orgId).length ≤ 1) ∨
    (removeOrgMembership userId orgId).run g =
        .ok () { g with orgMemberships := g.orgMemberships.erase (userId, orgId) } ∧
      ∃ m ∈ g.orgMemberships.lookup (userId, orgId),
        ¬ (m.role = .admin ∧ (g.admins orgId).length ≤ 1) := by
  cases hold : g.orgMemberships.lookup (userId, orgId) with
  | none =>
    refine .inl ⟨.notFound "org membership", ?_, fun m hm => nomatch hm⟩
    simp [removeOrgMembership, hold]
  | some m =>
    by_cases hlast : m.role = .admin ∧ (g.admins orgId).length ≤ 1
    · refine .inl ⟨.conflict "cannot remove the last admin of an organization", ?_, ?_⟩
      · simp [removeOrgMembership, hold, hlast]
      · intro m' hm'
        obtain rfl := Option.mem_some_iff.mp hm'
        exact hlast
    · refine .inr ⟨?_, m, rfl, hlast⟩
      simp only [removeOrgMembership, EStateM.run_bind, EStateM.run_get, hold, hlast]
      rfl

/-! ## Steps -/

variable [Lowercase] {ids : FreshIds} {call : RepoCall}

/-- A harmless call leaves every user his home. -/
theorem Homes.serve (hg : Homes g) (hfresh : Fresh ids g) (hunlinked : Unlinked ids g)
    (hharmless : Harmless g call) : Homes (final ((serve ids call).run g)) := by
  have hspared {m : RepoM RepoReply} (hm : Spares g m) : Homes (final (m.run g)) :=
    Steps.keeps hm (fun _ _ hsame => hsame.homes) hg
  have hcreated (input : NewUser) (nowMs : Int64) :
      Homes (final ((createUser ids input nowMs).run g)) := by
    rcases createUser_cases ids input nowMs g with ⟨e, hrun⟩ | ⟨-, hrun⟩
    · rw [hrun]
      exact hg
    · rw [hrun]
      exact hg.insertUser hfresh hunlinked
  cases call with
  | getUser id => exact hg
  | getUserByEmail email => exact hg
  | listIdentities userId => exact hg
  | findIdentity provider providerUserId => exact hg
  | linkIdentity userId provider providerUserId secret nowMs =>
    exact hspared ((spares_linkIdentity ids g userId provider providerUserId secret nowMs).map _)
  | updateIdentitySecret identityId newSecret =>
    exact hspared ((spares_updateIdentitySecret g identityId newSecret).map _)
  | createPasswordUser input nowMs =>
    exact (Effect.final_map _ _ g).symm ▸ hcreated _ nowMs
  | createOAuthUser input nowMs =>
    exact (Effect.final_map _ _ g).symm ▸ hcreated _ nowMs
  | getOrganization id => exact hg
  | createOrganization displayName ownerUserId nowMs =>
    exact hspared ((spares_createOrganization ids g hfresh displayName ownerUserId nowMs).map _)
  | listOrganizationsForUser userId => exact hg
  | deleteOrganization id => exact hspared ((spares_deleteOrganization g id).map _)
  | getOrgMembership userId orgId => exact hg
  | addOrgMembership userId orgId role nowMs =>
    simp only [InMemoryRepo.serve, Effect.final_map, run_addOrgMembership]
    split
    · exact hg
    · next hnew =>
      refine hg.join hnew fun huser hpersonal => ?_
      by_cases hown : Owns g userId orgId
      · exact ⟨orgId, hown, Std.le_refl _⟩
      · obtain ⟨home, -, howns, hlt⟩ := hharmless huser hpersonal hown
        exact ⟨home, howns, Std.le_of_lt hlt⟩
  | removeOrgMembership userId orgId =>
    simp only [InMemoryRepo.serve, Effect.final_map]
    rcases removeOrgMembership_cases userId orgId g with ⟨e, hrun, -⟩ | ⟨hrun, m, hm, hremoved⟩
    · rw [hrun]
      exact hg
    · rw [hrun]
      refine hg.leave fun hown => ?_
      -- His role is the admin's, and there is another admin.
      obtain ⟨m', hm', hrole⟩ := (hg.home_of_owns hown).admin
      obtain rfl : m = m' := Option.some.inj (hm.symm.trans hm')
      exact hremoved ⟨hrole, hharmless hown⟩
  | listOrgMemberships orgId => exact hg
  | createDatabase orgId name createdBy nowMs =>
    exact hspared ((spares_createDatabase ids g orgId name createdBy nowMs).map _)
  | getDatabase id => exact hg
  | listDatabasesForOrg orgId => exact hg
  | deleteDatabase id => exact hspared ((spares_deleteDatabase g id).map _)
  | storeOAuthState state => exact hspared (Steps.map (.modify (.of_eq rfl rfl rfl)) _)
  | consumeOAuthState state nowMs => exact hspared ((spares_consumeOAuthState g state nowMs).map _)

/-- For every user the first personal organization is his own. -/
def OwnFirst (g : InMemoryRepo) : Prop :=
  ∀ userId ∈ g.users, ∃ orgId, First g userId orgId ∧ Owns g userId orgId

/-- Only harmless calls leave it so. The others change memberships and nothing else. -/
theorem harmless_of_ownFirst (hg : Homes g)
    (h : (final ((serve ids call).run g)).users = g.users →
      (final ((serve ids call).run g)).organizations = g.organizations →
      OwnFirst (final ((serve ids call).run g))) :
    Harmless g call := by
  cases call with
  | addOrgMembership userId orgId role nowMs =>
    intro huser hpersonal hother
    obtain ⟨home, hhome⟩ := hg.homes userId huser
    have hne : home ≠ orgId := fun heq => hother (heq ▸ hhome.owns)
    have hle : home.asStr ≤ orgId.asStr := by
      simp only [InMemoryRepo.serve, Effect.final_map, run_addOrgMembership] at h
      split at h
      · next hmember => exact hhome.first orgId hmember hpersonal
      · -- The first one is still his own, and comes before the new one.
        obtain ⟨home', hfirst, howns⟩ := h rfl rfl userId huser
        obtain rfl := hg.unique userId home home' hhome.owns howns
        exact hfirst.least orgId ((AList.mem_insert _).mpr (.inl rfl)) hpersonal
    refine ⟨home, AList.mem_keys.mp hhome.owns.personal.mem, hhome.owns, ?_⟩
    exact Std.lt_of_le_of_ne hle fun heq => hne (OrgId.ext heq)
  | removeOrgMembership userId orgId =>
    intro hown
    simp only [InMemoryRepo.serve, Effect.final_map] at h
    rcases removeOrgMembership_cases userId orgId g with ⟨e, -, hrefused⟩ | ⟨hrun, -⟩
    · obtain ⟨m, hm, -⟩ := (hg.home_of_owns hown).admin
      exact (hrefused m hm).2
    · rw [hrun] at h
      obtain ⟨home, hfirst, howns⟩ := h rfl rfl userId (hg.owner_mem hown)
      obtain rfl := hg.unique userId orgId home hown howns
      exact absurd rfl (AList.mem_erase.mp hfirst.member).1
  | _ => trivial

/-- A step of a run whose generated identifiers are named nowhere, in memberships
either. -/
def freshStep (l : FreshIds × RepoCall) (g : InMemoryRepo) : Option InMemoryRepo :=
  if Unlinked l.1 g then step l g else none

theorem freshStep_eq_some {l : FreshIds × RepoCall} :
    freshStep l g = some g' ↔
      Unlinked l.1 g ∧ Fresh l.1 g ∧ final ((serve l.1 l.2).run g) = g' := by
  unfold freshStep step
  split <;> simp_all

end

end InMemoryRepo

end EdgeReplica
