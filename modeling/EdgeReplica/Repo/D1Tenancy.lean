-- SUMMARY: Whose the personal organizations of D1 are: each has one owner, who alone is a member of it.
import EdgeReplica.Auth.Tokens
import EdgeReplica.Repo.D1Served

/-!
# Tenants over D1

An identifier is taken once, by the rules of the tables. So a personal organization stays the
one its user signed up with, and what is listed for a user as personal is his own.
-/

namespace EdgeReplica

open Effect (bind_eq_ok)
open Sql (ScanOrder)
open Tokens (MintSessionInput)

namespace D1Repo

/-- The user owns the personal organization, and is its admin. -/
structure Owns (d : D1Repo) (userId orgId : String) : Prop where
  org : ∃ o ∈ d.organizations, o.id = orgId ∧ o.personal ≠ 0 ∧ o.ownerUserId = some userId
  member : ∃ m ∈ d.orgMemberships, m.userId = userId ∧ m.orgId = orgId ∧
    m.role = Role.admin.asStr

/-- The session is rooted on a personal organization that its user owns. -/
structure Rooted (d : D1Repo) (session : MintSessionInput) : Prop where
  owns : d.Owns session.userId.asStr session.org.asStr
  role : session.role = .admin

structure Tenancy (d : D1Repo) : Prop where
  organizations : organizationsTable.Distinct d
  databases : databasesTable.Distinct d
  members : ∀ m ∈ d.orgMemberships, ∃ o ∈ d.organizations, o.id = m.orgId ∧
    (o.personal ≠ 0 → o.ownerUserId = some m.userId ∧ m.role = Role.admin.asStr)

theorem tenancy_new : Tenancy new where
  organizations _ _ := List.Pairwise.nil
  databases _ _ := List.Pairwise.nil
  members := nofun

section

variable {d d' : D1Repo} {ids : FreshIds} {userId userId' orgId : String}

/-! ## What a user owns -/

theorem Owns.mono (h : d.Owns userId orgId) (horgs : d.organizations ⊆ d'.organizations)
    (hmembers : d.orgMemberships ⊆ d'.orgMemberships) : d'.Owns userId orgId := by
  obtain ⟨⟨o, ho, horg⟩, m, hm, hmember⟩ := h
  exact ⟨⟨o, horgs ho, horg⟩, m, hmembers hm, hmember⟩

theorem Rooted.mono {session : MintSessionInput} (h : d.Rooted session)
    (horgs : d.organizations ⊆ d'.organizations)
    (hmembers : d.orgMemberships ⊆ d'.orgMemberships) : d'.Rooted session :=
  ⟨h.owns.mono horgs hmembers, h.role⟩

/-- The rows of one organization are one row. -/
theorem Tenancy.org_eq (h : Tenancy d) {o o' : OrgRow} (ho : o ∈ d.organizations)
    (ho' : o' ∈ d.organizations) (hid : o.id = o'.id) : o = o' :=
  h.organizations.eq_of_key List.mem_cons_self ho ho' hid

/-- The rows of one database are one row. -/
theorem Tenancy.database_eq (h : Tenancy d) {row row' : DatabaseRow} (hrow : row ∈ d.databases)
    (hrow' : row' ∈ d.databases) (hid : row.id = row'.id) : row = row' :=
  h.databases.eq_of_key List.mem_cons_self hrow hrow' hid

theorem Tenancy.owner_eq (h : Tenancy d) (howns : d.Owns userId orgId)
    (howns' : d.Owns userId' orgId) : userId = userId' := by
  obtain ⟨o, ho, hid, -, howner⟩ := howns.org
  obtain ⟨o', ho', hid', -, howner'⟩ := howns'.org
  obtain rfl := h.org_eq ho ho' (hid.trans hid'.symm)
  exact Option.some.inj (howner.symm.trans howner')

/-- A member of a personal organization owns it. -/
theorem Tenancy.owns_of_member (h : Tenancy d) {m : OrgMembershipRow} {o : OrgRow}
    (hm : m ∈ d.orgMemberships) (ho : o ∈ d.organizations) (hid : m.orgId = o.id)
    (hpersonal : o.personal ≠ 0) :
    d.Owns m.userId o.id ∧ m.role = Role.admin.asStr := by
  obtain ⟨o', ho', hid', hmember⟩ := h.members m hm
  obtain rfl := h.org_eq ho ho' (hid.symm.trans hid'.symm)
  obtain ⟨howner, hrole⟩ := hmember hpersonal
  exact ⟨⟨⟨o, ho, rfl, hpersonal, howner⟩, m, hm, rfl, hid, hrole⟩, hrole⟩

/-! ## What the calls leave -/

/-- Neither organizations nor memberships nor databases are written. -/
theorem Tenancy.congr (h : Tenancy d) (horgs : d'.organizations = d.organizations)
    (hmembers : d'.orgMemberships = d.orgMemberships) (hdatabases : d'.databases = d.databases) :
    Tenancy d' where
  organizations := h.organizations.congr horgs
  databases := h.databases.congr hdatabases
  members := by
    rw [horgs, hmembers]
    exact h.members

/-- A user signs up. -/
theorem Tenancy.signedUp (h : Tenancy d) {rec : SignupRecord}
    (hnew : signupViolation ids rec d = none) : Tenancy (signedUp ids rec d) where
  organizations := by
    have horg : organizationsTable.violation (rec.orgRow ids) (signedUpIdentity ids rec d) = none :=
      (Option.or_eq_none_iff.mp
        (Option.or_eq_none_iff.mp (Option.or_eq_none_iff.mp hnew).2).2).1
    have hbefore : organizationsTable.Distinct (signedUpIdentity ids rec d) :=
      h.organizations.congr rfl
    exact (hbefore.insert horg).congr rfl
  databases := h.databases.congr rfl
  members m hm := by
    rcases List.mem_append.mp hm with hold | hnew
    · obtain ⟨o, ho, hmember⟩ := h.members m hold
      exact ⟨o, List.mem_append_left _ ho, hmember⟩
    · obtain rfl := List.mem_singleton.mp hnew
      exact ⟨rec.orgRow ids, List.mem_append_right _ List.mem_cons_self, rfl, fun _ => ⟨rfl, rfl⟩⟩

theorem Tenancy.addDatabase (h : Tenancy d) {row : DatabaseRow}
    (hnew : databasesTable.violation row d = none) : Tenancy (databasesTable.add row d) where
  organizations := h.organizations.congr rfl
  databases := h.databases.insert hnew
  members := h.members

theorem Tenancy.withoutDatabase (h : Tenancy d) (id : DatabaseId) :
    Tenancy (d.withoutDatabase id) where
  organizations := h.organizations.congr rfl
  databases := h.databases.delete fun r => decide (r.id = id.asStr)
  members := h.members

end

/-! ## What is listed for a user -/

/-- What a session token is minted for: the role of its user in a personal organization that
was listed for the user. -/
def ListedFor (d : D1Repo) (input : MintSessionInput) : Prop :=
  ∃ m ∈ d.orgMemberships, ∃ o ∈ d.organizations, m.orgId = o.id ∧ o.personal ≠ 0 ∧
    m.userId = input.userId.asStr ∧ o.id = input.org.asStr ∧ parseRole m.role = .ok input.role

theorem Tenancy.rooted {d : D1Repo} (h : Tenancy d) {input : MintSessionInput}
    (hlisted : d.ListedFor input) : d.Rooted input := by
  obtain ⟨m, hm, o, ho, hid, hpersonal, huser, horg, hrole⟩ := hlisted
  obtain ⟨howns, hadmin⟩ := h.owns_of_member hm ho hid hpersonal
  refine ⟨huser ▸ horg ▸ howns, ?_⟩
  rw [hadmin] at hrole
  exact (Except.ok.inj hrole).symm

/-- The organizations that are listed are those of the memberships of the user. -/
theorem mem_listOrganizationsForUser [ScanOrder] {userId : UserId} {d d' : D1Repo}
    {orgs : List OrgWithRole} (h : (listOrganizationsForUser userId).run d = .ok orgs d')
    {org : Domain.Organization} {role : Role} (hmem : (org, role) ∈ orgs) :
    ∃ m ∈ d.orgMemberships, ∃ o ∈ d.organizations, m.orgId = o.id ∧ m.userId = userId.asStr ∧
      o.into = .ok org ∧ parseRole m.role = .ok role := by
  let joined := d.orgMemberships.flatMap fun m =>
    (d.organizations.filter fun o => m.orgId = o.id).map (m, ·)
  have hjoin : (exec (orgMembershipsTable.join organizationsTable fun m o => m.orgId = o.id)).run
      d = .ok (ScanOrder.scan joined) d := rfl
  rw [listOrganizationsForUser, EStateM.run_bind, hjoin] at h
  dsimp only at h
  rw [Effect.run_ofExcept_bind] at h
  split at h
  · next listed hlisted =>
    obtain ⟨horgs, -⟩ := Effect.run_ofExcept_eq_ok.mp h
    obtain ⟨⟨org', text⟩, hpair, hparse⟩ := Effect.exists_of_mem_mapM horgs hmem
    obtain ⟨role', hrole, heq⟩ := bind_eq_ok.mp hparse
    obtain ⟨rfl, rfl⟩ := Prod.mk.inj (Except.ok.inj heq)
    obtain ⟨⟨m, o⟩, hrow, hinto⟩ := Effect.exists_of_mem_mapM hlisted hpair
    obtain ⟨org'', horg, heq⟩ := bind_eq_ok.mp hinto
    obtain ⟨rfl, rfl⟩ := Prod.mk.inj (Except.ok.inj heq)
    obtain ⟨hscan, huser⟩ := List.mem_filter.mp ((List.mem_insertionSort _).mp hrow)
    obtain ⟨m', hm, hpairs⟩ := List.mem_flatMap.mp ((ScanOrder.scan_perm joined).mem_iff.mp hscan)
    obtain ⟨o', ho, heq⟩ := List.mem_map.mp hpairs
    obtain ⟨rfl, rfl⟩ := Prod.mk.inj heq
    obtain ⟨ho, hid⟩ := List.mem_filter.mp ho
    exact ⟨m', hm, o', ho, of_decide_eq_true hid, of_decide_eq_true huser, horg, hrole⟩
  · cases h

end D1Repo

end EdgeReplica
