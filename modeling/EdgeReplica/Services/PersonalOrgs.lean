-- SUMMARY: Whether a user's session is on his own organization, over all runs of the repository.
import EdgeReplica.Repo.Homes
import EdgeReplica.Services.AdminServed

/-!
# Personal organizations

A session is rooted on the first personal organization, by identifier, among all the
memberships of its user. It is on the user's own as long as the calls are harmless.
-/

namespace EdgeReplica

open Domain (User Organization)
open Text (Lowercase)

namespace AdminServer

open InMemoryRepo

variable [TokenClaimsCodec] [HashOrder] {app : AppState} {env : Env} {user : User}
  {s : AdminServer} {g : InMemoryRepo}

/-- A session is on the first personal organization of the user, if there is one. -/
theorem issueSessionFor_first (app : AppState) (env : Env) (user : User)
    (hids : ∀ id, ∀ org ∈ s.repo.organizations.lookup id, org.personal = true → org.id = id) :
    ((∀ orgId, ¬ First s.repo user.id orgId) ∧
        ∃ e, (issueSessionFor app env user).run s = .error e s) ∨
      ∃ org role, First s.repo user.id org.id ∧ org ∈ s.repo.organizations.lookup org.id ∧
        org.personal = true ∧ (issueSessionFor app env user).run s =
          .ok (Tokens.mintSession app.keyring (rootedOn app env user (org, role)), org, role)
            (s.addSession (rootedOn app env user (org, role))) := by
  obtain ⟨orgs, hlist, ⟨hfind, hfails⟩ | ⟨⟨org, role⟩, hfind, hrun⟩⟩ :=
    run_issueSessionFor app env user s
  · refine .inl ⟨fun orgId hfirst => ?_, hfails⟩
    obtain ⟨m, hm⟩ := Option.isSome_iff_exists.mp (AList.lookup_isSome.mpr hfirst.member)
    obtain ⟨org, horg, hpersonal⟩ := hfirst.personal
    have hlisted : (org, m.role) ∈ orgs :=
      (mem_listOrganizationsForUser hlist).mpr ⟨orgId, m, hm, horg, rfl⟩
    exact List.find?_eq_none.mp hfind _ hlisted hpersonal
  · obtain ⟨orgId, m, hm, horg, hrole⟩ :=
      (mem_listOrganizationsForUser hlist).mp (List.mem_of_find?_eq_some hfind)
    have hpersonal : org.personal = true := by simpa using List.find?_some hfind
    obtain rfl := hids orgId org horg hpersonal
    refine .inr ⟨org, role, ⟨AList.lookup_isSome.mp (by rw [hm]; rfl), ⟨org, horg, hpersonal⟩, ?_⟩,
      horg, hpersonal, hrun⟩
    intro orgId' hmember' hpersonal'
    obtain ⟨m', hm'⟩ := Option.isSome_iff_exists.mp (AList.lookup_isSome.mpr hmember')
    obtain ⟨org', horg', hpersonal'⟩ := hpersonal'
    have hlisted : (org', m'.role) ∈ orgs :=
      (mem_listOrganizationsForUser hlist).mpr ⟨orgId', m', hm', horg', rfl⟩
    rw [← hids orgId' org' horg' hpersonal']
    exact Sorted.le_of_find? (listOrganizationsForUser_sorted hlist) hfind hlisted hpersonal'

/-- A session can be issued for the user, on a personal organization that he owns. -/
def RootsOwn (app : AppState) (env : Env) (user : User) (s : AdminServer) : Prop :=
  ∃ input org role t, (issueSessionFor app env user).run s =
      .ok (Tokens.mintSession app.keyring input, org, role) t ∧
    input.userId = user.id ∧ input.org = org.id ∧ org ∈ s.repo.organizations.lookup org.id ∧
    org.personal = true ∧ org.ownerUserId = some user.id

def EveryoneRoots (app : AppState) (g : InMemoryRepo) : Prop :=
  ∀ env s, s.repo = g → ∀ id, ∀ user ∈ g.users.lookup id, RootsOwn app env user s

theorem everyoneRoots_of_homes (app : AppState) (hg : Homes g) : EveryoneRoots app g := by
  rintro env s rfl id user huser
  obtain rfl := hg.userIds id user huser
  obtain ⟨home, hhome⟩ := hg.homes user.id (AList.lookup_isSome.mp (by rw [huser]; rfl))
  rcases issueSessionFor_first app env user hg.orgIds with ⟨hnone, -⟩ | ⟨org, role, hfirst, horg,
    hpersonal, hrun⟩
  · exact absurd hhome.isFirst (hnone home)
  · obtain rfl := hhome.isFirst.eq hfirst
    obtain ⟨org', horg', -, howner⟩ := hhome.owns
    obtain rfl : org = org' := Option.some.inj (horg.symm.trans horg')
    exact ⟨_, org, role, _, hrun, rfl, rfl, horg, hpersonal, howner⟩

theorem ownFirst_of_everyoneRoots (huserIds : ∀ id, ∀ user ∈ g.users.lookup id, user.id = id)
    (hids : ∀ id, ∀ org ∈ g.organizations.lookup id, org.personal = true → org.id = id)
    (env : Env) (h : EveryoneRoots app g) : OwnFirst g := by
  intro userId hmem
  obtain ⟨user, huser⟩ := Option.isSome_iff_exists.mp (AList.lookup_isSome.mpr hmem)
  obtain rfl := huserIds userId user huser
  obtain ⟨input, org, role, t, hrun, -, -, horg, hpersonal, howner⟩ :=
    h env ⟨g, [], []⟩ rfl _ user huser
  rcases issueSessionFor_first (s := ⟨g, [], []⟩) app env user hids with ⟨-, e, hfails⟩ |
    ⟨org', role', hfirst, -, -, hrun'⟩
  · rw [hfails] at hrun
    cases hrun
  · rw [hrun'] at hrun
    obtain ⟨hlisted, -⟩ := EStateM.Result.ok.inj hrun
    obtain rfl : org' = org := (Prod.mk.inj (Prod.mk.inj hlisted).2).1
    exact ⟨org'.id, hfirst, org', horg, hpersonal, howner⟩

variable [Lowercase]

/-- In a run every user can get a session on his own organization at any time, exactly
if all its calls are harmless. -/
theorem own_session_iff (app : AppState) {calls : List (FreshIds × RepoCall)}
    (hrun : Machine.run freshStep calls .new = some g) :
    Machine.Throughout freshStep (EveryoneRoots app) calls .new ↔
      Machine.Meets freshStep (fun g l => Harmless g l.2) calls .new := by
  refine Machine.throughout_iff_meets (fun _ => everyoneRoots_of_homes app) ?_ ?_ hrun homes_new
  · intro l g g' hstep hg hharmless
    obtain ⟨hunlinked, hfresh, rfl⟩ := freshStep_eq_some.mp hstep
    exact hg.serve hfresh hunlinked hharmless
  · intro l g g' hstep hg hroots
    obtain ⟨-, -, rfl⟩ := freshStep_eq_some.mp hstep
    refine @harmless_of_ownFirst _ g _ l.1 l.2 hg fun husers horgs => ?_
    exact ownFirst_of_everyoneRoots (husers ▸ hg.userIds) (horgs ▸ hg.orgIds) ⟨0, 0, l.1, ""⟩ hroots

omit [TokenClaimsCodec] [HashOrder] [Lowercase]

def sampleIds (n : String) : FreshIds := ⟨⟨"u_" ++ n⟩, ⟨"i_" ++ n⟩, ⟨"o_" ++ n⟩, ⟨"db_" ++ n⟩⟩

/-- Ada and Bob sign up, and Ada becomes a member of Bob's organization. -/
def sampleInvited : List (FreshIds × RepoCall) :=
  [(sampleIds "1", .createPasswordUser ⟨"ada@example.com", "hash"⟩ 1),
    (sampleIds "2", .createPasswordUser ⟨"bob@example.com", "hash"⟩ 2),
    (sampleIds "3", .addOrgMembership ⟨"u_1"⟩ ⟨"o_2"⟩ .member 3),
    (sampleIds "4", .removeOrgMembership ⟨"u_1"⟩ ⟨"o_1"⟩)]

theorem own_session_invited :
    letI := TokenClaimsCodec.protobuf
    letI := HashOrder.newestFirst
    letI := Lowercase.ascii
    Machine.Throughout freshStep (EveryoneRoots { keyring := ⟨Tokens.sampleKey 0⟩ })
      sampleInvited .new := by
  have hmeets : letI := HashOrder.newestFirst
      letI := Lowercase.ascii
      Machine.Meets freshStep (fun g l => Harmless g l.2) sampleInvited .new := by
    decide +kernel
  let _ := TokenClaimsCodec.protobuf
  let _ := HashOrder.newestFirst
  let _ := Lowercase.ascii
  have hrun : (Machine.run freshStep sampleInvited .new).isSome = true := by decide +kernel
  obtain ⟨g, hg⟩ := Option.isSome_iff_exists.mp hrun
  exact (own_session_iff _ hg).mpr hmeets

/-- Bob becomes a member of Ada's organization. -/
def sampleCaptured : List (FreshIds × RepoCall) :=
  [(sampleIds "1", .createPasswordUser ⟨"ada@example.com", "hash"⟩ 1),
    (sampleIds "2", .createPasswordUser ⟨"bob@example.com", "hash"⟩ 2),
    (sampleIds "3", .addOrgMembership ⟨"u_2"⟩ ⟨"o_1"⟩ .member 3)]

def sampleBob : User := ⟨⟨"u_2"⟩, "bob@example.com", false, 2⟩

/-- Who owns the organization that a session is on. -/
def sessionOwner :
    EStateM.Result ConnectError AdminServer (Macaroon × Organization × Role) → Option UserId
  | .ok (_, org, _) _ => org.ownerUserId
  | .error _ _ => none

/-- Bob's session is then on Ada's organization. -/
theorem own_session_captured :
    letI := TokenClaimsCodec.protobuf
    letI := HashOrder.newestFirst
    letI := Lowercase.ascii
    ¬ ∀ (calls : List (FreshIds × RepoCall)) (g : InMemoryRepo),
      Machine.run freshStep calls .new = some g →
        EveryoneRoots { keyring := ⟨Tokens.sampleKey 0⟩ } g := by
  let _ := TokenClaimsCodec.protobuf
  let _ := HashOrder.newestFirst
  let _ := Lowercase.ascii
  intro hclaim
  have hall : (Machine.run freshStep sampleCaptured .new).map (fun g =>
      (g.users.lookup ⟨"u_2"⟩, sessionOwner ((issueSessionFor { keyring := ⟨Tokens.sampleKey 0⟩ }
        ⟨0, 0, sampleIds "4", ""⟩ sampleBob).run ⟨g, [], []⟩))) =
      some (some sampleBob, some ⟨"u_1"⟩) := by decide +kernel
  obtain ⟨g, hg, heq⟩ := Option.map_eq_some_iff.mp hall
  obtain ⟨hbob, hada⟩ := Prod.mk.inj heq
  obtain ⟨input, org, role, t, hrun, -, -, -, -, howner⟩ :=
    hclaim sampleCaptured g hg ⟨0, 0, sampleIds "4", ""⟩ ⟨g, [], []⟩ rfl _ sampleBob hbob
  rw [hrun] at hada
  have hboth : sampleBob.id = ⟨"u_1"⟩ := Option.some.inj (howner.symm.trans hada)
  exact absurd hboth (by decide)

end AdminServer

end EdgeReplica
