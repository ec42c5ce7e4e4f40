-- SUMMARY: What a call does to the tables of D1: one constructor for each call that writes.
import EdgeReplica.Repo.D1

/-!
# What the calls of D1 write

`Serves` lists the writes a call can make, with the rules that D1 has checked. That a
call leaves a table alone, or only adds to it, is read off this list.
-/

namespace EdgeReplica

open Effect (final run_map)
open Sql (ScanOrder Table)

namespace D1Repo

/-- What a call can leave behind. -/
inductive Serves (ids : FreshIds) (d : D1Repo) : RepoCall → D1Repo → Prop
  | unchanged (call : RepoCall) : Serves ids d call d
  | linked {userId : UserId} {provider providerUserId : String} {secret : Option String}
      {nowMs : Int64} (row : IdentityRow) (hnew : identitiesTable.violation row d = none) :
      Serves ids d (.linkIdentity userId provider providerUserId secret nowMs)
        (identitiesTable.add row d)
  | secretUpdated (identityId : IdentityId) (newSecret : String) :
      Serves ids d (.updateIdentitySecret identityId newSecret)
        { d with identities := d.identities.map fun r =>
            if decide (r.id = identityId.asStr) then { r with secret := some newSecret } else r }
  | passwordUser {input : NewPasswordUser} {nowMs : Int64} (rec : SignupRecord)
      (hnew : signupViolation ids rec d = none) :
      Serves ids d (.createPasswordUser input nowMs) (signedUp ids rec d)
  | oauthUser {input : NewOAuthUser} {nowMs : Int64} (rec : SignupRecord)
      (hnew : signupViolation ids rec d = none) :
      Serves ids d (.createOAuthUser input nowMs) (signedUp ids rec d)
  | organization {displayName : String} {ownerUserId : UserId} {nowMs : Int64} (org : OrgRow)
      (m : OrgMembershipRow) :
      Serves ids d (.createOrganization displayName ownerUserId nowMs)
        (orgMembershipsTable.add m (organizationsTable.add org d))
  | database {orgId : OrgId} {name : String} {createdBy : UserId} {nowMs : Int64}
      (row : DatabaseRow) (hnew : databasesTable.violation row d = none) :
      Serves ids d (.createDatabase orgId name createdBy nowMs) (databasesTable.add row d)
  | databaseDeleted (id : DatabaseId) : Serves ids d (.deleteDatabase id) (d.withoutDatabase id)
  | oauthState {state : Domain.OAuthState} (row : OAuthStateRow)
      (hnew : oauthStatesTable.violation row d = none) :
      Serves ids d (.storeOAuthState state) (oauthStatesTable.add row d)
  | oauthStateConsumed (state : String) (nowMs : Int64) :
      Serves ids d (.consumeOAuthState state nowMs) (d.withoutOAuthState state)

section

variable [ScanOrder] {α β : Type} (d : D1Repo)

omit [ScanOrder] in
theorem final_map (f : α → β) (m : D1M α) : final ((f <$> m).run d) = final (m.run d) := by
  rw [run_map]
  cases m.run d <;> rfl

omit [ScanOrder] in
theorem final_bind_pure (m : D1M α) (b : β) :
    final ((m >>= fun _ => pure b).run d) = final (m.run d) := by
  rw [EStateM.run_bind]
  cases m.run d <;> rfl

/-- The query finds nothing, or cannot read the row, or returns a row of the table. -/
theorem first_cases {R : Type} (t : Table D1Repo R) (p : R → Bool)
    (into : R → Except StoreError α) :
    (first t p into).run d = .ok none d ∨ (∃ e, (first t p into).run d = .error e d) ∨
      ∃ row ∈ t.rows d, p row = true ∧ ∃ a, into row = .ok a ∧
        (first t p into).run d = .ok (some a) d := by
  rw [run_first]
  cases hfind : (ScanOrder.scan (t.rows d)).find? p with
  | none => exact .inl rfl
  | some row =>
    right
    have hrow := (ScanOrder.scan_perm (t.rows d)).mem_iff.mp (List.mem_of_find?_eq_some hfind)
    cases hinto : into row with
    | error e => exact .inl ⟨e, by simp only [hinto]⟩
    | ok a => exact .inr ⟨row, hrow, List.find?_some hfind, a, hinto, by simp only [hinto]⟩

theorem final_first {R : Type} (t : Table D1Repo R) (p : R → Bool)
    (into : R → Except StoreError α) : final ((first t p into).run d) = d := by
  obtain h | ⟨e, h⟩ | ⟨row, -, -, a, -, h⟩ := first_cases d t p into <;> rw [h] <;> rfl

theorem final_all {R : Type} (t : Table D1Repo R) (p : R → Bool)
    (into : R → Except StoreError α) : final ((all t p into).run d) = d := by
  rw [run_all]
  cases ((ScanOrder.scan (t.rows d)).filter p).mapM into <;> rfl

omit [ScanOrder] in
theorem final_ofExcept (x : Except StoreError α) : final ((ofExcept x : D1M α).run d) = d := by
  cases x <;> rfl

theorem final_listOrganizationsForUser (userId : UserId) :
    final ((listOrganizationsForUser userId).run d) = d := by
  have hjoin : ∃ rows, (exec (orgMembershipsTable.join organizationsTable fun m o =>
      m.orgId = o.id)).run d = .ok rows d := ⟨_, rfl⟩
  obtain ⟨rows, hrows⟩ := hjoin
  rw [listOrganizationsForUser, EStateM.run_bind, hrows]
  dsimp only
  rw [Effect.run_ofExcept_bind]
  split
  · exact final_ofExcept d _
  · rfl

theorem final_listDatabasesForOrg (orgId : OrgId) :
    final ((listDatabasesForOrg orgId).run d) = d :=
  final_ofExcept d _

end

section

variable [ScanOrder] (ids : FreshIds) (d : D1Repo)

omit [ScanOrder] in
theorem signup_cases (rec : SignupRecord) :
    final ((signupWithPersonalOrg ids rec).run d) = d ∨
      signupViolation ids rec d = none ∧
        final ((signupWithPersonalOrg ids rec).run d) = signedUp ids rec d := by
  rw [run_signup]
  cases signupViolation ids rec d with
  | some rule => exact .inl rfl
  | none => exact .inr ⟨rfl, rfl⟩

omit [ScanOrder] in
/-- An insertion adds its row, or nothing. -/
theorem insert_cases {R : Type} (t : Table D1Repo R) (row : R) :
    final ((exec (t.insert row)).run d) = d ∨
      t.violation row d = none ∧ final ((exec (t.insert row)).run d) = t.add row d := by
  rw [run_exec_insert]
  cases t.violation row d with
  | some rule => exact .inl rfl
  | none => exact .inr ⟨rfl, rfl⟩

omit [ScanOrder] in
theorem batch_pair_cases {R R' : Type} (t : Table D1Repo R) (t' : Table D1Repo R') {row : R}
    {row' : R'} :
    final ((runBatch [t.insert row, t'.insert row']).run d) = d ∨
      final ((runBatch [t.insert row, t'.insert row']).run d) = t'.add row' (t.add row d) := by
  rw [run_runBatch, Sql.run_insert_cons]
  cases t.violation row d with
  | some rule => exact .inl rfl
  | none =>
    dsimp only
    rw [Sql.run_insert_cons]
    cases t'.violation row' (t.add row d) with
    | some rule => exact .inl rfl
    | none => exact .inr rfl

theorem serves (call : RepoCall) : Serves ids d call (final ((serve ids call).run d)) := by
  cases call with
  | getUser id => rw [serve, final_map, getUser, final_first]; exact .unchanged _
  | getUserByEmail email => rw [serve, final_map, getUserByEmail, final_first]; exact .unchanged _
  | listIdentities userId => rw [serve, final_map, listIdentities, final_all]; exact .unchanged _
  | findIdentity provider providerUserId =>
    rw [serve, final_map, findIdentity, final_first]
    exact .unchanged _
  | linkIdentity userId provider providerUserId secret nowMs =>
    rw [serve, final_map, linkIdentity, final_bind_pure]
    obtain hsame | ⟨hnew, hadd⟩ := insert_cases d identitiesTable _
    · rw [hsame]
      exact .unchanged _
    · rw [hadd]
      exact .linked _ hnew
  | updateIdentitySecret identityId newSecret =>
    exact .secretUpdated identityId newSecret
  | createPasswordUser input nowMs =>
    rw [serve, final_map, createPasswordUser]
    obtain hsame | ⟨hnew, hadd⟩ := signup_cases ids d _
    · rw [hsame]
      exact .unchanged _
    · rw [hadd]
      exact .passwordUser _ hnew
  | createOAuthUser input nowMs =>
    rw [serve, final_map, createOAuthUser]
    obtain hsame | ⟨hnew, hadd⟩ := signup_cases ids d _
    · rw [hsame]
      exact .unchanged _
    · rw [hadd]
      exact .oauthUser _ hnew
  | getOrganization id => rw [serve, final_map, getOrganization, final_first]; exact .unchanged _
  | createOrganization displayName ownerUserId nowMs =>
    rw [serve, final_map, createOrganization, final_bind_pure]
    obtain hsame | hadd := batch_pair_cases d organizationsTable orgMembershipsTable
    · rw [hsame]
      exact .unchanged _
    · rw [hadd]
      exact .organization _ _
  | listOrganizationsForUser userId =>
    rw [serve, final_map, final_listOrganizationsForUser]
    exact .unchanged _
  | deleteOrganization id => exact .unchanged _
  | getOrgMembership userId orgId =>
    rw [serve, final_map, getOrgMembership, final_first]
    exact .unchanged _
  | addOrgMembership userId orgId role nowMs => exact .unchanged _
  | removeOrgMembership userId orgId => exact .unchanged _
  | listOrgMemberships orgId => exact .unchanged _
  | createDatabase orgId name createdBy nowMs =>
    rw [serve, final_map, run_createDatabase]
    cases hnew : databasesTable.violation
      ⟨ids.databaseId.asStr, orgId.asStr, name, createdBy.asStr, ms nowMs⟩ d with
    | some rule => exact .unchanged _
    | none => exact .database _ hnew
  | getDatabase id => rw [serve, final_map, getDatabase, final_first]; exact .unchanged _
  | listDatabasesForOrg orgId =>
    rw [serve, final_map, final_listDatabasesForOrg]
    exact .unchanged _
  | deleteDatabase id =>
    rw [serve, final_map, run_deleteDatabase]
    split
    · exact .databaseDeleted id
    · exact .unchanged _
  | storeOAuthState state =>
    rw [serve, final_map, storeOAuthState]
    obtain hsame | ⟨hnew, hadd⟩ := insert_cases d oauthStatesTable _
    · rw [hsame]
      exact .unchanged _
    · rw [hadd]
      exact .oauthState _ hnew
  | consumeOAuthState state nowMs =>
    rw [serve, final_map, run_consumeOAuthState]
    split
    · exact .oauthStateConsumed state nowMs
    · split <;> exact .oauthStateConsumed state nowMs

end

/-! ## Linked identities -/

/-- The user is linked to the subject that the provider knows. -/
def Links (d : D1Repo) (provider providerUserId userId : String) : Prop :=
  ∃ r ∈ d.identities, r.provider = provider ∧ r.providerUserId = providerUserId ∧
    r.userId = userId

/-- The rows of identities are distinct, and every user has one. -/
structure Linked (d : D1Repo) : Prop where
  distinct : identitiesTable.Distinct d
  users : ∀ u ∈ d.users, ∃ provider providerUserId, d.Links provider providerUserId u.id

section

variable {d d' : D1Repo} {ids : FreshIds} {call : RepoCall}

theorem linked_new : Linked new where
  distinct _ _ := List.Pairwise.nil
  users _ hu := by cases hu

theorem signupViolation_eq_none {rec : SignupRecord} (h : signupViolation ids rec d = none) :
    usersTable.violation (rec.userRow ids) d = none ∧
      identitiesTable.violation (rec.identityRow ids) (signedUpUser ids rec d) = none := by
  obtain ⟨huser, h⟩ := Option.or_eq_none_iff.mp h
  exact ⟨huser, (Option.or_eq_none_iff.mp h).1⟩

theorem links_signedUp (rec : SignupRecord) : (signedUp ids rec d).Links rec.provider
    (rec.providerUserId.getD ids.userId.asStr) ids.userId.asStr :=
  ⟨rec.identityRow ids, List.mem_append_right _ List.mem_cons_self, rfl, rfl, rfl⟩

/-- A subject has one user. -/
theorem Linked.eq_of_links (h : Linked d) {provider providerUserId userId userId' : String}
    (hlinks : d.Links provider providerUserId userId)
    (hlinks' : d.Links provider providerUserId userId') : userId = userId' := by
  obtain ⟨r, hr, hprovider, hsubject, rfl⟩ := hlinks
  obtain ⟨r', hr', hprovider', hsubject', rfl⟩ := hlinks'
  have hrow : r = r' := by
    refine h.distinct.eq_of_key (List.mem_cons_of_mem _ List.mem_cons_self) hr hr' ?_
    exact Prod.ext (hprovider.trans hprovider'.symm) (hsubject.trans hsubject'.symm)
  rw [hrow]

/-- A link is never undone. -/
theorem Serves.links (h : Serves ids d call d') {provider providerUserId userId : String}
    (hlinks : d.Links provider providerUserId userId) :
    d'.Links provider providerUserId userId := by
  obtain ⟨r, hr, hlinked⟩ := hlinks
  cases h with
  | linked row hnew => exact ⟨r, List.mem_append_left _ hr, hlinked⟩
  | secretUpdated identityId newSecret =>
    refine ⟨_, List.mem_map_of_mem hr, ?_⟩
    split <;> exact hlinked
  | passwordUser rec hnew => exact ⟨r, List.mem_append_left _ hr, hlinked⟩
  | oauthUser rec hnew => exact ⟨r, List.mem_append_left _ hr, hlinked⟩
  | _ => exact ⟨r, hr, hlinked⟩

theorem Linked.signedUp (h : Linked d) {rec : SignupRecord}
    (hnew : signupViolation ids rec d = none) : Linked (signedUp ids rec d) where
  distinct := by
    have huser : identitiesTable.Distinct (signedUpUser ids rec d) := h.distinct.congr rfl
    exact (huser.insert (signupViolation_eq_none hnew).2).congr rfl
  users u hu := by
    rcases List.mem_append.mp hu with hu | hu
    · obtain ⟨provider, providerUserId, r, hr, hlinked⟩ := h.users u hu
      exact ⟨provider, providerUserId, r, List.mem_append_left _ hr, hlinked⟩
    · obtain rfl := List.mem_singleton.mp hu
      exact ⟨_, _, links_signedUp rec⟩

theorem Linked.serves (hd : Linked d) (h : Serves ids d call d') : Linked d' := by
  have husers : d'.users = d.users → ∀ u ∈ d'.users, ∃ provider providerUserId,
      d'.Links provider providerUserId u.id := by
    intro hsame u hu
    rw [hsame] at hu
    obtain ⟨provider, providerUserId, hlinks⟩ := hd.users u hu
    exact ⟨provider, providerUserId, h.links hlinks⟩
  cases h with
  | linked row hnew => exact ⟨hd.distinct.insert hnew, husers rfl⟩
  | secretUpdated identityId newSecret =>
    refine ⟨hd.distinct.update _ ?_, husers rfl⟩
    intro rule hrule row row'
    simp only [identitiesTable, List.mem_cons, List.not_mem_nil, or_false] at hrule
    rcases hrule with rfl | rfl <;> exact ⟨rfl, rfl⟩
  | passwordUser rec hnew => exact hd.signedUp hnew
  | oauthUser rec hnew => exact hd.signedUp hnew
  | _ => exact ⟨hd.distinct.congr rfl, husers rfl⟩

end

end D1Repo

end EdgeReplica
