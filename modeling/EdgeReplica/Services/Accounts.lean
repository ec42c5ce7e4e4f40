-- SUMMARY: Signup and login: who can log in, and as whom, over all runs of the admin service.
import EdgeReplica.Lib.Machine
import EdgeReplica.Services.AdminServed
import EdgeReplica.Services.OAuth

/-!
# Accounts

A login takes the first user of that email and the first password identity of that
user, in whatever order a scan yields them. The accounts are what signups have opened;
`Directory` says that the repository holds these and nothing else, so that there is
one match for both.
-/

namespace EdgeReplica

open Common (mapPasswordError)
open Domain (User Identity Organization)
open Effect (final fault run_map okOr_eq_ok Steps)
open InMemoryRepo (Fresh)
open Text (Lowercase)
open Tokens (MintSessionInput MintSyncInput)

/-- What a signup was given, and the surroundings it was served in. -/
structure Account where
  env : Env
  email : String
  password : String

namespace Account

def user (a : Account) : User := ⟨a.env.ids.userId, a.email, false, a.env.nowMs⟩

def org (a : Account) : Organization where
  id := a.env.ids.orgId
  displayName := Domain.personalOrgName a.email
  personal := true
  ownerUserId := some a.env.ids.userId
  createdAtMs := a.env.nowMs

/-- The identity is the account's, with a hash of its password. -/
def Identifies [Argon2] (a : Account) (identity : Identity) : Prop :=
  identity.userId = a.user.id ∧ identity.provider = IdentityProvider.PASSWORD ∧
    ∃ stored, Password.hashNewPassword a.env.salt a.password = .ok stored ∧
      identity.secret = some stored

/-- What `create_password_user` stores of the account. -/
def newUser (a : Account) (passwordHash : String) : NewUser where
  email := a.email
  emailVerified := false
  provider := IdentityProvider.PASSWORD
  providerUserId := fun userId => userId.asStr
  secret := some passwordHash

end Account

/-- The repository holds the accounts and no others. -/
structure Directory [Argon2] [Lowercase] (accounts : Set Account) (g : InMemoryRepo) : Prop where
  users : ∀ id, ∀ user ∈ g.users.lookup id, ∃ a ∈ accounts, id = a.user.id ∧ user = a.user
  registered : ∀ a ∈ accounts, a.user ∈ g.users.lookup a.user.id
  identities : ∀ id, ∀ identity ∈ g.identities.lookup id, ∃ a ∈ accounts, a.Identifies identity
  identified : ∀ a ∈ accounts, ∃ id, ∃ identity ∈ g.identities.lookup id, a.Identifies identity
  organizations : ∀ a ∈ accounts, a.org ∈ g.organizations.lookup a.org.id
  members : ∀ userId orgId, ∀ m ∈ g.orgMemberships.lookup (userId, orgId),
    ∃ a ∈ accounts, userId = a.user.id ∧ orgId = a.org.id ∧ m.role = .admin
  joined : ∀ a ∈ accounts, ∃ m ∈ g.orgMemberships.lookup (a.user.id, a.org.id), m.role = .admin
  emails : ∀ a ∈ accounts, ∀ b ∈ accounts,
    Lowercase.toLowercase a.email = Lowercase.toLowercase b.email → a = b
  ids : ∀ a ∈ accounts, ∀ b ∈ accounts, a.user.id = b.user.id → a = b

/-- The tables that the directory is about are the same. -/
structure SameAccounts (g g' : InMemoryRepo) : Prop where
  users : g'.users = g.users
  identities : g'.identities = g.identities
  organizations : g'.organizations = g.organizations
  orgMemberships : g'.orgMemberships = g.orgMemberships

section

variable [Argon2] [Lowercase] {accounts : Set Account} {g g' : InMemoryRepo}

theorem directory_new : Directory ∅ .new where
  users _ _ huser := nomatch huser
  registered a ha := absurd ha (Set.notMem_empty a)
  identities _ _ hidentity := nomatch hidentity
  identified a ha := absurd ha (Set.notMem_empty a)
  organizations a ha := absurd ha (Set.notMem_empty a)
  members _ _ _ hm := nomatch hm
  joined a ha := absurd ha (Set.notMem_empty a)
  emails a ha := absurd ha (Set.notMem_empty a)
  ids a ha := absurd ha (Set.notMem_empty a)

theorem SameAccounts.directory (h : SameAccounts g g') (hd : Directory accounts g) :
    Directory accounts g' where
  users := h.users ▸ hd.users
  registered := h.users ▸ hd.registered
  identities := h.identities ▸ hd.identities
  identified := h.identities ▸ hd.identified
  organizations := h.organizations ▸ hd.organizations
  members := h.orgMemberships ▸ hd.members
  joined := h.orgMemberships ▸ hd.joined
  emails := hd.emails
  ids := hd.ids

/-- The account whose email a search finds. -/
theorem Directory.findUserByEmail [HashOrder] (hd : Directory accounts g) (email : String) :
    (∀ a ∈ accounts, Lowercase.toLowercase a.email ≠ Lowercase.toLowercase email) ∧
        g.findUserByEmail email = none ∨
      ∃ a ∈ accounts, Lowercase.toLowercase a.email = Lowercase.toLowercase email ∧
        g.findUserByEmail email = some a.user := by
  cases hfind : g.findUserByEmail email with
  | none =>
    have hnone := InMemoryRepo.findUserByEmail_eq_none.mp hfind
    exact .inl ⟨fun a ha => hnone _ a.user (hd.registered a ha), rfl⟩
  | some user =>
    obtain ⟨id, huser⟩ := HashMap.mem_values.mp (List.mem_of_find?_eq_some hfind)
    have hemail := @List.find?_some _ (fun u : User =>
      Lowercase.toLowercase u.email = Lowercase.toLowercase email) user _ hfind
    obtain ⟨a, ha, -, rfl⟩ := hd.users id user huser
    exact .inr ⟨a, ha, of_decide_eq_true hemail, rfl⟩

theorem Directory.id_ne (hd : Directory accounts g) {ids : FreshIds} (hfresh : Fresh ids g)
    {a : Account} (ha : a ∈ accounts) : a.user.id ≠ ids.userId := by
  intro heq
  have hold := AList.lookup_isSome.mp (Option.isSome_of_mem (hd.registered a ha))
  rw [heq] at hold
  exact hfresh.1 hold

/-- An account that nobody of the directory has the email of is opened. -/
theorem Directory.insertUser {a : Account} {stored : String} (hd : Directory accounts g)
    (hfresh : Fresh a.env.ids g)
    (hnew : ∀ b ∈ accounts, Lowercase.toLowercase b.email ≠ Lowercase.toLowercase a.email)
    (hstored : Password.hashNewPassword a.env.salt a.password = .ok stored) :
    Directory (insert a accounts) (g.insertUser a.env.ids (a.newUser stored) a.env.nowMs) where
  users := by
    intro id user huser
    rcases HashMap.lookup_insert_eq_some.mp huser with ⟨rfl, rfl⟩ | ⟨-, hold⟩
    · exact ⟨a, Set.mem_insert _ _, rfl, rfl⟩
    · obtain ⟨b, hb, hrow⟩ := hd.users id user hold
      exact ⟨b, Set.mem_insert_of_mem _ hb, hrow⟩
  registered := by
    intro b hb
    rcases hb with rfl | hb
    · exact AList.lookup_insert _
    · exact HashMap.lookup_insert_of_notMem hfresh.1 (hd.registered b hb)
  identities := by
    intro id identity hidentity
    rcases HashMap.lookup_insert_eq_some.mp hidentity with ⟨-, rfl⟩ | ⟨-, hold⟩
    · exact ⟨a, Set.mem_insert _ _, rfl, rfl, stored, hstored, rfl⟩
    · obtain ⟨b, hb, hrow⟩ := hd.identities id identity hold
      exact ⟨b, Set.mem_insert_of_mem _ hb, hrow⟩
  identified := by
    intro b hb
    rcases hb with rfl | hb
    · exact ⟨b.env.ids.identityId, _, AList.lookup_insert _, rfl, rfl, stored, hstored, rfl⟩
    · obtain ⟨id, identity, hidentity, hrow⟩ := hd.identified b hb
      exact ⟨id, identity, HashMap.lookup_insert_of_notMem hfresh.2.1 hidentity, hrow⟩
  organizations := by
    intro b hb
    rcases hb with rfl | hb
    · exact AList.lookup_insert _
    · exact HashMap.lookup_insert_of_notMem hfresh.2.2.1 (hd.organizations b hb)
  members := by
    intro userId orgId m hm
    rcases HashMap.lookup_insert_eq_some.mp hm with ⟨hkey, rfl⟩ | ⟨-, hold⟩
    · obtain ⟨huser, horg⟩ := Prod.mk.inj hkey
      exact ⟨a, Set.mem_insert _ _, huser, horg, rfl⟩
    · obtain ⟨b, hb, hrow⟩ := hd.members userId orgId m hold
      exact ⟨b, Set.mem_insert_of_mem _ hb, hrow⟩
  joined := by
    intro b hb
    rcases hb with rfl | hb
    · exact ⟨_, AList.lookup_insert _, rfl⟩
    · obtain ⟨m, hm, hrole⟩ := hd.joined b hb
      refine ⟨m, (AList.lookup_insert_ne fun heq => ?_).trans hm, hrole⟩
      exact hd.id_ne hfresh hb (Prod.mk.inj heq).1
  emails := by
    intro b hb c hc heq
    rcases hb with rfl | hb <;> rcases hc with rfl | hc
    · rfl
    · exact absurd heq.symm (hnew c hc)
    · exact absurd heq (hnew b hb)
    · exact hd.emails b hb c hc heq
  ids := by
    intro b hb c hc heq
    rcases hb with rfl | hb <;> rcases hc with rfl | hc
    · rfl
    · exact absurd heq.symm (hd.id_ne hfresh hc)
    · exact absurd heq (hd.id_ne hfresh hb)
    · exact hd.ids b hb c hc heq

end

namespace AdminServer

/-! ## Logging in -/

section

variable [TokenClaimsCodec] [HashOrder] [Argon2] [Lowercase] {app : AppState} {env : Env}
  {accounts : Set Account} {s : AdminServer} {a : Account}

/-- What a session of the account is minted for. -/
def accountSession (app : AppState) (env : Env) (a : Account) : MintSessionInput :=
  rootedOn app env a.user (a.org, .admin)

def authResponse (app : AppState) (env : Env) (a : Account) : Pb.AuthResponse where
  sessionToken := Tokens.mintSession app.keyring (accountSession app env a)
  whoami := whoamiPb a.user a.org .admin

/-- The session of an account is on its own organization. -/
theorem run_issueSessionFor_account (hd : Directory accounts s.repo) (ha : a ∈ accounts) :
    (issueSessionFor app env a.user).run s =
      .ok (Tokens.mintSession app.keyring (accountSession app env a), a.org, .admin)
        (s.addSession (accountSession app env a)) := by
  obtain ⟨orgs, hlist, hcases⟩ := run_issueSessionFor app env a.user s
  have hlisted (listed : OrgWithRole) (hmem : listed ∈ orgs) : listed = (a.org, .admin) := by
    obtain ⟨org, role⟩ := listed
    obtain ⟨orgId, m, hm, horg, rfl⟩ := (InMemoryRepo.mem_listOrganizationsForUser hlist).mp hmem
    obtain ⟨b, hb, huser, rfl, hrole⟩ := hd.members _ _ m hm
    obtain rfl := hd.ids a ha b hb huser
    rw [hrole, Option.some.inj (horg.symm.trans (hd.organizations a ha))]
  rcases hcases with ⟨hnone, -⟩ | ⟨listed, hfind, hrun⟩
  · obtain ⟨m, hm, hrole⟩ := hd.joined a ha
    have hmem : (a.org, m.role) ∈ orgs := (InMemoryRepo.mem_listOrganizationsForUser hlist).mpr
      ⟨a.org.id, m, hm, hd.organizations a ha, rfl⟩
    exact absurd rfl (List.find?_eq_none.mp hnone _ hmem)
  · obtain rfl := hlisted listed (List.mem_of_find?_eq_some hfind)
    exact hrun

theorem run_issueSessionFor_bind (hd : Directory accounts s.repo) (ha : a ∈ accounts) {α : Type}
    (next : Macaroon × Organization × Role → AdminM α) :
    (issueSessionFor app env a.user >>= next).run s =
      (next (Tokens.mintSession app.keyring (accountSession app env a), a.org, .admin)).run
        (s.addSession (accountSession app env a)) := by
  rw [EStateM.run_bind, run_issueSessionFor_account hd ha]

omit [TokenClaimsCodec] in
/-- The password identity of the account's user is the account's. -/
theorem find_passwordIdentity (hd : Directory accounts s.repo) (ha : a ∈ accounts) :
    ∃ identities, (InMemoryRepo.listIdentities a.user.id).run s.repo = .ok identities s.repo ∧
      ∃ identity, (identities.find? fun i => i.provider = IdentityProvider.PASSWORD) =
        some identity ∧ a.Identifies identity := by
  refine ⟨_, rfl, ?_⟩
  cases hfind : ((HashMap.values s.repo.identities).filter fun i =>
      i.userId = a.user.id).find? fun i => i.provider = IdentityProvider.PASSWORD with
  | none =>
    obtain ⟨id, identity, hidentity, huser, hprovider, -⟩ := hd.identified a ha
    have hmem : identity ∈ (HashMap.values s.repo.identities).filter fun i =>
        i.userId = a.user.id :=
      List.mem_filter.mpr ⟨HashMap.mem_values.mpr ⟨id, hidentity⟩, decide_eq_true huser⟩
    exact absurd (decide_eq_true hprovider) (List.find?_eq_none.mp hfind identity hmem)
  | some identity =>
    obtain ⟨hvalue, huser⟩ := List.mem_filter.mp (List.mem_of_find?_eq_some hfind)
    obtain ⟨id, hidentity⟩ := HashMap.mem_values.mp hvalue
    obtain ⟨b, hb, hrow⟩ := hd.identities id identity hidentity
    obtain rfl := hd.ids a ha b hb ((of_decide_eq_true huser).symm.trans hrow.1)
    exact ⟨identity, rfl, hrow⟩

/-- A login is for the account of that email, and needs its password. -/
theorem run_login (hargon : Argon2.Faithful) (hd : Directory accounts s.repo)
    (email password : String) :
    (∃ a ∈ accounts, Lowercase.toLowercase a.email = Lowercase.toLowercase email ∧
        a.password = password ∧ (login app env email password).run s =
          .ok (authResponse app env a) (s.addSession (accountSession app env a))) ∨
      (∀ a ∈ accounts, Lowercase.toLowercase a.email = Lowercase.toLowercase email →
        a.password ≠ password) ∧ ∃ e, (login app env email password).run s = .error e s := by
  have honly (a b : Account) (ha : a ∈ accounts) (hb : b ∈ accounts)
      (hemail : Lowercase.toLowercase a.email = Lowercase.toLowercase email)
      (heq : Lowercase.toLowercase b.email = Lowercase.toLowercase email) : b = a :=
    hd.emails b hb a ha (heq.trans hemail.symm)
  rcases hd.findUserByEmail email with ⟨hother, hnone⟩ | ⟨a, ha, hemail, hfound⟩
  · right
    refine ⟨fun a ha heq => absurd heq (hother a ha), ⟨.unauthenticated, "invalid credentials"⟩, ?_⟩
    refine (run_read rfl _).trans ?_
    exact run_refused (by rw [hnone]; rfl) _
  · obtain ⟨identities, hlist, identity, hidentity, -, -, stored, hstored, hsecret⟩ :=
      find_passwordIdentity hd ha
    have hverify : Password.verifyPassword stored password = .ok () ↔ a.password = password :=
      Password.verifyPassword_eq_ok hargon hstored
    have hchecks : (login app env email password).run s =
        (ofExcept ((Password.verifyPassword stored password).mapError mapPasswordError) >>=
          fun _ => issueSessionFor app env a.user >>= fun r =>
            pure { sessionToken := r.1, whoami := whoamiPb a.user r.2.1 r.2.2 } :
              AdminM Pb.AuthResponse).run s := by
      refine (run_read rfl _).trans ?_
      refine (run_checked (okOr_eq_ok.mpr hfound) _).trans ?_
      refine (run_read hlist _).trans ?_
      refine (run_checked (okOr_eq_ok.mpr hidentity) _).trans ?_
      exact run_checked (okOr_eq_ok.mpr hsecret) _
    rw [hchecks]
    cases hverified : Password.verifyPassword stored password with
    | ok u =>
      left
      refine ⟨a, ha, hemail, hverify.mp hverified, ?_⟩
      exact (run_checked rfl _).trans (run_issueSessionFor_bind hd ha _)
    | error e =>
      right
      refine ⟨fun b hb heq hpassword => ?_, mapPasswordError e, run_refused rfl _⟩
      obtain rfl := honly a b ha hb hemail heq
      rw [hverify.mpr hpassword] at hverified
      cases hverified

/-- A signup opens its account, or fails and changes nothing. -/
theorem run_signup (hd : Directory accounts s.repo) (hfresh : Fresh a.env.ids s.repo) :
    (∃ e, (signup app a.env a.email a.password).run s = .error e s) ∨
      ∃ repo, Directory (insert a accounts) repo ∧
        (signup app a.env a.email a.password).run s =
          .ok (authResponse app a.env a)
            ((s.withRepo repo).addSession (accountSession app a.env a)) := by
  unfold signup
  cases hemail : Common.validateEmail a.email with
  | error e => exact .inl ⟨e, run_refused rfl _⟩
  | ok u =>
    cases hstored : Password.hashNewPassword a.env.salt a.password with
    | error e => exact .inl ⟨mapPasswordError e, (run_checked rfl _).trans (run_refused rfl _)⟩
    | ok stored =>
      rcases InMemoryRepo.createUser_cases a.env.ids (a.newUser stored) a.env.nowMs s.repo with
        ⟨e, hrun⟩ | ⟨hnone, hrun⟩
      · left
        refine ⟨Common.mapStoreError e, ?_⟩
        refine (run_checked rfl _).trans ((run_checked rfl _).trans ?_)
        exact run_failed hrun _
      · right
        have hnew : ∀ b ∈ accounts,
            Lowercase.toLowercase b.email ≠ Lowercase.toLowercase a.email := by
          rcases hd.findUserByEmail a.email with ⟨hother, -⟩ | ⟨b, -, -, hfound⟩
          · exact hother
          · cases hnone.symm.trans hfound
        have hopened := hd.insertUser hfresh hnew hstored
        refine ⟨_, hopened, ?_⟩
        refine (run_checked rfl _).trans ((run_checked rfl _).trans ?_)
        refine (run_written hrun _).trans ?_
        exact run_issueSessionFor_bind hopened (Set.mem_insert _ _) _

end

/-! ## The other requests -/

/-- The computation leaves the accounts as they are, step by step. -/
def Quiet {α : Type} (s : AdminServer) (m : AdminM α) : Prop :=
  Steps (fun s s' : AdminServer => SameAccounts s.repo s'.repo) s m

section

variable {α β : Type} {s : AdminServer}

theorem quiet_onRepo {m : RepoM α} (h : SameAccounts s.repo (final (m.run s.repo))) :
    Quiet s (onRepo m) := by
  refine .single ?_
  rw [run_onRepo]
  cases hrun : m.run s.repo <;> (rw [hrun] at h; exact h)

theorem Quiet.checked {x : Except ConnectError α} {next : α → AdminM β}
    (h : ∀ a, Quiet s (next a)) : Quiet s (ofExcept x >>= next) := by
  cases x with
  | ok a => exact h a
  | error e => exact .throw e

theorem Quiet.read {m : RepoM α} {a : α} (hread : m.run s.repo = .ok a s.repo)
    {next : α → AdminM β} (h : Quiet s (next a)) : Quiet s (onRepo m >>= next) := by
  unfold Quiet Steps
  rw [run_read hread]
  exact h

variable [TokenClaimsCodec] [HashOrder] {app : AppState} {env : Env} {ctx : RpcContext}

omit [TokenClaimsCodec] [HashOrder] in
theorem quiet_whoami : Quiet s (whoami ctx) := by
  refine Quiet.checked fun session => ?_
  refine Quiet.read rfl (Quiet.read rfl ?_)
  refine Quiet.checked fun user => ?_
  refine Quiet.checked fun org => ?_
  exact .pure _

omit [TokenClaimsCodec] in
theorem quiet_createDatabase (name : String) : Quiet s (createDatabase env ctx name) := by
  refine Quiet.checked fun session => ?_
  dsimp only
  split
  · exact .throw _
  · refine Quiet.checked fun _ => ?_
    refine Steps.bind (quiet_onRepo ?_) fun _ _ _ => .pure _
    rcases InMemoryRepo.createDatabase_cases env.ids session.org (Text.trim name) session.user
      env.nowMs s.repo with ⟨e, hrun⟩ | ⟨-, hrun⟩
    · rw [hrun]
      exact ⟨rfl, rfl, rfl, rfl⟩
    · rw [hrun]
      exact ⟨rfl, rfl, rfl, rfl⟩

omit [TokenClaimsCodec] in
theorem quiet_listDatabases : Quiet s (listDatabases ctx) := by
  refine Quiet.checked fun session => ?_
  exact Quiet.read rfl (.pure _)

omit [TokenClaimsCodec] [HashOrder] in
theorem quiet_deleteDatabase (databaseId : String) : Quiet s (deleteDatabase ctx databaseId) := by
  refine Quiet.checked fun session => ?_
  dsimp only
  split
  · exact .throw _
  · refine Quiet.read rfl ?_
    refine Quiet.checked fun db => ?_
    split
    · exact .throw _
    · refine quiet_onRepo ?_
      rw [InMemoryRepo.run_deleteDatabase]
      split <;> exact ⟨rfl, rfl, rfl, rfl⟩

omit [HashOrder] in
theorem quiet_issueSyncToken (databaseId : String) (direction : Int32) (ttlSeconds : Int64) :
    Quiet s (issueSyncToken app env ctx databaseId direction ttlSeconds) := by
  have hmint (direction : Direction) (input : Direction → MintSyncInput)
      (response : Macaroon → Pb.IssueSyncTokenResponse) :
      Quiet s (pure direction >>= fun direction =>
        mintSync app.keyring (input direction) >>= fun token => pure (response token)) :=
    Steps.bind (.pure _) fun _ _ _ =>
      Steps.bind (.single ⟨rfl, rfl, rfl, rfl⟩) fun _ _ _ => .pure _
  refine Quiet.checked fun session => ?_
  refine Quiet.read rfl ?_
  refine Quiet.checked fun db => ?_
  dsimp only
  split
  · exact .throw _
  · split
    · exact hmint _ _ _
    · split
      · exact hmint _ _ _
      · exact .throw _

end

/-! ## Runs -/

def oauthStartImpl (_provider : String) : AdminM Pb.StartOAuthResponse :=
  throw ⟨.unimplemented, "OAuth requires the wasm32 worker runtime"⟩

def oauthCompleteImpl (_state _code : String) : AdminM Pb.AuthResponse :=
  throw ⟨.unimplemented, "OAuth requires the wasm32 worker runtime"⟩

/-- A call of the service where it runs on the in-memory repository, outside of the worker
runtime. -/
inductive Rpc where
  | request (call : Call)
  | startOAuth (provider : String)
  | completeOAuth (state code : String)

section

variable [TokenClaimsCodec] [HashOrder] [Argon2] [Lowercase] {app : AppState} {s : AdminServer}

/-- One call, with new identifiers; the state it leaves, whether it returned or failed. -/
def rpc (app : AppState) (l : Rpc) (s : AdminServer) : Option AdminServer :=
  match l with
  | .request call =>
    if Fresh call.env.ids s.repo then some (final (result app call s)) else none
  | .startOAuth provider => some (final ((oauthStartImpl provider).run s))
  | .completeOAuth state code => some (final ((oauthCompleteImpl state code).run s))

/-- The request that opens the account. -/
def signupCall (ctx : RpcContext) (a : Account) : Call :=
  ⟨ctx, a.env, .signup a.email a.password⟩

omit [TokenClaimsCodec] [HashOrder] [Argon2] [Lowercase] in
theorem signupCall_inj {ctx ctx' : RpcContext} {a b : Account}
    (h : signupCall ctx a = signupCall ctx' b) : a = b := by
  obtain ⟨env, email, password⟩ := a
  obtain ⟨-, rfl, hrequest⟩ := Call.mk.inj h
  obtain ⟨rfl, rfl⟩ := Request.signup.inj hrequest
  rfl

/-- A signup of the run opened the account, with this response. -/
def SignedUpWith (app : AppState) (calls : List Rpc) (a : Account) (response : Pb.AuthResponse) :
    Prop :=
  ∃ before ctx after s t, calls = before ++ .request (signupCall ctx a) :: after ∧
    Machine.run (rpc app) before empty = some s ∧
    result app (signupCall ctx a) s = .ok (.auth response) t

/-- The account was opened by a signup that succeeded in the run. -/
def SignedUp (app : AppState) (calls : List Rpc) (a : Account) : Prop :=
  ∃ response, SignedUpWith app calls a response

/-- The last call opened the account, or an earlier one did. -/
theorem signedUp_append {before : List Rpc} {l : Rpc} {a : Account}
    (hrun : Machine.run (rpc app) before empty = some s) :
    SignedUp app (before ++ [l]) a ↔ SignedUp app before a ∨
      ∃ ctx response t, l = .request (signupCall ctx a) ∧
        result app (signupCall ctx a) s = .ok (.auth response) t := by
  constructor
  · rintro ⟨response, before', ctx, after, s', t, heq, hrun', hresult⟩
    rcases List.eq_nil_or_concat after with rfl | ⟨after', l', rfl⟩
    · obtain ⟨rfl, hl⟩ := List.append_inj' heq rfl
      obtain rfl : s = s' := Option.some.inj (hrun.symm.trans hrun')
      exact .inr ⟨ctx, response, t, List.head_eq_of_cons_eq hl, hresult⟩
    · rw [List.concat_eq_append, ← List.cons_append, ← List.append_assoc] at heq
      obtain ⟨rfl, -⟩ := List.append_inj' heq rfl
      exact .inl ⟨response, before', ctx, after', s', t, rfl, hrun', hresult⟩
  · rintro (⟨response, before', ctx, after, s', t, rfl, hrun', hresult⟩ |
      ⟨ctx, response, t, rfl, hresult⟩)
    · refine ⟨response, before', ctx, after ++ [l], s', t, ?_, hrun', hresult⟩
      rw [List.append_assoc, List.cons_append]
    · exact ⟨response, before, ctx, [], s, t, rfl, hrun, hresult⟩

/-- A call that opens no account leaves the accounts of the run. -/
theorem signedUp_append_of_ne {before : List Rpc} {l : Rpc}
    (hrun : Machine.run (rpc app) before empty = some s)
    (hl : ∀ ctx a response t, l = .request (signupCall ctx a) →
      result app (signupCall ctx a) s ≠ .ok (.auth response) t) :
    {a | SignedUp app (before ++ [l]) a} = {a | SignedUp app before a} := by
  ext a
  refine (signedUp_append hrun).trans ?_
  constructor
  · rintro (hold | ⟨ctx, response, t, heq, hresult⟩)
    · exact hold
    · exact absurd hresult (hl ctx a response t heq)
  · exact .inl

/-- A signup adds its account, if it succeeds. -/
theorem directory_signup {before : List Rpc} {a : Account}
    (hrun : Machine.run (rpc app) before empty = some s)
    (hd : Directory {b | SignedUp app before b} s.repo) (hfresh : Fresh a.env.ids s.repo)
    (ctx : RpcContext) :
    Directory {b | SignedUp app (before ++ [.request (signupCall ctx a)]) b}
      (final (result app (signupCall ctx a) s)).repo := by
  have hresult : result app (signupCall ctx a) s =
      (Response.auth <$> signup app a.env a.email a.password).run s := rfl
  rw [run_map] at hresult
  rcases run_signup hd hfresh with ⟨e, hfails⟩ | ⟨repo, hopened, hruns⟩
  · rw [hfails] at hresult
    rw [hresult, signedUp_append_of_ne hrun]
    · exact hd
    · intro ctx' b response t heq hok
      rw [← Rpc.request.inj heq, hresult] at hok
      cases hok
  · rw [hruns] at hresult
    have hset : {b | SignedUp app (before ++ [.request (signupCall ctx a)]) b} =
        insert a {b | SignedUp app before b} := by
      ext b
      refine (signedUp_append hrun).trans ?_
      constructor
      · rintro (hold | ⟨ctx', response, t, heq, -⟩)
        · exact .inr hold
        · exact .inl (signupCall_inj (Rpc.request.inj heq)).symm
      · rintro (rfl | hold)
        · exact .inr ⟨ctx, _, _, rfl, hresult⟩
        · exact .inl hold
    rw [hset, hresult]
    exact hopened

theorem login_repo (hargon : Argon2.Faithful) {accounts : Set Account}
    (hd : Directory accounts s.repo) {ctx : RpcContext} {env : Env} {email password : String} :
    (final (result app ⟨ctx, env, .login email password⟩ s)).repo = s.repo := by
  show (final ((Response.auth <$> login app env email password).run s)).repo = _
  rw [Effect.final_map]
  rcases run_login hargon hd email password with ⟨a, -, -, -, hlogin⟩ | ⟨-, e, hlogin⟩ <;>
    rw [hlogin] <;> rfl

/-- A call keeps the directory. -/
theorem step_directory (hargon : Argon2.Faithful) {before : List Rpc} {l : Rpc} {t : AdminServer}
    (hrun : Machine.run (rpc app) before empty = some s) (hstep : rpc app l s = some t)
    (hd : Directory {a | SignedUp app before a} s.repo) :
    Directory {a | SignedUp app (before ++ [l]) a} t.repo := by
  cases l with
  | startOAuth provider =>
    obtain rfl : s = t := Option.some.inj hstep
    rwa [signedUp_append_of_ne hrun fun _ _ _ _ heq => by cases heq]
  | completeOAuth state code =>
    obtain rfl : s = t := Option.some.inj hstep
    rwa [signedUp_append_of_ne hrun fun _ _ _ _ heq => by cases heq]
  | request call =>
    obtain ⟨ctx, env, request⟩ := call
    obtain ⟨hfresh, rfl⟩ : Fresh env.ids s.repo ∧ final (result app ⟨ctx, env, request⟩ s) = t := by
      simpa [rpc] using hstep
    have hquiet {α : Type} {m : AdminM α} {f : α → Response} (hm : Quiet s m)
        (hresult : result app ⟨ctx, env, request⟩ s = (f <$> m).run s)
        (hother : ∀ email password, request ≠ .signup email password) :
        Directory {a | SignedUp app (before ++ [.request ⟨ctx, env, request⟩]) a}
          (final (result app ⟨ctx, env, request⟩ s)).repo := by
      rw [hresult, Effect.final_map, signedUp_append_of_ne hrun]
      · exact Steps.keeps hm (fun _ _ hsame => hsame.directory) hd
      · intro ctx' a response t heq
        exact absurd (Call.mk.inj (Rpc.request.inj heq)).2.2 (hother _ _)
    cases request with
    | whoami => exact hquiet quiet_whoami rfl fun _ _ heq => nomatch heq
    | login email password =>
      rw [login_repo hargon hd, signedUp_append_of_ne hrun fun _ _ _ _ heq => by cases heq]
      exact hd
    | createDatabase name =>
      exact hquiet (quiet_createDatabase name) rfl fun _ _ heq => nomatch heq
    | listDatabases => exact hquiet quiet_listDatabases rfl fun _ _ heq => nomatch heq
    | deleteDatabase databaseId =>
      exact hquiet (quiet_deleteDatabase databaseId) rfl fun _ _ heq => nomatch heq
    | issueSyncToken databaseId direction ttlSeconds =>
      exact hquiet (quiet_issueSyncToken databaseId direction ttlSeconds) rfl
        fun _ _ heq => nomatch heq
    | signup email password =>
      exact directory_signup (a := ⟨env, email, password⟩) hrun hd hfresh ctx

/-- At any time the repository holds the accounts that were opened in the run. -/
theorem directory_of_run (hargon : Argon2.Faithful) {calls : List Rpc}
    (hrun : Machine.run (rpc app) calls empty = some s) :
    Directory {a | SignedUp app calls a} s.repo := by
  have hempty : {a | SignedUp app [] a} = ∅ := by
    ext a
    refine iff_of_false ?_ (Set.notMem_empty a)
    rintro ⟨response, before, ctx, after, s', t, heq, -⟩
    exact absurd heq.symm (List.append_ne_nil_of_right_ne_nil before (List.cons_ne_nil _ _))
  have hboth : Machine.run (rpc app) calls empty = some s ∧
      Directory {a | SignedUp app calls a} s.repo := by
    refine Machine.run_traces
      (I := fun before s => Machine.run (rpc app) before empty = some s ∧
        Directory {a | SignedUp app before a} s.repo) hrun ⟨rfl, ?_⟩ ?_
    · rw [hempty]
      exact directory_new
    · rintro before l s t hstep ⟨hbefore, hd⟩
      refine ⟨?_, step_directory hargon hbefore hstep hd⟩
      rw [Machine.run_append, hbefore]
      exact (Machine.run_singleton _ _ _).trans hstep
  exact hboth.2

/-- The identifiers of a request of a run are new where it is served. -/
theorem fresh_of_run {before after : List Rpc} {call : Call} {t : AdminServer}
    (hrun : Machine.run (rpc app) (before ++ .request call :: after) empty = some s)
    (hbefore : Machine.run (rpc app) before empty = some t) : Fresh call.env.ids t.repo := by
  obtain ⟨t', ht', hrest⟩ := Machine.run_append_some hrun
  obtain rfl : t = t' := Option.some.inj (hbefore.symm.trans ht')
  obtain ⟨_, hstep, -⟩ := Option.bind_eq_some_iff.mp hrest
  by_contra hstale
  rw [rpc, if_neg hstale] at hstep
  cases hstep

/-- A signup answers with the account it opens. -/
theorem response_of_signedUp (hargon : Argon2.Faithful) {calls : List Rpc}
    (hrun : Machine.run (rpc app) calls empty = some s) {a : Account} {response : Pb.AuthResponse}
    (h : SignedUpWith app calls a response) : response = authResponse app a.env a := by
  obtain ⟨before, ctx, after, s', t, rfl, hbefore, hresult⟩ := h
  have hfresh : Fresh (signupCall ctx a).env.ids s'.repo := fresh_of_run hrun hbefore
  have hserved : (Response.auth <$> signup app a.env a.email a.password).run s' =
      .ok (.auth response) t := hresult
  rw [run_map] at hserved
  rcases run_signup (directory_of_run hargon hbefore) hfresh with ⟨e, hfails⟩ | ⟨repo, -, hruns⟩
  · rw [hfails] at hserved
    cases hserved
  · rw [hruns] at hserved
    exact (Response.auth.inj (EStateM.Result.ok.inj hserved).1).symm

/-- Signup and login agree. A login succeeds exactly if a signup did, under the same
email up to case and with the same password; the session is then the account's, on its
organization, and the login changes nothing. -/
theorem signup_login (app : AppState) (hargon : Argon2.Faithful) {calls : List Rpc}
    (hrun : Machine.run (rpc app) calls empty = some s) (ctx : RpcContext) (env : Env)
    (email password : String) :
    ((∃ response t, result app ⟨ctx, env, .login email password⟩ s = .ok response t) ↔
      ∃ a, SignedUp app calls a ∧
        Lowercase.toLowercase a.email = Lowercase.toLowercase email ∧ a.password = password) ∧
    (∀ a response, SignedUpWith app calls a response →
      Lowercase.toLowercase a.email = Lowercase.toLowercase email → a.password = password →
      result app ⟨ctx, env, .login email password⟩ s =
          .ok (.auth (authResponse app env a)) (s.addSession (accountSession app env a)) ∧
        (authResponse app env a).whoami = response.whoami ∧
        a.user ∈ s.repo.users.lookup a.user.id ∧
        a.org ∈ s.repo.organizations.lookup a.org.id) ∧
    (final (result app ⟨ctx, env, .login email password⟩ s)).repo = s.repo := by
  have hd := directory_of_run hargon hrun
  have hresult : result app ⟨ctx, env, .login email password⟩ s =
      (Response.auth <$> login app env email password).run s := rfl
  rw [run_map] at hresult
  rcases run_login hargon hd email password with ⟨a, ha, hemail, hpassword, hlogin⟩ |
    ⟨hnone, e, hlogin⟩
  · rw [hlogin] at hresult
    refine ⟨iff_of_true ⟨_, _, hresult⟩ ⟨a, ha, hemail, hpassword⟩, ?_, login_repo hargon hd⟩
    intro b response hb hemail' _
    obtain rfl : b = a := hd.emails b ⟨response, hb⟩ a ha (hemail'.trans hemail.symm)
    rw [response_of_signedUp hargon hrun hb]
    exact ⟨hresult, rfl, hd.registered b ha, hd.organizations b ha⟩
  · rw [hlogin] at hresult
    refine ⟨iff_of_false ?_ ?_, ?_, login_repo hargon hd⟩
    · rintro ⟨response, t, hok⟩
      rw [hresult] at hok
      cases hok
    · rintro ⟨a, ha, hemail, hpassword⟩
      exact hnone a ha hemail hpassword
    · intro a response ha hemail hpassword
      exact absurd hpassword (hnone a ⟨response, ha⟩ hemail)

end

/-- The surroundings of the `n`-th call. -/
def accountEnv (n : String) : Env where
  nowMs := 1000
  nowUnix := 1
  ids := ⟨⟨"u_" ++ n⟩, ⟨"i_" ++ n⟩, ⟨"o_" ++ n⟩, ⟨"db_" ++ n⟩⟩
  salt := "salt"

/-- Ada signs up, and nobody else can with her email. -/
def accountCalls : List Rpc :=
  [.request ⟨⟨none⟩, accountEnv "1", .signup "ada@example.com" "correct horse"⟩,
    .startOAuth "github",
    .request ⟨⟨none⟩, accountEnv "2", .signup "Ada@Example.com" "battery staple"⟩]

theorem signup_login_ada :
    letI := TokenClaimsCodec.protobuf
    letI := HashOrder.newestFirst
    letI := Argon2.salted
    letI := Lowercase.ascii
    letI app : AppState := { keyring := ⟨Tokens.sampleKey 0⟩ }
    ∃ s, Machine.run (rpc app) accountCalls empty = some s ∧
      (∃ a, SignedUp app accountCalls a ∧
        Lowercase.toLowercase a.email = Lowercase.toLowercase "ADA@EXAMPLE.COM" ∧
        a.password = "correct horse") ∧
      ¬ ∃ a, SignedUp app accountCalls a ∧
        Lowercase.toLowercase a.email = Lowercase.toLowercase "ADA@EXAMPLE.COM" ∧
        a.password = "battery staple" := by
  let _ := TokenClaimsCodec.protobuf
  let _ := HashOrder.newestFirst
  let _ := Argon2.salted
  let _ := Lowercase.ascii
  have hall : (Machine.run (rpc { keyring := ⟨Tokens.sampleKey 0⟩ }) accountCalls empty).map
      (fun s => (
        fault (result { keyring := ⟨Tokens.sampleKey 0⟩ }
          ⟨⟨none⟩, accountEnv "3", .login "ADA@EXAMPLE.COM" "correct horse"⟩ s),
        fault (result { keyring := ⟨Tokens.sampleKey 0⟩ }
          ⟨⟨none⟩, accountEnv "3", .login "ADA@EXAMPLE.COM" "battery staple"⟩ s))) =
      some (none, some ⟨.unauthenticated, "password mismatch"⟩) := by decide +kernel
  obtain ⟨s, hs, heq⟩ := Option.map_eq_some_iff.mp hall
  obtain ⟨hgood, hbad⟩ := Prod.mk.inj heq
  refine ⟨s, hs, ?_, ?_⟩
  · refine (signup_login _ Argon2.salted_faithful hs ⟨none⟩ (accountEnv "3") _ _).1.mp ?_
    cases hlogin : result { keyring := ⟨Tokens.sampleKey 0⟩ }
        ⟨⟨none⟩, accountEnv "3", .login "ADA@EXAMPLE.COM" "correct horse"⟩ s with
    | ok response t => exact ⟨response, t, rfl⟩
    | error e t =>
      rw [hlogin] at hgood
      cases hgood
  · intro hsigned
    obtain ⟨response, t, hlogin⟩ :=
      (signup_login _ Argon2.salted_faithful hs ⟨none⟩ (accountEnv "3") _ _).1.mpr hsigned
    rw [hlogin] at hbad
    cases hbad

end AdminServer

end EdgeReplica
