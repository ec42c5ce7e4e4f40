-- SUMMARY: OAuth round trips that are under way at the same time, over D1: what holds under every interleaving.
import EdgeReplica.Lib.Pool
import EdgeReplica.Lib.Ticket
import EdgeReplica.Repo.D1Served
import EdgeReplica.Services.OAuth

/-!
# OAuth under concurrent requests

A state is taken from the repository by the request that completes it. That no
identity is known for a subject may be out of date when its user is created; the
batch that creates the user then fails as a whole.
-/

namespace EdgeReplica

open Common (mapStoreError)
open Domain (OAuthState User Identity)
open Effect (final)
open Sql (ScanOrder)
open Tokens (MintSessionInput)

inductive OAuthRequest where
  | start (provider : String)
  | complete (state code : String)

/-- A request, with the time and the state that are drawn for it. -/
structure OAuthCall where
  nowMs : Int64
  generated : String
  request : OAuthRequest

inductive OAuthResponse where
  | started (response : Pb.StartOAuthResponse)
  | session (token : Macaroon)

/-- What a turn of a request draws from its surroundings. -/
structure OAuthEnv where
  github : GitHub
  ids : FreshIds
  nowUnix : Int64

namespace OAuthRaces

/-- What a request awaits: a storage call, or GitHub. -/
inductive Awaiting where
  | storeOAuthState (state : OAuthState) (response : Pb.StartOAuthResponse)
  | consumeOAuthState (state code : String)
  | completeGithub (code redirectUri : String)
  | findIdentity (identity : OAuthIdentity)
  | getUser (userId : UserId)
  | createOAuthUser (identity : OAuthIdentity)
  | listOrganizationsForUser (user : User)
  | answered (result : Except ConnectError OAuthResponse)

/-- A request, with the state it has stored or accepted and the identity that it was
told of. -/
structure Task where
  call : OAuthCall
  stored : Option OAuthState := none
  accepted : Option OAuthState := none
  identity : Option OAuthIdentity := none
  awaiting : Awaiting

def Awaiting.settle : Except ConnectError Awaiting → Awaiting
  | .ok awaiting => awaiting
  | .error e => .answered (.error e)

def Task.next (task : Task) (result : Except ConnectError Awaiting) : Task :=
  { task with awaiting := .settle result }

def Task.fail (task : Task) (e : ConnectError) : Task :=
  { task with awaiting := .answered (.error e) }

/-- What a request does before it first awaits anything. -/
def start (config : Config) (call : OAuthCall) : Task where
  call := call
  awaiting := .settle <|
    match call.request with
    | .start provider => do
      let (state, response) ← OAuth.start config call.nowMs call.generated provider
      return .storeOAuthState state response
    | .complete state code => return .consumeOAuthState state code

/-- A storage call, and what the request goes on to. -/
def onRepo {α : Type} (task : Task) (m : D1M α) (next : α → Task) (repo : D1Repo) :
    Task × D1Repo :=
  match m.run repo with
  | .ok a repo => (next a, repo)
  | .error e repo => (task.fail (mapStoreError e), repo)

section

variable (app : AppState) (task : Task)

def consumed (code : String) : Option OAuthState → Task
  | some state =>
    Task.next { task with accepted := some state }
      ((OAuth.resume app.config state).map (.completeGithub code))
  | none => task.fail ⟨.permissionDenied, "invalid or expired oauth state"⟩

def exchanged : Except ConnectError OAuthIdentity → Task
  | .ok identity => { task with identity := some identity, awaiting := .findIdentity identity }
  | .error e => task.fail e

def found (identity : OAuthIdentity) : Option Identity → Task
  | some ident => { task with awaiting := .getUser ident.userId }
  | none => { task with awaiting := .createOAuthUser identity }

def loaded : Option User → Task
  | some user => { task with awaiting := .listOrganizationsForUser user }
  | none => task.fail ⟨.internal, "oauth identity points at missing user"⟩

def minted [TokenClaimsCodec] (nowUnix : Int64) (user : User) (orgs : List OrgWithRole) : Task :=
  task.next <| (OAuth.sessionInput app.config nowUnix user orgs).map fun input =>
    .answered (.ok (.session (Tokens.mintSession app.keyring input)))

end

/-- Let a request go on until it awaits the next thing. -/
def turn [ScanOrder] [TokenClaimsCodec] (app : AppState) (env : OAuthEnv) (task : Task)
    (repo : D1Repo) : Option (Task × D1Repo) :=
  match task.awaiting with
  | .storeOAuthState state response =>
    some <| onRepo task (D1Repo.storeOAuthState state)
      (fun _ => { task with
        stored := some state, awaiting := .answered (.ok (.started response)) }) repo
  | .consumeOAuthState state code =>
    some <| onRepo task (D1Repo.consumeOAuthState state task.call.nowMs) (consumed app task code)
      repo
  | .completeGithub code redirectUri =>
    some (exchanged task (OAuth.completeGithub app.config env.github code redirectUri), repo)
  | .findIdentity identity =>
    some <| onRepo task (D1Repo.findIdentity identity.provider.asStr identity.providerUserId)
      (found task identity) repo
  | .getUser userId => some <| onRepo task (D1Repo.getUser userId) (loaded task) repo
  | .createOAuthUser identity =>
    some <| onRepo task
      (D1Repo.createOAuthUser env.ids {
        email := identity.email
        provider := identity.provider.asStr
        providerUserId := identity.providerUserId } task.call.nowMs)
      (fun user => { task with awaiting := .listOrganizationsForUser user }) repo
  | .listOrganizationsForUser user =>
    some <| onRepo task (D1Repo.listOrganizationsForUser user.id)
      (minted app task env.nowUnix user) repo
  | .answered _ => none

/-- The calls that write to the table of states. -/
def writesOAuthStates : RepoCall → Bool
  | .storeOAuthState _ | .consumeOAuthState _ _ => true
  | _ => false

/-- A storage call of any other request. -/
def others [ScanOrder] (call : FreshIds × RepoCall) (repo : D1Repo) : Option D1Repo :=
  if writesOAuthStates call.2 then none
  else some (final ((D1Repo.serve call.1 call.2).run repo))

def system [ScanOrder] [TokenClaimsCodec] (app : AppState) :
    Pool.System D1Repo OAuthCall Task OAuthEnv (FreshIds × RepoCall) where
  start := start app.config
  turn := turn app
  others := others

abbrev State := Pool.State D1Repo Task

abbrev Label := Pool.Label OAuthCall OAuthEnv (FreshIds × RepoCall)

def initial : State := Pool.empty .new

/-- The token that the request was answered with. -/
def Task.session (task : Task) : Option Macaroon :=
  match task.awaiting with
  | .answered (.ok (.session token)) => some token
  | _ => none

/-! ## Turns -/

/-- What a turn can come to. -/
inductive Turns [TokenClaimsCodec] (app : AppState) (task : Task) (repo : D1Repo) :
    Task → D1Repo → Prop
  | stored (state : OAuthState) (response : Pb.StartOAuthResponse)
      (hawaiting : task.awaiting = .storeOAuthState state response) :
      Turns app task repo
        { task with stored := some state, awaiting := .answered (.ok (.started response)) }
        (D1Repo.oauthStatesTable.add ⟨state.state, state.provider, D1Repo.ms state.createdAtMs,
          D1Repo.ms state.expiresAtMs⟩ repo)
  | accepted (state code : String) (row : OAuthStateRow) (st : OAuthState)
      (result : Except ConnectError String)
      (hawaiting : task.awaiting = .consumeOAuthState state code) (hrow : row ∈ repo.oauthStates)
      (hstate : row.state = state) (hinto : row.into = .ok st)
      (hclock : ¬ st.expiresAtMs < task.call.nowMs) :
      Turns app task repo
        { task with accepted := some st, awaiting := .settle (result.map (.completeGithub code)) }
        (repo.withoutOAuthState state)
  | refused (state : String) (e : ConnectError) :
      Turns app task repo (task.fail e) (repo.withoutOAuthState state)
  | told (identity : OAuthIdentity) :
      Turns app task repo
        { task with identity := some identity, awaiting := .findIdentity identity } repo
  | found (identity : OAuthIdentity) (userId : UserId)
      (hawaiting : task.awaiting = .findIdentity identity)
      (hlinks : repo.Links identity.provider.asStr identity.providerUserId userId.asStr) :
      Turns app task repo { task with awaiting := .getUser userId } repo
  | unknown (identity : OAuthIdentity) (hawaiting : task.awaiting = .findIdentity identity) :
      Turns app task repo { task with awaiting := .createOAuthUser identity } repo
  | loaded (user : User) (hawaiting : task.awaiting = .getUser user.id) :
      Turns app task repo { task with awaiting := .listOrganizationsForUser user } repo
  | signedUp (identity : OAuthIdentity) (ids : FreshIds) (rec : D1Repo.SignupRecord) (user : User)
      (hawaiting : task.awaiting = .createOAuthUser identity)
      (hnew : D1Repo.signupViolation ids rec repo = none)
      (hlinks : (D1Repo.signedUp ids rec repo).Links identity.provider.asStr
        identity.providerUserId user.id.asStr) :
      Turns app task repo { task with awaiting := .listOrganizationsForUser user }
        (D1Repo.signedUp ids rec repo)
  | minted (user : User) (input : MintSessionInput)
      (hawaiting : task.awaiting = .listOrganizationsForUser user)
      (hinput : input.userId = user.id) :
      Turns app task repo
        { task with
          awaiting := .answered (.ok (.session (Tokens.mintSession app.keyring input))) } repo
  | failed (e : ConnectError) : Turns app task repo (task.fail e) repo

section

variable [ScanOrder] {task task' : Task} {repo repo' : D1Repo}

omit [ScanOrder] in
/-- A call that only reads. -/
theorem onRepo_cases {α : Type} (m : D1M α) (next : α → Task)
    (hreads : final (m.run repo) = repo) :
    (∃ a, onRepo task m next repo = (next a, repo)) ∨
      ∃ e, onRepo task m next repo = (task.fail e, repo) := by
  unfold onRepo
  cases hrun : m.run repo with
  | ok a d =>
    rw [hrun] at hreads
    obtain rfl : d = repo := hreads
    exact .inl ⟨a, rfl⟩
  | error e d =>
    rw [hrun] at hreads
    obtain rfl : d = repo := hreads
    exact .inr ⟨mapStoreError e, rfl⟩

/-- A query for one row. -/
theorem onRepo_first {α R : Type} (t : Sql.Table D1Repo R) (p : R → Bool)
    (into : R → Except StoreError α) (next : Option α → Task) :
    onRepo task (D1Repo.first t p into) next repo = (next none, repo) ∨
      (∃ e, onRepo task (D1Repo.first t p into) next repo = (task.fail e, repo)) ∨
      ∃ row ∈ t.rows repo, p row = true ∧ ∃ a, into row = .ok a ∧
        onRepo task (D1Repo.first t p into) next repo = (next (some a), repo) := by
  unfold onRepo
  obtain hrun | ⟨e, hrun⟩ | ⟨row, hrow, hp, a, hinto, hrun⟩ := D1Repo.first_cases repo t p into
  · exact .inl (by rw [hrun])
  · exact .inr (.inl ⟨mapStoreError e, by rw [hrun]⟩)
  · exact .inr (.inr ⟨row, hrow, hp, a, hinto, by rw [hrun]⟩)

omit [ScanOrder] in
theorem sessionInput_userId {config : Config} {nowUnix : Int64} {user : User}
    {orgs : List OrgWithRole} {input : MintSessionInput}
    (h : OAuth.sessionInput config nowUnix user orgs = .ok input) : input.userId = user.id := by
  obtain ⟨⟨org, role⟩, -, h⟩ := Effect.bind_eq_ok.mp h
  cases h
  rfl

variable [TokenClaimsCodec] {app : AppState} {env : OAuthEnv}

/-- What `onRepo` comes to is a turn. -/
def IsTurn (app : AppState) (task : Task) (repo : D1Repo) (next : Task × D1Repo) : Prop :=
  Turns app task repo next.1 next.2

omit [ScanOrder] in
theorem turns_storeOAuthState {state : OAuthState} {response : Pb.StartOAuthResponse}
    (hawaiting : task.awaiting = .storeOAuthState state response) :
    IsTurn app task repo (onRepo task (D1Repo.storeOAuthState state)
      (fun _ => { task with
        stored := some state, awaiting := .answered (.ok (.started response)) }) repo) := by
  rw [onRepo, D1Repo.storeOAuthState, D1Repo.run_exec_insert]
  cases D1Repo.oauthStatesTable.violation ⟨state.state, state.provider,
      D1Repo.ms state.createdAtMs, D1Repo.ms state.expiresAtMs⟩ repo with
  | some rule => exact .failed _
  | none => exact .stored state response hawaiting

theorem turns_consumeOAuthState {state code : String}
    (hawaiting : task.awaiting = .consumeOAuthState state code) :
    IsTurn app task repo (onRepo task (D1Repo.consumeOAuthState state task.call.nowMs)
      (consumed app task code) repo) := by
  rw [onRepo, D1Repo.run_consumeOAuthState]
  cases hfind : (ScanOrder.scan repo.oauthStates).find? fun r => r.state = state with
  | none => exact .refused state _
  | some row =>
    have hrow := (ScanOrder.scan_perm repo.oauthStates).mem_iff.mp
      (List.mem_of_find?_eq_some hfind)
    have hstate : row.state = state := by simpa using List.find?_some hfind
    dsimp only
    cases hinto : row.into with
    | error e => exact .refused state _
    | ok st =>
      dsimp only
      -- The row is gone in either case, also when the state has expired.
      split
      · exact .refused state _
      · next hclock => exact .accepted state code row st _ hawaiting hrow hstate hinto hclock

theorem turns_findIdentity {identity : OAuthIdentity}
    (hawaiting : task.awaiting = .findIdentity identity) :
    IsTurn app task repo
      (onRepo task (D1Repo.findIdentity identity.provider.asStr identity.providerUserId)
        (found task identity) repo) := by
  obtain h | ⟨e, h⟩ | ⟨row, hrow, hsubject, ident, hinto, h⟩ := onRepo_first
    D1Repo.identitiesTable
    (fun r => r.provider = identity.provider.asStr ∧ r.providerUserId = identity.providerUserId)
    IdentityRow.into (found task identity) <;> rw [D1Repo.findIdentity, h]
  · exact .unknown identity hawaiting
  · exact .failed e
  · obtain ⟨hprovider, hsubject⟩ := of_decide_eq_true hsubject
    exact .found identity ident.userId hawaiting
      ⟨row, hrow, hprovider, hsubject, (IdentityRow.userId_of_into hinto).symm⟩

theorem turns_getUser {userId : UserId} (hawaiting : task.awaiting = .getUser userId) :
    IsTurn app task repo (onRepo task (D1Repo.getUser userId) (loaded task) repo) := by
  obtain h | ⟨e, h⟩ | ⟨row, -, hid, user, hinto, h⟩ := onRepo_first D1Repo.usersTable
    (fun r => r.id = userId.asStr) UserRow.into (loaded task) <;> rw [D1Repo.getUser, h]
  · exact .failed _
  · exact .failed e
  · have hsame : user.id = userId :=
      UserId.ext ((UserRow.id_of_into hinto).trans (of_decide_eq_true hid))
    exact .loaded user (hawaiting.trans (by rw [hsame]))

omit [ScanOrder] in
theorem turns_createOAuthUser {identity : OAuthIdentity} {ids : FreshIds}
    (hawaiting : task.awaiting = .createOAuthUser identity) :
    IsTurn app task repo
      (onRepo task
        (D1Repo.createOAuthUser ids {
          email := identity.email
          provider := identity.provider.asStr
          providerUserId := identity.providerUserId } task.call.nowMs)
        (fun user => { task with awaiting := .listOrganizationsForUser user }) repo) := by
  rw [onRepo, D1Repo.createOAuthUser, D1Repo.run_signup]
  cases hnew : D1Repo.signupViolation ids ⟨identity.email, true, identity.provider.asStr,
      some identity.providerUserId, none, task.call.nowMs⟩ repo with
  -- Another request may have linked the subject or taken the email.
  | some rule => exact .failed _
  | none => exact .signedUp identity ids _ _ hawaiting hnew (D1Repo.links_signedUp _)

theorem turns_listOrganizationsForUser {nowUnix : Int64} {user : User}
    (hawaiting : task.awaiting = .listOrganizationsForUser user) :
    IsTurn app task repo (onRepo task (D1Repo.listOrganizationsForUser user.id)
      (minted app task nowUnix user) repo) := by
  obtain ⟨orgs, h⟩ | ⟨e, h⟩ := onRepo_cases (D1Repo.listOrganizationsForUser user.id)
    (minted app task nowUnix user) (D1Repo.final_listOrganizationsForUser repo user.id)
  · rw [h, minted]
    cases hinput : OAuth.sessionInput app.config nowUnix user orgs with
    | ok input => exact .minted user input hawaiting (sessionInput_userId hinput)
    | error e => exact .failed e
  · rw [h]
    exact .failed e

theorem turns (h : turn app env task repo = some (task', repo')) :
    Turns app task repo task' repo' := by
  have hturns : ∀ {next}, some next = some (task', repo') → IsTurn app task repo next →
      Turns app task repo task' repo' := by
    rintro next heq hnext
    obtain rfl := Option.some.inj heq
    exact hnext
  unfold turn at h
  cases hawaiting : task.awaiting with
  | storeOAuthState state response =>
    rw [hawaiting] at h
    exact hturns h (turns_storeOAuthState hawaiting)
  | consumeOAuthState state code =>
    rw [hawaiting] at h
    exact hturns h (turns_consumeOAuthState hawaiting)
  | completeGithub code redirectUri =>
    rw [hawaiting] at h
    refine hturns h ?_
    cases OAuth.completeGithub app.config env.github code redirectUri with
    | ok identity => exact .told identity
    | error e => exact .failed e
  | findIdentity identity =>
    rw [hawaiting] at h
    exact hturns h (turns_findIdentity hawaiting)
  | getUser userId =>
    rw [hawaiting] at h
    exact hturns h (turns_getUser hawaiting)
  | createOAuthUser identity =>
    rw [hawaiting] at h
    exact hturns h (turns_createOAuthUser hawaiting)
  | listOrganizationsForUser user =>
    rw [hawaiting] at h
    exact hturns h (turns_listOrganizationsForUser hawaiting)
  | answered result =>
    rw [hawaiting] at h
    cases h

end

/-! ## What every step keeps -/

/-- The user is linked to the subject that the request was told of. -/
def Task.ToldOf (task : Task) (repo : D1Repo) (userId : UserId) : Prop :=
  ∃ identity, task.identity = some identity ∧
    repo.Links identity.provider.asStr identity.providerUserId userId.asStr

/-- What a request has come to know before it awaits this. -/
def Task.Fits [TokenClaimsCodec] (app : AppState) (task : Task) (repo : D1Repo) : Prop :=
  match task.awaiting with
  | .storeOAuthState _ _ => task.stored = none
  | .consumeOAuthState state code =>
    task.accepted = none ∧ task.call.request = .complete state code
  | .completeGithub _ _ => True
  | .findIdentity identity | .createOAuthUser identity => task.identity = some identity
  | .getUser userId => task.ToldOf repo userId
  | .listOrganizationsForUser user => task.ToldOf repo user.id
  | .answered (.ok (.session token)) =>
    ∃ input, token = Tokens.mintSession app.keyring input ∧ task.ToldOf repo input.userId
  | .answered _ => True

/-- The request had named the state that it accepted, and was in time. -/
def Task.InTime (task : Task) : Prop :=
  ∀ st, task.accepted = some st →
    (∃ code, task.call.request = .complete st.state code) ∧ task.call.nowMs ≤ st.expiresAtMs

theorem Task.InTime.congr {task task' : Task} (h : task.InTime)
    (haccepted : task.accepted = task'.accepted) (hcall : task.call = task'.call) :
    task'.InTime := by
  intro st hst
  rw [← hcall]
  exact h st (haccepted.trans hst)

/-- The repository has a row that this state is read from. -/
def Valid (repo : D1Repo) (st : OAuthState) : Prop := ∃ row ∈ repo.oauthStates, row.into = .ok st

structure Sound [TokenClaimsCodec] (app : AppState) (s : State) : Prop where
  fits : ∀ i task, s.requests i = some task → task.Fits app s.store
  inTime : ∀ i task, s.requests i = some task → task.InTime
  linked : s.store.Linked
  fair : ∃ origin,
    Ticket.Fair (s.record Task.stored) (s.record Task.accepted) (Valid s.store) origin

section

variable [TokenClaimsCodec] {app : AppState} {s : State} {task : Task} {repo repo' : D1Repo}

theorem sound_initial : Sound app initial where
  fits i task h := by cases h
  inTime i task h := by cases h
  linked := D1Repo.linked_new
  fair := ⟨id, .none (fun st ⟨_, hrow, _⟩ => by cases hrow) id⟩

/-- Links are never undone. -/
def LinksKept (repo repo' : D1Repo) : Prop :=
  ∀ provider providerUserId userId, repo.Links provider providerUserId userId →
    repo'.Links provider providerUserId userId

theorem Task.Fits.mono (h : task.Fits app repo) (hlinks : LinksKept repo repo') :
    task.Fits app repo' := by
  have htold : ∀ userId, task.ToldOf repo userId → task.ToldOf repo' userId :=
    fun userId ⟨identity, hidentity, hlink⟩ => ⟨identity, hidentity, hlinks _ _ _ hlink⟩
  unfold Task.Fits at h ⊢
  cases hawaiting : task.awaiting with
  | answered result =>
    rw [hawaiting] at h
    cases result with
    | error e => trivial
    | ok response =>
      cases response with
      | started response => trivial
      | session token => exact h.imp fun input hinput => hinput.imp_right (htold _)
  | getUser userId =>
    rw [hawaiting] at h
    exact htold _ h
  | listOrganizationsForUser user =>
    rw [hawaiting] at h
    exact htold _ h
  | _ =>
    rw [hawaiting] at h
    exact h

theorem Task.Fits.session (h : task.Fits app repo) {token : Macaroon}
    (hsession : task.session = some token) :
    ∃ input, token = Tokens.mintSession app.keyring input ∧ task.ToldOf repo input.userId := by
  unfold Task.session at hsession
  unfold Task.Fits at h
  split at hsession
  · next hawaiting =>
    obtain rfl := Option.some.inj hsession
    rwa [hawaiting] at h
  · cases hsession

/-- A request takes a turn; what becomes of the states is left open. -/
theorem Sound.put (h : Sound app s) {i : Nat} (hfits : task.Fits app repo) (htime : task.InTime)
    (hlinks : LinksKept s.store repo) (hlinked : repo.Linked)
    (hfair : ∃ origin, Ticket.Fair ((s.put i task repo).record Task.stored)
      ((s.put i task repo).record Task.accepted) (Valid repo) origin) :
    Sound app (s.put i task repo) where
  fits j t ht := by
    rw [Pool.put_requests] at ht
    split at ht
    · cases ht
      exact hfits
    · exact (h.fits j t ht).mono hlinks
  inTime j t ht := by
    rw [Pool.put_requests] at ht
    split at ht
    · cases ht
      exact htime
    · exact h.inTime j t ht
  linked := hlinked
  fair := hfair

/-- A turn that neither stores nor accepts a state. -/
theorem Sound.put_same (h : Sound app s) {i : Nat} {task' : Task} (hp : s.requests i = some task)
    (hstored : task.stored = task'.stored) (haccepted : task.accepted = task'.accepted)
    (hcall : task.call = task'.call) (hfits : task'.Fits app repo)
    (hlinks : LinksKept s.store repo) (hlinked : repo.Linked)
    (hvalid : ∀ st, Valid repo st → Valid s.store st) : Sound app (s.put i task' repo) := by
  refine h.put hfits ((h.inTime i task hp).congr haccepted hcall) hlinks hlinked ?_
  obtain ⟨origin, hfair⟩ := h.fair
  rw [Pool.record_put_same ((Pool.record_of hp).trans hstored),
    Pool.record_put_same ((Pool.record_of hp).trans haccepted)]
  exact ⟨origin, hfair.void hvalid⟩

/-! ## Steps -/

theorem fits_start (call : OAuthCall) : (start app.config call).Fits app repo := by
  unfold start
  cases hrequest : call.request with
  | start provider =>
    dsimp only
    cases hstart : OAuth.start app.config call.nowMs call.generated provider with
    | ok prepared => exact rfl
    | error e => trivial
  | complete state code => exact ⟨rfl, hrequest⟩

theorem Sound.arrive (h : Sound app s) {i : Nat} (call : OAuthCall)
    (hfree : s.requests i = none) : Sound app (s.put i (start app.config call) s.store) := by
  refine h.put (fits_start call) (fun st hst => by cases hst) (fun _ _ _ hlinks => hlinks)
    h.linked ?_
  have hnone : ∀ f : Task → Option OAuthState, s.record f i = none := by
    intro f
    rw [Pool.State.record, hfree, Option.bind_none]
  rw [Pool.record_put_same (hnone _), Pool.record_put_same (hnone _)]
  exact h.fair

/-- A state is stored: its row is the only new one. -/
theorem Sound.put_stored (h : Sound app s) {i : Nat} {task' : Task} {state : OAuthState}
    (hp : s.requests i = some task) (hnew : task.stored = none)
    (hstored : task'.stored = some state) (haccepted : task.accepted = task'.accepted)
    (hcall : task.call = task'.call)
    (hrepo : repo = D1Repo.oauthStatesTable.add ⟨state.state, state.provider,
      D1Repo.ms state.createdAtMs, D1Repo.ms state.expiresAtMs⟩ s.store)
    (hfits : task'.Fits app repo) : Sound app (s.put i task' repo) := by
  subst hrepo
  refine h.put hfits ((h.inTime i task hp).congr haccepted hcall) (fun _ _ _ hlinks => hlinks)
    ⟨h.linked.distinct.congr rfl, h.linked.users⟩ ?_
  obtain ⟨origin, hfair⟩ := h.fair
  rw [Pool.record_put, Pool.record_put_same ((Pool.record_of hp).trans haccepted), hstored]
  refine ⟨origin, hfair.issue ((Pool.record_of hp).trans hnew) ?_⟩
  rintro st ⟨row, hrow, hinto⟩
  -- A row that can be read gives back the very state that was bound.
  rcases List.mem_append.mp hrow with hrow | hrow
  · exact .inl ⟨row, hrow, hinto⟩
  · obtain rfl := List.mem_singleton.mp hrow
    exact .inr (OAuthStateRow.eq_of_into hinto)

omit [TokenClaimsCodec] in
theorem valid_withoutOAuthState {state : String} {st : OAuthState}
    (h : Valid (repo.withoutOAuthState state) st) : Valid repo st ∧ st.state ≠ state := by
  obtain ⟨row, hrow, hinto⟩ := h
  obtain ⟨hrow, hne⟩ := List.mem_filter.mp hrow
  refine ⟨⟨row, hrow, hinto⟩, ?_⟩
  rw [OAuthStateRow.state_of_into hinto]
  simpa using hne

/-- A state is accepted: its row is gone. -/
theorem Sound.put_accepted (h : Sound app s) {i : Nat} {task' : Task} {state : String}
    {row : OAuthStateRow} {st : OAuthState} (hp : s.requests i = some task)
    (hnew : task.accepted = none) (haccepted : task'.accepted = some st)
    (hstored : task.stored = task'.stored) (hrow : row ∈ s.store.oauthStates)
    (hinto : row.into = .ok st) (hstate : st.state = state) (htime : task'.InTime)
    (hfits : task'.Fits app (s.store.withoutOAuthState state)) :
    Sound app (s.put i task' (s.store.withoutOAuthState state)) := by
  refine h.put hfits htime (fun _ _ _ hlinks => hlinks)
    ⟨h.linked.distinct.congr rfl, h.linked.users⟩ ?_
  obtain ⟨origin, hfair⟩ := h.fair
  rw [Pool.record_put_same ((Pool.record_of hp).trans hstored), Pool.record_put, haccepted]
  refine hfair.redeem ((Pool.record_of hp).trans hnew) ⟨row, hrow, hinto⟩ ?_
  intro st' hst'
  obtain ⟨hvalid, hne⟩ := valid_withoutOAuthState hst'
  refine ⟨hvalid, ?_⟩
  rintro rfl
  exact hne hstate

variable [ScanOrder]

omit [TokenClaimsCodec] [ScanOrder] in
/-- Calls that do not write to the table of states leave it alone. -/
theorem oauthStates_of_serves {ids : FreshIds} {call : RepoCall}
    (h : D1Repo.Serves ids repo call repo') (hcall : writesOAuthStates call = false) :
    repo'.oauthStates = repo.oauthStates := by
  cases h with
  | oauthState row hnew => cases hcall
  | oauthStateConsumed state nowMs => cases hcall
  | _ => rfl

omit [TokenClaimsCodec] in
theorem others_eq_some {call : FreshIds × RepoCall} (h : others call repo = some repo') :
    D1Repo.Serves call.1 repo call.2 repo' ∧ repo'.oauthStates = repo.oauthStates := by
  rw [others] at h
  split at h
  · cases h
  · next hcall =>
    obtain rfl := Option.some.inj h
    have hserves := D1Repo.serves call.1 repo call.2
    exact ⟨hserves, oauthStates_of_serves hserves (Bool.eq_false_iff.mpr hcall)⟩

omit [ScanOrder] in
theorem Turns.links {task' : Task} (h : Turns app task repo task' repo') :
    LinksKept repo repo' := by
  intro provider providerUserId userId hlinks
  cases h with
  | signedUp identity ids rec user hawaiting hnew hnewLink =>
    obtain ⟨r, hr, hlinked⟩ := hlinks
    exact ⟨r, List.mem_append_left _ hr, hlinked⟩
  | _ => exact hlinks

theorem links_of_moves {s' : State} (h : Pool.Moves (system app) s s') :
    LinksKept s.store s'.store := by
  cases h with
  | arrive i call hfree => exact fun _ _ _ hlinks => hlinks
  | turn i env task task' repo hp hturn => exact (turns hturn).links
  | others call repo hothers => exact fun _ _ _ => (others_eq_some hothers).1.links

omit [ScanOrder] in
theorem Sound.turn (h : Sound app s) {i : Nat} {task' : Task} (hp : s.requests i = some task)
    (hturns : Turns app task s.store task' repo) : Sound app (s.put i task' repo) := by
  have hkept : LinksKept s.store repo := hturns.links
  have hfits := h.fits i task hp
  unfold Task.Fits at hfits
  cases hturns with
  | stored state response hawaiting =>
    rw [hawaiting] at hfits
    exact h.put_stored hp hfits rfl rfl rfl rfl trivial
  | accepted state code row st result hawaiting hrow hstate hinto hclock =>
    rw [hawaiting] at hfits
    obtain ⟨hnew, hrequest⟩ := hfits
    have hnamed : st.state = state := (OAuthStateRow.state_of_into hinto).trans hstate
    refine h.put_accepted hp hnew rfl rfl hrow hinto hnamed ?_ ?_
    · intro st' hst'
      obtain rfl := Option.some.inj hst'
      exact ⟨⟨code, hnamed ▸ hrequest⟩, Int64.not_lt.mp hclock⟩
    · cases result <;> trivial
  | refused state e =>
    exact h.put_same hp rfl rfl rfl trivial hkept ⟨h.linked.distinct.congr rfl, h.linked.users⟩
      fun st hst => (valid_withoutOAuthState hst).1
  -- The exchange is recorded as it returned; later turns only read the record.
  | told identity => exact h.put_same hp rfl rfl rfl rfl hkept h.linked fun _ => id
  | found identity userId hawaiting hlinks =>
    rw [hawaiting] at hfits
    exact h.put_same hp rfl rfl rfl ⟨identity, hfits, hlinks⟩ hkept h.linked fun _ => id
  | unknown identity hawaiting =>
    rw [hawaiting] at hfits
    exact h.put_same hp rfl rfl rfl hfits hkept h.linked fun _ => id
  | loaded user hawaiting =>
    rw [hawaiting] at hfits
    exact h.put_same hp rfl rfl rfl hfits hkept h.linked fun _ => id
  | signedUp identity ids rec user hawaiting hnew hlinks =>
    rw [hawaiting] at hfits
    exact h.put_same hp rfl rfl rfl ⟨identity, hfits, hlinks⟩ hkept (h.linked.signedUp hnew)
      fun _ => id
  | minted user input hawaiting hinput =>
    rw [hawaiting] at hfits
    exact h.put_same hp rfl rfl rfl ⟨input, rfl, hinput ▸ hfits⟩ hkept h.linked fun _ => id
  | failed e => exact h.put_same hp rfl rfl rfl trivial hkept h.linked fun _ => id

theorem Sound.moves (h : Sound app s) {s' : State} (hmoves : Pool.Moves (system app) s s') :
    Sound app s' := by
  have hkept := links_of_moves hmoves
  cases hmoves with
  | arrive i call hfree => exact h.arrive call hfree
  | turn i env task task' repo hp hturn => exact h.turn hp (turns hturn)
  | others call repo hothers =>
    obtain ⟨hserves, hstates⟩ := others_eq_some hothers
    obtain ⟨origin, hfair⟩ := h.fair
    refine ⟨fun i task hp => (h.fits i task hp).mono hkept, h.inTime, h.linked.serves hserves,
      origin, hfair.void ?_⟩
    rintro st ⟨row, hrow, hinto⟩
    exact ⟨row, hstates ▸ hrow, hinto⟩

/-! ## Runs -/

theorem sound_of_run {labels : List Label}
    (h : Machine.run (Pool.step (system app)) labels initial = some s) : Sound app s :=
  Pool.run_keeps h sound_initial fun _ _ hs hmoves => hs.moves hmoves

/-- Every acceptance of a state is of a storing of its own, before it expires. A subject
has one user ever, no user is without a subject, and a session is for the user of the
subject that GitHub told this request of. -/
theorem oauth_round_trips {labels labels' : List Label} {s' : State}
    (h : Machine.run (Pool.step (system app)) labels initial = some s)
    (h' : Machine.run (Pool.step (system app)) labels' s = some s') :
    (∃ origin : Nat → Nat, Set.InjOn origin {i | (s.record Task.accepted i).isSome} ∧
      ∀ i st, s.record Task.accepted i = some st → s.record Task.stored (origin i) = some st) ∧
    (∀ i task st, s.requests i = some task → task.accepted = some st →
      (∃ code, task.call.request = .complete st.state code) ∧
        task.call.nowMs ≤ st.expiresAtMs) ∧
    (∀ provider providerUserId userId userId', s.store.Links provider providerUserId userId →
      s'.store.Links provider providerUserId userId' → userId = userId') ∧
    (∀ u ∈ s.store.users, ∃ provider providerUserId,
      s.store.Links provider providerUserId u.id) ∧
    ∀ i token, s.record Task.session i = some token →
      ∃ identity input, s.record Task.identity i = some identity ∧
        token = Tokens.mintSession app.keyring input ∧
        ∀ userId, s'.store.Links identity.provider.asStr identity.providerUserId userId ↔
          userId = input.userId.asStr := by
  have hs := sound_of_run h
  have hall : Machine.run (Pool.step (system app)) (labels ++ labels') initial = some s' := by
    rw [Machine.run_append, h]
    exact h'
  have hs' := sound_of_run hall
  -- A link that a session was minted for is still there at the end of the run.
  have hkept : LinksKept s.store s'.store :=
    Pool.run_keeps (I := fun t => LinksKept s.store t.store) h' (fun _ _ _ hlinks => hlinks)
      fun t t' ht hmoves _ _ _ hlinks => links_of_moves hmoves _ _ _ (ht _ _ _ hlinks)
  refine ⟨?_, fun i task st hi => hs.inTime i task hi st, ?_, hs.linked.users, ?_⟩
  · obtain ⟨origin, hfair⟩ := hs.fair
    exact ⟨origin, hfair.once, hfair.genuine⟩
  · intro provider providerUserId userId userId' hlinks hlinks'
    exact hs'.linked.eq_of_links (hkept _ _ _ hlinks) hlinks'
  · intro i token hsession
    obtain ⟨task, hi, hsession⟩ := Option.bind_eq_some_iff.mp hsession
    obtain ⟨input, htoken, identity, hidentity, hlinks⟩ := (hs.fits i task hi).session hsession
    refine ⟨identity, input, (Pool.record_of hi).trans hidentity, htoken, fun userId => ?_⟩
    constructor
    · intro hlinks'
      exact hs'.linked.eq_of_links hlinks' (hkept _ _ _ hlinks)
    · rintro rfl
      exact hkept _ _ _ hlinks

end

/-- A deployment that GitHub is configured on. -/
def sampleApp : AppState where
  keyring := ⟨⟨List.replicate 32 0, List.length_replicate⟩⟩
  config := {
    oauthRedirectBase := "https://x.org/"
    githubClientId := some "id"
    githubClientSecret := some "secret" }

/-- Two requests log in with one new account. Both find no identity, and the one that
is second to create the user gets no session. -/
theorem oauth_round_trips_race :
    let _ := ScanOrder.oldestFirst
    let _ := TokenClaimsCodec.protobuf
    let env : String → OAuthEnv := fun n =>
      ⟨fun _ _ => .ok ("7", "ada@x.org"), ⟨⟨n⟩, ⟨n⟩, ⟨n⟩, ⟨n⟩⟩, 9⟩
    let labels : List Label := [
      .arrive 0 ⟨1, "a", .start "github"⟩, .turn 0 (env ""),
      .arrive 1 ⟨2, "b", .start "github"⟩, .turn 1 (env ""),
      .arrive 2 ⟨3, "", .complete "a" "code"⟩, .arrive 3 ⟨3, "", .complete "b" "code"⟩,
      .turn 2 (env ""), .turn 2 (env ""), .turn 2 (env ""),
      .turn 3 (env ""), .turn 3 (env ""), .turn 3 (env ""),
      .turn 2 (env "1"), .turn 2 (env "2")]
    let labels' : List Label := [.turn 3 (env "3")]
    ∃ s s' token, Machine.run (Pool.step (system sampleApp)) labels initial = some s ∧
      Machine.run (Pool.step (system sampleApp)) labels' s = some s' ∧
      s.record Task.session 2 = some token ∧ s'.record Task.session 3 = none ∧
      s'.store.users.map UserRow.id = ["1"] ∧
      ∃ identity input, s.record Task.identity 2 = some identity ∧
        token = Tokens.mintSession sampleApp.keyring input ∧
        ∀ userId, s'.store.Links identity.provider.asStr identity.providerUserId userId ↔
          userId = input.userId.asStr := by
  intro _ _ env labels labels'
  have hrun : ((Machine.run (Pool.step (system sampleApp)) labels initial).bind fun s =>
      (Machine.run (Pool.step (system sampleApp)) labels' s).map fun s' =>
        ((s.record Task.session 2).isSome, (s'.record Task.session 3).isNone,
          s'.store.users.map UserRow.id)) = some (true, true, ["1"]) := by
    decide +kernel
  obtain ⟨s, h, hrun⟩ := Option.bind_eq_some_iff.mp hrun
  obtain ⟨s', h', hends⟩ := Option.map_eq_some_iff.mp hrun
  obtain ⟨hsession, hends⟩ := Prod.mk.inj hends
  obtain ⟨hnone, husers⟩ := Prod.mk.inj hends
  obtain ⟨token, hsession⟩ := Option.isSome_iff_exists.mp hsession
  exact ⟨s, s', token, h, h', hsession, Option.isNone_iff_eq_none.mp hnone, husers,
    (oauth_round_trips h h').2.2.2.2 2 token hsession⟩

end OAuthRaces

end EdgeReplica
