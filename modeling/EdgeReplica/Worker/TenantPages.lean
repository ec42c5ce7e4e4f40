-- SUMMARY: Isolation end to end: a page is sent to no user but the one whose clients have uploaded it.
import EdgeReplica.Worker.Deployment

/-!
# Pages of tenants

A sync token is minted in a session, for a database of its organization. Databases do not
move between organizations, and no two users have sessions on one, so all the tokens of a
database are one user's. The gates let in nobody else, and an object sends what it was sent.
-/

namespace EdgeReplica

open Macaroons (Derivable)
open SessionAuth (Minted)
open Sql (ScanOrder)
open Tokens (MintSessionInput MintSyncInput issued)

/-! ## Whose databases sync tokens are for -/

namespace AdminService

/-- The tokens on record agree with the tables. -/
structure Ledger (s : State) : Prop where
  tenancy : s.repo.Tenancy
  rooted : ∀ session ∈ s.sessions, s.repo.Rooted session
  minted : ∀ input ∈ s.syncs, ∃ session ∈ s.sessions,
    session.userId = input.userId ∧ session.org = input.org
  orgs : ∀ i ∈ s.syncs, ∀ j ∈ s.syncs, i.database = j.database → i.org = j.org
  present : ∀ input ∈ s.syncs, ∀ row ∈ s.repo.databases, row.id = input.database.asStr →
    row.orgId = input.org.asStr
  generated : ∀ row ∈ s.repo.databases, ⟨row.id⟩ ∈ s.store.generated
  known : ∀ input ∈ s.syncs, input.database ∈ s.store.generated

theorem empty_ledger : Ledger empty :=
  ⟨D1Repo.tenancy_new, nofun, nofun, nofun, nofun, nofun, nofun⟩

section

variable {s : State}

/-- A sync token is for a user on the personal organization that he owns. -/
theorem Ledger.owns (h : Ledger s) {input : MintSyncInput} (hinput : input ∈ s.syncs) :
    ∃ session ∈ s.sessions, session.userId = input.userId ∧ session.org = input.org ∧
      s.repo.Rooted session := by
  obtain ⟨session, hsession, huser, horg⟩ := h.minted input hinput
  exact ⟨session, hsession, huser, horg, h.rooted session hsession⟩

/-- All the sync tokens of a database are one user's. -/
theorem Ledger.owner (h : Ledger s) {i j : MintSyncInput} (hi : i ∈ s.syncs) (hj : j ∈ s.syncs)
    (hdatabase : i.database = j.database) : i.userId = j.userId := by
  obtain ⟨session, -, huser, horg, hrooted⟩ := h.owns hi
  obtain ⟨session', -, huser', horg', hrooted'⟩ := h.owns hj
  have howns := hrooted.owns
  rw [horg, h.orgs i hi j hj hdatabase, ← horg', huser] at howns
  have howns' := hrooted'.owns
  rw [huser'] at howns'
  exact UserId.ext (h.tenancy.owner_eq howns howns')

/-- The tables change, but no database is added. -/
theorem Ledger.withRepo (h : Ledger s) {repo : D1Repo} (htenancy : repo.Tenancy)
    (horgs : s.repo.organizations ⊆ repo.organizations)
    (hmembers : s.repo.orgMemberships ⊆ repo.orgMemberships)
    (hdatabases : repo.databases ⊆ s.repo.databases) : Ledger (s.withRepo repo) where
  tenancy := htenancy
  rooted session hsession := (h.rooted session hsession).mono horgs hmembers
  minted := h.minted
  orgs := h.orgs
  present input hinput row hrow := h.present input hinput row (hdatabases hrow)
  generated row hrow := h.generated row (hdatabases hrow)
  known := h.known

/-- A database is added under an identifier that is new. -/
theorem Ledger.created (h : Ledger s) {id : DatabaseId} {row : DatabaseRow}
    (hid : id ∉ s.store.generated) (hrow : row.id = id.asStr)
    (hnew : D1Repo.databasesTable.violation row s.repo = none) :
    Ledger { s with
      store := ⟨D1Repo.databasesTable.add row s.repo, id :: s.store.generated⟩ } where
  tenancy := h.tenancy.addDatabase hnew
  rooted session hsession :=
    (h.rooted session hsession).mono (List.Subset.refl _) (List.Subset.refl _)
  minted := h.minted
  orgs := h.orgs
  present input hinput row' hrow' heq := by
    rcases List.mem_append.mp hrow' with hold | hadded
    · exact h.present input hinput row' hold heq
    · obtain rfl := List.mem_singleton.mp hadded
      -- No sync token has been minted for it yet.
      have hsame : id = input.database := DatabaseId.ext (hrow.symm.trans heq)
      exact absurd (h.known input hinput) (hsame ▸ hid)
  generated row' hrow' := by
    rcases List.mem_append.mp hrow' with hold | hadded
    · exact List.mem_cons_of_mem _ (h.generated row' hold)
    · obtain rfl := List.mem_singleton.mp hadded
      rw [hrow]
      exact List.mem_cons_self
  known input hinput := List.mem_cons_of_mem _ (h.known input hinput)

theorem Ledger.addSession (h : Ledger s) {input : MintSessionInput}
    (hlisted : s.repo.ListedFor input) : Ledger (s.addSessions [input]) where
  tenancy := h.tenancy
  rooted session hsession := by
    rcases List.mem_cons.mp hsession with rfl | hold
    · exact h.tenancy.rooted hlisted
    · exact h.rooted session hold
  minted i hi := by
    obtain ⟨session, hsession, hfor⟩ := h.minted i hi
    exact ⟨session, List.mem_cons_of_mem _ hsession, hfor⟩
  orgs := h.orgs
  present := h.present
  generated := h.generated
  known := h.known

/-- A sync token is minted in a session, for a database of its organization. -/
theorem Ledger.addSync (h : Ledger s) {input : MintSyncInput} {row : DatabaseRow}
    (hminted : ∃ session ∈ s.sessions, session.userId = input.userId ∧ session.org = input.org)
    (hrow : row ∈ s.repo.databases) (hid : row.id = input.database.asStr)
    (horg : row.orgId = input.org.asStr) : Ledger (s.addSync input) where
  tenancy := h.tenancy
  rooted := h.rooted
  minted i hi := by
    rcases List.mem_cons.mp hi with rfl | hold
    · exact hminted
    · exact h.minted i hold
  orgs i hi j hj heq := by
    -- The database is still the one that earlier tokens were minted for.
    have hsame (i : MintSyncInput) (hi : i ∈ input :: s.syncs)
        (heq : i.database = input.database) : i.org = input.org := by
      rcases List.mem_cons.mp hi with rfl | hold
      · rfl
      · have hrowOrg := h.present i hold row hrow (hid.trans (by rw [heq]))
        exact OrgId.ext (hrowOrg.symm.trans horg)
    by_cases hnewest : i.database = input.database
    · rw [hsame i hi hnewest, hsame j hj (heq.symm.trans hnewest)]
    · rcases List.mem_cons.mp hi with rfl | hi'
      · exact absurd rfl hnewest
      · rcases List.mem_cons.mp hj with rfl | hj'
        · exact absurd heq hnewest
        · exact h.orgs i hi' j hj' heq
  present i hi row' hrow' heq := by
    rcases List.mem_cons.mp hi with rfl | hold
    · obtain rfl := h.tenancy.database_eq hrow hrow' (hid.trans heq.symm)
      exact horg
    · exact h.present i hold row' hrow' heq
  generated := h.generated
  known i hi := by
    rcases List.mem_cons.mp hi with rfl | hold
    · have hgenerated := h.generated row hrow
      rwa [hid] at hgenerated
    · exact h.known i hold

end

variable [TokenClaimsCodec] {app : AppState} {task task' : Task} {s s' : State}

/-- The tokens that have been minted. -/
def State.tokens (s : State) (keyring : Keyring) : Set Macaroon :=
  issued keyring { input | input ∈ s.sessions } { input | input ∈ s.syncs }

/-- No record is dropped. -/
structure Grows (s s' : State) : Prop where
  sessions : s.sessions ⊆ s'.sessions
  syncs : s.syncs ⊆ s'.syncs

theorem Grows.tokens (h : Grows s s') (keyring : Keyring) :
    s.tokens keyring ⊆ s'.tokens keyring := by
  rintro m (⟨input, hinput, rfl⟩ | ⟨input, hinput, rfl⟩)
  · exact .inl ⟨input, h.sessions hinput, rfl⟩
  · exact .inr ⟨input, h.syncs hinput, rfl⟩

omit [TokenClaimsCodec] in
theorem Grows.minted (h : Grows s s') {session : SessionContext}
    (hminted : Minted s.sessions session) : Minted s'.sessions session := by
  obtain ⟨input, hinput, hfor⟩ := hminted
  exact ⟨input, h.sessions hinput, hfor⟩

theorem Turns.grows (h : Turns app task s task' s') : Grows s s' := by
  cases h with
  | session _ input hlisted htoken hsession =>
    exact ⟨List.subset_cons_self _ _, List.Subset.refl _⟩
  | sync session row input expUnix hsession hrow hid horg huser hinput =>
    exact ⟨List.Subset.refl _, List.subset_cons_self _ _⟩
  | _ => exact ⟨List.Subset.refl _, List.Subset.refl _⟩

/-- Every turn keeps the ledger, if the session that a sync token is issued in was minted. -/
theorem Ledger.turn (hs : Ledger s) (h : Turns app task s task' s')
    (hminted : ∀ session, task.session = some session → Minted s.sessions session) :
    Ledger s' := by
  cases h with
  | silent _ generated hsilent hgenerated =>
    exact ⟨hs.tenancy, hs.rooted, hs.minted, hs.orgs, hs.present,
      fun row hrow => hgenerated (hs.generated row hrow),
      fun input hinput => hgenerated (hs.known input hinput)⟩
  | oauthStates _ states hsilent =>
    exact hs.withRepo (hs.tenancy.congr rfl rfl rfl) (List.Subset.refl _) (List.Subset.refl _)
      (List.Subset.refl _)
  | signedUp _ ids rec hsilent hnew =>
    exact hs.withRepo (hs.tenancy.signedUp hnew) (List.subset_append_left _ _)
      (List.subset_append_left _ _) (List.Subset.refl _)
  | created _ id row hsilent hid hrow hnew => exact hs.created hid hrow hnew
  | deleted _ id hsilent =>
    exact hs.withRepo (hs.tenancy.withoutDatabase id) (List.Subset.refl _) (List.Subset.refl _)
      fun _ hrow => List.mem_of_mem_filter hrow
  | session _ input hlisted htoken hsession => exact hs.addSession hlisted
  | sync session row input expUnix hsession hrow hid horg huser hinput =>
    obtain ⟨mint, hmint, hmintUser, -, hmintOrg, -⟩ := hminted session hsession
    exact hs.addSync ⟨mint, hmint, hmintUser.symm.trans huser, hmintOrg.symm.trans hinput⟩ hrow
      hid horg

/-- What is known of a request under way: the token it was answered with was minted, and so was
the session that a sync token is issued in. -/
structure Known (keyring : Keyring) (s : State) (task : Task) : Prop where
  token : ∀ m, task.token = some m → m ∈ s.tokens keyring
  session : ∀ session, task.session = some session → Minted s.sessions session

theorem Silent.known {keyring : Keyring} (h : Silent task) : Known keyring s task where
  token m hm := by
    rw [h.token] at hm
    cases hm
  session session hsession := by
    rw [h.session] at hsession
    cases hsession

theorem Known.mono {keyring : Keyring} (h : Known keyring s task) (hgrows : Grows s s') :
    Known keyring s' task :=
  ⟨fun m hm => hgrows.tokens keyring (h.token m hm),
    fun session hsession => hgrows.minted (h.session session hsession)⟩

theorem Turns.known (h : Turns app task s task' s') : Known app.keyring s' task' := by
  cases h with
  | silent _ generated hsilent hgenerated => exact hsilent.known
  | oauthStates _ states hsilent => exact hsilent.known
  | signedUp _ ids rec hsilent hnew => exact hsilent.known
  | created _ id row hsilent hid hrow hnew => exact hsilent.known
  | deleted _ id hsilent => exact hsilent.known
  | session _ input hlisted htoken hsession =>
    refine ⟨fun m hm => ?_, fun session hsome => ?_⟩
    · rw [htoken] at hm
      obtain rfl := Option.some.inj hm
      exact .inl ⟨input, List.mem_cons_self, rfl⟩
    · rw [hsession] at hsome
      cases hsome
  | sync session row input expUnix hsession hrow hid horg huser hinput =>
    refine ⟨fun m hm => ?_, nofun⟩
    obtain rfl := Option.some.inj hm
    exact .inr ⟨input, List.mem_cons_self, rfl⟩

/-- A request that arrives under a session that was minted. -/
theorem known_start [Argon2] {keyring : Keyring} (config : Config) (call : Call)
    (hminted : ∀ session, call.ctx.session = some session → Minted s.sessions session) :
    Known keyring s (start config call) := by
  rcases start_cases config call with hsilent |
    ⟨session, id, direction, ttlSeconds, hsession, hstart⟩
  · exact hsilent.known
  · rw [hstart]
    refine ⟨nofun, fun session' heq => ?_⟩
    obtain rfl := Option.some.inj heq
    exact hminted session hsession

end AdminService

/-! ## Who a connection acts for -/

/-- The connection was opened with a sync token that was minted for the user and the
database, or with one that continues it. -/
def Connection.ActsFor [TokenClaimsCodec] (keyring : Keyring) (syncs : List MintSyncInput)
    (database : DatabaseId) (c : Connection) (user : UserId) : Prop :=
  ∃ m, c.token = some (.ok m) ∧ ∃ input ∈ syncs, input.database = database ∧
    input.userId = user ∧ (Tokens.mintSync keyring input).identifier = m.identifier ∧
    (Tokens.mintSync keyring input).caveats <+: m.caveats

theorem Connection.ActsFor.mono [TokenClaimsCodec] {keyring : Keyring}
    {syncs syncs' : List MintSyncInput} {database : DatabaseId} {c : Connection} {user : UserId}
    (h : c.ActsFor keyring syncs database user) (hsub : syncs ⊆ syncs') :
    c.ActsFor keyring syncs' database user := by
  obtain ⟨m, htoken, input, hinput, hfor⟩ := h
  exact ⟨m, htoken, input, hsub hinput, hfor⟩

namespace Deployment

section

variable {ι : Type} [TokenClaimsCodec]

/-- The tokens that RPCs were answered with so far. -/
def tokens (d : Deployment ι) : Set Macaroon :=
  { m | ∃ i task, d.rpcs i = some task ∧ task.token = some m }

/-- What the parties can do: a token comes of those that were handed out and of keys that are
not the root. -/
def Possible (site : Worker.Site) (own : Set MacaroonKey) (d : Deployment ι) : Turn ι → Prop
  | .request _ _ req => ∀ m, req.head.token site.platform = some (.ok m) →
    Derivable d.tokens own m
  | .rpc .. | .frame .. | .restart _ => True

/-- The tokens of the connections are those of users, and the ledger is in order. -/
structure Tenanted (site : Worker.Site) (d : Deployment ι) : Prop where
  inv : Inv site d
  ledger : AdminService.Ledger d.admin
  known : ∀ i task, d.rpcs i = some task → AdminService.Known site.app.keyring d.admin task
  acts : ∀ database i c, d.connections database i = some c →
    ∃ user, c.ActsFor site.app.keyring d.admin.syncs database user

variable [DecidableEq ι] [ScanOrder] [Argon2] [Blake3] {site : Worker.Site}
  {own : Set MacaroonKey} {d d' : Deployment ι}

omit [DecidableEq ι] [ScanOrder] [Argon2] [Blake3] in
/-- What was handed out was minted. -/
theorem Tenanted.derivable (h : Tenanted site d) {m : Macaroon} (hm : Derivable d.tokens own m) :
    Derivable (d.admin.tokens site.app.keyring) own m :=
  hm.mono fun _ ⟨i, task, htask, htoken⟩ => (h.known i task htask).token _ htoken

omit [DecidableEq ι] [ScanOrder] [Blake3] in
/-- An RPC that arrives has a session that was minted, if it has one. -/
theorem Tenanted.known_callAdmin (hown : site.app.keyring.root ∉ own) (h : Tenanted site d)
    {moment : Worker.Moment} {req : Worker.HttpRequest}
    (hpossible : ∀ m, req.head.token site.platform = some (.ok m) → Derivable d.tokens own m) :
    AdminService.Known site.app.keyring d.admin (Worker.callAdmin site moment req) := by
  unfold Worker.callAdmin
  cases req.rpc with
  | error e => exact AdminService.Silent.known ⟨rfl, rfl⟩
  | ok request =>
    refine AdminService.known_start _ _ fun session hsession => ?_
    obtain ⟨token, htoken, hverify⟩ := Option.bind_eq_some_iff.mp hsession
    cases token with
    | error e => cases hverify
    | ok m =>
      have hauthenticated : (SessionAuth.authenticate site.app.keyring moment.sessionNow
          (some (.ok m))).session = some session := hverify
      exact SessionAuth.minted_of_authenticate hown (h.derivable (hpossible m htoken))
        hauthenticated

omit [DecidableEq ι] [ScanOrder] [Argon2] [Blake3] in
/-- A session that is let in acts for the user that its token was minted for. -/
theorem Tenanted.actsFor_of_opens (hown : site.app.keyring.root ∉ own) (h : Tenanted site d)
    {moment : Worker.Moment} {req : Worker.HttpRequest}
    (hpossible : ∀ m, req.head.token site.platform = some (.ok m) → Derivable d.tokens own m)
    {database : DatabaseId} {object : EdgeReplicaObject SqlStorage}
    {session : SessionTask SqlStorage}
    (hopens : SyncForward.Opens site.platform site.app.keyring moment.syncNow req.head database
      object session) (task : SessionTask Unit) :
    ∃ user, Connection.ActsFor site.app.keyring d.admin.syncs database
      { token := req.head.token site.platform, task } user := by
  obtain ⟨m, ctx, hadmits, rfl⟩ := hopens.admits
  obtain ⟨⟨input, hinput, hdatabase, -, hid, hcaveats⟩, -⟩ :=
    hadmits.granted hown (h.derivable (hpossible m hadmits.token))
  exact ⟨input.userId, m, hadmits.token, input, hinput, hdatabase, rfl, hid, hcaveats⟩

/-- A request. -/
theorem Tenanted.request (hown : site.app.keyring.root ∉ own) (h : Tenanted site d) {i : ι}
    {moment : Worker.Moment} {req : Worker.HttpRequest}
    (hpossible : ∀ m, req.head.token site.platform = some (.ok m) → Derivable d.tokens own m)
    (hstep : Deployment.step site (.request i moment req) d = some d') : Tenanted site d' := by
  have hanswered := answered h.inv hstep
  refine ⟨inv_step h.inv hstep, hanswered.admin ▸ h.ledger, fun j task hj => ?_,
    fun database j c hj => ?_⟩
  · rw [hanswered.admin]
    rcases hanswered.rpcs with hsame | hnew
    · exact h.known j task (hsame ▸ hj)
    · rw [hnew] at hj
      by_cases hji : j = i
      · subst hji
        rw [Function.update_self] at hj
        obtain rfl := Option.some.inj hj
        exact h.known_callAdmin hown hpossible
      · rw [Function.update_of_ne hji] at hj
        exact h.known j task hj
  · rw [hanswered.admin]
    rcases hanswered.connections database with hsame | ⟨task, -, hopens, hnew⟩
    · exact h.acts database j c (hsame ▸ hj)
    · rw [hnew] at hj
      by_cases hji : j = i
      · subst hji
        rw [Function.update_self] at hj
        obtain rfl := Option.some.inj hj
        exact h.actsFor_of_opens hown hpossible hopens (task.withStorage ())
      · rw [Function.update_of_ne hji] at hj
        exact h.acts database j c hj

/-- A turn of an RPC. -/
theorem Tenanted.rpc (h : Tenanted site d) {i : ι} {env : OAuthEnv}
    (hstep : Deployment.step site (.rpc i env) d = some d') : Tenanted site d' := by
  have hinv := inv_step h.inv hstep
  obtain ⟨task, task', admin, htask, hturn, rfl⟩ := rpc_cases hstep
  have hturns := AdminService.turns hturn
  refine ⟨hinv, h.ledger.turn hturns (h.known i task htask).session, fun j next hj => ?_,
    fun database j c hj => ?_⟩
  · by_cases hji : j = i
    · subst hji
      simp only [Function.update_self, Option.some.injEq] at hj
      rw [← hj]
      exact hturns.known
    · simp only [Function.update_of_ne hji] at hj
      exact (h.known j next hj).mono hturns.grows
  · obtain ⟨user, hacts⟩ := h.acts database j c hj
    exact ⟨user, hacts.mono hturns.grows.syncs⟩

/-- Every possible turn keeps the users apart. -/
theorem Tenanted.step (hown : site.app.keyring.root ∉ own) {turn : Turn ι}
    (h : Tenanted site d) (hpossible : Possible site own d turn)
    (hstep : Deployment.step site turn d = some d') : Tenanted site d' := by
  have hinv := inv_step h.inv hstep
  match turn with
  | .request i moment req => exact h.request hown hpossible hstep
  | .rpc i env => exact h.rpc hstep
  | .frame name i nowMs event =>
    simp only [Deployment.step] at hstep
    split at hstep
    · cases hstep
    · next c₀ hi =>
      split at hstep
      · obtain rfl := Option.some.inj hstep
        refine ⟨hinv, h.ledger, h.known, fun database j c hj => ?_⟩
        by_cases heq : database = name
        · subst heq
          simp only [Function.update_self] at hj
          by_cases hji : j = i
          · subst hji
            rw [Function.update_self] at hj
            obtain rfl := Option.some.inj hj
            exact h.acts database j c₀ hi
          · exact h.acts database j c (by rwa [Function.update_of_ne hji] at hj)
        · exact h.acts database j c (by simpa only [Function.update_of_ne heq] using hj)
      · cases hstep
  | .restart name =>
    obtain rfl := Option.some.inj hstep
    refine ⟨hinv, h.ledger, h.known, fun database j c hj => ?_⟩
    by_cases heq : database = name
    · subst heq
      simp only [Function.update_self] at hj
      obtain ⟨c₀, hc₀, rfl⟩ := Option.map_eq_some_iff.mp hj
      exact h.acts database j c₀ hc₀
    · exact h.acts database j c (by simpa only [Function.update_of_ne heq] using hj)

omit [DecidableEq ι] [ScanOrder] [Argon2] [Blake3] in
/-- All the connections of a database act for one user. -/
theorem Tenanted.user_eq (h : Tenanted site d) {database : DatabaseId} {c c' : Connection}
    {user user' : UserId} (hc : c.ActsFor site.app.keyring d.admin.syncs database user)
    (hc' : c'.ActsFor site.app.keyring d.admin.syncs database user') : user = user' := by
  obtain ⟨m, -, input, hinput, hdatabase, rfl, -⟩ := hc
  obtain ⟨m', -, input', hinput', hdatabase', rfl, -⟩ := hc'
  exact h.ledger.owner hinput hinput' (hdatabase.trans hdatabase'.symm)

/-- Pages are isolated end to end. Whatever the users ask of the deployment, in whatever
order, with whatever they make of the tokens they get, and however the storage calls of their
RPCs come between each other: every sync connection acts for a user who has a session on a
personal organization of his own, all the connections to one database act for one user, and a
page that a database holds, or has sent on a connection, has arrived on a connection to this
database. -/
theorem pages_isolated (site : Worker.Site) (hown : site.app.keyring.root ∉ own)
    (faults : DatabaseId → Nat → Option String) {turns : List (Turn ι)}
    (hrun : Machine.run (Deployment.step site) turns (new site faults) = some d)
    (hpossible : Machine.Meets (Deployment.step site) (Possible site own) turns (new site faults))
    (database : DatabaseId) :
    (∀ i c, d.connections database i = some c → ∃ user,
      c.ActsFor site.app.keyring d.admin.syncs database user ∧
      ∃ session ∈ d.admin.sessions, session.userId = user ∧
        d.admin.repo.Rooted session) ∧
    (∀ i c, d.connections database i = some c → ∀ j c', d.connections database j = some c' →
      ∀ user user', c.ActsFor site.app.keyring d.admin.syncs database user →
        c'.ActsFor site.app.keyring d.admin.syncs database user' → user = user') ∧
    (∀ (p : UInt32) (page : Page),
      (PageStore.pages (d.objects database).sql)[p]? = some page →
      ∃ i c, d.connections database i = some c ∧ ⟨p, page.data⟩ ∈ c.arrived) ∧
    ∀ i c, d.connections database i = some c → ∀ msg ∈ c.task.sent, ∀ entry ∈ msg.entries,
      ∃ j c', d.connections database j = some c' ∧ entry ∈ c'.arrived := by
  have hempty : Tenanted site (new site faults : Deployment ι) :=
    ⟨inv_new site faults, AdminService.empty_ledger, by simp, by simp⟩
  have htenanted : Tenanted site d := Machine.run_keeps_of_meets hrun hempty hpossible
    fun turn d d' hstep h hmet => h.step hown hmet hstep
  have hserving := htenanted.inv database
  refine ⟨fun i c hc => ?_, fun _ _ _ _ _ _ _ _ => htenanted.user_eq, hserving.held,
    hserving.sent⟩
  obtain ⟨user, m, htoken, input, hinput, hdatabase, rfl, hcontinues⟩ :=
    htenanted.acts database i c hc
  obtain ⟨session, hsession, huser, -, hrooted⟩ := htenanted.ledger.owns hinput
  exact ⟨input.userId, ⟨m, htoken, input, hinput, hdatabase, rfl, hcontinues⟩,
    session, hsession, huser, hrooted⟩

end

deriving instance DecidableEq for Macaroons.Macaroon

/-- The turn presents no token but those that the first `n` RPCs were answered with. -/
def Honest (site : Worker.Site) (n : Nat) (d : Deployment Nat) : Turn Nat → Prop
  | .request _ _ req => ∀ token ∈ req.head.token site.platform, ∀ m ∈ token.toOption,
    ∃ i ∈ List.range n, (d.rpcs i).bind AdminService.Task.token = some m
  | .rpc .. | .frame .. | .restart _ => True

instance (site : Worker.Site) (n : Nat) (d : Deployment Nat) :
    (turn : Turn Nat) → Decidable (Honest site n d turn)
  | .request _ _ _ => by unfold Honest; infer_instance
  | .rpc .. | .frame .. | .restart _ => isTrue trivial

theorem Honest.possible {site : Worker.Site} {own : Set MacaroonKey} {n : Nat}
    {d : Deployment Nat} {turn : Turn Nat} (h : Honest site n d turn) :
    Possible site own d turn := by
  match turn with
  | .rpc .. | .frame .. | .restart _ => trivial
  | .request i moment req =>
    intro m htoken
    obtain ⟨j, -, hanswered⟩ := h (.ok m) htoken m rfl
    obtain ⟨task, htask, hm⟩ := Option.bind_eq_some_iff.mp hanswered
    exact .held ⟨j, task, htask, hm⟩

def adaMint : MintSessionInput where
  userId := ⟨"u_1"⟩
  email := "ada@example.com"
  org := ⟨"o_1"⟩
  role := .admin
  nowUnix := 1
  ttlSeconds := 86400

def adaSync (direction : Direction) : MintSyncInput where
  userId := ⟨"u_1"⟩
  org := ⟨"o_1"⟩
  database := ⟨"db_3"⟩
  direction := direction
  nowUnix := 1
  ttlSeconds := 3600

/-- The texts of the tokens that Ada gets. -/
def adaSite [TokenClaimsCodec] : Worker.Site where
  app := { keyring := ⟨Tokens.sampleKey 0⟩, config := OAuthRaces.sampleApp.config }
  platform := { sampleSite.platform with
    deserialize text :=
      if text = "session" then .ok (Tokens.mintSession ⟨Tokens.sampleKey 0⟩ adaMint)
      else if text = "push" then .ok (Tokens.mintSync ⟨Tokens.sampleKey 0⟩ (adaSync .push))
      else if text = "pull" then .ok (Tokens.mintSync ⟨Tokens.sampleKey 0⟩ (adaSync .pull))
      else .error "malformed" }

def adaHead (token : String) : Request where
  headers
    | .authorization => .ok (some ("Bearer " ++ token))
    | .upgrade => .ok (some "websocket")

def adaRpc (i : Nat) (token : String) (request : AdminService.Request) : Turn Nat :=
  .request i sampleMoment
    { method := .other, path := "/rpc", head := adaHead token, rpc := .ok request }

def adaUpgrade (i : Nat) (token : String) : Turn Nat :=
  .request i sampleMoment
    { method := .get, path := "/sync", head := adaHead token, rpc := sampleSync.rpc }

/-- The next turn of an RPC, with GitHub's word for Ada and the identifiers of this number. -/
def adaTurn (i : Nat) (n : String) : Turn Nat :=
  .rpc i ⟨fun _ _ => .ok ("7", "ada@example.com"),
    ⟨⟨"u_" ++ n⟩, ⟨"i_" ++ n⟩, ⟨"o_" ++ n⟩, ⟨"db_" ++ n⟩⟩, 1⟩

/-- Ada comes from GitHub while Bob signs up. She creates a database, pushes a page to it and
pulls it from there. -/
def adaTurns : List (Turn Nat) :=
  [adaRpc 0 "" (.startOAuth "github"), adaTurn 0 "0",
    adaRpc 1 "" (.completeOAuth "state" "code"), adaTurn 1 "1", adaTurn 1 "1",
    adaRpc 2 "" (.signup "bob@example.com" "battery staple"), adaTurn 1 "1", adaTurn 2 "2",
    adaTurn 1 "1", adaTurn 2 "2", adaTurn 1 "1",
    adaRpc 3 "session" (.createDatabase "main"), adaTurn 3 "3",
    adaRpc 4 "session" (.issueSyncToken "db_3" 1 0),
    adaRpc 5 "session" (.issueSyncToken "db_3" 2 0), adaTurn 5 "5", adaTurn 4 "4",
    adaUpgrade 6 "push", adaUpgrade 7 "pull",
    .frame ⟨"db_3"⟩ 6 0 (.binary (.ok (.hello 1 4096 1))),
    .frame ⟨"db_3"⟩ 6 0 (.binary (.ok (.pageData 7 [1]))),
    .frame ⟨"db_3"⟩ 7 0 (.binary (.ok (.hello 1 4096 0))),
    .frame ⟨"db_3"⟩ 7 0 (.binary (.ok .complete))]

theorem honest_ada :
    letI := TokenClaimsCodec.protobuf
    letI := ScanOrder.oldestFirst
    letI := Argon2.readable
    letI := Blake3.onSamples
    Machine.Meets (Deployment.step adaSite) (Honest adaSite 6) adaTurns
      (new adaSite fun _ _ => none) := by
  decide +kernel

theorem pages_isolated_ada :
    letI := TokenClaimsCodec.protobuf
    letI := ScanOrder.oldestFirst
    letI := Argon2.readable
    letI := Blake3.onSamples
    ∃ d c, Machine.run (Deployment.step adaSite) adaTurns (new adaSite fun _ _ => none) = some d ∧
      d.connections ⟨"db_3"⟩ 7 = some c ∧
      c.task.sent = [.helloReply 1 4096 7, .pageData 7 [1], .syncComplete 1 1] ∧
      ∃ user, c.ActsFor ⟨Tokens.sampleKey 0⟩ d.admin.syncs ⟨"db_3"⟩ user := by
  let _ := TokenClaimsCodec.protobuf
  let _ := ScanOrder.oldestFirst
  let _ := Argon2.readable
  let _ := Blake3.onSamples
  have hown : adaSite.app.keyring.root ∉ ({Tokens.sampleKey 1} : Set MacaroonKey) := by
    rw [Set.mem_singleton_iff]
    decide
  have hrun : (Machine.run (Deployment.step adaSite) adaTurns
      (new adaSite fun _ _ => none)).map (fun d =>
        (d.connections ⟨"db_3"⟩ 7).map fun c => c.task.sent) =
      some (some [.helloReply 1 4096 7, .pageData 7 [1], .syncComplete 1 1]) := by
    decide +kernel
  obtain ⟨d, hd, hconnected⟩ := Option.map_eq_some_iff.mp hrun
  obtain ⟨c, hc, hsent⟩ := Option.map_eq_some_iff.mp hconnected
  obtain ⟨user, hacts, -⟩ := (pages_isolated adaSite hown (fun _ _ => none) hd
    (honest_ada.imp fun _ _ h => h.possible) ⟨"db_3"⟩).1 7 c hc
  exact ⟨d, c, hd, hc, hsent, user, hacts⟩

end Deployment

end EdgeReplica
