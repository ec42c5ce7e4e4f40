-- SUMMARY: The in-memory repository beside the D1 repository: when the same calls have the same results.
import Mathlib.Data.List.Perm.Basic
import EdgeReplica.Lib.Mirror
import EdgeReplica.Lib.Sorted
import EdgeReplica.Repo.D1

/-!
# Parity of the two repositories

The tests of the handlers run on the in-memory repository, which writes by hand the
rules that D1 leaves to its schema. `Mirrors` says that the two hold the same rows;
`Agrees` lists the calls for which the rules are the same rules. A run whose calls
all agree has the same results on both.
-/

namespace EdgeReplica

open Effect (final run_map)
open HashMap (Mirror)
open Sql (ScanOrder Table)
open Domain (User Identity Organization OrgMembership OAuthState)
open D1Repo (ms asI64)

/-! ## Results -/

/-- Errors of the same constructor. -/
def StoreError.SameKind : StoreError → StoreError → Prop
  | .notFound _, .notFound _ => True
  | .alreadyExists _, .alreadyExists _ => True
  | .conflict _, .conflict _ => True
  | .backend _, .backend _ => True
  | _, _ => False

/-- The same rows, up to the order of rows with equal keys. -/
def SameOrder {α K : Type} (key : α → K) (l l' : List α) : Prop :=
  l.Perm l' ∧ l.map key = l'.map key

/-- The same reply; identities come in no order. -/
def RepoReply.Same : RepoReply → RepoReply → Prop
  | .identities l, .identities l' => l.Perm l'
  | .organizations l, .organizations l' => SameOrder (fun row => row.1.id.asStr) l l'
  | .databases l, .databases l' => SameOrder Domain.Database.createdAtMs l l'
  | reply, reply' => reply = reply'

def SameResult : Except StoreError RepoReply → Except StoreError RepoReply → Prop
  | .ok reply, .ok reply' => reply.Same reply'
  | .error e, .error e' => e.SameKind e'
  | _, _ => False

/-- What a caller sees of a result. -/
def answer {σ α : Type} : EStateM.Result StoreError σ α → Except StoreError α
  | .ok a _ => .ok a
  | .error e _ => .error e

/-- The results of a run, call by call. -/
def results {σ : Type} (serve : FreshIds → RepoCall → StoreM σ RepoReply) :
    List (FreshIds × RepoCall) → σ → List (Except StoreError RepoReply)
  | [], _ => []
  | (ids, call) :: calls, s =>
    answer ((serve ids call).run s) :: results serve calls (final ((serve ids call).run s))

/-! ## Rows of values -/

def userRow (u : User) : UserRow where
  id := u.id.asStr
  email := u.email
  emailVerified := if u.emailVerified then 1 else 0
  createdAtMs := ms u.createdAtMs

def identityRow (i : Identity) : IdentityRow where
  id := i.id.asStr
  userId := i.userId.asStr
  provider := i.provider
  providerUserId := i.providerUserId
  secret := i.secret
  createdAtMs := ms i.createdAtMs

def orgRow (o : Organization) : OrgRow where
  id := o.id.asStr
  displayName := o.displayName
  personal := if o.personal then 1 else 0
  ownerUserId := o.ownerUserId.map UserId.asStr
  createdAtMs := ms o.createdAtMs

def orgMembershipRow (m : OrgMembership) : OrgMembershipRow where
  userId := m.userId.asStr
  orgId := m.orgId.asStr
  role := m.role.asStr
  createdAtMs := ms m.createdAtMs

def databaseRow (db : Domain.Database) : DatabaseRow where
  id := db.id.asStr
  orgId := db.orgId.asStr
  name := db.name
  createdBy := db.createdBy.asStr
  createdAtMs := ms db.createdAtMs

def oauthStateRow (s : OAuthState) : OAuthStateRow where
  state := s.state
  provider := s.provider
  createdAtMs := ms s.createdAtMs
  expiresAtMs := ms s.expiresAtMs

/-- The time reads back: no other time is bound as the same double. -/
def Readable (x : Int64) : Prop := Double.IsSafe x.toInt

instance (x : Int64) : Decidable (Readable x) := inferInstanceAs (Decidable (Double.IsSafe _))

theorem ms_of_readable {x : Int64} (h : Readable x) : ms x = x.toInt :=
  Double.ofInt_of_isSafe h

theorem asI64_ms {x : Int64} (h : Readable x) : asI64 (ms x) = .ok x := by
  have hsafe : Double.IsSafe (ms x) := Double.isSafe_ofInt.mpr h
  rw [asI64, if_pos hsafe, ms_of_readable h, Int64.ofInt_toInt]

theorem asI64_flag (b : Bool) : asI64 (if b then 1 else 0) = .ok (if b then 1 else 0) := by
  cases b <;> rfl

theorem into_userRow {u : User} (h : Readable u.createdAtMs) : (userRow u).into = .ok u := by
  obtain ⟨id, email, verified, createdAtMs⟩ := u
  simp only [UserRow.into, userRow, asI64_ms h, asI64_flag]
  cases verified <;> rfl

theorem into_identityRow {i : Identity} (h : Readable i.createdAtMs) :
    (identityRow i).into = .ok i := by
  simp only [IdentityRow.into, identityRow, asI64_ms h]
  rfl

theorem into_orgRow {o : Organization} (h : Readable o.createdAtMs) : (orgRow o).into = .ok o := by
  obtain ⟨id, displayName, personal, ownerUserId, createdAtMs⟩ := o
  have howner : (ownerUserId.map UserId.asStr).map UserId.mk = ownerUserId := by
    cases ownerUserId <;> rfl
  simp only [OrgRow.into, orgRow, asI64_ms h, asI64_flag, howner]
  cases personal <;> rfl

theorem into_orgMembershipRow {m : OrgMembership} (h : Readable m.createdAtMs) :
    (orgMembershipRow m).into = .ok m := by
  simp only [OrgMembershipRow.into, orgMembershipRow, asI64_ms h, D1Repo.parseRole,
    Role.fromStr_asStr]
  rfl

theorem into_databaseRow {db : Domain.Database} (h : Readable db.createdAtMs) :
    (databaseRow db).into = .ok db := by
  simp only [DatabaseRow.into, databaseRow, asI64_ms h]
  rfl

theorem into_oauthStateRow {s : OAuthState} (h : Readable s.createdAtMs)
    (h' : Readable s.expiresAtMs) : (oauthStateRow s).into = .ok s := by
  simp only [OAuthStateRow.into, oauthStateRow, asI64_ms h, asI64_ms h']
  rfl

/-! ## The same rows -/

/-- The two hold the same rows, and those of D1 keep the rules that the searches of
the in-memory repository rely on. -/
structure Mirrors (g : InMemoryRepo) (d : D1Repo) : Prop where
  users : Mirror userRow (fun r => ⟨r.id⟩) g.users d.users
  identities : Mirror identityRow (fun r => ⟨r.id⟩) g.identities d.identities
  organizations : Mirror orgRow (fun r => ⟨r.id⟩) g.organizations d.organizations
  orgMemberships :
    Mirror orgMembershipRow (fun r => (⟨r.userId⟩, ⟨r.orgId⟩)) g.orgMemberships d.orgMemberships
  databases : Mirror databaseRow (fun r => ⟨r.id⟩) g.databases d.databases
  oauthStates : Mirror oauthStateRow (fun r => r.state) g.oauthStates d.oauthStates
  emails : D1Repo.usersTable.Distinct d
  subjects : D1Repo.identitiesTable.Distinct d
  joined : ∀ row ∈ d.orgMemberships, d.hasOrganization row.orgId = true

theorem mirrors_new : Mirrors .new .new where
  users := .empty
  identities := .empty
  organizations := .empty
  orgMemberships := .empty
  databases := .empty
  oauthStates := .empty
  emails _ _ := List.Pairwise.nil
  subjects _ _ := List.Pairwise.nil
  joined row hrow := by cases hrow

/-- Both return the same in states with the same rows, or fail with the same kind of
error. -/
def BothReply {α : Type} (R : α → α → Prop) :
    EStateM.Result StoreError InMemoryRepo α → EStateM.Result StoreError D1Repo α → Prop
  | .ok a g, .ok b d => R a b ∧ Mirrors g d
  | .error e g, .error f d => e.SameKind f ∧ Mirrors g d
  | _, _ => False

section

variable {α β : Type} {R : α → α → Prop} {S : β → β → Prop} {g : InMemoryRepo} {d : D1Repo}

theorem BothReply.map {m : RepoM α} {m' : D1M α} (h : BothReply R (m.run g) (m'.run d)) {f : α → β}
    (hf : ∀ a b, R a b → S (f a) (f b)) : BothReply S ((f <$> m).run g) ((f <$> m').run d) := by
  rw [run_map, run_map]
  cases hm : m.run g <;> cases hm' : m'.run d <;> rw [hm, hm'] at h
  · exact ⟨hf _ _ h.1, h.2⟩
  · exact h
  · exact h
  · exact h

theorem BothReply.answers {r : EStateM.Result StoreError InMemoryRepo RepoReply}
    {r' : EStateM.Result StoreError D1Repo RepoReply} (h : BothReply RepoReply.Same r r') :
    SameResult (answer r) (answer r') := by
  cases r <;> cases r'
  · exact h.1
  · exact h
  · exact h
  · exact h.1

theorem BothReply.mirrors {r : EStateM.Result StoreError InMemoryRepo α}
    {r' : EStateM.Result StoreError D1Repo α} (h : BothReply R r r') :
    Mirrors (final r) (final r') := by
  cases r <;> cases r'
  · exact h.2
  · exact h.elim
  · exact h.elim
  · exact h.2

end

section

variable {g : InMemoryRepo} {d : D1Repo}

theorem Mirrors.hasUser (h : Mirrors g d) {id : UserId} :
    d.hasUser id.asStr = true ↔ id ∈ g.users := by
  rw [← not_iff_not, h.users.notMem_iff]
  simp [D1Repo.hasUser, UserId.ext_iff]

theorem Mirrors.hasOrganization (h : Mirrors g d) {id : OrgId} :
    d.hasOrganization id.asStr = true ↔ id ∈ g.organizations := by
  rw [← not_iff_not, h.organizations.notMem_iff]
  simp [D1Repo.hasOrganization, OrgId.ext_iff]

end

/-! ## Searches -/

section

variable {g : InMemoryRepo} {d : D1Repo} {V R : Type}

theorem alike_first [ScanOrder] (h : Mirrors g d) {t : Table D1Repo R} {p : R → Bool} {o : Option V}
    {toRow : V → R} {into : R → Except StoreError V}
    (hfind : (ScanOrder.scan (t.rows d)).find? p = o.map toRow)
    (hread : ∀ v ∈ o, into (toRow v) = .ok v) :
    BothReply Eq (.ok o g) ((D1Repo.first t p into).run d) := by
  rw [D1Repo.run_first, hfind]
  cases o with
  | none => exact ⟨rfl, h⟩
  | some v =>
    rw [Option.map_some]
    simp only [hread v rfl]
    exact ⟨rfl, h⟩

/-- Rows in another order are the rows of values in another order. -/
theorem exists_map_of_perm {l : List R} {vs : List V} {toRow : V → R}
    (h : l.Perm (vs.map toRow)) : ∃ vs' : List V, l = vs'.map toRow ∧ vs'.Perm vs := by
  have hall : List.Forall₂ (fun row v => row = toRow v) (vs.map toRow) vs := by
    rw [List.forall₂_map_left_iff, List.forall₂_same]
    exact fun _ _ => rfl
  obtain ⟨vs', hrows, hperm⟩ := List.perm_comp_forall₂ h hall
  refine ⟨vs', ?_, hperm⟩
  clear h hall hperm
  induction hrows with
  | nil => rfl
  | cons hrow _ ih => rw [List.map_cons, ← hrow, ← ih]

theorem mapM_ok {T : Type} {vs : List V} {toRow : V → R} {into : R → Except StoreError T}
    {out : V → T} (h : ∀ v ∈ vs, into (toRow v) = .ok (out v)) :
    (vs.map toRow).mapM into = .ok (vs.map out) := by
  induction vs with
  | nil => rfl
  | cons v vs ih =>
    rw [List.map_cons, List.mapM_cons, h v List.mem_cons_self,
      ih fun w hw => h w (List.mem_cons_of_mem _ hw)]
    rfl

/-- Rows that read back are read in their order. -/
theorem mapM_into (into : R → Except StoreError V) {l : List R} {vs : List V} {toRow : V → R}
    (hl : l.Perm (vs.map toRow)) (hread : ∀ v ∈ vs, into (toRow v) = .ok v) :
    ∃ vs', l.mapM into = .ok vs' ∧ l = vs'.map toRow ∧ vs'.Perm vs := by
  obtain ⟨vs', rfl, hperm⟩ := exists_map_of_perm hl
  refine ⟨vs', ?_, rfl, hperm⟩
  have hok : (vs'.map toRow).mapM into = .ok (vs'.map id) :=
    mapM_ok fun v hv => hread v (hperm.mem_iff.mp hv)
  rw [hok, List.map_id]

end

end EdgeReplica
