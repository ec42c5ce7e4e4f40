-- SUMMARY: One account for an address: when the emails that are stored are the ones that were checked, over all runs of the admin service.
import EdgeReplica.Services.Accounts

/-!
# One account for an address

An email is checked without the white space around it, and stored, compared and looked up
with it. The name of a database is checked the same way, and is then stored as it was
checked.
-/

namespace EdgeReplica

open Effect (run_map)
open InMemoryRepo (Fresh)
open Text (Lowercase)

/-- What a signup is held against. -/
structure Accepts [Argon2] [Lowercase] (a : Account) (g : InMemoryRepo) : Prop where
  email : Common.validateEmail a.email = .ok ()
  password : ∃ stored, Password.hashNewPassword a.env.salt a.password = .ok stored
  free : ∀ id, ∀ user ∈ g.users.lookup id,
    Lowercase.toLowercase user.email ≠ Lowercase.toLowercase a.email

namespace AdminServer

variable [TokenClaimsCodec] [HashOrder] [Argon2] [Lowercase] {app : AppState} {s : AdminServer}

/-- A signup succeeds exactly if it is accepted. -/
theorem signup_eq_ok {accounts : Set Account} (hd : Directory accounts s.repo) {a : Account}
    (hfresh : Fresh a.env.ids s.repo) (ctx : RpcContext) :
    (∃ response t, result app (signupCall ctx a) s = .ok (.auth response) t) ↔
      Accepts a s.repo := by
  have hresult : result app (signupCall ctx a) s =
      (Response.auth <$> signup app a.env a.email a.password).run s := rfl
  rw [hresult, run_map]
  constructor
  · rintro ⟨response, t, h⟩
    rcases hrun : (signup app a.env a.email a.password).run s with ⟨answer, t'⟩ | ⟨e, t'⟩
    · obtain ⟨_, hemail, hrest⟩ := checked_eq_ok hrun
      obtain ⟨stored, hstored, hrest⟩ := checked_eq_ok hrest
      refine ⟨hemail, ⟨stored, Effect.mapError_eq_ok.mp hstored⟩, ?_⟩
      rcases InMemoryRepo.createUser_cases a.env.ids (a.newUser stored) a.env.nowMs s.repo with
        ⟨e, hfails⟩ | ⟨hnone, -⟩
      · cases (run_failed hfails _).symm.trans hrest
      · exact InMemoryRepo.findUserByEmail_eq_none.mp hnone
    · rw [hrun] at h
      cases h
  · rintro ⟨hemail, ⟨stored, hstored⟩, hfree⟩
    have hfound := InMemoryRepo.findUserByEmail_eq_none.mpr hfree
    have hnew : ∀ b ∈ accounts,
        Lowercase.toLowercase b.email ≠ Lowercase.toLowercase a.email :=
      fun b hb => hfree _ b.user (hd.registered b hb)
    have hcreated : (InMemoryRepo.createUser a.env.ids (a.newUser stored) a.env.nowMs).run s.repo =
        .ok a.user (s.repo.insertUser a.env.ids (a.newUser stored) a.env.nowMs) := by
      simp only [InMemoryRepo.createUser, EStateM.run_bind, EStateM.run_get]
      rw [show (a.newUser stored).email = a.email from rfl, hfound]
      rfl
    have hopened := hd.insertUser hfresh hnew hstored
    have hrun : (signup app a.env a.email a.password).run s = .ok (authResponse app a.env a)
        ((s.withRepo (s.repo.insertUser a.env.ids (a.newUser stored) a.env.nowMs)).addSession
          (accountSession app a.env a)) := by
      refine (run_checked hemail _).trans ((run_checked (by rw [hstored]; rfl) _).trans ?_)
      refine (run_written hcreated _).trans ?_
      exact run_issueSessionFor_bind hopened (Set.mem_insert _ _) _
    exact ⟨_, _, by rw [hrun]⟩

/-- A signup that is accepted is for an email without white space around it. -/
def Trimmed (s : AdminServer) (l : Rpc) : Prop :=
  ∀ ctx a, l = .request (signupCall ctx a) → Accepts a s.repo → Text.trim a.email = a.email

/-- No two users have the same address, each address is stored as it was checked, and a login
with it finds the account. -/
structure OneAccount (app : AppState) (calls : List Rpc) (s : AdminServer) : Prop where
  unique : ∀ id id' user user', user ∈ s.repo.users.lookup id → user' ∈ s.repo.users.lookup id' →
    Lowercase.toLowercase (Text.trim user.email) = Lowercase.toLowercase (Text.trim user'.email) →
    id = id'
  checked : ∀ id, ∀ user ∈ s.repo.users.lookup id, Text.trim user.email = user.email
  found : ∀ a, SignedUp app calls a → ∀ ctx env, ∃ t,
    result app ⟨ctx, env, .login (Text.trim a.email) a.password⟩ s =
      .ok (.auth (authResponse app env a)) t

/-- In a run, the accounts that are opened are the signups that are accepted. -/
theorem meets_trimmed_iff (hargon : Argon2.Faithful) {calls : List Rpc}
    (hrun : Machine.run (rpc app) calls empty = some s) :
    Machine.Meets (rpc app) Trimmed calls empty ↔
      ∀ a, SignedUp app calls a → Text.trim a.email = a.email := by
  rw [Machine.meets_iff]
  constructor
  · rintro h a ⟨response, before, ctx, after, t, t', rfl, hbefore, hresult⟩
    have hfresh : Fresh (signupCall ctx a).env.ids t.repo := fresh_of_run hrun hbefore
    have haccepts := (signup_eq_ok (directory_of_run hargon hbefore) hfresh ctx).mp
      ⟨response, t', hresult⟩
    exact h before _ after t rfl hbefore ctx a rfl haccepts
  · rintro h before _ after t rfl hbefore ctx a rfl haccepts
    have hfresh : Fresh (signupCall ctx a).env.ids t.repo := fresh_of_run hrun hbefore
    obtain ⟨response, t', hresult⟩ :=
      (signup_eq_ok (directory_of_run hargon hbefore) hfresh ctx).mpr haccepts
    exact h a ⟨response, before, ctx, after, t, t', rfl, hbefore, hresult⟩

/-- There is one account for an address, in every run of the service, exactly if no signup is
accepted for an email with white space around it. -/
theorem one_account_iff (app : AppState) (hargon : Argon2.Faithful) {calls : List Rpc}
    (hrun : Machine.run (rpc app) calls empty = some s) :
    OneAccount app calls s ↔ Machine.Meets (rpc app) Trimmed calls empty := by
  have hd := directory_of_run hargon hrun
  rw [meets_trimmed_iff hargon hrun]
  constructor
  · exact fun h a ha => h.checked _ a.user (hd.registered a ha)
  · intro h
    have hchecked : ∀ id, ∀ user ∈ s.repo.users.lookup id,
        ∃ a, SignedUp app calls a ∧ id = a.user.id ∧ user = a.user ∧
          Text.trim user.email = user.email := by
      intro id user huser
      obtain ⟨a, ha, hid, rfl⟩ := hd.users id user huser
      exact ⟨a, ha, hid, rfl, h a ha⟩
    refine ⟨?_, ?_, ?_⟩
    · intro id id' user user' huser huser' hlower
      obtain ⟨a, ha, rfl, rfl, htrim⟩ := hchecked id user huser
      obtain ⟨a', ha', rfl, rfl, htrim'⟩ := hchecked id' user' huser'
      rw [htrim, htrim'] at hlower
      rw [hd.emails a ha a' ha' hlower]
    · intro id user huser
      obtain ⟨-, -, -, -, htrim⟩ := hchecked id user huser
      exact htrim
    · intro a ha ctx env
      rw [h a ha]
      have hresult : result app ⟨ctx, env, .login a.email a.password⟩ s =
          (Response.auth <$> login app env a.email a.password).run s := rfl
      rw [run_map] at hresult
      rcases run_login hargon hd a.email a.password with ⟨b, hb, hemail, -, hlogin⟩ | ⟨hnone, -⟩
      · obtain rfl := hd.emails b hb a ha hemail
        rw [hlogin] at hresult
        exact ⟨_, hresult⟩
      · exact absurd rfl (hnone a ha rfl)

/-- Ada signs up again with a space in front of her email. -/
def spacedCalls : List Rpc :=
  [.request ⟨⟨none⟩, accountEnv "1", .signup "ada@example.com" "correct horse"⟩,
    .request ⟨⟨none⟩, accountEnv "2", .signup " ada@example.com" "battery staple"⟩]

omit [TokenClaimsCodec] [HashOrder] [Argon2] [Lowercase] in
theorem one_account_spaced :
    letI := TokenClaimsCodec.protobuf
    letI := HashOrder.newestFirst
    letI := Argon2.salted
    letI := Lowercase.ascii
    letI app : AppState := { keyring := ⟨Tokens.sampleKey 0⟩ }
    ∃ s, Machine.run (rpc app) spacedCalls empty = some s ∧ ¬ OneAccount app spacedCalls s := by
  let _ := TokenClaimsCodec.protobuf
  let _ := HashOrder.newestFirst
  let _ := Argon2.salted
  let _ := Lowercase.ascii
  have hall : (Machine.run (rpc { keyring := ⟨Tokens.sampleKey 0⟩ }) spacedCalls empty).map
      (fun s => ((s.repo.users.lookup ⟨"u_1"⟩).map (·.email),
        (s.repo.users.lookup ⟨"u_2"⟩).map (·.email))) =
      some (some "ada@example.com", some " ada@example.com") := by decide +kernel
  obtain ⟨s, hs, heq⟩ := Option.map_eq_some_iff.mp hall
  obtain ⟨hfirst, hsecond⟩ := Prod.mk.inj heq
  obtain ⟨user, huser, hemail⟩ := Option.map_eq_some_iff.mp hfirst
  obtain ⟨user', huser', hemail'⟩ := Option.map_eq_some_iff.mp hsecond
  refine ⟨s, hs, fun h => ?_⟩
  have hlower : Lowercase.toLowercase (Text.trim user.email) =
      Lowercase.toLowercase (Text.trim user'.email) := by
    rw [hemail, hemail']
    decide +kernel
  exact absurd (h.unique ⟨"u_1"⟩ ⟨"u_2"⟩ user user' huser huser' hlower) (by decide)

omit [TokenClaimsCodec] [HashOrder] [Argon2] [Lowercase] in
/-- Without the space there is one account for the address. -/
theorem one_account_ada :
    letI := TokenClaimsCodec.protobuf
    letI := HashOrder.newestFirst
    letI := Argon2.salted
    letI := Lowercase.ascii
    letI app : AppState := { keyring := ⟨Tokens.sampleKey 0⟩ }
    ∃ s, Machine.run (rpc app) accountCalls empty = some s ∧ OneAccount app accountCalls s := by
  let _ := TokenClaimsCodec.protobuf
  let _ := HashOrder.newestFirst
  let _ := Argon2.salted
  let _ := Lowercase.ascii
  have hall : (Machine.run (rpc { keyring := ⟨Tokens.sampleKey 0⟩ }) accountCalls empty).isSome =
      true := by decide +kernel
  obtain ⟨s, hs⟩ := Option.isSome_iff_exists.mp hall
  refine ⟨s, hs, (one_account_iff _ Argon2.salted_faithful hs).mpr ?_⟩
  refine Machine.meets_iff.mpr fun before l after t heq _ ctx a hl _ => ?_
  have hmem : l ∈ accountCalls := heq ▸ List.mem_append_cons_self
  rw [hl] at hmem
  simp only [accountCalls, signupCall, List.mem_cons, List.not_mem_nil, or_false, Rpc.request.injEq,
    Call.mk.injEq, Request.signup.injEq, reduceCtorEq, false_or] at hmem
  rcases hmem with ⟨-, -, hemail, -⟩ | ⟨-, -, hemail, -⟩ <;> rw [hemail] <;> decide

end AdminServer

end EdgeReplica
