-- SUMMARY: From any reachable state of the deployment, a session that is opened does what the session over the pages in memory does.
import EdgeReplica.Worker.Deployment
import EdgeReplica.Worker.DoSession

/-!
# Sessions of a deployment

However a database came to its rows, and whatever failed on the way: once it raises no more
faults, a client that is let in talks to the state machine over those rows. What is known
of sessions over pages in memory holds for it.
-/

namespace EdgeReplica

open DoMigrations (Quiet)
open Sql (ScanOrder)

theorem SessionTask.withStorage_withStorage {σ : Type} (task : SessionTask σ) :
    (task.withStorage ()).withStorage task.world.storage = task := rfl

namespace Deployment

variable {ι : Type}

/-- The turns in which a connection takes these events. -/
def frames (database : DatabaseId) (i : ι) (events : List (Int64 × WebsocketEvent)) :
    List (Turn ι) :=
  events.map fun (nowMs, event) => .frame database i nowMs event

variable [DecidableEq ι] [TokenClaimsCodec] [ScanOrder] [Argon2] [Blake3]
  {site : Worker.Site} {d : Deployment ι} {database : DatabaseId} {i : ι}

/-! ## Turns of a connection -/

/-- A running connection takes an event as its session does. -/
theorem step_frame (site : Worker.Site) {c : Connection} (hi : d.connections database i = some c)
    (hrunning : c.task.running = true) (nowMs : Int64) (event : WebsocketEvent) :
    ∃ d' c', step site (.frame database i nowMs event) d = some d' ∧
      d'.connections database i = some c' ∧
      c'.task.withStorage (d'.objects database).sql =
        ScanSession.step (c.task.withStorage (d.objects database).sql) nowMs event := by
  let next := ScanSession.step (c.task.withStorage (d.objects database).sql) nowMs event
  let c' : Connection := { c with
    arrived := c.arrived ++ event.entries
    task := next.withStorage () }
  let d' : Deployment ι := { d with
    objects := Function.update d.objects database
      { d.objects database with sql := next.world.storage }
    connections := Function.update d.connections database
      (Function.update (d.connections database) i (some c')) }
  refine ⟨d', c', ?_, by simp only [d', Function.update_self], ?_⟩
  · simp only [step, hi, hrunning, if_true]
    rfl
  · simp only [d', Function.update_self]
    exact next.withStorage_withStorage

/-- A connection takes events as its session does, until that stops. -/
theorem run_frames (events : List (Int64 × WebsocketEvent)) {c : Connection}
    (hi : d.connections database i = some c) :
    ∃ consumed d' c', consumed <+: events ∧
      Machine.run (step site) (frames database i consumed) d = some d' ∧
      d'.connections database i = some c' ∧ (consumed ≠ events → c'.task.running = false) ∧
      c'.task.withStorage (d'.objects database).sql =
        ScanSession.run (c.task.withStorage (d.objects database).sql) events := by
  induction events generalizing d c with
  | nil => exact ⟨[], d, c, List.nil_prefix, rfl, hi, fun h => absurd rfl h, rfl⟩
  | cons event events ih =>
    obtain ⟨nowMs, event⟩ := event
    have hsame : (c.task.withStorage (d.objects database).sql).running = c.task.running := rfl
    cases hrunning : c.task.running with
    | false =>
      refine ⟨[], d, c, List.nil_prefix, rfl, hi, fun _ => hrunning, ?_⟩
      rw [ScanSession.run, hsame, hrunning]
      rfl
    | true =>
      obtain ⟨d₁, c₁, hstep, hi₁, htask₁⟩ := step_frame site hi hrunning nowMs event
      obtain ⟨consumed, d', c', hbegins, hrun, hi', hrest, htask⟩ := ih hi₁
      refine ⟨(nowMs, event) :: consumed, d', c', (List.prefix_cons_inj _).mpr hbegins, ?_, hi',
        fun hne => hrest fun heq => hne (by rw [heq]), ?_⟩
      · rw [frames, List.map_cons, Machine.run_cons, hstep]
        exact hrun
      · rw [htask, htask₁, ScanSession.run, hsame, hrunning, if_pos rfl]

/-- On a database without more faults, an upgrade opens a session over its rows. -/
theorem step_upgrade (hinv : Inv site d) (hquiet : Quiet (d.objects database).sql)
    {moment : Worker.Moment} {req : Worker.HttpRequest} {direction : Direction}
    {refuses : Nat → Bool} (hupgrade : Worker.Upgrade site moment req database direction refuses)
    (hfree : d.connections database i = none) :
    ∃ d' c, step site (.request i moment req) d = some d' ∧
      d'.connections database i = some c ∧ SqlStorage.InOrder (d'.objects database).sql ∧
      (d'.objects database).sql.rows = (d.objects database).sql.rows ∧
      c.task.withStorage (d'.objects database).sql =
        .spawn direction (d'.objects database).sql refuses := by
  obtain ⟨self', hfetch, hquiet'⟩ := Worker.fetch_of_upgrade hupgrade (hinv database).keyring
    hquiet
  let task : SessionTask SqlStorage := .spawn direction self'.sql refuses
  let c : Connection := { token := req.head.token site.platform, task := task.withStorage () }
  let d' : Deployment ι := { d with
    objects := Function.update d.objects database self'
    connections := Function.update d.connections database
      (Function.update (d.connections database) i (some c)) }
  have hopened : opened (req.head.token site.platform) i (some (database, task)) d.connections =
      some d'.connections := by
    simp only [opened, hfree]
    rfl
  have hstep : step site (.request i moment req) d = some d' := by
    simp only [step, hfetch, hopened, task]
    rfl
  have houtcome := Worker.fetch_outcome site moment req fun database => (hinv database).ready
  rw [hfetch] at houtcome
  obtain ⟨hkept, -, hopens⟩ := houtcome
  have hrows := (hkept database).rows
  have hmigrated := (hopens database task rfl).migrated
  have hself : d'.objects database = self' := Function.update_self ..
  simp only [Function.update_self] at hrows hmigrated
  refine ⟨d', c, hstep, by simp only [d', Function.update_self], ?_, ?_, ?_⟩
  · rw [hself]
    exact SqlStorage.inOrder_of_migrated hmigrated hquiet'
  · rw [hself]
    exact hrows
  · rw [hself]
    exact task.withStorage_withStorage

/-- Whatever has become of a deployment, an upgrade that a database without more faults has
no reason to refuse opens a session. It takes what the client sends as the session over the
pages in memory would that starts from the pages of the database: it sends the same frames,
closes alike, and leaves the same pages. -/
theorem deployed_session (site : Worker.Site) (faults : DatabaseId → Nat → Option String)
    {turns : List (Turn ι)} (hrun : Machine.run (step site) turns (new site faults) = some d)
    (hquiet : Quiet (d.objects database).sql) {moment : Worker.Moment} {req : Worker.HttpRequest}
    {direction : Direction} {refuses : Nat → Bool}
    (hupgrade : Worker.Upgrade site moment req database direction refuses)
    (hfree : d.connections database i = none) (events : List (Int64 × WebsocketEvent)) :
    let memory := (SessionTask.spawn direction (PageStore.pages (d.objects database).sql)
      refuses).run events
    ∃ consumed d' c, consumed <+: events ∧
      Machine.run (step site) (.request i moment req :: frames database i consumed) d = some d' ∧
      d'.connections database i = some c ∧ (consumed ≠ events → memory.running = false) ∧
      c.task.sent = memory.sent ∧ c.task.running = memory.running ∧
      c.task.closed = memory.closed ∧
      PageStore.pages (d'.objects database).sql = memory.world.storage := by
  intro memory
  obtain ⟨d₁, c₁, hstep, hi₁, horder, hrows, htask₁⟩ := step_upgrade (inv_of_run site faults hrun)
    hquiet hupgrade hfree
  obtain ⟨consumed, d', c, hbegins, hframes, hi, hrest, htask⟩ := run_frames events hi₁
  have hview : ((c.task.withStorage (d'.objects database).sql).mapStorage SqlStorage.rows).view =
      memory := by
    rw [htask, htask₁, SqlStorage.view_run horder, hrows]
    rfl
  refine ⟨consumed, d', c, hbegins, ?_, hi, fun hne => ?_, ?_⟩
  · rw [Machine.run_cons, hstep]
    exact hframes
  · rw [← hview]
    exact hrest hne
  · rw [← hview]
    exact ⟨rfl, rfl, rfl, rfl⟩

omit [DecidableEq ι] [TokenClaimsCodec] [ScanOrder] [Argon2] [Blake3]

theorem sample_upgrade :
    letI := TokenClaimsCodec.protobuf
    Worker.Upgrade sampleSite sampleMoment sampleSync ⟨"d_1"⟩ .push fun _ => false := by
  let _ := TokenClaimsCodec.protobuf
  have htext : sampleUpgrade.bearer = some "t" := by decide +kernel
  have htoken : sampleUpgrade.token sampleSite.platform =
      some (.ok (Tokens.mintSync ⟨Tokens.sampleKey 0⟩ sampleUpgradeInput)) := by
    rw [Request.token, htext]
    rfl
  have hverify : Tokens.verifySync ⟨Tokens.sampleKey 0⟩ 100
      (.ok (Tokens.mintSync ⟨Tokens.sampleKey 0⟩ sampleUpgradeInput)) =
      .ok ⟨⟨"u_1"⟩, ⟨"o_1"⟩, ⟨"d_1"⟩, .push, 3600⟩ := by decide +kernel
  exact ⟨rfl, rfl, by decide +kernel, ⟨_, _, ⟨htoken, hverify⟩, rfl⟩,
    ⟨_, _, ⟨htoken, hverify⟩, rfl⟩, rfl, rfl⟩

theorem deployed_session_sample :
    letI := TokenClaimsCodec.protobuf
    letI := ScanOrder.oldestFirst
    letI := Argon2.readable
    letI := Blake3.onSamples
    ∃ (d : Deployment Nat) (c : Connection), d.connections ⟨"d_1"⟩ 0 = some c ∧
      c.task.sent = [.helloReply 1 4096 0, .requestPage 7, .syncComplete 1 1] := by
  let _ := TokenClaimsCodec.protobuf
  let _ := ScanOrder.oldestFirst
  let _ := Argon2.readable
  let _ := Blake3.onSamples
  have hrun : Machine.run (step sampleSite) ([] : List (Turn Nat))
      (new sampleSite fun _ _ => none) = some (new sampleSite fun _ _ => none) := rfl
  obtain ⟨consumed, d, c, -, -, hc, -, hsent, -⟩ := deployed_session sampleSite (fun _ _ => none)
    hrun (fun _ _ => rfl) sample_upgrade (i := 0) rfl SqlStorage.samplePush
  refine ⟨d, c, hc, hsent.trans ?_⟩
  decide +kernel

end Deployment

end EdgeReplica
