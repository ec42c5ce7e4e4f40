-- SUMMARY: Undisturbed sessions come to their end: no schedule is longer than the script, and none stops short of it.
import EdgeReplica.Sync.PullReplica
import EdgeReplica.Sync.PushReplica

/-!
# Termination

Every step of an undisturbed session sends a frame, takes one up, or is a turn of
the client in which it only looks at its socket, and of each there is a fixed number.
So all schedules of a session have the same length in the end, and however a session
has begun it can be brought there.
-/

namespace EdgeReplica

open Session (Label hello reply hashOf)

namespace Script

variable {C : Type} [Peer C] [Blake3] {script : Script C} {s s' : Session C}

/-! ## Steps that are never taken -/

/-- The server closes after its last frame, and then the client reads no more. -/
theorem Agrees.serverClosed_disabled (h : script.Agrees s) (ended : Bool) :
    s.step (.serverClosed ended) = none := by
  obtain ⟨consumed, received, hserver, hclient, -⟩ := h
  simp only [Session.step]
  split
  · next hend =>
    have hall := script.server_stopped hserver hend.2
    rw [hend.1, List.append_nil] at hall
    rw [script.client_done hclient hall, Option.map_none]
  · rfl

/-- The client returns after the server's last frame, and then the server has closed. -/
theorem Agrees.clientClosed_disabled (h : script.Agrees s) (nowMs : Int64) :
    s.step (.clientClosed nowMs) = none := by
  simp only [Session.step]
  split
  · next hend =>
    have hstop := (script.server_complete (h.of_over hend.1).1 rfl).2
    rw [hend.2] at hstop
    cases hstop
  · rfl

/-- When the client reads the server's last frame it has sent everything. -/
theorem sent_of_last {consumed rest received toClient : List SyncMessage} {msg : SyncMessage}
    {task : SessionTask InMemorySyncStorage}
    (h : script.ServerAt consumed (received ++ msg :: toClient) task)
    (hinitial : consumed ++ rest <+: script.clientFrames)
    (hall : received ++ [msg] = script.serverFrames) :
    consumed ++ rest = script.clientFrames := by
  refine sent_of_complete h hinitial ?_
  have hbegins : script.serverFrames <+: received ++ msg :: toClient :=
    ⟨toClient, by rw [← hall, List.append_assoc, List.singleton_append]⟩
  exact (script.server_prefix h).eq_of_length_le hbegins.length_le

/-! ## What is left to do -/

/-- How many turns the client will take in which it sends nothing. -/
structure Pace (script : Script C) where
  quiet : C → Nat
  advance {sent received client client' frames} (h : script.ClientAt sent received client)
    (hadv : Peer.advance client = some (client', frames)) :
    frames.length + quiet client = quiet client' + 1
  receive {sent received client client'} {msg : SyncMessage}
    (h : script.ClientAt sent received client) (hmsg : received ++ [msg] <+: script.serverFrames)
    (hlast : received ++ [msg] = script.serverFrames → sent = script.clientFrames)
    (hrecv : Peer.receive client (.binary (.ok msg)) = some client') : quiet client' = quiet client
  idle {sent received client} (h : script.ClientAt sent received client)
    (hover : Peer.isOver client = true) : quiet client = 0

/-- The frames that are still to be sent by the client, taken up by the server and
taken up by the client, and the client's quiet turns. -/
def Pace.left (pace : script.Pace) (s : Session C) : Nat :=
  (script.clientFrames.length - s.clientSent.length) +
    (script.clientFrames.length - (s.clientSent.length - s.toServer.length)) +
    (script.serverFrames.length - (s.server.sent.length - s.toClient.length)) +
    pace.quiet s.client

variable {pace : script.Pace}

theorem Pace.left_start {client : C} {direction : Direction} {pages : Pages} :
    pace.left (.start client direction pages) =
      2 * script.clientFrames.length + script.serverFrames.length + pace.quiet client := by
  show script.clientFrames.length - 0 + (script.clientFrames.length - (0 - 0)) +
    (script.serverFrames.length - (0 - 0)) + pace.quiet client = _
  omega

/-- Every step does one of these things, and undoes none. -/
theorem Agrees.left_step {label : Label} (h : script.Agrees s) (hlabel : label.Undisturbed)
    (hstep : s.step label = some s') : pace.left s = pace.left s' + 1 := by
  match label with
  | .client =>
    obtain ⟨consumed, received, hserver, hclient, hsent⟩ := h
    obtain ⟨⟨client, frames⟩, hadv, rfl⟩ := Option.map_eq_some_iff.mp hstep
    have hpace := pace.advance hclient hadv
    have hbegins := (Script.advance_isPrefix hclient hadv).length_le
    have hqueue := congrArg List.length hsent
    simp only [Pace.left, List.length_append] at hbegins hqueue ⊢
    omega
  | .deliver =>
    obtain ⟨consumed, received, hserver, hclient, hsent⟩ := h
    simp only [Session.step] at hstep
    split at hstep
    · simp at hstep
    · next msg toClient hqueue =>
      obtain ⟨client, hrecv, rfl⟩ := Option.map_eq_some_iff.mp hstep
      rw [hqueue] at hserver
      have hbegins := script.server_prefix hserver
      have hmsg : received ++ [msg] <+: script.serverFrames :=
        (List.prefix_append _ toClient).trans (by simpa using hbegins)
      have hlast : received ++ [msg] = script.serverFrames → s.clientSent = script.clientFrames :=
        fun hall => hsent.trans (sent_of_last hserver (hsent ▸ script.client_prefix hclient) hall)
      have hquiet := pace.receive hclient hmsg hlast hrecv
      have hframes := congrArg List.length (script.server_sent hserver)
      have hlen := hbegins.length_le
      simp only [Pace.left, hqueue, List.length_append, List.length_cons] at hframes hlen ⊢
      omega
  | .serve nowMs =>
    obtain ⟨consumed, received, hserver, hclient, hsent⟩ := h
    simp only [Session.step] at hstep
    split at hstep
    · simp at hstep
    · next msg toServer hqueue =>
      split at hstep
      · obtain rfl : _ = s' := by simpa using hstep
        rw [hqueue] at hsent
        have hmsg : consumed ++ [msg] <+: script.clientFrames := by
          refine (List.prefix_append (consumed ++ [msg]) toServer).trans ?_
          simpa [← hsent] using script.client_prefix hclient
        obtain ⟨more, hnew⟩ := script.server_step hserver hmsg nowMs
        have hnext := script.server_sent hnew
        have hold := script.server_sent hserver
        have hbegins := (script.client_prefix hclient).length_le
        have hlen := congrArg List.length hsent
        simp only [Pace.left, Session.serverStep, hqueue, hnext, hold, List.length_append,
          List.length_drop, List.length_cons] at hlen ⊢
        omega
      · simp at hstep
  | .serverClosed ended =>
    rw [h.serverClosed_disabled] at hstep
    cases hstep
  | .clientClosed nowMs =>
    rw [h.clientClosed_disabled] at hstep
    cases hstep

theorem Agrees.left_over (h : script.Agrees s) (hover : Peer.isOver s.client = true) :
    pace.left s = 0 := by
  obtain ⟨consumed, received, hserver, hclient, hsent⟩ := h
  obtain rfl := script.client_over hclient hover
  have hall : script.serverFrames ++ s.toClient = script.serverFrames :=
    (script.server_prefix hserver).eq_of_length_le (by simp)
  obtain ⟨rfl, -⟩ := script.server_complete hserver hall
  have hquiet := pace.idle hclient hover
  have hframes := congrArg List.length (script.server_sent hserver)
  have hlen := congrArg List.length hsent
  simp only [Pace.left, List.length_append] at hframes hlen ⊢
  omega

/-! ## The end of every schedule -/

/-- A session that is never stuck, and whose client is refused nothing, has schedules of one
length. -/
theorem terminates [script.Steady] (pace : script.Pace)
    (henabled : ∀ s, script.Agrees s → Peer.isOver s.client = false → s.Enabled)
    (h : script.Agrees s) {labels : List Label} (hlabels : ∀ label ∈ labels, label.Undisturbed)
    (hrun : Machine.run Session.step labels s = some s') :
    labels.length ≤ pace.left s ∧
    (Peer.isOver s'.client = true ↔ labels.length = pace.left s) ∧
    ∃ more t, (∀ label ∈ more, label.Undisturbed) ∧
      Machine.run Session.step more s' = some t ∧ Peer.isOver t.client = true := by
  have hkeeps : ∀ label : Label, label.Undisturbed → ∀ s s' : Session C, s.step label = some s' →
      script.Agrees s → script.Agrees s' ∧ pace.left s = pace.left s' + 1 :=
    fun label hlabel s s' hstep h => ⟨h.step hlabel hstep, h.left_step hlabel hstep⟩
  obtain ⟨h', hleft⟩ := Machine.run_counts hrun h
    fun label hmem => hkeeps label (hlabels label hmem)
  refine ⟨by omega, ⟨fun hover => ?_, fun hlen => ?_⟩, ?_⟩
  · rw [h'.left_over hover] at hleft
    omega
  · cases hover : Peer.isOver s'.client with
    | true => rfl
    | false =>
      obtain ⟨label, t, hlabel, hstep⟩ := henabled s' h' hover
      have hone : pace.left s' = pace.left t + 1 := h'.left_step hlabel hstep
      omega
  · refine Machine.exists_run_until hkeeps (fun s h hover => ?_) h'
    exact henabled s h (Bool.eq_false_iff.mpr hover)

end Script

/-! ## Push -/

/-- How many pages are still to be hashed. -/
def PageReader.pagesLeft (r : PageReader) : Nat := r.maxPage.toNat + 1 - r.nextPage.toNat

theorem PageReader.pagesLeft_after {db : Database} {i : Nat} (h : i ≤ db.pages.length) :
    (after db i).pagesLeft = db.pages.length - i := by
  have hbound := db.bounded
  rw [pagesLeft, after, db.toNat_maxPage, toNat_pageNo (by omega)]
  omega

namespace PushSession

variable [Blake3] {db : Database} {pages : Pages} {sent received : List SyncMessage}
  {client : PushClient}

/-- After each hash the client looks once whether something has arrived. -/
def quiet (c : PushClient) : Nat :=
  match c.phase with
  | .hello | .awaitReply | .hashing => c.reader.pagesLeft
  | .draining => c.reader.pagesLeft + 1
  | .serving | .finished .. | .failed _ => 0

theorem ClientAt.quiet_advance {client' : PushClient} {frames : List SyncMessage}
    (h : ClientAt db pages sent received client)
    (hadv : client.advance = some (client', frames)) :
    frames.length + quiet client = quiet client' + 1 := by
  cases h with
  | start =>
    obtain ⟨rfl, rfl⟩ : _ ∧ _ := by simpa [PushClient.advance, PushClient.new] using hadv
    exact Nat.add_comm 1 _
  | awaitReply => simp [PushClient.advance] at hadv
  | @hashing ks rest rs more phase hsplit hneeded hphase =>
    have hlen := congrArg List.length hsplit
    rw [db.length_pageNumbers, List.length_append] at hlen
    rcases hphase with rfl | rfl
    · cases rest with
      | nil =>
        obtain rfl : ks = db.pageNumbers := by simpa using hsplit.symm
        simp only [PushClient.advance, PageReader.nextHash_done] at hadv
        obtain ⟨rfl, rfl⟩ : _ ∧ _ := by simpa using hadv
        have hleft := PageReader.pagesLeft_after (Nat.le_of_eq db.length_pageNumbers)
        rw [db.length_pageNumbers, Nat.sub_self] at hleft
        simp only [quiet, List.length_singleton, db.length_pageNumbers, hleft]
      | cons p rest =>
        simp only [PushClient.advance, PageReader.nextHash_more hsplit] at hadv
        obtain ⟨rfl, rfl⟩ : _ ∧ _ := by simpa using hadv
        rw [List.length_cons] at hlen
        have hleft : (PageReader.after db ks.length).pagesLeft = db.pages.length - ks.length :=
          PageReader.pagesLeft_after (by omega)
        have hnext : (PageReader.after db (ks.length + 1)).pagesLeft =
          db.pages.length - (ks.length + 1) := PageReader.pagesLeft_after (by omega)
        simp only [quiet, List.length_singleton, hleft, hnext]
        omega
    · obtain ⟨rfl, rfl⟩ : _ ∧ _ := by simpa [PushClient.advance] using hadv
      exact Nat.zero_add _
  | @serving ds pending more hneeded =>
    cases pending with
    | nil => simp [PushClient.advance] at hadv
    | cons p pending =>
      have hmem : p ∈ db.pageNumbers := by
        have hp : p ∈ needed db pages := by simp [hneeded]
        exact (List.mem_filter.mp hp).1
      simp only [PushClient.advance, PageReader.readPage_of_mem hmem] at hadv
      obtain ⟨rfl, rfl⟩ : _ ∧ _ := by simpa using hadv
      rfl
  | finished => simp [PushClient.advance] at hadv

/-- What the client reads does not change how often it will look. -/
theorem ClientAt.quiet_receive {client' : PushClient} {msg : SyncMessage}
    (h : ClientAt db pages sent received client)
    (hmsg : received ++ [msg] <+: serverFrames db pages)
    (hlast : received ++ [msg] = serverFrames db pages → sent = clientFrames db pages)
    (hrecv : client.receive (.binary (.ok msg)) = some client') : quiet client' = quiet client := by
  cases h with
  | start => simp [PushClient.receive, PushClient.new] at hrecv
  | awaitReply =>
    obtain rfl : msg = reply pages := by simpa [serverFrames] using hmsg
    obtain rfl : _ = client' := by
      simpa [PushClient.receive, readReply, recv, reply, Except.bind, checkReply] using hrecv
    rfl
  | @hashing ks rest rs more phase hsplit hneeded hphase =>
    rcases hphase with rfl | rfl
    · simp [PushClient.receive] at hrecv
    · have hnext : [msg] <+: more.map .requestPage ++ [completion db pages] := by
        simpa [serverFrames, hneeded, List.prefix_append_right_inj] using hmsg
      cases more with
      | nil =>
        -- The server completes only after the client's `Complete`.
        obtain rfl : msg = completion db pages := by simpa using hnext
        have hall := hlast (by simp [serverFrames, hneeded])
        have hmem : SyncMessage.complete ∈ hello db :: ks.map (hashOf db) := by
          simp [hall, clientFrames]
        simp [hello, hashOf] at hmem
      | cons p more =>
        obtain rfl : msg = .requestPage p := by simpa using hnext
        obtain rfl : _ = client' := by simpa [PushClient.receive, PushClient.drainReady] using hrecv
        rfl
  | @serving ds pending more hneeded =>
    cases pending with
    | cons p pending => simp [PushClient.receive] at hrecv
    | nil =>
      have hnext : [msg] <+: more.map .requestPage ++ [completion db pages] := by
        simpa [serverFrames, hneeded, List.prefix_append_right_inj] using hmsg
      cases more with
      | nil =>
        obtain rfl : msg = completion db pages := by simpa using hnext
        obtain rfl : _ = client' := by
          simpa [PushClient.receive, recv, PushClient.drain, completion] using hrecv
        rfl
      | cons p more =>
        obtain rfl : msg = .requestPage p := by simpa using hnext
        obtain rfl : _ = client' := by
          simpa [PushClient.receive, recv, PushClient.drain] using hrecv
        rfl
  | finished => simp [PushClient.receive] at hrecv

theorem ClientAt.quiet_over (h : ClientAt db pages sent received client)
    (hover : client.isOver = true) : quiet client = 0 := by
  rw [quiet, h.finished_of_received (h.received_of_over hover)]

def pace (db : Database) (pages : Pages) : (script db pages).Pace where
  quiet := quiet
  advance h hadv := ClientAt.quiet_advance h hadv
  receive h hmsg hlast hrecv := ClientAt.quiet_receive h hmsg hlast hrecv
  idle h hover := ClientAt.quiet_over h hover

theorem left_start (db : Database) (pages : Pages) :
    (pace db pages).left (.start (.new db) .push pages) =
      3 * (db.pages.length + (needed db pages).length) + 6 := by
  have hquiet : (pace db pages).quiet (PushClient.new db) = db.pages.length :=
    PageReader.pagesLeft_after (Nat.zero_le _)
  have hclient : (script db pages).clientFrames.length =
      db.pages.length + (needed db pages).length + 2 := by
    show (clientFrames db pages).length = _
    simp only [clientFrames, List.length_cons, List.length_append, List.length_map,
      db.length_pageNumbers]
    omega
  have hserver : (script db pages).serverFrames.length = (needed db pages).length + 2 := by
    show (serverFrames db pages).length = _
    simp [serverFrames]
  rw [Script.Pace.left_start, hquiet, hclient, hserver]
  omega

theorem over_iff {s : Session PushClient} (h : (script db pages).Agrees s) :
    s.client.isOver = true ↔ ∃ pagesTransferred bytesTransferred,
      s.client.phase = .finished pagesTransferred bytesTransferred := by
  refine ⟨fun hover => ?_, fun ⟨_, _, hphase⟩ => by simp [PushClient.isOver, hphase]⟩
  exact ⟨_, _, ClientAt.finished_of_received (h.of_over hover).2.1 rfl⟩

/-- However an undisturbed push has begun, it can be brought to its end. -/
theorem can_finish (db : Database) (pages : Pages) {labels : List Label}
    (hlabels : ∀ label ∈ labels, label.Undisturbed) {s : Session PushClient}
    (hrun : Machine.run Session.step labels (.start (.new db) .push pages) = some s) :
    ∃ more t, (∀ label ∈ more, label.Undisturbed) ∧ Machine.run Session.step more s = some t ∧
      ∃ pagesTransferred bytesTransferred,
        t.client.phase = .finished pagesTransferred bytesTransferred := by
  have h := agrees_start db pages
  obtain ⟨-, -, more, t, hmore, hrun', hover⟩ :=
    Script.terminates (pace db pages) (fun _ h => enabled h) h hlabels hrun
  exact ⟨more, t, hmore, hrun', (over_iff ((h.run hlabels hrun).run hmore hrun')).mp hover⟩

/-- A push of `n` pages to a server that needs `k` of them is over after `3 (n + k) + 6`
steps, whatever the schedule, and is not over before. However it has begun, it can be
brought to its end. -/
theorem push_terminates (db : Database) (pages : Pages) {labels : List Label}
    (hlabels : ∀ label ∈ labels, label.Undisturbed) {s : Session PushClient}
    (hrun : Machine.run Session.step labels (.start (.new db) .push pages) = some s) :
    labels.length ≤ 3 * (db.pages.length + (needed db pages).length) + 6 ∧
    ((∃ pagesTransferred bytesTransferred,
        s.client.phase = .finished pagesTransferred bytesTransferred) ↔
      labels.length = 3 * (db.pages.length + (needed db pages).length) + 6) ∧
    ∃ more t, (∀ label ∈ more, label.Undisturbed) ∧ Machine.run Session.step more s = some t ∧
      ∃ pagesTransferred bytesTransferred,
        t.client.phase = .finished pagesTransferred bytesTransferred := by
  have h := agrees_start db pages
  obtain ⟨hlen, hover, -⟩ :=
    Script.terminates (pace db pages) (fun _ h => enabled h) h hlabels hrun
  rw [left_start] at hlen hover
  exact ⟨hlen, (over_iff (h.run hlabels hrun)).symm.trans hover, can_finish db pages hlabels hrun⟩

omit [Blake3] in
theorem push_terminates_sample :
    letI := Blake3.onSamples
    ∃ s, Machine.run Session.step samplePush (.start (PushClient.new sampleDatabase) .push ∅) =
        some s ∧
      samplePush.length =
        3 * (sampleDatabase.pages.length + (needed sampleDatabase ∅).length) + 6 := by
  let _ := Blake3.onSamples
  obtain ⟨s, hs, hphase, -⟩ := samplePush_finishes
  exact ⟨s, hs, (push_terminates sampleDatabase ∅ (by decide) hs).2.1.mp ⟨2, 2, hphase⟩⟩

end PushSession

/-! ## Pull -/

namespace PullSession

variable [Blake3] [Sqlite] {db : Database} {pages : Pages} {s : Session PullClient}

omit [Blake3] in
theorem receive_awaiting {c : PullClient} (h : c.phase = .awaitReply) (msg : SyncMessage) :
    ∃ c', c.receive (.binary (.ok msg)) = some c' := by
  simp only [PullClient.receive, h, readReply, recv, Option.map_some]
  cases (Except.ok msg).bind checkReply with
  | ok _ => exact ⟨_, rfl⟩
  | error e => exact ⟨_, rfl⟩

omit [Sqlite] in
/-- A server that has sent nothing waits for the first frame. -/
theorem ServerAt.of_silent {consumed : List SyncMessage} {task : SessionTask InMemorySyncStorage}
    (h : ServerAt db pages consumed [] task) : consumed = [] ∧ task.running = true := by
  generalize hemitted : ([] : List SyncMessage) = emitted at h
  cases h with
  | fresh => exact ⟨rfl, rfl⟩
  | hashing _ _ => simp at hemitted
  | done _ => simp [serverFrames] at hemitted

omit [Sqlite] in
/-- A server that has taken up all the client sends has sent everything. -/
theorem ServerAt.of_consumed {emitted : List SyncMessage} {task : SessionTask InMemorySyncStorage}
    (h : ServerAt db pages (clientFrames db) emitted task) : emitted = serverFrames db pages := by
  have hmem : SyncMessage.complete ∈ clientFrames db := by simp [clientFrames]
  generalize hconsumed : clientFrames db = consumed at h
  rw [hconsumed] at hmem
  cases h with
  | fresh => simp at hmem
  | hashing _ _ => simp [hello, hashOf] at hmem
  | done _ => rfl

/-- While the client has not returned, some step is enabled. -/
theorem enabled (h : (script db pages).Agrees s) (hover : s.client.isOver = false) : s.Enabled := by
  obtain ⟨consumed, received, hserver, hclient, hsent⟩ := h
  generalize hclientEq : s.client = client at hclient hover
  generalize hsentEq : s.clientSent = sent at hclient hsent
  cases hclient with
  | start => exact Session.enabled_client (by rw [hclientEq]; rfl)
  | awaitReply =>
    cases hqueue : s.toClient with
    | cons msg rest =>
      obtain ⟨client, hrecv⟩ := receive_awaiting
        (c := { PullClient.new db with phase := .awaitReply }) rfl msg
      exact Session.enabled_deliver hqueue (by rw [hclientEq]; exact hrecv)
    | nil =>
      rw [hqueue] at hserver
      obtain ⟨rfl, hrun⟩ := hserver.of_silent
      exact Session.enabled_serve hsent.symm hrun
  | @hashing ks rest hsplit =>
    cases rest with
    | nil =>
      obtain rfl : ks = db.pageNumbers := by simpa using hsplit.symm
      obtain ⟨client, hadv⟩ : ∃ client, (PullClient.mk (.after db db.pageNumbers.length)
          ⟨db, [], false⟩ 0 .hashing).advance = some (client, [.complete]) := by
        simp only [PullClient.advance, PageReader.nextHash_done]
        split
        · exact ⟨_, rfl⟩
        · exact ⟨_, rfl⟩
      exact Session.enabled_client (by rw [hclientEq]; exact hadv)
    | cons p rest =>
      have hadv : (PullClient.mk (.after db ks.length) ⟨db, [], false⟩ 0 .hashing).advance =
          some (⟨.after db (ks.length + 1), ⟨db, [], false⟩, 0, .hashing⟩, [hashOf db p]) := by
        simp [PullClient.advance, PageReader.nextHash_more hsplit, hashOf]
      exact Session.enabled_client (by rw [hclientEq]; exact hadv)
  | @receiving ps more hserved _ =>
    cases hqueue : s.toClient with
    | cons msg rest => exact Session.enabled_deliver hqueue (by rw [hclientEq]; rfl)
    | nil =>
      -- The server has not sent its last frame, so it has not taken up the client's.
      rw [hqueue, List.append_nil] at hserver
      have hless : reply pages :: ps.map (dataOf pages) ≠ serverFrames db pages := by
        intro hall
        have hmem : completion db pages ∈ serverFrames db pages := by simp [serverFrames]
        simp [← hall, completion, reply, dataOf] at hmem
      cases hqueue' : s.toServer with
      | cons msg rest =>
        refine Session.enabled_serve hqueue' ?_
        cases hrun : s.server.running with
        | true => rfl
        | false => exact absurd (hserver.of_stopped hrun) hless
      | nil =>
        rw [hqueue', List.append_nil] at hsent
        rw [← hsent] at hserver
        exact absurd hserver.of_consumed hless
  | finished _ _ => simp [PullClient.isOver] at hover

/-- Every turn of the client that is not a reading sends one frame. -/
theorem ClientAt.length_advance {sent received : List SyncMessage} {client client' : PullClient}
    {frames : List SyncMessage} (h : ClientAt db pages sent received client)
    (hadv : client.advance = some (client', frames)) : frames.length = 1 := by
  cases h with
  | start =>
    obtain ⟨-, rfl⟩ : _ ∧ _ := by simpa [PullClient.advance, PullClient.new] using hadv
    rfl
  | awaitReply => simp [PullClient.advance] at hadv
  | @hashing ks rest hsplit =>
    cases rest with
    | nil =>
      obtain rfl : ks = db.pageNumbers := by simpa using hsplit.symm
      simp only [PullClient.advance, PageReader.nextHash_done] at hadv
      split at hadv
      all_goals
        obtain ⟨-, rfl⟩ := Prod.mk.inj (Option.some.inj hadv)
        rfl
    | cons p rest =>
      simp only [PullClient.advance, PageReader.nextHash_more hsplit] at hadv
      obtain ⟨-, rfl⟩ : _ ∧ _ := by simpa using hadv
      rfl
  | receiving _ _ => simp [PullClient.advance] at hadv
  | finished _ _ => simp [PullClient.advance] at hadv

def pace (db : Database) (pages : Pages) : (script db pages).Pace where
  quiet _ := 0
  advance h hadv := by rw [ClientAt.length_advance h hadv]
  receive _ _ _ _ := rfl
  idle _ _ := rfl

theorem left_start (db : Database) (pages : Pages) :
    (pace db pages).left (.start (.new db) .pull pages) =
      2 * db.pages.length + (served db pages).length + 6 := by
  have hclient : (script db pages).clientFrames.length = db.pages.length + 2 := by
    show (clientFrames db).length = _
    simp [clientFrames, db.length_pageNumbers]
  have hserver : (script db pages).serverFrames.length = (served db pages).length + 2 := by
    show (serverFrames db pages).length = _
    simp [serverFrames]
  rw [Script.Pace.left_start, hclient, hserver]
  show _ + _ + 0 = _
  omega

/-- A pull by a client of `n` pages to which the server sends `k`, which SQLite accepts, is
over after `2 n + k + 6` steps, whatever the schedule, and is not over before. However it
has begun, it can be brought to its end. -/
theorem pull_terminates (db : Database) (pages : Pages)
    (haccepts : Sqlite.Accepts db (rows db pages)) {labels : List Label}
    (hlabels : ∀ label ∈ labels, label.Undisturbed) {s : Session PullClient}
    (hrun : Machine.run Session.step labels (.start (.new db) .pull pages) = some s) :
    labels.length ≤ 2 * db.pages.length + (served db pages).length + 6 ∧
    ((∃ pagesTransferred bytesTransferred,
        s.client.phase = .finished pagesTransferred bytesTransferred) ↔
      labels.length = 2 * db.pages.length + (served db pages).length + 6) ∧
    ∃ more t, (∀ label ∈ more, label.Undisturbed) ∧ Machine.run Session.step more s = some t ∧
      ∃ pagesTransferred bytesTransferred,
        t.client.phase = .finished pagesTransferred bytesTransferred := by
  have hsteady := steady haccepts
  have hfinished : ∀ {s : Session PullClient}, (script db pages).Agrees s →
      (s.client.isOver = true ↔ ∃ pagesTransferred bytesTransferred,
        s.client.phase = .finished pagesTransferred bytesTransferred) := by
    intro s h
    refine ⟨fun hover => ?_, fun ⟨_, _, hphase⟩ => by simp [PullClient.isOver, hphase]⟩
    exact ⟨_, _, (ClientAt.finished_of_received (h.of_over hover).2.1 rfl).1⟩
  have h := agrees_start db pages
  obtain ⟨hlen, hover, more, t, hmore, hrun', hend⟩ :=
    Script.terminates (pace db pages) (fun _ h => enabled h) h hlabels hrun
  rw [left_start] at hlen hover
  refine ⟨hlen, (hfinished (h.run hlabels hrun)).symm.trans hover, more, t, hmore, hrun', ?_⟩
  exact (hfinished ((h.run hlabels hrun).run hmore hrun')).mp hend

omit [Blake3] [Sqlite] in
theorem pull_terminates_sample :
    letI := Blake3.onPages
    letI := Sqlite.dbpage
    ∃ s, Machine.run Session.step samplePull
        (.start (PullClient.new Sqlite.onePage) .pull sampleStore) = some s ∧
      samplePull.length =
        2 * Sqlite.onePage.pages.length + (served Sqlite.onePage sampleStore).length + 6 := by
  let _ := Blake3.onPages
  let _ := Sqlite.dbpage
  obtain ⟨s, hs, hphase⟩ := samplePull_finishes
  have haccepts : Sqlite.Accepts Sqlite.onePage (rows Sqlite.onePage sampleStore) :=
    ⟨by unfold Sqlite.Takes; decide +kernel, by decide +kernel⟩
  exact ⟨s, hs, (pull_terminates Sqlite.onePage sampleStore haccepts (by decide) hs).2.1.mp
    ⟨2, 1024, hphase⟩⟩

end PullSession

end EdgeReplica
