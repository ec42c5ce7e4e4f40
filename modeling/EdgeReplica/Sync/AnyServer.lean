-- SUMMARY: The clients against any server: what they send, write and report whatever the socket yields.
import EdgeReplica.Sync.PageSize
import EdgeReplica.Sync.PullReplica
import EdgeReplica.Sync.PushReplica

/-!
# Clients of any server

The server need not be ours, and the connection may be lost. A client then still says
nothing but its own pages to those who asked for them, in the order they were asked for,
and reports success only to a server that said so after everything was answered.
-/

namespace EdgeReplica

open Session (hello hashOf)

/-- The pages that a message asks for. -/
def SyncMessage.wanted : SyncMessage → List UInt32
  | .requestPage pageNo => [pageNo]
  | .requestPages pageNumbers => pageNumbers
  | _ => []

/-- The message that is read in a turn. -/
def Turn.heard : Turn → List SyncMessage
  | .receive (.binary (.ok msg)) => [msg]
  | _ => []

/-- The messages read so far. -/
def heardIn (turns : List Turn) : List SyncMessage := turns.flatMap Turn.heard

/-- The pages asked for so far. -/
def asked (turns : List Turn) : List UInt32 := (heardIn turns).flatMap SyncMessage.wanted

/-- The pages received so far. -/
def received (turns : List Turn) : List PageDataEntry := (heardIn turns).flatMap SyncMessage.entries

section

variable (turns : List Turn) (turn : Turn)

theorem heardIn_concat : heardIn (turns ++ [turn]) = heardIn turns ++ turn.heard := by
  simp [heardIn]

theorem asked_concat :
    asked (turns ++ [turn]) = asked turns ++ turn.heard.flatMap SyncMessage.wanted := by
  simp [asked, heardIn_concat]

theorem received_concat :
    received (turns ++ [turn]) = received turns ++ turn.heard.flatMap SyncMessage.entries := by
  simp [received, heardIn_concat]

end

/-! ## What was read -/

theorem recv_none {incoming : Incoming} (h : recv incoming = none) : incoming = .ping := by
  match incoming with
  | .ping => rfl
  | .binary (.ok _) | .binary (.error _) | .text _ | .close _ | .error | .ended => cases h

theorem recv_ok {incoming : Incoming} {msg : SyncMessage} (h : recv incoming = some (.ok msg)) :
    incoming = .binary (.ok msg) := by
  match incoming with
  | .binary (.ok _) =>
    obtain rfl := Except.ok.inj (Option.some.inj h)
    rfl
  | .binary (.error _) | .text _ | .close _ | .error | .ended => cases Option.some.inj h

theorem readReply_none {incoming : Incoming} (h : readReply incoming = none) :
    incoming = .ping := recv_none (Option.map_eq_none_iff.mp h)

theorem readReply_ok {incoming : Incoming} (h : readReply incoming = some (.ok ())) :
    ∃ pageSize maxPage,
      incoming = .binary (.ok (.helloReply HANDSHAKE_VERSION pageSize maxPage)) := by
  obtain ⟨frame, hrecv, hcheck⟩ := Option.map_eq_some_iff.mp h
  cases frame with
  | error e => cases hcheck
  | ok msg =>
    rw [recv_ok hrecv]
    cases msg with
    | helloReply version pageSize maxPage =>
      have hversion : version = HANDSHAKE_VERSION := by
        by_contra hne
        simp [Except.bind, checkReply, hne] at hcheck
      exact ⟨pageSize, maxPage, by rw [hversion]⟩
    | _ => cases hcheck

/-! ## Push -/

namespace PushClient

variable [Blake3] {db : Database} {s s' : PushClient × List SyncMessage} {turns : List Turn}

/-- All that a push of `db` says to a server that asks for the pages `ps`. -/
def transcript (db : Database) (ps : List UInt32) : List SyncMessage :=
  hello db :: (db.pageNumbers.map (hashOf db) ++ .complete :: ps.map (PushSession.dataOf db))

theorem transcript_append (ps qs : List UInt32) :
    transcript db (ps ++ qs) = transcript db ps ++ qs.map (PushSession.dataOf db) := by
  simp [transcript]

/-- What the client says before it serves pages. -/
theorem hashes_isPrefix {ks rest : List UInt32} (hsplit : db.pageNumbers = ks ++ rest)
    (ps : List UInt32) : hello db :: ks.map (hashOf db) <+: transcript db ps := by
  refine List.prefix_cons_inj _ |>.mpr ?_
  rw [hsplit, List.map_append, List.append_assoc]
  exact List.prefix_append _ _

/-- What was said is the beginning of an answer to the first of the requests. -/
def Answers (db : Database) (turns : List Turn) (sent : List SyncMessage) : Prop :=
  ∃ served, served <+: asked turns ∧ (∀ p ∈ served, p ∈ db.pageNumbers) ∧
    sent <+: transcript db served

theorem Answers.concat {sent : List SyncMessage} (h : Answers db turns sent) (turn : Turn) :
    Answers db (turns ++ [turn]) sent := by
  obtain ⟨served, hserved, hmem, hsent⟩ := h
  refine ⟨served, hserved.trans ?_, hmem, hsent⟩
  rw [asked_concat]
  exact List.prefix_append _ _

/-- Where a client stands, and what it has said. -/
inductive Standing (db : Database) (turns : List Turn) : PushClient × List SyncMessage → Prop
  | start (hasked : asked turns = []) : Standing db turns (.new db, [])
  | awaitReply (hasked : asked turns = []) :
      Standing db turns ({ PushClient.new db with phase := .awaitReply }, [hello db])
  | hashing {ks rest : List UInt32} {phase : PushPhase} (hsplit : db.pageNumbers = ks ++ rest)
      (hphase : phase = .hashing ∨ phase = .draining) :
      Standing db turns (⟨.after db ks.length, asked turns, phase⟩, hello db :: ks.map (hashOf db))
  | serving {ds pending : List UInt32} (hasked : asked turns = ds ++ pending)
      (hds : ∀ p ∈ ds, p ∈ db.pageNumbers) :
      Standing db turns (⟨.after db db.pageNumbers.length, pending, .serving⟩, transcript db ds)
  | finished {pagesTransferred bytesTransferred : UInt64}
      (hds : ∀ p ∈ asked turns, p ∈ db.pageNumbers)
      (hlast : (heardIn turns).getLast? = some (.syncComplete pagesTransferred bytesTransferred)) :
      Standing db turns
        (⟨.after db db.pageNumbers.length, [], .finished pagesTransferred bytesTransferred⟩,
          transcript db (asked turns))
  | failed {c : PushClient} {sent : List SyncMessage} {error : ClientError}
      (hphase : c.phase = .failed error) (hsent : Answers db turns sent) :
      Standing db turns (c, sent)

theorem Standing.answers (h : Standing db turns s) : Answers db turns s.2 := by
  cases h with
  | start _ => exact ⟨[], List.nil_prefix, nofun, List.nil_prefix⟩
  | awaitReply _ => exact ⟨[], List.nil_prefix, nofun, List.prefix_append [hello db] _⟩
  | hashing hsplit _ => exact ⟨[], List.nil_prefix, nofun, hashes_isPrefix hsplit []⟩
  | @serving ds pending hasked hds =>
    exact ⟨ds, hasked ▸ List.prefix_append _ _, hds, List.prefix_refl _⟩
  | finished hds _ => exact ⟨asked turns, List.prefix_refl _, hds, List.prefix_refl _⟩
  | failed _ hsent => exact hsent

theorem Standing.finishes (h : Standing db turns s) {pagesTransferred bytesTransferred : UInt64}
    (hphase : s.1.phase = .finished pagesTransferred bytesTransferred) :
    s.2 = transcript db (asked turns) ∧ (∀ p ∈ asked turns, p ∈ db.pageNumbers) ∧
      (heardIn turns).getLast? = some (.syncComplete pagesTransferred bytesTransferred) := by
  cases h with
  | finished hds hlast =>
    obtain ⟨rfl, rfl⟩ := PushPhase.finished.inj hphase
    exact ⟨rfl, hds, hlast⟩
  | hashing _ hphases => rcases hphases with rfl | rfl <;> cases hphase
  | failed hfailed _ => exact absurd (hfailed.symm.trans hphase) (by simp)
  | _ => cases hphase

omit [Blake3] in
theorem asked_advance : asked (turns ++ [.advance]) = asked turns := by
  rw [asked_concat]
  exact List.append_nil _

theorem Standing.advance {c' : PushClient} {frames : List SyncMessage} (h : Standing db turns s)
    (hadv : s.1.advance = some (c', frames)) :
    Standing db (turns ++ [.advance]) (c', s.2 ++ frames) := by
  have hsame : asked (turns ++ [.advance]) = asked turns := asked_advance
  cases h with
  | start hasked =>
    obtain ⟨rfl, rfl⟩ : _ ∧ _ := by simpa [PushClient.advance, PushClient.new] using hadv
    exact .awaitReply (hsame.trans hasked)
  | awaitReply _ => simp [PushClient.advance] at hadv
  | @hashing ks rest phase hsplit hphase =>
    rcases hphase with rfl | rfl
    · cases rest with
      | nil =>
        obtain rfl : ks = db.pageNumbers := by simpa using hsplit.symm
        simp only [PushClient.advance, PageReader.nextHash_done] at hadv
        obtain ⟨rfl, rfl⟩ : _ ∧ _ := by simpa using hadv
        exact .serving (List.nil_append _ ▸ hsame) (fun _ hp => absurd hp List.not_mem_nil)
      | cons p rest =>
        simp only [PushClient.advance, PageReader.nextHash_more hsplit] at hadv
        obtain ⟨rfl, rfl⟩ : _ ∧ _ := by simpa using hadv
        have hnew := @Standing.hashing _ db (turns ++ [.advance]) (ks ++ [p]) rest .draining
          (by simpa using hsplit) (.inr rfl)
        simpa [hashOf, hsame] using hnew
    · obtain ⟨rfl, rfl⟩ : _ ∧ _ := by simpa [PushClient.advance] using hadv
      rw [List.append_nil, ← hsame]
      exact .hashing hsplit (.inl rfl)
  | @serving ds pending hasked hds =>
    cases pending with
    | nil => simp [PushClient.advance] at hadv
    | cons p pending =>
      by_cases hmem : p ∈ db.pageNumbers
      · simp only [PushClient.advance, PageReader.readPage_of_mem hmem] at hadv
        obtain ⟨rfl, rfl⟩ : _ ∧ _ := by simpa using hadv
        have hnew := @Standing.serving _ db (turns ++ [.advance]) (ds ++ [p]) pending
          (by simp [hsame, hasked]) (List.forall_mem_append.mpr ⟨hds, by simpa using hmem⟩)
        rwa [transcript_append] at hnew
      · have hread : (PageReader.after db db.pageNumbers.length).readPage p =
            .error (.readPage p) := by
          unfold PageReader.readPage
          rw [show (PageReader.after db db.pageNumbers.length).conn.table p = none from
            db.table_of_notMem hmem]
        simp only [PushClient.advance, hread] at hadv
        obtain ⟨rfl, rfl⟩ : _ ∧ _ := by simpa using hadv
        rw [List.append_nil]
        exact .failed rfl (Standing.answers (.serving hasked hds) |>.concat _)
  | finished _ _ => simp [PushClient.advance] at hadv
  | failed hphase _ => simp [PushClient.advance, hphase] at hadv

/-- A failure on what was read. -/
theorem Standing.fails (h : Standing db turns s) (turn : Turn) (error : ClientError) :
    Standing db (turns ++ [turn]) (s.1.fail error, s.2) :=
  .failed rfl (h.answers.concat turn)

theorem Standing.receive {c' : PushClient} {incoming : Incoming} (h : Standing db turns s)
    (hrecv : s.1.receive incoming = some c') :
    Standing db (turns ++ [.receive incoming]) (c', s.2) := by
  have hafter := asked_concat turns (.receive incoming)
  have hfails := h.fails (.receive incoming)
  cases h with
  | start _ => simp [PushClient.receive, PushClient.new] at hrecv
  | awaitReply hasked =>
    rw [hasked, List.nil_append] at hafter
    simp only [PushClient.receive] at hrecv
    split at hrecv
    · next hping =>
      obtain rfl := Option.some.inj hrecv
      obtain rfl := readReply_none hping
      exact .awaitReply hafter
    · obtain rfl := Option.some.inj hrecv
      exact hfails _
    · next hreply =>
      obtain rfl := Option.some.inj hrecv
      obtain ⟨pageSize, maxPage, rfl⟩ := readReply_ok hreply
      have hnew := @Standing.hashing _ db (turns ++ [.receive (.binary (.ok (.helloReply
        HANDSHAKE_VERSION pageSize maxPage)))]) [] db.pageNumbers .hashing rfl (.inl rfl)
      rwa [hafter] at hnew
  | @hashing ks rest phase hsplit hphase =>
    rcases hphase with rfl | rfl
    · simp [PushClient.receive] at hrecv
    · obtain rfl : _ = c' := Option.some.inj hrecv
      have hmore := @Standing.hashing _ db (turns ++ [.receive incoming]) ks rest .draining hsplit
        (.inr rfl)
      rw [hafter] at hmore
      cases incoming with
      | text _ => simpa [Turn.heard, drainReady] using hmore
      | ping => simpa [Turn.heard, drainReady] using hmore
      | close _ => simpa [Turn.heard, drainReady] using hmore
      | error => exact hfails _
      | ended => exact hfails _
      | binary frame =>
        cases frame with
        | error _ => exact hfails _
        | ok msg =>
          cases msg with
          | requestPage _ => exact hmore
          | requestPages _ => simpa [Turn.heard, SyncMessage.wanted, drainReady] using hmore
          | _ => exact hfails _
  | @serving ds pending hasked hds =>
    cases pending with
    | cons p pending => simp [PushClient.receive] at hrecv
    | nil =>
      rw [List.append_nil] at hasked
      subst hasked
      simp only [PushClient.receive, ne_eq, not_true_eq_false, if_false] at hrecv
      split at hrecv
      · next hping =>
        obtain rfl := Option.some.inj hrecv
        obtain rfl := recv_none hping
        exact .serving hafter hds
      · obtain rfl := Option.some.inj hrecv
        exact hfails _
      · next msg hmsg =>
        obtain rfl := Option.some.inj hrecv
        obtain rfl := recv_ok hmsg
        cases msg with
        | requestPage p => exact .serving hafter hds
        | requestPages ps =>
          exact .serving (by simpa [Turn.heard, SyncMessage.wanted] using hafter) hds
        | syncComplete pagesTransferred bytesTransferred =>
          have hsame : asked (turns ++ [.receive (.binary (.ok (.syncComplete pagesTransferred
              bytesTransferred)))]) = asked turns := hafter.trans (List.append_nil _)
          have hnew := @Standing.finished _ db _ pagesTransferred bytesTransferred
            (hsame.symm ▸ hds) (by rw [heardIn_concat]; exact List.getLast?_concat)
          rwa [hsame] at hnew
        | _ => exact hfails _
  | finished _ _ => simp [PushClient.receive] at hrecv
  | failed hphase _ => simp [PushClient.receive, hphase] at hrecv

theorem Standing.lose (h : Standing db turns s) :
    Standing db (turns ++ [.lose]) (Peer.lose s.1, s.2) := by
  have hlose : (Peer.lose s.1 : PushClient) = if s.1.isOver then s.1 else s.1.fail .send := rfl
  rw [hlose]
  split
  · next hover =>
    have hasked : asked (turns ++ [.lose]) = asked turns :=
      (asked_concat _ _).trans (List.append_nil _)
    have hheard : heardIn (turns ++ [.lose]) = heardIn turns :=
      (heardIn_concat _ _).trans (List.append_nil _)
    cases h with
    | finished hds hlast =>
      have hnew := Standing.finished (hasked.symm ▸ hds) (hheard.symm ▸ hlast)
      rwa [hasked] at hnew
    | failed hphase hsent => exact .failed hphase (hsent.concat _)
    | hashing _ hphase => rcases hphase with rfl | rfl <;> cases hover
    | _ => cases hover
  · exact h.fails _ _

theorem Standing.take {turn : Turn} (h : Standing db turns s) (hstep : turn.take s = some s') :
    Standing db (turns ++ [turn]) s' := by
  cases turn with
  | advance =>
    obtain ⟨next, hadvance, rfl⟩ := Option.map_eq_some_iff.mp hstep
    exact h.advance hadvance
  | receive incoming =>
    obtain ⟨next, hreceive, rfl⟩ := Option.map_eq_some_iff.mp hstep
    exact h.receive hreceive
  | lose =>
    obtain rfl := Option.some.inj hstep
    exact h.lose

theorem standing_of_run (hrun : Machine.run Turn.take turns (PushClient.new db, []) = some s) :
    Standing db turns s :=
  Machine.run_traces hrun (I := Standing db) (.start rfl) fun _ _ _ _ hstep h => h.take hstep

/-! ### A server that keeps to the protocol -/

/-- The connection holds, the client waits for what it reads, and it has the pages it is
asked for. -/
def Fair (db : Database) (s : PushClient × List SyncMessage) : Turn → Prop
  | .advance => True
  | .receive incoming => Session.isFault s.1 incoming = false ∧
      ∀ msg ∈ (Turn.receive incoming).heard, ∀ p ∈ msg.wanted, p ∈ db.pageNumbers
  | .lose => False

/-- The client has no reason to fail. -/
structure Sound (db : Database) (c : PushClient) : Prop where
  reader : ∃ ks rest, db.pageNumbers = ks ++ rest ∧ c.reader = .after db ks.length
  pending : ∀ p ∈ c.pending, p ∈ db.pageNumbers
  running : ∀ error, c.phase ≠ .failed error

theorem Sound.advance {c c' : PushClient} {frames : List SyncMessage} (h : Sound db c)
    (hadv : c.advance = some (c', frames)) : Sound db c' := by
  obtain ⟨⟨ks, rest, hsplit, hreader⟩, hpending, hrunning⟩ := h
  unfold PushClient.advance at hadv
  split at hadv
  · obtain ⟨rfl, -⟩ := Prod.mk.inj (Option.some.inj hadv)
    exact ⟨⟨ks, rest, hsplit, hreader⟩, hpending, by simp⟩
  · rw [hreader] at hadv
    cases rest with
    | nil =>
      obtain rfl : ks = db.pageNumbers := by simpa using hsplit.symm
      simp only [PageReader.nextHash_done] at hadv
      obtain ⟨rfl, -⟩ := Prod.mk.inj (Option.some.inj hadv)
      exact ⟨⟨_, [], hsplit, rfl⟩, hpending, by simp⟩
    | cons p rest =>
      simp only [PageReader.nextHash_more hsplit] at hadv
      obtain ⟨rfl, -⟩ := Prod.mk.inj (Option.some.inj hadv)
      exact ⟨⟨ks ++ [p], rest, by simpa using hsplit, by simp⟩, hpending, by simp⟩
  · obtain ⟨rfl, -⟩ := Prod.mk.inj (Option.some.inj hadv)
    exact ⟨⟨ks, rest, hsplit, hreader⟩, hpending, by simp⟩
  · split at hadv
    · cases hadv
    · next p pending hqueue =>
      rw [hqueue] at hpending
      obtain ⟨hmem, hrest⟩ := List.forall_mem_cons.mp hpending
      rw [hreader, PageReader.readPage_of_mem hmem] at hadv
      obtain ⟨rfl, -⟩ := Prod.mk.inj (Option.some.inj hadv)
      exact ⟨⟨ks, rest, hsplit, rfl⟩, hrest, hrunning⟩
  all_goals cases hadv

theorem waits_of_fair {c : PushClient} {incoming : Incoming}
    (h : Session.isFault c incoming = false) :
    incoming = .ping ∨ ∃ msg, incoming = .binary (.ok msg) ∧ c.expects msg = true := by
  match incoming with
  | .ping => exact .inl rfl
  | .binary (.ok msg) =>
    have hexpects : (!c.expects msg) = false := h
    exact .inr ⟨msg, rfl, by simpa using hexpects⟩
  | .binary (.error _) | .text _ | .close _ | .error | .ended => cases h

omit [Blake3] in
/-- Requests are queued. -/
theorem Sound.queue {c : PushClient} (h : Sound db c) {ps : List UInt32}
    (hps : ∀ p ∈ ps, p ∈ db.pageNumbers) : Sound db { c with pending := c.pending ++ ps } :=
  ⟨h.reader, List.forall_mem_append.mpr ⟨h.pending, hps⟩, h.running⟩

omit [Blake3] in
theorem receive_ping {c c' : PushClient} (hrecv : c.receive .ping = some c') : c' = c := by
  unfold PushClient.receive at hrecv
  split at hrecv
  · exact (Option.some.inj hrecv).symm
  · exact (Option.some.inj hrecv).symm
  · split at hrecv
    · cases hrecv
    · exact (Option.some.inj hrecv).symm
  all_goals cases hrecv

theorem Sound.receive {c c' : PushClient} {incoming : Incoming} (h : Sound db c)
    (hwaits : Session.isFault c incoming = false)
    (hpages : ∀ msg ∈ (Turn.receive incoming).heard, ∀ p ∈ msg.wanted, p ∈ db.pageNumbers)
    (hrecv : c.receive incoming = some c') : Sound db c' := by
  rcases waits_of_fair hwaits with rfl | ⟨msg, rfl, hexpects⟩
  · rwa [receive_ping hrecv]
  · have hwanted : ∀ p ∈ msg.wanted, p ∈ db.pageNumbers := hpages msg List.mem_cons_self
    unfold PushClient.receive at hrecv
    unfold PushClient.expects at hexpects
    split at hrecv
    · next hphase =>
      rw [hphase] at hexpects
      cases msg with
      | helloReply version _ _ =>
        simp only [readReply, recv, Option.map_some, Except.bind, checkReply,
          of_decide_eq_true hexpects, if_true] at hrecv
        obtain rfl := Option.some.inj hrecv
        exact ⟨h.reader, h.pending, by simp⟩
      | _ => cases hexpects
    · next hphase =>
      rw [hphase] at hexpects
      obtain rfl := Option.some.inj hrecv
      cases msg with
      | requestPage _ | requestPages _ => exact h.queue hwanted
      | _ => cases hexpects
    · next hphase =>
      rw [hphase] at hexpects
      split at hrecv
      · cases hrecv
      · obtain rfl := Option.some.inj hrecv
        cases msg with
        | requestPage _ | requestPages _ => exact h.queue hwanted
        | syncComplete _ _ => exact ⟨h.reader, h.pending, by simp [drain]⟩
        | _ => cases hexpects
    all_goals cases hrecv

theorem Sound.take {turn : Turn} (h : Sound db s.1) (hstep : turn.take s = some s')
    (hfair : Fair db s turn) : Sound db s'.1 := by
  cases turn with
  | advance =>
    obtain ⟨next, hadvance, rfl⟩ := Option.map_eq_some_iff.mp hstep
    exact h.advance hadvance
  | receive incoming =>
    obtain ⟨next, hreceive, rfl⟩ := Option.map_eq_some_iff.mp hstep
    exact h.receive hfair.1 hfair.2 hreceive
  | lose => cases hfair

/-- What a push says, when it succeeds and when it cannot fail, against any server. -/
theorem push_any_server (db : Database) {turns : List Turn} {c : PushClient}
    {sent : List SyncMessage}
    (hrun : Machine.run Turn.take turns (PushClient.new db, []) = some (c, sent)) :
    Answers db turns sent ∧
    (∀ pagesTransferred bytesTransferred,
      c.phase = .finished pagesTransferred bytesTransferred →
        sent = transcript db (asked turns) ∧ (∀ p ∈ asked turns, p ∈ db.pageNumbers) ∧
          (heardIn turns).getLast? = some (.syncComplete pagesTransferred bytesTransferred)) ∧
    (Machine.Meets Turn.take (Fair db) turns (PushClient.new db, []) →
      ∀ error, c.phase ≠ .failed error) := by
  have h := standing_of_run hrun
  refine ⟨h.answers, fun _ _ hphase => h.finishes hphase, fun hfair => ?_⟩
  have hstart : Sound db (PushClient.new db) := ⟨⟨[], _, rfl, rfl⟩, nofun, by simp [PushClient.new]⟩
  exact (Machine.run_keeps_of_meets (I := fun s => Sound db s.1) hrun hstart hfair
    fun _ _ _ hstep h hmeets => h.take hstep hmeets).running

/-- A server that asks for one page twice, and counts as it likes. -/
def sampleTurns : List Turn :=
  [.advance, .receive (.binary (.ok (.helloReply 1 0 9))), .advance,
    .receive (.binary (.ok (.requestPages [2, 2]))), .advance, .advance, .advance, .advance,
    .advance, .advance, .receive (.binary (.ok (.syncComplete 7 7)))]

omit [Blake3] in
theorem push_any_server_sample :
    letI := Blake3.onSamples
    ∃ c sent, Machine.run Turn.take sampleTurns (PushClient.new PushSession.sampleDatabase, []) =
        some (c, sent) ∧
      c.phase = .finished 7 7 ∧ sent = transcript PushSession.sampleDatabase [2, 2] := by
  let _ := Blake3.onSamples
  have hrun : (Machine.run Turn.take sampleTurns
      (PushClient.new PushSession.sampleDatabase, [])).map (fun s => s.1.phase) =
        some (.finished 7 7) := by decide +kernel
  obtain ⟨⟨c, sent⟩, hs, hphase⟩ := Option.map_eq_some_iff.mp hrun
  exact ⟨c, sent, hs, hphase, ((push_any_server _ hs).2.1 7 7 hphase).1⟩

end PushClient

/-! ## Pull -/

namespace PullClient

variable [Blake3] [Sqlite] {db : Database} {s s' : PullClient × List SyncMessage}
  {turns : List Turn}

omit [Blake3] in
/-- The entries of a message are written as one. -/
theorem write_entries (c : PullClient) (entries : List PageDataEntry) :
    entries.foldlM write c = (c.writer.writes entries).map fun writer =>
      { c with writer, pagesWritten := c.pagesWritten + UInt64.ofNat entries.length } := by
  induction entries generalizing c with
  | nil =>
    show Except.ok c = Except.ok _
    simp
  | cons entry entries ih =>
    rw [List.foldlM_cons, PageWriter.writes_cons, write]
    cases c.writer.write entry.pageNo entry.data with
    | error e => rfl
    | ok writer =>
      show entries.foldlM write _ = (writer.writes entries).map _
      rw [ih]
      refine congrArg (fun f => (writer.writes entries).map f) (funext fun writer => ?_)
      rw [List.length_cons, Nat.add_comm, UInt64.ofNat_add, ← UInt64.add_assoc]
      rfl

/-- The client while it receives. -/
def receiver (db : Database) (entries : List PageDataEntry) : PullClient :=
  ⟨.after db db.pageNumbers.length, ⟨db, entries, false⟩, UInt64.ofNat entries.length, .receiving⟩

/-- Where a client stands, and what it has said. -/
inductive Standing (db : Database) (turns : List Turn) : PullClient × List SyncMessage → Prop
  | start (hreceived : received turns = []) : Standing db turns (.new db, [])
  | awaitReply (hreceived : received turns = []) :
      Standing db turns ({ PullClient.new db with phase := .awaitReply }, [hello db])
  | hashing {ks rest : List UInt32} (hreceived : received turns = [])
      (hsplit : db.pageNumbers = ks ++ rest) :
      Standing db turns
        (⟨.after db ks.length, ⟨db, [], false⟩, 0, .hashing⟩, hello db :: ks.map (hashOf db))
  | receiving (htakes : Sqlite.Takes db (received turns)) :
      Standing db turns (receiver db (received turns), PullSession.clientFrames db)
  | finished {pagesTransferred bytesTransferred : UInt64} {file : Database}
      (htakes : Sqlite.Takes db (received turns))
      (hcommit : Sqlite.commit db (received turns) = some file)
      (hlast : (heardIn turns).getLast? = some (.syncComplete pagesTransferred bytesTransferred)) :
      Standing db turns
        (⟨.after db db.pageNumbers.length, ⟨file, [], true⟩, UInt64.ofNat (received turns).length,
          .finished pagesTransferred bytesTransferred⟩, PullSession.clientFrames db)
  | failed {c : PullClient} {sent : List SyncMessage} {error : ClientError}
      (hphase : c.phase = .failed error) (hfile : c.file = db)
      (hsent : sent <+: PullSession.clientFrames db) : Standing db turns (c, sent)

theorem Standing.sent_isPrefix (h : Standing db turns s) :
    s.2 <+: PullSession.clientFrames db := by
  cases h with
  | start _ => exact List.nil_prefix
  | awaitReply _ => exact List.prefix_append [hello db] _
  | hashing _ hsplit =>
    refine List.prefix_cons_inj _ |>.mpr ?_
    rw [hsplit, List.map_append, List.append_assoc]
    exact List.prefix_append _ _
  | failed _ _ hsent => exact hsent
  | _ => exact List.prefix_refl _

/-- Until the client commits, its file is as it was. -/
theorem Standing.file (h : Standing db turns s)
    (hphase : ∀ pagesTransferred bytesTransferred,
      s.1.phase ≠ .finished pagesTransferred bytesTransferred) : s.1.file = db := by
  cases h with
  | finished _ _ _ => exact absurd rfl (hphase _ _)
  | failed _ hfile _ => exact hfile
  | _ => rfl

theorem Standing.finishes (h : Standing db turns s) {pagesTransferred bytesTransferred : UInt64}
    (hphase : s.1.phase = .finished pagesTransferred bytesTransferred) :
    s.2 = PullSession.clientFrames db ∧ Sqlite.Takes db (received turns) ∧
      Sqlite.commit db (received turns) = some s.1.file ∧
      s.1.pagesWritten = UInt64.ofNat (received turns).length ∧
      (heardIn turns).getLast? = some (.syncComplete pagesTransferred bytesTransferred) := by
  cases h with
  | finished htakes hcommit hlast =>
    obtain ⟨rfl, rfl⟩ := PullPhase.finished.inj hphase
    exact ⟨rfl, htakes, hcommit, rfl, hlast⟩
  | failed hfailed _ _ => exact absurd (hfailed.symm.trans hphase) (by simp)
  | _ => cases hphase

theorem Standing.advance {c' : PullClient} {frames : List SyncMessage} (h : Standing db turns s)
    (hadv : s.1.advance = some (c', frames)) :
    Standing db (turns ++ [.advance]) (c', s.2 ++ frames) := by
  have hsame : received (turns ++ [.advance]) = received turns :=
    (received_concat _ _).trans (List.append_nil _)
  cases h with
  | start hreceived =>
    obtain ⟨rfl, rfl⟩ : _ ∧ _ := by simpa [PullClient.advance, PullClient.new] using hadv
    exact .awaitReply (hsame.trans hreceived)
  | awaitReply _ => simp [PullClient.advance] at hadv
  | @hashing ks rest hreceived hsplit =>
    cases rest with
    | nil =>
      obtain rfl : ks = db.pageNumbers := by simpa using hsplit.symm
      simp only [PullClient.advance, PageReader.nextHash_done] at hadv
      split at hadv
      · next writer hopen =>
        obtain ⟨rfl, rfl⟩ := Prod.mk.inj (Option.some.inj hadv)
        obtain rfl := PageWriter.openDb_eq_ok hopen
        have htakes : Sqlite.Takes db [] := .of_fill (PageWriter.fill_nil.trans hopen)
        have hnew := @Standing.receiving _ _ db (turns ++ [.advance])
        rw [hsame, hreceived] at hnew
        exact hnew htakes
      · obtain ⟨rfl, rfl⟩ := Prod.mk.inj (Option.some.inj hadv)
        exact .failed rfl rfl (List.prefix_refl _)
    | cons p rest =>
      simp only [PullClient.advance, PageReader.nextHash_more hsplit] at hadv
      obtain ⟨rfl, rfl⟩ : _ ∧ _ := by simpa using hadv
      have hnew := @Standing.hashing _ _ db (turns ++ [.advance]) (ks ++ [p]) rest
        (hsame.trans hreceived) (by simpa using hsplit)
      simpa [hashOf] using hnew
  | receiving _ => simp [PullClient.advance, receiver] at hadv
  | finished _ _ _ => simp [PullClient.advance] at hadv
  | failed hphase _ _ => simp [PullClient.advance, hphase] at hadv

/-- A failure before the commit. -/
theorem Standing.fails (h : Standing db turns s)
    (hphase : ∀ pagesTransferred bytesTransferred,
      s.1.phase ≠ .finished pagesTransferred bytesTransferred) (turn : Turn) (error : ClientError) :
    Standing db (turns ++ [turn]) (s.1.fail error, s.2) :=
  .failed rfl ((PullSession.file_fail _ _).trans (h.file hphase)) h.sent_isPrefix

/-- Rows that arrive are written, or the client fails. -/
theorem Standing.wrote (htakes : Sqlite.Takes db (received turns)) (entries : List PageDataEntry)
    {turn : Turn} (hreceived : received (turns ++ [turn]) = received turns ++ entries) :
    Standing db (turns ++ [turn])
      ((receiver db (received turns)).settle (entries.foldlM write (receiver db (received turns))),
        PullSession.clientFrames db) := by
  have hfails := Standing.fails (.receiving htakes) (by simp [receiver]) turn
  have happend := Sqlite.takes_append_iff htakes entries
  rw [write_entries]
  cases hwrites : (⟨db, received turns, false⟩ : PageWriter).writes entries with
  | error e =>
    rw [show (receiver db (received turns)).writer.writes entries = .error e from hwrites]
    exact hfails e
  | ok writer =>
    rw [show (receiver db (received turns)).writer.writes entries = .ok writer from hwrites]
    rw [hwrites] at happend
    obtain rfl := PageWriter.writes_eq_ok hwrites
    have hnew : Standing db (turns ++ [turn])
        (receiver db (received (turns ++ [turn])), PullSession.clientFrames db) :=
      .receiving (by rw [hreceived]; exact happend.mpr rfl)
    rw [hreceived, receiver, List.length_append, UInt64.ofNat_add] at hnew
    exact hnew

/-- The client commits, or fails. -/
theorem Standing.committed (htakes : Sqlite.Takes db (received turns))
    (pagesTransferred bytesTransferred : UInt64) :
    Standing db (turns ++ [.receive (.binary (.ok (.syncComplete pagesTransferred
        bytesTransferred)))])
      ((receiver db (received turns)).settle ((receiver db (received turns)).take
        (.syncComplete pagesTransferred bytesTransferred)), PullSession.clientFrames db) := by
  have hfails := Standing.fails (.receiving htakes) (by simp [receiver])
    (.receive (.binary (.ok (.syncComplete pagesTransferred bytesTransferred))))
  have hsame : received (turns ++ [.receive (.binary (.ok (.syncComplete pagesTransferred
      bytesTransferred)))]) = received turns :=
    (received_concat _ _).trans (List.append_nil _)
  rw [take]
  cases hcommit : (receiver db (received turns)).writer.commit with
  | error e => exact hfails e
  | ok writer =>
    obtain ⟨file, hfile, rfl⟩ := PageWriter.commit_eq_ok hcommit
    have hnew := @Standing.finished _ _ db (turns ++ [.receive (.binary (.ok (.syncComplete
      pagesTransferred bytesTransferred)))]) pagesTransferred bytesTransferred file
    rw [hsame] at hnew
    exact hnew htakes hfile (by rw [heardIn_concat]; exact List.getLast?_concat)

/-- A turn of the receiving loop. -/
theorem Standing.taken (htakes : Sqlite.Takes db (received turns)) (msg : SyncMessage) :
    Standing db (turns ++ [.receive (.binary (.ok msg))])
      ((receiver db (received turns)).settle ((receiver db (received turns)).take msg),
        PullSession.clientFrames db) := by
  have hafter := received_concat turns (.receive (.binary (.ok msg)))
  have hfails := Standing.fails (.receiving htakes) (by simp [receiver])
    (.receive (.binary (.ok msg)))
  cases msg with
  | pageData p data =>
    have hnew := Standing.wrote htakes [⟨p, data⟩] hafter
    have hnil : (fun c : PullClient => List.foldlM write c []) = pure := rfl
    rwa [List.foldlM_cons, hnil, bind_pure] at hnew
  | pageDataBatch entries =>
    refine Standing.wrote htakes entries ?_
    simpa [Turn.heard, SyncMessage.entries] using hafter
  | syncComplete pagesTransferred bytesTransferred => exact .committed htakes _ _
  | _ => exact hfails _

theorem Standing.receive {c' : PullClient} {incoming : Incoming} (h : Standing db turns s)
    (hrecv : s.1.receive incoming = some c') :
    Standing db (turns ++ [.receive incoming]) (c', s.2) := by
  have hafter := received_concat turns (.receive incoming)
  have hfails := fun hphase => h.fails hphase (.receive incoming)
  cases h with
  | start _ => simp [PullClient.receive, PullClient.new] at hrecv
  | awaitReply hreceived =>
    rw [hreceived, List.nil_append] at hafter
    simp only [PullClient.receive] at hrecv
    split at hrecv
    · next hping =>
      obtain rfl := Option.some.inj hrecv
      obtain rfl := readReply_none hping
      exact .awaitReply hafter
    · obtain rfl := Option.some.inj hrecv
      exact hfails (by simp) _
    · next hreply =>
      obtain rfl := Option.some.inj hrecv
      obtain ⟨pageSize, maxPage, rfl⟩ := readReply_ok hreply
      exact .hashing hafter (List.nil_append _).symm
  | hashing _ _ => simp [PullClient.receive] at hrecv
  | receiving htakes =>
    simp only [PullClient.receive, receiver] at hrecv
    split at hrecv
    · next hping =>
      obtain rfl := Option.some.inj hrecv
      obtain rfl := recv_none hping
      have hsame : received (turns ++ [.receive .ping]) = received turns :=
        hafter.trans (List.append_nil _)
      have hnew := @Standing.receiving _ _ db (turns ++ [.receive .ping])
      rw [hsame] at hnew
      exact hnew htakes
    · obtain rfl := Option.some.inj hrecv
      exact hfails (by simp [receiver]) _
    · next msg hmsg =>
      obtain rfl := Option.some.inj hrecv
      obtain rfl := recv_ok hmsg
      exact Standing.taken htakes msg
  | finished _ _ _ => simp [PullClient.receive] at hrecv
  | failed hphase _ _ => simp [PullClient.receive, hphase] at hrecv

theorem Standing.lose (h : Standing db turns s) :
    Standing db (turns ++ [.lose]) (Peer.lose s.1, s.2) := by
  have hlose : (Peer.lose s.1 : PullClient) = if s.1.isOver then s.1 else s.1.fail .send := rfl
  rw [hlose]
  split
  · next hover =>
    have hreceived : received (turns ++ [.lose]) = received turns :=
      (received_concat _ _).trans (List.append_nil _)
    have hheard : heardIn (turns ++ [.lose]) = heardIn turns :=
      (heardIn_concat _ _).trans (List.append_nil _)
    cases h with
    | @finished pagesTransferred bytesTransferred file htakes hcommit hlast =>
      have hnew := @Standing.finished _ _ db (turns ++ [.lose]) pagesTransferred bytesTransferred
        file
      rw [hreceived, hheard] at hnew
      exact hnew htakes hcommit hlast
    | failed hphase hfile hsent => exact .failed hphase hfile hsent
    | _ => cases hover
  · next hover =>
    refine h.fails (fun pagesTransferred bytesTransferred hphase => hover ?_) _ _
    simp [isOver, hphase]

theorem Standing.take {turn : Turn} (h : Standing db turns s) (hstep : turn.take s = some s') :
    Standing db (turns ++ [turn]) s' := by
  cases turn with
  | advance =>
    obtain ⟨next, hadvance, rfl⟩ := Option.map_eq_some_iff.mp hstep
    exact h.advance hadvance
  | receive incoming =>
    obtain ⟨next, hreceive, rfl⟩ := Option.map_eq_some_iff.mp hstep
    exact h.receive hreceive
  | lose =>
    obtain rfl := Option.some.inj hstep
    exact h.lose

/-- A pull says nothing but hashes, and its file is as it was until the server says
`SyncComplete`. Then it commits the pages that came, in the order in which they came. -/
theorem pull_any_server (db : Database) {turns : List Turn} {c : PullClient}
    {sent : List SyncMessage}
    (hrun : Machine.run Turn.take turns (PullClient.new db, []) = some (c, sent)) :
    sent <+: PullSession.clientFrames db ∧
    ((∀ pagesTransferred bytesTransferred,
        c.phase ≠ .finished pagesTransferred bytesTransferred) → c.file = db) ∧
    ∀ pagesTransferred bytesTransferred,
      c.phase = .finished pagesTransferred bytesTransferred →
        sent = PullSession.clientFrames db ∧ Sqlite.Takes db (received turns) ∧
          Sqlite.commit db (received turns) = some c.file ∧
          c.pagesWritten = UInt64.ofNat (received turns).length ∧
          (heardIn turns).getLast? = some (.syncComplete pagesTransferred bytesTransferred) := by
  have h : Standing db turns (c, sent) :=
    Machine.run_traces hrun (I := Standing db) (.start rfl) fun _ _ _ _ hstep h => h.take hstep
  exact ⟨h.sent_isPrefix, h.file, fun _ _ hphase => h.finishes hphase⟩

/-- A server that sends one page twice, and counts as it likes. -/
def sampleTurns : List Turn :=
  [.advance, .receive (.binary (.ok (.helloReply 1 0 9))), .advance, .advance,
    .receive (.binary (.ok (.pageDataBatch
      [⟨1, Sqlite.firstPage 2 5 2 1⟩, ⟨2, Sqlite.freePage⟩, ⟨1, Sqlite.firstPage 2 6 2 1⟩]))),
    .receive (.binary (.ok (.syncComplete 7 7)))]

omit [Blake3] [Sqlite] in
theorem pull_any_server_sample :
    letI := Blake3.onPages
    letI := Sqlite.dbpage
    ∃ c sent, Machine.run Turn.take sampleTurns (PullClient.new Sqlite.onePage, []) =
        some (c, sent) ∧
      Sqlite.commit Sqlite.onePage [⟨1, Sqlite.firstPage 2 5 2 1⟩, ⟨2, Sqlite.freePage⟩,
        ⟨1, Sqlite.firstPage 2 6 2 1⟩] = some c.file := by
  let _ := Blake3.onPages
  let _ := Sqlite.dbpage
  have hrun : (Machine.run Turn.take sampleTurns (PullClient.new Sqlite.onePage, [])).map
      (fun s => s.1.phase) = some (.finished 7 7) := by decide +kernel
  obtain ⟨⟨c, sent⟩, hs, hphase⟩ := Option.map_eq_some_iff.mp hrun
  exact ⟨c, sent, hs, ((pull_any_server _ hs).2.2 7 7 hphase).2.2.1⟩

end PullClient

end EdgeReplica
