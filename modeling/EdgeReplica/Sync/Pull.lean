-- SUMMARY: The pull session as two parties: what each has sent and received, at every point of every interleaving.
import Mathlib.Algebra.Ring.Nat
import EdgeReplica.Sync.Script

/-!
# Pull sessions

A page reaches the client on one of two routes: in answer to its hash, or in the
walk on `Complete`. As for a push, the frames either party has sent are always a
prefix of one fixed sequence, whatever the schedule.
-/

namespace EdgeReplica

open Session (hello reply hashOf)

/-- The number of bytes in the pages of a list. -/
def Pages.size (pages : Pages) (ps : List UInt32) : Nat :=
  (ps.map fun p => (pages.data p).length).sum

/-- The row of page `p`. -/
def Pages.entry (pages : Pages) (p : UInt32) : PageDataEntry := ⟨p, pages.data p⟩

namespace PullSession

variable [Blake3] (db : Database) (pages : Pages)

/-! ## The frames of a session -/

/-- The server has page `p`, with another digest than the client's. -/
def stale (p : UInt32) : Bool :=
  match pages[p]? with
  | some page => decide (page.hash ≠ pageHash (db.bytes p))
  | none => false

/-- The server has page `p` and the client did not claim it. -/
def unclaimed (seen : Finset UInt32) (p : UInt32) : Bool :=
  decide (pages[p]? ≠ none ∧ p ∉ seen)

/-- The pages the server sends: those that are stale, then those of the walk. -/
def served : List UInt32 :=
  db.pageNumbers.filter (stale db pages) ++
    (pageRange 1 (pages.keys.getLast?.getD 0)).filter (unclaimed pages db.pageNumbers.toFinset)

def dataOf (p : UInt32) : SyncMessage := .pageData p (pages.data p)

def completion : SyncMessage :=
  .syncComplete (UInt64.ofNat (served db pages).length)
    (UInt64.ofNat (pages.size (served db pages)))

/-- Everything the client sends. -/
def clientFrames : List SyncMessage :=
  hello db :: (db.pageNumbers.map (hashOf db) ++ [.complete])

/-- Everything the server sends. -/
def serverFrames : List SyncMessage :=
  reply pages :: ((served db pages).map (dataOf pages) ++ [completion db pages])

/-! ## Where the server stands -/

/-- The machine after it was given the hashes of `ks`. -/
def hashingFsm (ks : List UInt32) : SyncFsm where
  direction := .pull
  sawHello := true
  clientSeen := ks.toFinset
  serverMaxPage := pages.keys.getLast?.getD 0
  pagesTransferred := UInt64.ofNat (ks.filter (stale db pages)).length
  bytesTransferred := UInt64.ofNat (pages.size (ks.filter (stale db pages)))

/-- The server has compared the hashes of `ks`, and sent the pages that are stale. -/
structure ServerHashing (ks : List UInt32) (task : SessionTask InMemorySyncStorage) : Prop where
  running : task.running = true
  closed : task.closed = none
  sink : task.world.sink = fun _ => none
  storage : task.world.storage = pages
  fsm : task.world.fsm = hashingFsm db pages ks
  sent : task.sent = reply pages :: (ks.filter (stale db pages)).map (dataOf pages)

/-- The server has completed the session. -/
structure ServerDone (task : SessionTask InMemorySyncStorage) : Prop where
  running : task.running = false
  closed : task.closed = some (1000, "sync complete")
  storage : task.world.storage = pages
  sent : task.sent = serverFrames db pages

/-- The server has taken up the frames `consumed` and sent the frames `emitted`. -/
inductive ServerAt : List SyncMessage → List SyncMessage → SessionTask InMemorySyncStorage → Prop
  | fresh : ServerAt [] [] (.spawn .pull pages fun _ => false)
  | hashing {ks rest : List UInt32} {task : SessionTask InMemorySyncStorage}
      (hsplit : db.pageNumbers = ks ++ rest) (h : ServerHashing db pages ks task) :
      ServerAt (hello db :: ks.map (hashOf db))
        (reply pages :: (ks.filter (stale db pages)).map (dataOf pages)) task
  | done {task : SessionTask InMemorySyncStorage} (h : ServerDone db pages task) :
      ServerAt (clientFrames db) (serverFrames db pages) task

variable {db pages} {consumed emitted : List SyncMessage} {task : SessionTask InMemorySyncStorage}

theorem ServerAt.sent (h : ServerAt db pages consumed emitted task) : task.sent = emitted := by
  cases h with
  | fresh => rfl
  | hashing _ h => exact h.sent
  | done h => exact h.sent

theorem ServerAt.emitted_isPrefix (h : ServerAt db pages consumed emitted task) :
    emitted <+: serverFrames db pages := by
  cases h with
  | fresh => exact List.nil_prefix
  | @hashing ks rest _ hsplit _ =>
    refine List.prefix_cons_inj _ |>.mpr ?_
    rw [served, hsplit, List.filter_append, List.append_assoc, List.map_append, List.append_assoc]
    exact List.prefix_append _ _
  | done _ => exact List.prefix_refl _

/-- Once it sent everything, the server has taken up everything and has closed. -/
theorem ServerAt.complete (h : ServerAt db pages consumed emitted task)
    (hall : emitted = serverFrames db pages) :
    consumed = clientFrames db ∧ ServerDone db pages task := by
  have hmem : completion db pages ∈ emitted := by simp [hall, serverFrames]
  cases h with
  | fresh => simp at hmem
  | hashing _ _ => simp [completion, reply, dataOf] at hmem
  | done h => exact ⟨rfl, h⟩

/-- A server that does not run any more has sent everything. -/
theorem ServerAt.of_stopped (h : ServerAt db pages consumed emitted task)
    (hstop : task.running = false) : emitted = serverFrames db pages := by
  cases h with
  | fresh => simp [SessionTask.spawn] at hstop
  | hashing _ h => simp [h.running] at hstop
  | done _ => rfl

/-! ## The server's turns -/

theorem serverHello (nowMs : Int64) :
    ServerHashing db pages []
      ((SessionTask.spawn .pull pages fun _ => false).step nowMs (.binary (.ok (hello db)))) := by
  have hrun := SyncFsm.run_apply_hello (w := (SessionTask.spawn .pull pages fun _ => false).world)
    rfl rfl nowMs DEFAULT_PAGE_SIZE db.maxPage
  rw [hello, SessionTask.step_of_ok _ hrun rfl (by simp [SessionTask.refusal, SessionTask.spawn,
    SessionTask.socket])]
  exact ⟨rfl, rfl, rfl, rfl, rfl, rfl⟩

omit [Blake3] in
theorem data_of_some {p : UInt32} {page : Page} (h : pages[p]? = some page) :
    pages.data p = page.data := by
  simp [Pages.data, Pages.bytes, h]

theorem ServerHashing.takeHash {ks : List UInt32} (h : ServerHashing db pages ks task)
    (nowMs : Int64) (p : UInt32) :
    ServerHashing db pages (ks ++ [p]) (task.step nowMs (.binary (.ok (hashOf db p)))) := by
  have hsaw : task.world.fsm.sawHello = true := by rw [h.fsm]; rfl
  have hdir : task.world.fsm.direction = .pull := by rw [h.fsm]; rfl
  have hsent : sentBy task.world.history = _ := h.sent
  have hrun := SyncFsm.run_apply_pageHash hsaw nowMs p (pageHash (db.bytes p))
  rw [SyncFsm.run_handlePageHash_pull _ _ _ hdir, h.storage] at hrun
  cases hstale : stale db pages p with
  | false =>
    have hrun' : (SyncFsm.apply nowMs (hashOf db p)).run task.world =
        .ok () (task.world.setFsm (SyncFsm.claim p)) := by
      rw [hashOf, hrun]
      unfold stale at hstale
      split at hstale
      · next page hpage => simp [hpage, show page.hash = _ by simpa using hstale]
      · next hpage => simp [hpage]
    rw [SessionTask.step_of_ok [] hrun' (by simp) (by simp),
      if_neg (by simp [SyncFsm.done, SyncFsm.claim, h.fsm, hashingFsm])]
    refine ⟨h.running, h.closed, h.sink, h.storage, ?_, ?_⟩
    · simp [SyncFsm.claim, h.fsm, hashingFsm, List.filter_append, hstale]
    · simpa [List.filter_append, hstale] using hsent
  | true =>
    obtain ⟨page, hpage, hne⟩ :
        ∃ page, pages[p]? = some page ∧ page.hash ≠ pageHash (db.bytes p) := by
      unfold stale at hstale
      split at hstale
      · next page hpage => exact ⟨page, hpage, by simpa using hstale⟩
      · simp at hstale
    simp only [hpage, if_neg hne] at hrun
    rw [SyncFsm.run_emit_reliable (by exact h.sink)] at hrun
    rw [hashOf, SessionTask.step_of_ok _ hrun rfl (by simp [SessionTask.refusal, h.sink]),
      if_neg (by simp [SyncFsm.done, SyncFsm.claim, h.fsm, hashingFsm])]
    have hdata := data_of_some hpage
    refine ⟨h.running, h.closed, h.sink, h.storage, ?_, ?_⟩
    · simp [SyncFsm.claim, SyncFsm.count, h.fsm, hashingFsm, List.filter_append, hstale,
        Pages.size, hdata]
    · simp [hsent, h.sink, List.filter_append, hstale, dataOf, hdata]

/-! ## The walk -/

/-- The world after the pages of a list were streamed. -/
def streamed (pages : Pages) (sent : List UInt32) (w : World InMemorySyncStorage) :
    World InMemorySyncStorage where
  storage := w.storage
  fsm :=
    { w.fsm with
      pagesTransferred := w.fsm.pagesTransferred + UInt64.ofNat sent.length
      bytesTransferred := w.fsm.bytesTransferred + UInt64.ofNat (pages.size sent) }
  sink := w.sink
  calls := w.calls + sent.length
  history := w.history ++ sent.map fun p => .handed (dataOf pages p) none

omit [Blake3] in
theorem streamed_nil (w : World InMemorySyncStorage) : streamed pages [] w = w := by
  simp [streamed, Pages.size]

omit [Blake3] in
theorem streamed_append (l₁ l₂ : List UInt32) (w : World InMemorySyncStorage) :
    streamed pages (l₁ ++ l₂) w = streamed pages l₂ (streamed pages l₁ w) := by
  simp [streamed, Pages.size, Nat.add_assoc, UInt64.ofNat_add, UInt64.add_assoc]

omit [Blake3] in
/-- The walk streams the pages of its range that are stored and not claimed. -/
theorem run_walk {w : World InMemorySyncStorage} (hsink : w.sink = fun _ => none)
    (hstorage : w.storage = pages) (range : List UInt32) :
    (forM range (SyncFsm.streamPage (σ := InMemorySyncStorage))).run w =
      .ok () (streamed pages (range.filter (unclaimed pages w.fsm.clientSeen)) w) := by
  induction range generalizing w with
  | nil =>
    rw [List.filter_nil, streamed_nil]
    rfl
  | cons p range ih =>
    rw [List.forM_cons, EStateM.run_bind, SyncFsm.run_streamPage, hstorage]
    cases hpage : pages[p]? with
    | none =>
      have hskip : unclaimed pages w.fsm.clientSeen p = false := by simp [unclaimed, hpage]
      rw [List.filter_cons_of_neg (by simp [hskip])]
      exact ih hsink hstorage
    | some page =>
      by_cases hseen : p ∈ w.fsm.clientSeen
      · have hskip : unclaimed pages w.fsm.clientSeen p = false := by simp [unclaimed, hseen]
        rw [List.filter_cons_of_neg (by simp [hskip])]
        simp only [hseen, if_true]
        exact ih hsink hstorage
      · have hsend : unclaimed pages w.fsm.clientSeen p = true := by simp [unclaimed, hpage, hseen]
        have hone : (w.setFsm fun f => f.count page.data.length).hand (.pageData p page.data) =
            streamed pages [p] w := by
          simp [World.hand, World.setFsm, SyncFsm.count, streamed, Pages.size, dataOf,
            data_of_some hpage, hsink]
        rw [List.filter_cons_of_pos hsend, ← List.singleton_append, streamed_append, ← hone]
        simp only [hseen, if_false]
        rw [SyncFsm.run_emit_reliable (by exact hsink)]
        exact ih (w := (w.setFsm fun f => f.count page.data.length).hand (.pageData p page.data))
          hsink hstorage

omit [Blake3] in
theorem sentBy_streamed (sent : List UInt32) (w : World InMemorySyncStorage) :
    sentBy (streamed pages sent w).history = sentBy w.history ++ sent.map (dataOf pages) := by
  have hmap :
      sentBy (sent.map fun p => .handed (dataOf pages p) none) = sent.map (dataOf pages) := by
    induction sent with
    | nil => rfl
    | cons p sent ih => simp [ih]
  rw [streamed, sentBy_append, hmap]

theorem ServerHashing.takeComplete (h : ServerHashing db pages db.pageNumbers task)
    (nowMs : Int64) :
    ServerDone db pages (task.step nowMs (.binary (.ok .complete))) := by
  have hsaw : task.world.fsm.sawHello = true := by rw [h.fsm]; rfl
  have hdir : task.world.fsm.direction = .pull := by rw [h.fsm]; rfl
  have hsent : sentBy task.world.history = _ := h.sent
  have hrun := SyncFsm.run_apply_complete_pull hsaw hdir nowMs
  have hwalk := run_walk (w := SyncFsm.completing task.world) h.sink h.storage
    (pageRange 1 task.world.fsm.serverMaxPage)
  rw [EStateM.run_bind, hwalk] at hrun
  have hfsm : task.world.fsm.serverMaxPage = pages.keys.getLast?.getD 0 := by rw [h.fsm]; rfl
  have hseen : (SyncFsm.completing task.world).fsm.clientSeen = db.pageNumbers.toFinset := by
    simp [SyncFsm.completing, h.fsm, hashingFsm]
  rw [hfsm, hseen] at hrun
  generalize hwalked : (pageRange 1 (pages.keys.getLast?.getD 0)).filter
    (unclaimed pages db.pageNumbers.toFinset) = walked at hrun
  have hserved : served db pages = db.pageNumbers.filter (stale db pages) ++ walked := by
    rw [served, hwalked]
  generalize hw : streamed pages walked (SyncFsm.completing task.world) = w at hrun
  have hsink : w.sink = fun _ => none := by rw [← hw]; exact h.sink
  have hopen : w.fsm.GateOpen := by
    rw [← hw]
    simp [SyncFsm.GateOpen, streamed, SyncFsm.completing, h.fsm, hashingFsm]
  have hpages : w.fsm.pagesTransferred = UInt64.ofNat (served db pages).length := by
    rw [← hw, hserved]
    simp [streamed, SyncFsm.completing, h.fsm, hashingFsm, UInt64.ofNat_add]
  have hbytes : w.fsm.bytesTransferred = UInt64.ofNat (pages.size (served db pages)) := by
    rw [← hw, hserved]
    simp [streamed, SyncFsm.completing, h.fsm, hashingFsm, Pages.size, UInt64.ofNat_add]
  have hhist : w.history = task.world.history ++
      (.complete :: walked.map fun p => .handed (dataOf pages p) none) := by
    rw [← hw]
    simp [streamed, SyncFsm.completing]
  simp only [SyncFsm.run_maybeEmitComplete_reliable hsink, SyncFsm.passGate, if_pos hopen] at hrun
  have hquiet : ∀ e ∈ (.complete :: walked.map fun p => .handed (dataOf pages p) none) ++
      [.handed (completion db pages) none], SessionTask.refusal e = false := by
    intro e he
    simp only [List.mem_append, List.mem_cons, List.mem_map, List.not_mem_nil, or_false] at he
    rcases he with (rfl | ⟨p, -, rfl⟩) | rfl <;> rfl
  rw [SessionTask.step_of_ok _ hrun (by simp [hhist, hsink, hpages, hbytes, completion]) hquiet,
    if_pos (by rfl)]
  refine ⟨rfl, rfl, ?_, ?_⟩
  · rw [← hw]
    exact h.storage
  · have hsentW : sentBy w.history = reply pages :: (served db pages).map (dataOf pages) := by
      rw [← hw, sentBy_streamed, hserved]
      simp [SyncFsm.completing, hsent]
    simp [hsentW, hsink, hpages, hbytes, completion, serverFrames]

/-- The server's next turn, when the frames it has taken up and the next one are
what the client sends. -/
theorem ServerAt.step {msg : SyncMessage} (h : ServerAt db pages consumed emitted task)
    (hmsg : consumed ++ [msg] <+: clientFrames db) (nowMs : Int64) :
    ∃ more, ServerAt db pages (consumed ++ [msg]) (emitted ++ more)
      (task.step nowMs (.binary (.ok msg))) := by
  cases h with
  | fresh =>
    obtain rfl : msg = hello db := by simpa [clientFrames] using hmsg
    exact ⟨[reply pages], .hashing (List.nil_append _).symm (serverHello nowMs)⟩
  | @hashing ks rest _ hsplit h =>
    have hnext : [msg] <+: rest.map (hashOf db) ++ [.complete] := by
      simpa [clientFrames, hsplit, List.prefix_append_right_inj] using hmsg
    cases rest with
    | nil =>
      obtain rfl : msg = .complete := by simpa using hnext
      obtain rfl : ks = db.pageNumbers := by simpa using hsplit.symm
      have hnew := ServerAt.done (h.takeComplete nowMs)
      obtain ⟨more, hmore⟩ := (ServerAt.hashing hsplit h).emitted_isPrefix
      exact ⟨more, by rw [hmore]; exact hnew⟩
    | cons p rest =>
      obtain rfl : msg = hashOf db p := by simpa using hnext
      refine ⟨([p].filter (stale db pages)).map (dataOf pages), ?_⟩
      have hnew := ServerAt.hashing (by simpa using hsplit) (h.takeHash nowMs p)
      simpa only [List.map_append, List.filter_append, List.cons_append, List.map_cons,
        List.map_nil] using hnew
  | done h =>
    have hlen := hmsg.length_le
    rw [List.length_append, List.length_singleton] at hlen
    omega

/-! ## Where the client stands -/

/-- The rows that the client writes. -/
def rows (db : Database) (pages : Pages) : List PageDataEntry := (served db pages).map pages.entry

variable [Sqlite]

/-- The client has sent the frames `sent` and received the frames `received`. -/
inductive ClientAt (db : Database) (pages : Pages) :
    List SyncMessage → List SyncMessage → PullClient → Prop
  | start : ClientAt db pages [] [] (.new db)
  | awaitReply : ClientAt db pages [hello db] [] { PullClient.new db with phase := .awaitReply }
  | hashing {ks rest : List UInt32} (hsplit : db.pageNumbers = ks ++ rest) :
      ClientAt db pages (hello db :: ks.map (hashOf db)) [reply pages]
        ⟨.after db ks.length, ⟨db, [], false⟩, 0, .hashing⟩
  | receiving {ps more : List UInt32} (hserved : served db pages = ps ++ more)
      (htakes : Sqlite.Takes db (ps.map pages.entry)) :
      ClientAt db pages (clientFrames db) (reply pages :: ps.map (dataOf pages))
        ⟨.after db db.pageNumbers.length, ⟨db, ps.map pages.entry, false⟩, UInt64.ofNat ps.length,
          .receiving⟩
  | finished {file : Database} (htakes : Sqlite.Takes db (rows db pages))
      (hcommit : Sqlite.commit db (rows db pages) = some file) :
      ClientAt db pages (clientFrames db) (serverFrames db pages)
        ⟨.after db db.pageNumbers.length, ⟨file, [], true⟩, UInt64.ofNat (served db pages).length,
          .finished (UInt64.ofNat (served db pages).length)
            (UInt64.ofNat (pages.size (served db pages)))⟩

/-- SQLite refused the client something, so it does not accept all rows. -/
def Refused (db : Database) (pages : Pages) (client : PullClient) : Prop :=
  (∃ error, client.phase = .failed error ∧ error.ofWriter = true) ∧
    ¬ Sqlite.Accepts db (rows db pages)

variable {sent received : List SyncMessage} {client : PullClient}

theorem ClientAt.sent_isPrefix (h : ClientAt db pages sent received client) :
    sent <+: clientFrames db := by
  cases h with
  | start => exact List.nil_prefix
  | awaitReply => exact List.prefix_append [hello db] _
  | hashing hsplit =>
    refine List.prefix_cons_inj _ |>.mpr ?_
    rw [hsplit, List.map_append, List.append_assoc]
    exact List.prefix_append _ _
  | receiving _ _ => exact List.prefix_refl _
  | finished _ _ => exact List.prefix_refl _

/-- What the client does on its own is to send the next of its frames. When it has sent
them all it may find that it cannot open its file. -/
theorem ClientAt.advance {client' : PullClient} {frames : List SyncMessage}
    (h : ClientAt db pages sent received client)
    (hadv : client.advance = some (client', frames)) :
    ClientAt db pages (sent ++ frames) received client' ∨
      Refused db pages client' ∧ sent ++ frames <+: clientFrames db := by
  cases h with
  | start =>
    obtain ⟨rfl, rfl⟩ : _ ∧ _ := by simpa [PullClient.advance, PullClient.new] using hadv
    exact .inl .awaitReply
  | awaitReply => simp [PullClient.advance] at hadv
  | @hashing ks rest hsplit =>
    cases rest with
    | nil =>
      obtain rfl : ks = db.pageNumbers := by simpa using hsplit.symm
      simp only [PullClient.advance, PageReader.nextHash_done] at hadv
      split at hadv
      · next writer hopen =>
        have hopen : PageWriter.openDb db = .ok writer := hopen
        obtain ⟨rfl, rfl⟩ : _ ∧ _ := by simpa using hadv
        obtain rfl := PageWriter.openDb_eq_ok hopen
        have htakes : Sqlite.Takes db [] := .of_fill (PageWriter.fill_nil.trans hopen)
        exact .inl (@ClientAt.receiving _ _ db pages [] _ rfl htakes)
      · next error hopen =>
        obtain ⟨rfl, rfl⟩ : _ ∧ _ := by simpa using hadv
        refine .inr ⟨⟨⟨error, rfl, PageWriter.ofWriter_of_openDb hopen⟩, fun haccepts => ?_⟩,
          List.prefix_refl _⟩
        exact Sqlite.not_takes_of_openDb hopen haccepts.1
    | cons p rest =>
      simp only [PullClient.advance, PageReader.nextHash_more hsplit] at hadv
      obtain ⟨rfl, rfl⟩ : _ ∧ _ := by simpa using hadv
      have hnew := @ClientAt.hashing _ _ db pages (ks ++ [p]) rest (by simpa using hsplit)
      exact .inl (by simpa [hashOf] using hnew)
  | receiving _ _ => simp [PullClient.advance] at hadv
  | finished _ _ => simp [PullClient.advance] at hadv

/-- The client that has written the pages `ps`. -/
def receiver (db : Database) (ps : List UInt32) (pages : Pages) : PullClient :=
  ⟨.after db db.pageNumbers.length, ⟨db, ps.map pages.entry, false⟩, UInt64.ofNat ps.length,
    .receiving⟩

/-- The bytes of the next page are written, or SQLite refuses them. -/
theorem takes_data {ps more : List UInt32} {p : UInt32}
    (hserved : served db pages = ps ++ p :: more) (htakes : Sqlite.Takes db (ps.map pages.entry)) :
    ClientAt db pages (clientFrames db) (reply pages :: ps.map (dataOf pages) ++ [dataOf pages p])
        ((receiver db ps pages).settle ((receiver db ps pages).take (dataOf pages p))) ∨
      Refused db pages
        ((receiver db ps pages).settle ((receiver db ps pages).take (dataOf pages p))) := by
  have hsplit : served db pages = (ps ++ [p]) ++ more := by simpa using hserved
  have hconcat := Sqlite.takes_append_iff htakes [pages.entry p]
  rw [PageWriter.writes_singleton] at hconcat
  cases hwrite : (⟨db, ps.map pages.entry, false⟩ : PageWriter).write p (pages.data p) with
  | ok writer =>
    have hnext : Sqlite.Takes db ((ps ++ [p]).map pages.entry) := by
      rw [List.map_append]
      exact hconcat.mpr (congrArg Except.isOk hwrite)
    have htaken : (receiver db ps pages).take (dataOf pages p) =
        .ok (receiver db (ps ++ [p]) pages) := by
      simp only [PullClient.take, dataOf, PullClient.write, receiver, hwrite]
      rw [PageWriter.write_eq_ok hwrite]
      simp [Except.map, Pages.entry, UInt64.ofNat_add]
    rw [htaken, List.cons_append, ← List.map_singleton, ← List.map_append]
    exact .inl (.receiving hsplit hnext)
  | error e =>
    have hfailed : (receiver db ps pages).take (dataOf pages p) = .error e := by
      simp [PullClient.take, dataOf, PullClient.write, receiver, hwrite, Except.map]
    rw [hfailed]
    refine .inr ⟨⟨e, rfl, PageWriter.ofWriter_of_write hwrite⟩, fun haccepts => ?_⟩
    have hall : Sqlite.Takes db (ps.map pages.entry ++ [pages.entry p]) := by
      have htakes := haccepts.1
      rw [rows, hsplit, List.map_append, List.map_append] at htakes
      exact htakes.of_append
    have hok := hconcat.mp hall
    rw [show (⟨db, ps.map pages.entry, false⟩ : PageWriter).write (pages.entry p).pageNo
      (pages.entry p).data = .error e from hwrite] at hok
    cases hok

/-- The client commits on the server's last frame, or SQLite refuses the commit. -/
theorem takes_completion (htakes : Sqlite.Takes db (rows db pages)) :
    ClientAt db pages (clientFrames db)
        (reply pages :: (served db pages).map (dataOf pages) ++ [completion db pages])
        ((receiver db (served db pages) pages).settle
          ((receiver db (served db pages) pages).take (completion db pages))) ∨
      Refused db pages
        ((receiver db (served db pages) pages).settle
          ((receiver db (served db pages) pages).take (completion db pages))) := by
  cases hcommit : (⟨db, rows db pages, false⟩ : PageWriter).commit with
  | ok writer =>
    obtain ⟨file, hfile, rfl⟩ := PageWriter.commit_eq_ok hcommit
    have hcommit : (receiver db (served db pages) pages).writer.commit = .ok ⟨file, [], true⟩ :=
      hcommit
    refine .inl ?_
    rw [completion, PullClient.take, hcommit]
    exact .finished htakes hfile
  | error e =>
    obtain ⟨hnone, rfl⟩ := PageWriter.commit_eq_error hcommit
    have hcommit : (receiver db (served db pages) pages).writer.commit = .error .commit := hcommit
    refine .inr ?_
    rw [completion, PullClient.take, hcommit]
    refine ⟨⟨.commit, rfl, rfl⟩, fun haccepts => ?_⟩
    have hsome := haccepts.2
    have hnone : Sqlite.commit db (rows db pages) = none := hnone
    rw [hnone] at hsome
    cases hsome

/-- The next frame of the server is one the client waits for, unless SQLite refuses what it
brings. -/
theorem ClientAt.receive {client' : PullClient} {msg : SyncMessage}
    (h : ClientAt db pages sent received client)
    (hmsg : received ++ [msg] <+: serverFrames db pages)
    (hrecv : client.receive (.binary (.ok msg)) = some client') :
    ClientAt db pages sent (received ++ [msg]) client' ∨ Refused db pages client' := by
  cases h with
  | start => simp [PullClient.receive, PullClient.new] at hrecv
  | awaitReply =>
    obtain rfl : msg = reply pages := by simpa [serverFrames] using hmsg
    obtain rfl : _ = client' := by
      simpa [PullClient.receive, readReply, recv, reply, Except.bind, checkReply] using hrecv
    exact .inl (@ClientAt.hashing _ _ db pages [] _ rfl)
  | hashing _ => simp [PullClient.receive] at hrecv
  | @receiving ps more hserved htakes =>
    obtain rfl : _ = client' := Option.some.inj hrecv
    have hnext : [msg] <+: more.map (dataOf pages) ++ [completion db pages] := by
      simpa [serverFrames, hserved, List.prefix_append_right_inj] using hmsg
    cases more with
    | nil =>
      obtain rfl : msg = completion db pages := by simpa using hnext
      obtain rfl : served db pages = ps := by simpa using hserved
      exact takes_completion htakes
    | cons p more =>
      obtain rfl : msg = dataOf pages p := by simpa using hnext
      exact takes_data hserved htakes
  | finished _ _ => simp [PullClient.receive] at hrecv

/-- A client that has received all the server sends has committed. -/
theorem ClientAt.finished_of_received (h : ClientAt db pages sent received client)
    (hall : received = serverFrames db pages) :
    client.phase = .finished (UInt64.ofNat (served db pages).length)
        (UInt64.ofNat (pages.size (served db pages))) ∧
      Sqlite.Takes db (rows db pages) ∧ Sqlite.commit db (rows db pages) = some client.file := by
  have hmem : completion db pages ∈ received := by simp [hall, serverFrames]
  cases h with
  | start => simp at hmem
  | awaitReply => simp at hmem
  | hashing _ => simp [completion, reply] at hmem
  | receiving _ _ => simp [completion, reply, dataOf] at hmem
  | finished htakes hcommit => exact ⟨rfl, htakes, hcommit⟩

/-- A client that has returned has received all the server sends. -/
theorem ClientAt.received_of_over (h : ClientAt db pages sent received client)
    (hover : client.isOver = true) : received = serverFrames db pages := by
  cases h with
  | start => simp [PullClient.isOver, PullClient.new] at hover
  | awaitReply => simp [PullClient.isOver] at hover
  | hashing _ => simp [PullClient.isOver] at hover
  | receiving _ _ => simp [PullClient.isOver] at hover
  | finished _ _ => rfl

theorem ClientAt.not_failed (h : ClientAt db pages sent received client) (error : ClientError) :
    client.phase ≠ .failed error := by
  cases h <;> simp [PullClient.new]

/-- The script of a pull into `db` from the store `pages`. -/
def script (db : Database) (pages : Pages) : Script PullClient where
  clientFrames := clientFrames db
  serverFrames := serverFrames db pages
  ServerAt := ServerAt db pages
  ClientAt := ClientAt db pages
  Refused := Refused db pages
  server_sent h := h.sent
  server_prefix h := h.emitted_isPrefix
  server_complete h hall := ⟨(h.complete hall).1, (h.complete hall).2.running⟩
  server_stopped h hstop := h.of_stopped hstop
  server_step h hmsg nowMs := h.step hmsg nowMs
  client_prefix h := h.sent_isPrefix
  client_advance h hadv := h.advance hadv
  client_receive h hmsg _ hrecv := h.receive hmsg hrecv
  client_over h hover := h.received_of_over hover
  client_done h hall incoming := by
    simp [Peer.receive, PullClient.receive, (h.finished_of_received hall).1]

theorem agrees_start (db : Database) (pages : Pages) :
    (script db pages).Agrees (.start (.new db) .pull pages) :=
  ⟨[], [], .fresh, .start, rfl⟩

/-- When SQLite accepts what the server sends, nothing else can fail. -/
theorem steady (haccepts : Sqlite.Accepts db (rows db pages)) : (script db pages).Steady where
  never _ hrefused := hrefused.2 haccepts

end PullSession

end EdgeReplica
