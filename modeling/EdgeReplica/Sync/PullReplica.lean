-- SUMMARY: What a pull session achieves, undisturbed or not, and when it makes the client a replica of the server.
import EdgeReplica.Sync.Pull
import EdgeReplica.Sync.PushReplica

/-!
# Pull sessions, end to end

The results about the system of both parties. An undisturbed session takes no
error branch but those where SQLite refuses the client something, and what the client
commits is the server's pages over its own. Any fault before `SyncComplete` leaves its
file as it was.
-/

namespace EdgeReplica

open Effect (fault)
open Session (Label reply)

namespace PullSession

variable [Blake3] {db : Database} {pages : Pages}

/-! ## What the server sends -/

/-- The pages of the server that the client lacks or holds with other bytes. -/
def outdated (db : Database) (pages : Pages) : List UInt32 :=
  pages.keys.filter fun p => decide (pages.bytes p ≠ db.table p)

omit [Blake3] in
/-- The pages that are written show, and the others stay. -/
theorem replay_entries (table : PageTable) (ps : List UInt32) (p : UInt32) :
    table.replay (ps.map pages.entry) p = if p ∈ ps then some (pages.data p) else table p := by
  induction ps generalizing table with
  | nil => rfl
  | cons q ps ih =>
    have hcons : table.replay ((q :: ps).map pages.entry) =
        PageTable.replay (Function.update table q (some (pages.data q))) (ps.map pages.entry) := rfl
    rw [hcons, ih, Function.update_apply]
    by_cases hp : p ∈ ps
    · simp [hp]
    · by_cases hq : p = q
      · simp [hq]
      · simp [hp, hq]

omit [Blake3] in
theorem bytes_ne_none {p : UInt32} : pages.bytes p ≠ none ↔ p ∈ pages := by
  rw [Pages.mem_iff_ne_none, Pages.bytes, Ne, Option.map_eq_none_iff]

omit [Blake3] in
theorem bytes_of_mem {p : UInt32} (h : p ∈ pages) : pages.bytes p = some (pages.data p) := by
  obtain ⟨data, hdata⟩ := Option.ne_none_iff_exists'.mp (bytes_ne_none.mpr h)
  rw [Pages.data, hdata]
  rfl

/-- A page of the client is stale exactly when the server has other bytes for it. -/
theorem stale_iff (hhashed : pages.Hashed)
    (hinj : Set.InjOn pageHash (PushSession.Involved db pages)) {p : UInt32}
    (hp : p ∈ db.pageNumbers) :
    stale db pages p = true ↔ p ∈ pages ∧ pages.bytes p ≠ db.table p := by
  have hclient := db.table_of_mem hp
  rw [Pages.mem_iff_ne_none, Pages.bytes, hclient]
  unfold stale
  cases hpage : pages[p]? with
  | none => simp
  | some page =>
    have hhash : page.hash = pageHash page.data := hhashed p page hpage
    have hdata : page.hash = pageHash (db.bytes p) ↔ page.data = db.bytes p := by
      rw [hhash]
      refine ⟨fun heq => hinj (Or.inr ⟨p, page, hpage, rfl⟩) (Or.inl ⟨p, hclient⟩) heq, ?_⟩
      exact fun heq => by rw [heq]
    simp [hdata]

omit [Blake3] in
/-- Every stored page lies in the range of the walk. -/
theorem mem_range_of_mem (hnum : pages[(0 : UInt32)]? = none) {p : UInt32} (hp : p ∈ pages) :
    p ∈ pageRange 1 (pages.keys.getLast?.getD 0) := by
  have hzero : p ≠ 0 := fun h0 => Pages.mem_iff_ne_none.mp hp (h0 ▸ hnum)
  have hpos : p.toNat ≠ 0 := fun h0 => hzero (UInt32.toNat_inj.mp h0)
  refine mem_pageRange.mpr ⟨UInt32.le_iff_toNat_le.mpr ?_, Pages.le_maxPage hp⟩
  rw [UInt32.toNat_one]
  omega

/-- Without a collision of digests, the pages sent are those that are outdated. -/
theorem mem_served (hnum : pages[(0 : UInt32)]? = none) (hhashed : pages.Hashed)
    (hinj : Set.InjOn pageHash (PushSession.Involved db pages)) (p : UInt32) :
    p ∈ served db pages ↔ p ∈ outdated db pages := by
  rw [served, outdated, List.mem_append, List.mem_filter, List.mem_filter, List.mem_filter,
    Std.ExtTreeMap.mem_keys, decide_eq_true_iff]
  by_cases hp : p ∈ db.pageNumbers
  · have hskip : unclaimed pages db.pageNumbers.toFinset p = false := by simp [unclaimed, hp]
    simp [hp, hskip, stale_iff hhashed hinj hp]
  · rw [db.table_of_notMem hp, bytes_ne_none, and_self]
    have hsend : unclaimed pages db.pageNumbers.toFinset p = true ↔ p ∈ pages := by
      simp [unclaimed, hp]
    simp only [hp, false_and, false_or, hsend]
    exact ⟨And.right, fun hmem => ⟨mem_range_of_mem hnum hmem, hmem⟩⟩

theorem served_nodup (db : Database) (pages : Pages) : (served db pages).Nodup := by
  refine List.nodup_append.mpr ⟨db.pageNumbers_nodup.filter _, (pageRange_nodup _ _).filter _, ?_⟩
  intro p hp q hq heq
  subst heq
  have hclaimed := (List.mem_filter.mp hp).1
  have hfree := (List.mem_filter.mp hq).2
  simp [unclaimed, hclaimed] at hfree

theorem length_served (db : Database) (pages : Pages) :
    (served db pages).length ≤ 4294967294 + 4294967295 := by
  have hclaimed := List.length_filter_le (stale db pages) db.pageNumbers
  have hwalk := List.length_filter_le (unclaimed pages db.pageNumbers.toFinset)
    (pageRange 1 (pages.keys.getLast?.getD 0))
  have hmax := (pages.keys.getLast?.getD 0).toNat_lt
  have hbound := db.bounded
  rw [Database.pageNumbers, length_pageRange_one, db.toNat_maxPage] at hclaimed
  rw [length_pageRange_one] at hwalk
  rw [served, List.length_append]
  unfold Database.pageNumbers at *
  omega

theorem served_perm (hnum : pages[(0 : UInt32)]? = none) (hhashed : pages.Hashed)
    (hinj : Set.InjOn pageHash (PushSession.Involved db pages)) :
    (served db pages).Perm (outdated db pages) :=
  (List.perm_ext_iff_of_nodup (served_nodup db pages)
    (Std.ExtTreeMap.nodup_keys.filter _)).mpr (mem_served hnum hhashed hinj)

/-- What is committed is the server's pages over the client's own. -/
theorem replay_rows (hnum : pages[(0 : UInt32)]? = none) (hhashed : pages.Hashed)
    (hinj : Set.InjOn pageHash (PushSession.Involved db pages)) :
    db.table.replay (rows db pages) = pages.bytes.overlay db.table := by
  have hmem := mem_served hnum hhashed hinj
  funext p
  rw [rows, replay_entries, PageTable.overlay]
  split
  · next hp =>
    have hstored : p ∈ pages :=
      Std.ExtTreeMap.mem_keys.mp (List.mem_filter.mp ((hmem p).mp hp)).1
    rw [bytes_of_mem hstored, Option.some_or]
  · next hp =>
    by_cases hstored : p ∈ pages
    · have hsame : pages.bytes p = db.table p := by
        by_contra hne
        exact hp ((hmem p).mpr (List.mem_filter.mpr
          ⟨Std.ExtTreeMap.mem_keys.mpr hstored, by simpa using hne⟩))
      rw [hsame, Option.or_self]
    · rw [not_ne_iff.mp (fun hne => hstored (bytes_ne_none.mp hne)), Option.none_or]

/-- The client writes nothing exactly when it has all that the server has. -/
theorem rows_eq_nil_iff (hnum : pages[(0 : UInt32)]? = none) (hhashed : pages.Hashed)
    (hinj : Set.InjOn pageHash (PushSession.Involved db pages)) :
    rows db pages = [] ↔ pages.bytes.overlay db.table = db.table := by
  constructor
  · intro hnil
    rw [← replay_rows hnum hhashed hinj, hnil]
    rfl
  · intro hsame
    rw [rows, List.map_eq_nil_iff, List.eq_nil_iff_forall_not_mem]
    intro p hp
    have houtdated := List.mem_filter.mp ((mem_served hnum hhashed hinj p).mp hp)
    have hstored : p ∈ pages := Std.ExtTreeMap.mem_keys.mp houtdated.1
    have hpage := congrFun hsame p
    rw [PageTable.overlay, bytes_of_mem hstored, Option.some_or, ← bytes_of_mem hstored] at hpage
    exact of_decide_eq_true houtdated.2 hpage

variable [Sqlite] {s : Session PullClient}

/-! ## Disturbed sessions -/

/-- The client touches its file only by the commit. -/
def Intact (db : Database) (c : PullClient) : Prop :=
  (∀ pagesTransferred bytesTransferred, c.phase ≠ .finished pagesTransferred bytesTransferred) →
    c.file = db

def Failed (c : PullClient) : Prop := ∃ error, c.phase = .failed error

omit [Blake3] [Sqlite] in
@[simp] theorem file_fail (c : PullClient) (error : ClientError) :
    (c.fail error).file = c.file := c.writer.file_drop

omit [Blake3] in
/-- A row that is written is in the transaction only. -/
theorem file_write {c c' : PullClient} {entry : PageDataEntry} (h : c.write entry = .ok c') :
    c'.file = c.file := by
  unfold PullClient.write at h
  cases hwrite : c.writer.write entry.pageNo entry.data with
  | error e =>
    rw [hwrite] at h
    cases h
  | ok writer =>
    rw [hwrite] at h
    obtain rfl := Except.ok.inj h
    rw [PageWriter.write_eq_ok hwrite]
    rfl

omit [Blake3] in
theorem file_writes {c c' : PullClient} {entries : List PageDataEntry}
    (h : entries.foldlM PullClient.write c = .ok c') : c'.file = c.file := by
  induction entries generalizing c with
  | nil =>
    obtain rfl := Except.ok.inj h
    rfl
  | cons entry entries ih =>
    rw [List.foldlM_cons] at h
    cases hwrite : c.write entry with
    | error e =>
      rw [hwrite] at h
      cases h
    | ok c₁ =>
      rw [hwrite] at h
      exact (ih h).trans (file_write hwrite)

omit [Blake3] [Sqlite] in
/-- A turn that keeps the file when it goes well keeps it. -/
theorem intact_settle {c : PullClient} {result : Except ClientError PullClient} (h : c.file = db)
    (hok : ∀ c', result = .ok c' → Intact db c') : Intact db (c.settle result) := by
  cases result with
  | ok c' => exact hok c' rfl
  | error e => exact fun _ => (file_fail c e).trans h

omit [Blake3] in
/-- One turn of the receiving loop leaves the file as it is, or commits. -/
theorem intact_take {c : PullClient} (h : c.file = db) (msg : SyncMessage) :
    Intact db (c.settle (c.take msg)) := by
  refine intact_settle h fun c' hok hphase => ?_
  cases msg with
  | pageData pageNo data => exact (file_write hok).trans h
  | pageDataBatch entries => exact (file_writes hok).trans h
  | syncComplete pages bytes =>
    rw [PullClient.take] at hok
    cases hcommit : c.writer.commit with
    | error e =>
      rw [hcommit] at hok
      cases hok
    | ok writer =>
      rw [hcommit] at hok
      obtain rfl := Except.ok.inj hok
      exact absurd rfl (hphase pages bytes)
  | _ => cases hok

theorem intact_advance {c c' : PullClient} {frames : List SyncMessage} (h : Intact db c)
    (hadv : c.advance = some (c', frames)) : Intact db c' := by
  have hfile : c'.file = c.file ∧ ∀ pages bytes, c.phase ≠ .finished pages bytes := by
    unfold PullClient.advance at hadv
    split at hadv
    · next hphase =>
      obtain ⟨rfl, -⟩ : _ ∧ _ := by simpa using hadv
      exact ⟨rfl, by simp [hphase]⟩
    · next hphase =>
      split at hadv
      · obtain ⟨rfl, -⟩ : _ ∧ _ := by simpa using hadv
        exact ⟨rfl, by simp [hphase]⟩
      · split at hadv
        · next writer hopen =>
          obtain ⟨rfl, -⟩ : _ ∧ _ := by simpa using hadv
          rw [PageWriter.openDb_eq_ok hopen]
          exact ⟨rfl, by simp [hphase]⟩
        · obtain ⟨rfl, -⟩ : _ ∧ _ := by simpa using hadv
          exact ⟨file_fail c _, by simp [hphase]⟩
      · obtain ⟨rfl, -⟩ : _ ∧ _ := by simpa using hadv
        exact ⟨file_fail c _, by simp [hphase]⟩
    all_goals simp at hadv
  exact fun _ => hfile.1.trans (h hfile.2)

omit [Blake3] in
theorem intact_receive {c c' : PullClient} {incoming : Incoming} (h : Intact db c)
    (hrecv : c.receive incoming = some c') : Intact db c' := by
  unfold PullClient.receive at hrecv
  split at hrecv
  · next hphase =>
    have hfile : c.file = db := h (by simp [hphase])
    split at hrecv
    all_goals obtain rfl : _ = c' := by simpa using hrecv
    · exact h
    · exact fun _ => (file_fail c _).trans hfile
    · exact fun _ => hfile
  · next hphase =>
    have hfile : c.file = db := h (by simp [hphase])
    split at hrecv
    all_goals obtain rfl : _ = c' := by simpa using hrecv
    · exact h
    · exact fun _ => (file_fail c _).trans hfile
    · exact intact_take hfile _
  all_goals simp at hrecv

theorem lose_of_running {c : PullClient} (hover : Peer.isOver c = false) :
    Peer.lose c = c.fail .send := by
  have hover' : c.isOver = false := hover
  simp [Peer.lose, hover']

theorem intact_step {label : Label} {s' : Session PullClient} (hstep : s.step label = some s')
    (h : Intact db s.client) : Intact db s'.client := by
  rcases Session.client_step hstep with heq | ⟨frames, hadv⟩ | ⟨incoming, hrecv⟩ | ⟨hover, heq⟩
  · rwa [heq]
  · exact intact_advance h hadv
  · exact intact_receive h hrecv
  · rw [heq, lose_of_running hover]
    refine fun _ => (file_fail _ _).trans (h fun pages bytes hphase => ?_)
    simp [Peer.isOver, PullClient.isOver, hphase] at hover

/-- A frame that the client does not wait for fails the handshake. -/
theorem checkReply_unexpected {c : PullClient} {msg : SyncMessage} (hphase : c.phase = .awaitReply)
    (hmsg : Peer.expects c msg = false) : ∃ error, checkReply msg = .error error := by
  cases msg with
  | helloReply version _ _ =>
    have hne : version ≠ HANDSHAKE_VERSION := by
      simpa [Peer.expects, PullClient.expects, hphase] using hmsg
    exact ⟨.versionMismatch version, by simp [checkReply, hne]⟩
  | _ => exact ⟨_, rfl⟩

/-- A frame that the client does not wait for fails the receiving loop. -/
theorem take_unexpected {c : PullClient} {msg : SyncMessage} (hphase : c.phase = .receiving)
    (hmsg : Peer.expects c msg = false) : Failed (c.settle (c.take msg)) := by
  cases msg <;> first
    | exact ⟨_, rfl⟩
    | simp [Peer.expects, PullClient.expects, hphase] at hmsg

/-- What is a fault to the client: it is not a message, or not one it waits for. -/
theorem recv_fault {c : PullClient} {incoming : Incoming}
    (hfault : Session.isFault c incoming = true) :
    (∃ error, recv incoming = some (.error error)) ∨
      ∃ msg, incoming = .binary (.ok msg) ∧ Peer.expects c msg = false := by
  cases incoming with
  | binary frame =>
    cases frame with
    | error e => exact .inl ⟨_, rfl⟩
    | ok msg => exact .inr ⟨msg, rfl, by simpa [Session.isFault] using hfault⟩
  | ping => simp [Session.isFault] at hfault
  | _ => exact .inl ⟨_, rfl⟩

/-- What the client does not wait for makes it fail. -/
theorem failed_receive {c c' : PullClient} {incoming : Incoming}
    (hrecv : c.receive incoming = some c') (hfault : Session.isFault c incoming = true) :
    Failed c' := by
  unfold PullClient.receive at hrecv
  split at hrecv
  · next hphase =>
    have herror : ∃ error, readReply incoming = some (.error error) := by
      rcases recv_fault hfault with ⟨error, he⟩ | ⟨msg, rfl, hmsg⟩
      · exact ⟨error, by simp [readReply, he, Except.bind]⟩
      · obtain ⟨error, he⟩ := checkReply_unexpected hphase hmsg
        exact ⟨error, by simp [readReply, recv, he, Except.bind]⟩
    obtain ⟨error, he⟩ := herror
    obtain rfl : _ = c' := by simpa [he] using hrecv
    exact ⟨error, rfl⟩
  · next hphase =>
    rcases recv_fault hfault with ⟨error, he⟩ | ⟨msg, rfl, hmsg⟩
    · obtain rfl : _ = c' := by simpa [he] using hrecv
      exact ⟨error, rfl⟩
    · obtain rfl : _ = c' := by simpa [recv] using hrecv
      exact take_unexpected hphase hmsg
  all_goals simp at hrecv

theorem failed_disturbed {label : Label} {s' : Session PullClient} (hlabel : ¬ label.Undisturbed)
    (hstep : s.step label = some s') : Failed s'.client := by
  match label with
  | .fault incoming =>
    simp only [Session.step] at hstep
    split at hstep
    · next hfault =>
      obtain ⟨client, hrecv, rfl⟩ := Option.map_eq_some_iff.mp hstep
      exact failed_receive hrecv hfault
    · simp at hstep
  | .lost =>
    simp only [Session.step] at hstep
    split at hstep
    · simp at hstep
    · next hover =>
      obtain rfl : _ = s' := by simpa using hstep
      exact ⟨.send, by rw [lose_of_running (by simpa using hover)]; rfl⟩
  | .client | .deliver | .serve _ | .serverClosed _ | .clientClosed _ => exact absurd trivial hlabel

theorem intact_run {labels : List Label}
    (hrun : Machine.run Session.step labels (.start (.new db) .pull pages) = some s) :
    Intact db s.client :=
  Machine.run_keeps (I := fun s : Session PullClient => Intact db s.client) hrun
    (fun _ => rfl) fun _ _ _ _ hstep h => intact_step hstep h

def failing (db : Database) (pages : Pages) : (script db pages).Failing where
  Failed := Failed
  refused := by
    rintro c ⟨⟨error, hphase, -⟩, -⟩
    exact ⟨error, hphase⟩
  stopped := by
    rintro c ⟨error, hphase⟩
    simp [Peer.isOver, PullClient.isOver, hphase]
  advance := by
    rintro c ⟨error, hphase⟩
    simp [Peer.advance, PullClient.advance, hphase]
  receive := by
    rintro c ⟨error, hphase⟩ incoming
    simp [Peer.receive, PullClient.receive, hphase]
  fault hfault hrecv := .inr (failed_receive hrecv hfault)
  lose hover := ⟨.send, by rw [lose_of_running hover]; rfl⟩

theorem follows_start (db : Database) (pages : Pages) :
    (script db pages).Follows (failing db pages) (.start (.new db) .pull pages) :=
  .agrees (agrees_start db pages)

/-- A client that has committed has not failed, and so the session was on the script. -/
theorem agrees_of_finished {labels : List Label}
    (hrun : Machine.run Session.step labels (.start (.new db) .pull pages) = some s)
    {pagesTransferred bytesTransferred : UInt64}
    (hphase : s.client.phase = .finished pagesTransferred bytesTransferred) :
    (script db pages).Agrees s :=
  ((follows_start db pages).run hrun).agrees_of_not_failed
    fun ⟨_, herror⟩ => absurd (hphase.symm.trans herror) (by simp)

/-- A session that was disturbed leaves the client's file as it was. -/
theorem file_of_disturbed {labels : List Label}
    (hrun : Machine.run Session.step labels (.start (.new db) .pull pages) = some s)
    (hfault : ∃ label ∈ labels, ¬ label.Undisturbed) : s.client.file = db := by
  obtain ⟨label, hmem, hlabel⟩ := hfault
  obtain ⟨before, after, rfl⟩ := List.append_of_mem hmem
  obtain ⟨s₁, -, hrest⟩ := Machine.run_append_some hrun
  obtain ⟨s₂, hstep, hafter⟩ := Option.bind_eq_some_iff.mp hrest
  have hfailed : Failed s.client := by
    refine Machine.run_keeps (I := fun s : Session PullClient => Failed s.client) hafter
      (failed_disturbed hlabel hstep) fun _ _ _ _ hstep h => ?_
    rwa [(failing db pages).client_eq h hstep]
  obtain ⟨error, hphase⟩ := hfailed
  exact intact_run hrun fun pages bytes hfin => by simp [hphase] at hfin

/-! ## No error but SQLite's -/

omit [Sqlite] in
theorem ServerAt.storage {consumed emitted : List SyncMessage}
    {task : SessionTask InMemorySyncStorage} (h : ServerAt db pages consumed emitted task) :
    task.world.storage = pages := by
  cases h with
  | fresh => rfl
  | hashing _ h => exact h.storage
  | done h => exact h.storage

omit [Sqlite] in
theorem ServerAt.closed {consumed emitted : List SyncMessage}
    {task : SessionTask InMemorySyncStorage} (h : ServerAt db pages consumed emitted task) :
    task.closed = none ∨ task.closed = some (1000, "sync complete") := by
  cases h with
  | fresh => exact .inl rfl
  | hashing _ h => exact .inl h.closed
  | done h => exact .inr h.closed

/-- Whatever becomes of the client, the server says nothing but its script. -/
theorem server_of_run {labels : List Label}
    (hrun : Machine.run Session.step labels (.start (.new db) .pull pages) = some s) :
    s.pages = pages ∧ (∀ message, .error message ∉ s.server.sent) ∧
      (s.server.closed = none ∨ s.server.closed = some (1000, "sync complete")) := by
  obtain ⟨consumed, emitted, task, hserver, hstorage, hsent, hclosed⟩ :=
    ((follows_start db pages).run hrun).server
  refine ⟨hstorage.trans (ServerAt.storage hserver), fun message hmem => ?_, ?_⟩
  · rw [hsent] at hmem
    have hframe := (ServerAt.emitted_isPrefix hserver).subset hmem
    simp [serverFrames, reply, completion, dataOf] at hframe
  · rw [hclosed]
    exact ServerAt.closed hserver

/-- In an undisturbed session the client fails only where SQLite refuses it something. -/
theorem refused_of_failed {labels : List Label} (hlabels : ∀ label ∈ labels, label.Undisturbed)
    (hrun : Machine.run Session.step labels (.start (.new db) .pull pages) = some s)
    {error : ClientError} (hphase : s.client.phase = .failed error) :
    error.ofWriter = true ∧ ¬ Sqlite.Accepts db (rows db pages) := by
  rcases (agrees_start db pages).run_cases (failing db pages) hlabels hrun with h | h
  · obtain ⟨_, _, -, hclient, -⟩ := h
    exact absurd hphase (ClientAt.not_failed hclient error)
  · obtain ⟨⟨error', hphase', hwriter⟩, hrefuses⟩ := h
    obtain rfl := PullPhase.failed.inj (hphase'.symm.trans hphase)
    exact ⟨hwriter, hrefuses⟩

/-- While the client has not failed, the server runs or has completed the session. -/
theorem running_or_complete {labels : List Label}
    (hrun : Machine.run Session.step labels (.start (.new db) .pull pages) = some s)
    (hok : ∀ error, s.client.phase ≠ .failed error) :
    s.server.running = true ∨ s.server.closed = some (1000, "sync complete") := by
  have h := ((follows_start db pages).run hrun).agrees_of_not_failed
    fun ⟨error, hphase⟩ => hok error hphase
  obtain ⟨consumed, received, hserver, -, -⟩ := h
  cases hrunning : s.server.running with
  | true => exact .inl rfl
  | false => exact .inr (ServerAt.complete hserver (ServerAt.of_stopped hserver hrunning)).2.closed

/-! ## What a commit leaves -/

/-- What the client's commit stands for. -/
structure Pulled (db : Database) (pages : Pages) (s : Session PullClient)
    (pagesTransferred bytesTransferred : UInt64) : Prop where
  /-- One row for each page that was outdated. -/
  perm : (rows db pages).Perm ((outdated db pages).map pages.entry)
  committed : Sqlite.Takes db (rows db pages) ∧
    Sqlite.commit db (rows db pages) = some s.client.file
  /-- They make the server's pages, and the client's own where the server has none. -/
  image : db.table.replay (rows db pages) = pages.bytes.overlay db.table
  /-- The file is that image, as SQLite leaves it. -/
  settles : Sqlite.Settles db (pages.bytes.overlay db.table) s.client.file
  /-- Each page that was outdated was sent once, and no other. -/
  sent : ∀ p, s.server.sent.countP (SyncMessage.carries p) =
    if p ∈ outdated db pages then 1 else 0
  pages_eq : pagesTransferred.toNat = (outdated db pages).length
  bytes_eq : bytesTransferred = UInt64.ofNat (pages.size (outdated db pages))
  /-- The store is as it was. -/
  kept : s.pages = pages

/-- The commit of the rows, by what is documented of it. -/
theorem settles [Sqlite.Documented] {file : Database} (hnum : pages[(0 : UInt32)]? = none)
    (hhashed : pages.Hashed) (hinj : Set.InjOn pageHash (PushSession.Involved db pages))
    (htakes : Sqlite.Takes db (rows db pages))
    (hcommit : Sqlite.commit db (rows db pages) = some file) :
    Sqlite.Settles db (pages.bytes.overlay db.table) file := by
  have himage := replay_rows hnum hhashed hinj
  have hnil := rows_eq_nil_iff hnum hhashed hinj
  refine ⟨fun hsame => ?_, fun hne {n} hrecorded hcovers hvacuum => ?_⟩
  · rw [hnil.mpr hsame] at hcommit
    exact Sqlite.Documented.commit_nil hcommit
  · rw [← himage] at hrecorded hcovers hvacuum ⊢
    exact Sqlite.Documented.commit_left htakes (mt hnil.mp hne) hcommit hrecorded hcovers hvacuum

theorem pulled [Sqlite.Documented] (h : (script db pages).Agrees s)
    (hnum : pages[(0 : UInt32)]? = none) (hhashed : pages.Hashed)
    (hinj : Set.InjOn pageHash (PushSession.Involved db pages))
    {pagesTransferred bytesTransferred : UInt64}
    (hphase : s.client.phase = .finished pagesTransferred bytesTransferred) :
    Pulled db pages s pagesTransferred bytesTransferred := by
  obtain ⟨hserver, hclient, -⟩ := h.of_over (by simp [Peer.isOver, PullClient.isOver, hphase])
  have hserverSent : s.server.sent = serverFrames db pages := ServerAt.sent hserver
  obtain ⟨hfinished, htakes, hcommit⟩ := ClientAt.finished_of_received hclient rfl
  have hmem := mem_served hnum hhashed hinj
  have hperm := served_perm hnum hhashed hinj
  obtain ⟨rfl, rfl⟩ : _ ∧ _ := by simpa [hfinished] using hphase
  refine ⟨hperm.map _, ⟨htakes, hcommit⟩, replay_rows hnum hhashed hinj,
    settles hnum hhashed hinj htakes hcommit, fun p => ?_, ?_, ?_,
    (ServerAt.complete hserver rfl).2.storage⟩
  · have hdata := PushSession.countP_frames (dataOf pages) (SyncMessage.carries p)
      (served_nodup db pages) p fun q => by simp [SyncMessage.carries, SyncMessage.entries, dataOf]
    rw [hserverSent, serverFrames, List.countP_cons, List.countP_append, hdata]
    simp [SyncMessage.carries, SyncMessage.entries, reply, completion, hmem]
  · rw [hperm.length_eq.symm]
    exact UInt64.toNat_ofNat_of_lt' (Nat.lt_of_le_of_lt (length_served db pages) (by decide))
  · rw [Pages.size, Pages.size, (hperm.map _).sum_nat]

/-- A pull session under any schedule. The server takes no error branch. Undisturbed, the
client fails only where SQLite refuses it something, and not if SQLite accepts the rows it
is sent. A client that has committed has committed the server's pages over its own. Until
it commits, and whenever the connection was lost or brought something the client does not
wait for, its file is as it was. -/
theorem pull_session [Sqlite.Documented] (db : Database) {pages : Pages} (hnum : 0 ∉ pages)
    (hhashed : pages.Hashed) (hinj : Set.InjOn pageHash (PushSession.Involved db pages))
    {labels : List Label} {s : Session PullClient}
    (hrun : Machine.run Session.step labels (.start (.new db) .pull pages) = some s) :
    ((∀ message, .error message ∉ s.server.sent) ∧
      (s.server.closed = none ∨ s.server.closed = some (1000, "sync complete"))) ∧
    ((∀ label ∈ labels, label.Undisturbed) →
      (∀ error, s.client.phase = .failed error →
        error.ofWriter = true ∧ ¬ Sqlite.Accepts db (rows db pages)) ∧
      ((∀ error, s.client.phase ≠ .failed error) →
        s.server.running = true ∨ s.server.closed = some (1000, "sync complete"))) ∧
    (∀ pagesTransferred bytesTransferred,
      s.client.phase = .finished pagesTransferred bytesTransferred →
        Pulled db pages s pagesTransferred bytesTransferred) ∧
    ((∃ label ∈ labels, ¬ label.Undisturbed) → s.client.file = db) ∧
    ((∀ pagesTransferred bytesTransferred,
        s.client.phase ≠ .finished pagesTransferred bytesTransferred) → s.client.file = db) := by
  have hzero : pages[(0 : UInt32)]? = none := by
    by_contra hsome
    exact hnum (Pages.mem_iff_ne_none.mpr hsome)
  refine ⟨(server_of_run hrun).2, fun hlabels => ⟨fun error => refused_of_failed hlabels hrun,
    running_or_complete hrun⟩, fun _ _ hphase => ?_, file_of_disturbed hrun, intact_run hrun⟩
  exact pulled (agrees_of_finished hrun hphase) hzero hhashed hinj hphase

/-! ## A store and its pull -/

/-- The store of a database of two pages. -/
def sampleStore : Pages :=
  ((∅ : Pages).write ⟨1, Sqlite.firstPage 2 5 2 1⟩).write ⟨2, Sqlite.freePage⟩

/-- The client's page is outdated, and it lacks the second. -/
def samplePull : List Label :=
  [.client, .serve 0, .deliver, .client, .serve 0, .client, .serve 0, .deliver, .deliver, .deliver]

omit [Sqlite] in
theorem bytes_sampleStore {p : UInt32} {page : Page} (h : sampleStore[p]? = some page) :
    page.data = Sqlite.firstPage 2 5 2 1 ∨ page.data = Sqlite.freePage := by
  rw [sampleStore, Pages.getElem?_write, Pages.getElem?_write] at h
  split at h
  · obtain rfl := Option.some.inj h
    exact .inr rfl
  · split at h
    · obtain rfl := Option.some.inj h
      exact .inl rfl
    · simp at h

omit [Blake3] [Sqlite] in
theorem sampleStore_injOn {db : Database}
    (hdb : ∀ data ∈ db.pages, data ∈ Blake3.pages.map Prod.fst) :
    letI := Blake3.onPages
    Set.InjOn pageHash (PushSession.Involved db sampleStore) := by
  let _ := Blake3.onPages
  refine Blake3.onPages_injOn.mono ?_
  rintro data (⟨p, hp⟩ | ⟨p, page, hpage, rfl⟩)
  · exact hdb data (Database.mem_of_table hp)
  · rcases bytes_sampleStore hpage with hdata | hdata <;> simp [hdata, Blake3.pages]

omit [Blake3] [Sqlite] in
theorem onePage_known : ∀ data ∈ Sqlite.onePage.pages, data ∈ Blake3.pages.map Prod.fst := by
  simp [Sqlite.onePage, Blake3.pages]

omit [Sqlite] in
theorem hashed_sampleStore : Pages.Hashed sampleStore := (Pages.Hashed.empty.write _).write _

omit [Sqlite] in
theorem zero_notMem_sampleStore : 0 ∉ sampleStore := by
  rw [sampleStore, Pages.mem_iff_ne_none, Pages.getElem?_write, Pages.getElem?_write]
  simp

omit [Blake3] [Sqlite] in
theorem samplePull_finishes :
    letI := Blake3.onPages
    letI := Sqlite.dbpage
    ∃ s, Machine.run Session.step samplePull
        (.start (PullClient.new Sqlite.onePage) .pull sampleStore) = some s ∧
      s.client.phase = .finished 2 1024 := by
  let _ := Blake3.onPages
  let _ := Sqlite.dbpage
  have hrun : (Machine.run Session.step samplePull
      (.start (PullClient.new Sqlite.onePage) .pull sampleStore)).map (fun s => s.client.phase) =
        some (.finished 2 1024) := by decide +kernel
  exact Option.map_eq_some_iff.mp hrun

omit [Blake3] [Sqlite] in
theorem pull_session_sample :
    letI := Blake3.onPages
    letI := Sqlite.dbpage
    ∃ s, Machine.run Session.step samplePull
        (.start (PullClient.new Sqlite.onePage) .pull sampleStore) = some s ∧
      Pulled Sqlite.onePage sampleStore s 2 1024 := by
  let _ := Blake3.onPages
  let _ := Sqlite.dbpage
  let _ := Sqlite.dbpage_documented
  obtain ⟨s, hs, hphase⟩ := samplePull_finishes
  exact ⟨s, hs, (pull_session Sqlite.onePage zero_notMem_sampleStore hashed_sampleStore
    (sampleStore_injOn onePage_known) hs).2.2.1 2 1024 hphase⟩

/-- The pull into a new file. -/
def newFilePull : List Label :=
  [.client, .serve 0, .deliver, .client, .serve 0, .deliver]

omit [Blake3] [Sqlite] in
/-- Pages of 512 bytes are refused by a new file, whose pages are to have 4096. -/
theorem pull_refused_by_new_file :
    letI := Blake3.onPages
    letI := Sqlite.dbpage
    ¬ ∀ (db : Database) (pages : Pages), 0 ∉ pages → pages.Hashed →
      Set.InjOn pageHash (PushSession.Involved db pages) →
      ∀ (labels : List Label) (s : Session PullClient), (∀ label ∈ labels, label.Undisturbed) →
        Machine.run Session.step labels (.start (.new db) .pull pages) = some s →
        ∀ error, s.client.phase ≠ .failed error := by
  let _ := Blake3.onPages
  let _ := Sqlite.dbpage
  intro h
  have hrun : (Machine.run Session.step newFilePull
      (.start (PullClient.new ⟨[], by simp⟩) .pull sampleStore)).map (fun s => s.client.phase) =
        some (.failed (.writePage 1)) := by decide +kernel
  obtain ⟨s, hs, hphase⟩ := Option.map_eq_some_iff.mp hrun
  exact h ⟨[], by simp⟩ sampleStore zero_notMem_sampleStore hashed_sampleStore
    (sampleStore_injOn (by simp)) newFilePull s (by decide) hs _ hphase

/-! ## When the file becomes a replica -/

omit [Blake3] [Sqlite] in
/-- The image that a pull commits has the pages of what was pushed. -/
theorem image_eq_source {source : Database} {store : PageTable}
    (hstore : ∀ p ∈ source.pageNumbers, store p = source.table p) {p : UInt32}
    (hp : p ∈ source.pageNumbers) :
    store.overlay db.table p = source.table p := by
  rw [PageTable.overlay, hstore p hp, source.table_of_mem hp, Option.some_or]

omit [Blake3] [Sqlite] in
/-- A pull settles on the database that was pushed, if its header records its pages. -/
theorem left_of_settles {source file : Database} {store : PageTable}
    (hstore : ∀ p ∈ source.pageNumbers, store p = source.table p)
    (hsettles : Sqlite.Settles db (store.overlay db.table) file)
    (hrecorded : SqliteHeader.recorded (source.bytes 1) = some source.pages.length)
    (hcounted : db.Counted) (hvacuum : ¬ Sqlite.Vacuums db (source.bytes 1)) :
    Sqlite.Left source.table source.pages.length file := by
  have himage : ∀ p : UInt32, p ≠ 0 → p.toNat ≤ source.pages.length →
      source.table p = store.overlay db.table p := fun p hzero hle =>
    (image_eq_source hstore (source.mem_pageNumbers.mpr ⟨hzero, hle⟩)).symm
  have hpos : 1 ≤ source.pages.length :=
    Nat.one_le_iff_ne_zero.mpr (SqliteHeader.recorded_eq_some.mp hrecorded).2.2.1
  have hfirst : (store.overlay db.table).first = source.bytes 1 := by
    rw [PageTable.first, ← himage 1 (by decide) hpos]
    rfl
  by_cases hsame : store.overlay db.table = db.table
  · obtain rfl := hsettles.same hsame
    rw [hsame] at himage hfirst
    have hfile : SqliteHeader.recorded (file.bytes 1) = some source.pages.length := by
      rw [← hrecorded, ← hfirst]
      rfl
    refine ⟨hcounted _ hfile, ?_, hfile, fun p _ hle hzero => (himage p hzero hle).symm⟩
    rw [show source.table.first = file.bytes 1 from hfirst.symm]
    exact .refl _
  · rw [← hfirst] at hrecorded hvacuum
    refine (hsettles.left hsame hrecorded (fun p hzero hle => ?_) hvacuum).congr himage
    rw [← himage p hzero hle, source.table_of_mem (source.mem_pageNumbers.mpr ⟨hzero, hle⟩)]
    exact Option.some_ne_none _

/-- A pull of a completed push commits the pushed pages. As SQLite leaves it, the file has
these pages and no others, but for the change counter that a commit stamps on the first of
them; and a file that had all pages of the server is not touched. -/
theorem pull_replica [Sqlite.Documented] {source : Database} {before : Pages}
    (hbefore : PushSession.PushedStore before) {pushLabels : List Label}
    (hpushLabels : ∀ label ∈ pushLabels, label.Undisturbed) {push : Session PushClient}
    (hpush : Machine.run Session.step pushLabels (.start (.new source) .push before) = some push)
    {pushedPages pushedBytes : UInt64}
    (hpushed : push.client.phase = .finished pushedPages pushedBytes)
    (hinjPush : Set.InjOn pageHash (PushSession.Involved source before))
    (db : Database) (hinj : Set.InjOn pageHash (PushSession.Involved db push.pages))
    {labels : List Label} {s : Session PullClient}
    (hrun : Machine.run Session.step labels (.start (.new db) .pull push.pages) = some s)
    {pagesTransferred bytesTransferred : UInt64}
    (hphase : s.client.phase = .finished pagesTransferred bytesTransferred) :
    Sqlite.commit db (rows db push.pages) = some s.client.file ∧
    db.table.replay (rows db push.pages) = push.pages.bytes.overlay db.table ∧
    (∀ p ∈ source.pageNumbers, push.pages.bytes.overlay db.table p = source.table p) ∧
    (SqliteHeader.recorded (source.bytes 1) = some source.pages.length → db.Counted →
      ¬ Sqlite.Vacuums db (source.bytes 1) →
        Sqlite.Left source.table source.pages.length s.client.file) ∧
    (push.pages.bytes.overlay db.table = db.table → s.client.file = db) := by
  have hstore : PushSession.PushedStore push.pages := .push hbefore hpushLabels hpush hpushed
  have hwritten := (PushSession.pushed ((PushSession.agrees_start source before).run hpushLabels
    hpush) hbefore.hashed hinjPush hpushed).written
  have hpulled := pulled (agrees_of_finished hrun hphase) hstore.numbered hstore.hashed hinj hphase
  exact ⟨hpulled.committed.2, hpulled.image, fun p => image_eq_source hwritten,
    left_of_settles hwritten hpulled.settles, hpulled.settles.same⟩

omit [Blake3] [Sqlite] in
/-- A push of the two pages. -/
theorem twoPages_pushed :
    letI := Blake3.onPages
    ∃ push, Machine.run Session.step PushSession.samplePush
        (.start (PushClient.new Sqlite.twoPages) .push ∅) = some push ∧
      push.client.phase = .finished 2 1024 ∧ push.pages = sampleStore := by
  let _ := Blake3.onPages
  have hpush : (Machine.run Session.step PushSession.samplePush
      (.start (PushClient.new Sqlite.twoPages) .push ∅)).map (fun s => (s.client.phase, s.pages)) =
        some (.finished 2 1024, sampleStore) := by decide +kernel
  obtain ⟨push, hpush, heq⟩ := Option.map_eq_some_iff.mp hpush
  obtain ⟨hphase, hpages⟩ := Prod.mk.inj heq
  exact ⟨push, hpush, hphase, hpages⟩

omit [Blake3] [Sqlite] in
theorem twoPages_injOn :
    letI := Blake3.onPages
    Set.InjOn pageHash (PushSession.Involved Sqlite.twoPages ∅) := by
  let _ := Blake3.onPages
  refine Blake3.onPages_injOn.mono ?_
  rintro data (⟨p, hp⟩ | ⟨p, page, hpage, -⟩)
  · have hdata := Database.mem_of_table hp
    simp only [Sqlite.twoPages, List.mem_cons, List.not_mem_nil, or_false] at hdata
    rcases hdata with rfl | rfl <;> simp [Blake3.pages]
  · simp at hpage

omit [Blake3] [Sqlite] in
theorem pull_replica_sample :
    letI := Blake3.onPages
    letI := Sqlite.dbpage
    ∃ (push : Session PushClient) (s : Session PullClient),
      Machine.run Session.step samplePull (.start (PullClient.new Sqlite.onePage) .pull
        push.pages) = some s ∧
      Sqlite.Left Sqlite.twoPages.table 2 s.client.file := by
  let _ := Blake3.onPages
  let _ := Sqlite.dbpage
  let _ := Sqlite.dbpage_documented
  obtain ⟨push, hpush, hpushed, hpages⟩ := twoPages_pushed
  obtain ⟨s, hs, hphase⟩ := samplePull_finishes
  rw [← hpages] at hs
  have hinj := sampleStore_injOn onePage_known
  rw [← hpages] at hinj
  refine ⟨push, s, hs, (pull_replica .empty (by decide) hpush hpushed twoPages_injOn Sqlite.onePage
    hinj hs hphase).2.2.2.1 (by decide +kernel) ?_ (by decide +kernel)⟩
  have hone : SqliteHeader.recorded (Sqlite.onePage.bytes 1) = some 1 := by decide +kernel
  exact fun n hn => Option.some.inj (hone.symm.trans hn)

omit [Blake3] [Sqlite] in
/-- The commit of a pull counts the changes of the client's file, not those of the server's. -/
theorem pull_stamps_first_page :
    letI := Blake3.onPages
    letI := Sqlite.dbpage
    ¬ ∀ (source : Database) (before : Pages), PushSession.PushedStore before →
      Set.InjOn pageHash (PushSession.Involved source before) →
      ∀ (pushLabels : List Label) (push : Session PushClient) (pushedPages pushedBytes : UInt64),
        (∀ label ∈ pushLabels, label.Undisturbed) →
        Machine.run Session.step pushLabels (.start (.new source) .push before) = some push →
        push.client.phase = .finished pushedPages pushedBytes →
        ∀ (db : Database), Set.InjOn pageHash (PushSession.Involved db push.pages) →
          ∀ (labels : List Label) (s : Session PullClient)
            (pagesTransferred bytesTransferred : UInt64), (∀ label ∈ labels, label.Undisturbed) →
            Machine.run Session.step labels (.start (.new db) .pull push.pages) = some s →
            s.client.phase = .finished pagesTransferred bytesTransferred →
            s.client.file.table = push.pages.bytes := by
  let _ := Blake3.onPages
  let _ := Sqlite.dbpage
  intro h
  obtain ⟨push, hpush, hpushed, hpages⟩ := twoPages_pushed
  have hrun : (Machine.run Session.step samplePull
      (.start (PullClient.new Sqlite.onePage) .pull sampleStore)).map
        (fun s => (s.client.phase, s.client.file.table 1)) =
          some (.finished 2 1024, some (Sqlite.firstPage 2 2 2 1)) := by decide +kernel
  rw [← hpages] at hrun
  obtain ⟨s, hs, heq⟩ := Option.map_eq_some_iff.mp hrun
  obtain ⟨hphase, hrow⟩ := Prod.mk.inj heq
  have hinj := sampleStore_injOn onePage_known
  rw [← hpages] at hinj
  have hfile := h Sqlite.twoPages ∅ .empty twoPages_injOn PushSession.samplePush push 2 1024
    (by decide) hpush hpushed Sqlite.onePage hinj samplePull s 2 1024 (by decide) hs hphase
  rw [hfile, hpages] at hrow
  exact absurd hrow (by decide +kernel)

end PullSession

end EdgeReplica
