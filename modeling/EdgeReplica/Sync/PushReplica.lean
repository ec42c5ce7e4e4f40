-- SUMMARY: What an undisturbed push session achieves, and which server stores it makes a replica of the client.
import Mathlib.Data.Set.Function
import EdgeReplica.Sync.Push
import EdgeReplica.Worker.PageWrites

/-!
# Push sessions, end to end

The results about the system of both parties: no schedule leads into an error or
a deadlock, and a client that has received `SyncComplete` has its pages in the
server's store.
-/

namespace EdgeReplica

open Session (Label hello reply hashOf)

namespace PushSession

variable [Blake3] {db : Database} {pages : Pages}

variable {s : Session PushClient}

/-! ## No error and no deadlock -/

theorem no_failure (h : (script db pages).Agrees s) :
    (∀ error, s.client.phase ≠ .failed error) ∧
    (s.server.running = true ∨ s.server.closed = some (1000, "sync complete")) ∧
    ∀ message, .error message ∉ s.server.sent := by
  obtain ⟨consumed, received, hserver, hclient, -⟩ := h
  refine ⟨hclient.not_failed, ?_, fun message hmem => ?_⟩
  · cases hrun : s.server.running with
    | true => exact .inl rfl
    | false => exact .inr (hserver.complete (hserver.of_stopped hrun)).2.closed
  · rw [hserver.sent] at hmem
    have hframe := hserver.emitted_isPrefix.subset hmem
    simp [serverFrames, reply, completion] at hframe

/-- A server that has taken up `Complete` and the bytes of `ds` has sent more than
the requests for `ds`. -/
theorem ServerAt.ahead {ds : List UInt32} {emitted : List SyncMessage}
    {task : SessionTask InMemorySyncStorage}
    (h : ServerAt db pages (hello db :: (db.pageNumbers.map (hashOf db) ++
      .complete :: ds.map (dataOf db))) emitted task) :
    emitted ≠ reply pages :: ds.map .requestPage := by
  generalize hconsumed : hello db :: (db.pageNumbers.map (hashOf db) ++
    .complete :: ds.map (dataOf db)) = consumed at h
  cases h with
  | fresh => simp at hconsumed
  | @hashing ks rest _ hsplit _ =>
    have hmem : SyncMessage.complete ∈ hello db :: ks.map (hashOf db) := by simp [← hconsumed]
    simp [hello, hashOf] at hmem
  | @serving ds' rest _ hsplit _ =>
    -- Both have sent as much as the other took up, so the counts must differ.
    have htaken := congrArg List.length hconsumed
    intro hemitted
    have hsent := congrArg List.length hemitted
    have hneeded := congrArg List.length hsplit
    cases rest with
    | nil =>
      simp only [List.length_cons, List.length_append, List.length_map, List.length_nil,
        if_true] at htaken hsent hneeded
      omega
    | cons p rest =>
      simp only [List.length_cons, List.length_append, List.length_map, List.length_nil,
        reduceCtorEq, if_false] at htaken hsent hneeded
      omega

omit [Blake3] in
theorem receive_awaiting {c : PushClient} (h : c.phase = .awaitReply) (msg : SyncMessage) :
    ∃ c', c.receive (.binary (.ok msg)) = some c' := by
  simp only [PushClient.receive, h, readReply, recv, Option.map_some]
  cases (Except.ok msg).bind checkReply with
  | ok _ => exact ⟨_, rfl⟩
  | error e => exact ⟨_, rfl⟩

/-- A server that has sent nothing waits for the first frame. -/
theorem ServerAt.of_silent {consumed : List SyncMessage} {task : SessionTask InMemorySyncStorage}
    (h : ServerAt db pages consumed [] task) : consumed = [] ∧ task.running = true := by
  cases h with
  | fresh => exact ⟨rfl, rfl⟩

/-- While the client has not returned, some step is enabled. -/
theorem enabled (h : (script db pages).Agrees s) (hover : s.client.isOver = false) : s.Enabled := by
  obtain ⟨consumed, received, hserver, hclient, hsent⟩ := h
  generalize hclientEq : s.client = client at hclient hover
  generalize hsentEq : s.clientSent = sent at hclient hsent
  cases hclient with
  | start => exact Session.enabled_client (by rw [hclientEq]; rfl)
  | awaitReply =>
    cases hqueue : s.toClient with
    | cons msg rest =>
      obtain ⟨client, hrecv⟩ := receive_awaiting
        (c := { PushClient.new db with phase := .awaitReply }) rfl msg
      exact Session.enabled_deliver hqueue (by rw [hclientEq]; exact hrecv)
    | nil =>
      rw [hqueue] at hserver
      obtain ⟨rfl, hrun⟩ := hserver.of_silent
      exact Session.enabled_serve hsent.symm hrun
  | @hashing ks rest rs more phase hsplit hneeded hphase =>
    rcases hphase with rfl | rfl
    · cases rest with
      | nil =>
        obtain rfl : ks = db.pageNumbers := by simpa using hsplit.symm
        have hadv : (PushClient.mk (.after db db.pageNumbers.length) rs .hashing).advance =
            some (⟨.after db db.pageNumbers.length, rs, .serving⟩, [.complete]) := by
          simp [PushClient.advance, PageReader.nextHash_done]
        exact Session.enabled_client (by rw [hclientEq]; exact hadv)
      | cons p rest =>
        have hadv : (PushClient.mk (.after db ks.length) rs .hashing).advance =
            some (⟨.after db (ks.length + 1), rs, .draining⟩, [hashOf db p]) := by
          simp [PushClient.advance, PageReader.nextHash_more hsplit, hashOf]
        exact Session.enabled_client (by rw [hclientEq]; exact hadv)
    · exact Session.enabled_client (by rw [hclientEq]; rfl)
  | @serving ds pending more hneeded =>
    cases pending with
    | cons p pending =>
      have hp : p ∈ needed db pages := by simp [hneeded]
      have hmem : p ∈ db.pageNumbers := (List.mem_filter.mp hp).1
      have hadv :
          (PushClient.mk (.after db db.pageNumbers.length) (p :: pending) .serving).advance =
          some (⟨.after db db.pageNumbers.length, pending, .serving⟩, [dataOf db p]) := by
        simp [PushClient.advance, PageReader.readPage_of_mem hmem, dataOf]
      exact Session.enabled_client (by rw [hclientEq]; exact hadv)
    | nil =>
      cases hqueue : s.toClient with
      | cons msg rest =>
        have hrecv : (PushClient.mk (.after db db.pageNumbers.length) [] .serving).receive
            (.binary (.ok msg)) = some (PushClient.drain ⟨.after db db.pageNumbers.length, [],
              .serving⟩ msg) := by
          simp [PushClient.receive, recv]
        exact Session.enabled_deliver hqueue (by rw [hclientEq]; exact hrecv)
      | nil =>
        rw [hqueue, List.append_nil] at hserver
        cases hqueue' : s.toServer with
        | cons msg rest =>
          refine Session.enabled_serve hqueue' ?_
          cases hrun : s.server.running with
          | true => rfl
          | false =>
            have hmem : completion db pages ∈ serverFrames db pages := by simp [serverFrames]
            rw [← hserver.of_stopped hrun] at hmem
            simp [completion, reply] at hmem
        | nil =>
          rw [hqueue', List.append_nil] at hsent
          rw [← hsent] at hserver
          exact absurd (by simp) hserver.ahead
  | finished => simp [PushClient.isOver] at hover

/-! ## What a completed session leaves -/

/-- The pages of the client that the server lacks or holds with other bytes. -/
def differing (db : Database) (pages : Pages) : List UInt32 :=
  db.pageNumbers.filter fun p => decide ((pages[p]?).map Page.data ≠ db.table p)

/-- The bytes of the pages that the two parties hold. -/
def Involved (db : Database) (pages : Pages) : Set Bytes :=
  { data | (∃ p, db.table p = some data) ∨
    ∃ (p : UInt32) (page : Page), pages[p]? = some page ∧ page.data = data }

/-- Without a collision of digests, the server asks for the pages that differ. -/
theorem needed_eq_differing (hhashed : pages.Hashed)
    (hinj : Set.InjOn pageHash (Involved db pages)) : needed db pages = differing db pages := by
  refine List.filter_congr fun p hp => ?_
  have hclient := db.table_of_mem hp
  simp only [mismatched, hclient]
  rw [decide_eq_decide]
  refine not_congr ?_
  cases hpage : pages[p]? with
  | none => simp
  | some page =>
    have hhash : page.hash = pageHash page.data := hhashed p page hpage
    simp only [Option.map_some, Option.some.injEq, hhash]
    refine ⟨fun heq => hinj (.inr ⟨p, page, hpage, rfl⟩) (.inl ⟨p, hclient⟩) heq, fun heq => ?_⟩
    rw [heq]

/-- What the client's `SyncComplete` stands for. -/
structure Pushed (db : Database) (pages : Pages) (s : Session PushClient)
    (pagesTransferred bytesTransferred : UInt64) : Prop where
  /-- The store holds the client's bytes. -/
  written : ∀ p ∈ db.pageNumbers, s.pages.bytes p = db.table p
  /-- Every other row is as it was. -/
  kept : ∀ p ∉ differing db pages, s.pages[p]? = pages[p]?
  /-- Each page that differs was asked for once, and no other. -/
  requested : ∀ p, s.server.sent.countP (SyncMessage.requests p) =
    if p ∈ differing db pages then 1 else 0
  /-- Each page that differs was sent once, and no other. -/
  sent : ∀ p, s.clientSent.countP (SyncMessage.carries p) =
    if p ∈ differing db pages then 1 else 0
  pages_eq : pagesTransferred.toNat = (differing db pages).length
  bytes_eq : bytesTransferred = UInt64.ofNat (db.size (differing db pages))

omit [Blake3] in
theorem entry_pageNos (ps : List UInt32) : (ps.map db.entry).map PageDataEntry.pageNo = ps := by
  simp [Function.comp_def, Database.entry]

/-- A page that was asked for holds the client's bytes, and every other is as it was. -/
theorem getElem?_replay_needed (p : UInt32) :
    (pages.replay ((needed db pages).map db.entry))[p]? =
      if p ∈ needed db pages then some ⟨db.bytes p, pageHash (db.bytes p)⟩ else pages[p]? := by
  split
  · next hp =>
    have hnodup : (needed db pages).Nodup := db.pageNumbers_nodup.filter _
    have hmem : db.entry p ∈ (needed db pages).map db.entry := List.mem_map_of_mem hp
    exact pages.getElem?_replay_of_mem (by rwa [entry_pageNos]) hmem
  · next hp => exact pages.getElem?_replay_of_notMem (by rwa [entry_pageNos])

omit [Blake3] in
/-- Counting the frames about page `p` among the frames about each page of a list. -/
theorem countP_frames (frame : UInt32 → SyncMessage) (about : SyncMessage → Bool)
    {ps : List UInt32} (hnodup : ps.Nodup) (p : UInt32) (habout : ∀ q, about (frame q) = (q == p)) :
    (ps.map frame).countP about = if p ∈ ps then 1 else 0 := by
  rw [List.countP_map, ← hnodup.count]
  exact List.countP_congr fun q _ => by simp [habout]

/-- The store of a completed push: the pages asked for, over the store before. -/
theorem pages_of_finished (h : (script db pages).Agrees s)
    {pagesTransferred bytesTransferred : UInt64}
    (hphase : s.client.phase = .finished pagesTransferred bytesTransferred) :
    s.pages = pages.replay ((needed db pages).map db.entry) := by
  obtain ⟨hserver, -, -⟩ := h.of_over (by simp [Peer.isOver, PushClient.isOver, hphase])
  exact (ServerAt.complete hserver rfl).2.storage

/-- However the digests fall, a completed push leaves its own at its pages. -/
theorem hash_of_finished (h : (script db pages).Agrees s)
    {pagesTransferred bytesTransferred : UInt64}
    (hphase : s.client.phase = .finished pagesTransferred bytesTransferred) {p : UInt32}
    (hp : p ∈ db.pageNumbers) : (s.pages[p]?).map Page.hash = some (pageHash (db.bytes p)) := by
  rw [pages_of_finished h hphase, getElem?_replay_needed]
  split
  · rfl
  · next hkept => simpa [needed, hp, mismatched] using hkept

theorem pushed (h : (script db pages).Agrees s) (hhashed : pages.Hashed)
    (hinj : Set.InjOn pageHash (Involved db pages)) {pagesTransferred bytesTransferred : UInt64}
    (hphase : s.client.phase = .finished pagesTransferred bytesTransferred) :
    Pushed db pages s pagesTransferred bytesTransferred := by
  obtain ⟨hserver, hclient, hclientSent⟩ :=
    h.of_over (by simp [Peer.isOver, PushClient.isOver, hphase])
  have hserverSent : s.server.sent = serverFrames db pages := ServerAt.sent hserver
  have hstore : s.pages = pages.replay ((needed db pages).map db.entry) :=
    pages_of_finished h hphase
  have hneeded := needed_eq_differing hhashed hinj
  have hnodup : (needed db pages).Nodup := db.pageNumbers_nodup.filter _
  obtain ⟨rfl, rfl⟩ : _ ∧ _ := by
    simpa [ClientAt.finished_of_received hclient rfl] using hphase
  refine ⟨fun p hp => ?_, fun p hp => ?_, fun p => ?_, fun p => ?_, ?_, ?_⟩
  · rw [Pages.bytes, hstore, getElem?_replay_needed, hneeded]
    split
    · exact (db.table_of_mem hp).symm
    · next hsame =>
      simpa [differing, hp] using hsame
  · rw [hstore, getElem?_replay_needed, hneeded, if_neg hp]
  · have hrequests := countP_frames .requestPage (SyncMessage.requests p) hnodup p fun _ => rfl
    rw [hserverSent, serverFrames, List.countP_cons, List.countP_append, hrequests,
      hneeded]
    simp [SyncMessage.requests, reply, completion]
  · have hdata := countP_frames (dataOf db) (SyncMessage.carries p) hnodup p
      fun q => by simp [SyncMessage.carries, SyncMessage.entries, dataOf]
    have hhashes : (db.pageNumbers.map (hashOf db)).countP (SyncMessage.carries p) = 0 := by
      simp [SyncMessage.carries, SyncMessage.entries, hashOf]
    rw [hclientSent, show (script db pages).clientFrames = clientFrames db pages from rfl,
      clientFrames, List.countP_cons, List.countP_append, hhashes, List.countP_cons,
      hdata, hneeded]
    simp [SyncMessage.carries, SyncMessage.entries, hello]
  · have hlen : (differing db pages).length ≤ 4294967294 := by
      have hfilter := List.length_filter_le
        (fun p => decide ((pages[p]?).map Page.data ≠ db.table p)) db.pageNumbers
      rw [Database.pageNumbers, length_pageRange_one, db.toNat_maxPage] at hfilter
      exact hfilter.trans db.bounded
    rw [hneeded]
    exact UInt64.toNat_ofNat_of_lt' (Nat.lt_of_le_of_lt hlen (by decide))
  · rw [hneeded]

/-- A push session without disturbance, under any schedule: neither party fails,
some step is enabled until the client has received `SyncComplete`, and then the
server holds the client's pages. -/
theorem push_session (db : Database) {pages : Pages} (hstore : ReachableStore pages)
    (hinj : Set.InjOn pageHash (Involved db pages)) {labels : List Label}
    (hlabels : ∀ label ∈ labels, label.Undisturbed) {s : Session PushClient}
    (hrun : Machine.run Session.step labels (.start (.new db) .push pages) = some s) :
    ((∀ error, s.client.phase ≠ .failed error) ∧
      (s.server.running = true ∨ s.server.closed = some (1000, "sync complete")) ∧
      ∀ message, .error message ∉ s.server.sent) ∧
    ((∀ pagesTransferred bytesTransferred,
        s.client.phase ≠ .finished pagesTransferred bytesTransferred) →
      s.Enabled) ∧
    ∀ pagesTransferred bytesTransferred,
      s.client.phase = .finished pagesTransferred bytesTransferred →
        Pushed db pages s pagesTransferred bytesTransferred := by
  have h := (agrees_start db pages).run hlabels hrun
  refine ⟨no_failure h, fun hunfinished => enabled h ?_, fun _ _ => pushed h hstore.hashed hinj⟩
  cases hphase : s.client.phase with
  | finished pagesTransferred bytesTransferred => exact absurd hphase (hunfinished _ _)
  | failed error => exact absurd hphase ((no_failure h).1 error)
  | _ => simp [PushClient.isOver, hphase]

/-- A database of two pages. -/
def sampleDatabase : Database := ⟨[[1], [2]], by simp⟩

/-- A schedule of its push in which requests arrive between hashes and after them. -/
def samplePush : List Label :=
  [.client, .serve 0, .deliver, .client, .serve 0, .deliver, .client, .client, .client, .serve 0,
    .client, .client, .deliver, .client, .serve 0, .serve 0, .serve 0, .deliver]

omit [Blake3] in
theorem sampleDatabase_injOn :
    Set.InjOn (@pageHash Blake3.onSamples) (Involved sampleDatabase ∅) := by
  refine Blake3.onSamples_injOn.mono ?_
  rintro data (⟨p, hp⟩ | ⟨p, page, hpage, -⟩)
  · have hdata : data = [1] ∨ data = [2] := by simpa [sampleDatabase] using Database.mem_of_table hp
    rcases hdata with rfl | rfl <;> decide
  · simp at hpage

omit [Blake3] in
/-- The schedule leads to a client that has received `SyncComplete`. -/
theorem samplePush_finishes :
    letI := Blake3.onSamples
    ∃ s, Machine.run Session.step samplePush (.start (PushClient.new sampleDatabase) .push ∅) =
        some s ∧
      s.client.phase = .finished 2 2 ∧
      s.pages = ((∅ : Pages).insert 1 ⟨[1], pageHash [1]⟩).insert 2 ⟨[2], pageHash [2]⟩ := by
  let _ := Blake3.onSamples
  have hrun : (Machine.run Session.step samplePush
      (.start (PushClient.new sampleDatabase) .push ∅)).map (fun s => (s.client.phase, s.pages)) =
        some (.finished 2 2,
          ((∅ : Pages).insert 1 ⟨[1], pageHash [1]⟩).insert 2 ⟨[2], pageHash [2]⟩) := by
    decide +kernel
  obtain ⟨s, hs, heq⟩ := Option.map_eq_some_iff.mp hrun
  obtain ⟨hphase, hpages⟩ := Prod.mk.inj heq
  exact ⟨s, hs, hphase, hpages⟩

omit [Blake3] in
theorem push_session_sample :
    letI := Blake3.onSamples
    ∃ s, Machine.run Session.step samplePush (.start (PushClient.new sampleDatabase) .push ∅) =
        some s ∧
      Pushed sampleDatabase ∅ s 2 2 := by
  let _ := Blake3.onSamples
  obtain ⟨s, hs, hphase, -⟩ := samplePush_finishes
  refine ⟨s, hs, ?_⟩
  exact (push_session sampleDatabase .empty sampleDatabase_injOn
    (by decide) hs).2.2 2 2 hphase

/-! ## When the store becomes a replica -/

/-- The stores that completed pushes leave, of databases of any size. -/
inductive PushedStore : Pages → Prop
  | empty : PushedStore ∅
  | push {pages : Pages} {db : Database} {labels : List Label} {s : Session PushClient}
      {pagesTransferred bytesTransferred : UInt64} (h : PushedStore pages)
      (hlabels : ∀ label ∈ labels, label.Undisturbed)
      (hrun : Machine.run Session.step labels (.start (.new db) .push pages) = some s)
      (hphase : s.client.phase = .finished pagesTransferred bytesTransferred) :
      PushedStore s.pages

theorem PushedStore.hashed (h : PushedStore pages) : pages.Hashed := by
  induction h with
  | empty => exact Pages.Hashed.empty
  | push _ hlabels hrun hphase ih =>
    rw [pages_of_finished ((agrees_start _ _).run hlabels hrun) hphase]
    exact ih.replay _

/-- No push writes a page numbered zero. -/
theorem PushedStore.numbered (h : PushedStore pages) : pages[(0 : UInt32)]? = none := by
  induction h with
  | empty => rfl
  | @push pages db _ _ _ _ _ hlabels hrun hphase ih =>
    have hzero : 0 ∉ needed db pages := fun hmem =>
      (db.mem_pageNumbers.mp (List.mem_filter.mp hmem).1).1 rfl
    rw [pages_of_finished ((agrees_start _ _).run hlabels hrun) hphase, getElem?_replay_needed,
      if_neg hzero, ih]

/-- A completed push makes the store a replica of the client exactly when the
store had no page above the client's last: the server never drops a page. -/
theorem push_replica_iff (db : Database) {pages : Pages} (hstore : PushedStore pages)
    (hinj : Set.InjOn pageHash (Involved db pages)) {labels : List Label}
    (hlabels : ∀ label ∈ labels, label.Undisturbed) {s : Session PushClient}
    (hrun : Machine.run Session.step labels (.start (.new db) .push pages) = some s)
    {pagesTransferred bytesTransferred : UInt64}
    (hphase : s.client.phase = .finished pagesTransferred bytesTransferred) :
    s.pages.bytes = db.table ↔ ∀ p ∈ pages, p ≤ db.maxPage := by
  have hpushed := pushed ((agrees_start db pages).run hlabels hrun) hstore.hashed hinj hphase
  have hkept : ∀ p ∉ db.pageNumbers, s.pages.bytes p = pages.bytes p := fun p hp => by
    have hsame : p ∉ differing db pages := fun hmem => hp (List.mem_filter.mp hmem).1
    rw [Pages.bytes, Pages.bytes, hpushed.kept p hsame]
  constructor
  · intro htable p hp
    by_contra hlt
    have hnot : p ∉ db.pageNumbers := fun hmem => hlt (mem_pageRange.mp hmem).2
    have hnone : pages.bytes p = none := by
      rw [← hkept p hnot, htable, db.table_of_notMem hnot]
    rw [Pages.bytes, Option.map_eq_none_iff] at hnone
    exact Pages.mem_iff_ne_none.mp hp hnone
  · intro hbound
    funext p
    by_cases hmem : p ∈ db.pageNumbers
    · exact hpushed.written p hmem
    · rw [hkept p hmem, db.table_of_notMem hmem, Pages.bytes, Option.map_eq_none_iff]
      by_contra hsome
      have hp : p ∈ pages := Pages.mem_iff_ne_none.mpr hsome
      have hzero : p ≠ 0 := fun h0 => hsome (h0 ▸ hstore.numbered)
      refine hmem (db.mem_pageNumbers.mpr ⟨hzero, ?_⟩)
      rw [← db.toNat_maxPage]
      exact UInt32.le_iff_toNat_le.mp (hbound p hp)

omit [Blake3] in
theorem push_replica_sample :
    letI := Blake3.onSamples
    ∃ s, Machine.run Session.step samplePush (.start (PushClient.new sampleDatabase) .push ∅) =
        some s ∧
      (s.pages.bytes = sampleDatabase.table ↔ ∀ p ∈ (∅ : Pages), p ≤ sampleDatabase.maxPage) := by
  let _ := Blake3.onSamples
  obtain ⟨s, hs, hphase, -⟩ := samplePush_finishes
  exact ⟨s, hs, push_replica_iff sampleDatabase .empty sampleDatabase_injOn (by decide) hs hphase⟩

/-- The same database after it shrank to its first page. -/
def shrunkDatabase : Database := .single [1]

def shrunkPush : List Label :=
  [.client, .serve 0, .deliver, .client, .serve 0, .client, .client, .serve 0, .deliver]

omit [Blake3] in
/-- After a database of two pages was pushed, the push of one page leaves the second. -/
theorem push_keeps_stale_page :
    letI := Blake3.onSamples
    ¬ ∀ (db : Database) (pages : Pages), PushedStore pages →
      Set.InjOn pageHash (Involved db pages) →
      ∀ (labels : List Label) (s : Session PushClient) (pagesTransferred bytesTransferred : UInt64),
        (∀ label ∈ labels, label.Undisturbed) →
        Machine.run Session.step labels (.start (.new db) .push pages) = some s →
        s.client.phase = .finished pagesTransferred bytesTransferred →
        s.pages.bytes = db.table := by
  let _ := Blake3.onSamples
  intro h
  obtain ⟨s₁, hs₁, hphase₁, hpages₁⟩ := samplePush_finishes
  have hstore : PushedStore s₁.pages := .push .empty (by decide) hs₁ hphase₁
  have hrun : (Machine.run Session.step shrunkPush (.start (PushClient.new shrunkDatabase) .push
      (((∅ : Pages).insert 1 ⟨[1], pageHash [1]⟩).insert 2 ⟨[2], pageHash [2]⟩))).map
        (fun s => (s.client.phase, s.pages.bytes 2)) = some (.finished 0 0, some [2]) := by
    decide +kernel
  rw [← hpages₁] at hrun
  obtain ⟨s₂, hs₂, heq⟩ := Option.map_eq_some_iff.mp hrun
  obtain ⟨hphase₂, hrow⟩ := Prod.mk.inj heq
  have hinj : Set.InjOn pageHash (Involved shrunkDatabase s₁.pages) := by
    refine Blake3.onSamples_injOn.mono ?_
    rintro data (⟨p, hp⟩ | ⟨p, page, hpage, rfl⟩)
    · have hdata : data = [1] := by simpa [shrunkDatabase] using Database.mem_of_table hp
      subst hdata
      decide
    · rw [hpages₁, Std.ExtTreeMap.getElem?_insert, Std.ExtTreeMap.getElem?_insert] at hpage
      split at hpage
      · obtain rfl : _ = page := by simpa using hpage
        decide
      · split at hpage
        · obtain rfl : _ = page := by simpa using hpage
          decide
        · simp at hpage
  have htable := h shrunkDatabase s₁.pages hstore hinj shrunkPush s₂ 0 0 (by decide) hs₂ hphase₂
  rw [htable] at hrow
  exact absurd hrow (by decide)

end PushSession

end EdgeReplica
