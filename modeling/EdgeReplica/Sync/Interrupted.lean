-- SUMMARY: Pushes that end early: what the server holds is the client's first pages over what it held before.
import EdgeReplica.Sync.AnyServer

/-!
# Interrupted pushes

When its connection is lost a client fails, and what it had sent may still be taken
up. So the server of a disturbed session stands where some undisturbed one has stood,
and a push that ends early has written its pages up to one of them.
-/

namespace EdgeReplica

open Session (Label)

/-! ## The first pages of a database -/

/-- The first `k` pages. -/
def Database.take (db : Database) (k : Nat) : Database where
  pages := db.pages.take k
  bounded := (List.length_take_le' k db.pages).trans db.bounded

theorem Database.table_take (db : Database) (k : Nat) (p : UInt32) :
    (db.take k).table p = if p.toNat ≤ k then db.table p else none := by
  unfold table
  by_cases hzero : p = 0
  · simp [hzero]
  · have hpos : p.toNat ≠ 0 := fun h => hzero (UInt32.toNat_inj.mp h)
    simp only [hzero, if_false, take, List.getElem?_take]
    split <;> split <;> first | rfl | omega

theorem Database.take_length (db : Database) : db.take db.pages.length = db := by
  simp [take]

theorem Database.toNat_of_split {db : Database} {before after : List UInt32} {p : UInt32}
    (h : db.pageNumbers = before ++ p :: after) : p.toNat = before.length + 1 := by
  have hlen := congrArg List.length h
  rw [pageNumbers, length_pageRange_one, db.toNat_maxPage, List.length_append,
    List.length_cons] at hlen
  have hbound := db.bounded
  rw [pageRange_one_split h, toNat_pageNo (by omega)]

/-- The first pages are those with the lowest numbers. -/
theorem Database.mem_of_split {db : Database} {ks rest : List UInt32}
    (h : db.pageNumbers = ks ++ rest) {p : UInt32} (hp : p ∈ db.pageNumbers) :
    p ∈ ks ↔ p.toNat ≤ ks.length := by
  constructor
  · intro hks
    obtain ⟨before, after, rfl⟩ := List.append_of_mem hks
    have hno := toNat_of_split (h.trans (List.append_assoc before (p :: after) rest))
    rw [List.length_append, List.length_cons]
    omega
  · intro hle
    rw [h, List.mem_append] at hp
    refine hp.resolve_right fun hrest => ?_
    obtain ⟨before, after, rfl⟩ := List.append_of_mem hrest
    have hno := toNat_of_split (h.trans (List.append_assoc ks before (p :: after)).symm)
    rw [List.length_append] at hno
    omega

namespace PushSession

variable [Blake3] {db : Database} {pages : Pages} {s : Session PushClient}

/-- The store of a server on the script. -/
theorem ServerAt.storage {consumed emitted : List SyncMessage}
    {task : SessionTask InMemorySyncStorage} (h : ServerAt db pages consumed emitted task) :
    ∃ ds rest, needed db pages = ds ++ rest ∧
      task.world.storage = pages.replay (ds.map db.entry) := by
  cases h with
  | fresh => exact ⟨[], _, rfl, rfl⟩
  | hashing _ h => exact ⟨[], _, rfl, h.storage⟩
  | serving hsplit h => exact ⟨_, _, hsplit, h.storage⟩

omit [Blake3] in
/-- Only what it cannot use is ignored by a client between two hashes. -/
theorem drainReady_fault {c : PushClient} {incoming : Incoming} (hphase : c.phase = .draining)
    (hfault : ∀ msg, incoming = .binary (.ok msg) → c.expects msg = false) :
    c.drainReady incoming = c ∨ ∃ error, (c.drainReady incoming).phase = .failed error := by
  match incoming with
  | .text _ | .ping | .close _ => exact .inl rfl
  | .binary (.error _) | .error | .ended => exact .inr ⟨_, rfl⟩
  | .binary (.ok msg) =>
    have hmsg := hfault msg rfl
    unfold PushClient.expects at hmsg
    rw [hphase] at hmsg
    cases msg with
    | requestPage _ | requestPages _ => cases hmsg
    | _ => exact .inr ⟨_, rfl⟩

omit [Blake3] in
theorem drain_fault {c : PushClient} {msg : SyncMessage} (hphase : c.phase = .serving)
    (hmsg : c.expects msg = false) : ∃ error, (c.drain msg).phase = .failed error := by
  unfold PushClient.expects at hmsg
  rw [hphase] at hmsg
  cases msg with
  | requestPage _ | requestPages _ | syncComplete _ _ => cases hmsg
  | _ => exact ⟨_, rfl⟩

omit [Blake3] in
theorem checkReply_fault {c : PushClient} {msg : SyncMessage} (hphase : c.phase = .awaitReply)
    (hmsg : c.expects msg = false) : ∃ error, checkReply msg = .error error := by
  unfold PushClient.expects at hmsg
  rw [hphase] at hmsg
  cases msg with
  | helloReply version _ _ =>
    exact ⟨.versionMismatch version, by simp [checkReply, of_decide_eq_false hmsg]⟩
  | _ => exact ⟨_, rfl⟩

theorem expects_of_fault {c : PushClient} {msg : SyncMessage}
    (hfault : Session.isFault c (.binary (.ok msg)) = true) : c.expects msg = false := by
  have hnot : (!c.expects msg) = true := hfault
  simpa using hnot

theorem receive_fault {c c' : PushClient} {incoming : Incoming}
    (hfault : Session.isFault c incoming = true) (hrecv : c.receive incoming = some c') :
    c' = c ∨ ∃ error, c'.phase = .failed error := by
  unfold PushClient.receive at hrecv
  split at hrecv
  · next hphase =>
    split at hrecv
    · next hping =>
      obtain rfl := readReply_none hping
      cases hfault
    · obtain rfl := Option.some.inj hrecv
      exact .inr ⟨_, rfl⟩
    · next hreply =>
      obtain ⟨pageSize, maxPage, rfl⟩ := readReply_ok hreply
      obtain ⟨error, herror⟩ := checkReply_fault hphase (expects_of_fault hfault)
      cases herror
  · next hphase =>
    obtain rfl := Option.some.inj hrecv
    refine drainReady_fault hphase fun msg heq => ?_
    subst heq
    exact expects_of_fault hfault
  · next hphase =>
    split at hrecv
    · cases hrecv
    · split at hrecv
      · next hping =>
        obtain rfl := recv_none hping
        cases hfault
      · obtain rfl := Option.some.inj hrecv
        exact .inr ⟨_, rfl⟩
      · next msg hmsg =>
        obtain rfl := Option.some.inj hrecv
        obtain rfl := recv_ok hmsg
        exact .inr (drain_fault hphase (expects_of_fault hfault))
  all_goals cases hrecv

def failing (db : Database) (pages : Pages) : (script db pages).Failing where
  Failed c := ∃ error, c.phase = .failed error
  refused := False.elim
  stopped := by
    rintro c ⟨error, hphase⟩
    simp [Peer.isOver, PushClient.isOver, hphase]
  advance := by
    rintro c ⟨error, hphase⟩
    simp [Peer.advance, PushClient.advance, hphase]
  receive := by
    rintro c ⟨error, hphase⟩ incoming
    simp [Peer.receive, PushClient.receive, hphase]
  fault hfault hrecv := receive_fault hfault hrecv
  lose := by
    intro c hover
    exact ⟨.send, by simp [Peer.lose, show c.isOver = false from hover, PushClient.fail]⟩

theorem follows_start (db : Database) (pages : Pages) :
    (script db pages).Follows (failing db pages) (.start (.new db) .push pages) :=
  .agrees (agrees_start db pages)

/-- With the first pages `ks` of the client compared, and those of them written that
differ, the store has the client's first pages over its own. -/
theorem bytes_replay (hhashed : pages.Hashed) (hinj : Set.InjOn pageHash (Involved db pages))
    {ks rest : List UInt32} (hsplit : db.pageNumbers = ks ++ rest) :
    (pages.replay ((ks.filter (mismatched db pages)).map db.entry)).bytes =
      (db.take ks.length).table.overlay pages.bytes := by
  have hneeded := needed_eq_differing hhashed hinj
  have hnodup : (ks.filter (mismatched db pages)).Nodup := by
    have hall := db.pageNumbers_nodup
    rw [hsplit] at hall
    exact (List.nodup_append.mp hall).1.filter _
  funext p
  rw [PageTable.overlay, Database.table_take]
  by_cases hwritten : p ∈ ks.filter (mismatched db pages)
  · have hrow : (pages.replay ((ks.filter (mismatched db pages)).map db.entry))[p]? = _ :=
      pages.getElem?_replay_of_mem (by rwa [entry_pageNos])
        (List.mem_map_of_mem (f := db.entry) hwritten)
    have hks := (List.mem_filter.mp hwritten).1
    have hmem : p ∈ db.pageNumbers := hsplit ▸ List.mem_append_left rest hks
    rw [Pages.bytes, hrow, if_pos ((Database.mem_of_split hsplit hmem).mp hks),
      db.table_of_mem hmem]
    rfl
  · have hrow : (pages.replay ((ks.filter (mismatched db pages)).map db.entry))[p]? = pages[p]? :=
      pages.getElem?_replay_of_notMem (by rwa [entry_pageNos])
    rw [Pages.bytes, hrow, ← Pages.bytes]
    split
    · next hle =>
      by_cases hmem : p ∈ db.pageNumbers
      · -- The page was compared and is not asked for: the two parties have the same bytes.
        have hks : p ∈ ks := (Database.mem_of_split hsplit hmem).mpr hle
        have hnot : p ∉ needed db pages := fun hin =>
          hwritten (List.mem_filter.mpr ⟨hks, (List.mem_filter.mp hin).2⟩)
        have hsame : pages.bytes p = db.table p := by
          rw [hneeded] at hnot
          simpa [differing, hmem, Pages.bytes] using hnot
        rw [hsame, Option.or_self]
      · rw [db.table_of_notMem hmem, Option.none_or]
    · rw [Option.none_or]

/-- A push that completes leaves all pages of the client. -/
theorem bytes_of_finished (hhashed : pages.Hashed)
    (hinj : Set.InjOn pageHash (Involved db pages)) {labels : List Label}
    (hrun : Machine.run Session.step labels (.start (.new db) .push pages) = some s)
    {pagesTransferred bytesTransferred : UInt64}
    (hphase : s.client.phase = .finished pagesTransferred bytesTransferred) :
    s.pages.bytes = db.table.overlay pages.bytes := by
  have hagrees := ((follows_start db pages).run hrun).agrees_of_not_failed (by
    rintro ⟨error, herror⟩
    exact absurd (hphase.symm.trans herror) (by simp))
  rw [pages_of_finished hagrees hphase, needed,
    bytes_replay hhashed hinj (List.append_nil _).symm, db.length_pageNumbers, db.take_length]

/-- However it ends, a push leaves the pages of the client up to one of them. -/
theorem bytes_of_run (hhashed : pages.Hashed) (hinj : Set.InjOn pageHash (Involved db pages))
    {labels : List Label}
    (hrun : Machine.run Session.step labels (.start (.new db) .push pages) = some s) :
    (∃ k, s.pages.bytes = (db.take k).table.overlay pages.bytes) ∧ s.pages.Hashed := by
  obtain ⟨consumed, emitted, task, hserver, hpages, -⟩ := ((follows_start db pages).run hrun).server
  obtain ⟨ds, rest, hneeded, hstorage⟩ := ServerAt.storage hserver
  obtain ⟨ks, after, hsplit, rfl, rfl⟩ := List.filter_eq_append_iff.mp hneeded
  rw [hpages, hstorage]
  exact ⟨⟨ks.length, bytes_replay hhashed hinj hsplit⟩, hhashed.replay _⟩

/-- Whatever becomes of the connection, a push leaves the pages of the client up to one of
them over what the server had; a push that completes leaves them all. -/
theorem push_interrupted (db : Database) {pages : Pages} (hhashed : pages.Hashed)
    (hinj : Set.InjOn pageHash (Involved db pages)) {labels : List Label} {s : Session PushClient}
    (hrun : Machine.run Session.step labels (.start (.new db) .push pages) = some s) :
    (∃ k, s.pages.bytes = (db.take k).table.overlay pages.bytes) ∧ s.pages.Hashed ∧
    ∀ pagesTransferred bytesTransferred,
      s.client.phase = .finished pagesTransferred bytesTransferred →
        s.pages.bytes = db.table.overlay pages.bytes := by
  obtain ⟨hcut, hkept⟩ := bytes_of_run hhashed hinj hrun
  exact ⟨hcut, hkept, fun _ _ hphase => bytes_of_finished hhashed hinj hrun hphase⟩

/-- The connection is lost after the bytes of the first page were sent. -/
def lostPush : List Label :=
  [.client, .serve 0, .deliver, .client, .serve 0, .deliver, .client, .client, .client, .serve 0,
    .client, .client, .lost, .serve 0, .serve 0]

omit [Blake3] in
theorem push_interrupted_sample :
    letI := Blake3.onSamples
    ∃ s, Machine.run Session.step lostPush (.start (PushClient.new sampleDatabase) .push ∅) =
        some s ∧
      s.client.phase = .failed .send ∧ s.pages = (∅ : Pages).insert 1 ⟨[1], pageHash [1]⟩ ∧
      ∃ k, s.pages.bytes = (sampleDatabase.take k).table.overlay (∅ : Pages).bytes := by
  let _ := Blake3.onSamples
  have hrun : (Machine.run Session.step lostPush
      (.start (PushClient.new sampleDatabase) .push ∅)).map (fun s => (s.client.phase, s.pages)) =
        some (.failed .send, (∅ : Pages).insert 1 ⟨[1], pageHash [1]⟩) := by decide +kernel
  obtain ⟨s, hs, heq⟩ := Option.map_eq_some_iff.mp hrun
  obtain ⟨hphase, hpages⟩ := Prod.mk.inj heq
  exact ⟨s, hs, hphase, hpages,
    (push_interrupted sampleDatabase Pages.Hashed.empty sampleDatabase_injOn hs).1⟩

end PushSession

end EdgeReplica
