-- SUMMARY: The page size of the handshake: what the server makes of it, and what the client announces.
import EdgeReplica.Client.SyncWs
import EdgeReplica.Services.AcceptedRuns

/-!
# The announced page size

The server gives the announced size back and does nothing else with it: what a push
stores is what its frames carried, of whatever length. The client announces the
default size whatever database it opens.
-/

namespace EdgeReplica

theorem SyncMessage.entries_parts (msg : SyncMessage) :
    msg.parts.flatMap SyncMessage.entries = msg.entries := by
  cases msg with
  | pageDataBatch pages =>
    show (pages.map fun entry => SyncMessage.pageData entry.pageNo entry.data).flatMap _ = pages
    induction pages with
    | nil => rfl
    | cons entry pages ih =>
      rw [List.map_cons, List.flatMap_cons, ih]
      rfl
  | _ => rfl

theorem Frame.entries_parts (frames : List Frame) :
    (frames.flatMap Frame.parts).flatMap (fun frame => frame.2.entries) =
      frames.flatMap fun frame => frame.2.entries := by
  induction frames with
  | nil => rfl
  | cons frame frames ih =>
    rw [List.flatMap_cons, List.flatMap_append, ih, List.flatMap_cons]
    congr 1
    rw [← frame.2.entries_parts, Frame.parts, List.flatMap_map]

namespace SyncFsm

variable [Blake3]

section

variable {pages : Pages} {frames : List Frame} {frame : Frame}
  {w w' : World InMemorySyncStorage}

omit [Blake3] in
theorem storedBy_passGate (w : World InMemorySyncStorage) :
    storedBy (passGate w).history = storedBy w.history := by
  unfold passGate
  split
  · rw [World.setFsm_history, World.hand_history, storedBy_append]
    exact List.append_nil _
  · rfl

theorem storedBy_part {msg : SyncMessage} (h : PushPart w msg w') :
    storedBy w'.history = storedBy w.history ++ msg.entries := by
  cases h with
  | claimed hclaim =>
    cases hclaim with
    | requested _ _ | served _ _ _ | batchMismatched _ =>
      rw [World.hand_history, storedBy_append]
      rfl
    | _ => exact (List.append_nil _).symm
  | data entry =>
    rw [storedBy_passGate]
    simp [taken, storedBy, SyncMessage.entries]
  | complete =>
    rw [storedBy_passGate]
    simp [completing, storedBy, SyncMessage.entries]

/-- The pages a push stores are the entries of its frames, in order. -/
theorem storedBy_of_run (hrun : Machine.run accept frames (opening .push pages) = some w) :
    storedBy w.history = frames.flatMap fun frame => frame.2.entries := by
  rw [← Frame.entries_parts]
  have hparts : ∀ part ∈ frames.flatMap Frame.parts, part.2.IsPart := by
    intro part hmem
    obtain ⟨frame, -, hpart⟩ := List.mem_flatMap.mp hmem
    obtain ⟨msg, hmsg, rfl⟩ := List.mem_map.mp hpart
    exact SyncMessage.isPart_of_mem hmsg
  refine (Machine.run_traces (run_parts hrun) (I := fun parts w =>
    (∀ part ∈ parts, part.2.IsPart) → Machine.run accept parts (opening .push pages) = some w ∧
      storedBy w.history = parts.flatMap fun part => part.2.entries) (fun _ => ⟨rfl, rfl⟩) ?_
    hparts).2
  intro before part w w' hstep ih hparts
  obtain ⟨hbefore, hstored⟩ := ih fun part hmem => hparts part (List.mem_append_left _ hmem)
  refine ⟨?_, ?_⟩
  · rw [Machine.run_append, hbefore]
    exact (Machine.run_singleton accept part w).trans hstep
  · rw [List.flatMap_append, ← hstored]
    have hpart : part.2.IsPart := hparts part (by simp)
    obtain ⟨nowMs, msg⟩ := part
    cases hsaw : w.fsm.sawHello with
    | true =>
      have hpart := accept_push (greeted_of_run hbefore hsaw) hpart hstep
      rw [storedBy_part hpart]
      simp
    | false =>
      obtain ⟨pageSize, maxPage, rfl⟩ := accept_first hstep hsaw
      rw [accept_eq_some, run_apply_hello (fixed_of_run hbefore).2 hsaw] at hstep
      obtain ⟨-, rfl⟩ := EStateM.Result.ok.inj hstep
      rw [World.hand_history, storedBy_append]
      rfl

/-- The announced page size is given back. -/
theorem reply_of_run {nowMs : Int64} {version pageSize maxPage : UInt32}
    (hrun : Machine.run accept ((nowMs, .hello version pageSize maxPage) :: frames)
      (opening .push pages) = some w) :
    ∃ w₁, accept (nowMs, .hello version pageSize maxPage) (opening .push pages) = some w₁ ∧
      w₁.history =
        [.handed (.helloReply HANDSHAKE_VERSION pageSize (pages.keys.getLast?.getD 0)) none] := by
  obtain ⟨w₁, hframe, -⟩ := Option.bind_eq_some_iff.mp hrun
  refine ⟨w₁, hframe, ?_⟩
  obtain ⟨size, max, heq⟩ := accept_first hframe rfl
  obtain ⟨rfl, -, -⟩ := SyncMessage.hello.inj heq
  rw [accept_eq_some, run_apply_hello rfl rfl] at hframe
  obtain ⟨-, rfl⟩ := EStateM.Result.ok.inj hframe
  rfl

end

end SyncFsm

/-! ## The client -/

/-- A point at which a client goes on. -/
inductive Turn where
  | advance
  | receive (incoming : Incoming)
  /-- The connection is lost. -/
  | lose

/-- One turn of a client, with the frames it has sent so far. -/
def Turn.take {C : Type} [Peer C] (turn : Turn) (s : C × List SyncMessage) :
    Option (C × List SyncMessage) :=
  match turn with
  | .advance => (Peer.advance s.1).map fun next => (next.1, s.2 ++ next.2)
  | .receive incoming => (Peer.receive s.1 incoming).map fun next => (next, s.2)
  | .lose => some (Peer.lose s.1, s.2)

/-- Every page has `n` bytes. -/
def Database.Paged (db : Database) (n : Nat) : Prop := ∀ page ∈ db.pages, page.length = n

namespace PushClient

variable [Blake3] {db : Database} {c c' : PushClient} {sent frames : List SyncMessage}

/-- What a client has sent, if anything: a `Hello` of the default page size, and pages
of its database. -/
structure Sending (db : Database) (s : PushClient × List SyncMessage) : Prop where
  conn : s.1.reader.conn = db
  started : s.2 = [] ∧ (s.1.phase = .hello ∨ ∃ e, s.1.phase = .failed e) ∨
    ∃ maxPage, .hello HANDSHAKE_VERSION DEFAULT_PAGE_SIZE maxPage ∈ s.2
  hellos : ∀ version pageSize maxPage, .hello version pageSize maxPage ∈ s.2 →
    pageSize = DEFAULT_PAGE_SIZE
  pages : ∀ p data, .pageData p data ∈ s.2 → db.table p = some data

omit [Blake3] in
/-- A turn that sends only pages, if anything, of a client that has said `Hello`. -/
theorem Sending.append (h : Sending db (c, sent)) (hphase : c.phase ≠ .hello)
    (hfailed : ∀ e, c.phase ≠ .failed e) (hconn : c'.reader.conn = c.reader.conn)
    (hhello : ∀ version pageSize maxPage, .hello version pageSize maxPage ∉ frames)
    (hpages : ∀ p data, .pageData p data ∈ frames → db.table p = some data) :
    Sending db (c', sent ++ frames) where
  conn := hconn.trans h.conn
  started := by
    rcases h.started with ⟨-, hnew | ⟨e, he⟩⟩ | ⟨maxPage, hmem⟩
    · exact absurd hnew hphase
    · exact absurd he (hfailed e)
    · exact .inr ⟨maxPage, List.mem_append_left _ hmem⟩
  hellos := by
    intro version pageSize maxPage hmem
    rcases List.mem_append.mp hmem with hold | hnew
    · exact h.hellos _ _ _ hold
    · exact absurd hnew (hhello _ _ _)
  pages := by
    intro p data hmem
    rcases List.mem_append.mp hmem with hold | hnew
    · exact h.pages p data hold
    · exact hpages p data hnew

theorem nextHash_conn {r r' : PageReader} {next : Option (UInt32 × Bytes)}
    (h : r.nextHash = .ok (next, r')) : r'.conn = r.conn := by
  unfold PageReader.nextHash at h
  split at h
  · obtain ⟨-, rfl⟩ := Prod.mk.inj (Except.ok.inj h)
    rfl
  · obtain ⟨data, -, hret⟩ := Effect.bind_eq_ok.mp h
    obtain ⟨-, rfl⟩ := Prod.mk.inj (Except.ok.inj hret)
    rfl

theorem Sending.advance (h : Sending db (c, sent)) (hstep : c.advance = some (c', frames)) :
    Sending db (c', sent ++ frames) := by
  unfold PushClient.advance at hstep
  split at hstep
  -- Only the first phase sends a Hello.
  · next hphase =>
    obtain ⟨rfl, rfl⟩ := Prod.mk.inj (Option.some.inj hstep)
    refine ⟨h.conn, .inr ⟨c.reader.maxPage, by simp [helloOf]⟩, ?_, ?_⟩
    · intro version pageSize maxPage hmem
      rcases List.mem_append.mp hmem with hold | hnew
      · exact h.hellos _ _ _ hold
      · exact (SyncMessage.hello.inj (List.mem_singleton.mp hnew)).2.1
    · intro p data hmem
      rcases List.mem_append.mp hmem with hold | hnew
      · exact h.pages p data hold
      · cases List.mem_singleton.mp hnew
  · next hphase =>
    split at hstep
    · next pageNo hash reader hnext =>
      obtain ⟨rfl, rfl⟩ := Prod.mk.inj (Option.some.inj hstep)
      exact h.append (by simp [hphase]) (by simp [hphase]) (nextHash_conn hnext) (by simp) (by simp)
    · next reader hnext =>
      obtain ⟨rfl, rfl⟩ := Prod.mk.inj (Option.some.inj hstep)
      exact h.append (by simp [hphase]) (by simp [hphase]) (nextHash_conn hnext) (by simp) (by simp)
    · obtain ⟨rfl, rfl⟩ := Prod.mk.inj (Option.some.inj hstep)
      exact h.append (by simp [hphase]) (by simp [hphase]) rfl (by simp) (by simp)
  · next hphase =>
    obtain ⟨rfl, rfl⟩ := Prod.mk.inj (Option.some.inj hstep)
    exact h.append (by simp [hphase]) (by simp [hphase]) rfl (by simp) (by simp)
  -- Only the last one sends page data, each page read from the database.
  · next hphase =>
    split at hstep
    · cases hstep
    · next pageNo pending _ =>
      split at hstep
      · next data hread =>
        obtain ⟨rfl, rfl⟩ := Prod.mk.inj (Option.some.inj hstep)
        refine h.append (by simp [hphase]) (by simp [hphase]) rfl (by simp) ?_
        intro p data' hmem
        obtain ⟨rfl, rfl⟩ := SyncMessage.pageData.inj (List.mem_singleton.mp hmem)
        rw [← h.conn]
        unfold PageReader.readPage at hread
        split at hread
        · next hrow => rw [hrow, Except.ok.inj hread]
        · cases hread
      · obtain ⟨rfl, rfl⟩ := Prod.mk.inj (Option.some.inj hstep)
        exact h.append (by simp [hphase]) (by simp [hphase]) rfl (by simp) (by simp)
  · cases hstep
  · cases hstep
  · cases hstep

omit [Blake3] in
theorem receive_conn {incoming : Incoming} (hstep : c.receive incoming = some c') :
    c'.reader.conn = c.reader.conn ∧ c.phase ≠ .hello ∧ ∀ e, c.phase ≠ .failed e := by
  unfold receive at hstep
  split at hstep
  · next hphase =>
    refine ⟨?_, by simp [hphase], by simp [hphase]⟩
    split at hstep <;> (obtain rfl := Option.some.inj hstep; rfl)
  · next hphase =>
    refine ⟨?_, by simp [hphase], by simp [hphase]⟩
    obtain rfl := Option.some.inj hstep
    unfold drainReady
    split <;> rfl
  · next hphase =>
    refine ⟨?_, by simp [hphase], by simp [hphase]⟩
    split at hstep
    · cases hstep
    · split at hstep
      · obtain rfl := Option.some.inj hstep
        rfl
      · obtain rfl := Option.some.inj hstep
        rfl
      · obtain rfl := Option.some.inj hstep
        unfold drain
        split <;> rfl
  all_goals cases hstep

theorem Sending.take {s s' : PushClient × List SyncMessage} {turn : Turn} (h : Sending db s)
    (hstep : turn.take s = some s') : Sending db s' := by
  cases turn with
  | advance =>
    obtain ⟨next, hadvance, rfl⟩ := Option.map_eq_some_iff.mp hstep
    exact h.advance hadvance
  | receive incoming =>
    obtain ⟨next, hreceive, rfl⟩ := Option.map_eq_some_iff.mp hstep
    obtain ⟨hconn, hphase, hfailed⟩ := receive_conn hreceive
    have hsending : Sending db (next, s.2 ++ []) :=
      h.append hphase hfailed hconn (by simp) (by simp)
    rwa [List.append_nil] at hsending
  | lose =>
    obtain rfl := Option.some.inj hstep
    have hlose : (Peer.lose s.1 : PushClient) = if s.1.isOver then s.1 else s.1.fail .send := rfl
    rw [hlose]
    split
    · exact h
    · refine ⟨h.conn, ?_, h.hellos, h.pages⟩
      exact h.started.imp (fun hnew => ⟨hnew.1, .inr ⟨.send, rfl⟩⟩) id

theorem sending_of_run {turns : List Turn}
    (hrun : Machine.run Turn.take turns (PushClient.new db, []) = some (c, sent)) :
    Sending db (c, sent) :=
  Machine.run_keeps hrun (I := Sending db) ⟨rfl, .inl ⟨rfl, .inl rfl⟩, by simp, by simp⟩
    fun _ _ _ _ hstep h => h.take hstep

end PushClient

/-! ## Both parties -/

section

open SyncFsm (accept opening reply_of_run storedBy_of_run)

variable [Blake3]

/-- The announced page size is given back, and nothing else is done about it. A push
stores what its frames carry, so its pages have the announced length exactly if all
those that came do. A client announces the default size, so the pages it sends have
it exactly if those of its database do. -/
theorem page_size_announced {pages : Pages} {frames : List Frame} {w : World InMemorySyncStorage}
    (hrun : Machine.run accept frames (opening .push pages) = some w) {db : Database} {n : Nat}
    (hpaged : db.Paged n) {turns : List Turn} {c : PushClient} {sent : List SyncMessage}
    (hturns : Machine.run Turn.take turns (PushClient.new db, []) = some (c, sent)) :
    (storedBy w.history = frames.flatMap (fun frame => frame.2.entries) ∧
      ∀ nowMs version pageSize maxPage rest,
        frames = (nowMs, .hello version pageSize maxPage) :: rest →
        (∃ w₁, accept (nowMs, .hello version pageSize maxPage) (opening .push pages) = some w₁ ∧
          w₁.history = [.handed (.helloReply HANDSHAKE_VERSION pageSize
            (pages.keys.getLast?.getD 0)) none]) ∧
        ((∀ entry ∈ storedBy w.history, entry.data.length = pageSize.toNat) ↔
          ∀ frame ∈ frames, ∀ entry ∈ frame.2.entries, entry.data.length = pageSize.toNat)) ∧
    (∀ p data, .pageData p data ∈ sent →
      (∃ maxPage, .hello HANDSHAKE_VERSION DEFAULT_PAGE_SIZE maxPage ∈ sent) ∧
        db.table p = some data ∧ data.length = n) ∧
    ∀ version pageSize maxPage, .hello version pageSize maxPage ∈ sent →
      pageSize = DEFAULT_PAGE_SIZE ∧
      ((∀ p data, .pageData p data ∈ sent → data.length = pageSize.toNat) ↔
        n = 4096 ∨ ∀ p data, .pageData p data ∉ sent) := by
  have hstored := storedBy_of_run hrun
  have hsending := PushClient.sending_of_run hturns
  have hlength : ∀ p data, .pageData p data ∈ sent → data.length = n := by
    intro p data hmem
    exact hpaged data (Database.mem_of_table (hsending.pages p data hmem))
  refine ⟨⟨hstored, ?_⟩, ?_, ?_⟩
  · rintro nowMs version pageSize maxPage rest rfl
    refine ⟨reply_of_run hrun, ?_⟩
    rw [hstored]
    simp only [List.mem_flatMap]
    exact ⟨fun h frame hframe entry hentry => h entry ⟨frame, hframe, hentry⟩,
      fun h entry ⟨frame, hframe, hentry⟩ => h frame hframe entry hentry⟩
  · intro p data hmem
    refine ⟨?_, hsending.pages p data hmem, hlength p data hmem⟩
    rcases hsending.started with ⟨hnil, -⟩ | hhello
    · simp [show sent = [] from hnil] at hmem
    · exact hhello
  · intro version pageSize maxPage hmem
    obtain rfl : pageSize = DEFAULT_PAGE_SIZE := hsending.hellos _ _ _ hmem
    refine ⟨rfl, ?_, ?_⟩
    · intro hall
      by_cases hsome : ∃ p data, .pageData p data ∈ sent
      · obtain ⟨p, data, hdata⟩ := hsome
        exact .inl ((hlength p data hdata).symm.trans (hall p data hdata))
      · exact .inr fun p data hdata => hsome ⟨p, data, hdata⟩
    · rintro (rfl | hnone) p data hdata
      · exact hlength p data hdata
      · exact absurd hdata (hnone p data)

end

section Samples

open SyncFsm (accept opening)

/-- A page of the smallest size that SQLite has. -/
def smallPage : Bytes := List.replicate 512 0

theorem length_smallPage : smallPage.length = 512 := List.length_replicate

def smallDatabase : Database := .single smallPage

/-- A client that is asked for its only page. -/
def smallPush : List Turn :=
  [.advance, .receive (.binary (.ok (.helloReply 1 4096 0))), .advance, .advance, .advance,
    .receive (.binary (.ok (.requestPage 1))), .advance]

/-- A page that is shorter than was announced. -/
def shortPage : List Frame := [(0, .hello 1 4096 1), (0, .pageData 1 smallPage)]

theorem smallPush_sends :
    letI := Blake3.onSamples
    ∃ c, Machine.run Turn.take smallPush (PushClient.new smallDatabase, []) =
      some (c, [.hello 1 4096 1, .pageHash 1 [], .complete, .pageData 1 smallPage]) := by
  let _ := Blake3.onSamples
  exact ⟨_, rfl⟩

/-- Neither half holds: a push stores a page of another length, and a client sends one. -/
theorem page_size_mismatch :
    letI := Blake3.onSamples
    (¬ ∀ (pages : Pages) (frames : List Frame) (w : World InMemorySyncStorage) nowMs version
        pageSize maxPage rest, Machine.run accept frames (opening .push pages) = some w →
      frames = (nowMs, .hello version pageSize maxPage) :: rest →
        ∀ entry ∈ storedBy w.history, entry.data.length = pageSize.toNat) ∧
    ¬ ∀ (db : Database) (turns : List Turn) (c : PushClient) (sent : List SyncMessage) version
        pageSize maxPage p data,
      Machine.run Turn.take turns (PushClient.new db, []) = some (c, sent) →
      .hello version pageSize maxPage ∈ sent → .pageData p data ∈ sent →
        data.length = pageSize.toNat := by
  let _ := Blake3.onSamples
  constructor
  · intro h
    have hstored : (Machine.run accept shortPage (opening .push ∅)).map
        (fun w => storedBy w.history) = some [⟨1, smallPage⟩] := by decide +kernel
    obtain ⟨w, hrun, hentries⟩ := Option.map_eq_some_iff.mp hstored
    have hlength := h _ _ w 0 1 4096 1 _ hrun rfl ⟨1, smallPage⟩ (by simp [hentries])
    exact absurd (length_smallPage.symm.trans hlength) (by decide)
  · intro h
    obtain ⟨c, hrun⟩ := smallPush_sends
    have hlength := h _ _ c _ 1 4096 1 1 smallPage hrun (by simp) (by simp)
    exact absurd (length_smallPage.symm.trans hlength) (by decide)

theorem page_size_announced_small :
    letI := Blake3.onSamples
    ∃ w c sent, Machine.run accept shortPage (opening .push ∅) = some w ∧
      Machine.run Turn.take smallPush (PushClient.new smallDatabase, []) = some (c, sent) ∧
      storedBy w.history = [⟨1, smallPage⟩] ∧
      ∀ p data, .pageData p data ∈ sent → smallDatabase.table p = some data := by
  let _ := Blake3.onSamples
  obtain ⟨w, hrun⟩ := Option.isSome_iff_exists.mp
    (show (Machine.run accept shortPage (opening .push ∅)).isSome = true by decide +kernel)
  obtain ⟨c, hturns⟩ := smallPush_sends
  have hpaged : smallDatabase.Paged 512 := by
    intro page hmem
    obtain rfl := List.mem_singleton.mp hmem
    exact length_smallPage
  obtain ⟨⟨hstored, -⟩, hpages, -⟩ := page_size_announced hrun hpaged hturns
  exact ⟨w, c, _, hrun, hturns, hstored, fun p data hmem => (hpages p data hmem).2.1⟩

end Samples

end EdgeReplica
