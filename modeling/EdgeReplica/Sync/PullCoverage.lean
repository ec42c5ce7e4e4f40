-- SUMMARY: What a completed pull has accounted for: the stored pages it sent, and those the client's claims stand for.
import EdgeReplica.Services.AcceptedRuns
import EdgeReplica.Sync.Pull

/-!
# The claims of a pull

The walk on `Complete` passes over every page the client has claimed. A page whose
own hash was claimed has been dealt with by then: either the hash matched, or the
page was sent in answer. A page of a batch that did not match has not, unless
another claim is about it.
-/

namespace EdgeReplica

open Effect (final)
open PullSession (streamed unclaimed dataOf run_walk sentBy_streamed data_of_some)

/-- A frame of a client that compares, and sends no page bytes. -/
def SyncMessage.Compares : SyncMessage → Prop
  | .hello .. | .pageHash .. | .pageHashBatch .. | .complete => True
  | _ => False

def SyncMessage.isHello : SyncMessage → Bool
  | .hello .. => true
  | _ => false

/-- A `Hello` in the version that is spoken here. -/
def SyncMessage.greets : SyncMessage → Bool
  | .hello version _ _ => version = HANDSHAKE_VERSION
  | _ => false

/-- The frames that are not refused: the first `Hello` of the right version, and what
follows it apart from any other `Hello`. -/
def heard (frames : List Frame) : List Frame :=
  match frames.dropWhile fun frame => !frame.2.greets with
  | [] => []
  | hello :: rest => hello :: rest.filter fun frame => !frame.2.isHello

namespace SyncFsm

variable [Blake3]

/-- Take up the frames one after the other, whether their calls fail or not. -/
def feed (frames : List Frame) (w : World InMemorySyncStorage) : World InMemorySyncStorage :=
  runCalls (frames.map fun frame => .apply frame.1 frame.2) w

section

variable {frame : Frame} {frames : List Frame} {w w' : World InMemorySyncStorage}

theorem feed_cons (frame : Frame) (frames : List Frame) (w : World InMemorySyncStorage) :
    feed (frame :: frames) w = feed frames (final ((apply frame.1 frame.2).run w)) := rfl

theorem final_of_accept (h : accept frame w = some w') :
    final ((apply frame.1 frame.2).run w) = w' := by
  rw [accept_eq_some.mp h]
  rfl

/-- The world after `Complete`, before the gate. -/
def walked (w : World InMemorySyncStorage) : World InMemorySyncStorage :=
  streamed w.storage ((pageRange 1 w.fsm.serverMaxPage).filter
    (unclaimed w.storage w.fsm.clientSeen)) (completing w)

theorem accept_complete_pull (hw : Greeted .pull w) (nowMs : Int64) :
    accept (nowMs, .complete) w = some (passGate (walked w)) := by
  have hrun := run_apply_complete_pull hw.sawHello hw.dir nowMs
  have hwalk := run_walk (w := completing w) hw.sink rfl (pageRange 1 w.fsm.serverMaxPage)
  rw [EStateM.run_bind, hwalk] at hrun
  rw [accept_eq_some, hrun]
  exact run_maybeEmitComplete_reliable (w := walked w) hw.sink

/-- Before the handshake every other call fails, and leaves everything as it was. -/
theorem final_early (hsaw : w.fsm.sawHello = false) (hframe : frame.2.greets = false) :
    final ((apply frame.1 frame.2).run w) = w := by
  obtain ⟨nowMs, msg⟩ := frame
  match msg with
  | .hello version pageSize maxPage =>
    have hversion : version ≠ HANDSHAKE_VERSION := by
      simpa [SyncMessage.greets] using hframe
    simp [apply, hsaw, handleHello, hversion]
  | .helloReply .. | .pageHash .. | .pageHashBatch .. | .requestPage _ | .requestPages _
  | .hashMismatch _ | .hashMismatchBatch _ | .pageData .. | .pageDataBatch _ | .complete
  | .syncComplete .. | .error _ => simp [apply, hsaw]

theorem accept_greeting (hsink : w.sink = fun _ => none) (hsaw : w.fsm.sawHello = false)
    (hframe : frame.2.greets = true) : ∃ w', accept frame w = some w' := by
  obtain ⟨nowMs, msg⟩ := frame
  match msg with
  | .hello version pageSize maxPage =>
    obtain rfl : version = HANDSHAKE_VERSION := by simpa [SyncMessage.greets] using hframe
    exact ⟨_, accept_eq_some.mpr (run_apply_hello hsink hsaw nowMs pageSize maxPage)⟩
  | .helloReply .. | .pageHash .. | .pageHashBatch .. | .requestPage _ | .requestPages _
  | .hashMismatch _ | .hashMismatchBatch _ | .pageData .. | .pageDataBatch _ | .complete
  | .syncComplete .. | .error _ => cases hframe

theorem final_hello_again (hsaw : w.fsm.sawHello = true) (hframe : frame.2.isHello = true) :
    final ((apply frame.1 frame.2).run w) = w := by
  obtain ⟨nowMs, msg⟩ := frame
  match msg with
  | .hello .. => simp [apply, hsaw]
  | .helloReply .. | .pageHash .. | .pageHashBatch .. | .requestPage _ | .requestPages _
  | .hashMismatch _ | .hashMismatchBatch _ | .pageData .. | .pageDataBatch _ | .complete
  | .syncComplete .. | .error _ => cases hframe

/-- Past the handshake a claim or `Complete` does not fail. -/
theorem accept_comparing (hw : Greeted .pull w) (hframe : frame.2.Compares)
    (hhello : frame.2.isHello = false) : ∃ w', accept frame w = some w' := by
  obtain ⟨nowMs, msg⟩ := frame
  match msg with
  | .hello .. => cases hhello
  | .complete => exact ⟨_, accept_complete_pull hw nowMs⟩
  | .pageHash p hash =>
    simp only [accept_eq_some, run_apply_pageHash hw.sawHello,
      run_handlePageHash_pull w p hash hw.dir]
    split
    · split
      · exact ⟨_, rfl⟩
      · exact ⟨_, run_emit_reliable (by exact hw.sink) _⟩
    · exact ⟨_, rfl⟩
  | .pageHashBatch s e combined =>
    have hrun : (apply nowMs (.pageHashBatch s e combined)).run w =
        (handlePageHashBatch s e combined).run w := by
      simp [apply, hw.sawHello]
    simp only [accept_eq_some, hrun, run_handlePageHashBatch]
    split
    · exact ⟨_, rfl⟩
    · exact ⟨_, run_emit_reliable (by exact hw.sink) _⟩

theorem run_comparing (hw : Greeted .pull w) (hframes : ∀ frame ∈ frames, frame.2.Compares) :
    Machine.run accept (frames.filter fun frame => !frame.2.isHello) w = some (feed frames w) := by
  induction frames generalizing w with
  | nil => rfl
  | cons frame frames ih =>
    obtain ⟨hframe, hrest⟩ := List.forall_mem_cons.mp hframes
    rw [feed_cons]
    cases hhello : frame.2.isHello with
    | true =>
      rw [List.filter_cons_of_neg (by simp [hhello]), final_hello_again hw.sawHello hhello]
      exact ih hw hrest
    | false =>
      obtain ⟨w', haccept⟩ := accept_comparing hw hframe hhello
      rw [List.filter_cons_of_pos (by simp [hhello]), Machine.run_cons, haccept,
        final_of_accept haccept]
      exact ih (hw.accept haccept) hrest

/-- The frames that are not refused are those that count. -/
theorem run_heard (hdir : w.fsm.direction = .pull) (hsink : w.sink = fun _ => none)
    (hsaw : w.fsm.sawHello = false) (hframes : ∀ frame ∈ frames, frame.2.Compares) :
    Machine.run accept (heard frames) w = some (feed frames w) := by
  induction frames with
  | nil => rfl
  | cons frame frames ih =>
    obtain ⟨-, hrest⟩ := List.forall_mem_cons.mp hframes
    rw [feed_cons]
    cases hgreets : frame.2.greets with
    | false =>
      have hskip : heard (frame :: frames) = heard frames := by
        rw [heard, List.dropWhile_cons_of_pos (by simp [hgreets])]
        rfl
      rw [hskip, final_early hsaw hgreets]
      exact ih hrest
    | true =>
      obtain ⟨w', haccept⟩ := accept_greeting hsink hsaw hgreets
      have hfirst : heard (frame :: frames) =
          frame :: frames.filter fun frame => !frame.2.isHello := by
        rw [heard, List.dropWhile_cons_of_neg (by simp [hgreets])]
      rw [hfirst, Machine.run_cons, haccept, final_of_accept haccept]
      exact run_comparing ⟨accept_sawHello haccept, (accept_direction haccept).trans hdir,
        (accept_sink haccept).trans hsink⟩ hrest

omit [Blake3] in
theorem heard_snoc (frames : List Frame) (last : Frame) :
    heard (frames ++ [last]) = heard frames ∨
      heard (frames ++ [last]) = heard frames ++ [last] := by
  unfold heard
  rw [List.dropWhile_append]
  cases hdrop : frames.dropWhile fun frame => !frame.2.greets with
  | nil =>
    cases hgreets : last.2.greets with
    | true => exact .inr (by simp [hgreets])
    | false => exact .inl (by simp [hgreets])
  | cons hello rest =>
    cases hhello : last.2.isHello with
    | true => exact .inl (by simp [hhello])
    | false => exact .inr (by simp [hhello])

omit [Blake3] in
theorem heard_compares (hframes : ∀ frame ∈ frames, frame.2.Compares) :
    ∀ frame ∈ heard frames, frame.2.Compares := by
  intro frame hmem
  unfold heard at hmem
  split at hmem
  · cases hmem
  · next hello rest hdrop =>
    have hsub : hello :: rest ⊆ frames := by
      rw [← hdrop]
      exact (List.dropWhile_sublist _).subset
    rcases List.mem_cons.mp hmem with rfl | hrest
    · exact hframes _ (hsub List.mem_cons_self)
    · exact hframes _ (hsub (List.mem_cons_of_mem _ (List.mem_of_mem_filter hrest)))

end

/-! ## Before `Complete` -/

/-- Where a pull stands after the frames `before` were accepted. -/
structure Compared (pages : Pages) (before : List Frame) (w : World InMemorySyncStorage) :
    Prop where
  greeted : Greeted .pull w
  storage : w.storage = pages
  max : w.fsm.serverMaxPage = pages.keys.getLast?.getD 0
  pending : w.fsm.pendingRequests = ∅
  seen : ∀ p, p ∈ w.fsm.clientSeen ↔ ∃ part ∈ before, p ∈ part.2.claimed
  /-- A page whose own hash did not match was sent. -/
  stale : ∀ p page nowMs hash, pages[p]? = some page → (nowMs, .pageHash p hash) ∈ before →
    page.hash ≠ hash → .pageData p page.data ∈ sentBy w.history
  /-- Nothing else was. -/
  inline : ∀ p data, .pageData p data ∈ sentBy w.history →
    ∃ nowMs hash, (nowMs, .pageHash p hash) ∈ before

section

variable {pages : Pages} {before frames : List Frame} {frame : Frame}
  {w w' : World InMemorySyncStorage}

/-- The handshake. -/
theorem compared_hello (h : accept frame (opening .pull pages) = some w) :
    Compared pages [frame] w := by
  obtain ⟨nowMs, msg⟩ := frame
  obtain ⟨pageSize, maxPage, rfl⟩ := accept_first h rfl
  rw [accept_eq_some, run_apply_hello rfl rfl] at h
  obtain ⟨-, rfl⟩ := EStateM.Result.ok.inj h
  exact {
    greeted := ⟨rfl, rfl, rfl⟩
    storage := rfl
    max := rfl
    pending := rfl
    seen := fun p => by simp [SyncMessage.claimed, opening, start, greeted, new]
    stale := fun p page _ hash _ hmem => by simp at hmem
    inline := fun p data hmem => by
      simp [opening, start] at hmem }

omit [Blake3] in
/-- A claim that was taken up, with the frames `new` sent in answer. -/
theorem Compared.snoc (h : Compared pages before w) (new : List SyncMessage)
    (hgreeted : Greeted .pull w') (hstorage : w'.storage = w.storage)
    (hmax : w'.fsm.serverMaxPage = w.fsm.serverMaxPage)
    (hpending : w'.fsm.pendingRequests = w.fsm.pendingRequests)
    (hseen : ∀ p, p ∈ w'.fsm.clientSeen ↔ p ∈ w.fsm.clientSeen ∨ p ∈ frame.2.claimed)
    (hsent : sentBy w'.history = sentBy w.history ++ new)
    (hstale : ∀ p page hash, frame.2 = .pageHash p hash → pages[p]? = some page →
      page.hash ≠ hash → .pageData p page.data ∈ new)
    (hinline : ∀ p data, .pageData p data ∈ new → ∃ hash, frame.2 = .pageHash p hash) :
    Compared pages (before ++ [frame]) w' where
  greeted := hgreeted
  storage := hstorage.trans h.storage
  max := hmax.trans h.max
  pending := hpending.trans h.pending
  seen := fun p => by
    rw [hseen, h.seen]
    simp only [List.mem_append, List.mem_singleton, or_and_right, exists_or, exists_eq_left]
  stale := by
    intro p page nowMs hash hpage hmem hne
    rw [hsent]
    rcases List.mem_append.mp hmem with hold | hnew
    · exact List.mem_append_left _ (h.stale p page nowMs hash hpage hold hne)
    · have hframe : frame.2 = .pageHash p hash := by rw [← List.mem_singleton.mp hnew]
      exact List.mem_append_right _ (hstale p page hash hframe hpage hne)
  inline := by
    intro p data hmem
    rw [hsent] at hmem
    rcases List.mem_append.mp hmem with hold | hnew
    · obtain ⟨nowMs, hash, hclaim⟩ := h.inline p data hold
      exact ⟨nowMs, hash, List.mem_append_left _ hclaim⟩
    · obtain ⟨hash, hframe⟩ := hinline p data hnew
      exact ⟨frame.1, hash, List.mem_append_right _ (List.mem_singleton.mpr (by rw [← hframe]))⟩

omit [Blake3] in
theorem passGate_done_of_pending (hcomplete : w.fsm.completedHashPhase = true)
    (hpending : w.fsm.pendingRequests = ∅) : (passGate w).fsm.done = true := by
  unfold passGate
  split
  · rfl
  · next hshut =>
    by_contra hopen
    exact hshut ⟨by simpa [done] using hopen, hcomplete, hpending⟩

theorem Compared.step (h : Compared pages before w) (hframe : frame.2.Compares)
    (hstep : accept frame w = some w') (hopen : w'.fsm.done = false) :
    Compared pages (before ++ [frame]) w' := by
  have hgreeted := h.greeted.accept hstep
  obtain ⟨nowMs, msg⟩ := frame
  match msg with
  | .hello version pageSize maxPage =>
    -- A second Hello is refused.
    have hrun := accept_eq_some.mp hstep
    simp [apply, h.greeted.sawHello] at hrun
  | .complete =>
    -- A pull has no pending requests, so the walk closes the session.
    obtain rfl : passGate (walked w) = w' :=
      Option.some.inj ((accept_complete_pull h.greeted nowMs).symm.trans hstep)
    have hdone := passGate_done_of_pending (w := walked w) rfl h.pending
    rw [hdone] at hopen
    cases hopen
  | .pageHash p hash =>
    have hseen : ∀ q, q ∈ (claim p w.fsm).clientSeen ↔
        q ∈ w.fsm.clientSeen ∨ q ∈ (SyncMessage.pageHash p hash).claimed := by
      intro q
      simp [claim, SyncMessage.claimed, or_comm]
    cases accept_pageHash h.greeted hstep with
    | matched hmatch =>
      refine h.snoc [] hgreeted rfl rfl rfl hseen (by simp) ?_ (by simp)
      intro q page hash' heq hpage hne
      obtain ⟨rfl, rfl⟩ := SyncMessage.pageHash.inj heq
      rw [h.storage, hpage] at hmatch
      exact absurd (Option.some.inj hmatch) hne
    | requested hdir _ => exact absurd (h.greeted.dir.symm.trans hdir) (by decide)
    | @served _ _ page hdir hpage hne =>
      refine h.snoc [.pageData p page.data] hgreeted rfl rfl rfl hseen
        (sentBy_hand_reliable (by exact h.greeted.sink) _) ?_ ?_
      · intro q page' hash' heq hpage' _
        obtain ⟨rfl, rfl⟩ := SyncMessage.pageHash.inj heq
        rw [h.storage, hpage'] at hpage
        obtain rfl := Option.some.inj hpage
        exact List.mem_singleton_self _
      · intro q data hmem
        obtain ⟨rfl, -⟩ := SyncMessage.pageData.inj (List.mem_singleton.mp hmem)
        exact ⟨hash, rfl⟩
    | unknown hdir hnone =>
      refine h.snoc [] hgreeted rfl rfl rfl hseen (by simp) ?_ (by simp)
      intro q page hash' heq hpage _
      obtain ⟨rfl, rfl⟩ := SyncMessage.pageHash.inj heq
      rw [h.storage, hpage] at hnone
      cases hnone
  | .pageHashBatch s e combined =>
    have hseen : ∀ q, q ∈ (claimRange s e w.fsm).clientSeen ↔
        q ∈ w.fsm.clientSeen ∨ q ∈ (SyncMessage.pageHashBatch s e combined).claimed := by
      intro q
      simp [claimRange, SyncMessage.claimed]
    cases accept_pageHashBatch h.greeted hstep with
    | batchMatched _ =>
      exact h.snoc [] hgreeted rfl rfl rfl hseen (by simp) (by simp) (by simp)
    | batchMismatched _ =>
      -- The pages of the range count as seen although their hash did not match.
      refine h.snoc [.hashMismatchBatch (pageRange s e)] hgreeted rfl rfl rfl hseen
        (sentBy_hand_reliable (by exact h.greeted.sink) _) (by simp) ?_
      intro q data hmem
      cases List.mem_singleton.mp hmem

/-- What was done stays done. -/
theorem accept_done (h : accept frame w = some w') (hdone : w.fsm.done = true) :
    w'.fsm.done = true :=
  accept_keeps h (I := fun w => w.fsm.done = true)
    (fun _ _ hact hw => by cases hact <;> first | exact hw | rfl) hdone

theorem compared_of_run (hrun : Machine.run accept before (opening .pull pages) = some w)
    (hframes : ∀ frame ∈ before, frame.2.Compares) (hopen : w.fsm.done = false) :
    (before = [] ∧ w = opening .pull pages) ∨ Compared pages before w := by
  refine Machine.run_traces hrun (I := fun before w => (∀ frame ∈ before, frame.2.Compares) →
    w.fsm.done = false → (before = [] ∧ w = opening .pull pages) ∨ Compared pages before w)
    (fun _ _ => .inl ⟨rfl, rfl⟩) ?_ hframes hopen
  intro before frame w w' hstep ih hframes hopen
  have hearlier : w.fsm.done = false := by
    by_contra hdone
    rw [accept_done hstep (by simpa using hdone)] at hopen
    cases hopen
  rcases ih (fun frame hmem => hframes frame (List.mem_append_left _ hmem)) hearlier with
    ⟨rfl, rfl⟩ | hcompared
  · exact .inr (compared_hello hstep)
  · exact .inr (hcompared.step (hframes frame (by simp)) hstep hopen)

/-- A pull completes on `Complete`, after the walk. -/
theorem completes_walked (h : CompletesAt (opening .pull pages) before frame w)
    (hframes : ∀ part ∈ before ++ [frame], part.2.Compares) :
    ∃ w₁, Compared pages before w₁ ∧ frame.2 = .complete ∧ w = passGate (walked w₁) := by
  obtain ⟨⟨w₁, hrun, hopen, haccept⟩, hdone⟩ := h
  rcases compared_of_run hrun (fun part hmem => hframes part (List.mem_append_left _ hmem)) hopen
    with ⟨rfl, rfl⟩ | hcompared
  · obtain ⟨nowMs, msg⟩ := frame
    obtain ⟨pageSize, maxPage, rfl⟩ := accept_first haccept rfl
    rw [accept_eq_some, run_apply_hello rfl rfl] at haccept
    obtain ⟨-, rfl⟩ := EStateM.Result.ok.inj haccept
    cases hdone
  · refine ⟨w₁, hcompared, ?_⟩
    have hframe := hframes frame (by simp)
    have hgreeted := hcompared.greeted
    obtain ⟨nowMs, msg⟩ := frame
    have hclaim : ¬ Claimed w₁ msg w := by
      intro hclaim
      have hsame : w.fsm.done = w₁.fsm.done := by cases hclaim <;> rfl
      rw [hsame, hopen] at hdone
      cases hdone
    match msg with
    | .hello .. =>
      have hrun := accept_eq_some.mp haccept
      simp [apply, hgreeted.sawHello] at hrun
    | .pageHash .. => exact absurd (accept_pageHash hgreeted haccept) hclaim
    | .pageHashBatch .. => exact absurd (accept_pageHashBatch hgreeted haccept) hclaim
    | .complete =>
      have hwalked := accept_complete_pull hgreeted nowMs
      exact ⟨rfl, Option.some.inj (haccept.symm.trans hwalked)⟩

omit [Blake3] in
theorem sentBy_passGate {p : UInt32} {data : Bytes} (hsink : w.sink = fun _ => none) :
    .pageData p data ∈ sentBy (passGate w).history ↔ .pageData p data ∈ sentBy w.history := by
  unfold passGate
  split
  · rw [World.setFsm_history, sentBy_hand_reliable hsink]
    simp
  · exact Iff.rfl

omit [Blake3] in
/-- The pages a pull has sent by its end. -/
theorem Compared.sent_walked (h : Compared pages before w) {p : UInt32} {data : Bytes} :
    .pageData p data ∈ sentBy (passGate (walked w)).history ↔
      .pageData p data ∈ sentBy w.history ∨
        (p ∈ pageRange 1 (pages.keys.getLast?.getD 0) ∧ pages[p]? ≠ none ∧
          p ∉ w.fsm.clientSeen) ∧ pages.data p = data := by
  rw [sentBy_passGate (w := walked w) h.greeted.sink, walked, sentBy_streamed, h.storage, h.max]
  have hcompleting : sentBy (completing w).history = sentBy w.history := by
    simp [completing]
  rw [hcompleting, List.mem_append, List.mem_map]
  refine or_congr_right ?_
  constructor
  · rintro ⟨q, hq, heq⟩
    obtain ⟨rfl, hdata⟩ := SyncMessage.pageData.inj heq
    obtain ⟨hrange, hunclaimed⟩ := List.mem_filter.mp hq
    exact ⟨⟨hrange, by simpa [unclaimed] using hunclaimed⟩, hdata⟩
  · rintro ⟨⟨hrange, hunclaimed⟩, hdata⟩
    refine ⟨p, List.mem_filter.mpr ⟨hrange, by simpa [unclaimed] using hunclaimed⟩, ?_⟩
    rw [dataOf, hdata]

end

/-! ## What a completed pull has accounted for -/

/-- The ways in which a pull accounts for a stored page: it sent the page, or the
client claimed exactly what is stored. -/
inductive Covered (pages : Pages) (claims : List Frame) (w : World InMemorySyncStorage)
    (p : UInt32) (page : Page) : Prop
  | sent (h : .pageData p page.data ∈ sentBy w.history)
  | hash (nowMs : Int64) (h : (nowMs, .pageHash p page.hash) ∈ claims)
  | batch {nowMs : Int64} {startPage endPage : UInt32} {combined : Bytes}
      (h : (nowMs, .pageHashBatch startPage endPage combined) ∈ claims)
      (hp : startPage ≤ p ∧ p ≤ endPage)
      (hmatch : pages.combinedHash startPage endPage = combined)

/-- Every stored page of a batch that did not match is also in a claim of another
kind: its own hash, or a batch that matched. -/
def Reclaimed (pages : Pages) (claims : List Frame) : Prop :=
  ∀ batch ∈ claims, batch.2.isBatchClaim = true → ¬ pages.Agrees batch.2 →
    ∀ p ∈ batch.2.claimed, 1 ≤ p → pages[p]? ≠ none →
      ∃ claim ∈ claims, p ∈ claim.2.claimed ∧ (claim.2.isBatchClaim = true → pages.Agrees claim.2)

/-- The frames of a client that only compares, the last of which is answered with
`SyncComplete`. -/
structure PullEnds (pages : Pages) (front : List Frame) (last : Frame)
    (w : World InMemorySyncStorage) : Prop where
  compares : ∀ frame ∈ front ++ [last], frame.2.Compares
  before : (feed front (opening .pull pages)).fsm.done = false
  after : feed (front ++ [last]) (opening .pull pages) = w
  done : w.fsm.done = true

section

variable {pages : Pages} {front before : List Frame} {last : Frame}
  {w w₁ : World InMemorySyncStorage}

theorem PullEnds.completesAt (h : PullEnds pages front last w) :
    heard (front ++ [last]) = heard front ++ [last] ∧
      CompletesAt (opening .pull pages) (heard front) last w := by
  have hfront : Machine.run accept (heard front) (opening .pull pages) = some _ :=
    run_heard rfl rfl rfl fun frame hmem => h.compares frame (List.mem_append_left _ hmem)
  have hall : Machine.run accept (heard (front ++ [last])) (opening .pull pages) = some _ :=
    run_heard rfl rfl rfl h.compares
  rw [h.after] at hall
  rcases heard_snoc front last with hsame | hsnoc
  · rw [hsame, hfront] at hall
    have hdone := h.done
    rw [← Option.some.inj hall, h.before] at hdone
    cases hdone
  · rw [hsnoc, Machine.run_append, hfront] at hall
    exact ⟨hsnoc, ⟨_, hfront, h.before, (Machine.run_singleton accept last _).symm.trans hall⟩,
      h.done⟩

/-- A page that the client named, other than in a batch that did not match, was sent
or is what the client has. -/
theorem Compared.covered_of_claim (h : Compared pages before w) {claim : Frame}
    (hclaim : claim ∈ before) (hbatch : claim.2.isBatchClaim = true → pages.Agrees claim.2)
    {p : UInt32} {page : Page} (hp : p ∈ claim.2.claimed) (hpage : pages[p]? = some page) :
    Covered pages before (passGate (walked w)) p page := by
  obtain ⟨nowMs, msg⟩ := claim
  match msg with
  | .pageHash q hash =>
    obtain rfl : p = q := by simpa [SyncMessage.claimed] using hp
    by_cases hhash : page.hash = hash
    · exact .hash nowMs (hhash ▸ hclaim)
    · exact .sent (h.sent_walked.mpr (.inl (h.stale p page nowMs hash hpage hclaim hhash)))
  | .pageHashBatch s e combined => exact .batch hclaim (mem_pageRange.mp hp) (hbatch rfl)
  | .hello .. | .helloReply .. | .requestPage _ | .requestPages _ | .hashMismatch _
  | .hashMismatchBatch _ | .pageData .. | .pageDataBatch _ | .complete | .syncComplete ..
  | .error _ => cases hp

/-- A pull that completes has accounted for every stored page, exactly if the pages
of each batch that did not match were claimed otherwise. -/
theorem pull_covers_iff (h : PullEnds pages front last w) :
    (∀ p page, pages[p]? = some page → 1 ≤ p → p ≤ pages.keys.getLast?.getD 0 →
      Covered pages (heard front) w p page) ↔ Reclaimed pages (heard front) := by
  obtain ⟨hsnoc, hcompletes⟩ := h.completesAt
  have hcompares := heard_compares h.compares
  rw [hsnoc] at hcompares
  obtain ⟨w₁, hw₁, -, rfl⟩ := completes_walked hcompletes hcompares
  constructor
  · intro hcovered batch hbatch _ _ p hp hpos hstored
    obtain ⟨page, hpage⟩ := Option.ne_none_iff_exists'.mp hstored
    have hle := Pages.le_maxPage (Pages.mem_iff_ne_none.mpr hstored)
    cases hcovered p page hpage hpos hle with
    | sent hsent =>
      rcases hw₁.sent_walked.mp hsent with hinline | ⟨⟨-, -, hunseen⟩, -⟩
      · obtain ⟨nowMs, hash, hclaim⟩ := hw₁.inline p _ hinline
        exact ⟨_, hclaim, List.mem_singleton_self p, by simp [SyncMessage.isBatchClaim]⟩
      · exact absurd ((hw₁.seen p).mpr ⟨batch, hbatch, hp⟩) hunseen
    | hash nowMs hclaim =>
      exact ⟨_, hclaim, List.mem_singleton_self p, by simp [SyncMessage.isBatchClaim]⟩
    | batch hclaim hp hmatch => exact ⟨_, hclaim, mem_pageRange.mpr hp, fun _ => hmatch⟩
  · intro hreclaimed p page hpage hpos hle
    by_cases hseen : p ∈ w₁.fsm.clientSeen
    · obtain ⟨claim, hclaim, hp⟩ := (hw₁.seen p).mp hseen
      by_cases hgood : claim.2.isBatchClaim = true → pages.Agrees claim.2
      · exact hw₁.covered_of_claim hclaim hgood hp hpage
      · obtain ⟨hbatch, hmiss⟩ := Classical.not_imp.mp hgood
        obtain ⟨claim', hclaim', hp', hgood'⟩ :=
          hreclaimed claim hclaim hbatch hmiss p hp hpos (by simp [hpage])
        exact hw₁.covered_of_claim hclaim' hgood' hp' hpage
    · refine .sent (hw₁.sent_walked.mpr (.inr ⟨⟨?_, by simp [hpage], hseen⟩, ?_⟩))
      · exact mem_pageRange.mpr ⟨hpos, hle⟩
      · exact data_of_some hpage

end

section Samples

omit [Blake3]

/-- A client without page 1 that claims a range over it. -/
def skipped : List Frame := [(0, .hello 1 4096 0), (0, .pageHashBatch 1 1 [170])]

theorem pullEnds_skipped :
    letI := Blake3.onSamples
    PullEnds ((∅ : Pages).insert 1 ⟨[1], pageHash [1]⟩) skipped (0, .complete)
      (feed (skipped ++ [(0, .complete)])
        (opening .pull ((∅ : Pages).insert 1 ⟨[1], pageHash [1]⟩))) := by
  let _ := Blake3.onSamples
  refine ⟨?_, by decide +kernel, rfl, by decide +kernel⟩
  intro frame hmem
  simp only [skipped, List.mem_append, List.mem_cons, List.not_mem_nil, or_false] at hmem
  rcases hmem with (rfl | rfl) | rfl <;> trivial

/-- A stored page is skipped because a batch that did not match was over it. -/
theorem pull_skips_page :
    letI := Blake3.onSamples
    ¬ ∀ (pages : Pages) (front : List Frame) (last : Frame) (w : World InMemorySyncStorage),
      PullEnds pages front last w →
      ∀ p page, pages[p]? = some page → 1 ≤ p → p ≤ pages.keys.getLast?.getD 0 →
        Covered pages (heard front) w p page := by
  let _ := Blake3.onSamples
  intro h
  have hcovered := h _ _ _ _ pullEnds_skipped 1 ⟨[1], pageHash [1]⟩ (by decide +kernel) (by decide)
    (by decide +kernel)
  have heq : heard skipped = skipped := by decide
  rw [heq] at hcovered
  cases hcovered with
  | sent hsent => exact absurd hsent (by decide +kernel)
  | hash nowMs hclaim => simp [skipped] at hclaim
  | batch hclaim _ hmatch =>
    simp only [skipped, List.mem_cons, Prod.mk.injEq, reduceCtorEq, and_false,
      SyncMessage.pageHashBatch.injEq, List.not_mem_nil, or_false, false_or] at hclaim
    obtain ⟨-, rfl, rfl, rfl⟩ := hclaim
    exact absurd hmatch (by decide +kernel)

/-- The same claim, and then the hash of the page itself. -/
theorem pull_covers_rehashed :
    letI := Blake3.onSamples
    letI pages : Pages := (∅ : Pages).insert 1 ⟨[1], pageHash [1]⟩
    letI front := skipped ++ [(0, .pageHash 1 [7])]
    Covered pages (heard front) (feed (front ++ [(0, .complete)]) (opening .pull pages)) 1
      ⟨[1], pageHash [1]⟩ := by
  let _ := Blake3.onSamples
  let pages : Pages := (∅ : Pages).insert 1 ⟨[1], pageHash [1]⟩
  let front : List Frame := skipped ++ [(0, .pageHash 1 [7])]
  have hends : PullEnds pages front (0, .complete)
      (feed (front ++ [(0, .complete)]) (opening .pull pages)) := by
    refine ⟨?_, by decide +kernel, rfl, by decide +kernel⟩
    intro frame hmem
    simp only [front, skipped, List.mem_append, List.mem_cons, List.not_mem_nil, or_false] at hmem
    rcases hmem with ((rfl | rfl) | rfl) | rfl <;> trivial
  refine (pull_covers_iff hends).mpr ?_ 1 _ (by decide +kernel) (by decide) (by decide +kernel)
  have heq : heard front = front := by decide
  rw [heq]
  intro batch hbatch hkind _ p hp _ _
  refine ⟨(0, .pageHash 1 [7]), by simp [front], ?_, by simp [SyncMessage.isBatchClaim]⟩
  simp only [front, skipped, List.mem_append, List.mem_cons, List.not_mem_nil, or_false] at hbatch
  rcases hbatch with (rfl | rfl) | rfl
  · cases hkind
  · exact hp
  · cases hkind

end Samples

end SyncFsm

end EdgeReplica
