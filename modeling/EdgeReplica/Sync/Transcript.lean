-- SUMMARY: The exact conversation of a session that claims pages one by one: what is sent, counted and stored, in both directions.
import EdgeReplica.Sync.PullCoverage
import EdgeReplica.Worker.Totals

/-!
# Transcripts

A client greets, claims pages with their hashes, and says `Complete`; in a push it
then sends the pages it was asked for. `Advances` says what a stretch of this
conversation does to the machine and which frames it sends; stretches compose, so
that the whole is read off the answers to the claims.
-/

namespace EdgeReplica

open PullSession (streamed unclaimed dataOf sentBy_streamed)

/-- A page the client has, and its hash. -/
abbrev HashClaim := UInt32 × Bytes

/-- The page that a message asks for by itself. -/
def SyncMessage.requested? : SyncMessage → Option UInt32
  | .requestPage pageNo => some pageNo
  | _ => none

/-- The pages that the frames ask for. -/
def requested (frames : List SyncMessage) : List UInt32 :=
  frames.filterMap SyncMessage.requested?

/-- The end of a session that moved the entries. -/
def completeOf (entries : List PageDataEntry) : SyncMessage :=
  .syncComplete (UInt64.ofNat entries.length) (UInt64.ofNat (byteSum entries))

namespace SyncFsm

/-! ## Stretches of a conversation -/

/-- The machine after it took up claims of some pages and sent frames in answer. -/
def advanced (claimed : List UInt32) (frames : List SyncMessage) (f : SyncFsm) : SyncFsm :=
  { f.counted (carried frames) with
    clientSeen := f.clientSeen ∪ claimed.toFinset
    pendingRequests := f.pendingRequests ∪ (requested frames).toFinset }

theorem advanced_nil (f : SyncFsm) : f.advanced [] [] = f := by
  rw [advanced]
  simp [carried, requested, counted_nil]

theorem advanced_append (f : SyncFsm) (c₁ c₂ : List UInt32) (l₁ l₂ : List SyncMessage) :
    f.advanced (c₁ ++ c₂) (l₁ ++ l₂) = (f.advanced c₁ l₁).advanced c₂ l₂ := by
  simp only [advanced, carried, requested, List.flatMap_append, List.filterMap_append,
    List.toFinset_append, Finset.union_assoc, counted_append]
  rfl

/-- From `w` to `w'` pages were claimed and frames sent, and nothing else happened. -/
structure Advances (claimed : List UInt32) (frames : List SyncMessage)
    (w w' : World InMemorySyncStorage) : Prop where
  storage : w'.storage = w.storage
  sink : w'.sink = w.sink
  fsm : w'.fsm = w.fsm.advanced claimed frames
  sent : sentBy w'.history = sentBy w.history ++ frames

namespace Advances

variable {claimed c₁ c₂ : List UInt32} {frames l₁ l₂ : List SyncMessage}
  {w w₁ w' : World InMemorySyncStorage} {direction : Direction}

theorem refl (w : World InMemorySyncStorage) : Advances [] [] w w :=
  ⟨rfl, rfl, (advanced_nil w.fsm).symm, (List.append_nil _).symm⟩

theorem trans (h₁ : Advances c₁ l₁ w w₁) (h₂ : Advances c₂ l₂ w₁ w') :
    Advances (c₁ ++ c₂) (l₁ ++ l₂) w w' where
  storage := h₂.storage.trans h₁.storage
  sink := h₂.sink.trans h₁.sink
  fsm := by rw [h₂.fsm, h₁.fsm, advanced_append]
  sent := by rw [h₂.sent, h₁.sent, List.append_assoc]

theorem greeted (h : Advances claimed frames w w') (hw : Greeted direction w) :
    Greeted direction w' where
  sawHello := by rw [h.fsm]; exact hw.sawHello
  dir := by rw [h.fsm]; exact hw.dir
  sink := h.sink.trans hw.sink

/-- A frame of page bytes. -/
theorem serve (hsink : w.sink = fun _ => none) (entry : PageDataEntry) :
    Advances [] [.pageData entry.pageNo entry.data] w
      ((w.setFsm fun f => f.count entry.data.length).hand (.pageData entry.pageNo entry.data)) where
  storage := rfl
  sink := rfl
  fsm := by
    show w.fsm.count entry.data.length = _
    have hcarried : carried [.pageData entry.pageNo entry.data] = [entry] := rfl
    have hrequested : requested [.pageData entry.pageNo entry.data] = [] := rfl
    rw [count_eq_counted, advanced, hcarried, hrequested]
    simp [counted]
  sent := sentBy_hand_reliable (w := w.setFsm _) hsink _

theorem claimOne (w : World InMemorySyncStorage) (p : UInt32) :
    Advances [p] [] w (w.setFsm (claim p)) where
  storage := rfl
  sink := rfl
  fsm := by
    show claim p w.fsm = _
    rw [advanced]
    simp [claim, requested, carried, counted_nil]
  sent := (List.append_nil _).symm

theorem request (hsink : w.sink = fun _ => none) (p : UInt32) :
    Advances [] [.requestPage p] w ((w.setFsm (await p)).hand (.requestPage p)) where
  storage := rfl
  sink := rfl
  fsm := by
    show await p w.fsm = _
    have hcarried : carried [.requestPage p] = [] := rfl
    have hrequested : requested [.requestPage p] = [p] := rfl
    rw [advanced, hcarried, hrequested, counted_nil]
    simp [await]
  sent := sentBy_hand_reliable (w := w.setFsm _) hsink _

end Advances

/-! ## The claims -/

/-- What the machine answers a claim with: nothing if the hash is the stored one. -/
def answer (direction : Direction) (pages : Pages) (claim : HashClaim) : Option SyncMessage :=
  if (pages[claim.1]?).map Page.hash = some claim.2 then none
  else
    match direction with
    | .push => some (.requestPage claim.1)
    | .pull => (pages[claim.1]?).map fun page => .pageData claim.1 page.data

/-- The answers to the claims, in their order. -/
def answers (direction : Direction) (pages : Pages) (claims : List HashClaim) : List SyncMessage :=
  claims.filterMap (answer direction pages)

theorem answers_cons (direction : Direction) (pages : Pages) (claim : HashClaim)
    (claims : List HashClaim) :
    answers direction pages (claim :: claims) =
      (answer direction pages claim).toList ++ answers direction pages claims := by
  rw [answers, List.filterMap_cons]
  cases answer direction pages claim <;> rfl

/-- The frame of a claim, with what the clock reads when it is taken up. -/
def claimFrame (claim : Int64 × HashClaim) : Frame := (claim.1, .pageHash claim.2.1 claim.2.2)

variable [Blake3] {direction : Direction} {w : World InMemorySyncStorage}

theorem accept_claim (hw : Greeted direction w) (claim : Int64 × HashClaim) :
    ∃ w', accept (claimFrame claim) w = some w' ∧
      Advances [claim.2.1] (answer direction w.storage claim.2).toList w w' := by
  obtain ⟨nowMs, p, hash⟩ := claim
  have hclaim := Advances.claimOne w p
  have hsink : (w.setFsm (SyncFsm.claim p)).sink = fun _ => none := hw.sink
  simp only [claimFrame, accept_eq_some, run_apply_pageHash hw.sawHello, answer]
  cases direction with
  | push =>
    rw [run_handlePageHash_push w p hash hw.dir]
    split
    · exact ⟨_, rfl, hclaim⟩
    · exact ⟨_, run_emit_reliable (by exact hw.sink) _, hclaim.trans (.request hsink p)⟩
  | pull =>
    rw [run_handlePageHash_pull w p hash hw.dir]
    cases w.storage[p]? with
    | none => exact ⟨_, rfl, hclaim⟩
    | some page =>
      simp only [Option.map_some, Option.some.injEq]
      split
      · exact ⟨_, rfl, hclaim⟩
      · exact ⟨_, run_emit_reliable (by exact hw.sink) _,
          hclaim.trans (.serve hsink ⟨p, page.data⟩)⟩

theorem run_claims (hw : Greeted direction w) (claims : List (Int64 × HashClaim)) :
    ∃ w', Machine.run accept (claims.map claimFrame) w = some w' ∧
      Advances (claims.map fun claim => claim.2.1)
        (answers direction w.storage (claims.map Prod.snd)) w w' := by
  induction claims generalizing w with
  | nil => exact ⟨w, rfl, .refl w⟩
  | cons claim claims ih =>
    obtain ⟨w₁, haccept, h₁⟩ := accept_claim hw claim
    obtain ⟨w', hrun, h'⟩ := ih (h₁.greeted hw)
    refine ⟨w', ?_, ?_⟩
    · rw [List.map_cons, Machine.run_cons, haccept]
      exact hrun
    · rw [h₁.storage] at h'
      rw [show (claim :: claims).map Prod.snd = claim.2 :: claims.map Prod.snd from rfl,
        answers_cons]
      exact h₁.trans h'

/-! ## The walk on `Complete` -/

/-- The pages of the walk: in a pull, those the server has and no claim named. -/
def sweep (direction : Direction) (pages : Pages) (claimed : Finset UInt32) : List UInt32 :=
  match direction with
  | .push => []
  | .pull => (pageRange 1 (pages.keys.getLast?.getD 0)).filter (unclaimed pages claimed)

omit [Blake3] in
/-- The walk goes over its pages in ascending order. -/
theorem sweep_ascending (direction : Direction) (pages : Pages) (claimed : Finset UInt32) :
    (sweep direction pages claimed).Pairwise (· < ·) := by
  cases direction with
  | push => exact .nil
  | pull => exact (pageRange_ascending _ _).filter _

omit [Blake3] in
theorem mem_sweep_pull {pages : Pages} {claimed : Finset UInt32} {p : UInt32} :
    p ∈ sweep .pull pages claimed ↔
      1 ≤ p ∧ p ≤ pages.keys.getLast?.getD 0 ∧ p ∈ pages ∧ p ∉ claimed := by
  rw [sweep, List.mem_filter, mem_pageRange, unclaimed, decide_eq_true_iff,
    Pages.mem_iff_ne_none, and_assoc]

omit [Blake3] in
theorem Advances.walk (pages : Pages) (walk : List UInt32) (w : World InMemorySyncStorage) :
    Advances [] (walk.map (dataOf pages)) w (streamed pages walk w) where
  storage := rfl
  sink := rfl
  fsm := by
    have hcarried : carried (walk.map (dataOf pages)) =
        walk.map fun p => ⟨p, pages.data p⟩ := by
      rw [carried, List.flatMap_map, List.map_eq_flatMap]
      rfl
    have hrequested : requested (walk.map (dataOf pages)) = [] := by
      simp [requested, SyncMessage.requested?, dataOf]
    rw [advanced, hcarried, hrequested]
    simp [streamed, counted, byteSum, Pages.size, Function.comp_def]
  sent := sentBy_streamed walk w

theorem accept_complete (hw : Greeted direction w)
    (hmax : w.fsm.serverMaxPage = w.storage.keys.getLast?.getD 0) (nowMs : Int64) :
    ∃ w', accept (nowMs, .complete) w = some (passGate w') ∧
      Advances [] ((sweep direction w.storage w.fsm.clientSeen).map (dataOf w.storage))
        (completing w) w' := by
  cases direction with
  | push =>
    refine ⟨completing w, ?_, .refl _⟩
    rw [accept_eq_some]
    exact run_apply_complete_push hw.sink hw.sawHello hw.dir nowMs
  | pull =>
    refine ⟨walked w, accept_complete_pull hw nowMs, ?_⟩
    rw [walked, hmax]
    exact .walk _ _ _

/-! ## The pages that were asked for -/

/-- The frame of page bytes, with what the clock reads when it is taken up. -/
def dataFrame (entry : Int64 × PageDataEntry) : Frame :=
  (entry.1, .pageData entry.2.pageNo entry.2.data)

/-- The machine at the end of a session in which the entries were still to come. -/
def delivered (entries : List PageDataEntry) (f : SyncFsm) : SyncFsm :=
  { f.counted entries with
    pendingRequests := ∅
    emittedComplete := true }

/-- After `Complete`, each awaited page comes once: the gate opens at the last. -/
theorem run_data (entries : List (Int64 × PageDataEntry)) (hsink : w.sink = fun _ => none)
    (hsaw : w.fsm.sawHello = true) (hphase : w.fsm.completedHashPhase = true)
    (hopen : w.fsm.emittedComplete = false)
    (hnodup : (entries.map fun entry => entry.2.pageNo).Nodup)
    (hpending : w.fsm.pendingRequests = (entries.map fun entry => entry.2.pageNo).toFinset) :
    ∃ w', Machine.run accept (entries.map dataFrame) (passGate w) = some w' ∧
      w'.storage = Pages.replay w.storage (entries.map Prod.snd) ∧
      w'.fsm = w.fsm.delivered (entries.map Prod.snd) ∧
      sentBy w'.history = sentBy w.history ++
        [.syncComplete w'.fsm.pagesTransferred w'.fsm.bytesTransferred] := by
  induction entries generalizing w with
  | nil =>
    have hgate : w.fsm.GateOpen := ⟨hopen, hphase, by simpa using hpending⟩
    refine ⟨passGate w, rfl, passGate_storage, ?_, ?_⟩
    · rw [passGate, if_pos hgate, List.map_nil, delivered, counted_nil, ← hgate.2.2]
      rfl
    · rw [passGate, if_pos hgate]
      exact sentBy_hand_reliable hsink _
  | cons entry entries ih =>
    obtain ⟨hfresh, hrest⟩ := List.nodup_cons.mp hnodup
    have hshut : ¬ w.fsm.GateOpen := by
      rintro ⟨-, -, hnone⟩
      rw [hpending] at hnone
      simp at hnone
    obtain ⟨w', hrun, hstorage, hfsm, hsent⟩ := ih (w := taken entry.2 w) hsink hsaw hphase hopen
      hrest (by
        show w.fsm.pendingRequests.erase entry.2.pageNo = _
        rw [hpending, List.map_cons, List.toFinset_cons, Finset.erase_insert]
        rwa [List.mem_toFinset])
    refine ⟨w', ?_, hstorage, ?_, ?_⟩
    · rw [passGate, if_neg hshut, List.map_cons, Machine.run_cons, dataFrame,
        accept_eq_some.mpr (run_apply_pageData hsink hsaw entry.1 entry.2)]
      exact hrun
    · rw [hfsm, List.map_cons, ← List.singleton_append, delivered, delivered, counted_append,
        ← count_eq_counted]
      rfl
    · rw [hsent]
      simp [taken]

/-! ## The whole conversation -/

/-- What the client sends: a greeting, its claims, `Complete`, and page bytes. -/
def script (pageSize clientMax : UInt32) (clock clock' : Int64)
    (claims : List (Int64 × HashClaim)) (data : List (Int64 × PageDataEntry)) : List Frame :=
  (clock, .hello HANDSHAKE_VERSION pageSize clientMax) ::
    (claims.map claimFrame ++ (clock', .complete) :: data.map dataFrame)

/-- What the machine sends between the greeting and the end. -/
def replies (direction : Direction) (pages : Pages) (claims : List HashClaim) :
    List SyncMessage :=
  answers direction pages claims ++
    (sweep direction pages (claims.map Prod.fst).toFinset).map (dataOf pages)

/-- The machine at the end of a session that claimed pages and moved the entries. -/
def finished (direction : Direction) (pages : Pages) (claimed : List UInt32)
    (moved : List PageDataEntry) : SyncFsm where
  direction
  sawHello := true
  completedHashPhase := true
  clientSeen := claimed.toFinset
  serverMaxPage := pages.keys.getLast?.getD 0
  pagesTransferred := UInt64.ofNat moved.length
  bytesTransferred := UInt64.ofNat (byteSum moved)
  emittedComplete := true

variable {pages : Pages} {claims : List (Int64 × HashClaim)} {data : List (Int64 × PageDataEntry)}

theorem accept_greeting_opening (direction : Direction) (pages : Pages)
    (pageSize clientMax : UInt32) (clock : Int64) :
    ∃ w, accept (clock, .hello HANDSHAKE_VERSION pageSize clientMax) (opening direction pages) =
        some w ∧
      Greeted direction w ∧ w.storage = pages ∧
      w.fsm = greeted (pages.keys.getLast?.getD 0) (new direction) ∧
      sentBy w.history =
        [.helloReply HANDSHAKE_VERSION pageSize (pages.keys.getLast?.getD 0)] := by
  have hhello := run_apply_hello (w := opening direction pages) rfl rfl clock pageSize clientMax
  exact ⟨_, accept_eq_some.mpr hhello, ⟨rfl, rfl, rfl⟩, rfl, rfl, rfl⟩

omit [Blake3] in
/-- `Complete` between two stretches only ends the hash phase. -/
theorem advanced_completed (f : SyncFsm) (claimed : List UInt32) (l₁ l₂ : List SyncMessage) :
    advanced [] l₂ { f.advanced claimed l₁ with completedHashPhase := true } =
      { f.advanced claimed (l₁ ++ l₂) with completedHashPhase := true } := by
  have happend := advanced_append f claimed [] l₁ l₂
  rw [List.append_nil] at happend
  rw [happend]
  rfl

omit [Blake3] in
/-- The walk asks for no page. -/
theorem requested_replies (direction : Direction) (pages : Pages) (claims : List HashClaim) :
    requested (replies direction pages claims) = requested (answers direction pages claims) := by
  have hwalk (walk : List UInt32) : requested (walk.map (dataOf pages)) = [] := by
    simp [requested, SyncMessage.requested?, dataOf]
  rw [replies, requested, List.filterMap_append]
  show requested _ ++ requested _ = _
  rw [hwalk, List.append_nil]

/-- What the session has done when `Complete` is taken up, before the gate. -/
theorem run_asked (direction : Direction) (pages : Pages) (claims : List (Int64 × HashClaim))
    (pageSize clientMax : UInt32) (clock clock' : Int64) :
    ∃ w, Machine.run accept ((clock, .hello HANDSHAKE_VERSION pageSize clientMax) ::
        (claims.map claimFrame ++ [(clock', .complete)])) (opening direction pages) =
        some (passGate w) ∧
      w.storage = pages ∧ w.sink = (fun _ => none) ∧
      w.fsm = { (greeted (pages.keys.getLast?.getD 0) (new direction)).advanced
          (claims.map fun claim => claim.2.1) (replies direction pages (claims.map Prod.snd)) with
        completedHashPhase := true } ∧
      sentBy w.history =
        .helloReply HANDSHAKE_VERSION pageSize (pages.keys.getLast?.getD 0) ::
          replies direction pages (claims.map Prod.snd) := by
  obtain ⟨w₀, hhello, hw₀, hpages, hfsm₀, hsent₀⟩ :=
    accept_greeting_opening direction pages pageSize clientMax clock
  obtain ⟨w₁, hclaims, h₁⟩ := run_claims hw₀ claims
  have hmax : w₁.fsm.serverMaxPage = w₁.storage.keys.getLast?.getD 0 := by
    rw [h₁.fsm, h₁.storage, hfsm₀, hpages]
    rfl
  obtain ⟨w₂, hcomplete, h₂⟩ := accept_complete (h₁.greeted hw₀) hmax clock'
  have hseen : w₁.fsm.clientSeen = ((claims.map Prod.snd).map Prod.fst).toFinset := by
    rw [h₁.fsm, hfsm₀, List.map_map]
    exact Finset.empty_union _
  rw [h₁.storage, hseen, hpages] at h₂
  rw [hpages] at h₁
  refine ⟨w₂, ?_, h₂.storage.trans (h₁.storage.trans hpages),
    h₂.sink.trans (h₁.sink.trans hw₀.sink), ?_, ?_⟩
  · rw [Machine.run_cons, hhello, Option.bind_some, Machine.run_append, hclaims,
      Option.bind_some, Machine.run_singleton, hcomplete]
  · rw [h₂.fsm, ← hfsm₀, replies, ← advanced_completed, ← h₁.fsm]
    rfl
  · have hcompleting : sentBy (completing w₁).history = sentBy w₁.history := by simp [completing]
    rw [h₂.sent, hcompleting, h₁.sent, hsent₀]
    rfl

/-- A session whose client sends exactly the pages it is asked for comes to its end,
and this is what it has then done. -/
theorem run_script (pageSize clientMax : UInt32) (clock clock' : Int64)
    (hdata : (data.map fun entry => entry.2.pageNo).Perm
      (requested (answers direction pages (claims.map Prod.snd))))
    (hnodup : (data.map fun entry => entry.2.pageNo).Nodup) :
    ∃ w, Machine.run accept (script pageSize clientMax clock clock' claims data)
        (opening direction pages) = some w ∧
      w.storage = Pages.replay pages (data.map Prod.snd) ∧
      w.fsm = finished direction pages (claims.map fun claim => claim.2.1)
        (carried (replies direction pages (claims.map Prod.snd)) ++ data.map Prod.snd) ∧
      sentBy w.history =
        .helloReply HANDSHAKE_VERSION pageSize (pages.keys.getLast?.getD 0) ::
          (replies direction pages (claims.map Prod.snd) ++
            [completeOf (carried (replies direction pages (claims.map Prod.snd)) ++
              data.map Prod.snd)]) := by
  obtain ⟨w₁, hasked, hpages, hsink, hfsm, hsent₁⟩ :=
    run_asked direction pages claims pageSize clientMax clock clock'
  have hpending : w₁.fsm.pendingRequests = (data.map fun entry => entry.2.pageNo).toFinset := by
    rw [List.toFinset_eq_of_perm _ _ hdata, ← requested_replies, hfsm]
    exact Finset.empty_union _
  obtain ⟨w, hrun, hw, hend, hsent⟩ := run_data data hsink (by rw [hfsm]; rfl) (by rw [hfsm])
    (by rw [hfsm]; rfl) hnodup hpending
  have hmachine : w.fsm = finished direction pages (claims.map fun claim => claim.2.1)
      (carried (replies direction pages (claims.map Prod.snd)) ++ data.map Prod.snd) := by
    rw [hend, hfsm, finished, delivered, advanced]
    simp [counted, byteSum_append, UInt64.ofNat_add, greeted, new]
  refine ⟨w, ?_, hpages ▸ hw, hmachine, ?_⟩
  · have hparts : script pageSize clientMax clock clock' claims data =
        ((clock, .hello HANDSHAKE_VERSION pageSize clientMax) ::
          (claims.map claimFrame ++ [(clock', .complete)])) ++ data.map dataFrame := by
      simp [script]
    rw [hparts, Machine.run_append, hasked]
    exact hrun
  · rw [hsent, hmachine, hsent₁]
    rfl

/-- The session over any storage whose calls succeed. -/
theorem exists_script {σ : Type} [LawfulStorage σ] (s : σ) (pageSize clientMax : UInt32)
    (clock clock' : Int64)
    (hdata : (data.map fun entry => entry.2.pageNo).Perm
      (requested (answers direction (LawfulStorage.pages s) (claims.map Prod.snd))))
    (hnodup : (data.map fun entry => entry.2.pageNo).Nodup) :
    ∃ w, Machine.run accept (script pageSize clientMax clock clock' claims data)
        (start direction s fun _ => none) = some w ∧
      LawfulStorage.pages w.storage =
        Pages.replay (LawfulStorage.pages s) (data.map Prod.snd) ∧
      w.fsm = finished direction (LawfulStorage.pages s) (claims.map fun claim => claim.2.1)
        (carried (replies direction (LawfulStorage.pages s) (claims.map Prod.snd)) ++
          data.map Prod.snd) ∧
      sentBy w.history =
        .helloReply HANDSHAKE_VERSION pageSize
            ((LawfulStorage.pages s).keys.getLast?.getD 0) ::
          (replies direction (LawfulStorage.pages s) (claims.map Prod.snd) ++
            [completeOf (carried (replies direction (LawfulStorage.pages s)
              (claims.map Prod.snd)) ++ data.map Prod.snd)]) := by
  obtain ⟨v, hrun, hstorage, hfsm, hsent⟩ := run_script pageSize clientMax clock clock' hdata hnodup
  obtain ⟨w, hrun', rfl⟩ := exists_run_of_view (w := start direction s fun _ => none) hrun
  exact ⟨w, hrun', hstorage, hfsm, hsent⟩

/-- The exact transcript of a pull, over any storage whose calls succeed and for any
claims: the greeting; the stored bytes for each claim of another hash than the stored
one, in the order of the claims; then the bytes of every page that no claim named, each
once and in ascending order; and the totals of these. -/
theorem pull_transcript {σ : Type} [LawfulStorage σ] (s : σ) (pageSize clientMax : UInt32)
    (clock clock' : Int64) (claims : List (Int64 × HashClaim)) :
    let pages := LawfulStorage.pages s
    let maxPage := pages.keys.getLast?.getD 0
    ∃ (w : World σ) (walk : List UInt32),
      Machine.run accept (script pageSize clientMax clock clock' claims [])
        (start .pull s fun _ => none) = some w ∧
      walk.Pairwise (· < ·) ∧
      (∀ p, p ∈ walk ↔
        1 ≤ p ∧ p ≤ maxPage ∧ p ∈ pages ∧ p ∉ claims.map fun claim => claim.2.1) ∧
      sentBy w.history =
        .helloReply HANDSHAKE_VERSION pageSize maxPage ::
          (answers .pull pages (claims.map Prod.snd) ++ walk.map (dataOf pages) ++
            [completeOf (carried (answers .pull pages (claims.map Prod.snd) ++
              walk.map (dataOf pages)))]) := by
  intro pages maxPage
  have hnone : requested (answers .pull pages (claims.map Prod.snd)) = [] := by
    rw [requested, answers, List.filterMap_filterMap, List.filterMap_eq_nil_iff]
    intro claim _
    unfold answer
    split
    · rfl
    · cases pages[claim.1]? <;> rfl
  have hdata : ([].map fun entry : Int64 × PageDataEntry => entry.2.pageNo).Perm
      (requested (answers .pull pages (claims.map Prod.snd))) := by
    rw [hnone]
    exact .refl _
  obtain ⟨w, hrun, -, -, hsent⟩ :=
    exists_script s pageSize clientMax clock clock' hdata List.nodup_nil
  refine ⟨w, sweep .pull pages ((claims.map Prod.snd).map Prod.fst).toFinset, hrun,
    sweep_ascending _ _ _, fun p => ?_, ?_⟩
  · rw [mem_sweep_pull, List.mem_toFinset, List.map_map]
    exact Iff.rfl
  · rw [hsent, List.map_nil, List.append_nil]
    rfl

end SyncFsm

end EdgeReplica
