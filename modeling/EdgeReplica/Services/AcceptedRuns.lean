-- SUMMARY: Sequences of frames that the FSM takes without an error, one page at a time, and the moment it completes.
import EdgeReplica.Lib.Machine
import EdgeReplica.Services.CompletionGate
import EdgeReplica.Services.InMemoryRuns

/-!
# Accepted runs

A frame is accepted if its call returns. A batch of page bytes is taken up entry by
entry, so it is the sequence of its entries: `parts` splits it, and a run over the
parts is the run over the frames. The moment of `SyncComplete` is then the part at
which the machine becomes done.
-/

namespace EdgeReplica

/-- A frame, with what the clock reads when it is taken up. -/
abbrev Frame := Int64 × SyncMessage

/-- A batch as the frames of its entries; any other frame as it is. -/
def SyncMessage.parts : SyncMessage → List SyncMessage
  | .pageDataBatch pages => pages.map fun entry => .pageData entry.pageNo entry.data
  | msg => [msg]

/-- The frame is no batch of page bytes. -/
def SyncMessage.IsPart : SyncMessage → Prop
  | .pageDataBatch _ => False
  | _ => True

theorem SyncMessage.isPart_of_mem {part msg : SyncMessage} (h : part ∈ msg.parts) :
    part.IsPart := by
  cases msg with
  | pageDataBatch pages =>
    obtain ⟨entry, -, rfl⟩ := List.mem_map.mp h
    trivial
  | _ =>
    obtain rfl := List.mem_singleton.mp h
    trivial

/-- The pages that a hash claim is about. -/
def SyncMessage.claimed : SyncMessage → List UInt32
  | .pageHash pageNo _ => [pageNo]
  | .pageHashBatch startPage endPage _ => pageRange startPage endPage
  | _ => []

def SyncMessage.isBatchClaim : SyncMessage → Bool
  | .pageHashBatch .. => true
  | _ => false

/-- A hash claim is right about the store. -/
def Pages.Agrees [Blake3] (pages : Pages) : SyncMessage → Prop
  | .pageHash pageNo hash => (pages[pageNo]?).map Page.hash = some hash
  | .pageHashBatch startPage endPage combined => pages.combinedHash startPage endPage = combined
  | _ => True

instance [Blake3] (pages : Pages) : DecidablePred pages.Agrees := by
  intro msg
  cases msg <;> unfold Pages.Agrees <;> infer_instance

def Frame.parts (frame : Frame) : List Frame := frame.2.parts.map fun msg => (frame.1, msg)

namespace SyncFsm

variable {σ : Type} [SyncStorage σ] [Blake3]

/-- Take up a frame, if the call returns. -/
def accept (frame : Frame) (w : World σ) : Option (World σ) :=
  match (apply frame.1 frame.2).run w with
  | .ok _ w' => some w'
  | .error _ _ => none

theorem accept_eq_some {frame : Frame} {w w' : World σ} :
    accept frame w = some w' ↔ (apply frame.1 frame.2).run w = .ok () w' := by
  unfold accept
  cases (apply frame.1 frame.2).run w <;> simp

/-- Accepting a frame is a chain of its acts. -/
theorem accept_keeps {I : World σ → Prop} {frame : Frame} {w w' : World σ}
    (h : accept frame w = some w') (hI : ∀ w w', Act frame.2 w w' → I w → I w') (hw : I w) :
    I w' := by
  have hkeep := (apply_acts frame.1 frame.2 w).keeps hI hw
  rwa [accept_eq_some.mp h] at hkeep

theorem accept_direction {frame : Frame} {w w' : World σ} (h : accept frame w = some w') :
    w'.fsm.direction = w.fsm.direction :=
  accept_keeps h (I := fun v => v.fsm.direction = w.fsm.direction)
    (fun _ _ hact hv => hact.direction.trans hv) rfl

theorem accept_sink {frame : Frame} {w w' : World σ} (h : accept frame w = some w') :
    w'.sink = w.sink :=
  accept_keeps h (I := fun v => v.sink = w.sink) (fun _ _ hact hv => hact.sink.trans hv) rfl

/-- The first frame that is accepted is `Hello`, and it greets. -/
theorem accept_first {frame : Frame} {w w' : World σ} (h : accept frame w = some w')
    (hsaw : w.fsm.sawHello = false) :
    ∃ pageSize maxPage, frame.2 = .hello HANDSHAKE_VERSION pageSize maxPage := by
  rw [accept_eq_some] at h
  obtain ⟨nowMs, msg⟩ := frame
  match msg with
  | .hello version pageSize maxPage =>
    by_cases hversion : version = HANDSHAKE_VERSION
    · exact ⟨pageSize, maxPage, by rw [hversion]⟩
    · simp [apply, hsaw, handleHello, hversion] at h
  | .pageDataBatch _ | .helloReply .. | .pageHash .. | .pageHashBatch .. | .requestPage _
  | .requestPages _ | .hashMismatch _ | .hashMismatchBatch _ | .pageData .. | .complete
  | .syncComplete .. | .error _ => simp [apply, hsaw] at h

theorem run_forM_pageData (nowMs : Int64) (pages : List PageDataEntry) {w : World σ}
    (hsaw : w.fsm.sawHello = true) :
    Machine.run accept
        (pages.map fun entry => (nowMs, .pageData entry.pageNo entry.data)) w =
      match (forM pages fun entry => handlePageData nowMs entry.pageNo entry.data : FsmM σ Unit).run
        w with
      | .ok _ w' => some w'
      | .error _ _ => none := by
  induction pages generalizing w with
  | nil => rfl
  | cons entry pages ih =>
    have hfirst : (apply nowMs (.pageData entry.pageNo entry.data)).run w =
        (handlePageData nowMs entry.pageNo entry.data).run w := by
      simp [apply, hsaw]
    rw [List.map_cons, Machine.run_cons, List.forM_cons, EStateM.run_bind, accept, hfirst]
    cases hr : (handlePageData nowMs entry.pageNo entry.data).run w with
    | error e w' => rfl
    | ok a w' =>
      have hsaw' : w'.fsm.sawHello = true := by
        have hkeep := (apply_acts nowMs (.pageData entry.pageNo entry.data) w).keeps
          (fun _ _ hact h => hact.sawHello h) hsaw
        rwa [hfirst, hr] at hkeep
      exact ih hsaw'

/-- A frame is the run of its parts. -/
theorem run_parts_frame (frame : Frame) {w : World σ} (hsaw : w.fsm.sawHello = true) :
    Machine.run accept frame.parts w = accept frame w := by
  obtain ⟨nowMs, msg⟩ := frame
  match msg with
  | .pageDataBatch pages =>
    have hbatch : (apply nowMs (.pageDataBatch pages)).run w =
        (forM pages fun entry => handlePageData nowMs entry.pageNo entry.data).run w := by
      simp [apply, hsaw]
    have hparts : Frame.parts (nowMs, .pageDataBatch pages) =
        pages.map fun entry => (nowMs, .pageData entry.pageNo entry.data) := by
      simp [Frame.parts, SyncMessage.parts]
    rw [hparts, run_forM_pageData nowMs pages hsaw, accept, hbatch]
    rfl
  | .hello .. | .helloReply .. | .pageHash .. | .pageHashBatch .. | .requestPage _
  | .requestPages _ | .hashMismatch _ | .hashMismatchBatch _ | .pageData .. | .complete
  | .syncComplete .. | .error _ => exact Machine.run_singleton accept _ w

section

variable {frame : Frame} {w w' : World InMemorySyncStorage}

/-- Whatever is accepted, the machine has seen `Hello` by then. -/
theorem accept_sawHello (h : accept frame w = some w') : w'.fsm.sawHello = true := by
  cases hsaw : w.fsm.sawHello with
  | true => exact accept_keeps h (fun _ _ hact => hact.sawHello) hsaw
  | false =>
    obtain ⟨nowMs, msg⟩ := frame
    obtain ⟨pageSize, maxPage, rfl⟩ := accept_first h hsaw
    have hrun : (apply nowMs (.hello HANDSHAKE_VERSION pageSize maxPage)).run w =
        (handleHello HANDSHAKE_VERSION pageSize).run w := by
      simp [apply, hsaw]
    rw [accept_eq_some, hrun, run_handleHello, run_emit] at h
    split at h
    · obtain ⟨-, rfl⟩ := EStateM.Result.ok.inj h
      rfl
    · cases h

/-- A run that was accepted is the run of its parts. -/
theorem run_parts {frames : List Frame} (h : Machine.run accept frames w = some w') :
    Machine.run accept (frames.flatMap Frame.parts) w = some w' := by
  have hsplit : ∀ (frames : List Frame) {w : World InMemorySyncStorage},
      w.fsm.sawHello = true → Machine.run accept frames w = some w' →
      Machine.run accept (frames.flatMap Frame.parts) w = some w' := by
    intro frames
    induction frames with
    | nil => exact fun _ h => h
    | cons frame frames ih =>
      intro w hsaw h
      obtain ⟨w₁, hframe, hrest⟩ := Option.bind_eq_some_iff.mp h
      rw [List.flatMap_cons, Machine.run_append, run_parts_frame frame hsaw, hframe]
      exact ih (accept_sawHello hframe) hrest
  rcases frames with _ | ⟨frame, frames⟩
  · exact h
  cases hsaw : w.fsm.sawHello with
  | true => exact hsplit _ hsaw h
  | false =>
    obtain ⟨w₁, hframe, hrest⟩ := Option.bind_eq_some_iff.mp h
    obtain ⟨nowMs, msg⟩ := frame
    obtain ⟨pageSize, maxPage, rfl⟩ := accept_first hframe hsaw
    rw [List.flatMap_cons, Machine.run_append]
    show (Machine.run accept [_] w).bind _ = _
    rw [Machine.run_singleton, hframe]
    exact hsplit frames (accept_sawHello hframe) hrest

end

/-! ## What an accepted part does -/

/-- A machine past the handshake, whose frames are all taken. -/
structure Greeted (direction : Direction) (w : World InMemorySyncStorage) : Prop where
  sawHello : w.fsm.sawHello = true
  dir : w.fsm.direction = direction
  sink : w.sink = fun _ => none

/-- What a hash claim does. -/
inductive Claimed (w : World InMemorySyncStorage) :
    SyncMessage → World InMemorySyncStorage → Prop
  | matched {p : UInt32} {hash : Bytes} (hmatch : (w.storage[p]?).map Page.hash = some hash) :
      Claimed w (.pageHash p hash) (w.setFsm (claim p))
  | requested {p : UInt32} {hash : Bytes} (hdir : w.fsm.direction = .push)
      (hmiss : (w.storage[p]?).map Page.hash ≠ some hash) :
      Claimed w (.pageHash p hash)
        (((w.setFsm (claim p)).setFsm (await p)).hand (.requestPage p))
  | served {p : UInt32} {hash : Bytes} {page : Page} (hdir : w.fsm.direction = .pull)
      (hpage : w.storage[p]? = some page) (hmiss : page.hash ≠ hash) :
      Claimed w (.pageHash p hash)
        (((w.setFsm (claim p)).setFsm fun f => f.count page.data.length).hand
          (.pageData p page.data))
  | unknown {p : UInt32} {hash : Bytes} (hdir : w.fsm.direction = .pull)
      (hnone : w.storage[p]? = none) : Claimed w (.pageHash p hash) (w.setFsm (claim p))
  | batchMatched {startPage endPage : UInt32} {combined : Bytes}
      (hmatch : Pages.combinedHash w.storage startPage endPage = combined) :
      Claimed w (.pageHashBatch startPage endPage combined)
        (w.setFsm (claimRange startPage endPage))
  | batchMismatched {startPage endPage : UInt32} {combined : Bytes}
      (hmiss : Pages.combinedHash w.storage startPage endPage ≠ combined) :
      Claimed w (.pageHashBatch startPage endPage combined)
        ((w.setFsm (claimRange startPage endPage)).hand
          (.hashMismatchBatch (pageRange startPage endPage)))

section

variable {nowMs : Int64} {msg : SyncMessage} {direction : Direction}
  {w w' : World InMemorySyncStorage}

theorem Greeted.accept {frame : Frame} (hw : Greeted direction w) (h : accept frame w = some w') :
    Greeted direction w' where
  sawHello := accept_sawHello h
  dir := (accept_direction h).trans hw.dir
  sink := (accept_sink h).trans hw.sink

theorem accept_pageHash (hw : Greeted direction w) {p : UInt32} {hash : Bytes}
    (h : accept (nowMs, .pageHash p hash) w = some w') : Claimed w (.pageHash p hash) w' := by
  rw [accept_eq_some, run_apply_pageHash hw.sawHello] at h
  cases direction with
  | push =>
    rw [run_handlePageHash_push w p hash hw.dir] at h
    split at h
    · next hmatch =>
      obtain ⟨-, rfl⟩ := EStateM.Result.ok.inj h
      exact .matched hmatch
    · next hmiss =>
      rw [run_emit_reliable (by exact hw.sink)] at h
      obtain ⟨-, rfl⟩ := EStateM.Result.ok.inj h
      exact .requested hw.dir hmiss
  | pull =>
    rw [run_handlePageHash_pull w p hash hw.dir] at h
    split at h
    · next page hpage =>
      split at h
      · next hmatch =>
        obtain ⟨-, rfl⟩ := EStateM.Result.ok.inj h
        exact .matched (by rw [hpage, ← hmatch]; rfl)
      · next hmiss =>
        rw [run_emit_reliable (by exact hw.sink)] at h
        obtain ⟨-, rfl⟩ := EStateM.Result.ok.inj h
        exact .served hw.dir hpage hmiss
    · next hnone =>
      obtain ⟨-, rfl⟩ := EStateM.Result.ok.inj h
      exact .unknown hw.dir hnone

theorem accept_pageHashBatch (hw : Greeted direction w) {startPage endPage : UInt32}
    {combined : Bytes} (h : accept (nowMs, .pageHashBatch startPage endPage combined) w = some w') :
    Claimed w (.pageHashBatch startPage endPage combined) w' := by
  have hrun : (apply nowMs (.pageHashBatch startPage endPage combined)).run w =
      (handlePageHashBatch startPage endPage combined).run w := by
    simp [apply, hw.sawHello]
  rw [accept_eq_some, hrun, run_handlePageHashBatch] at h
  split at h
  · next hmatch =>
    obtain ⟨-, rfl⟩ := EStateM.Result.ok.inj h
    exact .batchMatched hmatch
  · next hmiss =>
    rw [run_emit_reliable (by exact hw.sink)] at h
    obtain ⟨-, rfl⟩ := EStateM.Result.ok.inj h
    exact .batchMismatched hmiss

/-- What a part of a push does. -/
inductive PushPart (w : World InMemorySyncStorage) :
    SyncMessage → World InMemorySyncStorage → Prop
  | claimed {msg : SyncMessage} {w' : World InMemorySyncStorage} (h : Claimed w msg w') :
      PushPart w msg w'
  | data (entry : PageDataEntry) :
      PushPart w (.pageData entry.pageNo entry.data) (passGate (taken entry w))
  | complete : PushPart w .complete (passGate (completing w))

theorem accept_push (hw : Greeted .push w) (hpart : msg.IsPart)
    (h : accept (nowMs, msg) w = some w') : PushPart w msg w' := by
  have hrun := accept_eq_some.mp h
  match msg with
  | .pageHash p hash => exact .claimed (accept_pageHash hw h)
  | .pageHashBatch s e combined => exact .claimed (accept_pageHashBatch hw h)
  | .pageData p data =>
    have hdata := run_apply_pageData hw.sink hw.sawHello nowMs ⟨p, data⟩
    obtain ⟨-, rfl⟩ := EStateM.Result.ok.inj (hdata.symm.trans hrun)
    exact .data ⟨p, data⟩
  | .complete =>
    have hcomplete := run_apply_complete_push hw.sink hw.sawHello hw.dir nowMs
    obtain ⟨-, rfl⟩ := EStateM.Result.ok.inj (hcomplete.symm.trans hrun)
    exact .complete
  | .pageDataBatch _ => exact hpart.elim
  | .hello .. | .helloReply .. | .requestPage _ | .requestPages _ | .hashMismatch _
  | .hashMismatchBatch _ | .syncComplete .. | .error _ => simp [apply, hw.sawHello] at hrun

end

/-! ## Runs from the start -/

/-- The world of a new machine whose frames are all taken. -/
def opening (direction : Direction) (pages : Pages) : World InMemorySyncStorage :=
  start direction pages fun _ => none

section

variable {direction : Direction} {pages : Pages} {frames : List Frame}
  {w w' : World InMemorySyncStorage}

/-- A run keeps the direction and the sink it was opened with. -/
theorem fixed_of_run (hrun : Machine.run accept frames (opening direction pages) = some w) :
    w.fsm.direction = direction ∧ w.sink = fun _ => none := by
  refine Machine.run_keeps hrun
    (I := fun w => w.fsm.direction = direction ∧ w.sink = fun _ => none) ⟨rfl, rfl⟩ ?_
  intro frame _ w w' hstep ⟨hdir, hsink⟩
  exact ⟨(accept_direction hstep).trans hdir, (accept_sink hstep).trans hsink⟩

/-- Once a machine has seen `Hello` it is past the handshake. -/
theorem greeted_of_run (hrun : Machine.run accept frames (opening direction pages) = some w)
    (hsaw : w.fsm.sawHello = true) : Greeted direction w :=
  ⟨hsaw, (fixed_of_run hrun).1, (fixed_of_run hrun).2⟩

/-- A frame other than `Hello` is accepted by a machine past the handshake. -/
theorem greeted_of_accept (hrun : Machine.run accept frames (opening direction pages) = some w)
    {frame : Frame} (h : accept frame w = some w')
    (hmsg : ∀ pageSize maxPage, frame.2 ≠ .hello HANDSHAKE_VERSION pageSize maxPage) :
    Greeted direction w := by
  refine greeted_of_run hrun ?_
  by_contra hsaw
  obtain ⟨pageSize, maxPage, hhello⟩ := accept_first h (by simpa using hsaw)
  exact hmsg pageSize maxPage hhello

end

/-! ## The moment of completion -/

/-- The machine becomes done at the last frame, and is not done before. -/
structure CompletesAt (w₀ : World InMemorySyncStorage) (front : List Frame) (last : Frame)
    (w : World InMemorySyncStorage) : Prop where
  accepted : ∃ w₁, Machine.run accept front w₀ = some w₁ ∧ w₁.fsm.done = false ∧
    accept last w₁ = some w
  done : w.fsm.done = true

/-- A run that ends with a machine that is done has such a moment. -/
theorem exists_completesAt {frames : List Frame} {w₀ w : World InMemorySyncStorage}
    (hrun : Machine.run accept frames w₀ = some w) (hopen : w₀.fsm.done = false)
    (hdone : w.fsm.done = true) :
    ∃ front last rest w₁, frames = front ++ last :: rest ∧ CompletesAt w₀ front last w₁ := by
  induction frames generalizing w₀ with
  | nil =>
    obtain rfl : w₀ = w := by simpa using hrun
    simp [hopen] at hdone
  | cons frame frames ih =>
    obtain ⟨w₁, hframe, hrest⟩ := Option.bind_eq_some_iff.mp hrun
    cases hdone₁ : w₁.fsm.done with
    | true => exact ⟨[], frame, frames, w₁, rfl, ⟨w₀, rfl, hopen, hframe⟩, hdone₁⟩
    | false =>
      obtain ⟨front, last, rest, w₂, rfl, ⟨w₃, hfront, hopen₃, hlast⟩, hdone₂⟩ := ih hrest hdone₁
      refine ⟨frame :: front, last, rest, w₂, rfl, ⟨w₃, ?_, hopen₃, hlast⟩, hdone₂⟩
      rw [Machine.run_cons, hframe]
      exact hfront

omit [Blake3] in
theorem passGate_done {w : World InMemorySyncStorage} (hopen : w.fsm.done = false)
    (hdone : (passGate w).fsm.done = true) : (passGate w).fsm.pendingRequests = ∅ := by
  unfold passGate at hdone ⊢
  split
  · next hgate => exact hgate.2.2
  · next hgate =>
    rw [if_neg hgate, hopen] at hdone
    cases hdone

/-- When a push completes it awaits no page. -/
theorem CompletesAt.pending {pages : Pages} {front : List Frame} {last : Frame}
    {w : World InMemorySyncStorage} (h : CompletesAt (opening .push pages) front last w)
    (hlast : last.2.IsPart) : w.fsm.pendingRequests = ∅ := by
  obtain ⟨⟨w₁, hfront, hopen, haccept⟩, hdone⟩ := h
  obtain ⟨nowMs, msg⟩ := last
  cases hsaw : w₁.fsm.sawHello with
  | false =>
    obtain ⟨pageSize, maxPage, rfl⟩ := accept_first haccept hsaw
    rw [accept_eq_some, run_apply_hello (fixed_of_run hfront).2 hsaw] at haccept
    obtain ⟨-, rfl⟩ := EStateM.Result.ok.inj haccept
    exact absurd (hopen.symm.trans hdone) (by decide)
  | true =>
    have hpart := accept_push (greeted_of_run hfront hsaw) hlast haccept
    cases hpart with
    | claimed hclaim =>
      have hsame : w.fsm.done = w₁.fsm.done := by cases hclaim <;> rfl
      exact absurd (hsame.symm.trans hdone) (by simp [hopen])
    | data entry => exact passGate_done hopen hdone
    | complete => exact passGate_done hopen hdone

end SyncFsm

end EdgeReplica
