-- SUMMARY: What a completed push vouches for: claims that did not match, and the rows of the pages that were announced.
import EdgeReplica.Services.AcceptedRuns

/-!
# The claims of a push

A hash that does not match puts its page among those the gate waits for, and it
stays there until its bytes come. A batch that does not match is answered with its
page numbers, so that the client can claim them one by one. So at the moment of
`SyncComplete` every page whose own hash did not match was sent since. Page bytes
are stored under their own digest, whatever was announced for them.
-/

namespace EdgeReplica

/-- A part that does not announce page `p`. -/
def SyncMessage.IsQuiet (p : UInt32) (msg : SyncMessage) : Prop :=
  msg.IsPart ∧ ∀ hash, msg ≠ .pageHash p hash

/-- The bytes that a part carries for page `p`. -/
def SyncMessage.bytesFor (p : UInt32) : SyncMessage → Option Bytes
  | .pageData pageNo data => if pageNo = p then some data else none
  | _ => none

/-- The last bytes that the parts carry for page `p`. -/
def lastData (p : UInt32) (parts : List Frame) : Option Bytes :=
  parts.reverse.findSome? fun part => part.2.bytesFor p

theorem lastData_snoc (p : UInt32) (parts : List Frame) (part : Frame) :
    lastData p (parts ++ [part]) = (part.2.bytesFor p).or (lastData p parts) := by
  rw [lastData, List.reverse_append, List.reverse_singleton, List.singleton_append,
    List.findSome?_cons]
  cases part.2.bytesFor p <;> rfl

namespace SyncFsm

variable [Blake3]

/-- The parts of the frames up to the one at which the machine becomes done. -/
structure Moment (direction : Direction) (pages : Pages) (frames front : List Frame) (last : Frame)
    (w : World InMemorySyncStorage) : Prop where
  parts : front ++ [last] <+: frames.flatMap Frame.parts
  completes : CompletesAt (opening direction pages) front last w

section

variable {direction : Direction} {pages : Pages} {frames front : List Frame} {last : Frame}
  {w w' : World InMemorySyncStorage}

theorem exists_moment (hrun : Machine.run accept frames (opening direction pages) = some w)
    (hdone : w.fsm.done = true) :
    ∃ front last w₁, Moment direction pages frames front last w₁ := by
  obtain ⟨front, last, rest, w₁, hparts, hcompletes⟩ :=
    exists_completesAt (run_parts hrun) rfl hdone
  exact ⟨front, last, w₁, ⟨rest, by simp [hparts]⟩, hcompletes⟩

theorem Moment.isPart (h : Moment direction pages frames front last w) :
    ∀ part ∈ front ++ [last], part.2.IsPart := by
  intro part hmem
  obtain ⟨frame, -, hpart⟩ := List.mem_flatMap.mp (h.parts.subset hmem)
  obtain ⟨msg, hmsg, rfl⟩ := List.mem_map.mp hpart
  exact SyncMessage.isPart_of_mem hmsg

/-- The run up to a claim, the claim, and the run from there to the moment. -/
theorem Moment.split (h : Moment direction pages frames front last w)
    {before after : List Frame} {claim : Frame}
    (hsplit : front ++ [last] = before ++ claim :: after) :
    ∃ w₁ w₂, Machine.run accept before (opening direction pages) = some w₁ ∧
      accept claim w₁ = some w₂ ∧ Machine.run accept after w₂ = some w := by
  obtain ⟨⟨w₃, hfront, -, hlast⟩, -⟩ := h.completes
  have hrun : Machine.run accept (front ++ [last]) (opening direction pages) = some w := by
    rw [Machine.run_append, hfront]
    exact (Machine.run_singleton accept last w₃).trans hlast
  rw [hsplit] at hrun
  obtain ⟨w₁, hbefore, hrest⟩ := Machine.run_append_some hrun
  obtain ⟨w₂, hclaim, hafter⟩ := Option.bind_eq_some_iff.mp hrest
  exact ⟨w₁, w₂, hbefore, hclaim, hafter⟩

end

/-! ## Claims that did not match -/

/-- Every page of a claim that did not match is sent after the claim. -/
def Answered (pages : Pages) (parts : List Frame) (chosen : SyncMessage → Prop) : Prop :=
  ∀ before nowMs claim after w, parts = before ++ (nowMs, claim) :: after →
    Machine.run accept before (opening .push pages) = some w → chosen claim →
      ¬ Pages.Agrees w.storage claim →
        ∀ p ∈ claim.claimed, ∃ part ∈ after, part.2.carries p = true

/-- A page that is awaited stays so until its bytes are taken up. -/
theorem pending_or_carried {p : UInt32} {parts : List Frame} {w w' : World InMemorySyncStorage}
    (hrun : Machine.run accept parts w = some w') (hp : p ∈ w.fsm.pendingRequests) :
    p ∈ w'.fsm.pendingRequests ∨ ∃ part ∈ parts, part.2.carries p = true := by
  refine Machine.run_traces hrun (I := fun parts w =>
    p ∈ w.fsm.pendingRequests ∨ ∃ part ∈ parts, part.2.carries p = true) (.inl hp) ?_
  intro before frame w w' hstep h
  rcases h with hawait | ⟨part, hmem, hcarries⟩
  · cases hcarries : frame.2.carries p with
    | true => exact .inr ⟨frame, by simp, hcarries⟩
    | false =>
      refine .inl (accept_keeps hstep (I := fun w => p ∈ w.fsm.pendingRequests) ?_ hawait)
      intro w₁ w₂ hact hawait
      cases hact with
      | request _ _ _ => exact Finset.mem_insert_of_mem hawait
      | @take q data _ hentry =>
        refine Finset.mem_erase.mpr ⟨?_, hawait⟩
        rintro rfl
        have hany : frame.2.carries p = true :=
          List.any_eq_true.mpr ⟨_, hentry, by simp⟩
        rw [hcarries] at hany
        cases hany
      | _ => exact hawait
  · exact .inr ⟨part, List.mem_append_left _ hmem, hcarries⟩

/-- A page whose own hash did not match is sent before a push completes. -/
theorem answered_pageHash {pages : Pages} {frames front : List Frame} {last : Frame}
    {w : World InMemorySyncStorage} (h : Moment .push pages frames front last w) :
    Answered pages (front ++ [last]) fun claim => claim.isBatchClaim = false := by
  intro before nowMs claim after w₁ hsplit hbefore hsingle hmiss p hp
  obtain ⟨w₁', w₂, hbefore', hclaim, hafter⟩ := h.split hsplit
  obtain rfl : w₁ = w₁' := Option.some.inj (hbefore.symm.trans hbefore')
  match claim with
  | .pageHash q hash =>
    obtain rfl : p = q := by simpa [SyncMessage.claimed] using hp
    have hgreeted := greeted_of_accept hbefore hclaim nofun
    have hpending : w.fsm.pendingRequests = ∅ :=
      h.completes.pending (h.isPart last (by simp))
    have hawait : p ∈ w₂.fsm.pendingRequests := by
      cases accept_pageHash hgreeted hclaim with
      | matched hmatch => exact absurd hmatch hmiss
      | requested _ _ => exact Finset.mem_insert_self p _
      | served hdir _ _ | unknown hdir _ => exact absurd (hgreeted.dir.symm.trans hdir) (by decide)
    rcases pending_or_carried hafter hawait with hleft | hsent
    · rw [hpending] at hleft
      exact absurd hleft (Finset.notMem_empty p)
    · exact hsent
  | .pageHashBatch s e combined => simp [SyncMessage.isBatchClaim] at hsingle
  | .hello .. | .helloReply .. | .requestPage _ | .requestPages _ | .hashMismatch _
  | .hashMismatchBatch _ | .pageData .. | .pageDataBatch _ | .complete | .syncComplete ..
  | .error _ => simp [SyncMessage.claimed] at hp

/-- A batch that did not match was answered with its page numbers. -/
theorem answered_batch {pages : Pages} {before : List Frame} {nowMs : Int64}
    {startPage endPage : UInt32} {combined : Bytes} {w w' : World InMemorySyncStorage}
    (hbefore : Machine.run accept before (opening .push pages) = some w)
    (hclaim : accept (nowMs, .pageHashBatch startPage endPage combined) w = some w')
    (hmiss : ¬ Pages.Agrees w.storage (.pageHashBatch startPage endPage combined)) :
    w'.history =
      w.history ++ [.handed (.hashMismatchBatch (pageRange startPage endPage)) none] := by
  have hgreeted := greeted_of_accept hbefore hclaim nofun
  cases accept_pageHashBatch hgreeted hclaim with
  | batchMatched hmatch => exact absurd hmatch hmiss
  | batchMismatched _ =>
    have hsink : (w.setFsm (claimRange startPage endPage)).sink = fun _ => none := hgreeted.sink
    rw [World.hand_history, hsink]
    rfl

/-- When a push completes, every page whose own hash did not match has been sent
since, and every batch that did not match has been answered with its page numbers. -/
theorem push_answers {pages : Pages} {frames : List Frame} {w : World InMemorySyncStorage}
    (hrun : Machine.run accept frames (opening .push pages) = some w) (hdone : w.fsm.done = true) :
    (∃ front last w₁, Moment .push pages frames front last w₁) ∧
      ∀ front last w₁, Moment .push pages frames front last w₁ →
        Answered pages (front ++ [last]) (fun claim => claim.isBatchClaim = false) ∧
        ∀ before nowMs startPage endPage combined after w₂ w₃,
          front ++ [last] = before ++ (nowMs, .pageHashBatch startPage endPage combined) :: after →
          Machine.run accept before (opening .push pages) = some w₂ →
          accept (nowMs, .pageHashBatch startPage endPage combined) w₂ = some w₃ →
          ¬ Pages.Agrees w₂.storage (.pageHashBatch startPage endPage combined) →
            w₃.history = w₂.history ++
              [.handed (.hashMismatchBatch (pageRange startPage endPage)) none] := by
  refine ⟨exists_moment hrun hdone, fun front last w₁ hmoment => ⟨answered_pageHash hmoment, ?_⟩⟩
  intro before nowMs startPage endPage combined after w₂ w₃ _ hbefore hclaim hmiss
  exact answered_batch hbefore hclaim hmiss

/-- Finding the moment of a run on fixed frames. -/
theorem moment_of_runs (direction : Direction) (pages : Pages) (front : List Frame) (last : Frame)
    (hfront : (Machine.run accept front (opening direction pages)).map (fun w => w.fsm.done) =
      some false)
    (hall : (Machine.run accept (front ++ [last]) (opening direction pages)).map
      (fun w => w.fsm.done) = some true)
    (hparts : front ++ [last] <+: (front ++ [last]).flatMap Frame.parts := by decide) :
    ∃ w, Machine.run accept (front ++ [last]) (opening direction pages) = some w ∧
      Moment direction pages (front ++ [last]) front last w := by
  obtain ⟨w, hrun, hdone⟩ := Option.map_eq_some_iff.mp hall
  obtain ⟨w₁, hfront₁, hlast⟩ := Machine.run_append_some hrun
  rw [hfront₁] at hfront
  rw [Machine.run_singleton] at hlast
  exact ⟨w, hrun, hparts, ⟨w₁, hfront₁, Option.some.inj hfront, hlast⟩, hdone⟩

section Samples

omit [Blake3]

/-- A batch that does not match, and the hash of each of its pages: only the second
page differs, and only that one is sent. -/
def rehash : List Frame :=
  [(0, .hello 1 4096 2), (0, .pageHashBatch 1 2 [170]), (0, .pageHash 1 [7]), (0, .pageHash 2 [8]),
    (0, .pageData 2 [2])]

/-- A push may complete without the pages of a batch that did not match. -/
theorem push_skips_matched :
    letI := Blake3.onSamples
    ¬ ∀ (pages : Pages) (frames front : List Frame) (last : Frame)
        (w : World InMemorySyncStorage), Moment .push pages frames front last w →
      Answered pages (front ++ [last]) fun _ => True := by
  let _ := Blake3.onSamples
  intro h
  let pages : Pages := (∅ : Pages).insert 1 ⟨[1], [7]⟩
  obtain ⟨w, -, hmoment⟩ := moment_of_runs .push pages rehash (0, .complete) (by decide +kernel)
    (by decide +kernel)
  have hmiss : (Machine.run accept [(0, .hello 1 4096 2)] (opening .push pages)).map
      (fun w => decide (Pages.Agrees w.storage (.pageHashBatch 1 2 [170]))) = some false := by
    decide +kernel
  obtain ⟨w₁, hbefore, hmiss⟩ := Option.map_eq_some_iff.mp hmiss
  obtain ⟨part, hmem, hcarries⟩ := h _ _ _ _ _ hmoment [(0, .hello 1 4096 2)] 0
    (.pageHashBatch 1 2 [170]) _ w₁ rfl hbefore trivial (of_decide_eq_false hmiss) 1 (by decide)
  have hnone : ∀ part ∈ [(0, .pageHash 1 [7]), (0, .pageHash 2 [8]), (0, .pageData 2 [2]),
      ((0, .complete) : Frame)], part.2.carries 1 = false := by decide
  rw [hnone part hmem] at hcarries
  cases hcarries

theorem push_answers_rehash :
    letI := Blake3.onSamples
    letI pages : Pages := (∅ : Pages).insert 1 ⟨[1], [7]⟩
    ∃ front last w, Moment .push pages (rehash ++ [(0, .complete)]) front last w ∧
      Answered pages (front ++ [last]) fun claim => claim.isBatchClaim = false := by
  let _ := Blake3.onSamples
  obtain ⟨w, hrun, hmoment⟩ := moment_of_runs .push ((∅ : Pages).insert 1 ⟨[1], [7]⟩) rehash
    (0, .complete) (by decide +kernel) (by decide +kernel)
  exact ⟨_, _, w, hmoment, ((push_answers hrun hmoment.completes.done).2 _ _ _ hmoment).1⟩

end Samples

/-! ## Rows of announced pages -/

/-- What the store has for page `p`, when `hash` was announced for it and the parts
came after that: the last bytes sent since, or else the announced hash, unless the
page is still awaited. -/
def RowSince (p : UInt32) (hash : Bytes) (parts : List Frame) (w : World InMemorySyncStorage) :
    Prop :=
  match lastData p parts with
  | some data => w.storage[p]? = some ⟨data, pageHash data⟩
  | none => (w.storage[p]?).map Page.hash = some hash ∨ p ∈ w.fsm.pendingRequests

section

variable {p : UInt32} {hash : Bytes} {parts : List Frame} {w w' : World InMemorySyncStorage}

/-- A part without bytes for the page keeps what the store has for it. -/
theorem RowSince.of_same {part : Frame} (h : RowSince p hash parts w)
    (hnone : part.2.bytesFor p = none) (hstorage : w'.storage[p]? = w.storage[p]?)
    (hpending : p ∈ w.fsm.pendingRequests → p ∈ w'.fsm.pendingRequests) :
    RowSince p hash (parts ++ [part]) w' := by
  unfold RowSince at h ⊢
  rw [lastData_snoc, hnone, Option.none_or]
  cases hlast : lastData p parts with
  | none =>
    rw [hlast] at h
    exact h.imp (fun hrow => by rw [hstorage]; exact hrow) hpending
  | some data =>
    rw [hlast] at h
    exact hstorage.trans h

theorem RowSince.step {nowMs : Int64} {msg : SyncMessage} (h : RowSince p hash parts w)
    (hquiet : msg.IsQuiet p) (hpart : PushPart w msg w') :
    RowSince p hash (parts ++ [(nowMs, msg)]) w' := by
  cases hpart with
  | claimed hclaim =>
    cases hclaim with
    | requested _ _ => exact h.of_same rfl rfl (Finset.mem_insert_of_mem ·)
    | _ => exact h.of_same rfl rfl id
  | data entry =>
    by_cases hp : entry.pageNo = p
    · unfold RowSince
      rw [lastData_snoc]
      simp only [SyncMessage.bytesFor, hp, if_true, Option.some_or]
      rw [passGate_storage, taken_storage, Pages.getElem?_write, if_pos hp]
    · refine h.of_same (by simp [SyncMessage.bytesFor, hp]) ?_ ?_
      · rw [passGate_storage, taken_storage, Pages.getElem?_write, if_neg hp]
      · intro hawait
        rw [passGate_pendingRequests]
        exact Finset.mem_erase.mpr ⟨Ne.symm hp, hawait⟩
  | complete =>
    refine h.of_same rfl ?_ ?_
    · rw [passGate_storage]; rfl
    · rw [passGate_pendingRequests]; exact id

/-- From an announcement on, as long as the page is not announced again. -/
theorem rowSince_run (hrun : Machine.run accept parts w = some w') (hw : Greeted .push w)
    (hquiet : ∀ part ∈ parts, part.2.IsQuiet p) (h : RowSince p hash [] w) :
    RowSince p hash parts w' := by
  refine (Machine.run_traces hrun (I := fun parts w =>
    (∀ part ∈ parts, part.2.IsQuiet p) → Greeted .push w ∧ RowSince p hash parts w)
    (fun _ => ⟨hw, h⟩) ?_ hquiet).2
  intro before part w w' hstep hind hquiet
  obtain ⟨hgreeted, hrow⟩ := hind fun part hmem => hquiet part (List.mem_append_left _ hmem)
  have hpart := hquiet part (by simp)
  exact ⟨hgreeted.accept hstep, hrow.step hpart (accept_push hgreeted hpart.1 hstep)⟩

end

/-- When a push completes, each announced page has the bytes that were last sent for
it since its last announcement, under their own digest; without any it has the
announced hash. -/
theorem push_rows {pages : Pages} {frames : List Frame} {w : World InMemorySyncStorage}
    (hrun : Machine.run accept frames (opening .push pages) = some w) (hdone : w.fsm.done = true) :
    (∃ front last w₁, Moment .push pages frames front last w₁) ∧
      ∀ front last w₁, Moment .push pages frames front last w₁ →
        ∀ before nowMs p hash after,
          front ++ [last] = before ++ (nowMs, .pageHash p hash) :: after →
          (∀ part ∈ after, ∀ hash', part.2 ≠ .pageHash p hash') →
          match lastData p after with
          | some data => w₁.storage[p]? = some ⟨data, pageHash data⟩ ∧
              ((w₁.storage[p]?).map Page.hash = some hash ↔ pageHash data = hash)
          | none => (w₁.storage[p]?).map Page.hash = some hash := by
  refine ⟨exists_moment hrun hdone, ?_⟩
  intro front last w₁ hmoment before nowMs p hash after hsplit hlater
  obtain ⟨w₂, w₃, hbefore, hclaim, hafter⟩ := hmoment.split hsplit
  have hgreeted := greeted_of_accept hbefore hclaim nofun
  -- After the claim the row has the announced hash, or the page is pending.
  have hstart : RowSince p hash [] w₃ := by
    cases accept_pageHash hgreeted hclaim with
    | matched hmatch => exact .inl hmatch
    | requested _ _ => exact .inr (Finset.mem_insert_self p _)
    | served hdir _ _ | unknown hdir _ => exact absurd (hgreeted.dir.symm.trans hdir) (by decide)
  have hquiet : ∀ part ∈ after, part.2.IsQuiet p := by
    intro part hmem
    refine ⟨hmoment.isPart part ?_, hlater part hmem⟩
    rw [hsplit]
    exact List.mem_append_right _ (List.mem_cons_of_mem _ hmem)
  have hrow := rowSince_run hafter (hgreeted.accept hclaim) hquiet hstart
  -- At the end nothing is pending, so a page that was has got its data.
  have hpending : w₁.fsm.pendingRequests = ∅ :=
    hmoment.completes.pending (hmoment.isPart last (by simp))
  unfold RowSince at hrow
  cases hdata : lastData p after with
  | some data =>
    rw [hdata] at hrow
    exact ⟨hrow, by simp [hrow]⟩
  | none =>
    rw [hdata] at hrow
    rcases hrow with hhash | hleft
    · exact hhash
    · rw [hpending] at hleft
      exact absurd hleft (Finset.notMem_empty p)

section Samples

omit [Blake3]

/-- Page 1 is announced with one hash and sent with other bytes. -/
def mislabelled : List Frame :=
  [(0, .hello 1 4096 1), (0, .pageHash 1 [7]), (0, .pageData 1 [2])]

/-- A completed push may leave a page under another hash than was announced. -/
theorem push_stores_unannounced :
    letI := Blake3.onSamples
    ¬ ∀ (pages : Pages) (frames front : List Frame) (last : Frame)
        (w : World InMemorySyncStorage), Moment .push pages frames front last w →
      ∀ before nowMs p hash after,
        front ++ [last] = before ++ (nowMs, .pageHash p hash) :: after →
        (∀ part ∈ after, ∀ hash', part.2 ≠ .pageHash p hash') →
          (w.storage[p]?).map Page.hash = some hash := by
  let _ := Blake3.onSamples
  intro h
  obtain ⟨w, hrun, hmoment⟩ := moment_of_runs .push ∅ mislabelled (0, .complete)
    (by decide +kernel) (by decide +kernel)
  have hstored : (Machine.run accept (mislabelled ++ [(0, .complete)]) (opening .push ∅)).map
      (fun w => decide ((w.storage[(1 : UInt32)]?).map Page.hash = some [7])) = some false := by
    decide +kernel
  rw [hrun] at hstored
  refine of_decide_eq_false (Option.some.inj hstored) (h _ _ _ _ w hmoment [(0, .hello 1 4096 1)] 0
    1 [7] [(0, .pageData 1 [2]), (0, .complete)] rfl ?_)
  intro part hmem hash'
  rcases List.mem_pair.mp hmem with rfl | rfl <;> nofun

theorem push_rows_mislabelled :
    letI := Blake3.onSamples
    ∃ front last w, Moment .push ∅ (mislabelled ++ [(0, .complete)]) front last w ∧
      w.storage[(1 : UInt32)]? = some ⟨[2], pageHash [2]⟩ := by
  let _ := Blake3.onSamples
  obtain ⟨w, hrun, hmoment⟩ := moment_of_runs .push ∅ mislabelled (0, .complete)
    (by decide +kernel) (by decide +kernel)
  have hrow := (push_rows hrun hmoment.completes.done).2 _ _ _ hmoment [(0, .hello 1 4096 1)] 0 1
    [7] [(0, .pageData 1 [2]), (0, .complete)] rfl (by
      intro part hmem hash'
      rcases List.mem_pair.mp hmem with rfl | rfl <;> nofun)
  exact ⟨_, _, w, hmoment, hrow.1⟩

end Samples

end SyncFsm

end EdgeReplica
