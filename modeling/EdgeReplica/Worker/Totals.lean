-- SUMMARY: The end of a session: what its `SyncComplete` says of the pages that were moved, and whether it is final.
import Mathlib.Algebra.GroupWithZero.Nat
import EdgeReplica.Services.LawfulStorage
import EdgeReplica.Worker.PageWrites

/-!
# Totals of a session

The counters of the machine follow the pages that a session moves: those it stores in
a push, those it sends in a pull. `SyncComplete` carries the counters as they are when
it is sent, so it is right and final if nothing is moved afterwards and a pull stores
no page.
-/

namespace EdgeReplica

open Effect (Outcome Spec final)

/-! ## What was moved -/

/-- The bytes of the entries, in all. -/
def byteSum (entries : List PageDataEntry) : Nat := (entries.map fun entry => entry.data.length).sum

theorem byteSum_append (l₁ l₂ : List PageDataEntry) :
    byteSum (l₁ ++ l₂) = byteSum l₁ + byteSum l₂ := by
  rw [byteSum, List.map_append, List.sum_append]
  rfl

/-- The pages whose bytes the frames carry. -/
def carried (frames : List SyncMessage) : List PageDataEntry := frames.flatMap SyncMessage.entries

/-- The pages that a session moved: from the client in a push, to it in a pull. -/
def moved (direction : Direction) (history : List Event) : List PageDataEntry :=
  match direction with
  | .push => storedBy history
  | .pull => carried (sentBy history)

theorem moved_append (direction : Direction) (h₁ h₂ : List Event) :
    moved direction (h₁ ++ h₂) = moved direction h₁ ++ moved direction h₂ := by
  cases direction with
  | push => exact storedBy_append h₁ h₂
  | pull =>
    show carried (sentBy (h₁ ++ h₂)) = _
    rw [sentBy_append, carried, List.flatMap_append]
    rfl

/-- No `SyncComplete` was sent. -/
def Unsealed (history : List Event) : Prop :=
  ∀ pages bytes, .handed (.syncComplete pages bytes) none ∉ history

theorem Unsealed.append {h₁ h₂ : List Event} (h : Unsealed h₁) (h' : Unsealed h₂) :
    Unsealed (h₁ ++ h₂) := by
  intro pages bytes hmem
  rcases List.mem_append.mp hmem with hmem | hmem
  · exact h pages bytes hmem
  · exact h' pages bytes hmem

/-- The `SyncComplete` of a session is right and final: its totals are those of the
pages moved in the whole session, and the store ends as it was when it was sent. -/
def Final {σ : Type} [LawfulStorage σ] [Blake3] (direction : Direction) (pages : Pages)
    (w : World σ) : Prop :=
  ∀ before count bytes after,
    w.history = before ++ .handed (.syncComplete count bytes) none :: after →
      count = UInt64.ofNat (moved direction w.history).length ∧
      bytes = UInt64.ofNat (byteSum (moved direction w.history)) ∧
      LawfulStorage.pages w.storage = pages.replay (storedBy before)

theorem Final.of_unsealed {σ : Type} [LawfulStorage σ] [Blake3] {direction : Direction}
    {pages : Pages} {w : World σ} (h : Unsealed w.history) : Final direction pages w := by
  intro before count bytes after heq
  exact absurd (by rw [heq]; simp) (h count bytes)

namespace SyncFsm

/-! ## The counters -/

/-- The machine after it has counted the entries. -/
def counted (entries : List PageDataEntry) (f : SyncFsm) : SyncFsm :=
  { f with
    pagesTransferred := f.pagesTransferred + UInt64.ofNat entries.length
    bytesTransferred := f.bytesTransferred + UInt64.ofNat (byteSum entries) }

theorem counted_nil (f : SyncFsm) : f.counted [] = f := by
  show { f with pagesTransferred := f.pagesTransferred + 0
                bytesTransferred := f.bytesTransferred + 0 } = f
  rw [UInt64.add_zero, UInt64.add_zero]

theorem counted_append (f : SyncFsm) (l₁ l₂ : List PageDataEntry) :
    f.counted (l₁ ++ l₂) = (f.counted l₁).counted l₂ := by
  simp only [counted, List.length_append, byteSum_append, UInt64.ofNat_add, UInt64.add_assoc]

theorem count_eq_counted (f : SyncFsm) (entry : PageDataEntry) :
    f.count entry.data.length = f.counted [entry] := by
  simp [count, counted, byteSum]

/-- The counters are the totals of the entries. -/
structure Counts (entries : List PageDataEntry) (f : SyncFsm) : Prop where
  pages : f.pagesTransferred = UInt64.ofNat entries.length
  bytes : f.bytesTransferred = UInt64.ofNat (byteSum entries)

theorem Counts.counted {l : List PageDataEntry} {f : SyncFsm} (h : Counts l f)
    (l' : List PageDataEntry) : Counts (l ++ l') (f.counted l') where
  pages := by
    rw [List.length_append, UInt64.ofNat_add, ← h.pages]
    rfl
  bytes := by
    rw [byteSum_append, UInt64.ofNat_add, ← h.bytes]
    rfl

/-! ## Before the end -/

/-- The session goes on: its counters are the totals of what it moved so far. -/
structure Tallied (direction : Direction) (w : World InMemorySyncStorage) : Prop where
  dir : w.fsm.direction = direction
  unfinished : w.fsm.emittedComplete = false
  unsealed : Unsealed w.history
  counts : Counts (moved direction w.history) w.fsm

/-- The session has just sent its `SyncComplete`. -/
structure Sealed (direction : Direction) (w : World InMemorySyncStorage) : Prop where
  finished : w.fsm.emittedComplete = true
  counts : Counts (moved direction w.history) w.fsm
  last : ∃ before, Unsealed before ∧ w.history =
    before ++ [.handed (.syncComplete w.fsm.pagesTransferred w.fsm.bytesTransferred) none]

variable {direction : Direction} {w w' : World InMemorySyncStorage}

/-- Events that are no `SyncComplete`, and whose pages the machine counts. -/
theorem Tallied.more (events : List Event) (h : Tallied direction w)
    (hhist : w'.history = w.history ++ events) (hevents : Unsealed events)
    (hdir : w'.fsm.direction = w.fsm.direction)
    (hopen : w'.fsm.emittedComplete = w.fsm.emittedComplete)
    (hpages : w'.fsm.pagesTransferred = (w.fsm.counted (moved direction events)).pagesTransferred)
    (hbytes : w'.fsm.bytesTransferred = (w.fsm.counted (moved direction events)).bytesTransferred) :
    Tallied direction w' where
  dir := hdir.trans h.dir
  unfinished := hopen.trans h.unfinished
  unsealed := hhist ▸ h.unsealed.append hevents
  counts := by
    have hcounts := h.counts.counted (moved direction events)
    rw [hhist, moved_append]
    exact ⟨hpages.trans hcounts.pages, hbytes.trans hcounts.bytes⟩

/-- A computation that goes on with the session, or fails before its end. -/
def GoesOn {α : Type} (direction : Direction) (m : FsmM InMemorySyncStorage α) : Prop :=
  Spec (Tallied direction) m (fun _ => Tallied direction) fun _ w => Unsealed w.history

/-- A computation that goes on with the session or ends it. -/
def Ends (direction : Direction) (m : FsmM InMemorySyncStorage Unit) : Prop :=
  Spec (Tallied direction) m (fun _ w => Tallied direction w ∨ Sealed direction w)
    fun _ w => Unsealed w.history

theorem GoesOn.ends {m : FsmM InMemorySyncStorage Unit} (h : GoesOn direction m) :
    Ends direction m := by
  intro w hw
  have hm := h w hw
  cases hr : m.run w with
  | ok a w' => rw [hr] at hm; exact .inl hm
  | error e w' => rw [hr] at hm; exact hm

theorem goesOn_pure {α : Type} (a : α) : GoesOn direction (pure a) := Spec.pure fun _ => id

theorem goesOn_throw {α : Type} (e : String) :
    GoesOn direction (throw e : FsmM InMemorySyncStorage α) := Spec.throw fun _ h => h.unsealed

theorem goesOn_modifyFsm {f : SyncFsm → SyncFsm} (hdir : ∀ s, (f s).direction = s.direction)
    (hopen : ∀ s, (f s).emittedComplete = s.emittedComplete)
    (hpages : ∀ s, (f s).pagesTransferred = s.pagesTransferred)
    (hbytes : ∀ s, (f s).bytesTransferred = s.bytesTransferred) :
    GoesOn direction (modifyFsm f) := by
  intro w h
  refine ⟨(hdir _).trans h.dir, (hopen _).trans h.unfinished, h.unsealed, ?_, ?_⟩
  · exact (hpages _).trans h.counts.pages
  · exact (hbytes _).trans h.counts.bytes

theorem goesOn_onStorage {α : Type} (m : StoreM InMemorySyncStorage α) :
    GoesOn direction (onStorage m) := by
  intro w h
  rw [run_onStorage]
  cases m.run w.storage with
  | ok a storage => exact ⟨h.dir, h.unfinished, h.unsealed, h.counts⟩
  | error e storage => exact h.unsealed

/-- A frame without page bytes that does not end the session. -/
theorem goesOn_emit {msg : SyncMessage} (hentries : msg.entries = [])
    (hmsg : ∀ pages bytes, msg ≠ .syncComplete pages bytes) :
    GoesOn direction (emit msg) := by
  intro w h
  have hquiet : ∀ answer, Unsealed [.handed msg answer] := by
    intro answer pages bytes hmem
    simp only [List.mem_singleton, Event.handed.injEq] at hmem
    exact hmsg pages bytes hmem.1.symm
  rw [run_emit]
  cases hanswer : w.sink w.calls with
  | some e => exact h.unsealed.append (hquiet _)
  | none =>
    have hmoved : moved direction [.handed msg none] = [] := by
      cases direction with
      | push => rfl
      | pull =>
        show msg.entries ++ [] = []
        rw [hentries]
        rfl
    refine h.more [.handed msg none] (by rw [World.hand_history, hanswer]) (hquiet _) rfl rfl ?_ ?_
    · rw [hmoved, counted_nil]
      rfl
    · rw [hmoved, counted_nil]
      rfl

/-- Page bytes that are sent in a pull are counted first. -/
theorem goesOn_serve (p : UInt32) (data : Bytes) :
    GoesOn .pull (do modifyFsm fun f => f.count data.length; emit (.pageData p data)) := by
  intro w h
  have hquiet : ∀ answer, Unsealed [.handed (.pageData p data) answer] := by
    intro answer pages bytes hmem
    simp at hmem
  rw [EStateM.run_bind, run_modifyFsm]
  dsimp only
  rw [run_emit]
  cases hanswer : w.sink w.calls with
  | some e =>
    simp only [World.setFsm_sink, World.setFsm_calls, hanswer]
    exact h.unsealed.append (hquiet _)
  | none =>
    simp only [World.setFsm_sink, World.setFsm_calls, hanswer]
    have hcount := count_eq_counted w.fsm ⟨p, data⟩
    refine h.more [.handed (.pageData p data) none] ?_ (hquiet _) rfl rfl ?_ ?_
    · show w.history ++ [.handed (.pageData p data) (w.sink w.calls)] = _
      rw [hanswer]
    · exact congrArg pagesTransferred hcount
    · exact congrArg bytesTransferred hcount

/-- Whoever passes the open gate ends the session. -/
theorem ends_maybeEmitComplete : Ends direction (maybeEmitComplete emit) := by
  intro w h
  rw [run_maybeEmitComplete]
  by_cases hgate : w.fsm.GateOpen
  · simp only [hgate, if_true, EStateM.run_bind, run_emit]
    cases hanswer : w.sink w.calls with
    | some e =>
      refine h.unsealed.append fun pages bytes hmem => ?_
      simp [hanswer] at hmem
    | none =>
      have hmoved : moved direction
          [.handed (.syncComplete w.fsm.pagesTransferred w.fsm.bytesTransferred) none] = [] := by
        cases direction <;> rfl
      refine .inr ⟨rfl, ?_, w.history, h.unsealed, ?_⟩
      · show Counts (moved direction (w.history ++ [.handed _ (w.sink w.calls)])) _
        rw [hanswer, moved_append, hmoved, List.append_nil]
        exact ⟨h.counts.pages, h.counts.bytes⟩
      · show w.history ++ [.handed _ (w.sink w.calls)] = _
        rw [hanswer]
        rfl
  · simp only [hgate, if_false]
    exact .inl h

/-! ## The handlers -/

theorem goesOn_handleHello (protocolVersion pageSize : UInt32) :
    GoesOn direction (handleHello protocolVersion pageSize) := by
  unfold handleHello
  split
  · exact goesOn_throw _
  · refine Spec.bind (goesOn_modifyFsm (by simp) (by simp) (by simp) (by simp)) fun _ => ?_
    refine Spec.bind (goesOn_onStorage _) fun max => ?_
    refine Spec.bind (goesOn_modifyFsm (by simp) (by simp) (by simp) (by simp)) fun _ => ?_
    exact goesOn_emit rfl (by simp)

theorem goesOn_handlePageHash (pageNo : UInt32) (hash : Bytes) :
    GoesOn direction (handlePageHash pageNo hash) := by
  unfold handlePageHash
  refine Spec.bind (goesOn_modifyFsm (by simp) (by simp) (by simp) (by simp)) fun _ => ?_
  refine Spec.bind (goesOn_onStorage _) fun stored => ?_
  split
  · exact goesOn_pure ()
  · refine Spec.get_bind fun w h => ?_
    split
    · refine Spec.bind (goesOn_modifyFsm ?_ ?_ ?_ ?_) (fun _ => goesOn_emit rfl ?_) w h
      all_goals simp
    · next hpull =>
      obtain rfl : direction = .pull := h.dir.symm.trans hpull
      refine Spec.bind (goesOn_onStorage _) (fun found => ?_) w h
      split
      · exact goesOn_serve _ _
      · exact goesOn_pure ()

theorem goesOn_streamPage (pageNo : UInt32) : GoesOn .pull (streamPage pageNo) := by
  unfold streamPage
  refine Spec.bind (goesOn_onStorage _) fun found => ?_
  split
  · refine Spec.get_bind fun w h => ?_
    split
    · exact goesOn_pure () w h
    · exact goesOn_serve _ _ w h
  · exact goesOn_pure ()

theorem ends_handleComplete : Ends direction handleComplete := by
  have hrecord : GoesOn direction (record .complete) := by
    intro w h
    refine h.more [.complete] rfl (by simp [Unsealed]) rfl rfl ?_ ?_
    all_goals
      have hmoved : moved direction [.complete] = [] := by cases direction <;> rfl
      rw [hmoved, counted_nil]
      rfl
  unfold handleComplete
  refine Spec.bind hrecord fun _ => ?_
  refine Spec.bind (goesOn_modifyFsm (by simp) (by simp) (by simp) (by simp)) fun _ => ?_
  refine Spec.get_bind fun w h => ?_
  dsimp only
  split
  · next hpull =>
    obtain rfl : direction = .pull := h.dir.symm.trans hpull.1
    have hwalk : GoesOn .pull (streamUnclaimed (σ := InMemorySyncStorage)) := by
      intro w h
      rw [run_streamUnclaimed]
      exact Spec.forM goesOn_streamPage w h
    exact Spec.bind hwalk (fun _ => ends_maybeEmitComplete) w h
  · exact ends_maybeEmitComplete w h

variable [Blake3]

theorem goesOn_handlePageHashBatch (startPage endPage : UInt32) (clientCombined : Bytes) :
    GoesOn direction (handlePageHashBatch startPage endPage clientCombined) := by
  unfold handlePageHashBatch
  refine Spec.bind (goesOn_modifyFsm (by simp) (by simp) (by simp) (by simp)) fun _ => ?_
  refine Spec.bind (goesOn_onStorage _) fun stored => ?_
  split
  · exact goesOn_pure ()
  · exact goesOn_emit rfl (by simp)

/-! ## Page bytes of a push -/

/-- The entries before the last already end the session: nothing is awaited any more
when they are taken up, and the sink takes the `SyncComplete`. -/
def Straddles {σ : Type} (w : World σ) (entries : List PageDataEntry) : Prop :=
  w.fsm.completedHashPhase = true ∧ w.sink w.calls = none ∧ 2 ≤ entries.length ∧
    w.fsm.pendingRequests ⊆ (entries.dropLast.map PageDataEntry.pageNo).toFinset

instance {σ : Type} (w : World σ) (entries : List PageDataEntry) :
    Decidable (Straddles w entries) := by unfold Straddles; infer_instance

theorem tallied_taken (h : Tallied .push w) (entry : PageDataEntry) :
    Tallied .push (taken entry w) := by
  have hcount := count_eq_counted w.fsm entry
  refine h.more _ rfl (by simp [Unsealed]) rfl rfl ?_ ?_
  · show (w.fsm.count entry.data.length).pagesTransferred = (w.fsm.counted [entry]).pagesTransferred
    rw [hcount]
  · show (w.fsm.count entry.data.length).bytesTransferred = (w.fsm.counted [entry]).bytesTransferred
    rw [hcount]

/-- A gate that opens before the last entry straddles. -/
theorem straddles_of_open {entry : PageDataEntry} {rest : List PageDataEntry}
    (hgate : (taken entry w).fsm.GateOpen) (hsink : w.sink w.calls = none) (hrest : rest ≠ []) :
    Straddles w (entry :: rest) := by
  refine ⟨hgate.2.1, hsink, ?_, fun p hp => ?_⟩
  · have hlength := List.length_pos_iff.mpr hrest
    rw [List.length_cons]
    omega
  · have hpending : w.fsm.pendingRequests.erase entry.pageNo = ∅ := hgate.2.2
    rw [List.dropLast_cons_of_ne_nil hrest, List.map_cons, List.toFinset_cons, Finset.mem_insert]
    by_contra hmem
    have herase := Finset.mem_erase.mpr ⟨fun hsame => hmem (.inl hsame), hp⟩
    rw [hpending] at herase
    simp at herase

/-- The entries that are left straddle only if the whole batch does. -/
theorem Straddles.cons {entry : PageDataEntry} {rest : List PageDataEntry}
    (h : Straddles (taken entry w) rest) : Straddles w (entry :: rest) := by
  obtain ⟨hphase, hsink, hlength, hpending⟩ := h
  refine ⟨hphase, hsink, by simp; omega, fun p hp => ?_⟩
  rw [List.dropLast_cons_of_ne_nil (by rintro rfl; simp at hlength), List.map_cons,
    List.toFinset_cons, Finset.mem_insert]
  by_cases hsame : p = entry.pageNo
  · exact .inl hsame
  · exact .inr (hpending (Finset.mem_erase.mpr ⟨hsame, hp⟩))

theorem ends_writeBatch (nowMs : Int64) (entries : List PageDataEntry)
    (h : Tallied .push w) (hcond : ¬ Straddles w entries) :
    Outcome (fun _ w => Tallied .push w ∨ Sealed .push w) (fun _ w => Unsealed w.history)
      ((writeBatch nowMs entries).run w) := by
  induction entries generalizing w with
  | nil => exact .inl h
  | cons entry rest ih =>
    have htaken := tallied_taken h entry
    rw [writeBatch, List.forM_cons, EStateM.run_bind, run_handlePageData]
    by_cases hgate : (taken entry w).fsm.GateOpen
    · have hends := ends_maybeEmitComplete (taken entry w) htaken
      cases hr : (maybeEmitComplete emit).run (taken entry w) with
      | error e w' =>
        rw [hr] at hends
        exact hends
      | ok a w' =>
        have hsink : w.sink w.calls = none := by
          rw [run_maybeEmitComplete, if_pos hgate, EStateM.run_bind, run_emit] at hr
          cases hanswer : w.sink w.calls with
          | none => rfl
          | some e => simp [hanswer] at hr
        rw [hr] at hends
        cases rest with
        | nil => exact hends
        | cons next rest => exact absurd (straddles_of_open hgate hsink (by simp)) hcond
    · rw [run_maybeEmitComplete, if_neg hgate]
      exact ih htaken fun hstraddles => hcond hstraddles.cons

/-! ## Calls -/

/-- The call is one after which the totals are right: a pull that was greeted is fed no
page bytes, and no batch goes on after the end of the session. -/
structure Orderly {σ : Type} (w : World σ) (entries : List PageDataEntry) : Prop where
  pull : w.fsm.direction = .pull → w.fsm.sawHello = true → entries = []
  push : ¬ Straddles w entries

instance {σ : Type} (w : World σ) (entries : List PageDataEntry) :
    Decidable (Orderly w entries) :=
  decidable_of_iff ((w.fsm.direction = .pull → w.fsm.sawHello = true → entries = []) ∧
    ¬ Straddles w entries) ⟨fun h => ⟨h.1, h.2⟩, fun h => ⟨h.pull, h.push⟩⟩

/-- A frame without page bytes. -/
theorem ends_apply_quiet (nowMs : Int64) {msg : SyncMessage} (hentries : msg.entries = []) :
    Ends direction (apply nowMs msg) := by
  unfold apply
  refine Spec.get_bind fun w h => ?_
  split
  · split
    case h_2 pageNo hash => exact (goesOn_handlePageHash pageNo hash).ends w h
    case h_3 s e combined => exact (goesOn_handlePageHashBatch s e combined).ends w h
    case h_4 pageNo data => cases hentries
    case h_5 pages =>
      obtain rfl : pages = [] := hentries
      exact .inl h
    case h_6 => exact ends_handleComplete w h
    all_goals exact h.unsealed
  · split
    · exact (goesOn_handleHello _ _).ends w h
    · exact h.unsealed

theorem ends_apply (nowMs : Int64) (msg : SyncMessage) (h : Tallied direction w)
    (hcond : Orderly w msg.entries) :
    Outcome (fun _ w => Tallied direction w ∨ Sealed direction w) (fun _ w => Unsealed w.history)
      ((apply nowMs msg).run w) := by
  by_cases hentries : msg.entries = []
  · exact ends_apply_quiet nowMs hentries w h
  · cases hsaw : w.fsm.sawHello with
    | false =>
      rw [apply_entries_early nowMs hentries hsaw]
      exact h.unsealed
    | true =>
      rw [apply_entries nowMs hentries hsaw]
      obtain rfl : direction = .push := by
        cases direction with
        | push => rfl
        | pull => exact absurd (hcond.pull h.dir hsaw) hentries
      exact ends_writeBatch nowMs msg.entries h hcond.push

/-! ## The record of the store -/

/-- The store is what the recorded writes made of the store that the session found. -/
def Recorded (pages : Pages) (w : World InMemorySyncStorage) : Prop :=
  w.storage = pages.replay (storedBy w.history)

theorem Recorded.quiet {pages : Pages} (events : List Event) (h : Recorded pages w)
    (hstorage : w'.storage = w.storage) (hhist : w'.history = w.history ++ events)
    (hevents : storedBy events = []) : Recorded pages w' := by
  rw [Recorded, hstorage, hhist, storedBy_append, hevents, List.append_nil]
  exact h

theorem Act.recorded {msg : SyncMessage} {pages : Pages} (hact : Act msg w w')
    (h : Recorded pages w) : Recorded pages w' := by
  cases hact with
  | read hm => exact h.quiet [] (hm.final_run _) (List.append_nil _).symm rfl
  | @put p data _ _ _ hput =>
    rw [run_putPage] at hput
    obtain ⟨-, rfl⟩ := EStateM.Result.ok.inj hput
    show Pages.write w.storage ⟨p, data⟩ = pages.replay (storedBy (w.history ++ [.stored p _]))
    rw [storedBy_append, Pages.replay_append, ← h]
    rfl
  | putFailed hput => cases hput
  | hello _ | claim _ _ => exact h.quiet [] rfl (List.append_nil _).symm rfl
  | _ => exact h.quiet [_] rfl rfl rfl

theorem recorded_apply {pages : Pages} (nowMs : Int64) (msg : SyncMessage)
    (h : Recorded pages w) : Recorded pages (final ((apply nowMs msg).run w)) :=
  (apply_acts nowMs msg w).keeps (fun _ _ hact => hact.recorded) h

/-- At the end of a session `SyncComplete` is right and final. -/
theorem Sealed.final {pages : Pages} (h : Sealed direction w) (hstore : Recorded pages w) :
    Final direction pages w := by
  obtain ⟨front, hfront, hhist⟩ := h.last
  intro before count bytes after heq
  rw [hhist] at heq
  rcases List.eq_nil_or_concat after with rfl | ⟨after', last, rfl⟩
  · obtain ⟨rfl, hlast⟩ := List.append_inj' heq rfl
    obtain ⟨rfl, rfl⟩ : w.fsm.pagesTransferred = count ∧ w.fsm.bytesTransferred = bytes := by
      simpa using hlast
    refine ⟨h.counts.pages, h.counts.bytes, hstore.trans ?_⟩
    rw [hhist, storedBy_append]
    show pages.replay (storedBy front ++ []) = _
    rw [List.append_nil]
  · -- It would have been sent before.
    rw [List.concat_eq_append, ← List.cons_append, ← List.append_assoc] at heq
    obtain ⟨rfl, -⟩ := List.append_inj' heq rfl
    exact absurd (by simp) (hfront count bytes)

end SyncFsm

/-! ## The session -/

namespace SessionTask

open SyncFsm (Tallied Sealed Orderly Recorded)

variable [Blake3] {direction : Direction} {pages : Pages}

/-- Every call of the run is orderly. -/
def OrderlyRun {σ : Type} [SyncStorage σ] (task : SessionTask σ) :
    List (Int64 × WebsocketEvent) → Prop
  | [] => True
  | (nowMs, event) :: events =>
    task.running = true →
      Orderly task.world event.entries ∧ OrderlyRun (task.step nowMs event) events

instance decidableOrderlyRun {σ : Type} [SyncStorage σ] (task : SessionTask σ) :
    (events : List (Int64 × WebsocketEvent)) → Decidable (OrderlyRun task events)
  | [] => .isTrue trivial
  | (nowMs, event) :: events =>
    have := decidableOrderlyRun (task.step nowMs event) events
    inferInstanceAs (Decidable (task.running = true →
      Orderly task.world event.entries ∧ OrderlyRun (task.step nowMs event) events))

/-- Where a session stands: it goes on, or it is over and was right at its end. -/
structure Kept (direction : Direction) (pages : Pages)
    (task : SessionTask InMemorySyncStorage) : Prop where
  recorded : Recorded pages task.world
  running : task.running = true → Tallied direction task.world
  final : Final direction pages task.world

theorem Kept.of_unsealed {w : World InMemorySyncStorage} (hstore : Recorded pages w)
    (h : Unsealed w.history) (closed : Option (UInt16 × String)) :
    Kept direction pages ⟨w, false, closed⟩ where
  recorded := hstore
  running hrunning := by cases hrunning
  final := .of_unsealed h

theorem Kept.of_sendError {w : World InMemorySyncStorage} (hstore : Recorded pages w)
    (h : Unsealed w.history) (message : String) (closed : Option (UInt16 × String)) :
    Kept direction pages ⟨sendError w message, false, closed⟩ :=
  .of_unsealed (w := sendError w message)
    (hstore.quiet [.handed (.error message) (w.sink w.calls)] rfl rfl rfl)
    (h.append fun _ _ hmem => by simp at hmem) closed

/-- A turn with a message the machine takes up. -/
theorem Kept.apply {task : SessionTask InMemorySyncStorage} (h : Kept direction pages task)
    (hrunning : task.running = true) (nowMs : Int64) (msg : SyncMessage)
    (hcond : Orderly task.world msg.entries) :
    Kept direction pages (task.step nowMs (.binary (.ok msg))) := by
  have hends := SyncFsm.ends_apply nowMs msg (h.running hrunning) hcond
  have hstore := SyncFsm.recorded_apply nowMs msg h.recorded
  cases hr : (SyncFsm.apply nowMs msg).run task.world with
  | error e w =>
    rw [hr] at hends hstore
    simp only [step, hr, Effect.final_error, Effect.fault_error]
    split
    · exact .of_unsealed hstore hends _
    · exact .of_sendError hstore hends _ _
  | ok a w =>
    rw [hr] at hends hstore
    have hfinal : Final direction pages w := by
      rcases hends with htallied | hsealed
      · exact .of_unsealed htallied.unsealed
      · exact hsealed.final hstore
    simp only [step, hr, Effect.final_ok, Effect.fault_ok]
    split
    · exact ⟨hstore, fun hrunning => Bool.noConfusion hrunning, hfinal⟩
    · split
      · exact ⟨hstore, fun hrunning => Bool.noConfusion hrunning, hfinal⟩
      · next hopen =>
        -- The session goes on only if it is not sealed.
        exact ⟨hstore, fun _ => hends.resolve_right fun hsealed => hopen hsealed.finished, hfinal⟩

theorem Kept.step {task : SessionTask InMemorySyncStorage} (h : Kept direction pages task)
    (hrunning : task.running = true) (nowMs : Int64) (event : WebsocketEvent)
    (hcond : Orderly task.world event.entries) :
    Kept direction pages (task.step nowMs event) := by
  have hunsealed := (h.running hrunning).unsealed
  match event with
  | .binary (.ok msg) => exact h.apply hrunning nowMs msg hcond
  | .text | .binary (.error _) => exact .of_sendError h.recorded hunsealed _ _
  | .error => exact .of_unsealed h.recorded hunsealed _
  | .close =>
    simp only [SessionTask.step]
    rw [SyncFsm.run_clientClosed, Effect.final_ok]
    split
    · -- The frame goes to the callback of the closed transport.
      refine ⟨h.recorded.quiet [.dropped _] rfl rfl rfl,
        fun hrunning => Bool.noConfusion hrunning, ?_⟩
      exact .of_unsealed (hunsealed.append fun _ _ hmem => by simp at hmem)
    · exact .of_unsealed h.recorded hunsealed _

theorem Kept.run {task : SessionTask InMemorySyncStorage} (h : Kept direction pages task)
    {events : List (Int64 × WebsocketEvent)} (hcond : OrderlyRun task events) :
    Kept direction pages (task.run events) := by
  induction events generalizing task with
  | nil => exact h
  | cons event events ih =>
    obtain ⟨nowMs, event⟩ := event
    cases hrunning : task.running with
    | false => rwa [run_of_stopped hrunning]
    | true =>
      obtain ⟨hfirst, hrest⟩ := hcond hrunning
      simp only [SessionTask.run, hrunning, if_true]
      exact ih (h.step hrunning nowMs event hfirst) hrest

theorem kept_spawn (direction : Direction) (pages : Pages) (refuses : Nat → Bool) :
    Kept direction pages (spawn direction pages refuses) := by
  have hunsealed : Unsealed (spawn direction pages refuses).world.history :=
    fun _ _ hmem => by cases hmem
  have hmoved : moved direction [] = [] := by cases direction <;> rfl
  refine ⟨rfl, fun _ => ⟨rfl, rfl, hunsealed, ?_⟩, .of_unsealed hunsealed⟩
  show SyncFsm.Counts (moved direction []) _
  rw [hmoved]
  exact ⟨rfl, rfl⟩

omit [Blake3] in
theorem orderly_view {σ : Type} [LawfulStorage σ] (w : World σ) (entries : List PageDataEntry) :
    Orderly w.view entries ↔ Orderly w entries :=
  ⟨fun h => ⟨h.pull, h.push⟩, fun h => ⟨h.pull, h.push⟩⟩

/-- The condition reads nothing of the storage but what its calls show. -/
theorem orderlyRun_view {σ : Type} [LawfulStorage σ] (task : SessionTask σ)
    (events : List (Int64 × WebsocketEvent)) :
    OrderlyRun task.view events ↔ OrderlyRun task events := by
  induction events generalizing task with
  | nil => exact Iff.rfl
  | cons event events ih =>
    obtain ⟨nowMs, event⟩ := event
    simp only [OrderlyRun]
    rw [step_view, ih]
    exact imp_congr Iff.rfl (and_congr (orderly_view task.world _) Iff.rfl)

/-- In every session all of whose calls are orderly, over any storage whose calls
succeed, `SyncComplete` is right and final: its totals are those of the pages moved in
the whole session, and the store ends as it was when it was sent. -/
theorem sync_complete_final {σ : Type} [LawfulStorage σ] (direction : Direction) (s : σ)
    (refuses : Nat → Bool) {events : List (Int64 × WebsocketEvent)}
    (hcond : OrderlyRun (spawn direction s refuses) events) :
    Final direction (LawfulStorage.pages s) ((spawn direction s refuses).run events).world := by
  rw [← orderlyRun_view, view_spawn] at hcond
  have hkept := (kept_spawn direction (LawfulStorage.pages s) refuses).run hcond
  rw [← view_spawn, run_view] at hkept
  exact hkept.final

section Samples

omit [Blake3]

/-- A push of two pages in one batch. -/
def batched : List (Int64 × WebsocketEvent) :=
  [(0, .binary (.ok (.hello 1 4096 2))), (0, .binary (.ok (.pageHash 1 [7]))),
    (0, .binary (.ok (.pageHash 2 [8]))), (0, .binary (.ok .complete)),
    (0, .binary (.ok (.pageDataBatch [⟨1, [1]⟩, ⟨2, [2]⟩])))]

theorem sync_complete_final_batched :
    letI := Blake3.onSamples
    letI w := ((spawn .push (∅ : Pages) fun _ => false).run batched).world
    .handed (.syncComplete 2 2) none ∈ w.history ∧ Final .push ∅ w := by
  let _ := Blake3.onSamples
  refine ⟨by decide +kernel, ?_⟩
  exact sync_complete_final .push (∅ : Pages) (fun _ => false) (by decide +kernel)

/-- The same batch, though only its first page was asked for. -/
def straddling : List (Int64 × WebsocketEvent) :=
  [(0, .binary (.ok (.hello 1 4096 2))), (0, .binary (.ok (.pageHash 1 [7]))),
    (0, .binary (.ok .complete)), (0, .binary (.ok (.pageDataBatch [⟨1, [1]⟩, ⟨2, [2]⟩])))]

/-- A batch that goes on after the end is stored, and not counted. -/
theorem sync_complete_early :
    letI := Blake3.onSamples
    ¬ ∀ (direction : Direction) (pages : Pages) (refuses : Nat → Bool)
        (events : List (Int64 × WebsocketEvent)),
      Final direction pages ((spawn direction pages refuses).run events).world := by
  let _ := Blake3.onSamples
  intro h
  have hhistory : ((spawn .push (∅ : Pages) fun _ => false).run straddling).world.history =
      [.handed (.helloReply 1 4096 0) none, .handed (.requestPage 1) none, .complete,
        .pageData 1 [1], .stored 1 ⟨[1], pageHash [1]⟩] ++
      .handed (.syncComplete 1 1) none ::
        [.pageData 2 [2], .stored 2 ⟨[2], pageHash [2]⟩] := by decide +kernel
  have hfinal := h .push ∅ (fun _ => false) straddling
  generalize ((spawn .push (∅ : Pages) fun _ => false).run straddling).world = w at hhistory hfinal
  obtain ⟨hcount, -⟩ := hfinal _ _ _ _ hhistory
  rw [hhistory] at hcount
  exact absurd hcount (by decide)

end Samples

end SessionTask

end EdgeReplica
