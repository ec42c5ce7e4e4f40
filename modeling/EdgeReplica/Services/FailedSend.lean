-- SUMMARY: A frame that the sink refuses ends the call at once, with the error of the sink and no further frame.
import EdgeReplica.Lib.Simulation
import EdgeReplica.Services.SyncFsmActs

/-!
# A failed send

Two runs of one call are compared: in the first the sink refuses its frame number
`limit`, in the second it takes every frame. Up to the refusal the two go alike;
the refusal is the last thing the first run does, and the second can only hand over
more frames. Storage calls may fail in either, at the same places.
-/

namespace EdgeReplica

open Effect (Cut final fault)

/-- The frames that were handed to the sink, whatever it answered. -/
def handedIn (history : List Event) : List SyncMessage :=
  history.filterMap fun
    | .handed msg _ => some msg
    | _ => none

theorem handedIn_append (h₁ h₂ : List Event) :
    handedIn (h₁ ++ h₂) = handedIn h₁ ++ handedIn h₂ := List.filterMap_append

namespace World

variable {σ : Type}

/-- The same world with a sink that takes every frame. -/
def reliable (w : World σ) : World σ := { w with sink := fun _ => none }

theorem handedIn_hand (w : World σ) (msg : SyncMessage) :
    handedIn (w.hand msg).history = handedIn w.history ++ [msg] := handedIn_append _ _

theorem handedIn_record (w : World σ) {e : Event} (he : ∀ msg answer, e ≠ .handed msg answer) :
    handedIn (w.record e).history = handedIn w.history := by
  rw [record_history, handedIn_append]
  cases e with
  | handed msg answer => exact absurd rfl (he msg answer)
  | _ => exact List.append_nil _

end World

/-- The frames that were handed to the sink from the one world to the other. -/
def handedSince {σ : Type} (before after : World σ) : List SyncMessage :=
  (handedIn after.history).drop (handedIn before.history).length

namespace SyncFsm

variable {σ : Type} {limit : Nat} {e : String}

/-! ## The two runs -/

/-- No frame was refused so far: the worlds differ in their sinks only. -/
structure Running (limit : Nat) (e : String) (w v : World σ) : Prop where
  same : v = w.reliable
  calls : w.calls ≤ limit
  takes : ∀ i, w.calls ≤ i → i < limit → w.sink i = none
  refuses : w.sink limit = some e

/-- The first run has stopped at the refusal; the second has handed over the same
frames, and maybe more. -/
structure Stopped (limit : Nat) (e e' : String) (w v : World σ) : Prop where
  error : e' = e
  calls : w.calls = limit + 1
  handed : handedIn w.history <+: handedIn v.history

abbrev Cuts {α : Type} (limit : Nat) (e : String) (m : FsmM σ α) : Prop :=
  Cut (Running limit e) (Stopped limit e) m

/-- What leaves sink and calls as they are, and hands over no frame, does the same
in both runs. -/
theorem Running.frame {w v : World σ} {f : World σ → World σ} (h : Running limit e w v)
    (hf : (f w).reliable = f w.reliable) (hsink : (f w).sink = w.sink)
    (hcalls : (f w).calls = w.calls) : Running limit e (f w) (f v) where
  same := by rw [h.same, hf]
  calls := hcalls ▸ h.calls
  takes := by rw [hsink, hcalls]; exact h.takes
  refuses := hsink ▸ h.refuses

theorem Stopped.frame {e' : String} {w v v' : World σ} (h : Stopped limit e e' w v)
    (hhanded : handedIn v'.history = handedIn v.history) : Stopped limit e e' w v' where
  error := h.error
  calls := h.calls
  handed := hhanded ▸ h.handed

theorem modifyFsm_cuts (f : SyncFsm → SyncFsm) : Cuts limit e (modifyFsm f : FsmM σ Unit) :=
  Cut.modify (fun _ _ h => h.frame (f := fun w => w.setFsm f) rfl rfl rfl)
    fun _ _ _ h => h.frame rfl

theorem record_cuts {event : Event} (hevent : ∀ msg answer, event ≠ .handed msg answer) :
    Cuts limit e (record event : FsmM σ Unit) :=
  Cut.modify (fun _ _ h => h.frame (f := fun w => w.record event) rfl rfl rfl)
    fun _ _ _ h => h.frame (World.handedIn_record _ hevent)

theorem onStorage_cuts {α : Type} (m : StoreM σ α) : Cuts limit e (onStorage m) where
  runs w v h := by
    obtain rfl := h.same
    rw [run_onStorage, run_onStorage]
    have hstorage : w.reliable.storage = w.storage := rfl
    rw [hstorage]
    cases m.run w.storage with
    | ok a storage => exact .inl ⟨rfl, h.frame (f := fun w => w.withStorage storage) rfl rfl rfl⟩
    | error e' storage =>
      exact .inl ⟨rfl, h.frame (f := fun w => w.withStorage storage) rfl rfl rfl⟩
  stays e' w v h := by
    rw [run_onStorage]
    cases m.run v.storage with
    | ok a storage => exact h.frame rfl
    | error e'' storage => exact h.frame rfl

/-- The frame with the number `limit` is where the runs part. -/
theorem emit_cuts (msg : SyncMessage) : Cuts limit e (emit msg : FsmM σ Unit) where
  runs w v h := by
    obtain rfl := h.same
    have hok : (emit msg).run w.reliable = .ok () (w.reliable.hand msg) := rfl
    rw [run_emit, hok]
    rcases Nat.lt_or_eq_of_le h.calls with hbefore | hlimit
    · have hans := h.takes w.calls (Nat.le_refl _) hbefore
      rw [hans]
      refine .inl ⟨rfl, ?_, hbefore, ?_, h.refuses⟩
      · simp only [World.hand, World.reliable, hans]
      · intro i hi
        exact h.takes i (Nat.le_of_succ_le hi)
    · rw [hlimit, h.refuses]
      refine .inr ⟨e, w.hand msg, rfl, rfl, by rw [World.hand_calls, hlimit], ?_⟩
      rw [World.handedIn_hand, Effect.final_ok, World.handedIn_hand]
      exact List.prefix_refl _
  stays e' w v h := by
    have hhanded : handedIn w.history <+: handedIn (v.hand msg).history := by
      rw [World.handedIn_hand]
      exact h.handed.trans (List.prefix_append _ _)
    rw [run_emit]
    cases v.sink v.calls with
    | none => exact ⟨h.error, h.calls, hhanded⟩
    | some e'' => exact ⟨h.error, h.calls, hhanded⟩

/-- What is decided without a look at the sink is the same in both runs. -/
theorem get_cuts {α : Type} {next : World σ → FsmM σ α} (hsame : ∀ w, next w.reliable = next w)
    (h : ∀ w, Cuts limit e (next w)) : Cuts limit e (get >>= next) := by
  refine Cut.get_bind ?_ h
  intro w v hwv
  rw [hwv.same, hsame]

/-! ## The handlers -/

theorem maybeEmitComplete_cuts : Cuts limit e (maybeEmitComplete emit : FsmM σ Unit) := by
  refine get_cuts (fun _ => rfl) fun w => ?_
  dsimp only
  split
  · exact Cut.pure _
  · exact Cut.bind (emit_cuts _) fun _ => modifyFsm_cuts _

variable [SyncStorage σ]

theorem handleHello_cuts (protocolVersion pageSize : UInt32) :
    Cuts limit e (handleHello protocolVersion pageSize : FsmM σ Unit) := by
  unfold handleHello
  split
  · exact Cut.throw _
  · refine Cut.bind (modifyFsm_cuts _) fun _ => ?_
    refine Cut.bind (onStorage_cuts _) fun max => ?_
    exact Cut.bind (modifyFsm_cuts _) fun _ => emit_cuts _

theorem handlePageHash_cuts (pageNo : UInt32) (hash : Bytes) :
    Cuts limit e (handlePageHash pageNo hash : FsmM σ Unit) := by
  unfold handlePageHash
  refine Cut.bind (modifyFsm_cuts _) fun _ => ?_
  refine Cut.bind (onStorage_cuts _) fun stored => ?_
  split
  · exact Cut.pure _
  · refine get_cuts (fun _ => rfl) fun w => ?_
    split
    · exact Cut.bind (modifyFsm_cuts _) fun _ => emit_cuts _
    · refine Cut.bind (onStorage_cuts _) fun found => ?_
      split
      · exact Cut.bind (modifyFsm_cuts _) fun _ => emit_cuts _
      · exact Cut.pure _

theorem streamPage_cuts (pageNo : UInt32) :
    Cuts limit e (streamPage pageNo : FsmM σ Unit) := by
  unfold streamPage
  refine Cut.bind (onStorage_cuts _) fun found => ?_
  split
  · refine get_cuts (fun _ => rfl) fun w => ?_
    split
    · exact Cut.pure _
    · exact Cut.bind (modifyFsm_cuts _) fun _ => emit_cuts _
  · exact Cut.pure _

/-- The slot that carries the refusal past the walk brings it out as it was. -/
theorem streamUnclaimed_cuts : Cuts limit e (streamUnclaimed : FsmM σ Unit) := by
  have hwalk : (streamUnclaimed : FsmM σ Unit) =
      (do forM (pageRange 1 (← get).fsm.serverMaxPage) (streamPage (σ := σ))) :=
    funext run_streamUnclaimed
  rw [hwalk]
  exact get_cuts (fun _ => rfl) fun w => Cut.forM streamPage_cuts

theorem handleComplete_cuts : Cuts limit e (handleComplete : FsmM σ Unit) := by
  unfold handleComplete
  refine Cut.bind (record_cuts (by simp)) fun _ => ?_
  refine Cut.bind (modifyFsm_cuts _) fun _ => ?_
  refine get_cuts (fun _ => rfl) fun w => ?_
  dsimp only
  split
  · exact Cut.bind streamUnclaimed_cuts fun _ => maybeEmitComplete_cuts
  · exact maybeEmitComplete_cuts

variable [Blake3]

theorem handlePageHashBatch_cuts (startPage endPage : UInt32) (clientCombined : Bytes) :
    Cuts limit e (handlePageHashBatch startPage endPage clientCombined : FsmM σ Unit) := by
  unfold handlePageHashBatch
  refine Cut.bind (modifyFsm_cuts _) fun _ => ?_
  refine Cut.bind (onStorage_cuts _) fun stored => ?_
  split
  · exact Cut.pure _
  · exact emit_cuts _

theorem handlePageData_cuts (nowMs : Int64) (pageNo : UInt32) (data : Bytes) :
    Cuts limit e (handlePageData nowMs pageNo data : FsmM σ Unit) := by
  unfold handlePageData
  refine Cut.bind (record_cuts (by simp)) fun _ => ?_
  refine Cut.bind (modifyFsm_cuts _) fun _ => ?_
  refine Cut.bind (onStorage_cuts _) fun _ => ?_
  refine Cut.bind (record_cuts (by simp)) fun _ => ?_
  exact Cut.bind (modifyFsm_cuts _) fun _ => maybeEmitComplete_cuts

theorem apply_cuts (nowMs : Int64) (msg : SyncMessage) :
    Cuts limit e (apply nowMs msg : FsmM σ Unit) := by
  unfold apply
  refine get_cuts (fun _ => rfl) fun w => ?_
  split
  · split
    case h_2 pageNo hash => exact handlePageHash_cuts pageNo hash
    case h_3 s e combined => exact handlePageHashBatch_cuts s e combined
    case h_4 pageNo data => exact handlePageData_cuts nowMs pageNo data
    case h_5 pages => exact Cut.forM fun entry => handlePageData_cuts nowMs _ _
    case h_6 => exact handleComplete_cuts
    all_goals exact Cut.throw _
  · split
    · exact handleHello_cuts _ _
    · exact Cut.throw _

/-! ## Calls and frames -/

/-- One frame is handed over for each call of the sink, behind those before. -/
structure Counted (start w : World σ) : Prop where
  count : (handedIn w.history).length + start.calls = (handedIn start.history).length + w.calls
  grown : handedIn start.history <+: handedIn w.history

omit [SyncStorage σ] [Blake3] in
theorem Counted.hand {start w : World σ} (h : Counted start w) (msg : SyncMessage) :
    Counted start (w.hand msg) where
  count := by
    rw [World.handedIn_hand, World.hand_calls, List.length_append, List.length_singleton]
    have hcount := h.count
    omega
  grown := by
    rw [World.handedIn_hand]
    exact h.grown.trans (List.prefix_append _ _)

omit [SyncStorage σ] [Blake3] in
theorem Counted.frame {start w w' : World σ} (h : Counted start w)
    (hhanded : handedIn w'.history = handedIn w.history) (hcalls : w'.calls = w.calls) :
    Counted start w' where
  count := by rw [hhanded, hcalls]; exact h.count
  grown := hhanded ▸ h.grown

theorem Act.counted {msg : SyncMessage} {start w w' : World σ} (hact : Act msg w w')
    (h : Counted start w) : Counted start w' := by
  cases hact with
  | read _ | hello _ | claim _ _ | putFailed _ => exact h.frame rfl rfl
  | greet _ _ => exact Counted.hand (w := w.setFsm _) (h.frame rfl rfl) _
  | request _ _ _ => exact Counted.hand (w := w.setFsm _) (h.frame rfl rfl) _
  | serve pageNo data _ _ => exact Counted.hand (w := w.setFsm _) (h.frame rfl rfl) _
  | mismatch _ _ => exact h.hand _
  | take _ _ => exact h.frame (World.handedIn_record w (by simp)) rfl
  | @put pageNo data nowMs storage _ _ =>
    exact h.frame (World.handedIn_record (w.withStorage storage) (by simp)) rfl
  | complete _ _ => exact h.frame (World.handedIn_record w (by simp)) rfl
  | finish _ _ => exact (h.hand _).frame rfl rfl
  | refused _ _ => exact h.hand _

theorem counted_apply (nowMs : Int64) (msg : SyncMessage) (w : World σ) :
    Counted w (final ((apply nowMs msg).run w)) :=
  (apply_acts nowMs msg w).keeps (fun _ _ hact => hact.counted) ⟨rfl, List.prefix_refl _⟩

/-- If the sink refuses the frame number `k` of a call, the call has handed over that
frame and those before it, the same that it hands to a sink that takes every frame,
and fails with the error of the sink. -/
theorem apply_stops {w : World σ} {nowMs : Int64} {msg : SyncMessage} {k : Nat}
    (htakes : ∀ i < k, w.sink (w.calls + i) = none) (hrefuses : w.sink (w.calls + k) = some e)
    (hcalled : w.calls + k < (final ((apply nowMs msg).run w)).calls) :
    fault ((apply nowMs msg).run w) = some e ∧
      (final ((apply nowMs msg).run w)).calls = w.calls + (k + 1) ∧
      (handedSince w (final ((apply nowMs msg).run w))).length = k + 1 ∧
      handedSince w (final ((apply nowMs msg).run w)) =
        (handedSince w (final ((apply nowMs msg).run w.reliable))).take (k + 1) := by
  have hrunning : Running (w.calls + k) e w w.reliable := by
    refine ⟨rfl, Nat.le_add_right _ _, ?_, hrefuses⟩
    intro i hle hlt
    obtain ⟨j, rfl⟩ := Nat.exists_eq_add_of_le hle
    exact htakes j (Nat.lt_of_add_lt_add_left hlt)
  have hcounted := counted_apply nowMs msg w
  rcases (apply_cuts nowMs msg).runs w w.reliable hrunning with halike | ⟨e', w', hrun, hstopped⟩
  · -- Had the two gone alike to their ends, the frame would not have been reached.
    exact absurd halike.final.calls (Nat.not_le.mpr hcalled)
  · rw [hrun, Effect.final_error] at hcounted ⊢
    have hlength : (handedSince w w').length = k + 1 := by
      have hcount := hcounted.count
      have hcalls := hstopped.calls
      rw [handedSince, List.length_drop]
      omega
    refine ⟨congrArg some hstopped.error, by rw [hstopped.calls, Nat.add_assoc], hlength, ?_⟩
    rw [← hlength]
    exact List.prefix_iff_eq_take.mp (hstopped.handed.drop _)

omit [Blake3] in
/-- The walk of a pull stops at the second of three pages. -/
theorem apply_stops_walk :
    letI := Blake3.onSamples
    letI w : World InMemorySyncStorage := {
      storage := ((((∅ : Pages).insert 1 ⟨[1], [7]⟩).insert 2 ⟨[2], [8]⟩).insert 3 ⟨[3], [9]⟩)
      fsm := { direction := .pull, sawHello := true, serverMaxPage := 3 }
      sink := fun k => if k = 1 then some "ws send" else none }
    fault ((apply 0 .complete).run w) = some "ws send" ∧
      handedSince w (final ((apply 0 .complete).run w)) = [.pageData 1 [1], .pageData 2 [2]] := by
  let _ := Blake3.onSamples
  let w : World InMemorySyncStorage := {
    storage := ((((∅ : Pages).insert 1 ⟨[1], [7]⟩).insert 2 ⟨[2], [8]⟩).insert 3 ⟨[3], [9]⟩)
    fsm := { direction := .pull, sawHello := true, serverMaxPage := 3 }
    sink := fun k => if k = 1 then some "ws send" else none }
  have hcalled : w.calls + 1 < (final ((apply 0 .complete).run w)).calls := by decide +kernel
  have hreliable : (handedSince w (final ((apply 0 .complete).run w.reliable))).take 2 =
      [.pageData 1 [1], .pageData 2 [2]] := by decide +kernel
  obtain ⟨hfault, -, -, hhanded⟩ := apply_stops (e := "ws send") (by decide) (by decide) hcalled
  exact ⟨hfault, hhanded.trans hreliable⟩

end SyncFsm

end EdgeReplica
